import Mathlib.Algebra.BigOperators.Group.Finset.Basic
import Mathlib.Algebra.Order.BigOperators.Group.Finset
import Mathlib.Data.Fintype.Basic
import Mathlib.Logic.Function.Basic
import ScorepPluginUcx.Lib.Fairness

/-!
# Processes with collective operations

Each process of a group runs a list of instructions on a state of its own. The group has two
collective operations, a barrier and a broadcast. A process enters an operation and leaves it
later; the `k`-th operation that one process enters belongs together with the `k`-th of every
other process. Nobody leaves a barrier before all have entered it, and nobody leaves a broadcast
before its root has. How much longer an operation keeps a process is left to a parameter.

A list of events is a history that the processes agree on if each of them, running alone,
gets through its program with the data of this history. If there is such a history, then
all orders in which the processes take their steps lead to the same end.

## Main definitions

* `Instr`, `barrier`, `bcast`: programs.
* `step`: the next step of one process.
* `Replays`: a program goes through against a history.

## Main results

* `follows_final`: every run follows the history.
* `exists_finished`: a run that never leaves out a process for good gets to the end.
-/

namespace Collective

universe u v w x
variable {ι : Type u} {σ : Type v} {κ : Type w} {β : Type x}

/-- A collective operation, with what its caller says about the data. -/
inductive Op (ι : Type u) (κ : Type w) where
  | barrier
  | bcast (root : ι) (kind : κ)
  deriving DecidableEq

/-- An entry into an operation. The root of a broadcast sends data with it. -/
structure Event (ι : Type u) (κ : Type w) (β : Type x) where
  op : Op ι κ
  sent : Option β

/-- An instruction of a process. A computation without a result never ends. -/
inductive Instr (ι : Type u) (σ : Type v) (κ : Type w) (β : Type x) where
  | compute (f : σ → Option σ)
  | enter (op : σ → Op ι κ) (data : σ → Option β)
  | leave (receive : β → σ → σ)

/-- Wait for all. -/
def barrier : List (Instr ι σ κ β) :=
  [.enter (fun _ => .barrier) fun _ => none, .leave fun _ s => s]

/-- Broadcast from `root`: it sends `data`, and the others `receive`. -/
def bcast (root : ι) (kind : σ → κ) (data : σ → β) (receive : β → σ → σ) :
    List (Instr ι σ κ β) :=
  [.enter (fun s => .bcast root (kind s)) fun s => some (data s), .leave receive]

/-- A process: its state, what is left of its program, and the operations that it has
entered. -/
structure Process (ι : Type u) (σ : Type v) (κ : Type w) (β : Type x) where
  state : σ
  rest : List (Instr ι σ κ β)
  entered : List (Event ι κ β)

/-- The processes of a group. -/
abbrev World (ι : Type u) (σ : Type v) (κ : Type w) (β : Type x) := ι → Process ι σ κ β

/-- The processes before their first step. -/
def start (program : ι → List (Instr ι σ κ β)) (init : ι → σ) : World ι σ κ β :=
  fun r => ⟨init r, program r, []⟩

variable [DecidableEq ι]

/-- The part of an event that the process `r` contributes. -/
def Event.view (r : ι) (e : Event ι κ β) : Event ι κ β :=
  match e.op with
  | .barrier => ⟨e.op, none⟩
  | .bcast root _ => ⟨e.op, if root = r then e.sent else none⟩

@[simp] theorem Event.op_view (r : ι) (e : Event ι κ β) : (e.view r).op = e.op := by
  rw [Event.view]
  split <;> rfl

/-- Take the data of an operation into a state, if there are any. -/
def take (receive : β → σ → σ) (data : Option β) (s : σ) : σ :=
  match data with
  | some b => receive b s
  | none => s

/-- What the process `r` gets from an operation, `sent i` being what `i` sends with it. -/
def Op.received (op : Op ι κ) (r : ι) (sent : ι → Option β) : Option β :=
  match op with
  | .barrier => none
  | .bcast root _ => if root = r then none else sent root

/-- The processes that must have entered an operation before anyone leaves it. -/
def Op.Needs : Op ι κ → ι → Prop
  | .barrier, _ => True
  | .bcast root _, i => i = root

instance : (op : Op ι κ) → DecidablePred op.Needs
  | .barrier => fun _ => instDecidableTrue
  | .bcast root _ => fun _ => inferInstanceAs (Decidable (_ = root))

variable (waits : ℕ → ι → ι → Bool)

/-- Process `r` may leave its operation number `k`. Besides those that the operation needs,
`r` may have to wait for others. -/
def Released (w : World ι σ κ β) (r : ι) (k : ℕ) (op : Op ι κ) : Prop :=
  ∀ i, op.Needs i ∨ waits k r i → (w i).entered[k]?.map Event.op = some op

variable [DecidableEq κ] [Fintype ι]

instance (w : World ι σ κ β) (r : ι) (k : ℕ) (op : Op ι κ) : Decidable (Released waits w r k op) :=
  inferInstanceAs (Decidable (∀ _, _ → _))

/-- Process `r` after its next step. It stays as it is when it has to wait. -/
def next (w : World ι σ κ β) (r : ι) : Process ι σ κ β :=
  match (w r).rest with
  | [] => w r
  | .compute f :: rest =>
      match f (w r).state with
      | some s => { w r with state := s, rest := rest }
      | none => w r
  | .enter op data :: rest =>
      { w r with
        rest := rest
        entered := (w r).entered ++ [Event.view r ⟨op (w r).state, data (w r).state⟩] }
  | .leave receive :: rest =>
      match (w r).entered.getLast? with
      | none => w r
      | some event =>
          let k := (w r).entered.length - 1
          if Released waits w r k event.op then
            let data := event.op.received r fun i => (w i).entered[k]?.bind Event.sent
            { w r with state := take receive data (w r).state, rest := rest }
          else w r

/-- A step of process `r`. -/
def step (w : World ι σ κ β) (r : ι) : World ι σ κ β := Function.update w r (next waits w r)

/-! ## Histories -/

/-- The program `rest` of process `r` goes from the state `s` to `t`, when `n` events of the
history are over. -/
inductive Replays (history : List (Event ι κ β)) (r : ι) :
    ℕ → List (Instr ι σ κ β) → σ → σ → Prop
  | done (s : σ) : Replays history r history.length [] s s
  | compute {n : ℕ} {f : σ → Option σ} {rest : List (Instr ι σ κ β)} {s s' t : σ}
      (hf : f s = some s') (hrest : Replays history r n rest s' t) :
      Replays history r n (.compute f :: rest) s t
  | enter {n : ℕ} {op : σ → Op ι κ} {data : σ → Option β} {rest : List (Instr ι σ κ β)} {s t : σ}
      {event : Event ι κ β} (hevent : history[n]? = some event)
      (hview : Event.view r ⟨op s, data s⟩ = event.view r)
      (hrest : Replays history r (n + 1) rest s t) :
      Replays history r n (.enter op data :: rest) s t
  | leave {n : ℕ} {receive : β → σ → σ} {rest : List (Instr ι σ κ β)} {s t : σ}
      {event : Event ι κ β} (hevent : history[n]? = some event)
      (hrest : Replays history r (n + 1) rest
        (take receive (event.op.received r fun _ => event.sent) s) t) :
      Replays history r (n + 1) (.leave receive :: rest) s t

/-- Process `r` has entered the first operations of the history, and what is left of its
program leads to the state `t`. -/
structure Follows (history : List (Event ι κ β)) (r : ι) (t : σ) (p : Process ι σ κ β) : Prop where
  entered : p.entered = (history.take p.entered.length).map (Event.view r)
  replays : Replays history r p.entered.length p.rest p.state t

variable {waits} {history : List (Event ι κ β)} {w : World ι σ κ β} {r : ι} {s t : σ}
  {p : Process ι σ κ β}

section Replays

omit [DecidableEq κ] [Fintype ι]

variable {n : ℕ} {rest : List (Instr ι σ κ β)}

theorem Replays.of_nil (h : Replays history r n [] s t) : n = history.length ∧ s = t := by
  cases h
  exact ⟨rfl, rfl⟩

theorem Replays.of_compute {f : σ → Option σ}
    (h : Replays history r n (.compute f :: rest) s t) :
    ∃ s', f s = some s' ∧ Replays history r n rest s' t := by
  cases h with
  | compute hf hrest => exact ⟨_, hf, hrest⟩

theorem Replays.of_enter {op : σ → Op ι κ} {data : σ → Option β}
    (h : Replays history r n (.enter op data :: rest) s t) :
    ∃ event, history[n]? = some event ∧ Event.view r ⟨op s, data s⟩ = event.view r ∧
      Replays history r (n + 1) rest s t := by
  cases h with
  | enter hevent hview hrest => exact ⟨_, hevent, hview, hrest⟩

theorem Replays.of_leave {receive : β → σ → σ}
    (h : Replays history r n (.leave receive :: rest) s t) :
    ∃ k event, n = k + 1 ∧ history[k]? = some event ∧ Replays history r n rest
      (take receive (event.op.received r fun _ => event.sent) s) t := by
  cases h with
  | leave hevent hrest => exact ⟨_, _, rfl, hevent, hrest⟩

/-- A barrier delivers nothing. -/
theorem replays_barrier (hevent : history[n]? = some ⟨.barrier, none⟩)
    (hrest : Replays history r (n + 1) rest s t) :
    Replays history r n (barrier ++ rest) s t :=
  .enter hevent rfl (.leave hevent hrest)

/-- The root of a broadcast keeps its state. -/
theorem replays_bcast_root {kind : σ → κ} {data : σ → β} {receive : β → σ → σ}
    (hevent : history[n]? = some ⟨.bcast r (kind s), some (data s)⟩)
    (hrest : Replays history r (n + 1) rest s t) :
    Replays history r n (bcast r kind data receive ++ rest) s t := by
  refine .enter hevent rfl (.leave hevent ?_)
  simpa [Op.received, take] using hrest

/-- The others receive what the root has sent. -/
theorem replays_bcast {root : ι} {kind : σ → κ} {data : σ → β} {receive : β → σ → σ} {b : β}
    (hroot : root ≠ r) (hevent : history[n]? = some ⟨.bcast root (kind s), some b⟩)
    (hrest : Replays history r (n + 1) rest (receive b s) t) :
    Replays history r n (bcast root kind data receive ++ rest) s t := by
  refine .enter hevent (by simp [Event.view, hroot]) (.leave hevent ?_)
  simpa [Op.received, take, hroot] using hrest

/-- An operation that the process has entered. -/
theorem Follows.getElem?_entered (h : Follows history r t p) {k : ℕ}
    (hk : k < p.entered.length) : p.entered[k]? = history[k]?.map (Event.view r) := by
  rw [h.entered, List.getElem?_map, List.getElem?_take_of_lt hk]

theorem Follows.length_le (h : Follows history r t p) :
    p.entered.length ≤ history.length := by
  have hlength := congrArg List.length h.entered
  rw [List.length_map, List.length_take] at hlength
  omega

/-- The operations that the process has entered. -/
theorem Follows.map_op_prefix (h : Follows history r t p) :
    p.entered.map Event.op <+: history.map Event.op := by
  rw [h.entered, List.map_map]
  have hop : Event.op ∘ Event.view r = (Event.op : Event ι κ β → Op ι κ) :=
    funext fun e => Event.op_view r e
  rw [hop]
  exact (List.take_prefix _ _).map _

/-- A process at the end of its program has gone through the whole history. -/
theorem Follows.of_rest_eq_nil (h : Follows history r t p)
    (hrest : p.rest = []) : p.state = t ∧ p.entered.length = history.length := by
  have hreplays := h.replays
  rw [hrest] at hreplays
  exact ⟨hreplays.of_nil.2, hreplays.of_nil.1⟩

end Replays

/-! ## Runs -/

section Run

variable {final : ι → σ}

omit [DecidableEq κ] [Fintype ι] in
/-- What an operation delivers, once it may be left, is what the history says. -/
theorem received_eq (hall : ∀ i, Follows history i (final i) (w i)) {k : ℕ} {event : Event ι κ β}
    (hevent : history[k]? = some event) (hreleased : Released waits w r k event.op) :
    (event.op.received r fun i => (w i).entered[k]?.bind Event.sent) =
      event.op.received r fun _ => event.sent := by
  cases hop : event.op with
  | barrier => rfl
  | bcast root kind =>
      -- The root has entered the operation, with the data of the history.
      have hroot := hreleased root (.inl (by rw [hop]; rfl))
      have hk : k < (w root).entered.length := by
        by_contra hout
        rw [List.getElem?_eq_none (Nat.not_lt.mp hout)] at hroot
        cases hroot
      have hsent : (w root).entered[k]?.bind Event.sent = event.sent := by
        rw [(hall root).getElem?_entered hk, hevent]
        simp [Event.view, hop]
      simp only [Op.received, hsent]

/-- **One step** follows the history. -/
theorem follows_next (hall : ∀ i, Follows history i (final i) (w i)) (r : ι) :
    Follows history r (final r) (next waits w r) := by
  have h := hall r
  have hreplays := h.replays
  rw [next]
  split
  · exact h
  · rename_i f rest hrest
    rw [hrest] at hreplays
    obtain ⟨s', hf, hreplays⟩ := hreplays.of_compute
    rw [hf]
    exact ⟨h.entered, hreplays⟩
  · rename_i op data rest hrest
    rw [hrest] at hreplays
    obtain ⟨event, hevent, hview, hreplays⟩ := hreplays.of_enter
    refine ⟨?_, ?_⟩
    · rw [List.length_append, List.length_singleton, List.take_add_one, hevent, hview,
        List.map_append, ← h.entered]
      rfl
    · rwa [List.length_append, List.length_singleton]
  · rename_i receive rest hrest
    rw [hrest] at hreplays
    obtain ⟨k, event, hk, hevent, hreplays⟩ := hreplays.of_leave
    have hlast : (w r).entered.getLast? = some (event.view r) := by
      rw [List.getLast?_eq_getElem?, hk, Nat.add_sub_cancel, h.getElem?_entered (by omega), hevent]
      rfl
    rw [hlast]
    simp only [hk, Nat.add_sub_cancel, Event.op_view]
    split
    · rename_i hreleased
      rw [received_eq hall hevent hreleased]
      exact ⟨h.entered, hreplays⟩
    · exact h

/-- A step of any process keeps all of them to the history. -/
theorem follows_step (hall : ∀ i, Follows history i (final i) (w i)) (r : ι) :
    ∀ i, Follows history i (final i) (step waits w r i) := by
  intro i
  by_cases hi : i = r
  · subst hi
    rw [step, Function.update_self]
    exact follows_next hall i
  · rw [step, Function.update_of_ne hi]
    exact hall i

omit [DecidableEq κ] [Fintype ι] in
theorem follows_start {program : ι → List (Instr ι σ κ β)} {init : ι → σ}
    (hprogram : ∀ r, Replays history r 0 (program r) (init r) (final r)) :
    ∀ i, Follows history i (final i) (start program init i) :=
  fun i => ⟨rfl, hprogram i⟩

variable (waits) in
/-- **Every run follows the history**, whatever the order of the steps. -/
theorem follows_final {program : ι → List (Instr ι σ κ β)} {init : ι → σ}
    (hprogram : ∀ r, Replays history r 0 (program r) (init r) (final r)) (schedule : List ι) :
    ∀ r, Follows history r (final r) (Run.final (step waits) (start program init) schedule r) :=
  Run.final_invariant (fun w : World ι σ κ β => ∀ i, Follows history i (final i) (w i))
    (fun _ r _ hall => follows_step hall r) (follows_start hprogram)

/-! ## The end -/

variable (waits) in
/-- A step takes an instruction away, or it does nothing. -/
theorem next_cases (w : World ι σ κ β) (r : ι) :
    (next waits w r).rest.length + 1 = (w r).rest.length ∨ next waits w r = w r := by
  rw [next]
  split
  · exact .inr rfl
  · rename_i hrest
    split
    · exact .inl (by rw [hrest]; rfl)
    · exact .inr rfl
  · rename_i hrest
    exact .inl (by rw [hrest]; rfl)
  · rename_i hrest
    split
    · exact .inr rfl
    · simp only
      split
      · exact .inl (by rw [hrest]; rfl)
      · exact .inr rfl

omit [DecidableEq κ] [Fintype ι] in
variable (waits) in
/-- Nobody is kept in an operation that all have entered. -/
theorem released_of_entered (hall : ∀ i, Follows history i (final i) (w i)) {k : ℕ}
    {event : Event ι κ β} (hevent : history[k]? = some event)
    (hentered : ∀ i, k < (w i).entered.length) (r : ι) : Released waits w r k event.op := by
  intro i _
  rw [(hall i).getElem?_entered (hentered i), hevent]
  simp

variable (waits) in
/-- **Progress**: as long as a process has instructions left, there is one that can go on. -/
theorem exists_next_lt (hall : ∀ i, Follows history i (final i) (w i)) {r : ι}
    (hr : (w r).rest ≠ []) : ∃ i, (next waits w i).rest.length < (w i).rest.length := by
  -- A process that is behind all the others that have not come to their end.
  obtain ⟨i, hi, hmin⟩ := (measure fun i => (w i).entered.length).wf.has_min
    {i | (w i).rest ≠ []} ⟨r, hr⟩
  have hreplays := (hall i).replays
  refine ⟨i, ?_⟩
  cases hrest : (w i).rest with
  | nil => exact absurd hrest hi
  | cons instr rest =>
      rw [hrest] at hreplays
      cases instr with
      | compute f =>
          obtain ⟨s', hf, _⟩ := hreplays.of_compute
          simp [next, hrest, hf]
      | enter op data => simp [next, hrest]
      | leave receive =>
          obtain ⟨k, event, hk, hevent, _⟩ := hreplays.of_leave
          have hentered : ∀ j, k < (w j).entered.length := by
            intro j
            by_cases hj : (w j).rest = []
            · have hend := ((hall j).of_rest_eq_nil hj).2
              have hle := (hall i).length_le
              omega
            · have hle : (w i).entered.length ≤ (w j).entered.length := Nat.not_lt.mp (hmin j hj)
              omega
          have hlast : (w i).entered.getLast? = some (event.view i) := by
            rw [List.getLast?_eq_getElem?, hk, Nat.add_sub_cancel,
              (hall i).getElem?_entered (hentered i), hevent]
            rfl
          have hreleased := released_of_entered waits hall hevent hentered i
          simp [next, hrest, hlast, hk, hreleased]

/-- The instructions that are left. -/
def work (w : World ι σ κ β) : ℕ := ∑ i, (w i).rest.length

variable (waits) in
theorem step_eq_or_work_lt (w : World ι σ κ β) (r : ι) :
    step waits w r = w ∨ work (step waits w r) < work w := by
  rcases next_cases waits w r with hlt | hsame
  · refine .inr (Finset.sum_lt_sum ?_ ⟨r, Finset.mem_univ r, ?_⟩)
    · intro i _
      by_cases hi : i = r
      · subst hi
        rw [step, Function.update_self]
        omega
      · rw [step, Function.update_of_ne hi]
    · rw [step, Function.update_self]
      omega
  · exact .inl (by rw [step, hsame, Function.update_eq_self])

variable (waits) in
/-- **Termination**: a run that comes back to every process again and again gets to the end. -/
theorem exists_finished {program : ι → List (Instr ι σ κ β)} {init : ι → σ}
    (hprogram : ∀ r, Replays history r 0 (program r) (init r) (final r)) (schedule : ℕ → ι)
    (hfair : ∀ r n, ∃ m, n ≤ m ∧ schedule m = r) :
    ∃ n, ∀ r, (Run.final (step waits) (start program init)
      (Fairness.firstSteps schedule n) r).rest = [] := by
  -- As long as a process has instructions left, a step of some process changes the world.
  have hprogress : ∀ w : World ι σ κ β, (∀ i, Follows history i (final i) (w i)) →
      (¬ ∀ r, (w r).rest = []) → ∃ i, step waits w i ≠ w := by
    intro w hall hleft
    obtain ⟨r, hr⟩ := not_forall.mp hleft
    obtain ⟨i, hlt⟩ := exists_next_lt waits hall hr
    refine ⟨i, ?_⟩
    intro hsame
    have hnext : next waits w i = w i := by
      rw [← congrFun hsame i, step, Function.update_self]
    exact Nat.lt_irrefl _ (hnext ▸ hlt)
  exact Fairness.exists_done work (fun w => ∀ r, (w r).rest = [])
    (fun _ r hall => follows_step hall r) (fun w r _ => step_eq_or_work_lt waits w r) hprogress
    (follows_start hprogram) schedule hfair

end Run

end Collective
