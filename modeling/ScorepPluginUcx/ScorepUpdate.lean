import ScorepPluginUcx.Lib.Backlog
import ScorepPluginUcx.Lib.Digits
import ScorepPluginUcx.Lib.Run
import ScorepPluginUcx.Sampling.Scan

/-!
# Renaming the counters

`ucx_counters_scorep_update` hands every counter that is not renamed yet to the rename function
of Score-P, under the temporary name that belongs to its index. The counters list with its flags
is a backlog in the sense of `Backlog`, as long as the loop ends: its index is a `uint32_t`. The
buffer for the number in a temporary name has room for nine digits.

## Main definitions

* `ucxCountersScorepUpdate`: the call.
* `UpdateEvent`, `updateStep`: calls, and counters that are added between them.
* `RenamesRight`: what one call is to do in a run.

## Main results

* `ucxCountersScorepUpdate_eq_pass`: a call whose loop ends is a pass over the backlog.
* `renamesRight_iff`: when every call of a run does what it is to do.
-/

namespace ScorepPluginUcx

/-- `TEMPORARY_COUNTER_NAME_TEMPLATE`. -/
def temporaryCounterNameTemplate : Name :=
  "temporary_counter_name_______________________________________".toList

/-- The size of `temp_str`, the buffer for the number in a temporary name. -/
def tempStrSize : ℕ := 10

/-- `TEMPORARY_UCX_COUNTER_NAME_GEN`. -/
def temporaryUcxCounterNameGen (metricName : Name) (idx : ℕ) : Name :=
  metricName ++ ['_'] ++ temporaryCounterNameTemplate ++ snprintf tempStrSize (Nat.toDigits 10 idx)

/-- A call of the rename function of Score-P, with the `counter_id` it is made for. -/
structure Rename where
  counterId : ℕ
  currentName : Name
  newName : Name
  metricName : Name
  numMetricsSet : ℕ
  deriving DecidableEq

/-- `scorep_metric_rename`: the call that it makes. -/
def scorepMetricRename (ucxMetricName : Name) (counterId : ℕ) (counterNewName : Name)
    (numMetricsSet : ℕ) : Rename where
  counterId := counterId
  currentName := cStr (temporaryUcxCounterNameGen ucxMetricName counterId)
  newName := cStr counterNewName
  metricName := cStr ucxMetricName
  numMetricsSet := numMetricsSet

/-- The counters list, and the calls of the rename function so far. -/
abbrev RenameState := Backlog ScorepCounterData Rename

/-- Whether a counter is not renamed yet. -/
def isUnrenamed (e : ScorepCounterData) : Bool := e.scorepMetricAlreadyRenamed = 0

/-- A counter that is renamed. -/
def markRenamed (e : ScorepCounterData) : ScorepCounterData :=
  { e with scorepMetricAlreadyRenamed := 1 }

/-- The call of the rename function for a counter. -/
def renameCounter (ucxMetricName : Name) (i : ℕ) (e : ScorepCounterData) : Rename :=
  scorepMetricRename ucxMetricName i e.name 0

/-- The loop of `ucx_counters_scorep_update` from the index `i` on, a `uint32_t`, which wraps.
`none` is a loop that has not ended after as many rounds as there is fuel. -/
def updateLoop (ucxMetricName : Name) : ℕ → ℕ → RenameState → Option RenameState
  | 0, _, _ => none
  | fuel + 1, i, s =>
      match s.items[i]? with
      | none => some s
      | some e =>
          updateLoop ucxMetricName fuel ((i + 1) % 2 ^ 32)
            (if e.scorepMetricAlreadyRenamed = 0 then
              ⟨s.items.set i (markRenamed e), s.log ++ [renameCounter ucxMetricName i e]⟩
            else s)

/-- `ucx_counters_scorep_update`, for the address of the rename function, which is 0 when
Score-P has not provided it. `none` is a call that does not return. -/
def ucxCountersScorepUpdate (metricNameUpdateFunc : ℕ) (ucxMetricName : Name) (s : RenameState) :
    Option RenameState :=
  if metricNameUpdateFunc = 0 then some s
  else updateLoop ucxMetricName (s.items.length + 1) 0 s

open Backlog

/-- A counter keeps its name when it is renamed in Score-P. -/
@[simp] theorem name_settled (e : ScorepCounterData) :
    (settled isUnrenamed markRenamed e).name = e.name := by
  rw [settled]
  split <;> rfl

/-! ## The loop -/

/-- One round. -/
theorem updateLoop_succ (ucxMetricName : Name) (fuel : ℕ) (done todo : List ScorepCounterData)
    (e : ScorepCounterData) (log : List Rename) (hlength : done.length + 1 < 2 ^ 32) :
    updateLoop ucxMetricName (fuel + 1) done.length ⟨done ++ e :: todo, log⟩ =
      updateLoop ucxMetricName fuel (done ++ [settled isUnrenamed markRenamed e]).length
        ⟨(done ++ [settled isUnrenamed markRenamed e]) ++ todo,
          log ++ if isUnrenamed e then [renameCounter ucxMetricName done.length e] else []⟩ := by
  have hget : (done ++ e :: todo)[done.length]? = some e := by
    rw [List.getElem?_append_right (Nat.le_refl _), Nat.sub_self]
    rfl
  have hindex : (done.length + 1) % 2 ^ 32 =
      (done ++ [settled isUnrenamed markRenamed e]).length := by
    rw [List.length_append, List.length_singleton, Nat.mod_eq_of_lt hlength]
  rw [updateLoop, hindex]
  simp only [hget]
  congr 1
  by_cases hflag : e.scorepMetricAlreadyRenamed = 0
  · have hunrenamed : isUnrenamed e = true := decide_eq_true hflag
    rw [if_pos hflag, if_pos hunrenamed, settled, if_pos hunrenamed,
      List.set_append_right _ _ (Nat.le_refl _), Nat.sub_self, List.set_cons_zero,
      List.append_assoc, List.singleton_append]
  · have hrenamed : ¬ isUnrenamed e = true := by simpa [isUnrenamed] using hflag
    rw [if_neg hflag, if_neg hrenamed, settled, if_neg hrenamed, List.append_nil,
      List.append_assoc, List.singleton_append]

/-- The loop over what is left of the list. -/
theorem updateLoop_eq (ucxMetricName : Name) {fuel : ℕ} (done : List ScorepCounterData)
    {todo : List ScorepCounterData} (log : List Rename) (hfuel : todo.length < fuel)
    (hlength : (done ++ todo).length < 2 ^ 32) :
    updateLoop ucxMetricName fuel done.length ⟨done ++ todo, log⟩ =
      some ⟨done ++ todo.map (settled isUnrenamed markRenamed),
        log ++ entries isUnrenamed (renameCounter ucxMetricName) done.length todo⟩ := by
  induction todo generalizing fuel done log with
  | nil =>
      obtain ⟨fuel, rfl⟩ := Nat.exists_eq_add_one_of_ne_zero (Nat.ne_of_gt hfuel)
      rw [updateLoop]
      simp
  | cons e todo ih =>
      obtain ⟨fuel, rfl⟩ :=
        Nat.exists_eq_add_one_of_ne_zero (Nat.ne_of_gt (Nat.zero_lt_of_lt hfuel))
      simp only [List.length_append, List.length_cons] at hfuel hlength
      rw [updateLoop_succ ucxMetricName fuel done todo e log (by omega),
        ih _ _ (by omega) (by simp only [List.length_append, List.length_singleton]; omega),
        entries_cons, List.map_cons, List.append_assoc, List.append_assoc, List.length_append]
      rfl

/-- **A call whose loop ends** is a pass over the backlog. -/
theorem ucxCountersScorepUpdate_eq_pass {func : ℕ} (hfunc : func ≠ 0) (ucxMetricName : Name)
    {s : RenameState} (hlength : s.items.length < 2 ^ 32) :
    ucxCountersScorepUpdate func ucxMetricName s =
      some (s.pass isUnrenamed markRenamed (renameCounter ucxMetricName)) := by
  rw [ucxCountersScorepUpdate, if_neg hfunc]
  exact updateLoop_eq ucxMetricName [] s.log (Nat.lt_succ_self _) hlength

/-- **The loop does not end**, with any fuel, when the index wraps before the end of the list. -/
theorem updateLoop_eq_none (ucxMetricName : Name) (fuel : ℕ) {i : ℕ} {s : RenameState}
    (hi : i < 2 ^ 32) (hlength : 2 ^ 32 ≤ s.items.length) :
    updateLoop ucxMetricName fuel i s = none := by
  induction fuel generalizing i s with
  | zero => rfl
  | succ fuel ih =>
      rw [updateLoop, List.getElem?_eq_getElem (Nat.lt_of_lt_of_le hi hlength)]
      refine ih (Nat.mod_lt _ (by decide)) ?_
      split
      · rwa [List.length_set]
      · exact hlength

/-- A call returns exactly when there is no rename function or the loop ends. -/
theorem ucxCountersScorepUpdate_eq_none_iff (func : ℕ) (ucxMetricName : Name) (s : RenameState) :
    ucxCountersScorepUpdate func ucxMetricName s = none ↔
      func ≠ 0 ∧ 2 ^ 32 ≤ s.items.length := by
  by_cases hfunc : func = 0
  · simp [ucxCountersScorepUpdate, hfunc]
  · rcases Nat.lt_or_ge s.items.length (2 ^ 32) with hlt | hge
    · rw [ucxCountersScorepUpdate_eq_pass hfunc ucxMetricName hlt]
      exact iff_of_false (Option.some_ne_none _) fun h => absurd h.2 (Nat.not_le.mpr hlt)
    · rw [ucxCountersScorepUpdate, if_neg hfunc,
        updateLoop_eq_none ucxMetricName _ (by decide) hge]
      exact iff_of_true rfl ⟨hfunc, hge⟩

/-! ## The temporary name of an index -/

/-- The temporary name of the counter with index `idx`: the number in full. -/
def temporaryName (ucxMetricName : Name) (idx : ℕ) : Name :=
  ucxMetricName ++ ['_'] ++ temporaryCounterNameTemplate ++ Nat.toDigits 10 idx

/-- A counter is renamed from the temporary name of its index to its own name. -/
structure ProperRename (e : ScorepCounterData) (r : Rename) : Prop where
  newName : r.newName = cStr e.name
  currentName : r.currentName = temporaryName r.metricName r.counterId

/-- Neither the template nor a number has a NUL. -/
theorem nul_notMem_temporary {ucxMetricName digits : Name} {idx : ℕ} (hnul : '\x00' ∉ ucxMetricName)
    (hdigits : digits ⊆ Nat.toDigits 10 idx) :
    '\x00' ∉ ucxMetricName ++ ['_'] ++ temporaryCounterNameTemplate ++ digits := by
  have htemplate : '\x00' ∉ ['_'] ++ temporaryCounterNameTemplate := by decide
  have hnumber : '\x00' ∉ digits :=
    fun hmem => Digits.notMem_toDigits (by decide) (by decide) idx (hdigits hmem)
  rw [List.append_assoc ucxMetricName]
  simp only [List.mem_append, not_or] at htemplate ⊢
  exact ⟨⟨hnul, htemplate⟩, hnumber⟩

/-- The name under which a counter is renamed. -/
theorem currentName_renameCounter {ucxMetricName : Name} (hnul : '\x00' ∉ ucxMetricName) (idx : ℕ)
    (e : ScorepCounterData) :
    (renameCounter ucxMetricName idx e).currentName =
      ucxMetricName ++ ['_'] ++ temporaryCounterNameTemplate ++
        snprintf tempStrSize (Nat.toDigits 10 idx) :=
  cStr_of_nul_notMem (nul_notMem_temporary hnul (List.take_subset _ _))

/-- **The temporary name** is that of the index exactly when the number fits into the buffer. -/
theorem properRename_iff {ucxMetricName : Name} (hnul : '\x00' ∉ ucxMetricName) (idx : ℕ)
    {e e' : ScorepCounterData} (hname : e'.name = e.name) :
    ProperRename e' (renameCounter ucxMetricName idx e) ↔ idx < 10 ^ 9 := by
  have hmetric : (renameCounter ucxMetricName idx e).metricName = ucxMetricName :=
    cStr_of_nul_notMem hnul
  have hdigits : (Nat.toDigits 10 idx).length ≤ 9 ↔ idx < 10 ^ 9 :=
    Nat.length_toDigits_le_iff (by decide) (by decide)
  have hcurrent : (renameCounter ucxMetricName idx e).currentName =
      temporaryName ucxMetricName idx ↔ idx < 10 ^ 9 := by
    rw [currentName_renameCounter hnul, temporaryName, List.append_cancel_left_eq, ← hdigits]
    exact List.take_eq_self_iff _
  rw [← hcurrent]
  constructor
  · intro h
    have hname := h.currentName
    rwa [hmetric] at hname
  · intro h
    refine ⟨by rw [hname]; rfl, ?_⟩
    rw [hmetric]
    exact h

/-! ## Runs -/

/-- What happens to the list: counters that are not renamed are added, or it is updated. Score-P
hands over the metric name as a C string. -/
inductive UpdateEvent where
  | append (counters : List ScorepCounterData) (unrenamed : ∀ e ∈ counters, isUnrenamed e)
  | update (metricNameUpdateFunc : ℕ) (ucxMetricName : Name) (nul_notMem : '\x00' ∉ ucxMetricName)

/-- An update for which Score-P has provided the rename function. -/
def UpdateEvent.Renames : UpdateEvent → Prop
  | .append _ _ => False
  | .update func _ _ => func ≠ 0

/-- The state after an event; it is `none` from a call on that does not return. -/
def updateStep (s : Option RenameState) : UpdateEvent → Option RenameState
  | .append counters _ => s.map fun s => s.add counters
  | .update func ucxMetricName _ => s.bind (ucxCountersScorepUpdate func ucxMetricName)

/-- The number of counters in the list after an event. -/
def listedStep (n : ℕ) : UpdateEvent → ℕ
  | .append counters _ => n + counters.length
  | .update _ _ _ => n

/-- What a call with a rename function is to do: it keeps the counters, it renames in the order
of the indices, then every counter is renamed properly by one call of the rename function in the
whole run, and another call right behind it, with or without a rename function, makes none. -/
structure RenamedOnce (before after : RenameState) : Prop where
  kept : after.items.map ScorepCounterData.name = before.items.map ScorepCounterData.name
  increasing : ∃ new, after.log = before.log ++ new ∧
    (new.map Rename.counterId).Pairwise (· < ·)
  once : ∀ i e, after.items[i]? = some e → ∃ r,
    after.log.filter (fun r => r.counterId = i) = [r] ∧ r.counterId = i ∧ ProperRename e r
  again : ∀ func ucxMetricName, ∃ s, ucxCountersScorepUpdate func ucxMetricName after = some s ∧
    s.log = after.log

/-- What an event is to do in the state that it finds. Without a rename function a call changes
nothing. -/
def RenamesRight (s : Option RenameState) : UpdateEvent → Prop
  | .append _ _ => True
  | .update func ucxMetricName _ =>
      if func = 0 then ∀ before, s = some before →
        ucxCountersScorepUpdate func ucxMetricName before = some before
      else ∃ before after, s = some before ∧
        ucxCountersScorepUpdate func ucxMetricName before = some after ∧ RenamedOnce before after

/-- A state with `n` counters, of which the first `k` are renamed. -/
structure RenamedTo (n k : ℕ) (s : RenameState) : Prop where
  handled : HandledTo isUnrenamed Rename.counterId ProperRename k s
  length : s.items.length = n
  le : k ≤ 10 ^ 9

variable {n k : ℕ} {s : RenameState}

/-- A call in such a state is a pass, when all indices fit into the buffer. -/
theorem RenamedTo.update_eq (h : RenamedTo n k s) {func : ℕ} (hfunc : func ≠ 0)
    (ucxMetricName : Name) (hn : n ≤ 10 ^ 9) :
    ucxCountersScorepUpdate func ucxMetricName s =
      some (s.pass isUnrenamed markRenamed (renameCounter ucxMetricName)) := by
  have hlength : s.items.length < 2 ^ 32 := by
    rw [h.length]
    omega
  exact ucxCountersScorepUpdate_eq_pass hfunc ucxMetricName hlength

/-- What a pass makes of such a state, when all indices fit into the buffer. -/
theorem RenamedTo.pass (h : RenamedTo n k s) {ucxMetricName : Name}
    (hnul : '\x00' ∉ ucxMetricName) (hn : n ≤ 10 ^ 9) :
    RenamedTo n n (s.pass isUnrenamed markRenamed (renameCounter ucxMetricName)) := by
  have hhandled : HandledTo isUnrenamed Rename.counterId ProperRename s.items.length
      (s.pass isUnrenamed markRenamed (renameCounter ucxMetricName)) := by
    refine h.handled.pass (fun i e => rfl) (fun e => by simp [isUnrenamed, markRenamed]) ?_ ?_
    · intro e r hr
      exact ⟨by rw [name_settled]; exact hr.newName, hr.currentName⟩
    · intro i e hi
      have hlt := (List.getElem?_eq_some_iff.mp hi).1
      rw [h.length] at hlt
      exact (properRename_iff hnul i (name_settled e)).mpr (by omega)
  rw [h.length] at hhandled
  exact ⟨hhandled, by rw [Backlog.pass, List.length_map, h.length], hn⟩

/-- **A call on at most `10 ^ 9` counters** does what it is to do. -/
theorem RenamedTo.renamedOnce (h : RenamedTo n k s) {ucxMetricName : Name}
    (hnul : '\x00' ∉ ucxMetricName) (hn : n ≤ 10 ^ 9) :
    RenamedOnce s (s.pass isUnrenamed markRenamed (renameCounter ucxMetricName)) where
  kept := by
    rw [Backlog.pass, List.map_map]
    apply List.map_congr_left
    intro e _
    exact name_settled e
  increasing := by
    refine ⟨_, rfl, ?_⟩
    rw [h.handled.map_key_entries fun i e => rfl]
    exact List.pairwise_lt_range'
  once := by
    intro i e hi
    have hpass := h.pass hnul hn
    have hlt := (List.getElem?_eq_some_iff.mp hi).1
    rw [hpass.length] at hlt
    exact hpass.handled.exists_entry hlt hi
  again := by
    intro func ucxMetricName'
    have hpass := h.pass hnul hn
    by_cases hfunc : func = 0
    · exact ⟨_, if_pos hfunc, rfl⟩
    · have hhandled := hpass.handled
      rw [← hpass.length] at hhandled
      exact ⟨_, hpass.update_eq hfunc ucxMetricName' hn,
        (congrArg _ (hhandled.entries_eq_nil _)).trans (List.append_nil _)⟩

/-- A call on more counters does not: it does not return, or it renames the counter with the
index `10 ^ 9` under another name. -/
theorem RenamedTo.not_renamedOnce (h : RenamedTo n k s) {func : ℕ} (hfunc : func ≠ 0)
    {ucxMetricName : Name} (hnul : '\x00' ∉ ucxMetricName) (hn : 10 ^ 9 < n) {after : RenameState}
    (hafter : ucxCountersScorepUpdate func ucxMetricName s = some after) :
    ¬ RenamedOnce s after := by
  have hlength : s.items.length < 2 ^ 32 := by
    by_contra hlong
    have hnone := (ucxCountersScorepUpdate_eq_none_iff func ucxMetricName s).mpr
      ⟨hfunc, Nat.not_lt.mp hlong⟩
    exact Option.some_ne_none after (hafter.symm.trans hnone)
  rw [ucxCountersScorepUpdate_eq_pass hfunc ucxMetricName hlength] at hafter
  obtain rfl := Option.some.inj hafter
  intro honce
  have hlt : 10 ^ 9 < s.items.length := h.length ▸ hn
  obtain ⟨e, he⟩ : ∃ e, s.items[10 ^ 9]? = some e := ⟨_, List.getElem?_eq_getElem hlt⟩
  obtain ⟨r, hfilter, _, hproper⟩ := honce.once (10 ^ 9)
    (settled isUnrenamed markRenamed e) (by rw [Backlog.pass, List.getElem?_map, he]; rfl)
  -- The entry that the pass makes for this counter is the one.
  have hpending : isUnrenamed e := (h.handled.pending_iff _ e he).mpr h.le
  have hentry : renameCounter ucxMetricName (10 ^ 9) e ∈
      entries isUnrenamed (renameCounter ucxMetricName) 0 s.items := by
    refine List.mem_map.mpr ⟨(e, 10 ^ 9), List.mem_filter.mpr ⟨?_, hpending⟩, rfl⟩
    exact List.mem_zipIdx_iff_getElem?.mpr he
  have hmem : renameCounter ucxMetricName (10 ^ 9) e ∈
      (s.pass isUnrenamed markRenamed (renameCounter ucxMetricName)).log.filter
        (fun r => r.counterId = 10 ^ 9) :=
    List.mem_filter.mpr ⟨List.mem_append_right _ hentry, decide_eq_true rfl⟩
  rw [hfilter, List.mem_singleton] at hmem
  rw [← hmem, properRename_iff hnul (10 ^ 9) (name_settled e)] at hproper
  exact Nat.lt_irrefl _ hproper

/-- The states of a run in which every call so far has done what it is to do. -/
def Renamed (s : Option RenameState) (n : ℕ) : Prop := ∃ s' k, s = some s' ∧ RenamedTo n k s'

theorem renamed_empty : Renamed (some ⟨[], []⟩) 0 :=
  ⟨_, 0, rfl, handledTo_empty, rfl, Nat.zero_le _⟩

/-- **One event** does what it is to do exactly when it is no call with a rename function on more
than `10 ^ 9` counters. -/
theorem Renamed.right_iff {s : Option RenameState} (h : Renamed s n) (event : UpdateEvent) :
    RenamesRight s event ↔ (event.Renames → n ≤ 10 ^ 9) := by
  obtain ⟨s, k, rfl, hrenamed⟩ := h
  cases event with
  | append counters hcounters => exact iff_of_true trivial False.elim
  | update func ucxMetricName hnul =>
      by_cases hfunc : func = 0
      · have hright : RenamesRight (some s) (.update func ucxMetricName hnul) := by
          rw [RenamesRight, if_pos hfunc]
          intro before _
          exact if_pos hfunc
        exact iff_of_true hright fun hrenames => absurd hfunc hrenames
      · rw [RenamesRight, if_neg hfunc]
        constructor
        · intro h _
          obtain ⟨before, after, heq, hafter, honce⟩ := h
          obtain rfl := Option.some.inj heq
          by_contra hlong
          exact hrenamed.not_renamedOnce hfunc hnul (Nat.not_le.mp hlong) hafter honce
        · intro hle
          have hn := hle hfunc
          exact ⟨s, _, rfl, hrenamed.update_eq hfunc ucxMetricName hn,
            hrenamed.renamedOnce hnul hn⟩

/-- **One event** that does what it is to do leaves such a state. -/
theorem Renamed.step {s : Option RenameState} (h : Renamed s n) (event : UpdateEvent)
    (hle : event.Renames → n ≤ 10 ^ 9) : Renamed (updateStep s event) (listedStep n event) := by
  obtain ⟨s, k, rfl, hrenamed⟩ := h
  cases event with
  | append counters hcounters =>
      have hlength : (s.add counters).items.length = n + counters.length := by
        rw [← hrenamed.length]
        exact List.length_append
      exact ⟨_, k, rfl, hrenamed.handled.add hcounters, hlength, hrenamed.le⟩
  | update func ucxMetricName hnul =>
      by_cases hfunc : func = 0
      · exact ⟨s, k, if_pos hfunc, hrenamed⟩
      · have hn := hle hfunc
        exact ⟨_, n, hrenamed.update_eq hfunc ucxMetricName hn, hrenamed.pass hnul hn⟩

/-- **Every counter is renamed once**, properly and in order, by the calls of a run that starts
with an empty list, exactly when no call with a rename function finds more than `10 ^ 9`
counters. -/
theorem renamesRight_iff (events : List UpdateEvent) :
    (∀ x ∈ Run.trace updateStep (some ⟨[], []⟩) events, RenamesRight x.1 x.2) ↔
      ∀ x ∈ Run.trace listedStep 0 events, x.2.Renames → x.1 ≤ 10 ^ 9 :=
  Run.trace_forall_iff_of_holds Renamed (fun _ _ event h hle => h.step event hle)
    (fun _ _ event h => h.right_iff event) renamed_empty events

/-- A counter of an initializing scan. -/
def freshCounter : ScorepCounterData := newCounterData "ep".toList 0 ⟨"tx".toList, 0⟩

/-- A call on `10 ^ 9 + 1` counters. -/
theorem billion_not_renamesRight :
    ¬ ∀ x ∈ Run.trace updateStep (some ⟨[], []⟩)
        [.append (List.replicate (10 ^ 9 + 1) freshCounter)
            (fun e he => List.eq_of_mem_replicate he ▸ rfl),
          .update 1 "UCX@1".toList (by decide)], RenamesRight x.1 x.2 := by
  intro hall
  have hright := hall _ (List.mem_cons_of_mem _ List.mem_cons_self)
  have hrenamed := renamed_empty.step (.append (List.replicate (10 ^ 9 + 1) freshCounter)
    (fun e he => List.eq_of_mem_replicate he ▸ rfl)) False.elim
  have hle := (hrenamed.right_iff _).mp hright Nat.one_ne_zero
  rw [listedStep, List.length_replicate] at hle
  omega

end ScorepPluginUcx
