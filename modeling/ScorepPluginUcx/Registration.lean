import Mathlib.Data.List.Induction
import ScorepPluginUcx.Core
import ScorepPluginUcx.Lib.Interleaving

/-!
# Registration from several threads

The policy of the plugin is per thread: every recording thread registers the same labels in
the same order. The id of a registration is the value of one static of `add_metric`, which
the threads share, so that it counts all calls of the process and not those of its thread.

## Main results

* `currentId_registered`: the static counts all calls.
* `idsStable_iff`: when every thread gets the id `k` for its label number `k`.
-/

namespace ScorepPluginUcx

universe u
variable {ι : Type u} [DecidableEq ι]

/-- The calls of `add_metric` in a process, each with its thread: every thread registers
the labels in their order, as far as it has come. -/
structure Registrations (ι : Type u) [DecidableEq ι] (labels : List Name) where
  log : List (ι × Name)
  isUcx : ∀ label ∈ labels, isUcxMetric label
  inOrder : ∀ i, Interleaving.part i log <+: labels

/-- The plugin after a call of `add_metric`. -/
def registerStep (p : Plugin) (call : ι × Name) : Plugin :=
  match addMetric call.2 p with
  | .ok r => r.2
  | .error _ => p

/-- A UCX label gets the static as its id, which then moves on. -/
theorem addMetric_of_ucx {label : Name} (h : isUcxMetric label) (p : Plugin) :
    addMetric label p =
      .ok (int32 p.currentId, { p with currentId := (p.currentId + 1) % 2 ^ 32 }) := by
  rw [isUcxMetric] at h
  cases hparse : parseMetric label with
  | error f => simp [hparse] at h
  | ok parsed =>
      have hevent : parsed.event = ucxEvent := by simpa [hparse] using h
      simp [addMetric, hparse, hevent, bind, Except.bind]

omit [DecidableEq ι] in
/-- **The static counts the calls** of all threads. -/
theorem currentId_registered {p : Plugin} (h0 : p.currentId = 0) {calls : List (ι × Name)}
    (hucx : ∀ call ∈ calls, isUcxMetric call.2) :
    (Run.final registerStep p calls).currentId = calls.length % 2 ^ 32 := by
  induction calls using List.reverseRecOn with
  | nil => exact h0
  | append_singleton calls call ih =>
      have hcalls := ih fun x hx => hucx x (List.mem_append_left _ hx)
      have hcall : isUcxMetric call.2 := hucx call (by simp)
      rw [Run.final_append, Run.final_cons, Run.final_nil, registerStep, addMetric_of_ucx hcall]
      simp [hcalls]

theorem Registrations.mem_isUcx {labels : List Name} (R : Registrations ι labels) :
    ∀ call ∈ R.log, isUcxMetric call.2 := by
  intro call hcall
  exact R.isUcx call.2 ((R.inOrder call.1).subset (Interleaving.mem_part.mpr hcall))

/-- Every thread gets the id `k` from its call number `k`, which is the one for the label
number `k`; and whoever reads through this id takes its value from the aggregate counter
`k`, if there are so many. -/
def IdsStable (c : Context) (p : Plugin) {labels : List Name} (R : Registrations ι labels) :
    Prop :=
  ∀ before i label after, R.log = before ++ (i, label) :: after →
    ∃ id q, addMetric label (Run.final registerStep p before) = .ok (id, q) ∧
      id = (Interleaving.part i before).length ∧
      ∀ reader : Plugin,
        (Interleaving.part i before).length < reader.ucxSampling.aggregate.aggrgtSumSize →
        reader.ucxSampling.aggregate.aggrgtSumSize ≤ aggregateSumNumCountersMax →
        counterSource c id reader = .ucx (Interleaving.part i before).length

/-- **One call** gets the right id exactly when the calls of the process so far, taken as an
`int32_t`, are as many as those of the thread. -/
theorem idsStable_iff_count (c : Context) {p : Plugin} (h0 : p.currentId = 0)
    {labels : List Name} (R : Registrations ι labels) :
    IdsStable c p R ↔ ∀ before i label after, R.log = before ++ (i, label) :: after →
      int32 before.length = (Interleaving.part i before).length := by
  apply forall₄_congr
  intro before i label after
  apply imp_congr_right
  intro hlog
  have hucx := R.mem_isUcx
  rw [hlog] at hucx
  have hlabel : isUcxMetric label := hucx (i, label) (by simp)
  have hcount := currentId_registered h0 fun call hcall => hucx call (List.mem_append_left _ hcall)
  have hid : int32 (before.length % 2 ^ 32) = int32 before.length := by simp [int32]
  rw [addMetric_of_ucx hlabel, hcount, hid]
  constructor
  · intro h
    obtain ⟨id, q, hok, heq, _⟩ := h
    exact (Prod.mk.inj (Except.ok.inj hok)).1.trans heq
  · intro heq
    refine ⟨_, _, rfl, heq, ?_⟩
    intro reader hlt hsize
    have hmax : (Interleaving.part i before).length < 64 := Nat.lt_of_lt_of_le hlt hsize
    rw [heq, counterSource_of_lt (by rw [sizeT_natCast (by omega)]; exact hlt),
      uint32_natCast (by omega)]

/-- **Ids are stable across threads** exactly when only one thread registers, with at most
`2 ^ 31` labels. -/
theorem idsStable_iff (c : Context) (ucxCountersCollectEnable nicCountersCollectEnable : ℤ)
    (nicCountersInitialized : Bool) (handle : List RawCounter) {labels : List Name}
    (R : Registrations ι labels) :
    IdsStable c (.init ucxCountersCollectEnable nicCountersCollectEnable nicCountersInitialized
        handle) R ↔
      (∀ x ∈ R.log, ∀ y ∈ R.log, x.1 = y.1) ∧ R.log.length ≤ 2 ^ 31 := by
  rw [idsStable_iff_count c rfl R]
  constructor
  · intro hall
    -- Along the log, all threads so far are one and the count has not reached the sign bit.
    have key : ∀ before call after, R.log = before ++ call :: after →
        (∀ x ∈ before, x.1 = call.1) ∧ before.length < 2 ^ 31 := by
      intro before
      induction before using List.reverseRecOn with
      | nil => simp
      | append_singleton before last ih =>
          intro call after hlog
          rcases ih last (call :: after) (by simpa using hlog) with ⟨hsame, hlt⟩
          have hcount := hall _ call.1 call.2 after hlog
          have hthreads : ∀ x ∈ before ++ [last], x.1 = last.1 :=
            List.forall_mem_append.mpr ⟨hsame, by simp⟩
          by_cases hcall : last.1 = call.1
          · rw [← hcall, Interleaving.part_eq_of_forall hthreads, List.length_map] at hcount
            have hbound := int32_lt (before ++ [last]).length
            exact ⟨fun x hx => (hthreads x hx).trans hcall, by omega⟩
          · have hnone : Interleaving.part call.1 (before ++ [last]) = [] := by
              apply List.eq_nil_iff_forall_not_mem.mpr
              intro name hname
              exact hcall (hthreads _ (Interleaving.mem_part.mp hname)).symm
            rw [hnone] at hcount
            simp only [List.length_append, List.length_singleton, List.length_nil] at hcount
            rw [int32] at hcount
            split at hcount <;> omega
    rcases List.eq_nil_or_concat' R.log with hnil | ⟨before, last, hlog⟩
    · simp [hnil]
    · obtain ⟨hsame, hlt⟩ := key before last [] hlog
      have hthreads : ∀ x ∈ before ++ [last], x.1 = last.1 :=
        List.forall_mem_append.mpr ⟨hsame, by simp⟩
      rw [hlog, List.length_append, List.length_singleton]
      exact ⟨fun x hx y hy => (hthreads x hx).trans (hthreads y hy).symm, by omega⟩
  · rintro ⟨hone, hlength⟩ before i label after hlog
    have hthreads : ∀ x ∈ before, x.1 = i := by
      intro x hx
      exact hone x (by simp [hlog, hx]) (i, label) (by simp [hlog])
    have hlt : before.length < 2 ^ 31 := by
      have hlen := congrArg List.length hlog
      simp at hlen
      omega
    rw [Interleaving.part_eq_of_forall hthreads, List.length_map, int32_of_lt hlt]

/-- Two threads register the same label, the first and only one. -/
def twoThreads : Registrations (Fin 2) ["UCX@1_c_tx".toList] where
  log := [(0, "UCX@1_c_tx".toList), (1, "UCX@1_c_tx".toList)]
  isUcx := by decide
  inOrder := by decide

/-- The second thread gets another id than the first. -/
theorem twoThreads_not_stable : ¬ IdsStable ⟨false, 0⟩ (.init 1 0 false []) twoThreads := by
  intro h
  rcases h [(0, "UCX@1_c_tx".toList)] 1 "UCX@1_c_tx".toList [] rfl with ⟨id, q, hok, hid, _⟩
  have hone : (1 : ℤ) = id := (Prod.mk.inj (Except.ok.inj hok)).1
  rw [hid] at hone
  exact absurd hone (by decide)

end ScorepPluginUcx
