import ScorepPluginUcx.Core

/-!
# Starting the statistics server

The server is started by an enumeration that asks the aggregate API, and by the first read
that sees MPI initialized. `starts_step` says so for one call. Over a run the number of
starts is a count on the list of calls, which `startCount` makes without the plugin; what
keeps it at one is then a statement about that list.

## Main results

* `final_statsServerStarts`: the starts of a run on rank 0.
* `serverStart_iff`: when the server is started at most once, on rank 0 only and never
  with UCX collection disabled.
-/

namespace ScorepPluginUcx

namespace Call

/-- A read that is made with MPI initialized. -/
def SeesMpi : Call → Prop
  | .getMetricProperties _ _ => False
  | .currentValueGet e _ => e.mpiInitialized

instance : DecidablePred SeesMpi
  | .getMetricProperties _ _ => inferInstanceAs (Decidable False)
  | .currentValueGet e _ => inferInstanceAs (Decidable (e.mpiInitialized = true))

/-- Whether a call starts the aggregate API, given that it is `started` already or not and
that UCX collection is `enabled` or not. -/
def Starts (enabled started : Bool) (call : Call) : Prop :=
  enabled ∧ call.Fileless ∨ started = false ∧ call.SeesMpi

instance (enabled started : Bool) (call : Call) : Decidable (call.Starts enabled started) :=
  inferInstanceAs (Decidable (_ ∨ _))

end Call

/-- The number of starts among calls. -/
def startCount (enabled : Bool) : Bool → List Call → ℕ
  | _, [] => 0
  | started, call :: calls =>
      if call.Starts enabled started then startCount enabled true calls + 1
      else startCount enabled started calls

namespace Core

/-- **One call**: the API is started, and on rank 0 the server with it, or neither is. -/
theorem starts_step (c : Context) (k : Core) (call : Call) :
    (k.step c call).enabled = k.enabled ∧
      (k.step c call).mpiTInitialized =
        (k.mpiTInitialized || call.Starts k.enabled k.mpiTInitialized) ∧
      (k.step c call).statsServerStarts = k.statsServerStarts +
        if call.Starts k.enabled k.mpiTInitialized ∧ c.commRank = 0 then 1 else 0 := by
  cases call with
  | getMetricProperties e metricName =>
      have hiff : k.Asks e metricName ↔
          (Call.getMetricProperties e metricName).Starts k.enabled k.mpiTInitialized := by
        simp only [Asks, Call.Starts, Call.Fileless, Call.SeesMpi, enabled, decide_eq_true_eq]
        tauto
      by_cases h : k.Asks e metricName
      · simp [step, h, hiff.mp h]
      · simp [step, h, mt hiff.mpr h]
  | currentValueGet e id =>
      have hiff : (k.mpiTInitialized = false ∧ e.mpiInitialized) ↔
          (Call.currentValueGet e id).Starts k.enabled k.mpiTInitialized := by
        simp [Call.Starts, Call.Fileless, Call.SeesMpi]
      have hread : (k.step c (.currentValueGet e id)).enabled = (k.atRead c e).enabled ∧
          (k.step c (.currentValueGet e id)).mpiTInitialized =
            (k.atRead c e).mpiTInitialized ∧
          (k.step c (.currentValueGet e id)).statsServerStarts =
            (k.atRead c e).statsServerStarts := by
        simp only [step]
        split <;> exact ⟨rfl, rfl, rfl⟩
      rw [hread.1, hread.2.1, hread.2.2]
      by_cases h : k.mpiTInitialized = false ∧ e.mpiInitialized
      · have hstart : k.atRead c e = k.start c e.aggregateAtInit := if_pos h
        simp [hstart, hiff.mp h]
      · have hkeep : k.atRead c e = k := if_neg h
        simp [hkeep, mt hiff.mpr h]

/-- **A run**: on rank 0 the server is started once for each start of the API. -/
theorem final_statsServerStarts (c : Context) (k : Core) (calls : List Call) :
    (Run.final (step c) k calls).statsServerStarts = k.statsServerStarts +
      if c.commRank = 0 then startCount k.enabled k.mpiTInitialized calls else 0 := by
  induction calls generalizing k with
  | nil => simp [startCount]
  | cons call calls ih =>
      obtain ⟨hen, hmpi, hstarts⟩ := starts_step c k call
      rw [Run.final_cons, ih, hen, hmpi, hstarts]
      by_cases hrank : c.commRank = 0 <;>
        by_cases h : call.Starts k.enabled k.mpiTInitialized <;>
        simp [startCount, hrank, h]
      omega

end Core

/-! ## Counting starts -/

/-- Once started, only enumerations without a file start again. -/
theorem startCount_started (calls : List Call) :
    startCount true true calls = calls.countP (Call.Fileless ·) := by
  induction calls with
  | nil => rfl
  | cons call calls ih =>
      by_cases h : call.Fileless <;> simp [startCount, Call.Starts, h, ih]

/-- With collection disabled nothing is started exactly when no read sees MPI. -/
theorem startCount_disabled (calls : List Call) :
    startCount false false calls = 0 ↔ ∀ call ∈ calls, ¬ call.SeesMpi := by
  induction calls with
  | nil => simp [startCount]
  | cons call calls ih =>
      by_cases h : call.SeesMpi <;> simp [startCount, Call.Starts, h, ih]

/-- A call after which no enumeration may find the names file missing. -/
def Call.Uses (call : Call) : Prop := call.Fileless ∨ call.SeesMpi

/-- With collection enabled there is at most one start exactly when no enumeration without
a file comes after another one, or after a read that sees MPI. -/
theorem startCount_enabled (calls : List Call) :
    startCount true false calls ≤ 1 ↔
      calls.Pairwise fun x y => x.Uses → ¬ y.Fileless := by
  induction calls with
  | nil => simp [startCount]
  | cons call calls ih =>
      rw [List.pairwise_cons]
      by_cases h : call.Uses
      · have hstarts : call.Starts true false := by
          rcases h with h | h
          · exact .inl ⟨rfl, h⟩
          · exact .inr ⟨rfl, h⟩
        have hzero : startCount true true calls + 1 ≤ 1 ↔ ∀ y ∈ calls, ¬ y.Fileless := by
          rw [startCount_started]
          simp
        rw [startCount, if_pos hstarts, hzero]
        constructor
        · intro hall
          refine ⟨fun y hy _ => hall y hy, ?_⟩
          exact List.pairwise_of_forall_mem_list fun x _ y hy _ => hall y hy
        · intro hpair y hy
          exact hpair.1 y hy h
      · have hstarts : ¬ call.Starts true false := by
          rintro (⟨_, hf⟩ | ⟨_, hs⟩)
          · exact h (.inl hf)
          · exact h (.inr hs)
        rw [startCount, if_neg hstarts, ih]
        exact ⟨fun hp => ⟨fun _ _ huses => absurd huses h, hp⟩, fun hp => hp.2⟩

/-! ## The whole process -/

/-- The server was started at most once, only on rank 0, and never with UCX collection
disabled. -/
def ServerStartedOnce (c : Context) (ucxCountersCollectEnable : ℤ) (p : Plugin) : Prop :=
  p.ucxSampling.statsServerStarts ≤ 1 ∧
    (c.commRank ≠ 0 → p.ucxSampling.statsServerStarts = 0) ∧
    (ucxCountersCollectEnable = 0 → p.ucxSampling.statsServerStarts = 0)

/-- What the calls of a process must satisfy for this: on rank 0, with collection enabled
no enumeration without a names file follows another one or a read with MPI initialized,
and with collection disabled no read is made with MPI initialized. -/
def StartsUnrepeated (c : Context) (ucxCountersCollectEnable : ℤ) (calls : List Call) : Prop :=
  c.commRank = 0 →
    if ucxCountersCollectEnable = 0 then ∀ call ∈ calls, ¬ call.SeesMpi
    else calls.Pairwise fun x y => x.Uses → ¬ y.Fileless

theorem serverStart_iff (c : Context) (ucxCountersCollectEnable nicCountersCollectEnable : ℤ)
    (nicCountersInitialized : Bool) (handle : List RawCounter) (calls : List Call) :
    ServerStartedOnce c ucxCountersCollectEnable
        (Run.final (Plugin.step c)
          (.init ucxCountersCollectEnable nicCountersCollectEnable nicCountersInitialized handle)
          calls) ↔
      StartsUnrepeated c ucxCountersCollectEnable calls := by
  have hstarts := Core.final_statsServerStarts c
    (Plugin.init ucxCountersCollectEnable nicCountersCollectEnable nicCountersInitialized
      handle).core calls
  rw [final_core] at hstarts
  simp only [Plugin.core, Plugin.init, Core.enabled, Nat.zero_add] at hstarts
  rw [ServerStartedOnce, StartsUnrepeated]
  simp only [Plugin.init] at hstarts ⊢
  rw [hstarts]
  by_cases hrank : c.commRank = 0
  · by_cases hen : ucxCountersCollectEnable = 0
    · have hzero := startCount_disabled calls
      simp only [hrank, hen, if_true, ne_eq, not_true_eq_false, decide_false, false_imp_iff,
        true_imp_iff, true_and, ← hzero]
      omega
    · have hone := startCount_enabled calls
      simp [hrank, hen, hone]
  · simp [hrank]

/-- Two enumerations that find no names file start the server twice, which an empty list of
UCX names is enough for; a process that collects NIC counters only starts the server at its
first read. -/
theorem serverStart_repeated :
    ¬ ServerStartedOnce ⟨false, 0⟩ 1
        (Run.final (Plugin.step ⟨false, 0⟩) (.init 1 0 false [])
          [.getMetricProperties .bare "UCX@1".toList, .getMetricProperties .bare "UCX@1".toList]) ∧
      ¬ ServerStartedOnce ⟨true, 0⟩ 0
        (Run.final (Plugin.step ⟨true, 0⟩) (.init 0 1 true [])
          [.currentValueGet { Environment.bare with mpiInitialized := true } 0]) := by
  constructor
  · intro h
    exact absurd h.1 (by decide)
  · intro h
    exact absurd (h.2.2 rfl) (by decide)

end ScorepPluginUcx
