import ScorepPluginUcx.Answers

/-!
# Reads against the live aggregate

A read of index 0 is meant to ask `ucs_stats_aggregate` and to report its first value, and
the reads of the other indices are meant to report the rest of that answer. Next to the
plugin and next to the answer that it holds, a run here carries the aggregate that the
latest read of index 0 would have found.

## Main results

* `final_holds_empty`: a plugin that holds an empty answer never asks again when it is read.
* `readsLive_iff`: every read of a run reports the live aggregate exactly when the answers
  that the plugin holds agree with it where they are read.
-/

namespace ScorepPluginUcx

/-- The aggregate as of the latest read of index 0 made with MPI initialized. -/
def liveAfter (mpiTInitialized : Bool) (live : Option AggregateResult) :
    Call → Option AggregateResult
  | .getMetricProperties _ _ => live
  | .currentValueGet e id =>
      if id = 0 ∧ (mpiTInitialized ∨ e.mpiInitialized) then some e.aggregateAtRead else live

/-- The plugin in a run, with the live aggregate. -/
structure Observed where
  plugin : Plugin
  live : Option AggregateResult

/-- The answer held in a run, with the live aggregate. -/
structure Traced where
  held : Option AggregateResult
  live : Option AggregateResult

def Observed.step (c : Context) (o : Observed) (call : Call) : Observed :=
  ⟨o.plugin.step c call, liveAfter o.plugin.mpiTInitialized o.live call⟩

def Traced.step (enabled : Bool) (t : Traced) (call : Call) : Traced :=
  ⟨answerAfter enabled t.held call, liveAfter t.held.isSome t.live call⟩

/-- A read made with MPI initialized reports the live aggregate: index 0 what the API
yields at that moment, another index the entry as of the latest read of index 0. -/
def ReadsLive (c : Context) (x : Observed × Call) : Prop :=
  ∀ (e : Environment) (k : ℕ), x.2 = .currentValueGet e k → k < 2 ^ 31 →
    (x.1.plugin.mpiTInitialized = true ∨ e.mpiInitialized = true) →
    if k = 0 then (currentValueGet c e k x.1.plugin).1 = some (e.aggregateAtRead.entry 0)
    else ∀ l, x.1.live = some l → (currentValueGet c e k x.1.plugin).1 = some (l.entry k)

/-- The answer held serves a read: for index 0 both it and the new answer have counters, or
both begin with the same value; for another index it has the live entry there. -/
def AnswerServes (x : Traced × Call) : Prop :=
  ∀ (e : Environment) (k : ℕ), x.2 = .currentValueGet e k → k < 2 ^ 31 →
    ∀ r, answerAtRead x.1.held e = some r →
      if k = 0 then
        0 < r.size ∧ 0 < e.aggregateAtRead.size ∨ r.entry 0 = e.aggregateAtRead.entry 0
      else ∀ l, x.1.live = some l → r.entry k = l.entry k

/-- **One read** reports the live aggregate exactly when the answer held serves it. -/
theorem readsLive_iff_answerServes (commRank : ℤ) {o : Observed} {t : Traced}
    (h : o.plugin.core.Holds t.held) (hlive : o.live = t.live) (call : Call) :
    ReadsLive ⟨false, commRank⟩ (o, call) ↔ AnswerServes (t, call) := by
  have hread : ∀ (e : Environment) (k : ℕ) (r : AggregateResult), k < 2 ^ 31 →
      answerAtRead t.held e = some r →
      ((if k = 0 then
          (currentValueGet ⟨false, commRank⟩ e k o.plugin).1 = some (e.aggregateAtRead.entry 0)
        else ∀ l, o.live = some l →
          (currentValueGet ⟨false, commRank⟩ e k o.plugin).1 = some (l.entry k)) ↔
        if k = 0 then
          0 < r.size ∧ 0 < e.aggregateAtRead.size ∨ r.entry 0 = e.aggregateAtRead.entry 0
        else ∀ l, t.live = some l → r.entry k = l.entry k) := by
    intro e k r hk hr
    rw [currentValueGet_of_holds h commRank e hk, hr, hlive]
    by_cases hzero : k = 0
    · subst hzero
      by_cases hsizes : 0 < r.size ∧ 0 < e.aggregateAtRead.size
      · simp [hsizes]
      · simp [hsizes]
    · simp [hzero]
  constructor
  · intro hall e k hcall hk r hr
    exact (hread e k r hk hr).mp (hall e k hcall hk ((answerAtRead_isSome h e).mpr ⟨r, hr⟩))
  · intro hall e k hcall hk hup
    rcases (answerAtRead_isSome h e).mp hup with ⟨r, hr⟩
    exact (hread e k r hk hr).mpr (hall e k hcall hk r hr)

/-- **Reads report the live aggregate** in a run exactly when, at each of them, the answer
held serves it. -/
theorem readsLive_iff (commRank ucxCountersCollectEnable nicCountersCollectEnable : ℤ)
    (nicCountersInitialized : Bool) (handle : List RawCounter) (calls : List Call) :
    (∀ x ∈ Run.trace (Observed.step ⟨false, commRank⟩)
        ⟨.init ucxCountersCollectEnable nicCountersCollectEnable nicCountersInitialized handle,
          none⟩ calls,
        ReadsLive ⟨false, commRank⟩ x) ↔
      ∀ x ∈ Run.trace (Traced.step (ucxCountersCollectEnable ≠ 0)) ⟨none, none⟩ calls,
        AnswerServes x := by
  refine Run.trace_forall_iff
    (fun o t => o.plugin.Tracks (ucxCountersCollectEnable ≠ 0) t.held ∧ o.live = t.live)
    ?_ ?_ ⟨Plugin.tracks_init _ _ _ _, rfl⟩ calls
  · intro o t call h
    rcases h with ⟨htracks, hlive⟩
    refine ⟨htracks.step ⟨false, commRank⟩ call, ?_⟩
    have hsome : o.plugin.mpiTInitialized = t.held.isSome := htracks.1.isSome
    simp only [Observed.step, Traced.step, hsome, hlive]
  · intro o t call h
    rcases h with ⟨htracks, hlive⟩
    exact readsLive_iff_answerServes commRank htracks.1 hlive call

/-- The first read finds an empty aggregate; what comes later is not seen. And a non-empty
aggregate that becomes empty still shows its first value. -/
theorem reads_not_live :
    (¬ ∀ x ∈ Run.trace (Observed.step ⟨false, 0⟩) ⟨.init 1 0 false [], none⟩
        [.currentValueGet { Environment.bare with mpiInitialized := true } 0,
          .currentValueGet
            { Environment.bare with mpiInitialized := true, aggregateAtRead := .single 7 } 0],
        ReadsLive ⟨false, 0⟩ x) ∧
      ¬ ∀ x ∈ Run.trace (Observed.step ⟨false, 0⟩) ⟨.init 1 0 false [], none⟩
        [.currentValueGet
            { Environment.bare with mpiInitialized := true, aggregateAtInit := .single 7 } 0],
        ReadsLive ⟨false, 0⟩ x := by
  constructor
  · intro hall
    have hread := hall _ (List.mem_cons_of_mem _ List.mem_cons_self) _ 0 rfl (by decide)
      (.inl rfl)
    exact absurd hread (by decide)
  · intro hall
    have hread := hall _ List.mem_cons_self _ 0 rfl (by decide) (.inr rfl)
    exact absurd hread (by decide)

/-! ## No way back -/

/-- **An empty answer stays.** Once the plugin holds one, no calls but an enumeration that
finds no names file change it. -/
theorem final_holds_empty {c : Context} {p : Plugin} {r : AggregateResult}
    (h : p.core.Holds (some r)) (hempty : r.size = 0) {calls : List Call}
    (hcalls : ∀ call ∈ calls, ¬ call.Fileless) :
    (Run.final (Plugin.step c) p calls).core.Holds (some r) := by
  refine Run.final_invariant (fun q : Plugin => q.core.Holds (some r)) ?_ h
  intro q call hmem hq
  have hstep := Core.holds_step hq c call
  have hno := hcalls call hmem
  rw [← core_step] at hstep
  cases call with
  | getMetricProperties e metricName =>
      have hkeep : ¬ (isUcxMetric metricName ∧ q.core.enabled ∧ e.namesFile = none) := by
        intro hask
        exact hno ⟨hask.1, hask.2.2⟩
      rwa [answerAfter, if_neg hkeep] at hstep
  | currentValueGet e id => simpa [answerAfter, answerAtRead, hempty] using hstep

/-- So every later read is 0, whatever the aggregate has become. -/
theorem currentValueGet_of_empty (commRank : ℤ) {p : Plugin} {r : AggregateResult}
    (h : p.core.Holds (some r)) (hempty : r.size = 0) {calls : List Call}
    (hcalls : ∀ call ∈ calls, ¬ call.Fileless) (e : Environment) {k : ℕ} (hk : k < 2 ^ 31) :
    (currentValueGet ⟨false, commRank⟩ e k
      (Run.final (Plugin.step ⟨false, commRank⟩) p calls)).1 = some 0 := by
  have hentry : r.entry k = 0 := AggregateResult.entry_of_size_le (by omega)
  rw [currentValueGet_of_holds (final_holds_empty h hempty hcalls) commRank e hk]
  simp [answerAtRead, hempty, hentry]

end ScorepPluginUcx
