import ScorepPluginUcx.Core

/-!
# The answer that the plugin holds

What the plugin knows of the aggregate is the last answer of `ucs_stats_aggregate` that it
asked for. Which one this is follows from the calls and from what they find outside:
`answerAfter` traces it without the plugin, `Core.Holds` says how the plugin stores it, and
`holds_step` that every call keeps the two together.

## Main results

* `readSource_of_holds`: the table of a read, from the answer held.
* `currentValueGet_of_holds`: the value of a read in a build without NIC counters.
-/

namespace ScorepPluginUcx

/-- The answer held when a read chooses its table: the first read to see MPI initialized
asks for one. -/
def answerAtRead (held : Option AggregateResult) (e : Environment) : Option AggregateResult :=
  match held with
  | some r => some r
  | none => if e.mpiInitialized then some e.aggregateAtInit else none

/-- The answer held after a call. -/
def answerAfter (enabled : Bool) (held : Option AggregateResult) : Call → Option AggregateResult
  | .getMetricProperties e metricName =>
      if isUcxMetric metricName ∧ enabled ∧ e.namesFile = none then some e.aggregateAtInit
      else held
  | .currentValueGet e id =>
      (answerAtRead held e).map fun r =>
        if sizeT id < r.size ∧ uint32 id = 0 then e.aggregateAtRead else r

namespace Core

/-- The core stores an answer: its size, and its values at the front of the array. Without
an answer the aggregate API has not been started. -/
structure Holds (k : Core) (held : Option AggregateResult) : Prop where
  isSome : k.mpiTInitialized = held.isSome
  size : ∀ r ∈ held, k.aggrgtSumSize = r.size
  cells : ∀ r ∈ held, ∀ i < r.size, k.aggrgtSumCounters.cells[i]? = some (r.entry i)

theorem holds_start (c : Context) (r : AggregateResult) (k : Core) :
    (k.start c r).Holds (some r) where
  isSome := rfl
  size := by simp
  cells := by
    simp only [Option.mem_some_iff, forall_eq', aggrgtSumCounters_start]
    exact fun i hi => AggregateCounters.cells_store_of_lt _ hi

theorem holds_refresh {k : Core} (hk : k.mpiTInitialized = true) (r : AggregateResult) :
    (k.refresh r).Holds (some r) where
  isSome := by simpa using hk
  size := by simp
  cells := by
    simp only [Option.mem_some_iff, forall_eq', aggrgtSumCounters_refresh]
    exact fun i hi => AggregateCounters.cells_store_of_lt _ hi

theorem holds_atRead {k : Core} {held : Option AggregateResult} (h : k.Holds held)
    (c : Context) (e : Environment) : (k.atRead c e).Holds (answerAtRead held e) := by
  have hsome := h.isSome
  cases held with
  | some r =>
      have hkeep : k.atRead c e = k := if_neg (by simp [hsome])
      rw [hkeep]
      exact h
  | none =>
      by_cases hflag : e.mpiInitialized = true
      · have hstart : k.atRead c e = k.start c e.aggregateAtInit :=
          if_pos ⟨by simpa using hsome, hflag⟩
        rw [hstart, answerAtRead, if_pos hflag]
        exact holds_start c _ k
      · have hkeep : k.atRead c e = k := if_neg (fun hboth => hflag hboth.2)
        rw [hkeep, answerAtRead, if_neg hflag]
        exact h

@[simp] theorem enabled_step (c : Context) (k : Core) (call : Call) :
    (k.step c call).enabled = k.enabled := by
  cases call with
  | getMetricProperties e metricName =>
      simp only [step]
      split <;> rfl
  | currentValueGet e id =>
      simp only [step, atRead]
      split <;> split <;> rfl

/-- **One call** takes the core from one answer to the next. -/
theorem holds_step {k : Core} {held : Option AggregateResult} (h : k.Holds held) (c : Context)
    (call : Call) : (k.step c call).Holds (answerAfter k.enabled held call) := by
  cases call with
  | getMetricProperties e metricName =>
      have hiff : k.Asks e metricName ↔
          isUcxMetric metricName ∧ k.enabled ∧ e.namesFile = none := by
        simp [Asks, enabled]
      by_cases hasks : k.Asks e metricName
      · rw [step, if_pos hasks, answerAfter, if_pos (hiff.mp hasks)]
        exact holds_start c _ k
      · rw [step, if_neg hasks, answerAfter, if_neg (mt hiff.mpr hasks)]
        exact h
  | currentValueGet e id =>
      have hread := holds_atRead h c e
      simp only [step, answerAfter]
      generalize k.atRead c e = k' at hread ⊢
      have hsome := hread.isSome
      cases hheld : answerAtRead held e with
      | none =>
          rw [hheld] at hread hsome
          have hno : ¬ k'.Refreshes id := by
            intro hr
            have hmpi := hr.1
            simp [hsome] at hmpi
          rw [if_neg hno]
          exact hread
      | some r =>
          rw [hheld] at hread hsome
          have hiff : k'.Refreshes id ↔ sizeT id < r.size ∧ uint32 id = 0 := by
            simp [Refreshes, hsome, hread.size r rfl]
          by_cases hr : k'.Refreshes id
          · rw [if_pos hr, Option.map_some, if_pos (hiff.mp hr)]
            exact holds_refresh (by simpa using hsome) _
          · rw [if_neg hr, Option.map_some, if_neg (mt hiff.mpr hr)]
            exact hread

end Core

/-- A fresh plugin holds no answer. -/
theorem holds_init (en nicEn : ℤ) (ready : Bool) (handle : List RawCounter) :
    (Plugin.init en nicEn ready handle).core.Holds none where
  isSome := rfl
  size := by simp
  cells := by simp

/-- The invariant of a run of the plugin: the answer traced so far is the one held, and the
enable flag is as it was. -/
def Plugin.Tracks (enabled : Bool) (p : Plugin) (held : Option AggregateResult) : Prop :=
  p.core.Holds held ∧ p.core.enabled = enabled

theorem Plugin.Tracks.step {enabled : Bool} {p : Plugin} {held : Option AggregateResult}
    (h : p.Tracks enabled held) (c : Context) (call : Call) :
    (p.step c call).Tracks enabled (answerAfter enabled held call) := by
  rcases h with ⟨hholds, rfl⟩
  rw [Plugin.Tracks, core_step]
  exact ⟨Core.holds_step hholds c call, Core.enabled_step c _ call⟩

theorem Plugin.tracks_init (en nicEn : ℤ) (ready : Bool) (handle : List RawCounter) :
    (Plugin.init en nicEn ready handle).Tracks (en ≠ 0) none :=
  ⟨holds_init en nicEn ready handle, rfl⟩

/-! ## Reads -/

/-- A read finds an answer when MPI is initialized, before it or at it. -/
theorem answerAtRead_isSome {p : Plugin} {held : Option AggregateResult} (h : p.core.Holds held)
    (e : Environment) :
    (p.mpiTInitialized = true ∨ e.mpiInitialized = true) ↔ ∃ r, answerAtRead held e = some r := by
  have hsome : p.mpiTInitialized = held.isSome := h.isSome
  cases held <;> cases hflag : e.mpiInitialized <;> simp [answerAtRead, hsome, hflag]

/-- The table of a read depends on the answer held only. -/
theorem readSource_of_holds {p : Plugin} {held : Option AggregateResult} (h : p.core.Holds held)
    (c : Context) (e : Environment) (id : ℤ) :
    readSource c e id p =
      match answerAtRead held e with
      | none => .nothing
      | some r =>
          if sizeT id < r.size then .ucx (uint32 id)
          else if c.nicCountersEnable then .nic (uint32 (sizeT (id - r.size)))
          else .nothing := by
  have hread := Core.holds_atRead h c e
  rw [← core_noticeMpi] at hread
  have hsome : (noticeMpi c e p).mpiTInitialized = (answerAtRead held e).isSome := hread.isSome
  cases hheld : answerAtRead held e with
  | none => simp [readSource, hsome, hheld]
  | some r =>
      have hsize : (noticeMpi c e p).ucxSampling.aggregate.aggrgtSumSize = r.size :=
        hread.size r hheld
      simp [readSource, hsome, hheld, counterSource, hsize,
        ucxStatisticsAggrgtSumTotalCountersNumGet]

/-- **The value of a read** without NIC counters in the build: index 0 asks again when the
answer held has counters, and an empty answer leaves the first value as it was. -/
theorem currentValueGet_of_holds {p : Plugin} {held : Option AggregateResult}
    (h : p.core.Holds held) (commRank : ℤ) (e : Environment) {k : ℕ} (hk : k < 2 ^ 31) :
    (currentValueGet ⟨false, commRank⟩ e k p).1 =
      match answerAtRead held e with
      | none => some 0
      | some r =>
          if k = 0 ∧ 0 < r.size ∧ 0 < e.aggregateAtRead.size then
            some (e.aggregateAtRead.entry 0)
          else some (r.entry k) := by
  have hread := Core.holds_atRead h ⟨false, commRank⟩ e
  rw [← core_noticeMpi] at hread
  rw [currentValueGet_eq_readFrom, readSource_of_holds h]
  cases hheld : answerAtRead held e with
  | none => rfl
  | some r =>
      have hcells : ∀ i < r.size,
          (noticeMpi ⟨false, commRank⟩ e p).ucxSampling.aggregate.aggrgtSumCounters.cells[i]? =
            some (r.entry i) := hread.cells r hheld
      simp only [sizeT_natCast (show k < 2 ^ 64 by omega),
        uint32_natCast (show k < 2 ^ 32 by omega), Bool.false_eq_true, if_false]
      by_cases hlt : k < r.size
      · simp only [if_pos hlt, readFrom]
        by_cases hzero : k = 0
        · subst hzero
          rw [ucxStatisticsAggregateCounterGet_zero]
          by_cases hsize : 0 < e.aggregateAtRead.size
          · rw [if_pos ⟨rfl, hlt, hsize⟩]
            exact AggregateCounters.cells_store_of_lt _ hsize
          · rw [if_neg (fun hboth => hsize hboth.2.2)]
            exact (AggregateCounters.cells_store_of_le _ (by omega)).trans (hcells 0 hlt)
        · rw [ucxStatisticsAggregateCounterGet_of_ne _ hzero, if_neg (fun hboth => hzero hboth.1)]
          exact hcells k hlt
      · have hno : ¬ (k = 0 ∧ 0 < r.size ∧ 0 < e.aggregateAtRead.size) := by omega
        rw [if_neg hlt, if_neg hno, AggregateResult.entry_of_size_le (Nat.not_lt.mp hlt)]
        rfl

end ScorepPluginUcx
