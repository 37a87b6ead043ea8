import ScorepPluginUcx.Dispatch
import ScorepPluginUcx.FirstWriter
import ScorepPluginUcx.LabelRegistration
import ScorepPluginUcx.Recording

/-!
# A process that records UCX counters

From the enumeration to the trace: the labels come from the live path in the process that writes
the names file, and from the file in the later ones; Score-P registers them; and the values of a
row are those of one answer of `ucs_stats_aggregate`. In a row that is written with MPI
initialized every value stands under the label of its counter.

## Main results

* `metricProperties_of_cached`: the labels, with and without the file.
* `ucxOnly_records`: the rows of a process.
-/

namespace ScorepPluginUcx

namespace Recorder

/-- When no answer is empty, a row is a snapshot. -/
theorem rowAfter_of_size_ne_zero {as : List AggregateResult} {m : Moment} (hne : as ≠ [])
    (has : ∀ a ∈ as, a.size ≠ 0) (hlive : m.live.size ≠ 0) : rowAfter as m = snapshot m m.live := by
  rw [rowAfter, if_neg, if_neg hlive]
  rintro (hnil | ⟨a, ha, hzero⟩)
  · exact hne hnil
  · exact has a ha hzero

variable {held : Option AggregateResult} {ms : List Moment} {m : Moment}

/-- With MPI initialized an answer has been asked for. -/
theorem asked_ne_nil (hup : m.first.mpiInitialized = true) : asked held ms m ≠ [] := by
  have hfirst : answerAtRead held m.first ≠ none := by
    cases held <;> simp [answerAtRead, hup]
  intro hnil
  obtain ⟨hstart, hmore⟩ := List.append_eq_nil_iff.mp hnil
  rw [List.map_eq_nil_iff] at hmore
  rw [hmore, List.headD_nil, Option.toList_eq_nil_iff] at hstart
  exact hfirst hstart

/-- The answers that have been asked for are the one that was held, and those of the moments. -/
theorem size_asked (hheld : ∀ r ∈ held, r.size ≠ 0)
    (hms : ∀ x ∈ ms ++ [m], x.first.aggregateAtInit.size ≠ 0 ∧ x.live.size ≠ 0) :
    ∀ a ∈ asked held ms m, a.size ≠ 0 := by
  intro a ha
  rcases List.mem_append.mp ha with hstart | hlive
  · -- The answer that the recording begins with.
    cases held with
    | some r =>
        have heq : a = r := by simpa [answerAtRead] using hstart
        subst heq
        exact hheld a rfl
    | none =>
        have hmem : ∀ up : List Moment, up.Sublist ms → up.headD m ∈ ms ++ [m] := by
          intro up hup
          cases up with
          | nil => simp
          | cons x up => exact List.mem_append_left _ (hup.subset List.mem_cons_self)
        have hfrom := Option.mem_toList.mp hstart
        rw [answerAtRead, Option.ite_none_right_eq_some] at hfrom
        have heq := Option.some.inj hfrom.2
        subst heq
        exact (hms _ (hmem _ (List.dropWhile_sublist _))).1
  · obtain ⟨x, hx, rfl⟩ := List.mem_map.mp hlive
    have hx' : x ∈ ms := (List.dropWhile_sublist _).subset hx
    exact (hms x (List.mem_append_left _ hx')).2

end Recorder

/-- **The labels of an enumeration** without NIC counters, when the file is not there yet or has
been written by a process with the same counters. -/
theorem metricProperties_of_cached {commRank : ℤ} {e : Environment} {metricName : Name} {p : Plugin}
    {r : Enumeration} (hucx : isUcxMetric metricName)
    (hfits : ∀ label ∈ liveLabels e.counterNames metricName, FitsLine label)
    (hen : p.ucxCountersCollectEnable ≠ 0)
    (hfile : e.namesFile = none ∨ e.namesFile = namesFileOf (liveLabels e.counterNames metricName))
    (hr : getMetricProperties ⟨false, commRank⟩ e metricName p = .ok r) :
    r.metricProperties = liveLabels e.counterNames metricName := by
  have hnic : r.nicProperties = [] := by
    rw [nicProperties_of_ucx hucx hr, if_neg (fun h => Bool.false_ne_true h.1)]
  let v : Enumerator := ⟨⟨false, commRank⟩, p, e, metricName⟩
  have hcell : ∃ cell, HoldsCell e.namesFile cell ∧ cell.getD v.labels = v.labels := by
    rcases hfile with hnone | hsome
    · exact ⟨none, ⟨hnone, by simp⟩, rfl⟩
    · by_cases hnil : v.labels = []
      · refine ⟨none, ⟨?_, by simp⟩, rfl⟩
        rw [hsome]
        exact congrArg namesFileOf hnil
      · refine ⟨some v.labels, ⟨hsome, ?_⟩, rfl⟩
        rintro lines ⟨⟩
        exact ⟨hnil, hfits⟩
  obtain ⟨cell, hholds, hlabels⟩ := hcell
  obtain ⟨r', hr', hproperties, _⟩ := holdsCell_step (v := v) hholds hucx hfits
  have heq : r' = r := Except.ok.inj (hr'.symm.trans hr)
  subst heq
  have hcollects : v.Collects := hen
  rw [Enumeration.metricProperties, hnic, List.append_nil, hproperties, if_pos hcollects, hlabels]
  rfl

/-- **A process that records UCX counters only**, in a directory without a names file or with one
that a process with the same counters has written: after any earlier rows, a row that is written
with MPI initialized has one value for each label, the value of the counter of this label in the
answer that the first read of the row asks for; provided that no answer of UCX is empty. -/
theorem ucxOnly_records {commRank ucxCountersCollectEnable nicCountersCollectEnable : ℤ}
    {nicCountersInitialized : Bool} {handle : List RawCounter} {e₀ : Environment}
    {metricName : Name} {r : Enumeration} {q : Plugin} (hucx : isUcxMetric metricName)
    (hen : ucxCountersCollectEnable ≠ 0)
    (hfits : ∀ label ∈ liveLabels e₀.counterNames metricName, FitsLine label)
    (hfile : e₀.namesFile = none ∨
      e₀.namesFile = namesFileOf (liveLabels e₀.counterNames metricName))
    (hr : getMetricProperties ⟨false, commRank⟩ e₀ metricName
      (.init ucxCountersCollectEnable nicCountersCollectEnable nicCountersInitialized handle) =
        .ok r)
    (hids : addMetrics r.metricProperties r.plugin =
      .ok ((List.range r.metricProperties.length).map (fun k : ℕ => (k : ℤ)), q))
    (ms : List Moment) (m : Moment) (hup : m.first.mpiInitialized = true)
    (hlength : m.rest.length + 1 = e₀.counterNames.length)
    (hinit : e₀.aggregateAtInit.size ≠ 0)
    (hanswers : ∀ x ∈ ms ++ [m], x.first.aggregateAtInit.size ≠ 0 ∧ x.live.size ≠ 0) :
    r.metricProperties.zip (record ⟨false, commRank⟩ m
        (Run.final (fun p m => (record ⟨false, commRank⟩ m p).2) q ms)).1 =
      e₀.counterNames.zipIdx.map fun x =>
        (ucxCounterLabel metricName x.1, some (m.live.entry x.2)) := by
  have hlabels := metricProperties_of_cached hucx hfits hen hfile hr
  -- The answer that the enumeration has left.
  have hstart := (Plugin.tracks_init ucxCountersCollectEnable nicCountersCollectEnable
    nicCountersInitialized handle).step ⟨false, commRank⟩ (.getMetricProperties e₀ metricName)
  generalize hheld : answerAfter (ucxCountersCollectEnable ≠ 0) none
    (.getMetricProperties e₀ metricName) = held at hstart
  have hsize : ∀ a ∈ held, a.size ≠ 0 := by
    intro a ha
    rw [← hheld, answerAfter, Option.mem_def, Option.ite_none_right_eq_some] at ha
    have heq := Option.some.inj ha.2
    subst heq
    exact hinit
  have hq : q.Tracks (ucxCountersCollectEnable ≠ 0) held := by
    simp only [Plugin.step, hr, Plugin.Tracks] at hstart
    rw [Plugin.Tracks, (core_addMetrics hids).1]
    exact hstart
  -- The row.
  have htracks := Run.final_related (Plugin.Tracks (ucxCountersCollectEnable ≠ 0))
    (fun _ _ event h => h.recordStep commRank event) hq (ms.map .record)
  rw [Run.final_map] at htracks
  have hrow := (record_spec commRank htracks m).1
  rw [Recorder.row_final, Recorder.rowAfter_of_size_ne_zero (Recorder.asked_ne_nil hup)
    (Recorder.size_asked hsize hanswers) (hanswers m (by simp)).2] at hrow
  have hsnapshot : Recorder.snapshot m m.live =
      (List.range e₀.counterNames.length).map m.live.entry := by
    rw [Recorder.snapshot, hlength]
  rw [hlabels]
  refine (congrArg _ hrow).trans ?_
  rw [hsnapshot, liveLabels, List.map_map, List.zip_map, List.zipIdx_eq_zip_range',
    List.range_eq_range']
  rfl

/-- A UCX with one counter, at the moment when it is `v`. -/
def oneCounterMoment (v : UInt64) : Moment where
  first := { Environment.bare with
    mpiInitialized := true, aggregateAtInit := .single v, aggregateAtRead := .single v }
  rest := []
  sameFlag := by simp
  short := by decide

/-- The enumeration of a process with one counter. -/
def oneCounterStart : Environment := { oneCounter with aggregateAtInit := .single 3 }

/-- The second row of a process with one counter. -/
theorem ucxOnly_records_second :
    ∃ r q, getMetricProperties ⟨false, 0⟩ oneCounterStart "UCX@1".toList (.init 1 0 false []) =
        .ok r ∧
      addMetrics r.metricProperties r.plugin = .ok ([0], q) ∧
      r.metricProperties.zip (record ⟨false, 0⟩ (oneCounterMoment 9)
          (record ⟨false, 0⟩ (oneCounterMoment 7) q).2).1 =
        [("UCX@1_c_tx".toList, some 9)] := by
  have hucx : isUcxMetric "UCX@1".toList := by decide
  have hfits : ∀ label ∈ liveLabels oneCounterStart.counterNames "UCX@1".toList,
      FitsLine label := by
    intro label hlabel
    have heq := List.mem_singleton.mp hlabel
    subst heq
    exact ⟨by decide, by decide, by decide⟩
  have hone : (1 : ℤ) ≠ 0 := by decide
  have hanswers : ∀ x ∈ [oneCounterMoment 7] ++ [oneCounterMoment 9],
      x.first.aggregateAtInit.size ≠ 0 ∧ x.live.size ≠ 0 := by
    intro x hx
    rcases List.mem_pair.mp hx with rfl | rfl <;> decide
  obtain ⟨r, q, hr, hids⟩ : ∃ r q, getMetricProperties ⟨false, 0⟩ oneCounterStart
      "UCX@1".toList (.init 1 0 false []) = .ok r ∧
      addMetrics r.metricProperties r.plugin =
        .ok ((List.range r.metricProperties.length).map (fun k : ℕ => (k : ℤ)), q) :=
    ⟨_, _, rfl, rfl⟩
  have hrows := ucxOnly_records hucx hone hfits (.inl rfl) hr hids [oneCounterMoment 7]
    (oneCounterMoment 9) rfl rfl (by decide) hanswers
  have hlabels := metricProperties_of_cached hucx hfits hone (.inl rfl) hr
  refine ⟨r, q, hr, ?_, hrows⟩
  rw [hids, hlabels]
  rfl

end ScorepPluginUcx
