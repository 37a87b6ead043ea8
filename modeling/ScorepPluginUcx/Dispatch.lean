import ScorepPluginUcx.Answers

/-!
# Dispatch against registration

The ids below the number `U` of enumerated UCX properties belong to UCX, those above to
the NIC. A read draws the line elsewhere, at the size of the answer that the plugin holds.
That answer is a matter of what the calls find outside, so the two lines can be compared on
the whole run.

## Main results

* `core_addMetrics`: what registration keeps.
* `dispatch_iff`: every read goes to the table its id was registered for exactly when, at
  each of them, the size of the answer held separates the ids.
-/

namespace ScorepPluginUcx

/-! ## Registration -/

theorem core_addMetric {metric : Name} {p : Plugin} {r : ℤ × Plugin}
    (h : addMetric metric p = .ok r) : r.2.core = p.core ∧ r.1 < 2 ^ 31 := by
  rw [addMetric] at h
  cases hparse : parseMetric metric with
  | error f => simp [hparse, bind, Except.bind] at h
  | ok parsed =>
      simp only [hparse, bind, Except.bind] at h
      split at h
      · obtain rfl := Except.ok.inj h
        exact ⟨rfl, int32_lt _⟩
      · obtain rfl := Except.ok.inj h
        exact ⟨rfl, show (0 : ℤ) < 2 ^ 31 by decide⟩

/-- Adding metrics leaves the core alone, and an id is an `int32_t`. -/
theorem core_addMetrics {metrics : List Name} {p : Plugin} {r : List ℤ × Plugin}
    (h : addMetrics metrics p = .ok r) : r.2.core = p.core ∧ ∀ id ∈ r.1, id < 2 ^ 31 := by
  induction metrics generalizing p r with
  | nil =>
      obtain rfl := Except.ok.inj h
      exact ⟨rfl, by simp⟩
  | cons metric metrics ih =>
      simp only [addMetrics, bind, Except.bind] at h
      cases h₁ : addMetric metric p with
      | error f => simp [h₁] at h
      | ok r₁ =>
          cases h₂ : addMetrics metrics r₁.2 with
          | error f => simp [h₁, h₂] at h
          | ok r₂ =>
              simp only [h₁, h₂] at h
              obtain rfl := Except.ok.inj h
              have hone := core_addMetric h₁
              have hmore := ih h₂
              refine ⟨hmore.1.trans hone.1, ?_⟩
              intro id hid
              rcases List.mem_cons.mp hid with rfl | hid
              · exact hone.2
              · exact hmore.2 id hid

/-! ## Both lines -/

/-- A read made with MPI initialized of one of `U + V` registered ids goes to the UCX
table below `U`, and to the NIC table at `id - U` from there on. -/
def DispatchRight (c : Context) (U V : ℕ) (x : Plugin × Call) : Prop :=
  ∀ (e : Environment) (k : ℕ), x.2 = .currentValueGet e k → k < U + V →
    (x.1.mpiTInitialized = true ∨ e.mpiInitialized = true) →
    readSource c e k x.1 = if k < U then .ucx k else .nic (k - U)

/-- The size of the answer held separates a registered id rightly: an id below `U` is
below the size, and a higher one finds the size to be `U`. -/
def SizeSeparates (U V : ℕ) (x : Option AggregateResult × Call) : Prop :=
  ∀ (e : Environment) (k : ℕ), x.2 = .currentValueGet e k → k < U + V →
    ∀ r, answerAtRead x.1 e = some r → if k < U then k < r.size else r.size = U

/-- **One read**: its table is the registered one exactly when the size separates. -/
theorem readSource_eq_iff {c : Context} (hnic : c.nicCountersEnable = true) {p : Plugin}
    {held : Option AggregateResult} (h : p.core.Holds held) {e : Environment}
    {r : AggregateResult} (hr : answerAtRead held e = some r) (U : ℕ) {k : ℕ} (hk : k < 2 ^ 31) :
    (readSource c e k p = if k < U then .ucx k else .nic (k - U)) ↔
      if k < U then k < r.size else r.size = U := by
  rw [readSource_of_holds h, hr]
  simp only [hnic, if_true, sizeT_natCast (show k < 2 ^ 64 by omega),
    uint32_natCast (show k < 2 ^ 32 by omega)]
  by_cases hlt : k < r.size
  · by_cases hU : k < U
    · simp [hlt, hU]
    · have hne : r.size ≠ U := by omega
      simp [hlt, hU, hne]
  · have hsub : sizeT ((k : ℤ) - r.size) = k - r.size := by rw [sizeT]; omega
    have hidx : uint32 (sizeT ((k : ℤ) - r.size)) = k - r.size := by
      rw [hsub, uint32_natCast (by omega)]
    by_cases hU : k < U
    · simp [hlt, hU]
    · simp only [hlt, hU, if_false, hidx, Source.nic.injEq]
      omega

theorem dispatchRight_iff_sizeSeparates {c : Context} (hnic : c.nicCountersEnable = true)
    {U V : ℕ} (hids : ∀ k < U + V, k < 2 ^ 31) {p : Plugin} {held : Option AggregateResult}
    (h : p.core.Holds held) (call : Call) :
    DispatchRight c U V (p, call) ↔ SizeSeparates U V (held, call) := by
  constructor
  · intro hright e k hcall hk r hr
    exact (readSource_eq_iff hnic h hr U (hids k hk)).mp
      (hright e k hcall hk ((answerAtRead_isSome h e).mpr ⟨r, hr⟩))
  · intro hsize e k hcall hk hup
    rcases (answerAtRead_isSome h e).mp hup with ⟨r, hr⟩
    exact (readSource_eq_iff hnic h hr U (hids k hk)).mpr (hsize e k hcall hk r hr)

/-- **Dispatch agrees with registration**, whatever was called before the enumeration, in a
run exactly when, at every read, the size of the answer held separates the ids. -/
theorem dispatch_iff (commRank ucxCountersCollectEnable nicCountersCollectEnable : ℤ)
    (nicCountersInitialized : Bool) (handle : List RawCounter) (before : List Call)
    (e : Environment) (metricName : Name) (r : Enumeration) (q : Plugin) (calls : List Call)
    (hr : getMetricProperties ⟨true, commRank⟩ e metricName
      (Run.final (Plugin.step ⟨true, commRank⟩)
        (.init ucxCountersCollectEnable nicCountersCollectEnable nicCountersInitialized handle)
        before) = .ok r)
    (hids : addMetrics r.metricProperties r.plugin =
      .ok ((List.range (r.ucxProperties.length + r.nicProperties.length)).map
        (fun k : ℕ => (k : ℤ)), q)) :
    (∀ x ∈ Run.trace (Plugin.step ⟨true, commRank⟩) q calls,
        DispatchRight ⟨true, commRank⟩ r.ucxProperties.length r.nicProperties.length x) ↔
      ∀ x ∈ Run.trace (answerAfter (ucxCountersCollectEnable ≠ 0))
          (Run.final (answerAfter (ucxCountersCollectEnable ≠ 0)) none
            (before ++ [.getMetricProperties e metricName])) calls,
        SizeSeparates r.ucxProperties.length r.nicProperties.length x := by
  have hbound : ∀ k < r.ucxProperties.length + r.nicProperties.length, k < 2 ^ 31 := by
    intro k hk
    have h := (core_addMetrics hids).2 k (List.mem_map.mpr ⟨k, List.mem_range.mpr hk, rfl⟩)
    omega
  have hstep : ∀ p held call, Plugin.Tracks (ucxCountersCollectEnable ≠ 0) p held →
      (p.step ⟨true, commRank⟩ call).Tracks (ucxCountersCollectEnable ≠ 0)
        (answerAfter (ucxCountersCollectEnable ≠ 0) held call) := by
    intro p held call h
    exact h.step ⟨true, commRank⟩ call
  have hinit := Plugin.tracks_init ucxCountersCollectEnable nicCountersCollectEnable
    nicCountersInitialized handle
  have hstart := Run.final_related _ hstep hinit (before ++ [.getMetricProperties e metricName])
  have hq : q.Tracks (ucxCountersCollectEnable ≠ 0)
      (Run.final (answerAfter (ucxCountersCollectEnable ≠ 0)) none
        (before ++ [.getMetricProperties e metricName])) := by
    rw [Run.final_append (Plugin.step _), Run.final_cons, Run.final_nil] at hstart
    simp only [Plugin.step, hr, Plugin.Tracks] at hstart
    rw [Plugin.Tracks, (core_addMetrics hids).1]
    exact hstart
  refine Run.trace_forall_iff (Plugin.Tracks (ucxCountersCollectEnable ≠ 0)) hstep ?_ hq calls
  · exact fun p held call h => dispatchRight_iff_sizeSeparates rfl hbound h.1 call

/-- A device with one counter. -/
def oneCounterDevice : Environment :=
  { Environment.bare with device := [⟨"rx".toList, 5⟩] }

/-- MPI is up, and UCX has one aggregate counter. -/
def oneCounterAggregate : Environment :=
  { oneCounterDevice with
    mpiInitialized := true, aggregateAtInit := .single 7, aggregateAtRead := .single 7 }

/-- A run in which the sizes separate: one counter each, read in turn. -/
theorem dispatch_one_each :
    ∃ r q,
      getMetricProperties ⟨true, 0⟩
          { oneCounterAggregate with counterNames := [⟨"class".toList, "tx".toList⟩] }
          "UCX@1".toList (.init 1 1 true []) = .ok r ∧
        addMetrics r.metricProperties r.plugin = .ok ([0, 1], q) ∧
        ∀ x ∈ Run.trace (Plugin.step ⟨true, 0⟩) q
            [.currentValueGet oneCounterAggregate 0, .currentValueGet oneCounterAggregate 1],
          DispatchRight ⟨true, 0⟩ 1 1 x := by
  refine ⟨_, _, rfl, rfl, ?_⟩
  refine (dispatch_iff 0 1 1 true [] []
    { oneCounterAggregate with counterNames := [⟨"class".toList, "tx".toList⟩] } "UCX@1".toList
    _ _ _ rfl rfl).mpr ?_
  intro x hx e k hcall hk r hr
  have hx' : x = (some (.single 7), .currentValueGet oneCounterAggregate 0) ∨
      x = (some (.single 7), .currentValueGet oneCounterAggregate 1) := List.mem_pair.mp hx
  rcases hx' with rfl | rfl
  · rcases Call.currentValueGet.inj hcall with ⟨rfl, hid⟩
    obtain rfl : k = 0 := by omega
    obtain rfl : AggregateResult.single 7 = r := by simpa [answerAtRead] using hr
    decide
  · rcases Call.currentValueGet.inj hcall with ⟨rfl, hid⟩
    obtain rfl : k = 1 := by omega
    obtain rfl : AggregateResult.single 7 = r := by simpa [answerAtRead] using hr
    decide

/-- With UCX collection off and NIC collection on, id 0 is registered for the only NIC
counter and reads the first UCX counter. -/
theorem nicOnly_dispatch :
    ∃ r q, getMetricProperties ⟨true, 0⟩ oneCounterDevice "UCX@1".toList (.init 0 1 true []) =
        .ok r ∧
      addMetrics r.metricProperties r.plugin = .ok ([0], q) ∧
      r.ucxProperties = [] ∧ r.nicProperties = ["UCX@1_nic_cnt_rx".toList] ∧
      readSource ⟨true, 0⟩ oneCounterAggregate 0 q = .ucx 0 ∧
      ¬ ∀ x ∈ Run.trace (Plugin.step ⟨true, 0⟩) q [.currentValueGet oneCounterAggregate 0],
        DispatchRight ⟨true, 0⟩ 0 1 x := by
  refine ⟨_, _, rfl, rfl, rfl, rfl, rfl, ?_⟩
  intro hall
  have hread := hall _ (List.mem_singleton.mpr rfl) oneCounterAggregate 0 rfl (by decide)
    (.inr rfl)
  exact absurd hread (by decide)

end ScorepPluginUcx
