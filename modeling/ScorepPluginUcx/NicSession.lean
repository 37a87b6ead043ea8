import ScorepPluginUcx.Answers
import ScorepPluginUcx.Lib.Projection
import ScorepPluginUcx.NicMetrics
import ScorepPluginUcx.NicRefresh

/-!
# The NIC in a run of the plugin

`NicRefresh` is about calls of the sampler. In a run of the plugin these calls are made by
enumerations and by reads, in between everything else that the plugin does, and which reads go to
the NIC is decided by the answer of `ucs_stats_aggregate` that the plugin holds. The NIC fields of
the plugin still go through a run of their own.

## Main definitions

* `nicCallOf`: the call of the sampler's NIC side that a call of the plugin makes.

## Main results

* `nic_projects`: a run of the plugin is a run of the NIC side.
* `nicReads`: the reads that go to the NIC, in every run.
* `nicOnly_reads`: a process that records NIC counters only.
-/

namespace ScorepPluginUcx

/-- The NIC fields of a plugin. -/
def Plugin.nic (p : Plugin) : NicCounters := p.ucxSampling.nic

/-- An enumeration adds NIC metrics. -/
def Plugin.AddsNic (c : Context) (p : Plugin) (metricName : Name) : Prop :=
  isUcxMetric metricName ∧ c.nicCountersEnable ∧ p.nicCountersCollectEnable ≠ 0

instance (c : Context) (p : Plugin) (metricName : Name) : Decidable (p.AddsNic c metricName) :=
  inferInstanceAs (Decidable (_ ∧ _ ∧ _))

/-- The call of the NIC side that a call of the plugin makes, if it makes one. -/
def nicCallOf (c : Context) (p : Plugin) : Call → Option NicCall
  | .getMetricProperties e metricName =>
      match getMetricProperties c e metricName p with
      | .ok _ => if p.AddsNic c metricName then some ⟨.nicCountersAggregate, e.device⟩ else none
      | .error _ => none
  | .currentValueGet e id =>
      match readSource c e id p with
      | .nic index => some ⟨.nicCounterValueGet index, e.device⟩
      | _ => none

/-! ## One call -/

theorem nic_noticeMpi (c : Context) (e : Environment) (p : Plugin) :
    (noticeMpi c e p).nic = p.nic := by
  rw [noticeMpi]
  split
  · by_cases hrank : c.commRank = 0 <;>
      simp [aggregateStart, hrank, Plugin.nic, Plugin.withAggregate, ucxStatisticsServerStart]
  · rfl

/-- An enumeration aggregates the NIC counters when it adds NIC metrics. -/
theorem nic_getMetricProperties {c : Context} {e : Environment} {metricName : Name} {p : Plugin}
    {r : Enumeration} (hr : getMetricProperties c e metricName p = .ok r) :
    r.plugin.nic = if p.AddsNic c metricName then (nicCountersAggregate e.device p.nic).2
      else p.nic := by
  cases hucx : isUcxMetric metricName with
  | true =>
      rw [getMetricProperties_of_ucx hucx] at hr
      cases hu : ucxMetricProperties c e metricName
          { p with ucxMetricName := metricName, nUcxCounters := ucxNumTemporaryCounters } with
      | error f => simp [hu, Except.map] at hr
      | ok r' =>
          rw [hu] at hr
          have heq := Except.ok.inj hr
          subst heq
          obtain ⟨hnic, hflag⟩ := ucxMetricProperties_nic hu
          have hadds : p.AddsNic c metricName ↔
              c.nicCountersEnable ∧ r'.plugin.nicCountersCollectEnable ≠ 0 := by
            rw [Plugin.AddsNic, hflag]
            exact and_iff_right hucx
          have hsame : r'.plugin.nic = p.nic := hnic
          rw [addNicProperties]
          by_cases h : c.nicCountersEnable ∧ r'.plugin.nicCountersCollectEnable ≠ 0
          · rw [if_pos h, if_pos (hadds.mpr h), ← hsame]
            rfl
          · rw [if_neg h, if_neg (mt hadds.mp h), hsame]
  | false =>
      have hno : ¬ p.AddsNic c metricName := by simp [Plugin.AddsNic, hucx]
      obtain ⟨f, hplugin⟩ := plugin_of_not_ucx hucx hr
      rw [if_neg hno, hplugin]
      rfl

/-- A read of the NIC is a call of `nic_counter_value_get`, and no other read touches it. -/
theorem nic_currentValueGet (c : Context) (e : Environment) (id : ℤ) (p : Plugin) :
    (currentValueGet c e id p).2.nic =
      match readSource c e id p with
      | .nic index => (nicCounterValueGet e.device index p.nic).2
      | _ => p.nic := by
  rw [currentValueGet_eq_readFrom, ← nic_noticeMpi c e p]
  cases readSource c e id p <;> rfl

/-- **The NIC side** of a plugin goes through a run of its own. -/
theorem nic_projects (c : Context) : Run.Projects (Plugin.step c) NicCounters.step Plugin.nic
    (nicCallOf c) fun _ => True where
  keeps := fun _ _ _ => trivial
  view_step := by
    intro p call _
    cases call with
    | getMetricProperties e metricName =>
        rw [Plugin.step, nicCallOf]
        cases hr : getMetricProperties c e metricName p with
        | error f => rfl
        | ok r =>
            simp only [nic_getMetricProperties hr]
            split <;> rfl
    | currentValueGet e id =>
        rw [Plugin.step, nicCallOf, nic_currentValueGet]
        cases readSource c e id p <;> rfl

/-! ## Runs -/

/-- The calls of the NIC side in a run. -/
def nicCalls (c : Context) (p : Plugin) (calls : List Call) : List NicCall :=
  Run.seen (Plugin.step c) (nicCallOf c) p calls

/-- The NIC side at the end of a run. -/
theorem nic_final (c : Context) (p : Plugin) (calls : List Call) :
    (Run.final (Plugin.step c) p calls).nic =
      Run.final NicCounters.step p.nic (nicCalls c p calls) :=
  ((nic_projects c).final_seen trivial calls).symm

/-- The value of a read that goes to the NIC, whose side has gone through the calls in `seen`. -/
theorem value_of_nic {c : Context} {p : Plugin} {handle : List RawCounter} {seen : List NicCall}
    (hnic : p.nic = Run.final NicCounters.step (.init true handle) seen) {e : Environment} {id : ℤ}
    {index : ℕ} (hsource : readSource c e id p = .nic index) :
    (currentValueGet c e id p).1 =
      ((latestQuery (seen ++ [⟨.nicCounterValueGet index, e.device⟩])).getD handle)[index]?.map
        RawCounter.value := by
  have hready := (mirrors_final handle seen).ready
  have hmirrors := mirrors_final handle (seen ++ [⟨.nicCounterValueGet index, e.device⟩])
  have hvalue := nicCounterValueGet_value e.device index hready
  rw [latestQuery, ← hmirrors.snapshot, Run.final_append, Run.final_cons, Run.final_nil, ← hvalue,
    ← hnic, ← nic_noticeMpi c e p, currentValueGet_eq_readFrom, hsource]
  rfl

/-- A read of the NIC whose side has gone through the calls in `seen` queries the device. -/
theorem queriesDevice_of_nic {s : NicCounters} {handle : List RawCounter} {seen : List NicCall}
    (hnic : s = Run.final NicCounters.step (.init true handle) seen) (index : ℕ) :
    QueriesDevice s (.nicCounterValueGet index) ↔
      index = 0 ∧ 128 ∣ seen.countP NicCall.isRound := by
  rw [hnic, (mirrors_final handle seen).queriesDevice_iff, ← ticks_refreshed, NicOp.kind]
  by_cases hindex : index = 0
  · rw [if_pos hindex]
    exact (and_iff_right hindex).symm
  · rw [if_neg hindex]
    exact iff_of_false id fun h => hindex h.1

/-- A read that goes to the NIC is one more call of its side. -/
theorem nicCalls_append_read {c : Context} {p : Plugin} {before : List Call} {e : Environment}
    {id : ℤ} {index : ℕ}
    (hsource : readSource c e id (Run.final (Plugin.step c) p before) = .nic index) :
    nicCalls c p (before ++ [.currentValueGet e id]) =
      nicCalls c p before ++ [⟨.nicCounterValueGet index, e.device⟩] := by
  have hcall : nicCallOf c (Run.final (Plugin.step c) p before) (.currentValueGet e id) =
      some ⟨.nicCounterValueGet index, e.device⟩ := by
    rw [nicCallOf, hsource]
  rw [nicCalls, Run.seen_append, Run.seen_cons, hcall]
  rfl

/-- **Reads that go to the NIC**, in every run of the plugin: such a read queries the device when
it has index 0 and the number of such reads before it is a multiple of 128, and returns the entry
of what the latest query has stored, an enumeration that adds NIC metrics being one. -/
theorem nicReads (c : Context) (ucxCountersCollectEnable nicCountersCollectEnable : ℤ)
    (handle : List RawCounter) (before : List Call) (e : Environment) (id : ℤ) (index : ℕ)
    (hsource : readSource c e id (Run.final (Plugin.step c) (.init ucxCountersCollectEnable
      nicCountersCollectEnable true handle) before) = .nic index) :
    let init := Plugin.init ucxCountersCollectEnable nicCountersCollectEnable true handle
    let p := Run.final (Plugin.step c) init before
    (QueriesDevice p.nic (.nicCounterValueGet index) ↔
        index = 0 ∧ 128 ∣ (nicCalls c init before).countP NicCall.isRound) ∧
      (currentValueGet c e id p).1 =
        ((latestQuery (nicCalls c init (before ++ [.currentValueGet e id]))).getD
          handle)[index]?.map RawCounter.value := by
  intro init p
  have hnic : p.nic = Run.final NicCounters.step (.init true handle) (nicCalls c init before) :=
    nic_final c init before
  rw [nicCalls_append_read hsource]
  exact ⟨queriesDevice_of_nic hnic index, value_of_nic hnic hsource⟩

/-- A device with one counter, whose value is `v`, once MPI is up. -/
def deviceUp (v : UInt64) : Environment :=
  { Environment.bare with mpiInitialized := true, device := [⟨"rx".toList, v⟩] }

/-- The first read of a process that has enumerated nothing. -/
theorem nicReads_first :
    (currentValueGet ⟨true, 0⟩ (deviceUp 5) 0 (.init 0 1 true [])).1 = some 5 :=
  (nicReads ⟨true, 0⟩ 0 1 [] [] (deviceUp 5) 0 0 rfl).2.trans rfl

/-! ## A process that records NIC counters only -/

/-- The reads of a run, as calls of the plugin. -/
def readCalls (reads : List (Environment × ℕ)) : List Call :=
  reads.map fun x => .currentValueGet x.1 x.2

/-- What the NIC side sees of reads when UCX has no counters: the index is the id. -/
def nicReadCalls (reads : List (Environment × ℕ)) : List NicCall :=
  reads.map fun x => ⟨.nicCounterValueGet x.2, x.1.device⟩

/-- The reads from the first one on that sees MPI initialized. -/
def noticedReads (reads : List (Environment × ℕ)) : List (Environment × ℕ) :=
  reads.dropWhile fun x => ¬ x.1.mpiInitialized

/-- The answer that the plugin holds after reads when all answers are empty: the first one. -/
def firstAnswer (reads : List (Environment × ℕ)) : Option AggregateResult :=
  (noticedReads reads).head?.map fun x => x.1.aggregateAtInit

/-- One more read. -/
theorem noticedReads_append (reads : List (Environment × ℕ)) (x : Environment × ℕ) :
    noticedReads (reads ++ [x]) =
      if noticedReads reads = [] ∧ x.1.mpiInitialized = false then []
      else noticedReads reads ++ [x] := by
  rw [noticedReads, List.dropWhile_append, ← noticedReads]
  by_cases hnil : noticedReads reads = []
  · cases hflag : x.1.mpiInitialized <;> simp [hnil, hflag]
  · simp [hnil]

theorem answerAtRead_firstAnswer (reads : List (Environment × ℕ)) (x : Environment × ℕ) :
    answerAtRead (firstAnswer reads) x.1 = firstAnswer (reads ++ [x]) := by
  rw [firstAnswer, firstAnswer, noticedReads_append]
  cases hnoticed : noticedReads reads with
  | nil => cases hflag : x.1.mpiInitialized <;> simp [answerAtRead, hflag]
  | cons y ys => simp [answerAtRead]

theorem firstAnswer_eq_none_iff (reads : List (Environment × ℕ)) :
    firstAnswer reads = none ↔ noticedReads reads = [] := by
  rw [firstAnswer, Option.map_eq_none_iff, List.head?_eq_none_iff]

theorem size_firstAnswer {reads : List (Environment × ℕ)}
    (hempty : ∀ x ∈ reads, x.1.aggregateAtInit.size = 0) : ∀ a ∈ firstAnswer reads, a.size = 0 := by
  intro a ha
  obtain ⟨x, hx, rfl⟩ := Option.map_eq_some_iff.mp ha
  exact hempty x ((List.dropWhile_suffix _).subset (List.mem_of_mem_head? hx))

section

variable {enabled : Bool} {c : Context} {p : Plugin}

/-- The answer that the plugin holds after reads. -/
theorem tracks_reads (h : p.Tracks enabled none) {reads : List (Environment × ℕ)}
    (hempty : ∀ x ∈ reads, x.1.aggregateAtInit.size = 0) :
    (Run.final (Plugin.step c) p (readCalls reads)).Tracks enabled (firstAnswer reads) := by
  induction reads using List.reverseRecOn with
  | nil => exact h
  | append_singleton reads x ih =>
      have hbefore := ih fun y hy => hempty y (List.mem_append_left _ hy)
      have hnext := hbefore.step c (.currentValueGet x.1 x.2)
      have hanswer : answerAfter enabled (firstAnswer reads) (.currentValueGet x.1 x.2) =
          firstAnswer (reads ++ [x]) := by
        rw [answerAfter, answerAtRead_firstAnswer]
        cases ha : firstAnswer (reads ++ [x]) with
        | none => rfl
        | some a => simp [size_firstAnswer hempty a ha]
      rw [hanswer] at hnext
      rw [readCalls, List.map_append, Run.final_append]
      exact hnext

/-- A read goes to the NIC once MPI is noticed, as UCX has no counters. -/
theorem readSource_reads (hnic : c.nicCountersEnable = true) (h : p.Tracks enabled none)
    {reads : List (Environment × ℕ)} {x : Environment × ℕ}
    (hempty : ∀ y ∈ reads ++ [x], y.1.aggregateAtInit.size = 0) (hid : x.2 < 2 ^ 31) :
    readSource c x.1 x.2 (Run.final (Plugin.step c) p (readCalls reads)) =
      if noticedReads (reads ++ [x]) = [] then .nothing else .nic x.2 := by
  have htracks := tracks_reads (c := c) h fun y hy => hempty y (List.mem_append_left _ hy)
  have hindex : uint32 (sizeT ((x.2 : ℤ) - (0 : ℕ))) = x.2 := by
    rw [Int.natCast_zero, Int.sub_zero, sizeT_natCast (by omega), uint32_natCast (by omega)]
  rw [readSource_of_holds htracks.1, answerAtRead_firstAnswer]
  cases ha : firstAnswer (reads ++ [x]) with
  | none => rw [if_pos ((firstAnswer_eq_none_iff _).mp ha)]
  | some a =>
      have hnoticed : noticedReads (reads ++ [x]) ≠ [] := by
        intro hnil
        rw [(firstAnswer_eq_none_iff _).mpr hnil] at ha
        cases ha
      simp only [size_firstAnswer hempty a ha, Nat.not_lt_zero, if_false, hnic, if_true, hindex,
        if_neg hnoticed]

/-- The NIC side sees the reads from the first one on that sees MPI. -/
theorem nicCalls_reads (hnic : c.nicCountersEnable = true) (h : p.Tracks enabled none)
    {reads : List (Environment × ℕ)}
    (hreads : ∀ x ∈ reads, x.2 < 2 ^ 31 ∧ x.1.aggregateAtInit.size = 0) :
    nicCalls c p (readCalls reads) = nicReadCalls (noticedReads reads) := by
  induction reads using List.reverseRecOn with
  | nil => rfl
  | append_singleton reads x ih =>
      have hbefore := ih fun y hy => hreads y (List.mem_append_left _ hy)
      have hempty : ∀ y ∈ reads ++ [x], y.1.aggregateAtInit.size = 0 := fun y hy => (hreads y hy).2
      have hsource := readSource_reads hnic h hempty
        (hreads x (List.mem_append_right _ List.mem_cons_self)).1
      have hsplit : nicCalls c p (readCalls (reads ++ [x])) = nicCalls c p (readCalls reads) ++
          (nicCallOf c (Run.final (Plugin.step c) p (readCalls reads))
            (.currentValueGet x.1 x.2)).toList := by
        rw [nicCalls, readCalls, List.map_append, Run.seen_append]
        simp only [List.map_cons, List.map_nil, Run.seen_cons, Run.seen_nil, List.append_nil]
        rfl
      rw [hsplit, hbefore, nicCallOf, hsource, noticedReads_append]
      by_cases hdown : noticedReads reads = [] ∧ x.1.mpiInitialized = false
      · simp [hdown.1, hdown.2, nicReadCalls]
      · simp [if_neg hdown, nicReadCalls]

end

/-- Registration touches the number of the next id only. -/
theorem addMetric_plugin {metric : Name} {p : Plugin} {r : ℤ × Plugin}
    (h : addMetric metric p = .ok r) : ∃ n, r.2 = { p with currentId := n } := by
  rw [addMetric] at h
  cases hparse : parseMetric metric with
  | error f => simp [hparse, bind, Except.bind] at h
  | ok parsed =>
      simp only [hparse, bind, Except.bind] at h
      split at h <;>
      · have heq := Except.ok.inj h
        subst heq
        exact ⟨_, rfl⟩

theorem addMetrics_plugin {metrics : List Name} {p : Plugin} {r : List ℤ × Plugin}
    (h : addMetrics metrics p = .ok r) : ∃ n, r.2 = { p with currentId := n } := by
  induction metrics generalizing p r with
  | nil =>
      have heq := Except.ok.inj h
      subst heq
      exact ⟨p.currentId, rfl⟩
  | cons metric metrics ih =>
      simp only [addMetrics, bind, Except.bind] at h
      cases h₁ : addMetric metric p with
      | error f => simp [h₁] at h
      | ok r₁ =>
          cases h₂ : addMetrics metrics r₁.2 with
          | error f => simp [h₁, h₂] at h
          | ok r₂ =>
              simp only [h₁, h₂] at h
              have heq := Except.ok.inj h
              subst heq
              obtain ⟨n, hn⟩ := ih h₂
              obtain ⟨m, hm⟩ := addMetric_plugin h₁
              exact ⟨n, by rw [hn, hm]⟩

/-- With UCX collection disabled there are no UCX properties. -/
theorem ucxProperties_of_disabled {c : Context} {e : Environment} {metricName : Name} {p : Plugin}
    {r : Enumeration} (hucx : isUcxMetric metricName) (hen : p.ucxCountersCollectEnable = 0)
    (hr : getMetricProperties c e metricName p = .ok r) : r.ucxProperties = [] := by
  rw [getMetricProperties_of_ucx hucx, ucxMetricProperties, if_neg (not_not_intro hen)] at hr
  have heq := Except.ok.inj hr
  subst heq
  exact ucxProperties_addNicProperties _ _ _ _

/-- What a query has stored after the aggregation of the device `device`. -/
theorem exists_latestQuery (device : List RawCounter) (calls : List NicCall) :
    ∃ snapshot, latestQuery (⟨.nicCountersAggregate, device⟩ :: calls) = some snapshot ∧
      (snapshot = device ∨ ∃ call ∈ calls, snapshot = call.device) := by
  rw [latestQuery, refreshed, List.map_cons, Run.final_cons]
  rcases Decimation.Cell.latest_final_or nicCountersUpdateDecimation
    (Decimation.Cell.init.visit nicCountersUpdateDecimation
      (NicCall.visit ⟨.nicCountersAggregate, device⟩)) (calls.map NicCall.visit) with
    hsame | ⟨v, hv, hbrought⟩
  · exact ⟨device, hsame, .inl rfl⟩
  · obtain ⟨call, hcall, rfl⟩ := List.mem_map.mp hv
    exact ⟨call.device, hbrought, .inr ⟨call, hcall, rfl⟩⟩

/-- What a read of a process yields that records NIC counters only. -/
def NicOnlyRead (metricName : Name) (device : List RawCounter) (metricProperties : List Name)
    (reads : List (Environment × ℕ)) (k : ℕ) (value : Option UInt64) : Prop :=
  if noticedReads reads = [] then value = some 0
  else ∃ snapshot counter,
    latestQuery (⟨.nicCountersAggregate, device⟩ :: nicReadCalls (noticedReads reads)) =
        some snapshot ∧
      snapshot[k]? = some counter ∧
      metricProperties[k]? = some (metricProperty (nicCounterLabel metricName counter.text)) ∧
      value = some counter.value

/-- **A process that records NIC counters only**, on a device whose counters keep their names, and
with a UCX that has no counters: the id `k` that is registered for the property `k` reads the
counter of this label as the latest query has found it. The enumeration queries, and then every
128th read of id 0 from the first read on that sees MPI initialized; before, reads are 0. -/
theorem nicOnly_reads {commRank nicCountersCollectEnable : ℤ} {handle : List RawCounter}
    {e₀ : Environment} {metricName : Name} {r : Enumeration} {q : Plugin}
    (hucx : isUcxMetric metricName) (hen : nicCountersCollectEnable ≠ 0)
    (hr : getMetricProperties ⟨true, commRank⟩ e₀ metricName
      (.init 0 nicCountersCollectEnable true handle) = .ok r)
    (hids : addMetrics r.metricProperties r.plugin =
      .ok ((List.range r.metricProperties.length).map (fun k : ℕ => (k : ℤ)), q))
    (reads : List (Environment × ℕ)) (e : Environment) (k : ℕ)
    (hreads : ∀ x ∈ reads ++ [(e, k)], x.2 < r.metricProperties.length ∧
      x.1.aggregateAtInit.size = 0 ∧
      x.1.device.map RawCounter.text = e₀.device.map RawCounter.text) :
    NicOnlyRead metricName e₀.device r.metricProperties (reads ++ [(e, k)]) k
      (currentValueGet ⟨true, commRank⟩ e k
        (Run.final (Plugin.step ⟨true, commRank⟩) q (readCalls reads))).1 := by
  obtain ⟨hnic, hproperties⟩ := nicProperties_eq hucx hen rfl hr
  have hall : r.metricProperties = r.nicProperties := by
    rw [Enumeration.metricProperties, ucxProperties_of_disabled hucx rfl hr, List.nil_append]
  have hbound : r.metricProperties.length ≤ numNicAggregateCntsMax := by
    rw [hall, hproperties, List.length_map]
    exact Nat.le_trans (List.length_take_le _ _) (List.length_take_le _ _)
  have hsmall : numNicAggregateCntsMax < 2 ^ 31 := by decide
  -- What the enumeration and the registration leave.
  obtain ⟨n, rfl⟩ := addMetrics_plugin hids
  have htracks : Plugin.Tracks false { r.plugin with currentId := n } none := by
    have hstep := (Plugin.tracks_init 0 nicCountersCollectEnable true handle).step
      ⟨true, commRank⟩ (.getMetricProperties e₀ metricName)
    have hnone : answerAfter (decide ((0 : ℤ) ≠ 0)) none (.getMetricProperties e₀ metricName) =
        none := by simp [answerAfter]
    rw [hnone] at hstep
    simp only [Plugin.step, hr] at hstep
    exact hstep
  have hstart : Plugin.nic { r.plugin with currentId := n } =
      Run.final NicCounters.step (.init true handle) [⟨.nicCountersAggregate, e₀.device⟩] := hnic
  have hempty : ∀ x ∈ reads ++ [(e, k)], x.1.aggregateAtInit.size = 0 :=
    fun x hx => (hreads x hx).2.1
  have hid : ∀ x ∈ reads ++ [(e, k)], x.2 < 2 ^ 31 := by
    intro x hx
    have hlt := (hreads x hx).1
    omega
  have hlast : (e, k) ∈ reads ++ [(e, k)] := List.mem_append_right _ List.mem_cons_self
  have hsource := readSource_reads (c := ⟨true, commRank⟩) rfl htracks hempty (hid _ hlast)
  rw [NicOnlyRead]
  by_cases hnoticed : noticedReads (reads ++ [(e, k)]) = []
  · rw [if_pos hnoticed] at hsource ⊢
    rw [currentValueGet_eq_readFrom, hsource]
    rfl
  · rw [if_neg hnoticed] at hsource ⊢
    have hseen := nic_final ⟨true, commRank⟩ { r.plugin with currentId := n } (readCalls reads)
    rw [nicCalls_reads rfl htracks fun x hx => ⟨hid x (List.mem_append_left _ hx),
      hempty x (List.mem_append_left _ hx)⟩, hstart, ← Run.final_append] at hseen
    have hmore : noticedReads (reads ++ [(e, k)]) = noticedReads reads ++ [(e, k)] := by
      rw [noticedReads_append] at hnoticed ⊢
      exact if_neg fun hdown => hnoticed (if_pos hdown)
    have hcalls : [⟨.nicCountersAggregate, e₀.device⟩] ++ nicReadCalls (noticedReads reads) ++
        [⟨.nicCounterValueGet k, e.device⟩] = ⟨.nicCountersAggregate, e₀.device⟩ ::
          nicReadCalls (noticedReads (reads ++ [(e, k)])) := by
      rw [hmore, nicReadCalls, nicReadCalls, List.map_append]
      rfl
    have hvalue := value_of_nic hseen hsource
    obtain ⟨snapshot, hsnapshot, hfrom⟩ := exists_latestQuery e₀.device
      (nicReadCalls (noticedReads (reads ++ [(e, k)])))
    rw [hcalls, hsnapshot, Option.getD_some] at hvalue
    -- Whatever the query was, the names of its counters are those of the enumeration.
    have hnames : snapshot.map RawCounter.text = e₀.device.map RawCounter.text := by
      rcases hfrom with rfl | ⟨call, hcall, rfl⟩
      · rfl
      · obtain ⟨x, hx, rfl⟩ := List.mem_map.mp hcall
        exact (hreads x ((List.dropWhile_suffix _).subset hx)).2.2
    have hk : k < r.metricProperties.length := (hreads _ hlast).1
    have hlabel : r.metricProperties[k]? =
        (snapshot[k]?.map RawCounter.text).map
          fun text => metricProperty (nicCounterLabel metricName text) := by
      have htake : k < (aggregateNames e₀.device).length := by
        rw [hall, hproperties, List.length_map, List.length_take] at hk
        omega
      rw [hall, hproperties, List.getElem?_map, List.getElem?_take_of_lt htake, ← hnames,
        List.getElem?_map]
    cases hcounter : snapshot[k]? with
    | none =>
        rw [hcounter, Option.map_none, Option.map_none, List.getElem?_eq_none_iff] at hlabel
        omega
    | some counter =>
        rw [hcounter] at hlabel hvalue
        exact ⟨snapshot, counter, hsnapshot, hcounter, hlabel, hvalue⟩

/-- The device has another value at each read, and the second read of id 0 does not query. -/
theorem nicOnly_reads_twice :
    ∃ r q, getMetricProperties ⟨true, 0⟩ (deviceUp 5) "UCX@1".toList (.init 0 1 true []) = .ok r ∧
      addMetrics r.metricProperties r.plugin = .ok ([0], q) ∧
      NicOnlyRead "UCX@1".toList [⟨"rx".toList, 5⟩] r.metricProperties
        [(deviceUp 7, 0), (deviceUp 9, 0)] 0
        (currentValueGet ⟨true, 0⟩ (deviceUp 9) (0 : ℕ)
          (Run.final (Plugin.step ⟨true, 0⟩) q (readCalls [(deviceUp 7, 0)]))).1 := by
  obtain ⟨r, q, hr, hproperties, hids⟩ : ∃ r q, getMetricProperties ⟨true, 0⟩ (deviceUp 5)
      "UCX@1".toList (.init 0 1 true []) = .ok r ∧
      r.metricProperties = ["UCX@1_nic_cnt_rx".toList] ∧
      addMetrics r.metricProperties r.plugin = .ok ([0], q) := ⟨_, _, rfl, rfl, rfl⟩
  have hlength : r.metricProperties.length = 1 := by rw [hproperties]; rfl
  refine ⟨r, q, hr, hids, ?_⟩
  refine nicOnly_reads (by decide) (by decide) hr (by rw [hids, hlength]; rfl) [(deviceUp 7, 0)]
    (deviceUp 9) 0 ?_
  intro x hx
  rcases List.mem_pair.mp hx with rfl | rfl <;>
  · rw [hlength]
    decide

end ScorepPluginUcx
