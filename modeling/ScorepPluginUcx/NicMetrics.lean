import ScorepPluginUcx.Core
import ScorepPluginUcx.NicAggregation

/-!
# NIC metrics against the aggregation

There is one NIC metric for each aggregate name, and it is meant to be the sum of the raw
counters that the name stands for. The labels and the values are however taken from the raw
counters at the same index.

## Main results

* `nicProperties_eq`: the labels of an enumeration.
* `nicMetricsRight_iff`: when every metric has the label and the value of its aggregate.
-/

namespace ScorepPluginUcx

/-- The sum, modulo `2 ^ 64`, of the raw counters that an aggregate name stands for. -/
def aggregateSum (aggregateName : Name) (device : List RawCounter) : UInt64 :=
  ((device.filter fun k => filteredName k.text = aggregateName).map RawCounter.value).sum

/-- The NIC metrics of an enumeration are the aggregate sums: `s` is what the enumeration
has left in the sampler. A value is read right after the device has been refreshed, which
changes the values of its counters but not their names. -/
structure NicMetricsRight (metricName : Name) (device : List RawCounter)
    (nicProperties : List Name) (s : NicCounters) : Prop where
  label : ∀ i < s.nicCntsAgrgtNum, nicProperties[i]? =
    some (metricProperty (nicCounterLabel metricName (s.nicCntsAgrgtNames i)))
  value : ∀ refreshed : List RawCounter,
    refreshed.map RawCounter.text = device.map RawCounter.text → ∀ i < s.nicCntsAgrgtNum,
      (nicCounterValueGet refreshed i (nicCountersUpdate refreshed s).2).1 =
        some (aggregateSum (s.nicCntsAgrgtNames i) refreshed)
  covered : ∀ k ∈ device, ∃ i < s.nicCntsAgrgtNum,
    s.nicCntsAgrgtNames i = filteredName k.text

/-! ## The enumeration -/

/-- **The NIC part of an enumeration**: a label for each of the first raw counters, as many
as there are aggregates. -/
theorem nicProperties_eq {commRank : ℤ} {e : Environment} {metricName : Name} {p : Plugin}
    {r : Enumeration} (hucx : isUcxMetric metricName) (hen : p.nicCountersCollectEnable ≠ 0)
    (hready : p.ucxSampling.nic.nicCountersInitialized = true)
    (hr : getMetricProperties ⟨true, commRank⟩ e metricName p = .ok r) :
    r.plugin.ucxSampling.nic = (nicCountersAggregate e.device p.ucxSampling.nic).2 ∧
      r.nicProperties = ((e.device.map RawCounter.text).take
        (aggregateNames e.device).length).map
        fun text => metricProperty (nicCounterLabel metricName text) := by
  rw [getMetricProperties_of_ucx hucx] at hr
  cases hu : ucxMetricProperties ⟨true, commRank⟩ e metricName
      { p with ucxMetricName := metricName, nUcxCounters := ucxNumTemporaryCounters } with
  | error f => simp [hu, Except.map] at hr
  | ok r' =>
      rw [hu] at hr
      obtain rfl := Except.ok.inj hr
      rcases ucxMetricProperties_nic hu with ⟨hnic, hflag⟩
      have hen' : r'.plugin.nicCountersCollectEnable ≠ 0 := by rw [hflag]; exact hen
      have hcond : (⟨true, commRank⟩ : Context).nicCountersEnable = true ∧
          r'.plugin.nicCountersCollectEnable ≠ 0 := ⟨rfl, hen'⟩
      obtain ⟨hnum, _, hhandle, hready', _⟩ := nicCountersAggregate_names e.device hready
      rw [addNicProperties, if_pos hcond]
      refine ⟨by simp [nicMetricProperties, Plugin.withNic, hnic], ?_⟩
      simp only [nicMetricProperties, hnic, hnum]
      have hraw := map_nicCounterNameGet hready'
      rw [hhandle] at hraw
      have hle := length_aggregateNames_le e.device
      rw [← hraw, ← List.map_take, List.take_range, Nat.min_eq_left hle, List.map_map]
      rfl

/-! ## Labels -/

theorem nul_notMem_nicCounterLabel {metricName text : Name} (hmetric : '\x00' ∉ metricName)
    (htext : '\x00' ∉ text) : '\x00' ∉ nicCounterLabel metricName text := by
  have hnic : '\x00' ∉ "_nic_cnt_".toList := by decide
  simp only [nicCounterLabel, List.mem_append, not_or]
  exact ⟨⟨hmetric, hnic⟩, htext⟩

/-- A label tells its counter. -/
theorem metricProperty_nicCounterLabel_inj {metricName text text' : Name}
    (hmetric : '\x00' ∉ metricName) (htext : '\x00' ∉ text) (htext' : '\x00' ∉ text') :
    metricProperty (nicCounterLabel metricName text) =
        metricProperty (nicCounterLabel metricName text') ↔ text = text' := by
  rw [metricProperty, metricProperty,
    cStr_of_nul_notMem (nul_notMem_nicCounterLabel hmetric htext),
    cStr_of_nul_notMem (nul_notMem_nicCounterLabel hmetric htext')]
  simp [nicCounterLabel]

theorem nul_notMem_text (k : RawCounter) : '\x00' ∉ k.text := nul_notMem_cStr k.name

theorem nul_notMem_filteredName {text : Name} (h : '\x00' ∉ text) :
    '\x00' ∉ filteredName text := by
  intro hmem
  exact h (List.mem_of_mem_filter hmem)

/-! ## Values -/

/-- A value read right after a refresh is that of the raw counter at the index. -/
theorem nicCounterValueGet_refreshed {s : NicCounters} (hready : s.nicCountersInitialized = true)
    (refreshed : List RawCounter) (i : ℕ) :
    (nicCounterValueGet refreshed i (nicCountersUpdate refreshed s).2).1 =
      refreshed[i]?.map RawCounter.value := by
  simp only [nicCounterValueGet, nicCountersUpdate, hready, if_true]
  by_cases hi : i = 0
  · rw [if_pos hi]
    split <;> rfl
  · rw [if_neg hi]

/-- The sum over a name that one raw counter has alone. -/
theorem aggregateSum_of_unique {device : List RawCounter} {k : RawCounter} (hk : k ∈ device)
    (hnodup : (filteredNames device).Nodup) :
    aggregateSum (filteredName k.text) device = k.value := by
  rcases List.append_of_mem hk with ⟨before, after, rfl⟩
  have hothers : ∀ x ∈ before ++ after,
      ¬ filteredName x.text = filteredName k.text := by
    rw [filteredNames, List.map_append, List.map_cons, List.nodup_middle, List.nodup_cons,
      ← List.map_append] at hnodup
    exact fun x hx heq => hnodup.1 (List.mem_map.mpr ⟨x, hx, heq⟩)
  have hbefore : before.filter
      (fun x => filteredName x.text = filteredName k.text) = [] := by
    simpa using fun x hx => hothers x (List.mem_append_left _ hx)
  have hafter : after.filter
      (fun x => filteredName x.text = filteredName k.text) = [] := by
    simpa using fun x hx => hothers x (List.mem_append_right _ hx)
  simp [aggregateSum, List.filter_append, hbefore, hafter]

/-- A raw counter with the value 0. -/
def zeroed (k : RawCounter) : RawCounter := { k with value := 0 }

/-- A device with 1 in one counter and 0 in the others. -/
def single (before : List RawCounter) (k : RawCounter) (after : List RawCounter) :
    List RawCounter :=
  before.map zeroed ++ { k with value := 1 } :: after.map zeroed

theorem map_text_single (before : List RawCounter) (k : RawCounter) (after : List RawCounter) :
    (single before k after).map RawCounter.text =
      (before ++ k :: after).map RawCounter.text := by
  simp only [single, List.map_append, List.map_cons, List.map_map]
  rfl

theorem sum_filter_zeroed (p : RawCounter → Bool) (device : List RawCounter) :
    (((device.map zeroed).filter p).map RawCounter.value).sum = 0 := by
  induction device with
  | nil => rfl
  | cons k ks ih =>
      rw [List.map_cons]
      by_cases hp : p (zeroed k) = true
      · rw [List.filter_cons_of_pos hp, List.map_cons, List.sum_cons, ih]
        rfl
      · rw [List.filter_cons_of_neg hp, ih]

/-- The one counter shows in the sum over its name. -/
theorem aggregateSum_single (before : List RawCounter) (k : RawCounter)
    (after : List RawCounter) :
    aggregateSum (filteredName k.text) (single before k after) = 1 := by
  have hk : filteredName ({ k with value := 1 } : RawCounter).text =
      filteredName k.text := rfl
  rw [aggregateSum, single, List.filter_append, List.map_append, List.sum_append,
    sum_filter_zeroed, List.filter_cons_of_pos (by simpa using hk), List.map_cons, List.sum_cons,
    sum_filter_zeroed]
  rfl

/-! ## When the metrics are the aggregate sums -/

section

variable {metricName : Name} {device : List RawCounter} {nicProperties : List Name}
  {s : NicCounters}

/-- Labels and values that are right leave no counter without a metric of its own: the raw
names are the aggregate names. -/
theorem NicMetricsRight.map_text (h : NicMetricsRight metricName device nicProperties s)
    (hnul : '\x00' ∉ metricName) (hready : s.nicCountersInitialized = true)
    (hnum : s.nicCntsAgrgtNum = (aggregateNames device).length)
    (hname : ∀ i < s.nicCntsAgrgtNum, (aggregateNames device)[i]? = some (s.nicCntsAgrgtNames i))
    (hproperties : nicProperties =
      ((device.map RawCounter.text).take (aggregateNames device).length).map
        fun text => metricProperty (nicCounterLabel metricName text)) :
    device.map RawCounter.text = aggregateNames device := by
  have hle := length_aggregateNames_le device
  have htake : (device.map RawCounter.text).take (aggregateNames device).length =
      aggregateNames device := by
    ext i : 1
    by_cases hi : i < (aggregateNames device).length
    · have hlabel := h.label i (by omega)
      have hnameNul : '\x00' ∉ s.nicCntsAgrgtNames i := by
        have hmem := List.mem_of_mem_take (List.mem_of_getElem? (hname i (by omega)))
        rcases List.mem_map.mp (Firsts.mem_distinct.mp hmem) with ⟨k, _, hk⟩
        rw [← hk]
        exact nul_notMem_filteredName (nul_notMem_text k)
      have hdevice : i < device.length := by omega
      rw [hproperties] at hlabel
      simp only [List.getElem?_map, List.getElem?_take, hi, if_true,
        List.getElem?_eq_getElem hdevice, Option.map_some, Option.some.injEq] at hlabel
      rw [metricProperty_nicCounterLabel_inj hnul (nul_notMem_text _) hnameNul] at hlabel
      rw [hname i (by omega), ← hlabel]
      simp [hi, hdevice]
    · rw [List.getElem?_take, if_neg hi, List.getElem?_eq_none (by omega)]
  by_cases hall : device.length ≤ (aggregateNames device).length
  · rwa [List.take_of_length_le (by simpa using hall)] at htake
  · -- The first counter behind the metrics shows in a sum, but in no value.
    exfalso
    have hlt : (aggregateNames device).length < device.length := by omega
    generalize hN : (aggregateNames device).length = N at *
    have hsplit : device = device.take N ++ device[N] :: device.drop (N + 1) := by
      rw [← List.drop_eq_getElem_cons, List.take_append_drop]
    rcases h.covered device[N] (List.getElem_mem hlt) with ⟨i, hi, hcover⟩
    have hvalue := h.value (single (device.take N) device[N] (device.drop (N + 1)))
      ((map_text_single _ _ _).trans (by rw [← hsplit])) i hi
    rw [nicCounterValueGet_refreshed hready, hcover, aggregateSum_single] at hvalue
    have hzero : (single (device.take N) device[N] (device.drop (N + 1)))[i]? =
        some (zeroed device[i]) := by
      have hiN : i < N := by omega
      have hbefore : i < ((device.take N).map zeroed).length := by
        rw [List.length_map, List.length_take]
        omega
      rw [single, List.getElem?_append_left hbefore, List.getElem?_map, List.getElem?_take,
        if_pos hiN, List.getElem?_eq_getElem (Nat.lt_trans hiN hlt), Option.map_some]
    rw [hzero] at hvalue
    exact absurd hvalue (by simp [zeroed])

/-- When the raw names are the aggregate names, and distinct, every metric is right. -/
theorem nicMetricsRight_of_map_text (hready : s.nicCountersInitialized = true)
    (hnum : s.nicCntsAgrgtNum = (aggregateNames device).length)
    (hname : ∀ i < s.nicCntsAgrgtNum, (aggregateNames device)[i]? = some (s.nicCntsAgrgtNames i))
    (hproperties : nicProperties =
      ((device.map RawCounter.text).take (aggregateNames device).length).map
        fun text => metricProperty (nicCounterLabel metricName text))
    (hnodup : (device.map RawCounter.text).Nodup)
    (hfixed : ∀ k ∈ device, filteredName k.text = k.text)
    (htext : device.map RawCounter.text = aggregateNames device) :
    NicMetricsRight metricName device nicProperties s where
  label := by
    intro i hi
    rw [hproperties, htext, List.take_length, List.getElem?_map, hname i hi, Option.map_some]
  value := by
    intro refreshed hrefreshed i hi
    have hi' : i < refreshed.length := by
      have hlen := congrArg List.length hrefreshed
      have hle := length_aggregateNames_le device
      simp only [List.length_map] at hlen
      omega
    have hget : refreshed[i].text = s.nicCntsAgrgtNames i := by
      have hsome := hname i hi
      rw [← htext, ← hrefreshed, List.getElem?_map, List.getElem?_eq_getElem hi'] at hsome
      exact Option.some.inj hsome
    have hfiltered : filteredNames refreshed = device.map RawCounter.text := by
      have hmap : filteredNames refreshed = (refreshed.map RawCounter.text).map filteredName := by
        simp [filteredNames]
      rw [hmap, hrefreshed, List.map_map]
      exact List.map_congr_left fun k hk => hfixed k hk
    have hsame : filteredName refreshed[i].text = s.nicCntsAgrgtNames i := by
      have hmem : refreshed[i].text ∈ device.map RawCounter.text :=
        hrefreshed ▸ List.mem_map.mpr ⟨_, List.getElem_mem hi', rfl⟩
      rcases List.mem_map.mp hmem with ⟨k, hk, hktext⟩
      rw [← hget, ← hktext, hfixed k hk]
    rw [nicCounterValueGet_refreshed hready, List.getElem?_eq_getElem hi', Option.map_some, ← hsame,
      aggregateSum_of_unique (List.getElem_mem hi') (hfiltered ▸ hnodup)]
  covered := by
    intro k hk
    have hmem : k.text ∈ aggregateNames device := htext ▸ List.mem_map.mpr ⟨k, hk, rfl⟩
    obtain ⟨i, hi, hget⟩ := List.getElem_of_mem hmem
    refine ⟨i, by omega, ?_⟩
    rw [hfixed k hk, ← hget]
    have hsome := hname i (by omega)
    rw [List.getElem?_eq_getElem hi] at hsome
    exact (Option.some.inj hsome).symm

end

/-- **NIC metrics are aggregate sums**, at every refresh, exactly when the raw names are
pairwise distinct and have nothing to filter out. -/
theorem nicMetricsRight_iff {commRank : ℤ} {e : Environment} {metricName : Name} {p : Plugin}
    {r : Enumeration} (hucx : isUcxMetric metricName) (hnul : '\x00' ∉ metricName)
    (hen : p.nicCountersCollectEnable ≠ 0)
    (hready : p.ucxSampling.nic.nicCountersInitialized = true)
    (hdistinct : (Firsts.distinct (filteredNames e.device)).length ≤ numNicAggregateCntsMax)
    (hr : getMetricProperties ⟨true, commRank⟩ e metricName p = .ok r) :
    NicMetricsRight metricName e.device r.nicProperties r.plugin.ucxSampling.nic ↔
      (e.device.map RawCounter.text).Nodup ∧
        ∀ k ∈ e.device, filteredName k.text = k.text := by
  rcases nicProperties_eq hucx hen hready hr with ⟨hnic, hproperties⟩
  rcases nicCountersAggregate_names e.device hready with ⟨_, hnum, _, hready', hnames⟩
  rw [← hnic] at hnum hready' hnames
  have htable : aggregateNames e.device = Firsts.distinct (filteredNames e.device) :=
    List.take_of_length_le hdistinct
  have hname : ∀ i < r.plugin.ucxSampling.nic.nicCntsAgrgtNum,
      (aggregateNames e.device)[i]? = some (r.plugin.ucxSampling.nic.nicCntsAgrgtNames i) := by
    intro i hi
    rw [← hnames, List.getElem?_map, List.getElem?_range (by omega)]
    rfl
  constructor
  · intro h
    have htext := h.map_text hnul hready' hnum hname hproperties
    rw [htable] at htext
    refine ⟨htext ▸ Firsts.nodup_distinct _, fun k hk => ?_⟩
    have hmem : k.text ∈ Firsts.distinct (filteredNames e.device) :=
      htext ▸ List.mem_map.mpr ⟨k, hk, rfl⟩
    rcases List.mem_map.mp (Firsts.mem_distinct.mp hmem) with ⟨x, _, hx⟩
    rw [← hx, filteredName_idem]
  · intro h
    rcases h with ⟨hnodup, hfixed⟩
    have hfiltered : filteredNames e.device = e.device.map RawCounter.text :=
      List.map_congr_left fun k hk => hfixed k hk
    have htext : e.device.map RawCounter.text = aggregateNames e.device := by
      rw [htable, hfiltered, Firsts.distinct_of_nodup hnodup]
    exact nicMetricsRight_of_map_text hready' hnum hname hproperties hnodup hfixed htext

/-- Two counters whose names have nothing in common. -/
theorem nicMetricsRight_two :
    ∃ r, getMetricProperties ⟨true, 0⟩
          { Environment.bare with device := [⟨"rx".toList, 1⟩, ⟨"tx".toList, 2⟩] }
          "UCX@1".toList (.init 0 1 true []) = .ok r ∧
        NicMetricsRight "UCX@1".toList [⟨"rx".toList, 1⟩, ⟨"tx".toList, 2⟩] r.nicProperties
          r.plugin.ucxSampling.nic := by
  obtain ⟨r, hr⟩ : ∃ r, getMetricProperties ⟨true, 0⟩
      { Environment.bare with device := [⟨"rx".toList, 1⟩, ⟨"tx".toList, 2⟩] }
      "UCX@1".toList (.init 0 1 true []) = .ok r := ⟨_, rfl⟩
  have hiff :=
    nicMetricsRight_iff (by decide) (by decide) (by decide) rfl (by decide) hr
  exact ⟨r, hr, hiff.mpr ⟨by decide, by decide⟩⟩

/-- Two queues of one counter: the only metric has the label and the value of the first. -/
theorem nicMetrics_two_queues :
    ∃ r, getMetricProperties ⟨true, 0⟩
          { Environment.bare with device := [⟨"rx0".toList, 1⟩, ⟨"rx1".toList, 2⟩] }
          "UCX@1".toList (.init 0 1 true []) = .ok r ∧
        r.nicProperties = ["UCX@1_nic_cnt_rx0".toList] ∧
        ¬ NicMetricsRight "UCX@1".toList [⟨"rx0".toList, 1⟩, ⟨"rx1".toList, 2⟩] r.nicProperties
          r.plugin.ucxSampling.nic := by
  refine ⟨_, rfl, by decide, ?_⟩
  intro h
  exact absurd (h.value [⟨"rx0".toList, 1⟩, ⟨"rx1".toList, 2⟩] rfl 0 (by decide)) (by decide)

end ScorepPluginUcx
