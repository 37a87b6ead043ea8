import ScorepPluginUcx.MetricGrammar
import ScorepPluginUcx.NicSession
import ScorepPluginUcx.Registration
import ScorepPluginUcx.UcxLabels

/-!
# Registering what was enumerated

Score-P hands every property of an enumeration back to `add_metric`, which parses its label with
`parse_metric`. The label is the metric name with the names of class and counter behind it, so an
`@` in any of them makes a third piece of it, and registration throws.

## Main results

* `isUcxMetric_append_iff`: when a metric name stays one with a suffix.
* `metricProperties_eq_suffixes`: the labels of an enumeration.
* `enumeration_registers_iff`: when they can be registered, and with which ids.
-/

namespace ScorepPluginUcx

/-- A UCX metric, in the grammar of `parse_metric`. -/
theorem isUcxMetric_iff {s : Name} :
    isUcxMetric s ↔ ∃ number sign digits, '@' ∉ number ∧
      (s = ucxEvent ++ '@' :: number ∨ s = ucxEvent ++ '@' :: (number ++ ['@'])) ∧
      Numeral number sign digits ∧ digitsValue 10 digits < 2 ^ 64 := by
  have hucx : '@' ∉ ucxEvent := by decide
  constructor
  · intro h
    rw [isUcxMetric] at h
    cases hparse : parseMetric s with
    | error f => simp [hparse] at h
    | ok parsed =>
        obtain ⟨event, dummy, hexDummy⟩ := parsed
        have heq : event = ucxEvent := by simpa [hparse] using h
        subst heq
        obtain ⟨number, sign, digits, _, hnumber, hs, hnumeral, hlt, _, _⟩ :=
          parseMetric_ok_iff.mp hparse
        exact ⟨number, sign, digits, hnumber, hs, hnumeral, hlt⟩
  · rintro ⟨number, sign, digits, hnumber, hs, hnumeral, hlt⟩
    have hparse := parseMetric_ok_iff.mpr
      ⟨number, sign, digits, hucx, hnumber, hs, hnumeral, hlt, rfl, rfl⟩
    rw [isUcxMetric, hparse]
    exact decide_eq_true rfl

/-- An `@` before the last character. -/
theorem notMem_dropLast_of_eq {l number : Name} (hnumber : '@' ∉ number)
    (h : l = number ∨ l = number ++ ['@']) : '@' ∉ l.dropLast := by
  rcases h with rfl | rfl
  · exact fun hmem => hnumber (List.mem_of_mem_dropLast hmem)
  · rwa [List.dropLast_concat]

/-- A text with no `@` before its last character has none, or one at its end. -/
theorem notMem_or_of_notMem_dropLast {l : Name} (h : '@' ∉ l.dropLast) :
    '@' ∉ l ∨ ∃ t, '@' ∉ t ∧ l = t ++ ['@'] := by
  cases l using List.reverseRecOn with
  | nil => exact .inl List.not_mem_nil
  | append_singleton t c _ =>
      rw [List.dropLast_concat] at h
      by_cases hc : c = '@'
      · exact .inr ⟨t, h, by rw [hc]⟩
      · exact .inl (by simp [h, Ne.symm hc])

/-- A label that `parse_metric` splits into two pieces. -/
theorem count_of_two_pieces {metricName : Name} (h : isUcxMetric metricName) {t number' : Name}
    (hnumber' : '@' ∉ number')
    (heq : metricName ++ '_' :: t = ucxEvent ++ '@' :: number' ∨
      metricName ++ '_' :: t = ucxEvent ++ '@' :: (number' ++ ['@'])) :
    metricName.count '@' = 1 ∧ '@' ∉ t.dropLast := by
  have hucx : ucxEvent.count '@' = 0 := by decide
  obtain ⟨number, _, _, hnumber, rfl | rfl, _⟩ := isUcxMetric_iff.mp h
  · have hcount : number.count '@' = 0 := List.count_eq_zero.mpr hnumber
    have hrest : number ++ '_' :: t = number' ∨ number ++ '_' :: t = number' ++ ['@'] := by
      simpa using heq
    refine ⟨by simp [hucx, hcount], fun hmem => notMem_dropLast_of_eq hnumber' hrest ?_⟩
    have hne : t ≠ [] := by
      rintro rfl
      cases hmem
    rw [List.dropLast_append_of_ne_nil (List.cons_ne_nil _ _), List.dropLast_cons_of_ne_nil hne]
    exact List.mem_append_right _ (List.mem_cons_of_mem _ hmem)
  · -- A metric that ends in an `@` has a second one in every label.
    exfalso
    have hrest : number ++ '@' :: '_' :: t = number' ∨
        number ++ '@' :: '_' :: t = number' ++ ['@'] := by
      simpa using heq
    apply notMem_dropLast_of_eq hnumber' hrest
    rw [List.dropLast_append_of_ne_nil (List.cons_ne_nil _ _),
      List.dropLast_cons_of_ne_nil (List.cons_ne_nil _ _)]
    exact List.mem_append_right _ List.mem_cons_self

/-- **A label of a UCX metric** is one exactly when the metric has a single `@` and the suffix none
before its last character. -/
theorem isUcxMetric_append_iff {metricName : Name} (h : isUcxMetric metricName) (t : Name) :
    isUcxMetric (metricName ++ '_' :: t) ↔ metricName.count '@' = 1 ∧ '@' ∉ t.dropLast := by
  constructor
  · intro hlabel
    obtain ⟨_, _, _, hnumber, heq, _⟩ := isUcxMetric_iff.mp hlabel
    exact count_of_two_pieces h hnumber heq
  · rintro ⟨hone, ht⟩
    obtain ⟨number, sign, digits, hnumber, hmetric, hnumeral, hlt⟩ := isUcxMetric_iff.mp h
    have hnoSecond : metricName = ucxEvent ++ '@' :: number := by
      refine hmetric.resolve_right fun hsecond => ?_
      simp [hsecond] at hone
      omega
    subst hnoSecond
    rw [isUcxMetric_iff]
    rcases notMem_or_of_notMem_dropLast ht with hall | ⟨t', ht', rfl⟩
    · refine ⟨number ++ '_' :: t, sign, digits, by simp [hnumber, hall], .inl (by simp), ?_, hlt⟩
      exact hnumeral.append rfl
    · refine ⟨number ++ '_' :: t', sign, digits, by simp [hnumber, ht'], .inr (by simp), ?_, hlt⟩
      exact hnumeral.append rfl

/-! ## Registration -/

/-- A label of a UCX metric that is none itself has too many pieces. -/
theorem parseMetric_label_error {metricName : Name} (h : isUcxMetric metricName) {t : Name}
    (hnot : ¬ isUcxMetric (metricName ++ '_' :: t)) :
    parseMetric (metricName ++ '_' :: t) = .error .invalidArgument := by
  have hpieces : ∀ event number, split (metricName ++ '_' :: t) '@' ≠ [event, number] := by
    intro event number hsplit
    apply hnot
    rw [isUcxMetric_append_iff h]
    obtain ⟨hevent, hnumber, hs⟩ := split_eq_pair_iff.mp hsplit
    obtain ⟨rest, hrest⟩ : ∃ rest, metricName ++ '_' :: t = ucxEvent ++ '@' :: rest := by
      obtain ⟨_, _, _, _, rfl | rfl, _⟩ := isUcxMetric_iff.mp h <;>
        exact ⟨_, by rw [List.append_assoc, List.cons_append]⟩
    have hsame : ucxEvent = event := by
      rw [hrest, split_append (by decide)] at hsplit
      exact (List.cons.inj hsplit).1
    rw [← hsame] at hs
    exact count_of_two_pieces h hnumber (hs.imp_left And.left)
  rw [parseMetric]
  split
  · exact absurd ‹_› (hpieces _ _)
  · rfl

theorem int32_mod_add (n i : ℕ) : int32 (n % 2 ^ 32 + i) = int32 (n + i) := by
  rw [int32, int32, Nat.mod_add_mod]

/-- **The ids of a registration** are numbers in sequence. -/
theorem addMetrics_of_ucx {labels : List Name} (h : ∀ label ∈ labels, isUcxMetric label)
    (p : Plugin) :
    ∃ q, addMetrics labels p =
      .ok ((List.range labels.length).map fun i => int32 (p.currentId + i), q) := by
  induction labels generalizing p with
  | nil => exact ⟨p, rfl⟩
  | cons label labels ih =>
      rw [List.forall_mem_cons] at h
      obtain ⟨q, hq⟩ := ih h.2 { p with currentId := (p.currentId + 1) % 2 ^ 32 }
      refine ⟨q, ?_⟩
      simp only [addMetrics, addMetric_of_ucx h.1, bind, Except.bind, hq, int32_mod_add]
      rw [List.length_cons, List.range_succ_eq_map, List.map_cons, List.map_map]
      simp [Function.comp_def, Nat.add_assoc, Nat.add_comm 1]

/-- One label with too many pieces, among labels that are UCX metrics or have too many pieces
too, and the registration throws. -/
theorem addMetrics_error {labels : List Name}
    (hlabels : ∀ label ∈ labels,
      isUcxMetric label ∨ parseMetric label = .error .invalidArgument)
    (hnot : ∃ label ∈ labels, ¬ isUcxMetric label) (p : Plugin) :
    addMetrics labels p = .error .invalidArgument := by
  induction labels generalizing p with
  | nil => simp at hnot
  | cons label labels ih =>
      rw [List.forall_mem_cons] at hlabels
      rcases hlabels.1 with hucx | hparse
      · obtain ⟨other, hmem, hother⟩ := hnot
        have hrest : other ∈ labels := by
          refine (List.mem_cons.mp hmem).resolve_left ?_
          rintro rfl
          exact hother hucx
        simp only [addMetrics, addMetric_of_ucx hucx, bind, Except.bind,
          ih hlabels.2 ⟨other, hrest, hother⟩]
      · simp only [addMetrics, addMetric, hparse, bind, Except.bind]

/-! ## What an enumeration offers -/

/-- What the labels of an enumeration have behind the metric name and an underscore: the names of
class and counter, and in a build that adds NIC metrics the names of the first raw counters, as
many as there are aggregates. -/
def labelSuffixes (c : Context) (e : Environment) (p : Plugin) : List Name :=
  (if p.ucxCountersCollectEnable ≠ 0 then
    e.counterNames.map fun k => k.className ++ '_' :: k.counterName
  else []) ++
  (if c.nicCountersEnable ∧ p.nicCountersCollectEnable ≠ 0 ∧
      p.ucxSampling.nic.nicCountersInitialized then
    ((e.device.map RawCounter.text).take (aggregateNames e.device).length).map
      fun text => "nic_cnt_".toList ++ text
  else [])

/-- The UCX part of an enumeration has no NIC properties and registers nothing. -/
theorem ucxMetricProperties_frame {c : Context} {e : Environment} {metricName : Name}
    {p : Plugin} {r : Enumeration} (h : ucxMetricProperties c e metricName p = .ok r) :
    r.nicProperties = [] ∧ r.plugin.currentId = p.currentId := by
  have hstart : (aggregateStart c e p).currentId = p.currentId := by
    by_cases hrank : c.commRank = 0 <;> simp [aggregateStart, hrank, Plugin.withAggregate]
  rw [ucxMetricProperties] at h
  split at h
  · cases hread : metricNameReadCountersListFromFile e.namesFile with
    | error f => simp [hread, bind, Except.bind] at h
    | ok found =>
        simp only [hread, bind, Except.bind] at h
        cases found with
        | some countersList =>
            have heq := Except.ok.inj h
            subst heq
            exact ⟨rfl, rfl⟩
        | none =>
            have heq := Except.ok.inj h
            subst heq
            exact ⟨rfl, hstart⟩
  · have heq := Except.ok.inj h
    subst heq
    exact ⟨rfl, rfl⟩

/-- Without a device there are no NIC metrics. -/
theorem nicMetricProperties_of_not_ready (e : Environment) (metricName : Name) {p : Plugin}
    (hready : p.ucxSampling.nic.nicCountersInitialized = false) :
    (nicMetricProperties e metricName p).1 = [] := by
  simp [nicMetricProperties, nicCountersAggregate, nicCountersUpdate, hready]

/-- The NIC properties of an enumeration, whatever is built and enabled. -/
theorem nicProperties_of_ucx {c : Context} {e : Environment} {metricName : Name} {p : Plugin}
    {r : Enumeration} (hucx : isUcxMetric metricName)
    (hr : getMetricProperties c e metricName p = .ok r) :
    r.nicProperties =
      if c.nicCountersEnable ∧ p.nicCountersCollectEnable ≠ 0 ∧
          p.ucxSampling.nic.nicCountersInitialized then
        ((e.device.map RawCounter.text).take (aggregateNames e.device).length).map
          fun text => metricProperty (nicCounterLabel metricName text)
      else [] := by
  by_cases hadds : c.nicCountersEnable = true ∧ p.nicCountersCollectEnable ≠ 0 ∧
      p.ucxSampling.nic.nicCountersInitialized = true
  · obtain ⟨build, commRank⟩ := c
    obtain ⟨hbuild, hen, hready⟩ := hadds
    have heq : build = true := hbuild
    subst heq
    rw [if_pos ⟨rfl, hen, hready⟩]
    exact (nicProperties_eq hucx hen hready hr).2
  · rw [if_neg hadds]
    rw [getMetricProperties_of_ucx hucx] at hr
    cases hu : ucxMetricProperties c e metricName
        { p with ucxMetricName := metricName, nUcxCounters := ucxNumTemporaryCounters } with
    | error f => simp [hu, Except.map] at hr
    | ok r' =>
        rw [hu] at hr
        have heq := Except.ok.inj hr
        subst heq
        obtain ⟨hnic, hflag⟩ := ucxMetricProperties_nic hu
        rw [addNicProperties]
        split
        · rename_i h
          rw [hflag] at h
          refine nicMetricProperties_of_not_ready e metricName ?_
          rw [hnic]
          exact Bool.eq_false_of_not_eq_true fun hready => hadds ⟨h.1, h.2, hready⟩
        · exact (ucxMetricProperties_frame hu).1

/-- **The labels of an enumeration** that finds no names file. -/
theorem metricProperties_eq_suffixes (c : Context) {e : Environment} {metricName : Name}
    {p : Plugin} (hucx : isUcxMetric metricName) (hnul : '\x00' ∉ metricName)
    (hfile : e.namesFile = none) (hnames : ∀ k ∈ e.counterNames, k.NulFree) :
    ∃ r, getMetricProperties c e metricName p = .ok r ∧
      r.metricProperties = (labelSuffixes c e p).map (fun t => metricName ++ '_' :: t) ∧
      r.plugin.currentId = p.currentId := by
  let p' := { p with ucxMetricName := metricName, nUcxCounters := ucxNumTemporaryCounters }
  obtain ⟨r, hr, hproperties⟩ : ∃ r, ucxMetricProperties c e metricName p' = .ok r ∧
      r.ucxProperties = (if p.ucxCountersCollectEnable ≠ 0 then
        e.counterNames.map fun k => k.className ++ '_' :: k.counterName else []).map
          fun t => metricName ++ '_' :: t := by
    by_cases hen : p.ucxCountersCollectEnable ≠ 0
    · obtain ⟨r, hr, hproperties, _⟩ :=
        ucxMetricProperties_fileless c metricName (p := p') hen hfile
      refine ⟨r, hr, ?_⟩
      rw [hproperties, if_pos hen, liveLabels, List.map_map, List.map_map]
      refine List.map_congr_left fun k hk => ?_
      rw [Function.comp_apply, metricProperty_label_of_notMem hnul (hnames k hk)]
      simp [ucxCounterLabel]
    · refine ⟨_, if_neg hen, ?_⟩
      rw [if_neg hen]
      rfl
  have hcall : getMetricProperties c e metricName p = .ok (addNicProperties c e metricName r) := by
    rw [getMetricProperties_of_ucx hucx, hr]
    rfl
  have hid : r.plugin.currentId = p.currentId := (ucxMetricProperties_frame hr).2
  refine ⟨_, hcall, ?_, ?_⟩
  · rw [Enumeration.metricProperties, ucxProperties_addNicProperties, hproperties,
      nicProperties_of_ucx hucx hcall, labelSuffixes, List.map_append]
    congr 1
    rw [apply_ite (List.map fun t => metricName ++ '_' :: t), List.map_map]
    congr 1
    refine List.map_congr_left fun text htext => ?_
    obtain ⟨k, _, rfl⟩ := List.mem_map.mp (List.mem_of_mem_take htext)
    rw [Function.comp_apply, metricProperty,
      cStr_of_nul_notMem (nul_notMem_nicCounterLabel hnul (nul_notMem_text k))]
    simp [nicCounterLabel]
  · rw [addNicProperties]
    split <;> exact hid

/-- **What an enumeration offers can be registered**, for every metric name and all counters,
exactly when the metric name has a single `@` and none of the names behind it has one before its
last character; the ids are then numbers in sequence, and otherwise registration throws. -/
theorem enumeration_registers_iff (c : Context) {e : Environment} {metricName : Name} {p : Plugin}
    (hucx : isUcxMetric metricName) (hnul : '\x00' ∉ metricName) (hfile : e.namesFile = none)
    (hnames : ∀ k ∈ e.counterNames, k.NulFree) :
    ∃ r, getMetricProperties c e metricName p = .ok r ∧
      if ∀ t ∈ labelSuffixes c e p, metricName.count '@' = 1 ∧ '@' ∉ t.dropLast then
        ∃ q, addMetrics r.metricProperties r.plugin =
          .ok ((List.range r.metricProperties.length).map fun i => int32 (p.currentId + i), q)
      else addMetrics r.metricProperties r.plugin = .error .invalidArgument := by
  obtain ⟨r, hr, hproperties, hid⟩ := metricProperties_eq_suffixes c (p := p) hucx hnul hfile hnames
  refine ⟨r, hr, ?_⟩
  rw [hproperties, ← hid]
  simp only [← isUcxMetric_append_iff hucx]
  split
  · rename_i hall
    exact addMetrics_of_ucx (List.forall_mem_map.mpr hall) r.plugin
  · rename_i hsome
    push Not at hsome
    obtain ⟨t, ht, hnot⟩ := hsome
    refine addMetrics_error (List.forall_mem_map.mpr ?_) ⟨_, List.mem_map.mpr ⟨t, ht, rfl⟩, hnot⟩ _
    intro s _
    by_cases hs : isUcxMetric (metricName ++ '_' :: s)
    · exact .inl hs
    · exact .inr (parseMetric_label_error hucx hs)

/-- A process with one counter. -/
def oneCounter : Environment :=
  { Environment.bare with counterNames := [⟨"c".toList, "tx".toList⟩] }

/-- A metric name with one `@`, and one with a second `@` at its end. -/
theorem enumeration_registers_one :
    (∃ r, getMetricProperties ⟨false, 0⟩ oneCounter "UCX@1".toList (.init 1 0 false []) = .ok r ∧
      ∃ q, addMetrics r.metricProperties r.plugin =
        .ok ((List.range r.metricProperties.length).map fun i => int32 ((0 : ℕ) + i), q)) ∧
    ∃ r, getMetricProperties ⟨false, 0⟩ oneCounter "UCX@1@".toList (.init 1 0 false []) = .ok r ∧
      addMetrics r.metricProperties r.plugin = .error .invalidArgument := by
  have hnames : ∀ k ∈ oneCounter.counterNames, k.NulFree := by
    simp [oneCounter, AggrgtCounterName.NulFree]
  have hone : isUcxMetric "UCX@1".toList := by decide
  have htwo : isUcxMetric "UCX@1@".toList := by decide
  constructor
  · obtain ⟨r, hr, hids⟩ := enumeration_registers_iff ⟨false, 0⟩ (p := .init 1 0 false []) hone
      (by decide) rfl hnames
    exact ⟨r, hr, by rwa [if_pos (by decide)] at hids⟩
  · obtain ⟨r, hr, hthrows⟩ := enumeration_registers_iff ⟨false, 0⟩ (p := .init 1 0 false []) htwo
      (by decide) rfl hnames
    exact ⟨r, hr, by rwa [if_neg (by decide)] at hthrows⟩

end ScorepPluginUcx
