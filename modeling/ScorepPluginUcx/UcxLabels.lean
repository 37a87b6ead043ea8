import ScorepPluginUcx.Lib.Join
import ScorepPluginUcx.NamesCache

/-!
# Labels of UCX counters

A label joins the names of the class and of the counter by an underscore, which both names may
contain. So the label does not tell where the one ends and the other begins.

## Main results

* `nodup_labels_iff`: when the labels of a list of counters are distinct.
* `distinctLabels_iff`: when those of an enumeration are, and of the file that it writes.
-/

namespace ScorepPluginUcx

/-- The two names that a label joins. -/
def AggrgtCounterName.words (k : AggrgtCounterName) : Name × Name := (k.className, k.counterName)

theorem words_injective : Function.Injective AggrgtCounterName.words := by
  intro j k h
  cases j
  cases k
  simpa [AggrgtCounterName.words] using h

theorem ucxCounterLabel_eq_join (metricName : Name) (k : AggrgtCounterName) :
    ucxCounterLabel metricName k = (metricName ++ ['_']) ++ Join.join '_' k.words := by
  simp [ucxCounterLabel, Join.join, AggrgtCounterName.words]

/-- The names of a counter, as they come from UCX: no `char *` holds a NUL. -/
def AggrgtCounterName.NulFree (k : AggrgtCounterName) : Prop :=
  '\x00' ∉ k.className ∧ '\x00' ∉ k.counterName

/-- A string with a NUL in its front part ends there for C. -/
theorem cStr_append_of_mem {s : Name} (h : '\x00' ∈ s) (t : Name) : cStr (s ++ t) = cStr s := by
  have hshort : (s.takeWhile (· ≠ '\x00')).length ≠ s.length := by
    intro hlength
    have hall : cStr s = s := (List.takeWhile_prefix _).eq_of_length hlength
    exact nul_notMem_cStr s (by rwa [hall])
  rw [cStr, List.takeWhile_append, if_neg hshort, cStr]

/-- A metric name with a NUL hides the names of the counter. -/
theorem metricProperty_label_of_mem {metricName : Name} (h : '\x00' ∈ metricName)
    (k : AggrgtCounterName) : metricProperty (ucxCounterLabel metricName k) = cStr metricName := by
  rw [metricProperty, ucxCounterLabel_eq_join, List.append_assoc, cStr_append_of_mem h]

theorem metricProperty_label_of_notMem {metricName : Name} (h : '\x00' ∉ metricName)
    {k : AggrgtCounterName} (hk : k.NulFree) :
    metricProperty (ucxCounterLabel metricName k) = ucxCounterLabel metricName k := by
  apply cStr_of_nul_notMem
  have hsep : '\x00' ≠ '_' := by decide
  simp [ucxCounterLabel, h, hk.1, hk.2, hsep]

/-- No two counters of the list can be taken for one another when their names are joined: the
class name of one is never that of another with an underscore and a word behind it, where the
counter name of the other is the same word, an underscore and the counter name of the one. -/
def Separable (names : List AggrgtCounterName) : Prop :=
  ∀ j ∈ names, ∀ k ∈ names, ¬ Join.Shifts '_' j.words k.words

/-- **The labels** of different counters are distinct exactly when there is no more than one of
them, or no NUL hides the names and the counters are separable. -/
theorem nodup_labels_iff {names : List AggrgtCounterName} (metricName : Name)
    (hnames : names.Nodup) (hnul : ∀ k ∈ names, k.NulFree) :
    ((liveLabels names metricName).map metricProperty).Nodup ↔
      names.length ≤ 1 ∨ '\x00' ∉ metricName ∧ Separable names := by
  rw [liveLabels, List.map_map]
  by_cases hmem : '\x00' ∈ metricName
  · have hconst : names.map (metricProperty ∘ ucxCounterLabel metricName) =
        List.replicate names.length (cStr metricName) := by
      rw [← List.map_const']
      exact List.map_congr_left fun k _ => metricProperty_label_of_mem hmem k
    rw [hconst, List.nodup_replicate]
    simp [hmem]
  · have hjoin : names.map (metricProperty ∘ ucxCounterLabel metricName) =
        ((names.map AggrgtCounterName.words).map (Join.join '_')).map
          ((metricName ++ ['_']) ++ ·) := by
      rw [List.map_map, List.map_map]
      apply List.map_congr_left
      intro k hk
      rw [Function.comp_apply, metricProperty_label_of_notMem hmem (hnul k hk),
        ucxCounterLabel_eq_join]
      rfl
    have hseparable : (names.map (metricProperty ∘ ucxCounterLabel metricName)).Nodup ↔
        Separable names := by
      rw [hjoin, List.nodup_map_iff (List.append_right_injective _),
        Join.nodup_map_join_iff ((List.nodup_map_iff words_injective).mpr hnames)]
      simp [Separable]
    rw [hseparable]
    constructor
    · intro h
      exact .inr ⟨hmem, h⟩
    · rintro (hone | h)
      · -- A counter cannot be taken for itself.
        intro j hj k hk hshift
        have hsame : j = k := by
          match names, hone, hj, hk with
          | [n], _, hj, hk => rw [List.mem_singleton.mp hj, List.mem_singleton.mp hk]
        exact hshift.ne (congrArg AggrgtCounterName.words hsame)
      · exact h.2

/-- Distinct labels, in what an enumeration returns and in what it writes to the file. -/
def DistinctLabels (c : Context) (e : Environment) (metricName : Name) (p : Plugin) : Prop :=
  ∃ r, getMetricProperties c e metricName p = .ok r ∧ r.ucxProperties.Nodup ∧
    r.namesFile = namesFileOf (writtenLabels c e r.ucxProperties) ∧
    (writtenLabels c e r.ucxProperties).Nodup

/-- The file gets some of the labels, in their order. -/
theorem writtenLabels_sublist (c : Context) (e : Environment) (labels : List Name) :
    (writtenLabels c e labels).Sublist labels := by
  rw [writtenLabels]
  split
  · exact openedLabels_sublist _ _ _
  · exact List.nil_sublist _

/-- **Distinct counters get distinct labels**, for every metric name and every list, exactly
when there is no more than one, or no NUL is in the metric name and they are separable. -/
theorem distinctLabels_iff (c : Context) {e : Environment} {metricName : Name} {p : Plugin}
    (hucx : isUcxMetric metricName) (hen : p.ucxCountersCollectEnable ≠ 0)
    (hfile : e.namesFile = none) (hnames : e.counterNames.Nodup)
    (hnul : ∀ k ∈ e.counterNames, k.NulFree) :
    DistinctLabels c e metricName p ↔
      e.counterNames.length ≤ 1 ∨ '\x00' ∉ metricName ∧ Separable e.counterNames := by
  obtain ⟨r, hr, hproperties, hwritten⟩ := ucxMetricProperties_fileless c metricName
    (p := { p with ucxMetricName := metricName, nUcxCounters := ucxNumTemporaryCounters })
    hen hfile
  have hcall : getMetricProperties c e metricName p =
      .ok (addNicProperties c e metricName r) := by
    rw [getMetricProperties_of_ucx hucx, hr]
    rfl
  rw [← nodup_labels_iff metricName hnames hnul, ← hproperties]
  constructor
  · intro h
    obtain ⟨r', hr', hnodup, _⟩ := h
    obtain rfl := Except.ok.inj (hcall.symm.trans hr')
    rwa [ucxProperties_addNicProperties] at hnodup
  · intro hnodup
    refine ⟨_, hcall, ?_⟩
    rw [ucxProperties_addNicProperties, namesFile_addNicProperties]
    exact ⟨hnodup, hwritten, hnodup.sublist (writtenLabels_sublist c e _)⟩

/-- Two counters of one class. -/
theorem distinctLabels_two :
    DistinctLabels ⟨false, 0⟩
      { Environment.bare with
        counterNames := [⟨"rx".toList, "bytes".toList⟩, ⟨"rx".toList, "am_bytes".toList⟩] }
      "UCX@1".toList (.init 1 0 false []) := by
  refine (distinctLabels_iff ⟨false, 0⟩ (by decide) (by decide) rfl (by decide) ?_).mpr ?_
  · simp [AggrgtCounterName.NulFree]
  · refine .inr ⟨by decide, ?_⟩
    intro j hj k hk hshift
    have hmem : '_' ∈ k.className := hshift.sep_mem
    have hnone : ∀ k ∈ ([⟨"rx".toList, "bytes".toList⟩, ⟨"rx".toList, "am_bytes".toList⟩] :
        List AggrgtCounterName), '_' ∉ k.className := by decide
    exact hnone k hk hmem

/-- The counter `bytes` of the class `rx_am` and the counter `am_bytes` of the class `rx`. -/
theorem not_distinctLabels :
    ¬ DistinctLabels ⟨false, 0⟩
      { Environment.bare with
        counterNames := [⟨"rx_am".toList, "bytes".toList⟩, ⟨"rx".toList, "am_bytes".toList⟩] }
      "UCX@1".toList (.init 1 0 false []) := by
  intro h
  obtain ⟨r, hr, hnodup, _⟩ := h
  obtain rfl := Except.ok.inj hr
  exact absurd hnodup (by decide)

end ScorepPluginUcx
