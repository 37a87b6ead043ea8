import ScorepPluginUcx.MetricGrammar
import ScorepPluginUcx.NamesCache

/-!
# The limit in the metric name

`UCX@N` is meant to limit the number of UCX counters to `N`. The number is parsed, and
neither of the two loops that make the properties looks at it.

## Main results

* `metricProperties_eq`: the properties of an enumeration without NIC counters.
* `limitHolds_iff`: the limit holds exactly when there are no more than `N` counters.
-/

namespace ScorepPluginUcx

/-- The metric name `UCX@N`. -/
def limitMetric (n : ℕ) : Name := ucxEvent ++ '@' :: Nat.toDigits 10 n

/-- The UCX counters, in order, as the properties name them: those that were read from the
names file, or those of the aggregate API if there was none. -/
def ucxCounters (e : Environment) (metricName : Name) (found : Option (List Name)) : List Name :=
  (found.getD (liveLabels e.counterNames metricName)).map metricProperty

/-- An enumeration without NIC counters returns all UCX counters. -/
theorem metricProperties_eq {c : Context} {e : Environment} {metricName : Name} {p : Plugin}
    (hucx : isUcxMetric metricName) (hen : p.ucxCountersCollectEnable ≠ 0)
    (hnic : c.nicCountersEnable = false ∨ p.nicCountersCollectEnable = 0)
    {found : Option (List Name)}
    (hread : metricNameReadCountersListFromFile e.namesFile = .ok found) :
    ∃ r, getMetricProperties c e metricName p = .ok r ∧
      r.metricProperties = ucxCounters e metricName found := by
  obtain ⟨r, hr, hproperties⟩ : ∃ r, ucxMetricProperties c e metricName
      { p with ucxMetricName := metricName, nUcxCounters := ucxNumTemporaryCounters } = .ok r ∧
      r.ucxProperties ++ r.nicProperties = ucxCounters e metricName found := by
    simp only [ucxMetricProperties, if_pos hen, hread, bind, Except.bind]
    cases found with
    | some countersList => exact ⟨_, rfl, List.append_nil _⟩
    | none =>
        refine ⟨_, rfl, ?_⟩
        rw [List.append_nil]
        exact addAggregateCounters_properties _ _ metricName 0 _ _
  have hflag := (ucxMetricProperties_nic hr).2
  have hno : ¬ (c.nicCountersEnable ∧ r.plugin.nicCountersCollectEnable ≠ 0) := by
    rw [hflag]
    rcases hnic with hbuild | hoff
    · simp [hbuild]
    · simp [hoff]
  rw [getMetricProperties_of_ucx hucx, hr]
  refine ⟨_, rfl, ?_⟩
  rw [addNicProperties, if_neg hno]
  exact hproperties

/-- `UCX@N` is a UCX metric, or the number does not fit into 64 bits and is not parsed. -/
theorem parseMetric_limitMetric (n : ℕ) :
    n < 2 ^ 64 ∧ isUcxMetric (limitMetric n) ∨
      ¬ n < 2 ^ 64 ∧ ∃ f, parseMetric (limitMetric n) = .error f := by
  have hat : '@' ∉ Nat.toDigits 10 n := Digits.notMem_toDigits (by decide) (by decide) n
  have hsplit : split (limitMetric n) '@' = [ucxEvent, Nat.toDigits 10 n] :=
    split_eq_pair_iff.mpr ⟨by decide, hat, .inl ⟨rfl, Nat.toDigits_ne_nil⟩⟩
  cases hvalue : stoull (Nat.toDigits 10 n) with
  | error f =>
      have hlarge : ¬ n < 2 ^ 64 := by
        intro hlt
        simp [stoull_toDigits.mpr ⟨hlt, rfl⟩] at hvalue
      exact .inr ⟨hlarge, f, by simp [parseMetric, hsplit, hvalue, bind, Except.bind]⟩
  | ok value =>
      refine .inl ⟨(stoull_toDigits.mp hvalue).1, ?_⟩
      simp [isUcxMetric, parseMetric, hsplit, hvalue, bind, Except.bind]

/-- The limit holds for `UCX@N`: the call returns at most `N` properties, and these are the
first UCX counters. -/
def LimitHolds (c : Context) (e : Environment) (p : Plugin) (found : Option (List Name))
    (n : ℕ) : Prop :=
  ∃ r, getMetricProperties c e (limitMetric n) p = .ok r ∧ r.metricProperties.length ≤ n ∧
    r.metricProperties = (ucxCounters e (limitMetric n) found).take n

/-- **The limit holds** exactly when the number fits into 64 bits and there are no more UCX
counters than it says, whether they come from the names file or from the API. -/
theorem limitHolds_iff {c : Context} {e : Environment} {p : Plugin} (n : ℕ)
    (hen : p.ucxCountersCollectEnable ≠ 0)
    (hnic : c.nicCountersEnable = false ∨ p.nicCountersCollectEnable = 0)
    {found : Option (List Name)}
    (hread : metricNameReadCountersListFromFile e.namesFile = .ok found) :
    LimitHolds c e p found n ↔
      n < 2 ^ 64 ∧ (ucxCounters e (limitMetric n) found).length ≤ n := by
  rcases parseMetric_limitMetric n with ⟨hn, hucx⟩ | ⟨hlarge, f, hparse⟩
  · obtain ⟨r, hr, hproperties⟩ := metricProperties_eq hucx hen hnic hread
    constructor
    · intro h
      obtain ⟨r', hr', hle, _⟩ := h
      obtain rfl : r = r' := Except.ok.inj (hr.symm.trans hr')
      exact ⟨hn, hproperties ▸ hle⟩
    · intro h
      obtain ⟨_, hlength⟩ := h
      exact ⟨r, hr, by rwa [hproperties], by rw [hproperties, List.take_of_length_le hlength]⟩
  · constructor
    · intro h
      obtain ⟨r, hr, _⟩ := h
      simp [getMetricProperties, hparse, bind, Except.bind] at hr
    · intro h
      exact absurd h.1 hlarge

/-- Two counters of the API. -/
def twoCounterNames : List AggrgtCounterName :=
  [⟨"c".toList, "tx".toList⟩, ⟨"c".toList, "rx".toList⟩]

/-- `UCX@2` with two counters. -/
theorem limitHolds_two :
    LimitHolds ⟨false, 0⟩ { Environment.bare with counterNames := twoCounterNames }
      (.init 1 0 false []) none 2 :=
  (limitHolds_iff 2 (by decide) (.inl rfl) rfl).mpr (by decide)

/-- `UCX@0` returns both counters of the API, and the one line of a names file. -/
theorem limit_exceeded :
    ¬ LimitHolds ⟨false, 0⟩ { Environment.bare with counterNames := twoCounterNames }
        (.init 1 0 false []) none 0 ∧
      ¬ LimitHolds ⟨false, 0⟩ { Environment.bare with namesFile := some "UCX@0_c_tx\n".toList }
        (.init 1 0 false []) (some ["UCX@0_c_tx".toList]) 0 := by
  have hempty : ∀ (e : Environment) (found : Option (List Name)) (r : Enumeration),
      getMetricProperties ⟨false, 0⟩ e (limitMetric 0) (.init 1 0 false []) = .ok r →
      r.metricProperties ≠ [] →
      ¬ LimitHolds ⟨false, 0⟩ e (.init 1 0 false []) found 0 := by
    rintro e found r hr hne ⟨r', hr', hle, _⟩
    obtain rfl : r = r' := Except.ok.inj (hr.symm.trans hr')
    exact hne (List.length_eq_zero_iff.mp (Nat.le_zero.mp hle))
  exact ⟨hempty _ _ _ rfl (by decide), hempty _ _ _ rfl (by decide)⟩

end ScorepPluginUcx
