import ScorepPluginUcx.LabelRegistration
import ScorepPluginUcx.ReadBounds

/-!
# The configuration

Environment variables say what a process collects. The constructors look at them once: `atoi` makes
a number of the text of an enable flag, and a text that does not begin with a numeral, as
`enable` does not, is 0, which switches the collection off. Nothing changes a flag afterwards.

## Main definitions

* `atoi`, `Plugin.construct`: the flags and the plugin that a process begins with.
* `CollectsUcx`, `CollectsNic`: what a process is configured to collect.

## Main results

* `atoi_ne_zero_iff`: the texts that switch a collection on.
* `configuration_decides`: what an enumeration offers, in every run of a process.
-/

namespace ScorepPluginUcx

/-- `ENV_SCOREP_UCX_PLUGIN_UCX_COUNTERS_COLLECTION_ENABLE`. -/
def ucxCountersCollectionEnable : Name := "SCOREP_UCX_PLUGIN_UCX_COLLECTION_ENABLE".toList

/-- `ENV_SCOREP_UCX_PLUGIN_NIC_COUNTERS_COLLECTION_ENABLE`. -/
def nicCountersCollectionEnable : Name := "SCOREP_UCX_PLUGIN_NIC_COLLECTION_ENABLE".toList

/-- `ENV_SCOREP_UCX_PLUGIN_NIC_DEVICE_NAME`. -/
def nicDeviceName : Name := "SCOREP_UCX_PLUGIN_NIC_DEVICE_NAME".toList

/-- `atoi`. What it does with a number that is no `int` is undefined. -/
def atoi (s : Name) : Option ℤ :=
  let signed := dropSign ((cStr s).dropWhile isSpace)
  let magnitude := digitsValue 10 (signed.2.takeWhile (isDigitIn 10))
  let value : ℤ := if signed.1 then -magnitude else magnitude
  if -2 ^ 31 ≤ value ∧ value < 2 ^ 31 then some value else none

/-- What the constructors ask: `getenv`, and `stats_alloc_handle`, which fails or yields the
counters of a device. -/
structure ProcessEnvironment where
  getenv : Name → Option Name
  statsAllocHandle : Name → Option (List RawCounter)

/-- The value of an enable flag. -/
def ProcessEnvironment.enableFlag (x : ProcessEnvironment) (variableName : Name)
    (byDefault : ℤ) : Option ℤ :=
  match x.getenv variableName with
  | some text => atoi text
  | none => some byDefault

/-- The handle of the NIC, if the build has one, a device is named and `stats_alloc_handle` does
not fail. -/
def ProcessEnvironment.handle (x : ProcessEnvironment) (c : Context) : Option (List RawCounter) :=
  if c.nicCountersEnable then (x.getenv nicDeviceName).bind x.statsAllocHandle else none

/-- The constructors of the plugin and of its sampler: UCX counters are collected by default, and
NIC counters are not. -/
def Plugin.construct (c : Context) (x : ProcessEnvironment) : Option Plugin := do
  let ucxCountersCollectEnable ← x.enableFlag ucxCountersCollectionEnable 1
  let nicCountersCollectEnable ← x.enableFlag nicCountersCollectionEnable 0
  some (.init ucxCountersCollectEnable nicCountersCollectEnable (x.handle c).isSome
    ((x.handle c).getD []))

/-! ## Enable flags -/

/-- A text that begins, after white space and a sign or none, with a numeral that is not 0. -/
def Enables (text : Name) : Prop :=
  ∃ sign digits, Numeral text sign digits ∧ ∃ d ∈ digits, d ≠ '0'

theorem eq_zero_of_digitValue {c : Char} (hc : isDigitIn 10 c) (h : digitValue c = 0) :
    c = '0' := by
  obtain ⟨hlow, hhigh⟩ := isDigitIn_ten_iff.mp hc
  rw [digitValue, if_pos ⟨hlow, hhigh⟩] at h
  have hle : '0'.toNat ≤ c.toNat := hlow
  exact Char.ext (UInt32.toNat_inj.mp (Nat.le_antisymm (Nat.le_of_sub_eq_zero h) hle))

/-- Only noughts write 0. -/
theorem digitsValue_eq_zero_iff {digits : Name} (h : ∀ c ∈ digits, isDigitIn 10 c) :
    digitsValue 10 digits = 0 ↔ ∀ d ∈ digits, d = '0' := by
  induction digits using List.reverseRecOn with
  | nil => simp [digitsValue]
  | append_singleton digits d ih =>
      obtain ⟨hdigits, hd⟩ := List.forall_mem_append.mp h
      have hlast : digitValue d = 0 ↔ d = '0' := by
        constructor
        · exact eq_zero_of_digitValue (hd d (List.mem_singleton_self d))
        · rintro rfl
          rfl
      rw [digitsValue_append_singleton, Nat.add_eq_zero_iff, Nat.mul_eq_zero, ih hdigits, hlast,
        List.forall_mem_append, List.forall_mem_singleton]
      simp

/-- The number that a sign and digits write. -/
def signedValue (sign digits : Name) : ℤ :=
  if sign = ['-'] then -digitsValue 10 digits else digitsValue 10 digits

theorem signedValue_eq_zero_iff (sign digits : Name) :
    signedValue sign digits = 0 ↔ digitsValue 10 digits = 0 := by
  rw [signedValue]
  split
  · rw [Int.neg_eq_zero, Int.natCast_eq_zero]
  · exact Int.natCast_eq_zero

/-- `atoi` of the numeral that a text begins with. -/
theorem atoi_eq (s : Name) :
    atoi s =
      if -2 ^ 31 ≤ signedValue (numeralOf (cStr s)).1 (numeralOf (cStr s)).2 ∧
          signedValue (numeralOf (cStr s)).1 (numeralOf (cStr s)).2 < 2 ^ 31 then
        some (signedValue (numeralOf (cStr s)).1 (numeralOf (cStr s)).2)
      else none := by
  simp only [atoi, dropSign_eq, decide_eq_true_eq]
  rfl

/-- **The texts that switch a collection on.** -/
theorem atoi_ne_zero_iff {s : Name} {k : ℤ} (h : atoi s = some k) : k ≠ 0 ↔ Enables s := by
  have hk : k ≠ 0 ↔ digitsValue 10 (numeralOf (cStr s)).2 ≠ 0 := by
    rw [atoi_eq, Option.ite_none_right_eq_some] at h
    have heq := Option.some.inj h.2
    subst heq
    exact not_congr (signedValue_eq_zero_iff _ _)
  have hdigits : ∀ c ∈ (numeralOf (cStr s)).2, isDigitIn 10 c :=
    fun c hc => List.mem_takeWhile_imp hc
  rw [hk, ne_eq, digitsValue_eq_zero_iff hdigits]
  push Not
  constructor
  · intro h
    obtain ⟨d, hd, hne⟩ := h
    exact ⟨_, _, numeral_cStr_iff.mp (numeral_of_digits_ne_nil (List.ne_nil_of_mem hd)), d, hd, hne⟩
  · intro h
    obtain ⟨sign, digits, hnumeral, d, hd, hne⟩ := h
    rw [(numeral_cStr_iff.mpr hnumeral).numeralOf_eq]
    exact ⟨d, hd, hne⟩

example : atoi "enable".toList = some 0 ∧ atoi " 1x".toList = some 1 := by decide

/-! ## The flags in a run -/

/-- No call changes whether UCX counters are collected. -/
theorem enabled_final (c : Context) (p : Plugin) (calls : List Call) :
    (Run.final (Plugin.step c) p calls).core.enabled = p.core.enabled := by
  rw [← final_core]
  apply Run.final_invariant fun k : Core => k.enabled = p.core.enabled
  · intro k call _ h
    rw [Core.enabled_step, h]
  · rfl

theorem nicCountersCollectEnable_noticeMpi (c : Context) (e : Environment) (p : Plugin) :
    (noticeMpi c e p).nicCountersCollectEnable = p.nicCountersCollectEnable := by
  rw [noticeMpi]
  split
  · by_cases hrank : c.commRank = 0 <;> simp [aggregateStart, hrank, Plugin.withAggregate]
  · rfl

theorem nicCountersCollectEnable_getMetricProperties {c : Context} {e : Environment}
    {metricName : Name} {p : Plugin} {r : Enumeration}
    (hr : getMetricProperties c e metricName p = .ok r) :
    r.plugin.nicCountersCollectEnable = p.nicCountersCollectEnable := by
  cases hucx : isUcxMetric metricName with
  | true =>
      rw [getMetricProperties_of_ucx hucx] at hr
      cases hu : ucxMetricProperties c e metricName
          { p with ucxMetricName := metricName, nUcxCounters := ucxNumTemporaryCounters } with
      | error f => simp [hu, Except.map] at hr
      | ok r' =>
          rw [hu] at hr
          have heq := Except.ok.inj hr
          subst heq
          rw [addNicProperties]
          split <;> exact (ucxMetricProperties_nic hu).2
  | false =>
      obtain ⟨f, hplugin⟩ := plugin_of_not_ucx hucx hr
      rw [hplugin]

/-- No call changes whether NIC counters are collected. -/
theorem nicCountersCollectEnable_step (c : Context) (p : Plugin) (call : Call) :
    (p.step c call).nicCountersCollectEnable = p.nicCountersCollectEnable := by
  cases call with
  | getMetricProperties e metricName =>
      rw [Plugin.step]
      cases hr : getMetricProperties c e metricName p with
      | error f => rfl
      | ok r => exact nicCountersCollectEnable_getMetricProperties hr
  | currentValueGet e id =>
      rw [Plugin.step, currentValueGet_eq_readFrom, ← nicCountersCollectEnable_noticeMpi c e p]
      cases readSource c e id p <;> rfl

theorem nicCountersCollectEnable_final (c : Context) (p : Plugin) (calls : List Call) :
    (Run.final (Plugin.step c) p calls).nicCountersCollectEnable =
      p.nicCountersCollectEnable := by
  apply Run.final_invariant fun q : Plugin =>
    q.nicCountersCollectEnable = p.nicCountersCollectEnable
  · intro q call _ h
    rw [nicCountersCollectEnable_step, h]
  · rfl

/-! ## What a process collects -/

/-- UCX counters: unless the variable switches them off. -/
def CollectsUcx (x : ProcessEnvironment) : Prop :=
  ∀ text ∈ x.getenv ucxCountersCollectionEnable, Enables text

/-- NIC counters: when the build has them, the variable switches them on, and there is a handle
of the device that is named. -/
def CollectsNic (c : Context) (x : ProcessEnvironment) : Prop :=
  c.nicCountersEnable ∧ (∃ text ∈ x.getenv nicCountersCollectionEnable, Enables text) ∧
    ∃ device ∈ x.getenv nicDeviceName, (x.statsAllocHandle device).isSome

/-- What an enumeration returns and leaves in a process that is configured by `x`. -/
structure Configured (c : Context) (x : ProcessEnvironment) (e : Environment) (metricName : Name)
    (r : Enumeration) : Prop where
  ucx : CollectsUcx x → ∃ found, metricNameReadCountersListFromFile e.namesFile = .ok found ∧
    r.ucxProperties = (found.getD (liveLabels e.counterNames metricName)).map metricProperty
  noUcx : ¬ CollectsUcx x → r.ucxProperties = [] ∧ r.namesFile = e.namesFile
  nic : CollectsNic c x → r.nicProperties =
    ((e.device.map RawCounter.text).take (aggregateNames e.device).length).map
      fun text => metricProperty (nicCounterLabel metricName text)
  noNic : ¬ CollectsNic c x → r.nicProperties = []

/-- The flags that the constructors set. -/
theorem construct_flags {c : Context} {x : ProcessEnvironment} {p : Plugin}
    (hp : Plugin.construct c x = some p) :
    ∃ ucxCountersCollectEnable nicCountersCollectEnable handle,
      p = .init ucxCountersCollectEnable nicCountersCollectEnable (x.handle c).isSome handle ∧
        (ucxCountersCollectEnable ≠ 0 ↔ CollectsUcx x) ∧
        (nicCountersCollectEnable ≠ 0 ↔
          ∃ text ∈ x.getenv nicCountersCollectionEnable, Enables text) := by
  simp only [Plugin.construct, Option.bind_eq_bind, Option.bind_eq_some_iff,
    Option.some.injEq] at hp
  obtain ⟨ucxFlag, hucx, nicFlag, hnic, rfl⟩ := hp
  refine ⟨ucxFlag, nicFlag, _, rfl, ?_, ?_⟩
  · rw [ProcessEnvironment.enableFlag] at hucx
    rw [CollectsUcx]
    cases hget : x.getenv ucxCountersCollectionEnable with
    | none =>
        rw [hget] at hucx
        have heq := Option.some.inj hucx
        subst heq
        simp
    | some text =>
        rw [hget] at hucx
        simpa using atoi_ne_zero_iff hucx
  · rw [ProcessEnvironment.enableFlag] at hnic
    cases hget : x.getenv nicCountersCollectionEnable with
    | none =>
        rw [hget] at hnic
        have heq := Option.some.inj hnic
        subst heq
        simp
    | some text =>
        rw [hget] at hnic
        simpa using atoi_ne_zero_iff hnic

theorem isSome_handle_iff (c : Context) (x : ProcessEnvironment) :
    (x.handle c).isSome ↔ c.nicCountersEnable ∧
      ∃ device ∈ x.getenv nicDeviceName, (x.statsAllocHandle device).isSome := by
  rw [ProcessEnvironment.handle]
  cases hbuild : c.nicCountersEnable with
  | false => simp
  | true => cases hget : x.getenv nicDeviceName <;> simp

/-- The UCX part of an enumeration, whatever is enabled. -/
theorem ucxMetricProperties_cases (c : Context) {e : Environment} (metricName : Name) {p : Plugin}
    (hread : p.ucxCountersCollectEnable ≠ 0 →
      ∃ found, metricNameReadCountersListFromFile e.namesFile = .ok found) :
    ∃ r, ucxMetricProperties c e metricName p = .ok r ∧
      (p.ucxCountersCollectEnable ≠ 0 →
        ∃ found, metricNameReadCountersListFromFile e.namesFile = .ok found ∧
          r.ucxProperties =
            (found.getD (liveLabels e.counterNames metricName)).map metricProperty) ∧
      (p.ucxCountersCollectEnable = 0 → r.ucxProperties = [] ∧ r.namesFile = e.namesFile) := by
  by_cases hen : p.ucxCountersCollectEnable ≠ 0
  · obtain ⟨found, hfound⟩ := hread hen
    cases found with
    | none =>
        obtain ⟨r, hr, hproperties, _⟩ :=
          ucxMetricProperties_fileless c metricName hen (metricNameRead_eq_none hfound)
        exact ⟨r, hr, fun _ => ⟨none, hfound, hproperties⟩, fun h => absurd h hen⟩
    | some countersList =>
        simp only [ucxMetricProperties, if_pos hen, hfound, bind, Except.bind]
        exact ⟨_, rfl, fun _ => ⟨_, rfl, rfl⟩, fun h => absurd h hen⟩
  · rw [ucxMetricProperties, if_neg hen]
    exact ⟨_, rfl, fun h => absurd h hen, fun _ => ⟨rfl, rfl⟩⟩

/-- **The configuration decides what is collected**, at every enumeration of every run: UCX
counters unless their variable is set to a text that does not begin with a numeral other than 0,
and then the names file is neither read nor written; NIC counters only if their variable is set to
a text that does, in a build that has them, and with a device that has a handle. -/
theorem configuration_decides (c : Context) {x : ProcessEnvironment} {p₀ : Plugin}
    (hp : Plugin.construct c x = some p₀) (calls : List Call) {e : Environment}
    {metricName : Name} (hucx : isUcxMetric metricName)
    (hread : CollectsUcx x → ∃ found, metricNameReadCountersListFromFile e.namesFile = .ok found) :
    ∃ r, getMetricProperties c e metricName (Run.final (Plugin.step c) p₀ calls) = .ok r ∧
      Configured c x e metricName r := by
  obtain ⟨ucxFlag, nicFlag, handle, rfl, hucxFlag, hnicFlag⟩ := construct_flags hp
  have hcollects := enabled_final c (.init ucxFlag nicFlag (x.handle c).isSome handle) calls
  have hflag := nicCountersCollectEnable_final c
    (.init ucxFlag nicFlag (x.handle c).isSome handle) calls
  have hready := nicCountersInitialized_final c ucxFlag nicFlag (x.handle c).isSome handle calls
  generalize Run.final (Plugin.step c) (.init ucxFlag nicFlag (x.handle c).isSome handle) calls = p
    at hcollects hflag hready ⊢
  have hen : p.ucxCountersCollectEnable ≠ 0 ↔ CollectsUcx x := by
    rw [← hucxFlag]
    exact decide_eq_decide.mp hcollects
  have hnic : c.nicCountersEnable ∧ p.nicCountersCollectEnable ≠ 0 ∧
      p.ucxSampling.nic.nicCountersInitialized ↔ CollectsNic c x := by
    have hready' : p.ucxSampling.nic.nicCountersInitialized = (x.handle c).isSome := hready
    have hflag' : p.nicCountersCollectEnable = nicFlag := hflag
    rw [hready', hflag', hnicFlag, isSome_handle_iff, CollectsNic, and_left_comm, and_self_left,
      and_left_comm]
  obtain ⟨r, hr, hwith, hwithout⟩ := ucxMetricProperties_cases c (e := e) metricName
    (p := { p with ucxMetricName := metricName, nUcxCounters := ucxNumTemporaryCounters })
    fun h => hread (hen.mp h)
  have hcall : getMetricProperties c e metricName p = .ok (addNicProperties c e metricName r) := by
    rw [getMetricProperties_of_ucx hucx, hr]
    rfl
  have hproperties := nicProperties_of_ucx hucx hcall
  refine ⟨_, hcall, ?_⟩
  constructor
  · intro h
    rw [ucxProperties_addNicProperties]
    exact hwith (hen.mpr h)
  · intro h
    rw [ucxProperties_addNicProperties, namesFile_addNicProperties]
    exact hwithout (not_ne_iff.mp (mt hen.mp h))
  · intro h
    rw [hproperties, if_pos (hnic.mpr h)]
  · intro h
    rw [hproperties, if_neg (mt hnic.mp h)]

/-- A process that switches the UCX counters on with `enable`. -/
def enableByWord : ProcessEnvironment where
  getenv := fun variableName =>
    if variableName = ucxCountersCollectionEnable then some "enable".toList else none
  statsAllocHandle := fun _ => none

/-- The word switches them off. -/
theorem configuration_decides_enable :
    ∃ p, Plugin.construct ⟨false, 0⟩ enableByWord = some p ∧
      ∃ r, getMetricProperties ⟨false, 0⟩ oneCounter "UCX@1".toList p = .ok r ∧
        r.ucxProperties = [] := by
  have hoff : ¬ CollectsUcx enableByWord := by
    intro h
    obtain ⟨sign, digits, hnumeral, _⟩ := h "enable".toList rfl
    have hdigits : [] = digits := congrArg Prod.snd hnumeral.numeralOf_eq
    exact hnumeral.digits_ne_nil hdigits.symm
  obtain ⟨p, hp⟩ : ∃ p, Plugin.construct ⟨false, 0⟩ enableByWord = some p := ⟨_, rfl⟩
  have hucx : isUcxMetric "UCX@1".toList := by decide
  obtain ⟨r, hr, hconfigured⟩ :=
    configuration_decides ⟨false, 0⟩ hp [] (e := oneCounter) hucx fun h => absurd h hoff
  exact ⟨p, hp, r, hr, (hconfigured.noUcx hoff).1⟩

end ScorepPluginUcx
