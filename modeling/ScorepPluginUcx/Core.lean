import ScorepPluginUcx.Lib.Run
import ScorepPluginUcx.Plugin

/-!
# The core of the plugin's state

Which table a read uses, what it yields and when the statistics server is started depends
on few fields only. `Core` keeps these, `Core.step` says once what each call does to them,
and `core_step` shows that the plugin moves its core in exactly this way. Results about
whole runs are proved on the core and carried over by `core_step` and `final_core`.

## Main definitions

* `Core`, `Plugin.core`: the fields, and their values in a plugin.
* `Core.start`, `Core.refresh`: the two ways in which an aggregate comes in.
* `Core.step`: the effect of a call.
-/

namespace ScorepPluginUcx

/-- The fields that decide what later calls do. -/
structure Core where
  mpiTInitialized : Bool
  ucxCountersCollectEnable : ℤ
  aggrgtSumSize : ℕ
  aggrgtSumCounters : AggregateCounters
  statsServerStarts : ℕ

/-- The core of a plugin. -/
def Plugin.core (p : Plugin) : Core where
  mpiTInitialized := p.mpiTInitialized
  ucxCountersCollectEnable := p.ucxCountersCollectEnable
  aggrgtSumSize := p.ucxSampling.aggregate.aggrgtSumSize
  aggrgtSumCounters := p.ucxSampling.aggregate.aggrgtSumCounters
  statsServerStarts := p.ucxSampling.statsServerStarts

/-- Whether a metric name parses to a UCX metric. -/
def isUcxMetric (metricName : Name) : Bool :=
  match parseMetric metricName with
  | .ok parsed => parsed.event = ucxEvent
  | .error _ => false

namespace Call

/-- An enumeration of UCX metrics that finds no names file. -/
def Fileless : Call → Prop
  | .getMetricProperties e metricName => isUcxMetric metricName ∧ e.namesFile = none
  | .currentValueGet _ _ => False

instance : DecidablePred Fileless
  | .getMetricProperties e metricName =>
      inferInstanceAs (Decidable (isUcxMetric metricName ∧ e.namesFile = none))
  | .currentValueGet _ _ => inferInstanceAs (Decidable False)

end Call

namespace Core

/-- Whether UCX collection is enabled. -/
def enabled (k : Core) : Bool := k.ucxCountersCollectEnable ≠ 0

/-- The size, and the front of the array, become those of an answer. -/
def refresh (r : AggregateResult) (k : Core) : Core :=
  { k with aggrgtSumSize := r.size, aggrgtSumCounters := k.aggrgtSumCounters.store r }

/-- The start of the aggregate API: MPI is noted, rank 0 starts the server, and the first
answer comes in. -/
def start (c : Context) (r : AggregateResult) (k : Core) : Core :=
  { k.refresh r with
    mpiTInitialized := true
    statsServerStarts := k.statsServerStarts + if c.commRank = 0 then 1 else 0 }

/-- `get_metric_properties` asks the aggregate API when UCX collection is enabled and
there is no names file. -/
def Asks (k : Core) (e : Environment) (metricName : Name) : Prop :=
  isUcxMetric metricName ∧ k.ucxCountersCollectEnable ≠ 0 ∧ e.namesFile = none

instance (k : Core) (e : Environment) (metricName : Name) : Decidable (k.Asks e metricName) :=
  inferInstanceAs (Decidable (_ ∧ _ ∧ _))

/-- The core at the moment when a read chooses its table. -/
def atRead (c : Context) (e : Environment) (k : Core) : Core :=
  if k.mpiTInitialized = false ∧ e.mpiInitialized then k.start c e.aggregateAtInit else k

/-- A read refreshes when it is for index 0 and the size admits it. -/
def Refreshes (k : Core) (id : ℤ) : Prop :=
  k.mpiTInitialized ∧ sizeT id < k.aggrgtSumSize ∧ uint32 id = 0

instance (k : Core) (id : ℤ) : Decidable (k.Refreshes id) :=
  inferInstanceAs (Decidable (_ ∧ _ ∧ _))

/-- The effect of a call on the core. -/
def step (c : Context) (k : Core) : Call → Core
  | .getMetricProperties e metricName =>
      if k.Asks e metricName then k.start c e.aggregateAtInit else k
  | .currentValueGet e id =>
      let k' := k.atRead c e
      if k'.Refreshes id then k'.refresh e.aggregateAtRead else k'

@[simp] theorem aggrgtSumSize_refresh (r : AggregateResult) (k : Core) :
    (k.refresh r).aggrgtSumSize = r.size := rfl
@[simp] theorem aggrgtSumCounters_refresh (r : AggregateResult) (k : Core) :
    (k.refresh r).aggrgtSumCounters = k.aggrgtSumCounters.store r := rfl
@[simp] theorem mpiTInitialized_refresh (r : AggregateResult) (k : Core) :
    (k.refresh r).mpiTInitialized = k.mpiTInitialized := rfl
@[simp] theorem statsServerStarts_refresh (r : AggregateResult) (k : Core) :
    (k.refresh r).statsServerStarts = k.statsServerStarts := rfl
@[simp] theorem ucxCountersCollectEnable_refresh (r : AggregateResult) (k : Core) :
    (k.refresh r).ucxCountersCollectEnable = k.ucxCountersCollectEnable := rfl

@[simp] theorem enabled_refresh (r : AggregateResult) (k : Core) :
    (k.refresh r).enabled = k.enabled := rfl

@[simp] theorem aggrgtSumSize_start (c : Context) (r : AggregateResult) (k : Core) :
    (k.start c r).aggrgtSumSize = r.size := rfl
@[simp] theorem aggrgtSumCounters_start (c : Context) (r : AggregateResult) (k : Core) :
    (k.start c r).aggrgtSumCounters = k.aggrgtSumCounters.store r := rfl
@[simp] theorem mpiTInitialized_start (c : Context) (r : AggregateResult) (k : Core) :
    (k.start c r).mpiTInitialized = true := rfl
@[simp] theorem statsServerStarts_start (c : Context) (r : AggregateResult) (k : Core) :
    (k.start c r).statsServerStarts = k.statsServerStarts + if c.commRank = 0 then 1 else 0 := rfl
@[simp] theorem ucxCountersCollectEnable_start (c : Context) (r : AggregateResult) (k : Core) :
    (k.start c r).ucxCountersCollectEnable = k.ucxCountersCollectEnable := rfl
@[simp] theorem enabled_start (c : Context) (r : AggregateResult) (k : Core) :
    (k.start c r).enabled = k.enabled := rfl

end Core

/-! ## The plugin moves its core as `Core.step` says -/

@[simp] theorem core_withNic (p : Plugin) (s : NicCounters) : (p.withNic s).core = p.core := rfl

theorem core_withAggregate_names (p : Plugin) (names : List AggrgtCounterName) :
    (p.withAggregate (ucxStatisticsAggregateCounterNamesGet names
      p.ucxSampling.aggregate).2.2).core = p.core := rfl

theorem core_withAggregate_size (p : Plugin) (size : ℕ) :
    (p.withAggregate (ucxStatisticsAggregateCounterSizeAssign size
      p.ucxSampling.aggregate)).core = p.core := rfl

/-- Reading one aggregate counter refreshes the core at index 0 and else leaves it. -/
theorem core_withAggregate_counter (p : Plugin) (r : AggregateResult) (index : ℕ) :
    (p.withAggregate (ucxStatisticsAggregateCounterGet r index
      p.ucxSampling.aggregate).2.2).core = if index = 0 then p.core.refresh r else p.core := by
  by_cases h : index = 0
  · subst h; rfl
  · rw [ucxStatisticsAggregateCounterGet_of_ne r h, if_neg h]; rfl

theorem core_aggregateStart (c : Context) (e : Environment) (p : Plugin) :
    (aggregateStart c e p).core = p.core.start c e.aggregateAtInit := by
  by_cases h : c.commRank = 0
  · simp [aggregateStart, h, Plugin.core, Core.start, Core.refresh, Plugin.withAggregate,
      ucxStatisticsServerStart, ucxStatisticsAggregateCounterGet, AggregateSampling.refresh]
  · simp [aggregateStart, h, Plugin.core, Core.start, Core.refresh, Plugin.withAggregate,
      ucxStatisticsAggregateCounterGet, AggregateSampling.refresh]

theorem core_noticeMpi (c : Context) (e : Environment) (p : Plugin) :
    (noticeMpi c e p).core = p.core.atRead c e := by
  by_cases h : p.mpiTInitialized = false ∧ e.mpiInitialized
  · have hcore : p.core.mpiTInitialized = false ∧ e.mpiInitialized := h
    rw [noticeMpi, if_pos h, core_withAggregate_names, core_aggregateStart, Core.atRead,
      if_pos hcore]
  · have hcore : ¬ (p.core.mpiTInitialized = false ∧ e.mpiInitialized) := h
    rw [noticeMpi, if_neg h, Core.atRead, if_neg hcore]

/-- The UCX part of an enumeration starts the aggregate API exactly when it is enabled and
finds no names file. -/
theorem core_ucxMetricProperties {c : Context} {e : Environment} {metricName : Name}
    {p : Plugin} {r : Enumeration} (h : ucxMetricProperties c e metricName p = .ok r) :
    r.plugin.core =
      if p.ucxCountersCollectEnable ≠ 0 ∧ e.namesFile = none then
        p.core.start c e.aggregateAtInit
      else p.core := by
  by_cases hen : p.ucxCountersCollectEnable ≠ 0
  · simp only [ucxMetricProperties, if_pos hen] at h
    cases hfile : e.namesFile with
    | none =>
        simp only [hfile, metricNameReadCountersListFromFile, bind, Except.bind] at h
        obtain rfl := Except.ok.inj h
        rw [if_pos ⟨hen, rfl⟩]
        exact (core_withAggregate_names _ _).trans (core_aggregateStart c e p)
    | some content =>
        rw [if_neg (by simp)]
        simp only [hfile, metricNameReadCountersListFromFile, bind, Except.bind] at h
        cases hread : (Line.pieces '\n' (lineBufferSize - 1) content).mapM nameOfLine with
        | error f => simp [hread] at h
        | ok names =>
            simp only [hread] at h
            obtain rfl := Except.ok.inj h
            exact core_withAggregate_size p names.length
  · simp only [ucxMetricProperties, if_neg hen] at h
    obtain rfl := Except.ok.inj h
    rw [if_neg (fun hboth => hen hboth.1)]

@[simp] theorem core_addNicProperties (c : Context) (e : Environment) (metricName : Name)
    (r : Enumeration) : (addNicProperties c e metricName r).plugin.core = r.plugin.core := by
  rw [addNicProperties]
  split <;> rfl

/-- An enumeration of UCX metrics is the UCX part, to which the NIC part is added. -/
theorem getMetricProperties_of_ucx {c : Context} {e : Environment} {metricName : Name}
    {p : Plugin} (h : isUcxMetric metricName) :
    getMetricProperties c e metricName p =
      (ucxMetricProperties c e metricName
        { p with ucxMetricName := metricName, nUcxCounters := ucxNumTemporaryCounters }).map
        (addNicProperties c e metricName) := by
  rw [isUcxMetric] at h
  cases hparse : parseMetric metricName with
  | error f => simp [hparse] at h
  | ok parsed =>
      have hevent : parsed.event = ucxEvent := by simpa [hparse] using h
      simp only [getMetricProperties, hparse, bind, Except.bind, if_pos hevent]
      split <;> simp_all [Except.map]

/-- The UCX part of an enumeration does not touch the NIC fields. -/
theorem ucxMetricProperties_nic {c : Context} {e : Environment} {metricName : Name} {p : Plugin}
    {r : Enumeration} (h : ucxMetricProperties c e metricName p = .ok r) :
    r.plugin.ucxSampling.nic = p.ucxSampling.nic ∧
      r.plugin.nicCountersCollectEnable = p.nicCountersCollectEnable := by
  have hstart : (aggregateStart c e p).ucxSampling.nic = p.ucxSampling.nic ∧
      (aggregateStart c e p).nicCountersCollectEnable = p.nicCountersCollectEnable := by
    by_cases hrank : c.commRank = 0 <;>
      simp [aggregateStart, hrank, Plugin.withAggregate, ucxStatisticsServerStart]
  rw [ucxMetricProperties] at h
  split at h
  · cases hread : metricNameReadCountersListFromFile e.namesFile with
    | error f => simp [hread, bind, Except.bind] at h
    | ok found =>
        simp only [hread, bind, Except.bind] at h
        cases found with
        | some countersList =>
            obtain rfl := Except.ok.inj h
            exact ⟨rfl, rfl⟩
        | none =>
            obtain rfl := Except.ok.inj h
            exact hstart
  · obtain rfl := Except.ok.inj h
    exact ⟨rfl, rfl⟩

/-- Any other enumeration hands over the rename function at most. -/
theorem plugin_of_not_ucx {c : Context} {e : Environment} {metricName : Name} {p : Plugin}
    {r : Enumeration} (h : isUcxMetric metricName = false)
    (hr : getMetricProperties c e metricName p = .ok r) :
    ∃ f, r.plugin = { p with metricNameUpdateFunc := f } := by
  rw [isUcxMetric] at h
  cases hparse : parseMetric metricName with
  | error f => simp [getMetricProperties, hparse, bind, Except.bind] at hr
  | ok parsed =>
      have hevent : parsed.event ≠ ucxEvent := by simpa [hparse] using h
      simp only [getMetricProperties, hparse, bind, Except.bind, if_neg hevent] at hr
      split at hr
      · obtain rfl := Except.ok.inj hr; exact ⟨_, rfl⟩
      · obtain rfl := Except.ok.inj hr; exact ⟨_, rfl⟩

theorem core_getMetricProperties_of_not_ucx {c : Context} {e : Environment} {metricName : Name}
    {p : Plugin} {r : Enumeration} (h : isUcxMetric metricName = false)
    (hr : getMetricProperties c e metricName p = .ok r) : r.plugin.core = p.core := by
  obtain ⟨f, hplugin⟩ := plugin_of_not_ucx h hr
  rw [hplugin]
  rfl

/-- **Enumerating** starts the aggregate API exactly when it asks it. -/
theorem core_getMetricProperties {c : Context} {e : Environment} {metricName : Name}
    {p : Plugin} {r : Enumeration} (hr : getMetricProperties c e metricName p = .ok r) :
    r.plugin.core =
      if p.core.Asks e metricName then p.core.start c e.aggregateAtInit else p.core := by
  cases hucx : isUcxMetric metricName with
  | false =>
      have hno : ¬ p.core.Asks e metricName := by
        intro h
        have hyes := h.1
        simp [hucx] at hyes
      rw [core_getMetricProperties_of_not_ucx hucx hr, if_neg hno]
  | true =>
      rw [getMetricProperties_of_ucx hucx] at hr
      cases hu : ucxMetricProperties c e metricName
          { p with ucxMetricName := metricName, nUcxCounters := ucxNumTemporaryCounters } with
      | error f => simp [hu, Except.map] at hr
      | ok r' =>
          rw [hu] at hr
          obtain rfl := Except.ok.inj hr
          have hiff : p.core.Asks e metricName ↔
              p.ucxCountersCollectEnable ≠ 0 ∧ e.namesFile = none := by
            simp [Core.Asks, hucx, Plugin.core]
          simp only [core_addNicProperties, core_ucxMetricProperties hu, hiff]
          rfl

/-- An enumeration that asks the aggregate API returns. -/
theorem getMetricProperties_ok_of_asks (c : Context) {e : Environment} {metricName : Name}
    {p : Plugin} (h : p.core.Asks e metricName) :
    ∃ r, getMetricProperties c e metricName p = .ok r := by
  obtain ⟨hucx, hen, hfile⟩ := h
  have hen' : p.ucxCountersCollectEnable ≠ 0 := hen
  rw [getMetricProperties_of_ucx hucx]
  simp only [ucxMetricProperties, if_pos hen', hfile, metricNameReadCountersListFromFile, bind,
    Except.bind]
  exact ⟨_, rfl⟩

/-- Reading a counter refreshes the core, or leaves it. -/
theorem core_readFrom (c : Context) (e : Environment) (id : ℤ) (p : Plugin)
    (h : p.mpiTInitialized = true) :
    (readFrom e (counterSource c id p) p).2.core =
      if p.core.Refreshes id then p.core.refresh e.aggregateAtRead else p.core := by
  by_cases hlt : sizeT id < p.ucxSampling.aggregate.aggrgtSumSize
  · have hiff : p.core.Refreshes id ↔ uint32 id = 0 := by
      simp [Core.Refreshes, Plugin.core, h, hlt]
    simp only [readFrom, counterSource_of_lt hlt, core_withAggregate_counter, hiff]
  · have hno : ¬ p.core.Refreshes id := by
      intro h
      exact hlt h.2.1
    rw [if_neg hno, counterSource_of_le (Nat.not_lt.mp hlt)]
    by_cases hnic : c.nicCountersEnable = true
    · rw [if_pos hnic]; rfl
    · rw [if_neg hnic]; rfl

/-- **Reading** chooses its table at `Core.atRead`, and refreshes or not. -/
theorem core_currentValueGet (c : Context) (e : Environment) (id : ℤ) (p : Plugin) :
    (currentValueGet c e id p).2.core =
      if (p.core.atRead c e).Refreshes id then (p.core.atRead c e).refresh e.aggregateAtRead
      else p.core.atRead c e := by
  rw [← core_noticeMpi]
  by_cases hmpi : (noticeMpi c e p).mpiTInitialized = true
  · simp only [currentValueGet, hmpi, if_true]
    exact core_readFrom c e id _ hmpi
  · have hno : ¬ (noticeMpi c e p).core.Refreshes id := by
      intro h
      exact hmpi h.1
    simp only [currentValueGet, hmpi, Bool.false_eq_true, if_false, if_neg hno]

/-- **The core simulates the plugin.** -/
theorem core_step (c : Context) (p : Plugin) (call : Call) :
    (p.step c call).core = p.core.step c call := by
  cases call with
  | getMetricProperties e metricName =>
      simp only [Plugin.step, Core.step]
      cases hr : getMetricProperties c e metricName p with
      | ok r => exact core_getMetricProperties hr
      | error f =>
          have hno : ¬ p.core.Asks e metricName := by
            intro h
            rcases getMetricProperties_ok_of_asks c h with ⟨r, hok⟩
            simp [hr] at hok
          rw [if_neg hno]
  | currentValueGet e id => exact core_currentValueGet c e id p

/-- The core at the end of a run. -/
theorem final_core (c : Context) (p : Plugin) (calls : List Call) :
    Run.final (Core.step c) p.core calls = (Run.final (Plugin.step c) p calls).core :=
  Run.final_view Plugin.core (Core.step c) (core_step c) p calls

end ScorepPluginUcx
