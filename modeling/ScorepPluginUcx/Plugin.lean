import ScorepPluginUcx.NamesFile
import ScorepPluginUcx.Sampling.Aggregate
import ScorepPluginUcx.Sampling.Nic
import ScorepPluginUcx.Utils

/-!
# The plugin

The three entry points that Score-P calls: `get_metric_properties` enumerates metrics,
`add_metric` registers one and `current_value_get` reads one. They share the state of one
process; what they find outside is their `Context` and their `Environment`.

## Main definitions

* `UcxSampling`, `Plugin`: the state.
* `getMetricProperties`, `addMetric`, `currentValueGet`: the entry points.
* `counterSource`: which table a read takes its value from.
* `Call`, `Plugin.step`: the process as a machine.
-/

namespace ScorepPluginUcx

/-- The sampler. `statsServerStarts` counts the calls of `ucs_stats_server_start`. -/
structure UcxSampling where
  statisticsServerProcessEnable : Bool
  aggregate : AggregateSampling
  nic : NicCounters
  statsServerStarts : ℕ

/-- `ucx_statistics_server_start`. -/
def ucxStatisticsServerStart (ok : Bool) (s : UcxSampling) : ℤ × UcxSampling :=
  (if ok then 0 else -1,
    { s with
      statisticsServerProcessEnable := ok
      statsServerStarts := s.statsServerStarts + 1 })

/-- The plugin. `mpiRank` and `metricNameUpdateFunc` are `none` until they are assigned,
which the constructor does not do; `currentId` is the static of `add_metric`. -/
structure Plugin where
  mpiTInitialized : Bool
  ucxCountersCollectEnable : ℤ
  nicCountersCollectEnable : ℤ
  mpiRank : Option ℤ
  ucxSampling : UcxSampling
  ucxMetricName : Name
  nUcxCounters : ℕ
  metricNameUpdateFunc : Option ℕ
  currentId : ℕ

namespace Plugin

/-- The state after the constructors, for the two enable flags and what became of the NIC
handle. -/
def init (ucxCountersCollectEnable nicCountersCollectEnable : ℤ)
    (nicCountersInitialized : Bool) (handle : List RawCounter) : Plugin where
  mpiTInitialized := false
  ucxCountersCollectEnable := ucxCountersCollectEnable
  nicCountersCollectEnable := nicCountersCollectEnable
  mpiRank := none
  ucxSampling := ⟨false, .init, .init nicCountersInitialized handle, 0⟩
  ucxMetricName := []
  nUcxCounters := 0
  metricNameUpdateFunc := none
  currentId := 0

/-- Replace the aggregate fields of the sampler. -/
def withAggregate (p : Plugin) (s : AggregateSampling) : Plugin :=
  { p with ucxSampling := { p.ucxSampling with aggregate := s } }

/-- Replace the NIC fields of the sampler. -/
def withNic (p : Plugin) (s : NicCounters) : Plugin :=
  { p with ucxSampling := { p.ucxSampling with nic := s } }

end Plugin

/-! ## Enumeration -/

/-- `UCX_NUM_TEMPORARY_COUNTERS`. -/
def ucxNumTemporaryCounters : ℕ := 50

/-- The event name of the UCX metrics. -/
def ucxEvent : Name := "UCX".toList

/-- `SCOREP_STRICTLY_SYNCHRONOUS_METRIC_NAME_UPDATE_FUNC_NAME` and
`SCOREP_METRIC_NAME_UPDATE_FUNC_NAME`. -/
def metricNameUpdateFuncNames : List Name :=
  ["SCOREP_Strictly_Synchronous_metric_name_update".toList, "SCOREP_metric_name_update".toList]

/-- The name of the `MetricProperty` that is made from a string. -/
def metricProperty (counterName : Name) : Name := cStr counterName

/-- The label of a UCX counter. -/
def ucxCounterLabel (metricName : Name) (k : AggrgtCounterName) : Name :=
  metricName ++ ['_'] ++ k.className ++ ['_'] ++ k.counterName

/-- The label of the NIC counter called `counterName`. -/
def nicCounterLabel (metricName counterName : Name) : Name :=
  metricName ++ "_nic_cnt_".toList ++ counterName

/-- The start of the aggregate API once MPI is up, which `get_metric_properties` and
`current_value_get` share: take the rank, start the server on rank 0, read counter 0. -/
def aggregateStart (c : Context) (e : Environment) (p : Plugin) : Plugin :=
  let p₁ := { p with mpiTInitialized := true, mpiRank := some c.commRank }
  let p₂ :=
    if p₁.mpiRank = some 0 then
      { p₁ with ucxSampling := (ucxStatisticsServerStart e.serverStartOk p₁.ucxSampling).2 }
    else p₁
  p₂.withAggregate
    (ucxStatisticsAggregateCounterGet e.aggregateAtInit 0 p₂.ucxSampling.aggregate).2.2

theorem mpiRank_aggregateStart (c : Context) (e : Environment) (p : Plugin) :
    (aggregateStart c e p).mpiRank = some c.commRank := by
  by_cases h : c.commRank = 0 <;> simp [aggregateStart, h, Plugin.withAggregate]

/-- The loop over the counter names: make a property of each and, on rank 0, append it to
the names file. `i` is the index of the first name. -/
def addAggregateCounters (isRoot : Bool) (appendOpens : ℕ → Bool) (metricName : Name) :
    ℕ → List AggrgtCounterName → Option Name → List Name × Option Name
  | _, [], file => ([], file)
  | i, k :: ks, file =>
      let label := ucxCounterLabel metricName k
      let file' := if isRoot then metricNameAddToFile (appendOpens i) label file else file
      let rest := addAggregateCounters isRoot appendOpens metricName (i + 1) ks file'
      (metricProperty label :: rest.1, rest.2)

/-- What `get_metric_properties` returns and leaves behind: the vector is the UCX
properties followed by the NIC properties. -/
structure Enumeration where
  ucxProperties : List Name
  nicProperties : List Name
  plugin : Plugin
  namesFile : Option Name

/-- The vector that is returned. -/
def Enumeration.metricProperties (r : Enumeration) : List Name :=
  r.ucxProperties ++ r.nicProperties

/-- The UCX part of `get_metric_properties`. With a names file the size of the list goes
to the names of the sampler and MPI is left alone. -/
def ucxMetricProperties (c : Context) (e : Environment) (metricName : Name) (p : Plugin) :
    Except Failure Enumeration :=
  if p.ucxCountersCollectEnable ≠ 0 then do
    match ← metricNameReadCountersListFromFile e.namesFile with
    | some countersList =>
        let s := ucxStatisticsAggregateCounterSizeAssign countersList.length
          p.ucxSampling.aggregate
        .ok ⟨countersList.map metricProperty, [], p.withAggregate s, e.namesFile⟩
    | none =>
        let p₁ := aggregateStart c e p
        let named := ucxStatisticsAggregateCounterNamesGet e.counterNames p₁.ucxSampling.aggregate
        let p₂ := p₁.withAggregate named.2.2
        let added := addAggregateCounters (p₂.mpiRank = some 0) e.appendOpens metricName 0
          named.2.1 e.namesFile
        .ok ⟨added.1, [], p₂, added.2⟩
  else .ok ⟨[], [], p, e.namesFile⟩

/-- The NIC part of `get_metric_properties`: the loop runs over the aggregate names but
takes each name from the table of raw counters. -/
def nicMetricProperties (e : Environment) (metricName : Name) (p : Plugin) :
    List Name × Plugin :=
  let aggregated := nicCountersAggregate e.device p.ucxSampling.nic
  ((List.range aggregated.1).map fun i =>
      metricProperty (nicCounterLabel metricName (nicCounterNameGet i [] aggregated.2)),
    p.withNic aggregated.2)

/-- The NIC properties are added behind the UCX properties, in a build that has them and
when their collection is enabled. -/
def addNicProperties (c : Context) (e : Environment) (metricName : Name) (r : Enumeration) :
    Enumeration :=
  if c.nicCountersEnable ∧ r.plugin.nicCountersCollectEnable ≠ 0 then
    let nic := nicMetricProperties e metricName r.plugin
    { r with nicProperties := nic.1, plugin := nic.2 }
  else r

@[simp] theorem ucxProperties_addNicProperties (c : Context) (e : Environment)
    (metricName : Name) (r : Enumeration) :
    (addNicProperties c e metricName r).ucxProperties = r.ucxProperties := by
  rw [addNicProperties]
  split <;> rfl

@[simp] theorem namesFile_addNicProperties (c : Context) (e : Environment) (metricName : Name)
    (r : Enumeration) : (addNicProperties c e metricName r).namesFile = r.namesFile := by
  rw [addNicProperties]
  split <;> rfl

/-- `get_metric_properties`: only a UCX metric has properties; the two function names hand
over the address of the rename function. -/
def getMetricProperties (c : Context) (e : Environment) (metricName : Name) (p : Plugin) :
    Except Failure Enumeration := do
  let parsed ← parseMetric metricName
  if parsed.event = ucxEvent then
    let r ← ucxMetricProperties c e metricName
      { p with ucxMetricName := metricName, nUcxCounters := ucxNumTemporaryCounters }
    .ok (addNicProperties c e metricName r)
  else if parsed.event ∈ metricNameUpdateFuncNames then
    .ok ⟨[], [], { p with metricNameUpdateFunc := some parsed.hexDummy }, e.namesFile⟩
  else .ok ⟨[], [], p, e.namesFile⟩

/-! ## Registration -/

/-- `add_metric`: the id of a UCX metric is the number of UCX metrics added before. -/
def addMetric (metric : Name) (p : Plugin) : Except Failure (ℤ × Plugin) := do
  let parsed ← parseMetric metric
  if parsed.event = ucxEvent then
    .ok (int32 p.currentId, { p with currentId := (p.currentId + 1) % 2 ^ 32 })
  else .ok (0, p)

/-- Score-P adds the metrics of an enumeration one after the other. -/
def addMetrics : List Name → Plugin → Except Failure (List ℤ × Plugin)
  | [], p => .ok ([], p)
  | metric :: metrics, p => do
      let (id, p₁) ← addMetric metric p
      let (ids, p₂) ← addMetrics metrics p₁
      .ok (id :: ids, p₂)

/-! ## Reading -/

/-- The table that a read takes its value from, and the index in it. -/
inductive Source
  /-- No table: the value stays 0. -/
  | nothing
  /-- An aggregate counter of UCX. -/
  | ucx (index : ℕ)
  /-- A raw counter of the NIC. -/
  | nic (index : ℕ)
  deriving DecidableEq, Repr

/-- The choice that `current_value_get` makes for an id: it compares the id with the size
of the last aggregate, and without NIC counters in the build the `else` is empty. -/
def counterSource (c : Context) (id : ℤ) (p : Plugin) : Source :=
  let num := ucxStatisticsAggrgtSumTotalCountersNumGet p.ucxSampling.aggregate
  if sizeT id < num then .ucx (uint32 id)
  else if c.nicCountersEnable then .nic (uint32 (sizeT (id - num)))
  else .nothing

theorem counterSource_of_lt {c : Context} {id : ℤ} {p : Plugin}
    (h : sizeT id < p.ucxSampling.aggregate.aggrgtSumSize) :
    counterSource c id p = .ucx (uint32 id) := if_pos h

theorem counterSource_of_le {c : Context} {id : ℤ} {p : Plugin}
    (h : p.ucxSampling.aggregate.aggrgtSumSize ≤ sizeT id) :
    counterSource c id p =
      if c.nicCountersEnable then
        .nic (uint32 (sizeT (id - p.ucxSampling.aggregate.aggrgtSumSize)))
      else .nothing := if_neg (Nat.not_lt.mpr h)

/-- The first half of `current_value_get`: when MPI turns out to be initialized, start the
aggregate API and ask it for the names. -/
def noticeMpi (c : Context) (e : Environment) (p : Plugin) : Plugin :=
  if p.mpiTInitialized = false ∧ e.mpiInitialized then
    let p₁ := aggregateStart c e p
    p₁.withAggregate
      (ucxStatisticsAggregateCounterNamesGet e.counterNames p₁.ucxSampling.aggregate).2.2
  else p

/-- Take a value from a table. -/
def readFrom (e : Environment) (source : Source) (p : Plugin) : Option UInt64 × Plugin :=
  match source with
  | .ucx index =>
      let r := ucxStatisticsAggregateCounterGet e.aggregateAtRead index p.ucxSampling.aggregate
      (r.2.1, p.withAggregate r.2.2)
  | .nic index =>
      let r := nicCounterValueGet e.device index p.ucxSampling.nic
      (r.1, p.withNic r.2)
  | .nothing => (some 0, p)

/-- `current_value_get`: the value, `none` for a read past a table, and the plugin
afterwards. The value stays 0 as long as MPI is not initialized. The return value, which
no caller looks at, and `prev_value`, which stays 0, are left out. -/
def currentValueGet (c : Context) (e : Environment) (id : ℤ) (p : Plugin) :
    Option UInt64 × Plugin :=
  let p₁ := noticeMpi c e p
  if p₁.mpiTInitialized then readFrom e (counterSource c id p₁) p₁ else (some 0, p₁)

/-- The table that a call of `current_value_get` takes its value from. -/
def readSource (c : Context) (e : Environment) (id : ℤ) (p : Plugin) : Source :=
  let p₁ := noticeMpi c e p
  if p₁.mpiTInitialized then counterSource c id p₁ else .nothing

theorem currentValueGet_eq_readFrom (c : Context) (e : Environment) (id : ℤ) (p : Plugin) :
    currentValueGet c e id p = readFrom e (readSource c e id p) (noticeMpi c e p) := by
  cases h : (noticeMpi c e p).mpiTInitialized <;>
    simp [currentValueGet, readSource, h, readFrom]

/-! ## The process as a machine -/

/-- A call of one of the two entry points that use the aggregate API. -/
inductive Call
  | getMetricProperties (e : Environment) (metricName : Name)
  | currentValueGet (e : Environment) (id : ℤ)

/-- The plugin after a call. A call that throws does so before it changes anything; what
an undefined read of the names file leaves is anyone's guess, and taken to be `p`. -/
def Plugin.step (c : Context) (p : Plugin) : Call → Plugin
  | .getMetricProperties e metricName =>
      match getMetricProperties c e metricName p with
      | .ok r => r.plugin
      | .error _ => p
  | .currentValueGet e id => (currentValueGet c e id p).2

end ScorepPluginUcx
