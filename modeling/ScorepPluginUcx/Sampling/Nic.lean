import ScorepPluginUcx.Types
import Mathlib.Logic.Function.Basic

/-!
# The NIC side of the sampler

The counters of the device live in the handle that `stats_query_device` fills. The
aggregation gives every raw counter the index of its filtered name in a table of names;
the tables are functions from an index, so that a write outside them is visible.

## Main definitions

* `NicCounters`: the NIC fields of `ucx_sampling`.
* `nicCounterValueGet`, `nicCounterNameGet`: read a value or a name of the handle.
* `nicCountersAggregate`: build the table of aggregate names and the mapping.
-/

namespace ScorepPluginUcx

/-- `NUM_NIC_AGGREGATE_CNTS_MAX`. -/
def numNicAggregateCntsMax : ℕ := 1024

/-- `NUM_NIC_CNTS_MAX`. -/
def numNicCntsMax : ℕ := 10 * 1024

/-- `NIC_COUNTERS_UPDATE_DECIMATION`, a power of two. -/
def nicCountersUpdateDecimation : ℕ := 128

/-- The NIC fields of `ucx_sampling`. -/
structure NicCounters where
  /-- The counters in `m_eth_stats_handle`; their number is `n_stats`. -/
  ethStatsHandle : List RawCounter
  nicCntsAgrgtNum : ℕ
  nicCntsAgrgtMapping : ℕ → ℕ
  nicCntsAgrgtNames : ℕ → Name
  numNicCountersTotal : ℕ
  nicRoundsCnt : ℕ
  nicCountersInitialized : Bool

/-- The fields after the constructor; `handle` is what `stats_alloc_handle` left. -/
def NicCounters.init (nicCountersInitialized : Bool) (handle : List RawCounter) : NicCounters :=
  ⟨handle, 0, fun _ => 0, fun _ => [], 0, 0, nicCountersInitialized⟩

/-- `nic_counters_update`: query the device into the handle. -/
def nicCountersUpdate (device : List RawCounter) (s : NicCounters) : ℕ × NicCounters :=
  if s.nicCountersInitialized then (device.length, { s with ethStatsHandle := device })
  else (0, s)

/-- `nic_counter_value_get`: only index 0 counts rounds, and one round in 128 queries the
device. `none` is a read past the data table. -/
def nicCounterValueGet (device : List RawCounter) (index : ℕ) (s : NicCounters) :
    Option UInt64 × NicCounters :=
  if s.nicCountersInitialized then
    let s' :=
      if index = 0 then
        let refreshed :=
          if s.nicRoundsCnt &&& (nicCountersUpdateDecimation - 1) = 0 then
            (nicCountersUpdate device s).2
          else s
        { refreshed with nicRoundsCnt := (refreshed.nicRoundsCnt + 1) % 2 ^ 32 }
      else s
    (s'.ethStatsHandle[index]?.map RawCounter.value, s')
  else (some 0, s)

/-- The text of a raw counter, read through a `char *`. -/
def RawCounter.text (c : RawCounter) : Name := cStr c.name

/-- `nic_counter_name_get`: `name` keeps its value when there is no device. Both callers
stay below `n_stats`. -/
def nicCounterNameGet (index : ℕ) (name : Name) (s : NicCounters) : Name :=
  if s.nicCountersInitialized then (s.ethStatsHandle[index]?.map RawCounter.text).getD []
  else name

/-- `nic_counter_name_filter`: drop the digits and the colon. -/
def nicCounterNameFilter (name : Name) : Name :=
  name.filter fun c => c ∉ "0123456789:".toList

/-- `aggt_sum_counter_name_index_find`: the return value and the index found, which is
`(uint32_t)-1` when the name is not among the first `aggtCntNum`. -/
def aggtSumCounterNameIndexFind (cntName : Name) (aggtCntsNames : ℕ → Name) (aggtCntNum : ℕ) :
    Bool × ℕ :=
  match (List.range aggtCntNum).find? fun i => cntName = aggtCntsNames i with
  | some i => (true, i)
  | none => (false, uint32 (-1))

/-- The variables of the loop of `nic_counters_aggregate`. -/
structure AggregateLoop where
  index : ℕ
  filteredIndex : ℕ
  nicCntsAgrgtNames : ℕ → Name
  nicCntsAgrgtMapping : ℕ → ℕ

/-- One round of the loop, for the raw name at `index`. -/
def nicCountersAggregateStep (l : AggregateLoop) (rawName : Name) : AggregateLoop :=
  let cntName := nicCounterNameFilter rawName
  let found := aggtSumCounterNameIndexFind cntName l.nicCntsAgrgtNames l.filteredIndex
  if found.1 = false ∧ l.filteredIndex < numNicAggregateCntsMax then
    { index := l.index + 1
      filteredIndex := l.filteredIndex + 1
      nicCntsAgrgtNames := Function.update l.nicCntsAgrgtNames l.filteredIndex cntName
      nicCntsAgrgtMapping := Function.update l.nicCntsAgrgtMapping l.index l.filteredIndex }
  else
    -- A name that is new while the table is full is mapped to the failed search's index.
    { l with
      index := l.index + 1
      nicCntsAgrgtMapping := Function.update l.nicCntsAgrgtMapping l.index found.2 }

/-- `nic_counters_aggregate`: the return value and the sampler afterwards. -/
def nicCountersAggregate (device : List RawCounter) (s : NicCounters) : ℕ × NicCounters :=
  let updated := nicCountersUpdate device s
  let s' := updated.2
  let rawNames := (List.range updated.1).map fun index => nicCounterNameGet index [] s'
  let l := rawNames.foldl nicCountersAggregateStep
    ⟨0, 0, s'.nicCntsAgrgtNames, s'.nicCntsAgrgtMapping⟩
  (l.filteredIndex,
    { s' with
      numNicCountersTotal := updated.1
      nicCntsAgrgtNum := l.filteredIndex
      nicCntsAgrgtNames := l.nicCntsAgrgtNames
      nicCntsAgrgtMapping := l.nicCntsAgrgtMapping })

end ScorepPluginUcx
