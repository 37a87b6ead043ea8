import ScorepPluginUcx.Types

/-!
# The aggregate-sum side of the sampler

`ucx_sampling` keeps the last answer of `ucs_stats_aggregate` in a fixed array together
with its size, and refreshes both when index 0 is read.

## Main definitions

* `AggregateSampling`: the fields of `ucx_sampling` that belong to the aggregate API.
* `ucxStatisticsAggregateCounterGet`: read one counter, refreshing at index 0.
-/

namespace ScorepPluginUcx

/-- The aggregate-sum fields of `ucx_sampling`. -/
structure AggregateSampling where
  aggrgtSumSize : ℕ
  aggrgtSumCounters : AggregateCounters
  aggrgtSumCounterNames : List AggrgtCounterName
  aggrgtSumCounterNamesSize : ℕ

namespace AggregateSampling

/-- The fields after the constructor. -/
def init : AggregateSampling := ⟨0, .zero, [], 0⟩

/-- Take an answer of `ucs_stats_aggregate` into the fields. -/
def refresh (r : AggregateResult) (s : AggregateSampling) : AggregateSampling :=
  { s with aggrgtSumSize := r.size, aggrgtSumCounters := s.aggrgtSumCounters.store r }

@[simp] theorem aggrgtSumSize_refresh (r : AggregateResult) (s : AggregateSampling) :
    (s.refresh r).aggrgtSumSize = r.size := rfl
@[simp] theorem aggrgtSumCounters_refresh (r : AggregateResult) (s : AggregateSampling) :
    (s.refresh r).aggrgtSumCounters = s.aggrgtSumCounters.store r := rfl

end AggregateSampling

/-- `ucx_statistics_aggregate_counter_get`: the return value, what is stored through
`value` (`none` for a read past the array), and the sampler afterwards. -/
def ucxStatisticsAggregateCounterGet (r : AggregateResult) (index : ℕ) (s : AggregateSampling) :
    Bool × Option UInt64 × AggregateSampling :=
  if index = 0 then
    let s' := s.refresh r
    -- An empty answer stores 0 through `value` and then falls through to this read.
    (s'.aggrgtSumSize ≠ 0, s'.aggrgtSumCounters.cells[0]?, s')
  else (true, s.aggrgtSumCounters.cells[index]?, s)

/-- `ucx_statistics_aggregate_counter_names_get`. -/
def ucxStatisticsAggregateCounterNamesGet (names : List AggrgtCounterName)
    (s : AggregateSampling) : Bool × List AggrgtCounterName × AggregateSampling :=
  let s' := { s with aggrgtSumCounterNames := names, aggrgtSumCounterNamesSize := names.length }
  (0 < s'.aggrgtSumCounterNamesSize, s'.aggrgtSumCounterNames, s')

/-- `ucx_statistics_aggregate_counter_size_assign`: it sets the size of the names, not
the size that the reads are compared with. -/
def ucxStatisticsAggregateCounterSizeAssign (size : ℕ) (s : AggregateSampling) :
    AggregateSampling :=
  { s with aggrgtSumCounterNamesSize := size }

/-- `ucx_statistics_aggrgt_sum_total_counters_num_get`. -/
def ucxStatisticsAggrgtSumTotalCountersNumGet (s : AggregateSampling) : ℕ := s.aggrgtSumSize

theorem ucxStatisticsAggregateCounterGet_zero (r : AggregateResult) (s : AggregateSampling) :
    ucxStatisticsAggregateCounterGet r 0 s =
      (decide (r.size ≠ 0), (s.aggrgtSumCounters.store r).cells[0]?, s.refresh r) := rfl

theorem ucxStatisticsAggregateCounterGet_of_ne (r : AggregateResult) {index : ℕ}
    (h : index ≠ 0) (s : AggregateSampling) :
    ucxStatisticsAggregateCounterGet r index s =
      (true, s.aggrgtSumCounters.cells[index]?, s) := by
  simp [ucxStatisticsAggregateCounterGet, h]

end ScorepPluginUcx
