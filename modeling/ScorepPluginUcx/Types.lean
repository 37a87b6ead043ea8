import Mathlib.Algebra.Group.Int.Defs
import Mathlib.Algebra.Group.Nat.Defs
import Mathlib.Data.Int.Notation
import Mathlib.Data.List.TakeWhile
import Mathlib.Data.UInt

/-!
# Data types of the plugin

Text is a list of characters. A `std::string` may hold a NUL character, a `char *`
cannot: `cStr` is the conversion from the first to the second. Unsigned machine
integers are natural numbers and conversions between widths are explicit.

## Main definitions

* `cStr`, `snprintf`: text as C sees it.
* `sizeT`, `uint32`, `int32`: the integer conversions the plugin relies on.
* `AggregateResult`, `AggregateCounters`: what `ucs_stats_aggregate` writes, and the
  array it writes to.
* `Context`, `Environment`: what the plugin finds outside itself.
-/

namespace ScorepPluginUcx

/-- Names of metrics, classes, counters and files' lines. -/
abbrev Name := List Char

/-- The `char *` view of a string: it ends before the first NUL. -/
def cStr (s : Name) : Name := s.takeWhile (· ≠ '\x00')

/-- `snprintf` into a buffer of `size` bytes keeps `size - 1` characters. -/
def snprintf (size : ℕ) (s : Name) : Name := s.take (size - 1)

/-- Conversion to `size_t`. -/
def sizeT (x : ℤ) : ℕ := (x % 2 ^ 64).toNat

/-- Conversion to `uint32_t`. -/
def uint32 (x : ℤ) : ℕ := (x % 2 ^ 32).toNat

/-- Conversion of a `uint32_t` to `int32_t`. -/
def int32 (x : ℕ) : ℤ :=
  if x % 2 ^ 32 < 2 ^ 31 then (x % 2 ^ 32 : ℕ) else (x % 2 ^ 32 : ℕ) - 2 ^ 32

theorem cStr_of_nul_notMem {s : Name} (h : '\x00' ∉ s) : cStr s = s := by
  apply List.takeWhile_eq_self_iff.mpr
  intro c hc
  have hne : c ≠ '\x00' := by
    intro heq
    exact h (heq ▸ hc)
  simpa using hne

theorem nul_notMem_cStr (s : Name) : '\x00' ∉ cStr s := by
  intro h
  have := List.mem_takeWhile_imp h
  simp at this

@[simp] theorem cStr_cStr (s : Name) : cStr (cStr s) = cStr s :=
  cStr_of_nul_notMem (nul_notMem_cStr s)

theorem sizeT_natCast {n : ℕ} (h : n < 2 ^ 64) : sizeT n = n := by
  rw [sizeT]; omega

theorem uint32_natCast {n : ℕ} (h : n < 2 ^ 32) : uint32 n = n := by
  rw [uint32]; omega

theorem int32_lt (n : ℕ) : int32 n < 2 ^ 31 := by
  rw [int32]; split <;> omega

theorem int32_of_lt {n : ℕ} (h : n < 2 ^ 31) : int32 n = n := by
  rw [int32]; split <;> omega

/-! ## Aggregate-sum counters -/

/-- `UCX_AGGREGATE_SUM_NUM_COUNTERS_MAX`. -/
def aggregateSumNumCountersMax : ℕ := 64

/-- `ucs_stats_aggrgt_counter_name_t`. -/
structure AggrgtCounterName where
  className : Name
  counterName : Name
  deriving DecidableEq, Repr

/-- One answer of `ucs_stats_aggregate`: it writes `values` to the front of the array
and returns their number, which the size of the array bounds. -/
structure AggregateResult where
  values : List UInt64
  size_le : values.length ≤ aggregateSumNumCountersMax
  deriving DecidableEq

namespace AggregateResult

/-- The number that `ucs_stats_aggregate` returns. -/
def size (r : AggregateResult) : ℕ := r.values.length

/-- Entry `k` of an answer, or 0 when it has no such entry. -/
def entry (r : AggregateResult) (k : ℕ) : UInt64 := r.values.getD k 0

theorem entry_of_size_le {r : AggregateResult} {k : ℕ} (h : r.size ≤ k) : r.entry k = 0 := by
  simp [entry, List.getElem?_eq_none (show r.values.length ≤ k from h)]

end AggregateResult

/-- The array `m_aggrgt_sum_counters`. -/
structure AggregateCounters where
  cells : List UInt64
  length_eq : cells.length = aggregateSumNumCountersMax
  deriving DecidableEq

namespace AggregateCounters

/-- The array after the `memset` of the constructor. -/
def zero : AggregateCounters := ⟨List.replicate aggregateSumNumCountersMax 0, by simp⟩

/-- An answer overwrites the front of the array; an empty one writes nothing. -/
def store (a : AggregateCounters) (r : AggregateResult) : AggregateCounters :=
  ⟨r.values ++ a.cells.drop r.size, by
    have h := r.size_le
    simp only [List.length_append, List.length_drop, a.length_eq, AggregateResult.size]
    omega⟩

theorem cells_store_of_lt (a : AggregateCounters) {r : AggregateResult} {k : ℕ}
    (h : k < r.size) : (a.store r).cells[k]? = some (r.entry k) := by
  have hk : k < r.values.length := h
  simp [store, AggregateResult.entry, List.getElem?_append_left hk, List.getElem?_eq_getElem hk]

theorem cells_store_of_le (a : AggregateCounters) {r : AggregateResult} {k : ℕ}
    (h : r.size ≤ k) : (a.store r).cells[k]? = a.cells[k]? := by
  have hk : r.values.length ≤ k := h
  rw [store, List.getElem?_append_right hk, List.getElem?_drop]
  congr 1
  simp only [AggregateResult.size]
  omega

end AggregateCounters

/-! ## Outside the plugin -/

/-- One raw counter of the NIC: its entry in the strings table and in the data table. -/
structure RawCounter where
  name : Name
  value : UInt64
  deriving DecidableEq

/-- How a call can end other than by returning. -/
inductive Failure
  /-- `std::invalid_argument` is thrown. -/
  | invalidArgument
  /-- `std::out_of_range` is thrown. -/
  | outOfRange
  /-- A buffer is indexed outside its bounds, which C leaves undefined. -/
  | outOfBounds
  deriving DecidableEq, Repr

/-- What is fixed for a process: whether the build has `UCX_STATS_NIC_COUNTERS_ENABLE`,
and the rank that `PMPI_Comm_rank` reports. -/
structure Context where
  nicCountersEnable : Bool
  commRank : ℤ

/-- What one call of the plugin finds outside. A call asks `ucs_stats_aggregate` at most
twice, when it initializes the API and when it reads a counter. -/
structure Environment where
  /-- The flag of `MPI_Initialized`. -/
  mpiInitialized : Bool
  aggregateAtInit : AggregateResult
  aggregateAtRead : AggregateResult
  /-- The answer of `ucs_stats_aggregate_get_counter_names`. -/
  counterNames : List AggrgtCounterName
  /-- The contents of the metric-names file, if it can be opened. -/
  namesFile : Option Name
  /-- Whether the `i`-th `fopen` for appending succeeds. -/
  appendOpens : ℕ → Bool
  /-- What the handle holds after `stats_query_device`. -/
  device : List RawCounter
  /-- Whether `ucs_stats_server_start` succeeds. -/
  serverStartOk : Bool

namespace AggregateResult

/-- The answer without counters. -/
def empty : AggregateResult := ⟨[], Nat.zero_le _⟩

/-- The answer with one counter. -/
def single (v : UInt64) : AggregateResult := ⟨[v], by simp [aggregateSumNumCountersMax]⟩

end AggregateResult

/-- An environment before `MPI_Init`, with a server, without counters and without a file. -/
def Environment.bare : Environment where
  mpiInitialized := false
  aggregateAtInit := .empty
  aggregateAtRead := .empty
  counterNames := []
  namesFile := none
  appendOpens := fun _ => true
  device := []
  serverStartOk := true

end ScorepPluginUcx
