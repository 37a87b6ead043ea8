import ScorepPluginUcx.ScanAgreement

/-!
# Reading the sampled counters

`ucx_statistics_current_value_get` is called for one index at a time. Until the list of
counters is there, it looks for counters in one call of 256; from then on a call with index 0
brings the values of the list up to date, and every call hands out a value together with the
one that it handed out before.

## Main definitions

* `CountersSampling`: the flag of the sampler and the static of the function.
* `ucxStatisticsCurrentValueGet`: one call.
-/

namespace ScorepPluginUcx

/-- The sampler's `m_counters_initialized_on_scorep`, and `counter`, a static of
`ucx_statistics_current_value_get`. -/
structure CountersSampling where
  countersInitializedOnScorep : ℕ
  counter : ℕ
  deriving DecidableEq

/-- The fields when the process starts. -/
def CountersSampling.init : CountersSampling := ⟨0, 0⟩

/-- What a call of `ucx_statistics_current_value_get` leaves. -/
structure CurrentValue where
  ret : ℕ
  /-- What is stored through `value` and `prev_value`, if anything is. -/
  stored : Option (UInt64 × UInt64)
  /-- The mode of the scan, if there was one. -/
  scan : Option Bool
  sampling : CountersSampling
  list : List ScorepCounterData

/-- `ucx_statistics_all_counters_update`: have UCX send its statistics, and scan what the
server got. `none` is a scan without a report. -/
def ucxStatisticsAllCountersUpdate (stats : List StatsRoot) (list : List ScorepCounterData)
    (initializeCountersEnable : Bool) : Option (List ScorepCounterData) :=
  scanCountersList stats list initializeCountersEnable

/-- `(*ucx_counters_list)[index]->prev_value = *value`. -/
def keepPrevValue (e : ScorepCounterData) : ScorepCounterData := { e with prevValue := e.value }

/-- The read of an initialized list. -/
def readCounter (index : ℕ) (scan : Option Bool) (s : CountersSampling)
    (list : List ScorepCounterData) : CurrentValue :=
  match list[index]? with
  | some e => ⟨0, some (e.value, e.prevValue), scan, s, list.modify index keepPrevValue⟩
  | none => ⟨0, some (0, 0), scan, s, list⟩

section

variable (index : ℕ) (scan : Option Bool) (s : CountersSampling) (list : List ScorepCounterData)

@[simp] theorem ret_readCounter : (readCounter index scan s list).ret = 0 := by
  rw [readCounter]
  split <;> rfl
@[simp] theorem scan_readCounter : (readCounter index scan s list).scan = scan := by
  rw [readCounter]
  split <;> rfl
@[simp] theorem sampling_readCounter : (readCounter index scan s list).sampling = s := by
  rw [readCounter]
  split <;> rfl
@[simp] theorem length_list_readCounter :
    (readCounter index scan s list).list.length = list.length := by
  rw [readCounter]
  split
  · exact List.length_modify _ _ _
  · rfl

end

/-- `ucx_statistics_current_value_get`, where `stats` is what the server has got when the call
scans. -/
def ucxStatisticsCurrentValueGet (stats : List StatsRoot) (index : ℕ) (s : CountersSampling)
    (list : List ScorepCounterData) : Option CurrentValue :=
  if s.countersInitializedOnScorep ≠ 0 then
    if index = 0 then
      (ucxStatisticsAllCountersUpdate stats list false).map fun list =>
        readCounter index (some false) s list
    else some (readCounter index none s list)
  else if list.length = 0 ∧ s.counter &&& 0xFF = 0 then
    (ucxStatisticsAllCountersUpdate stats list true).map fun list =>
      if list.length ≠ 0 then
        -- This return leaves `counter` as it is.
        ⟨1, none, some true, { s with countersInitializedOnScorep := 1 }, list⟩
      else ⟨0, none, some true, { s with counter := (s.counter + 1) % 2 ^ 64 }, list⟩
  else some ⟨0, none, none, { s with counter := (s.counter + 1) % 2 ^ 64 }, list⟩

section

variable (root : StatsRoot) (roots : List StatsRoot) {s : CountersSampling}
  {list : List ScorepCounterData}

/-- Index 0 of an initialized list. -/
theorem ucxStatisticsCurrentValueGet_zero (h : s.countersInitializedOnScorep = 1) :
    ucxStatisticsCurrentValueGet (root :: roots) 0 s list =
      some (readCounter 0 (some false) s
        (Overwrite.overwrite putValue 0 ((flat root.children).map StatsCounter.value) list)) := by
  simp [ucxStatisticsCurrentValueGet, h, ucxStatisticsAllCountersUpdate, scanCountersList_update]

/-- Any other index of an initialized list. -/
theorem ucxStatisticsCurrentValueGet_of_ne (stats : List StatsRoot) {index : ℕ}
    (h : s.countersInitializedOnScorep = 1) (hindex : index ≠ 0) :
    ucxStatisticsCurrentValueGet stats index s list = some (readCounter index none s list) := by
  simp [ucxStatisticsCurrentValueGet, h, hindex]

/-- An initializing scan makes an entry for each counter of the tree. -/
theorem length_freshEntries (rootName : Name) (f : StatsNodes) :
    (freshEntries 0 (scannedCounters rootName f 0)).length = (flat f).length := by
  rw [freshEntries, List.length_mapIdx, ← map_snd_scannedCounters rootName f 0, List.length_map]

theorem freshEntries_eq_nil_iff (rootName : Name) (f : StatsNodes) :
    freshEntries 0 (scannedCounters rootName f 0) = [] ↔ flat f = [] := by
  rw [← List.length_eq_zero_iff, length_freshEntries, List.length_eq_zero_iff]

/-- The attempt to find counters. -/
theorem ucxStatisticsCurrentValueGet_attempt (index : ℕ)
    (h : s.countersInitializedOnScorep = 0) (hlist : list = []) (hturn : s.counter &&& 0xFF = 0) :
    ucxStatisticsCurrentValueGet (root :: roots) index s list =
      some (if flat root.children ≠ [] then
        ⟨1, none, some true, { s with countersInitializedOnScorep := 1 },
          freshEntries 0 (scannedCounters "cnt".toList root.children 0)⟩
      else ⟨0, none, some true, { s with counter := (s.counter + 1) % 2 ^ 64 }, []⟩) := by
  have hnil := freshEntries_eq_nil_iff "cnt".toList root.children
  simp only [ucxStatisticsCurrentValueGet, h, hlist, hturn, ucxStatisticsAllCountersUpdate,
    scanCountersList_init_eq, List.nil_append, ne_eq, not_true_eq_false, if_false,
    List.length_nil, and_self, if_true, Option.map_some, List.length_eq_zero_iff, hnil]
  by_cases hflat : flat root.children = []
  · simp only [hflat, hnil.mpr hflat, not_true_eq_false, if_false]
  · simp only [hflat, not_false_eq_true, if_true]

/-- The calls between two attempts. -/
theorem ucxStatisticsCurrentValueGet_skip (stats : List StatsRoot) (index : ℕ)
    (h : s.countersInitializedOnScorep = 0) (hlist : list = []) (hturn : s.counter &&& 0xFF ≠ 0) :
    ucxStatisticsCurrentValueGet stats index s list =
      some ⟨0, none, none, { s with counter := (s.counter + 1) % 2 ^ 64 }, []⟩ := by
  simp [ucxStatisticsCurrentValueGet, h, hlist, hturn]

end

end ScorepPluginUcx
