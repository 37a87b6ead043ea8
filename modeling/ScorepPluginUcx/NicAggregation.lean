import ScorepPluginUcx.Lib.Firsts
import ScorepPluginUcx.Lib.Run
import ScorepPluginUcx.Sampling.Nic

/-!
# What the aggregation of NIC counters builds

The loop of `nic_counters_aggregate` fills the table of aggregate names: a filtered name that
is not there yet goes to the end, if there is room. `AggregateLoop.table` reads the table off
the loop's variables, and the loop is then the filling of a table in the sense of `Firsts`.

## Main results

* `nicCounterNameFilter_eq`: what the filter drops.
* `table_step`: one round of the loop.
* `nicCountersAggregate_eq`: a call is the loop over the names of the device.
* `nicCountersAggregate_names`: the table after a call.
-/

namespace ScorepPluginUcx

/-! ## Filtered names -/

/-- A name without its digits and colons. -/
def filteredName (text : Name) : Name := text.filter fun c => !c.isDigit && c != ':'

/-- A filtered name has no digit and no colon. -/
theorem of_mem_filteredName {text : Name} {c : Char} (h : c ∈ filteredName text) :
    c.isDigit = false ∧ c ≠ ':' := by
  simpa using (List.mem_filter.mp h).2

theorem filteredName_idem (text : Name) : filteredName (filteredName text) = filteredName text := by
  simp [filteredName]

theorem mem_filterChars_of_isDigit {c : Char} (h : c.isDigit = true) :
    c ∈ "0123456789:".toList := by
  have hall : ∀ n < 10, Char.ofNat (48 + n) ∈ "0123456789:".toList := by decide
  have hrange : 48 ≤ c.toNat ∧ c.toNat ≤ 57 := by
    rw [Char.isDigit, Bool.and_eq_true, decide_eq_true_iff, decide_eq_true_iff] at h
    exact ⟨UInt32.le_iff_toNat_le.mp h.1, UInt32.le_iff_toNat_le.mp h.2⟩
  have hc : Char.ofNat (48 + (c.toNat - 48)) = c := by
    rw [Nat.add_sub_cancel' hrange.1, Char.ofNat_toNat]
  exact hc ▸ hall (c.toNat - 48) (by omega)

/-- The characters that the filter looks for are the digits and the colon. -/
theorem mem_filterChars_iff (c : Char) :
    c ∈ "0123456789:".toList ↔ c.isDigit = true ∨ c = ':' := by
  constructor
  · intro h
    have hall : ("0123456789:".toList.all fun c => c.isDigit || c == ':') = true := by decide
    simpa only [Bool.or_eq_true, beq_iff_eq] using List.all_eq_true.mp hall c h
  · rintro (hdigit | rfl)
    · exact mem_filterChars_of_isDigit hdigit
    · decide

/-- **The filter** drops these and nothing else. -/
theorem nicCounterNameFilter_eq (text : Name) : nicCounterNameFilter text = filteredName text := by
  apply List.filter_congr
  intro c _
  rw [Bool.eq_iff_iff, decide_eq_true_iff, mem_filterChars_iff, not_or]
  simp

/-- The filtered names of the raw counters. -/
def filteredNames (device : List RawCounter) : List Name :=
  device.map fun k => filteredName k.text

theorem filteredNames_eq_map (device : List RawCounter) :
    filteredNames device = (device.map RawCounter.text).map nicCounterNameFilter := by
  simp [filteredNames, nicCounterNameFilter_eq]

/-! ## The table -/

/-- The aggregate names: the distinct filtered ones, in the order of their first
occurrence, up to the size of the table. -/
def aggregateNames (device : List RawCounter) : List Name :=
  (Firsts.distinct (filteredNames device)).take numNicAggregateCntsMax

theorem length_aggregateNames_le (device : List RawCounter) :
    (aggregateNames device).length ≤ device.length := by
  have hle := Firsts.length_distinct_le (filteredNames device)
  rw [filteredNames, List.length_map] at hle
  exact Nat.le_trans (List.length_take_le' _ _) hle

/-- The table in the variables of the loop. -/
def AggregateLoop.table (l : AggregateLoop) : List Name :=
  (List.range l.filteredIndex).map l.nicCntsAgrgtNames

theorem length_table (l : AggregateLoop) : l.table.length = l.filteredIndex := by
  simp [AggregateLoop.table]

/-- The search succeeds for the names in the table. -/
theorem aggtSumCounterNameIndexFind_iff (cntName : Name) (names : ℕ → Name) (num : ℕ) :
    (aggtSumCounterNameIndexFind cntName names num).1 = false ↔
      cntName ∉ (List.range num).map names := by
  rw [aggtSumCounterNameIndexFind]
  cases hfind : (List.range num).find? fun i => cntName = names i with
  | some i =>
      have hname := List.find?_some hfind
      have hi := List.mem_of_find?_eq_some hfind
      have hmem : cntName ∈ (List.range num).map names :=
        List.mem_map.mpr ⟨i, hi, (of_decide_eq_true hname).symm⟩
      simpa using hmem
  | none =>
      have hnone : ∀ i ∈ List.range num, ¬ cntName = names i := by
        simpa using List.find?_eq_none.mp hfind
      have hnotMem : cntName ∉ (List.range num).map names := by
        intro hmem
        rcases List.mem_map.mp hmem with ⟨i, hi, hname⟩
        exact hnone i hi hname.symm
      simpa using hnotMem

/-- **One round** puts the filtered name into the table. -/
theorem table_step (l : AggregateLoop) (rawName : Name) :
    (nicCountersAggregateStep l rawName).table =
      Firsts.add numNicAggregateCntsMax l.table (nicCounterNameFilter rawName) := by
  have hfound : (aggtSumCounterNameIndexFind (nicCounterNameFilter rawName)
      l.nicCntsAgrgtNames l.filteredIndex).1 = false ↔ nicCounterNameFilter rawName ∉ l.table :=
    aggtSumCounterNameIndexFind_iff _ _ _
  simp only [nicCountersAggregateStep, Firsts.add, hfound, length_table]
  by_cases hnew : nicCounterNameFilter rawName ∉ l.table ∧
      l.filteredIndex < numNicAggregateCntsMax
  · rw [if_pos hnew, if_pos hnew]
    simp only [AggregateLoop.table, List.range_succ, List.map_append, List.map_singleton,
      Function.update_self]
    congr 1
    apply List.map_congr_left
    intro i hi
    have hne : i ≠ l.filteredIndex := Nat.ne_of_lt (List.mem_range.mp hi)
    rw [Function.update_of_ne hne]
  · rw [if_neg hnew, if_neg hnew]
    rfl

/-- The raw names, as the loop comes across them. -/
theorem map_nicCounterNameGet {s : NicCounters} (hready : s.nicCountersInitialized = true) :
    ((List.range s.ethStatsHandle.length).map fun index => nicCounterNameGet index [] s) =
      s.ethStatsHandle.map RawCounter.text := by
  ext i : 1
  by_cases hi : i < s.ethStatsHandle.length
  · simp [nicCounterNameGet, hready, hi]
  · simp [hi]

/-- The loop over the names of a device, from what is in the tables of a sampler. -/
def loopOver (device : List RawCounter) (s : NicCounters) : AggregateLoop :=
  (device.map RawCounter.text).foldl nicCountersAggregateStep
    ⟨0, 0, s.nicCntsAgrgtNames, s.nicCntsAgrgtMapping⟩

/-- The aggregation of an initialized device. -/
theorem nicCountersAggregate_eq (device : List RawCounter) {s : NicCounters}
    (hready : s.nicCountersInitialized = true) :
    nicCountersAggregate device s =
      ((loopOver device s).filteredIndex,
        { s with
          ethStatsHandle := device
          numNicCountersTotal := device.length
          nicCntsAgrgtNum := (loopOver device s).filteredIndex
          nicCntsAgrgtNames := (loopOver device s).nicCntsAgrgtNames
          nicCntsAgrgtMapping := (loopOver device s).nicCntsAgrgtMapping }) := by
  have hupdate : nicCountersUpdate device s =
      (device.length, { s with ethStatsHandle := device }) := by
    simp [nicCountersUpdate, hready]
  have hraw := map_nicCounterNameGet (s := { s with ethStatsHandle := device }) hready
  simp only [nicCountersAggregate, hupdate, hraw]
  rfl

/-- The table that the loop fills, whatever it held before. -/
theorem table_loopOver (device : List RawCounter) (s : NicCounters) :
    (loopOver device s).table = aggregateNames device := by
  have hview := Run.final_view AggregateLoop.table
    (fun table rawName => Firsts.add numNicAggregateCntsMax table (nicCounterNameFilter rawName))
    table_step ⟨0, 0, s.nicCntsAgrgtNames, s.nicCntsAgrgtMapping⟩ (device.map RawCounter.text)
  apply hview.symm.trans
  rw [Run.final, aggregateNames, ← Firsts.foldl_add, filteredNames_eq_map]
  exact List.foldl_map.symm

/-- **The aggregation** of an initialized device, whatever the tables held before. -/
theorem nicCountersAggregate_names (device : List RawCounter) {s : NicCounters}
    (hready : s.nicCountersInitialized = true) :
    (nicCountersAggregate device s).1 = (aggregateNames device).length ∧
      (nicCountersAggregate device s).2.nicCntsAgrgtNum = (aggregateNames device).length ∧
      (nicCountersAggregate device s).2.ethStatsHandle = device ∧
      (nicCountersAggregate device s).2.nicCountersInitialized = true ∧
      (List.range (aggregateNames device).length).map
        (nicCountersAggregate device s).2.nicCntsAgrgtNames = aggregateNames device := by
  have htable := table_loopOver device s
  have hlength := congrArg List.length htable
  rw [length_table] at hlength
  rw [nicCountersAggregate_eq device hready, ← hlength]
  exact ⟨rfl, rfl, rfl, hready, htable⟩

end ScorepPluginUcx
