import ScorepPluginUcx.NicAggregation

/-!
# The index of the NIC counters

The aggregation leaves a table of names and, for every raw counter, the place of its filtered
name in the table. What the sampler held before does not matter, as long as the device has no
more counters than the mapping has entries.

## Main definitions

* `RightIndex`: the table and the mapping belong to a device.
* `AggregateInBounds`: no round of the aggregation writes outside the two tables.

## Main results

* `nicCountersAggregate_rightIndex`: the aggregation builds the right index.
* `aggregateInBounds_iff`: when it stays inside its tables.
-/

namespace ScorepPluginUcx

/-- The value that the failed search leaves in the mapping. -/
def noAggregate : ℕ := uint32 (-1)

/-! ## The rounds of the loop -/

/-- The search gives a name its place in the table. -/
theorem placedAt_aggtSumCounterNameIndexFind (cntName : Name) (names : ℕ → Name) (num : ℕ) :
    Firsts.PlacedAt noAggregate ((List.range num).map names) cntName
      (aggtSumCounterNameIndexFind cntName names num).2 := by
  have hmiss := aggtSumCounterNameIndexFind_iff cntName names num
  rw [aggtSumCounterNameIndexFind] at hmiss ⊢
  cases hfind : (List.range num).find? fun i => cntName = names i with
  | some i =>
      have hname : cntName = names i := by simpa using List.find?_some hfind
      have hi := List.mem_range.mp (List.mem_of_find?_eq_some hfind)
      exact .inl (by simp [hi, hname])
  | none =>
      rw [hfind] at hmiss
      exact .inr ⟨hmiss.mp rfl, rfl⟩

/-- What the loop has done when the names in `rawNames` are through: `start` is the loop
before the first of them. -/
structure AfterRounds (start : AggregateLoop) (rawNames : List Name) (l : AggregateLoop) :
    Prop where
  index : l.index = rawNames.length
  table : l.table = (Firsts.distinct (rawNames.map nicCounterNameFilter)).take
    numNicAggregateCntsMax
  placed : ∀ j rawName, rawNames[j]? = some rawName →
    Firsts.PlacedAt noAggregate l.table (nicCounterNameFilter rawName) (l.nicCntsAgrgtMapping j)
  namesBehind : ∀ i, l.filteredIndex ≤ i → l.nicCntsAgrgtNames i = start.nicCntsAgrgtNames i
  mappingBehind : ∀ j, l.index ≤ j → l.nicCntsAgrgtMapping j = start.nicCntsAgrgtMapping j

/-- The place that a round writes into the mapping. -/
theorem placedAt_step (l : AggregateLoop) (rawName : Name) :
    Firsts.PlacedAt noAggregate (nicCountersAggregateStep l rawName).table
      (nicCounterNameFilter rawName)
      ((nicCountersAggregateStep l rawName).nicCntsAgrgtMapping l.index) := by
  have hfound : (aggtSumCounterNameIndexFind (nicCounterNameFilter rawName)
      l.nicCntsAgrgtNames l.filteredIndex).1 = false ↔ nicCounterNameFilter rawName ∉ l.table :=
    aggtSumCounterNameIndexFind_iff _ _ _
  rw [table_step]
  simp only [nicCountersAggregateStep, hfound]
  split
  · rename_i hnew
    rw [← length_table] at hnew
    simp only [Function.update_self]
    rw [← length_table]
    exact Firsts.placedAt_add hnew.1 hnew.2
  · rename_i hold
    rw [← length_table] at hold
    simp only [Function.update_self]
    rw [Firsts.add, if_neg hold]
    exact placedAt_aggtSumCounterNameIndexFind _ _ _

/-- The index goes on by 1. -/
theorem index_step (l : AggregateLoop) (rawName : Name) :
    (nicCountersAggregateStep l rawName).index = l.index + 1 := by
  rw [nicCountersAggregateStep]
  split <;> rfl

/-- A round writes the mapping at the index only. -/
theorem mapping_step_of_ne (l : AggregateLoop) (rawName : Name) {j : ℕ} (hj : j ≠ l.index) :
    (nicCountersAggregateStep l rawName).nicCntsAgrgtMapping j = l.nicCntsAgrgtMapping j := by
  rw [nicCountersAggregateStep]
  split <;> exact Function.update_of_ne hj _ _

/-- A round writes the names at the end of the table only, and the table grows then. -/
theorem names_step_behind (l : AggregateLoop) (rawName : Name) {i : ℕ}
    (hi : (nicCountersAggregateStep l rawName).filteredIndex ≤ i) :
    (nicCountersAggregateStep l rawName).nicCntsAgrgtNames i = l.nicCntsAgrgtNames i ∧
      l.filteredIndex ≤ i := by
  rw [nicCountersAggregateStep] at hi ⊢
  split at hi
  · rename_i hnew
    rw [if_pos hnew]
    have hne : i ≠ l.filteredIndex := by
      simp only at hi
      omega
    refine ⟨Function.update_of_ne hne _ _, ?_⟩
    simp only at hi
    omega
  · rename_i hold
    rw [if_neg hold]
    exact ⟨rfl, hi⟩

/-- **One round** of the loop. -/
theorem AfterRounds.step {start l : AggregateLoop} {rawNames : List Name}
    (h : AfterRounds start rawNames l) (rawName : Name) :
    AfterRounds start (rawNames ++ [rawName]) (nicCountersAggregateStep l rawName) where
  index := by rw [index_step, h.index, List.length_append, List.length_singleton]
  table := by
    rw [table_step, h.table, ← Firsts.foldl_add, ← Firsts.foldl_add, List.map_append,
      List.foldl_append, List.map_singleton, List.foldl_cons, List.foldl_nil]
  placed := by
    intro j name hj
    by_cases hlast : j = l.index
    · obtain rfl : rawName = name := by
        rw [hlast, h.index, List.getElem?_concat_length] at hj
        exact Option.some.inj hj
      rw [hlast]
      exact placedAt_step l rawName
    · -- The place was written before, and the table still has it.
      have hlt : j < rawNames.length := by
        have hle := (List.getElem?_eq_some_iff.mp hj).1
        rw [List.length_append, List.length_singleton, ← h.index] at hle
        rw [← h.index]
        omega
      rw [List.getElem?_append_left hlt] at hj
      rw [table_step, mapping_step_of_ne l rawName hlast]
      refine (h.placed j name hj).add ?_ _
      rw [h.table]
      exact Firsts.room_le_of_notMem (List.mem_map_of_mem (List.mem_of_getElem? hj))
  namesBehind := by
    intro i hi
    obtain ⟨hsame, hle⟩ := names_step_behind l rawName hi
    rw [hsame, h.namesBehind i hle]
  mappingBehind := by
    intro j hj
    rw [index_step] at hj
    rw [mapping_step_of_ne l rawName (by omega), h.mappingBehind j (by omega)]

/-- **The whole loop.** -/
theorem afterRounds_foldl (names : ℕ → Name) (mapping : ℕ → ℕ) (rawNames : List Name) :
    AfterRounds ⟨0, 0, names, mapping⟩ rawNames
      (rawNames.foldl nicCountersAggregateStep ⟨0, 0, names, mapping⟩) := by
  induction rawNames using List.reverseRecOn with
  | nil =>
      refine ⟨rfl, rfl, ?_, fun _ _ => rfl, fun _ _ => rfl⟩
      intro j rawName hj
      simp at hj
  | append_singleton rawNames rawName ih =>
      rw [List.foldl_append, List.foldl_cons, List.foldl_nil]
      exact ih.step rawName

/-! ## Writes -/

/-- The loop of `nic_counters_aggregate` before its first round, and the raw names. -/
def aggregateLoop (device : List RawCounter) (s : NicCounters) : AggregateLoop × List Name :=
  let updated := nicCountersUpdate device s
  (⟨0, 0, updated.2.nicCntsAgrgtNames, updated.2.nicCntsAgrgtMapping⟩,
    (List.range updated.1).map fun index => nicCounterNameGet index [] updated.2)

/-- The rounds of this loop are the ones of the call. -/
theorem nicCountersAggregate_eq_final (device : List RawCounter) (s : NicCounters) :
    (nicCountersAggregate device s).2.nicCntsAgrgtNames =
        (Run.final nicCountersAggregateStep (aggregateLoop device s).1
          (aggregateLoop device s).2).nicCntsAgrgtNames ∧
      (nicCountersAggregate device s).2.nicCntsAgrgtMapping =
        (Run.final nicCountersAggregateStep (aggregateLoop device s).1
          (aggregateLoop device s).2).nicCntsAgrgtMapping :=
  ⟨rfl, rfl⟩

/-- Where a round writes into the mapping. -/
def mappingWrite (l : AggregateLoop) : ℕ := l.index

/-- Where a round writes into the names, if it does. -/
def namesWrite (l : AggregateLoop) (rawName : Name) : Option ℕ :=
  let found := aggtSumCounterNameIndexFind (nicCounterNameFilter rawName) l.nicCntsAgrgtNames
    l.filteredIndex
  if found.1 = false ∧ l.filteredIndex < numNicAggregateCntsMax then some l.filteredIndex
  else none

/-- A round writes the two tables there and nowhere else. -/
theorem nicCountersAggregateStep_writes (l : AggregateLoop) (rawName : Name) :
    (∃ k, (nicCountersAggregateStep l rawName).nicCntsAgrgtMapping =
        Function.update l.nicCntsAgrgtMapping (mappingWrite l) k) ∧
      (nicCountersAggregateStep l rawName).nicCntsAgrgtNames =
        match namesWrite l rawName with
        | some i => Function.update l.nicCntsAgrgtNames i (nicCounterNameFilter rawName)
        | none => l.nicCntsAgrgtNames := by
  simp only [nicCountersAggregateStep, namesWrite, mappingWrite]
  split
  · exact ⟨⟨l.filteredIndex, rfl⟩, rfl⟩
  · exact ⟨⟨_, rfl⟩, rfl⟩

/-- Every write of the aggregation is inside its table. -/
def AggregateInBounds (device : List RawCounter) (s : NicCounters) : Prop :=
  ∀ x ∈ Run.trace nicCountersAggregateStep (aggregateLoop device s).1 (aggregateLoop device s).2,
    mappingWrite x.1 < numNicCntsMax ∧
      ∀ i ∈ namesWrite x.1 x.2, i < numNicAggregateCntsMax

theorem namesWrite_lt {l : AggregateLoop} {rawName : Name} {i : ℕ}
    (hi : i ∈ namesWrite l rawName) : i < numNicAggregateCntsMax := by
  rw [namesWrite] at hi
  split at hi
  · rename_i hnew
    obtain rfl := Option.some.inj hi
    exact hnew.2
  · exact absurd hi (Option.not_mem_none i)

/-- The rounds write the mapping one entry after the other. -/
theorem map_mappingWrite_trace (l : AggregateLoop) (rawNames : List Name) :
    (Run.trace nicCountersAggregateStep l rawNames).map (fun x => mappingWrite x.1) =
      List.range' l.index rawNames.length := by
  induction rawNames generalizing l with
  | nil => rfl
  | cons rawName rawNames ih =>
      rw [Run.trace_cons, List.map_cons, ih, index_step, List.length_cons, List.range'_succ]
      rfl

theorem length_aggregateLoop {device : List RawCounter} {s : NicCounters}
    (hready : s.nicCountersInitialized = true) :
    (aggregateLoop device s).2.length = device.length := by
  simp [aggregateLoop, nicCountersUpdate, hready]

/-- The entries of the mapping that the rounds write: one for each counter of the device. -/
theorem exists_mappingWrite_iff {device : List RawCounter} {s : NicCounters}
    (hready : s.nicCountersInitialized = true) (j : ℕ) :
    (∃ x ∈ Run.trace nicCountersAggregateStep (aggregateLoop device s).1
      (aggregateLoop device s).2, mappingWrite x.1 = j) ↔ j < device.length := by
  have hindex : (aggregateLoop device s).1.index = 0 := rfl
  rw [← List.mem_map (f := fun x : AggregateLoop × Name => mappingWrite x.1),
    map_mappingWrite_trace, length_aggregateLoop hready, hindex, List.mem_range'_1]
  omega

/-- The names are never the problem: the round that adds one has tested its index. -/
theorem aggregateInBounds_of_le {device : List RawCounter} {s : NicCounters}
    (hready : s.nicCountersInitialized = true) (hle : device.length ≤ numNicCntsMax) :
    AggregateInBounds device s := by
  intro x hx
  have hlt := (exists_mappingWrite_iff hready _).mp ⟨x, hx, rfl⟩
  exact ⟨Nat.lt_of_lt_of_le hlt hle, fun i hi => namesWrite_lt hi⟩

theorem length_le_of_aggregateInBounds {device : List RawCounter} {s : NicCounters}
    (hready : s.nicCountersInitialized = true) (h : AggregateInBounds device s) :
    device.length ≤ numNicCntsMax := by
  by_contra hlong
  obtain ⟨x, hx, hj⟩ := (exists_mappingWrite_iff hready _).mpr (Nat.not_le.mp hlong)
  have hlt := (h x hx).1
  rw [hj] at hlt
  exact Nat.lt_irrefl _ hlt

/-! ## The index -/

/-- The table and the mapping of a sampler belong to a device. -/
structure RightIndex (device : List RawCounter) (s : NicCounters) : Prop where
  num : s.nicCntsAgrgtNum = min 1024 (Firsts.distinct (filteredNames device)).length
  /-- The names are the first distinct filtered ones. -/
  names : (List.range s.nicCntsAgrgtNum).map s.nicCntsAgrgtNames =
    (Firsts.distinct (filteredNames device)).take s.nicCntsAgrgtNum
  distinct : ∀ i < s.nicCntsAgrgtNum, ∀ k < s.nicCntsAgrgtNum,
    s.nicCntsAgrgtNames i = s.nicCntsAgrgtNames k → i = k
  filtered : ∀ i < s.nicCntsAgrgtNum, ∀ c ∈ s.nicCntsAgrgtNames i, c.isDigit = false ∧ c ≠ ':'
  /-- A filtered name in the table is mapped to its place, and no other is mapped to one. -/
  mapped : ∀ j name, (filteredNames device)[j]? = some name → ∀ i < s.nicCntsAgrgtNum,
    s.nicCntsAgrgtNames i = name → s.nicCntsAgrgtMapping j = i
  missing : ∀ j name, (filteredNames device)[j]? = some name →
    (s.nicCntsAgrgtMapping j = 0xFFFFFFFF ↔ ∀ i < s.nicCntsAgrgtNum, s.nicCntsAgrgtNames i ≠ name)

/-- What the loop over a device leaves. -/
theorem afterRounds_loopOver (device : List RawCounter) (s : NicCounters) :
    AfterRounds ⟨0, 0, s.nicCntsAgrgtNames, s.nicCntsAgrgtMapping⟩ (device.map RawCounter.text)
      (loopOver device s) :=
  afterRounds_foldl _ _ _

/-- The table in the fields of the sampler. -/
def NicCounters.table (s : NicCounters) : List Name :=
  (List.range s.nicCntsAgrgtNum).map s.nicCntsAgrgtNames

theorem length_nicTable (s : NicCounters) : s.table.length = s.nicCntsAgrgtNum := by
  simp [NicCounters.table]

theorem getElem?_nicTable (s : NicCounters) {i : ℕ} (hi : i < s.nicCntsAgrgtNum) :
    s.table[i]? = some (s.nicCntsAgrgtNames i) := by
  simp [NicCounters.table, hi]

theorem notMem_nicTable_iff {s : NicCounters} {name : Name} :
    name ∉ s.table ↔ ∀ i < s.nicCntsAgrgtNum, s.nicCntsAgrgtNames i ≠ name := by
  simp [NicCounters.table]

/-- The sampler has the table of the device, and the places in it. -/
structure Indexed (device : List RawCounter) (s : NicCounters) : Prop where
  table : s.table = (Firsts.distinct (filteredNames device)).take numNicAggregateCntsMax
  placed : ∀ j name, (filteredNames device)[j]? = some name →
    Firsts.PlacedAt noAggregate s.table name (s.nicCntsAgrgtMapping j)

namespace Indexed

variable {device : List RawCounter} {s : NicCounters}

theorem num_eq (h : Indexed device s) : s.nicCntsAgrgtNum =
    min numNicAggregateCntsMax (Firsts.distinct (filteredNames device)).length := by
  rw [← length_nicTable, h.table, List.length_take]

theorem nodup (h : Indexed device s) : s.table.Nodup := by
  rw [h.table]
  exact (Firsts.nodup_distinct _).sublist (List.take_sublist _ _)

/-- A name in the table is a filtered one. -/
theorem mem_filteredNames (h : Indexed device s) {i : ℕ} (hi : i < s.nicCntsAgrgtNum) :
    s.nicCntsAgrgtNames i ∈ filteredNames device := by
  have hmem := List.mem_of_getElem? (getElem?_nicTable s hi)
  rw [h.table] at hmem
  exact Firsts.mem_distinct.mp (List.mem_of_mem_take hmem)

/-- **The index of the device**, told by its fields. -/
theorem rightIndex (h : Indexed device s) : RightIndex device s where
  num := h.num_eq
  names := by
    apply h.table.trans
    rw [h.num_eq, ← List.take_take, List.take_length]
  distinct := by
    intro i hi k hk heq
    have hlt : i < s.table.length := by rwa [length_nicTable]
    apply (List.getElem?_inj hlt h.nodup).mp
    rw [getElem?_nicTable s hi, getElem?_nicTable s hk, heq]
  filtered := by
    intro i hi c hc
    obtain ⟨k, _, hk⟩ := List.mem_map.mp (h.mem_filteredNames hi)
    exact of_mem_filteredName (hk ▸ hc)
  mapped := by
    intro j name hj i hi hname
    have hat : s.table[i]? = some name := by rw [getElem?_nicTable s hi, hname]
    exact (h.placed j name hj).unique h.nodup (.inl hat)
  missing := by
    intro j name hj
    have hle : s.table.length ≤ noAggregate := by
      rw [length_nicTable, h.num_eq]
      exact Nat.le_trans (Nat.min_le_left _ _) (by decide)
    exact ((h.placed j name hj).eq_missing_iff hle).trans notMem_nicTable_iff

end Indexed

/-- The aggregation leaves the table and the places of the device. -/
theorem nicCountersAggregate_indexed (device : List RawCounter) {s : NicCounters}
    (hready : s.nicCountersInitialized = true) :
    Indexed device (nicCountersAggregate device s).2 := by
  have h := afterRounds_loopOver device s
  rw [nicCountersAggregate_eq device hready]
  constructor
  · rw [filteredNames_eq_map]
    exact h.table
  · intro j name hj
    rw [filteredNames_eq_map, List.getElem?_map, Option.map_eq_some_iff] at hj
    obtain ⟨rawName, hj, rfl⟩ := hj
    exact h.placed j rawName hj

/-- Filling the tables for a second time leaves them as they are. -/
theorem loopOver_loopOver (device : List RawCounter) {s s' : NicCounters}
    (hnames : s'.nicCntsAgrgtNames = (loopOver device s).nicCntsAgrgtNames)
    (hmapping : s'.nicCntsAgrgtMapping = (loopOver device s).nicCntsAgrgtMapping) :
    loopOver device s' = loopOver device s := by
  have first := afterRounds_loopOver device s
  have again := afterRounds_loopOver device s'
  have htable : (loopOver device s').table = (loopOver device s).table :=
    again.table.trans first.table.symm
  have hindex : (loopOver device s').index = (loopOver device s).index :=
    again.index.trans first.index.symm
  have hnum : (loopOver device s').filteredIndex = (loopOver device s).filteredIndex := by
    rw [← length_table, htable, length_table]
  have hnames' : (loopOver device s').nicCntsAgrgtNames =
      (loopOver device s).nicCntsAgrgtNames := by
    ext i : 1
    by_cases hi : i < (loopOver device s).filteredIndex
    · have hat := congrArg (·[i]?) htable
      simpa [AggregateLoop.table, hnum, hi] using hat
    · rw [again.namesBehind i (by omega), ← hnames]
  have hmapping' : (loopOver device s').nicCntsAgrgtMapping =
      (loopOver device s).nicCntsAgrgtMapping := by
    ext j : 1
    by_cases hj : j < (device.map RawCounter.text).length
    · have hnodup : (loopOver device s).table.Nodup := by
        rw [first.table]
        exact (Firsts.nodup_distinct _).sublist (List.take_sublist _ _)
      have hplace := again.placed j _ (List.getElem?_eq_getElem hj)
      rw [htable] at hplace
      exact hplace.unique hnodup (first.placed j _ (List.getElem?_eq_getElem hj))
    · rw [again.mappingBehind j (by rw [again.index]; omega), ← hmapping]
  calc loopOver device s'
      = ⟨(loopOver device s').index, (loopOver device s').filteredIndex,
          (loopOver device s').nicCntsAgrgtNames, (loopOver device s').nicCntsAgrgtMapping⟩ := rfl
    _ = loopOver device s := by rw [hindex, hnum, hnames', hmapping']

/-- **The index is right**: for a device that the mapping has room for, the aggregation
builds its index inside the tables, whatever they held, and a second one changes nothing. -/
theorem nicCountersAggregate_rightIndex {device : List RawCounter} {s : NicCounters}
    (hready : s.nicCountersInitialized = true) (hfits : device.length ≤ 10240) :
    RightIndex device (nicCountersAggregate device s).2 ∧
      (nicCountersAggregate device s).1 = (nicCountersAggregate device s).2.nicCntsAgrgtNum ∧
      AggregateInBounds device s ∧
      nicCountersAggregate device (nicCountersAggregate device s).2 =
        nicCountersAggregate device s := by
  refine ⟨(nicCountersAggregate_indexed device hready).rightIndex, rfl,
    aggregateInBounds_of_le hready hfits, ?_⟩
  rw [nicCountersAggregate_eq device hready, nicCountersAggregate_eq device (by exact hready),
    loopOver_loopOver device (s := s) rfl rfl]

/-- Two ports with a counter each, and one counter of their own. -/
def twoPorts : List RawCounter :=
  [⟨"tx1:b".toList, 1⟩, ⟨"tx2:b".toList, 2⟩, ⟨"rx".toList, 4⟩]

/-- The index of two ports, from tables that hold something else. -/
theorem rightIndex_twoPorts :
    RightIndex twoPorts (nicCountersAggregate twoPorts
      ⟨[], 5, fun _ => 7, fun _ => "txb".toList, 3, 1, true⟩).2 :=
  (nicCountersAggregate_rightIndex rfl (by decide)).1

/-! ## A device with too many counters -/

/-- **Inside the tables**: the aggregation of an initialized device stays there exactly when
the device has no more than 10240 counters. -/
theorem aggregateInBounds_iff {device : List RawCounter} {s : NicCounters}
    (hready : s.nicCountersInitialized = true) :
    AggregateInBounds device s ↔ device.length ≤ 10240 :=
  ⟨length_le_of_aggregateInBounds hready, aggregateInBounds_of_le hready⟩

/-- The aggregation of two ports. -/
theorem aggregateInBounds_twoPorts : AggregateInBounds twoPorts (.init true []) :=
  (aggregateInBounds_iff rfl).mpr (by decide)

/-- A device with one counter more than the mapping has entries. -/
theorem not_aggregateInBounds :
    ¬ AggregateInBounds (List.replicate 10241 ⟨"tx".toList, 0⟩) (.init true []) := by
  intro h
  have hle := length_le_of_aggregateInBounds rfl h
  rw [List.length_replicate] at hle
  exact absurd hle (by decide)

end ScorepPluginUcx
