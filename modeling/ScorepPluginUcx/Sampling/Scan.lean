import ScorepPluginUcx.Lib.Forest
import ScorepPluginUcx.Lib.Overwrite
import ScorepPluginUcx.Types

/-!
# Scanning the statistics tree

`recursive_scan_counters_list` walks the active children of a node, and below each of them
recursively. In initializing mode it appends an entry for every counter; in update mode it
writes the values into the entries, a cursor telling which entry is next. When the list is
exhausted a `goto` leaves the innermost call, and the loops around it go on.

`none` is the outcome of a scan that dereferences a pointer to no node, or indexes the
list outside its bounds.

## Main definitions

* `StatsNode`, `StatsRoot`: the statistics of UCX.
* `ScorepCounterData`: an entry of the counters list.
* `recursiveScanCountersList`, `scanCountersList`: the scan.
* `flat`: the counters of a forest in pre-order.
-/

namespace ScorepPluginUcx

/-- `UCX_SAMPLING_COUNTER_NAME_PREFIX_MAX_SIZE`. -/
def counterNamePrefixMaxSize : ℕ := 512

/-- A counter of a node: its name in the class and its value. -/
structure StatsCounter where
  name : Name
  value : UInt64
  deriving DecidableEq

/-- The data of a `ucs_stats_node_t`: the name of its class and its counters, whose number
is `cls->num_counters`. -/
structure StatsNode where
  clsName : Name
  counters : List StatsCounter
  deriving DecidableEq

/-- A list of nodes, each with its active children. -/
abbrev StatsNodes := Forest StatsNode

/-- A root, as one reporting process delivers it. -/
structure StatsRoot where
  node : StatsNode
  children : StatsNodes

/-- `scorep_counter_data_t`. -/
structure ScorepCounterData where
  name : Name
  scorepCounterId : ℕ
  metricHandle : ℕ
  scorepMetricAlreadyRenamed : ℕ
  value : UInt64
  prevValue : UInt64
  deriving DecidableEq

/-- `(uint64_t)-1`. -/
def noPrevValue : UInt64 := 2 ^ 64 - 1

/-- The counters list and the cursor `num_counters`, which the scan passes by reference. -/
structure ScanState where
  list : List ScorepCounterData
  numCounters : ℕ
  deriving DecidableEq

/-- The entry that an initializing scan makes. -/
def newCounterData (counterNameTemp : Name) (numCounters : ℕ) (k : StatsCounter) :
    ScorepCounterData where
  name := snprintf counterNamePrefixMaxSize (counterNameTemp ++ ['-'] ++ k.name)
  scorepCounterId := uint32 numCounters
  metricHandle := 0
  scorepMetricAlreadyRenamed := 0
  value := k.value
  prevValue := noPrevValue

/-- `value` of an entry is all that an update writes. -/
def putValue (v : UInt64) (e : ScorepCounterData) : ScorepCounterData := { e with value := v }

/-- The loop over the counters of one node; the flag tells that it was left by the `goto`. -/
def scanCounters (initializeCountersEnable : Bool) (counterNameTemp : Name) :
    List StatsCounter → ScanState → Option (Bool × ScanState)
  | [], s => some (false, s)
  | k :: ks, s =>
      if initializeCountersEnable then
        scanCounters initializeCountersEnable counterNameTemp ks
          ⟨s.list ++ [newCounterData counterNameTemp s.numCounters k], s.numCounters + 1⟩
      else if s.list.length ≤ s.numCounters then some (true, s)
      else
        match s.list[s.numCounters]? with
        | none => none
        | some e =>
            scanCounters initializeCountersEnable counterNameTemp ks
              ⟨s.list.set s.numCounters (putValue k.value e), s.numCounters + 1⟩

/-- `counter_name_prefix` of a child: the name of its class behind that of its parent. -/
def counterNamePrefix (countersRootName : Name) (dataNode : StatsNode) : Name :=
  snprintf counterNamePrefixMaxSize (countersRootName ++ ['-'] ++ dataNode.clsName)

/-- `counter_name_temp` of a child: its object number, a `uint64_t`, and its prefix. -/
def counterNameTemp (numObjects : ℕ) (counterNamePrefix : Name) : Name :=
  snprintf counterNamePrefixMaxSize
    ("ucx-object-".toList ++ Nat.toDigits 10 (sizeT numObjects) ++ ['-'] ++ counterNamePrefix)

/-- `recursive_scan_counters_list` over the children of a node; it returns the number of
children that it got through. The two names are only written, and only used, in
initializing mode. -/
def recursiveScanCountersList (initializeCountersEnable : Bool) :
    Name → StatsNodes → ℕ → ScanState → Option (ℕ × ScanState)
  | _, .nil, _, s => some (0, s)
  | countersRootName, .node dataNode children next, numObjects, s =>
      let namePrefix := counterNamePrefix countersRootName dataNode
      match scanCounters initializeCountersEnable (counterNameTemp numObjects namePrefix)
          dataNode.counters s with
      | none => none
      | some (true, s₁) => some (0, s₁)
      | some (false, s₁) =>
          match recursiveScanCountersList initializeCountersEnable namePrefix children
              (numObjects + 1) s₁ with
          | none => none
          | some (below, s₂) =>
              match recursiveScanCountersList initializeCountersEnable countersRootName next
                  (numObjects + 1 + below) s₂ with
              | none => none
              | some (nLocalObjects, s₃) => some (nLocalObjects + 1, s₃)

/-- `scan_counters_list`: it scans below the head of the list of roots. The head of an
empty list is no node. -/
def scanCountersList (stats : List StatsRoot) (list : List ScorepCounterData)
    (initializeCountersEnable : Bool) : Option (List ScorepCounterData) :=
  match stats with
  | [] => none
  | root :: _ =>
      (recursiveScanCountersList initializeCountersEnable "cnt".toList root.children 0
        ⟨list, 0⟩).map fun r => r.2.list

/-! ## The counters in pre-order -/

/-- The counters of a list of nodes and of all below them, in pre-order. -/
def flat (f : StatsNodes) : List StatsCounter := f.preorder.flatMap StatsNode.counters

@[simp] theorem flat_nil : flat .nil = [] := rfl
@[simp] theorem flat_node (d : StatsNode) (c n : StatsNodes) :
    flat (.node d c n) = d.counters ++ (flat c ++ flat n) := by
  simp [flat, List.flatMap_append]

/-- What an entry records beside its name. -/
def ScorepCounterData.record (e : ScorepCounterData) : ℕ × ℕ × UInt64 × UInt64 :=
  (e.scorepCounterId, e.scorepMetricAlreadyRenamed, e.value, e.prevValue)

/-- The records that an initializing scan makes when its cursor is at `numCounters`. -/
def freshRecords (numCounters : ℕ) (ks : List StatsCounter) : List (ℕ × ℕ × UInt64 × UInt64) :=
  ks.mapIdx fun j k => (uint32 (numCounters + j : ℕ), 0, k.value, noPrevValue)

/-! ## What an initializing scan makes -/

/-- A node as an initializing scan comes across it: the number and the prefix that go into
the names of its counters. -/
structure ScannedNode where
  objectNumber : ℕ
  namePrefix : Name
  node : StatsNode

/-- The counters of a node, each with the text that its name starts with. -/
def ScannedNode.counters (x : ScannedNode) : List (Name × StatsCounter) :=
  x.node.counters.map (Prod.mk (counterNameTemp x.objectNumber x.namePrefix))

/-- The nodes in pre-order. A node takes one number, and what is below it as many as it has
children. -/
def scannedNodes : Name → StatsNodes → ℕ → List ScannedNode
  | _, .nil, _ => []
  | countersRootName, .node dataNode children next, numObjects =>
      let namePrefix := counterNamePrefix countersRootName dataNode
      ⟨numObjects, namePrefix, dataNode⟩ ::
        (scannedNodes namePrefix children (numObjects + 1) ++
          scannedNodes countersRootName next (numObjects + 1 + children.width))

/-- The numbers are those of a numbering that counts a subtree by its topmost nodes. -/
theorem scannedNodes_numbered (rootName : Name) (f : StatsNodes) (numObjects : ℕ) :
    (scannedNodes rootName f numObjects).map (fun x => (x.objectNumber, x.node)) =
      f.numbered numObjects := by
  induction f generalizing rootName numObjects with
  | nil => rfl
  | node d c n ihc ihn => simp [scannedNodes, Forest.numbered, ihc, ihn]

/-- The counters that an initializing scan comes across. -/
def scannedCounters (rootName : Name) (f : StatsNodes) (numObjects : ℕ) :
    List (Name × StatsCounter) :=
  (scannedNodes rootName f numObjects).flatMap ScannedNode.counters

theorem scannedCounters_node (rootName : Name) (d : StatsNode) (c n : StatsNodes)
    (numObjects : ℕ) :
    scannedCounters rootName (.node d c n) numObjects =
      d.counters.map (Prod.mk (counterNameTemp numObjects (counterNamePrefix rootName d))) ++
        (scannedCounters (counterNamePrefix rootName d) c (numObjects + 1) ++
          scannedCounters rootName n (numObjects + 1 + c.width)) := by
  simp [scannedCounters, scannedNodes, ScannedNode.counters, List.flatMap_append]

/-- They are the counters of the forest. -/
@[simp] theorem map_snd_scannedCounters (rootName : Name) (f : StatsNodes) (numObjects : ℕ) :
    (scannedCounters rootName f numObjects).map Prod.snd = flat f := by
  induction f generalizing rootName numObjects with
  | nil => rfl
  | node d c n ihc ihn =>
      rw [scannedCounters_node, List.map_append, List.map_append, ihc, ihn, flat_node]
      simp

/-- The entries that an initializing scan makes when its cursor is at `numCounters`. -/
def freshEntries (numCounters : ℕ) (ks : List (Name × StatsCounter)) : List ScorepCounterData :=
  ks.mapIdx fun j x => newCounterData x.1 (numCounters + j) x.2

theorem freshEntries_append (n : ℕ) (ks ls : List (Name × StatsCounter)) :
    freshEntries n (ks ++ ls) = freshEntries n ks ++ freshEntries (n + ks.length) ls := by
  simp only [freshEntries, List.mapIdx_append]
  congr 1
  apply List.mapIdx_eq_mapIdx_iff.mpr
  intro j hj
  have hidx : n + (j + ks.length) = n + ks.length + j := by omega
  simp only [hidx]

/-- The name of an entry does not depend on its place in the list. -/
theorem map_name_freshEntries (n : ℕ) (ks : List (Name × StatsCounter)) :
    (freshEntries n ks).map ScorepCounterData.name =
      ks.map fun x => (newCounterData x.1 0 x.2).name := by
  ext j : 1
  simp only [freshEntries, List.getElem?_map, List.getElem?_mapIdx]
  cases ks[j]? <;> rfl

theorem map_record_freshEntries (n : ℕ) (ks : List (Name × StatsCounter)) :
    (freshEntries n ks).map ScorepCounterData.record = freshRecords n (ks.map Prod.snd) := by
  ext j : 1
  simp only [freshEntries, freshRecords, List.getElem?_map, List.getElem?_mapIdx]
  cases ks[j]? <;> rfl

section Node

variable {mode : Bool} {rootName : Name} {d : StatsNode} {c n : StatsNodes} {numObjects : ℕ}
  {s s₁ s₂ s₃ : ScanState} {below nLocal : ℕ}

/-- A child whose counters are scanned to the end is followed by what is below it and by
its next siblings. -/
theorem recursiveScan_node
    (h₁ : scanCounters mode (counterNameTemp numObjects (counterNamePrefix rootName d))
      d.counters s = some (false, s₁))
    (h₂ : recursiveScanCountersList mode (counterNamePrefix rootName d) c (numObjects + 1) s₁ =
      some (below, s₂))
    (h₃ : recursiveScanCountersList mode rootName n (numObjects + 1 + below) s₂ =
      some (nLocal, s₃)) :
    recursiveScanCountersList mode rootName (.node d c n) numObjects s =
      some (nLocal + 1, s₃) := by
  simp only [recursiveScanCountersList, h₁, h₂, h₃]

/-- The `goto` skips everything that is left of a list of children. -/
theorem recursiveScan_node_exit
    (h₁ : scanCounters mode (counterNameTemp numObjects (counterNamePrefix rootName d))
      d.counters s = some (true, s₁)) :
    recursiveScanCountersList mode rootName (.node d c n) numObjects s = some (0, s₁) := by
  simp only [recursiveScanCountersList, h₁]

end Node

/-! ## Initializing mode -/

/-- The loop over a node's counters appends an entry for each. -/
theorem scanCounters_init (temp : Name) (ks : List StatsCounter) (s : ScanState) :
    scanCounters true temp ks s =
      some (false, ⟨s.list ++ freshEntries s.numCounters (ks.map (Prod.mk temp)),
        s.numCounters + ks.length⟩) := by
  induction ks generalizing s with
  | nil => simp [scanCounters, freshEntries]
  | cons k ks ih =>
      have hcons := freshEntries_append s.numCounters [(temp, k)] (ks.map (Prod.mk temp))
      have hnum : s.numCounters + 1 + ks.length = s.numCounters + (k :: ks).length := by
        simp only [List.length_cons]; omega
      simp only [scanCounters, if_true, ih, List.append_assoc, hnum, List.map_cons]
      rw [← List.singleton_append (l := ks.map (Prod.mk temp)), hcons]
      rfl

/-- **The initializing scan** appends one entry for every counter, in pre-order, and returns
the number of the topmost nodes. -/
theorem recursiveScan_init (f : StatsNodes) (rootName : Name) (numObjects : ℕ) (s : ScanState) :
    recursiveScanCountersList true rootName f numObjects s =
      some (f.width, ⟨s.list ++ freshEntries s.numCounters (scannedCounters rootName f numObjects),
        s.numCounters + (flat f).length⟩) := by
  induction f generalizing rootName numObjects s with
  | nil => simp [recursiveScanCountersList, scannedCounters, scannedNodes, freshEntries,
      Forest.width]
  | node d c n ihc ihn =>
      rw [recursiveScan_node (scanCounters_init _ d.counters s) (ihc _ _ _) (ihn _ _ _),
        scannedCounters_node, freshEntries_append, freshEntries_append]
      have hlength : (scannedCounters (counterNamePrefix rootName d) c (numObjects + 1)).length =
          (flat c).length := by
        rw [← map_snd_scannedCounters (counterNamePrefix rootName d) c (numObjects + 1),
          List.length_map]
      simp only [List.length_map, hlength, flat_node, List.length_append, List.append_assoc,
        Nat.add_assoc, Forest.width]

/-! ## Update mode -/

open Overwrite

namespace ScanState

/-- What an update scan makes of the list when it comes across the counters `ks`: values
are overwritten from the cursor on, and the cursor stops at the end of the list. -/
def update (s : ScanState) (ks : List StatsCounter) : ScanState :=
  ⟨overwrite putValue s.numCounters (ks.map StatsCounter.value) s.list,
    min (s.numCounters + ks.length) s.list.length⟩

variable {s : ScanState}

@[simp] theorem length_list_update (ks : List StatsCounter) :
    (s.update ks).list.length = s.list.length := length_overwrite _ _ _ _

theorem numCounters_update_le (ks : List StatsCounter) :
    (s.update ks).numCounters ≤ (s.update ks).list.length := by
  rw [length_list_update]
  exact Nat.min_le_right _ _

theorem update_of_full (h : s.numCounters = s.list.length) (ks : List StatsCounter) :
    s.update ks = s := by
  have hlist := overwrite_of_length_le putValue (ks.map StatsCounter.value) (Nat.le_of_eq h.symm)
  have hnum : min (s.numCounters + ks.length) s.list.length = s.numCounters := by omega
  rw [update, hlist, hnum]

theorem update_nil (h : s.numCounters ≤ s.list.length) : s.update [] = s := by
  have hnum : min (s.numCounters + 0) s.list.length = s.numCounters := by omega
  simp only [update, List.map_nil, overwrite_nil, List.length_nil, hnum]

theorem update_append (ks ls : List StatsCounter) :
    s.update (ks ++ ls) = (s.update ks).update ls := by
  have hlen : (overwrite putValue s.numCounters (ks.map StatsCounter.value) s.list).length =
      s.list.length := length_overwrite _ _ _ _
  have hmin := overwrite_min_length putValue (s.numCounters + ks.length)
    (ls.map StatsCounter.value)
    (overwrite putValue s.numCounters (ks.map StatsCounter.value) s.list)
  have hnum : min (s.numCounters + (ks ++ ls).length) s.list.length =
      min (min (s.numCounters + ks.length) s.list.length + ls.length) s.list.length := by
    rw [List.length_append]; omega
  rw [hlen] at hmin
  simp only [update, hlen, hmin, hnum, List.map_append, overwrite_append, List.length_map]

end ScanState

/-- The loop over a node's counters is an update, left by the `goto` exactly when the list
is too short for it. -/
theorem scanCounters_update (temp : Name) (ks : List StatsCounter) (s : ScanState)
    (h : s.numCounters ≤ s.list.length) :
    scanCounters false temp ks s =
      some (decide (s.list.length < s.numCounters + ks.length), s.update ks) := by
  induction ks generalizing s with
  | nil =>
      rw [s.update_nil h]
      simp [scanCounters, h]
  | cons k ks ih =>
      by_cases hfull : s.list.length ≤ s.numCounters
      · have hlt : s.list.length < s.numCounters + (k :: ks).length := by
          simp only [List.length_cons]; omega
        rw [s.update_of_full (by omega)]
        simp only [scanCounters, Bool.false_eq_true, if_false, if_pos hfull, hlt, decide_true]
      · have hnum : s.numCounters < s.list.length := by omega
        have hstep : (⟨s.list.set s.numCounters (putValue k.value s.list[s.numCounters]),
            s.numCounters + 1⟩ : ScanState) = s.update [k] := by
          have hmin : min (s.numCounters + 1) s.list.length = s.numCounters + 1 := by omega
          simp [ScanState.update, overwrite_cons, hmin, List.modify_eq_set_getElem?,
            List.getElem?_eq_getElem hnum]
        have hcur : (s.update [k]).numCounters = s.numCounters + 1 := by
          rw [← hstep]
        have hidx : s.numCounters + 1 + ks.length = s.numCounters + (k :: ks).length := by
          simp only [List.length_cons]; omega
        simp only [scanCounters, Bool.false_eq_true, if_false, if_neg hfull,
          List.getElem?_eq_getElem hnum, hstep]
        rw [ih _ (ScanState.numCounters_update_le _), ← ScanState.update_append, hcur, hidx,
          ScanState.length_list_update, List.singleton_append]

/-- **The update scan** overwrites the values from the cursor on and stops at the end of
the list, whatever the `goto` of the inner calls does to the loops around them. -/
theorem recursiveScan_update (f : StatsNodes) (rootName : Name) (numObjects : ℕ) (s : ScanState)
    (h : s.numCounters ≤ s.list.length) :
    ∃ n, recursiveScanCountersList false rootName f numObjects s = some (n, s.update (flat f)) := by
  induction f generalizing rootName numObjects s with
  | nil => exact ⟨0, by rw [flat_nil, s.update_nil h]; rfl⟩
  | node d c n ihc ihn =>
      have h₁ := scanCounters_update
        (counterNameTemp numObjects (counterNamePrefix rootName d)) d.counters s h
      rw [flat_node, ScanState.update_append, ScanState.update_append]
      by_cases hexit : s.list.length < s.numCounters + d.counters.length
      · -- The cursor is at the end, so what the `goto` leaves out has no entry to go to.
        have hfull : (s.update d.counters).numCounters = (s.update d.counters).list.length := by
          rw [ScanState.length_list_update]
          exact Nat.min_eq_right (by omega)
        rw [decide_eq_true hexit] at h₁
        refine ⟨0, ?_⟩
        rw [recursiveScan_node_exit h₁, ScanState.update_of_full hfull,
          ScanState.update_of_full hfull]
      · rw [decide_eq_false hexit] at h₁
        obtain ⟨below, h₂⟩ := ihc (counterNamePrefix rootName d) (numObjects + 1)
          (s.update d.counters) (ScanState.numCounters_update_le _)
        obtain ⟨nLocal, h₃⟩ := ihn rootName (numObjects + 1 + below)
          ((s.update d.counters).update (flat c)) (ScanState.numCounters_update_le _)
        exact ⟨nLocal + 1, recursiveScan_node h₁ h₂ h₃⟩

end ScorepPluginUcx
