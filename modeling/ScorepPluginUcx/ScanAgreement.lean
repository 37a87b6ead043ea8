import ScorepPluginUcx.Sampling.Scan

/-!
# Scans of one tree, of a later one, and of several

An initializing scan makes one entry for each counter below the head of the roots, and an
update scan of a later tree writes its counters into these entries by position.

## Main results

* `scanCountersList_init`, `scanCountersList_update`: the two modes on a list of roots.
* `scan_agree`: the entries after an initializing scan and a later update scan.
* `coversRoots_iff`: when the initializing scan covers all roots.
-/

namespace ScorepPluginUcx

open Overwrite

/-- An initializing scan appends the entries of the first tree. -/
theorem scanCountersList_init_eq (root : StatsRoot) (roots : List StatsRoot)
    (list : List ScorepCounterData) :
    scanCountersList (root :: roots) list true =
      some (list ++ freshEntries 0 (scannedCounters "cnt".toList root.children 0)) := by
  rw [scanCountersList, recursiveScan_init]
  rfl

/-- An initializing scan appends the records of the first tree. -/
theorem scanCountersList_init (root : StatsRoot) (roots : List StatsRoot)
    (list : List ScorepCounterData) :
    ∃ es, scanCountersList (root :: roots) list true = some (list ++ es) ∧
      es.map ScorepCounterData.record = freshRecords 0 (flat root.children) := by
  refine ⟨_, scanCountersList_init_eq root roots list, ?_⟩
  rw [map_record_freshEntries, map_snd_scannedCounters]

/-- An update scan overwrites the values of the list with those of the first tree. -/
theorem scanCountersList_update (root : StatsRoot) (roots : List StatsRoot)
    (list : List ScorepCounterData) :
    scanCountersList (root :: roots) list false =
      some (overwrite putValue 0 ((flat root.children).map StatsCounter.value) list) := by
  obtain ⟨n, hscan⟩ := recursiveScan_update root.children "cnt".toList 0 ⟨list, 0⟩
    (Nat.zero_le _)
  rw [scanCountersList, hscan]
  rfl

/-- Entry `j` after an update scan. -/
theorem getElem?_overwrite_putValue (ks : List StatsCounter) (list : List ScorepCounterData)
    (j : ℕ) :
    (overwrite putValue 0 (ks.map StatsCounter.value) list)[j]? =
      list[j]?.map fun e => { e with value := (ks[j]?.map StatsCounter.value).getD e.value } := by
  have h := getElem?_overwrite_add putValue 0 j (ks.map StatsCounter.value) list
  rw [Nat.zero_add] at h
  rw [h]
  cases hk : ks[j]? <;> cases list[j]? <;> simp [putValue, hk]

/-- The values after an update scan: the new ones as far as they and the list go. -/
theorem map_value_overwrite (ks : List StatsCounter) (list : List ScorepCounterData)
    (h : list.length ≤ ks.length) :
    (overwrite putValue 0 (ks.map StatsCounter.value) list).map ScorepCounterData.value =
      (ks.take list.length).map StatsCounter.value := by
  ext j : 1
  rw [List.getElem?_map, List.getElem?_map, getElem?_overwrite_putValue]
  by_cases hj : j < list.length
  · have hk : j < ks.length := by omega
    simp [List.getElem?_eq_getElem hk, hj]
  · simp [hj]

/-- Entry `j` of fresh records. -/
theorem getElem?_freshRecords (ks : List StatsCounter) (j : ℕ) :
    (freshRecords 0 ks)[j]? = ks[j]?.map fun k => (j % 2 ^ 32, 0, k.value, noPrevValue) := by
  have hid : uint32 (j : ℤ) = j % 2 ^ 32 := by rw [uint32]; omega
  simp [freshRecords, hid]

/-- The values of entries with fresh records. -/
theorem map_value_of_freshRecords {list : List ScorepCounterData} {ks : List StatsCounter}
    (h : list.map ScorepCounterData.record = freshRecords 0 ks) :
    list.map ScorepCounterData.value = ks.map StatsCounter.value := by
  have hvalues := congrArg (List.map fun record => record.2.2.1) h
  rw [List.map_map] at hvalues
  apply hvalues.trans
  ext j : 1
  rw [List.getElem?_map, getElem?_freshRecords, List.getElem?_map]
  cases ks[j]? <;> rfl

/-- The trees have the same shape: the same nodes in the same places, each with as many
counters. -/
def SameShape (T T' : StatsRoot) : Prop :=
  (T.children.map fun d => d.counters.length) = T'.children.map fun d => d.counters.length

theorem SameShape.length_flat {T T' : StatsRoot} (h : SameShape T T') :
    (flat T.children).length = (flat T'.children).length := by
  have hpre := congrArg (fun f => (Forest.preorder f).sum) h
  simpa [flat, List.length_flatMap] using hpre

/-- **The initial scan and the update scan agree.** The first makes an entry for each counter
of `T`; the second stays within the list and changes nothing but the values, which become
those of `T'` as far as both go; and for the same shape they are those of a fresh scan. -/
theorem scan_agree (T T' : StatsRoot) :
    ∃ list list', scanCountersList [T] [] true = some list ∧
      scanCountersList [T'] list false = some list' ∧
      list.length = (flat T.children).length ∧
      (∀ (j : ℕ) (k : StatsCounter), (flat T.children)[j]? = some k → ∃ e, list[j]? = some e ∧
        e.scorepCounterId = j % 2 ^ 32 ∧ e.value = k.value ∧ e.prevValue = noPrevValue) ∧
      list'.length = list.length ∧
      (∀ (j : ℕ) (e : ScorepCounterData), list[j]? = some e → list'[j]? =
        some { e with value := ((flat T'.children)[j]?.map StatsCounter.value).getD e.value }) ∧
      (SameShape T T' → ∀ fresh, scanCountersList [T'] [] true = some fresh →
        list'.map ScorepCounterData.value = fresh.map ScorepCounterData.value) := by
  rcases scanCountersList_init T [] [] with ⟨list, hinit, hrecords⟩
  rw [List.nil_append] at hinit
  have hlength : list.length = (flat T.children).length := by
    have hlen := congrArg List.length hrecords
    simpa [freshRecords] using hlen
  refine ⟨list, _, hinit, scanCountersList_update T' [] list, hlength, ?_, ?_, ?_, ?_⟩
  · intro j k hk
    have hj := congrArg (fun records => records[j]?) hrecords
    simp only [List.getElem?_map, getElem?_freshRecords, hk, Option.map_some] at hj
    rcases Option.map_eq_some_iff.mp hj with ⟨e, he, hrecord⟩
    simp only [ScorepCounterData.record, Prod.mk.injEq] at hrecord
    exact ⟨e, he, hrecord.1, hrecord.2.2.1, hrecord.2.2.2⟩
  · exact length_overwrite _ _ _ _
  · intro j e he
    rw [getElem?_overwrite_putValue, he]
    rfl
  · intro hshape fresh hfresh
    rcases scanCountersList_init T' [] [] with ⟨fresh', hinit', hrecords'⟩
    rw [List.nil_append] at hinit'
    obtain rfl : fresh = fresh' := Option.some.inj (hfresh.symm.trans hinit')
    have hsame : list.length = (flat T'.children).length := hlength.trans hshape.length_flat
    rw [map_value_overwrite _ _ (Nat.le_of_eq hsame), hsame, List.take_length,
      map_value_of_freshRecords hrecords']

/-! ## Several roots -/

/-- An initializing scan appends the records of all trees, in the order of the roots. -/
def CoversRoots (stats : List StatsRoot) : Prop :=
  ∀ list, ∃ es, scanCountersList stats list true = some (list ++ es) ∧
    es.map ScorepCounterData.record = freshRecords 0 (stats.flatMap fun root => flat root.children)

theorem not_coversRoots_nil : ¬ CoversRoots [] := by
  intro h
  obtain ⟨es, hscan, _⟩ := h []
  cases hscan

theorem coversRoots_cons_iff (root : StatsRoot) (roots : List StatsRoot) :
    CoversRoots (root :: roots) ↔ ∀ other ∈ roots, flat other.children = [] := by
  rw [← List.flatMap_eq_nil_iff]
  constructor
  · intro h
    rcases h [] with ⟨es, hscan, hes⟩
    rcases scanCountersList_init root roots [] with ⟨es', hscan', hes'⟩
    obtain rfl : es = es' := by simpa using hscan.symm.trans hscan'
    have hlen := congrArg List.length (hes.symm.trans hes')
    simp only [freshRecords, List.length_mapIdx, List.flatMap_cons, List.length_append] at hlen
    exact List.length_eq_zero_iff.mp (by omega)
  · intro h list
    rcases scanCountersList_init root roots list with ⟨es, hscan, hes⟩
    refine ⟨es, hscan, ?_⟩
    rw [List.flatMap_cons, h, List.append_nil]
    exact hes

/-- **The scan covers every root** exactly when there is one and no tree behind the first
has a counter. -/
theorem coversRoots_iff (stats : List StatsRoot) :
    CoversRoots stats ↔ stats ≠ [] ∧ ∀ root ∈ stats.tail, flat root.children = [] := by
  cases stats with
  | nil => simp [not_coversRoots_nil]
  | cons root roots => simp [coversRoots_cons_iff]

/-- A process with one object, which has one counter. -/
def oneCounterRoot (value : UInt64) : StatsRoot where
  node := ⟨"root".toList, []⟩
  children := .node ⟨"ep".toList, [⟨"tx".toList, value⟩]⟩ .nil .nil

/-- The second of two reporting processes is lost, and without a report the scan goes to the
head of an empty list. -/
theorem second_root_lost :
    ¬ CoversRoots [oneCounterRoot 1, oneCounterRoot 2] ∧ ¬ CoversRoots [] := by
  refine ⟨?_, not_coversRoots_nil⟩
  intro h
  have hnone := (coversRoots_cons_iff _ _).mp h (oneCounterRoot 2) (by simp)
  simp [oneCounterRoot] at hnone

end ScorepPluginUcx
