import ScorepPluginUcx.Lib.Blocks
import ScorepPluginUcx.MetricGrammar
import ScorepPluginUcx.ScanAgreement

/-!
# Object numbers

An initializing scan puts a number into the names of a node's counters. The number is passed
down by value and goes on by what the recursive call returns, which is the number of children
and not of all nodes below.

## Main results

* `objectNumber_newCounterData`: the number survives the nested `snprintf`s.
* `numbersNodes_iff`: when the numbers are the positions of the nodes.
-/

namespace ScorepPluginUcx

/-! ## The number in a name -/

/-- The number behind `ucx-object-` in the name of a counter. -/
def objectNumber (name : Name) : ℕ :=
  digitsValue 10 ((name.drop "ucx-object-".toList.length).takeWhile (isDigitIn 10))

/-- `snprintf` keeps the front of a text that has room. -/
theorem snprintf_append {size : ℕ} {front : Name} (h : front.length ≤ size - 1) (rest : Name) :
    ∃ kept, snprintf size (front ++ rest) = front ++ kept := by
  refine ⟨rest.take (size - 1 - front.length), ?_⟩
  rw [snprintf, List.take_append, List.take_of_length_le h]

/-- **The number in a name** is the number of the object, as a `uint64_t`. -/
theorem objectNumber_newCounterData (numObjects : ℕ) (namePrefix : Name) (numCounters : ℕ)
    (k : StatsCounter) :
    objectNumber (newCounterData (counterNameTemp numObjects namePrefix) numCounters k).name =
      numObjects % 2 ^ 64 := by
  have hsize : sizeT numObjects = numObjects % 2 ^ 64 := by rw [sizeT]; omega
  have hdigits : ∀ c ∈ Nat.toDigits 10 (sizeT numObjects), isDigitIn 10 c :=
    (numeral_toDigits (sizeT numObjects)).isDigit
  have hlength : (Nat.toDigits 10 (sizeT numObjects)).length ≤ 20 :=
    (Nat.length_toDigits_le_iff (by decide) (by decide)).mpr (by omega)
  have hfront : ("ucx-object-".toList ++ Nat.toDigits 10 (sizeT numObjects) ++ ['-']).length ≤
      counterNamePrefixMaxSize - 1 := by
    have helen : "ucx-object-".toList.length = 11 := rfl
    simp only [List.length_append, List.length_singleton, helen, counterNamePrefixMaxSize]
    omega
  obtain ⟨kept, htemp⟩ := snprintf_append hfront namePrefix
  obtain ⟨kept', hname⟩ := snprintf_append hfront (kept ++ ['-'] ++ k.name)
  have hcounter : (newCounterData (counterNameTemp numObjects namePrefix) numCounters k).name =
      "ucx-object-".toList ++ (Nat.toDigits 10 (sizeT numObjects) ++ '-' :: kept') := by
    rw [newCounterData, counterNameTemp, htemp]
    simpa using hname
  have hspan := Span.takeWhile_append (l := '-' :: kept') hdigits (by simp [isDigitIn_ten_iff])
  rw [objectNumber, hcounter, List.drop_left, hspan, digitsValue_toDigits (by decide) (by decide),
    hsize]

/-! ## Numbers and positions -/

/-- For every counter, in pre-order, the position of its node among the nodes. -/
def nodePositions (f : StatsNodes) : List ℕ :=
  (f.preorder.mapIdx fun i d => d.counters.map fun _ => i).flatten

/-- An initializing scan numbers the nodes of a tree by their positions: the number in the
name of a counter is the position of its node below the root. -/
def NumbersNodes (T : StatsRoot) : Prop :=
  ∃ list, scanCountersList [T] [] true = some list ∧
    (list.map ScorepCounterData.name).map objectNumber = nodePositions T.children

/-- Whether a node has counters. -/
def StatsNode.hasCounters (d : StatsNode) : Bool := d.counters ≠ []

/-- The numbers in the names, node by node. -/
theorem map_objectNumber_freshEntries (rootName : Name) (f : StatsNodes) (numCounters : ℕ) :
    ((freshEntries numCounters (scannedCounters rootName f 0)).map
        ScorepCounterData.name).map objectNumber =
      ((f.numbered 0).mapIdx fun _ x => x.2.counters.map fun _ => x.1 % 2 ^ 64).flatten := by
  have hnodes : ((f.numbered 0).mapIdx fun _ x => x.2.counters.map fun _ => x.1 % 2 ^ 64) =
      (scannedNodes rootName f 0).map fun x =>
        x.node.counters.map fun _ => x.objectNumber % 2 ^ 64 := by
    rw [← scannedNodes_numbered rootName f 0]
    ext i : 1
    simp only [List.getElem?_mapIdx, List.getElem?_map]
    cases (scannedNodes rootName f 0)[i]? <;> rfl
  rw [hnodes, map_name_freshEntries, List.map_map, scannedCounters, List.map_flatMap,
    List.flatMap_def]
  congr 1
  apply List.map_congr_left
  intro x _
  rw [ScannedNode.counters, List.map_map]
  apply List.map_congr_left
  intro k _
  exact objectNumber_newCounterData x.objectNumber x.namePrefix 0 k

/-- **The numbers are the positions** exactly when no node with counters comes, among the
later siblings of a node with grandchildren and below these, and all nodes with counters are
among the first `2 ^ 64`. -/
theorem numbersNodes_iff (T : StatsRoot) :
    NumbersNodes T ↔ T.children.Counted StatsNode.hasCounters ∧
      ∀ i d, T.children.preorder[i]? = some d → d.hasCounters → i < 2 ^ 64 := by
  have hpositions : nodePositions T.children =
      ((T.children.numbered 0).mapIdx fun i x => x.2.counters.map fun _ => i).flatten := by
    rw [nodePositions, ← Forest.map_snd_numbered 0]
    congr 1
    ext i : 1
    simp only [List.getElem?_mapIdx, List.getElem?_map]
    cases (T.children.numbered 0)[i]? <;> rfl
  have hscan : NumbersNodes T ↔ ∀ i x, (T.children.numbered 0)[i]? = some x →
      x.2.hasCounters → x.1 % 2 ^ 64 = i := by
    have hblocks := Blocks.flatten_mapIdx_eq_iff (T.children.numbered 0)
      (fun _ x => x.2.counters.map fun _ => x.1 % 2 ^ 64)
      (fun i x => x.2.counters.map fun _ => i) (by simp)
    rw [NumbersNodes, scanCountersList_init_eq, List.nil_append, hpositions]
    simp only [Option.some.injEq, exists_eq_left', map_objectNumber_freshEntries, hblocks,
      StatsNode.hasCounters, decide_eq_true_eq]
    refine forall_congr' fun i => forall_congr' fun x => imp_congr_right fun _ => ?_
    cases x.2.counters with
    | nil => simp
    | cons k ks => simpa using fun h => Or.inr h
  rw [hscan, ← Forest.numberedFrom_iff _ 0]
  constructor
  · intro h
    have hboth : ∀ i x, (T.children.numbered 0)[i]? = some x → x.2.hasCounters →
        x.1 = 0 + i ∧ i < 2 ^ 64 := by
      intro i x hi hx
      have hle := Forest.numbered_le hi
      have hmod := h i x hi hx
      have hlt : x.1 % 2 ^ 64 < 2 ^ 64 := Nat.mod_lt _ (by decide)
      have hmodle : x.1 % 2 ^ 64 ≤ x.1 := Nat.mod_le _ _
      omega
    refine ⟨fun i x hi hx => (hboth i x hi hx).1, ?_⟩
    intro i d hi hd
    rw [← Forest.map_snd_numbered 0, List.getElem?_map] at hi
    rcases Option.map_eq_some_iff.mp hi with ⟨x, hx, rfl⟩
    exact (hboth i x hx hd).2
  · rintro ⟨hnumbered, hfits⟩ i x hi hx
    have heq := hnumbered i x hi hx
    have hlt := hfits i x.2 (by rw [← Forest.map_snd_numbered 0, List.getElem?_map, hi]; rfl) hx
    rw [heq, Nat.zero_add, Nat.mod_eq_of_lt hlt]

/-- A node with one counter. -/
def oneCounterNode (clsName : String) (children next : StatsNodes) : StatsNodes :=
  .node ⟨clsName.toList, [⟨"tx".toList, 0⟩]⟩ children next

/-- A node with a grandchild, and a sibling behind it. -/
def grandchildAndSibling : StatsRoot where
  node := ⟨"root".toList, []⟩
  children := oneCounterNode "a" (oneCounterNode "b" (oneCounterNode "c" .nil .nil) .nil)
    (oneCounterNode "d" .nil .nil)

/-- The sibling gets the number of the grandchild. -/
theorem grandchild_not_numbersNodes :
    (∃ list, scanCountersList [grandchildAndSibling] [] true = some list ∧
      (list.map ScorepCounterData.name).map objectNumber = [0, 1, 2, 2]) ∧
      ¬ NumbersNodes grandchildAndSibling := by
  have hnumbers : ∃ list, scanCountersList [grandchildAndSibling] [] true = some list ∧
      (list.map ScorepCounterData.name).map objectNumber = [0, 1, 2, 2] := ⟨_, rfl, by decide⟩
  refine ⟨hnumbers, ?_⟩
  intro h
  obtain ⟨list', hscan', hpositions⟩ := h
  rcases hnumbers with ⟨list, hscan, hlist⟩
  obtain rfl : list = list' := Option.some.inj (hscan.symm.trans hscan')
  exact absurd (hlist.symm.trans hpositions) (by decide)

end ScorepPluginUcx
