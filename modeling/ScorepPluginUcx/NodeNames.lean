import ScorepPluginUcx.Lib.Blocks
import ScorepPluginUcx.ScanAgreement

/-!
# Names of the counters of one node

A name is made in three steps, each of which keeps 511 characters: the classes on the way to the
node, the number of the object in front of them, and the name of the counter behind. What the
steps cut off, one cut at the end cuts off as well, so that only the length of the whole text in
front of the counter's name decides how much of it is kept.

## Main definitions

* `nodeTexts`: the nodes of a tree, each with the uncut text in front of its counters' names.
* `nodeNames`: the part of the counters list that belongs to a node.

## Main results

* `nodeNames_scan`: the names that an initializing scan makes for a node.
* `distinctNodeNames_iff`: when they are distinct.
-/

namespace ScorepPluginUcx

/-! ## One cut instead of three -/

/-- What was cut off in front is cut off again. -/
theorem snprintf_snprintf_append (size : ℕ) (s t : Name) :
    snprintf size (snprintf size s ++ t) = snprintf size (s ++ t) := by
  simp only [snprintf, List.take_append, List.take_take, Nat.min_self, List.length_take]
  congr 2
  omega

/-- What was cut off behind is cut off again. -/
theorem snprintf_append_snprintf (size : ℕ) (s t : Name) :
    snprintf size (s ++ snprintf size t) = snprintf size (s ++ t) := by
  simp only [snprintf, List.take_append, List.take_take]
  congr 2
  omega

/-- The number of an object, as it stands in a name. -/
def objectText (numObjects : ℕ) : Name :=
  "ucx-object-".toList ++ Nat.toDigits 10 (sizeT numObjects) ++ ['-']

/-- The text in front of the names of a node's counters: the number of the object and the
classes on the way to the node, `path` included. -/
def nodeText (numObjects : ℕ) (path : Name) : Name := objectText numObjects ++ path ++ ['-']

/-- The classes on the way to a node. -/
def nodePath (path : Name) (dataNode : StatsNode) : Name := path ++ ['-'] ++ dataNode.clsName

theorem counterNamePrefix_snprintf (path : Name) (dataNode : StatsNode) :
    counterNamePrefix (snprintf counterNamePrefixMaxSize path) dataNode =
      snprintf counterNamePrefixMaxSize (nodePath path dataNode) := by
  simp only [counterNamePrefix, nodePath, List.append_assoc, snprintf_snprintf_append]

/-- **The name of a counter** is the uncut text with the name behind it, cut once. -/
theorem name_newCounterData (numObjects numCounters : ℕ) (path : Name) (k : StatsCounter) :
    (newCounterData (counterNameTemp numObjects (snprintf counterNamePrefixMaxSize path))
      numCounters k).name =
        snprintf counterNamePrefixMaxSize (nodeText numObjects path ++ k.name) := by
  have htemp : counterNameTemp numObjects (snprintf counterNamePrefixMaxSize path) =
      snprintf counterNamePrefixMaxSize (objectText numObjects ++ path) :=
    snprintf_append_snprintf counterNamePrefixMaxSize (objectText numObjects) path
  rw [newCounterData, htemp, List.append_assoc, snprintf_snprintf_append, nodeText]
  simp only [List.append_assoc]

/-! ## The names of a node -/

/-- The nodes in pre-order, each with the text in front of the names of its counters. The
numbers of the objects are those of the scan. -/
def nodeTexts : Name → StatsNodes → ℕ → List (Name × StatsNode)
  | _, .nil, _ => []
  | path, .node dataNode children next, numObjects =>
      (nodeText numObjects (nodePath path dataNode), dataNode) ::
        (nodeTexts (nodePath path dataNode) children (numObjects + 1) ++
          nodeTexts path next (numObjects + 1 + children.width))

@[simp] theorem map_snd_nodeTexts (path : Name) (f : StatsNodes) (numObjects : ℕ) :
    (nodeTexts path f numObjects).map Prod.snd = f.preorder := by
  induction f generalizing path numObjects with
  | nil => rfl
  | node d c n ihc ihn => simp [nodeTexts, ihc, ihn]

/-- The names of the counters of a node with this text in front of them. -/
def cutNames (x : Name × StatsNode) : List Name :=
  x.2.counters.map fun k => snprintf counterNamePrefixMaxSize (x.1 ++ k.name)

/-- The names that an initializing scan makes, node by node. -/
theorem map_name_scannedCounters (path : Name) (f : StatsNodes) (numObjects : ℕ) :
    ((scannedCounters (snprintf counterNamePrefixMaxSize path) f numObjects).map fun x =>
        (newCounterData x.1 0 x.2).name) = (nodeTexts path f numObjects).flatMap cutNames := by
  induction f generalizing path numObjects with
  | nil => rfl
  | node d c n ihc ihn =>
      rw [scannedCounters_node, counterNamePrefix_snprintf, List.map_append, List.map_append, ihc,
        ihn, nodeTexts, List.flatMap_cons, List.flatMap_append, List.map_map]
      congr 1
      exact List.map_congr_left fun k _ => name_newCounterData numObjects 0 _ k

/-- The nodes of a tree, each with the text in front of the names of its counters. -/
def StatsRoot.nodeTexts (T : StatsRoot) : List (Name × StatsNode) :=
  ScorepPluginUcx.nodeTexts "cnt".toList T.children 0

/-- The names in the counters list that belong to the node at a position in pre-order: they
stand behind those of the nodes before it. -/
def nodeNames (T : StatsRoot) (position : ℕ) (dataNode : StatsNode)
    (list : List ScorepCounterData) : List Name :=
  ((list.map ScorepCounterData.name).drop
    ((T.children.preorder.take position).flatMap StatsNode.counters).length).take
      dataNode.counters.length

/-- **The names of a node** after an initializing scan. -/
theorem nodeNames_scan {T : StatsRoot} {position : ℕ} {x : Name × StatsNode}
    (hnode : T.nodeTexts[position]? = some x) :
    ∃ list, scanCountersList [T] [] true = some list ∧
      nodeNames T position x.2 list = cutNames x := by
  refine ⟨_, scanCountersList_init_eq T [] [], ?_⟩
  have hnames : (freshEntries 0 (scannedCounters "cnt".toList T.children 0)).map
      ScorepCounterData.name = T.nodeTexts.flatMap cutNames := by
    rw [map_name_freshEntries]
    exact map_name_scannedCounters "cnt".toList T.children 0
  have hbefore : ((T.children.preorder.take position).flatMap StatsNode.counters).length =
      ((T.nodeTexts.take position).flatMap cutNames).length := by
    rw [← map_snd_nodeTexts "cnt".toList T.children 0, ← List.map_take, List.flatMap_map,
      List.length_flatMap, List.length_flatMap]
    simp only [cutNames, List.length_map]
    rfl
  have hown : x.2.counters.length = (cutNames x).length := by
    rw [cutNames, List.length_map]
  rw [nodeNames, List.nil_append, hnames, hbefore, hown]
  exact Blocks.block_eq cutNames hnode

/-! ## Distinct names -/

/-- An initializing scan makes distinct names for the counters of a node. -/
def DistinctNodeNames (T : StatsRoot) (position : ℕ) (dataNode : StatsNode) : Prop :=
  ∃ list, scanCountersList [T] [] true = some list ∧ (nodeNames T position dataNode list).Nodup

/-- How many characters of a counter's name are kept behind a text. -/
def nameRoom (text : Name) : ℕ := counterNamePrefixMaxSize - 1 - text.length

/-- A class name that fills the buffer leaves no room behind it. -/
theorem nameRoom_eq_zero (numObjects : ℕ) (path : Name) {dataNode : StatsNode}
    (hlength : counterNamePrefixMaxSize - 1 ≤ dataNode.clsName.length) :
    nameRoom (nodeText numObjects (nodePath path dataNode)) = 0 := by
  rw [nameRoom, Nat.sub_eq_zero_iff_le]
  simp only [nodeText, nodePath, List.length_append]
  omega

theorem cutNames_eq (x : Name × StatsNode) :
    cutNames x = (x.2.counters.map fun k => k.name.take (nameRoom x.1)).map
      (x.1.take (counterNamePrefixMaxSize - 1) ++ ·) := by
  rw [cutNames, List.map_map]
  apply List.map_congr_left
  intro k _
  rw [snprintf, List.take_append]
  rfl

/-- **The names of a node's counters are distinct** exactly when the names in the class still
are when they are cut to what the text in front of them leaves of 511 characters. -/
theorem distinctNodeNames_iff {T : StatsRoot} {position : ℕ} {x : Name × StatsNode}
    (hnode : T.nodeTexts[position]? = some x) :
    DistinctNodeNames T position x.2 ↔
      (x.2.counters.map fun k => k.name.take (nameRoom x.1)).Nodup := by
  obtain ⟨list, hscan, hnames⟩ := nodeNames_scan hnode
  have hnodup : (nodeNames T position x.2 list).Nodup ↔
      (x.2.counters.map fun k => k.name.take (nameRoom x.1)).Nodup := by
    rw [hnames, cutNames_eq, List.nodup_map_iff (List.append_right_injective _)]
  rw [← hnodup]
  constructor
  · intro h
    obtain ⟨list', hscan', hnodup'⟩ := h
    obtain rfl : list = list' := Option.some.inj (hscan.symm.trans hscan')
    exact hnodup'
  · intro h
    exact ⟨list, hscan, h⟩

/-- A node with two counters. -/
def twoCounterNode (clsName : Name) : StatsNode := ⟨clsName, [⟨"tx".toList, 0⟩, ⟨"rx".toList, 0⟩]⟩

/-- A tree with one such node below the root. -/
def twoCounterTree (clsName : Name) : StatsRoot where
  node := ⟨"root".toList, []⟩
  children := .node (twoCounterNode clsName) .nil .nil

/-- A class name of the usual length. -/
theorem distinctNodeNames_ep :
    DistinctNodeNames (twoCounterTree "ep".toList) 0 (twoCounterNode "ep".toList) :=
  (distinctNodeNames_iff (x := (nodeText 0 "cnt-ep".toList, twoCounterNode "ep".toList)) rfl).mpr
    (by decide)

/-- A class name that fills the buffer: the names of the two counters are the same. -/
theorem longClass_not_distinctNodeNames :
    ((twoCounterNode (List.replicate 511 'a')).counters.map StatsCounter.name).Nodup ∧
      ¬ DistinctNodeNames (twoCounterTree (List.replicate 511 'a')) 0
        (twoCounterNode (List.replicate 511 'a')) := by
  refine ⟨by decide, ?_⟩
  intro h
  obtain ⟨list, hscan, hnodup⟩ := h
  have hnode : (twoCounterTree (List.replicate 511 'a')).nodeTexts[0]? =
      some (nodeText 0 (nodePath "cnt".toList (twoCounterNode (List.replicate 511 'a'))),
        twoCounterNode (List.replicate 511 'a')) := rfl
  obtain ⟨list', hscan', hnames⟩ := nodeNames_scan hnode
  obtain rfl : list = list' := Option.some.inj (hscan.symm.trans hscan')
  have hroom : nameRoom (nodeText 0 (nodePath "cnt".toList
      (twoCounterNode (List.replicate 511 'a')))) = 0 :=
    nameRoom_eq_zero _ _ (Nat.le_of_eq List.length_replicate.symm)
  rw [hnames, cutNames_eq, hroom, List.nodup_map_iff (List.append_right_injective _)] at hnodup
  exact absurd hnodup (by decide)

end ScorepPluginUcx
