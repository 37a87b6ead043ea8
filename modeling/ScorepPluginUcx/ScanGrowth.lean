import ScorepPluginUcx.Lib.Front
import ScorepPluginUcx.ScanAgreement

/-!
# Scans of a growing tree

Between two scans UCX may add nodes. The entries of the list are bound to counters by their
position in pre-order, and so an entry keeps to its counter only while nothing is inserted
before it.

A growth is one tree that says of each node whether it was added and of each counter what
it was and is; the tree before and the tree after are read off.

## Main results

* `keepsValues_iff_take`: an update after a growth, by position.
* `keepsValues_iff`: when every entry keeps to its counter, for all values.
-/

namespace ScorepPluginUcx

/-- A counter of a growing tree, with its values in the two scans. -/
structure GrownCounter where
  name : Name
  valueBefore : UInt64
  valueAfter : UInt64
  deriving DecidableEq

/-- A node of a growing tree. -/
structure GrownNode where
  added : Bool
  clsName : Name
  counters : List GrownCounter

namespace GrownNode

/-- The node in the first scan, if it is there. -/
def before (x : GrownNode) : Option StatsNode :=
  if x.added then none
  else some ⟨x.clsName, x.counters.map fun k => ⟨k.name, k.valueBefore⟩⟩

/-- The node in the second scan. -/
def after (x : GrownNode) : StatsNode :=
  ⟨x.clsName, x.counters.map fun k => ⟨k.name, k.valueAfter⟩⟩

/-- The counters of a node, each with whether the node was added. -/
def marked (x : GrownNode) : List (Bool × GrownCounter) := x.counters.map (Prod.mk x.added)

/-- Either all counters of a node are old or none is. -/
theorem filter_marked (x : GrownNode) :
    (x.marked.filter fun y => !y.1) = if x.added then [] else x.marked := by
  cases hadded : x.added <;> simp [marked, hadded]

/-- What remains of a node when the values are forgotten. -/
def shape (x : GrownNode) : Bool × Name × List Name :=
  (x.added, x.clsName, x.counters.map GrownCounter.name)

end GrownNode

/-- A growing list of nodes. -/
abbrev Growth := Forest GrownNode

namespace Growth

/-- The tree of the first scan. -/
def before (g : Growth) : StatsNodes := (g.map fun x => (x.before, x.after)).before

/-- The tree of the second scan. -/
def after (g : Growth) : StatsNodes := (g.map fun x => (x.before, x.after)).after

/-- All counters of the second scan in pre-order. -/
def marked (g : Growth) : List (Bool × GrownCounter) := g.preorder.flatMap GrownNode.marked

/-- The counters that the first scan finds. -/
def old (g : Growth) : List (Bool × GrownCounter) := g.marked.filter fun x => !x.1

theorem flat_before (g : Growth) :
    flat g.before = g.old.map fun x => ⟨x.2.name, x.2.valueBefore⟩ := by
  have hnode : ∀ xs : List GrownNode,
      (xs.filterMap GrownNode.before).flatMap StatsNode.counters =
        ((xs.flatMap GrownNode.marked).filter fun x => !x.1).map
          fun x => ⟨x.2.name, x.2.valueBefore⟩ := by
    intro xs
    induction xs with
    | nil => rfl
    | cons x xs ih =>
        rw [List.flatMap_cons, List.filter_append, List.map_append, ← ih]
        rw [GrownNode.filter_marked]
        cases hadded : x.added <;> simp [GrownNode.before, GrownNode.marked, hadded]
  rw [flat, before, Forest.preorder_before, Forest.preorder_map, List.filterMap_map]
  exact hnode g.preorder

theorem flat_after (g : Growth) :
    flat g.after = g.marked.map fun x => ⟨x.2.name, x.2.valueAfter⟩ := by
  rw [flat, after, Forest.preorder_after, Forest.preorder_map, List.map_map, List.flatMap_map,
    marked, List.map_flatMap]
  apply congrArg (List.flatMap · g.preorder)
  ext x : 1
  simp [GrownNode.after, GrownNode.marked, Function.comp_def]

/-- Every entry made for a counter of the first scan holds, after the update, the value that
this counter then has. -/
def KeepsValues (g : Growth) (root : StatsNode) : Prop :=
  ∃ list list', scanCountersList [⟨root, g.before⟩] [] true = some list ∧
    scanCountersList [⟨root, g.after⟩] list false = some list' ∧
    list'.map ScorepCounterData.value = g.old.map fun x => x.2.valueAfter

/-- The update takes the values by position: the first ones in pre-order, whosever they are. -/
theorem keepsValues_iff_take (g : Growth) (root : StatsNode) :
    KeepsValues g root ↔
      (g.marked.take g.old.length).map (fun x => x.2.valueAfter) =
        g.old.map fun x => x.2.valueAfter := by
  rcases scanCountersList_init ⟨root, g.before⟩ [] [] with ⟨list, hinit, hrecords⟩
  rw [List.nil_append] at hinit
  have hupdate := scanCountersList_update ⟨root, g.after⟩ [] list
  have hlength : list.length = g.old.length := by
    have hlen := congrArg List.length hrecords
    simpa [freshRecords, flat_before] using hlen
  have hle : list.length ≤ (flat g.after).length := by
    rw [hlength, flat_after, List.length_map]
    exact List.length_filter_le _ _
  have hvalues := map_value_overwrite (flat g.after) list hle
  have htaken : ((flat g.after).take list.length).map StatsCounter.value =
      (g.marked.take g.old.length).map fun x => x.2.valueAfter := by
    rw [flat_after, hlength, ← List.map_take, List.map_map]
    rfl
  constructor
  · intro h
    obtain ⟨list₁, list₂, hinit₁, hupdate₂, hkeep⟩ := h
    obtain rfl : list = list₁ := Option.some.inj (hinit.symm.trans hinit₁)
    obtain rfl := Option.some.inj (hupdate.symm.trans hupdate₂)
    rw [← hkeep, ← htaken]
    exact hvalues.symm
  · intro htake
    refine ⟨list, _, hinit, hupdate, ?_⟩
    rw [← htake, ← htaken]
    exact hvalues

/-! ## Where nodes may be added -/

/-- No added counter stands before an old one in pre-order. -/
def AddedBehind (g : Growth) : Prop := g.marked.Pairwise fun x y => !y.1 → !x.1

/-! ### Forgetting the values -/

/-- Which counters are old is a matter of the shape. -/
theorem map_fst_marked (g : Growth) :
    g.marked.map Prod.fst =
      (g.map GrownNode.shape).preorder.flatMap fun s => s.2.2.map fun _ => s.1 := by
  rw [marked, Forest.preorder_map, List.map_flatMap, List.flatMap_map]
  apply congrArg (List.flatMap · g.preorder)
  ext x : 1
  simp [GrownNode.marked, GrownNode.shape, Function.comp_def]

theorem addedBehind_congr {g h : Growth} (hshape : h.map GrownNode.shape = g.map GrownNode.shape) :
    AddedBehind h ↔ AddedBehind g := by
  have hpairs : ∀ g : Growth,
      AddedBehind g ↔ (g.marked.map Prod.fst).Pairwise fun a b => !b → !a := by
    intro g
    rw [List.pairwise_map, AddedBehind]
  rw [hpairs, hpairs, map_fst_marked, map_fst_marked, hshape]

/-- The same growth with 1 in the added counters and 0 in the old ones. -/
def telling (g : Growth) : Growth :=
  g.map fun x => { x with
    counters := x.counters.map fun k => { k with valueAfter := if x.added then 1 else 0 } }

theorem shape_telling (g : Growth) : g.telling.map GrownNode.shape = g.map GrownNode.shape := by
  rw [telling, Forest.map_map]
  congr 1
  ext x : 1
  simp [GrownNode.shape, Function.comp_def]

theorem marked_telling (g : Growth) :
    ∀ x ∈ g.telling.marked, x.2.valueAfter = if x.1 then 1 else 0 := by
  intro x hx
  rw [marked, telling, Forest.preorder_map, List.flatMap_map] at hx
  rcases List.mem_flatMap.mp hx with ⟨y, _, hxy⟩
  simp only [GrownNode.marked, List.map_map, List.mem_map, Function.comp_apply] at hxy
  obtain ⟨k, _, rfl⟩ := hxy
  rfl

/-- **Values stay with their counters**, whatever the values are, exactly when no added
counter stands before an old one. -/
theorem keepsValues_iff (g : Growth) (root : StatsNode) :
    (∀ h : Growth, h.map GrownNode.shape = g.map GrownNode.shape → KeepsValues h root) ↔
      AddedBehind g := by
  constructor
  · intro hall
    have hkeep := (keepsValues_iff_take g.telling root).mp (hall g.telling g.shape_telling)
    rw [← addedBehind_congr g.shape_telling]
    apply Front.pairwise_of_take_filter
    intro x hx
    -- The value of a counter tells whether it is old, and the update has written zeros only.
    have hvalue : x.2.valueAfter ∈ g.telling.old.map fun y => y.2.valueAfter := by
      rw [← hkeep]
      exact List.mem_map.mpr ⟨x, hx, rfl⟩
    rcases List.mem_map.mp hvalue with ⟨y, hy, heq⟩
    rcases List.mem_filter.mp hy with ⟨hymem, hyold⟩
    rw [marked_telling g y hymem, marked_telling g x (List.mem_of_mem_take hx)] at heq
    cases hx1 : x.1 <;> cases hy1 : y.1 <;> simp_all
  · intro hbehind h hshape
    rw [keepsValues_iff_take, old,
      Front.take_filter_length ((addedBehind_congr hshape).mpr hbehind)]

/-- An endpoint is added before the only one there was. -/
def addedInFront : Growth :=
  .node ⟨true, "ep".toList, [⟨"tx".toList, 0, 7⟩]⟩ .nil
    (.node ⟨false, "ep".toList, [⟨"tx".toList, 5, 6⟩]⟩ .nil .nil)

/-- The entry of the old endpoint gets the value of the added one. -/
theorem addedInFront_not_kept : ¬ KeepsValues addedInFront ⟨"root".toList, []⟩ := by
  rw [keepsValues_iff_take]
  decide

end Growth

end ScorepPluginUcx
