import Mathlib.Data.List.Basic

/-!
# Texts in blocks

A text that is written block by block, one block for each member of a list. A block stands
behind as much text as the blocks before it make, and when the lengths of the blocks are
known, the text determines them.
-/

namespace Blocks

universe u v
variable {α : Type u} {β : Type v}

/-- The block of a member, cut out of the text. -/
theorem block_eq {xs : List α} (F : α → List β) {i : ℕ} {x : α} (h : xs[i]? = some x) :
    ((xs.flatMap F).drop ((xs.take i).flatMap F).length).take (F x).length = F x := by
  induction xs generalizing i with
  | nil => simp at h
  | cons y xs ih =>
      cases i with
      | zero =>
          obtain rfl : y = x := by simpa using h
          rw [List.take_zero, List.flatMap_nil, List.length_nil, List.drop_zero,
            List.flatMap_cons, List.take_left]
      | succ i =>
          rw [List.getElem?_cons_succ] at h
          rw [List.take_succ_cons, List.flatMap_cons, List.flatMap_cons, List.length_append,
            List.drop_length_add_append, ih h]

/-- Two texts with blocks of the same lengths are equal block by block. -/
theorem flatten_mapIdx_eq_iff (xs : List α) (F G : ℕ → α → List β)
    (h : ∀ i x, (F i x).length = (G i x).length) :
    (xs.mapIdx F).flatten = (xs.mapIdx G).flatten ↔ ∀ i x, xs[i]? = some x → F i x = G i x := by
  induction xs generalizing F G with
  | nil => simp
  | cons x xs ih =>
      simp only [List.mapIdx_cons, List.flatten_cons]
      rw [List.append_eq_append_iff_of_size_eq_left (h 0 x),
        ih (fun i => F (i + 1)) (fun i => G (i + 1)) fun i => h (i + 1)]
      constructor
      · rintro ⟨hfirst, hrest⟩ i y hi
        cases i with
        | zero =>
            obtain rfl : x = y := by simpa using hi
            exact hfirst
        | succ i => exact hrest i y (by simpa using hi)
      · intro hall
        exact ⟨hall 0 x rfl, fun i y hi => hall (i + 1) y (by simpa using hi)⟩

end Blocks
