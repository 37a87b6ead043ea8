import Mathlib.Data.List.Induction
import Mathlib.Data.List.Nodup

/-!
# First occurrences

The distinct members of a list, in the order of their first occurrence. A table that is
filled from the list, member by member, and takes only what it has not yet, holds these, as
many of them as it has room for.

## Main definitions

* `distinct l`: the first occurrences.
* `add room table a`: put a new member into the table, if there is room.
* `PlacedAt missing table a k`: `k` is the place of `a` in the table, or `missing`.
-/

namespace Firsts

universe u
variable {α : Type u} [DecidableEq α]

/-- The distinct members of a list, in the order of their first occurrence. -/
def distinct (l : List α) : List α := l.eraseDups

@[simp] theorem distinct_nil : distinct ([] : List α) = [] := rfl

@[simp] theorem mem_distinct {a : α} {l : List α} : a ∈ distinct l ↔ a ∈ l := List.mem_eraseDups

theorem distinct_append_singleton (l : List α) (a : α) :
    distinct (l ++ [a]) = if a ∈ l then distinct l else distinct l ++ [a] := by
  simp only [distinct, List.eraseDups_append]
  by_cases h : a ∈ l
  · simp [List.removeAll, h]
  · simp [List.removeAll, h, List.eraseDups_cons]

theorem nodup_distinct (l : List α) : (distinct l).Nodup := by
  induction l using List.reverseRecOn with
  | nil => exact List.nodup_nil
  | append_singleton l a ih =>
      rw [distinct_append_singleton]
      split
      · exact ih
      · rename_i h
        rw [List.nodup_append]
        refine ⟨ih, List.nodup_singleton a, ?_⟩
        rintro b hb c hc rfl
        exact h (mem_distinct.mp (by simpa [List.mem_singleton.mp hc] using hb))

/-- A list without repetitions is its own list of first occurrences. -/
theorem distinct_of_nodup {l : List α} (h : l.Nodup) : distinct l = l := by
  induction l using List.reverseRecOn with
  | nil => rfl
  | append_singleton l a ih =>
      rw [List.nodup_append] at h
      have hnew : a ∉ l := by
        intro hmem
        exact h.2.2 a hmem a (by simp) rfl
      rw [distinct_append_singleton, if_neg hnew, ih h.1]

theorem length_distinct_le (l : List α) : (distinct l).length ≤ l.length := by
  induction l using List.reverseRecOn with
  | nil => exact Nat.le_refl _
  | append_singleton l a ih =>
      rw [distinct_append_singleton]
      split <;> simp only [List.length_append, List.length_singleton] <;> omega

/-- Put a member at the end of a table, if it is not there yet and there is room. -/
def add (room : ℕ) (table : List α) (a : α) : List α :=
  if a ∉ table ∧ table.length < room then table ++ [a] else table

/-- **Filling a table** gives the first occurrences, up to the room. -/
theorem foldl_add (room : ℕ) (l : List α) :
    l.foldl (add room) [] = (distinct l).take room := by
  induction l using List.reverseRecOn with
  | nil => simp
  | append_singleton l a ih =>
      rw [List.foldl_append, ih, List.foldl_cons, List.foldl_nil, distinct_append_singleton, add]
      by_cases hmem : a ∈ l
      · -- The member is in the table already, or the table is full.
        have hold : a ∈ distinct l := mem_distinct.mpr hmem
        rw [if_pos hmem, if_neg]
        intro h
        obtain ⟨hnew, hroom⟩ := h
        have hlt : (distinct l).length < room := by
          rw [List.length_take] at hroom
          omega
        exact hnew (by rwa [List.take_of_length_le (Nat.le_of_lt hlt)])
      · have hnew : a ∉ (distinct l).take room := by
          intro h
          exact hmem (mem_distinct.mp (List.mem_of_mem_take h))
        rw [if_neg hmem]
        by_cases hroom : (distinct l).length < room
        · have htake : (distinct l).take room = distinct l :=
            List.take_of_length_le (Nat.le_of_lt hroom)
          have hfits : (distinct l ++ [a]).length ≤ room := by
            rw [List.length_append, List.length_singleton]
            omega
          rw [htake, if_pos ⟨htake ▸ hnew, hroom⟩, List.take_of_length_le hfits]
        · have hfull : ¬ ((distinct l).take room).length < room := by
            rw [List.length_take]
            omega
          rw [if_neg (fun h => hfull h.2), List.take_append_of_le_length (Nat.not_lt.mp hroom)]

/-! ## Places -/

/-- A member of the table has its place there, and every other one has the place `missing`. -/
def PlacedAt (missing : ℕ) (table : List α) (a : α) (k : ℕ) : Prop :=
  table[k]? = some a ∨ a ∉ table ∧ k = missing

/-- What was left out has found the table full. -/
theorem room_le_of_notMem {room : ℕ} {l : List α} {a : α} (ha : a ∈ l)
    (hout : a ∉ (distinct l).take room) : room ≤ ((distinct l).take room).length := by
  rw [List.length_take]
  by_contra hroom
  have hall : (distinct l).take room = distinct l := List.take_of_length_le (by omega)
  rw [hall] at hout
  exact hout (mem_distinct.mpr ha)

/-- **Places stay**: a member keeps its place, and one that has found the table full
never gets one. -/
theorem PlacedAt.add {missing room k : ℕ} {table : List α} {a : α}
    (h : PlacedAt missing table a k) (hfull : a ∉ table → room ≤ table.length) (b : α) :
    PlacedAt missing (add room table b) a k := by
  rw [Firsts.add]
  split
  · rename_i hnew
    have hmem : a ∈ table := by
      by_contra hout
      exact Nat.not_lt.mpr (hfull hout) hnew.2
    have hk : table[k]? = some a := h.resolve_right fun hmissing => hmissing.1 hmem
    obtain ⟨hlt, _⟩ := List.getElem?_eq_some_iff.mp hk
    exact .inl ((List.getElem?_append_left hlt).trans hk)
  · exact h

omit [DecidableEq α] in
/-- In a table without repetitions there is one place for each. -/
theorem PlacedAt.unique {missing k k' : ℕ} {table : List α} {a : α} (hnodup : table.Nodup)
    (h : PlacedAt missing table a k) (h' : PlacedAt missing table a k') : k = k' := by
  rcases h with hk | ⟨hout, hk⟩ <;> rcases h' with hk' | ⟨hout', hk'⟩
  · obtain ⟨hlt, _⟩ := List.getElem?_eq_some_iff.mp hk
    exact (List.getElem?_inj hlt hnodup).mp (hk.trans hk'.symm)
  · exact absurd (List.mem_of_getElem? hk) hout'
  · exact absurd (List.mem_of_getElem? hk') hout
  · exact hk.trans hk'.symm

omit [DecidableEq α] in
/-- A place that no table entry has tells what is missing. -/
theorem PlacedAt.eq_missing_iff {missing k : ℕ} {table : List α} {a : α}
    (hmissing : table.length ≤ missing) (h : PlacedAt missing table a k) :
    k = missing ↔ a ∉ table := by
  rcases h with hk | ⟨hout, hk⟩
  · obtain ⟨hlt, _⟩ := List.getElem?_eq_some_iff.mp hk
    have hmem := List.mem_of_getElem? hk
    constructor
    · intro heq
      omega
    · intro hout
      exact absurd hmem hout
  · exact ⟨fun _ => hout, fun _ => hk⟩

/-- A member that is put into the table gets the place at its end. -/
theorem placedAt_add {missing room : ℕ} {table : List α} {a : α} (hnew : a ∉ table)
    (hroom : table.length < room) : PlacedAt missing (Firsts.add room table a) a table.length := by
  rw [Firsts.add, if_pos ⟨hnew, hroom⟩]
  exact .inl List.getElem?_concat_length

end Firsts
