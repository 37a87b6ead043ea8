import Mathlib.Data.List.Basic

/-!
# Overwriting a stretch of a list

`overwrite put i vs l` puts the values `vs` into the entries `i, i + 1, …` of `l`. A value
whose entry does not exist is dropped, so that the length never changes.
-/

namespace Overwrite

universe u v
variable {α : Type u} {β : Type v} (put : β → α → α)

/-- Put values into consecutive entries, from entry `i` on. -/
def overwrite : ℕ → List β → List α → List α
  | _, [], l => l
  | i, v :: vs, l => overwrite (i + 1) vs (l.modify i (put v))

@[simp] theorem overwrite_nil (i : ℕ) (l : List α) : overwrite put i [] l = l := rfl
theorem overwrite_cons (i : ℕ) (v : β) (vs : List β) (l : List α) :
    overwrite put i (v :: vs) l = overwrite put (i + 1) vs (l.modify i (put v)) := rfl

@[simp] theorem length_overwrite (i : ℕ) (vs : List β) (l : List α) :
    (overwrite put i vs l).length = l.length := by
  induction vs generalizing i l with
  | nil => rfl
  | cons v vs ih => rw [overwrite_cons, ih, List.length_modify]

theorem overwrite_append (i : ℕ) (vs ws : List β) (l : List α) :
    overwrite put i (vs ++ ws) l = overwrite put (i + vs.length) ws (overwrite put i vs l) := by
  induction vs generalizing i l with
  | nil => rfl
  | cons v vs ih =>
      rw [List.cons_append, overwrite_cons, overwrite_cons, ih, List.length_cons]
      congr 1
      omega

/-- Beyond the end of the list there is nothing to overwrite. -/
theorem overwrite_of_length_le {i : ℕ} (vs : List β) {l : List α} (h : l.length ≤ i) :
    overwrite put i vs l = l := by
  induction vs generalizing i with
  | nil => rfl
  | cons v vs ih =>
      rw [overwrite_cons, List.modify_eq_self h]
      exact ih (by omega)

/-- Starting at the end of the list is as good as starting anywhere beyond it. -/
theorem overwrite_min_length (i : ℕ) (vs : List β) (l : List α) :
    overwrite put (min i l.length) vs l = overwrite put i vs l := by
  rcases Nat.le_total i l.length with h | h
  · rw [Nat.min_eq_left h]
  · rw [Nat.min_eq_right h, overwrite_of_length_le put vs (Nat.le_refl _),
      overwrite_of_length_le put vs h]

/-- The entries before the stretch are kept. -/
theorem getElem?_overwrite_of_lt {i j : ℕ} (h : j < i) (vs : List β) (l : List α) :
    (overwrite put i vs l)[j]? = l[j]? := by
  induction vs generalizing i l with
  | nil => rfl
  | cons v vs ih =>
      have hne : i ≠ j := by omega
      rw [overwrite_cons, ih (by omega), List.getElem?_modify]
      simp [hne]

/-- An entry of the stretch is overwritten when a value is left for it. -/
theorem getElem?_overwrite_add (i k : ℕ) (vs : List β) (l : List α) :
    (overwrite put i vs l)[i + k]? = l[i + k]?.map fun a => (vs[k]?.map (put · a)).getD a := by
  induction vs generalizing i k l with
  | nil => simp
  | cons v vs ih =>
      cases k with
      | zero =>
          rw [overwrite_cons, getElem?_overwrite_of_lt put (by omega), List.getElem?_modify]
          simp
      | succ k =>
          have hne : i ≠ i + 1 + k := by omega
          have hidx : i + (k + 1) = i + 1 + k := by omega
          rw [overwrite_cons, hidx, ih, List.getElem?_modify]
          simp [hne]

section Map

universe w
variable {γ : Type w} {f : α → γ}

/-- A change of one entry, seen through a map of all. -/
theorem map_modify {g : α → α} {g' : γ → γ} (hf : ∀ a, f (g a) = g' (f a)) (i : ℕ) (l : List α) :
    (l.modify i g).map f = (l.map f).modify i g' := by
  ext j : 1
  simp only [List.getElem?_map, List.getElem?_modify]
  cases l[j]? with
  | none => rfl
  | some a => by_cases hij : i = j <;> simp [hij, hf]

/-- Overwriting, seen through a map. -/
theorem map_overwrite {put' : β → γ → γ} (hf : ∀ v a, f (put v a) = put' v (f a)) (i : ℕ)
    (vs : List β) (l : List α) :
    (overwrite put i vs l).map f = overwrite put' i vs (l.map f) := by
  induction vs generalizing i l with
  | nil => rfl
  | cons v vs ih => rw [overwrite_cons, overwrite_cons, ih, map_modify (hf v)]

/-- A map that does not see what is put into the entries. -/
theorem map_overwrite_of_forall (hf : ∀ v a, f (put v a) = f a) (i : ℕ) (vs : List β)
    (l : List α) : (overwrite put i vs l).map f = l.map f := by
  induction vs generalizing i l with
  | nil => rfl
  | cons v vs ih =>
      have hmodify : (l.modify i (put v)).map f = (l.map f).modify i id := map_modify (hf v) i l
      rw [overwrite_cons, ih, hmodify, List.modify_id]

end Map

end Overwrite
