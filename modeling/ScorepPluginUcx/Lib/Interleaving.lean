import Mathlib.Data.List.Basic

/-!
# Interleavings

A log of what several parties do, each entry with its party. `part i log` is the part of one
party, in its order; a log is an interleaving of these parts.
-/

namespace Interleaving

universe u v
variable {ι : Type u} [DecidableEq ι] {α : Type v}

/-- What the party `i` contributes to a log. -/
def part (i : ι) (log : List (ι × α)) : List α :=
  (log.filter fun x => x.1 = i).map Prod.snd

@[simp] theorem part_nil (i : ι) : part i ([] : List (ι × α)) = [] := rfl

@[simp] theorem part_append (i : ι) (log log' : List (ι × α)) :
    part i (log ++ log') = part i log ++ part i log' := by
  simp [part]

/-- What one party adds is its own. -/
@[simp] theorem part_map_self (i : ι) (as : List α) : part i (as.map (Prod.mk i)) = as := by
  induction as with
  | nil => rfl
  | cons a as ih => simpa [part] using ih

/-- What one party adds is no other's. -/
theorem part_map_of_ne {i j : ι} (h : j ≠ i) (as : List α) : part i (as.map (Prod.mk j)) = [] := by
  induction as with
  | nil => rfl
  | cons a as ih => simp [part, h]

/-- What is done to all entries is done to each part. -/
theorem part_map_snd {β : Type*} (i : ι) (f : α → β) (log : List (ι × α)) :
    part i (log.map (Prod.map id f)) = (part i log).map f := by
  rw [part, part, List.filter_map, List.map_map, List.map_map]
  rfl

/-- The log of a single party is its part. -/
theorem part_eq_of_forall {i : ι} {log : List (ι × α)} (h : ∀ x ∈ log, x.1 = i) :
    part i log = log.map Prod.snd := by
  rw [part, List.filter_eq_self.mpr (by simpa using h)]

theorem mem_part {i : ι} {a : α} {log : List (ι × α)} : a ∈ part i log ↔ (i, a) ∈ log := by
  simp only [part, List.mem_map, List.mem_filter, decide_eq_true_eq, Prod.exists]
  constructor
  · intro h
    obtain ⟨j, b, ⟨hmem, rfl⟩, rfl⟩ := h
    exact hmem
  · intro hmem
    exact ⟨i, a, ⟨hmem, rfl⟩, rfl⟩

end Interleaving
