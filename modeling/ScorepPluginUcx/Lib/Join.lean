import Mathlib.Data.List.Nodup

/-!
# Joining two words

Two words with a separator between them. When the words may contain the separator, a text can
be taken apart at each of its separators, and two pairs with the same text differ by a part of
it that stands in the first word of one and in the second word of the other.

## Main definitions

* `join sep x`: the two words of `x`, joined.
* `Shifts sep x y`: what a part of the text, moved to the first word, makes of `x`.
-/

namespace Join

universe u
variable {α : Type u} {sep : α} {x y : List α × List α}

/-- The two words with the separator between them. -/
def join (sep : α) (x : List α × List α) : List α := x.1 ++ sep :: x.2

/-- `y` is `x` with the front of the second word, up to a separator, moved to the first. -/
def Shifts (sep : α) (x y : List α × List α) : Prop :=
  ∃ w, y.1 = x.1 ++ sep :: w ∧ x.2 = w ++ sep :: y.2

theorem Shifts.join_eq (h : Shifts sep x y) : join sep x = join sep y := by
  obtain ⟨w, hfirst, hsecond⟩ := h
  rw [join, join, hfirst, hsecond, List.append_assoc, List.cons_append]

/-- A part that is moved takes its separator along. -/
theorem Shifts.ne (h : Shifts sep x y) : x ≠ y := by
  rintro rfl
  obtain ⟨w, hfirst, _⟩ := h
  have hlength := congrArg List.length hfirst
  simp only [List.length_append, List.length_cons] at hlength
  omega

/-- The separator is in the first word that the part is moved to. -/
theorem Shifts.sep_mem (h : Shifts sep x y) : sep ∈ y.1 := by
  obtain ⟨w, hfirst, _⟩ := h
  rw [hfirst]
  exact List.mem_append_right _ List.mem_cons_self

/-- When the first word of one pair is a front part of that of the other, and the texts are
equal, the part in between is moved, or it is empty. -/
theorem eq_or_shifts {front : List α} (hfirst : y.1 = x.1 ++ front)
    (hsecond : sep :: x.2 = front ++ sep :: y.2) : x = y ∨ Shifts sep x y := by
  cases front with
  | nil =>
      rw [List.append_nil] at hfirst
      rw [List.nil_append, List.cons.injEq] at hsecond
      exact .inl (Prod.ext hfirst.symm hsecond.2)
  | cons s w =>
      rw [List.cons_append, List.cons.injEq] at hsecond
      obtain ⟨rfl, hsecond⟩ := hsecond
      exact .inr ⟨w, hfirst, hsecond⟩

/-- **Equal texts**: the two pairs are the same, or a part is moved from one to the other. -/
theorem join_eq_iff : join sep x = join sep y ↔ x = y ∨ Shifts sep x y ∨ Shifts sep y x := by
  constructor
  · intro h
    rcases List.append_eq_append_iff.mp h with ⟨front, hfirst, hsecond⟩ | ⟨front, hfirst, hsecond⟩
    · exact (eq_or_shifts hfirst hsecond).imp_right .inl
    · rcases eq_or_shifts hfirst hsecond with heq | hshift
      · exact .inl heq.symm
      · exact .inr (.inr hshift)
  · rintro (heq | hshift | hshift)
    · rw [heq]
    · exact hshift.join_eq
    · exact hshift.join_eq.symm

/-- Different pairs have different texts exactly when no part can be moved from one of them
to another. -/
theorem nodup_map_join_iff {l : List (List α × List α)} (h : l.Nodup) :
    (l.map (join sep)).Nodup ↔ ∀ x ∈ l, ∀ y ∈ l, ¬ Shifts sep x y := by
  rw [List.nodup_map_iff_inj_on h]
  constructor
  · intro hinj x hx y hy hshift
    exact hshift.ne (hinj x hx y hy hshift.join_eq)
  · intro hnone x hx y hy heq
    rcases join_eq_iff.mp heq with hsame | hshift | hshift
    · exact hsame
    · exact absurd hshift (hnone x hx y hy)
    · exact absurd hshift (hnone y hy x hx)

end Join
