import Mathlib.Data.List.Basic

/-!
# Where a span ends

A word whose members all have a property, followed by a text that does not begin with such
a member: the word is the longest front part of the whole that has the property throughout.
-/

namespace Span

universe u
variable {α : Type u} {p : α → Bool} {w l : List α}

theorem takeWhile_of_head (h : ∀ a ∈ l.head?, ¬ p a) : l.takeWhile p = [] := by
  cases l with
  | nil => rfl
  | cons a l => exact List.takeWhile_cons_of_neg (h a rfl)

theorem dropWhile_of_head (h : ∀ a ∈ l.head?, ¬ p a) : l.dropWhile p = l := by
  cases l with
  | nil => rfl
  | cons a l => exact List.dropWhile_cons_of_neg (h a rfl)

/-- The span of a word and a text behind it is the word. -/
theorem takeWhile_append (hw : ∀ a ∈ w, p a) (h : ∀ a ∈ l.head?, ¬ p a) :
    (w ++ l).takeWhile p = w := by
  rw [List.takeWhile_append_of_pos hw, takeWhile_of_head h, List.append_nil]

/-- What follows the span is the text. -/
theorem dropWhile_append (hw : ∀ a ∈ w, p a) (h : ∀ a ∈ l.head?, ¬ p a) :
    (w ++ l).dropWhile p = l := by
  rw [List.dropWhile_append_of_pos hw, dropWhile_of_head h]

/-- What follows a span does not begin with a member of it. -/
theorem head_dropWhile (l : List α) : ∀ a ∈ (l.dropWhile p).head?, ¬ p a := by
  intro a ha
  have hnot := List.head?_dropWhile_not p l
  rw [ha] at hnot
  simpa using hnot

end Span
