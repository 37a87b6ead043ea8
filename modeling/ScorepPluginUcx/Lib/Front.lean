import Mathlib.Data.List.Basic

/-!
# Members in front

A property whose members all stand in front of a list: none without it comes before one
with it. Then, and only then, the members can be had by taking as many from the front.
-/

namespace Front

universe u
variable {α : Type u} {p : α → Bool} {l : List α}

/-- As many members from the front as have a property are those with the property, when
none without it stands before one with it. -/
theorem take_filter_length
    (h : l.Pairwise fun x y => p y → p x) : l.take (l.filter p).length = l.filter p := by
  induction l with
  | nil => rfl
  | cons a l ih =>
      rcases List.pairwise_cons.mp h with ⟨ha, hl⟩
      by_cases hp : p a = true
      · simp [hp, ih hl]
      · have hnone : l.filter p = [] := by
          refine List.filter_eq_nil_iff.mpr fun b hb hpb => hp (ha b hb hpb)
        simp [hp, hnone]

/-- And only then do they all have the property. -/
theorem pairwise_of_take_filter
    (h : ∀ x ∈ l.take (l.filter p).length, p x) : l.Pairwise fun x y => p y → p x := by
  induction l with
  | nil => exact List.Pairwise.nil
  | cons a l ih =>
      by_cases hp : p a = true
      · rw [List.filter_cons_of_pos hp, List.length_cons, List.take_succ_cons,
          List.forall_mem_cons] at h
        exact List.pairwise_cons.mpr ⟨fun _ _ _ => hp, ih h.2⟩
      · rw [List.filter_cons_of_neg hp] at h
        have hnone : l.filter p = [] := by
          by_contra hne
          obtain ⟨n, hn⟩ := Nat.exists_eq_succ_of_ne_zero
            (fun hzero => hne (List.length_eq_zero_iff.mp hzero))
          rw [hn, List.take_succ_cons] at h
          exact hp (h a List.mem_cons_self)
        have hall : ∀ b ∈ l, ¬ p b = true := List.filter_eq_nil_iff.mp hnone
        refine List.pairwise_cons.mpr ⟨fun b hb hpb => absurd hpb (hall b hb), ?_⟩
        exact List.pairwise_of_forall_mem_list fun b hb c hc hpc => absurd hpc (hall c hc)

end Front
