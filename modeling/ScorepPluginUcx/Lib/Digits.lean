import Mathlib.Algebra.Group.Nat.Defs
import Mathlib.Data.Nat.Log

/-!
# Positional notation

The digits of a number in a base, most significant first, as `Nat.toDigits` writes them.
-/

namespace Digits

variable {b : ℕ}

/-- Every digit is the character of a number below the base. -/
theorem exists_digitChar (hb : 1 < b) {n : ℕ} {c : Char} (h : c ∈ Nat.toDigits b n) :
    ∃ d < b, c = d.digitChar := by
  induction n using Nat.strongRecOn with
  | ind n ih =>
      rw [Nat.toDigits_eq_if hb] at h
      by_cases hn : n < b
      · rw [if_pos hn] at h
        exact ⟨n, hn, List.mem_singleton.mp h⟩
      · rw [if_neg hn] at h
        rcases List.mem_append.mp h with h | h
        · exact ih (n / b) (Nat.div_lt_self (by omega) hb) h
        · exact ⟨n % b, Nat.mod_lt _ (by omega), List.mem_singleton.mp h⟩

/-- Any other character is none of the digits. -/
theorem notMem_toDigits (hb : 1 < b) {c : Char} (hc : ∀ d < b, c ≠ d.digitChar) (n : ℕ) :
    c ∉ Nat.toDigits b n := by
  intro hmem
  obtain ⟨d, hd, hchar⟩ := exists_digitChar hb hmem
  exact hc d hd hchar

/-- The leading digit. -/
theorem head?_toDigits (hb : 1 < b) (n : ℕ) :
    (Nat.toDigits b n).head? = some (n / b ^ Nat.log b n).digitChar := by
  induction n using Nat.strongRecOn with
  | ind n ih =>
      rw [Nat.toDigits_eq_if hb]
      by_cases hn : n < b
      · rw [if_pos hn, Nat.log_of_lt hn, Nat.pow_zero, Nat.div_one]
        rfl
      · have hle : b ≤ n := Nat.not_lt.mp hn
        have hpow : n / b ^ Nat.log b n = n / b / b ^ Nat.log b (n / b) := by
          rw [Nat.log_of_one_lt_of_le hb hle, Nat.pow_succ, Nat.mul_comm, Nat.div_div_eq_div_mul]
        rw [if_neg hn, List.head?_append, ih (n / b) (Nat.div_lt_self (by omega) hb), hpow]
        rfl

end Digits
