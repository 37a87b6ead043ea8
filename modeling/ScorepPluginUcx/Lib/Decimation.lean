import Mathlib.Algebra.Group.Nat.Defs
import ScorepPluginUcx.Lib.Run

/-!
# Decimated refreshing

A cell keeps what it got last. Some visits count, and one in `d` of these brings something
new; others always do, or never. A counter of `w` bits that is masked by `d - 1` tells which
visit it is, also when it wraps, if `d` is a power of two not above `2 ^ w`.

## Main definitions

* `Visit α`, `Cell α`: a visit with what it could bring, and a cell.
* `Cell.Takes`, `Cell.visit`: whether a visit brings something, and what it leaves.

## Main results

* `ticks_final`: the cell counts the visits that count.
* `latest_final`: without a visit that brings something the contents stay.
* `mod_and_mask_eq_zero_iff`: the masked counter.
-/

namespace Decimation

universe u
variable {α : Type u} {d : ℕ}

/-- What a visit is for. -/
inductive Kind where
  /-- It counts, and one in `d` brings something. -/
  | tick
  /-- It always brings something. -/
  | refresh
  /-- It never does. -/
  | read
  deriving DecidableEq

/-- A visit, with what it brings if it does. -/
structure Visit (α : Type u) where
  kind : Kind
  fresh : α

/-- A visit that counts. -/
def Visit.isTick (v : Visit α) : Bool := v.kind = .tick

/-- How many visits have counted, and what was brought last. -/
structure Cell (α : Type u) where
  ticks : ℕ
  latest : Option α

namespace Cell

/-- The cell before the first visit. -/
def init : Cell α := ⟨0, none⟩

/-- Whether a visit of this kind brings something. -/
def Takes (d : ℕ) (c : Cell α) : Kind → Prop
  | .tick => d ∣ c.ticks
  | .refresh => True
  | .read => False

instance (d : ℕ) (c : Cell α) : (kind : Kind) → Decidable (c.Takes d kind)
  | .tick => inferInstanceAs (Decidable (d ∣ c.ticks))
  | .refresh => inferInstanceAs (Decidable True)
  | .read => inferInstanceAs (Decidable False)

/-- The cell after a visit. -/
def visit (d : ℕ) (c : Cell α) (v : Visit α) : Cell α where
  ticks := c.ticks + if v.isTick then 1 else 0
  latest := if c.Takes d v.kind then some v.fresh else c.latest

variable {c : Cell α} {v : Visit α}

@[simp] theorem ticks_visit : (c.visit d v).ticks = c.ticks + if v.isTick then 1 else 0 := rfl

theorem latest_visit_of_takes (h : c.Takes d v.kind) : (c.visit d v).latest = some v.fresh :=
  if_pos h

theorem latest_visit_of_not_takes (h : ¬ c.Takes d v.kind) : (c.visit d v).latest = c.latest :=
  if_neg h

/-- The cell counts the visits that count. -/
theorem ticks_final (d : ℕ) (c : Cell α) (vs : List (Visit α)) :
    (Run.final (visit d) c vs).ticks = c.ticks + vs.countP Visit.isTick := by
  induction vs generalizing c with
  | nil => rfl
  | cons v vs ih =>
      rw [Run.final_cons, ih, List.countP_cons, ticks_visit]
      omega

/-- Visits that bring nothing leave the contents. -/
theorem latest_final {vs : List (Visit α)}
    (h : ∀ x ∈ Run.trace (visit d) c vs, ¬ x.1.Takes d x.2.kind) :
    (Run.final (visit d) c vs).latest = c.latest := by
  induction vs generalizing c with
  | nil => rfl
  | cons v vs ih =>
      rw [Run.trace_cons, List.forall_mem_cons] at h
      rw [Run.final_cons, ih h.2, latest_visit_of_not_takes h.1]

/-- The contents are what they were, or what one of the visits has brought. -/
theorem latest_final_or (d : ℕ) (c : Cell α) (vs : List (Visit α)) :
    (Run.final (visit d) c vs).latest = c.latest ∨
      ∃ v ∈ vs, (Run.final (visit d) c vs).latest = some v.fresh := by
  induction vs generalizing c with
  | nil => exact .inl rfl
  | cons v vs ih =>
      rw [Run.final_cons]
      rcases ih (c.visit d v) with hsame | ⟨v', hv', hbrought⟩
      · by_cases htakes : c.Takes d v.kind
        · exact .inr ⟨v, List.mem_cons_self, hsame.trans (latest_visit_of_takes htakes)⟩
        · exact .inl (hsame.trans (latest_visit_of_not_takes htakes))
      · exact .inr ⟨v', List.mem_cons_of_mem v hv', hbrought⟩

end Cell

/-- **The masked counter** tells the multiples of `2 ^ k`, also when it has wrapped. -/
theorem mod_and_mask_eq_zero_iff {k w : ℕ} (h : k ≤ w) (n : ℕ) :
    n % 2 ^ w &&& (2 ^ k - 1) = 0 ↔ 2 ^ k ∣ n := by
  rw [Nat.and_two_pow_sub_one_eq_mod, Nat.mod_mod_of_dvd n (Nat.pow_dvd_pow 2 h),
    Nat.dvd_iff_mod_eq_zero]

end Decimation
