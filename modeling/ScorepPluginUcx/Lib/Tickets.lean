import ScorepPluginUcx.Lib.Interleaving

/-!
# Tickets

Several parties draw tickets from one counter, which moves on with every draw. The list of draws
says whose draw comes when; `tickets draws i` are the numbers that one party has got, in its
order. A party that counts its own draws knows its tickets only as long as nobody else draws.

## Main results

* `getElem?_tickets_eq_zero_iff`: who has the first ticket.
* `length_le_of_mem_tickets`: the tickets of a party that comes late.
-/

namespace Tickets

universe u
variable {ι : Type u} [DecidableEq ι]

/-- The tickets of the party `i`. -/
def tickets (draws : List ι) (i : ι) : List ℕ := Interleaving.part i draws.zipIdx

theorem mem_tickets_iff {draws : List ι} {i : ι} {t : ℕ} :
    t ∈ tickets draws i ↔ draws[t]? = some i := by
  rw [tickets, Interleaving.mem_part, List.mk_mem_zipIdx_iff_getElem?]

/-- Tickets are below the counter. -/
theorem lt_of_mem_tickets {draws : List ι} {i : ι} {t : ℕ} (h : t ∈ tickets draws i) :
    t < draws.length :=
  (List.getElem?_eq_some_iff.mp (mem_tickets_iff.mp h)).1

/-- A party keeps its tickets. -/
theorem getElem?_tickets_append {draws : List ι} {i : ι} {k t : ℕ}
    (h : (tickets draws i)[k]? = some t) (more : List ι) :
    (tickets (draws ++ more) i)[k]? = some t := by
  have hlt : k < (tickets draws i).length := (List.getElem?_eq_some_iff.mp h).1
  rw [tickets, List.zipIdx_append, Interleaving.part_append, ← tickets,
    List.getElem?_append_left hlt, h]

/-- Who draws first has the ticket 0, and nobody else has, and no other of its tickets is. -/
theorem getElem?_tickets_eq_zero_iff {draws : List ι} {i : ι} {k : ℕ} :
    (tickets draws i)[k]? = some 0 ↔ draws.head? = some i ∧ k = 0 := by
  cases draws with
  | nil => simp [tickets]
  | cons first draws =>
      -- The draws behind the first one get other tickets.
      have hlater : ∀ k : ℕ, (Interleaving.part i (draws.zipIdx 1))[k]? ≠ some 0 := by
        intro k hzero
        have hmem := Interleaving.mem_part.mp (List.mem_of_getElem? hzero)
        have hle : 1 ≤ 0 := List.le_snd_of_mem_zipIdx hmem
        exact absurd hle (by decide)
      have hsplit : tickets (first :: draws) i =
          (if first = i then [0] else []) ++ Interleaving.part i (draws.zipIdx 1) := by
        rw [tickets, List.zipIdx_cons]
        by_cases hfirst : first = i <;> simp [Interleaving.part, hfirst]
      rw [hsplit, List.head?_cons, Option.some.injEq]
      by_cases hfirst : first = i
      · rw [if_pos hfirst]
        cases k with
        | zero => simp [hfirst]
        | succ k => simpa using hlater k
      · simpa [hfirst] using hlater k

/-- A party that has not drawn among the first draws has tickets behind them only. -/
theorem length_le_of_mem_tickets {draws more : List ι} {i : ι} (hlate : i ∉ draws) {t : ℕ}
    (h : t ∈ tickets (draws ++ more) i) : draws.length ≤ t := by
  by_contra hlt
  rw [mem_tickets_iff, List.getElem?_append_left (by omega)] at h
  exact hlate (List.mem_of_getElem? h)

end Tickets
