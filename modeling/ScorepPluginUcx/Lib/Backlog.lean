import Mathlib.Data.List.Nodup

/-!
# Backlogs

A list that grows at its end, and a log. A pass goes through the list from its front, makes an
entry in the log for every item that is pending and settles the item. When added items are
pending, the items that are not are always a front part of the list, and the entries in the
log are theirs, in order: every item is handled once.

## Main definitions

* `Backlog`, `Backlog.add`, `Backlog.pass`: the list with its log, and what happens to them.
* `HandledTo`: the items before a position are handled, and no others.

## Main results

* `HandledTo.add`, `HandledTo.pass`: what adding and a pass make of the position.
* `HandledTo.exists_entry`: the one entry of a handled item.
-/

universe u v

/-- A list of items and a log of what was done about them. -/
structure Backlog (α : Type u) (β : Type v) where
  items : List α
  log : List β

namespace Backlog

variable {α : Type u} {β : Type v}

/-- Add items at the end. -/
def add (b : Backlog α β) (new : List α) : Backlog α β := { b with items := b.items ++ new }

variable (pending : α → Bool) (settle : α → α)

/-- What a pass makes of an item. -/
def settled (a : α) : α := if pending a then settle a else a

/-- The entries of a pass over a list whose first item has the index `i`. -/
def entries (entry : ℕ → α → β) (i : ℕ) (items : List α) : List β :=
  ((items.zipIdx i).filter fun x => pending x.1).map fun x => entry x.2 x.1

/-- One pass over the list. -/
def pass (entry : ℕ → α → β) (b : Backlog α β) : Backlog α β where
  items := b.items.map (settled pending settle)
  log := b.log ++ entries pending entry 0 b.items

variable {pending settle}

@[simp] theorem entries_nil (entry : ℕ → α → β) (i : ℕ) : entries pending entry i [] = [] := rfl

theorem entries_cons (entry : ℕ → α → β) (i : ℕ) (a : α) (items : List α) :
    entries pending entry i (a :: items) =
      (if pending a then [entry i a] else []) ++ entries pending entry (i + 1) items := by
  cases h : pending a <;> simp [entries, h]

theorem entries_append (entry : ℕ → α → β) (i : ℕ) (items items' : List α) :
    entries pending entry i (items ++ items') =
      entries pending entry i items ++ entries pending entry (i + items.length) items' := by
  simp [entries, List.zipIdx_append]

theorem entries_of_none {items : List α} (h : ∀ a ∈ items, ¬ pending a) (entry : ℕ → α → β)
    (i : ℕ) : entries pending entry i items = [] := by
  induction items generalizing i with
  | nil => rfl
  | cons a items ih =>
      rw [List.forall_mem_cons] at h
      rw [entries_cons, if_neg h.1, ih h.2, List.nil_append]

/-- A pass over items that are all pending makes an entry for each. -/
theorem entries_of_all {items : List α} (h : ∀ a ∈ items, pending a) (entry : ℕ → α → β) (i : ℕ) :
    entries pending entry i items = (items.zipIdx i).map fun x => entry x.2 x.1 := by
  induction items generalizing i with
  | nil => rfl
  | cons a items ih =>
      rw [List.forall_mem_cons] at h
      rw [entries_cons, if_pos h.1, ih h.2, List.zipIdx_cons, List.map_cons]
      rfl

/-- The first `k` items are handled, and no others: these are pending, the log has one entry for
each of the first `k` in order, and it fits the item. -/
structure HandledTo (pending : α → Bool) (key : β → ℕ) (Fits : α → β → Prop) (k : ℕ)
    (b : Backlog α β) : Prop where
  le : k ≤ b.items.length
  pending_iff : ∀ i a, b.items[i]? = some a → (pending a ↔ k ≤ i)
  keys : b.log.map key = List.range k
  fits : ∀ e ∈ b.log, ∃ a, b.items[key e]? = some a ∧ Fits a e

variable {key : β → ℕ} {Fits : α → β → Prop} {k : ℕ} {b : Backlog α β}

theorem handledTo_empty : HandledTo pending key Fits 0 (⟨[], []⟩ : Backlog α β) :=
  ⟨Nat.le_refl 0, by simp, rfl, by simp⟩

namespace HandledTo

/-- Adding pending items leaves the handled ones what they are. -/
theorem add (h : HandledTo pending key Fits k b) {new : List α} (hnew : ∀ a ∈ new, pending a) :
    HandledTo pending key Fits k (b.add new) where
  le := by
    rw [Backlog.add, List.length_append]
    exact Nat.le_add_right_of_le h.le
  pending_iff := by
    intro i a hi
    rw [Backlog.add, List.getElem?_append] at hi
    split at hi
    · exact h.pending_iff i a hi
    · rename_i hge
      have hle := h.le
      exact iff_of_true (hnew a (List.mem_of_getElem? hi)) (by omega)
  keys := h.keys
  fits := by
    intro e he
    obtain ⟨a, ha, hfits⟩ := h.fits e he
    have hlt := (List.getElem?_eq_some_iff.mp ha).1
    exact ⟨a, by rw [Backlog.add, List.getElem?_append_left hlt, ha], hfits⟩

/-- Changing items in ways that neither the flag nor the entries see leaves the position. -/
theorem of_map_eq {γ : Type*} (h : HandledTo pending key Fits k b) {f : α → γ} {items : List α}
    (hmap : items.map f = b.items.map f)
    (hpending : ∀ a a', f a = f a' → (pending a ↔ pending a'))
    (hfits : ∀ a a' e, f a = f a' → Fits a' e → Fits a e) :
    HandledTo pending key Fits k { b with items := items } := by
  have hget : ∀ i : ℕ, items[i]?.map f = b.items[i]?.map f := by
    intro i
    rw [← List.getElem?_map, hmap, List.getElem?_map]
  refine ⟨?_, ?_, h.keys, ?_⟩
  · have hlength := congrArg List.length hmap
    rw [List.length_map, List.length_map] at hlength
    rw [hlength]
    exact h.le
  · intro i a ha
    have hi := hget i
    rw [ha] at hi
    obtain ⟨a', ha', hf⟩ := Option.map_eq_some_iff.mp hi.symm
    rw [hpending a a' hf.symm]
    exact h.pending_iff i a' ha'
  · intro e he
    obtain ⟨a', ha', hfit⟩ := h.fits e he
    have hi := hget (key e)
    rw [ha'] at hi
    obtain ⟨a, ha, hf⟩ := Option.map_eq_some_iff.mp hi
    exact ⟨a, ha, hfits a a' e hf hfit⟩

/-- **The entries of a pass** are those of the items from the position on. -/
theorem entries_eq (h : HandledTo pending key Fits k b) (entry : ℕ → α → β) :
    entries pending entry 0 b.items =
      ((b.items.drop k).zipIdx k).map fun x => entry x.2 x.1 := by
  have hlength : (b.items.take k).length = k := List.length_take_of_le h.le
  have hfront : ∀ a ∈ b.items.take k, ¬ pending a := by
    intro a ha hpending
    obtain ⟨i, hi⟩ := List.mem_iff_getElem?.mp ha
    have hlt : i < k := hlength ▸ (List.getElem?_eq_some_iff.mp hi).1
    rw [List.getElem?_take_of_lt hlt] at hi
    have hle := (h.pending_iff i a hi).mp hpending
    omega
  have hrest : ∀ a ∈ b.items.drop k, pending a := by
    intro a ha
    obtain ⟨i, hi⟩ := List.mem_iff_getElem?.mp ha
    rw [List.getElem?_drop] at hi
    exact (h.pending_iff (k + i) a hi).mpr (Nat.le_add_right k i)
  rw [← List.take_append_drop k b.items, entries_append, entries_of_none hfront, hlength,
    List.nil_append, Nat.zero_add, entries_of_all hrest, List.take_append_drop]

/-- Their keys are the next numbers. -/
theorem map_key_entries (h : HandledTo pending key Fits k b) {entry : ℕ → α → β}
    (hkey : ∀ i a, key (entry i a) = i) :
    (entries pending entry 0 b.items).map key = List.range' k (b.items.length - k) := by
  rw [h.entries_eq, List.map_map]
  have hsnd : (key ∘ fun x : α × ℕ => entry x.2 x.1) = Prod.snd := funext fun x => hkey x.2 x.1
  rw [hsnd, List.zipIdx_map_snd, List.length_drop]

/-- **A pass** handles the whole list. -/
theorem pass (h : HandledTo pending key Fits k b) {entry : ℕ → α → β}
    (hkey : ∀ i a, key (entry i a) = i) (hsettle : ∀ a, ¬ pending (settle a))
    (hkept : ∀ a e, Fits a e → Fits (settled pending settle a) e)
    (hentry : ∀ i a, b.items[i]? = some a → Fits (settled pending settle a) (entry i a)) :
    HandledTo pending key Fits b.items.length (b.pass pending settle entry) where
  le := Nat.le_of_eq (List.length_map _).symm
  pending_iff := by
    intro i a hi
    have hlt := (List.getElem?_eq_some_iff.mp hi).1
    rw [Backlog.pass, List.length_map] at hlt
    rw [Backlog.pass, List.getElem?_map] at hi
    obtain ⟨a', _, rfl⟩ := Option.map_eq_some_iff.mp hi
    have hnot : ¬ pending (settled pending settle a') := by
      rw [settled]
      split
      · exact hsettle a'
      · assumption
    exact iff_of_false hnot (by omega)
  keys := by
    have happend := List.range'_append_1 (s := 0) (m := k) (n := b.items.length - k)
    rw [Nat.zero_add, Nat.add_sub_cancel' h.le] at happend
    rw [Backlog.pass, List.map_append, h.keys, h.map_key_entries hkey, List.range_eq_range',
      List.range_eq_range', happend]
  fits := by
    intro e he
    rw [Backlog.pass] at he ⊢
    simp only [List.getElem?_map]
    rcases List.mem_append.mp he with hold | hnew
    · obtain ⟨a, ha, hfits⟩ := h.fits e hold
      exact ⟨settled pending settle a, by rw [ha]; rfl, hkept a e hfits⟩
    · obtain ⟨x, hx, rfl⟩ := List.mem_map.mp hnew
      have ha := List.mem_zipIdx_iff_getElem?.mp (List.mem_of_mem_filter hx)
      refine ⟨settled pending settle x.1, ?_, hentry x.2 x.1 ha⟩
      rw [hkey, ha, Option.map_some]

/-- A pass over a list that is handled makes no entry. -/
theorem entries_eq_nil (h : HandledTo pending key Fits b.items.length b) (entry : ℕ → α → β) :
    entries pending entry 0 b.items = [] := by
  rw [h.entries_eq, List.drop_length]
  rfl

/-- **Every handled item has one entry.** -/
theorem exists_entry (h : HandledTo pending key Fits k b) {i : ℕ} {a : α} (hi : i < k)
    (ha : b.items[i]? = some a) :
    ∃ e, b.log.filter (fun e => key e = i) = [e] ∧ key e = i ∧ Fits a e := by
  have hkeys : (b.log.filter fun e => key e = i).map key = [i] := by
    have hcomp : (fun e => decide (key e = i)) = (fun j => j == i) ∘ key := rfl
    rw [hcomp, ← List.filter_map, h.keys, List.filter_beq,
      List.count_eq_one_of_mem List.nodup_range (List.mem_range.mpr hi)]
    rfl
  obtain ⟨e, hfilter, hkey⟩ := List.map_eq_singleton_iff.mp hkeys
  have hmem : e ∈ b.log := List.mem_of_mem_filter (hfilter ▸ List.mem_singleton_self e)
  obtain ⟨a', ha', hfits⟩ := h.fits e hmem
  rw [hkey, ha] at ha'
  obtain rfl := Option.some.inj ha'
  exact ⟨e, hfilter, hkey, hfits⟩

end HandledTo

end Backlog
