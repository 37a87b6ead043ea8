import Mathlib.Data.List.Basic

/-!
# Ordered forests

A forest is a list of nodes, each with a list of children: the shape of an intrusive
linked list whose members carry a further list. `preorder` visits a node before its
children and its children before its next sibling.

A *growth* is a forest in which every node says what it was before, or that it was not
there. Its two ends are ordinary forests, and in pre-order the older one is the newer one
without the added nodes, wherever these were put.

## Main definitions

* `Forest α`, `Forest.preorder`, `Forest.map`.
* `Forest.numbered`: a numbering that counts a subtree by its topmost nodes.
* `Forest.before`, `Forest.after`: the two ends of a growth.
-/

universe u v w

/-- A list of nodes: a label, the children and the next nodes of the list. -/
inductive Forest (α : Type u) where
  | nil
  | node (label : α) (children next : Forest α)

namespace Forest

variable {α : Type u} {β : Type v} {γ : Type w}

/-- The labels, a node before its children and these before its next sibling. -/
def preorder : Forest α → List α
  | nil => []
  | node a c n => a :: (preorder c ++ preorder n)

/-- Change every label. -/
def map (f : α → β) : Forest α → Forest β
  | nil => nil
  | node a c n => node (f a) (map f c) (map f n)

/-- Put one list of nodes behind another. -/
def append : Forest α → Forest α → Forest α
  | nil, g => g
  | node a c n, g => node a c (append n g)

@[simp] theorem preorder_nil : (nil : Forest α).preorder = [] := rfl
@[simp] theorem preorder_node (a : α) (c n : Forest α) :
    (node a c n).preorder = a :: (c.preorder ++ n.preorder) := rfl

@[simp] theorem preorder_map (f : α → β) (g : Forest α) :
    (g.map f).preorder = g.preorder.map f := by
  induction g with
  | nil => rfl
  | node a c n ihc ihn => simp [map, ihc, ihn]

@[simp] theorem preorder_append (f g : Forest α) :
    (f.append g).preorder = f.preorder ++ g.preorder := by
  induction f with
  | nil => rfl
  | node a c n _ ihn => simp [append, ihn]

theorem map_map (f : α → β) (g : β → γ) (t : Forest α) : (t.map f).map g = t.map (g ∘ f) := by
  induction t with
  | nil => rfl
  | node a c n ihc ihn => simp [map, ihc, ihn]

/-! ## Numbering -/

/-- The number of nodes of the list, without what is below them. -/
def width : Forest α → ℕ
  | nil => 0
  | node _ _ n => n.width + 1

theorem width_le_length (f : Forest α) : f.width ≤ f.preorder.length := by
  induction f with
  | nil => exact Nat.le_refl 0
  | node a c n _ ihn =>
      simp only [width, preorder_node, List.length_cons, List.length_append]
      omega

/-- Number the nodes on the way down, where a subtree reports the number of its topmost
nodes for the number of all its nodes. -/
def numbered : ℕ → Forest α → List (ℕ × α)
  | _, nil => []
  | k, node a c n => (k, a) :: (numbered (k + 1) c ++ numbered (k + 1 + c.width) n)

@[simp] theorem map_snd_numbered (k : ℕ) (f : Forest α) :
    (numbered k f).map Prod.snd = f.preorder := by
  induction f generalizing k with
  | nil => rfl
  | node a c n ihc ihn => simp [numbered, ihc, ihn]

@[simp] theorem length_numbered (k : ℕ) (f : Forest α) :
    (numbered k f).length = f.preorder.length := by
  rw [← map_snd_numbered k f, List.length_map]

/-- A number never exceeds the position. -/
theorem numbered_le {k i : ℕ} {f : Forest α} {x : ℕ × α} (h : (numbered k f)[i]? = some x) :
    x.1 ≤ k + i := by
  induction f generalizing k i with
  | nil => simp [numbered] at h
  | node a c n ihc ihn =>
      cases i with
      | zero =>
          obtain rfl : (k, a) = x := by simpa [numbered] using h
          exact Nat.le_refl k
      | succ i =>
          rw [numbered, List.getElem?_cons_succ, List.getElem?_append, length_numbered] at h
          split at h
          · have hle := ihc h
            omega
          · have hle := ihn h
            have hwidth := c.width_le_length
            omega

/-- The nodes with a property are counted rightly: none of them comes, among the later
siblings and what is below these, after a node with children that have children. -/
def Counted (p : α → Bool) : Forest α → Prop
  | nil => True
  | node _ c n => Counted p c ∧ Counted p n ∧
      (c.width = c.preorder.length ∨ ∀ b ∈ n.preorder, ¬ p b)

theorem counted_of_forall_not {p : α → Bool} {f : Forest α} (h : ∀ b ∈ f.preorder, ¬ p b) :
    f.Counted p := by
  induction f with
  | nil => trivial
  | node a c n ihc ihn =>
      rw [preorder_node, List.forall_mem_cons, List.forall_mem_append] at h
      exact ⟨ihc h.2.1, ihn h.2.2, .inr h.2.2⟩

/-- The nodes with the property have the number `m` plus their position. -/
def NumberedFrom (p : α → Bool) (k m : ℕ) (f : Forest α) : Prop :=
  ∀ i x, (numbered k f)[i]? = some x → p x.2 → x.1 = m + i

/-- Numbers that start too low stay too low. -/
theorem numberedFrom_of_lt {p : α → Bool} {k m : ℕ} (hlt : k < m) (f : Forest α) :
    NumberedFrom p k m f ↔ ∀ b ∈ f.preorder, ¬ p b := by
  constructor
  · intro h b hb hpb
    rw [← map_snd_numbered k f] at hb
    rcases List.mem_map.mp hb with ⟨x, hx, rfl⟩
    rcases List.mem_iff_getElem?.mp hx with ⟨i, hi⟩
    have hle := numbered_le hi
    have heq := h i x hi hpb
    omega
  · intro h i x hi hpx
    have hmem : x.2 ∈ f.preorder := by
      rw [← map_snd_numbered k f]
      exact List.mem_map.mpr ⟨x, List.mem_of_getElem? hi, rfl⟩
    exact absurd hpx (h x.2 hmem)

/-- What is below a node whose number is its position is numbered from the next number on, and
its siblings from a number that is too low unless no child has children. -/
theorem numberedFrom_node_iff {p : α → Bool} {k : ℕ} {a : α} {c n : Forest α} :
    NumberedFrom p k k (node a c n) ↔ NumberedFrom p (k + 1) (k + 1) c ∧
      NumberedFrom p (k + 1 + c.width) (k + 1 + c.preorder.length) n := by
  constructor
  · intro h
    constructor
    · intro i x hi hpx
      have hi' : (numbered k (node a c n))[i + 1]? = some x := by
        rw [numbered, List.getElem?_cons_succ, List.getElem?_append_left
          (List.getElem?_eq_some_iff.mp hi).1, hi]
      have heq := h (i + 1) x hi' hpx
      omega
    · intro i x hi hpx
      have hi' : (numbered k (node a c n))[c.preorder.length + i + 1]? = some x := by
        rw [numbered, List.getElem?_cons_succ, List.getElem?_append_right
          (by rw [length_numbered]; omega), length_numbered, Nat.add_sub_cancel_left, hi]
      have heq := h _ x hi' hpx
      omega
  · intro h i x hi hpx
    obtain ⟨hc, hn⟩ := h
    cases i with
    | zero =>
        obtain rfl : (k, a) = x := by simpa [numbered] using hi
        rfl
    | succ i =>
        rw [numbered, List.getElem?_cons_succ, List.getElem?_append] at hi
        split at hi
        · have heq := hc i x hi hpx
          omega
        · rename_i hge
          have heq := hn _ x hi hpx
          rw [length_numbered] at heq hge
          omega

/-- **The numbers are the positions**, for the nodes with a property, exactly when these are
counted rightly. -/
theorem numberedFrom_iff (p : α → Bool) (k : ℕ) (f : Forest α) :
    NumberedFrom p k k f ↔ f.Counted p := by
  induction f generalizing k with
  | nil => simp [NumberedFrom, numbered, Counted]
  | node a c n ihc ihn =>
      rw [numberedFrom_node_iff, ihc, Counted]
      rcases Nat.lt_or_eq_of_le c.width_le_length with hlt | heq
      · rw [numberedFrom_of_lt (by omega)]
        constructor
        · intro h
          exact ⟨h.1, counted_of_forall_not h.2, .inr h.2⟩
        · intro h
          exact ⟨h.1, h.2.2.resolve_left (by omega)⟩
      · rw [heq, ihn]
        simp

/-! ## Growth -/

/-- The forest before a growth: the added nodes are taken out, and what is below one of
them moves to its place. -/
def before : Forest (Option α × β) → Forest α
  | nil => nil
  | node (some a, _) c n => node a (before c) (before n)
  | node (none, _) c n => (before c).append (before n)

/-- The forest after a growth. -/
def after (g : Forest (Option α × β)) : Forest β := g.map Prod.snd

/-- In pre-order a growth only inserts. -/
theorem preorder_before (g : Forest (Option α × β)) :
    (before g).preorder = g.preorder.filterMap Prod.fst := by
  induction g with
  | nil => rfl
  | node x c n ihc ihn =>
      rcases x with ⟨_ | a, b⟩
      · simp [before, ihc, ihn]
      · simp [before, ihc, ihn]

@[simp] theorem preorder_after (g : Forest (Option α × β)) :
    (after g).preorder = g.preorder.map Prod.snd := preorder_map Prod.snd g

end Forest
