import Mathlib.Algebra.BigOperators.Group.List.Basic
import Mathlib.Algebra.GroupWithZero.Nat
import Mathlib.Data.List.TakeWhile

/-!
# Lines read through a bounded buffer

A text over any alphabet, with one symbol that ends a line. A bounded reader takes at
most `room` symbols at a time and stops early behind the end of a line, so a line that
fits comes back whole and a longer one comes back in pieces.

## Main definitions

* `takeLine eol room text`: the next piece and what is left.
* `pieces eol room text`: all pieces of a text.
* `unlines eol lines`: the text that writes each line behind the other.
-/

namespace Line

universe u
variable {α : Type u} [DecidableEq α] (eol : α)

/-- The next piece of a text: at most `room` symbols, ending behind the first `eol`. -/
def takeLine : ℕ → List α → List α × List α
  | 0, text => ([], text)
  | _ + 1, [] => ([], [])
  | room + 1, a :: text =>
      if a = eol then ([a], text)
      else
        let next := takeLine room text
        (a :: next.1, next.2)

/-- The pieces of a text, for as long as `fuel` lasts. -/
def piecesFuel (room : ℕ) : ℕ → List α → List (List α)
  | 0, _ => []
  | _ + 1, [] => []
  | fuel + 1, text =>
      let next := takeLine eol room text
      next.1 :: piecesFuel room fuel next.2

/-- The pieces of a text. A piece takes at least one symbol, so that the length of the
text is fuel enough. -/
def pieces (room : ℕ) (text : List α) : List (List α) := piecesFuel eol room text.length text

/-- The text of a list of lines, each ended by `eol`. -/
def unlines (lines : List (List α)) : List α := lines.flatMap (· ++ [eol])

omit [DecidableEq α] in
@[simp] theorem unlines_nil : unlines eol ([] : List (List α)) = [] := rfl
omit [DecidableEq α] in
@[simp] theorem unlines_cons (l : List α) (ls : List (List α)) :
    unlines eol (l :: ls) = l ++ eol :: unlines eol ls := by
  simp [unlines]
omit [DecidableEq α] in
theorem unlines_append (ls ms : List (List α)) :
    unlines eol (ls ++ ms) = unlines eol ls ++ unlines eol ms := by
  simp [unlines]

variable {eol}

variable (eol) in
/-- Nothing is lost between a piece and what is left. -/
theorem takeLine_append (room : ℕ) (text : List α) :
    (takeLine eol room text).1 ++ (takeLine eol room text).2 = text := by
  induction room generalizing text with
  | zero => rfl
  | succ room ih =>
      cases text with
      | nil => rfl
      | cons a text =>
          by_cases ha : a = eol
          · simp [takeLine, ha]
          · simp [takeLine, ha, ih]

variable (eol) in
/-- A piece is a line with its end, a full room, or all that is left. -/
theorem takeLine_cases (room : ℕ) (text : List α) :
    (∃ l, eol ∉ l ∧ l.length < room ∧ (takeLine eol room text).1 = l ++ [eol]) ∨
      eol ∉ (takeLine eol room text).1 ∧ (takeLine eol room text).1.length ≤ room ∧
        ((takeLine eol room text).1.length = room ∨ (takeLine eol room text).2 = []) := by
  induction room generalizing text with
  | zero => exact .inr ⟨by simp [takeLine], Nat.le_refl _, .inl rfl⟩
  | succ room ih =>
      cases text with
      | nil => exact .inr ⟨by simp [takeLine], Nat.zero_le _, .inr rfl⟩
      | cons a text =>
          by_cases ha : a = eol
          · exact .inl ⟨[], by simp, Nat.succ_pos _, by simp [takeLine, ha]⟩
          · rcases ih text with ⟨l, hl, hlen, hpiece⟩ | ⟨hl, hlen, hend⟩
            · refine .inl ⟨a :: l, by simp [hl, Ne.symm ha], by simpa using hlen, ?_⟩
              simp [takeLine, ha, hpiece]
            · refine .inr ⟨by simp [takeLine, ha, hl, Ne.symm ha], ?_, ?_⟩
              · simpa [takeLine, ha] using hlen
              · simpa [takeLine, ha] using hend

variable (eol) in
/-- A piece is not empty as long as there is text. -/
theorem takeLine_length_pos {room : ℕ} (hroom : 0 < room) {text : List α} (htext : text ≠ []) :
    0 < (takeLine eol room text).1.length := by
  obtain ⟨a, rest, rfl⟩ := List.exists_cons_of_ne_nil htext
  obtain ⟨room, rfl⟩ : ∃ k, room = k + 1 := ⟨room - 1, by omega⟩
  by_cases ha : a = eol <;> simp [takeLine, ha]

/-- Of a line that does not fit, the first piece takes as much as there is room for. -/
theorem takeLine_of_long {l : List α} {room : ℕ} (hl : eol ∉ l) (hroom : room ≤ l.length)
    (rest : List α) :
    takeLine eol room (l ++ rest) = (l.take room, l.drop room ++ rest) := by
  induction l generalizing room with
  | nil =>
      obtain rfl : room = 0 := by simpa using hroom
      rfl
  | cons a l ih =>
      cases room with
      | zero => rfl
      | succ room =>
          have ha : a ≠ eol := by
            intro h
            exact hl (by simp [h])
          have hl' : eol ∉ l := by
            intro h
            exact hl (List.mem_cons_of_mem a h)
          simp [takeLine, ha, ih hl' (by simpa using hroom)]

/-- A line that fits comes back whole, together with its end. -/
theorem takeLine_of_fits {l : List α} {room : ℕ} (hl : eol ∉ l) (hroom : l.length < room)
    (rest : List α) : takeLine eol room (l ++ eol :: rest) = (l ++ [eol], rest) := by
  induction l generalizing room with
  | nil =>
      obtain ⟨room, rfl⟩ : ∃ k, room = k + 1 := ⟨room - 1, by simp at hroom; omega⟩
      simp [takeLine]
  | cons a l ih =>
      obtain ⟨room, rfl⟩ : ∃ k, room = k + 1 := ⟨room - 1, by simp at hroom; omega⟩
      have ha : a ≠ eol := by
        intro h
        exact hl (by simp [h])
      have hl' : eol ∉ l := by
        intro h
        exact hl (List.mem_cons_of_mem a h)
      simp [takeLine, ha, ih hl' (by simpa using hroom)]

variable (eol) in
/-- Fuel beyond the length of the text changes nothing. -/
theorem piecesFuel_of_length_le {room : ℕ} (hroom : 0 < room) :
    ∀ {fuel : ℕ} {text : List α}, text.length ≤ fuel →
      piecesFuel eol room fuel text = pieces eol room text := by
  have key : ∀ (n : ℕ) (text : List α) (f g : ℕ), text.length ≤ n → text.length ≤ f →
      text.length ≤ g → piecesFuel eol room f text = piecesFuel eol room g text := by
    intro n
    induction n with
    | zero =>
        intro text f g hn _ _
        obtain rfl : text = [] := List.length_eq_zero_iff.mp (by omega)
        cases f <;> cases g <;> rfl
    | succ n ih =>
        intro text f g hn hf hg
        cases text with
        | nil => cases f <;> cases g <;> rfl
        | cons a text =>
            obtain ⟨f, rfl⟩ : ∃ k, f = k + 1 := ⟨f - 1, by simp at hf; omega⟩
            obtain ⟨g, rfl⟩ : ∃ k, g = k + 1 := ⟨g - 1, by simp at hg; omega⟩
            have hlen : ((takeLine eol room (a :: text)).1 ++
                (takeLine eol room (a :: text)).2).length = (a :: text).length :=
              congrArg List.length (takeLine_append eol room (a :: text))
            have hpos := takeLine_length_pos eol hroom (List.cons_ne_nil a text)
            simp only [List.length_append, List.length_cons] at hlen hn hf hg
            simp only [piecesFuel]
            rw [ih _ f g (by omega) (by omega) (by omega)]
  intro fuel text h
  exact key text.length text fuel text.length (Nat.le_refl _) h (Nat.le_refl _)

@[simp] theorem pieces_nil (room : ℕ) : pieces eol room ([] : List α) = [] := rfl

/-- The first piece and the pieces of what it leaves. -/
theorem pieces_of_ne_nil {room : ℕ} (hroom : 0 < room) {text : List α} (htext : text ≠ []) :
    pieces eol room text =
      (takeLine eol room text).1 :: pieces eol room (takeLine eol room text).2 := by
  have hpos := takeLine_length_pos eol hroom htext
  obtain ⟨a, rest, rfl⟩ := List.exists_cons_of_ne_nil htext
  have hsplit := congrArg List.length (takeLine_append eol room (a :: rest))
  rw [List.length_append, List.length_cons] at hsplit
  have hrest := piecesFuel_of_length_le eol hroom
    (show (takeLine eol room (a :: rest)).2.length ≤ rest.length by omega)
  simp only [pieces, List.length_cons, piecesFuel, hrest]

/-- The pieces of a text that starts with a line that fits. -/
theorem pieces_of_fits {room : ℕ} {l : List α} (hl : eol ∉ l) (hfits : l.length < room)
    (rest : List α) :
    pieces eol room (l ++ eol :: rest) = (l ++ [eol]) :: pieces eol room rest := by
  rw [pieces_of_ne_nil (by omega) (by simp), takeLine_of_fits hl hfits]

/-- The pieces of a text written line by line are the lines, when each of them fits. -/
theorem pieces_unlines {room : ℕ} {lines : List (List α)}
    (h : ∀ l ∈ lines, eol ∉ l ∧ l.length < room) :
    pieces eol room (unlines eol lines) = lines.map (· ++ [eol]) := by
  induction lines with
  | nil => rfl
  | cons l ls ih =>
      have hl := h l (by simp)
      have hls := ih fun m hm => h m (List.mem_cons_of_mem l hm)
      rw [unlines_cons, pieces_of_fits hl.1 hl.2, hls, List.map_cons]

/-- Nothing is lost: the pieces make up the text. -/
theorem flatten_pieces {room : ℕ} (hroom : 0 < room) (text : List α) :
    (pieces eol room text).flatten = text := by
  induction hn : text.length using Nat.strongRecOn generalizing text with
  | ind n ih =>
      by_cases htext : text = []
      · rw [htext, pieces_nil, List.flatten_nil]
      · have hpos := takeLine_length_pos eol hroom htext
        have hsplit := takeLine_append eol room text
        have hlen := congrArg List.length hsplit
        rw [List.length_append] at hlen
        rw [pieces_of_ne_nil hroom htext, List.flatten_cons, ih _ (by omega) _ rfl, hsplit]

/-- A piece is never empty, and never longer than the room. -/
theorem length_of_mem_pieces {room : ℕ} (hroom : 0 < room) {text piece : List α}
    (h : piece ∈ pieces eol room text) : 0 < piece.length ∧ piece.length ≤ room := by
  induction hn : text.length using Nat.strongRecOn generalizing text with
  | ind n ih =>
      by_cases htext : text = []
      · simp [htext] at h
      have hpos := takeLine_length_pos eol hroom htext
      have hlen := congrArg List.length (takeLine_append eol room text)
      rw [List.length_append] at hlen
      rw [pieces_of_ne_nil hroom htext] at h
      rcases List.mem_cons.mp h with rfl | hrest
      · refine ⟨hpos, ?_⟩
        rcases takeLine_cases eol room text with ⟨l, _, hl, hpiece⟩ | ⟨_, hle, _⟩
        · rw [hpiece, List.length_append, List.length_singleton]
          omega
        · exact hle
      · exact ih _ (by omega) hrest rfl

/-- A line takes one piece more than it fills. -/
theorem length_pieces_line {room : ℕ} (hroom : 0 < room) {l : List α} (hl : eol ∉ l)
    (rest : List α) :
    (pieces eol room (l ++ eol :: rest)).length =
      l.length / room + 1 + (pieces eol room rest).length := by
  induction hn : l.length using Nat.strongRecOn generalizing l with
  | ind n ih =>
      subst hn
      by_cases hfits : l.length < room
      · rw [pieces_of_fits hl hfits, List.length_cons, Nat.div_eq_of_lt hfits]
        omega
      · have hlong := takeLine_of_long hl (Nat.not_lt.mp hfits) (eol :: rest)
        have hdrop : eol ∉ l.drop room := fun h => hl (List.mem_of_mem_drop h)
        rw [pieces_of_ne_nil hroom (by simp), hlong, List.length_cons,
          ih _ (by rw [List.length_drop]; omega) hdrop rfl, List.length_drop,
          Nat.div_eq_sub_div hroom (Nat.not_lt.mp hfits)]
        omega

/-- The number of pieces of a text written line by line. -/
theorem length_pieces_unlines {room : ℕ} (hroom : 0 < room) {lines : List (List α)}
    (h : ∀ l ∈ lines, eol ∉ l) :
    (pieces eol room (unlines eol lines)).length =
      (lines.map fun l => l.length / room + 1).sum := by
  induction lines with
  | nil => rfl
  | cons l ls ih =>
      have hls := ih fun m hm => h m (List.mem_cons_of_mem l hm)
      rw [unlines_cons, length_pieces_line hroom (h l (by simp)), hls, List.map_cons,
        List.sum_cons]

/-- As many pieces as lines come back only if every line fits. -/
theorem length_lt_of_length_pieces {room : ℕ} (hroom : 0 < room) {lines : List (List α)}
    (h : ∀ l ∈ lines, eol ∉ l)
    (hlen : (pieces eol room (unlines eol lines)).length = lines.length) :
    ∀ l ∈ lines, l.length < room := by
  rw [length_pieces_unlines hroom h] at hlen
  clear h
  induction lines with
  | nil => simp
  | cons l ls ih =>
      have hle := List.length_le_sum_of_one_le (ls.map fun l => l.length / room + 1) (by simp)
      rw [List.length_map] at hle
      rw [List.map_cons, List.sum_cons, List.length_cons] at hlen
      generalize hq : l.length / room = q at hlen
      have hl : l.length / room = 0 := by omega
      have hls := ih (by omega)
      rw [List.forall_mem_cons]
      exact ⟨Nat.lt_of_div_eq_zero hroom hl, hls⟩

/-! ## Cutting at the line ends -/

omit [DecidableEq α] in
variable (eol) in
theorem length_le_length_unlines (lines : List (List α)) :
    lines.length ≤ (unlines eol lines).length := by
  induction lines with
  | nil => exact Nat.le_refl _
  | cons l ls ih =>
      rw [unlines_cons, List.length_append, List.length_cons, List.length_cons]
      omega

/-- A text that was written line by line, cut at its line ends, is the lines again. -/
theorem splitOn_unlines {lines : List (List α)} (h : ∀ l ∈ lines, eol ∉ l) :
    (unlines eol lines).splitOn eol = lines ++ [[]] := by
  induction lines with
  | nil => simp
  | cons l ls ih =>
      have hls := ih fun m hm => h m (List.mem_cons_of_mem l hm)
      rw [unlines_cons, List.splitOn_append_cons_self, hls,
        List.splitOn_eq_singleton (h l List.mem_cons_self), List.singleton_append,
        List.cons_append]

/-! ## Where the pieces start -/

variable (eol) in
/-- How many symbols of a text stand behind its last line end. -/
def column (text : List α) : ℕ := (text.reverse.takeWhile (· ≠ eol)).length

theorem column_of_notMem {l : List α} (hl : eol ∉ l) : column eol l = l.length := by
  have hall : ∀ a ∈ l.reverse, decide (a ≠ eol) = true := by
    intro a ha
    exact decide_eq_true fun h => hl (h ▸ List.mem_reverse.mp ha)
  rw [column, List.takeWhile_eq_self_iff.mpr hall, List.length_reverse]

/-- What stands in front of a line end does not count. -/
theorem column_append_eol (l t : List α) : column eol (l ++ eol :: t) = column eol t := by
  have hrev : (l ++ eol :: t).reverse = t.reverse ++ eol :: l.reverse := by simp
  rw [column, column, hrev, List.takeWhile_append]
  split
  · rename_i hall
    rw [hall, List.takeWhile_cons_of_neg (by simp), List.append_nil]
  · rfl

/-- A full room in front shifts the column by a multiple of the room. -/
theorem column_append_mod {room : ℕ} {l : List α} (hl : eol ∉ l) (hroom : l.length = room)
    (t : List α) : column eol (l ++ t) % room = column eol t % room := by
  by_cases ht : eol ∈ t
  · obtain ⟨t₁, t₂, rfl⟩ := List.append_of_mem ht
    rw [← List.append_assoc, column_append_eol, column_append_eol]
  · rw [column_of_notMem ht, column_of_notMem (by simp [hl, ht]), List.length_append, hroom,
      Nat.add_mod_left]

section Starts

variable {room : ℕ} {text : List α}

/-- Within a piece only the first symbol is in a column that the room divides. -/
theorem eq_nil_of_column_mod {before after : List α} {a : α}
    (h : (takeLine eol room text).1 = before ++ a :: after)
    (hcolumn : column eol before % room = 0) : before = [] := by
  have hinner : eol ∉ before ∧ before.length < room := by
    rcases takeLine_cases eol room text with ⟨l, hl, hlen, hpiece⟩ | ⟨hl, hlen, _⟩
    · have hfront : before <+: l := by
        have hlast : before ++ a :: after = l ++ [eol] := h.symm.trans hpiece
        rcases List.append_eq_append_iff.mp hlast with ⟨c, hc, _⟩ | ⟨c, hc, hrest⟩
        · exact ⟨c, hc.symm⟩
        · obtain rfl : c = [] := by
            have hlength := congrArg List.length hrest
            simp only [List.length_append, List.length_cons, List.length_nil] at hlength
            exact List.length_eq_zero_iff.mp (by omega)
          exact ⟨[], by simpa using hc⟩
      exact ⟨fun hmem => hl (hfront.subset hmem), Nat.lt_of_le_of_lt hfront.length_le hlen⟩
    · rw [h] at hl hlen
      refine ⟨fun hmem => hl (List.mem_append_left _ hmem), ?_⟩
      rw [List.length_append, List.length_cons] at hlen
      omega
  rw [column_of_notMem hinner.1, Nat.mod_eq_of_lt hinner.2] at hcolumn
  exact List.length_eq_zero_iff.mp hcolumn

variable (eol) in
/-- Behind a piece the columns count from its end, up to multiples of the room. -/
theorem column_takeLine_append (hleft : (takeLine eol room text).2 ≠ []) (t : List α) :
    column eol ((takeLine eol room text).1 ++ t) % room = column eol t % room := by
  rcases takeLine_cases eol room text with ⟨l, _, _, hpiece⟩ | ⟨hl, _, hend⟩
  · rw [hpiece, List.append_assoc, List.singleton_append, column_append_eol]
  · exact column_append_mod hl (hend.resolve_right hleft) t

/-- A symbol in a column that the room divides is at the front of the first piece, or in such
a column behind it. -/
theorem takeLine_cases_of_column {before after : List α} {a : α}
    (h : text = before ++ a :: after) (hcolumn : column eol before % room = 0) :
    a ∈ (takeLine eol room text).1.head? ∨ ∃ c, (takeLine eol room text).2 = c ++ a :: after ∧
      column eol c % room = 0 := by
  have hboth := (takeLine_append eol room text).trans h
  rcases List.append_eq_append_iff.mp hboth with ⟨c, hc, hrest⟩ | ⟨c, hc, hrest⟩
  · have hleft : (takeLine eol room text).2 ≠ [] := by simp [hrest]
    rw [hc, column_takeLine_append eol hleft] at hcolumn
    exact .inr ⟨c, hrest, hcolumn⟩
  · cases c with
    | nil =>
        rw [List.append_nil] at hc
        rw [List.nil_append] at hrest
        have hleft : (takeLine eol room text).2 ≠ [] := hrest ▸ List.cons_ne_nil a after
        have hzero := column_takeLine_append eol hleft []
        rw [List.append_nil, hc, hcolumn] at hzero
        exact .inr ⟨[], hrest.symm, hzero.symm⟩
    | cons b c =>
        obtain ⟨rfl, rfl⟩ := List.cons.inj hrest
        obtain rfl := eq_nil_of_column_mod hc hcolumn
        exact .inl (by simp [hc])

variable (eol) in
/-- **Where the pieces start**: at the symbols whose column the room divides. -/
theorem forall_head_pieces_iff (hroom : 0 < room) (P : α → Prop) (text : List α) :
    (∀ piece ∈ pieces eol room text, ∀ a ∈ piece.head?, P a) ↔
      ∀ before a after, text = before ++ a :: after → column eol before % room = 0 → P a := by
  induction hn : text.length using Nat.strongRecOn generalizing text with
  | ind n ih =>
      by_cases htext : text = []
      · simp [htext]
      have hpos := takeLine_length_pos eol hroom htext
      have hsplit := takeLine_append eol room text
      have hlen := congrArg List.length hsplit
      rw [List.length_append] at hlen
      rw [pieces_of_ne_nil hroom htext, List.forall_mem_cons, ih _ (by omega) _ rfl]
      constructor
      · intro h before a after heq hcolumn
        rcases takeLine_cases_of_column heq hcolumn with hhead | ⟨c, hrest, hc⟩
        · exact h.1 a hhead
        · exact h.2 c a after hrest hc
      · intro h
        constructor
        · intro a ha
          obtain ⟨piece, hpiece⟩ := List.head?_eq_some_iff.mp ha
          refine h [] a (piece ++ (takeLine eol room text).2) ?_ (by simp [column])
          rw [List.nil_append, ← List.cons_append, ← hpiece, hsplit]
        · intro before a after heq hcolumn
          refine h ((takeLine eol room text).1 ++ before) a after ?_ ?_
          · rw [List.append_assoc, ← heq, hsplit]
          · rw [column_takeLine_append eol (by simp [heq]), hcolumn]

end Starts

end Line
