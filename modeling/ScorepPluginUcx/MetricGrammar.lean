import Mathlib.Data.List.Induction
import ScorepPluginUcx.Lib.Digits
import ScorepPluginUcx.Lib.Span
import ScorepPluginUcx.Utils

/-!
# The grammar of metrics

A metric is an event, an `@` and a number. `parse_metric` splits with `getline`, which
does not see a delimiter at the very end, and converts with `std::stoull`, which takes a
sign and any value below `2 ^ 64`; the value is then narrowed to 32 bits.

## Main definitions

* `Numeral`: a number text with its sign and its digits.
* `Grammar`: the strings that should be accepted, with event and value.
* `Irregular`: the strings that are accepted in addition.

## Main results

* `split_eq_iff`: the strings that are split into given pieces.
* `parseMetric_ok_iff`: the strings that are accepted.
* `meetsGrammar_iff`: where this agrees with the grammar.
-/

namespace ScorepPluginUcx

/-! ## Splitting -/

theorem splitFrom_of_notMem {delimiter : Char} {s : Name} (h : delimiter ∉ s) (token : Name) :
    splitFrom delimiter token s = if token ++ s = [] then [] else [token ++ s] := by
  induction s generalizing token with
  | nil => simp [splitFrom]
  | cons c s ih =>
      have hne : c ≠ delimiter := fun hc => h (by simp [hc])
      have hrest : delimiter ∉ s := fun hmem => h (List.mem_cons_of_mem c hmem)
      rw [splitFrom, if_neg hne, ih hrest]
      simp

theorem splitFrom_append {delimiter : Char} {t : Name} (h : delimiter ∉ t) (token s : Name) :
    splitFrom delimiter token (t ++ delimiter :: s) =
      (token ++ t) :: splitFrom delimiter [] s := by
  induction t generalizing token with
  | nil => simp [splitFrom]
  | cons c t ih =>
      have hne : c ≠ delimiter := fun hc => h (by simp [hc])
      have hrest : delimiter ∉ t := fun hmem => h (List.mem_cons_of_mem c hmem)
      rw [List.cons_append, splitFrom, if_neg hne, ih hrest]
      simp

theorem split_of_notMem {delimiter : Char} {s : Name} (h : delimiter ∉ s) :
    split s delimiter = if s = [] then [] else [s] := by
  rw [split, splitFrom_of_notMem h, List.nil_append]

theorem split_append {delimiter : Char} {t : Name} (h : delimiter ∉ t) (s : Name) :
    split (t ++ delimiter :: s) delimiter = t :: split s delimiter := by
  rw [split, splitFrom_append h, List.nil_append, split]

theorem split_eq_nil_iff {delimiter : Char} {s : Name} : split s delimiter = [] ↔ s = [] := by
  by_cases h : delimiter ∈ s
  · obtain ⟨t, s, rfl, ht⟩ := List.eq_append_cons_of_mem h
    simp [split_append ht]
  · rw [split_of_notMem h]
    simp

/-- **Two pieces** come from one delimiter, or from two of which the second is at the end. -/
theorem split_eq_pair_iff {delimiter : Char} {s event number : Name} :
    split s delimiter = [event, number] ↔
      delimiter ∉ event ∧ delimiter ∉ number ∧
        (s = event ++ delimiter :: number ∧ number ≠ [] ∨
          s = event ++ delimiter :: (number ++ [delimiter])) := by
  constructor
  · intro h
    by_cases hs : delimiter ∈ s
    · obtain ⟨t, rest, rfl, ht⟩ := List.eq_append_cons_of_mem hs
      rw [split_append ht] at h
      obtain ⟨rfl, hrest⟩ := List.cons.inj h
      by_cases hmore : delimiter ∈ rest
      · obtain ⟨t', rest', rfl, ht'⟩ := List.eq_append_cons_of_mem hmore
        rw [split_append ht'] at hrest
        obtain ⟨rfl, hend⟩ := List.cons.inj hrest
        obtain rfl := split_eq_nil_iff.mp hend
        exact ⟨ht, ht', .inr rfl⟩
      · rw [split_of_notMem hmore] at hrest
        by_cases hnil : rest = []
        · simp [hnil] at hrest
        · rw [if_neg hnil] at hrest
          obtain rfl : rest = number := by simpa using hrest
          exact ⟨ht, hmore, .inl ⟨rfl, hnil⟩⟩
    · rw [split_of_notMem hs] at h
      by_cases hnil : s = [] <;> simp [hnil] at h
  · rintro ⟨hevent, hnumber, ⟨rfl, hnil⟩ | rfl⟩
    · rw [split_append hevent, split_of_notMem hnumber, if_neg hnil]
    · rw [split_append hevent, split_append hnumber]
      rfl

/-- The first piece. -/
theorem split_eq_cons_iff {delimiter : Char} {s t : Name} {ts : List Name} :
    split s delimiter = t :: ts ↔ delimiter ∉ t ∧
      ((∃ rest, s = t ++ delimiter :: rest ∧ split rest delimiter = ts) ∨
        s = t ∧ t ≠ [] ∧ ts = []) := by
  constructor
  · intro h
    by_cases hs : delimiter ∈ s
    · obtain ⟨t', rest, rfl, ht'⟩ := List.eq_append_cons_of_mem hs
      rw [split_append ht'] at h
      obtain ⟨rfl, hrest⟩ := List.cons.inj h
      exact ⟨ht', .inl ⟨rest, rfl, hrest⟩⟩
    · rw [split_of_notMem hs] at h
      by_cases hnil : s = []
      · simp [hnil] at h
      · rw [if_neg hnil] at h
        obtain ⟨rfl, rfl⟩ := List.cons.inj h
        exact ⟨hs, .inr ⟨rfl, hnil, rfl⟩⟩
  · rintro ⟨ht, ⟨rest, rfl, rfl⟩ | ⟨rfl, hnil, rfl⟩⟩
    · exact split_append ht rest
    · rw [split_of_notMem ht, if_neg hnil]

/-- **Splitting inverts joining**: the texts that are split into `tokens` are these joined by the
delimiter, and the same with one more delimiter behind them. A last piece that is empty needs it. -/
theorem split_eq_iff {delimiter : Char} {s : Name} {tokens : List Name} :
    split s delimiter = tokens ↔ (∀ t ∈ tokens, delimiter ∉ t) ∧
      (s = [delimiter].intercalate tokens ∧ tokens.getLast? ≠ some [] ∨
        s = [delimiter].intercalate tokens ++ [delimiter] ∧ tokens ≠ []) := by
  induction tokens generalizing s with
  | nil => simp [split_eq_nil_iff]
  | cons t ts ih =>
      rw [split_eq_cons_iff, List.forall_mem_cons, and_assoc]
      apply and_congr_right
      intro _
      cases ts with
      | nil => simp [split_eq_nil_iff, or_comm]
      | cons u us =>
          have hlast : (t :: u :: us).getLast? = (u :: us).getLast? := List.getLast?_cons_cons
          have hjoin : [delimiter].intercalate (t :: u :: us) =
              t ++ delimiter :: [delimiter].intercalate (u :: us) := by
            simp [List.intercalate]
          rw [hlast, hjoin]
          constructor
          · rintro (⟨rest, rfl, hrest⟩ | ⟨_, _, hnil⟩)
            · obtain ⟨htokens, h⟩ := ih.mp hrest
              refine ⟨htokens, h.imp ?_ ?_⟩
              · exact fun h => ⟨by rw [h.1], h.2⟩
              · exact fun h => ⟨by rw [h.1]; simp, List.cons_ne_nil _ _⟩
            · cases hnil
          · rintro ⟨htokens, ⟨rfl, h⟩ | ⟨rfl, _⟩⟩
            · exact .inl ⟨_, rfl, ih.mpr ⟨htokens, .inl ⟨rfl, h⟩⟩⟩
            · refine .inl ⟨[delimiter].intercalate (u :: us) ++ [delimiter], by simp, ?_⟩
              exact ih.mpr ⟨htokens, .inr ⟨rfl, List.cons_ne_nil _ _⟩⟩

/-! ## Numerals -/

theorem isDigitIn_ten_iff {c : Char} : isDigitIn 10 c ↔ '0' ≤ c ∧ c ≤ '9' := by
  rw [isDigitIn, decide_eq_true_iff, digitValue]
  by_cases h : '0' ≤ c ∧ c ≤ '9'
  · have hle : c.toNat ≤ 57 := h.2
    have hzero : '0'.toNat = 48 := rfl
    rw [if_pos h]
    exact ⟨fun _ => h, fun _ => by omega⟩
  · rw [if_neg h]
    refine ⟨fun hlt => ?_, fun hdigit => absurd hdigit h⟩
    split at hlt
    · omega
    · split at hlt <;> omega

/-- A character that is none of the ten digits is no digit. -/
theorem ne_of_isDigitIn_ten {c d : Char} (h : isDigitIn 10 c) (hd : isDigitIn 10 d = false) :
    c ≠ d := by
  rintro rfl
  simp [h] at hd

theorem not_isSpace_of_isDigitIn_ten {c : Char} (h : isDigitIn 10 c) : ¬ isSpace c := by
  intro hspace
  have hall : [' ', '\t', '\n', '\x0b', '\x0c', '\r'].all (fun d => !isDigitIn 10 d) = true := by
    decide
  have hd := List.all_eq_true.mp hall c (of_decide_eq_true hspace)
  rw [h] at hd
  exact absurd hd (by decide)

/-- A number text begins, after white space, with a sign or none and digits. -/
structure Numeral (number sign digits : Name) : Prop where
  text : ∃ spaces rest, number = spaces ++ (sign ++ (digits ++ rest)) ∧
    (∀ c ∈ spaces, isSpace c) ∧ ∀ c ∈ rest.head?, ¬ isDigitIn 10 c
  sign_mem : sign = [] ∨ sign = ['+'] ∨ sign = ['-']
  digits_ne_nil : digits ≠ []
  isDigit : ∀ c ∈ digits, isDigitIn 10 c

/-- The sign that a text begins with, or nothing. -/
def signOf : Name → Name
  | '+' :: _ => ['+']
  | '-' :: _ => ['-']
  | _ => []

theorem signOf_cases (body : Name) :
    (signOf body = [] ∨ signOf body = ['+'] ∨ signOf body = ['-']) ∧
      body = signOf body ++ body.drop (signOf body).length := by
  unfold signOf
  split <;> simp

theorem signOf_of_ne {c : Char} (hplus : c ≠ '+') (hminus : c ≠ '-') (cs : Name) :
    signOf (c :: cs) = [] := by
  unfold signOf
  split <;> simp_all

/-- `strtoull` drops the sign, and remembers a minus. -/
theorem dropSign_eq (body : Name) :
    dropSign body = (decide (signOf body = ['-']), body.drop (signOf body).length) := by
  unfold dropSign signOf
  split <;> simp_all

/-- The sign and the digits that a text begins with after white space. -/
def numeralOf (number : Name) : Name × Name :=
  let body := number.dropWhile isSpace
  (signOf body, (body.drop (signOf body).length).takeWhile (isDigitIn 10))

/-- A text has one sign and one list of digits. -/
theorem Numeral.numeralOf_eq {number sign digits : Name} (h : Numeral number sign digits) :
    numeralOf number = (sign, digits) := by
  rcases h.text with ⟨spaces, rest, rfl, hspaces, hrest⟩
  obtain ⟨d, ds, rfl⟩ := List.exists_cons_of_ne_nil h.digits_ne_nil
  have hd : isDigitIn 10 d := h.isDigit d List.mem_cons_self
  have hplus : d ≠ '+' := ne_of_isDigitIn_ten hd (by decide)
  have hminus : d ≠ '-' := ne_of_isDigitIn_ten hd (by decide)
  have hdigits := Span.takeWhile_append h.isDigit hrest
  have hbody : (spaces ++ (sign ++ (d :: ds ++ rest))).dropWhile isSpace =
      sign ++ (d :: ds ++ rest) := by
    apply Span.dropWhile_append hspaces
    rcases h.sign_mem with rfl | rfl | rfl
    · simpa using not_isSpace_of_isDigitIn_ten hd
    · simp [isSpace]
    · simp [isSpace]
  have hsign : signOf (sign ++ (d :: ds ++ rest)) = sign := by
    rcases h.sign_mem with rfl | rfl | rfl
    · exact signOf_of_ne hplus hminus _
    · rfl
    · rfl
  simp only [numeralOf, hbody, hsign, List.drop_left, hdigits]

theorem numeral_of_digits_ne_nil {number : Name} (h : (numeralOf number).2 ≠ []) :
    Numeral number (numeralOf number).1 (numeralOf number).2 := by
  have hbody : ((numeralOf number).1 = [] ∨ (numeralOf number).1 = ['+'] ∨
      (numeralOf number).1 = ['-']) ∧ number.dropWhile isSpace = (numeralOf number).1 ++
        (number.dropWhile isSpace).drop (numeralOf number).1.length := signOf_cases _
  refine ⟨⟨number.takeWhile isSpace, ((number.dropWhile isSpace).drop
    (numeralOf number).1.length).dropWhile (isDigitIn 10), ?_, ?_, ?_⟩, hbody.1, h, ?_⟩
  · have hsplit : (numeralOf number).2 ++ ((number.dropWhile isSpace).drop
        (numeralOf number).1.length).dropWhile (isDigitIn 10) =
        (number.dropWhile isSpace).drop (numeralOf number).1.length :=
      List.takeWhile_append_dropWhile
    rw [hsplit, ← hbody.2, List.takeWhile_append_dropWhile]
  · exact fun c hc => List.mem_takeWhile_imp hc
  · exact Span.head_dropWhile _
  · exact fun c hc => List.mem_takeWhile_imp hc

/-- A NUL ends a numeral like any other character that is no digit. -/
theorem numeral_cStr_iff {number sign digits : Name} :
    Numeral (cStr number) sign digits ↔ Numeral number sign digits := by
  constructor
  · intro h
    rcases h.text with ⟨spaces, rest, htext, hspaces, hrest⟩
    refine ⟨⟨spaces, rest ++ number.dropWhile (· ≠ '\x00'), ?_, hspaces, ?_⟩, h.sign_mem,
      h.digits_ne_nil, h.isDigit⟩
    · have hsplit : cStr number ++ number.dropWhile (· ≠ '\x00') = number :=
        List.takeWhile_append_dropWhile
      rw [htext] at hsplit
      simpa using hsplit.symm
    · cases rest with
      | cons c cs => simpa using hrest
      | nil =>
          intro c hc
          have hnul := Span.head_dropWhile number c hc
          obtain rfl : c = '\x00' := by simpa using hnul
          decide
  · intro h
    rcases h.text with ⟨spaces, rest, rfl, hspaces, hrest⟩
    refine ⟨⟨spaces, cStr rest, ?_, hspaces, ?_⟩, h.sign_mem, h.digits_ne_nil, h.isDigit⟩
    · have hnul : ∀ c ∈ spaces ++ (sign ++ digits), decide (c ≠ '\x00') = true := by
        intro c hc
        rw [decide_eq_true_iff]
        rintro rfl
        rcases List.mem_append.mp hc with hc | hc
        · exact absurd (hspaces _ hc) (by decide)
        · rcases List.mem_append.mp hc with hc | hc
          · rcases h.sign_mem with rfl | rfl | rfl
            · cases hc
            · exact absurd hc (by decide)
            · exact absurd hc (by decide)
          · exact absurd (h.isDigit _ hc) (by decide)
      have hword : cStr (spaces ++ (sign ++ digits) ++ rest) = spaces ++ (sign ++ digits) ++
          cStr rest := List.takeWhile_append_of_pos hnul
      simpa using hword
    · intro c hc
      apply hrest
      cases rest with
      | nil => cases hc
      | cons d ds =>
          by_cases hd : d = '\x00'
          · simp [cStr, hd] at hc
          · simpa [cStr, hd] using hc

/-! ## Digits and their values -/

theorem digitsValue_append_singleton (base : ℕ) (digits : Name) (c : Char) :
    digitsValue base (digits ++ [c]) = digitsValue base digits * base + digitValue c := by
  rw [digitsValue, List.foldl_append]
  rfl

theorem digitValue_digitChar {d : ℕ} (h : d < 16) : digitValue d.digitChar = d := by
  have hall : ∀ d < 16, digitValue (Nat.digitChar d) = d := by decide
  exact hall d h

/-- The digits that write a number have its value. -/
theorem digitsValue_toDigits {base : ℕ} (hone : 1 < base) (hbase : base ≤ 16) (n : ℕ) :
    digitsValue base (Nat.toDigits base n) = n := by
  induction n using Nat.strongRecOn with
  | ind n ih =>
      rw [Nat.toDigits_eq_if hone]
      by_cases hn : n < base
      · rw [if_pos hn]
        have hdigit := digitValue_digitChar (show n < 16 by omega)
        simpa [digitsValue] using hdigit
      · have hmod : n % base < base := Nat.mod_lt _ (by omega)
        rw [if_neg hn, digitsValue_append_singleton, ih _ (Nat.div_lt_self (by omega) hone),
          digitValue_digitChar (by omega), Nat.mul_comm, Nat.div_add_mod]

theorem digitsValue_lt {base : ℕ} {digits : Name} (h : ∀ c ∈ digits, isDigitIn base c) :
    digitsValue base digits < base ^ digits.length := by
  induction digits using List.reverseRecOn with
  | nil => simp [digitsValue]
  | append_singleton digits c ih =>
      have hc : digitValue c < base := of_decide_eq_true (h c (by simp))
      have hdigits := ih fun d hd => h d (List.mem_append_left _ hd)
      rw [digitsValue_append_singleton, List.length_append, List.length_singleton, Nat.pow_succ]
      calc digitsValue base digits * base + digitValue c
          < digitsValue base digits * base + base := by omega
        _ = (digitsValue base digits + 1) * base := by rw [Nat.add_mul, Nat.one_mul]
        _ ≤ base ^ digits.length * base := Nat.mul_le_mul_right base hdigits

theorem isDigitIn_ten_digitChar {d : ℕ} (h : d < 16) :
    isDigitIn 10 d.digitChar ↔ d < 10 := by
  rw [isDigitIn, digitValue_digitChar h, decide_eq_true_iff]

/-! ## Conversion -/

/-- What `strtoull` makes of a numeral that is not too large: a negative one wraps. -/
def numeralValue (sign digits : Name) : ℕ :=
  if sign = ['-'] then (2 ^ 64 - digitsValue 10 digits) % 2 ^ 64 else digitsValue 10 digits

theorem dropHexPrefix_ten (s : Name) : dropHexPrefix 10 s = s := by
  unfold dropHexPrefix
  split <;> simp

/-- `strtoull` in base 10 converts the numeral that the text begins with. -/
theorem strtoull_ten (number : Name) :
    strtoull number 10 =
      if 2 ^ 64 ≤ digitsValue 10 (numeralOf (cStr number)).2 then ⟨2 ^ 64 - 1, true, true⟩
      else ⟨numeralValue (numeralOf (cStr number)).1 (numeralOf (cStr number)).2,
        (numeralOf (cStr number)).2 ≠ [], false⟩ := by
  have hsign : dropSign ((cStr number).dropWhile isSpace) =
      (decide ((numeralOf (cStr number)).1 = ['-']),
        ((cStr number).dropWhile isSpace).drop (numeralOf (cStr number)).1.length) :=
    dropSign_eq _
  have hdigits : (((cStr number).dropWhile isSpace).drop
      (numeralOf (cStr number)).1.length).takeWhile (isDigitIn 10) =
      (numeralOf (cStr number)).2 := rfl
  simp only [strtoull, hsign, dropHexPrefix_ten, hdigits, numeralValue, decide_eq_true_eq]

/-- **`std::stoull`** takes the texts that begin with a numeral below `2 ^ 64`. -/
theorem stoull_ok_iff {number : Name} {value : ℕ} :
    stoull number = .ok value ↔ ∃ sign digits, Numeral number sign digits ∧
      digitsValue 10 digits < 2 ^ 64 ∧ value = numeralValue sign digits := by
  constructor
  · intro h
    rw [stoull, strtoull_ten] at h
    by_cases hlarge : 2 ^ 64 ≤ digitsValue 10 (numeralOf (cStr number)).2
    · rw [if_pos hlarge] at h
      simp at h
    · rw [if_neg hlarge] at h
      by_cases hnil : (numeralOf (cStr number)).2 = []
      · simp [hnil] at h
      · have hvalue : numeralValue (numeralOf (cStr number)).1 (numeralOf (cStr number)).2 =
            value := by
          simpa [hnil] using h
        exact ⟨_, _, numeral_cStr_iff.mp (numeral_of_digits_ne_nil hnil), Nat.not_le.mp hlarge,
          hvalue.symm⟩
  · intro h
    obtain ⟨sign, digits, hnumeral, hlt, rfl⟩ := h
    have hparts := (numeral_cStr_iff.mpr hnumeral).numeralOf_eq
    rw [stoull, strtoull_ten, hparts, if_neg (Nat.not_le.mpr hlt)]
    simp [hnumeral.digits_ne_nil]

/-- A number that is written out is a numeral. -/
theorem numeral_toDigits (n : ℕ) : Numeral (Nat.toDigits 10 n) [] (Nat.toDigits 10 n) := by
  refine ⟨⟨[], [], by simp, by simp, by simp⟩, .inl rfl, Nat.toDigits_ne_nil, ?_⟩
  intro c hc
  obtain ⟨d, hd, rfl⟩ := Digits.exists_digitChar (by decide) hc
  exact (isDigitIn_ten_digitChar (by omega)).mpr hd

theorem stoull_toDigits {n value : ℕ} :
    stoull (Nat.toDigits 10 n) = .ok value ↔ n < 2 ^ 64 ∧ value = n := by
  have hvalue := digitsValue_toDigits (by decide : 1 < 10) (by decide) n
  rw [stoull_ok_iff]
  constructor
  · intro h
    obtain ⟨sign, digits, hnumeral, hlt, rfl⟩ := h
    have hsame := (numeral_toDigits n).numeralOf_eq.symm.trans hnumeral.numeralOf_eq
    obtain ⟨rfl, rfl⟩ := Prod.mk.inj hsame
    rw [hvalue] at hlt
    exact ⟨hlt, by rw [numeralValue, if_neg (by simp), hvalue]⟩
  · intro h
    obtain ⟨hlt, rfl⟩ := h
    refine ⟨[], _, numeral_toDigits value, by rwa [hvalue], ?_⟩
    rw [numeralValue, if_neg (by simp), hvalue]

/-- **`parse_metric`** accepts an event, an `@` and a text that begins with a numeral below
`2 ^ 64`, and the same with a further `@` at the end. -/
theorem parseMetric_ok_iff {s event : Name} {dummy hexDummy : ℕ} :
    parseMetric s = .ok ⟨event, dummy, hexDummy⟩ ↔
      ∃ number sign digits, '@' ∉ event ∧ '@' ∉ number ∧
        (s = event ++ '@' :: number ∨ s = event ++ '@' :: (number ++ ['@'])) ∧
        Numeral number sign digits ∧ digitsValue 10 digits < 2 ^ 64 ∧
        dummy = numeralValue sign digits % 2 ^ 32 ∧ hexDummy = (strtoull number 16).value := by
  have hne : ∀ {number sign digits : Name}, Numeral number sign digits → number ≠ [] := by
    rintro number sign digits hnumeral rfl
    rcases hnumeral.text with ⟨spaces, rest, htext, _⟩
    have hdigits := hnumeral.digits_ne_nil
    simp_all
  constructor
  · intro h
    rw [parseMetric] at h
    split at h
    · rename_i event' number hsplit
      cases hvalue : stoull number with
      | error f => simp [hvalue, bind, Except.bind] at h
      | ok value =>
          simp only [hvalue, bind, Except.bind, Except.ok.injEq, ParsedMetric.mk.injEq] at h
          rcases h with ⟨rfl, rfl, rfl⟩
          rcases split_eq_pair_iff.mp hsplit with ⟨hevent, hnumber, hs⟩
          rcases stoull_ok_iff.mp hvalue with ⟨sign, digits, hnumeral, hlt, rfl⟩
          exact ⟨number, sign, digits, hevent, hnumber, hs.imp_left And.left, hnumeral, hlt,
            rfl, rfl⟩
    · cases h
  · intro h
    obtain ⟨number, sign, digits, hevent, hnumber, hs, hnumeral, hlt, rfl, rfl⟩ := h
    have hsplit : split s '@' = [event, number] :=
      split_eq_pair_iff.mpr ⟨hevent, hnumber, hs.imp_left fun hs => ⟨hs, hne hnumeral⟩⟩
    have hvalue := stoull_ok_iff.mpr ⟨sign, digits, hnumeral, hlt, rfl⟩
    simp only [parseMetric, hsplit, hvalue, bind, Except.bind]

/-! ## The grammar -/

/-- The strings that should be accepted: one `@`, behind it an unsigned decimal numeral
below `2 ^ 32`, and then anything. -/
def Grammar (s event : Name) (value : ℕ) : Prop :=
  ∃ number digits, '@' ∉ event ∧ '@' ∉ number ∧ s = event ++ '@' :: number ∧
    Numeral number [] digits ∧ digitsValue 10 digits = value ∧ value < 2 ^ 32

/-- `parse_metric` meets the grammar on a string: it returns exactly what the grammar says,
and with a suffix that begins with `_` it returns the same. -/
structure MeetsGrammar (s : Name) : Prop where
  accepts : ∀ event value,
    (∃ hexDummy, parseMetric s = .ok ⟨event, value, hexDummy⟩) ↔ Grammar s event value
  suffix : ∀ suffix event value hexDummy, '@' ∉ suffix → suffix.head? = some '_' →
    parseMetric s = .ok ⟨event, value, hexDummy⟩ →
    ∃ hexDummy', parseMetric (s ++ suffix) = .ok ⟨event, value, hexDummy'⟩

/-- The strings that are accepted beyond the grammar: a second `@` at the end, a sign in
front of the digits, or a value that does not fit into 32 bits. -/
def Irregular (s : Name) : Prop :=
  ∃ event number sign digits, '@' ∉ event ∧ '@' ∉ number ∧ Numeral number sign digits ∧
    digitsValue 10 digits < 2 ^ 64 ∧
    (s = event ++ '@' :: (number ++ ['@']) ∨
      s = event ++ '@' :: number ∧ (sign ≠ [] ∨ 2 ^ 32 ≤ digitsValue 10 digits))

/-- What is accepted is in the grammar, or irregular. -/
theorem grammar_or_irregular {s event : Name} {dummy hexDummy : ℕ}
    (h : parseMetric s = .ok ⟨event, dummy, hexDummy⟩) : Grammar s event dummy ∨ Irregular s := by
  rcases parseMetric_ok_iff.mp h with
    ⟨number, sign, digits, hevent, hnumber, hs, hnumeral, hlt, rfl, _⟩
  rcases hs with hs | hs
  · by_cases hsign : sign = []
    · by_cases hvalue : digitsValue 10 digits < 2 ^ 32
      · subst hsign
        have hnarrow : numeralValue [] digits % 2 ^ 32 = digitsValue 10 digits := by
          rw [numeralValue, if_neg (by simp), Nat.mod_eq_of_lt hvalue]
        exact .inl ⟨number, digits, hevent, hnumber, hs, hnumeral, hnarrow.symm,
          hnarrow ▸ hvalue⟩
      · exact .inr ⟨event, number, sign, digits, hevent, hnumber, hnumeral, hlt,
          .inr ⟨hs, .inr (Nat.not_lt.mp hvalue)⟩⟩
    · exact .inr ⟨event, number, sign, digits, hevent, hnumber, hnumeral, hlt,
        .inr ⟨hs, .inl hsign⟩⟩
  · exact .inr ⟨event, number, sign, digits, hevent, hnumber, hnumeral, hlt, .inl hs⟩

/-- A suffix that begins with `_` lies behind the digits. -/
theorem Numeral.append {number sign digits suffix : Name} (h : Numeral number sign digits)
    (hsuffix : suffix.head? = some '_') : Numeral (number ++ suffix) sign digits := by
  rcases h.text with ⟨spaces, rest, rfl, hspaces, hrest⟩
  refine ⟨⟨spaces, rest ++ suffix, by simp, hspaces, ?_⟩, h.sign_mem, h.digits_ne_nil, h.isDigit⟩
  intro c hc
  cases rest with
  | nil =>
      obtain rfl : '_' = c := by simpa [hsuffix] using hc
      decide
  | cons d ds => exact hrest c (by simpa using hc)

/-- A string of the grammar is accepted. -/
theorem Grammar.parseMetric_ok {s event : Name} {value : ℕ} (h : Grammar s event value) :
    ∃ hexDummy, parseMetric s = .ok ⟨event, value, hexDummy⟩ := by
  rcases h with ⟨number, digits, hevent, hnumber, rfl, hnumeral, rfl, hlt⟩
  have hnarrow : numeralValue [] digits % 2 ^ 32 = digitsValue 10 digits := by
    rw [numeralValue, if_neg (by simp), Nat.mod_eq_of_lt hlt]
  exact ⟨_, parseMetric_ok_iff.mpr ⟨number, [], digits, hevent, hnumber, .inl rfl, hnumeral,
    by omega, hnarrow.symm, rfl⟩⟩

theorem Grammar.append {s event suffix : Name} {value : ℕ} (h : Grammar s event value)
    (hat : '@' ∉ suffix) (hsuffix : suffix.head? = some '_') :
    Grammar (s ++ suffix) event value := by
  rcases h with ⟨number, digits, hevent, hnumber, rfl, hnumeral, hvalue, hlt⟩
  exact ⟨number ++ suffix, digits, hevent, by simp [hnumber, hat], by simp,
    hnumeral.append hsuffix, hvalue, hlt⟩

/-- An irregular string is accepted, but is not in the grammar. -/
theorem Irregular.not_meetsGrammar {s : Name} (h : Irregular s) : ¬ MeetsGrammar s := by
  rcases h with ⟨event, number, sign, digits, hevent, hnumber, hnumeral, hlt, hs⟩
  intro hmeets
  have hok : parseMetric s = .ok ⟨event, numeralValue sign digits % 2 ^ 32,
      (strtoull number 16).value⟩ := by
    refine parseMetric_ok_iff.mpr ⟨number, sign, digits, hevent, hnumber, ?_, hnumeral, hlt,
      rfl, rfl⟩
    rcases hs with hs | hs
    · exact .inr hs
    · exact .inl hs.1
  rcases (hmeets.accepts _ _).mp ⟨_, hok⟩ with
    ⟨number', digits', _, hnumber', hs', hnumeral', _, hvalue⟩
  rcases hs with rfl | ⟨rfl, hbeyond⟩
  · obtain rfl : number ++ ['@'] = number' := by simpa using hs'
    exact hnumber' (by simp)
  · obtain rfl : number = number' := by simpa using hs'
    have hsame := hnumeral.numeralOf_eq.symm.trans hnumeral'.numeralOf_eq
    obtain ⟨rfl, rfl⟩ := Prod.mk.inj hsame
    rcases hbeyond with hsign | hlarge
    · exact hsign rfl
    · omega

/-- **`parse_metric` meets the grammar** on exactly the strings that are not irregular. -/
theorem meetsGrammar_iff (s : Name) : MeetsGrammar s ↔ ¬ Irregular s := by
  constructor
  · intro hmeets hirregular
    exact hirregular.not_meetsGrammar hmeets
  · intro hregular
    constructor
    · intro event value
      constructor
      · intro h
        obtain ⟨hexDummy, hok⟩ := h
        exact (grammar_or_irregular hok).resolve_right hregular
      · exact Grammar.parseMetric_ok
    · intro suffix event value hexDummy hat hsuffix hok
      exact (((grammar_or_irregular hok).resolve_right hregular).append hat hsuffix).parseMetric_ok

/-- A final `@` is not seen, a sign is taken, and `2 ^ 32` is narrowed to 0. -/
theorem irregular_not_meetsGrammar :
    ¬ MeetsGrammar "UCX@1@".toList ∧ ¬ MeetsGrammar "UCX@-1".toList ∧
      ¬ MeetsGrammar "UCX@4294967296".toList := by
  refine ⟨Irregular.not_meetsGrammar ?_, Irregular.not_meetsGrammar ?_,
    Irregular.not_meetsGrammar ?_⟩
  · exact ⟨"UCX".toList, "1".toList, _, _, by decide, by decide,
      numeral_of_digits_ne_nil (by decide), by decide, .inl rfl⟩
  · exact ⟨"UCX".toList, "-1".toList, _, _, by decide, by decide,
      numeral_of_digits_ne_nil (by decide), by decide, .inr ⟨rfl, .inl (by decide)⟩⟩
  · exact ⟨"UCX".toList, "4294967296".toList, _, _, by decide, by decide,
      numeral_of_digits_ne_nil (by decide), by decide, .inr ⟨rfl, .inr (by decide)⟩⟩

end ScorepPluginUcx
