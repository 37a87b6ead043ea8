import ScorepPluginUcx.MetricGrammar
import ScorepPluginUcx.Plugin

/-!
# The address of the rename function

Score-P hands over the address of its rename function as a metric: the name of the event,
an `@` and the address in hexadecimal. `parse_metric` converts the text in base 16, and
also in base 10, for a number that this event does not need.

## Main results

* `strtoull_toDigits`: the conversion in base 16 gives the address back.
* `addressSurvives_iff`: the call stores the address exactly when its leading digit is a
  decimal one.
-/

namespace ScorepPluginUcx

/-! ## Hexadecimal text -/

/-- What the characters of a hexadecimal text are, and what they are not. -/
theorem of_mem_toDigits_sixteen {n : ℕ} {c : Char} (h : c ∈ Nat.toDigits 16 n) :
    isDigitIn 16 c ∧ ¬ isSpace c ∧ c ∉ ['\x00', '@', '+', '-', 'x', 'X'] := by
  obtain ⟨d, hd, rfl⟩ := Digits.exists_digitChar (by decide) h
  have hall : ∀ d < 16, isDigitIn 16 (Nat.digitChar d) ∧ ¬ isSpace (Nat.digitChar d) ∧
      Nat.digitChar d ∉ ['\x00', '@', '+', '-', 'x', 'X'] := by decide
  exact hall d hd

theorem dropHexPrefix_of_notMem {s : Name} (hx : 'x' ∉ s) (hX : 'X' ∉ s) :
    dropHexPrefix 16 s = s := by
  unfold dropHexPrefix
  split
  · rename_i x c cs
    have hne : x ≠ 'x' := fun h => hx (by simp [h])
    have hne' : x ≠ 'X' := fun h => hX (by simp [h])
    simp [hne, hne']
  · rfl

theorem notMem_toDigits_sixteen {c : Char} (h : c ∈ ['\x00', '@', '+', '-', 'x', 'X']) (n : ℕ) :
    c ∉ Nat.toDigits 16 n :=
  fun hmem => (of_mem_toDigits_sixteen hmem).2.2 h

/-- A hexadecimal text begins with a digit at once, without space and sign. -/
theorem start_toDigits_sixteen (n : ℕ) :
    (Nat.toDigits 16 n).dropWhile isSpace = Nat.toDigits 16 n ∧
      signOf (Nat.toDigits 16 n) = [] := by
  constructor
  · exact Span.dropWhile_of_head fun c hc =>
      (of_mem_toDigits_sixteen (List.mem_of_mem_head? hc)).2.1
  · obtain ⟨c, cs, hcons⟩ := List.exists_cons_of_ne_nil (Nat.toDigits_ne_nil (b := 16) (n := n))
    have hc : c ∈ Nat.toDigits 16 n := by simp [hcons]
    rw [hcons]
    refine signOf_of_ne ?_ ?_ cs
    · rintro rfl
      exact notMem_toDigits_sixteen (by simp) n hc
    · rintro rfl
      exact notMem_toDigits_sixteen (by simp) n hc

/-- **The conversion in base 16** gives a 64-bit number back. -/
theorem strtoull_toDigits {n : ℕ} (hn : n < 2 ^ 64) :
    strtoull (Nat.toDigits 16 n) 16 = ⟨n, true, false⟩ := by
  obtain ⟨hspace, hsign⟩ := start_toDigits_sixteen n
  have hcStr : cStr (Nat.toDigits 16 n) = Nat.toDigits 16 n :=
    cStr_of_nul_notMem (notMem_toDigits_sixteen (by simp) n)
  have htake : (Nat.toDigits 16 n).takeWhile (isDigitIn 16) = Nat.toDigits 16 n :=
    List.takeWhile_eq_self_iff.mpr fun c hc => (of_mem_toDigits_sixteen hc).1
  have hprefix := dropHexPrefix_of_notMem (notMem_toDigits_sixteen (c := 'x') (by simp) n)
    (notMem_toDigits_sixteen (c := 'X') (by simp) n)
  have hvalue := digitsValue_toDigits (by decide : 1 < 16) (Nat.le_refl 16) n
  have hfits : n < 18446744073709551616 := hn
  simp [strtoull, hcStr, hspace, dropSign_eq, hsign, hprefix, htake, hvalue, hfits]

/-- The leading digit of a number in base 16. -/
def leadingHexDigit (n : ℕ) : ℕ := n / 16 ^ Nat.log 16 n

theorem leadingHexDigit_lt (n : ℕ) : leadingHexDigit n < 16 := by
  rw [leadingHexDigit, Nat.div_lt_iff_lt_mul (Nat.pow_pos (by decide)), ← Nat.pow_succ']
  exact Nat.lt_pow_succ_log_self (by decide) n

/-- **The conversion in base 10** of the same text succeeds exactly when the leading digit
is a decimal one: sixteen digits are never too many for it. -/
theorem stoull_toDigits_isOk_iff {n : ℕ} (hn : n < 2 ^ 64) :
    (∃ value, stoull (Nat.toDigits 16 n) = .ok value) ↔ leadingHexDigit n < 10 := by
  obtain ⟨hspace, hsign⟩ := start_toDigits_sixteen n
  have hparts : numeralOf (Nat.toDigits 16 n) =
      ([], (Nat.toDigits 16 n).takeWhile (isDigitIn 10)) := by
    simp only [numeralOf, hspace, hsign, List.length_nil, List.drop_zero]
  obtain ⟨c, cs, hcons⟩ := List.exists_cons_of_ne_nil (Nat.toDigits_ne_nil (b := 16) (n := n))
  have hhead : c = (leadingHexDigit n).digitChar := by
    have hhead := Digits.head?_toDigits (b := 16) (by decide) n
    rw [hcons] at hhead
    exact Option.some.inj hhead
  rw [← isDigitIn_ten_digitChar (leadingHexDigit_lt n), ← hhead]
  constructor
  · intro h
    obtain ⟨value, hvalue⟩ := h
    rcases stoull_ok_iff.mp hvalue with ⟨sign, digits, hnumeral, _, _⟩
    have hdigits := (Prod.mk.inj (hnumeral.numeralOf_eq.symm.trans hparts)).2
    by_contra hc
    rw [hcons, List.takeWhile_cons_of_neg hc] at hdigits
    exact hnumeral.digits_ne_nil hdigits
  · intro hc
    have hne : (numeralOf (Nat.toDigits 16 n)).2 ≠ [] := by
      rw [hparts, hcons, List.takeWhile_cons_of_pos hc]
      exact List.cons_ne_nil _ _
    have hnumeral := numeral_of_digits_ne_nil hne
    refine ⟨_, stoull_ok_iff.mpr ⟨_, _, hnumeral, ?_, rfl⟩⟩
    have hlength : (numeralOf (Nat.toDigits 16 n)).2.length ≤ 16 := by
      rw [hparts]
      exact Nat.le_trans (List.takeWhile_prefix _).length_le
        ((Nat.length_toDigits_le_iff (by decide) (by decide)).mpr (by omega))
    calc digitsValue 10 (numeralOf (Nat.toDigits 16 n)).2
        < 10 ^ (numeralOf (Nat.toDigits 16 n)).2.length := digitsValue_lt hnumeral.isDigit
      _ ≤ 10 ^ 16 := Nat.pow_le_pow_right (by decide) hlength
      _ < 2 ^ 64 := by decide

/-! ## The call -/

/-- The metric that hands over an address: the event, an `@` and the address as `%lx`
prints it. -/
def addressMetric (event : Name) (address : UInt64) : Name :=
  event ++ '@' :: Nat.toDigits 16 address.toNat

/-- An address survives its text form: the call does not throw, and stores it. -/
def AddressSurvives (c : Context) (e : Environment) (p : Plugin) (event : Name)
    (address : UInt64) : Prop :=
  ∃ r, getMetricProperties c e (addressMetric event address) p = .ok r ∧
    r.plugin.metricNameUpdateFunc = some address.toNat

/-- **The address is stored** exactly when its leading hexadecimal digit is one of 0 to 9. -/
theorem addressSurvives_iff (c : Context) (e : Environment) (p : Plugin) {event : Name}
    (hevent : event ∈ metricNameUpdateFuncNames) (address : UInt64) :
    AddressSurvives c e p event address ↔ leadingHexDigit address.toNat < 10 := by
  have hfits : address.toNat < 2 ^ 64 := address.toNat_lt
  have hat : '@' ∉ event ∧ event ≠ ucxEvent := by
    have hall : ∀ event ∈ metricNameUpdateFuncNames, '@' ∉ event ∧ event ≠ ucxEvent := by decide
    exact hall event hevent
  have hsplit : split (addressMetric event address) '@' =
      [event, Nat.toDigits 16 address.toNat] :=
    split_eq_pair_iff.mpr ⟨hat.1, notMem_toDigits_sixteen (by simp) _,
      .inl ⟨rfl, Nat.toDigits_ne_nil⟩⟩
  rw [← stoull_toDigits_isOk_iff hfits, AddressSurvives]
  cases hvalue : stoull (Nat.toDigits 16 address.toNat) with
  | error f =>
      simp [getMetricProperties, parseMetric, hsplit, hvalue, bind, Except.bind]
  | ok value =>
      simp [getMetricProperties, parseMetric, hsplit, hvalue, strtoull_toDigits hfits, hat.2,
        hevent, bind, Except.bind]

/-- An address whose text is `7f00`. -/
theorem addressSurvives_decimal_leading :
    AddressSurvives ⟨false, 0⟩ .bare (.init 1 0 false []) "SCOREP_metric_name_update".toList
      0x7f00 :=
  (addressSurvives_iff ⟨false, 0⟩ .bare (.init 1 0 false []) (by decide) 0x7f00).mpr (by decide)

/-- The address 10 is the text `a`, which is no number in base 10: the call throws. -/
theorem address_ten_not_survives :
    ¬ AddressSurvives ⟨false, 0⟩ .bare (.init 1 0 false [])
      "SCOREP_metric_name_update".toList 10 := by
  intro h
  obtain ⟨r, hr, _⟩ := h
  have hthrows : getMetricProperties ⟨false, 0⟩ .bare
      (addressMetric "SCOREP_metric_name_update".toList 10) (.init 1 0 false []) =
        .error .invalidArgument := rfl
  rw [hthrows] at hr
  cases hr

end ScorepPluginUcx
