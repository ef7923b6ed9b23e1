import TestTree.Decimal.Literal

/-! # Reading numerals

`read_eq_ok_iff`: a text is read within a bound just if it is a numeral, `IsNumeral`, and its value
does not pass the bound. So the digits of a number are read back (`read_digits`). They are also read
back as a literal without fraction and exponent (`Literal.read_toDigits`, with the digits
`valuesOf`, of which the number is the value); this goes up the digits: those of `n` are those of
`n / 10` and then `n % 10`. -/

namespace TestTree.Text.Numeral

/-! ### Digits -/

theorem digit?_of_isDigit {c : Char} (h : c.isDigit = true) : digit? c = some (c.toNat - 48) := by
  rw [digit?, if_pos (by simpa [Char.isDigit, Char.le_def] using h)]
  rfl

theorem digit?_of_not_isDigit {c : Char} (h : ¬ c.isDigit = true) : digit? c = none := by
  rw [digit?, if_neg (by simpa [Char.isDigit, Char.le_def] using h)]

theorem isDigit_of_mem_digits {c : Char} {n : Nat} (h : c ∈ digits n) : c.isDigit = true :=
  Nat.isDigit_of_mem_toDigits (by decide) (by decide) h

theorem ne_of_mem_digits {c d : Char} {n : Nat} (h : c ∈ digits n) (hd : d.isDigit = false) :
    c ≠ d := by
  rintro rfl
  simp [isDigit_of_mem_digits h] at hd

/-! ### Numerals -/

/-- **A numeral** of a number: an optional plus sign and at least one digit. -/
def IsNumeral (text : List Char) (n : Nat) : Prop :=
  ∃ digits : List Char, (text = digits ∨ text = '+' :: digits) ∧ digits ≠ [] ∧
    (∀ c ∈ digits, c.isDigit = true) ∧ Nat.ofDigitChars 10 digits 0 = n

/-- After a plus sign there are only digits. -/
theorem isNumeral_plus {rest : List Char} {n : Nat} :
    IsNumeral ('+' :: rest) n ↔
      rest ≠ [] ∧ (∀ c ∈ rest, c.isDigit = true) ∧ Nat.ofDigitChars 10 rest 0 = n := by
  constructor
  · rintro ⟨digits, rfl | h, hne, hd, hn⟩
    · exact absurd (hd '+' List.mem_cons_self) (by decide)
    · obtain rfl : rest = digits := (List.cons.inj h).2
      exact ⟨hne, hd, hn⟩
  · rintro ⟨hne, hd, hn⟩
    exact ⟨rest, Or.inr rfl, hne, hd, hn⟩

theorem isNumeral_of_forall_ne {text : List Char} {n : Nat} (h : ∀ rest, text ≠ '+' :: rest) :
    IsNumeral text n ↔
      text ≠ [] ∧ (∀ c ∈ text, c.isDigit = true) ∧ Nat.ofDigitChars 10 text 0 = n := by
  constructor
  · rintro ⟨digits, rfl | ht, hne, hd, hn⟩
    · exact ⟨hne, hd, hn⟩
    · exact absurd ht (h digits)
  · rintro ⟨hne, hd, hn⟩
    exact ⟨text, Or.inl rfl, hne, hd, hn⟩

theorem le_ofDigitChars (value : Nat) (digits : List Char) :
    value ≤ Nat.ofDigitChars 10 digits value := by
  induction digits generalizing value with
  | nil => exact Nat.le_refl value
  | cons c rest ih =>
    have := ih (10 * value + (c.toNat - '0'.toNat))
    rw [Nat.ofDigitChars_cons]
    omega

/-- A value that passes the bound on the way passes it at the end too. -/
theorem readDigits_eq_ok_iff {bound value n : Nat} (hv : value ≤ bound) {text : List Char} :
    readDigits bound value text = .ok n ↔
      (∀ c ∈ text, c.isDigit = true) ∧ Nat.ofDigitChars 10 text value = n ∧ n ≤ bound := by
  induction text generalizing value with
  | nil =>
    rw [readDigits, Nat.ofDigitChars_nil, Except.ok.injEq]
    constructor
    · rintro rfl
      exact ⟨by simp, rfl, hv⟩
    · exact fun h => h.2.1
  | cons c rest ih =>
    rw [readDigits, List.forall_mem_cons]
    by_cases hc : c.isDigit = true
    · have hle := le_ofDigitChars (value * 10 + (c.toNat - 48)) rest
      rw [digit?_of_isDigit hc, Nat.ofDigitChars_cons, Nat.mul_comm 10 value]
      change (if value * 10 + (c.toNat - 48) ≤ bound then _ else _) = _ ↔
        _ ∧ Nat.ofDigitChars 10 rest (value * 10 + (c.toNat - 48)) = n ∧ _
      by_cases hb : value * 10 + (c.toNat - 48) ≤ bound
      · rw [if_pos hb, ih hb, and_iff_right hc]
      · rw [if_neg hb]
        constructor
        · intro h
          cases h
        · rintro ⟨-, rfl, hn⟩
          omega
    · rw [digit?_of_not_isDigit hc]
      constructor
      · intro h
        cases h
      · rintro ⟨⟨hd, -⟩, -⟩
        exact absurd hd hc

/-- **What is read** within a bound are the numerals whose value is within it. -/
theorem read_eq_ok_iff {bound n : Nat} {text : List Char} :
    read bound text = .ok n ↔ IsNumeral text n ∧ n ≤ bound := by
  unfold read
  split
  · rw [isNumeral_of_forall_ne fun rest h => by cases h]
    simp
  · rw [isNumeral_plus]
    simp
  · next digits hne =>
    have hdigits : digits ≠ [] := fun he => hne (by rw [he])
    rw [isNumeral_plus, readDigits_eq_ok_iff (Nat.zero_le bound), and_iff_right hdigits, and_assoc]
  · next hne _ hplus =>
    rw [isNumeral_of_forall_ne hplus, readDigits_eq_ok_iff (Nat.zero_le bound),
      and_iff_right hne, and_assoc]

theorem isNumeral_digits (n : Nat) : IsNumeral (digits n) n :=
  ⟨digits n, Or.inl rfl, Nat.toDigits_ne_nil, fun _ hc => isDigit_of_mem_digits hc,
    Nat.ofDigitChars_toDigits (by decide) (by decide)⟩

/-- **A number is read back** if it is within the bound. -/
theorem read_digits {bound n : Nat} (h : n ≤ bound) : read bound (digits n) = .ok n :=
  read_eq_ok_iff.mpr ⟨isNumeral_digits n, h⟩

end TestTree.Text.Numeral

namespace TestTree.Decimal

open Text.Numeral (digit?_of_isDigit isDigit_of_mem_digits)

/-! ### Literals -/

/-- The values of the digits of a number, from left to right. -/
def valuesOf (n : Nat) : List Nat := (Nat.toDigits 10 n).map fun c => c.toNat - 48

theorem valuesOf_of_lt {n : Nat} (h : n < 10) : valuesOf n = [n] := by
  rw [valuesOf, Nat.toDigits_of_lt_base h, List.map_singleton,
    Nat.toNat_digitChar_sub_48_of_lt_ten h]

theorem valuesOf_of_ge {n : Nat} (h : 10 ≤ n) : valuesOf n = valuesOf (n / 10) ++ [n % 10] := by
  rw [valuesOf, Nat.toDigits_of_base_le (by decide) h, List.map_append, List.map_singleton,
    Nat.toNat_digitChar_sub_48_of_lt_ten (Nat.mod_lt n (by decide))]
  rfl

theorem ofDigits_valuesOf (n : Nat) : ofDigits (valuesOf n) = n := by
  induction n using Nat.strongRecOn with
  | _ n ih =>
    rcases Nat.lt_or_ge n 10 with hn | hn
    · simp [valuesOf_of_lt hn, ofDigits]
    · have := ih (n / 10) (by omega)
      simp only [ofDigits, valuesOf_of_ge hn, List.foldl_append, List.foldl_cons, List.foldl_nil]
        at this ⊢
      rw [this]; omega

/-- Only zero has a zero in front. -/
theorem exists_valuesOf_eq_cons {n : Nat} (h : 0 < n) :
    ∃ d rest, valuesOf n = (d + 1) :: rest := by
  induction n using Nat.strongRecOn with
  | _ n ih =>
    rcases Nat.lt_or_ge n 10 with hn | hn
    · exact ⟨n - 1, [], by rw [valuesOf_of_lt hn, show n - 1 + 1 = n by omega]⟩
    · obtain ⟨d, rest, hd⟩ := ih (n / 10) (by omega) (by omega)
      exact ⟨d, rest ++ [n % 10], by rw [valuesOf_of_ge hn, hd]; rfl⟩

theorem isWhole_valuesOf (n : Nat) : Literal.isWhole (valuesOf n) = true := by
  rcases Nat.eq_zero_or_pos n with rfl | h
  · rw [valuesOf_of_lt (by decide)]; rfl
  · obtain ⟨d, rest, hd⟩ := exists_valuesOf_eq_cons h
    rw [hd]; rfl

theorem takeDigits_of_isDigit {s : List Char} (h : ∀ c ∈ s, c.isDigit = true) :
    takeDigits s = (s.map fun c => c.toNat - 48, []) := by
  induction s with
  | nil => rfl
  | cons c rest ih =>
    rw [takeDigits, digit?_of_isDigit (h c (by simp)), ih fun d hd => h d (by simp [hd])]
    rfl

theorem takeDigits_toDigits (n : Nat) : takeDigits (Nat.toDigits 10 n) = (valuesOf n, []) :=
  takeDigits_of_isDigit fun _ hc => isDigit_of_mem_digits hc

/-- **An integer is read back**, with a minus sign or without. -/
theorem Literal.read_toDigits (negative : Bool) (n : Nat) :
    Literal.read ((if negative then ['-'] else []) ++ Nat.toDigits 10 n) =
      some ⟨negative, valuesOf n, [], none⟩ := by
  have hm : ∀ rest, Nat.toDigits 10 n ≠ '-' :: rest := fun rest he =>
    Text.Numeral.ne_of_mem_digits (n := n) (c := '-') (d := '-')
      (by rw [Text.Numeral.digits, he]; simp) (by decide) rfl
  cases negative with
  | true =>
    simp [Literal.read, takeDigits_toDigits, isWhole_valuesOf, readFraction, readExponent]
  | false =>
    simp only [Bool.false_eq_true, if_false, List.nil_append]
    unfold Literal.read
    split
    next hs =>
    split at hs
    · next rest he => exact absurd he (hm rest)
    · cases hs
      simp [takeDigits_toDigits, isWhole_valuesOf, readFraction, readExponent]

end TestTree.Decimal
