namespace RecordFilter.Text

/-! # Decimal numerals

Numerals in the ten ASCII digits. Written numerals have no leading zero; read ones may.
-/

/-- The numeral of a natural number, without leading zeros. -/
def digits (n : Nat) : List Char := Nat.toDigits 10 n

/-- The numeral of a natural number as a string. -/
def numeral (n : Nat) : String := String.ofList (digits n)

/-- The number that a run of digits denotes; the empty run denotes zero. -/
def digitsValue (s : List Char) : Nat := Nat.ofDigitChars 10 s 0

/-- Reads one or more digits and nothing else. -/
def natural? (s : List Char) : Option Nat :=
  if s.isEmpty || !s.all Char.isDigit then none else some (digitsValue s)

/-- The numeral of an integer: a minus sign when negative, never a plus sign. -/
def integer : Int → List Char
  | .ofNat n => digits n
  | .negSucc n => '-' :: digits (n + 1)

/-- Reads an optional sign and one or more digits. -/
def integer? : List Char → Option Int
  | '+' :: s => (natural? s).map Int.ofNat
  | '-' :: s => (natural? s).map fun n => -Int.ofNat n
  | s => (natural? s).map Int.ofNat

/-- Read as a number is what has digits and nothing else. -/
theorem natural?_eq_some_iff {s : List Char} {n : Nat} :
    natural? s = some n ↔ s ≠ [] ∧ (∀ c ∈ s, c.isDigit) ∧ digitsValue s = n := by
  unfold natural?
  cases hs : s.isEmpty || !s.all Char.isDigit with
  | true =>
    constructor
    · intro h
      cases h
    · rintro ⟨hne, hdigits, _⟩
      have hall : s.all Char.isDigit = true := List.all_eq_true.2 hdigits
      simp [hne, hall] at hs
  | false =>
    obtain ⟨hempty, hall⟩ := Bool.or_eq_false_iff.1 hs
    have hne : s ≠ [] := by simpa using hempty
    have hdigits : ∀ c ∈ s, c.isDigit := List.all_eq_true.1 (by simpa using hall)
    constructor
    · intro h
      exact ⟨hne, hdigits, Option.some.inj h⟩
    · rintro ⟨_, _, rfl⟩
      rfl

theorem digitsValue_digits (n : Nat) : digitsValue (digits n) = n :=
  Nat.ofDigitChars_toDigits (by decide) (by decide)

theorem isDigit_of_mem_digits {n : Nat} {c : Char} (h : c ∈ digits n) : c.isDigit = true :=
  Nat.isDigit_of_mem_toDigits (by decide) (by decide) h

/-- A written numeral is read as the number it was written from. -/
theorem natural?_digits (n : Nat) : natural? (digits n) = some n := by
  have hne : digits n ≠ [] := Nat.toDigits_ne_nil
  have hall : (digits n).all Char.isDigit = true := by
    rw [List.all_eq_true]
    exact fun _ h => isDigit_of_mem_digits h
  simp [natural?, hne, hall, digitsValue_digits]

/-- The digits are the characters of the numbers below ten. -/
theorem exists_digitChar {c : Char} (h : c.isDigit) : ∃ d, d < 10 ∧ c = d.digitChar := by
  have hrange : 48 ≤ c.toNat ∧ c.toNat ≤ 57 := Char.isDigit_iff_toNat.1 h
  refine ⟨c.toNat - 48, by omega, ?_⟩
  apply Char.toNat_inj.1
  rw [Nat.toNat_digitChar_of_lt_ten (by omega)]
  omega

/-- Digits behind the numeral of a number that is not zero make one numeral with it. -/
theorem digits_ofDigitChars {s : List Char} (hs : ∀ c ∈ s, c.isDigit) {n : Nat} (hn : 0 < n) :
    digits (Nat.ofDigitChars 10 s n) = digits n ++ s := by
  induction s generalizing n with
  | nil => simp
  | cons c s ih =>
    obtain ⟨d, hd, rfl⟩ := exists_digitChar (hs c List.mem_cons_self)
    have hnext : digits (10 * n + d) = digits n ++ [d.digitChar] := by
      rw [digits, ← Nat.toDigits_append_toDigits (by decide) hn hd, Nat.toDigits_of_lt_base hd, digits]
    rw [Nat.ofDigitChars_cons_digitChar_of_lt_ten hd,
      ih (fun c hc => hs c (List.mem_cons_of_mem _ hc)) (by omega), hnext]
    simp

/-- A run of digits that does not start with zero is the numeral of its number. -/
theorem digits_digitsValue {c : Char} {s : List Char} (hc : c ≠ '0') (hs : ∀ d ∈ c :: s, d.isDigit) :
    digits (digitsValue (c :: s)) = c :: s := by
  obtain ⟨d, hd, rfl⟩ := exists_digitChar (hs c List.mem_cons_self)
  have hpos : 0 < d := by
    apply Nat.pos_of_ne_zero
    rintro rfl
    exact hc rfl
  rw [digitsValue, Nat.ofDigitChars_cons_digitChar_of_lt_ten hd,
    digits_ofDigitChars (fun c hc => hs c (List.mem_cons_of_mem _ hc)) (by omega), digits,
    Nat.toDigits_of_lt_base (by omega)]
  simp

end RecordFilter.Text
