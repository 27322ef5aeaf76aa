import RecordFilter.Text.Numeral
import RecordFilter.Proofs.Text.Runs

namespace RecordFilter.Text

/-! # Numerals of integers

What is read as an integer is one or more digits, with a sign in front of them or not (`integer?_eq_some_iff`), and what is
written for an integer is read as the integer. No character of a numeral is blank, so a numeral is what trimming leaves of it
and blanks around it.
-/

/-- The numeral of an integer: digits, of which the first may be zeros, with a sign in front or not. -/
inductive SignedNumeral : List Char → Int → Prop where
  | unsigned {ds : List Char} (nonempty : ds ≠ []) (digits : ∀ c ∈ ds, c.isDigit) :
    SignedNumeral ds (digitsValue ds)
  | plus {ds : List Char} (nonempty : ds ≠ []) (digits : ∀ c ∈ ds, c.isDigit) :
    SignedNumeral ('+' :: ds) (digitsValue ds)
  | minus {ds : List Char} (nonempty : ds ≠ []) (digits : ∀ c ∈ ds, c.isDigit) :
    SignedNumeral ('-' :: ds) (-digitsValue ds)

/-! ## Characters -/

/-- The characters of numerals, those with a point or an exponent included. -/
def IsNumeralChar (c : Char) : Prop := c.isDigit ∨ c = '+' ∨ c = '-' ∨ c = '.' ∨ c = 'e'

theorem IsNumeralChar.isBlank_eq_false {c : Char} (h : IsNumeralChar c) : isBlank c = false := by
  rcases h with hdigit | rfl | rfl | rfl | rfl
  · obtain ⟨d, hd, rfl⟩ := exists_digitChar hdigit
    have hall : ∀ d < 10, isBlank d.digitChar = false := by decide
    exact hall d hd
  all_goals decide

variable {s : List Char} {n : Int}

/-- A numeral of an integer has neither a point nor an exponent. -/
theorem SignedNumeral.isDigit_or_sign (h : SignedNumeral s n) {c : Char} (hc : c ∈ s) :
    c.isDigit ∨ c = '+' ∨ c = '-' := by
  cases h with
  | unsigned _ digits => exact Or.inl (digits c hc)
  | plus _ digits =>
    rcases List.mem_cons.1 hc with rfl | hmem
    · exact Or.inr (Or.inl rfl)
    · exact Or.inl (digits c hmem)
  | minus _ digits =>
    rcases List.mem_cons.1 hc with rfl | hmem
    · exact Or.inr (Or.inr rfl)
    · exact Or.inl (digits c hmem)

theorem SignedNumeral.isNumeralChar (h : SignedNumeral s n) {c : Char} (hc : c ∈ s) : IsNumeralChar c := by
  rcases h.isDigit_or_sign hc with hdigit | hplus | hminus
  · exact Or.inl hdigit
  · exact Or.inr (Or.inl hplus)
  · exact Or.inr (Or.inr (Or.inl hminus))

/-- Of a numeral between blanks trimming leaves the numeral. -/
theorem SignedNumeral.trim_append {before after : List Char} (h : SignedNumeral s n) (hbefore : ∀ c ∈ before, isBlank c)
    (hafter : ∀ c ∈ after, isBlank c) : trim (before ++ s ++ after) = s := by
  apply Text.trim_append hbefore hafter
  · exact fun c hc => (h.isNumeralChar (List.mem_of_head? hc)).isBlank_eq_false
  · exact fun c hc => (h.isNumeralChar (List.mem_of_getLast? hc)).isBlank_eq_false

/-! ## Reading -/

theorem integer?_of_isDigit {c : Char} (h : c.isDigit) (s : List Char) :
    integer? (c :: s) = (natural? (c :: s)).map Int.ofNat := by
  unfold integer?
  split
  · next heq =>
    cases heq
    cases h
  · next heq =>
    cases heq
    cases h
  · rfl

theorem integer?_of_natural? {m : Nat} (h : natural? s = some m) : integer? s = some (m : Int) := by
  obtain ⟨hne, hdigits, _⟩ := natural?_eq_some_iff.1 h
  obtain ⟨c, ds, rfl⟩ := List.exists_cons_of_ne_nil hne
  rw [integer?_of_isDigit (hdigits c List.mem_cons_self), h]
  rfl

/-- Read as an integer is a numeral of the integer, and nothing else. -/
theorem integer?_eq_some_iff : integer? s = some n ↔ SignedNumeral s n := by
  constructor
  · intro h
    unfold integer? at h
    split at h
    all_goals
      obtain ⟨m, hm, rfl⟩ := Option.map_eq_some_iff.1 h
      obtain ⟨hne, hdigits, rfl⟩ := natural?_eq_some_iff.1 hm
    · exact .plus hne hdigits
    · exact .minus hne hdigits
    · exact .unsigned hne hdigits
  · intro h
    cases h with
    | unsigned hne hdigits => exact integer?_of_natural? (natural?_eq_some_iff.2 ⟨hne, hdigits, rfl⟩)
    | plus hne hdigits =>
      rw [integer?, natural?_eq_some_iff.2 ⟨hne, hdigits, rfl⟩]
      rfl
    | minus hne hdigits =>
      rw [integer?, natural?_eq_some_iff.2 ⟨hne, hdigits, rfl⟩]
      rfl

/-- What is written for an integer is read as the integer. -/
theorem integer?_integer (n : Int) : integer? (integer n) = some n := by
  cases n with
  | ofNat m => exact integer?_of_natural? (natural?_digits m)
  | negSucc m =>
    rw [integer, integer?, natural?_digits]
    rfl

theorem integer?_eq_none_of_mem {c : Char} (hc : c ∈ s) (hdigit : c.isDigit = false) (hplus : c ≠ '+') (hminus : c ≠ '-') :
    integer? s = none := by
  cases h : integer? s with
  | none => rfl
  | some n =>
    rcases (integer?_eq_some_iff.1 h).isDigit_or_sign hc with hdigit' | hsign | hsign
    · rw [hdigit] at hdigit'
      cases hdigit'
    · exact absurd hsign hplus
    · exact absurd hsign hminus

end RecordFilter.Text
