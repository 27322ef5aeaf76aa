import RecordFilter.Decimal.Numeral
import RecordFilter.Proofs.Json.Numerals
import RecordFilter.Proofs.Text.Numerals
import Mathlib.Data.Option.Basic

namespace RecordFilter

/-! # The texts of numbers as numerals

A number in JSON is also a numeral of the wider kind, and means the same there: the parts of its token are found again
between the sign, the point and the letter (`NumberToken.ofText?_text`). So the text of a float reads as the float, and the
text of an integer as the float nearest to it.
-/

namespace Json

open Text (IsNumeralChar)

/-! ## Parts of a token -/

section Parts

variable {fraction : Option (List Char)} {exponent : Option Int} {c : Char}

theorem eq_point_or_mem_of_mem_fraction (h : c ∈ fraction.elim [] ('.' :: ·)) : c = '.' ∨ c ∈ fraction.getD [] := by
  cases fraction with
  | none => cases h
  | some ds => exact List.mem_cons.1 h

theorem eq_point_of_head?_fraction (h : (fraction.elim [] ('.' :: ·)).head? = some c) : c = '.' := by
  cases fraction with
  | none => cases h
  | some ds =>
    cases h
    rfl

theorem drop_fraction : (fraction.elim [] ('.' :: ·)).drop 1 = fraction.getD [] := by
  cases fraction with
  | none => rfl
  | some ds => rfl

theorem isNumeralChar_of_mem_exponent (h : c ∈ exponent.elim [] exponentText) : IsNumeralChar c := by
  cases exponent with
  | none => cases h
  | some e =>
    rw [Option.elim_some, exponentText, List.mem_cons, List.mem_cons] at h
    rcases h with rfl | rfl | hdigit
    · exact Or.inr (Or.inr (Or.inr (Or.inr rfl)))
    · split
      · exact Or.inr (Or.inr (Or.inl rfl))
      · exact Or.inr (Or.inl rfl)
    · exact Or.inl (Text.isDigit_of_mem_digits hdigit)

theorem eq_letter_of_head?_exponent (h : (exponent.elim [] exponentText).head? = some c) : c = 'e' := by
  cases exponent with
  | none => cases h
  | some e =>
    cases h
    rfl

/-- The sign and the digits of an exponent are the numeral of it. -/
theorem integer?_tail_exponentText (e : Int) : Text.integer? (exponentText e).tail = some e := by
  rw [exponentText, List.tail_cons]
  split
  · rw [Text.integer?, Text.natural?_digits, Option.map_some, Option.some.injEq]
    show -(e.natAbs : Int) = e
    omega
  · rw [Text.integer?, Text.natural?_digits, Option.map_some, Option.some.injEq]
    show (e.natAbs : Int) = e
    omega

/-- A digit is neither the letter of an exponent nor a point. -/
theorem isDigit_ne_mark (h : c.isDigit) : (c != 'e' && c != 'E') ∧ c != '.' := by
  obtain ⟨d, hd, rfl⟩ := Text.exists_digitChar h
  have hall : ∀ d < 10, (d.digitChar != 'e' && d.digitChar != 'E') ∧ d.digitChar != '.' := by decide
  exact hall d hd

end Parts

/-! ## Tokens -/

theorem ofText?_of_isDigit {c : Char} (h : c.isDigit) (s : List Char) :
    Binary64.ofText? (c :: s) = (Decimal.ofText? (c :: s)).bind (Decimal.toBinary64? false) := by
  unfold Binary64.ofText?
  split
  · next heq =>
    cases heq
    cases h
  · next heq =>
    cases heq
    cases h
  · rfl

section Tokens

variable {t : NumberToken} (ht : t.Grammatical)

include ht

theorem NumberToken.Grammatical.isDigit_of_mem_fraction {c : Char} (hc : c ∈ t.fraction.getD []) : c.isDigit := by
  cases hds : t.fraction with
  | none =>
    rw [hds] at hc
    cases hc
  | some ds =>
    rw [hds] at hc
    exact (ht.fraction ds hds).2 c hc

/-- Each character of a token is one of those of numerals. -/
theorem NumberToken.Grammatical.isNumeralChar {c : Char} (hc : c ∈ t.text) : IsNumeralChar c := by
  rw [text, List.mem_append, List.mem_append, List.mem_append] at hc
  rcases hc with hsign | hwhole | hfraction | hexponent
  · split at hsign
    · exact Or.inr (Or.inr (Or.inl (List.mem_singleton.1 hsign)))
    · cases hsign
  · exact Or.inl (ht.digits c hwhole)
  · rcases eq_point_or_mem_of_mem_fraction hfraction with hpoint | hdigit
    · exact Or.inr (Or.inr (Or.inr (Or.inl hpoint)))
    · exact Or.inl (ht.isDigit_of_mem_fraction hdigit)
  · exact isNumeralChar_of_mem_exponent hexponent

/-- Behind its sign a token is read as its decimal. -/
theorem NumberToken.Grammatical.decimalOfText? :
    Decimal.ofText? (t.whole ++ (t.fraction.elim [] ('.' :: ·) ++ t.exponent.elim [] exponentText)) =
      some t.decimal := by
  -- in front of the exponent there are digits and a point
  have hmantissa : ∀ c ∈ t.whole ++ t.fraction.elim [] ('.' :: ·), c != 'e' && c != 'E' := by
    intro c hc
    rcases List.mem_append.1 hc with hwhole | hback
    · exact (isDigit_ne_mark (ht.digits c hwhole)).1
    · rcases eq_point_or_mem_of_mem_fraction hback with rfl | hdigit
      · decide
      · exact (isDigit_ne_mark (ht.isDigit_of_mem_fraction hdigit)).1
  have hletter : ∀ c, (t.exponent.elim [] exponentText).head? = some c → (c != 'e' && c != 'E') = false := by
    intro c hc
    rw [eq_letter_of_head?_exponent hc]
    rfl
  have hpoint : ∀ c, (t.fraction.elim [] ('.' :: ·)).head? = some c → (c != '.') = false := by
    intro c hc
    rw [eq_point_of_head?_fraction hc]
    rfl
  obtain ⟨hfront, hback⟩ := Text.takeWhile_dropWhile_append hmantissa hletter
  obtain ⟨hwhole, hfraction⟩ :=
    Text.takeWhile_dropWhile_append (fun c hc => (isDigit_ne_mark (ht.digits c hc)).2) hpoint
  have hdigits : ∀ c ∈ t.whole ++ t.fraction.getD [], c.isDigit := by
    intro c hc
    exact (List.mem_append.1 hc).elim (ht.digits c) ht.isDigit_of_mem_fraction
  have hnatural : Text.natural? (t.whole ++ t.fraction.getD []) =
      some (Text.digitsValue (t.whole ++ t.fraction.getD [])) :=
    Text.natural?_eq_some_iff.2 ⟨List.append_ne_nil_of_left_ne_nil ht.nonempty _, hdigits, rfl⟩
  rw [← List.append_assoc, Decimal.ofText?]
  simp only [hfront, hback, hwhole, hfraction, drop_fraction, hnatural]
  cases hexponent : t.exponent with
  | none => rw [decimal, hexponent]; rfl
  | some e =>
    have he := integer?_tail_exponentText e
    rw [decimal, hexponent]
    rw [exponentText, List.tail_cons] at he
    simp only [Option.elim_some, exponentText, he, Option.getD_some]

/-- A token is read as the float that its decimal rounds to. -/
theorem NumberToken.Grammatical.ofText?_text : Binary64.ofText? t.text = t.decimal.toBinary64? t.negative := by
  have hdecimal := ht.decimalOfText?
  rw [text]
  cases t.negative with
  | true =>
    rw [if_pos rfl, List.singleton_append, Binary64.ofText?, hdecimal]
    rfl
  | false =>
    obtain ⟨c, whole, hwhole⟩ := List.exists_cons_of_ne_nil ht.nonempty
    have hdigit : c.isDigit := ht.digits c (by rw [hwhole]; exact List.mem_cons_self)
    rw [hwhole, List.cons_append] at hdecimal
    rw [if_neg (by decide), List.nil_append, hwhole, List.cons_append, ofText?_of_isDigit hdigit, hdecimal]
    rfl

end Tokens

/-! ## Numbers -/

/-- A number is written without blanks. -/
theorem isBlank_of_mem_renderNumber {n : Number} {c : Char} (hc : c ∈ n.render) : Text.isBlank c = false := by
  obtain ⟨t, ht, htext, _⟩ := exists_token_render n
  rw [htext] at hc
  exact (ht.isNumeralChar hc).isBlank_eq_false

theorem point_mem_positional (ds : List Char) (point : Int) : '.' ∈ positional ds point := by
  unfold positional
  split
  · exact List.mem_cons_of_mem _ List.mem_cons_self
  · split
    · exact List.mem_append_right _ List.mem_cons_self
    · exact List.mem_append_right _ List.mem_cons_self

theorem letter_mem_scientific (ds : List Char) (exponent : Int) : 'e' ∈ scientific ds exponent :=
  List.mem_append_right _ List.mem_cons_self

/-- A float is written with a point or an exponent. -/
theorem exists_mem_renderFloat (x : Binary64) : ∃ c ∈ renderFloat x, c = '.' ∨ c = 'e' := by
  have hplaced : ∀ d : Decimal, ∃ c ∈ placed d, c = '.' ∨ c = 'e' := by
    intro d
    unfold placed
    simp only
    split
    · exact ⟨'.', point_mem_positional _ _, Or.inl rfl⟩
    · exact ⟨'e', letter_mem_scientific _ _, Or.inr rfl⟩
  by_cases hzero : x.units = 0
  · refine ⟨'.', ?_, Or.inl rfl⟩
    simp [renderFloat, hzero]
  · obtain ⟨c, hmem, hc⟩ := hplaced x.shortest
    rw [renderFloat_eq hzero]
    exact ⟨c, List.mem_append_right _ hmem, hc⟩

theorem Number.ofInt?_eq_some_iff {n : Int} {m : Number} : ofInt? n = some m ↔ ∃ inRange, m = .int n inRange := by
  unfold ofInt?
  split
  · next inRange =>
    constructor
    · intro h
      exact ⟨inRange, (Option.some.inj h).symm⟩
    · rintro ⟨_, rfl⟩
      rfl
  · next houtside =>
    constructor
    · intro h
      cases h
    · rintro ⟨inRange, _⟩
      exact absurd inRange houtside

/-- The integer that the sign and the digits of a token give. -/
def NumberToken.integer (t : NumberToken) : Int :=
  if t.negative then -(Text.digitsValue t.whole : Int) else Text.digitsValue t.whole

/-- The number of a token is its float, or else its integer, which is not the negative zero. -/
theorem NumberToken.float?_or_integer {t : NumberToken} {m : Number} (h : t.number? = some m) :
    t.float? = some m ∨
      (t.decimal = ⟨Text.digitsValue t.whole, 0⟩ ∧ (t.negative → Text.digitsValue t.whole ≠ 0) ∧
        Number.ofInt? t.integer = some m) := by
  unfold number? at h
  split at h
  · next hfraction hexponent =>
    have hdecimal : t.decimal = ⟨Text.digitsValue t.whole, 0⟩ := by
      rw [decimal, hfraction, hexponent]
      simp
    simp only at h
    unfold integer
    split at h
    · next hnegative =>
      rw [if_pos hnegative]
      split at h
      · exact Or.inl h
      · next hzero =>
        rcases (Option.orElse_eq_some _ _ _).1 h with hint | ⟨_, hfloat⟩
        · exact Or.inr ⟨hdecimal, fun _ => hzero, hint⟩
        · exact Or.inl hfloat
    · next hnegative =>
      rw [if_neg hnegative]
      rcases (Option.orElse_eq_some _ _ _).1 h with hint | ⟨_, hfloat⟩
      · exact Or.inr ⟨hdecimal, fun hsign => absurd hsign hnegative, hint⟩
      · exact Or.inl hfloat
  · exact Or.inl h

theorem toBinary64?_natCast (negative : Bool) (m : Nat) :
    Decimal.toBinary64? negative ⟨m, 0⟩ = Binary64.ofRatio? negative (m * Binary64.unitsPerOne) 1 := by
  by_cases hm : m = 0
  · rw [Decimal.toBinary64?_of_significand_eq_zero _ hm, hm, Nat.zero_mul]
    exact (Binary64.ofRatio?_units (.zero negative)).symm
  · have hone : Decimal.powerOfTen 0 = 1 := rfl
    rw [Decimal.toBinary64?_eq_ofRatio? negative hm (by dsimp only; omega) (by dsimp only; omega)]
    simp only [Int.neg_zero, hone, Nat.mul_one]

/-- Rounding a token with the number of an integer comes to rounding the integer. -/
theorem NumberToken.toBinary64?_integer {t : NumberToken} (h : t.negative → Text.digitsValue t.whole ≠ 0) :
    Decimal.toBinary64? t.negative ⟨Text.digitsValue t.whole, 0⟩ = Binary64.ofInt? t.integer := by
  rw [toBinary64?_natCast, Binary64.ofInt?, integer]
  cases hsign : t.negative with
  | true =>
    have hpos := h hsign
    have hlt : -(Text.digitsValue t.whole : Int) < 0 := by omega
    rw [if_pos rfl, Int.natAbs_neg, Int.natAbs_natCast, decide_eq_true hlt]
  | false =>
    have hnot : ¬ (Text.digitsValue t.whole : Int) < 0 := by omega
    rw [if_neg (by decide), Int.natAbs_natCast, decide_eq_false hnot]

/-- The float that a number is, or that is nearest to it. -/
def Number.nearest? : Number → Option Binary64
  | .int n _ => Binary64.ofInt? n
  | .float x => some x

/-- The text of a number is the numeral of its float. -/
theorem ofText?_render (n : Number) : Binary64.ofText? n.render = n.nearest? := by
  obtain ⟨t, ht, htext, hnumber⟩ := exists_token_render n
  rw [htext, ht.ofText?_text]
  rcases NumberToken.float?_or_integer hnumber with hfloat | ⟨hdecimal, hzero, hint⟩
  · obtain ⟨x, hx, rfl⟩ := Option.map_eq_some_iff.1 hfloat
    exact hx
  · obtain ⟨inRange, rfl⟩ := Number.ofInt?_eq_some_iff.1 hint
    rw [hdecimal]
    exact NumberToken.toBinary64?_integer hzero

end Json

end RecordFilter
