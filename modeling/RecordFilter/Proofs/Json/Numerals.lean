import RecordFilter.Json.Printer
import RecordFilter.Proofs.Decimal.Shortest
import RecordFilter.Proofs.Json.Steps

namespace RecordFilter

/-! # Numbers, written and read

The text of a number has the parts of a token, which the reader takes off again if no more of a number follows
(`numberToken_run`). Each number is written as the text of such a token whose number it is (`exists_token_render`). For a
float this is so because only the place of the point and the zeros around it differ from its shortest decimal.
-/

namespace Text

theorem digits_ne_nil (n : Nat) : digits n ≠ [] := Nat.toDigits_ne_nil

/-- Only the numeral of zero starts with a zero. -/
theorem head?_digits_ne_zero {n : Nat} (h : n ≠ 0) : (digits n).head? ≠ some '0' := by
  induction n using Nat.strongRecOn with
  | ind n ih =>
    by_cases hsmall : n < 10
    · have hdigit : ∀ d < 10, d ≠ 0 → d.digitChar ≠ '0' := by decide
      rw [digits, Nat.toDigits_of_lt_base hsmall]
      simpa using hdigit n hsmall h
    · -- the first digit is that of the number without its last one
      have hfront := ih (n / 10) (by omega) (by omega)
      rw [digits, Nat.toDigits_of_base_le (by decide) (by omega), List.head?_append]
      cases hdigits : digits (n / 10) with
      | nil => exact absurd hdigits (digits_ne_nil _)
      | cons c s =>
        rw [hdigits] at hfront
        rw [digits] at hdigits
        rw [hdigits]
        exact hfront

theorem digitsValue_append_zeros (ds : List Char) (k : Nat) :
    digitsValue (ds ++ List.replicate k '0') = digitsValue ds * 10 ^ k := by
  rw [digitsValue, Nat.ofDigitChars_append, Nat.ofDigitChars_replicate_zero, Nat.mul_comm]
  rfl

theorem digitsValue_zeros_append (ds : List Char) (k : Nat) :
    digitsValue (List.replicate k '0' ++ ds) = digitsValue ds := by
  rw [digitsValue, Nat.ofDigitChars_append, Nat.ofDigitChars_replicate_zero]
  rfl

end Text

namespace Json

variable {ε : Type}

open Reader

/-! ## Tokens -/

/-- The text of an exponent, with its sign. -/
def exponentText (e : Int) : List Char := 'e' :: (if e < 0 then '-' else '+') :: Text.digits e.natAbs

/-- The text of a token. -/
def NumberToken.text (t : NumberToken) : List Char :=
  (if t.negative then ['-'] else []) ++
    (t.whole ++ (t.fraction.elim [] ('.' :: ·) ++ t.exponent.elim [] exponentText))

/-- A token whose parts are those of a number. -/
structure NumberToken.Grammatical (t : NumberToken) : Prop where
  nonempty : t.whole ≠ []
  digits : ∀ c ∈ t.whole, c.isDigit
  unpadded : t.whole.head? = some '0' → t.whole = ['0']
  fraction : ∀ ds ∈ t.fraction, ds ≠ [] ∧ ∀ c ∈ ds, c.isDigit

/-- A rest that is no more of a number. -/
def Ends (after : List Char) : Prop :=
  ∀ c ∈ after.head?, c.isDigit = false ∧ c ≠ '.' ∧ c ≠ 'e' ∧ c ≠ 'E'

theorem ends_nil : Ends [] := fun _ hc => nomatch hc

variable {cut : ReadError ε} {ds after : List Char}

theorem wholePart_run (hne : ds ≠ []) (hds : ∀ c ∈ ds, c.isDigit) (hzero : ds.head? = some '0' → ds = ['0'])
    (hafter : ∀ c ∈ after.head?, c.isDigit = false) : (wholePart cut).run (ds ++ after) = .ok (ds, after) := by
  apply check_run_of_ok (digitRun_run hne hds hafter)
  split
  · next hpadded => simpa using hzero rfl
  · rfl

theorem fractionPart_run (hne : ds ≠ []) (hds : ∀ c ∈ ds, c.isDigit)
    (hafter : ∀ c ∈ after.head?, c.isDigit = false) :
    (fractionPart cut).run ('.' :: (ds ++ after)) = .ok (ds, after) := by
  rw [fractionPart, exactly_bind_run]
  exact digitRun_run hne hds hafter

theorem exponentPart_run (e : Int) (hafter : ∀ c ∈ after.head?, c.isDigit = false) :
    (exponentPart cut).run (exponentText e ++ after) = .ok (e, after) := by
  have hdigits : (digitRun cut).run (Text.digits e.natAbs ++ after) = .ok (Text.digits e.natAbs, after) :=
    digitRun_run (Text.digits_ne_nil _) (fun _ => Text.isDigit_of_mem_digits) hafter
  rw [exponentPart, exponentText, List.cons_append, List.cons_append, char_bind_run rfl]
  by_cases hsign : e < 0
  · rw [if_pos hsign]
    simp only [branch, exactly_bind_run]
    rw [map_run_of_ok hdigits, Text.digitsValue_digits]
    congr 2
    omega
  · rw [if_neg hsign]
    simp only [branch, exactly_bind_run]
    rw [map_run_of_ok hdigits, Text.digitsValue_digits]
    congr 2
    omega

/-- The parts of a token are taken off one after the other; each ends where the next starts. -/
theorem unsignedToken_run (cut : ReadError ε) {t : NumberToken} (ht : t.Grammatical) (hafter : Ends after) :
    (unsignedToken cut t.negative).run
        (t.whole ++ (t.fraction.elim [] ('.' :: ·) ++ t.exponent.elim [] exponentText) ++ after) =
      .ok (t, after) := by
  obtain ⟨negative, whole, fraction, exponent⟩ := t
  obtain ⟨hne, hdigits, hzero, hfraction⟩ := ht
  have hstop : ∀ c ∈ after.head?, c.isDigit = false := fun c hc => (hafter c hc).1
  -- what stands behind the fraction
  generalize hback : exponent.elim [] exponentText ++ after = back
  have hbackStop : ∀ c ∈ back.head?, c.isDigit = false ∧ c ≠ '.' := by
    intro c hc
    rw [← hback] at hc
    cases exponent with
    | none => exact ⟨hstop c hc, (hafter c hc).2.1⟩
    | some e =>
      cases hc
      decide
  have hmantissa : ((wholePart cut).optionally (· == '.') (fractionPart cut)).run
      (whole ++ (fraction.elim [] ('.' :: ·) ++ back)) = .ok ((whole, fraction), back) := by
    cases fraction with
    | none =>
      apply optionally_run_of_absent (wholePart_run hne hdigits hzero fun c hc => (hbackStop c hc).1)
      intro c hc
      simpa using (hbackStop c hc).2
    | some ds =>
      obtain ⟨hds, hall⟩ := hfraction ds rfl
      apply optionally_run_of_present (c := '.') (wholePart_run hne hdigits hzero _) rfl
        (fractionPart_run hds hall fun c hc => (hbackStop c hc).1)
      intro c hc
      cases hc
      decide
  have hall : ((((wholePart cut).optionally (· == '.') (fractionPart cut)).optionally
      (fun c => c == 'e' || c == 'E') (exponentPart cut))).run
        (whole ++ (fraction.elim [] ('.' :: ·) ++ back)) = .ok (((whole, fraction), exponent), after) := by
    cases exponent with
    | none =>
      cases hback
      apply optionally_run_of_absent hmantissa
      intro c hc
      obtain ⟨_, _, he, hE⟩ := hafter c hc
      simp [he, hE]
    | some e =>
      cases hback
      exact optionally_run_of_present hmantissa rfl (exponentPart_run e hstop)
  rw [unsignedToken, List.append_assoc, List.append_assoc, hback]
  exact map_run_of_ok hall

theorem numberToken_run {t : NumberToken} (ht : t.Grammatical) (hafter : Ends after) :
    (numberToken cut).run (t.text ++ after) = .ok (t, after) := by
  have hunsigned := unsignedToken_run cut ht hafter
  rw [NumberToken.text]
  cases hsign : t.negative with
  | true =>
    rw [hsign] at hunsigned
    simp only [numberToken, branch, if_true, List.cons_append, List.nil_append, exactly_bind_run]
    exact hunsigned
  | false =>
    rw [hsign] at hunsigned
    simp only [numberToken, branch, Bool.false_eq_true, if_false, List.nil_append]
    -- the text starts with a digit, which is no minus sign
    cases hwhole : t.whole with
    | nil => exact absurd hwhole ht.nonempty
    | cons c whole =>
      have hdigit : c.isDigit := ht.digits c (by rw [hwhole]; exact List.mem_cons_self)
      have hc : c ≠ '-' := by
        rintro rfl
        cases hdigit
      rw [hwhole] at hunsigned
      simp only [List.cons_append] at hunsigned ⊢
      split
      · next heq => exact absurd (List.cons.inj heq).1 hc
      · exact hunsigned

theorem number_run {t : NumberToken} {n : Number} (ht : t.Grammatical) (hn : t.number? = some n) (hafter : Ends after) :
    (number : Reader ε Number).run (t.text ++ after) = .ok (n, after) := by
  apply check_run_of_ok (numberToken_run ht hafter)
  rw [hn]

/-! ## Numbers -/

/-- With a fraction or an exponent a token is a float. -/
theorem NumberToken.number?_eq_float {t : NumberToken} {x : Binary64} (hparts : t.fraction ≠ none ∨ t.exponent ≠ none)
    (h : t.decimal.toBinary64? t.negative = some x) : t.number? = some (.float x) := by
  have hfloat : t.float? = some (.float x) := by rw [float?, h, Option.map_some]
  unfold number?
  split
  · next hfraction hexponent =>
    rcases hparts with hsome | hsome
    · exact absurd hfraction hsome
    · exact absurd hexponent hsome
  · exact hfloat

theorem grammatical_digits (negative : Bool) (n : Nat) (exponent : Option Int) :
    NumberToken.Grammatical ⟨negative, Text.digits n, none, exponent⟩ := by
  refine ⟨Text.digits_ne_nil n, fun _ => Text.isDigit_of_mem_digits, ?_, fun _ h => nomatch h⟩
  intro hhead
  have hn : n = 0 := by
    by_contra hne
    exact Text.head?_digits_ne_zero hne hhead
  rw [hn]
  rfl

/-- An integer is written as a token without fraction and exponent. -/
theorem exists_token_integer (n : Int) (h : Number.intMin ≤ n ∧ n < Number.intLimit) :
    ∃ t : NumberToken, t.Grammatical ∧ Text.integer n = t.text ∧ t.number? = some (.int n h) := by
  cases n with
  | ofNat m =>
    refine ⟨⟨false, Text.digits m, none, none⟩, grammatical_digits _ _ _, ?_, ?_⟩
    · simp [Text.integer, NumberToken.text]
    · have hint : Number.ofInt? m = some (.int m h) := dif_pos h
      simp only [NumberToken.number?, Text.digitsValue_digits, Bool.false_eq_true, if_false, hint]
      rfl
  | negSucc m =>
    refine ⟨⟨true, Text.digits (m + 1), none, none⟩, grammatical_digits _ _ _, ?_, ?_⟩
    · simp [Text.integer, NumberToken.text]
    · have hint : Number.ofInt? (-((m + 1 : Nat) : Int)) = some (.int (.negSucc m) h) := dif_pos h
      have hne : m + 1 ≠ 0 := Nat.succ_ne_zero m
      simp only [NumberToken.number?, Text.digitsValue_digits, if_true, hne, if_false, hint]
      rfl

/-- Digits of a number, of which the first is not zero. -/
structure IsNumeralOf (ds : List Char) (m : Nat) : Prop where
  nonempty : ds ≠ []
  digits : ∀ c ∈ ds, c.isDigit
  unpadded : ds.head? ≠ some '0'
  value : Text.digitsValue ds = m

theorem isNumeralOf_digits {m : Nat} (h : m ≠ 0) : IsNumeralOf (Text.digits m) m :=
  ⟨Text.digits_ne_nil m, fun _ => Text.isDigit_of_mem_digits, Text.head?_digits_ne_zero h, Text.digitsValue_digits m⟩

/-- Behind its sign a text is that of a float which is read like a decimal. -/
def ReadsLike (negative : Bool) (text : List Char) (d : Decimal) : Prop :=
  ∃ t : NumberToken, t.Grammatical ∧ t.negative = negative ∧ (t.fraction ≠ none ∨ t.exponent ≠ none) ∧
    t.text = (if negative then ['-'] else []) ++ text ∧ t.decimal.toBinary64? negative = d.toBinary64? negative

theorem isDigit_of_mem_zeros {k : Nat} {c : Char} (h : c ∈ List.replicate k '0') : c.isDigit := by
  rw [List.eq_of_mem_replicate h]
  rfl

section Placing

variable {m : Nat} (h : IsNumeralOf ds m) (negative : Bool)

include h

/-- A point in front of the digits and some zeros. -/
theorem readsLike_point_zeros (k : Nat) :
    ReadsLike negative ('0' :: '.' :: (List.replicate k '0' ++ ds)) ⟨m, -((k + ds.length : Nat) : Int)⟩ := by
  refine ⟨⟨negative, ['0'], some (List.replicate k '0' ++ ds), none⟩, ?_, rfl, Or.inl (by simp), ?_, ?_⟩
  · refine ⟨by simp, by simp, fun _ => rfl, ?_⟩
    rintro _ ⟨⟩
    refine ⟨by simp [h.nonempty], ?_⟩
    intro c hc
    rcases List.mem_append.1 hc with hzero | hmem
    · exact isDigit_of_mem_zeros hzero
    · exact h.digits c hmem
  · simp [NumberToken.text]
  · have hvalue := Text.digitsValue_zeros_append ds (k + 1)
    rw [h.value, List.replicate_succ] at hvalue
    congr 1
    simp only [NumberToken.decimal, Option.getD_some, Option.getD_none, List.length_append, List.length_replicate]
    congr 1
    omega

/-- A point among the digits. -/
theorem readsLike_point_among {k : Nat} (hpos : 0 < k) (hlt : k < ds.length) :
    ReadsLike negative (ds.take k ++ '.' :: ds.drop k) ⟨m, -((ds.length - k : Nat) : Int)⟩ := by
  refine ⟨⟨negative, ds.take k, some (ds.drop k), none⟩, ?_, rfl, Or.inl (by simp), ?_, ?_⟩
  · refine ⟨?_, fun c hc => h.digits c (List.mem_of_mem_take hc), ?_, ?_⟩
    · rw [ne_eq, List.take_eq_nil_iff]
      rintro (hzero | hnil)
      · omega
      · exact h.nonempty hnil
    · intro hpadded
      rw [List.head?_take, if_neg (by omega)] at hpadded
      exact absurd hpadded h.unpadded
    · rintro _ ⟨⟩
      refine ⟨?_, fun c hc => h.digits c (List.mem_of_mem_drop hc)⟩
      rw [ne_eq, List.drop_eq_nil_iff]
      omega
  · simp [NumberToken.text]
  · congr 1
    simp only [NumberToken.decimal, Option.getD_some, Option.getD_none, List.take_append_drop, List.length_drop, h.value]
    congr 1
    omega

/-- Some zeros behind the digits, and a point behind them. -/
theorem readsLike_zeros_point {k : Nat} (hk : k < 310) :
    ReadsLike negative (ds ++ List.replicate k '0' ++ ['.', '0']) ⟨m, k⟩ := by
  refine ⟨⟨negative, ds ++ List.replicate k '0', some ['0'], none⟩, ?_, rfl, Or.inl (by simp), ?_, ?_⟩
  · refine ⟨by simp [h.nonempty], ?_, ?_, ?_⟩
    · intro c hc
      rcases List.mem_append.1 hc with hmem | hzero
      · exact h.digits c hmem
      · exact isDigit_of_mem_zeros hzero
    · intro hpadded
      cases hds : ds with
      | nil => exact absurd hds h.nonempty
      | cons c rest =>
        have hunpadded := h.unpadded
        rw [hds] at hpadded hunpadded
        exact absurd hpadded hunpadded
    · rintro _ ⟨⟩
      simp
  · simp [NumberToken.text]
  · have hvalue := Text.digitsValue_append_zeros (ds ++ List.replicate k '0') 1
    have hzeros := Text.digitsValue_append_zeros ds k
    rw [h.value] at hzeros
    rw [hzeros, Nat.pow_one] at hvalue
    rw [← Decimal.toBinary64?_writtenOut negative m hk]
    congr 1
    simp only [NumberToken.decimal, Option.getD_some, Option.getD_none]
    congr 1

theorem readsLike_positional {e : Int} (hpoint : ds.length + e ≤ 16) :
    ReadsLike negative (positional ds (ds.length + e)) ⟨m, e⟩ := by
  unfold positional
  by_cases hfront : ds.length + e ≤ 0
  · have hexponent : e = -(((-(ds.length + e)).toNat + ds.length : Nat) : Int) := by omega
    rw [if_pos hfront]
    conv => rhs; rw [hexponent]
    exact readsLike_point_zeros h negative _
  · rw [if_neg hfront]
    by_cases hback : ds.length ≤ (ds.length + e).toNat
    · obtain ⟨k, rfl⟩ : ∃ k : Nat, e = k := ⟨e.toNat, by omega⟩
      have hcount : ((ds.length : Int) + k).toNat - ds.length = k := by omega
      rw [if_pos hback, hcount]
      exact readsLike_zeros_point h negative (by omega)
    · have hexponent : e = -((ds.length - (ds.length + e).toNat : Nat) : Int) := by omega
      rw [if_neg hback]
      conv => rhs; rw [hexponent]
      exact readsLike_point_among h negative (by omega) (by omega)

theorem readsLike_scientific (e : Int) : ReadsLike negative (scientific ds (ds.length + e - 1)) ⟨m, e⟩ := by
  have hpos := List.length_pos_iff.2 h.nonempty
  by_cases hone : ds.length ≤ 1
  · refine ⟨⟨negative, ds, none, some (ds.length + e - 1)⟩, ?_, rfl, Or.inr (by simp), ?_, ?_⟩
    · exact ⟨h.nonempty, h.digits, fun hpadded => absurd hpadded h.unpadded, fun _ hds => nomatch hds⟩
    · simp [NumberToken.text, scientific, exponentText, hone]
    · congr 1
      simp only [NumberToken.decimal, Option.getD_some, Option.getD_none, List.append_nil, h.value, List.length_nil]
      congr 1
      omega
  · refine ⟨⟨negative, ds.take 1, some (ds.drop 1), some (ds.length + e - 1)⟩, ?_, rfl, Or.inr (by simp), ?_, ?_⟩
    · refine ⟨by simp [h.nonempty], fun c hc => h.digits c (List.mem_of_mem_take hc), ?_, ?_⟩
      · intro hpadded
        rw [List.head?_take, if_neg (by omega)] at hpadded
        exact absurd hpadded h.unpadded
      · rintro _ ⟨⟩
        refine ⟨?_, fun c hc => h.digits c (List.mem_of_mem_drop hc)⟩
        rw [ne_eq, List.drop_eq_nil_iff]
        omega
    · simp [NumberToken.text, scientific, exponentText, hone]
    · congr 1
      simp only [NumberToken.decimal, Option.getD_some, List.take_append_drop, h.value, List.length_drop]
      congr 1
      omega

end Placing

/-- A decimal as floats are written by it. -/
def placed (d : Decimal) : List Char :=
  let ds := Text.digits d.significand
  let point := ds.length + d.exponent
  if -5 < point ∧ point ≤ 16 then positional ds point else scientific ds (point - 1)

theorem readsLike_placed {d : Decimal} (hd : d.significand ≠ 0) (negative : Bool) :
    ReadsLike negative (placed d) d := by
  have hnumeral := isNumeralOf_digits hd
  unfold placed
  simp only
  split
  · next hpoint => exact readsLike_positional hnumeral negative hpoint.2
  · exact readsLike_scientific hnumeral negative d.exponent

theorem renderFloat_eq {x : Binary64} (h : x.units ≠ 0) :
    renderFloat x = (if x.negative then ['-'] else []) ++ placed x.shortest := by
  rw [renderFloat, placed]
  simp only [h, if_false]

/-- Each float is written as a token of which it is the number. -/
theorem exists_token_renderFloat (x : Binary64) :
    ∃ t : NumberToken, t.Grammatical ∧ renderFloat x = t.text ∧ t.number? = some (.float x) := by
  by_cases hzero : x.units = 0
  · refine ⟨⟨x.negative, ['0'], some ['0'], none⟩, ⟨by simp, by simp, fun _ => rfl, by simp⟩, ?_, ?_⟩
    · simp [renderFloat, hzero, NumberToken.text]
    · apply NumberToken.number?_eq_float (by simp)
      rw [Decimal.toBinary64?_of_significand_eq_zero _ rfl]
      exact congrArg some (Binary64.eq_zero_of_units_eq_zero hzero).symm
  · obtain ⟨t, ht, hsign, hparts, htext, hfloat⟩ :=
      readsLike_placed (Binary64.significand_shortest_ne_zero hzero) x.negative
    refine ⟨t, ht, ?_, NumberToken.number?_eq_float hparts ?_⟩
    · rw [renderFloat_eq hzero, htext]
    · rw [hsign, hfloat, Binary64.toBinary64?_shortest hzero]

/-- Each number is written as a token of which it is the number. -/
theorem exists_token_render (n : Number) :
    ∃ t : NumberToken, t.Grammatical ∧ n.render = t.text ∧ t.number? = some n := by
  cases n with
  | int n inRange => exact exists_token_integer n inRange
  | float x => exact exists_token_renderFloat x

/-- A number that is written is read back. -/
theorem number_run_render (n : Number) {after : List Char} (hafter : Ends after) :
    (number : Reader ε Number).run (n.render ++ after) = .ok (n, after) := by
  obtain ⟨t, ht, htext, hnumber⟩ := exists_token_render n
  rw [htext]
  exact number_run ht hnumber hafter

/-- A number is written on one line. -/
theorem newline_notMem_renderNumber (n : Number) : '\n' ∉ n.render := by
  have hdigits : ∀ {ds : List Char}, (∀ c ∈ ds, c.isDigit) → '\n' ∉ ds := by
    intro ds hds hmem
    exact absurd (hds _ hmem) (by decide)
  obtain ⟨t, ht, htext, _⟩ := exists_token_render n
  rw [htext, NumberToken.text]
  simp only [List.mem_append, not_or]
  refine ⟨?sign, hdigits ht.digits, ?fraction, ?exponent⟩
  case sign =>
    split
    · decide
    · decide
  case fraction =>
    cases hfraction : t.fraction with
    | none => exact List.not_mem_nil
    | some ds =>
      have hds := hdigits (ht.fraction ds (by simp [hfraction])).2
      simpa using hds
  case exponent =>
    cases t.exponent with
    | none => exact List.not_mem_nil
    | some e =>
      have hds := hdigits fun c (hc : c ∈ Text.digits e.natAbs) => Text.isDigit_of_mem_digits hc
      simp only [Option.elim_some, exponentText, List.mem_cons, hds, or_false]
      split
      · decide
      · decide

end Json

end RecordFilter
