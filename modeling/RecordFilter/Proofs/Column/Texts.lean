import RecordFilter.Proofs.Column.Types
import RecordFilter.Proofs.Json.Writing

namespace RecordFilter

/-! # Literals and their texts

A literal may be given as it is or by its text, and comes to the same default (`Literal.convert?_text`). What a number is in
JSON it also is as a numeral; and the text of a constant, an array or an object starts with a character that no numeral starts
with (`Literal.IsOpening`). A default in turn is a literal of which it is the default (`Literal.convert?_of_convert?`), unless
the type is `json`: there a text may hold a text.
-/

open Json (Value Number)

namespace Literal

variable {c : Char} {v w : Value}

/-- The characters that the texts of constants other than `null`, arrays and objects start with. -/
def IsOpening (c : Char) : Prop := c = 't' ∨ c = 'f' ∨ c = '[' ∨ c = '{'

theorem exists_render_eq_cons_of_ne (hnull : v ≠ .null) (hnumber : ∀ n, v ≠ .number n) (hstring : ∀ s, v ≠ .string s) :
    ∃ c s, v.render = c :: s ∧ IsOpening c := by
  cases v with
  | null => exact absurd rfl hnull
  | bool b =>
    cases b with
    | true => exact ⟨'t', _, rfl, Or.inl rfl⟩
    | false => exact ⟨'f', _, rfl, Or.inr (Or.inl rfl)⟩
  | number n => exact absurd rfl (hnumber n)
  | string s => exact absurd rfl (hstring s)
  | array items => exact ⟨'[', _, rfl, Or.inr (Or.inr (Or.inl rfl))⟩
  | object members => exact ⟨'{', _, rfl, Or.inr (Or.inr (Or.inr rfl))⟩

theorem toList_text (v : Value) : v.text.toList = v.render := String.toList_ofList

/-! ## Numerals -/

/-- The text of a number has nothing that is trimmed. -/
theorem trim_renderNumber (n : Number) : Text.trim n.render = n.render :=
  Text.trim_eq_self fun _ => Json.isBlank_of_mem_renderNumber

/-- Without a sign a numeral starts with a digit, a point or the letter of an exponent. -/
theorem decimalOfText?_eq_none (hdigit : c.isDigit = false) (hpoint : c != '.') (hletter : c != 'e' && c != 'E')
    (s : List Char) : Decimal.ofText? (c :: s) = none := by
  have hnatural : ∀ t, Text.natural? (c :: t) = none := by
    intro t
    rw [Text.natural?, List.all_cons, hdigit]
    rfl
  unfold Decimal.ofText?
  simp only [List.takeWhile_cons, hletter, hpoint, if_true, List.cons_append, hnatural]

/-- No numeral starts like a constant, an array or an object, with blanks around it or not. -/
theorem IsOpening.not_numeral (h : IsOpening c) (s : List Char) :
    Text.integer? (Text.trim (c :: s)) = none ∧ Binary64.ofText? (Text.trim (c :: s)) = none := by
  have hblank : Text.isBlank c = false := by rcases h with rfl | rfl | rfl | rfl <;> decide
  have hdigit : c.isDigit = false := by rcases h with rfl | rfl | rfl | rfl <;> decide
  have hplus : c ≠ '+' := by rcases h with rfl | rfl | rfl | rfl <;> decide
  have hminus : c ≠ '-' := by rcases h with rfl | rfl | rfl | rfl <;> decide
  have hpoint : c != '.' := by rcases h with rfl | rfl | rfl | rfl <;> decide
  have hletter : c != 'e' && c != 'E' := by rcases h with rfl | rfl | rfl | rfl <;> decide
  obtain ⟨t, ht⟩ := Text.exists_trim_cons hblank s
  rw [ht]
  refine ⟨Text.integer?_eq_none_of_mem List.mem_cons_self hdigit hplus hminus, ?_⟩
  unfold Binary64.ofText?
  split
  · next heq => exact absurd (List.cons.inj heq).1 hminus
  · next heq => exact absurd (List.cons.inj heq).1 hplus
  · rw [decimalOfText?_eq_none hdigit hpoint hletter]
    rfl

/-! ## Conversions by type -/

/-- The words for constants start with two letters only. -/
theorem boolean?_eq_none {s : String} {t : List Char} (hs : s.toList = c :: t) (htrue : c.toLower ≠ 't')
    (hfalse : c.toLower ≠ 'f') : boolean? (.string s) = none := by
  have hnot : ∀ d ds, c.toLower ≠ d → (c :: t).map Char.toLower ≠ d :: ds := by
    intro d ds hne heq
    exact hne (List.cons.inj heq).1
  simp only [boolean?, hs, hnot _ _ htrue, hnot _ _ hfalse, if_false]

/-- What is not a number is none of the two kinds of numbers, nor is its text. -/
theorem not_numeric (hnull : v ≠ .null) (hnumber : ∀ n, v ≠ .number n) (hstring : ∀ s, v ≠ .string s) :
    (long? v = none ∧ double? v = none) ∧ long? (.string v.text) = none ∧ double? (.string v.text) = none := by
  obtain ⟨c, s, hs, hc⟩ := exists_render_eq_cons_of_ne hnull hnumber hstring
  obtain ⟨hinteger, hfloat⟩ := hc.not_numeral s
  refine ⟨?value, ?text⟩
  case value =>
    cases v with
    | number n => exact absurd rfl (hnumber n)
    | string s => exact absurd rfl (hstring s)
    | _ => exact ⟨rfl, rfl⟩
  case text =>
    rw [long?, double?, toList_text, hs, hinteger, hfloat]
    exact ⟨rfl, rfl⟩

theorem double?_number (n : Number) : double? (.number n) = n.nearest?.map fun x => .number (.float x) := by
  cases n with
  | int n inRange => rfl
  | float x => rfl

theorem long?_text_number (n : Number) : long? (.string (Value.number n).text) = long? (.number n) := by
  rw [long?, toList_text, Value.render, trim_renderNumber]
  cases n with
  | int n inRange =>
    rw [Number.render, Text.integer?_integer]
    rfl
  | float x =>
    -- neither a point nor an exponent is part of the numeral of an integer
    obtain ⟨c, hmem, hc⟩ := Json.exists_mem_renderFloat x
    have hno : c.isDigit = false ∧ c ≠ '+' ∧ c ≠ '-' := by rcases hc with rfl | rfl <;> decide
    rw [Number.render, Text.integer?_eq_none_of_mem hmem hno.1 hno.2.1 hno.2.2]
    rfl

theorem double?_text_number (n : Number) : double? (.string (Value.number n).text) = double? (.number n) := by
  rw [double?_number, double?, toList_text, Value.render, trim_renderNumber, Json.ofText?_render]

/-! ## Texts for literals -/

section Texts

variable (hnull : v ≠ .null) (hstring : ∀ s, v ≠ .string s)

include hnull hstring

theorem boolean?_text : boolean? (.string v.text) = boolean? v := by
  cases v with
  | null => exact absurd rfl hnull
  | bool b =>
    cases b with
    | true => rfl
    | false => rfl
  | number n =>
    obtain ⟨c, s, hs, hc⟩ := Json.exists_renderNumber_eq_cons n
    have hlower : c.toLower ≠ 't' ∧ c.toLower ≠ 'f' := by
      rcases hc with rfl | hdigit
      · decide
      · obtain ⟨d, hd, rfl⟩ := Text.exists_digitChar hdigit
        have hall : ∀ d < 10, d.digitChar.toLower ≠ 't' ∧ d.digitChar.toLower ≠ 'f' := by decide
        exact hall d hd
    exact boolean?_eq_none ((toList_text _).trans hs) hlower.1 hlower.2
  | string s => exact absurd rfl (hstring s)
  | array items => exact boolean?_eq_none (toList_text (.array items)) (by decide) (by decide)
  | object members => exact boolean?_eq_none (toList_text (.object members)) (by decide) (by decide)

theorem long?_text : long? (.string v.text) = long? v := by
  by_cases hnumber : ∃ n, v = .number n
  · obtain ⟨n, rfl⟩ := hnumber
    exact long?_text_number n
  · obtain ⟨⟨hvalue, _⟩, htext, _⟩ := not_numeric hnull (fun n hn => hnumber ⟨n, hn⟩) hstring
    rw [htext, hvalue]

theorem double?_text : double? (.string v.text) = double? v := by
  by_cases hnumber : ∃ n, v = .number n
  · obtain ⟨n, rfl⟩ := hnumber
    exact double?_text_number n
  · obtain ⟨⟨_, hvalue⟩, _, htext⟩ := not_numeric hnull (fun n hn => hnumber ⟨n, hn⟩) hstring
    rw [htext, hvalue]

omit hnull in
theorem string_text : string (.string v.text) = string v := by
  cases v with
  | string s => exact absurd rfl (hstring s)
  | _ => rfl

omit hnull in
theorem json?_text (hdistinct : v.Distinct) (hnest : v.nest ≤ Json.maxNesting) : json? (.string v.text) = json? v := by
  have hself : json? v = some v := by
    cases v with
    | string s => exact absurd rfl (hstring s)
    | _ => rfl
  rw [hself, json?, Value.parse_text hnest hdistinct]
  rfl

/-- A literal and its text are converted to the same value, if they are to any. -/
theorem convert?_text (type : ColumnType) (hdistinct : v.Distinct) (hnest : v.nest ≤ Json.maxNesting) :
    convert? type (.string v.text) = convert? type v := by
  cases type with
  | boolean => exact boolean?_text hnull hstring
  | long => exact long?_text hnull hstring
  | double => exact double?_text hnull hstring
  | string => exact congrArg some (string_text hstring)
  | json => exact json?_text hstring hdistinct hnest
  | timestamp => rfl
  | other tag => rfl

end Texts

/-! ## Defaults as literals -/

/-- What a literal is converted to is left as it is when it is converted again. -/
theorem convert?_of_convert? {type : ColumnType} (htype : type ≠ .json) (h : convert? type v = some w) :
    w ≠ .null ∧ convert? type w = some w := by
  cases becomes_of_convert? h with
  | boolean _ b => exact ⟨nofun, rfl⟩
  | long _ inRange isLong => exact ⟨nofun, ofLong?_eq_some_iff.2 ⟨isLong, inRange, rfl⟩⟩
  | double _ x => exact ⟨nofun, rfl⟩
  | string _ s => exact ⟨nofun, rfl⟩
  | json _ => exact absurd rfl htype
  | jsonText _ => exact absurd rfl htype

end Literal

/-- A literal that is neither `null` nor a string and its text come to the same default, or neither of them comes to one. And
except for the type `json` a default is the default of itself. The keys of a literal are distinct, since it was read. -/
theorem resolveDefault_text (name : String) :
    (∀ type ∈ ColumnType.supported, ∀ v : Value, v ≠ .null → (∀ s, v ≠ .string s) → v.Distinct → v.nest ≤ Json.maxNesting →
      (∃ w, resolveDefault name type v = .ok w ∧ resolveDefault name type (.string v.text) = .ok w) ∨
        (resolveDefault name type v = .error (.invalidDefault name type v) ∧
          resolveDefault name type (.string v.text) = .error (.invalidDefault name type (.string v.text)))) ∧
      ∀ type ≠ .json, ∀ literal w, resolveDefault name type literal = .ok w → resolveDefault name type w = .ok w := by
  refine ⟨?text, ?again⟩
  case text =>
    intro type htype v hnull hstring hdistinct hnest
    have htext : Value.string v.text ≠ .null := nofun
    have hsame := Literal.convert?_text hnull hstring type hdistinct hnest
    cases h : Literal.convert? type v with
    | some w =>
      rw [h] at hsame
      exact Or.inl ⟨w, resolveDefault_of_convert?_eq_some hnull h, resolveDefault_of_convert?_eq_some htext hsame⟩
    | none =>
      rw [h] at hsame
      exact Or.inr
        ⟨resolveDefault_of_convert?_eq_none htype hnull h, resolveDefault_of_convert?_eq_none htype htext hsame⟩
  case again =>
    intro type hjson literal w h
    obtain ⟨htype, ⟨_, rfl⟩ | ⟨_, hconvert⟩⟩ := resolveDefault_eq_ok h
    · exact resolveDefault_null htype
    · obtain ⟨hnull, hagain⟩ := Literal.convert?_of_convert? hjson hconvert
      exact resolveDefault_of_convert?_eq_some hnull hagain

/-- An integer that is too large for a `long`, an object, and a numeral. -/
theorem resolveDefault_text_large_integer :
    let large : Value := .number (.int 18446744073709551615 (by decide))
    let object : Value := .object [("k", .array [.null, .string "v"])]
    let one : Value := .number (.int 1 (by decide))
    (ColumnType.long ∈ ColumnType.supported ∧ large ≠ .null ∧ (∀ s, large ≠ .string s) ∧ large.Distinct ∧
        large.nest ≤ Json.maxNesting ∧
        resolveDefault "$.a" .long (.string large.text) = .error (.invalidDefault "$.a" .long (.string large.text))) ∧
      (ColumnType.json ∈ ColumnType.supported ∧ object ≠ .null ∧ (∀ s, object ≠ .string s) ∧ object.Distinct ∧
        object.nest ≤ Json.maxNesting ∧ resolveDefault "$.a" .json (.string object.text) = .ok object) ∧
      ColumnType.long ≠ .json ∧ resolveDefault "$.a" .long (.string "+01") = .ok one ∧
        resolveDefault "$.a" .long one = .ok one := by
  intro large object one
  have hlong : ColumnType.long ∈ ColumnType.supported := by decide
  have hjson : ColumnType.json ∈ ColumnType.supported := by decide
  have hlarge : large ≠ .null ∧ ∀ s, large ≠ .string s := by simp [large]
  have hobject : object ≠ .null ∧ ∀ s, object ≠ .string s := by simp [object]
  have hlargeDistinct : large.Distinct := .number _
  have hobjectDistinct : object.Distinct := by simp [object, Dictionary.keys]
  have hlargeNest : large.nest ≤ Json.maxNesting := by decide
  have hobjectNest : object.nest ≤ Json.maxNesting := by decide
  have htype : ColumnType.long ≠ .json := by decide
  have hnumeral : resolveDefault "$.a" .long (.string "+01") = .ok one := by cbv
  obtain ⟨htext, hagain⟩ := resolveDefault_text "$.a"
  refine ⟨⟨hlong, hlarge.1, hlarge.2, hlargeDistinct, hlargeNest, ?large⟩,
    ⟨hjson, hobject.1, hobject.2, hobjectDistinct, hobjectNest, ?object⟩, htype, hnumeral,
    hagain .long htype _ _ hnumeral⟩
  case large =>
    have hnone : resolveDefault "$.a" .long large = .error (.invalidDefault "$.a" .long large) := by cbv
    rcases htext .long hlong large hlarge.1 hlarge.2 hlargeDistinct hlargeNest with ⟨w, hw, _⟩ | ⟨_, hsame⟩
    · cases hnone.symm.trans hw
    · exact hsame
  case object =>
    have hself : resolveDefault "$.a" .json object = .ok object := rfl
    rcases htext .json hjson object hobject.1 hobject.2 hobjectDistinct hobjectNest with ⟨w, hw, hsame⟩ | ⟨hnone, _⟩
    · cases hself.symm.trans hw
      exact hsame
    · cases hself.symm.trans hnone

end RecordFilter
