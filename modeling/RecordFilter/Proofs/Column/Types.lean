import RecordFilter.Column.Literal
import RecordFilter.Proofs.Decimal.Numerals
import RecordFilter.Proofs.Json.Reading
import RecordFilter.Proofs.Outcome

namespace RecordFilter

/-! # Types of defaults

Five types have defaults; the other types are refused before the literal is looked at, and `null` is a default of each of
the five. What else a default can be is a matter of its type alone (`Literal.Becomes`), and a failure is always that of the
conversion (`resolveDefault_of_convert?_eq_none`). For a `long` it is said exactly which literals are taken: those that denote an
integer in range, as a number or by a numeral (`Literal.long?_eq_some_iff`).
-/

open Json (Value Number)

/-- The types that have defaults. -/
def ColumnType.supported : List ColumnType := [.boolean, .long, .double, .string, .json]

namespace Literal

/-- The integers that a `long` can be. -/
def IsLong (n : Int) : Prop := -2 ^ 63 ≤ n ∧ n ≤ 2 ^ 63 - 1

/-- The integer that a literal denotes: as a number, or by a numeral with blanks around it. -/
inductive Denotes : Value → Int → Prop where
  | number {n : Int} (inRange : Number.intMin ≤ n ∧ n < Number.intLimit) : Denotes (.number (.int n inRange)) n
  | text {s : String} {before numeral after : List Char} {n : Int} (parts : s.toList = before ++ numeral ++ after)
      (blank_before : ∀ c ∈ before, Text.isBlank c) (blank_after : ∀ c ∈ after, Text.isBlank c)
      (numeral : Text.SignedNumeral numeral n) : Denotes (.string s) n

/-- What a literal can become as a default of a type. A literal of type `json` becomes no other value, unless it is a
string: then it becomes the value whose text it is. -/
inductive Becomes : ColumnType → Value → Value → Prop where
  | boolean (literal : Value) (b : Bool) : Becomes .boolean literal (.bool b)
  | long (literal : Value) {n : Int} (inRange : Number.intMin ≤ n ∧ n < Number.intLimit) (isLong : IsLong n) :
    Becomes .long literal (.number (.int n inRange))
  | double (literal : Value) (x : Binary64) : Becomes .double literal (.number (.float x))
  | string (literal : Value) (s : String) : Becomes .string literal (.string s)
  | json {literal : Value} (unquoted : ∀ s, literal ≠ .string s) : Becomes .json literal literal
  | jsonText {s : String} {v : Value} (read : Value.parse s = .ok v) : Becomes .json (.string s) v

/-! ## Integers -/

variable {literal w : Value} {n : Int}

theorem ofLong?_eq_some_iff : ofLong? n = some w ↔ IsLong n ∧ ∃ inRange, w = .number (.int n inRange) := by
  unfold ofLong? IsLong longLimit
  split
  · next hlt =>
    rw [Option.map_eq_some_iff]
    constructor
    · rintro ⟨m, hm, rfl⟩
      obtain ⟨inRange, rfl⟩ := Number.ofInt?_eq_some_iff.1 hm
      have hmin : -9223372036854775808 ≤ n := inRange.1
      exact ⟨by omega, inRange, rfl⟩
    · rintro ⟨_, inRange, rfl⟩
      exact ⟨_, Number.ofInt?_eq_some_iff.2 ⟨inRange, rfl⟩, rfl⟩
  · next hlarge =>
    constructor
    · intro h
      cases h
    · rintro ⟨hlong, _⟩
      omega

/-- A numeral is read from a text just if the text has only blanks besides. -/
theorem integer?_trim_eq_some_iff {s : String} : Text.integer? (Text.trim s.toList) = some n ↔ Denotes (.string s) n := by
  rw [Text.integer?_eq_some_iff]
  constructor
  · intro h
    obtain ⟨before, after, hs, hbefore, hafter⟩ := Text.exists_eq_append_trim s.toList
    exact .text hs hbefore hafter h
  · rintro (_ | ⟨hs, hbefore, hafter, hnumeral⟩)
    rw [hs, hnumeral.trim_append hbefore hafter]
    exact hnumeral

/-- A `long` is what denotes an integer in range. -/
theorem long?_eq_some_iff :
    long? literal = some w ↔ ∃ n, Denotes literal n ∧ IsLong n ∧ ∃ inRange, w = .number (.int n inRange) := by
  constructor
  · intro h
    unfold long? at h
    split at h
    · next n inRange => exact ⟨n, .number inRange, ofLong?_eq_some_iff.1 h⟩
    · obtain ⟨n, hn, hlong⟩ := Option.bind_eq_some_iff.1 h
      exact ⟨n, integer?_trim_eq_some_iff.1 hn, ofLong?_eq_some_iff.1 hlong⟩
    · cases h
  · rintro ⟨n, hdenotes, hlong⟩
    have hint := ofLong?_eq_some_iff.2 hlong
    cases hdenotes with
    | number inRange => exact hint
    | text hs hbefore hafter hnumeral =>
      exact Option.bind_eq_some_iff.2 ⟨n, integer?_trim_eq_some_iff.2 (.text hs hbefore hafter hnumeral), hint⟩

/-! ## Conversions -/

theorem exists_of_boolean? (h : boolean? literal = some w) : ∃ b, w = .bool b := by
  unfold boolean? at h
  split at h
  · next b =>
    cases h
    exact ⟨b, rfl⟩
  · simp only at h
    split at h
    · cases h
      exact ⟨true, rfl⟩
    · split at h
      · cases h
        exact ⟨false, rfl⟩
      · cases h
  · cases h

theorem exists_of_double? (h : double? literal = some w) : ∃ x, w = .number (.float x) := by
  unfold double? at h
  split at h
  · rcases Option.map_eq_some_iff.1 h with ⟨x, _, rfl⟩
    exact ⟨x, rfl⟩
  · next x =>
    cases h
    exact ⟨x, rfl⟩
  · rcases Option.map_eq_some_iff.1 h with ⟨x, _, rfl⟩
    exact ⟨x, rfl⟩
  · cases h

theorem exists_string (v : Value) : ∃ s, string v = .string s := by
  unfold string
  split
  · exact ⟨_, rfl⟩
  · exact ⟨_, rfl⟩

theorem becomes_of_json? (h : json? literal = some w) : Becomes .json literal w := by
  unfold json? at h
  split at h
  · next s =>
    cases hparse : Value.parse s with
    | error e =>
      rw [hparse] at h
      cases h
    | ok v =>
      rw [hparse] at h
      cases h
      exact .jsonText hparse
  · next hne =>
    cases h
    exact .json hne

/-- A literal that is converted becomes a value of the type. -/
theorem becomes_of_convert? {type : ColumnType} (h : convert? type literal = some w) : Becomes type literal w := by
  cases type with
  | boolean =>
    obtain ⟨b, rfl⟩ := exists_of_boolean? h
    exact .boolean literal b
  | long =>
    obtain ⟨n, _, hlong, inRange, rfl⟩ := long?_eq_some_iff.1 h
    exact .long literal inRange hlong
  | double =>
    obtain ⟨x, rfl⟩ := exists_of_double? h
    exact .double literal x
  | string =>
    obtain ⟨s, hs⟩ := exists_string literal
    cases h
    rw [hs]
    exact .string literal s
  | json => exact becomes_of_json? h
  | timestamp => cases h
  | other tag => cases h

/-- No key stands twice in what a literal becomes, if none does in the literal. -/
theorem Becomes.distinct {type : ColumnType} (h : Becomes type literal w) (hliteral : literal.Distinct) : w.Distinct := by
  cases h with
  -- a scalar has no keys
  | boolean _ b => exact .bool b
  | long _ inRange _ => exact .number _
  | double _ x => exact .number _
  | string _ s => exact .string s
  | json _ => exact hliteral
  | jsonText read => exact Value.distinct_of_parse read

end Literal

/-! ## Defaults -/

variable {name : String} {type : ColumnType} {literal w : Value}

theorem ColumnType.mem_supported_iff :
    type ∈ ColumnType.supported ↔ type ≠ .timestamp ∧ ∀ tag, type ≠ .other tag := by
  cases type <;> simp [supported]

theorem resolveDefault_null (htype : type ∈ ColumnType.supported) : resolveDefault name type .null = .ok .null := by
  obtain ⟨htimestamp, hother⟩ := ColumnType.mem_supported_iff.1 htype
  cases type with
  | timestamp => exact absurd rfl htimestamp
  | other tag => exact absurd rfl (hother tag)
  | _ => rfl

theorem resolveDefault_of_convert?_eq_some (hnull : literal ≠ .null) (h : Literal.convert? type literal = some w) :
    resolveDefault name type literal = .ok w := by
  unfold resolveDefault
  split
  · cases h
  · cases h
  · exact absurd rfl hnull
  · rw [h]

theorem resolveDefault_of_convert?_eq_none (htype : type ∈ ColumnType.supported) (hnull : literal ≠ .null)
    (h : Literal.convert? type literal = none) :
    resolveDefault name type literal = .error (.invalidDefault name type literal) := by
  obtain ⟨htimestamp, hother⟩ := ColumnType.mem_supported_iff.1 htype
  unfold resolveDefault
  split
  · exact absurd rfl htimestamp
  · next tag => exact absurd rfl (hother tag)
  · exact absurd rfl hnull
  · rw [h]

/-- A default is `null`, or else what its literal is converted to. -/
theorem resolveDefault_eq_ok (h : resolveDefault name type literal = .ok w) :
    type ∈ ColumnType.supported ∧
      (literal = .null ∧ w = .null ∨ literal ≠ .null ∧ Literal.convert? type literal = some w) := by
  unfold resolveDefault at h
  split at h
  · cases h
  · cases h
  · next htimestamp hother =>
    cases h
    exact ⟨ColumnType.mem_supported_iff.2 ⟨htimestamp, hother⟩, Or.inl ⟨rfl, rfl⟩⟩
  · next htimestamp hother hnull =>
    split at h
    · next u hconvert =>
      cases h
      exact ⟨ColumnType.mem_supported_iff.2 ⟨htimestamp, hother⟩, Or.inr ⟨hnull, hconvert⟩⟩
    · cases h

/-- A default has distinct keys if its literal has. -/
theorem distinct_of_resolveDefault (h : resolveDefault name type literal = .ok w) (hliteral : literal.Distinct) :
    w.Distinct := by
  obtain ⟨_, ⟨_, rfl⟩ | ⟨_, hconvert⟩⟩ := resolveDefault_eq_ok h
  · exact .null
  · exact (Literal.becomes_of_convert? hconvert).distinct hliteral

/-- A default has the type that is declared for it, or is `null`. Two kinds of types are refused whatever the literal is;
otherwise `null` stays what it is, and any other literal becomes a value of the type or cannot be converted. It becomes a
`long` just if it denotes an integer in range, and then becomes that integer. -/
theorem resolveDefault_follows_type (name : String) :
    (∀ literal, resolveDefault name .timestamp literal = .error (.timestampInPath name)) ∧
      (∀ tag literal, resolveDefault name (.other tag) literal = .error (.unsupportedType tag)) ∧
      (∀ type ∈ ColumnType.supported, resolveDefault name type .null = .ok .null) ∧
      (∀ type ∈ ColumnType.supported, ∀ literal, literal ≠ .null →
        resolveDefault name type literal = .error (.invalidDefault name type literal) ∨
          ∃ w, resolveDefault name type literal = .ok w ∧ Literal.Becomes type literal w) ∧
      ∀ literal, literal ≠ .null → ∀ w,
        (resolveDefault name .long literal = .ok w ↔
          ∃ n, Literal.Denotes literal n ∧ Literal.IsLong n ∧ ∃ inRange, w = .number (.int n inRange)) := by
  refine ⟨fun _ => rfl, fun _ _ => rfl, fun type htype => resolveDefault_null htype, ?converted, ?long⟩
  case converted =>
    intro type htype literal hnull
    cases h : Literal.convert? type literal with
    | none => exact Or.inl (resolveDefault_of_convert?_eq_none htype hnull h)
    | some w =>
      exact Or.inr ⟨w, resolveDefault_of_convert?_eq_some hnull h, Literal.becomes_of_convert? h⟩
  case long =>
    intro literal hnull w
    rw [← Literal.long?_eq_some_iff]
    constructor
    · intro h
      rcases (resolveDefault_eq_ok h).2 with ⟨heq, _⟩ | ⟨_, hconvert⟩
      · exact absurd heq hnull
      · exact hconvert
    · intro h
      exact resolveDefault_of_convert?_eq_some hnull h

/-- The least `long` is taken from a numeral with blanks around it and zeros in front; the integer behind the greatest is
none. An array is read from a text. -/
theorem resolveDefault_follows_type_least_long :
    let padded : Value := .string "\u2003-009223372036854775808\n"
    let least : Value := .number (.int (-9223372036854775808) (by decide))
    let large : Value := .number (.int 9223372036854775808 (by decide))
    let quoted : Value := .string " [null]"
    ColumnType.long ∈ ColumnType.supported ∧ padded ≠ .null ∧ Literal.Denotes padded (-9223372036854775808) ∧
      Literal.IsLong (-9223372036854775808) ∧ resolveDefault "$.a.k" .long padded = .ok least ∧ large ≠ .null ∧
      resolveDefault "$.a.k" .long large = .error (.invalidDefault "$.a.k" .long large) ∧
      ColumnType.json ∈ ColumnType.supported ∧ quoted ≠ .null ∧ Literal.Becomes .json quoted (.array [.null]) ∧
      resolveDefault "$.a.k" .json quoted = .ok (.array [.null]) := by
  intro padded least large quoted
  have hlong : ColumnType.long ∈ ColumnType.supported := by decide
  have hjson : ColumnType.json ∈ ColumnType.supported := by decide
  have hpadded : padded ≠ .null := nofun
  have hlarge : large ≠ .null := nofun
  have hquoted : quoted ≠ .null := nofun
  obtain ⟨_, _, _, hconverted, hexact⟩ := resolveDefault_follows_type "$.a.k"
  have hdenotes : Literal.Denotes padded (-9223372036854775808) := by
    apply Literal.integer?_trim_eq_some_iff.1
    decide
  have hleast : Literal.IsLong (-9223372036854775808) := ⟨by decide, by decide⟩
  have hread : resolveDefault "$.a.k" .json quoted = .ok (.array [.null]) := by cbv
  have hrefused : resolveDefault "$.a.k" .long large = .error (.invalidDefault "$.a.k" .long large) := by
    rcases hconverted .long hlong large hlarge with herror | ⟨w, hw, _⟩
    · exact herror
    · obtain ⟨n, hn, hrange, _⟩ := (hexact large hlarge w).1 hw
      simp only [large] at hn
      cases hn
      exact absurd hrange.2 (by decide)
  have hbecomes : Literal.Becomes .json quoted (.array [.null]) := by
    rcases hconverted .json hjson quoted hquoted with herror | ⟨w, hw, hbecomes⟩
    · rw [hread] at herror
      cases herror
    · rw [hread] at hw
      cases hw
      exact hbecomes
  exact ⟨hlong, hpadded, hdenotes, hleast, (hexact padded hpadded least).2 ⟨_, hdenotes, hleast, _, rfl⟩, hlarge, hrefused,
    hjson, hquoted, hbecomes, hread⟩

end RecordFilter
