import RecordFilter.Column.Error
import RecordFilter.Decimal.Numeral
import RecordFilter.Json.Parser
import RecordFilter.Text.Blank

namespace RecordFilter

/-! # Converting a default to the type of its column

A literal is converted from its own kind of value or, if it is a string, from the text in it.
-/

open Json (Value Number)

namespace Literal

/-- The first integer too large for a `long`; the least `long` is `Number.intMin`. -/
def longLimit : Int := 9223372036854775808

/-- The `long` value of an integer, if it is in range. -/
def ofLong? (n : Int) : Option Value :=
  if n < longLimit then (Number.ofInt? n).map .number else none

/-- The constants `true` and `false`, as words in letters of either case too. -/
def boolean? : Value → Option Value
  | .bool b => some (.bool b)
  | .string s =>
    let word := s.toList.map Char.toLower
    if word = ['t', 'r', 'u', 'e'] then some (.bool true)
    else if word = ['f', 'a', 'l', 's', 'e'] then some (.bool false)
    else none
  | _ => none

/-- Integers in range, as numerals between blanks too. A float is none, whatever its value. -/
def long? : Value → Option Value
  | .number (.int n _) => ofLong? n
  | .string s => (Text.integer? (Text.trim s.toList)).bind ofLong?
  | _ => none

/-- Finite floats, as numerals between blanks too, and the floats nearest to integers. -/
def double? : Value → Option Value
  | .number (.int n _) => (Binary64.ofInt? n).map fun x => .number (.float x)
  | .number (.float x) => some (.number (.float x))
  | .string s => (Binary64.ofText? (Text.trim s.toList)).map fun x => .number (.float x)
  | _ => none

/-- A string as it is, any other value as its text. -/
def string : Value → Value
  | .string s => .string s
  | v => .string v.text

/-- The value that a string is the text of; any other value as it is. -/
def json? : Value → Option Value
  | .string s => (Value.parse s).toOption
  | v => some v

/-- Converts a literal that is not `null`, if it is a literal of the type. -/
def convert? : ColumnType → Value → Option Value
  | .boolean, v => boolean? v
  | .long, v => long? v
  | .double, v => double? v
  | .string, v => some (string v)
  | .json, v => json? v
  | .timestamp, _ => none
  | .other _, _ => none

end Literal

/-- The value of a default literal of the column `name`. Two kinds of type are refused whatever the literal is; `null`
is a default of all others. -/
def resolveDefault (name : String) (type : ColumnType) (literal : Value) :
    Except ColumnError Value :=
  match type, literal with
  | .timestamp, _ => .error (.timestampInPath name)
  | .other tag, _ => .error (.unsupportedType tag)
  | _, .null => .ok .null
  | _, _ =>
    match Literal.convert? type literal with
    | some v => .ok v
    | none => .error (.invalidDefault name type literal)

end RecordFilter
