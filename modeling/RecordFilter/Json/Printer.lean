import RecordFilter.Decimal.Shortest
import RecordFilter.Json.Value

namespace RecordFilter.Json

/-! # Writing JSON

Values are written without blanks, members in order.
-/

/-! ## Strings -/

/-- The escape that ends in the two lower-case hexadecimal digits of a control character. -/
def controlEscape (c : Char) : List Char :=
  ['\\', 'u', '0', '0', Nat.digitChar (c.toNat / 16), Nat.digitChar (c.toNat % 16)]

/-- A character as it stands in a string: only quotes, backslashes and control characters are escaped. -/
def escape (c : Char) : List Char :=
  if c = '"' then ['\\', '"']
  else if c = '\\' then ['\\', '\\']
  else if c = '\x08' then ['\\', 'b']
  else if c = '\x0c' then ['\\', 'f']
  else if c = '\n' then ['\\', 'n']
  else if c = '\r' then ['\\', 'r']
  else if c = '\t' then ['\\', 't']
  else if c.toNat < 0x20 then controlEscape c
  else [c]

/-- A string between quotes. -/
def renderString (s : String) : List Char := '"' :: s.toList.flatMap escape ++ ['"']

/-! ## Numbers -/

/-- Digits with a decimal point after the first `point` places, and a digit on both of its sides. -/
def positional (ds : List Char) (point : Int) : List Char :=
  if point ≤ 0 then '0' :: '.' :: List.replicate (-point).toNat '0' ++ ds
  else if ds.length ≤ point.toNat then ds ++ List.replicate (point.toNat - ds.length) '0' ++ ['.', '0']
  else ds.take point.toNat ++ '.' :: ds.drop point.toNat

/-- Digits with a decimal point after the first place, if there are more, and a signed exponent. -/
def scientific (ds : List Char) (exponent : Int) : List Char :=
  let significand := if ds.length ≤ 1 then ds else ds.take 1 ++ '.' :: ds.drop 1
  let sign := if exponent < 0 then '-' else '+'
  significand ++ 'e' :: sign :: Text.digits exponent.natAbs

/-- A float is written by its shortest decimal: positionally from `1e-5` to below `1e16`, in scientific form
elsewhere. -/
def renderFloat (x : Binary64) : List Char :=
  let sign := if x.negative then ['-'] else []
  if x.units = 0 then sign ++ ['0', '.', '0']
  else
    let ds := Text.digits x.shortest.significand
    let point := ds.length + x.shortest.exponent
    sign ++ if -5 < point ∧ point ≤ 16 then positional ds point else scientific ds (point - 1)

/-- The text of a number. -/
def Number.render : Number → List Char
  | .int n _ => Text.integer n
  | .float x => renderFloat x

/-! ## Values -/

/-- Texts one after the other with commas between them. -/
def commaSeparated : List (List Char) → List Char
  | [] => []
  | [t] => t
  | t :: ts => t ++ ',' :: commaSeparated ts

mutual

/-- The text of a value. -/
def Value.render : Value → List Char
  | .null => ['n', 'u', 'l', 'l']
  | .bool true => ['t', 'r', 'u', 'e']
  | .bool false => ['f', 'a', 'l', 's', 'e']
  | .number n => n.render
  | .string s => renderString s
  | .array items => '[' :: commaSeparated (renderItems items) ++ [']']
  | .object members => '{' :: commaSeparated (renderMembers members) ++ ['}']

/-- The texts of the items of an array. -/
def renderItems : List Value → List (List Char)
  | [] => []
  | v :: vs => v.render :: renderItems vs

/-- The texts of the members of an object. -/
def renderMembers : List (String × Value) → List (List Char)
  | [] => []
  | (k, v) :: ms => (renderString k ++ ':' :: v.render) :: renderMembers ms

end

/-- The text of a value. -/
def Value.text (v : Value) : String := String.ofList v.render

end RecordFilter.Json
