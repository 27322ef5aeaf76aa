import RecordFilter.Text.Numeral

namespace RecordFilter

/-! # Segments: the steps of a path -/

/-- One step down from an object or an array. -/
inductive Segment where
  /-- The member of an object. -/
  | name (name : String)
  /-- The element of an array at a position. -/
  | index (index : Nat)
  /-- Any element of an array. -/
  | wildcard
deriving DecidableEq, Repr

namespace Segment

/-- The segment as it stands in a path text. A name stands there as it is, whatever its characters. -/
def render : Segment → List Char
  | .name n => '.' :: n.toList
  | .index i => '[' :: Text.digits i ++ [']']
  | .wildcard => ['[', '*', ']']

/-- The text of a segment as a string. -/
def text (s : Segment) : String := String.ofList s.render

/-- The key that the segment has as a member of an object. -/
def key : Segment → String
  | .name n => n
  | .index i => String.ofList (Text.digits i)
  | .wildcard => "*"

/-- The name, if the segment is one. -/
def name? : Segment → Option String
  | .name n => some n
  | _ => none

/-- The position, if the segment is one. -/
def index? : Segment → Option Nat
  | .index i => some i
  | _ => none

def isWildcard (s : Segment) : Bool := s == .wildcard

/-- Positions are 64-bit words. -/
def indexLimit : Nat := 18446744073709551616

/-- Reads what stands between two brackets: `*`, or digits of a value below `indexLimit`. -/
def ofBracket? (inner : List Char) : Option Segment :=
  if inner = ['*'] then some .wildcard
  else
    match Text.natural? inner with
    | some i => if i < indexLimit then some (.index i) else none
    | none => none

end Segment

end RecordFilter
