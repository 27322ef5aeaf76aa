import RecordFilter.Json.Value
import RecordFilter.Path.Parser

namespace RecordFilter

/-! # Column entries

An entry of a configuration names a field of the record, or a path into one, and may say of what type its value is,
which value it has by default, and where else the value is taken from.
-/

/-- The declared type of a column. A tag that is not known is kept. -/
inductive ColumnType where
  | boolean
  | long
  | double
  | string
  | json
  | timestamp
  | other (tag : String)
deriving DecidableEq, Repr

namespace ColumnType

/-- The type of a tag. Two types have a second tag. -/
def ofTag (tag : String) : ColumnType :=
  if tag = "boolean" then .boolean
  else if tag = "long" ∨ tag = "integer" then .long
  else if tag = "double" ∨ tag = "float" then .double
  else if tag = "string" then .string
  else if tag = "json" then .json
  else if tag = "timestamp" then .timestamp
  else .other tag

/-- The tag that a type is written with. -/
def tag : ColumnType → String
  | .boolean => "boolean"
  | .long => "long"
  | .double => "double"
  | .string => "string"
  | .json => "json"
  | .timestamp => "timestamp"
  | .other t => t

/-- A written tag of a known type is read back as that type. -/
theorem ofTag_tag {t : ColumnType} (h : ∀ s, t ≠ .other s) : ofTag t.tag = t := by
  cases t <;> first | rfl | exact absurd rfl (h _)

end ColumnType

/-- An entry of a configuration. -/
structure Column where
  /-- The name of a field, or a path text that starts with `$.`. -/
  name : String
  type : Option ColumnType
  /-- A literal, not yet converted to the type. -/
  default : Option Json.Value
  /-- The text of the path that the value is taken from. -/
  source : Option String

namespace Column

/-- Whether the entry names a path into a field. -/
def isNested (c : Column) : Bool := Path.isNestedName c.name

end Column

end RecordFilter
