import RecordFilter.Config.Basic
import RecordFilter.Json.Printer

namespace RecordFilter

/-! # Writing a configuration as JSON -/

open Json (Value)

/-- An entry: what is absent is left out, and a type is written by its tag. -/
def Column.encode (c : Column) : Value :=
  .object <| [("name", .string c.name)] ++
    (c.type.map fun t => ("type", .string t.tag)).toList ++
    (c.default.map fun v => ("default", v)).toList ++
    (c.source.map fun s => ("src", .string s)).toList

/-- A configuration: the three lists are always there. -/
def Config.encode (c : Config) : Value :=
  .object [
    ("columns", .array (c.columns.map Column.encode)),
    ("add_columns", .array (c.addColumns.map Column.encode)),
    ("drop_columns", .array (c.dropColumns.map Column.encode))]

/-- The text of a configuration. -/
def Config.text (c : Config) : String := c.encode.text

end RecordFilter
