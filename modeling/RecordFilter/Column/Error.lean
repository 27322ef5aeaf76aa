import RecordFilter.Column.Basic
import RecordFilter.Json.Printer

namespace RecordFilter

/-! # What can be wrong with an entry -/

/-- Why an entry has no directive. -/
inductive ColumnError where
  | path (error : Path.Error)
  /-- A path that ends in a wildcard names no single location. -/
  | wildcardTarget (target : Path)
  | timestampInPath (name : String)
  | unsupportedType (tag : String)
  /-- An added column has neither a source nor both a type and a default. -/
  | incompleteAdd (name : String)
  | invalidDefault (name : String) (type : ColumnType) (literal : Json.Value)

def ColumnError.message : ColumnError → String
  | .path error => error.message
  | .wildcardTarget target =>
    "Column '" ++ target.text ++ "': a path ending with '[*]' cannot be a column definition"
  | .timestampInPath name => "Column '" ++ name ++ "': type: timestamp is not available in json path"
  | .unsupportedType tag => "type: '" ++ tag ++ "' is not supported"
  | .incompleteAdd name =>
    "add_columns: Column '" ++ name ++ "' does not have \"src\", or \"type\" and \"default\""
  | .invalidDefault name type literal =>
    "Column '" ++ name ++ "': default cannot be converted to " ++ type.tag ++ ": " ++
      literal.text ++ " is not a valid " ++ type.tag

end RecordFilter
