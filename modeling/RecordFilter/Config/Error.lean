import RecordFilter.Column.Error
import RecordFilter.Config.Basic
import RecordFilter.Json.Reader
import RecordFilter.Text.Visible

namespace RecordFilter

/-! # What can be wrong with a configuration -/

namespace Config

/-- What stands in a configuration text instead of what was wanted. Arrays and objects are not looked into. -/
inductive Found where
  | scalar (v : Json.Value)
  | array
  | object

/-- What was wanted at a place of a configuration text. -/
inductive Wanted where
  | config
  | column
  | list
  | text
deriving DecidableEq, Repr

/-- How a text that may well be JSON is no configuration. -/
inductive Unfit where
  /-- An entry that is an object has no name. -/
  | missingName
  /-- An entry that is a list has no elements. -/
  | emptyEntry
  | duplicateField (field : String)
  | wrongKind (found : Found) (wanted : Wanted)

def Found.message : Found → String
  | .scalar .null => "null"
  | .scalar (.bool true) => "boolean `true`"
  | .scalar (.bool false) => "boolean `false`"
  | .scalar (.number (.int n _)) => "integer `" ++ String.ofList (Text.integer n) ++ "`"
  | .scalar (.number (.float x)) => "floating point `" ++ String.ofList (Json.renderFloat x) ++ "`"
  | .scalar (.string s) => "string " ++ Text.visible s
  | .scalar (.array _) => "sequence"
  | .scalar (.object _) => "map"
  | .array => "sequence"
  | .object => "map"

def Wanted.message : Wanted → String
  | .config => "struct FilterConfig"
  | .column => "struct ColumnConfig"
  | .list => "a sequence"
  | .text => "a string"

def Unfit.message : Unfit → String
  | .missingName => "missing field `name`"
  | .emptyEntry => "invalid length 0, expected struct ColumnConfig with 4 elements"
  | .duplicateField field => "duplicate field `" ++ field ++ "`"
  | .wrongKind found wanted => "invalid type: " ++ found.message ++ ", expected " ++ wanted.message

/-- Where the entries with empty names stand in the three lists. -/
structure EmptyNames where
  columns : List Nat
  addColumns : List Nat
  dropColumns : List Nat
deriving DecidableEq, Repr

/-- What is said of the empty names of one list: nothing stands between them. -/
def EmptyNames.line (list : String) (positions : List Nat) : Option String :=
  if positions.isEmpty then none
  else
    some <| String.join <| positions.map fun i =>
      list ++ "[" ++ Text.numeral i ++ "].name: column name must not be empty"

/-- One line for each list that has empty names, in the order of the names of the lists. -/
def EmptyNames.message (e : EmptyNames) : String :=
  "\n".intercalate <| List.filterMap id
    [line "add_columns" e.addColumns, line "columns" e.columns, line "drop_columns" e.dropColumns]

end Config

/-- What can go wrong between a file and a compiled schema. -/
inductive ConfigError where
  /-- The file was not read, for a reason that the system gives. -/
  | unreadable (file reason : String)
  | text (error : Json.ReadError Config.Unfit)
  | emptyNames (names : Config.EmptyNames)
  | column (error : ColumnError)

/-- What is said of an error. Where in a text it is, and what the JSON library says of a text that is no JSON, are the
library's own and left out. -/
def ConfigError.message : ConfigError → String
  | .unreadable file reason => "Failed to read configuration file '" ++ file ++ "': " ++ reason
  | .text (.unfit reason) => "Failed to parse configuration: " ++ reason.message
  | .text _ => "Failed to parse configuration:"
  | .emptyNames names => "Invalid configuration: " ++ names.message
  | .column error => error.message

/-- What is behind an error, where the message only wraps it. -/
def ConfigError.cause? : ConfigError → Option String
  | .unreadable _ reason => some reason
  | .text (.unfit reason) => some reason.message
  | .text _ => none
  | .emptyNames names => some names.message
  | .column _ => none

/-- A message ends with what is behind the error. -/
theorem ConfigError.exists_message_eq_append {e : ConfigError} {cause : String} (h : e.cause? = some cause) :
    ∃ front, e.message = front ++ cause := by
  cases e with
  | unreadable file reason =>
    cases h
    exact ⟨"Failed to read configuration file '" ++ file ++ "': ", rfl⟩
  | text error =>
    cases error with
    | unfit reason =>
      cases h
      exact ⟨"Failed to parse configuration: ", rfl⟩
    | unexpectedEnd => cases h
    | malformed => cases h
  | emptyNames names =>
    cases h
    exact ⟨"Invalid configuration: ", rfl⟩
  | column error => cases h

end RecordFilter
