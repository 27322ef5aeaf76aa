import RecordFilter.Config.Error
import RecordFilter.Json.Parser

namespace RecordFilter.Config

/-! # Reading a configuration from JSON

A configuration and its entries are objects, or lists of their fields in order. The fields of an object come in any
order, each known one at most once; unknown ones are passed over. The first thing wrong in the text is the error: a
value of the wrong kind where it starts, or, if it has no parts, where it ends.
-/

open Json
open Json.Reader

variable {α : Type}

/-- Reads a value that is not of the kind wanted. -/
def mismatch (wanted : Wanted) : Reader Unfit α :=
  branch fun s =>
    match s with
    | '[' :: _ => fail (.unfit (.wrongKind .array wanted))
    | '{' :: _ => fail (.unfit (.wrongKind .object wanted))
    | _ => kept.scalar.check fun v => .error (.unfit (.wrongKind (.scalar v) wanted))

/-- Reads a string. -/
def textReader : Reader Unfit String :=
  afterBlanks <| branch fun s =>
    match s with
    | '"' :: _ => Json.string
    | _ => mismatch .text

/-- Reads `null` as nothing. -/
def optional (r : Reader Unfit α) : Reader Unfit (Option α) :=
  afterBlanks <| branch fun s =>
    match s with
    | 'n' :: _ => (word 'n' ['u', 'l', 'l']).map fun _ => none
    | _ => r.map some

/-- Reads the colon and the value of a field. -/
def fieldValue (r : Reader Unfit α) : Reader Unfit α := (afterBlanks (exactly ':')).bind fun _ => r

/-- Reads the value of a known field, which must not have been there before. -/
def knownField (field : String) (before : Option α) (r : Reader Unfit α) :
    Reader.Step Unfit α :=
  match before with
  | some _ => .stop (.error (.unfit (.duplicateField field)))
  | none => .more (fieldValue r)

/-! ## Entries -/

/-- The levels left for a default: it stands in an entry, in a list, in the configuration. -/
def defaultNesting : Nat := maxNesting - 3

def typeReader : Reader Unfit (Option ColumnType) := optional (textReader.map ColumnType.ofTag)

def defaultReader : Reader Unfit (Option Value) := optional (kept.value defaultNesting)

def sourceReader : Reader Unfit (Option String) := optional textReader

/-- The fields of an entry that were read so far. -/
structure PartialColumn where
  name : Option String
  type : Option (Option ColumnType)
  default : Option (Option Value)
  source : Option (Option String)

namespace PartialColumn

def empty : PartialColumn := ⟨none, none, none, none⟩

/-- The entry of the fields read; it has to have a name. -/
def finish (missing : Unfit) (c : PartialColumn) : Except (ReadError Unfit) Column :=
  match c.name with
  | none => .error (.unfit missing)
  | some name => .ok ⟨name, c.type.join, c.default.join, c.source.join⟩

/-- Reads one more field of an entry that is an object. -/
def field (c : PartialColumn) : Reader Unfit PartialColumn :=
  (afterBlanks Json.string).andThen fun key _ =>
    if key = "name" then (knownField key c.name textReader).map fun v => { c with name := some v }
    else if key = "type" then (knownField key c.type typeReader).map fun v => { c with type := some v }
    else if key = "default" then
      (knownField key c.default defaultReader).map fun v => { c with default := some v }
    else if key = "src" then
      (knownField key c.source sourceReader).map fun v => { c with source := some v }
    else .more ((fieldValue anyValue).map fun _ => c)

/-- Reads one more element of an entry that is a list, with the number of those read. -/
def element : Nat × PartialColumn → Reader Unfit (Nat × PartialColumn)
  | (0, c) => textReader.map fun v => (1, { c with name := some v })
  | (1, c) => typeReader.map fun v => (2, { c with type := some v })
  | (2, c) => defaultReader.map fun v => (3, { c with default := some v })
  | (3, c) => sourceReader.map fun v => (4, { c with source := some v })
  | _ => fail .malformed

end PartialColumn

/-- Reads an entry. -/
def columnReader : Reader Unfit Column :=
  afterBlanks <| branch fun s =>
    match s with
    | '{' :: _ =>
      (delimited '{' '}' PartialColumn.field .empty).check (PartialColumn.finish .missingName)
    | '[' :: _ =>
      (delimited '[' ']' PartialColumn.element (0, .empty)).check fun (_, c) => c.finish .emptyEntry
    | _ => mismatch .column

/-- Reads a list of entries. -/
def listReader : Reader Unfit (List Column) :=
  afterBlanks <| branch fun s =>
    match s with
    | '[' :: _ => Reader.array columnReader
    | _ => mismatch .list

/-! ## Configurations -/

/-- The lists of a configuration that were read so far. -/
structure PartialConfig where
  columns : Option (List Column)
  addColumns : Option (List Column)
  dropColumns : Option (List Column)

namespace PartialConfig

def empty : PartialConfig := ⟨none, none, none⟩

/-- The configuration of the lists read; a missing list is empty. -/
def finish (c : PartialConfig) : Config :=
  ⟨c.columns.getD [], c.addColumns.getD [], c.dropColumns.getD []⟩

/-- Reads one more field of a configuration that is an object. -/
def field (c : PartialConfig) : Reader Unfit PartialConfig :=
  (afterBlanks Json.string).andThen fun key _ =>
    if key = "columns" then
      (knownField key c.columns listReader).map fun v => { c with columns := some v }
    else if key = "add_columns" then
      (knownField key c.addColumns listReader).map fun v => { c with addColumns := some v }
    else if key = "drop_columns" then
      (knownField key c.dropColumns listReader).map fun v => { c with dropColumns := some v }
    else .more ((fieldValue anyValue).map fun _ => c)

/-- Reads one more element of a configuration that is a list, with the number of those read. -/
def element : Nat × PartialConfig → Reader Unfit (Nat × PartialConfig)
  | (0, c) => listReader.map fun v => (1, { c with columns := some v })
  | (1, c) => listReader.map fun v => (2, { c with addColumns := some v })
  | (2, c) => listReader.map fun v => (3, { c with dropColumns := some v })
  | _ => fail .malformed

end PartialConfig

/-- Reads a configuration after blanks. -/
def configReader : Reader Unfit Config :=
  afterBlanks <| branch fun s =>
    match s with
    | '{' :: _ => (delimited '{' '}' PartialConfig.field .empty).map PartialConfig.finish
    | '[' :: _ => (delimited '[' ']' PartialConfig.element (0, .empty)).map fun (_, c) => c.finish
    | _ => mismatch .config

/-- Reads a configuration. -/
def decode (text : String) : Except (ReadError Unfit) Config := configReader.whole text.toList

end RecordFilter.Config
