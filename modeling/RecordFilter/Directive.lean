import RecordFilter.Column.Literal

namespace RecordFilter

/-! # Directives

A directive says what is written at one location: the value found under a key of the same object or array, or a
default if there is none.
-/

open Json (Value)

/-- What is written at `parent.child base`. -/
structure Directive where
  parent : Path
  base : Segment
  type : Option ColumnType
  default : Option Value
  /-- Where the value is taken from, if not from the location itself. Only its last segment counts. -/
  source : Option Path

namespace Directive

/-- The location written. -/
def path (d : Directive) : Path := d.parent.child d.base

/-- The segment under which the value is found, next to the location written. -/
def sourceBase (d : Directive) : Segment :=
  match d.source with
  | some (.child _ s) => s
  | _ => d.base

/-- The directive that writes at a path. Neither the path nor the source may end in a wildcard or be the root. -/
def ofPath (path : Path) (type : Option ColumnType) (default : Option Value)
    (source : Option Path) : Except ColumnError Directive :=
  match path with
  | .root => .error (.path .rootHasNoParent)
  | .child _ .wildcard => .error (.wildcardTarget path)
  | .child parent base =>
    match source with
    | some .root => .error (.path .rootHasNoParent)
    | some (.child p .wildcard) => .error (.wildcardTarget (.child p .wildcard))
    | _ => .ok ⟨parent, base, type, default, source⟩

/-- Keeps what is at a path. -/
def keep (path : Path) : Except ColumnError Directive := ofPath path none none none

/-- Keeps what is at a path, or else writes a default. -/
def withDefault (path : Path) (type : ColumnType) (default : Value) :
    Except ColumnError Directive :=
  ofPath path (some type) (some default) none

/-- Writes what is found at the last segment of a source. -/
def copy (path source : Path) : Except ColumnError Directive :=
  ofPath path none none (some source)

/-- The list that an entry stands in. -/
inductive Role where
  /-- Columns that are kept: a bare entry keeps what is there. -/
  | keep
  /-- Columns that are added: an entry has to say what it adds. -/
  | add
deriving DecidableEq, Repr

/-- A path text, as part of an entry. -/
def parsePath (text : String) : Except ColumnError Path := (Path.parse text).mapError .path

/-- The directive of an entry. A source comes before a type and a default, and a type that no default can have is refused
also where there is no default. -/
def ofColumn (role : Role) (c : Column) : Except ColumnError Directive := do
  let path ← parsePath c.name
  match c.source with
  | some text => do
    let source ← parsePath text
    copy path source
  | none =>
    match c.type, c.default with
    | some type, some literal => do
      let default ← resolveDefault c.name type literal
      withDefault path type default
    | type, _ =>
      match role, type with
      | .add, _ => .error (.incompleteAdd c.name)
      | .keep, some .timestamp => .error (.timestampInPath c.name)
      | .keep, some (.other tag) => .error (.unsupportedType tag)
      | .keep, type => ofPath path type none none

end Directive

end RecordFilter
