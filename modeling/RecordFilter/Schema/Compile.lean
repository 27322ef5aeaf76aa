import RecordFilter.Config.Basic
import RecordFilter.Schema.Basic

namespace RecordFilter

/-! # Compiling a configuration

Only entries whose names are paths take part. First all names are read, in the order of the three lists; then the kept
columns become directives, unless columns are dropped; then the added ones. The first error is the result.
-/

namespace Schema

/-- Puts a directive into the table of its parent. -/
def insertDirective (table : List (Path × Directives)) (d : Directive) : List (Path × Directives) :=
  Dictionary.insert d.parent
    (Dictionary.insert d.path d ((Dictionary.find? d.parent table).getD [])) table

/-- The table of a list of directives. -/
def directiveTable (ds : List Directive) : List (Path × Directives) := ds.foldl insertDirective []

/-- Puts a path into the set of its parent. The root has no parent and is left out. -/
def insertDropped (table : List (Path × List Path)) (p : Path) : List (Path × List Path) :=
  match p with
  | .root => table
  | .child parent _ =>
    Dictionary.insert parent (((Dictionary.find? parent table).getD []).insert p) table

/-- The table of a list of dropped paths. -/
def dropTable (ps : List Path) : List (Path × List Path) := ps.foldl insertDropped []

/-- The paths on the way to any of a list of paths. -/
def visitedPaths (ps : List Path) : List Path := (ps.flatMap Path.prefixes).eraseDups

/-- The entries of a list whose names are paths. -/
def nested (cs : List Column) : List Column := cs.filter Column.isNested

/-- The paths that entries name. -/
def namedPaths (cs : List Column) : Except ColumnError (List Path) :=
  (nested cs).mapM fun c => Directive.parsePath c.name

/-- The directives of entries. -/
def directives (role : Directive.Role) (cs : List Column) : Except ColumnError (List Directive) :=
  (nested cs).mapM (Directive.ofColumn role)

/-- The schema of a configuration. Dropping is decided by the list, also if it only has names of fields. -/
def compile (c : Config) : Except ColumnError Schema := do
  let kept ← namedPaths c.columns
  let added ← namedPaths c.addColumns
  let dropped ← namedPaths c.dropColumns
  let keep ← if c.dropColumns.isEmpty then directives .keep c.columns else pure []
  let add ← directives .add c.addColumns
  return {
    visited := visitedPaths (kept ++ added ++ dropped)
    keep := directiveTable keep
    add := directiveTable add
    drop := dropTable dropped }

end Schema

end RecordFilter
