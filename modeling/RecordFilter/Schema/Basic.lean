import RecordFilter.Dictionary
import RecordFilter.Directive

namespace RecordFilter

/-! # Schemas

A schema is what rewriting looks up: the paths that are entered at all, and, for each object or array on the way, what
is kept, added and dropped there. Tables are dictionaries from the path of the object or array.
-/

/-- Directives by the path that they write at, in the order in which the paths were first configured. -/
abbrev Directives := List (Path × Directive)

/-- What a rewrite looks up. -/
structure Schema where
  /-- The paths that are entered. -/
  visited : List Path
  keep : List (Path × Directives)
  add : List (Path × Directives)
  drop : List (Path × List Path)

namespace Schema

/-- Whether a path is entered. -/
def visits (S : Schema) (p : Path) : Bool := S.visited.contains p

/-- The directives that keep children of `p`, if there are any; then all other children go. -/
def keepAt (S : Schema) (p : Path) : Option (List Directive) :=
  (Dictionary.find? p S.keep).map fun t => t.map Prod.snd

/-- The directives that add children to `p`. -/
def addAt (S : Schema) (p : Path) : List Directive :=
  ((Dictionary.find? p S.add).getD []).map Prod.snd

/-- The children of `p` that are dropped, if there are any. -/
def dropAt (S : Schema) (p : Path) : Option (List Path) := Dictionary.find? p S.drop

/-- The depth of the deepest path that is entered. -/
def depth (S : Schema) : Nat := (S.visited.map Path.depth).foldl max 0

end Schema

end RecordFilter
