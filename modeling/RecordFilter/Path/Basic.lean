import RecordFilter.Path.Segment

namespace RecordFilter

/-! # Paths

A path leads from a record to one location inside it, or, through wildcards, to several.
-/

/-- The root, or a step down from a parent. -/
inductive Path where
  | root
  | child (parent : Path) (last : Segment)
deriving DecidableEq, Repr

namespace Path

/-- What a text that is no path has wrong, at the first point where it goes wrong. -/
inductive Fault where
  | missingRoot
  | emptyName
  | unclosedBracket
  | invalidIndex (inner : String)
  /-- The position counts the bytes of UTF-8 before the character. -/
  | unexpectedCharacter (position : Nat)
deriving DecidableEq, Repr

/-- A text that is no path, or a question that the root has no answer to. -/
inductive Error where
  | malformed (text : String) (fault : Fault)
  | rootHasNoParent
deriving DecidableEq, Repr

def Fault.message : Fault → String
  | .missingRoot => "must start with '$'"
  | .emptyName => "empty name after '.'"
  | .unclosedBracket => "unclosed '['"
  | .invalidIndex inner => "'[" ++ inner ++ "]' is not an array index or '[*]'"
  | .unexpectedCharacter position => "unexpected character at byte " ++ Text.numeral position

def Error.message : Error → String
  | .malformed text fault => "Invalid path '" ++ text ++ "': " ++ fault.message
  | .rootHasNoParent => "The root path '$' has no parent"

/-- The path of a field of a record. -/
def field (name : String) : Path := child root (.name name)

/-- The member of the object at `p`. -/
def key (p : Path) (name : String) : Path := p.child (.name name)

/-- The item of the array at `p`. -/
def index (p : Path) (i : Nat) : Path := p.child (.index i)

/-- Any item of the array at `p`. -/
def wildcard (p : Path) : Path := p.child .wildcard

def isRoot (p : Path) : Bool := p == root

/-- The number of segments. -/
def depth : Path → Nat
  | root => 0
  | child p _ => p.depth + 1

/-- The segments, from the root down. -/
def segments : Path → List Segment
  | root => []
  | child p s => p.segments ++ [s]

/-- The path without its last segment. -/
def parent : Path → Except Error Path
  | root => .error .rootHasNoParent
  | child p _ => .ok p

/-- The last segment. -/
def last : Path → Except Error Segment
  | root => .error .rootHasNoParent
  | child _ s => .ok s

/-- Whether the last segment is a wildcard. -/
def endsWithWildcard : Path → Bool
  | child _ .wildcard => true
  | _ => false

/-- The paths on the way down from the root, the root itself left out and the path itself included. -/
def prefixes : Path → List Path
  | root => []
  | child p s => p.prefixes ++ [child p s]

/-- The text of a path: `$` and its segments. -/
def render : Path → List Char
  | root => ['$']
  | child p s => p.render ++ s.render

/-- The text of a path as a string. -/
def text (p : Path) : String := String.ofList p.render

theorem length_segments (p : Path) : p.segments.length = p.depth := by
  induction p with
  | root => rfl
  | child p s ih => simp [segments, depth, ih]

theorem render_eq_segments (p : Path) : p.render = '$' :: p.segments.flatMap Segment.render := by
  induction p with
  | root => rfl
  | child p s ih => simp [render, segments, ih]

/-- A path has as many prefixes as segments. -/
theorem length_prefixes (p : Path) : p.prefixes.length = p.depth := by
  induction p with
  | root => rfl
  | child p s ih => simp [prefixes, depth, ih]

end Path

end RecordFilter
