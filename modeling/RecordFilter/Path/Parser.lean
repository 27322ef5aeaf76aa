import RecordFilter.Path.Basic
import RecordFilter.Text.Utf8

namespace RecordFilter.Path

/-! # Reading a path

A path text is `$` and then segment texts: `.name`, where the name runs up to the next `.` or `[` and is not empty,
or `[inner]`, where the inner text runs up to the next `]`. The first thing that is none of these is the fault.
-/

/-- Whether a character belongs to the name it stands in. -/
def isNameChar (c : Char) : Bool := c != '.' && c != '['

/-- Reads one segment from the start of a text, in front of which are `position` bytes, and returns the rest. -/
def readSegment (position : Nat) : List Char → Except Fault (Segment × List Char)
  | '.' :: s =>
    if (s.takeWhile isNameChar).isEmpty then .error .emptyName
    else .ok (.name (String.ofList (s.takeWhile isNameChar)), s.dropWhile isNameChar)
  | '[' :: s =>
    match s.dropWhile (· != ']') with
    | [] => .error .unclosedBracket
    | _ :: rest =>
      match Segment.ofBracket? (s.takeWhile (· != ']')) with
      | none => .error (.invalidIndex (String.ofList (s.takeWhile (· != ']'))))
      | some segment => .ok (segment, rest)
  | _ => .error (.unexpectedCharacter position)

/-- A segment takes up at least one character. -/
theorem length_lt_of_readSegment {position : Nat} {s rest : List Char} {segment : Segment}
    (h : readSegment position s = .ok (segment, rest)) : rest.length < s.length := by
  unfold readSegment at h
  split at h
  · rename_i s
    split at h
    · cases h
    · cases h
      have : (s.dropWhile isNameChar).length ≤ s.length := (List.dropWhile_sublist _).length_le
      simp only [List.length_cons]
      omega
  · rename_i s
    split at h
    · cases h
    · rename_i heq
      have : (s.dropWhile (· != ']')).length ≤ s.length := (List.dropWhile_sublist _).length_le
      rw [heq] at this
      split at h
      · cases h
      · cases h
        simp only [List.length_cons] at this ⊢
        omega
  · cases h

/-- Goes on from `p` with the segments of the rest `s` of a text of `total` bytes. -/
def readSegments (total : Nat) (p : Path) (s : List Char) : Except Fault Path :=
  if s.isEmpty then .ok p
  else
    match h : readSegment (total - Text.byteLength s) s with
    | .error fault => .error fault
    | .ok (segment, rest) =>
      have := length_lt_of_readSegment h
      readSegments total (p.child segment) rest
termination_by s.length

/-- Reads a whole text. -/
def read : List Char → Except Fault Path
  | '$' :: s => readSegments (Text.byteLength ('$' :: s)) root s
  | _ => .error .missingRoot

/-- Reads a path; the error keeps the text. -/
def parse (text : String) : Except Error Path :=
  (read text.toList).mapError (.malformed text)

/-- Whether a column name is written as a path. Any other name is that of a field. -/
def isNestedName (name : String) : Bool :=
  match name.toList with
  | '$' :: '.' :: _ => true
  | _ => false

end RecordFilter.Path
