import RecordFilter.Dictionary
import RecordFilter.Json.Token

namespace RecordFilter.Json

/-! # Reading values

Values are read in two ways: kept, or only passed over. Both follow one grammar and differ in what they make of its
leaves and in the number of levels they allow.
-/

variable {ε α : Type}

open Reader

/-- What a reader makes of the parts of a value. -/
structure Form (ε α : Type) where
  constant : Value → α
  number : Reader ε α
  string : Reader ε α
  key : Reader ε String
  array : List α → α
  object : List (String × α) → α

namespace Form

/-- A value that has no parts. -/
def scalar (f : Form ε α) : Reader ε α :=
  branch fun s =>
    match s with
    | [] => fail .unexpectedEnd
    | 'n' :: _ => (word 'n' ['u', 'l', 'l']).map fun _ => f.constant .null
    | 't' :: _ => (word 't' ['r', 'u', 'e']).map fun _ => f.constant (.bool true)
    | 'f' :: _ => (word 'f' ['a', 'l', 's', 'e']).map fun _ => f.constant (.bool false)
    | '"' :: _ => f.string
    | c :: _ => if c == '-' || c.isDigit then f.number else fail .malformed

/-- A key, a colon and a value. -/
def member (key : Reader ε String) (value : Reader ε α) : Reader ε (String × α) :=
  (afterBlanks key).bind fun k => (afterBlanks (exactly ':')).bind fun _ => value.map fun v => (k, v)

/-- A value in which arrays and objects are nested at most so many levels deep. -/
def value (f : Form ε α) : Nat → Reader ε α
  | 0 => afterBlanks f.scalar
  | levels + 1 => afterBlanks <| branch fun s =>
    match s with
    | '[' :: _ => (Reader.array (f.value levels)).map f.array
    | '{' :: _ => (Reader.object (member f.key (f.value levels))).map f.object
    | _ => f.scalar

end Form

/-- Values are kept. Of members with the same key the last one counts, at the place of the first. -/
def kept : Form ε Value where
  constant v := v
  number := number.map .number
  string := string.map .string
  key := string
  array := .array
  object members := .object (Dictionary.ofList members)

/-- Values are passed over. -/
def passed : Form ε Unit where
  constant _ := ()
  number := anyNumber
  string := anyString.map fun _ => ()
  key := anyString
  array _ := ()
  object _ := ()

/-- The levels of arrays and objects that a value may have. -/
def maxNesting : Nat := 127

/-- Passes over a value of any depth: a text has no more levels than characters. -/
def anyValue : Reader ε Unit := branch fun s => passed.value s.length

/-- Reads the one value of a text. Its floats are the nearest to their tokens, which is assumed of the JSON library
(`NumberToken.float?`). -/
def Value.parse (text : String) : Except (ReadError Empty) Value :=
  (kept.value maxNesting).whole text.toList

end RecordFilter.Json
