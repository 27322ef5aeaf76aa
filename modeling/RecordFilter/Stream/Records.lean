import RecordFilter.Json.Parser
import RecordFilter.Json.Printer
import RecordFilter.Schema.Rewrite
import RecordFilter.Stream.Lines
import RecordFilter.Text.Blank

namespace RecordFilter.Stream

/-! # Streams of records

Each line of an input that is not blank holds one record. The output has one line for each record, up to the first line
that holds none.
-/

open Json (Value)

/-- Why a line holds no record. -/
inductive LineFault where
  | notUtf8
  | notJson
  | notObject
deriving DecidableEq, Repr

/-- A line that holds no record, by its number from one on. -/
structure Fault where
  number : Nat
  fault : LineFault
deriving DecidableEq, Repr

/-- The record in a text. -/
def readRecord (text : String) : Except LineFault (List (String × Value)) :=
  match Value.parse text with
  | .ok (.object record) => .ok record
  | .ok _ => .error .notObject
  | .error _ => .error .notJson

/-- The line of output for a line of input; none for a blank one. -/
def rewriteLine (S : Schema) (line : List UInt8) : Except LineFault (Option String) :=
  match String.fromUTF8? ⟨line.toArray⟩ with
  | none => .error .notUtf8
  | some text =>
    if text.toList.all Text.isBlank then .ok none
    else (readRecord text).map fun record => some (Value.object (S.rewriteRecord record)).text

/-- The lines of output for lines of input that are numbered from `number` on, and the first that holds no record. -/
def rewriteLines (S : Schema) (number : Nat) : List (List UInt8) → List String × Option Fault
  | [] => ([], none)
  | line :: rest =>
    match rewriteLine S line with
    | .error fault => ([], some ⟨number, fault⟩)
    | .ok out =>
      let (outs, fault) := rewriteLines S (number + 1) rest
      (out.toList ++ outs, fault)

/-- The lines of output for an input, and the first line that holds no record. -/
def run (S : Schema) (input : List UInt8) : List String × Option Fault := rewriteLines S 1 (lines input)

end RecordFilter.Stream
