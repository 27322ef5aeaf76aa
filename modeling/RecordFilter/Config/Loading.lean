import RecordFilter.Config.Decoder
import RecordFilter.Schema.Compile

namespace RecordFilter

/-! # Loading a configuration

A configuration is loaded from a text or a file. Then no name in it is empty, and it can be compiled.
-/

namespace Config

/-- The positions of the entries of a list whose names are empty. -/
def emptyPositions (cs : List Column) : List Nat :=
  cs.zipIdx.filterMap fun (c, i) => if c.name.isEmpty then some i else none

/-- Refuses a configuration with empty names. -/
def validate (c : Config) : Except ConfigError Unit :=
  let names : EmptyNames :=
    ⟨emptyPositions c.columns, emptyPositions c.addColumns, emptyPositions c.dropColumns⟩
  if names = ⟨[], [], []⟩ then .ok () else .error (.emptyNames names)

/-- Reads a configuration without empty names. -/
def ofText (text : String) : Except ConfigError Config := do
  let c ← (decode text).mapError .text
  c.validate
  return c

/-- The text of a file: it has to be UTF-8. -/
def textOfBytes (bytes : List UInt8) : Except String String :=
  match String.fromUTF8? ⟨bytes.toArray⟩ with
  | some text => .ok text
  | none => .error "stream did not contain valid UTF-8"

/-- Reads the configuration in a file, whose bytes the system gives or a reason why not. -/
def ofFile (file : String) (content : Except String (List UInt8)) : Except ConfigError Config := do
  let text ← (content.bind textOfBytes).mapError (.unreadable file)
  ofText text

/-- The schema of a configuration without empty names. -/
def compile (c : Config) : Except ConfigError Schema := do
  c.validate
  (Schema.compile c).mapError .column

end Config

end RecordFilter
