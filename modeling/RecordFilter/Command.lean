import RecordFilter.Config.Loading
import RecordFilter.Stream.Records

namespace RecordFilter

/-! # The command

The command loads a configuration from a file, compiles it, and then either says what is in it or rewrites a stream of
records. What it reads and what it says are values here; a failure is reported with its cause.
-/

namespace Command

/-- A failure: what could not be done, and why. -/
structure Report where
  context : String
  cause : Option String

/-- The lines of a report. The cause is indented. -/
def Report.lines (r : Report) : List String :=
  ("Error: " ++ r.context).splitOn "\n" ++
    match r.cause with
    | none => []
    | some cause => ["", "Caused by:"] ++ (cause.splitOn "\n").map ("    " ++ ·)

/-- What a run of the command leaves behind. -/
structure Outcome where
  output : List String
  report : Option Report

/-- The exit code: one after a failure, zero otherwise. -/
def Outcome.exitCode (o : Outcome) : UInt32 := if o.report.isSome then 1 else 0

/-- The report of a line that holds no record. What the JSON library says of the line is left out. -/
def streamReport (f : Stream.Fault) : Report :=
  match f.fault with
  | .notUtf8 =>
    ⟨"Failed to read record " ++ Text.numeral f.number, some "stream did not contain valid UTF-8"⟩
  | .notJson => ⟨"Record " ++ Text.numeral f.number ++ " is not valid JSON", none⟩
  | .notObject => ⟨"Record " ++ Text.numeral f.number ++ " is not a JSON object", none⟩

/-- What is said of a configuration that compiles. -/
def summary (c : Config) (S : Schema) : List String :=
  ["✓ Configuration compiled",
    "  Columns: " ++ Text.numeral c.columns.length,
    "  Add columns: " ++ Text.numeral c.addColumns.length,
    "  Drop columns: " ++ Text.numeral c.dropColumns.length,
    "  Visited paths: " ++ Text.numeral S.visited.length] ++
  if !S.drop.isEmpty && !c.columns.isEmpty then
    ["  Note: drop_columns is set, so columns only selects flat fields"]
  else []

/-- Loads and compiles the configuration in a file. -/
def prepare (file : String) (content : Except String (List UInt8)) :
    Except Report (Config × Schema) := do
  let c ← (Config.ofFile file content).mapError fun e => ⟨e.message, e.cause?⟩
  let S ← c.compile.mapError fun e =>
    ⟨"Invalid filter configuration '" ++ file ++ "'", some e.message⟩
  return (c, S)

/-- Rewrites the records of an input, which the system gives under a name or a reason why not. -/
def rewriteInput (S : Schema) (name : String) (input : Except String (List UInt8)) : Outcome :=
  match input with
  | .error reason => ⟨[], some ⟨"Failed to open input '" ++ name ++ "'", some reason⟩⟩
  | .ok bytes =>
    let (output, fault) := Stream.run S bytes
    ⟨output, fault.map streamReport⟩

/-- What the command is run on. -/
structure Invocation where
  configFile : String
  config : Except String (List UInt8)
  inputFile : String
  input : Except String (List UInt8)
  /-- Only to compile the configuration and say what is in it. -/
  checkOnly : Bool

/-- Runs the command. -/
def run (i : Invocation) : Outcome :=
  match prepare i.configFile i.config with
  | .error report => ⟨[], some report⟩
  | .ok (c, S) => if i.checkOnly then ⟨summary c S, none⟩ else rewriteInput S i.inputFile i.input

end Command

end RecordFilter
