import RecordFilter.Command

namespace RecordFilter.Command

/-! # The program

Reads the arguments, the files and the standard input, runs the command on them and prints what it leaves behind.
-/

/-- What the arguments ask for. -/
structure Arguments where
  config : Option String
  input : Option String
  check : Bool

/-- Reads the arguments from left to right; none if one of them is not known or lacks its value. -/
def Arguments.read (a : Arguments) : List String → Option Arguments
  | [] => some a
  | "--check" :: rest => { a with check := true }.read rest
  | "--config" :: file :: rest => { a with config := some file }.read rest
  | "-c" :: file :: rest => { a with config := some file }.read rest
  | "--input" :: file :: rest => { a with input := some file }.read rest
  | "-i" :: file :: rest => { a with input := some file }.read rest
  | _ => none

/-- What the system says of a file that it does not give. -/
def systemReason : IO.Error → String
  | .noFileOrDirectory .. => "No such file or directory (os error 2)"
  | .permissionDenied .. => "Permission denied (os error 13)"
  | error => toString error

/-- The bytes of a file, or the reason why there are none. -/
def readBytes (file : String) : IO (Except String (List UInt8)) := do
  try
    return .ok (← IO.FS.readBinFile file).data.toList
  catch error => return .error (systemReason error)

/-- Prints what a run leaves behind. -/
def print (o : Outcome) : IO UInt32 := do
  let out ← IO.getStdout
  for line in o.output do
    out.putStrLn line
  out.flush
  if let some report := o.report then
    for line in report.lines do
      IO.eprintln line
  return o.exitCode

/-- Runs the command. The input is only read once the configuration compiles. -/
def execute (configFile : String) (a : Arguments) : IO UInt32 := do
  let config ← readBytes configFile
  let wanted := !a.check && (prepare configFile config).toBool
  let input ←
    if !wanted then pure (.ok [])
    else
      match a.input with
      | some file => readBytes file
      | none => do
        let bytes ← (← IO.getStdin).readBinToEnd
        pure (.ok bytes.data.toList)
  print (run ⟨configFile, config, a.input.getD "", input, a.check⟩)

end RecordFilter.Command

open RecordFilter.Command in
/-- Reads the arguments and runs the command, or says how it is used. -/
def main (args : List String) : IO UInt32 := do
  match Arguments.read ⟨none, none, false⟩ args with
  | some a =>
    match a.config with
    | some file => execute file a
    | none =>
      IO.eprintln "error: --config is required"
      return 2
  | none =>
    IO.eprintln "usage: --config FILE [--input FILE] [--check]"
    return 2
