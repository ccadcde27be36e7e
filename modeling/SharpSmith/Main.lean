import SharpSmith.CommandLine

/-!
# The program

Reads the manifest that the command line names, does what the command asks for, and writes what
comes of it.
-/

open SharpSmith CommandLine

/-- The bytes of a file, if it can be read. -/
def readBytes (path : String) : IO (Option ByteArray) := do
  try
    return some (← IO.FS.readBinFile path)
  catch _ =>
    return none

/-- The text that tells an error on standard error. -/
def errorText (e : ManifestError) : String :=
  let d := e.diagnosis
  "error: " ++ d.message ++ "\n" ++ (d.help.map fun h => "help: " ++ h ++ "\n").getD ""

/-- Prints, writes and reports what a command leads to, and gives the exit code. -/
def perform (o : Outcome) : IO UInt32 := do
  IO.print o.stdout
  if let some e := o.error then
    IO.eprint (errorText e)
  match o.write with
  | none => return o.code.toUInt32
  | some (path, text) =>
    try
      IO.FS.writeFile path text
      return o.code.toUInt32
    catch _ =>
      IO.eprintln ("error: Failed to write " ++ path)
      return 1

/-- The program. -/
def main (args : List String) : IO UInt32 := do
  match parse? args with
  | none =>
    IO.eprint usageText
    return usageCode.toUInt32
  | some c =>
    let bytes ← match c.config? with
      | some path => readBytes path
      | none => pure none
    perform (c.run fun _ => bytes)
