import TxStream.CommandLine.Run

/-!
The program: gets arguments, environment and file from the system, and gives the system what
`CommandLine.run` makes of them. No file is read unless the options name one.
-/

open TxStream in
/-- Reads a file, if there is one to read. -/
def readContent (path : String) : IO (Except CommandLine.FileError Bytes) := do
  try
    let content ← IO.FS.readBinFile path
    return .ok content.toList
  catch
    | .noFileOrDirectory .. => return .error .notFound
    | e => return .error (.other (toString e))

open TxStream in
/-- Runs the command line. -/
def main (args : List String) : IO UInt32 := do
  let level ← IO.getEnv "LOG_LEVEL"
  let size ← IO.getEnv "CHUNK_SIZE"
  let env (name : String) : Option String :=
    if name = "LOG_LEVEL" then level else if name = "CHUNK_SIZE" then size else none
  let content ←
    match CommandLine.Options.parse args env with
    | .ok { source := .file path, .. } => readContent path
    | _ => pure (.error .notFound)
  let output := CommandLine.run args env fun _ => content
  IO.print output.stdout
  IO.eprint output.stderr
  return output.exit.toUInt32
