import TxStream.CommandLine.Options

/-!
A call of the command line from its arguments to its output.

* `CommandLine.execute`: the output for given options, files being read through a function;
* `CommandLine.run`: the output for given arguments and environment.

A call ends with exit code 0 after a summary, with 1 after a failure to decode, and with 2 if its
arguments are not understood. Log records come before the summary or the failure. Errors go to the
error output, and all other records and the summary to the standard output.

The output is followed at the log levels up to `info`. What the command line logs of itself at the
level `debug` (its options, the file it reads, that it renders a summary) is left out, and so are the
thread and the module that lines of this level name.
-/

namespace TxStream

namespace CommandLine

/-! ### Failures -/

/-- The causes for which a file is not read. -/
inductive FileError where
  /-- There is no such file. -/
  | notFound
  /-- The file is not read for another reason. -/
  | other (message : String)
deriving DecidableEq

/-- The wording of a cause. -/
def FileError.message : FileError → String
  | .notFound => "No such file or directory (os error 2)"
  | .other message => message

/-- The causes for which a call fails. -/
inductive RunError where
  /-- The file is not read. -/
  | file (e : FileError)
  /-- The file is no text. -/
  | notText
  /-- The file is no hexadecimal text. -/
  | hex (e : Hex.Error)
  /-- The bytes are no transaction. -/
  | chunked (e : ChunkedError)
deriving DecidableEq

/-- The wording of a cause. -/
def RunError.message : RunError → String
  | .file e => e.message
  | .notText => "stream did not contain valid UTF-8"
  | .hex e => e.message
  | .chunked e => e.message

/-- The wording of what lies behind a cause, if something does. -/
def RunError.sourceMessage? : RunError → Option String
  | .chunked (.decode e) => some e.message
  | _ => none

/-- What is shown of a failure. -/
def RunError.report (e : RunError) : String :=
  "Error: " ++ e.message ++ "\n" ++
    match e.sourceMessage? with
    | some m => "\nCaused by:\n    " ++ m ++ "\n"
    | none => ""

/-! ### Output -/

/-- What a call leaves behind. -/
structure Output where
  /-- The exit code. -/
  exit : Nat
  /-- The standard output. -/
  stdout : String
  /-- The error output. -/
  stderr : String
deriving DecidableEq

/-- A log record as a line, without the time of day that is put in front of it. -/
def logLine (r : LogRecord) : String :=
  "[" ++ r.level.name ++ "] " ++ r.message ++ "\n"

/-- The lines of those records that a filter lets through and that go to the error output, or of
those that do not. -/
def logText (filter : LogFilter) (toError : Bool) (records : List LogRecord) : String :=
  String.join <| (records.filter fun r =>
    filter.passes r.level && (r.level == .error) == toError).map logLine

/-! ### Running -/

/-- The transaction bytes from their source. -/
def load (source : Source) (read : String → Except FileError Bytes) : Except RunError Bytes :=
  match source with
  | .bytes raw => .ok raw
  | .file path =>
    match read path with
    | .error e => .error (.file e)
    | .ok content =>
      match String.fromUTF8? content.toByteArray with
      | none => .error .notText
      | some s => (HexInput.parse s).mapError .hex

/-- The record that opens the decoding of some bytes. -/
def openingRecord (length chunkSize : Nat) : LogRecord :=
  ⟨.info, "Decoding " ++ Decimal.render length ++ " byte transaction (" ++
    Decimal.render chunkSize ++ " byte chunks)"⟩

/-- The output for given options, with the records of decoding as the only ones below `info`. -/
def execute (o : Options) (read : String → Except FileError Bytes) : Output :=
  match load o.source read with
  | .error e => ⟨1, "", e.report⟩
  | .ok raw =>
    let records :=
      openingRecord raw.length o.chunkSize :: (decodeChunkedLog raw o.chunkSize).map (·.record)
    let out := logText o.filter false records
    let err := logText o.filter true records
    match decodeChunked raw o.chunkSize with
    | .error e => ⟨1, out, err ++ (RunError.chunked e).report⟩
    | .ok tx => ⟨0, out ++ o.format.render (.ofTransaction tx) ++ "\n", err⟩

/-- The output for given arguments and environment. -/
def run (args : List String) (env : String → Option String)
    (read : String → Except FileError Bytes) : Output :=
  match Options.parse args env with
  | .error e => ⟨2, "", "error: " ++ e.message ++ "\n"⟩
  | .ok o => execute o read

end CommandLine

end TxStream
