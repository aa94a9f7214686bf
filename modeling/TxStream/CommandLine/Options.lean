import TxStream.Log
import TxStream.Summary.Format

/-!
The options of the command line:

    [--log-level L] decode (--tx HEX | --file PATH) [--chunk-size N] [--format text|json]

A value follows its option as the next argument, which must not look like an option, or behind an
equals sign. No option may be given twice. For the log level and the chunk size, the variables
`LOG_LEVEL` and `CHUNK_SIZE` of the environment stand in where the option is missing.

* `Options.parse`: the options that arguments and environment spell;
* `UsageError`: why they spell none.
-/

namespace TxStream

namespace CommandLine

/-! ### Failures -/

/-- The causes for which arguments spell no options. -/
inductive UsageError where
  /-- An argument is not known where it stands. -/
  | unexpected (arg : String)
  /-- An option has no value. -/
  | noValue (option : String)
  /-- An option is given twice. -/
  | repeated (option : String)
  /-- The value of an option is not in its form. -/
  | badValue (option value : String)
  /-- No command is given. -/
  | noCommand
  /-- No transaction is given. -/
  | noSource
  /-- The transaction is given in two ways. -/
  | twoSources
deriving DecidableEq

/-- The wording of a cause. It is shorter than that of the program, whose argument parser also shows
the usage and hints at similar options. -/
def UsageError.message : UsageError → String
  | .unexpected arg => "unexpected argument '" ++ arg ++ "' found"
  | .noValue option => "a value is required for '--" ++ option ++ "'"
  | .repeated option => "'--" ++ option ++ "' cannot be used multiple times"
  | .badValue option value => "invalid value '" ++ value ++ "' for '--" ++ option ++ "'"
  | .noCommand => "a command is required"
  | .noSource => "one of '--tx' and '--file' is required"
  | .twoSources => "'--tx' cannot be used with '--file'"

/-! ### Options -/

/-- Where the transaction comes from. -/
inductive Source where
  /-- It stands on the command line. -/
  | bytes (raw : Bytes)
  /-- It stands in a file as hexadecimal text. -/
  | file (path : String)
deriving DecidableEq

/-- The options of a call. -/
structure Options where
  /-- The log records that are shown. -/
  filter : LogFilter
  /-- Where the transaction comes from. -/
  source : Source
  /-- The size of the chunks in which it is decoded. -/
  chunkSize : Nat
  /-- The format of the summary. -/
  format : Format
deriving DecidableEq

/-- The options that take part in decoding. -/
inductive DecodeOption where
  | tx
  | file
  | chunkSize
  | format
deriving DecidableEq

/-- The name of an option behind its two dashes. -/
def DecodeOption.name : DecodeOption → String
  | .tx => "tx"
  | .file => "file"
  | .chunkSize => "chunk-size"
  | .format => "format"

/-- The option with a given name. -/
def DecodeOption.ofName? (name : String) : Option DecodeOption :=
  [DecodeOption.tx, .file, .chunkSize, .format].find? fun o => o.name == name

/-- The name of the option for the log level. -/
def logLevelName : String := "log-level"

/-! ### Values -/

/-- A number that fits 64 bits, with a plus sign in front if there is one. -/
def parseSize? (s : String) : Option Nat :=
  let digits :=
    match s.toList with
    | '+' :: rest => rest
    | cs => cs
  (Decimal.parse? digits).filter fun n => n < UInt64.size

/-- The filter with a given name, in either case. -/
def parseFilter? (s : String) : Option LogFilter :=
  if sameName "off" s then some .off
  else (LogLevel.all.find? fun l => sameName l.name s).map .upTo

/-- The value of an option in its form, if it is in its form. -/
def valued {α : Type} (option value : String) : Option α → Except UsageError α
  | some a => .ok a
  | none => .error (.badValue option value)

/-! ### Arguments -/

/-- The name of the option that an argument is, and the value behind its equals sign. -/
def splitOption (arg : String) : Option (String × Option String) :=
  match arg.toList with
  | '-' :: '-' :: c :: cs =>
    let body := c :: cs
    let name := String.ofList (body.takeWhile (· != '='))
    match body.dropWhile (· != '=') with
    | [] => some (name, none)
    | _ :: value => some (name, some (String.ofList value))
  | _ => none

/-- Whether an argument looks like an option, so that it is no value. A lone dash does not. -/
def looksLikeOption (arg : String) : Bool :=
  match arg.toList with
  | '-' :: _ :: _ => true
  | _ => false

/-- The arguments up to the command and those behind it: the value of the log level, if it is
given, and the rest. -/
def scanGlobal (level : Option String) :
    List String → Except UsageError (Option String × List String)
  | [] => .error .noCommand
  | arg :: rest =>
    if arg = "decode" then .ok (level, rest)
    else
      match splitOption arg with
      | none => .error (.unexpected arg)
      | some (name, attached) =>
        if name ≠ logLevelName then .error (.unexpected arg)
        else if level.isSome then .error (.repeated name)
        else
          match attached with
          | some value => scanGlobal (some value) rest
          | none =>
            match rest with
            | [] => .error (.noValue name)
            | value :: rest =>
              if looksLikeOption value then .error (.noValue name)
              else scanGlobal (some value) rest

/-- The options behind the command with their values, added to those already found. -/
def scanDecode (found : List (DecodeOption × String)) :
    List String → Except UsageError (List (DecodeOption × String))
  | [] => .ok found
  | arg :: rest =>
    if arg = "--" ∧ rest = [] then .ok found
    else
      match splitOption arg with
      | none => .error (.unexpected arg)
      | some (name, attached) =>
        match DecodeOption.ofName? name with
        | none => .error (.unexpected arg)
        | some option =>
          if (found.lookup option).isSome then .error (.repeated name)
          else
            match attached with
            | some value => scanDecode ((option, value) :: found) rest
            | none =>
              match rest with
              | [] => .error (.noValue name)
              | value :: rest =>
                if looksLikeOption value then .error (.noValue name)
                else scanDecode ((option, value) :: found) rest

/-! ### Reading the options -/

/-- Where the transaction comes from. A path must not be empty. -/
def sourceOf (found : List (DecodeOption × String)) : Except UsageError Source :=
  match found.lookup .tx, found.lookup .file with
  | none, none => .error .noSource
  | some _, some _ => .error .twoSources
  | some hex, none =>
    match HexInput.parse hex with
    | .ok raw => .ok (.bytes raw)
    | .error _ => .error (.badValue DecodeOption.tx.name hex)
  | none, some path =>
    if path = "" then .error (.badValue DecodeOption.file.name path) else .ok (.file path)

/-- The size of chunks: as given, else as in the environment, else the largest. -/
def chunkSizeOf (found : List (DecodeOption × String)) (env : String → Option String) :
    Except UsageError Nat :=
  match (found.lookup .chunkSize).or (env "CHUNK_SIZE") with
  | some s => valued DecodeOption.chunkSize.name s (parseSize? s)
  | none => .ok maxChunkLength

/-- The format: as given, else text. -/
def formatOf (found : List (DecodeOption × String)) : Except UsageError Format :=
  match found.lookup .format with
  | some s => valued DecodeOption.format.name s (Format.parse? false s)
  | none => .ok .text

/-- The log filter: as given, else as in the environment, else up to information. -/
def filterOf (level : Option String) (env : String → Option String) :
    Except UsageError LogFilter :=
  match level.or (env "LOG_LEVEL") with
  | some s => valued logLevelName s (parseFilter? s)
  | none => .ok (.upTo .info)

/-- The options that arguments and environment spell. A call for help (`--help`, `-h`, `help`) spells
none and fails as any argument that is not known, where the program shows its usage and succeeds. -/
def Options.parse (args : List String) (env : String → Option String) :
    Except UsageError Options := do
  let (level, rest) ← scanGlobal none args
  let found ← scanDecode [] rest
  return {
    filter := ← filterOf level env
    source := ← sourceOf found
    chunkSize := ← chunkSizeOf found env
    format := ← formatOf found }

end CommandLine

end TxStream
