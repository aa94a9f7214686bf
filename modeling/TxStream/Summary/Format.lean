import TxStream.Chunked
import TxStream.Summary.Json
import TxStream.Summary.Text
import TxStream.Text.HexInput
import TxStream.Text.Names

/-!
Summaries in a chosen format, and summaries of hexadecimal input.

* `Format.render`: a summary in a format;
* `Format.parse?`: the format with a given name, whose case may be ignored;
* `Summary.ofHex`: the summary of a transaction that is written as hexadecimal text.
-/

namespace TxStream

/-! ### Formats -/

/-- The formats of a summary. -/
inductive Format where
  /-- Text for people. -/
  | text
  /-- JSON over several lines. -/
  | json
deriving DecidableEq

namespace Format

/-- The name of a format. -/
def name : Format → String
  | .text => "text"
  | .json => "json"

/-- Both formats. -/
def all : List Format := [.text, .json]

instance : Enumeration Format := ⟨all, name⟩

/-- A summary in a format. -/
def render (f : Format) (s : Summary) : String :=
  match f with
  | .text => s.text
  | .json => s.jsonText

/-- The format with a given name. Case counts unless it is to be ignored. -/
def parse? (ignoreCase : Bool) (s : String) : Option Format :=
  all.find? fun f => if ignoreCase then sameName f.name s else f.name == s

/-- The wording of the failure to find a format by its name. -/
def unknownMessage (s : String) : String := "invalid variant: " ++ s

end Format

/-! ### Hexadecimal input -/

/-- The causes for which hexadecimal input has no summary. -/
inductive InputError where
  /-- The input is no hexadecimal text. -/
  | hex (e : Hex.Error)
  /-- The bytes are no transaction. -/
  | chunked (e : ChunkedError)
deriving DecidableEq

/-- The wording of a cause. -/
def InputError.message : InputError → String
  | .hex e => "Invalid hex input: " ++ e.message
  | .chunked e => e.message

namespace Summary

/-- The summary of a transaction that is written as hexadecimal text. -/
def ofHex (s : String) (chunkSize : Nat) : Except InputError Summary :=
  match HexInput.parseRepeated s with
  | .error e => .error (.hex e)
  | .ok raw =>
    match decodeChunked raw chunkSize with
    | .error e => .error (.chunked e)
    | .ok tx => .ok (ofTransaction tx)

/-- What is reported while hexadecimal input is decoded. -/
def ofHexLog (s : String) (chunkSize : Nat) : List ChunkEvent :=
  match HexInput.parseRepeated s with
  | .error _ => []
  | .ok raw => decodeChunkedLog raw chunkSize

end Summary

end TxStream
