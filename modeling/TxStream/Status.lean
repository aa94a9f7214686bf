import TxStream.Text.Names

/-!
What a decoder answers, and how a caller sorts the answers:

* `Progress`: the two good answers, more input wanted or transaction decoded;
* `DecodeError`: the causes of a failure, each with a number and a wording;
* `Status`: the four classes into which a caller sorts good and bad answers alike.
-/

namespace TxStream

/-! ### Progress -/

/-- How far a decoder has come when a chunk is used up without a failure. -/
inductive Progress where
  /-- The input is used up, and the transaction is not. -/
  | needsMoreInput
  /-- The transaction is decoded. -/
  | complete
deriving DecidableEq

namespace Progress

/-- The name of a progress report. -/
def name : Progress → String
  | .needsMoreInput => "NeedsMoreInput"
  | .complete => "Complete"

/-- Both progress reports. -/
def all : List Progress := [.needsMoreInput, .complete]

instance : Enumeration Progress := ⟨all, name⟩

end Progress

/-! ### Status -/

/-- The classes into which a caller sorts the answers of a decoder. -/
inductive Status where
  /-- More input is required. -/
  | needsMoreInput
  /-- The transaction is decoded. -/
  | ok
  /-- The encoding is malformed or not supported. -/
  | structuralError
  /-- The declared or supplied length is out of bounds. -/
  | lengthError
deriving DecidableEq

namespace Status

/-- The name of a status. -/
def name : Status → String
  | .needsMoreInput => "NeedsMoreInput"
  | .ok => "Ok"
  | .structuralError => "StructuralError"
  | .lengthError => "LengthError"

/-- The four statuses in order. -/
def all : List Status := [.needsMoreInput, .ok, .structuralError, .lengthError]

instance : Enumeration Status := ⟨all, name⟩

end Status

/-! ### Failures -/

/-- The causes for which decoding fails. -/
inductive DecodeError where
  /-- The declared length is above the maximum, or the input overruns it. -/
  | invalidLength
  /-- A header has a lead byte or a length of lengths that is not supported. -/
  | invalidHeader
  /-- A header does not fit the space for unfinished headers. -/
  | headerOverflow
  /-- A list stands where a string is required. -/
  | unexpectedList
  /-- A string stands where a list is required. -/
  | unexpectedString
  /-- A field exceeds the capacity of its destination. -/
  | fieldTooLong
  /-- The transaction type is not known. -/
  | unsupportedType
  /-- The declared length of typed content is not that of its fields. -/
  | contentLength
  /-- The transaction is not yet complete. -/
  | incomplete
  /-- The decoder is in no state to do what is asked. -/
  | invalidState
deriving DecidableEq

namespace DecodeError

/-- The name of a cause. -/
def name : DecodeError → String
  | .invalidLength => "InvalidLength"
  | .invalidHeader => "InvalidHeader"
  | .headerOverflow => "HeaderOverflow"
  | .unexpectedList => "UnexpectedList"
  | .unexpectedString => "UnexpectedString"
  | .fieldTooLong => "FieldTooLong"
  | .unsupportedType => "UnsupportedType"
  | .contentLength => "ContentLength"
  | .incomplete => "Incomplete"
  | .invalidState => "InvalidState"

/-- The wording of a cause. -/
def message : DecodeError → String
  | .invalidLength => "Invalid transaction length"
  | .invalidHeader => "Invalid RLP header"
  | .headerOverflow => "RLP header overflow"
  | .unexpectedList => "unexpected RLP list"
  | .unexpectedString => "unexpected RLP string"
  | .fieldTooLong => "field length exceeds maximum"
  | .unsupportedType => "unsupported transaction type"
  | .contentLength => "transaction content length mismatch"
  | .incomplete => "transaction incomplete"
  | .invalidState => "invalid decoder state"

/-- The number under which a cause is reported. Nine is not in use. -/
def code : DecodeError → Nat
  | .invalidLength => 0
  | .invalidHeader => 1
  | .headerOverflow => 2
  | .unexpectedList => 3
  | .unexpectedString => 4
  | .fieldTooLong => 5
  | .unsupportedType => 6
  | .contentLength => 7
  | .incomplete => 8
  | .invalidState => 10

/-- The class of a cause. An incomplete transaction only lacks input. -/
def status : DecodeError → Status
  | .invalidLength => .lengthError
  | .incomplete => .needsMoreInput
  | _ => .structuralError

/-- Every cause, in the order of their numbers. -/
def all : List DecodeError :=
  [.invalidLength, .invalidHeader, .headerOverflow, .unexpectedList, .unexpectedString,
    .fieldTooLong, .unsupportedType, .contentLength, .incomplete, .invalidState]

instance : Enumeration DecodeError := ⟨all, name⟩

end DecodeError

/-- The class of an answer. -/
def Status.ofAnswer : Except DecodeError Progress → Status
  | .ok .complete => .ok
  | .ok .needsMoreInput => .needsMoreInput
  | .error e => e.status

end TxStream
