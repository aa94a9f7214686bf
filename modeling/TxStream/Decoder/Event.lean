import TxStream.Decoder.State
import TxStream.Field.Layout
import TxStream.Log
import TxStream.Text.Decimal

/-!
What a decoder reports while it works. Each event has a level and a wording, and `Event.record`
joins the two. Headers are worded by `Header.text`.
-/

namespace TxStream

/-- The wording of a truth value. -/
def boolText (b : Bool) : String := if b then "true" else "false"

/-- The wording of a header. -/
def Header.text (h : Header) : String :=
  "Header \x7b len: " ++ Decimal.render h.len ++ ", list: " ++ boolText h.isList ++
    ", offset: " ++ Decimal.render h.offset ++ " \x7d"

/-- What a decoder reports. -/
inductive Event where
  /-- The declared length of a transaction is above the maximum. -/
  | declaredTooLong (len max : Nat)
  /-- A chunk is longer than the input still expected. -/
  | overrun (chunk pending : Nat)
  /-- A type tag is not known. -/
  | unknownTag (tag : UInt8)
  /-- The type of the transaction is known. -/
  | typed (t : TxType)
  /-- A field begins with a header. -/
  | field (e : Entry) (h : Header)
  /-- The header does not fit the field. -/
  | unfit (f : Field) (h : Header)
  /-- The transaction is decoded, with so many bytes after it. -/
  | decoded (t : TxType) (trailing : Nat)
  /-- Decoding fails in a state, at a field if there is one. -/
  | failed (state : State) (f : Option Field) (e : DecodeError)
deriving DecidableEq

namespace Event

/-- The level at which an event is reported. -/
def level : Event → LogLevel
  | .declaredTooLong .. => .error
  | .overrun .. => .error
  | .unknownTag .. => .error
  | .typed .. => .debug
  | .field .. => .debug
  | .unfit .. => .error
  | .decoded .. => .debug
  | .failed .. => .error

/-- The wording of a field that may be missing. -/
def fieldText : Option Field → String
  | none => "None"
  | some f => "Some(" ++ f.label ++ ")"

/-- The wording of an event. -/
def message : Event → String
  | .declaredTooLong len max =>
    "Transaction length " ++ Decimal.render len ++ " exceeds maximum " ++ Decimal.render max
  | .overrun chunk pending =>
    "Chunk of " ++ Decimal.render chunk ++ " bytes exceeds remaining length " ++
      Decimal.render pending
  | .unknownTag tag => "Unsupported transaction type: " ++ Hex.byteText tag
  | .typed t => "Transaction type: " ++ t.name ++ " (" ++ Hex.byteText t.id ++ ")"
  | .field e h => "Field " ++ e.field.name ++ " (" ++ e.kind.name ++ "): " ++ h.text
  | .unfit f h => "Invalid header for field " ++ f.name ++ ": " ++ h.text
  | .decoded t trailing =>
    "Decoded " ++ t.name ++ " transaction (" ++ Decimal.render trailing ++ " trailing bytes)"
  | .failed state f e =>
    "Decode failed (state: " ++ state.name ++ ", field: " ++ fieldText f ++ "): " ++ e.name

/-- An event as a log record. -/
def record (e : Event) : LogRecord := ⟨e.level, e.message⟩

end Event

end TxStream
