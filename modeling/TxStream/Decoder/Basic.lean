import TxStream.Decoder.Event
import TxStream.Wire.PartialHeader

/-!
The decoder between two chunks of input. A `Decoder` holds how far it has come (its `Phase`), the
bytes of an unfinished header, the length of input still expected and the record so far.

* `Decoder.create`: a decoder for a transaction of declared length, at most `Decoder.maxLength`;
* `Decoder.state`, `Decoder.field?`: where the decoder stands, as callers see it;
* `Decoder.transaction?`, `Decoder.finish`: the record, which is shown only once it is complete.
-/

namespace TxStream

/-- A field whose header is read and whose payload is not. -/
structure OpenField where
  /-- The header of the field. -/
  header : Header
  /-- The number of payload bytes already read. -/
  position : Nat
deriving DecidableEq

namespace OpenField

/-- The number of payload bytes still to come. -/
def remaining (f : OpenField) : Nat := f.header.len - f.position

/-- Whether the payload is read to its end. -/
def isDone (f : OpenField) : Bool := decide (f.header.len ≤ f.position)

end OpenField

/-- How far a decoder has come, with what it has to remember there. -/
inductive Phase where
  /-- Before the header of the outer list. -/
  | init
  /-- Before the header of the first item. -/
  | envelope
  /-- After the header of the first item, before its first byte. -/
  | wrapper (item : Header)
  /-- Before the header of the content list that the first item wraps. -/
  | content (item : Header)
  /-- After the header of the content list, before the type tag. -/
  | typeTag (list : Header)
  /-- Before the end of the first field of `todo`, which is open once its header is read. The
  budget is the length of typed content still to come, and is none where no content is counted. -/
  | fields (todo : List Entry) (current : Option OpenField) (budget : Option Nat)
  /-- After the last field. -/
  | complete
  /-- After a failure. -/
  | failed
deriving DecidableEq

namespace Phase

/-- The state that callers see. -/
def state : Phase → State
  | .init => .init
  | .envelope => .envelope
  | .wrapper _ => .wrapper
  | .content _ => .content
  | .typeTag _ => .typeTag
  | .fields .. => .fields
  | .complete => .complete
  | .failed => .error

/-- The field that is being read. -/
def field? : Phase → Option Field
  | .fields todo _ _ => todo.head?.map (·.field)
  | _ => none

end Phase

/-- A decoder between two chunks of input. -/
structure Decoder where
  /-- How far it has come. -/
  phase : Phase
  /-- The bytes of an unfinished header. -/
  partialHeader : PartialHeader
  /-- The length of declared input that is not yet supplied. -/
  pending : Nat
  /-- The record so far. -/
  tx : Transaction
deriving DecidableEq

namespace Decoder

/-- The largest length of a transaction, in a build for large ones as is the default. A build for
small ones has 510 in its place and is not followed. -/
def maxLength : Nat := 8190

/-- A decoder for a transaction of declared length. -/
def create (len : Nat) : Except DecodeError Decoder :=
  if maxLength < len then .error .invalidLength else .ok ⟨.init, {}, len, {}⟩

/-- What is reported when a decoder is created. -/
def creationLog (len : Nat) : List Event :=
  if maxLength < len then [.declaredTooLong len maxLength] else []

/-- The state of a decoder. -/
def state (d : Decoder) : State := d.phase.state

/-- The field that a decoder is at, if it is at one. -/
def field? (d : Decoder) : Option Field := d.phase.field?

/-- The transaction, once it is complete. -/
def transaction? (d : Decoder) : Option Transaction :=
  match d.phase with
  | .complete => some d.tx
  | _ => none

/-- The transaction that a decoder ends with, or why there is none. -/
def finish (d : Decoder) : Except DecodeError Transaction :=
  match d.phase with
  | .complete => .ok d.tx
  | .failed => .error .invalidState
  | _ => .error .incomplete

end Decoder

end TxStream
