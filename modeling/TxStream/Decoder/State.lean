import TxStream.Text.Names

/-!
The states in which a decoder can be, as its callers see them. The states before `fields` are the
steps into the envelope of a transaction, in order.
-/

namespace TxStream

/-- The state of a decoder. -/
inductive State where
  /-- The header of the outer list is awaited. -/
  | init
  /-- The header of the first item is awaited. -/
  | envelope
  /-- The first byte of the first item tells whether it wraps typed content. -/
  | wrapper
  /-- The header of the typed content list is awaited. -/
  | content
  /-- The type tag is awaited. -/
  | typeTag
  /-- Fields are read. -/
  | fields
  /-- The transaction is decoded. -/
  | complete
  /-- Decoding has failed. -/
  | error
deriving DecidableEq

namespace State

/-- The name of a state. -/
def name : State → String
  | .init => "Init"
  | .envelope => "Envelope"
  | .wrapper => "Wrapper"
  | .content => "Content"
  | .typeTag => "TypeTag"
  | .fields => "Fields"
  | .complete => "Complete"
  | .error => "Error"

/-- The states in the order in which they are passed. -/
def all : List State :=
  [.init, .envelope, .wrapper, .content, .typeTag, .fields, .complete, .error]

instance : Enumeration State := ⟨all, name⟩

end State

end TxStream
