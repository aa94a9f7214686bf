import TxStream.Field.Basic
import TxStream.Transaction.Record
import TxStream.Wire.Header

/-!
What is done with a field, by kind:

* `Kind.check`: whether a header fits the kind, before any payload is read;
* `Kind.start`: what a header alone says about the transaction;
* `Kind.write`: what a piece of payload does to the transaction, also where the piece is refused.
  Pieces come in order, each with its position in the payload;
* `Kind.apply`: the transaction after a piece, or why the piece is refused.
-/

namespace TxStream

/-- What is done with a field. -/
inductive Kind where
  /-- A list that is entered, so that its payload is read as fields. -/
  | list
  /-- The type tag, which is known before it is read as a field. -/
  | tag
  /-- A number that is kept. -/
  | uint
  /-- A recipient that is kept. -/
  | address
  /-- A payload that is dropped. -/
  | discard
  /-- The fee ratio, a field of partially fee delegated types alone. -/
  | ratio
  /-- A payload of which only its presence is kept. -/
  | data
deriving DecidableEq

/-- The quantity that a field fills, if it fills one. -/
def Transaction.quantity? (tx : Transaction) : Field → Option Quantity
  | .nonce => some tx.nonce
  | .gasPrice => some tx.gasPrice
  | .gasLimit => some tx.gasLimit
  | .value => some tx.value
  | .chainId => some tx.chainId
  | _ => none

/-- The transaction with another quantity for a field. A field that fills no quantity changes
nothing. -/
def Transaction.withQuantity (tx : Transaction) (q : Quantity) : Field → Transaction
  | .nonce => { tx with nonce := q }
  | .gasPrice => { tx with gasPrice := q }
  | .gasLimit => { tx with gasLimit := q }
  | .value => { tx with value := q }
  | .chainId => { tx with chainId := q }
  | _ => tx

/-- A transaction that was written to, and why the writing failed, if it did. -/
structure Written where
  /-- The transaction, with what was written before a failure. -/
  tx : Transaction
  /-- The failure. -/
  failure? : Option DecodeError

/-- The transaction, unless the writing failed. -/
def Written.result (w : Written) : Except DecodeError Transaction :=
  match w.failure? with
  | none => .ok w.tx
  | some err => .error err

namespace Kind

/-- The name of a kind. -/
def name : Kind → String
  | .list => "List"
  | .tag => "TxType"
  | .uint => "Uint"
  | .address => "Address"
  | .discard => "Discard"
  | .ratio => "Ratio"
  | .data => "Data"

/-- The kinds in order. -/
def all : List Kind := [.list, .tag, .uint, .address, .discard, .ratio, .data]

instance : Enumeration Kind := ⟨all, name⟩

/-- The longest payload that a kind keeps, if it is bounded. -/
def capacity? : Kind → Option Nat
  | .uint => some Quantity.maxLength
  | .address => some Address.length
  | .ratio => some 1
  | _ => none

/-- Whether a string of `len` bytes fits a kind. A type tag is one byte, and no other length is a
type that is supported. -/
def checkLength (k : Kind) (len : Nat) : Except DecodeError Unit :=
  if k = .tag ∧ len ≠ 1 then .error .unsupportedType
  else
    match k.capacity? with
    | some max => if max < len then .error .fieldTooLong else .ok ()
    | none => .ok ()

/-- Whether a header fits a kind: lists where lists are entered and strings elsewhere, no longer
than the kind can hold. -/
def check (k : Kind) (h : Header) : Except DecodeError Unit :=
  if k = .list then
    if h.isList then .ok () else .error .unexpectedString
  else if h.isList then .error .unexpectedList
  else k.checkLength h.len

/-- Whether the payload belongs to the field. The payload of a list belongs to the fields in it. -/
def consumesPayload (k : Kind) : Bool := k != .list

/-- The transaction after the header of a field. Data of any length counts as present until a
payload says otherwise. -/
def start (k : Kind) (h : Header) (tx : Transaction) : Transaction :=
  if k = .data then { tx with dataPresent := decide (0 < h.len) } else tx

/-- What becomes of a transaction under a piece of payload, which stands at `position` in the field.

A number grows at its low end, a recipient is written in place, and a fee ratio is the first byte
of the piece. Data is present unless it is a single byte and that byte is zero, which the first
byte of the payload settles. -/
def write (k : Kind) (field : Field) (h : Header) (position : Nat) (piece : Bytes)
    (tx : Transaction) : Written :=
  match k with
  | .list => ⟨tx, none⟩
  | .tag => ⟨tx, none⟩
  | .discard => ⟨tx, none⟩
  | .uint =>
    match tx.quantity? field with
    | none => ⟨tx, some .invalidState⟩
    | some q =>
      match q.append? piece with
      | none => ⟨tx, some .fieldTooLong⟩
      | some q' => ⟨tx.withQuantity q' field, none⟩
  | .address =>
    match tx.recipient.write? position piece with
    | none => ⟨tx, some .fieldTooLong⟩
    | some a => ⟨{ tx with recipient := a }, none⟩
  | .ratio =>
    match piece with
    | [] => ⟨tx, none⟩
    | b :: _ => ⟨{ tx with feeRatio := b }, none⟩
  | .data =>
    match piece with
    | [] => ⟨tx, none⟩
    | b :: _ =>
      if position = 0 then ⟨{ tx with dataPresent := !(h.len == 1 && b == 0) }, none⟩
      else ⟨tx, none⟩

/-- The transaction after a piece of payload, or why the piece is refused. -/
def apply (k : Kind) (field : Field) (h : Header) (position : Nat) (piece : Bytes)
    (tx : Transaction) : Except DecodeError Transaction :=
  (k.write field h position piece tx).result

end Kind

end TxStream
