import TxStream.Decoder.Basic

/-!
One step of a decoder within a chunk. A step goes on to a later phase, or it stops: for want of
input, at the end of the transaction, or with a failure.

* `Decoder.readFields`: a step among the fields, which brings one field to its end;
* `Decoder.step`: a step from any phase.

Two shapes of envelope are told apart on the way. A first item that is a single byte, is empty or
does not begin like a list is the nonce of a legacy transaction. Any other first item wraps the
content list of a typed transaction, which has to fill it.
-/

namespace TxStream

/-- Why a decoder stops within a chunk. -/
inductive Stop where
  /-- The input is used up. -/
  | suspend
  /-- The transaction is decoded. -/
  | finish
  /-- Decoding fails. -/
  | fail (e : DecodeError)
deriving DecidableEq

/-- What a step came to. -/
structure Step where
  /-- The decoder after the step. After a failing one, it stands where it failed. -/
  decoder : Decoder
  /-- The position in the chunk. -/
  cursor : Cursor
  /-- Why the decoder stops, unless it goes on. -/
  stop? : Option Stop
  /-- What was reported. -/
  log : List Event

/-- A step with further events reported before it. -/
def Step.after (s : Step) (log : List Event) : Step :=
  { s with log := log ++ s.log }

/-- The budget after `n` bytes of typed content. Content that is not counted has no budget. -/
def spend (budget : Option Nat) (n : Nat) : Except DecodeError (Option Nat) :=
  match budget with
  | none => .ok none
  | some m => if n ≤ m then .ok (some (m - n)) else .error .contentLength

namespace Entry

/-- The record after the header of a field, if the header fits. -/
def accept (e : Entry) (h : Header) (tx : Transaction) : Except DecodeError Transaction :=
  match e.kind.check h with
  | .error err => .error err
  | .ok () => .ok (e.kind.start h tx)

/-- What is reported of the header of a field. -/
def acceptanceLog (e : Entry) (h : Header) : List Event :=
  match e.kind.check h with
  | .error _ => [.field e h, .unfit e.field h]
  | .ok () => [.field e h]

end Entry

namespace Decoder

/-! ### Into the fields -/

/-- A decoder among the fields. -/
def among (d : Decoder) (todo : List Entry) (current : Option OpenField) (budget : Option Nat) :
    Decoder :=
  { d with phase := .fields todo current budget }

/-- Settles the type of the transaction and opens its first field with a header that is already
read. -/
def enter (d : Decoder) (c : Cursor) (t : TxType) (h : Header) (budget : Option Nat) : Step :=
  let d := { d with tx := { d.tx with type := t } }
  match t.layout with
  | [] => ⟨d.among [] none budget, c, some (.fail .invalidState), [.typed t]⟩
  | e :: rest =>
    let log := .typed t :: e.acceptanceLog h
    match e.accept h d.tx with
    | .error err => ⟨d.among (e :: rest) none budget, c, some (.fail err), log⟩
    | .ok tx => ⟨{ d with tx := tx }.among (e :: rest) (some ⟨h, 0⟩) budget, c, none, log⟩

/-! ### Among the fields -/

/-- Reads payload of the open field `f`, the first of `e :: rest`, and closes it at its end. -/
def readPayload (d : Decoder) (c : Cursor) (e : Entry) (rest : List Entry) (f : OpenField)
    (budget : Option Nat) : Step :=
  if e.kind.consumesPayload then
    let (piece, c') := c.take f.remaining
    match spend budget piece.length with
    | .error err => ⟨d.among (e :: rest) none budget, c', some (.fail err), []⟩
    | .ok budget' =>
      let w := e.kind.write e.field f.header f.position piece d.tx
      let d' : Decoder := { d with tx := w.tx }
      match w.failure? with
      | some err => ⟨d'.among (e :: rest) none budget', c', some (.fail err), []⟩
      | none =>
        let f' : OpenField := ⟨f.header, f.position + piece.length⟩
        if f'.isDone then ⟨d'.among rest none budget', c', none, []⟩
        else ⟨d'.among (e :: rest) (some f') budget', c', some .suspend, []⟩
  else ⟨d.among rest none budget, c, none, []⟩

/-- Reads the header of the first field of `e :: rest`, and then payload. What a header takes from
the budget counts before what is wrong with the header. -/
def readField (d : Decoder) (c : Cursor) (e : Entry) (rest : List Entry) (budget : Option Nat) :
    Step :=
  let r := d.partialHeader.read c
  let d := { d with partialHeader := r.partialHeader }
  match spend budget (r.cursor.position - c.position) with
  | .error err => ⟨d.among (e :: rest) none budget, r.cursor, some (.fail err), []⟩
  | .ok budget' =>
    match r.result with
    | .error err => ⟨d.among (e :: rest) none budget', r.cursor, some (.fail err), []⟩
    | .ok none => ⟨d.among (e :: rest) none budget', r.cursor, some .suspend, []⟩
    | .ok (some h) =>
      match e.accept h d.tx with
      | .error err =>
        ⟨d.among (e :: rest) none budget', r.cursor, some (.fail err), e.acceptanceLog h⟩
      | .ok tx =>
        ({ d with tx := tx }.readPayload r.cursor e rest ⟨h, 0⟩ budget').after (e.acceptanceLog h)

/-- Whether a legacy transaction may end before its chain: only where the declared input ends. -/
def endsBeforeChain (d : Decoder) (c : Cursor) : Bool :=
  d.tx.type == .legacy && c.isEmpty && d.pending == 0 && !d.partialHeader.isPending

/-- A step among the fields. Typed content has to end before the chain, from where on nothing is
counted. -/
def readFields (d : Decoder) (c : Cursor) (todo : List Entry) (current : Option OpenField)
    (budget : Option Nat) : Step :=
  match todo with
  | [] => ⟨d, c, some .finish, []⟩
  | e :: rest =>
    match current with
    | some f => d.readPayload c e rest f budget
    | none =>
      if e.field = .chainId then
        if budget.getD 0 ≠ 0 then
          ⟨d.among (e :: rest) none none, c, some (.fail .contentLength), []⟩
        else if d.endsBeforeChain c then ⟨d.among (e :: rest) none none, c, some .finish, []⟩
        else d.readField c e rest none
      else d.readField c e rest budget

/-! ### Any step -/

/-- Reads a header and goes on with it. -/
def withHeader (d : Decoder) (c : Cursor) (next : Decoder → Cursor → Header → Step) : Step :=
  let r := d.partialHeader.read c
  let d := { d with partialHeader := r.partialHeader }
  match r.result with
  | .error err => ⟨d, r.cursor, some (.fail err), []⟩
  | .ok none => ⟨d, r.cursor, some .suspend, []⟩
  | .ok (some h) => next d r.cursor h

/-- The lowest lead byte of a list. -/
def listLead : Nat := 0xc0

/-- A step from any phase. -/
def step (d : Decoder) (c : Cursor) : Step :=
  match d.phase with
  | .init =>
    d.withHeader c fun d c h =>
      if h.isList then ⟨{ d with phase := .envelope }, c, none, []⟩
      else ⟨d, c, some (.fail .unexpectedString), []⟩
  | .envelope =>
    d.withHeader c fun d c h =>
      if h.isList then ⟨d, c, some (.fail .unexpectedList), []⟩
      else if h.isSingle || h.len == 0 then d.enter c .legacy h none
      else ⟨{ d with phase := .wrapper h }, c, none, []⟩
  | .wrapper item =>
    match c.peek? with
    | none => ⟨d, c, some .suspend, []⟩
    | some b =>
      if listLead ≤ b.toNat then ⟨{ d with phase := .content item }, c, none, []⟩
      else d.enter c .legacy item none
  | .content item =>
    d.withHeader c fun d c h =>
      if h.len + h.offset = item.len then ⟨{ d with phase := .typeTag h }, c, none, []⟩
      else ⟨d, c, some (.fail .contentLength), []⟩
  | .typeTag list =>
    match c.peek? with
    | none => ⟨d, c, some .suspend, []⟩
    | some tag =>
      match TxType.ofTag? tag with
      | none => ⟨d, c, some (.fail .unsupportedType), [.unknownTag tag]⟩
      | some t => d.enter c t list (some list.len)
  | .fields todo current budget => d.readFields c todo current budget
  | .complete => ⟨d, c, some .finish, []⟩
  | .failed => ⟨d, c, some (.fail .invalidState), []⟩

end Decoder

end TxStream
