import TxStream.Decoder.Rank

/-!
Decoding from chunks:

* `Decoder.run`: steps within one chunk until the decoder stops;
* `Decoder.update`: the next chunk of a transaction, with the answer and what was reported;
* `Decoder.updates`, `Decoder.feed`: several chunks in a row, up to the first failure;
* `deserialize`: a whole transaction in one chunk.

A decoder that is complete or has failed stays so and looks at no further input
(`update_of_complete`, `update_of_failed`). A chunk that is longer than the declared input fails
before any byte of it is read.
-/

namespace TxStream

/-- What the steps within a chunk came to. -/
structure Run where
  /-- The decoder where it stops. -/
  decoder : Decoder
  /-- The position where it stops. -/
  cursor : Cursor
  /-- Why it stops. -/
  stop : Stop
  /-- What was reported. -/
  log : List Event

/-- What the next chunk came to. -/
structure Update where
  /-- The decoder after the chunk. -/
  decoder : Decoder
  /-- The answer. -/
  result : Except DecodeError Progress
  /-- What was reported. -/
  log : List Event

namespace Decoder

/-- Makes steps within a chunk until the decoder stops. -/
def run (d : Decoder) (c : Cursor) : Run :=
  let s := d.step c
  match _ : s.stop? with
  | some stop => ⟨s.decoder, s.cursor, stop, s.log⟩
  | none =>
    let r := s.decoder.run s.cursor
    { r with log := s.log ++ r.log }
termination_by d.phase.rank
decreasing_by exact rank_step_lt ‹_›

/-- Gives a decoder up for a failure. -/
def fail (d : Decoder) (e : DecodeError) : Update :=
  ⟨{ d with phase := .failed }, .error e, [.failed d.state d.field? e]⟩

/-- Answers for the steps within a chunk. What is left of the chunk and of the declared input after
the last field is trailing. -/
def conclude (r : Run) : Update :=
  match r.stop with
  | .suspend => ⟨r.decoder, .ok .needsMoreInput, r.log⟩
  | .finish =>
    let trailing := r.cursor.remaining + r.decoder.pending
    ⟨{ r.decoder with phase := .complete }, .ok .complete,
      r.log ++ [.decoded r.decoder.tx.type trailing]⟩
  | .fail e =>
    let u := r.decoder.fail e
    { u with log := r.log ++ u.log }

/-- Reads a chunk that the declared input has room for. -/
def readChunk (d : Decoder) (chunk : Bytes) : Update :=
  conclude ({ d with pending := d.pending - chunk.length }.run (.start chunk))

/-- Takes the next chunk of a transaction. -/
def update (d : Decoder) (chunk : Bytes) : Update :=
  match d.phase with
  | .complete => ⟨d, .ok .complete, []⟩
  | .failed => ⟨d, .error .invalidState, []⟩
  | _ =>
    if d.pending < chunk.length then
      let u := d.fail .invalidLength
      { u with log := .overrun chunk.length d.pending :: u.log }
    else d.readChunk chunk

/-- Takes chunks in a row and gives what each came to, up to the first failure. -/
def updates (d : Decoder) : List Bytes → List Update
  | [] => []
  | chunk :: rest =>
    let u := d.update chunk
    match u.result with
    | .ok _ => u :: u.decoder.updates rest
    | .error _ => [u]

/-- The decoder after chunks in a row, or the first failure. -/
def feed (d : Decoder) : List Bytes → Except DecodeError Decoder
  | [] => .ok d
  | chunk :: rest =>
    let u := d.update chunk
    match u.result with
    | .ok _ => u.decoder.feed rest
    | .error e => .error e

/-! ### Laws -/

theorem update_of_complete {d : Decoder} (h : d.phase = .complete) (chunk : Bytes) :
    d.update chunk = ⟨d, .ok .complete, []⟩ := by
  rw [update, h]

theorem update_of_failed {d : Decoder} (h : d.phase = .failed) (chunk : Bytes) :
    d.update chunk = ⟨d, .error .invalidState, []⟩ := by
  rw [update, h]

/-- Chunks in a row are taken one after the other. -/
theorem feed_append (d : Decoder) (a b : List Bytes) :
    d.feed (a ++ b) = (d.feed a).bind fun d' => d'.feed b := by
  induction a generalizing d with
  | nil => rfl
  | cons chunk rest ih =>
    rw [List.cons_append, feed, feed]
    split
    · exact ih _
    · rfl

end Decoder

/-! ### Whole transactions -/

/-- The transaction that the bytes encode. -/
def deserialize (raw : Bytes) : Except DecodeError Transaction :=
  match Decoder.create raw.length with
  | .error e => .error e
  | .ok d =>
    let u := d.update raw
    match u.result with
    | .error e => .error e
    | .ok _ => u.decoder.finish

/-- What is reported while the bytes are decoded. -/
def deserializeLog (raw : Bytes) : List Event :=
  match Decoder.create raw.length with
  | .error _ => Decoder.creationLog raw.length
  | .ok d => (d.update raw).log

end TxStream
