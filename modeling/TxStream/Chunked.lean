import TxStream.Decoder.Run

/-!
A whole transaction decoded in chunks of one size, as a transport with small frames delivers it.

* `decodeChunked`: the transaction, or the cause of a failure;
* `decodeChunkedLog`: what is reported meanwhile, by the decoder and for each chunk.

Every chunk is delivered, also after the transaction is complete. The answer to the last chunk
decides, so that a transaction which ends early is complete.
-/

namespace TxStream

/-! ### Failures -/

/-- The causes for which decoding in chunks fails. -/
inductive ChunkedError where
  /-- The decoder fails. -/
  | decode (e : DecodeError)
  /-- The input ends before the transaction does. -/
  | incomplete (consumed total : Nat)
  /-- The size of chunks is out of bounds. -/
  | chunkSize (size : Nat)
deriving DecidableEq

/-- The largest size of a chunk. -/
def maxChunkLength : Nat := 255

/-- The wording of a cause. -/
def ChunkedError.message : ChunkedError → String
  | .decode e => "Decode failed: " ++ e.message
  | .incomplete consumed total =>
    "Incomplete transaction (" ++ Decimal.render consumed ++ " of " ++ Decimal.render total ++
      " bytes)"
  | .chunkSize size =>
    "Invalid chunk size " ++ Decimal.render size ++ " (expected 1..=" ++
      Decimal.render maxChunkLength ++ ")"

/-! ### Events -/

/-- What is reported while chunks are delivered. -/
inductive ChunkEvent where
  /-- The decoder reports. -/
  | inner (e : Event)
  /-- A chunk is taken. -/
  | taken (index size : Nat) (p : Progress) (state : State)
  /-- The chunk that starts at an offset is refused. -/
  | refused (index offset : Nat) (e : DecodeError)
deriving DecidableEq

/-- A chunk event as a log record. -/
def ChunkEvent.record : ChunkEvent → LogRecord
  | .inner e => e.record
  | .taken index size p state =>
    ⟨.debug, "Chunk " ++ Decimal.render index ++ " (" ++ Decimal.render size ++ " bytes): " ++
      p.name ++ " (state: " ++ state.name ++ ")"⟩
  | .refused index offset e =>
    ⟨.error, "Chunk " ++ Decimal.render index ++ " rejected at offset " ++ Decimal.render offset ++
      ": " ++ e.message⟩

/-! ### Delivery -/

/-- How far the delivery of chunks has come. -/
structure Delivery where
  /-- The decoder after the chunks so far. -/
  decoder : Decoder
  /-- The answer to the last chunk, before the first of which more input is wanted. -/
  answer : Progress := .needsMoreInput
  /-- The number of chunks so far. -/
  count : Nat := 0
  /-- The number of bytes in them. -/
  consumed : Nat := 0

namespace Delivery

/-- The delivery after a chunk that was taken. -/
def next (s : Delivery) (chunk : Bytes) (d : Decoder) (p : Progress) : Delivery :=
  ⟨d, p, s.count + 1, s.consumed + chunk.length⟩

/-- The delivery after some chunks, or the failure at one of them. -/
def deliver (s : Delivery) : List Bytes → Except DecodeError Delivery
  | [] => .ok s
  | chunk :: rest =>
    let u := s.decoder.update chunk
    match u.result with
    | .error e => .error e
    | .ok p => (s.next chunk u.decoder p).deliver rest

/-- What is reported while some chunks are delivered. -/
def log (s : Delivery) : List Bytes → List ChunkEvent
  | [] => []
  | chunk :: rest =>
    let u := s.decoder.update chunk
    match u.result with
    | .error e => u.log.map .inner ++ [.refused s.count s.consumed e]
    | .ok p =>
      u.log.map .inner ++ .taken s.count chunk.length p u.decoder.state ::
        (s.next chunk u.decoder p).log rest

end Delivery

/-- Whether chunks may have a size. -/
def chunkSizeAllowed (size : Nat) : Bool :=
  1 ≤ size && size ≤ maxChunkLength

/-- The transaction that the bytes encode, delivered in chunks of one size. -/
def decodeChunked (raw : Bytes) (size : Nat) : Except ChunkedError Transaction :=
  if chunkSizeAllowed size then
    match Decoder.create raw.length with
    | .error e => .error (.decode e)
    | .ok d =>
      match Delivery.deliver { decoder := d } (pieces size raw) with
      | .error e => .error (.decode e)
      | .ok s =>
        match s.answer with
        | .needsMoreInput => .error (.incomplete s.consumed raw.length)
        | .complete => s.decoder.finish.mapError .decode
  else .error (.chunkSize size)

/-- What is reported while the bytes are decoded in chunks of one size. -/
def decodeChunkedLog (raw : Bytes) (size : Nat) : List ChunkEvent :=
  if chunkSizeAllowed size then
    match Decoder.create raw.length with
    | .error _ => (Decoder.creationLog raw.length).map .inner
    | .ok d => Delivery.log { decoder := d } (pieces size raw)
  else []

end TxStream
