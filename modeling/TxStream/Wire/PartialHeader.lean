import TxStream.Wire.Cursor
import TxStream.Wire.Header

/-!
Headers that arrive in several chunks. The bytes of an unfinished header are held until
`Header.canDecode` reports a whole one; then `Header.decode` reads it and the bytes are let go. A
single byte is its own payload, so it is given back to the chunk it was read from.

* `PartialHeader.read`: reads on from a cursor until a header is whole or the chunk is used up, and
  leaves the chunk as it is (`PartialHeader.chunk_read`);
* `PartialHeader.isPending`: whether bytes of an unfinished header are held.
-/

namespace TxStream

/-- The bytes held of a header that is not yet whole. -/
structure PartialHeader where
  /-- The bytes in the order of their arrival. -/
  held : Bytes := []
deriving DecidableEq

/-- What a call for a header came to. -/
structure HeaderReading where
  /-- The bytes held after the call. -/
  partialHeader : PartialHeader
  /-- The position after the call. -/
  cursor : Cursor
  /-- The header, or none if the chunk was used up first. -/
  result : Except DecodeError (Option Header)

namespace PartialHeader

/-- Whether bytes of an unfinished header are held. -/
def isPending (p : PartialHeader) : Bool := !p.held.isEmpty

/-- Gives up the held bytes for the header that they spell. -/
def finish (held : Bytes) (c : Cursor) : HeaderReading :=
  match Header.decode held with
  | .error e => ⟨⟨held⟩, c, .error e⟩
  | .ok h => ⟨⟨[]⟩, if h.isSingle then c.rewind 1 else c, .ok (some h)⟩

/-- Reads on with `held` bytes held, `behind` already read and `ahead` still unread. -/
def readFrom (held behind ahead : Bytes) : HeaderReading :=
  match Header.canDecode held with
  | .error e => ⟨⟨held⟩, ⟨behind, ahead⟩, .error e⟩
  | .ok true => finish held ⟨behind, ahead⟩
  | .ok false =>
    match ahead with
    | [] => ⟨⟨held⟩, ⟨behind, []⟩, .ok none⟩
    | b :: rest =>
      if Header.maxLength ≤ held.length then
        ⟨⟨held⟩, ⟨b :: behind, rest⟩, .error .headerOverflow⟩
      else readFrom (held ++ [b]) (b :: behind) rest

/-- Reads on from a cursor until a header is whole or the chunk is used up. -/
def read (p : PartialHeader) (c : Cursor) : HeaderReading :=
  readFrom p.held c.behind c.ahead

/-! ### What reading keeps -/

theorem chunk_finish (held : Bytes) (c : Cursor) : (finish held c).cursor.chunk = c.chunk := by
  unfold finish
  split
  · rfl
  · dsimp only
    split
    · exact Cursor.chunk_rewind c 1
    · rfl

theorem chunk_readFrom (held behind ahead : Bytes) :
    (readFrom held behind ahead).cursor.chunk = behind.reverse ++ ahead := by
  induction ahead generalizing held behind with
  | nil =>
    unfold readFrom
    split
    · rfl
    · exact chunk_finish ..
    · rfl
  | cons b rest ih =>
    have h : (b :: behind).reverse ++ rest = behind.reverse ++ b :: rest := by simp
    unfold readFrom
    split
    · rfl
    · exact chunk_finish ..
    · dsimp only
      split
      · exact h
      · rw [ih, h]

@[simp] theorem chunk_read (p : PartialHeader) (c : Cursor) : (p.read c).cursor.chunk = c.chunk :=
  chunk_readFrom ..

end PartialHeader

end TxStream
