import TxStream.Bytes
import TxStream.Status

/-!
Headers of wire items. An item is a byte string or a list of items, and its header gives the kind
and the length of the payload that follows. The lead byte tells the form:

* below `80`: the byte is a string of its own, without a header (*single*);
* `80` to `b7`, and `c0` to `f7` for lists: the length, up to 55, is in the lead byte (*short*);
* `b8` to `bb`, and `f8` to `fb` for lists: one to four bytes of length follow (*long*);
* `bc` to `bf` and `fc` to `ff` announce five to eight length bytes, which are refused.

Two functions read a header. `Header.canDecode` tells from the number of length bytes alone
whether enough bytes are there, and `Header.decode` reads the form from the range of the lead byte.
-/

namespace TxStream

/-- The header of a wire item. -/
structure Header where
  /-- The number of payload bytes. -/
  len : Nat
  /-- Whether the item is a list. -/
  isList : Bool
  /-- The number of header bytes, zero for a byte that is its own item. -/
  offset : Nat
deriving DecidableEq

namespace Header

/-- The largest number of header bytes: a lead byte and four bytes of length. -/
def maxLength : Nat := 5

/-- The largest number of length bytes. -/
def maxLengthBytes : Nat := 4

/-- Whether the item is a single byte without a header, so that the lead byte is the payload. -/
def isSingle (h : Header) : Bool := h.offset == 0

/-- The number of length bytes that a lead byte announces, zero in the short forms. -/
def lengthBytes (lead : UInt8) : Nat :=
  if 0xf8 ≤ lead.toNat then lead.toNat - 0xf7
  else if 0xb8 ≤ lead.toNat ∧ lead.toNat < 0xc0 then lead.toNat - 0xb7
  else 0

/-- Whether the bytes hold a whole header. A lead byte that announces too many length bytes fails
at once, as no further input could mend it. -/
def canDecode : Bytes → Except DecodeError Bool
  | [] => .ok false
  | lead :: rest =>
    if maxLengthBytes < lengthBytes lead then .error .invalidHeader
    else .ok (decide (lengthBytes lead ≤ rest.length))

/-- A long header with `n` bytes of length, of which `rest` must hold all. -/
def decodeLong (isList : Bool) (n : Nat) (rest : Bytes) : Except DecodeError Header :=
  if rest.length < n then .error .invalidHeader
  else .ok ⟨bigEndian (rest.take n), isList, n + 1⟩

/-- The header at the start of the bytes. What follows the header is not looked at. -/
def decode : Bytes → Except DecodeError Header
  | [] => .error .invalidHeader
  | lead :: rest =>
    if lead.toNat < 0x80 then .ok ⟨1, false, 0⟩
    else if lead.toNat < 0xb8 then .ok ⟨lead.toNat - 0x80, false, 1⟩
    else if lead.toNat < 0xbc then decodeLong false (lead.toNat - 0xb7) rest
    else if lead.toNat < 0xc0 then .error .invalidHeader
    else if lead.toNat < 0xf8 then .ok ⟨lead.toNat - 0xc0, true, 1⟩
    else if lead.toNat < 0xfc then decodeLong true (lead.toNat - 0xf7) rest
    else .error .invalidHeader

/-! ### The two readings -/

/-- The bytes of length that a lead byte announces, by the range in which it lies. -/
theorem lengthBytes_eq_zero_iff (lead : UInt8) :
    lengthBytes lead = 0 ↔
      lead.toNat < 0xb8 ∨ 0xc0 ≤ lead.toNat ∧ lead.toNat < 0xf8 := by
  have := lead.toNat_lt
  unfold lengthBytes
  split
  · omega
  · split <;> omega

/-- A lead byte is refused if it announces more than four bytes of length. -/
theorem maxLengthBytes_lt_lengthBytes_iff (lead : UInt8) :
    maxLengthBytes < lengthBytes lead ↔
      0xbc ≤ lead.toNat ∧ lead.toNat < 0xc0 ∨ 0xfc ≤ lead.toNat := by
  have := lead.toNat_lt
  unfold lengthBytes maxLengthBytes
  split
  · omega
  · split <;> omega

end Header

end TxStream
