import TxStream.Bytes

/-!
A reading position in one chunk of input. The chunk is held as the bytes already read, last one
first, and the bytes still ahead, so that reading and stepping back both work at the seam:

* `Cursor.chunk`: the whole chunk, which no operation changes (`chunk_take`, `chunk_rewind`);
* `Cursor.next?`, `Cursor.take`: read one byte, or as many as are asked for and there;
* `Cursor.rewind`: step back over bytes of this chunk, and no further than its start.
-/

namespace TxStream

/-- A reading position in a chunk. -/
structure Cursor where
  /-- The bytes already read, the last one first. -/
  behind : Bytes
  /-- The bytes still ahead. -/
  ahead : Bytes
deriving DecidableEq

namespace Cursor

/-- The start of a chunk. -/
def start (chunk : Bytes) : Cursor := ⟨[], chunk⟩

/-- The whole chunk. -/
def chunk (c : Cursor) : Bytes := c.behind.reverse ++ c.ahead

/-- The number of bytes already read. -/
def position (c : Cursor) : Nat := c.behind.length

/-- The number of bytes still ahead. -/
def remaining (c : Cursor) : Nat := c.ahead.length

/-- Whether the chunk is read to its end. -/
def isEmpty (c : Cursor) : Bool := c.ahead.isEmpty

/-- The next byte, which stays unread. -/
def peek? (c : Cursor) : Option UInt8 := c.ahead.head?

/-- Reads one byte. At the end of the chunk there is none. -/
def next? (c : Cursor) : Option (UInt8 × Cursor) :=
  match c.ahead with
  | [] => none
  | b :: rest => some (b, ⟨b :: c.behind, rest⟩)

/-- Reads `n` bytes, or what is left of the chunk if that is less. -/
def take (c : Cursor) (n : Nat) : Bytes × Cursor :=
  (c.ahead.take n, ⟨(c.ahead.take n).reverse ++ c.behind, c.ahead.drop n⟩)

/-- Steps back over `n` bytes, or to the start of the chunk if that is nearer. -/
def rewind (c : Cursor) (n : Nat) : Cursor :=
  ⟨c.behind.drop n, (c.behind.take n).reverse ++ c.ahead⟩

/-! ### What the operations keep -/

@[simp] theorem chunk_start (b : Bytes) : (start b).chunk = b := rfl

/-- Reading does not change the chunk. -/
@[simp] theorem chunk_take (c : Cursor) (n : Nat) : (c.take n).2.chunk = c.chunk := by
  simp [take, chunk]

@[simp] theorem chunk_rewind (c : Cursor) (n : Nat) : (c.rewind n).chunk = c.chunk := by
  rw [chunk, rewind, ← List.append_assoc, ← List.reverse_append, List.take_append_drop, chunk]

theorem take_append_ahead (c : Cursor) (n : Nat) :
    (c.take n).1 ++ (c.take n).2.ahead = c.ahead := by
  rw [take, List.take_append_drop]

theorem position_take (c : Cursor) (n : Nat) :
    (c.take n).2.position = c.position + (c.take n).1.length := by
  simp only [take, position, List.length_append, List.length_reverse]
  omega

/-- Position and bytes ahead make up the length of the chunk. -/
theorem position_add_remaining (c : Cursor) : c.position + c.remaining = c.chunk.length := by
  rw [position, remaining, chunk, List.length_append, List.length_reverse]

/-- A byte that is read and given back is ahead again. -/
theorem rewind_next (c : Cursor) {b : UInt8} {c' : Cursor} (h : c.next? = some (b, c')) :
    c'.rewind 1 = c := by
  rcases c with ⟨behind, _ | ⟨x, rest⟩⟩
  · cases h
  · cases h
    rfl

end Cursor

end TxStream
