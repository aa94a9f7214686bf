import TxStream.Text.Hex

/-!
The numbers of a transaction, unsigned and of at most 256 bits. A quantity keeps its bytes as they
came over the wire, leading zeros included, so that it can grow piece by piece:

* `Quantity.append?`: adds further bytes at the low end, as far as 32 bytes hold them;
* `Quantity.toNat`: the number that the bytes spell;
* `Quantity.toUInt64?`: the same in 64 bits, for a quantity of at most eight significant bytes,
  which are packed into them one after the other (`Quantity.packed`).
-/

namespace TxStream

/-- An unsigned number as the bytes that spell it, most significant first. -/
structure Quantity where
  /-- The bytes as they came, leading zeros included. -/
  bytes : Bytes
  /-- A quantity has at most 256 bits. -/
  length_le : bytes.length ≤ 32
deriving DecidableEq

namespace Quantity

/-- The largest number of bytes. -/
def maxLength : Nat := 32

/-- The quantity without bytes, which spells zero. -/
def empty : Quantity := ⟨[], Nat.zero_le _⟩

/-- A quantity with the given bytes, if it can hold them. -/
def ofBytes? (b : Bytes) : Option Quantity :=
  if h : b.length ≤ maxLength then some ⟨b, h⟩ else none

/-- The quantity with further bytes at the low end, if it can hold them. -/
def append? (q : Quantity) (b : Bytes) : Option Quantity :=
  ofBytes? (q.bytes ++ b)

/-- The number that a quantity spells. -/
def toNat (q : Quantity) : Nat := bigEndian q.bytes

/-- The bytes from the first that is not zero. -/
def significant (q : Quantity) : Bytes := q.bytes.dropWhile (· == 0)

/-- Bytes packed into 64 bits, each shifting those before it by its eight bits. What is shifted out
at the upper end is lost. -/
def packed (b : Bytes) : UInt64 := b.foldl (fun n x => n <<< 8 ||| x.toUInt64) 0

/-- The number that a quantity spells in 64 bits, for at most eight significant bytes. -/
def toUInt64? (q : Quantity) : Option UInt64 :=
  if q.significant.length ≤ 8 then some (packed q.significant) else none

/-- The bytes of a quantity in hexadecimal digits. -/
def hex (q : Quantity) : String := Hex.encode q.bytes

/-- The bytes of a quantity in hexadecimal digits after the mark `0x`. -/
def markedHex (q : Quantity) : String := "0x" ++ q.hex

/-! ### Laws -/

theorem ofBytes?_eq_some_iff {b : Bytes} {q : Quantity} :
    ofBytes? b = some q ↔ q.bytes = b := by
  constructor
  · intro h
    unfold ofBytes? at h
    split at h
    · cases h
      rfl
    · cases h
  · rintro rfl
    exact dif_pos q.length_le

/-- A quantity that has grown has the further bytes at its low end. -/
theorem append?_eq_some_iff {q q' : Quantity} {b : Bytes} :
    q.append? b = some q' ↔ q'.bytes = q.bytes ++ b :=
  ofBytes?_eq_some_iff

/-- Zero bytes in front do not count. -/
theorem bigEndian_dropWhile_zero (b : Bytes) : bigEndian (b.dropWhile (· == 0)) = bigEndian b := by
  induction b with
  | nil => rfl
  | cons x b ih =>
    rw [List.dropWhile_cons]
    split
    · rename_i hx
      have hx : x = 0 := by simpa using hx
      rw [ih, hx]
      rfl
    · rfl

theorem bigEndian_significant (q : Quantity) : bigEndian q.significant = q.toNat :=
  bigEndian_dropWhile_zero q.bytes

end Quantity

end TxStream
