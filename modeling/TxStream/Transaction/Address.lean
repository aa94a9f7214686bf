import TxStream.Bytes

/-!
Recipient addresses. An address has twenty bytes, which are zero until they are written, and may
be written in part: `Address.write?` puts bytes at a position, if they fit.
-/

namespace TxStream

/-- An address of twenty bytes. -/
structure Address where
  /-- The bytes in order. -/
  bytes : Bytes
  /-- An address is never longer or shorter. -/
  length_eq : bytes.length = 20
deriving DecidableEq

namespace Address

/-- The number of bytes. -/
def length : Nat := 20

/-- The address whose bytes are all zero. -/
def zero : Address := ⟨List.replicate 20 0, List.length_replicate ..⟩

/-- The address with `data` at `position` and its other bytes as they were, if `data` fits. -/
def write? (a : Address) (position : Nat) (data : Bytes) : Option Address :=
  if h : position + data.length ≤ length then
    some ⟨a.bytes.take position ++ data ++ a.bytes.drop (position + data.length), by
      have := a.length_eq
      simp only [length] at h
      simp only [List.length_append, List.length_take, List.length_drop]
      omega⟩
  else none

/-- An address that is written has the bytes at their position and is otherwise as it was. -/
theorem bytes_of_write? {a a' : Address} {position : Nat} {data : Bytes}
    (h : a.write? position data = some a') :
    a'.bytes = a.bytes.take position ++ data ++ a.bytes.drop (position + data.length) := by
  unfold write? at h
  split at h
  · cases h
    rfl
  · cases h

end Address

end TxStream
