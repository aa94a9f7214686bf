/-!
Byte strings, the material of the wire format.

* `bigEndian`: the number that a byte string spells, most significant byte first.
* `pieces`: a byte string cut into runs of one length, the last of which may be shorter.
  `flatten_pieces` says that the runs make up the string, whatever their length.
-/

namespace TxStream

/-- A byte string. -/
abbrev Bytes := List UInt8

/-! ### Numbers in bytes -/

/-- The number that a byte string spells, most significant byte first. The empty string spells
zero, and leading zero bytes do not count. -/
def bigEndian (b : Bytes) : Nat :=
  b.foldl (fun n x => 256 * n + x.toNat) 0

theorem bigEndian_concat (b : Bytes) (x : UInt8) :
    bigEndian (b ++ [x]) = 256 * bigEndian b + x.toNat := by
  simp [bigEndian]

/-! ### Runs of bytes -/

/-- A byte string cut into runs of `n` bytes, the last of which may be shorter. The empty string
has no runs, and runs of length zero are not cut: the string stays whole. -/
def pieces (n : Nat) (b : Bytes) : List Bytes :=
  if b = [] then []
  else if n = 0 then [b]
  else b.take n :: pieces n (b.drop n)
termination_by b.length
decreasing_by
  have : 0 < b.length := List.length_pos_iff.2 ‹_›
  simp only [List.length_drop]
  omega

/-- The runs make up the string. -/
theorem flatten_pieces (n : Nat) (b : Bytes) : (pieces n b).flatten = b := by
  fun_induction pieces n b with
  | case1 => rfl
  | case2 => simp
  | case3 b _ _ ih => rw [List.flatten_cons, ih, List.take_append_drop]

end TxStream
