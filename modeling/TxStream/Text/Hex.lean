import TxStream.Bytes

/-!
Bytes as hexadecimal text, two digits a byte:

* `Hex.encode`: writes bytes with lowercase digits;
* `Hex.decode`: reads digits of either case, and says where it fails. The text is read in its
  UTF-8 bytes, which is what failures count. An odd number of bytes is reported before any
  character that is no digit;
* `Hex.decode_digits`: reading undoes writing.
-/

namespace TxStream

namespace Hex

/-! ### Writing -/

/-- The lowercase digit of a number below sixteen. -/
def digit (n : Nat) : Char :=
  if n < 10 then Char.ofNat (48 + n) else Char.ofNat (87 + n)

/-- The two digits of a byte. -/
def ofByte (b : UInt8) : List Char :=
  [digit (b.toNat / 16), digit (b.toNat % 16)]

/-- The digits of a byte string, two a byte. -/
def digits (b : Bytes) : List Char :=
  b.flatMap ofByte

/-- A byte string in lowercase digits. -/
def encode (b : Bytes) : String :=
  String.ofList (digits b)

/-- A byte in two lowercase digits after the mark `0x`. -/
def byteText (b : UInt8) : String :=
  "0x" ++ encode [b]

/-! ### Reading -/

/-- The causes for which a text is no hexadecimal text. -/
inductive Error where
  /-- The text has an odd number of bytes. -/
  | oddLength
  /-- A byte of the text is no digit. -/
  | invalidDigit (byte : UInt8) (position : Nat)
deriving DecidableEq

/-- The UTF-8 bytes of a text. -/
def utf8 (cs : List Char) : Bytes :=
  cs.flatMap String.utf8EncodeChar

/-- The value of a digit of either case, given by its code. -/
def digitValue? (b : UInt8) : Option Nat :=
  let n := b.toNat
  if 48 ≤ n ∧ n ≤ 57 then some (n - 48)
  else if 65 ≤ n ∧ n ≤ 70 then some (n - 55)
  else if 97 ≤ n ∧ n ≤ 102 then some (n - 87)
  else none

/-- Reads pairs of digits, the first of which stands at `position`. -/
def decodePairs (position : Nat) : Bytes → Except Error Bytes
  | [] => .ok []
  | [_] => .error .oddLength
  | hi :: lo :: rest =>
    match digitValue? hi, digitValue? lo with
    | none, _ => .error (.invalidDigit hi position)
    | some _, none => .error (.invalidDigit lo (position + 1))
    | some h, some l =>
      match decodePairs (position + 2) rest with
      | .error e => .error e
      | .ok b => .ok (UInt8.ofNat (16 * h + l) :: b)

/-- The bytes that a hexadecimal text spells. -/
def decode (cs : List Char) : Except Error Bytes :=
  let text := utf8 cs
  if text.length % 2 = 1 then .error .oddLength else decodePairs 0 text

/-! ### Reading undoes writing -/

/-- The code of the digit of a number below sixteen. -/
def digitCode (n : Nat) : UInt8 :=
  if n < 10 then UInt8.ofNat (48 + n) else UInt8.ofNat (87 + n)

theorem utf8EncodeChar_digit : ∀ n < 16, String.utf8EncodeChar (digit n) = [digitCode n] := by
  decide

/-- A digit has the value for which it is written. -/
theorem digitValue?_digitCode : ∀ n < 16, digitValue? (digitCode n) = some n := by
  decide

/-- The text of a byte string, in bytes. -/
theorem utf8_digits (b : Bytes) :
    utf8 (digits b) = b.flatMap fun x => [digitCode (x.toNat / 16), digitCode (x.toNat % 16)] := by
  induction b with
  | nil => rfl
  | cons x b ih =>
    have hx : x.toNat < 256 := x.toNat_lt
    rw [show digits (x :: b) = ofByte x ++ digits b from rfl, utf8, List.flatMap_append, ← utf8,
      ← utf8, ih, List.flatMap_cons]
    congr 1
    rw [utf8, ofByte, List.flatMap_cons, List.flatMap_cons, utf8EncodeChar_digit _ (by omega),
      utf8EncodeChar_digit _ (by omega)]
    rfl

theorem length_utf8_digits (b : Bytes) : (utf8 (digits b)).length = 2 * b.length := by
  rw [utf8_digits]
  induction b with
  | nil => rfl
  | cons x b ih =>
    rw [List.flatMap_cons, List.length_append, ih, List.length_cons]
    simp only [List.length_cons, List.length_nil]
    omega

theorem decodePairs_digitCodes (position : Nat) (b : Bytes) :
    decodePairs position
      (b.flatMap fun x => [digitCode (x.toNat / 16), digitCode (x.toNat % 16)]) = .ok b := by
  induction b generalizing position with
  | nil => rfl
  | cons x b ih =>
    have hx : x.toNat < 256 := x.toNat_lt
    have h : UInt8.ofNat (16 * (x.toNat / 16) + x.toNat % 16) = x := by
      rw [Nat.div_add_mod, UInt8.ofNat_toNat]
    simp only [List.flatMap_cons, List.cons_append, List.nil_append]
    rw [decodePairs, digitValue?_digitCode _ (by omega), digitValue?_digitCode _ (by omega)]
    simp only [ih, h]

/-- Reading undoes writing. -/
theorem decode_digits (b : Bytes) : decode (digits b) = .ok b := by
  have h := length_utf8_digits b
  rw [decode, if_neg (by omega), utf8_digits, decodePairs_digitCodes]

end Hex

end TxStream
