import TxStream.Text.Decimal
import TxStream.Text.Hex

/-!
Bytes that are typed in as hexadecimal text, with white space around it and the mark `0x` in front.

* `Blank.trim`: a text without the white space at its ends. A character is blank if it has the
  Unicode property `White_Space`, which holds of the twenty-five characters of `Blank.ranges`;
* `HexInput.parse`: one mark may stand in front, as on the command line;
* `HexInput.parseRepeated`: any number of marks may stand in front;
* `Quoted.ofByte`, `Hex.Error.message`: why a text is refused, with the byte that is no digit in
  quotation marks. Positions count from behind the marks.
-/

namespace TxStream

/-! ### White space -/

namespace Blank

/-- The ranges of characters with the property `White_Space`, ends included. -/
def ranges : List (Nat × Nat) :=
  [(0x9, 0xd), (0x20, 0x20), (0x85, 0x85), (0xa0, 0xa0), (0x1680, 0x1680), (0x2000, 0x200a),
    (0x2028, 0x2029), (0x202f, 0x202f), (0x205f, 0x205f), (0x3000, 0x3000)]

/-- Whether a character is white space. -/
def isBlank (c : Char) : Bool :=
  ranges.any fun r => r.1 ≤ c.toNat && c.toNat ≤ r.2

/-- A text without the white space at its start. -/
def trimStart (cs : List Char) : List Char := cs.dropWhile isBlank

/-- A text without the white space at its end. -/
def trimEnd (cs : List Char) : List Char := (cs.reverse.dropWhile isBlank).reverse

/-- A text without the white space at its ends. -/
def trim (cs : List Char) : List Char := trimEnd (trimStart cs)

end Blank

/-! ### Bytes in quotation marks -/

namespace Quoted

/-- The hexadecimal digits of a byte, without leading zeros. -/
def shortHex (b : UInt8) : List Char :=
  if b.toNat < 16 then [Hex.digit b.toNat] else Hex.ofByte b

/-- Whether the character of a byte leaves a mark: not the control characters, the no-break space
and the soft hyphen. -/
def isVisible (b : UInt8) : Bool :=
  let n := b.toNat
  (0x20 ≤ n && n < 0x7f) || (0xa1 ≤ n && n != 0xad)

/-- The character of a byte as it stands between quotation marks. -/
def body (b : UInt8) : List Char :=
  let c := Char.ofNat b.toNat
  if c = '\x00' then ['\\', '0']
  else if c = '\t' then ['\\', 't']
  else if c = '\n' then ['\\', 'n']
  else if c = '\r' then ['\\', 'r']
  else if c = '\'' then ['\\', '\'']
  else if c = '\\' then ['\\', '\\']
  else if isVisible b then [c]
  else ['\\', 'u', '\x7b'] ++ shortHex b ++ ['\x7d']

/-- The character of a byte in quotation marks. Control characters, and the few other characters of
this range that leave no mark, are shown by a short escape if they have one and by their number in
hexadecimal otherwise. -/
def ofByte (b : UInt8) : String :=
  String.ofList ('\'' :: body b ++ ['\''])

end Quoted

/-! ### Reading -/

/-- The wording of a failure to read hexadecimal text. -/
def Hex.Error.message : Hex.Error → String
  | .oddLength => "Odd number of digits"
  | .invalidDigit b position =>
    "Invalid character " ++ Quoted.ofByte b ++ " at position " ++ Decimal.render position

namespace HexInput

/-- A text without the mark in front, if there is one. -/
def dropMark : List Char → List Char
  | '0' :: 'x' :: rest => rest
  | cs => cs

/-- A text without any of the marks in front. -/
def dropMarks : List Char → List Char
  | '0' :: 'x' :: rest => dropMarks rest
  | cs => cs

/-- The bytes that a text spells after at most one mark. -/
def parse (s : String) : Except Hex.Error Bytes :=
  Hex.decode (dropMark (Blank.trim s.toList))

/-- The bytes that a text spells after any number of marks. -/
def parseRepeated (s : String) : Except Hex.Error Bytes :=
  Hex.decode (dropMarks (Blank.trim s.toList))

end HexInput

end TxStream
