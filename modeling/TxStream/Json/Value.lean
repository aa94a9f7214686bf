import TxStream.Text.Decimal
import TxStream.Text.Hex

/-!
JSON values and their text. A number is a natural number, or any other number as it is written.

* `Json.pretty`: the text of a value over several lines, two blanks to a level;
* `Json.quote`: the text of a string, with the escapes that the format demands and no others;
* `Json.field?`: the member of an object with a given name, the last one if there are several.
-/

namespace TxStream

/-- A JSON value. -/
inductive Json where
  | null
  | bool (b : Bool)
  /-- A natural number. -/
  | nat (n : Nat)
  /-- A number that is negative, or written with a point or an exponent. -/
  | number (text : String)
  | str (s : String)
  | arr (items : List Json)
  /-- An object, its members in the order in which they are written. -/
  | obj (members : List (String × Json))

namespace Json

/-! ### Strings -/

/-- A character as it stands in a quoted string. -/
def escape (c : Char) : List Char :=
  if c = '"' then ['\\', '"']
  else if c = '\\' then ['\\', '\\']
  else if c = '\x08' then ['\\', 'b']
  else if c = '\t' then ['\\', 't']
  else if c = '\n' then ['\\', 'n']
  else if c = '\x0c' then ['\\', 'f']
  else if c = '\r' then ['\\', 'r']
  else if c.toNat < 0x20 then ['\\', 'u', '0', '0'] ++ Hex.ofByte (UInt8.ofNat c.toNat)
  else [c]

/-- A string in quotation marks. -/
def quote (s : String) : List Char :=
  '"' :: s.toList.flatMap escape ++ ['"']

/-! ### Values -/

/-- The start of a line, so many levels deep. -/
def newline (depth : Nat) : List Char :=
  '\n' :: List.replicate (2 * depth) ' '

mutual

/-- The text of a value that starts so many levels deep. -/
def prettyAt (depth : Nat) : Json → List Char
  | .null => "null".toList
  | .bool true => "true".toList
  | .bool false => "false".toList
  | .nat n => Decimal.digits n
  | .number text => text.toList
  | .str s => quote s
  | .arr [] => ['[', ']']
  | .arr (v :: vs) =>
    '[' :: newline (depth + 1) ++ prettyAt (depth + 1) v ++ prettyItems (depth + 1) vs ++
      newline depth ++ [']']
  | .obj [] => ['\x7b', '\x7d']
  | .obj ((k, v) :: ms) =>
    '\x7b' :: newline (depth + 1) ++ quote k ++ [':', ' '] ++ prettyAt (depth + 1) v ++
      prettyMembers (depth + 1) ms ++ newline depth ++ ['\x7d']

/-- The text of the items after the first. -/
def prettyItems (depth : Nat) : List Json → List Char
  | [] => []
  | v :: vs => ',' :: newline depth ++ prettyAt depth v ++ prettyItems depth vs

/-- The text of the members after the first. -/
def prettyMembers (depth : Nat) : List (String × Json) → List Char
  | [] => []
  | (k, v) :: ms =>
    ',' :: newline depth ++ quote k ++ [':', ' '] ++ prettyAt depth v ++ prettyMembers depth ms

end

/-- The text of a value over several lines. -/
def pretty (v : Json) : String :=
  String.ofList (prettyAt 0 v)

/-! ### Members -/

/-- The member of an object with a given name, the last one if there are several. -/
def field? (members : List (String × Json)) (name : String) : Option Json :=
  (members.reverse.find? fun m => m.1 == name).map (·.2)

end Json

end TxStream
