import TxStream.Json.Value

/-!
JSON values read from text. Each reader takes what it wants from the front of a text and hands on
the rest.

* `Json.parse?`: the value that a text holds, with white space around it;
* `Json.readString`: what stands before the closing quotation mark, escapes resolved;
* `Json.readNumber`: a natural number where digits alone are written, any other number as text.

Values may stand within values to any depth. A reader is given turns, two for every character, and
no more than two pass between one character and the next.
-/

namespace TxStream

namespace Json

/-! ### White space -/

/-- Whether a character may stand between the parts of a text. -/
def isSpace (c : Char) : Bool :=
  c == ' ' || c == '\t' || c == '\n' || c == '\r'

/-- A text from its first character that is no white space. -/
def skipSpace (cs : List Char) : List Char := cs.dropWhile isSpace

/-! ### Strings -/

/-- The value of a hexadecimal digit. -/
def hexDigit? (c : Char) : Option Nat :=
  if c.toNat < 0x80 then Hex.digitValue? (UInt8.ofNat c.toNat) else none

/-- The number that four hexadecimal digits spell. -/
def hexUnit? (a b c d : Char) : Option Nat := do
  return 4096 * (← hexDigit? a) + 256 * (← hexDigit? b) + 16 * (← hexDigit? c) + (← hexDigit? d)

/-- The character that a letter stands for behind a backslash. -/
def shortEscape? (c : Char) : Option Char :=
  if c = '"' ∨ c = '\\' ∨ c = '/' then some c
  else if c = 'b' then some '\x08'
  else if c = 'f' then some '\x0c'
  else if c = 'n' then some '\n'
  else if c = 'r' then some '\r'
  else if c = 't' then some '\t'
  else none

/-- The character that two units spell, the first from the upper and the second from the lower
range of surrogates. -/
def surrogatePair? (hi lo : Nat) : Option Char :=
  if 0xdc00 ≤ lo ∧ lo < 0xe000 then
    some (Char.ofNat (0x10000 + 1024 * (hi - 0xd800) + (lo - 0xdc00)))
  else none

/-- A character in front of what was read, if anything was. -/
def consChar (c : Char) : Option (List Char × List Char) → Option (List Char × List Char)
  | none => none
  | some (s, rest) => some (c :: s, rest)

/-- Reads up to the closing quotation mark. -/
def readString : List Char → Option (List Char × List Char)
  | [] => none
  | c :: r =>
    if c = '"' then some ([], r)
    else if c.toNat < 0x20 then none
    else if c = '\\' then
      match r with
      | 'u' :: a :: b :: c :: d :: r =>
        match hexUnit? a b c d with
        | none => none
        | some hi =>
          if 0xd800 ≤ hi ∧ hi < 0xdc00 then
            match r with
            | '\\' :: 'u' :: a :: b :: c :: d :: r =>
              match (hexUnit? a b c d).bind (surrogatePair? hi) with
              | none => none
              | some c => consChar c (readString r)
            | _ => none
          else if 0xdc00 ≤ hi ∧ hi < 0xe000 then none
          else consChar (Char.ofNat hi) (readString r)
      | e :: r =>
        match shortEscape? e with
        | none => none
        | some c => consChar c (readString r)
      | [] => none
    else consChar c (readString r)

/-! ### Numbers -/

/-- Reads one or more digits. -/
def readDigits (cs : List Char) : Option (List Char × List Char) :=
  let ds := cs.takeWhile Decimal.isDigit
  if ds = [] then none else some (ds, cs.dropWhile Decimal.isDigit)

/-- Reads the digits before the point, without leading zeros. -/
def readWhole (cs : List Char) : Option (List Char × List Char) :=
  match readDigits cs with
  | some ('0' :: _ :: _, _) => none
  | r => r

/-- Reads a point with digits behind it, if there is a point. -/
def readFraction : List Char → Option (List Char × List Char)
  | '.' :: r => (readDigits r).map fun (ds, rest) => ('.' :: ds, rest)
  | cs => some ([], cs)

/-- Reads a sign, if there is one. -/
def readSign : List Char → List Char × List Char
  | '+' :: r => (['+'], r)
  | '-' :: r => (['-'], r)
  | cs => ([], cs)

/-- Reads an exponent, if there is one. -/
def readExponent : List Char → Option (List Char × List Char)
  | [] => some ([], [])
  | c :: r =>
    if c = 'e' ∨ c = 'E' then
      let (sign, r) := readSign r
      (readDigits r).map fun (ds, rest) => (c :: sign ++ ds, rest)
    else some ([], c :: r)

/-- Reads a number that is not negative. -/
def readPositive (cs : List Char) : Option (Json × List Char) := do
  let (whole, r) ← readWhole cs
  let (fraction, r) ← readFraction r
  let (exponent, r) ← readExponent r
  if fraction = [] ∧ exponent = [] then return (.nat (Decimal.valueFrom 0 whole), r)
  else return (.number (String.ofList (whole ++ fraction ++ exponent)), r)

/-- Reads a number. -/
def readNumber : List Char → Option (Json × List Char)
  | '-' :: r =>
    match readPositive r with
    | some (.nat n, rest) => some (.number (String.ofList ('-' :: Decimal.digits n)), rest)
    | some (.number text, rest) => some (.number ("-" ++ text), rest)
    | _ => none
  | cs => readPositive cs

/-! ### Values -/

/-- Reads a word in front of a text. -/
def readWord : List Char → List Char → Option (List Char)
  | [], cs => some cs
  | w :: ws, c :: cs => if w = c then readWord ws cs else none
  | _ :: _, [] => none

mutual

/-- Reads a value in so many turns. -/
def readValue : Nat → List Char → Option (Json × List Char)
  | 0, _ => none
  | turns + 1, cs =>
    match skipSpace cs with
    | [] => none
    | c :: r =>
      if c = '"' then (readString r).map fun (s, rest) => (.str (String.ofList s), rest)
      else if c = '[' then
        match skipSpace r with
        | ']' :: rest => some (.arr [], rest)
        | r => (readItems turns r).map fun (vs, rest) => (.arr vs, rest)
      else if c = '\x7b' then
        match skipSpace r with
        | '\x7d' :: rest => some (.obj [], rest)
        | r => (readMembers turns r).map fun (ms, rest) => (.obj ms, rest)
      else if c = 'n' then (readWord "ull".toList r).map fun rest => (.null, rest)
      else if c = 't' then (readWord "rue".toList r).map fun rest => (.bool true, rest)
      else if c = 'f' then (readWord "alse".toList r).map fun rest => (.bool false, rest)
      else readNumber (c :: r)

/-- Reads items up to the closing bracket. -/
def readItems : Nat → List Char → Option (List Json × List Char)
  | 0, _ => none
  | turns + 1, cs =>
    match readValue turns cs with
    | none => none
    | some (v, r) =>
      match skipSpace r with
      | ',' :: r => (readItems turns r).map fun (vs, rest) => (v :: vs, rest)
      | ']' :: rest => some ([v], rest)
      | _ => none

/-- Reads members up to the closing brace. -/
def readMembers : Nat → List Char → Option (List (String × Json) × List Char)
  | 0, _ => none
  | turns + 1, cs =>
    match skipSpace cs with
    | '"' :: r =>
      match readString r with
      | none => none
      | some (k, r) =>
        match skipSpace r with
        | ':' :: r =>
          match readValue turns r with
          | none => none
          | some (v, r) =>
            match skipSpace r with
            | ',' :: r =>
              (readMembers turns r).map fun (ms, rest) => ((String.ofList k, v) :: ms, rest)
            | '\x7d' :: rest => some ([(String.ofList k, v)], rest)
            | _ => none
        | _ => none
    | _ => none

end

/-- The value that a text holds. -/
def parse? (s : String) : Option Json :=
  let cs := s.toList
  match readValue (2 * cs.length + 1) cs with
  | some (v, rest) => if skipSpace rest = [] then some v else none
  | none => none

end Json

end TxStream
