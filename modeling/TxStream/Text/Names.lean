/-!
Names, and what they name.

* `Enumeration`: a closed type with its members in their fixed order, each with its name;
* `Enumeration.parse`: the member with a given name, matched letter by letter;
* `sameName`: whether names differ at most in case. Only the letters from `A` to `Z` have a lower
  case here, so that a name with other characters matches itself alone.
-/

namespace TxStream

/-! ### Closed types -/

/-- A closed type with its members in a fixed order and a name for each. -/
class Enumeration (α : Type) where
  /-- Every member once, in order. -/
  all : List α
  /-- The name of a member. -/
  name : α → String

/-- The failure to find a member by its name. -/
inductive UnknownName where
  | noSuchMember
deriving DecidableEq

/-- The wording of the failure. -/
def UnknownName.message : UnknownName → String
  | .noSuchMember => "Matching variant not found"

namespace Enumeration

/-- The names of all members, in order. -/
def names (α : Type) [Enumeration α] : List String :=
  (all : List α).map name

/-- The member with a given name. Case counts. -/
def parse? {α : Type} [Enumeration α] (s : String) : Option α :=
  all.find? fun a => name a == s

/-- The member with a given name, or the reason why there is none. -/
def parse {α : Type} [Enumeration α] (s : String) : Except UnknownName α :=
  match parse? s with
  | some a => .ok a
  | none => .error .noSuchMember

end Enumeration

/-! ### Case -/

/-- A text with the letters from `A` to `Z` in lower case. -/
def lowerCase (s : String) : List Char := s.toList.map Char.toLower

/-- Whether two names differ at most in case. -/
def sameName (a b : String) : Bool := lowerCase a == lowerCase b

end TxStream
