/-!
Natural numbers in decimal digits:

* `Decimal.digits`, `Decimal.render`: the digits of a number, without leading zeros;
* `Decimal.parse?`: the number that digits spell, leading zeros allowed;
* `Decimal.parse?_digits`: reading undoes writing.
-/

namespace TxStream

namespace Decimal

/-- The digit of a number below ten. -/
def digit (n : Nat) : Char := Char.ofNat (48 + n)

/-- The digits of a number, without leading zeros. Zero has the one digit `0`. -/
def digits (n : Nat) : List Char :=
  if n < 10 then [digit n] else digits (n / 10) ++ [digit (n % 10)]

/-- A number in decimal digits. -/
def render (n : Nat) : String :=
  String.ofList (digits n)

/-- Whether a character is a decimal digit. -/
def isDigit (c : Char) : Bool :=
  48 ≤ c.toNat && c.toNat ≤ 57

/-- The number that digits spell after those that spell `n`. -/
def valueFrom (n : Nat) (cs : List Char) : Nat :=
  cs.foldl (fun n c => 10 * n + (c.toNat - 48)) n

/-- The number that a text of one or more digits spells. -/
def parse? (cs : List Char) : Option Nat :=
  if cs = [] ∨ cs.all isDigit = false then none else some (valueFrom 0 cs)

/-! ### Reading undoes writing -/

/-- A digit is a digit, and has the value for which it is written. -/
theorem isDigit_digit : ∀ n < 10, isDigit (digit n) = true ∧ (digit n).toNat - 48 = n := by
  decide

theorem digits_ne_nil (n : Nat) : digits n ≠ [] := by
  fun_cases digits n <;> simp

theorem all_isDigit_digits (n : Nat) : (digits n).all isDigit = true := by
  fun_induction digits n with
  | case1 n h => simp [isDigit_digit n h]
  | case2 n h ih => simp [ih, isDigit_digit (n % 10) (Nat.mod_lt _ (by decide))]

theorem valueFrom_append (n : Nat) (a b : List Char) :
    valueFrom n (a ++ b) = valueFrom (valueFrom n a) b :=
  List.foldl_append

/-- The digits of a number spell it. -/
theorem valueFrom_digits (n : Nat) : valueFrom 0 (digits n) = n := by
  fun_induction digits n with
  | case1 n h => simp [valueFrom, (isDigit_digit n h).2]
  | case2 n h ih =>
    have hm := (isDigit_digit (n % 10) (Nat.mod_lt _ (by decide))).2
    rw [valueFrom_append, ih, valueFrom, List.foldl_cons, List.foldl_nil, hm]
    exact Nat.div_add_mod n 10

/-- Reading undoes writing. -/
theorem parse?_digits (n : Nat) : parse? (digits n) = some n := by
  rw [parse?, if_neg (by simp [digits_ne_nil, all_isDigit_digits]), valueFrom_digits]

end Decimal

end TxStream
