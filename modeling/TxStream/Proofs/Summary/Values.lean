import TxStream.Proofs.Json.Flat
import TxStream.Proofs.Summary.Amounts
import TxStream.Proofs.Text.Spelling

/-!
An amount as it is shown tells the number of its quantity, whatever that is.

* `Numeral.read?`: the number that a text spells, in hexadecimal digits behind the mark `0x` and in
  decimal digits otherwise;
* `Hex.number?_digits`: written bytes are read as the number that they spell, two digits a byte;
* `Amount.read?_display`: so the text of an amount is read as the number of its quantity;
* `Amount.denotes_value`: up to thirty-two bytes are a quantity, which is a number of 64 bits below
  `2 ^ 64`, with no bit lost, and is shown in all its bytes from there on.
-/

namespace TxStream

/-! ### Reading numbers -/

namespace Hex

/-- The value of a digit of either case. -/
def digit? (c : Char) : Option Nat := lowerDigits.idxOf? c.toLower

/-- The number that digits spell after those that spell `n`. -/
def number? (n : Nat) : List Char → Option Nat
  | [] => some n
  | c :: cs => (digit? c).bind fun m => number? (16 * n + m) cs

lemma digit?_digit : ∀ n < 16, digit? (digit n) = some n := by
  decide

/-- **Written bytes are read as the number that they spell.** -/
lemma number?_digits (n : Nat) (b : Bytes) :
    number? n (digits b) = some (b.foldl (fun n x => 256 * n + x.toNat) n) := by
  induction b generalizing n with
  | nil => rfl
  | cons x b ih =>
      have hlt : x.toNat < 256 := x.toNat_lt
      have hbyte : 16 * (16 * n + x.toNat / 16) + x.toNat % 16 = 256 * n + x.toNat := by omega
      have hdigits : digits (x :: b) = digit (x.toNat / 16) :: digit (x.toNat % 16) :: digits b :=
        rfl
      rw [hdigits, number?, digit?_digit _ (by omega), Option.bind_some, number?,
        digit?_digit _ (by omega), Option.bind_some, hbyte, ih, List.foldl_cons]

end Hex

namespace Numeral

/-- The number that a text spells: in hexadecimal digits behind the mark `0x`, and in decimal digits
otherwise, in one digit at least. -/
def read? : List Char → Option Nat
  | '0' :: 'x' :: c :: cs => Hex.number? 0 (c :: cs)
  | cs => Decimal.parse? cs

lemma read?_digits (n : Nat) : read? (Decimal.digits n) = some n := by
  rw [read?]
  · exact Decimal.parse?_digits n
  · intro c cs heq
    exact Decimal.digits_ne_zero_cons n 'x' (c :: cs) heq

/-- Written bytes are read as the number that they spell, behind the mark. -/
lemma read?_marked {b : Bytes} (hb : b ≠ []) :
    read? ('0' :: 'x' :: Hex.digits b) = some (bigEndian b) := by
  obtain ⟨x, b, rfl⟩ := List.exists_cons_of_ne_nil hb
  exact Hex.number?_digits 0 (x :: b)

end Numeral

/-! ### Amounts -/

namespace Amount

variable {q : Quantity} {n : UInt64} {s : String}

lemma eq_ofNat_iff {v : Nat} : UInt64.ofNat v = n ∧ v < 2 ^ 64 ↔ v < 2 ^ 64 ∧ n.toNat = v := by
  constructor
  · rintro ⟨rfl, hv⟩
    exact ⟨hv, (UInt64.toNat_ofNat').trans (Nat.mod_eq_of_lt hv)⟩
  · rintro ⟨hv, hn⟩
    exact ⟨by rw [← hn, UInt64.ofNat_toNat], hv⟩

/-- **Below `2 ^ 64` a quantity is the number that it spells**, and no number of 64 bits from there
on. -/
lemma toUInt64?_eq_some_iff :
    q.toUInt64? = some n ↔ q.toNat < 2 ^ 64 ∧ n.toNat = q.toNat := by
  rw [← eq_ofNat_iff]
  rcases Nat.lt_or_ge q.toNat (2 ^ 64) with hlt | hge
  · rw [Quantity.toUInt64?_of_lt hlt, Option.some.injEq]
    exact (and_iff_left hlt).symm
  · rw [Quantity.toUInt64?_of_le hge]
    simp only [reduceCtorEq, hge.not_gt, and_false]

lemma toUInt64?_eq_none_iff : q.toUInt64? = none ↔ 2 ^ 64 ≤ q.toNat := by
  rcases Nat.lt_or_ge q.toNat (2 ^ 64) with hlt | hge
  · rw [Quantity.toUInt64?_of_lt hlt]
    simp only [reduceCtorEq, hlt.not_ge]
  · exact iff_of_true (Quantity.toUInt64?_of_le hge) hge

lemma ofQuantity_eq_number_iff :
    ofQuantity q = .number n ↔ q.toNat < 2 ^ 64 ∧ n.toNat = q.toNat := by
  rw [← toUInt64?_eq_some_iff, ofQuantity]
  rcases q.toUInt64? with _ | m
  · simp
  · rw [number.injEq, Option.some.injEq]

lemma toList_markedHex (q : Quantity) : q.markedHex.toList = '0' :: 'x' :: Hex.digits q.bytes := by
  have hmark : "0x".toList = ['0', 'x'] := rfl
  rw [Quantity.markedHex, Quantity.hex, Hex.encode, String.toList_append, hmark,
    String.toList_ofList]
  rfl

/-- An amount that is no number is the mark and all bytes of its quantity, two digits a byte and in
lower case. -/
lemma ofQuantity_eq_text_iff : ofQuantity q = .text s ↔ 2 ^ 64 ≤ q.toNat ∧
    ∃ ds, s.toList = '0' :: 'x' :: ds ∧ Hex.Spells ds q.bytes ∧ ∀ c ∈ ds, c ∈ Hex.lowerDigits := by
  have hmarked : (∃ ds, s.toList = '0' :: 'x' :: ds ∧ Hex.Spells ds q.bytes ∧
      ∀ c ∈ ds, c ∈ Hex.lowerDigits) ↔ q.markedHex = s := by
    rw [← String.toList_inj, toList_markedHex]
    constructor
    · rintro ⟨ds, hs, hspells, hlower⟩
      rw [hs, hspells.eq_digits hlower]
    · intro hs
      exact ⟨_, hs.symm, Hex.spells_digits _, Hex.mem_lowerDigits_of_mem_digits _⟩
  rw [hmarked]
  rcases Nat.lt_or_ge q.toNat (2 ^ 64) with hlt | hge
  · rw [ofQuantity_of_lt hlt]
    simp only [reduceCtorEq, hlt.not_ge, false_and]
  · rw [ofQuantity_of_le hge, text.injEq]
    exact (and_iff_right hge).symm

/-- **The text of an amount is read as the number of its quantity.** -/
theorem read?_display (q : Quantity) :
    Numeral.read? (ofQuantity q).display.toList = some q.toNat := by
  rcases Nat.lt_or_ge q.toNat (2 ^ 64) with hlt | hge
  · have hnat : (UInt64.ofNat q.toNat).toNat = q.toNat :=
      (UInt64.toNat_ofNat').trans (Nat.mod_eq_of_lt hlt)
    rw [ofQuantity_of_lt hlt, display, hnat, Decimal.render, String.toList_ofList]
    exact Numeral.read?_digits q.toNat
  · have hne : q.bytes ≠ [] := by
      intro hnil
      rw [Quantity.toNat, hnil] at hge
      exact absurd hge (by decide)
    rw [ofQuantity_of_le hge, display, toList_markedHex]
    exact Numeral.read?_marked hne

/-- **Amounts denote the number that the bytes spell.** Up to thirty-two bytes are a quantity, zero
bytes in front or none at all included.
* It is the number that the bytes spell in 64 bits exactly if that is below `2 ^ 64`, and none
  otherwise.
* Its amount is that number, and otherwise the mark `0x` with two digits in lower case for each
  byte.
* What is shown is read as the number that the bytes spell, in decimal or behind the mark in
  hexadecimal digits. -/
theorem denotes_value {b : Bytes} (hb : b.length ≤ 32) :
    ∃ q, Quantity.ofBytes? b = some q ∧
      (∀ n, q.toUInt64? = some n ↔ bigEndian b < 2 ^ 64 ∧ n.toNat = bigEndian b) ∧
      (q.toUInt64? = none ↔ 2 ^ 64 ≤ bigEndian b) ∧
      (∀ n, ofQuantity q = .number n ↔ bigEndian b < 2 ^ 64 ∧ n.toNat = bigEndian b) ∧
      (∀ s, ofQuantity q = .text s ↔ 2 ^ 64 ≤ bigEndian b ∧
        ∃ ds, s.toList = '0' :: 'x' :: ds ∧ Hex.Spells ds b ∧ ∀ c ∈ ds, c ∈ Hex.lowerDigits) ∧
      Numeral.read? (ofQuantity q).display.toList = some (bigEndian b) :=
  ⟨⟨b, hb⟩, Quantity.ofBytes?_eq_some_iff.2 rfl, fun _ => toUInt64?_eq_some_iff,
    toUInt64?_eq_none_iff, fun _ => ofQuantity_eq_number_iff, fun _ => ofQuantity_eq_text_iff,
    read?_display _⟩

/-- Nine bytes, of which the first is zero: all of the sixty-four bits count, and none is lost. -/
theorem denotes_value_zero_in_front :
    (0 :: List.replicate 8 0xff : Bytes).length ≤ 32 ∧
      ∃ q, Quantity.ofBytes? (0 :: List.replicate 8 0xff) = some q ∧
        q.toUInt64? = some 0xffffffffffffffff ∧ ofQuantity q = .number 0xffffffffffffffff ∧
        Numeral.read? (ofQuantity q).display.toList = some (2 ^ 64 - 1) := by
  have hlen : (0 :: List.replicate 8 0xff : Bytes).length ≤ 32 := by decide
  have hvalue : bigEndian (0 :: List.replicate 8 0xff) = 2 ^ 64 - 1 := by decide
  obtain ⟨q, hq, hnumber, -, hamount, -, hread⟩ := denotes_value hlen
  rw [hvalue] at hread
  exact ⟨hlen, q, hq, (hnumber _).2 (by decide), (hamount _).2 (by decide), hread⟩

end Amount

end TxStream
