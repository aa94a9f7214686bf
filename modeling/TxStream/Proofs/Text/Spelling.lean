import Mathlib.Data.List.Induction
import Mathlib.Tactic.SplitIfs
import TxStream.Text.Hex

/-!
Bytes spelled in hexadecimal digits, and what the reader of such texts makes of any other text.

* `Hex.IsDigit`: the sixteen digits with their values, in either case;
* `Hex.Spells`: a text spells bytes, two digits a byte, whatever the case of each digit;
* `Hex.decode_eq_ok_iff`: the texts that are read are those that spell bytes, and what is read is
  what they spell;
* `Hex.FirstInvalid`: the first byte of a text that is no digit, with its place;
* `Hex.decode_eq_oddLength_iff`, `Hex.decode_eq_invalidDigit_iff`: any other text is refused for an
  odd number of bytes, and otherwise for its first byte that is no digit.

Texts are read in their UTF-8 bytes. A digit is one byte there, and the bytes of a character that
takes several are none of them digits (`Hex.le_of_mem_utf8EncodeChar`, `Hex.digitValue?_of_le`).
-/

namespace TxStream

namespace Hex

/-! ### Digits -/

/-- The digits in lower case, each at the place of its value. -/
def lowerDigits : List Char := "0123456789abcdef".toList

/-- The digits in upper case, each at the place of its value. -/
def upperDigits : List Char := "0123456789ABCDEF".toList

/-- A character is a digit of a value, in either case. -/
def IsDigit (c : Char) (n : Nat) : Prop :=
  lowerDigits[n]? = some c ∨ upperDigits[n]? = some c

instance (c : Char) (n : Nat) : Decidable (IsDigit c n) :=
  inferInstanceAs (Decidable (_ ∨ _))

/-- A byte is the code of a digit. -/
def IsDigitByte (x : UInt8) : Prop := ∃ c n, IsDigit c n ∧ c.toNat = x.toNat

variable {c : Char} {n : Nat} {x : UInt8}

/-- A character stands at a place of a row of characters if its code stands there. -/
lemma getElem?_eq_some_iff_map (l : List Char) : l[n]? = some c ↔
    (l.map Char.toNat)[n]? = some c.toNat := by
  rw [List.getElem?_map]
  constructor
  · intro h
    rw [h, Option.map_some]
  · intro h
    obtain ⟨a, ha, hcode⟩ := Option.map_eq_some_iff.1 h
    rw [ha, Char.toNat_inj.1 hcode]

lemma isDigit_iff : IsDigit c n ↔
    n < 10 ∧ c.toNat = 48 + n ∨ 10 ≤ n ∧ n < 16 ∧ (c.toNat = 55 + n ∨ c.toNat = 87 + n) := by
  have hlower : ∀ n < 16, (lowerDigits.map Char.toNat)[n]? =
      some (if n < 10 then 48 + n else 87 + n) := by decide
  have hupper : ∀ n < 16, (upperDigits.map Char.toNat)[n]? =
      some (if n < 10 then 48 + n else 55 + n) := by decide
  rw [IsDigit, getElem?_eq_some_iff_map, getElem?_eq_some_iff_map]
  rcases Nat.lt_or_ge n 16 with hn | hn
  · rw [hlower n hn, hupper n hn, Option.some.injEq, Option.some.injEq]
    split_ifs <;> omega
  · rw [List.getElem?_eq_none hn, List.getElem?_eq_none hn]
    simp only [reduceCtorEq, or_self, false_iff]
    omega

lemma IsDigit.lt (h : IsDigit c n) : n < 16 := by
  rw [isDigit_iff] at h
  omega

lemma IsDigit.unique {m : Nat} (hm : IsDigit c m) (hn : IsDigit c n) : m = n := by
  rw [isDigit_iff] at hm hn
  omega

/-- The reader takes a byte for a digit exactly if the character with its code is one. -/
lemma digitValue?_eq_some_iff (hc : c.toNat = x.toNat) :
    digitValue? x = some n ↔ IsDigit c n := by
  rw [isDigit_iff, digitValue?, hc]
  split_ifs <;> simp only [Option.some.injEq, false_iff] <;> omega

/-- The bytes that are read as digits are the codes of digits. -/
lemma isDigitByte_iff : IsDigitByte x ↔ ∃ n, digitValue? x = some n := by
  constructor
  · rintro ⟨c, n, hdigit, hcode⟩
    exact ⟨n, (digitValue?_eq_some_iff hcode).2 hdigit⟩
  · rintro ⟨n, hn⟩
    have hlt : x.toNat < 256 := x.toNat_lt
    have hvalid : x.toNat.isValidChar := .inl (by omega)
    have hcode : (Char.ofNat x.toNat).toNat = x.toNat := by
      rw [Char.ofNat, dif_pos hvalid]
      rfl
    exact ⟨_, n, (digitValue?_eq_some_iff hcode).1 hn, hcode⟩

/-! ### Digits in UTF-8 -/

/-- A character below `0x80` is one byte, its code. -/
lemma utf8EncodeChar_of_lt (h : c.toNat < 0x80) :
    String.utf8EncodeChar c = [UInt8.ofNat c.toNat] := by
  have hle : c.val.toNat ≤ 127 := Nat.le_of_lt_succ h
  rw [String.utf8EncodeChar]
  exact if_pos hle

/-- All bytes of any other character are above. -/
lemma le_of_mem_utf8EncodeChar (h : 0x80 ≤ c.toNat) (hx : x ∈ String.utf8EncodeChar c) :
    0x80 ≤ x.toNat := by
  have hlt : ¬c.val.toNat ≤ 127 := Nat.not_le.2 h
  rw [String.utf8EncodeChar] at hx
  simp only [if_neg hlt] at hx
  split_ifs at hx <;> simp only [List.mem_cons, List.not_mem_nil, or_false] at hx
  · rcases hx with rfl | rfl <;> rw [UInt8.toNat_ofNat'] <;> omega
  · rcases hx with rfl | rfl | rfl <;> rw [UInt8.toNat_ofNat'] <;> omega
  · rcases hx with rfl | rfl | rfl | rfl <;> rw [UInt8.toNat_ofNat'] <;> omega

lemma digitValue?_of_le (h : 0x80 ≤ x.toNat) : digitValue? x = none := by
  rw [digitValue?, if_neg (by omega), if_neg (by omega), if_neg (by omega)]

/-- A digit is one byte of text, and is read with its value. -/
lemma IsDigit.utf8EncodeChar (h : IsDigit c n) :
    ∃ x, String.utf8EncodeChar c = [x] ∧ digitValue? x = some n := by
  have hcode := isDigit_iff.1 h
  have hlt : c.toNat < 0x80 := by omega
  have hx : c.toNat = (UInt8.ofNat c.toNat).toNat := by
    rw [UInt8.toNat_ofNat']
    omega
  exact ⟨_, utf8EncodeChar_of_lt hlt, (digitValue?_eq_some_iff hx).2 h⟩

/-- A character whose first byte is read as a digit is that digit. -/
lemma isDigit_of_utf8EncodeChar {rest : Bytes} (h : String.utf8EncodeChar c = x :: rest)
    (hx : digitValue? x = some n) : rest = [] ∧ IsDigit c n := by
  rcases Nat.lt_or_ge c.toNat 0x80 with hlt | hle
  · rw [utf8EncodeChar_of_lt hlt, List.cons.injEq] at h
    obtain ⟨rfl, rfl⟩ := h
    have hcode : c.toNat = (UInt8.ofNat c.toNat).toNat := by
      rw [UInt8.toNat_ofNat']
      omega
    exact ⟨rfl, (digitValue?_eq_some_iff hcode).1 hx⟩
  · have hmem : x ∈ String.utf8EncodeChar c := h ▸ List.mem_cons_self
    rw [digitValue?_of_le (le_of_mem_utf8EncodeChar hle hmem)] at hx
    cases hx

/-! ### Texts that spell bytes -/

/-- **A text spells bytes**: two digits a byte, the higher one first, in either case. -/
inductive Spells : List Char → Bytes → Prop
  | nil : Spells [] []
  | cons {hi lo : Char} {m n : Nat} {x : UInt8} {cs : List Char} {b : Bytes} (hhi : IsDigit hi m)
      (hlo : IsDigit lo n) (hx : x.toNat = 16 * m + n) (h : Spells cs b) :
      Spells (hi :: lo :: cs) (x :: b)

variable {cs ds : List Char} {b : Bytes}

lemma Spells.length_eq (h : Spells cs b) : cs.length = 2 * b.length := by
  induction h with
  | nil => rfl
  | cons _ _ _ _ ih =>
      rw [List.length_cons, List.length_cons, List.length_cons, ih]
      omega

lemma Spells.isDigit (h : Spells cs b) : ∀ c ∈ cs, ∃ n, IsDigit c n := by
  induction h with
  | nil => exact List.forall_mem_nil _
  | cons hhi hlo _ _ ih =>
      rw [List.forall_mem_cons, List.forall_mem_cons]
      exact ⟨⟨_, hhi⟩, ⟨_, hlo⟩, ih⟩

lemma spells_digits (b : Bytes) : Spells (digits b) b := by
  have hdigit : ∀ n < 16, IsDigit (digit n) n := by decide
  induction b with
  | nil => exact .nil
  | cons x b ih =>
      have hlt : x.toNat < 256 := x.toNat_lt
      exact .cons (hdigit _ (by omega)) (hdigit _ (by omega)) (Nat.div_add_mod ..).symm ih

lemma mem_lowerDigits_of_mem_digits (b : Bytes) : ∀ c ∈ digits b, c ∈ lowerDigits := by
  have hdigit : ∀ n < 16, digit n ∈ lowerDigits := by decide
  intro c hc
  obtain ⟨x, -, hx⟩ := List.mem_flatMap.1 hc
  have hlt : x.toNat < 256 := x.toNat_lt
  rw [ofByte, List.mem_cons, List.mem_singleton] at hx
  rcases hx with rfl | rfl
  · exact hdigit _ (by omega)
  · exact hdigit _ (by omega)

/-- A text that spells bytes in lower case is what is written for them. -/
lemma Spells.eq_digits (h : Spells cs b) (hlower : ∀ c ∈ cs, c ∈ lowerDigits) : cs = digits b := by
  have hwritten : ∀ n < 16, lowerDigits[n]? = some (digit n) := by decide
  have hdigit : ∀ {c n}, c ∈ lowerDigits → IsDigit c n → c = digit n := by
    intro c n hc hn
    obtain ⟨m, hm⟩ := List.mem_iff_getElem?.1 hc
    obtain rfl := IsDigit.unique (.inl hm) hn
    exact Option.some.inj (hm.symm.trans (hwritten m hn.lt))
  induction h with
  | nil => rfl
  | @cons hi lo m n x cs b hhi hlo hx _ ih =>
      rw [List.forall_mem_cons, List.forall_mem_cons] at hlower
      obtain ⟨hhi', hlo', hlower⟩ := hlower
      have hm := hhi.lt
      have hn := hlo.lt
      have hdiv : x.toNat / 16 = m := by omega
      have hmod : x.toNat % 16 = n := by omega
      rw [hdigit hhi' hhi, hdigit hlo' hlo, ih hlower, ← hdiv, ← hmod]
      rfl

/-! ### Texts that are read -/

lemma utf8_cons (c : Char) (cs : List Char) : utf8 (c :: cs) = String.utf8EncodeChar c ++ utf8 cs :=
  List.flatMap_cons

/-- A text that spells bytes is read, wherever it stands. -/
lemma Spells.decodePairs (h : Spells cs b) (position : Nat) :
    decodePairs position (utf8 cs) = .ok b := by
  induction h generalizing position with
  | nil => rfl
  | @cons hi lo m n x cs b hhi hlo hx _ ih =>
      obtain ⟨y, hy, hym⟩ := hhi.utf8EncodeChar
      obtain ⟨z, hz, hzn⟩ := hlo.utf8EncodeChar
      have hbyte : UInt8.ofNat (16 * m + n) = x := by rw [← hx, UInt8.ofNat_toNat]
      rw [utf8_cons, utf8_cons, hy, hz, List.singleton_append, List.singleton_append,
        Hex.decodePairs, hym, hzn]
      simp only [ih, hbyte]

/-- Digits that are read leave a text that is read. -/
lemma decodePairs_cons_cons {position : Nat} {y z : UInt8} {text : Bytes}
    (h : decodePairs position (y :: z :: text) = .ok b) :
    ∃ m n b', digitValue? y = some m ∧ digitValue? z = some n ∧
      decodePairs (position + 2) text = .ok b' ∧ b = UInt8.ofNat (16 * m + n) :: b' := by
  rw [decodePairs] at h
  split at h
  · cases h
  · cases h
  · next m n hm hn =>
    split at h
    · cases h
    · next b' hb' =>
      cases h
      exact ⟨m, n, b', hm, hn, hb', rfl⟩

/-- A text that is read spells what is read. -/
lemma spells_of_decodePairs {position : Nat} (h : decodePairs position (utf8 cs) = .ok b) :
    Spells cs b := by
  induction cs using List.twoStepInduction generalizing position b with
  | nil =>
      cases h
      exact .nil
  | singleton c =>
      obtain ⟨y, rest, hy⟩ := List.exists_cons_of_ne_nil (String.utf8EncodeChar_ne_nil (c := c))
      rw [utf8_cons, hy] at h
      rcases rest with _ | ⟨z, rest⟩
      · cases h
      · obtain ⟨m, n, b', hm, -⟩ := decodePairs_cons_cons h
        cases (isDigit_of_utf8EncodeChar hy hm).1
  | cons_cons hi lo cs ih _ =>
      obtain ⟨y, rest, hy⟩ := List.exists_cons_of_ne_nil (String.utf8EncodeChar_ne_nil (c := hi))
      obtain ⟨z, rest', hz⟩ := List.exists_cons_of_ne_nil (String.utf8EncodeChar_ne_nil (c := lo))
      rw [utf8_cons, utf8_cons, hy, hz] at h
      rcases rest with _ | ⟨w, rest⟩
      · obtain ⟨m, n, b', hm, hn, hb', rfl⟩ := decodePairs_cons_cons h
        obtain ⟨-, hhi⟩ := isDigit_of_utf8EncodeChar hy hm
        obtain ⟨rfl, hlo⟩ := isDigit_of_utf8EncodeChar hz hn
        have hmn : 16 * m + n < 256 := by
          have := hhi.lt
          have := hlo.lt
          omega
        exact .cons hhi hlo (UInt8.toNat_ofNat_of_lt' hmn) (ih hb')
      · obtain ⟨m, n, b', hm, -⟩ := decodePairs_cons_cons h
        cases (isDigit_of_utf8EncodeChar hy hm).1

lemma Spells.length_utf8 (h : Spells cs b) : (utf8 cs).length = 2 * b.length := by
  induction h with
  | nil => rfl
  | cons hhi hlo _ _ ih =>
      obtain ⟨y, hy, -⟩ := hhi.utf8EncodeChar
      obtain ⟨z, hz, -⟩ := hlo.utf8EncodeChar
      rw [utf8_cons, utf8_cons, hy, hz, List.singleton_append, List.singleton_append,
        List.length_cons, List.length_cons, List.length_cons, ih]
      omega

/-- **The texts that are read are those that spell bytes**, and what is read is what they spell. -/
theorem decode_eq_ok_iff : decode cs = .ok b ↔ Spells cs b := by
  rw [decode]
  constructor
  · intro h
    split_ifs at h
    exact spells_of_decodePairs h
  · intro h
    have heven := h.length_utf8
    rw [if_neg (by omega), h.decodePairs]

/-! ### Texts that are refused -/

/-- The first byte of a text that is no digit, with its place. -/
def FirstInvalid (text : Bytes) (x : UInt8) (place : Nat) : Prop :=
  ∃ before after, text = before ++ x :: after ∧ before.length = place ∧
    (∀ y ∈ before, IsDigitByte y) ∧ ¬IsDigitByte x

/-- There is a first byte that is no digit unless all bytes are digits. -/
lemma exists_firstInvalid {text : Bytes} (h : ¬∀ y ∈ text, IsDigitByte y) :
    ∃ x place, FirstInvalid text x place := by
  induction text with
  | nil => exact absurd (List.forall_mem_nil _) h
  | cons y text ih =>
      by_cases hy : IsDigitByte y
      · have hrest : ¬∀ y ∈ text, IsDigitByte y := fun hall =>
          h (List.forall_mem_cons.2 ⟨hy, hall⟩)
        obtain ⟨x, place, before, after, rfl, hlen, hbefore, hx⟩ := ih hrest
        exact ⟨x, place + 1, y :: before, after, rfl, congrArg (· + 1) hlen,
          List.forall_mem_cons.2 ⟨hy, hbefore⟩, hx⟩
      · exact ⟨y, 0, [], text, rfl, rfl, List.forall_mem_nil _, hy⟩

lemma exists_decodePairs_eq_ok {text : Bytes} (heven : text.length % 2 = 0)
    (h : ∀ y ∈ text, IsDigitByte y) (position : Nat) : ∃ b, decodePairs position text = .ok b := by
  induction text using List.twoStepInduction generalizing position with
  | nil => exact ⟨[], rfl⟩
  | singleton y => cases heven
  | cons_cons y z text ih _ =>
      rw [List.forall_mem_cons, List.forall_mem_cons] at h
      obtain ⟨hy, hz, h⟩ := h
      obtain ⟨m, hm⟩ := isDigitByte_iff.1 hy
      obtain ⟨n, hn⟩ := isDigitByte_iff.1 hz
      have heven' : text.length % 2 = 0 := by
        rw [List.length_cons, List.length_cons] at heven
        omega
      obtain ⟨b, hb⟩ := ih heven' h (position + 2)
      rw [decodePairs, hm, hn]
      simp only [hb]
      exact ⟨_, rfl⟩

lemma digitValue?_of_not_isDigitByte (h : ¬IsDigitByte x) : digitValue? x = none := by
  rw [isDigitByte_iff, not_exists] at h
  exact Option.eq_none_iff_forall_ne_some.2 h

/-- A text in pairs is refused for its first byte that is no digit. -/
lemma FirstInvalid.decodePairs {text : Bytes} {place : Nat} (heven : text.length % 2 = 0)
    (h : FirstInvalid text x place) (position : Nat) :
    decodePairs position text = .error (.invalidDigit x (position + place)) := by
  induction text using List.twoStepInduction generalizing position place with
  | nil =>
      obtain ⟨before, after, htext, -⟩ := h
      exact absurd htext.symm (List.append_ne_nil_of_right_ne_nil _ (List.cons_ne_nil _ _))
  | singleton y => cases heven
  | cons_cons y z text ih _ =>
      have heven' : text.length % 2 = 0 := by
        rw [List.length_cons, List.length_cons] at heven
        omega
      obtain ⟨before, after, htext, rfl, hbefore, hx⟩ := h
      have hnone := digitValue?_of_not_isDigitByte hx
      -- the byte is the first of its pair, the second, or in a later pair
      rcases before with _ | ⟨y', _ | ⟨z', before⟩⟩
      · rw [List.nil_append, List.cons.injEq] at htext
        obtain ⟨rfl, -⟩ := htext
        rw [Hex.decodePairs, hnone]
        rfl
      · rw [List.singleton_append, List.cons.injEq, List.cons.injEq] at htext
        obtain ⟨rfl, rfl, -⟩ := htext
        obtain ⟨m, hm⟩ := isDigitByte_iff.1 (hbefore y List.mem_cons_self)
        rw [Hex.decodePairs, hm, hnone]
        rfl
      · rw [List.cons_append, List.cons_append, List.cons.injEq, List.cons.injEq] at htext
        obtain ⟨rfl, rfl, htext⟩ := htext
        rw [List.forall_mem_cons, List.forall_mem_cons] at hbefore
        obtain ⟨hy, hz, hbefore⟩ := hbefore
        obtain ⟨m, hm⟩ := isDigitByte_iff.1 hy
        obtain ⟨n, hn⟩ := isDigitByte_iff.1 hz
        have hlater := ih heven' ⟨before, after, htext, rfl, hbefore, hx⟩ (position + 2)
        have hplace : position + 2 + before.length = position + (y :: z :: before).length := by
          rw [List.length_cons, List.length_cons]
          omega
        rw [Hex.decodePairs, hm, hn]
        simp only [hlater, hplace]

/-- A text in pairs is never refused for its length. -/
lemma decodePairs_ne_oddLength {text : Bytes} (heven : text.length % 2 = 0) (position : Nat) :
    decodePairs position text ≠ .error .oddLength := by
  intro h
  by_cases hall : ∀ y ∈ text, IsDigitByte y
  · obtain ⟨b, hb⟩ := exists_decodePairs_eq_ok heven hall position
    cases hb.symm.trans h
  · obtain ⟨x, place, hfirst⟩ := exists_firstInvalid hall
    cases (hfirst.decodePairs heven position).symm.trans h

/-- **A text is refused for its length exactly if its bytes are odd in number**, whatever they
are. -/
theorem decode_eq_oddLength_iff :
    decode cs = .error .oddLength ↔ (utf8 cs).length % 2 = 1 := by
  rw [decode]
  split_ifs with hodd
  · exact ⟨fun _ => hodd, fun _ => rfl⟩
  · exact ⟨fun h => absurd h (decodePairs_ne_oddLength (by omega) 0), fun h => absurd h hodd⟩

/-- **Otherwise it is refused for its first byte that is no digit**, if there is one. -/
theorem decode_eq_invalidDigit_iff {place : Nat} :
    decode cs = .error (.invalidDigit x place) ↔
      (utf8 cs).length % 2 = 0 ∧ FirstInvalid (utf8 cs) x place := by
  rw [decode]
  split_ifs with hodd
  · simp only [Except.error.injEq, reduceCtorEq, false_iff, not_and]
    omega
  · have heven : (utf8 cs).length % 2 = 0 := by omega
    constructor
    · intro h
      by_cases hall : ∀ y ∈ utf8 cs, IsDigitByte y
      · obtain ⟨b, hb⟩ := exists_decodePairs_eq_ok heven hall 0
        cases hb.symm.trans h
      · obtain ⟨y, place', hfirst⟩ := exists_firstInvalid hall
        have hrefused := hfirst.decodePairs heven 0
        rw [Nat.zero_add] at hrefused
        cases hrefused.symm.trans h
        exact ⟨heven, hfirst⟩
    · rintro ⟨-, hfirst⟩
      have hrefused := hfirst.decodePairs heven 0
      rwa [Nat.zero_add] at hrefused

end Hex

end TxStream
