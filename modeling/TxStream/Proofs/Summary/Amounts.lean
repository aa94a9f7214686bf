import TxStream.Proofs.BigEndian
import TxStream.Summary.Text

/-!
What an amount tells of the quantity that it shows.

* `Quantity.Alike`: two quantities spell the same number of 64 bits, or the same larger number in
  the same bytes. Zero bytes in front count in a larger number alone;
* `Amount.ofQuantity_eq_iff`: quantities are shown by the same amount exactly if they are alike;
* `Amount.Shown.display_inj`: its text determines an amount that shows a quantity, since a larger
  number is marked with `0x`.
-/

namespace TxStream

/-! ### Texts of numbers -/

lemma newline_notMem_append {s t : String} (hs : '\n' ∉ s.toList) (ht : '\n' ∉ t.toList) :
    '\n' ∉ (s ++ t).toList := by
  rw [String.toList_append, List.mem_append, not_or]
  exact ⟨hs, ht⟩

lemma TxType.newline_notMem_name (t : TxType) : '\n' ∉ t.name.toList := by
  have hqualifier : ∀ p : FeePayer, '\n' ∉ p.qualifier.toList := by
    rintro ⟨⟩ <;> simp [FeePayer.qualifier]
  have hlabel : ∀ a : Action, '\n' ∉ a.label.toList := by rintro ⟨⟩ <;> simp [Action.label]
  cases t with
  | legacy => simp [name]
  | typed a p => exact newline_notMem_append (hqualifier p) (hlabel a)

namespace Decimal

lemma render_injective : Function.Injective render := by
  intro m n h
  have hdigits : digits m = digits n := String.ofList_injective h
  rw [← valueFrom_digits m, hdigits, valueFrom_digits]

lemma isDigit_of_mem_render {n : Nat} {c : Char} (hc : c ∈ (render n).toList) :
    isDigit c = true := by
  rw [render, String.toList_ofList] at hc
  exact List.all_eq_true.1 (all_isDigit_digits n) c hc

lemma newline_notMem_render (n : Nat) : '\n' ∉ (render n).toList := by
  intro h
  exact absurd (isDigit_of_mem_render h) (by decide)

end Decimal

namespace Hex

lemma encode_injective : Function.Injective encode := by
  intro a b h
  have hdigits : digits a = digits b := String.ofList_injective h
  have hdecode : decode (digits a) = decode (digits b) := congrArg decode hdigits
  rw [decode_digits, decode_digits] at hdecode
  exact Except.ok.inj hdecode

lemma newline_notMem_encode (b : Bytes) : '\n' ∉ (encode b).toList := by
  have hdigit : ∀ n < 16, '\n' ≠ digit n := by decide
  rw [encode, String.toList_ofList, digits, List.mem_flatMap]
  rintro ⟨x, -, hx⟩
  have hlt : x.toNat < 256 := x.toNat_lt
  rw [ofByte, List.mem_cons, List.mem_singleton] at hx
  rcases hx with hhigh | hlow
  · exact hdigit _ (by omega) hhigh
  · exact hdigit _ (by omega) hlow

lemma newline_notMem_byteText (b : UInt8) : '\n' ∉ (byteText b).toList :=
  newline_notMem_append (by simp) (newline_notMem_encode [b])

lemma length_byteText (x : UInt8) : (byteText x).toList.length = 4 := by
  have hdigits : (encode [x]).toList = digits [x] := String.toList_ofList
  rw [byteText, String.toList_append, hdigits]
  rfl

end Hex

/-! ### Quantities -/

namespace Quantity

variable {q r : Quantity}

lemma ne_zero_of_significant {x : UInt8} {b : Bytes} (h : q.significant = x :: b) : x ≠ 0 := by
  have hhead := List.head?_dropWhile_not (· == 0) q.bytes
  rw [← significant, h] at hhead
  simpa using hhead

/-- **A number has as many significant bytes as it takes to write it.** -/
lemma length_significant_le_iff (q : Quantity) (k : Nat) :
    q.significant.length ≤ k ↔ q.toNat < 256 ^ k := by
  have hpow : ∀ {m n : Nat}, m ≤ n → 256 ^ m ≤ 256 ^ n := fun h =>
    Nat.pow_le_pow_right (by decide) h
  constructor
  · intro h
    rw [← bigEndian_significant]
    exact lt_of_lt_of_le (bigEndian_lt _) (hpow h)
  · intro h
    by_contra hlong
    rcases hs : q.significant with _ | ⟨x, b⟩
    · rw [hs] at hlong
      exact hlong (Nat.zero_le k)
    · rw [hs, List.length_cons, Nat.not_le, Nat.lt_succ_iff] at hlong
      have hx : 1 ≤ x.toNat := by
        have hne := ne_zero_of_significant hs
        rw [ne_eq, ← UInt8.toNat_inj] at hne
        exact Nat.one_le_iff_ne_zero.2 hne
      -- the first significant byte alone is worth as much as `k` bytes can not spell
      have hle : 256 ^ k ≤ q.toNat :=
        calc 256 ^ k
            ≤ 256 ^ b.length := hpow hlong
          _ ≤ x.toNat * 256 ^ b.length := Nat.le_mul_of_pos_left _ hx
          _ = bigEndian [x] * 256 ^ b.length := by simp [bigEndian]
          _ ≤ bigEndian ([x] ++ b) := by
              rw [bigEndian_append]
              exact Nat.le_add_right ..
          _ = q.toNat := by rw [List.singleton_append, ← hs, bigEndian_significant]
      exact absurd h (Nat.not_lt.2 hle)

/-- A byte packed behind others is added to them, eight bits higher. -/
lemma toNat_shiftLeft_or (n : UInt64) (x : UInt8) :
    (n <<< 8 ||| x.toUInt64).toNat = (256 * n.toNat + x.toNat) % 2 ^ 64 := by
  have hx : x.toNat < 2 ^ 8 := x.toNat_lt
  -- the eight bits that are shifted out are cut off before the shift
  have hshift : n.toNat <<< 8 % 2 ^ 64 = (n.toNat % 2 ^ 56) <<< 8 := by
    rw [Nat.shiftLeft_eq, Nat.shiftLeft_eq]
    omega
  calc (n <<< 8 ||| x.toUInt64).toNat
      = n.toNat <<< 8 % 2 ^ 64 ||| x.toNat := by
          rw [UInt64.toNat_or, UInt64.toNat_shiftLeft, UInt8.toNat_toUInt64]
          rfl
    _ = (n.toNat % 2 ^ 56) <<< 8 + x.toNat := by
          rw [hshift, Nat.shiftLeft_add_eq_or_of_lt hx]
    _ = (256 * n.toNat + x.toNat) % 2 ^ 64 := by
          rw [Nat.shiftLeft_eq]
          omega

/-- **Packing loses nothing but what does not fit into 64 bits.** -/
lemma toNat_packed (b : Bytes) : (packed b).toNat = bigEndian b % 2 ^ 64 := by
  induction b using List.reverseRecOn with
  | nil => rfl
  | append_singleton b x ih =>
      have hpacked : packed (b ++ [x]) = packed b <<< 8 ||| x.toUInt64 := List.foldl_append ..
      rw [hpacked, toNat_shiftLeft_or, ih, bigEndian_concat]
      omega

/-- A number below `2 ^ 64` is itself in 64 bits. -/
lemma toUInt64?_of_lt (h : q.toNat < 2 ^ 64) : q.toUInt64? = some (UInt64.ofNat q.toNat) := by
  rw [toUInt64?, if_pos ((length_significant_le_iff q 8).2 h), Option.some.injEq,
    ← UInt64.toNat_inj, toNat_packed, bigEndian_significant, UInt64.toNat_ofNat']

/-- A larger number is not cut off. -/
lemma toUInt64?_of_le (h : 2 ^ 64 ≤ q.toNat) : q.toUInt64? = none := by
  rw [toUInt64?, if_neg]
  intro hshort
  exact absurd ((length_significant_le_iff q 8).1 hshort) (Nat.not_lt.2 h)

/-- The same number below `2 ^ 64`, or the same bytes of a number from there on. -/
def Alike (q r : Quantity) : Prop :=
  (q.toNat < 2 ^ 64 ∧ r.toNat < 2 ^ 64 ∧ q.toNat = r.toNat) ∨
    (2 ^ 64 ≤ q.toNat ∧ 2 ^ 64 ≤ r.toNat ∧ q.bytes = r.bytes)

instance (q r : Quantity) : Decidable (q.Alike r) :=
  inferInstanceAs (Decidable (_ ∨ _))

end Quantity

/-! ### Amounts -/

namespace Amount

variable {q r : Quantity} {a b : Amount}

lemma ofQuantity_of_lt (h : q.toNat < 2 ^ 64) : ofQuantity q = number (UInt64.ofNat q.toNat) := by
  rw [ofQuantity, Quantity.toUInt64?_of_lt h]

lemma ofQuantity_of_le (h : 2 ^ 64 ≤ q.toNat) : ofQuantity q = text q.markedHex := by
  rw [ofQuantity, Quantity.toUInt64?_of_le h]

lemma markedHex_inj : q.markedHex = r.markedHex ↔ q.bytes = r.bytes := by
  rw [Quantity.markedHex, Quantity.markedHex, String.append_right_inj]
  exact Hex.encode_injective.eq_iff

lemma ofNat_inj_of_lt {m n : Nat} (hm : m < 2 ^ 64) (hn : n < 2 ^ 64) :
    UInt64.ofNat m = UInt64.ofNat n ↔ m = n := by
  rw [← UInt64.toNat_inj, UInt64.toNat_ofNat', UInt64.toNat_ofNat', Nat.mod_eq_of_lt hm,
    Nat.mod_eq_of_lt hn]

/-- **Quantities are shown by the same amount exactly if they are alike.** -/
theorem ofQuantity_eq_iff : ofQuantity q = ofQuantity r ↔ q.Alike r := by
  rw [Quantity.Alike]
  rcases Nat.lt_or_ge q.toNat (2 ^ 64) with hq | hq
  · rcases Nat.lt_or_ge r.toNat (2 ^ 64) with hr | hr
    · rw [ofQuantity_of_lt hq, ofQuantity_of_lt hr, number.injEq, ofNat_inj_of_lt hq hr]
      simp only [hq, hr, hq.not_ge, true_and, false_and, or_false]
    · rw [ofQuantity_of_lt hq, ofQuantity_of_le hr]
      simp only [reduceCtorEq, hq.not_ge, hr.not_gt, false_and, and_false, or_self]
  · rcases Nat.lt_or_ge r.toNat (2 ^ 64) with hr | hr
    · rw [ofQuantity_of_le hq, ofQuantity_of_lt hr]
      simp only [reduceCtorEq, hq.not_gt, hr.not_ge, false_and, and_false, or_self]
    · rw [ofQuantity_of_le hq, ofQuantity_of_le hr, text.injEq, markedHex_inj]
      simp only [hq, hr, hq.not_gt, true_and, false_and, false_or]

/-- A zero byte in front changes no number of 64 bits, and it changes the text of a larger one. -/
example : Quantity.Alike ⟨[1, 0], by decide⟩ ⟨[0, 1, 0], by decide⟩ ∧
    ¬Quantity.Alike ⟨1 :: List.replicate 8 0, by decide⟩
      ⟨0 :: 1 :: List.replicate 8 0, by decide⟩ := by
  decide

/-! ### Amounts as they are shown -/

/-- The amounts that show quantities: numbers, and texts of marked digits. -/
inductive Shown : Amount → Prop
  | number (n : UInt64) : Shown (.number n)
  | text (b : Bytes) : Shown (.text ("0x" ++ Hex.encode b))

lemma shown_ofQuantity (q : Quantity) : (ofQuantity q).Shown := by
  rw [ofQuantity]
  split
  · exact .number _
  · exact .text _

lemma render_ne_marked (n : Nat) (s : String) : Decimal.render n ≠ "0x" ++ s := by
  intro h
  have hx : 'x' ∈ (Decimal.render n).toList := by
    rw [h, String.toList_append]
    exact List.mem_append_left _ (by decide)
  exact absurd (Decimal.isDigit_of_mem_render hx) (by decide)

/-- **The text of an amount that shows a quantity determines it.** -/
theorem Shown.display_inj (ha : a.Shown) (hb : b.Shown) : a.display = b.display ↔ a = b := by
  refine ⟨fun h => ?_, congrArg display⟩
  cases ha with
  | number m =>
      cases hb with
      | number n => rw [UInt64.toNat_inj.1 (Decimal.render_injective h)]
      | text t => exact (render_ne_marked _ _ h).elim
  | text s =>
      cases hb with
      | number n => exact (render_ne_marked _ _ h.symm).elim
      | text t => exact congrArg Amount.text h

lemma Shown.newline_notMem (ha : a.Shown) : '\n' ∉ a.display.toList := by
  cases ha with
  | number n => exact Decimal.newline_notMem_render _
  | text b => exact newline_notMem_append (by simp) (Hex.newline_notMem_encode b)

end Amount

end TxStream
