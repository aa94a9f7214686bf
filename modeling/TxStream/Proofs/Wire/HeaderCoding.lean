import TxStream.Proofs.BigEndian
import TxStream.Proofs.Wire.HeaderForms

/-!
Headers written, and the laws of the two functions that read them.

* `HeaderForm.encode`: the header of an item in one of the forms that have room for its length.
  These are all headers there are (`isHeader_iff_encode`).
* `Header.Unsupported`: the lead bytes that announce more length bytes than are read.
  `Header.canDecode` refuses these and no others (`Header.canDecode_eq_error_iff`).
* `Header.decode_of_take_prefix`, `Header.canDecode_take`: a header is read from its own bytes,
  and from no fewer.
* `Header.canDecode_and_decode_spec`: the laws together.
-/

namespace TxStream

/-- How a header gives the length of the payload. -/
inductive HeaderForm where
  /-- In the lead byte. -/
  | short
  /-- In a number of bytes after the lead byte. -/
  | long (digits : Nat)
deriving DecidableEq

namespace HeaderForm

/-- The form has room for a length. -/
def Holds : HeaderForm → Nat → Prop
  | short, len => len ≤ 55
  | long digits, len => 1 ≤ digits ∧ digits ≤ 4 ∧ len < 256 ^ digits

/-- The header that gives a length in a form, with leading zeros where the form has more bytes than
the length needs. -/
def encode (isList : Bool) (len : Nat) : HeaderForm → Bytes
  | short => [UInt8.ofNat (leadBase isList + len)]
  | long digits => UInt8.ofNat (leadBase isList + 55 + digits) :: bigEndianBytes digits len

variable {isList : Bool} {len : Nat} {form : HeaderForm}

/-- Four bytes have room for every length of thirty-two bits. -/
lemma exists_holds (h : len < 2 ^ 32) : ∃ form : HeaderForm, form.Holds len :=
  ⟨long 4, by decide, by decide, h⟩

lemma leadBase_le (isList : Bool) : leadBase isList ≤ 0xc0 := by
  cases isList <;> decide

lemma isHeader_encode (h : form.Holds len) : IsHeader isList len (form.encode isList len) := by
  have hbase := leadBase_le isList
  cases form with
  | short =>
      have hlen : len ≤ 55 := h
      exact .short hlen (Nat.mod_eq_of_lt (by omega))
  | long digits =>
      obtain ⟨hpos, hle, hlt⟩ := h
      have hdigits := length_bigEndianBytes digits len
      have hlead : (UInt8.ofNat (leadBase isList + 55 + digits)).toNat
          = leadBase isList + 55 + (bigEndianBytes digits len).length := by
        rw [hdigits]
        exact Nat.mod_eq_of_lt (by omega)
      have hlong := IsHeader.long (hdigits.ge.trans' hpos) (hdigits.le.trans hle) hlead
      rwa [bigEndian_bigEndianBytes hlt] at hlong

end HeaderForm

/-- **The headers are what is written in the forms** that have room for the length. -/
theorem isHeader_iff_encode {isList : Bool} {len : Nat} {b : Bytes} :
    IsHeader isList len b ↔ ∃ form : HeaderForm, form.Holds len ∧ b = form.encode isList len := by
  constructor
  · intro h
    cases h with
    | @short lead _ hlen hlead =>
        refine ⟨.short, hlen, ?_⟩
        rw [HeaderForm.encode, ← hlead, UInt8.ofNat_toNat]
    | @long lead digits hpos hle hlead =>
        refine ⟨.long digits.length, ⟨hpos, hle, bigEndian_lt digits⟩, ?_⟩
        rw [HeaderForm.encode, ← hlead, UInt8.ofNat_toNat, bigEndianBytes_bigEndian]
  · rintro ⟨form, hform, rfl⟩
    exact HeaderForm.isHeader_encode hform

namespace Header

variable {b : Bytes} {h : Header}

/-! ### Which lead bytes are refused -/

/-- The lead byte announces five to eight bytes of length. -/
def Unsupported (lead : UInt8) : Prop :=
  0xbc ≤ lead.toNat ∧ lead.toNat ≤ 0xbf ∨ 0xfc ≤ lead.toNat

instance : DecidablePred Unsupported := fun _ => inferInstanceAs (Decidable (_ ∨ _))

/-- A byte string is refused for its lead byte alone. -/
lemma canDecode_cons_of_unsupported {lead : UInt8} (hlead : Unsupported lead) (r : Bytes) :
    canDecode (lead :: r) = .error .invalidHeader := by
  refine canDecode_cons_eq_error_iff.2 ⟨?_, rfl⟩
  refine (maxLengthBytes_lt_lengthBytes_iff lead).2 ?_
  rcases hlead with ⟨hlow, hhigh⟩ | hlow
  · exact .inl ⟨hlow, Nat.lt_succ_of_le hhigh⟩
  · exact .inr hlow

theorem canDecode_eq_error_iff :
    canDecode b = .error .invalidHeader ↔ ∃ lead r, b = lead :: r ∧ Unsupported lead := by
  constructor
  · intro he
    cases b with
    | nil => cases he
    | cons lead r =>
        refine ⟨lead, r, rfl, ?_⟩
        have hmany := (canDecode_cons_eq_error_iff.1 he).1
        rcases (maxLengthBytes_lt_lengthBytes_iff lead).1 hmany with ⟨hlow, hhigh⟩ | hlow
        · exact .inl ⟨hlow, Nat.le_of_lt_succ hhigh⟩
        · exact .inr hlow
  · rintro ⟨lead, r, rfl, hlead⟩
    exact canDecode_cons_of_unsupported hlead r

/-! ### What a header is read from -/

/-- The bytes that a header is read from: its own, or the byte that is its own item. -/
def window (h : Header) : Nat := max 1 h.offset

lemma window_le_length (hd : decode b = .ok h) : h.window ≤ b.length := by
  refine max_le ?_ (offset_le_length hd)
  cases b with
  | nil => cases hd
  | cons lead r => exact Nat.le_add_left ..

lemma decode_take_window (hd : decode b = .ok h) : decode (b.take h.window) = .ok h := by
  rcases isHeader_of_decode hd with ⟨lead, r, rfl, hlead, rfl⟩ | ⟨s, r, rfl, hs, hoff⟩
  · exact decode_single hlead []
  · have hdec := decode_of_isHeader hs []
    rw [window, hoff, Nat.max_eq_right hs.length_pos, List.take_left]
    rw [List.append_nil, ← hoff] at hdec
    exact hdec

/-- A header depends on its first bytes only. -/
lemma decode_of_take_prefix (hd : decode b = .ok h) {b' : Bytes}
    (hb' : b.take h.window <+: b') : decode b' = .ok h := by
  obtain ⟨r, rfl⟩ := hb'
  exact decode_append (decode_take_window hd) r

/-- Fewer bytes do not suffice. -/
lemma canDecode_take (hd : decode b = .ok h) {n : Nat} (hn : n < h.window) :
    canDecode (b.take n) = .ok false := by
  rcases isHeader_of_decode hd with ⟨lead, r, rfl, hlead, rfl⟩ | ⟨s, r, rfl, hs, hoff⟩
  · obtain rfl : n = 0 := Nat.lt_one_iff.1 hn
    rfl
  · rw [window, hoff, Nat.max_eq_right hs.length_pos] at hn
    rw [List.take_append_of_le_length hn.le]
    refine canDecode_of_lt hs (List.take_prefix ..) ?_
    rwa [List.length_take, Nat.min_eq_left hn.le]

lemma decode_ne_ok_of_canDecode (hc : canDecode b = .ok false) : decode b ≠ .ok h := by
  intro hd
  rw [canDecode_eq_true_iff.2 ⟨h, hd⟩] at hc
  cases hc

/-- **The two readings of a header agree, and reading inverts writing.**

* The bytes suffice exactly if a header is read from them.
* They are refused exactly if there is a lead byte and it is an unsupported one.
* A header that is read depends on its own bytes, at least one, and no fewer of them are enough.
* A header that is written in a form with room for the length is read for what it announces,
  whatever follows. -/
theorem canDecode_and_decode_spec :
    (∀ b, canDecode b = .ok true ↔ ∃ h, decode b = .ok h) ∧
    (∀ b, canDecode b = .error .invalidHeader ↔ ∃ lead r, b = lead :: r ∧ Unsupported lead) ∧
    (∀ b h, decode b = .ok h →
      max 1 h.offset ≤ b.length ∧
      (∀ b', b.take (max 1 h.offset) <+: b' → decode b' = .ok h) ∧
      ∀ n < max 1 h.offset, ∀ h', decode (b.take n) ≠ .ok h') ∧
    ∀ len < 2 ^ 32, ∀ isList, (∃ form : HeaderForm, form.Holds len) ∧
      ∀ form : HeaderForm, form.Holds len → ∀ r,
        decode (form.encode isList len ++ r)
          = .ok ⟨len, isList, (form.encode isList len).length⟩ := by
  refine ⟨fun b => canDecode_eq_true_iff, fun b => canDecode_eq_error_iff, ?_, ?_⟩
  · intro b h hd
    refine ⟨window_le_length hd, fun b' hb' => decode_of_take_prefix hd hb', ?_⟩
    intro n hn h'
    exact decode_ne_ok_of_canDecode (canDecode_take hd hn)
  · intro len hlen isList
    refine ⟨HeaderForm.exists_holds hlen, ?_⟩
    intro form hform r
    exact decode_of_isHeader (HeaderForm.isHeader_encode hform) r

/-- The laws for a string header that gives the length 256 in three bytes, with a leading zero, and
another byte after it. -/
theorem canDecode_and_decode_leading_zero :
    HeaderForm.encode false 256 (.long 3) = [0xba, 0x00, 0x01, 0x00] ∧
    decode [0xba, 0x00, 0x01, 0x00, 0xff] = .ok ⟨256, false, 4⟩ ∧
    decode [0xba, 0x00, 0x01, 0x00] = .ok ⟨256, false, 4⟩ ∧
    decode [0xba, 0x00, 0x01] ≠ .ok ⟨256, false, 4⟩ := by
  obtain ⟨-, -, hreads, hwritten⟩ := canDecode_and_decode_spec
  have hholds : (HeaderForm.long 3).Holds 256 := ⟨by decide, by decide, by decide⟩
  have hd : decode [0xba, 0x00, 0x01, 0x00, 0xff] = .ok ⟨256, false, 4⟩ :=
    (hwritten 256 (by decide) false).2 (.long 3) hholds [0xff]
  obtain ⟨-, hextends, hshorter⟩ := hreads _ _ hd
  exact ⟨rfl, hd, hextends _ (List.prefix_refl _), hshorter 3 (by decide) _⟩

end Header

end TxStream
