import Mathlib.Tactic.Common
import TxStream.Wire.Header

/-!
The forms of a header, and what the two readings of `Wire/Header` make of them.

* `IsHeader`: the bytes that announce an item of a kind with a payload of a length, in the short
  or the long form. Leading zeros in a long form are allowed.
* `decode_of_isHeader`, `isHeader_of_decode`: `Header.decode` finds a header at the start of the
  bytes exactly if one of the forms, or a byte that is its own item, stands there. The bytes
  determine it (`eq_of_isHeader_append`).
* `canDecode_eq_true_iff`: `Header.canDecode` answers yes exactly where `Header.decode` succeeds.
* `canDecode_append`, `decode_append`: bytes that follow a header change neither answer.
* `length_lt_offset`: bytes that do not suffice are fewer than the header has.
-/

namespace TxStream

/-- The lead byte of an empty item of a kind, the lowest of that kind. -/
def leadBase (isList : Bool) : Nat := if isList then 0xc0 else 0x80

/-- The bytes are the header of an item with a payload of a given length. -/
inductive IsHeader (isList : Bool) : Nat → Bytes → Prop where
  /-- The length is in the lead byte. -/
  | short {lead : UInt8} {len : Nat} (hlen : len ≤ 55)
      (hlead : lead.toNat = leadBase isList + len) : IsHeader isList len [lead]
  /-- The lead byte counts the bytes of the length, which follow it. -/
  | long {lead : UInt8} {digits : Bytes} (hpos : 1 ≤ digits.length) (hle : digits.length ≤ 4)
      (hlead : lead.toNat = leadBase isList + 55 + digits.length) :
      IsHeader isList (bigEndian digits) (lead :: digits)

lemma IsHeader.length_pos {isList : Bool} {len : Nat} {b : Bytes} (h : IsHeader isList len b) :
    0 < b.length := by
  cases h <;> simp

namespace Header

/-! ### Whether the bytes suffice -/

/-- The bytes suffice if the length bytes are there that the lead byte announces. -/
lemma canDecode_cons_eq_ok_iff {lead : UInt8} {rest : Bytes} {b : Bool} :
    canDecode (lead :: rest) = .ok b ↔
      lengthBytes lead ≤ 4 ∧ b = decide (lengthBytes lead ≤ rest.length) := by
  rw [canDecode]
  by_cases h : maxLengthBytes < lengthBytes lead
  · rw [if_pos h]
    rw [maxLengthBytes] at h
    constructor
    · intro heq
      cases heq
    · rintro ⟨h', -⟩
      omega
  · rw [if_neg h]
    rw [maxLengthBytes, Nat.not_lt] at h
    simp [h, eq_comm]

/-- A lead byte is refused for what it announces, whatever follows. -/
lemma canDecode_cons_eq_error_iff {lead : UInt8} {rest : Bytes} {e : DecodeError} :
    canDecode (lead :: rest) = .error e ↔ 4 < lengthBytes lead ∧ e = .invalidHeader := by
  rw [canDecode]
  by_cases h : maxLengthBytes < lengthBytes lead
  · rw [if_pos h]
    rw [maxLengthBytes] at h
    simp [h, eq_comm]
  · rw [if_neg h]
    rw [maxLengthBytes] at h
    simp [h]

lemma eq_invalidHeader_of_canDecode {b : Bytes} {e : DecodeError} (h : canDecode b = .error e) :
    e = .invalidHeader := by
  cases b with
  | nil => cases h
  | cons lead rest => exact (canDecode_cons_eq_error_iff.1 h).2

/-- Bytes that do not suffice are at most four. -/
lemma length_le_of_canDecode_eq_false {b : Bytes} (h : canDecode b = .ok false) :
    b.length ≤ 4 := by
  cases b with
  | nil => exact Nat.zero_le _
  | cons lead rest =>
      obtain ⟨h4, hlt⟩ := canDecode_cons_eq_ok_iff.1 h
      have := of_decide_eq_false hlt.symm
      rw [List.length_cons]
      omega

lemma canDecode_append {b : Bytes} (h : canDecode b = .ok true) (r : Bytes) :
    canDecode (b ++ r) = .ok true := by
  cases b with
  | nil => cases h
  | cons lead rest =>
      obtain ⟨h4, hle⟩ := canDecode_cons_eq_ok_iff.1 h
      have hle := of_decide_eq_true hle.symm
      have hle' : lengthBytes lead ≤ (rest ++ r).length := by
        rw [List.length_append]
        omega
      exact canDecode_cons_eq_ok_iff.2 ⟨h4, (decide_eq_true hle').symm⟩

lemma canDecode_append_error {b : Bytes} {e : DecodeError} (h : canDecode b = .error e)
    (r : Bytes) : canDecode (b ++ r) = .error e := by
  cases b with
  | nil => cases h
  | cons lead rest => exact canDecode_cons_eq_error_iff.2 (canDecode_cons_eq_error_iff.1 h)

/-- If bytes do not suffice, the first of them do not. -/
lemma canDecode_of_append_eq_false {b r : Bytes} (h : canDecode (b ++ r) = .ok false) :
    canDecode b = .ok false := by
  rcases hc : canDecode b with e | _ | _
  · rw [canDecode_append_error hc] at h
    cases h
  · rfl
  · rw [canDecode_append hc] at h
    cases h

/-- A lead byte is refused as soon as it is there. -/
lemma eq_nil_of_canDecode_append_eq_error {b r : Bytes} {e : DecodeError}
    (hb : canDecode b = .ok false) (h : canDecode (b ++ r) = .error e) : b = [] := by
  cases b with
  | nil => rfl
  | cons lead rest =>
      have h4 := (canDecode_cons_eq_ok_iff.1 hb).1
      have h5 := (canDecode_cons_eq_error_iff.1 h).1
      omega

/-! ### The header in sufficient bytes -/

lemma decode_single {lead : UInt8} (h : lead.toNat < 0x80) (r : Bytes) :
    decode (lead :: r) = .ok ⟨1, false, 0⟩ := by
  rw [decode, if_pos h]

lemma decodeLong_append (isList : Bool) (digits r : Bytes) :
    decodeLong isList digits.length (digits ++ r)
      = .ok ⟨bigEndian digits, isList, digits.length + 1⟩ := by
  rw [decodeLong, if_neg (by simp), List.take_left]

/-- Each form is read for what it announces, and no byte after it is looked at. -/
lemma decode_of_isHeader {isList : Bool} {len : Nat} {b : Bytes} (h : IsHeader isList len b)
    (r : Bytes) : decode (b ++ r) = .ok ⟨len, isList, b.length⟩ := by
  cases h with
  | @short lead _ hlen hlead =>
      cases isList <;> simp only [leadBase, if_true, Bool.false_eq_true, if_false] at hlead <;>
        simp only [List.singleton_append, decode, List.length_singleton, hlead]
      · rw [if_neg (by omega), if_pos (by omega), Nat.add_sub_cancel_left]
      · rw [if_neg (by omega), if_neg (by omega), if_neg (by omega), if_neg (by omega),
          if_pos (by omega), Nat.add_sub_cancel_left]
  | @long lead digits hpos hle hlead =>
      cases isList <;> simp only [leadBase, if_true, Bool.false_eq_true, if_false] at hlead <;>
        simp only [List.cons_append, decode, List.length_cons]
      · rw [if_neg (by omega), if_neg (by omega), if_pos (by omega),
          show lead.toNat - 0xb7 = digits.length by omega, decodeLong_append]
      · rw [if_neg (by omega), if_neg (by omega), if_neg (by omega), if_neg (by omega),
          if_neg (by omega), if_pos (by omega),
          show lead.toNat - 0xf7 = digits.length by omega, decodeLong_append]

/-- The bytes determine the header at their start. -/
lemma eq_of_isHeader_append {isList isList' : Bool} {len len' : Nat} {b b' r r' : Bytes}
    (h : IsHeader isList len b) (h' : IsHeader isList' len' b') (heq : b ++ r = b' ++ r') :
    b = b' ∧ r = r' := by
  have hd := decode_of_isHeader h r
  rw [heq, decode_of_isHeader h' r', Except.ok.injEq, Header.mk.injEq] at hd
  exact List.append_inj heq hd.2.2.symm

/-- A long header that is read has all its length bytes. -/
lemma isHeader_of_decodeLong {isList : Bool} {lead : UInt8} {n : Nat} {rest : Bytes} {h : Header}
    (hd : decodeLong isList n rest = .ok h) (hpos : 1 ≤ n) (hle : n ≤ 4)
    (hlead : lead.toNat = leadBase isList + 55 + n) :
    ∃ b r, lead :: rest = b ++ r ∧ IsHeader h.isList h.len b ∧ h.offset = b.length := by
  rw [decodeLong] at hd
  split at hd
  · cases hd
  · next hn =>
    cases hd
    have hlen : (rest.take n).length = n := by
      rw [List.length_take]
      omega
    refine ⟨lead :: rest.take n, rest.drop n, ?_, .long ?_ ?_ ?_, ?_⟩
    · rw [List.cons_append, List.take_append_drop]
    · rwa [hlen]
    · rwa [hlen]
    · rwa [hlen]
    · rw [List.length_cons, hlen]

/-- What is read is a byte that is its own item, or one of the forms. -/
lemma isHeader_of_decode {b : Bytes} {h : Header} (hd : decode b = .ok h) :
    (∃ lead r, b = lead :: r ∧ lead.toNat < 0x80 ∧ h = ⟨1, false, 0⟩) ∨
      ∃ s r, b = s ++ r ∧ IsHeader h.isList h.len s ∧ h.offset = s.length := by
  rcases b with _ | ⟨lead, rest⟩
  · cases hd
  have hlt := lead.toNat_lt
  rw [decode] at hd
  split_ifs at hd with h80 hb8 hbc hc0 hf8 hfc
  · obtain rfl := Except.ok.inj hd
    exact .inl ⟨lead, rest, rfl, h80, rfl⟩
  · obtain rfl := Except.ok.inj hd
    have hs : IsHeader false (lead.toNat - 0x80) [lead] :=
      .short (by omega) (by rw [leadBase, if_neg Bool.false_ne_true]; omega)
    exact .inr ⟨[lead], rest, rfl, hs, rfl⟩
  · exact .inr (isHeader_of_decodeLong hd (by omega) (by omega) (by simp [leadBase]; omega))
  · obtain rfl := Except.ok.inj hd
    have hs : IsHeader true (lead.toNat - 0xc0) [lead] :=
      .short (by omega) (by rw [leadBase, if_pos rfl]; omega)
    exact .inr ⟨[lead], rest, rfl, hs, rfl⟩
  · exact .inr (isHeader_of_decodeLong hd (by omega) (by omega) (by simp [leadBase]; omega))

lemma decode_append {b : Bytes} {h : Header} (hd : decode b = .ok h) (r : Bytes) :
    decode (b ++ r) = .ok h := by
  rcases isHeader_of_decode hd with ⟨lead, r', rfl, hlead, rfl⟩ | ⟨s, r', rfl, hs, hoff⟩
  · exact decode_single hlead (r' ++ r)
  · rw [List.append_assoc, decode_of_isHeader hs, ← hoff]

/-! ### The two readings agree -/

lemma canDecode_single {lead : UInt8} (h : lead.toNat < 0x80) (r : Bytes) :
    canDecode (lead :: r) = .ok true := by
  have h0 := (lengthBytes_eq_zero_iff lead).2 (.inl (by omega))
  simp [canDecode_cons_eq_ok_iff, h0]

/-- A lead byte announces the length bytes of its form. -/
lemma canDecode_of_isHeader {isList : Bool} {len : Nat} {b : Bytes} (h : IsHeader isList len b)
    (r : Bytes) : canDecode (b ++ r) = .ok true := by
  cases h with
  | @short lead _ hlen hlead =>
      have h0 : lengthBytes lead = 0 := by
        rw [lengthBytes_eq_zero_iff]
        cases isList <;> simp [leadBase] at hlead <;> omega
      simp [canDecode_cons_eq_ok_iff, h0]
  | @long lead digits hpos hle hlead =>
      have hn : lengthBytes lead = digits.length := by
        unfold lengthBytes
        cases isList <;> simp [leadBase] at hlead
        · rw [if_neg (by omega), if_pos (by omega)]
          omega
        · rw [if_pos (by omega)]
          omega
      simp [canDecode_cons_eq_ok_iff, hn, hle]

lemma exists_decodeLong (isList : Bool) {n : Nat} {rest : Bytes} (h : n ≤ rest.length) :
    ∃ hd, decodeLong isList n rest = .ok hd := by
  refine ⟨⟨bigEndian (rest.take n), isList, n + 1⟩, ?_⟩
  rw [decodeLong, if_neg (by omega)]

lemma exists_decode_of_canDecode {b : Bytes} (h : canDecode b = .ok true) :
    ∃ hd, decode b = .ok hd := by
  rcases b with _ | ⟨lead, rest⟩
  · cases h
  obtain ⟨h4, hle⟩ := canDecode_cons_eq_ok_iff.1 h
  have hle := of_decide_eq_true hle.symm
  have hlt := lead.toNat_lt
  unfold lengthBytes at h4 hle
  rw [decode]
  by_cases h80 : lead.toNat < 0x80
  · exact ⟨_, if_pos h80⟩
  by_cases hb8 : lead.toNat < 0xb8
  · exact ⟨_, by rw [if_neg h80, if_pos hb8]⟩
  by_cases hc0 : lead.toNat < 0xc0
  · rw [if_neg (by omega), if_pos ⟨by omega, hc0⟩] at h4 hle
    rw [if_neg h80, if_neg hb8, if_pos (by omega)]
    exact exists_decodeLong false hle
  by_cases hf8 : lead.toNat < 0xf8
  · exact ⟨_, by rw [if_neg h80, if_neg hb8, if_neg (by omega), if_neg hc0, if_pos hf8]⟩
  · rw [if_pos (by omega)] at h4 hle
    rw [if_neg h80, if_neg hb8, if_neg (by omega), if_neg hc0, if_neg hf8, if_pos (by omega)]
    exact exists_decodeLong true hle

/-- The bytes suffice exactly if a header is read from them. -/
theorem canDecode_eq_true_iff {b : Bytes} :
    canDecode b = .ok true ↔ ∃ h, decode b = .ok h := by
  refine ⟨exists_decode_of_canDecode, ?_⟩
  rintro ⟨h, hd⟩
  rcases isHeader_of_decode hd with ⟨lead, r, rfl, hlead, -⟩ | ⟨s, r, rfl, hs, -⟩
  · exact canDecode_single hlead r
  · exact canDecode_of_isHeader hs r

/-- Bytes that do not suffice are fewer than the bytes of the header that they begin, unless the
header has no bytes at all. -/
lemma length_lt_offset {b r : Bytes} {h : Header} (hb : canDecode b = .ok false)
    (hd : decode (b ++ r) = .ok h) : b = [] ∧ h.offset = 0 ∨ b.length < h.offset := by
  rcases isHeader_of_decode hd with ⟨lead, r', heq, hlead, rfl⟩ | ⟨s, r', heq, hs, hoff⟩
  · cases b with
    | nil => exact .inl ⟨rfl, rfl⟩
    | cons x b =>
        obtain ⟨rfl, -⟩ := List.cons.inj heq
        rw [canDecode_single hlead] at hb
        cases hb
  · right
    by_contra hle
    obtain ⟨b', rfl⟩ : s <+: b :=
      List.prefix_of_prefix_length_le ⟨r', heq.symm⟩ ⟨r, rfl⟩ (by omega)
    rw [canDecode_of_isHeader hs] at hb
    cases hb

lemma offset_le_length {b : Bytes} {h : Header} (hd : decode b = .ok h) :
    h.offset ≤ b.length := by
  rcases isHeader_of_decode hd with ⟨lead, r, rfl, -, rfl⟩ | ⟨s, r, rfl, -, hoff⟩
  · exact Nat.zero_le _
  · rw [hoff, List.length_append]
    exact Nat.le_add_right ..

/-- The front of a header does not suffice. -/
lemma canDecode_of_lt {isList : Bool} {len : Nat} {b header : Bytes}
    (h : IsHeader isList len header) (hb : b <+: header) (hlt : b.length < header.length) :
    canDecode b = .ok false := by
  obtain ⟨r, rfl⟩ := hb
  have hdec := decode_of_isHeader h []
  rw [List.append_nil] at hdec
  rcases hc : canDecode b with e | _ | _
  · have herror := canDecode_append_error hc r
    rw [canDecode_eq_true_iff.2 ⟨_, hdec⟩] at herror
    cases herror
  · rfl
  · obtain ⟨h', hd'⟩ := exists_decode_of_canDecode hc
    have hle := offset_le_length hd'
    obtain rfl := Except.ok.inj ((decode_append hd' r).symm.trans hdec)
    exact absurd hlt (Nat.not_lt.2 hle)

end Header

end TxStream
