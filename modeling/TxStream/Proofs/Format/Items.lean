import TxStream.Field.Layout
import TxStream.Proofs.Wire.HeaderForms

/-!
String items, on their own and in a row.

* `IsString`: the bytes are a string item for a payload, a byte without a header or any payload
  after one of the forms of its header;
* `IsString.decode`, `IsString.of_decode`: what `Header.decode` makes of an item, and that what it
  finds is one;
* `shortItem`: the shortest item of a payload that needs no long header;
* `Items`: the items of several fields in a row, each for what its field holds;
* `IsString.unique`, `Items.unique`: payloads and what follows are determined by the bytes.
-/

namespace TxStream

/-- The bytes are a string item for a payload. -/
inductive IsString : Bytes → Bytes → Prop where
  /-- A byte below `80` is an item of its own. -/
  | single {b : UInt8} (h : b.toNat < 0x80) : IsString [b] [b]
  /-- Any payload may stand after its header. -/
  | headed {p header : Bytes} (h : IsHeader false p.length header) : IsString p (header ++ p)

/-- The lead byte of a list announces a list, and that of a string does not. -/
lemma IsHeader.le_lead_iff {isList : Bool} {len : Nat} {b : Bytes} (h : IsHeader isList len b) :
    ∃ lead rest, b = lead :: rest ∧ 0x80 ≤ lead.toNat ∧
      (0xc0 ≤ lead.toNat ↔ isList = true) := by
  cases h with
  | @short lead len hlen hlead =>
      refine ⟨lead, [], rfl, ?_⟩
      cases isList <;> simp [leadBase] at hlead ⊢ <;> omega
  | @long lead digits hpos hle hlead =>
      refine ⟨lead, digits, rfl, ?_⟩
      cases isList <;> simp [leadBase] at hlead ⊢ <;> omega

lemma IsHeader.len_unique {isList : Bool} {n n' : Nat} {header : Bytes}
    (h : IsHeader isList n header) (h' : IsHeader isList n' header) : n = n' := by
  have heq := (Header.decode_of_isHeader h []).symm.trans (Header.decode_of_isHeader h' [])
  exact congrArg Header.len (Except.ok.inj heq)

/-- Unless it is that of a single byte, a header that is read is there. -/
lemma Header.exists_isHeader {b : Bytes} {h : Header} (hd : Header.decode b = .ok h)
    (hlong : h.isList = true ∨ h.offset ≠ 0) :
    ∃ header r, b = header ++ r ∧ IsHeader h.isList h.len header ∧ h.offset = header.length ∧
      b.drop h.offset = r := by
  rcases Header.isHeader_of_decode hd with ⟨x, r, rfl, hx, rfl⟩ | ⟨header, r, rfl, hh, hoff⟩
  · rcases hlong with hlist | hoff
    · cases hlist
    · exact absurd rfl hoff
  · exact ⟨header, r, rfl, hh, hoff, by rw [hoff, List.drop_left]⟩

lemma Header.isList_of_decode {h : Header} {x : UInt8} {r : Bytes}
    (hd : Header.decode (x :: r) = .ok h) (hx : 0xc0 ≤ x.toNat) : h.isList = true := by
  rcases Header.isHeader_of_decode hd with ⟨y, r', heq, hy, -⟩ | ⟨header, r', heq, hh, -⟩
  · obtain ⟨rfl, -⟩ := List.cons.inj heq
    omega
  · obtain ⟨lead, rest, rfl, -, hlead⟩ := hh.le_lead_iff
    obtain ⟨rfl, -⟩ := List.cons.inj heq
    exact hlead.1 hx

namespace IsString

variable {p p' item item' r r' : Bytes}

/-- The header of an item tells the length of its payload, which comes after it. -/
lemma decode (h : IsString p item) :
    ∃ n, n + p.length = item.length ∧ ∀ r, Header.decode (item ++ r) = .ok ⟨p.length, false, n⟩ ∧
      (item ++ r).drop n = p ++ r := by
  cases h with
  | single hb => exact ⟨0, rfl, fun r => ⟨Header.decode_single hb r, rfl⟩⟩
  | @headed p header hh =>
      refine ⟨header.length, List.length_append.symm, ?_⟩
      intro r
      rw [List.append_assoc]
      exact ⟨Header.decode_of_isHeader hh (p ++ r), List.drop_left⟩

/-- A header of a string with its payload after it is an item. -/
lemma of_decode {b : Bytes} {h : Header} (hd : Header.decode b = .ok h) (hl : h.isList = false)
    (hlen : h.len ≤ (b.drop h.offset).length) :
    ∃ p item r, b = item ++ r ∧ IsString p item ∧ p.length = h.len ∧
      item.length = h.offset + h.len ∧ b.drop h.offset = p ++ r := by
  rcases Header.isHeader_of_decode hd with ⟨lead, r, rfl, hlead, rfl⟩ | ⟨s, r, rfl, hs, hoff⟩
  · exact ⟨[lead], [lead], r, rfl, .single hlead, rfl, rfl, rfl⟩
  · rw [hoff, List.drop_left] at hlen ⊢
    have hp : (r.take h.len).length = h.len := List.length_take_of_le hlen
    rw [hl, ← hp] at hs
    refine ⟨r.take h.len, s ++ r.take h.len, r.drop h.len, ?_, .headed hs, hp, ?_, ?_⟩
    · rw [List.append_assoc, List.take_append_drop]
    · rw [List.length_append, hp]
    · rw [List.take_append_drop]

lemma length_pos (h : IsString p item) : 0 < item.length := by
  cases h with
  | single hb => exact Nat.one_pos
  | headed hh =>
      rw [List.length_append]
      exact Nat.lt_of_lt_of_le hh.length_pos (Nat.le_add_right ..)

/-- **The bytes determine the item** at their start. -/
lemma unique (h : IsString p item) (h' : IsString p' item') (heq : item ++ r = item' ++ r') :
    p = p' ∧ item = item' ∧ r = r' := by
  obtain ⟨n, hn, hall⟩ := h.decode
  obtain ⟨n', hn', hall'⟩ := h'.decode
  obtain ⟨hd, hdrop⟩ := hall r
  obtain ⟨hd', hdrop'⟩ := hall' r'
  rw [heq, hd'] at hd
  have hh := Except.ok.inj hd
  simp only [Header.mk.injEq, true_and] at hh
  obtain ⟨hlen, rfl⟩ := hh
  obtain ⟨hitem, hr⟩ := List.append_inj heq (by omega)
  rw [heq, hdrop'] at hdrop
  exact ⟨(List.append_inj hdrop hlen).1.symm, hitem, hr⟩

end IsString

/-- The shortest item of a payload of at most 55 bytes. -/
def shortItem : Bytes → Bytes
  | [b] => if b < 0x80 then [b] else [0x81, b]
  | p => UInt8.ofNat (0x80 + p.length) :: p

lemma isString_shortItem {p : Bytes} (hp : p.length ≤ 55) : IsString p (shortItem p) := by
  have hheaded : IsString p ([UInt8.ofNat (0x80 + p.length)] ++ p) :=
    .headed (.short hp (Nat.mod_eq_of_lt (by omega)))
  unfold shortItem
  split
  · split_ifs with hb
    · exact .single hb
    · exact hheaded
  · exact hheaded

/-! ### Items in a row -/

/-- The bytes are the string items of some fields in a row, each for what its field holds. -/
inductive Items (content : Field → Bytes) : List Entry → Bytes → Prop where
  /-- Without fields, there are no bytes. -/
  | nil : Items content [] []
  /-- The item of a field, and those of the fields after it. -/
  | cons {e : Entry} {rest : List Entry} {item b : Bytes} (head : IsString (content e.field) item)
      (tail : Items content rest b) : Items content (e :: rest) (item ++ b)

namespace Items

variable {content content' : Field → Bytes} {es : List Entry} {b b' r r' : Bytes}

/-- Fields that hold little are their shortest items in a row. -/
lemma short (hc : ∀ e ∈ es, (content e.field).length ≤ 55) :
    Items content es (es.flatMap fun e => shortItem (content e.field)) := by
  induction es with
  | nil => exact .nil
  | cons e es ih =>
      exact .cons (isString_shortItem (hc e List.mem_cons_self))
        (ih fun e' he' => hc e' (List.mem_cons_of_mem e he'))

lemma congr (h : Items content es b) (hc : ∀ e ∈ es, content' e.field = content e.field) :
    Items content' es b := by
  induction h with
  | nil => exact .nil
  | @cons e rest item b head tail ih =>
      refine .cons ?_ (ih fun e' he' => hc e' (List.mem_cons_of_mem e he'))
      rwa [hc e List.mem_cons_self]

/-- **The bytes determine what the fields hold** and what follows them. -/
lemma unique (h : Items content es b) (h' : Items content' es b') (heq : b ++ r = b' ++ r') :
    (∀ e ∈ es, content e.field = content' e.field) ∧ b = b' ∧ r = r' := by
  induction h generalizing b' with
  | nil =>
      cases h'
      exact ⟨List.forall_mem_nil _, rfl, heq⟩
  | @cons e rest item b head tail ih =>
      cases h' with
      | @cons _ _ item' b' head' tail' =>
          rw [List.append_assoc, List.append_assoc] at heq
          obtain ⟨hp, rfl, hrest⟩ := head.unique head' heq
          obtain ⟨hc, rfl, hr⟩ := ih tail' hrest
          refine ⟨fun e' he' => ?_, rfl, hr⟩
          rcases List.mem_cons.1 he' with rfl | he'
          · exact hp
          · exact hc e' he'

/-- Each field takes a byte or more. -/
lemma length_le (h : Items content es b) : es.length ≤ b.length := by
  induction h with
  | nil => exact Nat.le_refl 0
  | @cons e rest item b head tail ih =>
      have hitem := head.length_pos
      rw [List.length_cons, List.length_append]
      omega

lemma length_pos (h : Items content es b) (hne : es ≠ []) : 0 < b.length :=
  Nat.lt_of_lt_of_le (List.length_pos_iff.2 hne) h.length_le

end Items

end TxStream
