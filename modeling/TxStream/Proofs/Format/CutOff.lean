import TxStream.Decoder.State
import TxStream.Proofs.Format.Items

/-!
Where the bytes of a transaction are cut off. Bytes that are not a whole transaction leave off in
some part of it: in the outer header, in the first item or what it wraps, or in the item of a field.

* `HasHeader`, `BeginsNonce`, `FirstMissing`: a whole header at the front of the bytes, a first item
  that is the nonce of a legacy transaction, and the first field whose item is not whole;
* `LeavesOff`: the state and the field in which the bytes leave off, by way of `WithinBody` after
  the outer header and `WithinWrapped` after that of the first item;
* `LeavesOff.unique`: the bytes leave off in one place.
-/

namespace TxStream

/-! ### Parts of a transaction -/

/-- A whole header stands at the front of the bytes, or a byte that needs none. -/
inductive HasHeader : Bytes → Prop where
  /-- A byte below `80` is an item of its own. -/
  | single {x : UInt8} {r : Bytes} (h : x.toNat < 0x80) : HasHeader (x :: r)
  /-- A list or a string is announced. -/
  | headed {isList : Bool} {n : Nat} {header r : Bytes} (h : IsHeader isList n header) :
      HasHeader (header ++ r)

/-- The first item is the nonce of a legacy transaction, as far as it is there. -/
inductive BeginsNonce : Bytes → Prop where
  /-- It needs no header. -/
  | single {x : UInt8} {r : Bytes} (h : x.toNat < 0x80) : BeginsNonce (x :: r)
  /-- It is empty. -/
  | empty {header r : Bytes} (h : IsHeader false 0 header) : BeginsNonce (header ++ r)
  /-- The first byte of its payload is there, and does not begin a list. -/
  | headed {n : Nat} {header r : Bytes} {x : UInt8} (h : IsHeader false n header) (hne : n ≠ 0)
      (hx : x.toNat < 0xc0) : BeginsNonce (header ++ x :: r)

/-- The first of some fields whose item is not whole in the bytes. -/
inductive FirstMissing : List Entry → Bytes → Entry → Prop where
  /-- The item at the front is not whole. -/
  | here {e : Entry} {rest : List Entry} {b : Bytes}
      (h : ∀ p item r, b = item ++ r → ¬IsString p item) : FirstMissing (e :: rest) b e
  /-- It is, and the field comes later. -/
  | next {e e' : Entry} {rest : List Entry} {p item b : Bytes} (h : IsString p item)
      (hrest : FirstMissing rest b e') : FirstMissing (e :: rest) (item ++ b) e'

/-- Where bytes leave off that follow the header of a first item with payload. -/
inductive WithinWrapped : Bytes → State → Option Field → Prop where
  /-- There are none. -/
  | wrapper : WithinWrapped [] .wrapper none
  /-- The header of the content list is not whole. -/
  | content {x : UInt8} {r : Bytes} (hx : 0xc0 ≤ x.toNat) (h : ¬HasHeader (x :: r)) :
      WithinWrapped (x :: r) .content none
  /-- It is, and the tag is not there. -/
  | typeTag {n : Nat} {list : Bytes} (hl : IsHeader true n list) : WithinWrapped list .typeTag none
  /-- The tag is there, and a field of its type is not whole. -/
  | typed {n : Nat} {list r : Bytes} {t : TxType} {e : Entry} (hl : IsHeader true n list)
      (ht : t ≠ .legacy) (h : FirstMissing t.layout.tail (t.id :: r) e) :
      WithinWrapped (list ++ t.id :: r) .fields (some e.field)

/-- Where bytes leave off that follow the outer header. -/
inductive WithinBody : Bytes → State → Option Field → Prop where
  /-- The header of the first item is not whole. -/
  | envelope {r : Bytes} (h : ¬HasHeader r) : WithinBody r .envelope none
  /-- The first item is a nonce, and a field of a legacy transaction is not whole. -/
  | legacy {r : Bytes} {e : Entry} (hr : BeginsNonce r)
      (h : FirstMissing TxType.legacy.layout r e) : WithinBody r .fields (some e.field)
  /-- The first item has payload, which may wrap typed content. -/
  | wrapped {n : Nat} {wrapper r : Bytes} {s : State} {f : Option Field}
      (hw : IsHeader false n wrapper) (hne : n ≠ 0) (h : WithinWrapped r s f) :
      WithinBody (wrapper ++ r) s f

/-- Where the bytes of a transaction leave off: in a state, and at a field among the fields. -/
inductive LeavesOff : Bytes → State → Option Field → Prop where
  /-- The outer header is not whole. -/
  | init {b : Bytes} (h : ¬HasHeader b) : LeavesOff b .init none
  /-- It is. -/
  | listed {n : Nat} {outer r : Bytes} {s : State} {f : Option Field} (ho : IsHeader true n outer)
      (h : WithinBody r s f) : LeavesOff (outer ++ r) s f

variable {b c r : Bytes} {e e' : Entry} {rest es : List Entry} {h : Header} {s s' : State}
  {f f' : Option Field}

/-! ### Headers -/

lemma hasHeader_iff : HasHeader b ↔ ∃ h, Header.decode b = .ok h := by
  constructor
  · intro hb
    cases hb with
    | @single x r hx => exact ⟨_, Header.decode_single hx r⟩
    | @headed isList n header r hh => exact ⟨_, Header.decode_of_isHeader hh r⟩
  · rintro ⟨h, hd⟩
    rcases Header.isHeader_of_decode hd with ⟨x, r, rfl, hx, -⟩ | ⟨header, r, rfl, hh, -⟩
    · exact .single hx
    · exact .headed hh

lemma not_hasHeader_of_canDecode (hb : Header.canDecode b = .ok false) : ¬HasHeader b := by
  rw [hasHeader_iff, ← Header.canDecode_eq_true_iff, hb]
  intro h
  cases h

lemma BeginsNonce.hasHeader (hr : BeginsNonce r) : HasHeader r := by
  cases hr with
  | single hx => exact .single hx
  | empty hh => exact .headed hh
  | headed hh => exact .headed hh

/-! ### Fields -/

/-- A whole item at the front begins with a header. -/
lemma FirstMissing.of_not_hasHeader (hb : ¬HasHeader b) : FirstMissing (e :: rest) b e := by
  refine .here fun p item r heq hitem => hb ?_
  subst heq
  cases hitem with
  | single hx => exact .single hx
  | headed hh =>
      rw [List.append_assoc]
      exact .headed hh

/-- After a header, an item is missing if its payload is not whole. -/
lemma FirstMissing.here_of_decode (hd : Header.decode b = .ok h)
    (hlt : (b.drop h.offset).length < h.len) : FirstMissing (e :: rest) b e := by
  refine .here fun p item r heq hitem => ?_
  subst heq
  obtain ⟨n, -, hall⟩ := hitem.decode
  obtain ⟨hdec, hdrop⟩ := hall r
  obtain rfl := Except.ok.inj (hdec.symm.trans hd)
  rw [hdrop, List.length_append] at hlt
  exact absurd hlt (by simp)

/-- And if it is whole, the missing item comes later. -/
lemma FirstMissing.next_of_decode (hd : Header.decode b = .ok h) (hstring : h.isList = false)
    (hle : h.len ≤ (b.drop h.offset).length)
    (hrest : FirstMissing rest ((b.drop h.offset).drop h.len) e') :
    FirstMissing (e :: rest) b e' := by
  obtain ⟨p, item, r, rfl, hitem, hlen, -, hdrop⟩ := IsString.of_decode hd hstring hle
  rw [hdrop, ← hlen, List.drop_left] at hrest
  exact .next hitem hrest

lemma FirstMissing.unique (h : FirstMissing es b e) (h' : FirstMissing es b e') : e = e' := by
  induction h with
  | here hnone =>
      cases h' with
      | here => rfl
      | next hitem => exact absurd hitem (hnone _ _ _ rfl)
  | @next e e₁ rest p item b hitem _ ih =>
      generalize hb : item ++ b = whole at h'
      cases h' with
      | here hnone => exact absurd hitem (hnone _ _ _ hb.symm)
      | next hitem' hrest =>
          obtain ⟨-, -, rfl⟩ := hitem.unique hitem' hb
          exact ih hrest

/-! ### One place -/

/-- The bytes that a first item wraps begin like a list. -/
lemma WithinWrapped.le_lead {x : UInt8} (h : WithinWrapped (x :: r) s f) : 0xc0 ≤ x.toNat := by
  have hlead : ∀ {n : Nat} {list r' : Bytes}, IsHeader true n list → x :: r = list ++ r' →
      0xc0 ≤ x.toNat := by
    intro n list r' hl heq
    obtain ⟨y, rest, rfl, -, hy⟩ := hl.le_lead_iff
    obtain ⟨rfl, -⟩ := List.cons.inj heq
    exact hy.2 rfl
  generalize hb : x :: r = b at h
  cases h with
  | wrapper => cases hb
  | content hx =>
      obtain ⟨rfl, -⟩ := List.cons.inj hb
      exact hx
  | typeTag hl => exact hlead hl (hb.trans (List.append_nil b).symm)
  | typed hl => exact hlead hl hb

/-- What a first item wraps leaves off in one place. -/
lemma WithinWrapped.unique (h : WithinWrapped b s f) (h' : WithinWrapped b s' f') :
    s = s' ∧ f = f' := by
  have hnil : ∀ {n : Nat} {list r : Bytes}, IsHeader true n list → list ++ r ≠ [] := by
    intro n list r hl
    exact List.append_ne_nil_of_left_ne_nil (List.ne_nil_of_length_pos hl.length_pos) r
  have hlist : ∀ {n : Nat} {list : Bytes}, IsHeader true n list → HasHeader list := by
    intro n list hl
    exact List.append_nil list ▸ .headed hl
  -- the places differ in whether there is a byte, a whole list header, and a tag behind it
  generalize hb : b = b' at h'
  cases h with
  | wrapper =>
      cases h' with
      | wrapper => exact ⟨rfl, rfl⟩
      | content => cases hb
      | typeTag hl => exact absurd (hb.trans (List.append_nil b').symm).symm (hnil hl)
      | typed hl => exact absurd hb.symm (hnil hl)
  | content hx hnone =>
      cases h' with
      | wrapper => cases hb
      | content => exact ⟨rfl, rfl⟩
      | typeTag hl => exact absurd (hb ▸ hlist hl) hnone
      | typed hl => exact absurd (hb ▸ .headed hl) hnone
  | typeTag hl =>
      rw [← List.append_nil b] at hb
      cases h' with
      | wrapper => exact absurd hb (hnil hl)
      | content hx hnone => exact absurd (hb ▸ .headed hl) hnone
      | typeTag => exact ⟨rfl, rfl⟩
      | typed hl' => cases (Header.eq_of_isHeader_append hl hl' hb).2
  | @typed n list r t e hl ht hm =>
      cases h' with
      | wrapper => exact absurd hb (hnil hl)
      | content hx hnone => exact absurd (hb ▸ .headed hl) hnone
      | typeTag hl' =>
          rw [← List.append_nil b'] at hb
          cases (Header.eq_of_isHeader_append hl hl' hb).2
      | @typed n' list' r' t' e' hl' ht' hm' =>
          obtain ⟨hid, rfl⟩ := List.cons.inj (Header.eq_of_isHeader_append hl hl' hb).2
          have htag := TxType.ofTag?_eq_some_iff.2 ⟨ht, hid⟩
          obtain rfl := Option.some.inj
            (htag.symm.trans (TxType.ofTag?_eq_some_iff.2 ⟨ht', rfl⟩))
          exact ⟨rfl, congrArg (fun e => some e.field) (hm.unique hm')⟩

/-- A first item that wraps something is no nonce. -/
lemma BeginsNonce.not_wrapped {n : Nat} {wrapper : Bytes} (hw : IsHeader false n wrapper)
    (hne : n ≠ 0) (h : WithinWrapped r s f) : ¬BeginsNonce (wrapper ++ r) := by
  intro hr
  generalize hb : wrapper ++ r = b at hr
  cases hr with
  | single hx =>
      obtain ⟨lead, rest, rfl, hlead, -⟩ := hw.le_lead_iff
      obtain ⟨rfl, -⟩ := List.cons.inj hb
      omega
  | empty hw' =>
      obtain ⟨rfl, -⟩ := Header.eq_of_isHeader_append hw hw' hb
      exact hne (hw.len_unique hw')
  | headed hw' _ hx =>
      obtain ⟨-, rfl⟩ := Header.eq_of_isHeader_append hw hw' hb
      exact absurd h.le_lead (Nat.not_le.2 hx)

/-- What follows the outer header leaves off in one place. -/
lemma WithinBody.unique (h : WithinBody b s f) (h' : WithinBody b s' f') : s = s' ∧ f = f' := by
  generalize hb : b = b' at h'
  cases h with
  | envelope hnone =>
      cases h' with
      | envelope => exact ⟨rfl, rfl⟩
      | legacy hr => exact absurd (hb ▸ hr.hasHeader) hnone
      | wrapped hw => exact absurd (hb ▸ .headed hw) hnone
  | legacy hr hm =>
      cases h' with
      | envelope hnone => exact absurd (hb ▸ hr.hasHeader) hnone
      | legacy hr' hm' =>
          subst hb
          exact ⟨rfl, congrArg (fun e => some e.field) (hm.unique hm')⟩
      | wrapped hw hne hc => exact absurd (hb ▸ hr) (BeginsNonce.not_wrapped hw hne hc)
  | wrapped hw hne hc =>
      cases h' with
      | envelope hnone => exact absurd (hb ▸ .headed hw) hnone
      | legacy hr => exact absurd (hb ▸ hr) (BeginsNonce.not_wrapped hw hne hc)
      | wrapped hw' _ hc' =>
          obtain ⟨-, rfl⟩ := Header.eq_of_isHeader_append hw hw' hb
          exact hc.unique hc'

/-- **The bytes leave off in one place.** -/
theorem LeavesOff.unique (h : LeavesOff b s f) (h' : LeavesOff b s' f') : s = s' ∧ f = f' := by
  generalize hb : b = b' at h'
  cases h with
  | init hnone =>
      cases h' with
      | init => exact ⟨rfl, rfl⟩
      | listed ho => exact absurd (hb ▸ .headed ho) hnone
  | listed ho hbody =>
      cases h' with
      | init hnone => exact absurd (hb ▸ .headed ho) hnone
      | listed ho' hbody' =>
          obtain ⟨-, rfl⟩ := Header.eq_of_isHeader_append ho ho' hb
          exact hbody.unique hbody'

end TxStream
