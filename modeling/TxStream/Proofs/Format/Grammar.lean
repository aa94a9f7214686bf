import Mathlib.Data.List.Basic
import TxStream.Proofs.Format.Envelope

/-!
The format of transactions, and that `deserialize` accepts what has it and nothing else.

* `TypedContent`: the content list of a typed transaction, with the tag and the items in it;
* `Body`: what stands after the outer header, for either shape of envelope;
* `body_of_deserialize`: what is accepted has the format, and the record is that of its payloads;
* `deserialize_of_body`: what has the format is accepted, and the record is that of its payloads.
-/

namespace TxStream

/-- The bytes are the content list of a typed transaction, which begins with its tag. -/
inductive TypedContent (content : Field → Bytes) : TxType → Bytes → Prop where
  /-- The list holds the tag and the items of the type, and no more. -/
  | list {t : TxType} {header b : Bytes} (ht : t ≠ .legacy)
      (hh : IsHeader true (b.length + 1) header) (hb : Items content t.items b) :
      TypedContent content t (header ++ t.id :: b)

/-- What stands after the outer header of a transaction of a type, whose fields `there` are in the
bytes. -/
inductive Body (content : Field → Bytes) : TxType → List Entry → Bytes → Prop where
  /-- A legacy transaction may end with its data. -/
  | early {b : Bytes} (hplain : PlainNonce (content .nonce))
      (hb : Items content TxType.legacy.items b) : Body content .legacy TxType.legacy.items b
  /-- Otherwise its chain and two more items follow, and then anything. -/
  | legacy {b d r : Bytes} (hplain : PlainNonce (content .nonce))
      (hb : Items content TxType.legacy.items b) (hd : Items content TxType.closing d) :
      Body content .legacy TxType.legacy.layout (b ++ (d ++ r))
  /-- A typed transaction wraps its content in a string item, which the content fills. The chain
  and two more items follow, and then anything. -/
  | typed {t : TxType} {wrapper c d r : Bytes} (hc : TypedContent content t c)
      (hw : IsHeader false c.length wrapper) (hd : Items content TxType.closing d) :
      Body content t t.layout (wrapper ++ (c ++ (d ++ r)))

variable {content : Field → Bytes} {t : TxType} {tx : Transaction} {b c d r : Bytes}

/-! ### Typed content -/

/-- Content begins like a list, and is never empty. -/
lemma TypedContent.exists_lead (h : TypedContent content t c) :
    ∃ x r, c = x :: r ∧ Decoder.listLead ≤ x.toNat := by
  cases h with
  | @list header b ht hh hb =>
      obtain ⟨x, rest, rfl, -, hx⟩ := hh.le_lead_iff
      exact ⟨x, rest ++ t.id :: b, rfl, hx.2 rfl⟩

lemma TypedContent.ne_legacy (h : TypedContent content t c) : t ≠ .legacy := by
  cases h with
  | list ht => exact ht

lemma TypedContent.congr {content' : Field → Bytes} (h : TypedContent content t c)
    (hc : ∀ e ∈ t.items, content' e.field = content e.field) : TypedContent content' t c := by
  cases h with
  | list ht hh hb => exact .list ht hh (hb.congr hc)

/-- What a budget leaves is nothing exactly if all of it is spent. -/
lemma eq_of_spend {m n : Nat} {budget : Option Nat} (h : spend (some m) n = .ok budget)
    (hbudget : budget.getD 0 = 0) : m = n := by
  obtain ⟨hle, rfl⟩ := spend_eq_ok h
  rw [Option.getD_some] at hbudget
  omega

namespace Decoder

/-- **Typed content is read to its end**, and the record is that of its payloads. -/
lemma yields_content (hc : TypedContent content t c) (hd : Items content TxType.closing d)
    (hfits : ∀ e ∈ t.layout, e.kind.Fits (content e.field)) (k : Nat) :
    ∃ tx, tx.type = t ∧ tx.Holds content t.layout ∧
      ∀ r, (fresh (.content ⟨c.length, false, k⟩)).Yields (c ++ (d ++ r)) tx := by
  cases hc with
  | @list header b ht hh hb =>
      have hl := TxType.layout_typed ht
      have hitems : ∀ e ∈ t.items, e.kind.Fits (content e.field) := by
        intro e he
        exact hfits e (by rw [hl]; simp [he])
      have htail : ∀ e ∈ TxType.closing, e.kind.Fits (content e.field) := by
        intro e he
        exact hfits e (by rw [hl]; simp [he])
      have hs : spend (some (b.length + 1 - 1)) b.length = .ok (some 0) := by simp [spend]
      obtain ⟨tx₁, hp₁, hy₁⟩ := yields_items (Partway.typed content ht)
        (fun e he => TxType.kind_of_mem_items he) hb hitems hs
      obtain ⟨tx₂, hp₂, hy₂⟩ := yields_tail hp₁ (rfl : (some 0).getD 0 = 0) hd htail
      have hthere : t.layout = ([⟨.content, .list⟩, ⟨.type, .tag⟩] ++ t.items) ++ TxType.closing := hl
      refine ⟨tx₂, hp₂.type, hthere ▸ hp₂.holds, ?_⟩
      intro r
      rw [List.append_assoc, List.cons_append]
      refine yields_content_iff.2 ⟨⟨b.length + 1, true, header.length⟩,
        Header.decode_of_isHeader hh _, ?_, ?_⟩
      · simp only [List.length_append, List.length_cons]
        omega
      · rw [List.drop_left]
        exact (yields_typeTag_iff rfl).2 ⟨t, _, ht, rfl, Nat.le_add_left .., hy₁ _ _ (hy₂ r)⟩

/-- **What is read as typed content is typed content**, which fills its item. -/
lemma content_of_yields {x : UInt8} {w k : Nat} (hx : listLead ≤ x.toNat)
    (hy : (fresh (.content ⟨w, false, k⟩)).Yields (x :: r) tx) :
    ∃ content c d s, x :: r = c ++ (d ++ s) ∧ c.length = w ∧ TypedContent content tx.type c ∧
      Items content TxType.closing d ∧ tx.Holds content tx.type.layout ∧
      ∀ e ∈ tx.type.layout, e.kind.Fits (content e.field) := by
  obtain ⟨h, hdec, hlen, hy⟩ := yields_content_iff.1 hy
  have hlist := Header.isList_of_decode hdec hx
  obtain ⟨header, r', heq, hh, hoff, hdrop⟩ := Header.exists_isHeader hdec (.inl hlist)
  rw [hlist] at hh
  rw [hdrop] at hy
  obtain ⟨t, r, ht, rfl, hn, hy⟩ := (yields_typeTag_iff hlist).1 hy
  obtain ⟨content, b, r, budget, tx₁, -, rfl, hitems, hfits, hs, hp₁, hy⟩ :=
    items_of_yields (Partway.typed (fun _ => []) ht) (fun e he => TxType.kind_of_mem_items he) hy
  obtain ⟨hbudget, ⟨hlegacy, -⟩ | ⟨content', d, s, hagree, rfl, htail, hfits', hp₂⟩⟩ :=
    tail_of_yields hp₁ hy
  · exact absurd (hp₁.type.symm.trans hlegacy) ht
  obtain rfl : tx.type = t := hp₂.type
  have hthere : tx.type.layout
      = ([⟨.content, .list⟩, ⟨.type, .tag⟩] ++ tx.type.items) ++ TxType.closing :=
    TxType.layout_typed ht
  have hsame : ∀ e ∈ tx.type.items, content' e.field = content e.field := by
    intro e he
    exact hagree e (List.mem_append_right _ he)
  have hb : h.len = b.length + 1 := by
    have := eq_of_spend hs hbudget
    omega
  refine ⟨content', header ++ tx.type.id :: b, d, s, ?_, ?_,
    .list ht (hb ▸ hh) (hitems.congr hsame), htail, hthere ▸ hp₂.holds, ?_⟩
  · rw [heq, List.append_assoc, List.cons_append]
  · rw [hoff, hb] at hlen
    rw [List.length_append, List.length_cons, Nat.add_comm]
    exact hlen
  · intro e he
    rw [hthere, List.mem_append, List.mem_append] at he
    rcases he with (he | he) | he
    · intro n hn
      simp only [List.mem_cons, List.not_mem_nil, or_false] at he
      rcases he with rfl | rfl <;> cases hn
    · rw [hsame e he]
      exact hfits e he
    · exact hfits' e he

/-! ### Legacy transactions -/

lemma nonce_eq {p item : Bytes} (hitem : IsString p item)
    (hb : Items content TxType.legacy.items b) (heq : item ++ r = b ++ d) : content .nonce = p := by
  rcases hb with _ | ⟨head, tail⟩
  rw [List.append_assoc] at heq
  exact (head.unique hitem heq.symm).1

/-- The items of a legacy transaction are read, and then its tail or nothing. -/
lemma yields_legacy (hb : Items content TxType.legacy.items b)
    (hfits : ∀ e ∈ TxType.legacy.items, e.kind.Fits (content e.field)) :
    ∃ tx, Partway content .legacy TxType.legacy.items TxType.closing tx ∧
      ∀ r tx', (before TxType.closing none tx).Yields r tx' →
        (before TxType.legacy.layout none {}).Yields (b ++ r) tx' := by
  rw [TxType.layout_legacy]
  have hp := Partway.new content .legacy
  rw [TxType.layout_legacy] at hp
  exact yields_items hp (fun e he => TxType.kind_of_mem_items he) hb hfits rfl

/-- **What stands after the outer header is read to its end**, and the record is that of its
payloads. -/
lemma yields_body {there : List Entry} {body : Bytes} (hbody : Body content t there body)
    (hfits : ∀ e ∈ there, e.kind.Fits (content e.field)) :
    ∃ tx, tx.type = t ∧ tx.Holds content there ∧ (fresh .envelope).Yields body tx := by
  have hplainEnvelope : ∀ b r tx, Items content TxType.legacy.items b →
      PlainNonce (content .nonce) → (before TxType.legacy.layout none {}).Yields (b ++ r) tx →
        (fresh .envelope).Yields (b ++ r) tx := by
    intro b r tx hb hplain hy
    rcases hb with _ | ⟨head, tail⟩
    rw [List.append_assoc] at hy ⊢
    exact (yields_plain_iff head hplain).2 hy
  cases hbody with
  | early hplain hb =>
      obtain ⟨tx, hp, hy⟩ := yields_legacy hb hfits
      refine ⟨tx, hp.type, hp.holds, ?_⟩
      have hend : (before TxType.closing none tx).Yields [] tx := by
        rw [yields_iff (sound_before hp none), closing_eq, step_chain, if_neg (by simp),
          if_pos ⟨hp.type, rfl⟩]
        rfl
      have h := hplainEnvelope _ _ tx hb hplain (hy _ _ hend)
      rwa [List.append_nil] at h
  | @legacy b d r hplain hb hd =>
      have hl := TxType.layout_legacy
      obtain ⟨tx, hp, hy⟩ := yields_legacy hb fun e he => hfits e (by rw [hl]; simp [he])
      obtain ⟨tx', hp', hy'⟩ := yields_tail hp (rfl : none.getD 0 = 0) hd
        fun e he => hfits e (by rw [hl]; simp [he])
      exact ⟨tx', hp'.type, hl ▸ hp'.holds, hplainEnvelope _ _ tx' hb hplain (hy _ _ (hy' r))⟩
  | @typed t wrapper c d r hc hw hd =>
      obtain ⟨tx, htype, hholds, hy⟩ := yields_content hc hd hfits wrapper.length
      refine ⟨tx, htype, hholds, ?_⟩
      have hy := hy r
      obtain ⟨x, c', rfl, hx⟩ := hc.exists_lead
      exact (yields_wrapped_iff (Nat.succ_ne_zero c'.length) hw hx).2 hy

/-- **What is read after the outer header has the format**, and the record is that of its
payloads. -/
lemma body_of_yields {body : Bytes} (hy : (fresh .envelope).Yields body tx) :
    ∃ content there, Body content tx.type there body ∧ tx.Holds content there ∧
      ∀ e ∈ there, e.kind.Fits (content e.field) := by
  rcases envelope_of_yields hy with ⟨p, item, r, rfl, hitem, hplain, hy⟩ |
      ⟨w, wrapper, x, r, rfl, hw, hh, hx, hy⟩
  · rw [TxType.layout_legacy] at hy
    have hp := Partway.new (fun _ => []) .legacy
    rw [TxType.layout_legacy] at hp
    obtain ⟨content, b, s, budget, tx₁, -, heq, hitems, hfits, -, hp₁, hy⟩ :=
      items_of_yields hp (fun e he => TxType.kind_of_mem_items he) hy
    rw [List.nil_append] at hp₁
    obtain ⟨-, ⟨-, rfl, rfl⟩ | ⟨content', d, s, hagree, rfl, htail, hfits', hp₂⟩⟩ :=
      tail_of_yields hp₁ hy
    · have hnonce := nonce_eq hitem hitems heq
      rw [heq, hp₁.type, List.append_nil]
      exact ⟨content, _, .early (hnonce ▸ hplain) hitems, hp₁.holds, hfits⟩
    · have hitems' := hitems.congr hagree
      have hnonce := nonce_eq hitem hitems' heq
      rw [heq, hp₂.type]
      refine ⟨content', _, .legacy (hnonce ▸ hplain) hitems' htail, ?_, ?_⟩
      · rw [TxType.layout_legacy]
        exact hp₂.holds
      · intro e he
        rw [TxType.layout_legacy, List.mem_append] at he
        rcases he with he | he
        · rw [hagree e he]
          exact hfits e he
        · exact hfits' e he
  · obtain ⟨content, c, d, s, heq, rfl, hc, htail, hholds, hfits⟩ := content_of_yields hx hy
    rw [heq]
    exact ⟨content, _, .typed hc hh htail, hholds, hfits⟩

end Decoder

/-! ### Whole transactions -/

/-- **Soundness of acceptance.** What is accepted is no longer than allowed, begins with a list
header of any length and goes on with one of the two shapes of envelope. The record is that of the
payloads in it, each of which fits its field. -/
theorem body_of_deserialize {raw : Bytes} (h : deserialize raw = .ok tx) :
    raw.length ≤ Decoder.maxLength ∧ ∃ n header body content there, raw = header ++ body ∧
      IsHeader true n header ∧ Body content tx.type there body ∧ tx.Holds content there ∧
      ∀ e ∈ there, e.kind.Fits (content e.field) := by
  obtain ⟨hlen, hy⟩ := deserialize_eq_ok_iff.1 h
  obtain ⟨n, header, body, rfl, hheader, hy⟩ := Decoder.yields_init_iff.1 hy
  obtain ⟨content, there, hbody, hholds, hfits⟩ := Decoder.body_of_yields hy
  exact ⟨hlen, n, header, body, content, there, rfl, hheader, hbody, hholds, hfits⟩

/-- A cancellation with a nonce, a price of gas, a sender and a chain, and a byte after its last
item. The outer list declares no length, and the header of the content is a long one. -/
def cancellation : Bytes :=
  [0xc0, 0x8b, 0xf8, 0x09, 0x38, 0x05, 0x82, 0x0b, 0xa4, 0x80, 0x82, 0xaa, 0xbb, 0x82, 0x03, 0xe9,
    0x80, 0x80, 0xff]

/-- What is read of the cancellation. -/
def cancellationRecord : Transaction where
  type := .typed .cancel .basic
  nonce := ⟨[0x05], by decide⟩
  gasPrice := ⟨[0x0b, 0xa4], by decide⟩
  chainId := ⟨[0x03, 0xe9], by decide⟩

theorem body_of_deserialize_cancel :
    ∃ n header body content there, cancellation = header ++ body ∧ IsHeader true n header ∧
      Body content (.typed .cancel .basic) there body ∧ cancellationRecord.Holds content there ∧
      ∀ e ∈ there, e.kind.Fits (content e.field) := by
  have h : deserialize cancellation = .ok cancellationRecord := by cbv
  obtain ⟨-, n, header, body, content, there, hformat⟩ := body_of_deserialize h
  exact ⟨n, header, body, content, there, hformat⟩

/-- **Completeness of acceptance.** What has the format, with payloads that fit, any form of header
for each item and any list header outside, is accepted if it is not too long. The record is the one
of the payloads. -/
theorem deserialize_of_body {n : Nat} {header body : Bytes} {there : List Entry}
    (hheader : IsHeader true n header) (hbody : Body content t there body)
    (hfits : ∀ e ∈ there, e.kind.Fits (content e.field))
    (hlen : (header ++ body).length ≤ Decoder.maxLength) :
    ∃ tx, deserialize (header ++ body) = .ok tx ∧
      ∀ tx' : Transaction, tx' = tx ↔ tx'.type = t ∧ tx'.Holds content there := by
  obtain ⟨tx, htype, hholds, hy⟩ := Decoder.yields_body hbody hfits
  have hinit := Decoder.yields_init_iff.2 ⟨n, header, body, rfl, hheader, hy⟩
  refine ⟨tx, deserialize_eq_ok_iff.2 ⟨hlen, hinit⟩, ?_⟩
  intro tx'
  constructor
  · rintro rfl
    exact ⟨htype, hholds⟩
  · rintro ⟨htype', hholds'⟩
    exact hholds'.unique hholds (htype'.trans htype.symm)

/-- The payloads of the cancellation. -/
def cancellationPayloads : Field → Bytes
  | .nonce => [0x05]
  | .gasPrice => [0x0b, 0xa4]
  | .sender => [0xaa, 0xbb]
  | .chainId => [0x03, 0xe9]
  | _ => []

theorem deserialize_of_body_cancel :
    ∃ tx, deserialize cancellation = .ok tx ∧ tx.type = .typed .cancel .basic ∧
      tx.Holds cancellationPayloads (TxType.layout (.typed .cancel .basic)) := by
  have hitems : Items cancellationPayloads (TxType.items (.typed .cancel .basic))
      [0x05, 0x82, 0x0b, 0xa4, 0x80, 0x82, 0xaa, 0xbb] := Items.short (by decide)
  have hclosing : Items cancellationPayloads TxType.closing [0x82, 0x03, 0xe9, 0x80, 0x80] :=
    Items.short (by decide)
  have hlist : IsHeader true (bigEndian [0x09]) [0xf8, 0x09] := .long (by decide) (by decide) rfl
  have hc : TypedContent cancellationPayloads (.typed .cancel .basic) ([0xf8, 0x09] ++
      0x38 :: [0x05, 0x82, 0x0b, 0xa4, 0x80, 0x82, 0xaa, 0xbb]) := .list (by decide) hlist hitems
  have hwrapper : IsHeader false 11 [0x8b] := .short (by decide) rfl
  have hbody := Body.typed (r := [0xff]) hc hwrapper hclosing
  have hheader : IsHeader true 0 [0xc0] := .short (by decide) rfl
  obtain ⟨tx, h, hrecord⟩ := deserialize_of_body hheader hbody (by decide) (by decide)
  exact ⟨tx, h, (hrecord tx).1 rfl⟩

/-! ### A legacy transaction -/

/-- The payloads of a legacy transaction that sends a value along with data. -/
def transferPayloads : Field → Bytes
  | .gasPrice => [0x0b, 0xa4]
  | .recipient => List.replicate 20 0x35
  | .value => [0x07]
  | .data => [0xab, 0xcd]
  | .chainId => [0x03, 0xe9]
  | _ => []

/-- Its items before the chain. -/
def transferItems : Bytes :=
  [0x80, 0x82, 0x0b, 0xa4, 0x80, 0x94] ++ List.replicate 20 0x35 ++ [0x07, 0x82, 0xab, 0xcd]

lemma items_transferItems : Items transferPayloads TxType.legacy.items transferItems :=
  Items.short (by decide)

lemma items_transferClosing :
    Items transferPayloads TxType.closing [0x82, 0x03, 0xe9, 0x80, 0x80] :=
  Items.short (by decide)

lemma fits_transferPayloads : ∀ e ∈ TxType.legacy.layout, e.kind.Fits (transferPayloads e.field) := by
  decide

end TxStream
