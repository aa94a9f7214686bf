import TxStream.Proofs.Format.Grammar

/-!
Legacy transactions whose nonce begins like a list. Such a nonce is taken for the content of a typed
transaction, and most of them are refused. One that is typed content to its last byte is not: the
bytes have both shapes of envelope, and the typed one is read.

* `ReadsAsContent`: a payload that is typed content;
* `body_of_readsAsContent`: with such a nonce the bytes of a legacy transaction are also those of a
  typed one, with the gas and the recipient in the place of its chain;
* `legacy_of_deserialize_iff`: a legacy transaction is read as such unless this is so.
-/

namespace TxStream

/-- A payload is the content of some typed transaction, with payloads that fit. -/
def ReadsAsContent (p : Bytes) : Prop :=
  ∃ content t, TypedContent content t p ∧ ∀ e ∈ t.items, e.kind.Fits (content e.field)

/-- What the fields hold if the nonce of a legacy transaction is taken for typed content: the
content holds the items, and what follows the nonce stands in the place of the tail. -/
def displaced (content inner : Field → Bytes) : Field → Bytes
  | .chainId => content .gasPrice
  | .zero1 => content .gasLimit
  | .zero2 => content .recipient
  | f => inner f

variable {content inner : Field → Bytes} {t : TxType} {b d : Bytes}

/-- The items of a type are not displaced. -/
lemma displaced_of_mem_items {e : Entry} (he : e ∈ t.items) :
    displaced content inner e.field = inner e.field := by
  have key : ∀ t : TxType, ∀ e ∈ t.items,
      e.field ≠ .chainId ∧ e.field ≠ .zero1 ∧ e.field ≠ .zero2 := by decide
  obtain ⟨hchain, hzero1, hzero2⟩ := key t e he
  unfold displaced
  split
  · next h => exact absurd h hchain
  · next h => exact absurd h hzero1
  · next h => exact absurd h hzero2
  · rfl

/-- A payload that begins like a list stands after a header. -/
lemma exists_header_of_lead {p item : Bytes} (h : IsString p item)
    (hlead : ∃ x r, p = x :: r ∧ Decoder.listLead ≤ x.toNat) :
    ∃ wrapper, item = wrapper ++ p ∧ IsHeader false p.length wrapper := by
  obtain ⟨x, r, rfl, hx⟩ := hlead
  cases h with
  | single hb => exact absurd hb (Nat.not_lt.2 (Nat.le_trans (by decide) hx))
  | @headed _ header hh => exact ⟨header, rfl, hh⟩

/-- **Two shapes in the same bytes**: a legacy transaction whose nonce is typed content is also a
typed transaction with bytes after it. -/
lemma body_of_readsAsContent (hb : Items content TxType.legacy.items b)
    (hfits : ∀ e ∈ TxType.legacy.layout, e.kind.Fits (content e.field))
    (hc : TypedContent inner t (content .nonce))
    (hinner : ∀ e ∈ t.items, e.kind.Fits (inner e.field)) :
    Body (displaced content inner) t t.layout (b ++ d) ∧
      ∀ e ∈ t.layout, e.kind.Fits (displaced content inner e.field) := by
  constructor
  · rcases hb with _ | ⟨hnonce, _ | ⟨hprice, _ | ⟨hlimit, _ | ⟨hrecipient, rest⟩⟩⟩⟩
    obtain ⟨wrapper, rfl, hw⟩ := exists_header_of_lead hnonce hc.exists_lead
    have htail : Items (displaced content inner) TxType.closing _ :=
      .cons hprice (.cons hlimit (.cons hrecipient .nil))
    have hc' : TypedContent (displaced content inner) t (content .nonce) :=
      hc.congr fun e he => displaced_of_mem_items he
    have hbody := fun r => Body.typed (r := r) hc' hw htail
    simp only [List.append_assoc, List.nil_append] at hbody ⊢
    exact hbody _
  · intro e he
    rw [TxType.layout_typed hc.ne_legacy] at he
    simp only [List.mem_cons, List.mem_append] at he
    rcases he with rfl | rfl | he | he
    · exact Kind.fits_of_unlimited rfl _
    · exact Kind.fits_of_unlimited rfl _
    · rw [displaced_of_mem_items he]
      exact hinner e he
    · rw [Decoder.closing_eq, List.mem_cons] at he
      rcases he with rfl | he
      · exact hfits ⟨.gasPrice, .uint⟩ (by decide)
      · simp only [List.mem_cons, List.not_mem_nil, or_false] at he
        rcases he with rfl | rfl <;> exact Kind.fits_of_unlimited rfl _

/-- **A legacy transaction is read as such unless its nonce is typed content.** For every legacy
encoding with payloads that fit and an outer header of the right length, whatever is accepted is the
legacy record of the payloads, exactly if the nonce is not itself the content of a typed transaction
or the whole is too long to be read. -/
theorem legacy_of_deserialize_iff {header : Bytes}
    (hheader : IsHeader true (b ++ d).length header) (hb : Items content TxType.legacy.items b)
    (hd : Items content TxType.closing d)
    (hfits : ∀ e ∈ TxType.legacy.layout, e.kind.Fits (content e.field)) :
    (∀ tx, deserialize (header ++ (b ++ d)) = .ok tx →
        tx.type = .legacy ∧ tx.Holds content TxType.legacy.layout) ↔
      ¬((header ++ (b ++ d)).length ≤ Decoder.maxLength ∧ ReadsAsContent (content .nonce)) := by
  constructor
  · rintro hall ⟨hlen, inner, t, hc, hinner⟩
    obtain ⟨hbody, hfits'⟩ := body_of_readsAsContent (d := d) hb hfits hc hinner
    obtain ⟨tx, htype, -, hy⟩ := Decoder.yields_body hbody hfits'
    have hinit := Decoder.yields_init_iff.2 ⟨_, header, b ++ d, rfl, hheader, hy⟩
    have hlegacy := (hall tx (deserialize_eq_ok_iff.2 ⟨hlen, hinit⟩)).1
    exact hc.ne_legacy (htype.symm.trans hlegacy)
  · intro hnot tx hok
    obtain ⟨hlen, hy⟩ := deserialize_eq_ok_iff.1 hok
    obtain ⟨n, header', body, heq, hheader', hy⟩ := Decoder.yields_init_iff.1 hy
    obtain ⟨rfl, rfl⟩ := Header.eq_of_isHeader_append hheader hheader' heq
    obtain ⟨inner, there, hbody, hholds, hinner⟩ := Decoder.body_of_yields hy
    obtain ⟨t, ht⟩ : ∃ t, tx.type = t := ⟨_, rfl⟩
    rw [ht] at hbody
    generalize hwhole : b ++ d = body at hbody
    cases hbody with
    | early hplain hb' =>
        -- the tail is not without bytes
        rw [← List.append_nil body] at hwhole
        obtain ⟨-, -, rfl⟩ := hb.unique hb' hwhole
        exact absurd (hd.length_pos (by decide)) (Nat.lt_irrefl 0)
    | legacy hplain hb' hd' =>
        obtain ⟨hitems, -, hrest⟩ := hb.unique hb' hwhole
        rw [← List.append_nil d] at hrest
        obtain ⟨htail, -, -⟩ := hd.unique hd' hrest
        refine ⟨ht, hholds.congr ?_⟩
        intro e he
        rw [TxType.layout_legacy, List.mem_append] at he
        exact he.elim (hitems e) (htail e)
    | @typed t wrapper c d' r hc hw hd' =>
        rw [← List.append_assoc] at hwhole
        have hnonce := Decoder.nonce_eq (.headed hw) hb hwhole.symm
        refine absurd ⟨hlen, inner, t, hnonce ▸ hc, ?_⟩ hnot
        intro e he
        exact hinner e (by rw [TxType.layout_typed hc.ne_legacy]; simp [he])

/-- A legacy transaction with an empty nonce is read as such. -/
theorem legacy_of_deserialize_transfer :
    ∃ tx, deserialize ([0xe3] ++ (transferItems ++ [0x82, 0x03, 0xe9, 0x80, 0x80])) = .ok tx ∧
      tx.type = .legacy ∧ tx.Holds transferPayloads TxType.legacy.layout := by
  have hheader : IsHeader true (transferItems ++ [0x82, 0x03, 0xe9, 0x80, 0x80]).length [0xe3] :=
    .short (by decide) rfl
  have hplain : ¬ReadsAsContent (transferPayloads .nonce) := by
    rintro ⟨inner, t, hc, -⟩
    obtain ⟨x, r, h, -⟩ := hc.exists_lead
    cases h
  have hlegacy := (legacy_of_deserialize_iff hheader items_transferItems items_transferClosing
    fits_transferPayloads).2 fun h => hplain h.2
  obtain ⟨tx, hok⟩ : ∃ tx, deserialize
      ([0xe3] ++ (transferItems ++ [0x82, 0x03, 0xe9, 0x80, 0x80])) = .ok tx := ⟨_, by cbv⟩
  exact ⟨tx, hok, hlegacy tx hok⟩

/-- Payloads of a legacy transaction of which the nonce is the content of a cancellation. -/
def cancelNonce : Field → Bytes
  | .nonce => [0xc5, 0x38, 0x80, 0x80, 0x80, 0x80]
  | .gasPrice => [0x05, 0xd2, 0x1d, 0xba, 0x00]
  | .gasLimit => [0x0f, 0x42, 0x40]
  | .recipient => List.replicate 20 0x35
  | .value => [0x0d, 0xe0, 0xb6, 0xb3, 0xa7, 0x64, 0x00, 0x00]
  | .chainId => [0x03, 0xe9]
  | _ => []

/-- A legacy transaction that is accepted as a cancellation, with the price of its gas for a
chain. -/
theorem cancel_of_deserialize_cancelNonce :
    ∃ header b d, IsHeader true (b ++ d).length header ∧
      Items cancelNonce TxType.legacy.items b ∧ Items cancelNonce TxType.closing d ∧
      (∀ e ∈ TxType.legacy.layout, e.kind.Fits (cancelNonce e.field)) ∧
      ∃ tx, deserialize (header ++ (b ++ d)) = .ok tx ∧ tx.type = .typed .cancel .basic ∧
        tx.chainId.bytes = cancelNonce .gasPrice := by
  have hb : Items cancelNonce TxType.legacy.items _ := Items.short (by decide)
  have hd : Items cancelNonce TxType.closing _ := Items.short (by decide)
  let chain : Quantity := ⟨cancelNonce .gasPrice, by decide⟩
  refine ⟨[0xf5], _, _, .short (by decide) rfl, hb, hd, by decide,
    { type := .typed .cancel .basic, chainId := chain }, ?_, rfl, rfl⟩
  cbv

end TxStream
