import TxStream.Proofs.Decoder.Gather
import TxStream.Proofs.Format.Prefixes

/-!
Legacy transactions without a chain. Such a transaction is complete after its data exactly if no
more input was declared. If more was, the decoder waits for the chain, and no input completes the
transaction but the chain and the two items after it.

* `deserialize_of_complete`: a chunk that completes a transaction spells it, however much more was
  declared;
* `rest_of_legacy`: what may follow the data of a legacy transaction;
* `update_waits_of_lt`: after the data, the decoder waits for the chain if more was declared;
* `legacy_ends_early`: whatever chunks the input comes in.
-/

namespace TxStream

variable {content : Field → Bytes} {tx : Transaction} {n len : Nat} {header b p s : Bytes}

/-! ### Complete transactions -/

/-- Bytes that encode a transaction complete it, if no more were declared. -/
lemma update_of_deserialize (h : deserialize p = .ok tx) :
    (Decoder.update ⟨.init, {}, p.length, {}⟩ p).result = .ok .complete ∧
      (Decoder.update ⟨.init, {}, p.length, {}⟩ p).decoder.tx = tx := by
  have hlen := (deserialize_eq_ok_iff.1 h).1
  have hnew := Decoder.create_eq hlen
  have hu := Decoder.faithful_update (.inl (Decoder.waiting_create hnew)) p
  simp only [deserialize, hnew] at h
  rcases hr : (Decoder.update ⟨.init, {}, p.length, {}⟩ p).result with e | pr
  · rw [hr] at h
    cases h
  · rw [hr] at h
    obtain ⟨hphase, htx⟩ := Decoder.finish_eq_ok_iff.1 h
    exact ⟨hr ▸ hu.complete_iff.2 (congrArg Phase.state hphase), htx⟩

/-- **A chunk that completes a transaction spells it**, however much more was declared. -/
theorem deserialize_of_complete (hle : p.length ≤ len) (hlen : len ≤ Decoder.maxLength)
    (h : (Decoder.update ⟨.init, {}, len, {}⟩ p).result = .ok .complete) :
    deserialize p = .ok (Decoder.update ⟨.init, {}, len, {}⟩ p).decoder.tx := by
  have hnew := Decoder.create_eq (Nat.le_trans hle hlen)
  have hw := Decoder.waiting_create hnew
  have ht := hw.takes (Nat.le_refl p.length)
  have hdone : (Decoder.update ⟨.init, {}, p.length, {}⟩ p).result = .ok .complete ∧
      (Decoder.update ⟨.init, {}, p.length, {}⟩ p).decoder.tx
        = (Decoder.update ⟨.init, {}, len, {}⟩ p).decoder.tx := by
    rcases Nat.eq_or_lt_of_le hle with rfl | hlt
    · exact ⟨h, rfl⟩
    have hexact : (Decoder.update ⟨.init, {}, p.length, {}⟩ p).result = .ok .complete := by
      by_contra hnot
      exact hnot ((Decoder.result_update_owing ht hle hnot).symm.trans h)
    rcases Decoder.update_owing_of_complete hw.sound ht hlt hexact with ⟨-, htx⟩ | ⟨hmore, -⟩
    · exact ⟨hexact, htx.symm⟩
    · cases hmore.symm.trans h
  have hphase := (Decoder.phase_update _ p).1 hdone.1
  simp only [deserialize, hnew, hdone.1]
  exact Decoder.finish_eq_ok_iff.2 ⟨hphase, hdone.2⟩

/-- A transaction that is shown after some chunks is the one that their bytes encode. -/
lemma deserialize_of_transaction? {cs : List Bytes} (hle : cs.flatten.length ≤ len)
    (hlen : len ≤ Decoder.maxLength)
    (h : (Decoder.after ⟨.init, {}, len, {}⟩ cs).transaction? = some tx) :
    (Decoder.update ⟨.init, {}, len, {}⟩ cs.flatten).result = .ok .complete ∧
      deserialize cs.flatten = .ok tx := by
  have hw := Decoder.waiting_create (Decoder.create_eq hlen)
  obtain ⟨-, -, htx, -⟩ := Decoder.after_gather hw hle
  obtain ⟨hstate, rfl⟩ := Decoder.transaction?_eq_some_iff.1 (htx.symm.trans h)
  have hdone := (Decoder.result_eq_ok_iff (.inl hw) cs.flatten).1.2 hstate
  exact ⟨hdone, deserialize_of_complete hle hlen hdone⟩

lemma exists_body_of_typed (h : deserialize p = .ok tx) (ht : tx.type ≠ .legacy) :
    ∃ n header body content, p = header ++ body ∧ IsHeader true n header ∧
      Body content tx.type tx.type.layout body := by
  obtain ⟨n, header, body, content, there, rfl, hheader, hbody, -⟩ := exists_body_of_deserialize h
  rcases hbody.exists_whole with ⟨hlegacy, -⟩ | ⟨w, r, rfl, -, -⟩
  · exact absurd hlegacy ht
  · exact ⟨n, header, body, content, rfl, hheader, hbody⟩

/-! ### After the data -/

/-- **What may follow the data of a legacy transaction** is nothing, or its chain and the two items
after it. -/
lemma rest_of_legacy (hheader : IsHeader true n header) (hb : Items content TxType.legacy.items b)
    (hplain : PlainNonce (content .nonce)) (h : deserialize (header ++ (b ++ s)) = .ok tx) :
    tx.type = .legacy ∧ (s = [] ∧ tx.Holds content TxType.legacy.items ∨
      ∃ content' tail r, s = tail ++ r ∧ Items content' TxType.legacy.items b ∧
        Items content' TxType.closing tail ∧
        (∀ e ∈ TxType.legacy.layout, e.kind.Fits (content' e.field)) ∧
        tx.Holds content' TxType.legacy.layout) := by
  obtain ⟨n', header', body, content', there, heq, hheader', hbody, hholds, hfits⟩ :=
    exists_body_of_deserialize h
  obtain ⟨rfl, rfl⟩ := Header.eq_of_isHeader_append hheader hheader' heq
  obtain ⟨t, ht⟩ : ∃ t, tx.type = t := ⟨_, rfl⟩
  rw [ht] at hbody
  generalize hwhole : b ++ s = body at hbody
  cases hbody with
  | early hplain' hb' =>
      rw [← List.append_nil body] at hwhole
      obtain ⟨hcontent, -, rfl⟩ := hb.unique hb' hwhole
      exact ⟨ht, .inl ⟨rfl, hholds.congr hcontent⟩⟩
  | @legacy _ d r hplain' hb' hd' =>
      obtain ⟨-, rfl, rfl⟩ := hb.unique hb' hwhole
      exact ⟨ht, .inr ⟨content', d, r, rfl, hb', hd', hfits, hholds⟩⟩
  | typed hc hw => exact absurd hwhole (not_wrapped_of_plain hplain hb hc hw)

/-- The record of fields without a chain names none. -/
lemma chainId_of_holds (h : tx.Holds content TxType.legacy.items) : tx.chainId = .empty :=
  Quantity.ext_bytes (h.quantity .chainId tx.chainId rfl)

/-- A legacy transaction that ends with its data is read as such. -/
lemma exists_deserialize_early (hheader : IsHeader true n header)
    (hb : Items content TxType.legacy.items b) (hplain : PlainNonce (content .nonce))
    (hfits : ∀ e ∈ TxType.legacy.items, e.kind.Fits (content e.field))
    (hlen : (header ++ b).length ≤ Decoder.maxLength) :
    ∃ tx, deserialize (header ++ b) = .ok tx ∧ tx.type = .legacy ∧
      tx.Holds content TxType.legacy.items := by
  obtain ⟨tx, htype, hholds, -⟩ := Decoder.yields_body (.early hplain hb) hfits
  exact ⟨tx, deserialize_eq_ok_of_body hlen hheader (htype ▸ .early hplain hb) hholds hfits, htype,
    hholds⟩

/-- **After the data the decoder waits for the chain** if more input was declared. -/
lemma update_waits_of_lt (hheader : IsHeader true n header)
    (hb : Items content TxType.legacy.items b) (hplain : PlainNonce (content .nonce))
    (hfits : ∀ e ∈ TxType.legacy.items, e.kind.Fits (content e.field))
    (hlt : (header ++ b).length < len) (hlen : len ≤ Decoder.maxLength) :
    (Decoder.update ⟨.init, {}, len, {}⟩ (header ++ b)).result = .ok .needsMoreInput ∧
      (Decoder.update ⟨.init, {}, len, {}⟩ (header ++ b)).decoder.field? = some .chainId := by
  have hle : (header ++ b).length ≤ Decoder.maxLength := by omega
  obtain ⟨tx, hok, -⟩ := exists_deserialize_early hheader hb hplain hfits hle
  have hw := Decoder.waiting_create (Decoder.create_eq hle)
  rcases Decoder.update_owing_of_complete hw.sound (hw.takes (Nat.le_refl _)) hlt
      (update_of_deserialize hok).1 with ⟨hdone, -⟩ | hmore
  · -- a complete transaction could be followed by one more byte, which is no chain
    have hroom : (header ++ b ++ [0]).length ≤ len := by
      rw [List.length_append, List.length_singleton]
      exact hlt
    have hw' := Decoder.waiting_create (Decoder.create_eq hlen)
    have hseen := congrArg Prod.snd (Decoder.seen_update_append_of_complete hw' hroom hdone)
    have hdone' := (Update.seen_eq_ok_iff.1 hseen).1
    have hok' := deserialize_of_complete hroom hlen hdone'
    rw [List.append_assoc] at hok'
    obtain ⟨-, ⟨h, -⟩ | ⟨content', tail, r, h, -, htail, -⟩⟩ :=
      rest_of_legacy hheader hb hplain hok'
    · cases h
    · have hshort := congrArg List.length h
      have hlong : 3 ≤ tail.length := htail.length_le
      rw [List.length_append, List.length_singleton] at hshort
      omega
  · exact hmore

/-- **A legacy transaction ends without a chain exactly where the declared input ends.** Let the
input begin with a list header and the items of a legacy transaction before its chain, each of which
fits, and let no less be declared. When all of these bytes are delivered, in whatever chunks, the
decoder is complete if no more was declared, with a transaction that names no chain. Otherwise it
waits for the chain and for the rest of the input. Then no row of chunks completes the transaction
but with the chain and the two items after it, whole and fitting. And a typed transaction is
complete with all of its items only. -/
theorem legacy_ends_early (hheader : IsHeader true n header)
    (hb : Items content TxType.legacy.items b) (hplain : PlainNonce (content .nonce))
    (hfits : ∀ e ∈ TxType.legacy.items, e.kind.Fits (content e.field))
    (hle : (header ++ b).length ≤ len) (hlen : len ≤ Decoder.maxLength) :
    ∃ d, Decoder.create len = .ok d ∧
      (∀ cs chunk u, (cs ++ [chunk]).flatten = header ++ b → (d.after cs).update chunk = u →
        (len = (header ++ b).length → u.result = .ok .complete ∧
          ∃ tx, u.decoder.transaction? = some tx ∧ tx.type = .legacy ∧ tx.chainId = .empty ∧
            tx.Holds content TxType.legacy.items) ∧
        (len ≠ (header ++ b).length → u.result = .ok .needsMoreInput ∧ u.decoder.state = .fields ∧
          u.decoder.field? = some .chainId ∧ u.decoder.pending = len - (header ++ b).length)) ∧
      (len ≠ (header ++ b).length → ∀ cs s, cs.flatten = header ++ (b ++ s) →
        cs.flatten.length ≤ len → (d.after cs).state = .complete →
        ∃ tx content' tail r, (d.after cs).transaction? = some tx ∧ s = tail ++ r ∧
          Items content' TxType.closing tail ∧
          (∀ e ∈ TxType.legacy.layout, e.kind.Fits (content' e.field)) ∧ tx.type = .legacy ∧
          tx.Holds content' TxType.legacy.layout) ∧
      ∀ cs tx, cs.flatten.length ≤ len → (d.after cs).transaction? = some tx → tx.type ≠ .legacy →
        ∃ m outer body content', cs.flatten = outer ++ body ∧ IsHeader true m outer ∧
          Body content' tx.type tx.type.layout body := by
  have hnew := Decoder.create_eq hlen
  have hw := Decoder.waiting_create hnew
  refine ⟨_, hnew, fun cs chunk u hcs hu => ?_, fun hne cs s hcs hroom hdone => ?_,
    fun cs tx hroom htx => exists_body_of_typed (deserialize_of_transaction? hroom hlen htx).2⟩
  · obtain ⟨hresult, hstate, hfield, htx, hpending⟩ := Decoder.update_gather hw (hcs ▸ hle) hu
    rw [hcs] at hresult hstate hfield htx hpending
    refine ⟨fun heq => ?_, fun hne => ?_⟩
    · subst heq
      obtain ⟨tx, hok, htype, hholds⟩ := exists_deserialize_early hheader hb hplain hfits hlen
      obtain ⟨hdone, hrecord⟩ := update_of_deserialize hok
      have hc := (Decoder.result_eq_ok_iff (.inl hw) _).1.1 hdone
      exact ⟨(hresult .complete).2 hdone, tx,
        htx.trans (Decoder.transaction?_eq_some_iff.2 ⟨hc, hrecord⟩), htype,
        chainId_of_holds hholds, hholds⟩
    · have hlt : (header ++ b).length < len := by omega
      obtain ⟨hmore, hchain⟩ := update_waits_of_lt hheader hb hplain hfits hlt hlen
      have hr := (hresult .needsMoreInput).2 hmore
      have hf := hfield.trans hchain
      exact ⟨hr, Decoder.state_of_field? hf, hf,
        (hpending hr).trans (Decoder.waiting_of_needsMoreInput hw hle hmore).2⟩
  · obtain ⟨tx, htx⟩ : ∃ tx, (Decoder.after ⟨.init, {}, len, {}⟩ cs).transaction? = some tx :=
      ⟨_, Decoder.transaction?_eq_some_iff.2 ⟨hdone, rfl⟩⟩
    obtain ⟨hone, hok⟩ := deserialize_of_transaction? hroom hlen htx
    rw [hcs] at hok hone
    obtain ⟨htype, ⟨rfl, -⟩ | ⟨content', tail, r, rfl, -, htail, hfits', hholds⟩⟩ :=
      rest_of_legacy hheader hb hplain hok
    · -- right after the data the decoder waits
      rw [List.append_nil] at hone
      have hlt : (header ++ b).length < len := by omega
      cases hone.symm.trans (update_waits_of_lt hheader hb hplain hfits hlt hlen).1
    · exact ⟨tx, content', tail, r, htx, rfl, htail, hfits', htype, hholds⟩

/-- A legacy transaction in two chunks, cut within the price of its gas: it ends after its data, or
waits for a chain if five bytes more are declared. -/
theorem legacy_ends_early_transfer :
    (∃ d, Decoder.create 31 = .ok d ∧
      ∃ tx, ((d.after [[0xe3, 0x80, 0x82, 0x0b]]).update
          (transferItems.drop 3)).decoder.transaction? = some tx ∧
        tx.chainId = .empty ∧ tx.Holds transferPayloads TxType.legacy.items) ∧
      ∃ d, Decoder.create 36 = .ok d ∧
        ((d.after [[0xe3, 0x80, 0x82, 0x0b]]).update
          (transferItems.drop 3)).decoder.field? = some .chainId ∧
        ((d.after [[0xe3, 0x80, 0x82, 0x0b]]).update (transferItems.drop 3)).decoder.pending = 5 := by
  have hheader : IsHeader true 35 [0xe3] := .short (by decide) rfl
  have hplain : PlainNonce (transferPayloads .nonce) := by simp [PlainNonce, transferPayloads]
  have hfits : ∀ e ∈ TxType.legacy.items, e.kind.Fits (transferPayloads e.field) := by decide
  have hcut : ([[0xe3, 0x80, 0x82, 0x0b]] ++ [transferItems.drop 3]).flatten
      = [0xe3] ++ transferItems := by decide
  constructor
  · obtain ⟨d, hd, hall, -⟩ := legacy_ends_early hheader items_transferItems hplain hfits
      (by decide : ([0xe3] ++ transferItems).length ≤ 31) (by decide)
    obtain ⟨-, tx, htx, -, hchain, hholds⟩ := (hall _ _ _ hcut rfl).1 rfl
    exact ⟨d, hd, tx, htx, hchain, hholds⟩
  · obtain ⟨d, hd, hall, -⟩ := legacy_ends_early hheader items_transferItems hplain hfits
      (by decide : ([0xe3] ++ transferItems).length ≤ 36) (by decide)
    obtain ⟨-, -, hfield, hpending⟩ := (hall _ _ _ hcut rfl).2 (by decide)
    exact ⟨d, hd, hfield, hpending⟩

end TxStream
