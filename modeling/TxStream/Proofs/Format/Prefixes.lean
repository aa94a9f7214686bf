import TxStream.Proofs.Decoder.Declared
import TxStream.Proofs.Decoder.Protocol
import TxStream.Proofs.Format.Grammar

/-!
Verdicts on the front of an input. What is decided stays decided, whatever follows, and no
transaction is the front of another one, except that a legacy transaction may end before its chain.

* `Whole`, `Spells`: a transaction without any bytes after its last item;
* `Whole.eq_nil_of_append`: no more bytes make another transaction of it, unless it ended early;
* `deserialize_append_of_error`, `deserialize_append_of_ok`: failures and transactions with all of
  their fields are final;
* `prefix_verdicts`: moreover, what is cut off is incomplete, with one exception.
-/

namespace TxStream

/-- What stands after the outer header of a transaction of a type, with no bytes after its last
item. -/
inductive Whole (content : Field → Bytes) : TxType → List Entry → Bytes → Prop where
  /-- A legacy transaction may end with its data. -/
  | early {b : Bytes} (hplain : PlainNonce (content .nonce))
      (hb : Items content TxType.legacy.items b) : Whole content .legacy TxType.legacy.items b
  /-- Otherwise its chain and two more items follow. -/
  | legacy {b d : Bytes} (hplain : PlainNonce (content .nonce))
      (hb : Items content TxType.legacy.items b) (hd : Items content TxType.closing d) :
      Whole content .legacy TxType.legacy.layout (b ++ d)
  /-- They follow the wrapped content of a typed transaction as well. -/
  | typed {t : TxType} {wrapper c d : Bytes} (hc : TypedContent content t c)
      (hw : IsHeader false c.length wrapper) (hd : Items content TxType.closing d) :
      Whole content t t.layout (wrapper ++ (c ++ d))

/-- The bytes are a transaction of a type, from its outer header to the last of its fields
`there`. -/
def Spells (raw : Bytes) (t : TxType) (there : List Entry) : Prop :=
  ∃ n header body content, raw = header ++ body ∧ IsHeader true n header ∧
    Whole content t there body

variable {content content' : Field → Bytes} {t t' : TxType} {there there' : List Entry}
  {tx : Transaction} {b c d r w wrapper body p s : Bytes}

/-! ### Whole transactions and what follows them -/

/-- A legacy transaction may end early. With all of its fields, a transaction may be followed by
anything. -/
lemma Body.exists_whole (h : Body content t there body) :
    t = .legacy ∧ there = TxType.legacy.items ∧ Whole content t there body ∨
      ∃ w r, there = t.layout ∧ body = w ++ r ∧ Whole content t t.layout w := by
  cases h with
  | early hplain hb => exact .inl ⟨rfl, rfl, .early hplain hb⟩
  | @legacy b d r hplain hb hd =>
      exact .inr ⟨b ++ d, r, rfl, (List.append_assoc ..).symm, .legacy hplain hb hd⟩
  | @typed _ wrapper c d r hc hw hd =>
      refine .inr ⟨wrapper ++ (c ++ d), r, rfl, ?_, .typed hc hw hd⟩
      simp only [List.append_assoc]

lemma Whole.body_append (h : Whole content t t.layout w) (r : Bytes) :
    Body content t t.layout (w ++ r) := by
  generalize hthere : t.layout = there at h
  cases h with
  | early => exact absurd hthere (by decide)
  | legacy hplain hb hd =>
      rw [List.append_assoc]
      exact .legacy hplain hb hd
  | typed hc hw hd =>
      rw [List.append_assoc, List.append_assoc]
      exact .typed hc hw hd

lemma Whole.items_of_early (h : Whole content .legacy TxType.legacy.items b) :
    PlainNonce (content .nonce) ∧ Items content TxType.legacy.items b := by
  generalize hitems : TxType.legacy.items = items at h
  cases h with
  | early hplain hb => exact ⟨hplain, hb⟩
  | legacy => exact absurd hitems (by decide)
  | typed hc => exact absurd rfl hc.ne_legacy

/-- A wrapper is no nonce that a legacy transaction may have. -/
lemma not_wrapped_of_plain (hplain : PlainNonce (content .nonce))
    (hb : Items content TxType.legacy.items b) (hc : TypedContent content' t c)
    (hw : IsHeader false c.length wrapper) : b ++ r ≠ wrapper ++ (c ++ d) := by
  intro heq
  rw [← List.append_assoc] at heq
  have hnonce := Decoder.nonce_eq (.headed hw) hb heq.symm
  obtain ⟨x, c', rfl, hx⟩ := hc.exists_lead
  exact absurd (hplain x (by rw [hnonce]; rfl)) (Nat.not_lt.2 hx)

/-- No items are the front of others of the same fields. -/
lemma Items.eq_nil_of_append {es : List Entry} (h : Items content es b)
    (h' : Items content' es (b ++ s)) : s = [] :=
  (h.unique h' (List.append_nil (b ++ s)).symm).2.2

/-- **No transaction is the front of another one**, unless it ended early. -/
lemma Whole.eq_nil_of_append (h : Whole content t t.layout w)
    (h' : Whole content' t' there' (w ++ s)) : s = [] ∧ there' = t'.layout := by
  generalize hthere : t.layout = there at h
  generalize hwhole : w ++ s = whole at h'
  cases h with
  | early => exact absurd hthere (by decide)
  | @legacy b d hplain hb hd =>
      rw [List.append_assoc] at hwhole
      cases h' with
      | early hplain' hb' =>
          obtain ⟨rfl, -⟩ := List.append_eq_nil_iff.1 (hb.eq_nil_of_append (hwhole ▸ hb'))
          exact absurd (hd.length_pos (by decide)) (Nat.lt_irrefl 0)
      | legacy hplain' hb' hd' =>
          obtain ⟨-, -, rfl⟩ := hb.unique hb' hwhole
          exact ⟨hd.eq_nil_of_append hd', rfl⟩
      | typed hc hw hd' => exact absurd hwhole (not_wrapped_of_plain hplain hb hc hw)
  | @typed _ wrapper c d hc hw hd =>
      simp only [List.append_assoc] at hwhole
      cases h' with
      | early hplain' hb' =>
          rw [← List.append_nil whole] at hwhole
          exact absurd hwhole.symm (not_wrapped_of_plain hplain' hb' hc hw)
      | legacy hplain' hb' hd' => exact absurd hwhole.symm (not_wrapped_of_plain hplain' hb' hc hw)
      | @typed _ wrapper' c' d' hc' hw' hd' =>
          obtain ⟨rfl, hrest⟩ := Header.eq_of_isHeader_append hw hw' hwhole
          obtain ⟨-, rfl⟩ := List.append_inj hrest (hw.len_unique hw')
          exact ⟨hd.eq_nil_of_append hd', rfl⟩

/-! ### Final verdicts -/

/-- The only failure of a transaction whose chunk was taken well is to be incomplete. -/
lemma eq_incomplete_of_finish {u : Update} (hu : u.Faithful) {pr : Progress} {e : DecodeError}
    (hr : u.result = .ok pr) (h : u.decoder.finish = .error e) : e = .incomplete := by
  cases pr with
  | needsMoreInput =>
      have hc : u.decoder.state ≠ .complete := fun hs => by
        cases hr.symm.trans (hu.complete_iff.2 hs)
      have hf : u.decoder.state ≠ .error := fun hs => by
        obtain ⟨e', he⟩ := hu.failed_iff.2 hs
        cases hr.symm.trans he
      exact Except.error.inj (h.symm.trans (hu.otherwise hc hf).2.2)
  | complete =>
      obtain ⟨tx, htx⟩ := hu.shown_iff.1 hr
      cases h.symm.trans ((hu.finish_iff tx).1 htx)

/-- A failure for another cause than missing input is that of the chunk. -/
lemma deserialize_eq_error_iff {raw : Bytes} {e : DecodeError}
    (hlen : raw.length ≤ Decoder.maxLength) (he : e ≠ .incomplete) :
    deserialize raw = .error e ↔
      (Decoder.update ⟨.init, {}, raw.length, {}⟩ raw).result = .error e := by
  have hnew := Decoder.create_eq hlen
  have hfaithful := Decoder.faithful_update (.inl (Decoder.waiting_create hnew)) raw
  simp only [deserialize, hnew]
  rcases hr : (Decoder.update ⟨.init, {}, raw.length, {}⟩ raw).result with e' | pr
  · simp
  · refine iff_of_false (fun h => he (eq_incomplete_of_finish hfaithful hr h)) fun h => ?_
    cases h

/-- **A failure is final**, unless the input is only incomplete. -/
theorem deserialize_append_of_error {e : DecodeError} (hlen : (p ++ s).length ≤ Decoder.maxLength)
    (he : e ≠ .incomplete) (h : deserialize p = .error e) : deserialize (p ++ s) = .error e := by
  have hsum : (p ++ s).length = p.length + s.length := List.length_append
  have hle : p.length ≤ Decoder.maxLength := by omega
  rw [deserialize_eq_error_iff hle he] at h
  have ht : Decoder.Takes ⟨.init, {}, p.length, {}⟩ p :=
    (Decoder.waiting_create (Decoder.create_eq hle)).takes (Nat.le_refl _)
  have h' := Decoder.result_update_owing ht (q := (p ++ s).length)
    (hsum ▸ Nat.le_add_right ..) (by simp [h])
  rw [h, Decoder.owing] at h'
  have hw := Decoder.waiting_create (Decoder.create_eq hlen)
  have hseen := congrArg Prod.snd (Decoder.seen_update_append_of_error hw (Nat.le_refl _) h')
  exact (deserialize_eq_error_iff hlen he).2 (Update.seen_eq_error_iff.1 hseen)

lemma exists_body_of_deserialize (h : deserialize p = .ok tx) :
    ∃ n header body content there, p = header ++ body ∧ IsHeader true n header ∧
      Body content tx.type there body ∧ tx.Holds content there ∧
      ∀ e ∈ there, e.kind.Fits (content e.field) := by
  obtain ⟨-, hy⟩ := deserialize_eq_ok_iff.1 h
  obtain ⟨n, header, body, rfl, hheader, hy⟩ := Decoder.yields_init_iff.1 hy
  obtain ⟨content, there, hbody, hholds, hfits⟩ := Decoder.body_of_yields hy
  exact ⟨n, header, body, content, there, rfl, hheader, hbody, hholds, hfits⟩

lemma deserialize_eq_ok_of_body {n : Nat} {header : Bytes}
    (hlen : (header ++ body).length ≤ Decoder.maxLength) (hheader : IsHeader true n header)
    (hbody : Body content tx.type there body) (hholds : tx.Holds content there)
    (hfits : ∀ e ∈ there, e.kind.Fits (content e.field)) :
    deserialize (header ++ body) = .ok tx := by
  obtain ⟨tx', htype, hholds', hy⟩ := Decoder.yields_body hbody hfits
  obtain rfl := hholds.unique hholds' htype.symm
  exact deserialize_eq_ok_iff.2
    ⟨hlen, Decoder.yields_init_iff.2 ⟨n, header, body, rfl, hheader, hy⟩⟩

/-- **A transaction is final** once all of its fields are there. -/
theorem deserialize_append_of_ok (hlen : (p ++ s).length ≤ Decoder.maxLength)
    (h : deserialize p = .ok tx)
    (hthere : tx.type ≠ .legacy ∨ ∃ w r, p = w ++ r ∧ Spells w .legacy TxType.legacy.layout) :
    deserialize (p ++ s) = .ok tx := by
  obtain ⟨n, header, body, content, there, rfl, hheader, hbody, hholds, hfits⟩ :=
    exists_body_of_deserialize h
  rw [List.append_assoc] at hlen ⊢
  have hbody' : Body content tx.type there (body ++ s) := by
    rcases hbody.exists_whole with ⟨htype, rfl, hwhole⟩ | ⟨w, r, rfl, rfl, hwhole⟩
    · -- an early end is not one with all fields
      obtain ⟨w, r, heq, n', header', body', content', rfl, hheader', hw⟩ :=
        hthere.resolve_left (not_not.2 htype)
      rw [List.append_assoc] at heq
      obtain ⟨rfl, rfl⟩ := Header.eq_of_isHeader_append hheader hheader' heq
      exact absurd (htype ▸ (hw.eq_nil_of_append hwhole).2) (by decide)
    · rw [List.append_assoc]
      exact hwhole.body_append (r ++ s)
  exact deserialize_eq_ok_of_body hlen hheader hbody' hholds hfits

/-- The record without its chain is that of the fields before it. -/
lemma Transaction.Holds.before_chain (h : tx.Holds content TxType.legacy.layout) :
    Transaction.Holds content TxType.legacy.items { tx with chainId := .empty } := by
  have hheld : ∀ e, e ∉ TxType.closing →
      held content TxType.legacy.layout e = held content TxType.legacy.items e := by
    intro e he
    simp only [held, TxType.layout_legacy, List.mem_append, he, or_false]
  refine ⟨fun f q hq => ?_, ?_, ?_, ?_⟩
  · by_cases hf : f = .chainId
    · subst hf
      cases hq
      rfl
    · have hq' : tx.quantity? f = some q := by
        cases f <;> first | exact hq | exact absurd rfl hf
      rw [h.quantity f q hq', hheld _ (by cases f <;> first | decide | exact absurd rfl hf)]
  · rw [← hheld _ (by decide)]
    exact h.recipient
  · rw [← hheld _ (by decide)]
    exact h.feeRatio
  · rw [← hheld _ (by decide)]
    exact h.dataPresent

/-- **A legacy transaction that is cut off before its chain** is read as one that names none. -/
lemma deserialize_of_cut (h : deserialize (p ++ s) = .ok tx) (hs : s ≠ [])
    (hcut : Spells p .legacy TxType.legacy.items) :
    tx.type = .legacy ∧ deserialize p = .ok { tx with chainId := .empty } := by
  have hlen := (deserialize_eq_ok_iff.1 h).1
  obtain ⟨n, header, b, content, rfl, hheader, hcut⟩ := hcut
  rw [List.append_assoc] at h hlen
  obtain ⟨n', header', body, content', there, heq, hheader', hbody, hholds, hfits⟩ :=
    exists_body_of_deserialize h
  obtain ⟨rfl, rfl⟩ := Header.eq_of_isHeader_append hheader hheader' heq
  obtain ⟨t, ht⟩ : ∃ t, tx.type = t := ⟨_, rfl⟩
  rw [ht] at hbody
  have hshort : (header ++ b).length ≤ Decoder.maxLength := by
    rw [← List.append_assoc, List.length_append] at hlen
    omega
  obtain ⟨hplain, hb⟩ := hcut.items_of_early
  generalize hwhole : b ++ s = body at hbody
  cases hbody with
  | early hplain' hb' => exact absurd (hb.eq_nil_of_append (hwhole ▸ hb')) hs
  | typed hc hw => exact absurd hwhole (not_wrapped_of_plain hplain hb hc hw)
  | legacy hplain' hb' =>
      obtain ⟨-, rfl, -⟩ := hb.unique hb' hwhole
      have hbody : Body content' tx.type TxType.legacy.items b := ht ▸ .early hplain' hb'
      refine ⟨ht, deserialize_eq_ok_of_body hshort hheader hbody hholds.before_chain ?_⟩
      intro e he
      exact hfits e (by rw [TxType.layout_legacy]; exact List.mem_append_left _ he)

/-- What is accepted at the front of a transaction is that transaction, or ended early. -/
lemma spells_items_of_deserialize {there : List Entry} (hlen : (p ++ s).length ≤ Decoder.maxLength)
    (hwhole : Spells (p ++ s) t there) (hs : s ≠ []) (h : deserialize p = .ok tx) :
    Spells p .legacy TxType.legacy.items := by
  obtain ⟨n, header, body, content, there', rfl, hheader, hbody, -⟩ := exists_body_of_deserialize h
  obtain ⟨n', header', body', content', heq, hheader', hw⟩ := hwhole
  rw [List.append_assoc] at heq
  obtain ⟨rfl, rfl⟩ := Header.eq_of_isHeader_append hheader hheader' heq
  rcases hbody.exists_whole with ⟨htype, rfl, hearly⟩ | ⟨w, r, -, rfl, hfull⟩
  · exact ⟨n, header, body, content, rfl, hheader, htype ▸ hearly⟩
  · rw [List.append_assoc] at hw
    exact absurd (List.append_eq_nil_iff.1 (hfull.eq_nil_of_append hw).1).2 hs

/-- **What is decided stays decided, and what is cut off is incomplete.** A failure of the front of
an input is that of all of it, unless the front is only incomplete, and a transaction with all of
its fields is final. What is cut off from a transaction with no bytes after its last item leaves it
incomplete, with one exception: a legacy transaction that is cut off right after its data is read as
the same transaction without a chain. -/
theorem prefix_verdicts (hlen : (p ++ s).length ≤ Decoder.maxLength) :
    (∀ e, deserialize p = .error e → e ≠ .incomplete → deserialize (p ++ s) = .error e) ∧
      (∀ tx, deserialize p = .ok tx →
        (tx.type ≠ .legacy ∨ ∃ w r, p = w ++ r ∧ Spells w .legacy TxType.legacy.layout) →
        deserialize (p ++ s) = .ok tx) ∧
      ∀ tx there, deserialize (p ++ s) = .ok tx → Spells (p ++ s) tx.type there → s ≠ [] →
        (Spells p .legacy TxType.legacy.items →
          tx.type = .legacy ∧ deserialize p = .ok { tx with chainId := .empty }) ∧
        (¬Spells p .legacy TxType.legacy.items → deserialize p = .error .incomplete) := by
  refine ⟨fun e h he => deserialize_append_of_error hlen he h,
    fun tx h hthere => deserialize_append_of_ok hlen h hthere,
    fun tx there h hwhole hs => ⟨deserialize_of_cut h hs, fun hcut => ?_⟩⟩
  rcases hp : deserialize p with e | tx'
  · by_contra he
    have herror := deserialize_append_of_error hlen (fun heq => he (congrArg Except.error heq)) hp
    cases h.symm.trans herror
  · exact absurd (spells_items_of_deserialize hlen hwhole hs hp) hcut

/-- A legacy transaction that is cut off within its chain is incomplete, and one that is cut off before
it is not. -/
theorem prefix_verdicts_transfer :
    ∃ tx, tx.Holds transferPayloads TxType.legacy.layout ∧
      deserialize ([0xe3] ++ (transferItems ++ [0x82, 0x03, 0xe9, 0x80, 0x80])) = .ok tx ∧
      deserialize ([0xe3] ++ (transferItems ++ [0x82, 0x03])) = .error .incomplete ∧
      deserialize ([0xe3] ++ transferItems) = .ok { tx with chainId := .empty } := by
  have hheader : IsHeader true 35 [0xe3] := .short (by decide) rfl
  have hplain : PlainNonce (transferPayloads .nonce) := by simp [PlainNonce, transferPayloads]
  have hbody := Body.legacy (r := []) hplain items_transferItems items_transferClosing
  obtain ⟨tx, htype, hholds, -⟩ := Decoder.yields_body hbody fits_transferPayloads
  have hok : deserialize ([0xe3] ++ (transferItems ++ [0x82, 0x03, 0xe9, 0x80, 0x80])) = .ok tx :=
    deserialize_eq_ok_of_body (by decide) hheader (by rw [htype]; exact hbody) hholds
      fits_transferPayloads
  have hspells : Spells ([0xe3] ++ (transferItems ++ [0x82, 0x03, 0xe9, 0x80, 0x80])) tx.type
      TxType.legacy.layout := by
    rw [htype]
    exact ⟨35, _, _, _, rfl, hheader, .legacy hplain items_transferItems items_transferClosing⟩
  have hcut : Spells ([0xe3] ++ transferItems) .legacy TxType.legacy.items :=
    ⟨35, _, _, _, rfl, hheader, .early hplain items_transferItems⟩
  have hmore : ¬Spells ([0xe3] ++ (transferItems ++ [0x82, 0x03])) .legacy TxType.legacy.items := by
    rintro ⟨n, header, b, content, heq, hheader', hshort⟩
    obtain ⟨-, hitems⟩ := Header.eq_of_isHeader_append hheader hheader' heq
    rw [← hitems] at hshort
    exact absurd (items_transferItems.eq_nil_of_append hshort.items_of_early.2) (by decide)
  have hafter := (prefix_verdicts (p := [0xe3] ++ transferItems)
    (s := [0x82, 0x03, 0xe9, 0x80, 0x80]) (by decide)).2.2 tx _ hok hspells (by decide)
  have hwithin := (prefix_verdicts (p := [0xe3] ++ (transferItems ++ [0x82, 0x03]))
    (s := [0xe9, 0x80, 0x80]) (by decide)).2.2 tx _ hok hspells (by decide)
  exact ⟨tx, hholds, hok, hwithin.2 hmore, (hafter.1 hcut).2⟩

end TxStream
