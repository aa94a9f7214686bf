import TxStream.Proofs.Decoder.Invariant

/-!
The record of a transaction whose fields hold given bytes.

* `TxType.items`, `TxType.closing`: the string items of a type, in the order of the wire. They are
  written out for the format, and the tables of the decoder have just these items
  (`TxType.layout_legacy`, `TxType.layout_typed`);
* `Kind.Fits`: no more bytes than a kind keeps;
* `Transaction.Holds`: the record of what some fields hold, component by component. Fields that
  are not there count as empty;
* `Partway`: a record with the fields read so far and those still to come, which make up the
  layout of its type. `Partway.next` is one field further.
-/

namespace TxStream

/-! ### The items of a type -/

/-- The item that a shared fee brings: the ratio in which it is shared. -/
def FeePayer.items : FeePayer → List Entry
  | .basic => []
  | .feeDelegated => []
  | .partialFeeDelegated => [⟨.ratio, .ratio⟩]

namespace TxType

/-- The string items of a type before its chain. -/
def items : TxType → List Entry
  | .legacy =>
    [⟨.nonce, .uint⟩, ⟨.gasPrice, .uint⟩, ⟨.gasLimit, .uint⟩, ⟨.recipient, .address⟩,
      ⟨.value, .uint⟩, ⟨.data, .data⟩]
  | .typed .valueTransfer p =>
    [⟨.nonce, .uint⟩, ⟨.gasPrice, .uint⟩, ⟨.gasLimit, .uint⟩, ⟨.recipient, .address⟩,
      ⟨.value, .uint⟩, ⟨.sender, .discard⟩] ++ p.items
  | .typed .valueTransferMemo p =>
    [⟨.nonce, .uint⟩, ⟨.gasPrice, .uint⟩, ⟨.gasLimit, .uint⟩, ⟨.recipient, .address⟩,
      ⟨.value, .uint⟩, ⟨.sender, .discard⟩, ⟨.data, .data⟩] ++ p.items
  | .typed .contractDeploy p =>
    [⟨.nonce, .uint⟩, ⟨.gasPrice, .uint⟩, ⟨.gasLimit, .uint⟩, ⟨.recipient, .discard⟩,
      ⟨.value, .uint⟩, ⟨.sender, .discard⟩, ⟨.data, .data⟩, ⟨.humanReadable, .discard⟩] ++ p.items ++
      [⟨.codeFormat, .discard⟩]
  | .typed .contractExecution p =>
    [⟨.nonce, .uint⟩, ⟨.gasPrice, .uint⟩, ⟨.gasLimit, .uint⟩, ⟨.recipient, .address⟩,
      ⟨.value, .uint⟩, ⟨.sender, .discard⟩, ⟨.data, .data⟩] ++ p.items
  | .typed .cancel p =>
    [⟨.nonce, .uint⟩, ⟨.gasPrice, .uint⟩, ⟨.gasLimit, .uint⟩, ⟨.sender, .discard⟩] ++ p.items

/-- The items that close a transaction of any type: the chain and two stand-ins for a signature. -/
def closing : List Entry := [⟨.chainId, .uint⟩, ⟨.zero1, .discard⟩, ⟨.zero2, .discard⟩]

/-- **The decoder has the items of a legacy transaction in its table.** -/
theorem layout_legacy : legacy.layout = legacy.items ++ closing := by decide

/-- **The decoder has the items of each typed transaction in its table**, behind the content list
and the tag. -/
theorem layout_typed {t : TxType} (ht : t ≠ .legacy) :
    t.layout = ⟨.content, .list⟩ :: ⟨.type, .tag⟩ :: (t.items ++ closing) := by
  revert t
  decide

/-- The tag of a type is below `80`, so that it is an item of its own. -/
lemma id_lt : ∀ t : TxType, t.id.toNat < 0x80 := by decide

/-- The chain is no item before itself, and nothing before it is entered or known beforehand. -/
lemma kind_of_mem_items {t : TxType} {e : Entry} (h : e ∈ t.items) :
    e.field ≠ .chainId ∧ e.kind ≠ .list ∧ e.kind ≠ .tag := by
  revert t e
  decide

/-- In a layout, the kinds other than numbers stand for one field each, and numbers are kept. -/
lemma field_of_mem_layout {t : TxType} {e : Entry} (h : e ∈ t.layout) :
    (e.kind = .address → e = ⟨.recipient, .address⟩) ∧ (e.kind = .ratio → e = ⟨.ratio, .ratio⟩) ∧
      (e.kind = .data → e = ⟨.data, .data⟩) := by
  revert t e
  decide

end TxType

/-! ### Payloads that fit -/

/-- A kind keeps a payload whole. -/
def Kind.Fits (k : Kind) (p : Bytes) : Prop := ∀ n, k.capacity? = some n → p.length ≤ n

lemma Kind.fits_of_unlimited {k : Kind} (hk : k.capacity? = none) (p : Bytes) : k.Fits p := by
  intro n hn
  cases hk.symm.trans hn

instance (k : Kind) (p : Bytes) : Decidable (k.Fits p) :=
  decidable_of_iff (k.capacity?.all (p.length ≤ ·) = true) (by simp [Kind.Fits, Option.all_eq_true])

/-- A header fits where a string is read if it announces a string, no longer than the kind can
hold and of one byte for a tag. -/
lemma Kind.check_eq_ok_iff {k : Kind} {h : Header} (hk : k ≠ .list) :
    k.check h = .ok () ↔
      h.isList = false ∧ (k = .tag → h.len = 1) ∧ ∀ n, k.capacity? = some n → h.len ≤ n := by
  rw [check, if_neg hk]
  cases h.isList with
  | true => simp
  | false =>
      rw [if_neg Bool.false_ne_true, checkLength]
      by_cases ht : k = .tag ∧ h.len ≠ 1
      · rw [if_pos ht]
        simp [ht]
      · rw [if_neg ht]
        have ht' : k = .tag → h.len = 1 := fun hk => not_not.1 fun hn => ht ⟨hk, hn⟩
        rcases k.capacity? with _ | n
        · simpa using ht'
        · by_cases hn : n < h.len
          · simp [hn]
          · simpa [hn, Nat.not_lt.1 hn] using ht'

/-! ### Records -/

/-- What a field holds if it is there. -/
def held (content : Field → Bytes) (there : List Entry) (e : Entry) : Bytes :=
  if e ∈ there then content e.field else []

/-- The record of what some fields hold. -/
structure Transaction.Holds (content : Field → Bytes) (there : List Entry) (tx : Transaction) :
    Prop where
  quantity : ∀ f q, tx.quantity? f = some q → q.bytes = held content there ⟨f, .uint⟩
  recipient : tx.recipient.bytes = held content there ⟨.recipient, .address⟩ ++
    List.replicate (20 - (held content there ⟨.recipient, .address⟩).length) 0
  feeRatio : tx.feeRatio = (held content there ⟨.ratio, .ratio⟩).headD 0
  dataPresent : tx.dataPresent = true ↔
    held content there ⟨.data, .data⟩ ≠ [] ∧ held content there ⟨.data, .data⟩ ≠ [0]

section Held

variable {content content' : Field → Bytes} {there : List Entry} {e e' : Entry} {tx : Transaction}

lemma held_congr (hc : ∀ e ∈ there, content' e.field = content e.field) (e : Entry) :
    held content' there e = held content there e := by
  rw [held, held]
  split_ifs with h
  · exact hc e h
  · rfl

lemma held_concat_self : held content (there ++ [e]) e = content e.field := by
  rw [held, if_pos (by simp)]

lemma held_concat_of_ne (h : e' ≠ e) : held content (there ++ [e]) e' = held content there e' := by
  simp [held, h]

lemma Transaction.Holds.congr (h : tx.Holds content there)
    (hc : ∀ e ∈ there, content' e.field = content e.field) : tx.Holds content' there := by
  have hheld := held_congr hc
  refine ⟨fun f q hq => ?_, ?_, ?_, ?_⟩
  · rw [hheld, h.quantity f q hq]
  · rw [hheld, h.recipient]
  · rw [hheld, h.feeRatio]
  · rw [hheld, h.dataPresent]

/-- **What the fields hold determines the record** of a type. -/
lemma Transaction.Holds.unique {tx' : Transaction} (h : tx.Holds content there)
    (h' : tx'.Holds content there) (htype : tx.type = tx'.type) : tx = tx' := by
  have hquantity : ∀ {f q q'}, tx.quantity? f = some q → tx'.quantity? f = some q' → q = q' := by
    intro f q q' hq hq'
    exact Quantity.ext_bytes ((h.quantity f q hq).trans (h'.quantity f q' hq').symm)
  have hrecipient := Address.ext_bytes (h.recipient.trans h'.recipient.symm)
  have hratio := h.feeRatio.trans h'.feeRatio.symm
  have hdata := Bool.eq_iff_iff.2 (h.dataPresent.trans h'.dataPresent.symm)
  have hnonce : tx.nonce = tx'.nonce := hquantity (f := .nonce) rfl rfl
  have hprice : tx.gasPrice = tx'.gasPrice := hquantity (f := .gasPrice) rfl rfl
  have hlimit : tx.gasLimit = tx'.gasLimit := hquantity (f := .gasLimit) rfl rfl
  have hvalue : tx.value = tx'.value := hquantity (f := .value) rfl rfl
  have hchain : tx.chainId = tx'.chainId := hquantity (f := .chainId) rfl rfl
  cases tx
  cases tx'
  simp_all

/-- A new record is that of a transaction without payloads. -/
lemma Transaction.holds_new (t : TxType)
    (hthere : ∀ e ∈ there, e.kind = .list ∨ e.kind = .tag) :
    Transaction.Holds content there { type := t } := by
  have hheld : ∀ f k, k ≠ .list → k ≠ .tag → held content there ⟨f, k⟩ = [] := by
    intro f k hl ht
    rw [held, if_neg]
    intro hmem
    rcases hthere _ hmem with h | h
    · exact hl h
    · exact ht h
  refine ⟨fun f q hq => ?_, ?_, ?_, ?_⟩
  · rw [hheld f .uint (by simp) (by simp)]
    cases f <;> cases hq <;> rfl
  · rw [hheld _ .address (by simp) (by simp)]
    rfl
  · rw [hheld _ .ratio (by simp) (by simp)]
    rfl
  · rw [hheld _ .data (by simp) (by simp)]
    simp

/-! ### Whole payloads -/

section Payload

variable {f : Field} {h : Header} {p : Bytes} {tx₁ tx₂ : Transaction}

/-- A number that is still empty becomes the payload. -/
lemma bytes_of_apply_uint {q : Quantity} (hp : Kind.uint.apply f h 0 p tx₁ = .ok tx₂)
    (hw : tx₁.quantity? f = some .empty) (hq : tx₂.quantity? f = some q) : q.bytes = p := by
  rw [Kind.apply_eq, hw] at hp
  dsimp only at hp
  split at hp
  · cases hp
  · next q' hq' =>
    cases hp
    rw [Entry.quantity?_withQuantity hw] at hq
    obtain rfl := Option.some.inj hq
    exact Quantity.append?_eq_some_iff.1 hq'

lemma recipient_of_apply (hp : Kind.address.apply f h 0 p tx₁ = .ok tx₂) :
    tx₂.recipient.bytes = p ++ tx₁.recipient.bytes.drop p.length := by
  rw [Kind.apply_eq] at hp
  dsimp only at hp
  split at hp
  · cases hp
  · next a ha =>
    cases hp
    rw [Address.bytes_of_write? ha, List.take_zero, List.nil_append, Nat.zero_add]

lemma feeRatio_of_apply (hp : Kind.ratio.apply f h 0 p tx₁ = .ok tx₂) :
    tx₂.feeRatio = p.headD tx₁.feeRatio := by
  cases p <;> cases hp <;> rfl

/-- Data is present unless it is empty or a zero byte. -/
lemma dataPresent_of_apply (hlen : h.len = p.length)
    (hp : Kind.data.apply f h 0 p (Kind.data.start h tx) = .ok tx₂) :
    tx₂.dataPresent = true ↔ p ≠ [] ∧ p ≠ [0] := by
  rw [Kind.apply_eq] at hp
  rcases p with _ | ⟨b, p⟩
  · cases hp
    simp [Kind.start, hlen]
  · cases hp
    cases p <;> simp [hlen]

end Payload

/-- The header of a field and its payload add what the field holds. -/
lemma Transaction.Holds.next {t : TxType} {h : Header} {p : Bytes} {tx₁ tx₂ : Transaction}
    (hh : tx.Holds content there) (he : e ∈ t.layout) (hnew : e ∉ there) (hw : e.Awaits tx)
    (ha : e.accept h tx = .ok tx₁) (hlen : h.len = p.length)
    (hp : e.kind.apply e.field h 0 p tx₁ = .ok tx₂) (hc : content e.field = p) :
    tx₂.Holds content (there ++ [e]) := by
  obtain ⟨hcheck, rfl⟩ := Entry.accept_eq_ok ha
  have hs : e.Spares tx tx₂ := (e.spares_start h tx).trans (Entry.spares_of_apply hp)
  refine ⟨fun f q hq => ?_, ?_, ?_, ?_⟩
  · by_cases heq : (⟨f, .uint⟩ : Entry) = e
    · subst heq
      rw [held_concat_self, hc]
      exact bytes_of_apply_uint hp (hw rfl) hq
    · rw [held_concat_of_ne heq]
      refine hh.quantity f q ?_
      rw [← hq]
      refine (hs.quantity f fun hk hf => heq ?_).symm
      rw [← hk, hf]
  · by_cases hk : e.kind = .address
    · obtain rfl := (TxType.field_of_mem_layout he).1 hk
      have hbytes := recipient_of_apply hp
      rw [held_concat_self, hc, hbytes]
      have hzero : tx.recipient.bytes = List.replicate 20 0 := by
        rw [hh.recipient, held, if_neg hnew]
        rfl
      change p ++ tx.recipient.bytes.drop p.length = _
      rw [hzero, List.drop_replicate]
    · rw [held_concat_of_ne (by rintro rfl; exact hk rfl), hs.recipient hk, hh.recipient]
  · by_cases hk : e.kind = .ratio
    · obtain rfl := (TxType.field_of_mem_layout he).2.1 hk
      have hratio := feeRatio_of_apply hp
      have hzero : tx.feeRatio = 0 := by
        rw [hh.feeRatio, held, if_neg hnew]
        rfl
      rw [held_concat_self, hc, hratio]
      change p.headD tx.feeRatio = _
      rw [hzero]
    · rw [held_concat_of_ne (by rintro rfl; exact hk rfl), hs.feeRatio hk, hh.feeRatio]
  · by_cases hk : e.kind = .data
    · obtain rfl := (TxType.field_of_mem_layout he).2.2 hk
      rw [held_concat_self, hc]
      exact dataPresent_of_apply hlen hp
    · rw [held_concat_of_ne (by rintro rfl; exact hk rfl), hs.dataPresent hk, hh.dataPresent]

end Held

/-! ### Fields read and fields to come -/

/-- The fields `done` hold what the record has, and `todo` are those still to come. -/
structure Partway (content : Field → Bytes) (t : TxType) (done todo : List Entry)
    (tx : Transaction) : Prop where
  type : tx.type = t
  layout : t.layout = done ++ todo
  holds : tx.Holds content done

namespace Partway

variable {content content' : Field → Bytes} {t : TxType} {done todo rest : List Entry} {e : Entry}
  {tx tx₁ tx₂ : Transaction} {h : Header} {p : Bytes}

/-- At the first field of a transaction. -/
lemma new (content : Field → Bytes) (t : TxType) : Partway content t [] t.layout { type := t } :=
  ⟨rfl, rfl, Transaction.holds_new t (List.forall_mem_nil _)⟩

/-- After the tag of a typed transaction. -/
lemma typed (content : Field → Bytes) (ht : t ≠ .legacy) :
    Partway content t [⟨.content, .list⟩, ⟨.type, .tag⟩] (t.items ++ TxType.closing)
      { type := t } := by
  refine ⟨rfl, TxType.layout_typed ht, Transaction.holds_new t ?_⟩
  decide

lemma congr (hp : Partway content t done todo tx)
    (hc : ∀ e ∈ done, content' e.field = content e.field) : Partway content' t done todo tx :=
  ⟨hp.type, hp.layout, hp.holds.congr hc⟩

lemma mem_layout (hp : Partway content t done todo tx) (he : e ∈ todo) : e ∈ t.layout := by
  rw [hp.layout]
  exact List.mem_append_right done he

lemma field_ne (hp : Partway content t done todo tx) (he : e ∈ todo) {e' : Entry}
    (he' : e' ∈ done) : e'.field ≠ e.field := by
  have hnd := t.nodup_layout
  rw [hp.layout, List.map_append, List.nodup_append] at hnd
  exact hnd.2.2 _ (List.mem_map_of_mem he') _ (List.mem_map_of_mem he)

lemma awaits (hp : Partway content t done todo tx) (he : e ∈ todo) : e.Awaits tx := by
  intro hk
  obtain ⟨f, k⟩ := e
  obtain rfl : k = .uint := hk
  have hnew := TxType.awaits_of_mem_layout (hp.mem_layout he) rfl
  have hsome : ∃ q, tx.quantity? f = some q := by
    cases f <;> first | exact ⟨_, rfl⟩ | cases hnew
  obtain ⟨q, hq⟩ := hsome
  have hbytes := hp.holds.quantity f q hq
  rw [held, if_neg fun hmem => hp.field_ne he hmem rfl] at hbytes
  rw [hq]
  exact congrArg some (Quantity.ext_bytes hbytes)

/-- **One field further**: the header of a field and its payload add what it holds. -/
lemma next (hp : Partway content t done (e :: rest) tx) (ha : e.accept h tx = .ok tx₁)
    (hlen : h.len = p.length) (happ : e.kind.apply e.field h 0 p tx₁ = .ok tx₂)
    (hc : content e.field = p) : Partway content t (done ++ [e]) rest tx₂ := by
  have he : e ∈ e :: rest := List.mem_cons_self
  have hnew : e ∉ done := fun hmem => hp.field_ne he hmem rfl
  obtain ⟨-, rfl⟩ := Entry.accept_eq_ok ha
  have htype : tx₂.type = tx.type :=
    ((e.spares_start h tx).trans (Entry.spares_of_apply happ)).type
  refine ⟨htype.trans hp.type, ?_, hp.holds.next (hp.mem_layout he) hnew (hp.awaits he) ha hlen
    happ hc⟩
  rw [hp.layout, List.append_assoc, List.singleton_append]

/-- A payload that fits is kept. -/
lemma exists_next (hp : Partway content t done (e :: rest) tx) (hcheck : e.kind.check h = .ok ())
    (hlen : h.len = p.length) :
    ∃ tx₁ tx₂, e.accept h tx = .ok tx₁ ∧ e.kind.apply e.field h 0 p tx₁ = .ok tx₂ := by
  have ha : e.accept h tx = .ok (e.kind.start h tx) := by rw [Entry.accept, hcheck]
  have ho := Entry.opened_of_accept (hp.awaits List.mem_cons_self) ha
  have hle : p.length ≤ OpenField.remaining ⟨h, 0⟩ := Nat.le_of_eq hlen.symm
  obtain ⟨tx₂, happ, -⟩ := ho.apply hle
  exact ⟨_, tx₂, ha, happ⟩

end Partway

end TxStream
