import TxStream.Proofs.Field.Payload

/-!
A payload that comes in any number of pieces, empty ones included, and a piece that is refused.

* `Kind.applyPieces`: pieces in a row, each at the position where the one before it ends;
* `Entry.Opened.applyPieces`: on an open field they do what their concatenation does at once;
* `Transaction.SameBut`: two transactions agree except for what a field names;
* `Entry.Rejects`: why a piece is refused, which `Entry.apply_eq_error_iff` says in full;
* `Entry.tx_readPayload_of_failure`: a piece that is refused leaves the record of a decoder as it
  was;
* `Entry.payload_in_pieces`: all of this for each field of each table.
-/

namespace TxStream

/-- The transaction after pieces of payload in a row, of which the first stands at `position`, or
the failure of the first that is refused. -/
def Kind.applyPieces (k : Kind) (field : Field) (h : Header) (position : Nat) :
    List Bytes → Transaction → Except DecodeError Transaction
  | [], tx => .ok tx
  | piece :: rest, tx =>
    match k.apply field h position piece tx with
    | .error err => .error err
    | .ok tx' => k.applyPieces field h (position + piece.length) rest tx'

/-- Two transactions agree except for what a field names. -/
structure Transaction.SameBut (field : Field) (tx tx' : Transaction) : Prop where
  type : tx'.type = tx.type
  nonce : field ≠ .nonce → tx'.nonce = tx.nonce
  gasPrice : field ≠ .gasPrice → tx'.gasPrice = tx.gasPrice
  gasLimit : field ≠ .gasLimit → tx'.gasLimit = tx.gasLimit
  value : field ≠ .value → tx'.value = tx.value
  chainId : field ≠ .chainId → tx'.chainId = tx.chainId
  recipient : field ≠ .recipient → tx'.recipient = tx.recipient
  feeRatio : field ≠ .ratio → tx'.feeRatio = tx.feeRatio
  dataPresent : field ≠ .data → tx'.dataPresent = tx.dataPresent

/-! ### What does not fit -/

lemma Quantity.append?_eq_none_iff {q : Quantity} {b : Bytes} :
    q.append? b = none ↔ maxLength < q.bytes.length + b.length := by
  rw [← List.length_append, ← Nat.not_le, append?, ofBytes?]
  split
  · next hle => exact iff_of_false (by simp) (not_not.2 hle)
  · next hlt => exact iff_of_true rfl hlt

lemma Address.write?_eq_none_iff {a : Address} {position : Nat} {b : Bytes} :
    a.write? position b = none ↔ length < position + b.length := by
  rw [← Nat.not_le, write?]
  split
  · next hle => exact iff_of_false (by simp) (not_not.2 hle)
  · next hlt => exact iff_of_true rfl hlt

/-! ### The fields of a table -/

namespace Family

/-- In a table, each kind that is kept and is no number stands for one field. -/
lemma field_of_mem_table {fam : Family} {e : Entry} (h : e ∈ fam.table) :
    (e.kind = .address → e.field = .recipient) ∧ (e.kind = .ratio → e.field = .ratio) ∧
      (e.kind = .data → e.field = .data) := by
  rcases fam with _ | _ | _ | _ | _ | _ <;> revert e <;> decide

end Family

namespace Entry

/-- What a field of a table fills is what it names. -/
lemma Spares.sameBut {fam : Family} {e : Entry} {tx tx' : Transaction} (he : e ∈ fam.table)
    (hs : e.Spares tx tx') : tx.SameBut e.field tx' := by
  obtain ⟨haddress, hratio, hdata⟩ := Family.field_of_mem_table he
  have hquantity : ∀ f, e.field ≠ f → tx'.quantity? f = tx.quantity? f :=
    fun f hf => hs.quantity f fun _ => hf.symm
  exact {
    type := hs.type
    nonce := fun hf => Option.some.inj (hquantity .nonce hf)
    gasPrice := fun hf => Option.some.inj (hquantity .gasPrice hf)
    gasLimit := fun hf => Option.some.inj (hquantity .gasLimit hf)
    value := fun hf => Option.some.inj (hquantity .value hf)
    chainId := fun hf => Option.some.inj (hquantity .chainId hf)
    recipient := fun hf => hs.recipient fun hk => hf (haddress hk)
    feeRatio := fun hf => hs.feeRatio fun hk => hf (hratio hk)
    dataPresent := fun hf => hs.dataPresent fun hk => hf (hdata hk) }

lemma withQuantity_quantity? {tx : Transaction} {q : Quantity} {f : Field}
    (h : tx.quantity? f = some q) : tx.withQuantity q f = tx := by
  cases f <;> cases h <;> rfl

/-! ### Pieces in a row -/

lemma Opened.apply_nil {e : Entry} {f : OpenField} {tx : Transaction} (ho : e.Opened f tx) :
    e.kind.apply e.field f.header f.position [] tx = .ok tx := by
  rw [Kind.apply_eq]
  split
  · rfl
  · rfl
  · rfl
  · next hk =>
    obtain ⟨q, hq, -⟩ := ho.filled hk
    have hsame : q.append? [] = some q := Quantity.append?_eq_some_iff.2 (List.append_nil _).symm
    simp only [hq, hsame, withQuantity_quantity? hq]
  · next hk =>
    have hcap : f.header.len ≤ Address.length := len_le_of_check ho.fits (by rw [hk]; rfl)
    have hsame : tx.recipient.write? f.position [] = some tx.recipient := by
      obtain ⟨a, ha⟩ := tx.recipient.exists_write? (b := []) (Nat.le_trans ho.within hcap)
      rw [ha]
      refine congrArg some (Address.ext_bytes ?_)
      rw [Address.bytes_of_write? ha, List.append_nil, List.length_nil, Nat.add_zero,
        List.take_append_drop]
    simp only [hsame]
  · rfl
  · rfl

/-- **Pieces in a row do what their concatenation does at once**, and none of them is refused. -/
theorem Opened.applyPieces {e : Entry} {f : OpenField} {tx : Transaction} (ho : e.Opened f tx)
    {pieces : List Bytes} (hlen : pieces.flatten.length ≤ f.remaining) :
    ∃ tx', e.kind.applyPieces e.field f.header f.position pieces tx = .ok tx' ∧
      e.kind.apply e.field f.header f.position pieces.flatten tx = .ok tx' := by
  obtain ⟨header, position⟩ := f
  induction pieces generalizing position tx with
  | nil => exact ⟨tx, rfl, ho.apply_nil⟩
  | cons piece rest ih =>
    rw [List.flatten_cons] at hlen ⊢
    have hpiece : piece.length ≤ OpenField.remaining ⟨header, position⟩ := by
      rw [List.length_append] at hlen
      omega
    have hrest : rest.flatten.length ≤ OpenField.remaining ⟨header, position + piece.length⟩ := by
      simp only [OpenField.remaining, List.length_append] at hlen ⊢
      omega
    obtain ⟨tx₁, hfirst, ho₁⟩ := ho.apply hpiece
    obtain ⟨tx', hpieces, hwhole⟩ := ih _ ho₁ hrest
    refine ⟨tx', ?_, ?_⟩
    · rw [Kind.applyPieces, hfirst]
      exact hpieces
    · rw [ho.apply_append hlen hfirst]
      exact hwhole

/-! ### Refused pieces -/

/-- Why a piece of payload is refused. -/
inductive Rejects (e : Entry) (position : Nat) (piece : Bytes) (tx : Transaction) :
    DecodeError → Prop
  /-- The record has no place for the number. -/
  | homeless (hk : e.kind = .uint) (hq : tx.quantity? e.field = none) :
      Rejects e position piece tx .invalidState
  /-- The number has no room for the piece. -/
  | number {q : Quantity} (hk : e.kind = .uint) (hq : tx.quantity? e.field = some q)
      (hlt : Quantity.maxLength < q.bytes.length + piece.length) :
      Rejects e position piece tx .fieldTooLong
  /-- The piece reaches over the end of the recipient. -/
  | address (hk : e.kind = .address) (hlt : Address.length < position + piece.length) :
      Rejects e position piece tx .fieldTooLong

/-- A piece is refused for one of these reasons, and for no other. -/
lemma apply_eq_error_iff {e : Entry} {h : Header} {position : Nat} {piece : Bytes}
    {tx : Transaction} {err : DecodeError} :
    e.kind.apply e.field h position piece tx = .error err ↔ e.Rejects position piece tx err := by
  constructor
  · intro ha
    rw [Kind.apply_eq] at ha
    split at ha
    · cases ha
    · cases ha
    · cases ha
    · next hk =>
      split at ha
      · next hq =>
        cases ha
        exact .homeless hk hq
      · next q hq =>
        split at ha
        · next hnone =>
          cases ha
          exact .number hk hq (Quantity.append?_eq_none_iff.1 hnone)
        · cases ha
    · next hk =>
      split at ha
      · next hnone =>
        cases ha
        exact .address hk (Address.write?_eq_none_iff.1 hnone)
      · cases ha
    · split at ha <;> cases ha
    · split at ha
      · cases ha
      · split at ha <;> cases ha
  · rintro (⟨hk, hq⟩ | ⟨hk, hq, hlt⟩ | ⟨hk, hlt⟩)
    · simp only [Kind.apply_eq, hk, hq]
    · simp only [Kind.apply_eq, hk, hq, Quantity.append?_eq_none_iff.2 hlt]
    · simp only [Kind.apply_eq, hk, Address.write?_eq_none_iff.2 hlt]

/-- **A piece that is refused leaves the record of a decoder as it was**, whether or not it is paid
for. -/
theorem tx_readPayload_of_failure {d : Decoder} {c : Cursor} {e : Entry} {f : OpenField}
    {err : DecodeError} (rest : List Entry) (budget : Option Nat)
    (hw : (e.kind.write e.field f.header f.position (c.take f.remaining).1 d.tx).failure?
      = some err) :
    (d.readPayload c e rest f budget).decoder.tx = d.tx := by
  fun_cases Decoder.readPayload d c e rest f budget with
  | case2 _ piece c' htake =>
    rw [htake] at hw
    exact Kind.tx_write_of_failure hw
  | case3 _ piece c' htake _ _ _ _ hok =>
    rw [htake] at hw
    cases hw.symm.trans hok
  | case4 _ piece c' htake _ _ _ _ hok =>
    rw [htake] at hw
    cases hw.symm.trans hok
  | _ => rfl

/-! ### Each field of each table -/

/-- **A payload may come in any pieces**, and a piece that is refused changes nothing.

For a field of a table with a header that fits, on a record in which its number is empty, pieces
that add up to the announced length are taken one by one, and the record is the one that the whole
payload gives at once. It differs from the record before at most in what the field names.

If any field refuses a piece, for whatever header, position and record, then nothing of the piece is
written, and the record of a decoder that reads the piece is left as it was. -/
theorem payload_in_pieces (e : Entry) :
    (∀ fam : Family, e ∈ fam.table → ∀ h tx, e.kind.check h = .ok () → e.Awaits tx →
      ∀ pieces : List Bytes, pieces.flatten.length = h.len → ∃ tx',
        e.kind.applyPieces e.field h 0 pieces (e.kind.start h tx) = .ok tx' ∧
        e.kind.apply e.field h 0 pieces.flatten (e.kind.start h tx) = .ok tx' ∧
        tx.SameBut e.field tx') ∧
    (∀ (h : Header) (position : Nat) (piece : Bytes) (tx : Transaction) err,
      (e.kind.write e.field h position piece tx).failure? = some err →
        e.Rejects position piece tx err ∧ (e.kind.write e.field h position piece tx).tx = tx) ∧
    ∀ (d : Decoder) (c : Cursor) (rest : List Entry) (f : OpenField) (budget : Option Nat) err,
      (e.kind.write e.field f.header f.position (c.take f.remaining).1 d.tx).failure? = some err →
        (d.readPayload c e rest f budget).decoder.tx = d.tx := by
  refine ⟨fun fam he h tx hcheck hw pieces hlen => ?_, fun h position piece tx err herr =>
    ⟨apply_eq_error_iff.1 (Kind.apply_eq_error_iff.2 herr), Kind.tx_write_of_failure herr⟩,
    fun d c rest f budget err => tx_readPayload_of_failure rest budget⟩
  have haccept : e.accept h tx = .ok (e.kind.start h tx) := by rw [accept, hcheck]
  have hfits : pieces.flatten.length ≤ OpenField.remaining ⟨h, 0⟩ := Nat.le_of_eq hlen
  obtain ⟨tx', hpieces, hwhole⟩ := (opened_of_accept hw haccept).applyPieces hfits
  exact ⟨tx', hpieces, hwhole, ((e.spares_start h tx).trans (spares_of_apply hwhole)).sameBut he⟩

/-- A gas price of three bytes in five pieces, and one of 33 bytes that is refused. -/
theorem payload_in_pieces_gas_price :
    (∃ tx', Kind.uint.applyPieces .gasPrice ⟨3, false, 1⟩ 0 [[], [1], [], [2, 3], []] {} = .ok tx' ∧
      Kind.uint.apply .gasPrice ⟨3, false, 1⟩ 0 [1, 2, 3] {} = .ok tx' ∧
      Transaction.SameBut .gasPrice {} tx') ∧
    Rejects ⟨.gasPrice, .uint⟩ 0 (List.replicate 33 0) {} .fieldTooLong ∧
    (Kind.uint.write .gasPrice ⟨33, false, 1⟩ 0 (List.replicate 33 0) {}).tx = {} ∧
    (Decoder.readPayload ⟨.init, {}, 0, {}⟩ (.start (List.replicate 33 0)) ⟨.gasPrice, .uint⟩ []
      ⟨⟨33, false, 1⟩, 0⟩ none).decoder.tx = {} := by
  obtain ⟨hpieces, hrefused, hdecoder⟩ := payload_in_pieces ⟨.gasPrice, .uint⟩
  have herr : (Kind.uint.write .gasPrice ⟨33, false, 1⟩ 0 (List.replicate 33 0) {}).failure?
      = some .fieldTooLong := by rfl
  obtain ⟨hrejects, hsame⟩ := hrefused _ _ _ _ _ herr
  exact ⟨hpieces .legacy (by decide) ⟨3, false, 1⟩ {} (by decide) (fun _ => rfl)
      [[], [1], [], [2, 3], []] (by decide), hrejects, hsame,
    hdecoder ⟨.init, {}, 0, {}⟩ (.start (List.replicate 33 0)) [] ⟨⟨33, false, 1⟩, 0⟩ none _ herr⟩

end Entry

end TxStream
