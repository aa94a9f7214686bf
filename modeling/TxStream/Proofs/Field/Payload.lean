import Mathlib.Tactic.Common
import TxStream.Decoder.Step

/-!
Payload in pieces. A field whose header fits takes its payload in any pieces, and what it does to
the transaction does not depend on where the pieces are cut.

* `Kind.tx_write_of_failure`: a piece that is refused writes nothing;
* `Entry.Spares`: two transactions agree except for what a field fills; a piece keeps to that
  (`Entry.spares_of_apply`, `Entry.spares_write`), and so does the header of a field
  (`Entry.spares_of_accept`);
* `Entry.Awaits`: nothing is filled yet;
* `Entry.Opened`: a field that is open, with a header that fits and as much filled as is read;
* `Entry.Opened.apply`: no piece is refused that the header announces;
* `Entry.Opened.apply_append`: two pieces in a row do what they do as one.
-/

namespace TxStream

/-! ### Writing in pieces -/

lemma Quantity.ext_bytes {q q' : Quantity} (h : q.bytes = q'.bytes) : q = q' := by
  cases q
  cases q'
  cases h
  rfl

lemma Address.ext_bytes {a a' : Address} (h : a.bytes = a'.bytes) : a = a' := by
  cases a
  cases a'
  cases h
  rfl

/-- There is room for as many bytes as are missing. -/
lemma Quantity.exists_append? {q : Quantity} {b : Bytes}
    (h : q.bytes.length + b.length ≤ Quantity.maxLength) :
    ∃ q', q.append? b = some q' ∧ q'.bytes = q.bytes ++ b := by
  rw [← List.length_append] at h
  exact ⟨⟨q.bytes ++ b, h⟩, append?_eq_some_iff.2 rfl, rfl⟩

lemma Quantity.append?_append {q q' : Quantity} {x : Bytes} (h : q.append? x = some q')
    (y : Bytes) : q.append? (x ++ y) = q'.append? y := by
  rw [append?, append?, append?_eq_some_iff.1 h, List.append_assoc]

lemma Address.exists_write? (a : Address) {position : Nat} {b : Bytes}
    (h : position + b.length ≤ Address.length) : ∃ a', a.write? position b = some a' := by
  rw [write?, dif_pos h]
  exact ⟨_, rfl⟩

lemma Address.write?_append {a a' : Address} {position : Nat} {x y : Bytes}
    (h : a.write? position x = some a') (hfit : position + (x ++ y).length ≤ Address.length) :
    a.write? position (x ++ y) = a'.write? (position + x.length) y := by
  have hb := bytes_of_write? h
  obtain ⟨a₁, h₁⟩ := a.exists_write? hfit
  have hfit' : position + x.length + y.length ≤ Address.length := by
    rwa [List.length_append, ← Nat.add_assoc] at hfit
  obtain ⟨a₂, h₂⟩ := a'.exists_write? hfit'
  rw [h₁, h₂]
  refine congrArg some (ext_bytes ?_)
  rw [bytes_of_write? h₁, bytes_of_write? h₂, hb]
  have hlen : (a.bytes.take position ++ x).length = position + x.length := by
    have := a.length_eq
    simp only [Address.length] at hfit'
    simp only [List.length_append, List.length_take]
    omega
  have hnil : (a.bytes.take position ++ x).drop (position + x.length + y.length) = [] :=
    List.drop_eq_nil_of_le (by omega)
  rw [List.take_left' hlen, List.drop_append, hlen, Nat.add_sub_cancel_left, hnil, List.nil_append,
    List.drop_drop, List.length_append, ← Nat.add_assoc, ← List.append_assoc]

/-! ### Results -/

namespace Kind

variable {k : Kind} {field : Field} {h : Header} {position : Nat} {piece : Bytes}
  {tx tx' : Transaction} {err : DecodeError}

lemma apply_eq_ok_iff : k.apply field h position piece tx = .ok tx' ↔
    k.write field h position piece tx = ⟨tx', none⟩ := by
  rw [apply, Written.result]
  generalize k.write field h position piece tx = w
  obtain ⟨tx₁, _ | err⟩ := w <;> simp

lemma apply_eq_error_iff : k.apply field h position piece tx = .error err ↔
    (k.write field h position piece tx).failure? = some err := by
  rw [apply, Written.result]
  split <;> simp_all

/-- **A piece that is refused writes nothing.** -/
theorem tx_write_of_failure (hw : (k.write field h position piece tx).failure? = some err) :
    (k.write field h position piece tx).tx = tx := by
  revert hw
  fun_cases write k field h position piece tx <;> simp

/-- The result of a piece, kind by kind. The record that a refused piece leaves behind is not in
it. -/
lemma apply_eq (k : Kind) (field : Field) (h : Header) (position : Nat) (piece : Bytes)
    (tx : Transaction) : k.apply field h position piece tx =
      match k with
      | .list => .ok tx
      | .tag => .ok tx
      | .discard => .ok tx
      | .uint =>
        match tx.quantity? field with
        | none => .error .invalidState
        | some q =>
          match q.append? piece with
          | none => .error .fieldTooLong
          | some q' => .ok (tx.withQuantity q' field)
      | .address =>
        match tx.recipient.write? position piece with
        | none => .error .fieldTooLong
        | some a => .ok { tx with recipient := a }
      | .ratio =>
        match piece with
        | [] => .ok tx
        | b :: _ => .ok { tx with feeRatio := b }
      | .data =>
        match piece with
        | [] => .ok tx
        | b :: _ =>
          if position = 0 then .ok { tx with dataPresent := !(h.len == 1 && b == 0) }
          else .ok tx := by
  rw [apply]
  fun_cases write k field h position piece tx <;> simp [Written.result, *]

end Kind

/-! ### What a field leaves alone -/

namespace Entry

/-- Two transactions agree except for what a field fills. -/
structure Spares (e : Entry) (tx tx' : Transaction) : Prop where
  type : tx'.type = tx.type
  quantity : ∀ f, (e.kind = .uint → f ≠ e.field) → tx'.quantity? f = tx.quantity? f
  recipient : e.kind ≠ .address → tx'.recipient = tx.recipient
  feeRatio : e.kind ≠ .ratio → tx'.feeRatio = tx.feeRatio
  dataPresent : e.kind ≠ .data → tx'.dataPresent = tx.dataPresent

lemma Spares.refl (e : Entry) (tx : Transaction) : e.Spares tx tx :=
  ⟨rfl, fun _ _ => rfl, fun _ => rfl, fun _ => rfl, fun _ => rfl⟩

lemma Spares.trans {e : Entry} {tx tx' tx'' : Transaction} (h : e.Spares tx tx')
    (h' : e.Spares tx' tx'') : e.Spares tx tx'' :=
  ⟨h'.type.trans h.type, fun f hf => (h'.quantity f hf).trans (h.quantity f hf),
    fun hk => (h'.recipient hk).trans (h.recipient hk),
    fun hk => (h'.feeRatio hk).trans (h.feeRatio hk),
    fun hk => (h'.dataPresent hk).trans (h.dataPresent hk)⟩

lemma quantity?_withQuantity_of_ne (tx : Transaction) (q : Quantity) {f g : Field} (h : g ≠ f) :
    (tx.withQuantity q f).quantity? g = tx.quantity? g := by
  cases f <;> cases g <;> first | rfl | exact absurd rfl h

lemma quantity?_withQuantity {tx : Transaction} {q q' : Quantity} {f : Field}
    (h : tx.quantity? f = some q) : (tx.withQuantity q' f).quantity? f = some q' := by
  cases f <;> first | rfl | cases h

lemma withQuantity_withQuantity (tx : Transaction) (q q' : Quantity) (f : Field) :
    (tx.withQuantity q f).withQuantity q' f = tx.withQuantity q' f := by
  cases f <;> rfl

/-- A number is the only component that growing it changes. -/
lemma spares_withQuantity {e : Entry} (he : e.kind = .uint) (tx : Transaction) (q : Quantity) :
    e.Spares tx (tx.withQuantity q e.field) := by
  refine ⟨?_, fun f hf => quantity?_withQuantity_of_ne tx q (hf he), fun _ => ?_, fun _ => ?_,
    fun _ => ?_⟩ <;> cases e.field <;> rfl

/-- The header of a field changes at most what the field fills. -/
lemma spares_start (e : Entry) (h : Header) (tx : Transaction) :
    e.Spares tx (e.kind.start h tx) := by
  rw [Kind.start]
  split_ifs with hk
  · exact ⟨rfl, fun f _ => by cases f <;> rfl, fun _ => rfl, fun _ => rfl, fun hn => absurd hk hn⟩
  · exact .refl e tx

/-- A piece of payload changes at most what the field fills, also if it is refused. -/
lemma spares_write (e : Entry) (h : Header) (position : Nat) (piece : Bytes) (tx : Transaction) :
    e.Spares tx (e.kind.write e.field h position piece tx).tx := by
  obtain ⟨field, k⟩ := e
  fun_cases Kind.write k field h position piece tx with
  | case6 => exact spares_withQuantity (e := ⟨field, .uint⟩) rfl tx _
  | case8 =>
      exact ⟨rfl, fun f _ => by cases f <;> rfl, fun hn => absurd rfl hn, fun _ => rfl, fun _ => rfl⟩
  | case10 =>
      exact ⟨rfl, fun f _ => by cases f <;> rfl, fun _ => rfl, fun hn => absurd rfl hn, fun _ => rfl⟩
  | case12 =>
      exact ⟨rfl, fun f _ => by cases f <;> rfl, fun _ => rfl, fun _ => rfl, fun hn => absurd rfl hn⟩
  | _ => exact .refl _ tx

lemma spares_of_apply {e : Entry} {h : Header} {position : Nat} {piece : Bytes}
    {tx tx' : Transaction} (ha : e.kind.apply e.field h position piece tx = .ok tx') :
    e.Spares tx tx' := by
  have hs := e.spares_write h position piece tx
  rwa [Kind.apply_eq_ok_iff.1 ha] at hs

/-! ### Open fields -/

/-- The number that a field fills, if it fills one, is still empty. -/
def Awaits (e : Entry) (tx : Transaction) : Prop :=
  e.kind = .uint → tx.quantity? e.field = some .empty

/-- A field is open: its header fits, and as much of its payload is filled as is read. -/
structure Opened (e : Entry) (f : OpenField) (tx : Transaction) : Prop where
  fits : e.kind.check f.header = .ok ()
  within : f.position ≤ f.header.len
  filled : e.kind = .uint → ∃ q, tx.quantity? e.field = some q ∧ q.bytes.length = f.position

lemma Awaits.of_spares {e e' : Entry} {tx tx' : Transaction} (h : e'.Awaits tx)
    (hs : e.Spares tx tx') (hne : e'.field ≠ e.field) : e'.Awaits tx' :=
  fun hk => (hs.quantity e'.field fun _ => hne).trans (h hk)

/-- A header that fits announces no more than the kind can hold. -/
lemma len_le_of_check {k : Kind} {h : Header} {n : Nat} (hc : k.check h = .ok ())
    (hk : k.capacity? = some n) : h.len ≤ n := by
  rw [Kind.check] at hc
  split_ifs at hc with h1 h2
  · subst h1
    cases hk
  · rw [Kind.checkLength] at hc
    split_ifs at hc with h3
    rw [hk] at hc
    by_contra hlt
    rw [Nat.not_le] at hlt
    simp [hlt] at hc

/-- A header that is accepted fits, and prepares the record for its field. -/
lemma accept_eq_ok {e : Entry} {h : Header} {tx tx' : Transaction} (ha : e.accept h tx = .ok tx') :
    e.kind.check h = .ok () ∧ tx' = e.kind.start h tx := by
  rw [accept] at ha
  split at ha
  · cases ha
  · next hc =>
    cases ha
    exact ⟨hc, rfl⟩

lemma spares_of_accept {e : Entry} {h : Header} {tx tx' : Transaction}
    (ha : e.accept h tx = .ok tx') : e.Spares tx tx' := by
  rw [(accept_eq_ok ha).2]
  exact e.spares_start h tx

lemma opened_of_accept {e : Entry} {h : Header} {tx tx' : Transaction} (hw : e.Awaits tx)
    (ha : e.accept h tx = .ok tx') : e.Opened ⟨h, 0⟩ tx' := by
  obtain ⟨hc, rfl⟩ := accept_eq_ok ha
  refine ⟨hc, Nat.zero_le _, fun hk => ⟨.empty, ?_, rfl⟩⟩
  rw [Kind.start, if_neg (by rw [hk]; decide)]
  exact hw hk

namespace Opened

variable {e : Entry} {f : OpenField} {tx tx' : Transaction}

/-- **No piece is refused that the header announces**, and the field stays open after it. -/
lemma apply (ho : e.Opened f tx) {piece : Bytes} (hlen : piece.length ≤ f.remaining) :
    ∃ tx', e.kind.apply e.field f.header f.position piece tx = .ok tx' ∧
      e.Opened ⟨f.header, f.position + piece.length⟩ tx' := by
  have hwithin : f.position + piece.length ≤ f.header.len := by
    have := ho.within
    rw [OpenField.remaining] at hlen
    omega
  have hother : e.kind ≠ .uint → ∀ tx', e.Opened ⟨f.header, f.position + piece.length⟩ tx' :=
    fun hk _ => ⟨ho.fits, hwithin, fun hk' => absurd hk' hk⟩
  rw [Kind.apply_eq]
  split
  · next hk => exact ⟨tx, rfl, hother (by rw [hk]; decide) tx⟩
  · next hk => exact ⟨tx, rfl, hother (by rw [hk]; decide) tx⟩
  · next hk => exact ⟨tx, rfl, hother (by rw [hk]; decide) tx⟩
  · next hk =>
    obtain ⟨q, hq, hqlen⟩ := ho.filled hk
    have hcap : f.header.len ≤ Quantity.maxLength := len_le_of_check ho.fits (by rw [hk]; rfl)
    have hfit : q.bytes.length + piece.length ≤ Quantity.maxLength := by omega
    obtain ⟨q', hq', hbytes⟩ := Quantity.exists_append? hfit
    simp only [hq, hq']
    refine ⟨_, rfl, ho.fits, hwithin, fun _ => ⟨q', quantity?_withQuantity hq, ?_⟩⟩
    rw [hbytes, List.length_append, hqlen]
  · next hk =>
    have hcap : f.header.len ≤ Address.length := len_le_of_check ho.fits (by rw [hk]; rfl)
    have hfit : f.position + piece.length ≤ Address.length := by omega
    obtain ⟨a, ha⟩ := tx.recipient.exists_write? hfit
    simp only [ha]
    exact ⟨_, rfl, hother (by rw [hk]; decide) _⟩
  · next hk =>
    have hk' : e.kind ≠ .uint := by rw [hk]; decide
    split
    · exact ⟨tx, rfl, hother hk' tx⟩
    · exact ⟨_, rfl, hother hk' _⟩
  · next hk =>
    have hk' : e.kind ≠ .uint := by rw [hk]; decide
    split
    · exact ⟨tx, rfl, hother hk' tx⟩
    · split
      · exact ⟨_, rfl, hother hk' _⟩
      · exact ⟨tx, rfl, hother hk' tx⟩

/-- **Two pieces in a row do what they do as one.** -/
lemma apply_append (ho : e.Opened f tx) {x y : Bytes} (hlen : (x ++ y).length ≤ f.remaining)
    (hx : e.kind.apply e.field f.header f.position x tx = .ok tx') :
    e.kind.apply e.field f.header f.position (x ++ y) tx =
      e.kind.apply e.field f.header (f.position + x.length) y tx' := by
  have hwithin : f.position + (x ++ y).length ≤ f.header.len := by
    have := ho.within
    rw [OpenField.remaining] at hlen
    omega
  rw [Kind.apply_eq] at hx
  rw [Kind.apply_eq, Kind.apply_eq]
  split at hx
  · cases hx
    rfl
  · cases hx
    rfl
  · cases hx
    rfl
  · next hk =>
    obtain ⟨q, hq, -⟩ := ho.filled hk
    simp only [hq] at hx ⊢
    split at hx
    · cases hx
    · next q' hq' =>
      cases hx
      rw [Quantity.append?_append hq', quantity?_withQuantity hq]
      simp only [withQuantity_withQuantity]
  · next hk =>
    have hcap : f.header.len ≤ Address.length := len_le_of_check ho.fits (by rw [hk]; rfl)
    split at hx
    · cases hx
    · next a ha =>
      cases hx
      rw [Address.write?_append ha (by omega)]
  · next hk =>
    -- a fee ratio has one byte, so that one of the pieces is empty
    have hcap : f.header.len ≤ 1 := len_le_of_check ho.fits (by rw [hk]; rfl)
    cases x with
    | nil =>
        cases hx
        rfl
    | cons b x =>
        cases hx
        obtain rfl : y = [] := by
          rw [List.length_append, List.length_cons] at hwithin
          exact List.eq_nil_of_length_eq_zero (by omega)
        rfl
  · next hk =>
    cases x with
    | nil =>
        cases hx
        rfl
    | cons b x =>
        have hpos : f.position + (b :: x).length ≠ 0 := by simp
        cases y with
        | nil =>
            rw [List.append_nil]
            exact hx
        | cons b' y => simpa [hpos] using hx

end Opened

end Entry

end TxStream
