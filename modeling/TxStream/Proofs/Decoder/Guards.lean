import Mathlib.Data.List.Infix
import TxStream.Proofs.Decoder.Begun
import TxStream.Proofs.Format.Items
import TxStream.Proofs.Format.Record

/-!
The guards within a decoder have nothing to guard against. A decoder checks for a step after the
end, for a field outside of the layout, for a tag that is not the one it looked at, and for payload
that does not fit after its header did. None of these comes up, whatever the chunks.

* `Decoder.Begins`: a step begins a field with a header;
* `Decoder.Refuses`: why a step fails. A field is refused for its length when it begins, or never;
* `Decoder.Foresees`: the byte that was looked at is still ahead, so that it is read as what it was
  taken for. Every step keeps this (`Foresees.of_moves`), and so do chunks in a row;
* `Decoder.NeedsNoGuard`: what this comes to for a step;
* `guards_never_needed`: every step of every chunk is like that, and no chunk is answered with a
  failure that a guard is for.
-/

namespace TxStream

/-! ### Layouts and headers -/

/-- After the content list comes no other list, and after the tag no other tag. -/
lemma TxType.kind_of_suffix {t : TxType} {e e' : Entry} {rest : List Entry}
    (h : e :: rest <:+ t.layout) (he' : e' ∈ rest) :
    e'.kind ≠ .list ∧ (e.kind ≠ .list → e'.kind ≠ .tag) := by
  have key : ∀ t : TxType, ∀ s ∈ t.layout.tails, ∀ e' ∈ s.tail, e'.kind ≠ .list ∧
      (s.head?.map Entry.kind ≠ some .list → e'.kind ≠ .tag) := by decide
  have hs := key t _ ((List.mem_tails ..).2 h) e' he'
  simpa using hs

lemma Kind.check_ne_unsupportedType {k : Kind} (hk : k ≠ .tag) (h : Header) :
    k.check h ≠ .error .unsupportedType := by
  rw [check, checkLength]
  split_ifs with h₁ h₂ h₃ h₄
  · simp
  · simp
  · simp
  · exact absurd h₄.1 hk
  · split
    · split_ifs <;> simp
    · simp

/-- A field has left nothing in a record. -/
structure Entry.Unwritten (e : Entry) (tx : Transaction) : Prop where
  quantity : e.kind = .uint → tx.quantity? e.field = some .empty
  recipient : e.kind = .address → tx.recipient = .zero
  feeRatio : e.kind = .ratio → tx.feeRatio = 0
  dataPresent : e.kind = .data → tx.dataPresent = false

lemma Entry.check_of_accept {e : Entry} {h : Header} {tx : Transaction} {err : DecodeError}
    (ha : e.accept h tx = .error err) : e.kind.check h = .error err := by
  rw [accept] at ha
  split at ha
  · next hc => rwa [Except.error.inj ha] at hc
  · cases ha

/-- The bytes are no cause for the failures that guards are for. -/
lemma DecodeError.OfBytes.ne_guarded {err : DecodeError} (h : err.OfBytes) :
    err ≠ .invalidState ∧ err ≠ .headerOverflow ∧ err ≠ .incomplete := by
  refine ⟨?_, ?_, ?_⟩
  all_goals
    rintro rfl
    exact h

namespace Decoder

variable {d d' : Decoder} {c c' : Cursor} {chunk : Bytes} {err : DecodeError}

/-! ### Why a step fails -/

/-- A step from `d` at `c` begins the field `e` with the header `h`, the record being `tx`. -/
inductive Begins (d : Decoder) (c : Cursor) : Entry → Header → Transaction → Prop
  /-- The first field begins with a header that is already read. -/
  | first {d₁ : Decoder} {c₁ : Cursor} {t : TxType} {h : Header} {budget : Option Nat} {e : Entry}
      {rest : List Entry} (he : d.Enters c d₁ c₁ t h budget) (hl : t.layout = e :: rest) :
      Begins d c e h { d.tx with type := t }
  /-- Any other field begins with a header of its own. -/
  | next {e : Entry} {rest : List Entry} {budget : Option Nat} {h : Header}
      (hphase : d.phase = .fields (e :: rest) none budget)
      (hread : (d.partialHeader.read c).result = .ok (some h)) : Begins d c e h d.tx

/-- Why a step from `d` at `c` fails, and the record that it leaves. -/
inductive Refuses (d : Decoder) (c : Cursor) : DecodeError → Transaction → Prop
  /-- The header of a field does not fit it. -/
  | unfit {e : Entry} {h : Header} {tx : Transaction} {err : DecodeError}
      (hb : d.Begins c e h tx) (hcheck : e.kind.check h = .error err) : Refuses d c err tx
  /-- Something else is wrong, and not the length of a field. -/
  | other {err : DecodeError} {tx : Transaction} (hne : err ≠ .fieldTooLong) : Refuses d c err tx

lemma read_of_decode {h : Header} (hheld : Header.canDecode d.partialHeader.held = .ok false)
    (hdec : Header.decode (d.partialHeader.held ++ c.ahead) = .ok h) :
    (d.partialHeader.read c).result = .ok (some h) := by
  rw [PartialHeader.read_eq hheld, PartialHeader.scan_of_decode hdec]

lemma Pays.not_fails {e : Entry} {rest : List Entry} {f : OpenField} {budget : Option Nat} :
    ¬d.Pays c e rest f budget d' c' (some (.fail err)) := by
  intro hp
  cases hp

/-- Payload is refused only for the length of the content. -/
lemma ne_fieldTooLong_of_readPayload {e : Entry} {rest : List Entry} {f : OpenField}
    {budget : Option Nat} (ho : e.Opened f d.tx)
    (hstop : (d.readPayload c e rest f budget).stop? = some (.fail err)) : err ≠ .fieldTooLong := by
  rcases pays_readPayload (c := c) rest budget ho with hp | ⟨hlength, -⟩
  · rw [hstop] at hp
    exact absurd hp Pays.not_fails
  · rw [hstop] at hlength
    cases hlength
    simp

/-- A header outside of the fields is refused, or what comes after it is. -/
lemma refuses_withHeader {go : Decoder → Cursor → Header → Step}
    (hheld : Header.canDecode d.partialHeader.held = .ok false)
    (hgo : ∀ h, Header.decode (d.partialHeader.held ++ c.ahead) = .ok h →
      (go d.released (d.past c h) h).stop? = some (.fail err) →
        d.Refuses c err (go d.released (d.past c h) h).decoder.tx)
    (hstop : (d.withHeader c go).stop? = some (.fail err)) :
    d.Refuses c err (d.withHeader c go).decoder.tx := by
  rw [withHeader_eq hheld] at hstop ⊢
  rcases PartialHeader.scan_cases d.partialHeader.held c.ahead with ⟨h, hdec⟩ | hcan | ⟨e, he⟩
  · rw [scanned_of_decode hdec, passed_of_decode hdec, PartialHeader.scan_of_decode hdec] at hstop ⊢
    exact hgo h hdec hstop
  · rw [PartialHeader.scan_of_partial hcan] at hstop
    cases hstop
  · obtain rfl := Header.eq_invalidHeader_of_canDecode he
    rw [PartialHeader.scan_of_refused he] at hstop
    cases hstop
    exact .other (by simp)

lemma refuses_enter {d₁ : Decoder} {c₁ : Cursor} {t : TxType} {h : Header} {budget : Option Nat}
    (he : d.Enters c d₁ c₁ t h budget) (htx : d₁.tx = d.tx)
    (hstop : (d₁.enter c₁ t h budget).stop? = some (.fail err)) :
    d.Refuses c err (d₁.enter c₁ t h budget).decoder.tx := by
  rw [enter, htx] at hstop ⊢
  rcases hl : t.layout with _ | ⟨e, rest⟩
  · exact absurd hl t.layout_ne_nil
  simp only [hl] at hstop ⊢
  rcases ha : e.accept h { d.tx with type := t } with err' | tx
  · simp only [ha, Option.some.injEq, Stop.fail.injEq] at hstop ⊢
    exact .unfit (.first he hl) (hstop ▸ Entry.check_of_accept ha)
  · simp only [ha] at hstop
    cases hstop

lemma refuses_readField {e : Entry} {rest : List Entry} {budget budget₁ : Option Nat}
    (hheld : Header.canDecode d.partialHeader.held = .ok false)
    (hphase : d.phase = .fields (e :: rest) none budget) (hw : e.Awaits d.tx)
    (hstop : (d.readField c e rest budget₁).stop? = some (.fail err)) :
    d.Refuses c err (d.readField c e rest budget₁).decoder.tx := by
  rw [readField_eq hheld] at hstop ⊢
  rcases hs : spend budget₁ (PartialHeader.scan d.partialHeader.held c.ahead).taken with
    err' | budget'
  · simp only [hs] at hstop ⊢
    obtain rfl := spend_eq_error hs
    cases hstop
    exact .other (by simp)
  simp only [hs] at hstop ⊢
  rcases PartialHeader.scan_cases d.partialHeader.held c.ahead with ⟨h, hdec⟩ | hcan | ⟨e', he⟩
  · simp only [PartialHeader.scan_of_decode hdec] at hstop ⊢
    rcases ha : e.accept h d.tx with err' | tx
    · simp only [ha, Option.some.injEq, Stop.fail.injEq] at hstop ⊢
      exact .unfit (.next hphase (read_of_decode hheld hdec)) (hstop ▸ Entry.check_of_accept ha)
    · simp only [ha] at hstop ⊢
      have ho : e.Opened ⟨h, 0⟩ { d.scanned c.ahead with tx := tx }.tx :=
        Entry.opened_of_accept hw ha
      exact .other (ne_fieldTooLong_of_readPayload ho hstop)
  · simp only [PartialHeader.scan_of_partial hcan] at hstop
    cases hstop
  · obtain rfl := Header.eq_invalidHeader_of_canDecode he
    simp only [PartialHeader.scan_of_refused he] at hstop
    cases hstop
    exact .other (by simp)

/-- **A step that fails does so for a header that does not fit its field**, or not for the length of
a field at all. -/
theorem refuses_step (hd : d.Sound) (hstop : (d.step c).stop? = some (.fail err)) :
    d.Refuses c err (d.step c).decoder.tx := by
  have hphase := hd.phase
  rw [step] at hstop ⊢
  rcases hp : d.phase with _ | _ | item | item | list | ⟨todo, current, budget⟩ | _ | _ <;>
    simp only [hp] at hstop ⊢
  · refine refuses_withHeader hd.held (fun h hdec hstop => ?_) hstop
    split_ifs at hstop ⊢
    cases hstop
    exact .other (by simp)
  · refine refuses_withHeader hd.held (fun h hdec hstop => ?_) hstop
    split_ifs at hstop ⊢ with hlist hshort
    · cases hstop
      exact .other (by simp)
    · exact refuses_enter (.short hp hdec (by simpa using hlist) hshort) rfl hstop
  · rcases hx : c.peek? with _ | x <;> simp only [hx] at hstop ⊢
    · cases hstop
    · split_ifs at hstop ⊢ with hle
      exact refuses_enter (.plain hp hx (Nat.not_le.1 hle)) rfl hstop
  · refine refuses_withHeader hd.held (fun h hdec hstop => ?_) hstop
    split_ifs at hstop ⊢
    cases hstop
    exact .other (by simp)
  · rcases hx : c.peek? with _ | tag <;> simp only [hx] at hstop ⊢
    · cases hstop
    · rcases ht : TxType.ofTag? tag with _ | t <;> simp only [ht] at hstop ⊢
      · cases hstop
        exact .other (by simp)
      · exact refuses_enter (.typed hp hx ht) rfl hstop
  · rw [hp] at hphase
    rcases todo with _ | ⟨e, rest⟩
    · cases hstop
    rcases current with _ | f
    · have hw : e.Awaits d.tx := hphase.2 e List.mem_cons_self
      simp only [readFields] at hstop ⊢
      split_ifs at hstop ⊢
      · cases hstop
        exact .other (by simp)
      · cases hstop
      · exact refuses_readField hd.held hp hw hstop
      · exact refuses_readField hd.held hp hw hstop
    · exact .other (ne_fieldTooLong_of_readPayload hphase.2.1 hstop)
  · cases hstop
  · cases hstop
    exact .other (by simp)

/-! ### What was looked at is still ahead -/

/-- A byte that a decoder has looked at is still ahead, and nothing is held before it: the lead of a
content list until its header is read, and the tag until it is read as a field. -/
def Foresees (d : Decoder) (ahead : Bytes) : Prop :=
  match d.phase with
  | .wrapper _ => d.partialHeader.held = []
  | .content _ => ∃ x r, d.partialHeader.held ++ ahead = x :: r ∧ listLead ≤ x.toNat
  | .typeTag list => d.partialHeader.held = [] ∧ list.isList = true
  | .fields (e :: _) current _ => e.kind = .list ∨ e.kind = .tag →
    d.partialHeader.held = [] ∧ ahead.head? = some d.tx.type.id ∧ (current = none ↔ e.kind = .tag)
  | _ => True

section Foresees

variable {a b : Bytes} {stop? : Option Stop}

lemma Foresees.append (h : d.Foresees a) (b : Bytes) : d.Foresees (a ++ b) := by
  rw [Foresees] at h ⊢
  generalize d.phase = phase at h ⊢
  rcases phase with _ | _ | item | item | list | ⟨_ | ⟨e, rest⟩, current, budget⟩ | _ | _
  · trivial
  · trivial
  · exact h
  · obtain ⟨x, r, hx, hle⟩ := h
    refine ⟨x, r ++ b, ?_, hle⟩
    rw [← List.append_assoc, hx, List.cons_append]
  · exact h
  · trivial
  · intro hk
    obtain ⟨hheld, hhead, hcurrent⟩ := h hk
    exact ⟨hheld, by rw [List.head?_append, hhead]; rfl, hcurrent⟩
  · trivial
  · trivial

/-- A tag that is ahead is read as a byte that is its own item. -/
lemma decode_of_foreseen {t : TxType} (hhead : a.head? = some t.id) :
    Header.decode a = .ok ⟨1, false, 0⟩ := by
  obtain ⟨r, rfl⟩ := List.head?_eq_some_iff.1 hhead
  exact Header.decode_single t.id_lt r

/-- Payload leads to a list or a tag only from the list before the tag. -/
lemma Pays.foresees {t : TxType} {e : Entry} {rest : List Entry} {f : OpenField}
    {budget : Option Nat} (hp : d.Pays c e rest f budget d' c' stop?)
    (hsuffix : e :: rest <:+ t.layout)
    (hlist : e.kind = .list → d.partialHeader.held = [] ∧ c.ahead.head? = some d.tx.type.id)
    (htag : e.kind = .tag → stop? = none) : d'.Foresees c'.ahead := by
  cases hp with
  | list hk =>
      rw [Foresees, among]
      rcases rest with _ | ⟨e', rest⟩
      · trivial
      · intro hk'
        have hne := (TxType.kind_of_suffix hsuffix List.mem_cons_self).1
        exact ⟨(hlist hk).1, (hlist hk).2, ⟨fun _ => hk'.resolve_left hne, fun _ => rfl⟩⟩
  | closes hk =>
      rw [Foresees, among]
      rcases rest with _ | ⟨e', rest⟩
      · trivial
      · obtain ⟨hnlist, hntag⟩ := TxType.kind_of_suffix hsuffix List.mem_cons_self
        exact fun hk' => (hk'.elim hnlist (hntag hk)).elim
  | waits hk => exact fun hk' => (hk'.elim hk fun ht => by cases htag ht).elim

/-- **A step that goes on or waits** still has ahead what was looked at. -/
theorem Foresees.of_moves (h : d.Foresees c.ahead) (hd : d.Sound) (hm : d.Moves c d' c' stop?)
    (hstop : stop? = none ∨ stop? = some .suspend) : d'.Foresees c'.ahead := by
  have hsound := hd.phase
  rw [Foresees] at h
  cases hm with
  | @holds phase hphase hcan =>
      generalize hp : d.phase = phase₀ at h hphase
      cases hphase with
      | init => trivial
      | envelope => trivial
      | content =>
          obtain ⟨x, r, hx, hle⟩ := h
          refine ⟨x, r, ?_, hle⟩
          rw [Cursor.ahead_take, List.drop_length, List.append_nil]
          exact hx
      | fields =>
          intro hk
          -- a tag would be a whole header
          obtain ⟨hheld, hhead, -⟩ := h hk
          rw [hheld, List.nil_append,
            Header.canDecode_eq_true_iff.2 ⟨_, decode_of_foreseen hhead⟩] at hcan
          cases hcan
  | peeks hphase hend => exact h
  | outer => trivial
  | wraps => rfl
  | lists hphase hx hle =>
      rw [hphase] at h
      obtain ⟨r, hr⟩ := List.head?_eq_some_iff.1 hx
      refine ⟨_, r, ?_, hle⟩
      rw [h, hr]
      rfl
  | fills hphase hdec =>
      rw [hphase] at h
      obtain ⟨x, r, hx, hle⟩ := h
      exact ⟨rfl, Header.isList_of_decode (hx ▸ hdec) hle⟩
  | @enters _ _ t hdr _ e rest tx he hl ha =>
      have htype : tx.type = t := by
        have hs : e.Spares { d.tx with type := t } tx := Entry.spares_of_accept ha
        exact hs.type
      cases he with
      | short =>
          obtain ⟨rfl, -⟩ := List.cons.inj hl
          rintro (hk | hk) <;> cases hk
      | plain =>
          obtain ⟨rfl, -⟩ := List.cons.inj hl
          rintro (hk | hk) <;> cases hk
      | typed hphase htag ht =>
          rw [hphase] at h
          obtain ⟨hne, rfl⟩ := TxType.ofTag?_eq_some_iff.1 ht
          rw [TxType.layout_typed hne] at hl
          obtain ⟨rfl, -⟩ := List.cons.inj hl
          exact fun _ => ⟨h.1, htag.trans (congrArg (fun t => some t.id) htype.symm), by simp⟩
  | @pays e rest f budget d₁ c₁ stop? hphase hp =>
      rw [hphase] at hsound h
      refine hp.foresees hsound.1 (fun hk => ⟨(h (.inl hk)).1, (h (.inl hk)).2.1⟩) fun hk => ?_
      cases (h (.inr hk)).2.2.2 hk
  | @opens e rest hdr budget budget' tx d₁ c₁ stop? hphase _ hdec _ ha hp =>
      rw [hphase] at hsound h
      refine hp.foresees hsound.1 (fun hk => ?_) fun hk => ?_
      · cases hk.symm.trans ((h (.inl hk)).2.2.1 rfl)
      · -- a tag is whole as soon as it is ahead
        obtain ⟨hheld, hhead, -⟩ := h (.inr hk)
        rw [hheld, List.nil_append, decode_of_foreseen hhead] at hdec
        cases hdec
        cases hp with
        | list => rfl
        | closes => rfl
        | waits _ hlt =>
            rw [ahead_past_of_nil hheld] at hlt
            have hnil : c.ahead = [] := List.length_eq_zero_iff.1 (Nat.lt_one_iff.1 hlt)
            rw [hnil] at hhead
            cases hhead
  | ends => rcases hstop with h | h <;> cases h
  | early => rcases hstop with h | h <;> cases h
  | complete => rcases hstop with h | h <;> cases h
  | fails => rcases hstop with h | h <;> cases h

end Foresees

lemma Reaches.foresees (hr : d.Reaches chunk d' c') (hd : d.Sound) (h : d.Foresees []) :
    d'.phase ≠ .complete ∧ d'.Foresees c'.ahead := by
  have hinv := hr.visits.invariant (P := fun d₁ c₁ => d₁.phase ≠ .complete ∧ d₁.Foresees c₁.ahead)
    (hd.owing _) hr.takes.ne_failed ⟨hr.takes.ne_complete, h.append chunk⟩
    fun hd₁ h₁ hm _ => ⟨hm.ne_failed.2, h₁.2.of_moves hd₁ hm (.inl rfl)⟩
  exact hinv.2.2

/-- **Between two chunks**, what was looked at is still to come. -/
theorem foresees_after {len : Nat} (h : create len = .ok d) {chunks : List Bytes}
    (hc : (d.after chunks).phase ≠ .complete) (hf : (d.after chunks).phase ≠ .failed) :
    (d.after chunks).Foresees [] := by
  refine (Waiting.after_induction (P := fun d' _ => d'.Foresees []) (waiting_create h) ?_ ?_ chunks
    hc hf).2
  · obtain ⟨-, rfl⟩ := create_eq_ok_iff.1 h
    trivial
  · intro d' chunks chunk hw h' hle hr
    obtain ⟨d₁, c₁, hreach, hstop, hdec⟩ := exists_reaches_of_needsMoreInput (hw.takes hle) hr
    obtain ⟨hd₁, hmoves⟩ := hreach.moves hw.sound hstop
    have h₁ := (hreach.foresees hw.sound h').2.of_moves hd₁ hmoves (.inr rfl)
    rwa [hdec, ← hmoves.ahead_eq_nil]

/-! ### The guards -/

/-- A step for which no guard is needed. -/
structure NeedsNoGuard (d : Decoder) (c : Cursor) : Prop where
  /-- The decoder has not ended. -/
  goesOn : d.phase ≠ .complete ∧ d.phase ≠ .failed
  /-- No more bytes of a header are held than there is room for. -/
  header : (d.partialHeader.read c).result ≠ .error .headerOverflow
  /-- There is a field to enter. -/
  entered : ∀ {d₁ c₁ t h budget}, d.Enters c d₁ c₁ t h budget → t.layout ≠ []
  /-- A field that begins is one of the layout. -/
  listed : ∀ {e h tx}, d.Begins c e h tx → e ∈ tx.type.layout
  /-- The list that holds the content begins with the header that was kept for it, which fits. -/
  list : ∀ {e h tx}, d.Begins c e h tx → e.kind = .list →
    d.phase = .typeTag h ∧ e.kind.check h = .ok ()
  /-- The tag begins with the byte that tells the type, which is an item of its own, and fits. -/
  tag : ∀ {e h tx}, d.Begins c e h tx → e.kind = .tag →
    c.peek? = some tx.type.id ∧ h = ⟨1, false, 0⟩ ∧ e.kind.check h = .ok ()
  /-- No field is refused for a type that is not supported. -/
  supported : ∀ {e h tx}, d.Begins c e h tx → e.kind.check h ≠ .error .unsupportedType
  /-- Payload is never refused by the field that it belongs to. -/
  accepted : ∀ {e f c₁ tx}, d.Asks c e f c₁ tx →
    ∃ tx', e.kind.apply e.field f.header f.position (c₁.take f.remaining).1 tx = .ok tx'
  /-- A field is refused for its length when it begins, before anything of it is in the record. -/
  tooLong : (d.step c).stop? = some (.fail .fieldTooLong) → ∃ e h tx, d.Begins c e h tx ∧
    e.kind.check h = .error .fieldTooLong ∧ (d.step c).decoder.tx = tx ∧ e.Unwritten tx

/-- A field that is not begun has left nothing. -/
lemma unwritten_of_newBut {t : TxType} {begun rest : List Entry} {e : Entry} {tx : Transaction}
    (hl : begun ++ e :: rest = t.layout) (hrecord : tx.NewBut begun) (hw : e.Awaits tx) :
    e.Unwritten tx := by
  have hmem : ∀ {e'}, e' ∈ begun → e' ∈ t.layout := fun h => hl ▸ List.mem_append_left _ h
  have he : e ∈ t.layout := hl ▸ List.mem_append_right _ List.mem_cons_self
  have hne : ∀ e' ∈ begun, e' ≠ e := fun e' he' heq =>
    field_ne_of_begun hl he' List.mem_cons_self (congrArg Entry.field heq)
  obtain ⟨haddress, hratio, hdata⟩ := TxType.field_of_mem_layout he
  refine ⟨hw, fun hk => hrecord.recipient fun e' he' hk' => ?_,
    fun hk => hrecord.feeRatio fun e' he' hk' => ?_,
    fun hk => hrecord.dataPresent fun e' he' hk' => ?_⟩
  · exact hne e' he' (((TxType.field_of_mem_layout (hmem he')).1 hk').trans (haddress hk).symm)
  · exact hne e' he' (((TxType.field_of_mem_layout (hmem he')).2.1 hk').trans (hratio hk).symm)
  · exact hne e' he' (((TxType.field_of_mem_layout (hmem he')).2.2 hk').trans (hdata hk).symm)

/-- A field that begins is one of the layout, and has left nothing. -/
lemma Begins.spec {e : Entry} {h : Header} {tx : Transaction} {log : List Event}
    (hb : d.Begins c e h tx) (ho : d.Orderly) (ht : d.Traces log) :
    e ∈ tx.type.layout ∧ e.Unwritten tx := by
  cases hb with
  | @first _ _ t _ _ _ rest he hl =>
      have hmem : e ∈ t.layout := hl ▸ List.mem_cons_self
      have hbegun : [] ++ e :: rest = t.layout := hl.symm
      rw [(he.spec ho).1]
      exact ⟨hmem, unwritten_of_newBut hbegun (.new t []) (TxType.awaits_of_mem_layout hmem)⟩
  | @next _ rest _ _ hphase =>
      have hsound := ho.sound.phase
      have hbegun := ht.phase
      rw [hphase] at hsound hbegun
      exact ⟨hsound.1.subset List.mem_cons_self,
        unwritten_of_newBut hbegun ht.record (hsound.2 e List.mem_cons_self)⟩

/-- The list begins with the header that was kept for it. -/
lemma Begins.list {e : Entry} {h : Header} {tx : Transaction} (hb : d.Begins c e h tx)
    (hf : d.Foresees c.ahead) (hk : e.kind = .list) :
    d.phase = .typeTag h ∧ e.kind.check h = .ok () := by
  cases hb with
  | first he hl =>
      cases he with
      | short =>
          obtain ⟨rfl, -⟩ := List.cons.inj hl
          cases hk
      | plain =>
          obtain ⟨rfl, -⟩ := List.cons.inj hl
          cases hk
      | typed hphase =>
          rw [Foresees, hphase] at hf
          exact ⟨hphase, by rw [hk, Kind.check, if_pos rfl, if_pos hf.2]⟩
  | next hphase =>
      rw [Foresees, hphase] at hf
      cases hk.symm.trans ((hf (.inl hk)).2.2.1 rfl)

/-- The tag begins with the byte that was looked at. -/
lemma Begins.tag {e : Entry} {h : Header} {tx : Transaction} (hb : d.Begins c e h tx)
    (hd : d.Sound) (hf : d.Foresees c.ahead) (hk : e.kind = .tag) :
    c.peek? = some tx.type.id ∧ h = ⟨1, false, 0⟩ ∧ e.kind.check h = .ok () := by
  cases hb with
  | @first _ _ t _ _ _ _ _ hl =>
      by_cases ht : t = .legacy
      · rw [ht] at hl
        obtain ⟨rfl, -⟩ := List.cons.inj hl
        cases hk
      · rw [TxType.layout_typed ht] at hl
        obtain ⟨rfl, -⟩ := List.cons.inj hl
        cases hk
  | next hphase hread =>
      rw [Foresees, hphase] at hf
      obtain ⟨hheld, hhead, -⟩ := hf (.inr hk)
      rw [PartialHeader.read_eq hd.held] at hread
      have hdec := PartialHeader.decode_of_scan hread
      rw [hheld, List.nil_append, decode_of_foreseen hhead] at hdec
      cases hdec
      exact ⟨hhead, rfl, by rw [hk]; rfl⟩

/-- **No guard is needed** for a step from a decoder that has not ended, if it is in order, agrees
with its log and still has ahead what it looked at. -/
theorem Orderly.needsNoGuard {log : List Event} (ho : d.Orderly) (ht : d.Traces log)
    (hf : d.Foresees c.ahead) (hgoes : d.phase ≠ .complete ∧ d.phase ≠ .failed) :
    d.NeedsNoGuard c where
  goesOn := hgoes
  header := by
    rw [PartialHeader.read_eq ho.sound.held]
    rcases PartialHeader.scan_cases d.partialHeader.held c.ahead with ⟨h, hdec⟩ | hcan | ⟨e, he⟩
    · simp [PartialHeader.scan_of_decode hdec]
    · simp [PartialHeader.scan_of_partial hcan]
    · obtain rfl := Header.eq_invalidHeader_of_canDecode he
      simp [PartialHeader.scan_of_refused he]
  entered := fun _ => TxType.layout_ne_nil _
  listed := fun hb => (hb.spec ho ht).1
  list := fun hb => hb.list hf
  tag := fun hb => hb.tag ho.sound hf
  supported := by
    intro e h tx hb
    by_cases hk : e.kind = .tag
    · rw [(hb.tag ho.sound hf hk).2.2]
      simp
    · exact Kind.check_ne_unsupportedType hk h
  accepted := fun hasks => ((ho.inRange c).payload hasks).accepted
  tooLong := by
    intro hstop
    have hrefuses := refuses_step ho.sound hstop
    generalize (d.step c).decoder.tx = tx at hrefuses ⊢
    cases hrefuses with
    | unfit hb hcheck => exact ⟨_, _, _, hb, hcheck, rfl, (hb.spec ho ht).2⟩
    | other hne => exact absurd rfl hne

lemma Reaches.needsNoGuard {len : Nat} {chunks : List Bytes} (hcreate : create len = .ok d)
    (hr : (d.after chunks).Reaches chunk d' c') : d'.NeedsNoGuard c' := by
  have ho := ((paused_create hcreate).after hr.takes.ne_failed).toOrderly
  have hforesees := foresees_after hcreate hr.takes.ne_complete hr.takes.ne_failed
  obtain ⟨hlen, rfl⟩ := create_eq_ok_iff.1 hcreate
  have htraces := (Traces.new len).after chunks
  obtain ⟨-, hf', ho'⟩ := hr.orderly ho
  obtain ⟨hc', hforesees'⟩ := hr.foresees ho.sound hforesees
  obtain ⟨log, htraces'⟩ := hr.visits.traces ⟨htraces.layout, htraces.phase, htraces.record⟩
  exact ho'.needsNoGuard htraces' hforesees' ⟨hc', hf'⟩

/-- A chunk that is refused for a field that is too long leaves nothing of this field. -/
lemma Takes.exists_begins (ht : d.Takes chunk)
    (hplaces : ∀ d' c', d.Reaches chunk d' c' → d'.NeedsNoGuard c')
    (herr : (d.update chunk).result = .error .fieldTooLong) :
    ∃ d' c' e h, d.Reaches chunk d' c' ∧ d'.Begins c' e h (d.update chunk).decoder.tx ∧
      e.kind.check h = .error .fieldTooLong ∧ e.Unwritten (d.update chunk).decoder.tx := by
  obtain ⟨d', c', hr, stop, hstop, hres, hdec⟩ := exists_reaches_update ht
  obtain rfl := Stop.eq_fail_of_answer (hres.symm.trans herr)
  obtain ⟨e, h, tx, hb, hcheck, htx, hun⟩ := (hplaces d' c' hr).tooLong hstop
  -- a failure leaves the record as the last step did
  have htx' : (d.update chunk).decoder.tx = tx := by
    rw [hdec]
    exact htx
  rw [htx']
  exact ⟨d', c', e, h, hr, hb, hcheck, hun⟩

/-- **The guards are never needed.** Whatever chunks a decoder was given, a further chunk is
answered with none of the failures that guards are for, unless the decoder had failed before. If the
answer is that a field is too long, that was found when the field began, and nothing of the field is
in the record. No step of the chunk needs a guard. -/
theorem guards_never_needed {len : Nat} (hlen : len ≤ maxLength) :
    ∃ d, create len = .ok d ∧ ∀ chunks chunk,
      ((d.after chunks).state ≠ .error → ∀ err,
        ((d.after chunks).update chunk).result = .error err →
          (err ≠ .invalidState ∧ err ≠ .headerOverflow ∧ err ≠ .incomplete) ∧
          (err = .fieldTooLong → ∃ d' c' e h, (d.after chunks).Reaches chunk d' c' ∧
            d'.Begins c' e h ((d.after chunks).update chunk).decoder.tx ∧
            e.kind.check h = .error .fieldTooLong ∧
            e.Unwritten ((d.after chunks).update chunk).decoder.tx)) ∧
      ∀ d' c', (d.after chunks).Reaches chunk d' c' → d'.NeedsNoGuard c' := by
  have hcreate := create_eq hlen
  refine ⟨_, hcreate, fun chunks chunk => ⟨fun hstate err herr => ?_, fun d' c' hr =>
    hr.needsNoGuard hcreate⟩⟩
  rcases Resting.after (.inl (waiting_create hcreate)) chunks with hw | hc | hf
  · rcases update_answer hw herr with ⟨-, rfl⟩ | ⟨hle, hbytes⟩
    · exact ⟨⟨by simp, by simp, by simp⟩, by simp⟩
    · refine ⟨hbytes.ne_guarded, ?_⟩
      rintro rfl
      exact (hw.takes hle).exists_begins (fun _ _ hr => hr.needsNoGuard hcreate) herr
  · rw [update_of_complete hc] at herr
    cases herr
  · exact absurd (congrArg Phase.state hf) hstate

/-- A nonce of 33 bytes is refused before the first of them is read. -/
theorem guards_never_needed_long_nonce :
    3 ≤ maxLength ∧ ∃ d, create 3 = .ok d ∧ (d.after [[0xc0]]).state ≠ .error ∧
      ((d.after [[0xc0]]).update [0xa1, 0x00]).result = .error .fieldTooLong ∧
      ∃ d' c' e h, (d.after [[0xc0]]).Reaches [0xa1, 0x00] d' c' ∧ d'.NeedsNoGuard c' ∧
        d'.Begins c' e h ((d.after [[0xc0]]).update [0xa1, 0x00]).decoder.tx ∧
        e.Unwritten ((d.after [[0xc0]]).update [0xa1, 0x00]).decoder.tx := by
  have hle : 3 ≤ maxLength := by decide
  obtain ⟨d, hd, hall⟩ := guards_never_needed hle
  obtain rfl : (⟨.init, {}, 3, {}⟩ : Decoder) = d := Except.ok.inj hd
  have hstate : (after ⟨.init, {}, 3, {}⟩ [[0xc0]]).state = .envelope := by cbv
  have hne : (after ⟨.init, {}, 3, {}⟩ [[0xc0]]).state ≠ .error := by
    rw [hstate]
    decide
  have hres : (update (after ⟨.init, {}, 3, {}⟩ [[0xc0]]) [0xa1, 0x00]).result
      = .error .fieldTooLong := by cbv
  obtain ⟨hanswer, hplaces⟩ := hall [[0xc0]] [0xa1, 0x00]
  obtain ⟨d', c', e, h, hr, hbegins, -, hun⟩ := (hanswer hne _ hres).2 rfl
  exact ⟨hle, _, hd, hne, hres, d', c', e, h, hr, hplaces d' c' hr, hbegins, hun⟩

end Decoder

end TxStream
