import Mathlib.Data.List.Basic
import TxStream.Proofs.Decoder.Gather
import TxStream.Proofs.Format.CutOff
import TxStream.Proofs.Format.Record

/-!
A decoder that asks for more input has gone as far as the bytes allow: it shows the state and the
field in which they leave off, whatever chunks they came in.

* `Stands`: a phase within a chunk, from where the bytes leave off as those ahead do;
* `Stands.of_moves`, `Stands.leavesOff`: every step that goes on keeps this, and one that waits has
  come to where the bytes leave off;
* `leavesOff_update`: so has a chunk that asks for more input;
* `state_field_iff_leavesOff`: and so have chunks in a row.
-/

namespace TxStream

/-- What comes after the header of a field whose payload is `n` bytes: the field is missing if they
are not all there, and otherwise the first one missing is found among those after it. -/
inductive MissingFrom (n : Nat) (e : Entry) (rest : List Entry) (r : Bytes) : Entry → Prop where
  | payload (hlt : r.length < n) : MissingFrom n e rest r e
  | later {e' : Entry} (hle : n ≤ r.length) (h : FirstMissing rest (r.drop n) e') :
      MissingFrom n e rest r e'

/-- Within a chunk `b`, a decoder stands in a phase with the bytes `r` ahead, and `b` leaves off
where they do. -/
inductive Stands (b : Bytes) : Phase → Bytes → Prop where
  | init : Stands b .init b
  | envelope {r : Bytes} (h : ∀ s f, WithinBody r s f → LeavesOff b s f) : Stands b .envelope r
  | wrapper {item : Header} {wrapper r : Bytes} (hw : IsHeader false item.len wrapper)
      (hne : item.len ≠ 0) (h : ∀ s f, WithinBody (wrapper ++ r) s f → LeavesOff b s f) :
      Stands b (.wrapper item) r
  | content {item : Header} {x : UInt8} {r : Bytes} (hx : r.head? = some x) (hle : 0xc0 ≤ x.toNat)
      (h : ∀ s f, WithinWrapped r s f → LeavesOff b s f) : Stands b (.content item) r
  | typeTag {list : Header} {n : Nat} {header r : Bytes} (hl : IsHeader true n header)
      (h : ∀ s f, WithinWrapped (header ++ r) s f → LeavesOff b s f) : Stands b (.typeTag list) r
  /-- The content list is open, and its items come next. -/
  | entered {e : Entry} {rest : List Entry} {f : OpenField} {budget : Option Nat} {r : Bytes}
      (hk : e.kind = .list) (hrest : ∀ e' ∈ rest, e'.kind ≠ .list)
      (h : ∀ e', FirstMissing rest r e' → LeavesOff b .fields (some e'.field)) :
      Stands b (.fields (e :: rest) (some f) budget) r
  | opened {e : Entry} {rest : List Entry} {header : Header} {budget : Option Nat} {r : Bytes}
      (hk : ∀ e' ∈ e :: rest, e'.kind ≠ .list)
      (h : ∀ e', MissingFrom header.len e rest r e' → LeavesOff b .fields (some e'.field)) :
      Stands b (.fields (e :: rest) (some ⟨header, 0⟩) budget) r
  | fields {todo : List Entry} {budget : Option Nat} {r : Bytes}
      (hk : ∀ e' ∈ todo, e'.kind ≠ .list)
      (h : ∀ e', FirstMissing todo r e' → LeavesOff b .fields (some e'.field)) :
      Stands b (.fields todo none budget) r

variable {b r : Bytes} {d d' : Decoder} {c c' : Cursor} {e e' : Entry} {rest : List Entry}
  {h : Header}

/-- A field is missing from its header on. -/
lemma MissingFrom.firstMissing (hd : Header.decode b = .ok h) (hstring : h.isList = false)
    (hm : MissingFrom h.len e rest (b.drop h.offset) e') : FirstMissing (e :: rest) b e' := by
  cases hm with
  | payload hlt => exact .here_of_decode hd hlt
  | later hle hrest => exact .next_of_decode hd hstring hle hrest

lemma isList_eq_false_of_accept {tx tx' : Transaction} (hk : e.kind ≠ .list)
    (ha : e.accept h tx = .ok tx') : h.isList = false :=
  ((Kind.check_eq_ok_iff hk).1 (Entry.accept_eq_ok ha).1).1

/-- No field of a layout is a list, unless it is the content. -/
lemma TxType.kind_of_mem_tail {t : TxType} : ∀ e ∈ t.layout.tail, e.kind ≠ .list := by
  revert t
  decide

/-- Only a type in which the fee is shared has a fee ratio. -/
lemma TxType.feePayer_of_ratio {t : TxType} :
    ∀ e ∈ t.layout, e.field = .ratio → t.feePayer = .partialFeeDelegated := by
  revert t
  decide

lemma BeginsNonce.of_short (hd : Header.decode b = .ok h) (hstring : h.isList = false)
    (hshort : (h.isSingle || h.len == 0) = true) : BeginsNonce b := by
  rcases Header.isHeader_of_decode hd with ⟨x, r, rfl, hx, -⟩ | ⟨header, r, rfl, hh, hoff⟩
  · exact .single hx
  · have hpos := hh.length_pos
    simp only [Header.isSingle, Bool.or_eq_true, beq_iff_eq] at hshort
    have hlen : h.len = 0 := by omega
    rw [hstring, hlen] at hh
    exact .empty hh

namespace Decoder

/-! ### Steps that go on -/

/-- A payload that is read to its end is followed by the fields after it. -/
lemma Pays.stands {budget : Option Nat} (hp : d.Pays c e rest ⟨h, 0⟩ budget d' c' none)
    (hk : ∀ e' ∈ e :: rest, e'.kind ≠ .list)
    (hm : ∀ e', MissingFrom h.len e rest c.ahead e' → LeavesOff b .fields (some e'.field)) :
    Stands b d'.phase c'.ahead ∧ d'.partialHeader = d.partialHeader := by
  cases hp with
  | list hlist => exact absurd hlist (hk e List.mem_cons_self)
  | closes _ hle =>
      refine ⟨.fields (fun e' he' => hk e' (List.mem_cons_of_mem e he')) fun e' hrest => ?_, rfl⟩
      rw [Cursor.ahead_take] at hrest
      exact hm e' (.later hle hrest)

/-- The fields are entered where the first item is a nonce, or the tag of typed content is there. -/
lemma Enters.stands {t : TxType} {budget : Option Nat} {tx : Transaction}
    (hs : Stands b d.phase c.ahead) (hheld : d.partialHeader.held = [])
    (he : d.Enters c d' c' t h budget) (hl : t.layout = e :: rest)
    (ha : e.accept h { d.tx with type := t } = .ok tx) :
    Stands b (.fields (e :: rest) (some ⟨h, 0⟩) budget) c'.ahead ∧
      d'.partialHeader.held = [] := by
  have hlegacy : ∀ e' ∈ TxType.legacy.layout, e'.kind ≠ .list := by decide
  cases he with
  | short hphase hdec hstring hshort =>
      rw [hheld, List.nil_append] at hdec
      rw [hphase] at hs
      rw [hl] at hlegacy
      cases hs with
      | envelope hbody =>
          refine ⟨.opened hlegacy fun e' hm => ?_, rfl⟩
          rw [ahead_past_of_nil hheld] at hm
          exact hbody _ _ (.legacy (.of_short hdec hstring hshort)
            (hl ▸ hm.firstMissing hdec hstring))
  | @plain item x hphase hx hlt =>
      rw [hphase] at hs
      rw [hl] at hlegacy
      cases hs with
      | @wrapper _ wrapper _ hw hne hbody =>
          obtain ⟨r, hr⟩ := List.head?_eq_some_iff.1 hx
          have hdec := Header.decode_of_isHeader hw c.ahead
          refine ⟨.opened hlegacy fun e' hm => ?_, hheld⟩
          have hnonce : BeginsNonce (wrapper ++ c.ahead) := hr ▸ .headed hw hne hlt
          refine hbody _ _ (.legacy hnonce (hl ▸ MissingFrom.firstMissing hdec rfl ?_))
          rwa [List.drop_left]
  | @typed list tag t hphase htag ht =>
      obtain ⟨hne, rfl⟩ := TxType.ofTag?_eq_some_iff.1 ht
      rw [hphase] at hs
      cases hs with
      | typeTag hlist hwrapped =>
          obtain ⟨r, hr⟩ := List.head?_eq_some_iff.1 htag
          have hrest : t.layout.tail = rest := by rw [hl]; rfl
          have hcontent : e.kind = .list := by
            rw [TxType.layout_typed hne] at hl
            rw [← (List.cons.inj hl).1]
          refine ⟨.entered hcontent (hrest ▸ TxType.kind_of_mem_tail) fun e' hm => ?_, hheld⟩
          rw [hr] at hm hwrapped
          exact hwrapped _ _ (.typed hlist hne (hrest ▸ hm))

/-- **A step that goes on** leaves the decoder where the bytes ahead leave off as before. -/
theorem Stands.of_moves (hs : Stands b d.phase c.ahead) (hheld : d.partialHeader.held = [])
    (hm : d.Moves c d' c' none) : Stands b d'.phase c'.ahead ∧ d'.partialHeader.held = [] := by
  cases hm with
  | outer hphase hdec hlist =>
      rw [hheld, List.nil_append] at hdec
      rw [hphase] at hs
      obtain ⟨outer, r, hr, ho, -, hdrop⟩ := Header.exists_isHeader hdec (.inl hlist)
      rw [hlist] at ho
      refine ⟨?_, rfl⟩
      rw [ahead_past_of_nil hheld, hdrop]
      cases hs with
      | init => exact .envelope fun s f hbody => hr ▸ .listed ho hbody
  | wraps hphase hdec hstring hlong =>
      rw [hheld, List.nil_append] at hdec
      rw [hphase] at hs
      simp only [Header.isSingle, Bool.or_eq_false_iff, beq_eq_false_iff_ne] at hlong
      obtain ⟨wrapper, r, hr, hw, -, hdrop⟩ := Header.exists_isHeader hdec (.inr hlong.1)
      rw [hstring] at hw
      refine ⟨?_, rfl⟩
      rw [ahead_past_of_nil hheld, hdrop]
      cases hs with
      | envelope hbody =>
          rw [hr] at hbody
          exact .wrapper hw hlong.2 hbody
  | lists hphase hx hle =>
      rw [hphase] at hs
      refine ⟨?_, hheld⟩
      cases hs with
      | wrapper hw hne hbody =>
          exact .content hx hle fun s f hwrapped => hbody s f (.wrapped hw hne hwrapped)
  | fills hphase hdec _ =>
      rw [hheld, List.nil_append] at hdec
      rw [hphase] at hs
      refine ⟨?_, rfl⟩
      rw [ahead_past_of_nil hheld]
      cases hs with
      | content hx hle hwrapped =>
          obtain ⟨r', hr'⟩ := List.head?_eq_some_iff.1 hx
          have hlist := Header.isList_of_decode (hr' ▸ hdec) hle
          obtain ⟨list, r, hr, hl, -, hdrop⟩ := Header.exists_isHeader hdec (.inl hlist)
          rw [hlist] at hl
          rw [hr] at hwrapped
          rw [hdrop]
          exact .typeTag hl hwrapped
  | enters he hl ha =>
      obtain ⟨hs', hheld'⟩ := he.stands hs hheld hl ha
      exact ⟨hs', hheld'⟩
  | pays hphase hp =>
      rw [hphase] at hs
      cases hs with
      | entered hk hrest hm =>
          cases hp with
          | list => exact ⟨.fields hrest hm, hheld⟩
          | closes hk' => exact absurd hk hk'
      | opened hk hm =>
          obtain ⟨hs', hsame⟩ := hp.stands hk hm
          exact ⟨hs', hsame ▸ hheld⟩
  | opens hphase _ hdec _ ha hp =>
      rw [hheld, List.nil_append] at hdec
      rw [hphase] at hs
      cases hs with
      | fields hk hm =>
          -- the field that is opened is no list, since the content list has been entered before
          have hstring := isList_eq_false_of_accept (hk _ List.mem_cons_self) ha
          obtain ⟨hs', hsame⟩ := hp.stands hk fun e' hmissing =>
            hm e' (MissingFrom.firstMissing hdec hstring (ahead_past_of_nil hheld c _ ▸ hmissing))
          exact ⟨hs', hsame ▸ rfl⟩

/-! ### Steps that wait -/

/-- **A step that waits** does so where the bytes leave off. -/
theorem Stands.leavesOff (hs : Stands b d.phase c.ahead) (hheld : d.partialHeader.held = [])
    (hm : d.Moves c d' c' (some .suspend)) : LeavesOff b d'.state d'.field? := by
  cases hm with
  | @holds phase hphase hcan =>
      rw [hheld, List.nil_append] at hcan
      have hnone := not_hasHeader_of_canDecode hcan
      rw [state, field?]
      generalize d.phase = phase₀ at hs hphase
      cases hphase with
      | init =>
          cases hs with
          | init => exact .init hnone
      | envelope =>
          cases hs with
          | envelope hbody => exact hbody _ _ (.envelope hnone)
      | content =>
          cases hs with
          | content hx hle hwrapped =>
              obtain ⟨r, hr⟩ := List.head?_eq_some_iff.1 hx
              rw [hr] at hnone hwrapped
              exact hwrapped _ _ (.content hle hnone)
      | @fields e rest budget budget' _ =>
          cases hs with
          | fields hk hm => exact hm e (.of_not_hasHeader hnone)
  | peeks hphase hend =>
      rw [state, field?]
      rcases hphase with ⟨item, hphase⟩ | ⟨list, hphase⟩
      · rw [hphase] at hs ⊢
        cases hs with
        | wrapper hw hne hbody =>
            rw [hend] at hbody
            exact hbody _ _ (.wrapped hw hne .wrapper)
      · rw [hphase] at hs ⊢
        cases hs with
        | typeTag hl hwrapped =>
            rw [hend, List.append_nil] at hwrapped
            exact hwrapped _ _ (.typeTag hl)
  | pays hphase hp =>
      rw [hphase] at hs
      cases hs with
      | entered hk hrest hm =>
          cases hp with
          | waits hk' => exact absurd hk hk'
      | opened hk hm =>
          cases hp with
          | waits _ hlt => exact hm _ (.payload hlt)
  | opens hphase _ hdec _ ha hp =>
      rw [hheld, List.nil_append] at hdec
      rw [hphase] at hs
      cases hs with
      | fields hk hm =>
          cases hp with
          | waits _ hlt =>
              refine hm _ (.here_of_decode hdec ?_)
              rwa [ahead_past_of_nil hheld] at hlt

/-- **A chunk that asks for more input** leaves a new decoder where its bytes leave off. -/
theorem leavesOff_update {len : Nat} (ht : Takes ⟨.init, {}, len, {}⟩ b)
    (hr : (update ⟨.init, {}, len, {}⟩ b).result = .ok .needsMoreInput) :
    LeavesOff b (update ⟨.init, {}, len, {}⟩ b).decoder.state
      (update ⟨.init, {}, len, {}⟩ b).decoder.field? := by
  have hd := (waiting_init len).sound
  obtain ⟨d', c', hreach, hstop, hdec⟩ := exists_reaches_of_needsMoreInput ht hr
  have hm := (hreach.moves hd hstop).2
  have hplace := hreach.visits.invariant
    (P := fun d c => Stands b d.phase c.ahead ∧ d.partialHeader.held = [])
    (hd.owing _) ht.ne_failed ⟨.init, rfl⟩ fun _ hs hm _ => Stands.of_moves hs.1 hs.2 hm
  rw [hdec]
  exact Stands.leavesOff hplace.2.2.1 hplace.2.2.2 hm

/-! ### Chunks in a row -/

lemma waiting_of_result {chunk : Bytes} (hd : d.Resting)
    (hr : (d.update chunk).result = .ok .needsMoreInput) : d.Waiting := by
  rcases hd with hw | hc | hf
  · exact hw
  · rw [update_of_complete hc] at hr
    cases hr
  · rw [update_of_failed hf] at hr
    cases hr

lemma exists_entry_of_field? {f : Field} (hd : d.Sound) (hf : d.field? = some f) :
    ∃ e ∈ d.tx.type.layout, e.field = f := by
  rcases d with ⟨phase, held, pending, tx⟩
  cases phase with
  | fields todo current budget =>
      rcases todo with _ | ⟨e, rest⟩
      · cases hf
      · refine ⟨e, ?_, Option.some.inj hf⟩
        cases current with
        | none => exact hd.phase.1.subset List.mem_cons_self
        | some f => exact hd.phase.1.subset List.mem_cons_self
  | _ => cases hf

/-- **The state and the field say where the bytes leave off.** Whenever the last of some chunks asks
for more input, the decoder shows a state and a field exactly if all of the bytes leave off in them.
It is at the fee ratio only for a type in which the fee is shared, and at no field outside of the
fields. -/
theorem state_field_iff_leavesOff {len : Nat} (h : create len = .ok d) {chunks : List Bytes}
    {chunk : Bytes} {u : Update} (hu : (d.after chunks).update chunk = u)
    (hr : u.result = .ok .needsMoreInput) :
    (∀ s f, u.decoder.state = s ∧ u.decoder.field? = f ↔
        LeavesOff (chunks ++ [chunk]).flatten s f) ∧
      (u.decoder.field? = some .ratio →
        u.decoder.tx.type.feePayer = .partialFeeDelegated) ∧
      (u.decoder.state ≠ .fields → u.decoder.field? = none) := by
  have hw := waiting_create h
  have hw' := waiting_of_result (Resting.after (.inl hw) chunks) (hu ▸ hr)
  have hroom := hw'.length_le (hu ▸ hr)
  have hlen := (pending_after h hw'.ne_complete hw'.ne_failed).2
  have hsound := (waiting_of_needsMoreInput hw' hroom (hu ▸ hr)).1.sound
  rw [hu] at hsound
  obtain ⟨-, rfl⟩ := create_eq_ok_iff.1 h
  have hle : (chunks ++ [chunk]).flatten.length ≤ len := by
    rw [List.flatten_append, List.length_append, List.flatten_singleton]
    omega
  obtain ⟨hresult, hstate, hfield, -⟩ := update_gather hw hle hu
  have hoff := leavesOff_update (hw.takes hle) ((hresult .needsMoreInput).1 hr)
  rw [← hstate, ← hfield] at hoff
  refine ⟨fun s f => ⟨?_, hoff.unique⟩, fun hf => ?_, fun hs => ?_⟩
  · rintro ⟨rfl, rfl⟩
    exact hoff
  · obtain ⟨e, he, hratio⟩ := exists_entry_of_field? hsound hf
    exact TxType.feePayer_of_ratio e he hratio
  · rcases hf : u.decoder.field? with _ | f
    · rfl
    · exact absurd (state_of_field? hf) hs

/-- A cancellation that shares the fee, cut off before the ratio. -/
theorem state_field_iff_leavesOff_ratio :
    ∃ d, create 12 = .ok d ∧
      ((d.after [[0xc0, 0x87, 0xc6]]).update [0x3a, 0x80, 0x80, 0x80, 0x80]).result
        = .ok .needsMoreInput ∧
      LeavesOff [0xc0, 0x87, 0xc6, 0x3a, 0x80, 0x80, 0x80, 0x80] .fields (some .ratio) := by
  have hcreate : create 12 = .ok ⟨.init, {}, 12, {}⟩ := rfl
  have hr : ((after ⟨.init, {}, 12, {}⟩ [[0xc0, 0x87, 0xc6]]).update
      [0x3a, 0x80, 0x80, 0x80, 0x80]).result = .ok .needsMoreInput := by cbv
  have hshown : ((after ⟨.init, {}, 12, {}⟩ [[0xc0, 0x87, 0xc6]]).update
      [0x3a, 0x80, 0x80, 0x80, 0x80]).decoder.field? = some .ratio := by cbv
  have hoff := (state_field_iff_leavesOff hcreate rfl hr).1 .fields (some .ratio)
  exact ⟨_, hcreate, hr, hoff.1 ⟨state_of_field? hshown, hshown⟩⟩

end Decoder

end TxStream
