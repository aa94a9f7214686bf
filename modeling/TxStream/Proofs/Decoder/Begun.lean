import Mathlib.Data.List.Basic
import TxStream.Proofs.Decoder.Gather
import TxStream.Proofs.Decoder.Range

/-!
What the log of a decoder tells about its record. A field is reported when it begins, so that the
log names the fields that may have left something in the record, also when decoding fails.

* `begunIn`: the fields that begin in a log, in order;
* `Transaction.NewBut`: a record that is new, but for what some fields have left in it;
* `Decoder.Traces`: a decoder and its log agree. The fields begun and those to come make up the
  layout of the type, and the record is new but for the fields begun;
* `Traces.step`, `Traces.run`, `Traces.update`, `Traces.after`: steps, runs, chunks and rows of
  chunks keep this, failing ones included;
* `record_keeps_defaults`: what the type of a record does not carry is as in a new record.
-/

namespace TxStream

/-! ### Fields in a log -/

/-- The field that an event reports to begin. -/
def Event.begun? : Event → Option Entry
  | .field e _ => some e
  | _ => none

/-- The fields that begin in a log, in order. -/
def begunIn (log : List Event) : List Entry := log.filterMap Event.begun?

lemma begunIn_append (log log' : List Event) :
    begunIn (log ++ log') = begunIn log ++ begunIn log' := List.filterMap_append

/-- A field is reported once, whether its header fits or not. -/
lemma begunIn_acceptanceLog (e : Entry) (h : Header) : begunIn (e.acceptanceLog h) = [e] := by
  rw [Entry.acceptanceLog]
  split <;> rfl

/-! ### Records that are new in part -/

namespace Transaction

/-- A record is new, but for what some fields have left in it. -/
structure NewBut (begun : List Entry) (tx : Transaction) : Prop where
  quantity : tx.FilledBy begun
  recipient : (∀ e ∈ begun, e.kind ≠ .address) → tx.recipient = .zero
  feeRatio : (∀ e ∈ begun, e.kind ≠ .ratio) → tx.feeRatio = 0
  dataPresent : (∀ e ∈ begun, e.kind ≠ .data) → tx.dataPresent = false

namespace NewBut

variable {begun begun' : List Entry} {tx tx' : Transaction} {e : Entry}

lemma new (t : TxType) (begun : List Entry) : NewBut begun { type := t } :=
  ⟨.new t begun, fun _ => rfl, fun _ => rfl, fun _ => rfl⟩

lemma mono (h : tx.NewBut begun) (hsub : begun ⊆ begun') : tx.NewBut begun' :=
  ⟨h.quantity.mono hsub, fun hk => h.recipient fun e he => hk e (hsub he),
    fun hk => h.feeRatio fun e he => hk e (hsub he),
    fun hk => h.dataPresent fun e he => hk e (hsub he)⟩

/-- A field that is begun may leave something. -/
lemma of_spares (h : tx.NewBut begun) (hs : e.Spares tx tx') (he : e ∈ begun) : tx'.NewBut begun :=
  ⟨h.quantity.of_spares hs he, fun hk => (hs.recipient (hk e he)).trans (h.recipient hk),
    fun hk => (hs.feeRatio (hk e he)).trans (h.feeRatio hk),
    fun hk => (hs.dataPresent (hk e he)).trans (h.dataPresent hk)⟩

end NewBut

end Transaction

/-! ### Decoders and their logs -/

namespace Decoder

/-- A decoder agrees with its log: what begins in it is the front of the layout, up to the fields
still to come, and nothing else has left anything in the record. -/
structure Traces (d : Decoder) (log : List Event) : Prop where
  layout : begunIn log <+: d.tx.type.layout
  phase : d.phase.Begun d.tx.type (begunIn log)
  record : d.tx.NewBut (begunIn log)

variable {d d' : Decoder} {c c' : Cursor} {log log' : List Event} {chunk : Bytes}

namespace Traces

/-- Only the fields that begin in the log matter. -/
lemma congr (h : d.Traces log) (heq : begunIn log' = begunIn log) : d.Traces log' := by
  obtain ⟨hlayout, hphase, hrecord⟩ := h
  rw [← heq] at hlayout hphase hrecord
  exact ⟨hlayout, hphase, hrecord⟩

/-- A failure leaves the record and the log as they are. -/
lemma failed (hlayout : begunIn log <+: d.tx.type.layout) (hrecord : d.tx.NewBut (begunIn log)) :
    Traces { d with phase := .failed } log :=
  ⟨hlayout, trivial, hrecord⟩

/-- A new decoder has begun no field. -/
lemma new (len : Nat) : Traces ⟨.init, {}, len, {}⟩ [] :=
  ⟨List.nil_prefix, rfl, .new .legacy []⟩

end Traces

end Decoder

/-- The decoder that a step leaves to the next step, or to the caller where it stops. -/
def Step.left (s : Step) : Decoder :=
  match s.stop? with
  | none => s.decoder
  | some stop => (Decoder.conclude ⟨s.decoder, s.cursor, stop, []⟩).decoder

/-- The decoder that a step leaves agrees with the log, as it stands after the step. -/
def Step.Traces (s : Step) (log : List Event) : Prop := s.left.Traces (log ++ s.log)

namespace Decoder

variable {d d' : Decoder} {c c' : Cursor} {log log' : List Event} {chunk : Bytes}

/-! ### Steps -/

lemma traces_enter (hnone : begunIn log = []) (hnew : d.tx.NewBut []) (c : Cursor) (t : TxType)
    (h : Header) (budget : Option Nat) : (d.enter c t h budget).Traces log := by
  have hnew' : Transaction.NewBut [] { d.tx with type := t } := by
    obtain ⟨hq, hr, hf, hp⟩ := hnew
    exact ⟨fun f q hq' => hq f q (by cases f <;> exact hq'), hr, hf, hp⟩
  rw [enter]
  rcases hl : t.layout with _ | ⟨e, rest⟩
  · exact absurd hl t.layout_ne_nil
  have hbegun : begunIn (log ++ .typed t :: e.acceptanceLog h) = [e] := by
    rw [begunIn_append, hnone]
    exact begunIn_acceptanceLog e h
  have hfront : [e] <+: t.layout := hl ▸ ⟨rest, rfl⟩
  dsimp only
  rcases ha : e.accept h { d.tx with type := t } with err | tx
  · refine .failed (d := among _ (e :: rest) none budget) ?_ ?_
    · rw [hbegun]
      exact hfront
    · rw [hbegun]
      exact hnew'.mono (List.nil_subset [e])
  · have hs : e.Spares { d.tx with type := t } tx := Entry.spares_of_accept ha
    have htype : tx.type = t := hs.type
    refine ⟨?_, ?_, ?_⟩ <;> dsimp only [Step.left, among] <;> rw [hbegun]
    · exact htype.symm ▸ hfront
    · exact ⟨List.mem_singleton_self e, by rw [htype, hl]; rfl⟩
    · exact (hnew'.mono (List.nil_subset [e])).of_spares hs (List.mem_singleton_self e)

/-- Payload belongs to a field that is begun. -/
lemma traces_readPayload {e : Entry} {rest : List Entry} (he : e ∈ begunIn log)
    (hlayout : begunIn log ++ rest = d.tx.type.layout) (hrecord : d.tx.NewBut (begunIn log))
    (c : Cursor) (f : OpenField) (budget : Option Nat) :
    (d.readPayload c e rest f budget).Traces log := by
  -- also a piece that is refused changes at most what the field fills
  have hwrite : ∀ position piece,
      begunIn log ++ rest
          = (e.kind.write e.field f.header position piece d.tx).tx.type.layout ∧
        (e.kind.write e.field f.header position piece d.tx).tx.NewBut (begunIn log) :=
    fun position piece =>
      have hs := e.spares_write f.header position piece d.tx
      ⟨hlayout.trans (congrArg TxType.layout hs.type.symm), hrecord.of_spares hs he⟩
  rw [Step.Traces]
  fun_cases readPayload d c e rest f budget with
  | case1 =>
      have hfailed : Traces { d with phase := .failed } log := .failed ⟨rest, hlayout⟩ hrecord
      exact hfailed.congr (congrArg begunIn (List.append_nil log))
  | case2 _ piece =>
      obtain ⟨hlayout', hrecord'⟩ := hwrite f.position piece
      rw [List.append_nil]
      exact .failed ⟨rest, hlayout'⟩ hrecord'
  | case3 _ piece =>
      obtain ⟨hlayout', hrecord'⟩ := hwrite f.position piece
      rw [List.append_nil]
      exact ⟨⟨rest, hlayout'⟩, hlayout', hrecord'⟩
  | case4 _ piece =>
      obtain ⟨hlayout', hrecord'⟩ := hwrite f.position piece
      rw [List.append_nil]
      exact ⟨⟨rest, hlayout'⟩, ⟨he, hlayout'⟩, hrecord'⟩
  | case5 =>
      rw [List.append_nil]
      exact ⟨⟨rest, hlayout⟩, hlayout, hrecord⟩

/-- The header of a field begins it. -/
lemma traces_readField {e : Entry} {rest : List Entry}
    (hlayout : begunIn log ++ e :: rest = d.tx.type.layout) (hrecord : d.tx.NewBut (begunIn log))
    (c : Cursor) (budget : Option Nat) : (d.readField c e rest budget).Traces log := by
  have hheader : ∀ h, begunIn (log ++ e.acceptanceLog h) = begunIn log ++ [e] := by
    intro h
    rw [begunIn_append, begunIn_acceptanceLog]
  have hlayout' : begunIn log ++ [e] ++ rest = d.tx.type.layout := by
    rw [List.append_assoc]
    exact hlayout
  have hrecord' := hrecord.mono (List.subset_append_left (begunIn log) [e])
  fun_cases readField d c e rest budget with
  | case1 =>
      rw [Step.Traces, List.append_nil]
      exact ⟨⟨e :: rest, hlayout⟩, trivial, hrecord⟩
  | case2 =>
      rw [Step.Traces, List.append_nil]
      exact ⟨⟨e :: rest, hlayout⟩, trivial, hrecord⟩
  | case3 =>
      rw [Step.Traces, List.append_nil]
      exact ⟨⟨e :: rest, hlayout⟩, hlayout, hrecord⟩
  | case4 _ _ _ _ h =>
      refine ⟨?_, trivial, ?_⟩ <;> dsimp only [Step.left, among] <;> rw [hheader]
      · exact ⟨rest, hlayout'⟩
      · exact hrecord'
  | case5 r _ budget' _ h _ tx ha =>
      have hs : e.Spares d.tx tx := Entry.spares_of_accept ha
      have hmem : e ∈ begunIn log ++ [e] := List.mem_append_right _ (List.mem_singleton_self e)
      rw [← hheader h] at hlayout' hrecord' hmem
      have hp := traces_readPayload
        (d := { d with partialHeader := (d.partialHeader.read c).partialHeader, tx := tx }) hmem
        (hlayout'.trans (congrArg TxType.layout hs.type.symm)) (hrecord'.of_spares hs hmem)
        r.cursor ⟨h, 0⟩ budget'
      rw [Step.Traces, List.append_assoc] at hp
      exact hp

lemma traces_readFields {todo : List Entry} {current : Option OpenField} {budget : Option Nat}
    (hphase : d.phase = .fields todo current budget) (h : d.Traces log) (c : Cursor) :
    (d.readFields c todo current budget).Traces log := by
  obtain ⟨hfront, hbegun, hrecord⟩ := h
  rw [hphase] at hbegun
  fun_cases readFields d c todo current budget with
  | case1 =>
      rw [Step.Traces, List.append_nil]
      cases current with
      | none => exact ⟨hfront, .inl ((List.append_nil _).symm.trans hbegun), hrecord⟩
      | some f => exact hbegun.elim
  | case2 => exact traces_readPayload hbegun.1 hbegun.2 hrecord ..
  | case3 =>
      rw [Step.Traces, List.append_nil]
      exact ⟨hfront, trivial, hrecord⟩
  | case4 e rest hchain _ hends =>
      rw [Step.Traces, List.append_nil]
      have htype : d.tx.type = .legacy := by
        simp only [endsBeforeChain, Bool.and_eq_true, beq_iff_eq] at hends
        exact hends.1.1.1
      exact ⟨hfront, .inr ⟨htype, e, rest, hchain, hbegun⟩, hrecord⟩
  | case5 => exact traces_readField hbegun hrecord ..
  | case6 => exact traces_readField hbegun hrecord ..

/-- A header outside of the fields begins none. -/
lemma traces_withHeader {go : Decoder → Cursor → Header → Step} (h : d.Traces log)
    (hgo : ∀ {d' c' h}, d'.phase = d.phase → d'.tx = d.tx → (go d' c' h).Traces log) :
    (d.withHeader c go).Traces log := by
  fun_cases withHeader d c go with
  | case1 =>
      rw [Step.Traces, List.append_nil]
      exact ⟨h.layout, trivial, h.record⟩
  | case2 =>
      rw [Step.Traces, List.append_nil]
      exact ⟨h.layout, h.phase, h.record⟩
  | case3 => exact hgo rfl rfl

/-- **A step keeps a decoder in agreement with its log**, whether it goes on, waits, ends or
fails. -/
theorem Traces.step (h : d.Traces log) (c : Cursor) : (d.step c).Traces log := by
  obtain ⟨hfront, hbegun, hrecord⟩ := h
  -- outside of the fields a step leaves the record alone, and its log begins no field
  have hgoes : ∀ {d' : Decoder} {c'}, d'.tx = d.tx → d'.phase.Begun d.tx.type (begunIn log) →
      Step.Traces ⟨d', c', none, []⟩ log := by
    rintro ⟨phase, held, pending, tx⟩ c' rfl hb
    rw [Step.Traces, List.append_nil]
    exact ⟨hfront, hb, hrecord⟩
  have hfails : ∀ {d' : Decoder} {c' e log'}, d'.tx = d.tx → begunIn log' = [] →
      Step.Traces ⟨d', c', some (.fail e), log'⟩ log := by
    rintro ⟨phase, held, pending, tx⟩ c' e log' rfl hnone
    have hfailed : Traces ⟨.failed, held, pending, d.tx⟩ log := ⟨hfront, trivial, hrecord⟩
    refine hfailed.congr ?_
    rw [begunIn_append, hnone, List.append_nil]
  have hwaits : Step.Traces ⟨d, c, some .suspend, []⟩ log := by
    rw [Step.Traces, List.append_nil]
    exact ⟨hfront, hbegun, hrecord⟩
  -- entering the fields begins one, which is the first of the type
  have henters : begunIn log = [] → ∀ {d' : Decoder}, d'.tx = d.tx → ∀ c' t h budget,
      (d'.enter c' t h budget).Traces log := fun hnone _ htx c' t h budget =>
    traces_enter hnone (hnone ▸ htx ▸ hrecord) c' t h budget
  fun_cases Decoder.step d c with
  | case1 hp =>
      rw [hp] at hbegun
      refine traces_withHeader ⟨hfront, hp ▸ hbegun, hrecord⟩ fun _ htx => ?_
      split
      · exact hgoes htx hbegun
      · exact hfails htx rfl
  | case2 hp =>
      rw [hp] at hbegun
      refine traces_withHeader ⟨hfront, hp ▸ hbegun, hrecord⟩ fun _ htx => ?_
      split
      · exact hfails htx rfl
      · split
        · exact henters hbegun htx ..
        · exact hgoes htx hbegun
  | case3 => exact hwaits
  | case4 item hp =>
      rw [hp] at hbegun
      exact hgoes rfl hbegun
  | case5 item hp =>
      rw [hp] at hbegun
      exact henters hbegun rfl ..
  | case6 item hp =>
      rw [hp] at hbegun
      refine traces_withHeader ⟨hfront, hp ▸ hbegun, hrecord⟩ fun _ htx => ?_
      split
      · exact hgoes htx hbegun
      · exact hfails htx rfl
  | case7 => exact hwaits
  | case8 => exact hfails rfl rfl
  | case9 list hp =>
      rw [hp] at hbegun
      exact henters hbegun rfl ..
  | case10 todo current budget hp => exact traces_readFields hp ⟨hfront, hbegun, hrecord⟩ c
  | case11 hp =>
      rw [hp] at hbegun
      rw [Step.Traces, List.append_nil]
      exact ⟨hfront, hbegun, hrecord⟩
  | case12 => exact hfails rfl rfl

/-! ### Runs and chunks -/

/-- Closing a run begins no field, and is not changed by what was reported before. -/
lemma conclude_log (r : Run) (before : List Event) :
    begunIn (conclude r).log = begunIn r.log ∧
      (conclude { r with log := before ++ r.log }).decoder = (conclude r).decoder := by
  rcases r with ⟨d, c, _ | _ | e, log⟩
  · exact ⟨rfl, rfl⟩
  · exact ⟨(begunIn_append ..).trans (List.append_nil _), rfl⟩
  · exact ⟨(begunIn_append ..).trans (List.append_nil _), rfl⟩

/-- **So does a run.** -/
theorem Traces.run (h : d.Traces log) (c : Cursor) :
    (conclude (d.run c)).decoder.Traces (log ++ (d.run c).log) := by
  induction d, c using run_induction generalizing log with
  | stop d c stop hstop =>
      have hs := h.step c
      rw [Step.Traces, Step.left, hstop] at hs
      rw [run_of_stop hstop]
      cases stop <;> exact hs
  | goesOn d c hstop ih =>
      have hs := h.step c
      rw [Step.Traces, Step.left, hstop] at hs
      have hrun := ih hs
      rw [List.append_assoc] at hrun
      rw [run_of_goesOn hstop, (conclude_log _ _).2]
      exact hrun

lemma Visits.traces (hv : d.Visits c d' c') (h : d.Traces log) : ∃ log', d'.Traces log' := by
  induction hv with
  | start => exact ⟨log, h⟩
  | @step d₁ c₁ _ hstop ih =>
      obtain ⟨log', h'⟩ := ih
      have hs := h'.step c₁
      rw [Step.Traces, Step.left, hstop] at hs
      exact ⟨_, hs⟩

/-- **A chunk keeps a decoder in agreement with its log**, whatever it comes to. -/
theorem Traces.update (h : d.Traces log) (chunk : Bytes) :
    (d.update chunk).decoder.Traces (log ++ (d.update chunk).log) := by
  fun_cases Decoder.update d chunk with
  | case1 hc => rwa [List.append_nil]
  | case2 hf => rwa [List.append_nil]
  | case3 =>
      have hfailed : Traces { d with phase := .failed } log := .failed h.layout h.record
      exact hfailed.congr ((begunIn_append ..).trans (List.append_nil _))
  | case4 =>
      have hd : Traces { d with pending := d.pending - chunk.length } log :=
        ⟨h.layout, h.phase, h.record⟩
      refine (hd.run (.start chunk)).congr ?_
      rw [begunIn_append, begunIn_append]
      exact congrArg _ (conclude_log _ []).1

/-- **Chunks in a row keep a decoder in agreement with its log**, up to the first failure and after
it. -/
theorem Traces.after (h : d.Traces log) (chunks : List Bytes) :
    (d.after chunks).Traces (log ++ (d.fed chunks).1) := by
  induction chunks generalizing d log with
  | nil => exact (List.append_nil log).symm ▸ h
  | cons chunk chunks ih =>
      have hu := h.update chunk
      rcases hr : (d.update chunk).result with e | p
      · have hafter : d.after (chunk :: chunks) = (d.update chunk).decoder :=
          after_of_failed ((phase_update d chunk).2 e hr) chunks
        rw [fed_cons_of_error chunks hr, hafter]
        exact hu
      · have hrest := ih hu
        rw [List.append_assoc] at hrest
        rw [fed_cons_of_ok hr]
        exact hrest

/-! ### What a type does not carry -/

/-- Which fields only some types have. -/
lemma carries_of_mem_layout {t : TxType} {e : Entry} (he : e ∈ t.layout) :
    (e.kind = .ratio → t.feePayer = .partialFeeDelegated) ∧
      (e.kind = .address → t.family ≠ .typed .contractDeploy ∧ t.family ≠ .typed .cancel) ∧
      (e.kind = .data → t.family ≠ .typed .valueTransfer ∧ t.family ≠ .typed .cancel) ∧
      (e.field = .value → t.family ≠ .typed .cancel) := by
  revert t e
  decide

lemma field_ne_of_begun {t : TxType} {begun todo : List Entry} {e e' : Entry}
    (h : begun ++ todo = t.layout) (he : e ∈ begun) (he' : e' ∈ todo) : e.field ≠ e'.field := by
  have hnd := t.nodup_layout
  rw [← h, List.map_append, List.nodup_append] at hnd
  exact hnd.2.2 _ (List.mem_map_of_mem he) _ (List.mem_map_of_mem he')

/-- What a record does not carry, or not yet, is as in a new record. -/
structure KeepsDefaults (d : Decoder) (log : List Event) : Prop where
  /-- Only where the fee is shared is a fee ratio kept. -/
  feeRatio : d.tx.type.feePayer ≠ .partialFeeDelegated → d.tx.feeRatio = 0
  /-- Deployments and cancellations have no recipient. -/
  recipient : d.tx.type.family = .typed .contractDeploy ∨ d.tx.type.family = .typed .cancel →
    d.tx.recipient = .zero
  /-- Cancellations move no value. -/
  value : d.tx.type.family = .typed .cancel → d.tx.value = .empty
  /-- Transfers of value and cancellations have no data. -/
  dataPresent : d.tx.type.family = .typed .valueTransfer ∨ d.tx.type.family = .typed .cancel →
    d.tx.dataPresent = false
  /-- The chain is empty until it is reported to begin. -/
  chainId : (∀ e ∈ begunIn log, e.field ≠ .chainId) → d.tx.chainId = .empty
  /-- Among the fields, it is empty as long as it is one of those to come and is not open. -/
  awaited : ∀ {todo current budget}, d.phase = .fields todo current budget →
    ⟨.chainId, .uint⟩ ∈ todo → (d.field? = some .chainId → current = none) → d.tx.chainId = .empty
  /-- The fields to come are the rest of the table of the family, without a fee ratio that the type
  does not carry. -/
  table : ∀ {todo current budget}, d.phase = .fields todo current budget →
    todo <:+ d.tx.type.family.table.filter d.tx.type.carries

/-- A decoder among the fields waits, and has the rest of a layout to come. -/
lemma Resting.suffix_layout {todo : List Entry} {current : Option OpenField} {budget : Option Nat}
    (hd : d.Resting) (hphase : d.phase = .fields todo current budget) :
    todo <:+ d.tx.type.layout := by
  rcases hd with hw | hc | hf
  · have hsound := hw.sound.phase
    rw [hphase] at hsound
    rcases todo with _ | ⟨e, rest⟩
    · exact List.nil_suffix
    · cases current with
      | none => exact hsound.1
      | some f => exact hsound.1
  · cases hphase.symm.trans hc
  · cases hphase.symm.trans hf

/-- A decoder that agrees with its log has filled in only what the type carries. -/
lemma Traces.keepsDefaults (h : d.Traces log) (hd : d.Resting) : d.KeepsDefaults log := by
  have hmem : ∀ {e}, e ∈ begunIn log → e ∈ d.tx.type.layout := fun he => h.layout.subset he
  refine ⟨fun hp => h.record.feeRatio fun e he hk => hp ((carries_of_mem_layout (hmem he)).1 hk),
    ?_, ?_, ?_, h.record.quantity .chainId _ rfl, ?_, ?_⟩
  · intro hfamily
    refine h.record.recipient fun e he hk => ?_
    obtain ⟨hdeploy, hcancel⟩ := (carries_of_mem_layout (hmem he)).2.1 hk
    exact hfamily.elim hdeploy hcancel
  · intro hfamily
    refine h.record.quantity .value _ rfl fun e he hf => ?_
    exact (carries_of_mem_layout (hmem he)).2.2.2 hf hfamily
  · intro hfamily
    refine h.record.dataPresent fun e he hk => ?_
    obtain ⟨htransfer, hcancel⟩ := (carries_of_mem_layout (hmem he)).2.2.1 hk
    exact hfamily.elim htransfer hcancel
  · intro todo current budget hphase hchain hopen
    have hbegun := h.phase
    rw [hphase] at hbegun
    refine h.record.quantity .chainId _ rfl fun e he => ?_
    cases current with
    | none => exact field_ne_of_begun hbegun he hchain
    | some f =>
        rcases todo with _ | ⟨e₀, rest⟩
        · exact hbegun.elim
        rcases List.mem_cons.1 hchain with rfl | hlater
        · have hfield : d.field? = some .chainId := by
            rw [field?, hphase]
            rfl
          cases hopen hfield
        · exact field_ne_of_begun hbegun.2 he hlater
  · intro todo current budget hphase
    exact hd.suffix_layout hphase

/-- **What a transaction does not carry keeps its default.** Whatever chunks a new decoder is given,
and whether it waits, is complete or has failed after them, its record has no fee ratio unless the
fee is shared, no recipient in a deployment or a cancellation, no value in a cancellation, no data
in a transfer of value or a cancellation, and no chain before that field has begun. Among the
fields, it goes through the table of the family that its record names. -/
theorem record_keeps_defaults {len : Nat} (hlen : len ≤ maxLength) :
    ∃ d, create len = .ok d ∧
      ∀ chunks : List Bytes, (d.after chunks).KeepsDefaults (d.fed chunks).1 := by
  refine ⟨_, create_eq hlen, fun chunks => ?_⟩
  have hrest := Resting.after (.inl (waiting_init len)) chunks
  exact ((Traces.new len).after chunks).keepsDefaults hrest

/-- A deployment that names a recipient of two bytes and then fails has none in its record. -/
theorem record_keeps_defaults_deployment :
    11 ≤ maxLength ∧ ∃ d, create 11 = .ok d ∧
      (d.after [[0xc0, 0x89, 0xc8, 0x28, 0x80, 0x80],
        [0x80, 0x82, 0x11, 0x11, 0xc0]]).state = .error ∧
      (d.after [[0xc0, 0x89, 0xc8, 0x28, 0x80, 0x80],
        [0x80, 0x82, 0x11, 0x11, 0xc0]]).tx.recipient = .zero := by
  have hle : 11 ≤ maxLength := by decide
  obtain ⟨d, hd, hall⟩ := record_keeps_defaults hle
  obtain rfl : (⟨.init, {}, 11, {}⟩ : Decoder) = d := Except.ok.inj hd
  have hstate : (after ⟨.init, {}, 11, {}⟩ [[0xc0, 0x89, 0xc8, 0x28, 0x80, 0x80],
      [0x80, 0x82, 0x11, 0x11, 0xc0]]).state = .error := by cbv
  have hfamily : (after ⟨.init, {}, 11, {}⟩ [[0xc0, 0x89, 0xc8, 0x28, 0x80, 0x80],
      [0x80, 0x82, 0x11, 0x11, 0xc0]]).tx.type.family = .typed .contractDeploy := by cbv
  exact ⟨hle, _, hd, hstate, (hall _).recipient (.inl hfamily)⟩

end Decoder

end TxStream
