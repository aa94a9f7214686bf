import TxStream.Proofs.Decoder.Begun
import TxStream.Proofs.Decoder.Delivery

/-!
Payload that is dropped leaves no trace. Two decoders whose records agree in part stay in agreement
on the same bytes, if that part of a record depends on nothing else. So bytes of which a field keeps
nothing may be exchanged for others.

* `Transaction.View`: a part of each record that every field fills by that part alone;
* `Step.shown`: what a step comes to, as far as a view shows it;
* `shown_step`, `shown_run`: decoders that a view does not tell apart come to the same;
* `shown_readPayload`: neither does it tell pieces of payload apart that a field keeps alike;
* `deserialize_of_exchange`: exchanging such payload changes nothing that the view shows;
* `dropped_payload_is_ignored`: the fields that drop their payload, and data.
-/

namespace TxStream

/-- Results that are made equal are the same failure, or values that are made equal. -/
lemma map_eq_map_cases {α β : Type} {g : α → β} {r₁ r₂ : Except DecodeError α}
    (h : r₁.map g = r₂.map g) :
    (∃ e, r₁ = .error e ∧ r₂ = .error e) ∨ ∃ a b, r₁ = .ok a ∧ r₂ = .ok b ∧ g a = g b := by
  rcases r₁ with e₁ | a <;> rcases r₂ with e₂ | b
  · exact .inl ⟨e₁, rfl, congrArg Except.error (Except.error.inj h).symm⟩
  · cases h
  · cases h
  · exact .inr ⟨a, b, rfl, rfl, Except.ok.inj h⟩

/-! ### Views of a record -/

namespace Transaction

/-- A part of each record, the type included. What a field makes of this part does not depend on the
rest of the record. -/
structure View (g : Transaction → Transaction) : Prop where
  type : ∀ tx, (g tx).type = tx.type
  typed : ∀ {tx₁ tx₂} (t : TxType), g tx₁ = g tx₂ →
    g { tx₁ with type := t } = g { tx₂ with type := t }
  start : ∀ {tx₁ tx₂} (k : Kind) (h : Header), g tx₁ = g tx₂ →
    g (k.start h tx₁) = g (k.start h tx₂)
  apply : ∀ {tx₁ tx₂} (k : Kind) (field : Field) (h : Header) (position : Nat) (piece : Bytes),
    g tx₁ = g tx₂ → (k.apply field h position piece tx₁).map g
      = (k.apply field h position piece tx₂).map g

/-- The whole record is a view. -/
lemma view_id : View id := by
  refine ⟨fun _ => rfl, fun t h => ?_, fun k h' h => ?_, fun k field h' position piece h => ?_⟩
  all_goals
    obtain rfl := h
    rfl

/-- The record without the mark that data is present. -/
def unmarked (tx : Transaction) : Transaction := { tx with dataPresent := false }

lemma unmarked_start (k : Kind) (h : Header) (tx : Transaction) :
    (k.start h tx).unmarked = tx.unmarked := by
  rw [Kind.start]
  split_ifs <;> rfl

lemma quantity?_unmarked (tx : Transaction) (f : Field) :
    tx.unmarked.quantity? f = tx.quantity? f := by
  cases f <;> rfl

lemma unmarked_withQuantity (tx : Transaction) (q : Quantity) (f : Field) :
    (tx.withQuantity q f).unmarked = tx.unmarked.withQuantity q f := by
  cases f <;> rfl

/-- Payload of data changes the mark alone. -/
lemma unmarked_apply_data (field : Field) (h : Header) (position : Nat) (piece : Bytes)
    (tx : Transaction) :
    (Kind.data.apply field h position piece tx).map unmarked = .ok tx.unmarked := by
  rcases piece with _ | ⟨b, piece⟩
  · rfl
  · simp only [Kind.apply_eq]
    split_ifs <;> rfl

/-- The mark for data matters to no field. -/
lemma view_unmarked : View unmarked := by
  refine ⟨fun _ => rfl, fun t h => congrArg (fun tx => { tx with type := t }) h, fun k h' h => ?_,
    fun {tx₁ tx₂} k field h' position piece h => ?_⟩
  · rw [unmarked_start, unmarked_start, h]
  have hrecipient : tx₁.recipient = tx₂.recipient := by
    have hr := congrArg recipient h
    exact hr
  have hquantity : tx₁.quantity? field = tx₂.quantity? field := by
    rw [← quantity?_unmarked, h, quantity?_unmarked]
  cases k with
  | list => exact congrArg Except.ok h
  | tag => exact congrArg Except.ok h
  | discard => exact congrArg Except.ok h
  | uint =>
      rw [Kind.apply_eq, Kind.apply_eq, hquantity]
      dsimp only
      rcases tx₂.quantity? field with _ | q
      · rfl
      · dsimp only
        rcases q.append? piece with _ | q'
        · rfl
        · exact congrArg Except.ok (by rw [unmarked_withQuantity, unmarked_withQuantity, h])
  | address =>
      rw [Kind.apply_eq, Kind.apply_eq, hrecipient]
      dsimp only
      rcases tx₂.recipient.write? position piece with _ | a
      · rfl
      · exact congrArg Except.ok (congrArg (fun tx => { tx with recipient := a }) h)
  | ratio =>
      rcases piece with _ | ⟨b, piece⟩
      · exact congrArg Except.ok h
      · exact congrArg Except.ok (congrArg (fun tx => { tx with feeRatio := b }) h)
  | data => rw [unmarked_apply_data, unmarked_apply_data, h]

variable {g : Transaction → Transaction} {tx₁ tx₂ : Transaction}

/-- Neither does a header that is accepted depend on the rest. -/
lemma View.accept (hg : View g) (e : Entry) (h : Header) (htx : g tx₁ = g tx₂) :
    (e.accept h tx₁).map g = (e.accept h tx₂).map g := by
  rw [Entry.accept, Entry.accept]
  rcases e.kind.check h with err | ⟨⟩
  · rfl
  · exact congrArg Except.ok (hg.start e.kind h htx)

lemma View.type_eq (hg : View g) (htx : g tx₁ = g tx₂) : tx₁.type = tx₂.type := by
  rw [← hg.type, htx, hg.type]

end Transaction

open Transaction (View)

/-! ### What a view shows of a step -/

/-- A decoder, as far as a view shows its record. -/
def Decoder.through (g : Transaction → Transaction) (d : Decoder) : Decoder :=
  { d with tx := g d.tx }

/-- What a run comes to, as far as a view shows it. -/
def Outcome.through (g : Transaction → Transaction) : Outcome → Outcome
  | .goesOn d ahead => .goesOn (d.through g) ahead
  | .waits d => .waits (d.through g)
  | .ends d ahead => .ends (d.through g) ahead
  | .fails state field e => .fails state field e

/-- What a step comes to, as far as a view shows it. -/
def Step.shown (g : Transaction → Transaction) (s : Step) : Outcome := s.seen.2.through g

section Shown

variable {g : Transaction → Transaction} {d₁ d₂ : Decoder} {c₁ c₂ : Cursor}

namespace Decoder

lemma through_eq_iff : d₁.through g = d₂.through g ↔ d₁.phase = d₂.phase ∧
    d₁.partialHeader = d₂.partialHeader ∧ d₁.pending = d₂.pending ∧ g d₁.tx = g d₂.tx := by
  simp only [through, Decoder.mk.injEq]

/-- Decoders that a view does not tell apart differ in their records alone. -/
lemma exists_of_through_eq (h : d₁.through g = d₂.through g) :
    ∃ tx, d₂ = { d₁ with tx := tx } ∧ g d₁.tx = g tx := by
  obtain ⟨hphase, hheld, hpending, htx⟩ := through_eq_iff.1 h
  exact ⟨d₂.tx, by rw [hphase, hheld, hpending], htx⟩

end Decoder

open Decoder

/-- Steps that end alike, from decoders that a view does not tell apart. -/
lemma Step.shown_congr {stop? : Option Stop} {log₁ log₂ : List Event}
    (h : d₁.through g = d₂.through g) (hc : c₁.ahead = c₂.ahead) :
    Step.shown g ⟨d₁, c₁, stop?, log₁⟩ = Step.shown g ⟨d₂, c₂, stop?, log₂⟩ := by
  simp only [Step.shown, Step.seen, hc]
  rcases stop? with _ | _ | _ | e
  · exact congrArg (Outcome.goesOn · _) h
  · exact congrArg Outcome.waits h
  · exact congrArg (Outcome.ends · _) h
  · have hphase := (through_eq_iff.1 h).1
    simp only [Outcome.ofStop, Outcome.through, Decoder.state, Decoder.field?, hphase]

lemma Step.shown_after (g : Transaction → Transaction) (s : Step) (log : List Event) :
    (s.after log).shown g = s.shown g := rfl

/-- A view shows whether a step goes on, and with which bytes. -/
lemma Step.goesOn_of_shown {s₁ s₂ : Step} (h : s₁.shown g = s₂.shown g) (hstop : s₁.stop? = none) :
    s₂.stop? = none ∧ s₁.decoder.through g = s₂.decoder.through g ∧
      s₁.cursor.ahead = s₂.cursor.ahead := by
  rcases s₁ with ⟨d₁, c₁, _ | stop₁, log₁⟩
  · rcases s₂ with ⟨d₂, c₂, _ | _ | _ | e, log₂⟩
    · exact ⟨rfl, Outcome.goesOn.inj h⟩
    · cases h
    · cases h
    · cases h
  · cases hstop

namespace Decoder

variable {e : Entry} {rest : List Entry} {f : OpenField}

/-- **Pieces of payload that a field keeps alike** are not told apart, if as many bytes come after
them. -/
theorem shown_readPayload {budget : Option Nat} (h : d₁.through g = d₂.through g)
    (hlist : e.kind = .list → c₁.ahead = c₂.ahead)
    (hlength : (c₁.ahead.take f.remaining).length = (c₂.ahead.take f.remaining).length)
    (hdrop : c₁.ahead.drop f.remaining = c₂.ahead.drop f.remaining)
    (happly : (e.kind.apply e.field f.header f.position (c₁.ahead.take f.remaining) d₁.tx).map g
      = (e.kind.apply e.field f.header f.position (c₂.ahead.take f.remaining) d₂.tx).map g) :
    (d₁.readPayload c₁ e rest f budget).shown g = (d₂.readPayload c₂ e rest f budget).shown g := by
  obtain ⟨tx, rfl, htx⟩ := exists_of_through_eq h
  by_cases hk : e.kind = .list
  · rw [readPayload_list hk, readPayload_list hk]
    exact Step.shown_congr (through_eq_iff.2 ⟨rfl, rfl, rfl, htx⟩) (hlist hk)
  rw [readPayload, readPayload, if_pos (consumesPayload_eq hk), if_pos (consumesPayload_eq hk)]
  simp only [Cursor.take, hlength]
  rcases spend budget (c₂.ahead.take f.remaining).length with err | budget'
  · exact Step.shown_congr (through_eq_iff.2 ⟨rfl, rfl, rfl, htx⟩) hdrop
  rcases map_eq_map_cases happly with ⟨err, h₁, h₂⟩ | ⟨tx₁, tx₂, h₁, h₂, hg⟩
  · have hw₁ := Kind.apply_eq_error_iff.1 h₁
    have hw₂ := Kind.apply_eq_error_iff.1 h₂
    -- neither piece is written, so that the records are alike as before
    simp only [hw₁, hw₂, Kind.tx_write_of_failure hw₁, Kind.tx_write_of_failure hw₂]
    exact Step.shown_congr (through_eq_iff.2 ⟨rfl, rfl, rfl, htx⟩) hdrop
  · simp only [Kind.apply_eq_ok_iff.1 h₁, Kind.apply_eq_ok_iff.1 h₂]
    by_cases hdone : OpenField.isDone
        ⟨f.header, f.position + (c₂.ahead.take f.remaining).length⟩ = true
    · simp only [hdone, if_true]
      exact Step.shown_congr (through_eq_iff.2 ⟨rfl, rfl, rfl, hg⟩) hdrop
    · simp only [hdone]
      exact Step.shown_congr (through_eq_iff.2 ⟨rfl, rfl, rfl, hg⟩) hdrop

lemma shown_enter (hg : View g) (h : d₁.through g = d₂.through g) (hc : c₁.ahead = c₂.ahead)
    (t : TxType) (header : Header) (budget : Option Nat) :
    (d₁.enter c₁ t header budget).shown g = (d₂.enter c₂ t header budget).shown g := by
  obtain ⟨tx, rfl, htx⟩ := exists_of_through_eq h
  have htyped := hg.typed t htx
  rw [enter, enter]
  rcases t.layout with _ | ⟨e, rest⟩
  · exact Step.shown_congr (through_eq_iff.2 ⟨rfl, rfl, rfl, htyped⟩) hc
  dsimp only
  rcases map_eq_map_cases (hg.accept e header htyped) with
    ⟨err, h₁, h₂⟩ | ⟨tx₁, tx₂, h₁, h₂, htx'⟩ <;> simp only [h₁, h₂]
  · exact Step.shown_congr (through_eq_iff.2 ⟨rfl, rfl, rfl, htyped⟩) hc
  · exact Step.shown_congr (through_eq_iff.2 ⟨rfl, rfl, rfl, htx'⟩) hc

lemma shown_withHeader {go : Decoder → Cursor → Header → Step}
    (hgo : ∀ {d₁ d₂ : Decoder} {c₁ c₂ : Cursor} (header : Header), d₁.through g = d₂.through g →
      c₁.ahead = c₂.ahead → (go d₁ c₁ header).shown g = (go d₂ c₂ header).shown g)
    (h : d₁.through g = d₂.through g) (hc : c₁.ahead = c₂.ahead)
    (hheld : Header.canDecode d₁.partialHeader.held = .ok false) :
    (d₁.withHeader c₁ go).shown g = (d₂.withHeader c₂ go).shown g := by
  obtain ⟨tx, rfl, htx⟩ := exists_of_through_eq h
  have hscanned : (d₁.scanned c₁.ahead).through g
      = (scanned { d₁ with tx := tx } c₂.ahead).through g :=
    through_eq_iff.2 ⟨rfl, by rw [hc]; rfl, rfl, htx⟩
  have hpassed : (d₁.passed c₁).ahead = (passed { d₁ with tx := tx } c₂).ahead := by
    simp only [passed, Cursor.ahead_take, hc]
  rw [withHeader_eq hheld, withHeader_eq (d := { d₁ with tx := tx }) hheld, hc]
  rw [hc] at hscanned
  dsimp only
  rcases (PartialHeader.scan d₁.partialHeader.held c₂.ahead).result with err | _ | header
  · exact Step.shown_congr hscanned hpassed
  · exact Step.shown_congr hscanned hpassed
  · exact hgo header hscanned hpassed

/-- The header of a field is read alike, and so is payload after it. -/
lemma shown_readField (hg : View g) (h : d₁.through g = d₂.through g) (hc : c₁.ahead = c₂.ahead)
    (hheld : Header.canDecode d₁.partialHeader.held = .ok false) (e : Entry) (rest : List Entry)
    (budget : Option Nat) :
    (d₁.readField c₁ e rest budget).shown g = (d₂.readField c₂ e rest budget).shown g := by
  obtain ⟨tx, rfl, htx⟩ := exists_of_through_eq h
  have hpassed : (d₁.passed c₁).ahead = (passed { d₁ with tx := tx } c₂).ahead := by
    simp only [passed, Cursor.ahead_take, hc]
  have hscanned : ∀ {tx₁ tx₂ : Transaction} todo budget, g tx₁ = g tx₂ →
      (Decoder.among { d₁.scanned c₂.ahead with tx := tx₁ } todo none budget).through g
        = (Decoder.among { scanned { d₁ with tx := tx } c₂.ahead with tx := tx₂ } todo none
          budget).through g := fun _ _ htx => through_eq_iff.2 ⟨rfl, rfl, rfl, htx⟩
  rw [readField_eq hheld, readField_eq (d := { d₁ with tx := tx }) hheld, hc]
  dsimp only
  rcases spend budget (PartialHeader.scan d₁.partialHeader.held c₂.ahead).taken with err | budget'
  · exact Step.shown_congr (hscanned _ _ htx) hpassed
  dsimp only
  rcases (PartialHeader.scan d₁.partialHeader.held c₂.ahead).result with err | _ | header
  · exact Step.shown_congr (hscanned _ _ htx) hpassed
  · exact Step.shown_congr (hscanned _ _ htx) hpassed
  dsimp only
  rcases map_eq_map_cases (hg.accept e header htx) with
    ⟨err, h₁, h₂⟩ | ⟨tx₁, tx₂, h₁, h₂, htx'⟩ <;> simp only [h₁, h₂]
  · exact Step.shown_congr (hscanned _ _ htx) hpassed
  · rw [Step.shown_after, Step.shown_after]
    refine shown_readPayload (through_eq_iff.2 ⟨rfl, rfl, rfl, htx'⟩) (fun _ => hpassed)
      (by rw [hpassed]) (by rw [hpassed]) ?_
    rw [hpassed]
    exact hg.apply e.kind e.field header 0 _ htx'

lemma shown_readFields (hg : View g) (h : d₁.through g = d₂.through g) (hc : c₁.ahead = c₂.ahead)
    (hheld : Header.canDecode d₁.partialHeader.held = .ok false) (todo : List Entry)
    (current : Option OpenField) (budget : Option Nat) :
    (d₁.readFields c₁ todo current budget).shown g
      = (d₂.readFields c₂ todo current budget).shown g := by
  obtain ⟨tx, rfl, htx⟩ := exists_of_through_eq h
  have hends : d₁.endsBeforeChain c₁ = endsBeforeChain { d₁ with tx := tx } c₂ := by
    simp only [endsBeforeChain, Cursor.isEmpty, hg.type_eq htx, hc]
  rcases todo with _ | ⟨e, rest⟩
  · exact Step.shown_congr h hc
  rcases current with _ | f
  · simp only [readFields, ← hends]
    split_ifs
    · exact Step.shown_congr (through_eq_iff.2 ⟨rfl, rfl, rfl, htx⟩) hc
    · exact Step.shown_congr (through_eq_iff.2 ⟨rfl, rfl, rfl, htx⟩) hc
    · exact shown_readField hg h hc hheld e rest none
    · exact shown_readField hg h hc hheld e rest budget
  · refine shown_readPayload h (fun _ => hc) (by rw [hc]) (by rw [hc]) ?_
    rw [hc]
    exact hg.apply e.kind e.field f.header f.position _ htx

/-- **A step from decoders that a view does not tell apart** comes to the same on the same bytes. -/
theorem shown_step (hg : View g) (h : d₁.through g = d₂.through g) (hc : c₁.ahead = c₂.ahead)
    (hheld : Header.canDecode d₁.partialHeader.held = .ok false) :
    (d₁.step c₁).shown g = (d₂.step c₂).shown g := by
  have hphase := (through_eq_iff.1 h).1
  rw [step, step, ← hphase, Cursor.peek?, Cursor.peek?, ← hc]
  rcases hp : d₁.phase with _ | _ | item | item | list | ⟨todo, current, budget⟩ | _ | _
  · refine shown_withHeader (fun {d₁ d₂ c₁ c₂} header h hc => ?_) h hc hheld
    obtain ⟨tx, rfl, htx⟩ := exists_of_through_eq h
    split_ifs
    · exact Step.shown_congr (through_eq_iff.2 ⟨rfl, rfl, rfl, htx⟩) hc
    · exact Step.shown_congr h hc
  · refine shown_withHeader (fun {d₁ d₂ c₁ c₂} header h hc => ?_) h hc hheld
    obtain ⟨tx, rfl, htx⟩ := exists_of_through_eq h
    split_ifs
    · exact Step.shown_congr h hc
    · exact shown_enter hg h hc .legacy header none
    · exact Step.shown_congr (through_eq_iff.2 ⟨rfl, rfl, rfl, htx⟩) hc
  · obtain ⟨tx, rfl, htx⟩ := exists_of_through_eq h
    rcases c₁.ahead.head? with _ | x
    · exact Step.shown_congr h hc
    · dsimp only
      split_ifs
      · exact Step.shown_congr (through_eq_iff.2 ⟨rfl, rfl, rfl, htx⟩) hc
      · exact shown_enter hg h hc .legacy item none
  · refine shown_withHeader (fun {d₁ d₂ c₁ c₂} header h hc => ?_) h hc hheld
    obtain ⟨tx, rfl, htx⟩ := exists_of_through_eq h
    split_ifs
    · exact Step.shown_congr (through_eq_iff.2 ⟨rfl, rfl, rfl, htx⟩) hc
    · exact Step.shown_congr h hc
  · rcases c₁.ahead.head? with _ | tag
    · exact Step.shown_congr h hc
    · dsimp only
      rcases TxType.ofTag? tag with _ | t
      · exact Step.shown_congr h hc
      · exact shown_enter hg h hc t list (some list.len)
  · exact shown_readFields hg h hc hheld todo current budget
  · exact Step.shown_congr h hc
  · exact Step.shown_congr h hc

/-! ### Runs -/

/-- **So does a run**, if the view does not tell its first step apart. -/
theorem shown_run (hg : View g) (hd₁ : d₁.Sound) (hd₂ : d₂.Sound)
    (h : (d₁.step c₁).shown g = (d₂.step c₂).shown g) :
    (d₁.run c₁).seen.2.through g = (d₂.run c₂).seen.2.through g := by
  induction d₁, c₁ using run_induction generalizing d₂ c₂ with
  | stop d₁ c₁ stop hstop =>
      rcases hstop₂ : (d₂.step c₂).stop? with _ | stop₂
      · cases hstop.symm.trans (Step.goesOn_of_shown h.symm hstop₂).1
      · rw [seen_run_of_stop hstop, seen_run_of_stop hstop₂]
        exact h
  | goesOn d₁ c₁ hstop ih =>
      obtain ⟨hstop₂, hdec, hahead⟩ := Step.goesOn_of_shown h hstop
      have hd₁' := sound_step hd₁ (.inl hstop)
      have hd₂' := sound_step hd₂ (.inl hstop₂)
      rw [seen_run_of_goesOn hstop, seen_run_of_goesOn hstop₂]
      exact ih hd₁' hd₂' (shown_step hg hdec hahead hd₁'.held)

end Decoder

end Shown

/-! ### Whole transactions -/

/-- The transaction that a run ends with, or why there is none. -/
def Outcome.verdict : Outcome → Except DecodeError Transaction
  | .goesOn d _ => d.finish
  | .waits d => d.finish
  | .ends d _ => .ok d.tx
  | .fails _ _ e => .error e

namespace Decoder

variable {g : Transaction → Transaction} {d : Decoder} {e : Entry} {rest : List Entry}
  {f : OpenField} {budget : Option Nat} {u p q v b : Bytes} {cs : List Bytes}

lemma finish_through (d : Decoder) : (d.through g).finish = d.finish.map g := by
  rcases d with ⟨phase, held, pending, tx⟩
  cases phase <;> rfl

/-- A view shows what it shows of the transaction. -/
lemma verdict_through (o : Outcome) : (o.through g).verdict = o.verdict.map g := by
  rcases o with ⟨d, ahead⟩ | d | ⟨d, ahead⟩ | ⟨state, field, e⟩
  · exact finish_through d
  · exact finish_through d
  · rfl
  · rfl

/-- A last chunk ends with what the run within it comes to. -/
lemma feed_singleton_bind_finish (hw : d.Waiting) (hle : b.length ≤ d.pending) :
    (d.feed [b]).bind finish
      = ((d.owing (d.pending - b.length)).run (.start b)).seen.2.verdict := by
  rw [feed, hw.update_eq hle, readChunk]
  change _ = (run { d with pending := d.pending - b.length } (.start b)).seen.2.verdict
  rcases run { d with pending := d.pending - b.length } (.start b) with
    ⟨d', c, _ | _ | err, log⟩ <;> rfl

/-- **Payload may be exchanged for other payload that a field keeps alike.** -/
theorem feed_exchange (hg : View g) (hw : d.Waiting)
    (hphase : d.phase = .fields (e :: rest) (some f) budget) (hk : e.kind ≠ .list)
    (hlen : p.length = q.length) (hroom : p.length ≤ f.remaining)
    (hle : (p ++ v).length ≤ d.pending)
    (happly : ∀ x y : Bytes, x.length = y.length →
      (e.kind.apply e.field f.header f.position x d.tx).map g
        = (e.kind.apply e.field f.header f.position y d.tx).map g) :
    ((d.feed [p ++ v]).bind finish).map g = ((d.feed [q ++ v]).bind finish).map g := by
  have hlength : (p ++ v).length = (q ++ v).length := by
    rw [List.length_append, List.length_append, hlen]
  have htake : ((p ++ v).take f.remaining).length = ((q ++ v).take f.remaining).length := by
    rw [List.length_take, List.length_take, hlength]
  have hdrop : (p ++ v).drop f.remaining = (q ++ v).drop f.remaining := by
    have hp : p.drop f.remaining = [] := List.drop_eq_nil_of_le hroom
    have hq : q.drop f.remaining = [] := List.drop_eq_nil_of_le (hlen ▸ hroom)
    rw [List.drop_append, List.drop_append, hp, hq, hlen]
  -- the next step reads the payload, and only there the two inputs differ
  have hstep : ∀ b, (d.owing (d.pending - (p ++ v).length)).step (.start b)
      = (d.owing (d.pending - (p ++ v).length)).readPayload (.start b) e rest f budget := by
    intro b
    rw [step, phase_owing, hphase]
    rfl
  have hd := hw.sound.owing (d.pending - (p ++ v).length)
  rw [feed_singleton_bind_finish hw hle, feed_singleton_bind_finish hw (hlength ▸ hle), ← hlength,
    ← verdict_through, ← verdict_through]
  refine congrArg Outcome.verdict (shown_run hg hd hd ?_)
  rw [hstep, hstep]
  exact shown_readPayload rfl (fun h => absurd h hk) htake hdrop (happly _ _ htake)

/-- What bytes in two pieces encode is what the second piece comes to after the first. -/
lemma deserialize_append (hle : (u ++ b).length ≤ maxLength) (hcs : cs.flatten = u)
    (hf : (after ⟨.init, {}, (u ++ b).length, {}⟩ cs).phase ≠ .failed) :
    deserialize (u ++ b) = ((after ⟨.init, {}, (u ++ b).length, {}⟩ cs).feed [b]).bind finish := by
  have hw := waiting_init (u ++ b).length
  have hflat : (cs ++ [b]).flatten = u ++ b := by
    rw [List.flatten_append, hcs, List.flatten_singleton]
  have hrow := feed_bind_finish hw (Nat.le_of_eq (congrArg List.length hflat))
  rw [hflat, feed_append] at hrow
  rw [deserialize_eq_bind, create_eq hle]
  refine hrow.symm.trans ?_
  rcases feed_eq_after ⟨.init, {}, (u ++ b).length, {}⟩ cs with hok | ⟨err, -, hfailed⟩
  · rw [hok]
    rfl
  · exact absurd hfailed hf

/-- **So what is decoded does not depend on it**, as far as the view shows. -/
theorem deserialize_of_exchange (hg : View g) (hlen : p.length = q.length)
    (hle : (u ++ p ++ v).length ≤ maxLength) (hcs : cs.flatten = u)
    (hphase : (after ⟨.init, {}, (u ++ p ++ v).length, {}⟩ cs).phase
      = .fields (e :: rest) (some f) budget)
    (hk : e.kind ≠ .list) (hroom : p.length ≤ f.remaining)
    (happly : ∀ (x y : Bytes) tx, x.length = y.length →
      (e.kind.apply e.field f.header f.position x tx).map g
        = (e.kind.apply e.field f.header f.position y tx).map g) :
    (deserialize (u ++ p ++ v)).map g = (deserialize (u ++ q ++ v)).map g := by
  rw [List.append_assoc] at hle hphase
  rw [List.append_assoc, List.append_assoc]
  have hlength : (u ++ (q ++ v)).length = (u ++ (p ++ v)).length := by
    simp only [List.length_append, hlen]
  -- within a payload the decoder waits, so that the rest may come in one chunk
  have hf : (after ⟨.init, {}, (u ++ (p ++ v)).length, {}⟩ cs).phase ≠ .failed := by
    rw [hphase]
    simp
  have hc : (after ⟨.init, {}, (u ++ (p ++ v)).length, {}⟩ cs).phase ≠ .complete := by
    rw [hphase]
    simp
  obtain ⟨hw, hpending⟩ := pending_after (create_eq hle) hc hf
  have hroom' : (p ++ v).length
      ≤ (after ⟨.init, {}, (u ++ (p ++ v)).length, {}⟩ cs).pending := by
    have htotal : (u ++ (p ++ v)).length = u.length + (p ++ v).length := List.length_append
    rw [hcs] at hpending
    omega
  rw [deserialize_append hle hcs hf, deserialize_append (hlength ▸ hle) hcs (hlength.symm ▸ hf),
    hlength]
  exact feed_exchange hg hw hphase hk hlen hroom hroom' fun x y h => happly x y _ h

end Decoder

/-- The fields whose payload is dropped. -/
lemma TxType.discard_iff_of_mem_layout {t : TxType} {e : Entry} (he : e ∈ t.layout) :
    e.kind = .discard ↔ e.field = .sender ∨ e.field = .humanReadable ∨ e.field = .codeFormat ∨
      e.field = .zero1 ∨ e.field = .zero2 ∨
      e.field = .recipient ∧ t.family = .typed .contractDeploy := by
  revert t e
  decide

/-- A field keeps pieces of one length alike: one that drops its payload, and data of two bytes or
more. -/
lemma Entry.apply_eq_of_length_eq {e : Entry} {h : Header}
    (hk : e.kind = .discard ∨ e.kind = .data ∧ 2 ≤ h.len) {x y : Bytes} (hlen : x.length = y.length)
    (position : Nat) (tx : Transaction) :
    e.kind.apply e.field h position x tx = e.kind.apply e.field h position y tx := by
  rcases hk with hk | ⟨hk, hle⟩
  · rw [hk]
    rfl
  rw [hk]
  rcases x with _ | ⟨a, x⟩ <;> rcases y with _ | ⟨b, y⟩
  · rfl
  · cases hlen
  · cases hlen
  · have hone : (h.len == 1) = false := by
      rw [beq_eq_false_iff_ne]
      omega
    simp only [Kind.apply_eq, hone, Bool.false_and]

namespace Decoder

/-- **Dropped payload is ignored.** Once a decoder is within the payload of a field, after chunks
that make up `u`, bytes of that payload may be exchanged for as many others. If the field drops its
payload, or is data of two bytes or more, then the same is decoded, with the same record or the same
failure. For any data, the records differ at most in whether data is present. The fields that drop
their payload are the sender, the two that describe contract code, the two stand-ins for a signature
and the recipient of a deployment. -/
theorem dropped_payload_is_ignored {u p q v : Bytes} (hlen : p.length = q.length)
    (hle : (u ++ p ++ v).length ≤ maxLength) :
    ∃ d, create (u ++ p ++ v).length = .ok d ∧ ∀ cs : List Bytes, cs.flatten = u →
      ∀ {e rest f budget}, (d.after cs).phase = .fields (e :: rest) (some f) budget →
        p.length ≤ f.remaining →
          (e.kind = .discard ∨ e.kind = .data ∧ 2 ≤ f.header.len →
            deserialize (u ++ p ++ v) = deserialize (u ++ q ++ v)) ∧
          (e.kind = .data → (deserialize (u ++ p ++ v)).map Transaction.unmarked
            = (deserialize (u ++ q ++ v)).map Transaction.unmarked) ∧
          (e.kind = .discard ↔ e.field = .sender ∨ e.field = .humanReadable ∨
            e.field = .codeFormat ∨ e.field = .zero1 ∨ e.field = .zero2 ∨
            e.field = .recipient ∧ (d.after cs).tx.type.family = .typed .contractDeploy) := by
  refine ⟨_, create_eq hle, fun cs hcs {e rest f budget} hphase hroom =>
    ⟨fun hk => ?_, fun hk => ?_, ?_⟩⟩
  · have hne : e.kind ≠ .list := by
      rcases hk with hk | ⟨hk, -⟩ <;> simp [hk]
    have hsame := deserialize_of_exchange Transaction.view_id hlen hle hcs hphase hne hroom
      fun x y tx h => congrArg (Except.map id) (Entry.apply_eq_of_length_eq hk h f.position tx)
    rwa [Except.map_id] at hsame
  · have hne : e.kind ≠ .list := by simp [hk]
    refine deserialize_of_exchange Transaction.view_unmarked hlen hle hcs hphase hne hroom
      fun x y tx _ => ?_
    rw [hk, Transaction.unmarked_apply_data, Transaction.unmarked_apply_data]
  · have hrest := Resting.after (.inl (waiting_init (u ++ p ++ v).length)) cs
    exact TxType.discard_iff_of_mem_layout
      ((hrest.suffix_layout hphase).subset List.mem_cons_self)

/-- Two bytes of data that look like a list with a tag in it are as good as two zeros. -/
theorem dropped_payload_is_ignored_data :
    ([0xc1, 0x08] : Bytes).length = ([0x00, 0x00] : Bytes).length ∧
      (([0xc0, 0x80, 0x80, 0x80, 0x80, 0x80, 0x82] : Bytes) ++ [0xc1, 0x08] ++
        [0x80, 0x80, 0x80]).length ≤ maxLength ∧
      deserialize ([0xc0, 0x80, 0x80, 0x80, 0x80, 0x80, 0x82] ++ [0xc1, 0x08] ++
        [0x80, 0x80, 0x80]) = .ok { dataPresent := true } := by
  have hlen : ([0xc1, 0x08] : Bytes).length = ([0x00, 0x00] : Bytes).length := rfl
  have hle : (([0xc0, 0x80, 0x80, 0x80, 0x80, 0x80, 0x82] : Bytes) ++ [0xc1, 0x08] ++
      [0x80, 0x80, 0x80]).length ≤ maxLength := by decide
  have hphase : (after ⟨.init, {}, 12, {}⟩ [[0xc0, 0x80, 0x80, 0x80, 0x80, 0x80, 0x82]]).phase
      = .fields (⟨.data, .data⟩ :: Family.tail) (some ⟨⟨2, false, 1⟩, 0⟩) none := by cbv
  have hzeros : deserialize ([0xc0, 0x80, 0x80, 0x80, 0x80, 0x80, 0x82] ++ [0x00, 0x00] ++
      [0x80, 0x80, 0x80]) = .ok { dataPresent := true } := by cbv
  obtain ⟨d, hd, hall⟩ := dropped_payload_is_ignored hlen hle
  obtain rfl : (⟨.init, {}, 12, {}⟩ : Decoder) = d := Except.ok.inj hd
  obtain ⟨hsame, -, -⟩ := hall [[0xc0, 0x80, 0x80, 0x80, 0x80, 0x80, 0x82]] rfl hphase (by decide)
  exact ⟨hlen, hle, (hsame (.inr ⟨rfl, by decide⟩)).trans hzeros⟩

end Decoder

end TxStream
