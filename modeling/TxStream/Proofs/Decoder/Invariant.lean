import TxStream.Proofs.Decoder.Outcome

/-!
What holds of a decoder between two steps, whatever the input.

* `Phase.Sound`: before the fields the record is new; among the fields, those still to come are
  the end of the layout of the type, the open one is filled as far as it is read, and the numbers
  after it are empty;
* `Decoder.Sound`: moreover, the held bytes do not form a header yet;
* `sound_create`, `sound_step`: a new decoder is sound, and steps that do not stop for good keep
  it so.
-/

namespace TxStream

/-! ### Layouts -/

namespace TxType

lemma nodup_layout : ∀ t : TxType, (t.layout.map Entry.field).Nodup := by decide

lemma layout_ne_nil : ∀ t : TxType, t.layout ≠ [] := by decide

/-- All numbers of a new record are empty, whatever its type. -/
lemma awaits_of_mem_layout {t : TxType} {e : Entry} (h : e ∈ t.layout) :
    e.Awaits { type := t } := by
  have key : ∀ t : TxType, ∀ e ∈ t.layout, e.kind = .uint →
      Transaction.quantity? { type := t } e.field = some .empty := by decide
  exact key t e h

end TxType

/-- A field at the front of what is left of a layout does not come again. -/
lemma field_ne_of_suffix {t : TxType} {e e' : Entry} {rest : List Entry}
    (h : e :: rest <:+ t.layout) (he' : e' ∈ rest) : e'.field ≠ e.field := by
  have hnd : ((e :: rest).map Entry.field).Nodup :=
    t.nodup_layout.sublist (h.sublist.map Entry.field)
  rw [List.map_cons, List.nodup_cons] at hnd
  exact fun heq => hnd.1 (heq ▸ List.mem_map_of_mem he')

/-! ### Sound decoders -/

/-- What holds of a phase, with the record that goes with it. -/
def Phase.Sound (tx : Transaction) : Phase → Prop
  | .fields todo none _ => todo <:+ tx.type.layout ∧ ∀ e ∈ todo, e.Awaits tx
  | .fields (e :: rest) (some f) _ =>
    e :: rest <:+ tx.type.layout ∧ e.Opened f tx ∧ ∀ e' ∈ rest, e'.Awaits tx
  | .fields [] (some _) _ => False
  | .complete => True
  | .failed => True
  | _ => tx = {}

lemma Phase.Sound.opened {tx tx₁ : Transaction} {e : Entry} {rest : List Entry} {h : Header}
    {budget : Option Nat} (hs : (Phase.fields (e :: rest) none budget).Sound tx)
    (ha : e.accept h tx = .ok tx₁) (budget₁ : Option Nat) :
    (Phase.fields (e :: rest) (some ⟨h, 0⟩) budget₁).Sound tx₁ := by
  obtain ⟨hsuff, hall⟩ := hs
  have hsp : e.Spares tx tx₁ := Entry.spares_of_accept ha
  refine ⟨hsp.type.symm ▸ hsuff, Entry.opened_of_accept (hall e List.mem_cons_self) ha, ?_⟩
  intro e' he'
  exact (hall e' (List.mem_cons_of_mem e he')).of_spares hsp (field_ne_of_suffix hsuff he')

/-- What holds of a decoder between two steps. -/
structure Decoder.Sound (d : Decoder) : Prop where
  held : Header.canDecode d.partialHeader.held = .ok false
  phase : d.phase.Sound d.tx

namespace Decoder

lemma create_eq {len : Nat} (hlen : len ≤ maxLength) : create len = .ok ⟨.init, {}, len, {}⟩ :=
  if_neg (Nat.not_lt.2 hlen)

lemma create_eq_ok_iff {len : Nat} {d : Decoder} :
    create len = .ok d ↔ len ≤ maxLength ∧ d = ⟨.init, {}, len, {}⟩ := by
  constructor
  · intro h
    rw [create] at h
    split_ifs at h with hlen
    cases h
    exact ⟨Nat.not_lt.1 hlen, rfl⟩
  · rintro ⟨hlen, rfl⟩
    exact create_eq hlen

lemma sound_create {len : Nat} {d : Decoder} (h : create len = .ok d) : d.Sound := by
  obtain ⟨-, rfl⟩ := create_eq_ok_iff.1 h
  exact ⟨rfl, rfl⟩

/-- The decoder with another length of input still expected. -/
def owing (d : Decoder) (p : Nat) : Decoder := { d with pending := p }

@[simp] lemma partialHeader_owing (d : Decoder) (p : Nat) :
    (d.owing p).partialHeader = d.partialHeader := rfl

@[simp] lemma tx_owing (d : Decoder) (p : Nat) : (d.owing p).tx = d.tx := rfl

@[simp] lemma phase_owing (d : Decoder) (p : Nat) : (d.owing p).phase = d.phase := rfl

lemma Sound.owing {d : Decoder} (h : d.Sound) (p : Nat) : (d.owing p).Sound :=
  ⟨h.held, h.phase⟩

end Decoder

/-- The decoder is sound after a step, unless the step stops for good. -/
def Step.KeepsSound (s : Step) : Prop :=
  s.stop? = none ∨ s.stop? = some .suspend → s.decoder.Sound

namespace Decoder

variable {d : Decoder} {c : Cursor}

lemma keepsSound_enter (hheld : Header.canDecode d.partialHeader.held = .ok false) (htx : d.tx = {})
    (t : TxType) (h : Header) (budget : Option Nat) : (d.enter c t h budget).KeepsSound := by
  intro hstop
  rw [enter, htx] at hstop ⊢
  rcases hl : t.layout with _ | ⟨e, rest⟩
  · exact absurd hl t.layout_ne_nil
  have hnew : (Phase.fields (e :: rest) none budget).Sound { type := t } :=
    ⟨hl ▸ List.suffix_refl _, fun e' he' => TxType.awaits_of_mem_layout (hl ▸ he')⟩
  simp only [hl] at hstop ⊢
  rcases ha : e.accept h { type := t } with err | tx
  · simp only [ha] at hstop
    rcases hstop with hstop | hstop <;> cases hstop
  · exact ⟨hheld, hnew.opened ha budget⟩

lemma keepsSound_readPayload {e : Entry} {rest : List Entry} {f : OpenField}
    (hheld : Header.canDecode d.partialHeader.held = .ok false)
    (hsuff : e :: rest <:+ d.tx.type.layout) (ho : e.Opened f d.tx)
    (hrest : ∀ e' ∈ rest, e'.Awaits d.tx) (budget : Option Nat) :
    (d.readPayload c e rest f budget).KeepsSound := by
  intro hstop
  have hsuff' : rest <:+ d.tx.type.layout := (List.suffix_cons e rest).trans hsuff
  have hkeep : ∀ {piece tx'}, e.kind.apply e.field f.header f.position piece d.tx = .ok tx' →
      tx'.type = d.tx.type ∧ ∀ e' ∈ rest, e'.Awaits tx' := fun ha =>
    ⟨(Entry.spares_of_apply ha).type, fun e' he' =>
      (hrest e' he').of_spares (Entry.spares_of_apply ha) (field_ne_of_suffix hsuff he')⟩
  rcases readPayload_cases d c rest budget ho with ⟨-, heq⟩ | ⟨-, err, -, heq⟩ |
      ⟨-, -, budget', tx', -, ha, heq⟩ | ⟨-, -, budget', tx', -, ha, ho', heq⟩ <;>
    rw [heq] at hstop ⊢
  · exact ⟨hheld, hsuff', hrest⟩
  · rcases hstop with hstop | hstop <;> cases hstop
  · obtain ⟨htype, hrest'⟩ := hkeep ha
    exact ⟨hheld, htype.symm ▸ hsuff', hrest'⟩
  · obtain ⟨htype, hrest'⟩ := hkeep ha
    exact ⟨hheld, htype.symm ▸ hsuff, ho', hrest'⟩

/-- A scan that does not fail leaves bytes held that do not form a header. -/
lemma held_scanned {ahead : Bytes} {r : Option Header}
    (h : (PartialHeader.scan d.partialHeader.held ahead).result = .ok r) :
    Header.canDecode (d.scanned ahead).partialHeader.held = .ok false :=
  PartialHeader.canDecode_held_scan h

lemma keepsSound_readField {e : Entry} {rest : List Entry}
    (hheld : Header.canDecode d.partialHeader.held = .ok false)
    (hsuff : e :: rest <:+ d.tx.type.layout) (hall : ∀ e' ∈ e :: rest, e'.Awaits d.tx)
    (budget : Option Nat) : (d.readField c e rest budget).KeepsSound := by
  intro hstop
  rw [readField_eq hheld] at hstop ⊢
  rcases hs : spend budget (PartialHeader.scan d.partialHeader.held c.ahead).taken
    with err | budget'
  · simp only [hs] at hstop
    rcases hstop with hstop | hstop <;> cases hstop
  rcases hr : (PartialHeader.scan d.partialHeader.held c.ahead).result with err | _ | h
  · simp only [hs, hr] at hstop
    rcases hstop with hstop | hstop <;> cases hstop
  · simp only [hs, hr] at hstop ⊢
    exact ⟨held_scanned hr, hsuff, hall⟩
  · rcases ha : e.accept h d.tx with err | tx
    · simp only [hs, hr, ha] at hstop
      rcases hstop with hstop | hstop <;> cases hstop
    · simp only [hs, hr, ha] at hstop ⊢
      have hphase : (Phase.fields (e :: rest) none budget).Sound d.tx := ⟨hsuff, hall⟩
      obtain ⟨hsuff', ho, hrest⟩ := hphase.opened ha budget'
      exact keepsSound_readPayload (d := { d.scanned c.ahead with tx := tx }) (held_scanned hr)
        hsuff' ho hrest budget' hstop

lemma keepsSound_readFields {todo : List Entry} {current : Option OpenField} {budget : Option Nat}
    (hheld : Header.canDecode d.partialHeader.held = .ok false)
    (hphase : (Phase.fields todo current budget).Sound d.tx) :
    (d.readFields c todo current budget).KeepsSound := by
  rcases todo with _ | ⟨e, rest⟩
  · rintro (hstop | hstop) <;> cases hstop
  rcases current with _ | f
  · obtain ⟨hsuff, hall⟩ := hphase
    simp only [readFields]
    split_ifs
    · rintro (hstop | hstop) <;> cases hstop
    · rintro (hstop | hstop) <;> cases hstop
    · exact keepsSound_readField hheld hsuff hall none
    · exact keepsSound_readField hheld hsuff hall budget
  · obtain ⟨hsuff, ho, hrest⟩ := hphase
    exact keepsSound_readPayload hheld hsuff ho hrest budget

/-- A header outside of the fields keeps a decoder sound if what follows it does. -/
lemma keepsSound_withHeader {next : Decoder → Cursor → Header → Step} (hd : d.Sound)
    (hphase : d.phase.Sound d.tx)
    (hnext : ∀ d' c' h, d'.tx = d.tx → Header.canDecode d'.partialHeader.held = .ok false →
      (next d' c' h).KeepsSound) : (d.withHeader c next).KeepsSound := by
  intro hstop
  rw [withHeader_eq hd.held] at hstop ⊢
  rcases hr : (PartialHeader.scan d.partialHeader.held c.ahead).result with err | _ | h
  · simp only [hr] at hstop
    rcases hstop with hstop | hstop <;> cases hstop
  · exact ⟨held_scanned hr, hphase⟩
  · simp only [hr] at hstop ⊢
    exact hnext _ _ h rfl (held_scanned hr) hstop

/-- **A step keeps a decoder sound**, unless it stops for good. -/
theorem sound_step (hd : d.Sound) : (d.step c).KeepsSound := by
  have hphase := hd.phase
  rw [step]
  rcases hp : d.phase with _ | _ | item | item | list | ⟨todo, current, budget⟩ | _ | _ <;>
    rw [hp] at hphase
  · refine keepsSound_withHeader hd hd.phase fun d' c' h htx hheld => ?_
    split_ifs
    · exact fun _ => ⟨hheld, htx.trans hphase⟩
    · rintro (hstop | hstop) <;> cases hstop
  · refine keepsSound_withHeader hd hd.phase fun d' c' h htx hheld => ?_
    split_ifs
    · rintro (hstop | hstop) <;> cases hstop
    · exact keepsSound_enter hheld (htx.trans hphase) .legacy h none
    · exact fun _ => ⟨hheld, htx.trans hphase⟩
  · rcases hpeek : c.peek? with _ | b
    · exact fun _ => hd
    · dsimp only
      split_ifs
      · exact fun _ => ⟨hd.held, hphase⟩
      · exact keepsSound_enter hd.held hphase .legacy item none
  · refine keepsSound_withHeader hd hd.phase fun d' c' h htx hheld => ?_
    split_ifs
    · exact fun _ => ⟨hheld, htx.trans hphase⟩
    · rintro (hstop | hstop) <;> cases hstop
  · rcases hpeek : c.peek? with _ | tag
    · exact fun _ => hd
    · dsimp only
      split
      · rintro (hstop | hstop) <;> cases hstop
      · exact keepsSound_enter hd.held hphase _ list (some list.len)
  · exact keepsSound_readFields hd.held hphase
  · rintro (hstop | hstop) <;> cases hstop
  · rintro (hstop | hstop) <;> cases hstop

/-! ### The input that is still expected -/

/-- Only a new chunk changes what is still expected. -/
lemma pending_step (d : Decoder) (c : Cursor) : (d.step c).decoder.pending = d.pending := by
  -- each part of a step keeps it, and a step is one of its parts
  have henter : ∀ (d : Decoder) c t h budget,
      (d.enter c t h budget).decoder.pending = d.pending := by
    intro d c t h budget
    fun_cases enter d c t h budget <;> rfl
  have hheader : ∀ next : Decoder → Cursor → Header → Step,
      (∀ d c h, (next d c h).decoder.pending = d.pending) →
        (d.withHeader c next).decoder.pending = d.pending := by
    intro next hnext
    fun_cases withHeader d c next with
    | case3 => exact hnext ..
    | _ => rfl
  have hpayload : ∀ (d : Decoder) c e rest f budget,
      (d.readPayload c e rest f budget).decoder.pending = d.pending := by
    intro d c e rest f budget
    fun_cases readPayload d c e rest f budget <;> rfl
  have hfield : ∀ e rest budget, (d.readField c e rest budget).decoder.pending = d.pending := by
    intro e rest budget
    fun_cases readField d c e rest budget with
    | case5 => exact hpayload ..
    | _ => rfl
  rw [step]
  split
  · refine hheader _ fun d c h => ?_
    split_ifs <;> rfl
  · refine hheader _ fun d c h => ?_
    split_ifs
    · rfl
    · exact henter ..
    · rfl
  · split
    · rfl
    · split_ifs
      · rfl
      · exact henter ..
  · refine hheader _ fun d c h => ?_
    split_ifs <;> rfl
  · split
    · rfl
    · split
      · rfl
      · exact henter ..
  · next todo current budget _ =>
    fun_cases readFields d c todo current budget with
    | case2 => exact hpayload ..
    | case5 => exact hfield ..
    | case6 => exact hfield ..
    | _ => rfl
  · rfl
  · rfl

end Decoder

end TxStream
