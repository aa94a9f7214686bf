import Mathlib.Data.List.Basic
import TxStream.Proofs.Decoder.Protocol
import TxStream.Proofs.Wire.HeaderRange

/-!
Nothing that a decoder computes leaves its bounds, whatever the chunks.

* `Decoder.Orderly`: the invariant between two steps. Bytes are held only where a header is awaited,
  the headers that are kept are small, and the numbers of fields that are not begun are empty;
* `Decoder.Paused`: the invariant between two chunks, where an open field also lacks payload;
* `Decoder.InOrder`: what the invariant comes to for each part of the decoder;
* `Decoder.InRange`: what is computed in a step that begins at a position of a chunk;
* `run_in_range`: decoders are in order until they fail, and every step of every chunk is in range,
  that of a failure included.
-/

namespace TxStream

/-! ### Phases and records -/

namespace Phase

/-- A header is awaited. -/
def AwaitsHeader : Phase → Prop
  | .init => True
  | .envelope => True
  | .content _ => True
  | .fields (_ :: _) none _ => True
  | _ => False

/-- The header that a phase keeps. -/
def header? : Phase → Option Header
  | .wrapper item => some item
  | .content item => some item
  | .typeTag list => some list
  | .fields _ (some f) _ => some f.header
  | _ => none

/-- The fields of a type that are begun: those before the ones still to come, with the open one.
After the end these are all, or for a legacy transaction those before the chain. -/
def Begun (t : TxType) (begun : List Entry) : Phase → Prop
  | .fields todo none _ => begun ++ todo = t.layout
  | .fields (e :: rest) (some _) _ => e ∈ begun ∧ begun ++ rest = t.layout
  | .fields [] (some _) _ => False
  | .complete => begun = t.layout ∨
    t = .legacy ∧ ∃ e rest, e.field = .chainId ∧ begun ++ e :: rest = t.layout
  | .failed => True
  | _ => begun = []

end Phase

/-- Only the numbers of some fields are filled. -/
def Transaction.FilledBy (tx : Transaction) (begun : List Entry) : Prop :=
  ∀ f q, tx.quantity? f = some q → (∀ e ∈ begun, e.field ≠ f) → q = .empty

namespace Transaction.FilledBy

/-- A field that is begun may be filled. -/
lemma of_spares {tx tx' : Transaction} {begun : List Entry} {e : Entry} (h : tx.FilledBy begun)
    (hs : e.Spares tx tx') (he : e ∈ begun) : tx'.FilledBy begun := by
  intro f q hq hf
  rw [hs.quantity f fun _ => (hf e he).symm] at hq
  exact h f q hq hf

lemma mono {tx : Transaction} {begun begun' : List Entry} (h : tx.FilledBy begun)
    (hsub : begun ⊆ begun') : tx.FilledBy begun' :=
  fun f q hq hf => h f q hq fun e he => hf e (hsub he)

lemma new (t : TxType) (begun : List Entry) : FilledBy { type := t } begun := by
  intro f q hq _
  cases f <;> first | exact (Option.some.inj hq).symm | cases hq

end Transaction.FilledBy

namespace Decoder

/-! ### Between two steps -/

/-- What holds of a decoder between two steps, whatever the input. -/
structure Orderly (d : Decoder) : Prop where
  sound : d.Sound
  held : d.phase.AwaitsHeader ∨ d.partialHeader.held = []
  header : ∀ h, d.phase.header? = some h → h.InRange
  begun : ∃ begun, d.phase.Begun d.tx.type begun ∧ d.tx.FilledBy begun

variable {d d' : Decoder} {c c' : Cursor} {chunk : Bytes}

lemma Orderly.owing (h : d.Orderly) (p : Nat) : (d.owing p).Orderly :=
  ⟨h.sound.owing p, h.held, h.header, h.begun⟩

lemma orderly_create {len : Nat} (h : create len = .ok d) : d.Orderly := by
  have hd := sound_create h
  obtain ⟨-, rfl⟩ := create_eq_ok_iff.1 h
  exact ⟨hd, .inl trivial, by simp [Phase.header?], [], rfl, .new .legacy []⟩

/-- Payload of a field that is begun fills no other one. -/
lemma Pays.orderly {e : Entry} {rest begun : List Entry} {f : OpenField} {budget : Option Nat}
    {stop? : Option Stop} (hp : d.Pays c e rest f budget d' c' stop?) (hd' : d'.Sound)
    (hheld : d.partialHeader.held = []) (hf : f.header.InRange) (he : e ∈ begun)
    (hbegun : begun ++ rest = d.tx.type.layout) (hfill : d.tx.FilledBy begun) : d'.Orderly := by
  cases hp with
  | list => exact ⟨hd', .inr hheld, by simp [among, Phase.header?], begun, hbegun, hfill⟩
  | closes _ _ _ ha =>
      have hs := Entry.spares_of_apply ha
      exact ⟨hd', .inr hheld, by simp [among, Phase.header?], begun,
        hbegun.trans (congrArg TxType.layout hs.type.symm), hfill.of_spares hs he⟩
  | waits _ _ _ ha =>
      have hs := Entry.spares_of_apply ha
      refine ⟨hd', .inr hheld, fun h hh => ?_, begun,
        ⟨he, hbegun.trans (congrArg TxType.layout hs.type.symm)⟩, hfill.of_spares hs he⟩
      cases hh
      exact hf

/-- The fields are entered with a new record, a small header and no bytes held. -/
lemma Enters.spec {t : TxType} {h : Header} {budget : Option Nat}
    (he : d.Enters c d' c' t h budget) (ho : d.Orderly) :
    d.tx = {} ∧ h.InRange ∧ d'.partialHeader.held = [] := by
  have hnew := ho.sound.phase
  have hheld := ho.held
  have hheader := ho.header h
  cases he with
  | short hphase hdec =>
      rw [hphase] at hnew
      exact ⟨hnew, Header.inRange_of_decode hdec, rfl⟩
  | plain hphase =>
      rw [hphase] at hnew hheld hheader
      exact ⟨hnew, hheader rfl, hheld.resolve_left id⟩
  | typed hphase =>
      rw [hphase] at hnew hheld hheader
      exact ⟨hnew, hheader rfl, hheld.resolve_left id⟩

/-- **Every step that goes on or waits keeps a decoder in order.** -/
theorem Orderly.of_moves {stop? : Option Stop} (ho : d.Orderly) (hm : d.Moves c d' c' stop?)
    (hd' : d'.Sound) (hstop : stop? = none ∨ stop? = some .suspend) : d'.Orderly := by
  have hheld := ho.held
  have hheader := ho.header
  obtain ⟨begun, hbegun, hfill⟩ := ho.begun
  cases hm with
  | holds hphase hcan =>
      generalize hp : d.phase = phase at hphase hheader hbegun
      cases hphase with
      | init => exact ⟨hd', .inl trivial, hheader, begun, hbegun, hfill⟩
      | envelope => exact ⟨hd', .inl trivial, hheader, begun, hbegun, hfill⟩
      | content => exact ⟨hd', .inl trivial, hheader, begun, hbegun, hfill⟩
      | fields => exact ⟨hd', .inl trivial, hheader, begun, hbegun, hfill⟩
  | peeks => exact ho
  | outer hphase =>
      rw [hphase] at hbegun
      exact ⟨hd', .inl trivial, by simp [Phase.header?], begun, hbegun, hfill⟩
  | wraps hphase hdec =>
      rw [hphase] at hbegun
      refine ⟨hd', .inr rfl, fun h hh => ?_, begun, hbegun, hfill⟩
      cases hh
      exact Header.inRange_of_decode hdec
  | lists hphase =>
      rw [hphase] at hbegun hheader
      exact ⟨hd', .inl trivial, hheader, begun, hbegun, hfill⟩
  | fills hphase hdec =>
      rw [hphase] at hbegun
      refine ⟨hd', .inr rfl, fun h hh => ?_, begun, hbegun, hfill⟩
      cases hh
      exact Header.inRange_of_decode hdec
  | @enters _ _ t h _ e rest tx he hl ha =>
      -- a new record has nothing filled, and the first field alone is begun
      obtain ⟨hnew, hrange, hheld'⟩ := he.spec ho
      have hs : e.Spares { d.tx with type := t } tx := Entry.spares_of_accept ha
      rw [hnew] at hs
      refine ⟨hd', .inr hheld', fun h' hh => ?_, [e], ⟨List.mem_singleton_self e, ?_⟩,
        (Transaction.FilledBy.new t [e]).of_spares hs (List.mem_singleton_self e)⟩
      · cases hh
        exact hrange
      · exact hl.symm.trans (congrArg TxType.layout hs.type.symm)
  | pays hphase hp =>
      rw [hphase] at hbegun hheld hheader
      exact hp.orderly hd' (hheld.resolve_left id) (hheader _ rfl) hbegun.1 hbegun.2 hfill
  | @opens e rest h _ _ tx _ _ _ hphase _ hdec _ ha hp =>
      rw [hphase] at hbegun
      have hs : e.Spares d.tx tx := Entry.spares_of_accept ha
      -- the field counts as begun before its payload fills it
      have hmem : e ∈ begun ++ [e] := List.mem_append_right _ (List.mem_singleton_self e)
      have hlayout : begun ++ [e] ++ rest = tx.type.layout := by
        rw [List.append_assoc, List.singleton_append, hs.type]
        exact hbegun
      have hfill' := (hfill.mono (List.subset_append_left begun [e])).of_spares hs hmem
      exact hp.orderly hd' rfl (Header.inRange_of_decode hdec) hmem hlayout hfill'
  | ends => rcases hstop with h | h <;> cases h
  | early => rcases hstop with h | h <;> cases h
  | complete => rcases hstop with h | h <;> cases h
  | fails => rcases hstop with h | h <;> cases h

lemma Orderly.of_finish (ho : d.Orderly) (hm : d.Moves c d' c' (some .finish)) :
    Orderly { d' with phase := .complete } := by
  have hheld := ho.held
  obtain ⟨begun, hbegun, hfill⟩ := ho.begun
  cases hm with
  | pays _ hp => cases hp
  | opens _ _ _ _ _ hp => cases hp
  | ends hphase =>
      rw [hphase] at hbegun hheld
      exact ⟨⟨ho.sound.held, trivial⟩, .inr (hheld.resolve_left id), by simp [Phase.header?],
        begun, .inl ((List.append_nil begun).symm.trans hbegun), hfill⟩
  | @early e rest _ hphase hchain hend =>
      rw [hphase] at hbegun
      obtain ⟨htype, hnil⟩ : d.tx.type = .legacy ∧ d.partialHeader.held = [] := by
        simp only [endsBeforeChain, PartialHeader.isPending, Bool.and_eq_true, beq_iff_eq,
          Bool.not_eq_true', Bool.not_eq_false', List.isEmpty_iff] at hend
        exact ⟨hend.1.1.1, hend.2⟩
      exact ⟨⟨ho.sound.held, trivial⟩, .inr hnil, by simp [Phase.header?], begun,
        .inr ⟨htype, e, rest, hchain, hbegun⟩, hfill⟩
  | complete hphase =>
      rw [hphase] at hbegun hheld
      exact ⟨⟨ho.sound.held, trivial⟩, .inr (hheld.resolve_left id), by simp [Phase.header?],
        begun, hbegun, hfill⟩

/-! ### Between two chunks -/

/-- What holds of a decoder between two chunks that has not failed. -/
structure Paused (d : Decoder) : Prop extends Orderly d where
  current : ∀ e rest f budget, d.phase = .fields (e :: rest) (some f) budget →
    e.kind ≠ .list ∧ f.position < f.header.len

lemma paused_create {len : Nat} (h : create len = .ok d) : d.Paused := by
  refine ⟨orderly_create h, fun _ _ _ _ hphase => ?_⟩
  obtain ⟨-, rfl⟩ := create_eq_ok_iff.1 h
  cases hphase

/-- A step that waits leaves a field open only if its payload goes on. -/
lemma Moves.position_lt (hm : d.Moves c d' c' (some .suspend)) {e : Entry} {rest : List Entry}
    {f : OpenField} {budget : Option Nat}
    (hphase' : d'.phase = .fields (e :: rest) (some f) budget) :
    e.kind ≠ .list ∧ f.position < f.header.len := by
  have hpays : ∀ {d₁ : Decoder} {c₁ : Cursor} {e₁ : Entry} {rest₁ : List Entry} {f₁ : OpenField}
      {budget₁ : Option Nat}, d₁.Pays c₁ e₁ rest₁ f₁ budget₁ d' c' (some .suspend) →
      e.kind ≠ .list ∧ f.position < f.header.len := by
    intro d₁ c₁ e₁ rest₁ f₁ budget₁ hp
    cases hp with
    | waits hk hlt =>
        cases hphase'
        refine ⟨hk, ?_⟩
        rw [OpenField.remaining] at hlt
        dsimp only
        omega
  cases hm with
  | @holds phase hphase =>
      obtain rfl : phase = .fields (e :: rest) (some f) budget := hphase'
      generalize d.phase = phase at hphase
      cases hphase
  | peeks hphase =>
      rcases hphase with ⟨item, h⟩ | ⟨list, h⟩ <;> cases h.symm.trans hphase'
  | pays _ hp => exact hpays hp
  | opens _ _ _ _ _ hp => exact hpays hp

lemma Reaches.orderly (hr : d.Reaches chunk d' c') (ho : d.Orderly) :
    d'.Sound ∧ d'.phase ≠ .failed ∧ d'.Orderly := by
  exact hr.visits.invariant (P := fun d₁ _ => d₁.Orderly) (ho.owing _).sound hr.takes.ne_failed
    (ho.owing _) fun _ ho₁ hm hd₂ => ho₁.of_moves hm hd₂ (.inl rfl)

/-- **A chunk keeps a decoder in order**, unless it makes the decoder fail. -/
theorem Paused.update (hd : d.Paused) (chunk : Bytes)
    (hf : (d.update chunk).decoder.phase ≠ .failed) :
    (d.update chunk).decoder.Paused := by
  by_cases hc : d.phase = .complete
  · rwa [update_of_complete hc]
  by_cases hf₀ : d.phase = .failed
  · rw [update_of_failed hf₀] at hf
    exact absurd hf₀ hf
  rcases Nat.lt_or_ge d.pending chunk.length with hlt | hle
  · rw [update_of_lt hc hf₀ hlt] at hf
    exact absurd rfl hf
  obtain ⟨d', c', hr, stop, hstop, -, hdec⟩ := exists_reaches_update ⟨hc, hf₀, hle⟩
  obtain ⟨hd', hf', ho'⟩ := hr.orderly hd.toOrderly
  have hmoves := moves_step hd' hf' c'
  rw [hstop] at hmoves
  rw [hdec] at hf ⊢
  rcases stop with _ | _ | e
  · exact ⟨ho'.of_moves hmoves (sound_step hd' (.inr hstop)) (.inr rfl),
      fun _ _ _ _ => hmoves.position_lt⟩
  · exact ⟨ho'.of_finish hmoves, fun _ _ _ _ h => by cases h⟩
  · exact absurd rfl hf

lemma Paused.after (hd : d.Paused) {chunks : List Bytes} (hf : (d.after chunks).phase ≠ .failed) :
    (d.after chunks).Paused := by
  induction chunks using List.reverseRecOn with
  | nil => exact hd
  | append_singleton chunks chunk ih =>
      rw [after_concat] at hf ⊢
      refine (ih fun h => ?_).update chunk hf
      rw [update_of_failed h] at hf
      exact hf h

/-- What the invariant comes to for the parts of a decoder between two chunks. -/
structure InOrder (d : Decoder) : Prop where
  /-- What is held is no header yet, and there is room for more. -/
  undecodable : Header.canDecode d.partialHeader.held = .ok false
  held_le : d.partialHeader.held.length ≤ 4
  /-- The fields to come are the end of the layout, and only those begun have filled a number. -/
  begun : ∃ begun, d.phase.Begun d.tx.type begun ∧ d.tx.FilledBy begun
  /-- An open field has a header that fits, lacks payload and is filled as far as it is read, and
  nothing is held. -/
  current : ∀ {todo f budget}, d.phase = .fields todo (some f) budget →
    d.partialHeader.held = [] ∧ ∃ e rest, todo = e :: rest ∧ e.kind.consumesPayload = true ∧
      e.kind.check f.header = .ok () ∧ f.position < f.header.len ∧
      (e.kind = .uint → ∃ q, d.tx.quantity? e.field = some q ∧ q.bytes.length = f.position)
  /-- Numbers have at most 256 bits. -/
  quantity_le : ∀ {f q}, d.tx.quantity? f = some q → q.bytes.length ≤ Quantity.maxLength

lemma Paused.inOrder (hd : d.Paused) : d.InOrder := by
  refine ⟨hd.sound.held, Header.length_le_of_canDecode_eq_false hd.sound.held, hd.begun, ?_,
    fun {_ q} _ => q.length_le⟩
  intro todo f budget hphase
  have hsound := hd.sound.phase
  have hheld := hd.held
  rw [hphase] at hsound hheld
  rcases todo with _ | ⟨e, rest⟩
  · exact hsound.elim
  · obtain ⟨hk, hlt⟩ := hd.current e rest f budget hphase
    exact ⟨hheld.resolve_left id, e, rest, rfl, bne_iff_ne.2 hk, hsound.2.1.fits, hlt,
      hsound.2.1.filled⟩

/-! ### Within a step -/

/-- Payload of a field is read at a position in range. -/
structure PieceInRange (e : Entry) (f : OpenField) (c : Cursor) (tx : Transaction) : Prop where
  position_le : f.position ≤ f.header.len
  len_lt : f.header.len < 2 ^ 32
  /-- The piece is within the payload. -/
  piece_le : f.position + (c.take f.remaining).1.length ≤ f.header.len
  /-- A recipient has room for the piece. -/
  address_le : e.kind = .address → f.position + (c.take f.remaining).1.length ≤ Address.length
  /-- The piece is not refused. -/
  accepted : ∃ tx', e.kind.apply e.field f.header f.position (c.take f.remaining).1 tx = .ok tx'

/-- A step from `d` at `c` reads payload of the open field `f` at `c₁`. -/
inductive Asks (d : Decoder) (c : Cursor) : Entry → OpenField → Cursor → Transaction → Prop
  | goesOn {e : Entry} {rest : List Entry} {f : OpenField} {budget : Option Nat}
      (hphase : d.phase = .fields (e :: rest) (some f) budget) : Asks d c e f c d.tx
  | opens {e : Entry} {rest : List Entry} {budget : Option Nat} {h : Header} {tx : Transaction}
      (hphase : d.phase = .fields (e :: rest) none budget)
      (hread : (d.partialHeader.read c).result = .ok (some h)) (ha : e.accept h d.tx = .ok tx) :
      Asks d c e ⟨h, 0⟩ (d.partialHeader.read c).cursor tx

/-- What is computed in a step is in range. -/
structure InRange (d : Decoder) (c : Cursor) : Prop where
  /-- A header that is awaited is read within bounds. -/
  header : d.phase.AwaitsHeader → d.partialHeader.InRange c
  /-- A header that is kept is small. -/
  kept : ∀ {h}, d.phase.header? = some h → h.InRange
  /-- Payload is read at a position in range. -/
  payload : ∀ {e f c₁ tx}, d.Asks c e f c₁ tx → PieceInRange e f c₁ tx

lemma pieceInRange_of_opened {e : Entry} {f : OpenField} {tx : Transaction} (ho : e.Opened f tx)
    (hf : f.header.InRange) (c : Cursor) : PieceInRange e f c tx := by
  have hpiece : (c.take f.remaining).1.length ≤ f.remaining := List.length_take_le ..
  have hle : f.position + (c.take f.remaining).1.length ≤ f.header.len := by
    have hremaining : f.remaining = f.header.len - f.position := rfl
    have := ho.within
    omega
  obtain ⟨tx', ha, -⟩ := ho.apply hpiece
  refine ⟨ho.within, hf.len_lt, hle, fun hk => hle.trans ?_, tx', ha⟩
  exact Entry.len_le_of_check ho.fits (by rw [hk]; rfl)

/-- **A step from a decoder in order is in range**, also if it fails. -/
theorem Orderly.inRange (ho : d.Orderly) (c : Cursor) : d.InRange c := by
  have hheader := PartialHeader.inRange_of_canDecode ho.sound.held c
  have hsound := ho.sound.phase
  refine ⟨fun _ => hheader, fun {h} => ho.header h, fun hasks => ?_⟩
  cases hasks with
  | goesOn hphase =>
      rw [hphase] at hsound
      exact pieceInRange_of_opened hsound.2.1 (ho.header _ (by rw [hphase]; rfl)) c
  | opens hphase hread ha =>
      rw [hphase] at hsound
      have hopen := Entry.opened_of_accept (hsound.2 _ List.mem_cons_self) ha
      exact pieceInRange_of_opened hopen (hheader.header hread) _

/-- **Nothing leaves its bounds.** Whatever chunks a new decoder was given, it is in order unless it
has failed. In every step of a further chunk, the failing one included, what is still expected is
what was expected without the chunk, the position is within the chunk, a header is read within
bounds, and payload is read at a position in range. -/
theorem run_in_range {len : Nat} (hlen : len ≤ maxLength) :
    ∃ d, create len = .ok d ∧ ∀ chunks : List Bytes,
      ((d.after chunks).state ≠ .error → (d.after chunks).InOrder) ∧
      ∀ chunk d' c', (d.after chunks).Reaches chunk d' c' →
        chunk.length ≤ maxLength ∧ d'.pending + chunk.length = (d.after chunks).pending ∧
          c'.position + c'.remaining = chunk.length ∧ d'.InRange c' := by
  have hcreate : create len = .ok ⟨.init, {}, len, {}⟩ := if_neg (Nat.not_lt.2 hlen)
  have hpaused := paused_create hcreate
  refine ⟨_, hcreate, fun chunks => ⟨fun hs => ?_, fun chunk d' c' hr => ?_⟩⟩
  · exact (hpaused.after fun h => hs (congrArg Phase.state h)).inOrder
  · have hpending := (pending_after hcreate hr.takes.ne_complete hr.takes.ne_failed).2
    have ho := (hpaused.after hr.takes.ne_failed).toOrderly
    obtain ⟨hchunk, hp⟩ := hr.visits.chunk_eq (ho.owing _).sound hr.takes.ne_failed
    have hle := hr.takes.length_le
    refine ⟨by omega, ?_, ?_, (hr.orderly ho).2.2.inRange c'⟩
    · rw [hp, Decoder.owing]
      exact Nat.sub_add_cancel hle
    · rw [c'.position_add_remaining, hchunk, Cursor.chunk_start]

/-- A nonce of two bytes, cut after the first one: the number holds as much as is read. -/
theorem run_in_range_cut_nonce :
    8 ≤ maxLength ∧ ∃ d, create 8 = .ok d ∧ (d.after [[0xc3, 0x82, 0x05]]).InOrder ∧
      ∃ q, (d.after [[0xc3, 0x82, 0x05]]).tx.quantity? .nonce = some q ∧ q.bytes.length = 1 := by
  have hle : 8 ≤ maxLength := by decide
  obtain ⟨d, hd, hall⟩ := run_in_range hle
  obtain rfl : (⟨.init, {}, 8, {}⟩ : Decoder) = d := Except.ok.inj hd
  have hphase : (after ⟨.init, {}, 8, {}⟩ [[0xc3, 0x82, 0x05]]).phase
      = .fields TxType.legacy.layout (some ⟨⟨2, false, 1⟩, 1⟩) none := by cbv
  have horder := (hall [[0xc3, 0x82, 0x05]]).1 (by rw [state, hphase]; decide)
  obtain ⟨-, e, rest, hlayout, -, -, -, hfilled⟩ := horder.current hphase
  obtain ⟨rfl, -⟩ := List.cons.inj hlayout
  exact ⟨hle, _, hd, horder, hfilled rfl⟩

end Decoder

end TxStream
