import Mathlib.Data.List.Nodup
import Mathlib.Data.Prod.Lex
import TxStream.Proofs.Decoder.Protocol

/-!
How far a decoder has come.

* `Decoder.position`: its state, in the order in which states are passed, and among the fields the
  index in the table of its family;
* `Moves.leads_forward`, `Moves.stays`: a step that goes on leads forward, and one that waits
  leads nowhere;
* `position_le_after`: so no chunks lead backward, until they are refused;
* `type_after`: the type, and with it the table, is settled where the fields begin.
-/

namespace TxStream

/-! ### Where a list goes on -/

section RestIndex

variable {α : Type} [DecidableEq α] {a : α} {l rest : List α}

/-- The index in a list of the first item of what is left of it, and the length of the list where
nothing is left. -/
def restIndex (l : List α) : List α → Nat
  | [] => l.length
  | a :: _ => l.idxOf a

/-- What is left of a list fits behind its index. -/
lemma restIndex_add_length_le (h : rest.Sublist l) : restIndex l rest + rest.length ≤ l.length := by
  cases rest with
  | nil => exact Nat.le_refl _
  | cons a rest =>
      obtain ⟨l₁, l₂, rfl, hmem, hrest⟩ := List.cons_sublist_iff.1 h
      have hlt : l₁.idxOf a < l₁.length := List.idxOf_lt_length_of_mem hmem
      have hle := hrest.length_le
      rw [restIndex, List.idxOf_append_of_mem hmem, List.length_append, List.length_cons]
      omega

/-- With its first item gone, what is left of a list goes on at a later index. -/
lemma restIndex_lt (hl : l.Nodup) (h : (a :: rest).Sublist l) :
    restIndex l (a :: rest) < restIndex l rest := by
  obtain ⟨l₁, l₂, rfl, hmem, hrest⟩ := List.cons_sublist_iff.1 h
  have hlt : l₁.idxOf a < l₁.length := List.idxOf_lt_length_of_mem hmem
  rw [restIndex, List.idxOf_append_of_mem hmem]
  cases rest with
  | nil =>
      rw [restIndex, List.length_append]
      omega
  | cons b rest =>
      have hb : b ∈ l₂ := hrest.subset List.mem_cons_self
      have hnot : b ∉ l₁ := fun hmem' => (List.disjoint_of_nodup_append hl) hmem' hb
      rw [restIndex, List.idxOf_append_of_notMem hnot]
      omega

end RestIndex

lemma Family.nodup_table (f : Family) : f.table.Nodup := by
  cases f with
  | legacy => decide
  | typed a => cases a <;> decide

namespace Decoder

variable {d d' : Decoder} {c c' : Cursor} {chunk : Bytes}

/-! ### Positions -/

/-- The table from which a decoder takes its fields. -/
def table (d : Decoder) : List Entry := d.tx.type.family.table

/-- The index in the table of the field that a decoder is at. After the last field, it is the length
of the table. -/
def index (d : Decoder) : Nat :=
  match d.phase with
  | .fields todo _ _ => restIndex d.table todo
  | _ => 0

/-- How many states come before the state of a decoder. -/
def stage (d : Decoder) : Nat := State.all.idxOf d.state

/-- How far a decoder has come: its state, and among the fields the index. -/
def position (d : Decoder) : Nat ×ₗ Nat := toLex (d.stage, d.index)

lemma table_eq_of_type_eq (h : d'.tx.type = d.tx.type) : d'.table = d.table := by
  rw [table, table, h]

lemma index_of_fields {todo : List Entry} {current : Option OpenField} {budget : Option Nat}
    (hphase : d.phase = .fields todo current budget) : d.index = restIndex d.table todo := by
  rw [index, hphase]

/-- Where the fields are, there is a list of those still to come. -/
lemma exists_fields_of_state (h : d.state = .fields) :
    ∃ todo current budget, d.phase = .fields todo current budget := by
  rw [state] at h
  rcases hp : d.phase with _ | _ | _ | _ | _ | ⟨todo, current, budget⟩ | _ | _ <;>
    rw [hp] at h <;> first | exact ⟨todo, current, budget, rfl⟩ | cases h

lemma state_of_phase {todo : List Entry} {current : Option OpenField} {budget : Option Nat}
    (hphase : d.phase = .fields todo current budget) : d.state = .fields := by
  rw [state, hphase]
  rfl

/-- The fields still to come are entries of the table, in order. -/
lemma Sound.sublist_table (hd : d.Sound) {todo : List Entry} {current : Option OpenField}
    {budget : Option Nat} (hphase : d.phase = .fields todo current budget) :
    todo.Sublist d.table := by
  have hlayout : d.tx.type.layout.Sublist d.table := List.filter_sublist
  have hsound := hd.phase
  rw [hphase] at hsound
  cases current with
  | none => exact hsound.1.sublist.trans hlayout
  | some f =>
      cases todo with
      | nil => exact hsound.elim
      | cons e rest => exact hsound.1.sublist.trans hlayout

/-! ### Steps that go on -/

/-- Payload that is read to its end leads to the next field. -/
lemma Pays.advances {e : Entry} {rest : List Entry} {f : OpenField} {budget : Option Nat}
    (h : d.Pays c e rest f budget d' c' none) :
    (∃ budget', d'.phase = .fields rest none budget') ∧ d'.tx.type = d.tx.type := by
  cases h with
  | list => exact ⟨⟨_, rfl⟩, rfl⟩
  | closes _ _ _ ha => exact ⟨⟨_, rfl⟩, (Entry.spares_of_apply ha).type⟩

/-- A state before the fields is passed for a later one. -/
lemma passes (s s' : State) (h : d.state = s) (h' : d'.state = s')
    (hlt : s ≠ .fields ∧ State.all.idxOf s < State.all.idxOf s') :
    d.state ≠ .fields ∧ d.stage < d'.stage := by
  rw [stage, stage, h, h']
  exact hlt

/-- **A step that goes on comes to a later state, or to the next field** of the same type. -/
lemma Moves.advances (h : d.Moves c d' c' none) :
    (d.state ≠ .fields ∧ d.stage < d'.stage) ∨ ∃ e rest current budget budget',
      d.phase = .fields (e :: rest) current budget ∧ d'.phase = .fields rest none budget' ∧
        d'.tx.type = d.tx.type := by
  have hstate : ∀ {p : Phase}, d.phase = p → d.state = p.state := congrArg Phase.state
  cases h with
  | outer hphase => exact .inl (passes .init .envelope (hstate hphase) rfl (by decide))
  | wraps hphase => exact .inl (passes .envelope .wrapper (hstate hphase) rfl (by decide))
  | lists hphase => exact .inl (passes .wrapper .content (hstate hphase) rfl (by decide))
  | fills hphase => exact .inl (passes .content .typeTag (hstate hphase) rfl (by decide))
  | enters he =>
      cases he with
      | short hphase => exact .inl (passes .envelope .fields (hstate hphase) rfl (by decide))
      | plain hphase => exact .inl (passes .wrapper .fields (hstate hphase) rfl (by decide))
      | typed hphase => exact .inl (passes .typeTag .fields (hstate hphase) rfl (by decide))
  | pays hphase hp =>
      obtain ⟨⟨budget', hphase'⟩, htype⟩ := hp.advances
      exact .inr ⟨_, _, _, _, _, hphase, hphase', htype⟩
  | opens hphase _ _ _ ha hp =>
      obtain ⟨⟨budget', hphase'⟩, htype⟩ := hp.advances
      exact .inr ⟨_, _, _, _, _, hphase, hphase', htype.trans (Entry.spares_of_accept ha).type⟩

/-- Among the fields, a step that goes on comes to a later index. -/
lemma Moves.index_lt (h : d.Moves c d' c' none) (hd : d.Sound) (hs : d.state = .fields) :
    d'.state = .fields ∧ d.index < d'.index := by
  rcases h.advances with ⟨hne, -⟩ | ⟨e, rest, current, budget, budget', hphase, hphase', htype⟩
  · exact absurd hs hne
  · refine ⟨state_of_phase hphase', ?_⟩
    rw [index_of_fields hphase, index_of_fields hphase', table_eq_of_type_eq htype]
    exact restIndex_lt (Family.nodup_table _) (hd.sublist_table hphase)

/-- Outside of the fields, a step that goes on comes to a later stage. -/
lemma Moves.stage_lt (h : d.Moves c d' c' none) (hs : d.state ≠ .fields) : d.stage < d'.stage := by
  rcases h.advances with ⟨-, hlt⟩ | ⟨_, _, _, _, _, hphase, -⟩
  · exact hlt
  · exact absurd (state_of_phase hphase) hs

/-- **A step that goes on leads strictly forward.** -/
theorem Moves.leads_forward (h : d.Moves c d' c' none) (hd : d.Sound) :
    d.position < d'.position := by
  rw [position, position, Prod.Lex.toLex_lt_toLex]
  by_cases hs : d.state = .fields
  · obtain ⟨hs', hlt⟩ := h.index_lt hd hs
    have hstage : d.stage = d'.stage := by rw [stage, stage, hs, hs']
    exact .inr ⟨hstage, hlt⟩
  · exact .inl (h.stage_lt hs)

/-! ### Steps that wait -/

/-- Payload that goes on after the chunk stays at its field. -/
lemma Pays.stays {e : Entry} {rest : List Entry} {f : OpenField} {budget : Option Nat}
    (h : d.Pays c e rest f budget d' c' (some .suspend)) :
    (∃ f' budget', d'.phase = .fields (e :: rest) (some f') budget') ∧ d'.tx.type = d.tx.type := by
  cases h with
  | waits _ _ _ ha => exact ⟨⟨_, _, rfl⟩, (Entry.spares_of_apply ha).type⟩

/-- A position is that of the fields still to come and of the type. -/
lemma position_eq_of_fields {todo : List Entry} {current current' : Option OpenField}
    {budget budget' : Option Nat} (hphase : d.phase = .fields todo current budget)
    (hphase' : d'.phase = .fields todo current' budget') (htype : d'.tx.type = d.tx.type) :
    d'.position = d.position := by
  rw [position, position, stage, stage, state_of_phase hphase, state_of_phase hphase',
    index_of_fields hphase, index_of_fields hphase', table_eq_of_type_eq htype]

/-- **A step that waits stays where it is.** -/
theorem Moves.stays (h : d.Moves c d' c' (some .suspend)) : d'.position = d.position := by
  cases h with
  | holds hholds =>
      rcases hp : d.phase with _ | _ | _ | _ | _ | ⟨todo, current, budget⟩ | _ | _ <;>
        rw [hp] at hholds <;> cases hholds
      · simp [position, stage, index, state, hp]
      · simp [position, stage, index, state, hp]
      · simp [position, stage, index, state, hp]
      · exact position_eq_of_fields hp rfl rfl
  | peeks => rfl
  | pays hphase hp =>
      obtain ⟨⟨f', budget', hphase'⟩, htype⟩ := hp.stays
      exact position_eq_of_fields hphase hphase' htype
  | opens hphase _ _ _ ha hp =>
      obtain ⟨⟨f', budget', hphase'⟩, htype⟩ := hp.stays
      exact position_eq_of_fields hphase hphase' (htype.trans (Entry.spares_of_accept ha).type)

/-! ### The type -/

lemma type_readPayload (d : Decoder) (c : Cursor) (e : Entry) (rest : List Entry) (f : OpenField)
    (budget : Option Nat) :
    (d.readPayload c e rest f budget).decoder.state = .fields ∧
      (d.readPayload c e rest f budget).decoder.tx.type = d.tx.type := by
  fun_cases readPayload d c e rest f budget with
  | case2 => exact ⟨rfl, (Entry.spares_write ..).type⟩
  | case3 => exact ⟨rfl, (Entry.spares_write ..).type⟩
  | case4 => exact ⟨rfl, (Entry.spares_write ..).type⟩
  | _ => exact ⟨rfl, rfl⟩

lemma type_readField (d : Decoder) (c : Cursor) (e : Entry) (rest : List Entry)
    (budget : Option Nat) :
    (d.readField c e rest budget).decoder.state = .fields ∧
      (d.readField c e rest budget).decoder.tx.type = d.tx.type := by
  fun_cases readField d c e rest budget with
  | case5 r d₁ budget₁ _ h _ tx ha =>
      obtain ⟨hs, htype⟩ := type_readPayload { d₁ with tx := tx } r.cursor e rest ⟨h, 0⟩ budget₁
      exact ⟨hs, htype.trans (Entry.spares_of_accept ha).type⟩
  | _ => exact ⟨rfl, rfl⟩

/-- No step among the fields leaves them or changes the type, be it the last one or not. -/
lemma type_step (h : d.state = .fields) (c : Cursor) :
    (d.step c).decoder.state = .fields ∧ (d.step c).decoder.tx.type = d.tx.type := by
  obtain ⟨todo, current, budget, hphase⟩ := exists_fields_of_state h
  rw [step, hphase]
  dsimp only
  fun_cases readFields d c todo current budget with
  | case1 => exact ⟨h, rfl⟩
  | case2 => exact type_readPayload ..
  | case3 => exact ⟨rfl, rfl⟩
  | case4 => exact ⟨rfl, rfl⟩
  | case5 => exact type_readField ..
  | case6 => exact type_readField ..

lemma type_run (h : d.state = .fields) (c : Cursor) :
    (d.run c).decoder.state = .fields ∧ (d.run c).decoder.tx.type = d.tx.type := by
  induction d, c using run_induction with
  | stop d c stop hstop =>
      rw [run_of_stop hstop]
      exact type_step h c
  | goesOn d c hstop ih =>
      obtain ⟨hs, htype⟩ := type_step h c
      obtain ⟨hs', htype'⟩ := ih hs
      rw [run_of_goesOn hstop]
      exact ⟨hs', htype'.trans htype⟩

lemma tx_conclude (r : Run) : (conclude r).decoder.tx = r.decoder.tx := by
  rcases r with ⟨d, c, _ | _ | e, log⟩ <;> rfl

/-- An answer leaves the fields only for the end or for a failure. -/
lemma stage_conclude {r : Run} (h : r.decoder.state = .fields) :
    State.all.idxOf .fields ≤ (conclude r).decoder.stage := by
  rcases r with ⟨d, c, _ | _ | e, log⟩
  · exact le_of_eq (congrArg State.all.idxOf h).symm
  · exact (by decide : State.all.idxOf .fields ≤ State.all.idxOf .complete)
  · exact (by decide : State.all.idxOf .fields ≤ State.all.idxOf .error)

/-- From the fields on, a decoder that has not ended is among the fields. -/
lemma fields_of_stage_le (h : State.all.idxOf .fields ≤ d.stage) (hc : d.state ≠ .complete)
    (hf : d.state ≠ .error) : d.state = .fields := by
  have hall : ∀ s : State, State.all.idxOf .fields ≤ State.all.idxOf s → s ≠ .complete →
      s ≠ .error → s = .fields := by
    intro s
    cases s <;> decide
  exact hall _ h hc hf

/-- An update that comes among the fields does not change the type from there on. -/
lemma Reaches.type_update (hr : d.Reaches chunk d' c') (hs : d'.state = .fields) :
    (d.update chunk).decoder.tx.type = d'.tx.type ∧
      State.all.idxOf .fields ≤ (d.update chunk).decoder.stage := by
  obtain ⟨-, hdec, -⟩ := hr.visits.run_eq
  obtain ⟨hrun, htype⟩ := type_run hs c'
  rw [← hdec] at hrun htype
  rw [update_eq_readChunk hr.takes.ne_complete hr.takes.ne_failed hr.takes.length_le]
  exact ⟨(congrArg Transaction.type (tx_conclude _)).trans htype, stage_conclude hrun⟩

/-- From the fields on, no chunk changes the type. -/
lemma type_update (h : State.all.idxOf .fields ≤ d.stage) (chunk : Bytes) :
    (d.update chunk).decoder.tx.type = d.tx.type ∧
      State.all.idxOf .fields ≤ (d.update chunk).decoder.stage := by
  by_cases hc : d.phase = .complete
  · rw [update_of_complete hc]
    exact ⟨rfl, h⟩
  by_cases hf : d.phase = .failed
  · rw [update_of_failed hf]
    exact ⟨rfl, h⟩
  rcases Nat.lt_or_ge d.pending chunk.length with hlt | hle
  · rw [update_of_lt hc hf hlt]
    exact ⟨rfl, (by decide : State.all.idxOf .fields ≤ State.all.idxOf .error)⟩
  · have hs : d.state = .fields := fields_of_stage_le h
      (fun hs => hc (phase_of_state_complete hs)) fun hs => hf (phase_of_state_error hs)
    exact (Takes.reaches ⟨hc, hf, hle⟩).type_update hs

/-- **The type is settled where the fields begin**: no chunks change it, whether they are refused or
not. -/
theorem type_after (h : State.all.idxOf .fields ≤ d.stage) (chunks : List Bytes) :
    (d.after chunks).tx.type = d.tx.type := by
  induction chunks generalizing d with
  | nil => rfl
  | cons chunk chunks ih =>
      obtain ⟨htype, hstage⟩ := type_update h chunk
      exact (ih hstage).trans htype

/-! ### Chunks -/

/-- No position is after the end of the transaction but that of a failure. -/
lemma position_le_of_complete (hf : d.state ≠ .error) (hc : d'.phase = .complete) :
    d.position ≤ d'.position := by
  have hall : ∀ s : State, s ≠ .error → s = .complete ∨
      State.all.idxOf s < State.all.idxOf .complete := by
    intro s
    cases s <;> decide
  have hstage : d'.stage = State.all.idxOf .complete := by
    rw [stage, state, hc]
    rfl
  rw [position, position, Prod.Lex.toLex_le_toLex]
  rcases hall _ hf with hs | hlt
  · have hindex : d.index = 0 := by
      rw [index, phase_of_state_complete hs]
    refine .inr ⟨?_, hindex ▸ Nat.zero_le _⟩
    rw [hstage, stage, hs]
  · exact .inl (hstage ▸ hlt)

lemma Visits.position_le (h : d.Visits c d' c') (hd : d.Sound) (hf : d.phase ≠ .failed) :
    d.position ≤ d'.position :=
  (h.invariant (P := fun d₁ _ => d.position ≤ d₁.position) hd hf le_rfl
    fun hd₁ hle hm _ => hle.trans (hm.leads_forward hd₁).le).2.2

/-- **The places that an update comes by are not after its end**, unless the chunk is refused. -/
lemma Reaches.position_le (hr : d.Reaches chunk d' c') (hd : d.Sound)
    (h : (d.update chunk).decoder.state ≠ .error) :
    d'.position ≤ (d.update chunk).decoder.position := by
  -- the last place decides on the end, and is not before this one
  obtain ⟨d₁, c₁, hv, hstop⟩ := exists_visits_run d' c'
  have hr₁ : d.Reaches chunk d₁ c₁ := ⟨hr.takes, hr.visits.trans hv⟩
  obtain ⟨hd', hf'⟩ := hr.sound hd
  obtain ⟨-, hf₁⟩ := hr₁.sound hd
  obtain ⟨-, hm⟩ := hr₁.moves hd hstop
  obtain ⟨-, hdec⟩ := hr₁.update_eq hstop
  refine (hv.position_le hd' hf').trans ?_
  generalize (d'.run c').stop = stop at hm hdec
  rw [hdec] at h ⊢
  cases stop with
  | suspend => exact hm.stays.ge
  | finish => exact position_le_of_complete (fun hs => hf₁ (phase_of_state_error hs)) rfl
  | fail e => exact absurd rfl h

/-- A chunk leads forward or nowhere, unless it is refused. -/
lemma position_le_update (hd : d.Resting) (h : (d.update chunk).decoder.state ≠ .error) :
    d.position ≤ (d.update chunk).decoder.position := by
  rcases hd with hw | hc | hf
  · have hle : chunk.length ≤ d.pending := by
      by_contra hlt
      rw [update_of_lt hw.ne_complete hw.ne_failed (Nat.not_le.1 hlt)] at h
      exact h rfl
    exact (hw.takes hle).reaches.position_le hw.sound h
  · rw [update_of_complete hc]
  · rw [update_of_failed hf]

/-- **No chunks lead backward**, unless one of them is refused. -/
theorem position_le_after (hd : d.Resting) {chunks : List Bytes}
    (h : (d.after chunks).state ≠ .error) : d.position ≤ (d.after chunks).position := by
  induction chunks generalizing d with
  | nil => exact le_rfl
  | cons chunk chunks ih =>
      have hne : (d.update chunk).decoder.state ≠ .error := by
        intro hs
        have hstay : (d.update chunk).decoder.after chunks = (d.update chunk).decoder :=
          after_of_update (fun chunk => by rw [update_of_failed (phase_of_state_error hs)]) chunks
        exact h ((congrArg state hstay).trans hs)
      exact (position_le_update hd hne).trans (ih (hd.update chunk) h)

end Decoder

end TxStream
