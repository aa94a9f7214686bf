import TxStream.Proofs.Decoder.Position

/-!
How many steps an update makes.

* `Decoder.trail`: the places from which the steps of a run are made, in order
  (`mem_trail_iff`);
* `stepCalls_trail_le`: there are at most six of them, where those among the fields count as one;
* `length_turns_le`: those among the fields are no more than what is left of the table, and one;
* `Decoder.Bounded`, `progress_monotone`: so an update ends, whatever lengths the headers declare.

Bytes are no measure of progress, since steps may look at a byte without taking it and fields may be
empty. The stage grows with every step outside of the fields, and the index with every step among
them.
-/

namespace TxStream

namespace Decoder

variable {d d' : Decoder} {c c' : Cursor} {chunk : Bytes}

/-! ### Places -/

/-- The places from which the steps of a run are made, in order. -/
def trail (d : Decoder) (c : Cursor) : List (Decoder × Cursor) :=
  match _ : (d.step c).stop? with
  | some _ => [(d, c)]
  | none => (d, c) :: (d.step c).decoder.trail (d.step c).cursor
termination_by d.phase.rank
decreasing_by exact rank_step_lt ‹_›

/-- The places from which the steps of an update are made. There are none if the chunk is not
read. -/
def places (d : Decoder) (chunk : Bytes) : List (Decoder × Cursor) :=
  if d.phase = .complete ∨ d.phase = .failed ∨ d.pending < chunk.length then []
  else (d.owing (d.pending - chunk.length)).trail (.start chunk)

/-- Whether a place is among the fields. -/
def inFields (p : Decoder × Cursor) : Bool := p.1.state == .fields

/-- The steps from the places, where those among the fields are turns of one loop and count once. -/
def stepCalls (places : List (Decoder × Cursor)) : Nat :=
  places.countP (!inFields ·) + if places.any inFields then 1 else 0

lemma trail_of_stop {stop : Stop} (h : (d.step c).stop? = some stop) : d.trail c = [(d, c)] := by
  rw [trail]
  split
  · rfl
  · next h' => cases h.symm.trans h'

lemma trail_of_goesOn (h : (d.step c).stop? = none) :
    d.trail c = (d, c) :: (d.step c).decoder.trail (d.step c).cursor := by
  conv_lhs => rw [trail]
  split
  · next stop h' => cases h.symm.trans h'
  · rfl

lemma exists_trail_cons (d : Decoder) (c : Cursor) : ∃ ps, d.trail c = (d, c) :: ps := by
  rcases hstop : (d.step c).stop? with _ | stop
  · exact ⟨_, trail_of_goesOn hstop⟩
  · exact ⟨_, trail_of_stop hstop⟩

/-- A trail goes on until a step stops. -/
lemma step_mem_trail {p : Decoder × Cursor} (hp : p ∈ d.trail c)
    (hstop : (p.1.step p.2).stop? = none) :
    ((p.1.step p.2).decoder, (p.1.step p.2).cursor) ∈ d.trail c := by
  induction d, c using run_induction with
  | stop d c stop hlast =>
      rw [trail_of_stop hlast, List.mem_singleton] at hp
      subst hp
      cases hstop.symm.trans hlast
  | goesOn d c hgo ih =>
      rw [trail_of_goesOn hgo] at hp ⊢
      rcases List.mem_cons.1 hp with rfl | hp
      · obtain ⟨ps, hps⟩ := exists_trail_cons (d.step c).decoder (d.step c).cursor
        rw [hps]
        exact List.mem_cons_of_mem _ List.mem_cons_self
      · exact List.mem_cons_of_mem _ (ih hp)

lemma Visits.mem_trail (h : d.Visits c d' c') : (d', c') ∈ d.trail c := by
  induction h with
  | start =>
      obtain ⟨ps, hps⟩ := exists_trail_cons d c
      rw [hps]
      exact List.mem_cons_self
  | step _ hstop ih => exact step_mem_trail ih hstop

/-- **The trail of a run has the places that the run visits**, and no others. -/
lemma mem_trail_iff {p : Decoder × Cursor} : p ∈ d.trail c ↔ d.Visits c p.1 p.2 := by
  constructor
  · intro hp
    induction d, c using run_induction with
    | stop d c stop hstop =>
        rw [trail_of_stop hstop, List.mem_singleton] at hp
        subst hp
        exact .start
    | goesOn d c hstop ih =>
        rw [trail_of_goesOn hstop] at hp
        rcases List.mem_cons.1 hp with rfl | hp
        · exact .start
        · exact (ih hp).head hstop
  · exact Visits.mem_trail

/-- The last place of a trail is that from which the run stops. -/
lemma exists_getLast?_trail (d : Decoder) (c : Cursor) :
    ∃ p, (d.trail c).getLast? = some p ∧ (p.1.step p.2).stop? = some (d.run c).stop := by
  induction d, c using run_induction with
  | stop d c stop hstop =>
      refine ⟨(d, c), by rw [trail_of_stop hstop, List.getLast?_singleton], ?_⟩
      rw [run_of_stop hstop, hstop]
  | goesOn d c hstop ih =>
      obtain ⟨p, hlast, hp⟩ := ih
      refine ⟨p, ?_, ?_⟩
      · rw [trail_of_goesOn hstop, List.getLast?_cons, hlast, Option.getD_some]
      · rw [run_of_goesOn hstop, hp]

lemma places_of_takes (ht : d.Takes chunk) :
    d.places chunk = (d.owing (d.pending - chunk.length)).trail (.start chunk) := by
  rw [places, if_neg]
  rintro (hc | hf | hlt)
  · exact ht.ne_complete hc
  · exact ht.ne_failed hf
  · exact Nat.not_lt.2 ht.length_le hlt

/-- There are no places unless the chunk is read. -/
lemma places_cases (d : Decoder) (chunk : Bytes) : d.places chunk = [] ∨ d.Takes chunk := by
  rw [places]
  split_ifs with hnot
  · exact .inl rfl
  · simp only [not_or, Nat.not_lt] at hnot
    exact .inr ⟨hnot.1, hnot.2.1, hnot.2.2⟩

/-- **The places of an update are those that it comes by.** -/
lemma mem_places_iff {p : Decoder × Cursor} : p ∈ d.places chunk ↔ d.Reaches chunk p.1 p.2 := by
  constructor
  · intro hp
    rcases places_cases d chunk with hnil | ht
    · rw [hnil] at hp
      cases hp
    · rw [places_of_takes ht] at hp
      exact ⟨ht, mem_trail_iff.1 hp⟩
  · intro hr
    rw [places_of_takes hr.takes]
    exact mem_trail_iff.2 hr.visits

/-! ### Counting -/

/-- From the fields on, all places are among the fields. -/
lemma Visits.state_eq (h : d.Visits c d' c') (hs : d.state = .fields) : d'.state = .fields := by
  induction h with
  | start => exact hs
  | step _ _ ih => exact (type_step ih _).1

lemma inFields_of_mem_trail (h : d.state = .fields) : ∀ p ∈ d.trail c, inFields p = true :=
  fun _ hp => beq_iff_eq.2 ((mem_trail_iff.1 hp).state_eq h)

/-- A trail is no longer than the steps that may follow. -/
lemma length_trail_le (d : Decoder) (c : Cursor) : (d.trail c).length ≤ d.phase.rank + 1 := by
  induction d, c using run_induction with
  | stop d c stop hstop =>
      rw [trail_of_stop hstop]
      exact Nat.le_add_left _ _
  | goesOn d c hstop ih =>
      have hlt := rank_step_lt hstop
      rw [trail_of_goesOn hstop, List.length_cons]
      omega

/-- A run that begins among the fields makes no more turns than what is left of the table, and
one. -/
lemma length_turns_le_of_fields (hd : d.Sound) (h : d.state = .fields) {p : Decoder × Cursor}
    {ps : List (Decoder × Cursor)} (hturns : (d.trail c).filter inFields = p :: ps) :
    (p :: ps).length ≤ p.1.table.length - p.1.index + 1 := by
  obtain ⟨todo, current, budget, hphase⟩ := exists_fields_of_state h
  rw [List.filter_eq_self.2 (inFields_of_mem_trail h)] at hturns
  obtain ⟨qs, hqs⟩ := exists_trail_cons d c
  obtain ⟨rfl, -⟩ := List.cons.inj (hqs.symm.trans hturns)
  have hfits := restIndex_add_length_le (hd.sublist_table hphase)
  have hle := length_trail_le d c
  have hrank : d.phase.rank = todo.length := by rw [hphase, Phase.rank]
  have hindex := index_of_fields hphase
  rw [← hturns]
  dsimp only
  omega

lemma inFields_eq_false (h : d.state ≠ .fields) (c : Cursor) : inFields (d, c) = false :=
  beq_eq_false_iff_ne.2 h

/-- **The loop over the fields makes no more turns than what is left of the table, and one.** -/
theorem length_turns_le (hd : d.Sound) (hf : d.phase ≠ .failed) {p : Decoder × Cursor}
    {ps : List (Decoder × Cursor)} (hturns : (d.trail c).filter inFields = p :: ps) :
    (p :: ps).length ≤ p.1.table.length - p.1.index + 1 := by
  -- the first turn is where the run begins, or where it comes to the fields
  induction d, c using run_induction with
  | stop d c stop hstop =>
      by_cases hs : d.state = .fields
      · exact length_turns_le_of_fields hd hs hturns
      · rw [trail_of_stop hstop, List.filter_singleton, inFields_eq_false hs] at hturns
        cases hturns
  | goesOn d c hstop ih =>
      by_cases hs : d.state = .fields
      · exact length_turns_le_of_fields hd hs hturns
      · rw [trail_of_goesOn hstop,
          List.filter_cons_of_neg (by simp [inFields_eq_false hs])] at hturns
        have hm := moves_step hd hf c
        rw [hstop] at hm
        exact ih (sound_step hd (.inl hstop)) hm.ne_failed.1 hturns

lemma stepCalls_cons {p : Decoder × Cursor} (h : inFields p = false)
    (ps : List (Decoder × Cursor)) : stepCalls (p :: ps) = stepCalls ps + 1 := by
  rw [stepCalls, stepCalls, List.countP_cons_of_pos (by simp [h]), List.any_cons, h,
    Bool.false_or]
  omega

lemma stepCalls_of_fields (h : d.state = .fields) (c : Cursor) : stepCalls (d.trail c) = 1 := by
  have hall := inFields_of_mem_trail (c := c) h
  have hcount : (d.trail c).countP (!inFields ·) = 0 :=
    List.countP_eq_zero.2 fun p hp => by simp [hall p hp]
  obtain ⟨ps, hps⟩ := exists_trail_cons d c
  have hany : (d.trail c).any inFields = true :=
    List.any_eq_true.2 ⟨(d, c), hps ▸ List.mem_cons_self, beq_iff_eq.2 h⟩
  rw [stepCalls, hcount, hany, if_pos rfl]

lemma stage_lt_six (hc : d.phase ≠ .complete) (hf : d.phase ≠ .failed) : d.stage < 6 := by
  have hall : ∀ s : State, s ≠ .complete → s ≠ .error → State.all.idxOf s < 6 := by
    intro s
    cases s <;> decide
  exact hall _ (fun hs => hc (phase_of_state_complete hs)) fun hs => hf (phase_of_state_error hs)

/-- **A run makes no more calls than there are stages ahead.** -/
theorem stepCalls_trail_le (hd : d.Sound) (hc : d.phase ≠ .complete) (hf : d.phase ≠ .failed) :
    d.stage + stepCalls (d.trail c) ≤ 6 := by
  -- each call outside of the fields is paid by a stage, and the fields are the last call
  induction d, c using run_induction with
  | stop d c stop hstop =>
      have hlt := stage_lt_six hc hf
      by_cases hs : d.state = .fields
      · rw [stepCalls_of_fields hs]
        omega
      · have hone : stepCalls [(d, c)] = 1 := stepCalls_cons (inFields_eq_false hs c) []
        rw [trail_of_stop hstop, hone]
        omega
  | goesOn d c hstop ih =>
      by_cases hs : d.state = .fields
      · have hlt := stage_lt_six hc hf
        rw [stepCalls_of_fields hs]
        omega
      · have hm := moves_step hd hf c
        rw [hstop] at hm
        have hlt := hm.stage_lt hs
        have hle := ih (sound_step hd (.inl hstop)) hm.ne_failed.2 hm.ne_failed.1
        rw [trail_of_goesOn hstop, stepCalls_cons (inFields_eq_false hs c)]
        omega

/-! ### Updates -/

/-- **What bounds an update.** -/
structure Bounded (d : Decoder) (chunk : Bytes) : Prop where
  /-- The step from the last place decides on the answer, if the chunk is read. -/
  ends : d.Takes chunk → ∃ p stop, (d.places chunk).getLast? = some p ∧
    (p.1.step p.2).stop? = some stop ∧ (d.update chunk).result = stop.answer
  /-- A step that goes on leads strictly forward. -/
  forward : ∀ p ∈ d.places chunk, (p.1.step p.2).stop? = none →
    p.1.position < (p.1.step p.2).decoder.position
  /-- Among the fields it leads to a later index. -/
  turns : ∀ p ∈ d.places chunk, p.1.state = .fields → (p.1.step p.2).stop? = none →
    (p.1.step p.2).decoder.state = .fields ∧ p.1.index < (p.1.step p.2).decoder.index
  /-- No place is after the end, unless the chunk is refused. -/
  position_le : ∀ p ∈ d.places chunk, (d.update chunk).decoder.state ≠ .error →
    p.1.position ≤ (d.update chunk).decoder.position
  /-- Among the fields the type and the table are settled, whatever chunks come later. -/
  settled : ∀ p ∈ d.places chunk, p.1.state = .fields → ∀ later,
    ((d.update chunk).decoder.after later).tx.type = p.1.tx.type ∧
      ((d.update chunk).decoder.after later).table = p.1.table
  /-- There are at most six calls of a step. -/
  calls : stepCalls (d.places chunk) ≤ 6
  /-- The loop over the fields makes no more turns than what is left of the table, and one. -/
  loop : ∀ p ps, (d.places chunk).filter inFields = p :: ps →
    (p :: ps).length ≤ p.1.table.length - p.1.index + 1

lemma Resting.sound (hd : d.Resting) (ht : d.Takes chunk) : d.Sound := by
  rcases hd with hw | hc | hf
  · exact hw.sound
  · exact absurd hc ht.ne_complete
  · exact absurd hf ht.ne_failed

/-- **Every update is bounded.** -/
theorem Resting.bounded (hd : d.Resting) (chunk : Bytes) : d.Bounded chunk := by
  -- the places are those that the update comes by, to which the lemmas on steps apply
  constructor
  case ends =>
    intro ht
    obtain ⟨p, hlast, hstop⟩ :=
      exists_getLast?_trail (d.owing (d.pending - chunk.length)) (.start chunk)
    rw [← places_of_takes ht] at hlast
    have hr := mem_places_iff.1 (List.mem_of_getLast? hlast)
    exact ⟨p, _, hlast, hstop, (hr.update_eq hstop).1⟩
  case forward =>
    intro p hp hstop
    have hr := mem_places_iff.1 hp
    obtain ⟨hd', hm⟩ := hr.moves (hd.sound hr.takes) hstop
    exact hm.leads_forward hd'
  case turns =>
    intro p hp hs hstop
    have hr := mem_places_iff.1 hp
    obtain ⟨hd', hm⟩ := hr.moves (hd.sound hr.takes) hstop
    exact hm.index_lt hd' hs
  case position_le =>
    intro p hp hne
    have hr := mem_places_iff.1 hp
    exact hr.position_le (hd.sound hr.takes) hne
  case settled =>
    intro p hp hs later
    obtain ⟨htype, hstage⟩ := (mem_places_iff.1 hp).type_update hs
    have hlater := (type_after hstage later).trans htype
    exact ⟨hlater, table_eq_of_type_eq hlater⟩
  case calls =>
    rcases places_cases d chunk with hnil | ht
    · rw [hnil]
      exact Nat.zero_le _
    · have hle := stepCalls_trail_le (c := .start chunk)
        ((hd.sound ht).owing (d.pending - chunk.length)) ht.ne_complete ht.ne_failed
      rw [places_of_takes ht]
      omega
  case loop =>
    intro p ps hturns
    rcases places_cases d chunk with hnil | ht
    · rw [hnil] at hturns
      cases hturns
    · rw [places_of_takes ht] at hturns
      exact length_turns_le ((hd.sound ht).owing (d.pending - chunk.length)) ht.ne_failed hturns

/-- **Progress is strictly monotone, so every update ends.** A decoder is created for any length up
to the maximum. Whatever chunks it was given, no later chunks lead it backward unless one of them is
refused; the type and the table are settled where the fields begin; and the update with any chunk
makes at most six calls of a step, and no more turns of the loop over the fields than what is left
of the table, and one. -/
theorem progress_monotone {len : Nat} (hlen : len ≤ maxLength) :
    ∃ d, create len = .ok d ∧ ∀ chunks : List Bytes,
      (∀ later, (d.after (chunks ++ later)).state ≠ .error →
        (d.after chunks).position ≤ (d.after (chunks ++ later)).position) ∧
      ((d.after chunks).state = .fields → ∀ later,
        (d.after (chunks ++ later)).tx.type = (d.after chunks).tx.type ∧
          (d.after (chunks ++ later)).table = (d.after chunks).table) ∧
      ∀ chunk, (d.after chunks).Bounded chunk := by
  have hcreate : create len = .ok ⟨.init, {}, len, {}⟩ := create_eq hlen
  refine ⟨_, hcreate, fun chunks => ?_⟩
  have hrest := Resting.after (.inl (waiting_create hcreate)) chunks
  simp only [after_append]
  generalize after ⟨.init, {}, len, {}⟩ chunks = d at hrest ⊢
  refine ⟨fun later => position_le_after hrest, fun hs later => ?_, hrest.bounded⟩
  have hstage : State.all.idxOf .fields ≤ d.stage := by rw [stage, hs]
  have htype := type_after hstage later
  exact ⟨htype, table_eq_of_type_eq htype⟩

/-- A cancellation without payloads in one chunk: its update makes the six calls, and ten turns of
the loop over a table of ten fields. -/
theorem progress_monotone_cancel :
    11 ≤ maxLength ∧ ∃ d chunk, create 11 = .ok d ∧
      chunk = [0xc0, 0x86, 0xc5, 0x38, 0x80, 0x80, 0x80, 0x80, 0x80, 0x80, 0x80] ∧
      d.position ≤ (d.after [chunk]).position ∧ d.Bounded chunk ∧
      stepCalls (d.places chunk) = 6 ∧ (d.places chunk).countP inFields = 10 := by
  have hle : 11 ≤ maxLength := by decide
  obtain ⟨d, hd, hall⟩ := progress_monotone hle
  obtain rfl : (⟨.init, {}, 11, {}⟩ : Decoder) = d := Except.ok.inj hd
  obtain ⟨hposition, -, hbounded⟩ := hall []
  refine ⟨hle, _, _, hd, rfl, hposition [_] ?_, hbounded _, ?_, ?_⟩
  · cbv
    decide
  · cbv
  · cbv

end Decoder

end TxStream
