import TxStream.Proofs.Decoder.Visits

/-!
How much input was declared matters in one place only: a legacy transaction may end before its
chain, if no more input is expected.

* `Decoder.EndsEarly`: a step that ends a transaction there;
* `step_owing`: any other step is the same if more input is expected;
* `Visits.owing`: so a decoder comes by the same places;
* `result_update_owing`: and a chunk that does not complete a transaction is answered alike;
* `update_owing_of_complete`: one that completes it does so as well, or leaves the decoder waiting
  for the chain.
-/

namespace TxStream

/-- The step of a decoder that expects another length of input. -/
def Step.owing (s : Step) (q : Nat) : Step := { s with decoder := s.decoder.owing q }

namespace Decoder

variable {d d' : Decoder} {c c' : Cursor}

/-! ### Steps -/

lemma readPayload_owing (e : Entry) (rest : List Entry) (f : OpenField) (budget : Option Nat)
    (q : Nat) :
    (d.owing q).readPayload c e rest f budget = (d.readPayload c e rest f budget).owing q := by
  simp only [readPayload, tx_owing]
  split
  · split
    · rfl
    · split
      · rfl
      · split <;> rfl
  · rfl

lemma readField_owing (e : Entry) (rest : List Entry) (budget : Option Nat) (q : Nat) :
    (d.owing q).readField c e rest budget = (d.readField c e rest budget).owing q := by
  simp only [readField, partialHeader_owing, tx_owing]
  split
  · rfl
  · split
    · rfl
    · rfl
    · next h _ =>
      split
      · rfl
      · next tx _ =>
        exact congrArg (Step.after · (e.acceptanceLog h)) (readPayload_owing
          (d := { d with partialHeader := (d.partialHeader.read c).partialHeader, tx := tx }) ..)

lemma enter_owing (t : TxType) (h : Header) (budget : Option Nat) (q : Nat) :
    (d.owing q).enter c t h budget = (d.enter c t h budget).owing q := by
  simp only [enter, tx_owing]
  split
  · rfl
  · split <;> rfl

lemma withHeader_owing {go : Decoder → Cursor → Header → Step} {q : Nat}
    (hgo : ∀ (d : Decoder) c h, go (d.owing q) c h = (go d c h).owing q) :
    (d.owing q).withHeader c go = (d.withHeader c go).owing q := by
  simp only [withHeader, partialHeader_owing]
  split
  · rfl
  · rfl
  · exact hgo { d with partialHeader := (d.partialHeader.read c).partialHeader } _ _

/-- The step from `d` at `c` ends a transaction before its chain. -/
structure EndsEarly (d : Decoder) (c : Cursor) : Prop where
  chain : ∃ e rest budget, d.phase = .fields (e :: rest) none budget ∧ e.field = .chainId ∧
    budget.getD 0 = 0
  ends : d.endsBeforeChain c = true

lemma EndsEarly.stop?_eq (h : d.EndsEarly c) : (d.step c).stop? = some .finish := by
  obtain ⟨e, rest, budget, hphase, hchain, hbudget⟩ := h.chain
  rw [step, hphase]
  simp only [readFields, hchain, if_true, hbudget, ne_eq, not_true, if_false, h.ends]

/-- Where more input is expected, the chain is awaited instead. -/
lemma EndsEarly.stop?_owing {q : Nat} (h : d.EndsEarly c) (hd : d.Sound) (hq : 0 < q) :
    ((d.owing q).step c).stop? = some .suspend ∧ (d.owing q).field? = some .chainId := by
  obtain ⟨e, rest, budget, hphase, hchain, hbudget⟩ := h.chain
  have hends := h.ends
  simp only [endsBeforeChain, Bool.and_eq_true, Bool.not_eq_true'] at hends
  obtain ⟨⟨⟨-, hempty⟩, -⟩, hheld⟩ := hends
  have hmore : (d.owing q).endsBeforeChain c = false := by
    have hne : ((d.owing q).pending == 0) = false := by simpa [owing] using Nat.ne_of_gt hq
    simp [endsBeforeChain, hne]
  have hcan : Header.canDecode (d.partialHeader.held ++ c.ahead) = .ok false := by
    have hahead : c.ahead = [] := by simpa [Cursor.isEmpty] using hempty
    rw [hahead, List.append_nil]
    exact hd.held
  refine ⟨?_, by rw [field?, phase_owing, hphase]; exact congrArg some hchain⟩
  rw [step, phase_owing, hphase]
  simp only [readFields, hchain, if_true, hbudget, ne_eq, not_true, if_false, hmore,
    Bool.false_eq_true]
  rw [readField_owing, readField_eq hd.held, PartialHeader.scan_of_partial hcan]
  rfl

/-- **Only an early end depends on what is still expected.** -/
theorem step_owing {q : Nat} (hq : d.pending ≤ q) (hearly : ¬d.EndsEarly c) :
    (d.owing q).step c = (d.step c).owing q := by
  rw [step, step, phase_owing]
  rcases hphase : d.phase with _ | _ | item | item | list | ⟨todo, current, budget⟩ | _ | _
  · refine withHeader_owing fun d c h => ?_
    split_ifs <;> rfl
  · refine withHeader_owing fun d c h => ?_
    split_ifs
    · rfl
    · exact enter_owing ..
    · rfl
  · dsimp only
    split
    · rfl
    · split_ifs
      · rfl
      · exact enter_owing ..
  · refine withHeader_owing fun d c h => ?_
    split_ifs <;> rfl
  · dsimp only
    split
    · rfl
    · split
      · rfl
      · exact enter_owing ..
  · rcases todo with _ | ⟨e, rest⟩
    · rfl
    rcases current with _ | f
    · simp only [readFields]
      split_ifs with hchain hbudget hends hends' hends'
      · rfl
      · rfl
      · -- where more is expected than nothing, no transaction ends
        simp only [endsBeforeChain, owing, Bool.and_eq_true, beq_iff_eq] at hends hends'
        exact absurd ⟨⟨hends.1.1, by omega⟩, hends.2⟩ hends'
      · exact absurd ⟨⟨e, rest, budget, hphase, hchain, not_not.1 hbudget⟩, hends'⟩ hearly
      · exact readField_owing ..
      · exact readField_owing ..
    · exact readPayload_owing ..
  · rfl
  · rfl

/-! ### Runs -/

/-- However much more is expected after the chunk, a decoder comes by the same places. -/
lemma Visits.owing {q : Nat} (h : d.Visits c d' c') (hq : d.pending ≤ q) :
    (d.owing q).Visits c (d'.owing q) c' ∧ d'.pending ≤ q := by
  induction h with
  | start => exact ⟨.start, hq⟩
  | @step d' c' _ hstop ih =>
      obtain ⟨hv, hq'⟩ := ih
      have hearly : ¬d'.EndsEarly c' := fun h => by cases hstop.symm.trans h.stop?_eq
      have hstep := step_owing hq' hearly
      have hv' := hv.step (by rw [hstep]; exact hstop)
      rw [hstep] at hv'
      exact ⟨hv', Nat.le_trans (Nat.le_of_eq (pending_step d' c')) hq'⟩

lemma Reaches.owing {chunk : Bytes} {q : Nat} (hr : d.Reaches chunk d' c') (hq : d.pending ≤ q) :
    (d.owing q).Reaches chunk (d'.owing (q - chunk.length)) c' ∧
      d'.pending ≤ q - chunk.length := by
  obtain ⟨hv, hq'⟩ := hr.visits.owing (Nat.sub_le_sub_right hq chunk.length)
  have ht := hr.takes
  exact ⟨⟨⟨ht.ne_complete, ht.ne_failed, Nat.le_trans ht.length_le hq⟩, hv⟩, hq'⟩

/-- **A chunk that does not complete a transaction is answered alike**, however much more was
declared. -/
theorem result_update_owing {chunk : Bytes} {q : Nat} (ht : d.Takes chunk) (hq : d.pending ≤ q)
    (h : (d.update chunk).result ≠ .ok .complete) :
    ((d.owing q).update chunk).result = (d.update chunk).result := by
  obtain ⟨d', c', hr, stop, hstop, hres, -⟩ := exists_reaches_update ht
  have hearly : ¬d'.EndsEarly c' := by
    intro hends
    obtain rfl : stop = .finish := Option.some.inj (hstop.symm.trans hends.stop?_eq)
    exact h hres
  obtain ⟨hr', hq'⟩ := hr.owing hq
  have hstop' : ((d'.owing (q - chunk.length)).step c').stop? = some stop := by
    rw [step_owing hq' hearly]
    exact hstop
  rw [hres, (hr'.update_eq hstop').1]

/-- **A chunk that completes a transaction** completes it as well if more was declared, unless the
transaction ends before its chain: then the decoder waits for the chain. -/
theorem update_owing_of_complete {chunk : Bytes} {q : Nat} (hd : d.Sound) (ht : d.Takes chunk)
    (hq : d.pending < q) (h : (d.update chunk).result = .ok .complete) :
    ((d.owing q).update chunk).result = .ok .complete ∧
        ((d.owing q).update chunk).decoder.tx = (d.update chunk).decoder.tx ∨
      ((d.owing q).update chunk).result = .ok .needsMoreInput ∧
        ((d.owing q).update chunk).decoder.field? = some .chainId := by
  obtain ⟨d', c', hr, stop, hstop, hres, hdec⟩ := exists_reaches_update ht
  obtain ⟨hr', hq'⟩ := hr.owing (Nat.le_of_lt hq)
  by_cases hearly : d'.EndsEarly c'
  · right
    have hle := ht.length_le
    obtain ⟨hstop', hfield⟩ := hearly.stop?_owing (hr.moves hd hstop).1
      (show 0 < q - chunk.length by omega)
    obtain ⟨hres', hdec'⟩ := hr'.update_eq hstop'
    refine ⟨hres', ?_⟩
    rw [hdec']
    exact (hr'.moves (hd.owing q) hstop').2.field?_eq.trans hfield
  · left
    have hstep := step_owing hq' hearly
    have hstop' : ((d'.owing (q - chunk.length)).step c').stop? = some stop := by
      rw [hstep]
      exact hstop
    obtain ⟨hres', hdec'⟩ := hr'.update_eq hstop'
    refine ⟨hres'.trans (hres.symm.trans h), ?_⟩
    rw [hdec', hdec, hstep]
    cases stop <;> rfl

end Decoder

end TxStream
