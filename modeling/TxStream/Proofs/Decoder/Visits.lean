import TxStream.Proofs.Decoder.Chunks
import TxStream.Proofs.Decoder.Moves

/-!
The places that a decoder comes by within a chunk, one for each step.

* `Decoder.Visits`: a decoder at a position, on the way from another one;
* `Decoder.Visits.invariant`: what holds at first, and is kept by every step that goes on, holds on
  the whole way;
* `Decoder.exists_visits_run`: a run ends with the step from the last of these places;
* `Decoder.Takes`, `Decoder.Reaches`: the chunks that an update reads, and the places in them.
-/

namespace TxStream

/-- The answer to a chunk, by the reason to stop in it. -/
def Stop.answer : Stop → Except DecodeError Progress
  | .suspend => .ok .needsMoreInput
  | .finish => .ok .complete
  | .fail e => .error e

lemma Stop.eq_suspend_of_answer {stop : Stop} (h : stop.answer = .ok .needsMoreInput) :
    stop = .suspend := by
  cases stop with
  | suspend => rfl
  | finish => cases h
  | fail e => cases h

lemma Stop.eq_finish_of_answer {stop : Stop} (h : stop.answer = .ok .complete) :
    stop = .finish := by
  cases stop with
  | suspend => cases h
  | finish => rfl
  | fail e => cases h

lemma Stop.eq_fail_of_answer {stop : Stop} {e : DecodeError} (h : stop.answer = .error e) :
    stop = .fail e := by
  cases stop with
  | suspend => cases h
  | finish => cases h
  | fail e =>
      cases h
      rfl

namespace Decoder

/-- The steps from `d` at `c` come by `d'` at `c'`. -/
inductive Visits (d : Decoder) (c : Cursor) : Decoder → Cursor → Prop
  | start : Visits d c d c
  | step {d' : Decoder} {c' : Cursor} (h : Visits d c d' c') (hstop : (d'.step c').stop? = none) :
      Visits d c (d'.step c').decoder (d'.step c').cursor

variable {d d' d'' : Decoder} {c c' c'' : Cursor} {chunk : Bytes}

namespace Visits

lemma trans (h : d.Visits c d' c') (h' : d'.Visits c' d'' c'') : d.Visits c d'' c'' := by
  induction h' with
  | start => exact h
  | step _ hstop ih => exact ih.step hstop

/-- The first step is on the way. -/
lemma head (hstop : (d.step c).stop? = none)
    (h : (d.step c).decoder.Visits (d.step c).cursor d' c') : d.Visits c d' c' :=
  (start.step hstop).trans h

end Visits

/-- A decoder that goes on has not ended. -/
lemma Moves.ne_failed (h : d.Moves c d' c' none) : d'.phase ≠ .failed ∧ d'.phase ≠ .complete := by
  cases h with
  | outer => exact ⟨by simp, by simp⟩
  | wraps => exact ⟨by simp, by simp⟩
  | lists => exact ⟨by simp, by simp⟩
  | fills => exact ⟨by simp, by simp⟩
  | enters => exact ⟨by simp [among], by simp [among]⟩
  | pays hphase hp => cases hp <;> exact ⟨by simp [among], by simp [among]⟩
  | opens _ _ _ _ _ hp => cases hp <;> exact ⟨by simp [among], by simp [among]⟩

/-- **What every step keeps holds on the whole way.** -/
theorem Visits.invariant {P : Decoder → Cursor → Prop} (h : d.Visits c d' c') (hd : d.Sound)
    (hf : d.phase ≠ .failed) (hstart : P d c)
    (hmove : ∀ {d₁ c₁ d₂ c₂}, d₁.Sound → P d₁ c₁ → d₁.Moves c₁ d₂ c₂ none → d₂.Sound → P d₂ c₂) :
    d'.Sound ∧ d'.phase ≠ .failed ∧ P d' c' := by
  induction h with
  | start => exact ⟨hd, hf, hstart⟩
  | @step d₁ c₁ _ hstop ih =>
      obtain ⟨hd₁, hf₁, hp₁⟩ := ih
      have hmoves := moves_step hd₁ hf₁ c₁
      rw [hstop] at hmoves
      have hd₂ := sound_step hd₁ (.inl hstop)
      exact ⟨hd₂, hmoves.ne_failed.1, hmove hd₁ hp₁ hmoves hd₂⟩

lemma Visits.run_eq (h : d.Visits c d' c') :
    (d.run c).stop = (d'.run c').stop ∧ (d.run c).decoder = (d'.run c').decoder ∧
      (d.run c).cursor = (d'.run c').cursor := by
  induction h with
  | start => exact ⟨rfl, rfl, rfl⟩
  | @step d₁ c₁ _ hstop ih => rwa [run_of_goesOn hstop] at ih

/-- **A run ends with the step from the last place** on its way. -/
theorem exists_visits_run (d : Decoder) (c : Cursor) :
    ∃ d' c', d.Visits c d' c' ∧ (d'.step c').stop? = some (d.run c).stop := by
  induction d, c using run_induction with
  | stop d c stop hstop => exact ⟨d, c, .start, by rw [run_of_stop hstop, hstop]⟩
  | goesOn d c hstop ih =>
      obtain ⟨d', c', hv, hlast⟩ := ih
      have hv' := hv.head hstop
      rw [hv.run_eq.1, ← hv'.run_eq.1] at hlast
      exact ⟨d', c', hv', hlast⟩

/-! ### Cursors and what is still expected -/

lemma Pays.chunk_eq {e : Entry} {rest : List Entry} {f : OpenField} {budget : Option Nat}
    {stop? : Option Stop} (h : d.Pays c e rest f budget d' c' stop?) : c'.chunk = c.chunk := by
  cases h with
  | list => rfl
  | closes => exact Cursor.chunk_take ..
  | waits => exact Cursor.chunk_take ..

lemma Moves.chunk_eq {stop? : Option Stop} (h : d.Moves c d' c' stop?)
    (hstop : ∀ e, stop? ≠ some (.fail e)) : c'.chunk = c.chunk := by
  cases h with
  | holds => exact Cursor.chunk_take ..
  | peeks => rfl
  | outer => exact Cursor.chunk_take ..
  | wraps => exact Cursor.chunk_take ..
  | lists => rfl
  | fills => exact Cursor.chunk_take ..
  | enters he =>
      cases he with
      | short => exact Cursor.chunk_take ..
      | plain => rfl
      | typed => rfl
  | pays _ hp => exact hp.chunk_eq
  | opens _ _ _ _ _ hp => exact hp.chunk_eq.trans (Cursor.chunk_take ..)
  | ends => rfl
  | early => rfl
  | complete => rfl
  | fails => exact absurd rfl (hstop _)

lemma Pays.ahead_eq_nil {e : Entry} {rest : List Entry} {f : OpenField} {budget : Option Nat}
    (h : d.Pays c e rest f budget d' c' (some .suspend)) : c'.ahead = [] := by
  cases h with
  | waits _ hlt => exact List.drop_eq_nil_of_le (Nat.le_of_lt hlt)

lemma Moves.field?_eq (h : d.Moves c d' c' (some .suspend)) : d'.field? = d.field? := by
  cases h with
  | holds hphase =>
      rw [field?, field?]
      generalize d.phase = phase at hphase
      cases hphase <;> rfl
  | peeks => rfl
  | pays hphase hp =>
      cases hp
      rw [field?, field?, hphase]
      rfl
  | opens hphase _ _ _ _ hp =>
      cases hp
      rw [field?, field?, hphase]
      rfl

/-- A decoder waits only at the end of a chunk. -/
lemma Moves.ahead_eq_nil (h : d.Moves c d' c' (some .suspend)) : c'.ahead = [] := by
  cases h with
  | holds => exact List.drop_length
  | peeks _ hend => exact hend
  | pays _ hp => exact hp.ahead_eq_nil
  | opens _ _ _ _ _ hp => exact hp.ahead_eq_nil

/-- What is visited within a chunk stays within it, and only a new chunk changes what is still
expected. -/
lemma Visits.chunk_eq (h : d.Visits c d' c') (hd : d.Sound) (hf : d.phase ≠ .failed) :
    c'.chunk = c.chunk ∧ d'.pending = d.pending := by
  have hchunk := h.invariant (P := fun _ c₁ => c₁.chunk = c.chunk) hd hf rfl
    fun _ h₁ hm _ => (hm.chunk_eq (by simp)).trans h₁
  refine ⟨hchunk.2.2, ?_⟩
  clear hchunk
  induction h with
  | start => rfl
  | step _ _ ih => exact (pending_step ..).trans ih

/-- What is visited within the first piece of a chunk is visited within the chunk. -/
lemma Visits.append {c₁ : Cursor} {b : Bytes} {p : Nat} (h : d.Visits c d' c') (hd : d.Sound)
    (hc : c₁.ahead = c.ahead ++ b) (hp : d.pending = p + b.length) :
    ∃ c₁', (d.owing p).Visits c₁ (d'.owing p) c₁' ∧ c₁'.ahead = c'.ahead ++ b ∧ d'.Sound ∧
      d'.pending = p + b.length := by
  induction h with
  | start => exact ⟨c₁, .start, hc, hd, hp⟩
  | @step d' c' _ hstop ih =>
      obtain ⟨c₂, hv, hahead, hd', hp'⟩ := ih
      have hseen := seen_step_append hd' rfl hahead hp'
      rw [Step.seen_of_stop?_eq_none hstop] at hseen
      obtain ⟨hstop', -, hdec, hahead'⟩ := Step.stop?_eq_none_of_seen hseen
      exact ⟨_, hdec ▸ hv.step hstop', hahead', sound_step hd' (.inl hstop),
        (pending_step d' c').trans hp'⟩

/-! ### Updates -/

/-- A chunk is read: the decoder has not ended, and there is room for the chunk. -/
structure Takes (d : Decoder) (chunk : Bytes) : Prop where
  ne_complete : d.phase ≠ .complete
  ne_failed : d.phase ≠ .failed
  length_le : chunk.length ≤ d.pending

/-- The update with a chunk comes by `d'` at `c'`. -/
structure Reaches (d : Decoder) (chunk : Bytes) (d' : Decoder) (c' : Cursor) : Prop where
  takes : d.Takes chunk
  visits : (d.owing (d.pending - chunk.length)).Visits (.start chunk) d' c'

/-- An update that reads its chunk reaches the place at which it begins. -/
lemma Takes.reaches (ht : d.Takes chunk) :
    d.Reaches chunk (d.owing (d.pending - chunk.length)) (.start chunk) :=
  ⟨ht, .start⟩

lemma Waiting.takes (hw : d.Waiting) (hle : chunk.length ≤ d.pending) : d.Takes chunk :=
  ⟨hw.ne_complete, hw.ne_failed, hle⟩

lemma result_conclude (r : Run) : (conclude r).result = r.stop.answer := by
  rcases r with ⟨d, c, _ | _ | e, log⟩ <;> rfl

/-- The step that stops at a place that an update reaches decides on the answer. -/
lemma Reaches.update_eq (hr : d.Reaches chunk d' c') {stop : Stop}
    (hstop : (d'.step c').stop? = some stop) :
    (d.update chunk).result = stop.answer ∧
      (d.update chunk).decoder =
        (conclude ⟨(d'.step c').decoder, (d'.step c').cursor, stop, []⟩).decoder := by
  obtain ⟨hs, hdec, hcur⟩ := hr.visits.run_eq
  rw [run_of_stop hstop] at hs hdec hcur
  rw [update_eq_readChunk hr.takes.ne_complete hr.takes.ne_failed hr.takes.length_le]
  change (conclude ((d.owing (d.pending - chunk.length)).run (.start chunk))).result = _ ∧
    (conclude ((d.owing (d.pending - chunk.length)).run (.start chunk))).decoder = _
  generalize (d.owing (d.pending - chunk.length)).run (.start chunk) = r at hs hdec hcur ⊢
  refine ⟨(result_conclude r).trans (congrArg Stop.answer hs), ?_⟩
  obtain ⟨d₁, c₁, stop₁, log⟩ := r
  dsimp only at hs hdec hcur
  subst hs hdec hcur
  cases stop₁ <;> rfl

/-- **An update that reads its chunk ends with the step from the last place** that it reaches. -/
theorem exists_reaches_update (ht : d.Takes chunk) :
    ∃ d' c', d.Reaches chunk d' c' ∧ ∃ stop, (d'.step c').stop? = some stop ∧
      (d.update chunk).result = stop.answer ∧
      (d.update chunk).decoder =
        (conclude ⟨(d'.step c').decoder, (d'.step c').cursor, stop, []⟩).decoder := by
  obtain ⟨d', c', hv, hstop⟩ :=
    exists_visits_run (d.owing (d.pending - chunk.length)) (.start chunk)
  exact ⟨d', c', ⟨ht, hv⟩, _, hstop, Reaches.update_eq ⟨ht, hv⟩ hstop⟩

lemma Reaches.sound (hr : d.Reaches chunk d' c') (hd : d.Sound) :
    d'.Sound ∧ d'.phase ≠ .failed := by
  obtain ⟨hd', hf', -⟩ := hr.visits.invariant (P := fun _ _ => True) (hd.owing _)
    hr.takes.ne_failed trivial fun _ _ _ _ => trivial
  exact ⟨hd', hf'⟩

lemma Reaches.moves {stop? : Option Stop} (hr : d.Reaches chunk d' c') (hd : d.Sound)
    (hstop : (d'.step c').stop? = stop?) :
    d'.Sound ∧ d'.Moves c' (d'.step c').decoder (d'.step c').cursor stop? := by
  obtain ⟨hd', hf'⟩ := hr.sound hd
  exact ⟨hd', hstop ▸ moves_step hd' hf' c'⟩

/-- An update that asks for more input reaches a place that waits. -/
lemma exists_reaches_of_needsMoreInput (ht : d.Takes chunk)
    (h : (d.update chunk).result = .ok .needsMoreInput) :
    ∃ d' c', d.Reaches chunk d' c' ∧ (d'.step c').stop? = some .suspend ∧
      (d.update chunk).decoder = (d'.step c').decoder := by
  obtain ⟨d', c', hr, stop, hstop, hres, hdec⟩ := exists_reaches_update ht
  obtain rfl := Stop.eq_suspend_of_answer (hres.symm.trans h)
  exact ⟨d', c', hr, hstop, hdec⟩

end Decoder

end TxStream
