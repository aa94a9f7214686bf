import TxStream.Proofs.Decoder.Protocol

/-!
Chunks in a row, gathered into one. What a decoder shows after the chunks is what it shows after all
of their bytes at once, failures included, and the last chunk is answered as all of the bytes are.

* `feed_eq_after`: a row of chunks that does not fail leads to the decoder after it;
* `after_gather`: what is shown after the chunks, and `update_gather`, with the last answer.
-/

namespace TxStream

namespace Decoder

variable {d : Decoder} {chunk : Bytes} {cs : List Bytes}

/-! ### What a decoder shows -/

lemma shown_of_failed (h : d.phase = .failed) :
    d.state = .error ∧ d.field? = none ∧ d.transaction? = none := by
  rw [state, field?, transaction?, h]
  exact ⟨rfl, rfl, rfl⟩

lemma transaction?_eq_some_iff {tx : Transaction} :
    d.transaction? = some tx ↔ d.state = .complete ∧ d.tx = tx := by
  rcases d with ⟨phase, held, pending, tx'⟩
  cases phase <;> simp [transaction?, state, Phase.state]

lemma state_of_field? {f : Field} (h : d.field? = some f) : d.state = .fields := by
  rcases d with ⟨phase, held, pending, tx⟩
  cases phase <;> first | rfl | cases h

/-- The state tells the answer, unless it is a failure. -/
lemma result_eq_ok_iff (hd : d.Resting) (chunk : Bytes) :
    ((d.update chunk).result = .ok .complete ↔ (d.update chunk).decoder.state = .complete) ∧
      ((d.update chunk).result = .ok .needsMoreInput ↔
        (d.update chunk).decoder.state ≠ .complete ∧ (d.update chunk).decoder.state ≠ .error) := by
  have hu := faithful_update hd chunk
  refine ⟨hu.complete_iff, fun h => ⟨fun hc => ?_, fun hf => ?_⟩, fun h => (hu.otherwise h.1 h.2).1⟩
  · cases h.symm.trans (hu.complete_iff.2 hc)
  · obtain ⟨e, he⟩ := hu.failed_iff.2 hf
    cases h.symm.trans he

/-! ### Rows of chunks -/

lemma after_of_failed (h : d.phase = .failed) (cs : List Bytes) : d.after cs = d :=
  after_of_update (fun chunk => by rw [update_of_failed h]) cs

/-- **A row of chunks that does not fail** leads to the decoder after it, and one that fails to a
decoder that has failed. -/
lemma feed_eq_after (d : Decoder) (cs : List Bytes) :
    d.feed cs = .ok (d.after cs) ∨ ∃ e, d.feed cs = .error e ∧ (d.after cs).phase = .failed := by
  induction cs generalizing d with
  | nil => exact .inl rfl
  | cons chunk cs ih =>
      rw [feed]
      rcases hr : (d.update chunk).result with e | p
      · have hf := (phase_update d chunk).2 e hr
        have hafter : d.after (chunk :: cs) = (d.update chunk).decoder := after_of_failed hf cs
        exact .inr ⟨e, rfl, hafter ▸ hf⟩
      · exact ih (d.update chunk).decoder

/-- **What is shown after chunks in a row** is shown after all of their bytes in one chunk. -/
theorem after_gather (hw : d.Waiting) (hle : cs.flatten.length ≤ d.pending) :
    (d.after cs).state = (d.update cs.flatten).decoder.state ∧
      (d.after cs).field? = (d.update cs.flatten).decoder.field? ∧
      (d.after cs).transaction? = (d.update cs.flatten).decoder.transaction? ∧
      ((d.after cs).state ≠ .complete → (d.after cs).state ≠ .error →
        (d.after cs).pending = (d.update cs.flatten).decoder.pending) := by
  have hfed := congrArg Prod.snd (fed_flatten hw hle)
  rw [fed_singleton, fed] at hfed
  rcases feed_eq_after d cs with hok | ⟨e, herror, hf⟩
  · rcases hr : (d.update cs.flatten).result with e | p
    · rw [hok, Update.seen, hr] at hfed
      cases hfed
    · rw [hok, Update.seen, hr] at hfed
      obtain ⟨hs, hfield, htx, -, hpending⟩ := seen_of_settled_eq (Except.ok.inj hfed)
      exact ⟨hs, hfield, htx, fun hc _ => hpending hc⟩
  · rcases hr : (d.update cs.flatten).result with e' | p
    · obtain ⟨hs, hfield, htx⟩ := shown_of_failed hf
      obtain ⟨hs', hfield', htx'⟩ := shown_of_failed ((phase_update d cs.flatten).2 e' hr)
      rw [hs, hfield, htx, hs', hfield', htx']
      exact ⟨rfl, rfl, rfl, fun _ h => absurd rfl h⟩
    · rw [herror, Update.seen, hr] at hfed
      cases hfed

/-- **The last of several chunks** is answered as all of their bytes in one chunk are, unless the
decoder fails, and the decoder shows the same after it. -/
theorem update_gather {u : Update} (hw : d.Waiting)
    (hle : (cs ++ [chunk]).flatten.length ≤ d.pending) (hu : (d.after cs).update chunk = u) :
    (∀ p, u.result = .ok p ↔ (d.update (cs ++ [chunk]).flatten).result = .ok p) ∧
      u.decoder.state = (d.update (cs ++ [chunk]).flatten).decoder.state ∧
      u.decoder.field? = (d.update (cs ++ [chunk]).flatten).decoder.field? ∧
      u.decoder.transaction? = (d.update (cs ++ [chunk]).flatten).decoder.transaction? ∧
      (u.result = .ok .needsMoreInput →
        u.decoder.pending = (d.update (cs ++ [chunk]).flatten).decoder.pending) := by
  obtain ⟨hstate, hfield, htx, hpending⟩ := after_gather hw hle
  have hrow := result_eq_ok_iff (Resting.after (.inl hw) cs) chunk
  have hone := result_eq_ok_iff (.inl hw) (cs ++ [chunk]).flatten
  rw [after_concat, hu] at hstate hfield htx hpending
  rw [hu] at hrow
  refine ⟨fun p => ?_, hstate, hfield, htx, fun hr => ?_⟩
  · cases p with
    | needsMoreInput => rw [hrow.2, hone.2, hstate]
    | complete => rw [hrow.1, hone.1, hstate]
  · obtain ⟨hc, hf⟩ := hrow.2.1 hr
    exact hpending hc hf

end Decoder

end TxStream
