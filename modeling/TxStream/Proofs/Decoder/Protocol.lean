import Mathlib.Data.List.Induction
import TxStream.Proofs.Decoder.Visits

/-!
What a caller can rely on, whatever chunks a decoder is given.

* `Waiting.after_induction`: what a new decoder has, and a chunk that asks for more input keeps,
  every decoder has until it ends;
* `Update.Faithful`: what a decoder shows agrees with the answer that it gave, so that a transaction
  is shown only after it was announced;
* `update_answer`: only a chunk that is too long is refused for its length, and the other failures
  of a decoder that waits lie in the bytes;
* `run_protocol`: every answer is faithful, an ended decoder stays as it is, and what is still
  expected is the declared length without the chunks so far.
-/

namespace TxStream

/-- A decoder shows what its last answer says. -/
structure Update.Faithful (u : Update) : Prop where
  /-- The answer announces a transaction exactly if the decoder is complete. -/
  complete_iff : u.result = .ok .complete ↔ u.decoder.state = .complete
  /-- A transaction is shown only if it was announced. -/
  shown_iff : u.result = .ok .complete ↔ ∃ tx, u.decoder.transaction? = some tx
  /-- The decoder ends with the transaction that it shows. -/
  finish_iff : ∀ tx, u.decoder.transaction? = some tx ↔ u.decoder.finish = .ok tx
  /-- The answer is a failure exactly if the decoder has failed. -/
  failed_iff : (∃ e, u.result = .error e) ↔ u.decoder.state = .error
  /-- A decoder that has failed shows no transaction. -/
  of_failed : u.decoder.state = .error →
    u.decoder.transaction? = none ∧ u.decoder.finish = .error .invalidState
  /-- A decoder that has not ended asks for more input. -/
  otherwise : u.decoder.state ≠ .complete → u.decoder.state ≠ .error →
    u.result = .ok .needsMoreInput ∧ u.decoder.transaction? = none ∧
      u.decoder.finish = .error .incomplete
  /-- The class of the answer is good exactly if a transaction is shown. -/
  status_ok_iff : Status.ofAnswer u.result = .ok ↔ ∃ tx, u.decoder.transaction? = some tx
  /-- The class of the answer asks for more input exactly if the transaction is incomplete. -/
  status_more_iff :
    Status.ofAnswer u.result = .needsMoreInput ↔ u.decoder.finish = .error .incomplete

/-- Failures are of no good class, and those of the bytes are structural. -/
lemma DecodeError.status_of_ofBytes {e : DecodeError} (h : e.OfBytes) :
    e.status = .structuralError := by
  cases e with
  | invalidLength => exact h.elim
  | incomplete => exact h.elim
  | _ => rfl

namespace Decoder

variable {d d' : Decoder} {c c' : Cursor} {chunk : Bytes}

/-! ### Chunks in a row -/

lemma after_append (d : Decoder) (as bs : List Bytes) :
    d.after (as ++ bs) = (d.after as).after bs := List.foldl_append ..

lemma after_concat (d : Decoder) (chunks : List Bytes) (chunk : Bytes) :
    d.after (chunks ++ [chunk]) = ((d.after chunks).update chunk).decoder := after_append ..

lemma after_of_update (h : ∀ chunk, (d.update chunk).decoder = d) (chunks : List Bytes) :
    d.after chunks = d := by
  induction chunks with
  | nil => rfl
  | cons chunk chunks ih => exact (congrArg (after · chunks) (h chunk)).trans ih

lemma after_of_feed {cs : List Bytes} (h : d.feed cs = .ok d') : d.after cs = d' := by
  induction cs generalizing d with
  | nil => exact Except.ok.inj h
  | cons chunk cs ih =>
      rw [feed] at h
      rcases hr : (d.update chunk).result with e | p
      · simp only [hr] at h
        cases h
      · simp only [hr] at h
        exact ih h

/-- **What a chunk that asks for more input keeps holds until the decoder ends.** -/
theorem Waiting.after_induction {P : Decoder → List Bytes → Prop} (hw : d.Waiting) (hstart : P d [])
    (hnext : ∀ {d' chunks chunk}, d'.Waiting → P d' chunks → chunk.length ≤ d'.pending →
      (d'.update chunk).result = .ok .needsMoreInput →
      P (d'.update chunk).decoder (chunks ++ [chunk]))
    (chunks : List Bytes) (hc : (d.after chunks).phase ≠ .complete)
    (hf : (d.after chunks).phase ≠ .failed) :
    (d.after chunks).Waiting ∧ P (d.after chunks) chunks := by
  induction chunks using List.reverseRecOn with
  | nil => exact ⟨hw, hstart⟩
  | append_singleton chunks chunk ih =>
      rw [after_concat] at hc hf ⊢
      have hc' : (d.after chunks).phase ≠ .complete := by
        intro h
        rw [update_of_complete h] at hc
        exact hc h
      have hf' : (d.after chunks).phase ≠ .failed := by
        intro h
        rw [update_of_failed h] at hf
        exact hf h
      obtain ⟨hw', hp⟩ := ih hc' hf'
      rcases hr : ((d.after chunks).update chunk).result with e | _ | _
      · exact absurd ((phase_update _ _).2 e hr) hf
      · have hle := hw'.length_le hr
        exact ⟨(waiting_of_needsMoreInput hw' hle hr).1, hnext hw' hp hle hr⟩
      · exact absurd ((phase_update _ _).1 hr) hc

/-- What a decoder still expects is the declared length without the chunks so far. -/
lemma pending_after {len : Nat} (h : create len = .ok d) {chunks : List Bytes}
    (hc : (d.after chunks).phase ≠ .complete) (hf : (d.after chunks).phase ≠ .failed) :
    (d.after chunks).Waiting ∧ (d.after chunks).pending + chunks.flatten.length = len := by
  refine Waiting.after_induction (P := fun d' cs => d'.pending + cs.flatten.length = len)
    (waiting_create h) ?_ ?_ chunks hc hf
  · obtain ⟨-, rfl⟩ := create_eq_ok_iff.1 h
    rfl
  · intro d' cs chunk hw hp hle hr
    rw [(waiting_of_needsMoreInput hw hle hr).2, List.flatten_append, List.length_append,
      List.flatten_singleton]
    omega

/-! ### Answers -/

lemma Moves.ofBytes {e : DecodeError} (h : d.Moves c d' c' (some (.fail e))) : e.OfBytes := by
  cases h with
  | pays _ hp => cases hp
  | opens _ _ _ _ _ hp => cases hp
  | fails hbytes => exact hbytes

lemma Takes.ofBytes {e : DecodeError} (ht : d.Takes chunk) (hd : d.Sound)
    (h : (d.update chunk).result = .error e) : e.OfBytes := by
  obtain ⟨d', c', hr, stop, hstop, hres, -⟩ := exists_reaches_update ht
  obtain rfl := Stop.eq_fail_of_answer (hres.symm.trans h)
  exact (hr.moves hd hstop).2.ofBytes

/-- A chunk that is too long fails before any byte of it is read. -/
lemma update_of_lt (hc : d.phase ≠ .complete) (hf : d.phase ≠ .failed)
    (hlt : d.pending < chunk.length) :
    d.update chunk = ⟨{ d with phase := .failed }, .error .invalidLength,
      [.overrun chunk.length d.pending, .failed d.state d.field? .invalidLength]⟩ := by
  rw [update]
  split
  · next h => exact absurd h hc
  · next h => exact absurd h hf
  · rw [if_pos hlt]
    rfl

/-- **Only a chunk that is too long is refused for its length**, and the other failures of a decoder
that waits lie in the bytes. -/
theorem update_answer (hw : d.Waiting) {e : DecodeError} (h : (d.update chunk).result = .error e) :
    d.pending < chunk.length ∧ e = .invalidLength ∨ chunk.length ≤ d.pending ∧ e.OfBytes := by
  rcases Nat.lt_or_ge d.pending chunk.length with hlt | hle
  · rw [update_of_lt hw.ne_complete hw.ne_failed hlt] at h
    cases h
    exact .inl ⟨hlt, rfl⟩
  · exact .inr ⟨hle, (hw.takes hle).ofBytes hw.sound h⟩

/-- No answer tells a caller to wait by way of a failure. -/
lemma status_of_error (hd : d.Resting) {e : DecodeError} (h : (d.update chunk).result = .error e) :
    e.status = .structuralError ∨ e.status = .lengthError := by
  rcases hd with hw | hc | hf
  · rcases update_answer hw h with ⟨-, rfl⟩ | ⟨-, he⟩
    · exact .inr rfl
    · exact .inl (DecodeError.status_of_ofBytes he)
  · rw [update_of_complete hc] at h
    cases h
  · rw [update_of_failed hf] at h
    cases h
    exact .inl rfl

/-- **Every answer is faithful.** -/
theorem faithful_update (hd : d.Resting) (chunk : Bytes) : (d.update chunk).Faithful := by
  have hphase := phase_update d chunk
  have hstatus : ∀ e, (d.update chunk).result = .error e →
      e.status = .structuralError ∨ e.status = .lengthError := fun _ => status_of_error hd
  have hwait : (d.update chunk).result = .ok .needsMoreInput →
      (d.update chunk).decoder.Waiting := by
    intro h
    rcases hd with hw | hc | hf
    · exact (waiting_of_needsMoreInput hw (hw.length_le h) h).1
    · rw [update_of_complete hc] at h
      cases h
    · rw [update_of_failed hf] at h
      cases h
  generalize d.update chunk = u at hphase hstatus hwait ⊢
  rcases u with ⟨⟨phase, held, pending, tx⟩, e | _ | _, log⟩
  · -- a failure
    obtain rfl : phase = .failed := hphase.2 e rfl
    have hne : Status.ofAnswer (.error e) ≠ .ok ∧ Status.ofAnswer (.error e) ≠ .needsMoreInput := by
      rcases hstatus e rfl with h | h <;> simp [Status.ofAnswer, h]
    constructor <;> simp [state, Phase.state, transaction?, finish, hne]
  · -- more input is wanted
    have hc : phase ≠ .complete := (hwait rfl).ne_complete
    have hf : phase ≠ .failed := (hwait rfl).ne_failed
    cases phase with
    | complete => exact absurd rfl hc
    | failed => exact absurd rfl hf
    | _ => constructor <;> simp [state, Phase.state, transaction?, finish, Status.ofAnswer]
  · -- the transaction is decoded
    obtain rfl : phase = .complete := hphase.1 rfl
    constructor <;> simp [state, Phase.state, transaction?, finish, Status.ofAnswer]

/-! ### The protocol -/

lemma phase_of_state_complete (h : d.state = .complete) : d.phase = .complete := by
  rcases d with ⟨phase, held, pending, tx⟩
  cases phase <;> first | rfl | cases h

lemma phase_of_state_error (h : d.state = .error) : d.phase = .failed := by
  rcases d with ⟨phase, held, pending, tx⟩
  cases phase <;> first | rfl | cases h

/-- **What callers can rely on.** A decoder is created for any length up to the maximum. Whatever
chunks it was given, what it shows after the next one agrees with the answer. Once it is complete or
has failed, it stays as it is. Until then, what it expects is the declared length without the chunks
so far, and a chunk is refused for its length exactly if it is longer than that; then nothing of the
decoder changes but that it has failed, and nothing of the chunk matters but its length. -/
theorem run_protocol {len : Nat} (hlen : len ≤ maxLength) :
    ∃ d, create len = .ok d ∧ ∀ chunks : List Bytes,
      (∀ chunk, ((d.after chunks).update chunk).Faithful) ∧
      ((d.after chunks).state = .complete →
        (∀ chunk, (d.after chunks).update chunk = ⟨d.after chunks, .ok .complete, []⟩) ∧
          ∀ later, d.after (chunks ++ later) = d.after chunks) ∧
      ((d.after chunks).state = .error →
        (∀ chunk, (d.after chunks).update chunk = ⟨d.after chunks, .error .invalidState, []⟩) ∧
          ∀ later, d.after (chunks ++ later) = d.after chunks) ∧
      ((d.after chunks).state ≠ .complete → (d.after chunks).state ≠ .error →
        (d.after chunks).pending + chunks.flatten.length = len ∧
          ∀ chunk : Bytes,
            (((d.after chunks).update chunk).result = .error .invalidLength ↔
              (d.after chunks).pending < chunk.length) ∧
            ((d.after chunks).pending < chunk.length → (d.after chunks).update chunk =
              ⟨{ d.after chunks with phase := .failed }, .error .invalidLength,
                [.overrun chunk.length (d.after chunks).pending,
                  .failed (d.after chunks).state (d.after chunks).field? .invalidLength]⟩)) := by
  have hcreate : create len = .ok ⟨.init, {}, len, {}⟩ := if_neg (Nat.not_lt.2 hlen)
  refine ⟨_, hcreate, fun chunks => ?_⟩
  have hrest := Resting.after (.inl (waiting_create hcreate)) chunks
  have hpending := @pending_after _ _ hcreate chunks
  simp only [after_append]
  generalize Decoder.after ⟨.init, {}, len, {}⟩ chunks = d at hrest hpending ⊢
  refine ⟨faithful_update hrest, fun hs => ?_, fun hs => ?_, fun hc hf => ?_⟩
  · have hu := update_of_complete (phase_of_state_complete hs)
    exact ⟨hu, after_of_update fun chunk => by rw [hu]⟩
  · have hu := update_of_failed (phase_of_state_error hs)
    exact ⟨hu, after_of_update fun chunk => by rw [hu]⟩
  · obtain ⟨hw, hp⟩ := hpending (fun h => hc (congrArg Phase.state h))
      fun h => hf (congrArg Phase.state h)
    refine ⟨hp, fun chunk =>
      ⟨⟨fun hr => ?_, fun hlt => ?_⟩, update_of_lt hw.ne_complete hw.ne_failed⟩⟩
    · rcases update_answer hw hr with ⟨hlt, -⟩ | ⟨-, he⟩
      · exact hlt
      · exact he.elim
    · rw [update_of_lt hw.ne_complete hw.ne_failed hlt]

/-- Two bytes where one is expected: the decoder fails, and shows no transaction. -/
theorem run_protocol_two :
    2 ≤ maxLength ∧ ∃ d, create 2 = .ok d ∧
      ((d.after [[0xc2]]).update [0x80, 0x80]).result = .error .invalidLength ∧
      ((d.after [[0xc2]]).update [0x80, 0x80]).decoder.transaction? = none := by
  have hle : 2 ≤ maxLength := by decide
  obtain ⟨d, hd, hall⟩ := run_protocol hle
  obtain rfl : (⟨.init, {}, 2, {}⟩ : Decoder) = d := Except.ok.inj hd
  have hafter : after ⟨.init, {}, 2, {}⟩ [[0xc2]] = ⟨.envelope, {}, 1, {}⟩ := by cbv
  obtain ⟨hfaithful, -, -, hwaits⟩ := hall [[0xc2]]
  have hf := hfaithful [0x80, 0x80]
  rw [hafter] at hwaits
  have hr := ((hwaits (by decide) (by decide)).2 [0x80, 0x80]).1.2 (by decide)
  rw [← hafter] at hr
  exact ⟨hle, _, hd, hr, (hf.of_failed (hf.failed_iff.1 ⟨_, hr⟩)).1⟩

end Decoder

end TxStream
