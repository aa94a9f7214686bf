import TxStream.Proofs.Decoder.Resumption

/-!
A transaction in chunks. What a decoder comes to depends on the bytes that it is given, and not on
where they are cut: `feed` reports, answers and ends as it does for all the chunks in one.

* `Update.seen`: what a chunk comes to, and `seen_readChunk_append`, a chunk in two pieces;
* `Decoder.Waiting`: a sound decoder that an empty chunk leaves as it is. Decoders are created
  waiting, and wait whenever they ask for more input (`waiting_of_needsMoreInput`);
* `Decoder.after`: the decoder after chunks in a row, failures included;
* `Decoder.fed`: what chunks in a row come to, and `fed_flatten`, which puts them together.
-/

namespace TxStream

/-! ### One chunk -/

/-- What a chunk comes to: what is reported, and the answer with the decoder that gives it. -/
def Update.seen (u : Update) : List Event × Except DecodeError (Progress × Decoder) :=
  (u.log, u.result.map fun p => (p, u.decoder))

/-- A good answer is seen with the decoder that gives it. -/
lemma Update.seen_eq_ok_iff {u : Update} {p : Progress} {d : Decoder} :
    u.seen.2 = .ok (p, d) ↔ u.result = .ok p ∧ u.decoder = d := by
  rcases u with ⟨d', e | p', log⟩ <;> simp [seen, Except.map]

lemma Update.seen_eq_error_iff {u : Update} {e : DecodeError} :
    u.seen.2 = .error e ↔ u.result = .error e := by
  rcases u with ⟨d', e' | p, log⟩ <;> simp [seen, Except.map]

/-- What the steps within a chunk come to, as the caller sees it. -/
def closing : List Event × Outcome → List Event × Except DecodeError (Progress × Decoder)
  | (log, .goesOn d _) => (log, .ok (.needsMoreInput, d))
  | (log, .waits d) => (log, .ok (.needsMoreInput, d))
  | (log, .ends d ahead) =>
    (log ++ [.decoded d.tx.type (ahead.length + d.pending)],
      .ok (.complete, { d with phase := .complete }))
  | (log, .fails state field e) => (log ++ [.failed state field e], .error e)

/-- What is reported before does not depend on what comes after. -/
lemma closing_log (log : List Event) (r : List Event × Outcome) :
    closing (log ++ r.1, r.2) = (log ++ (closing r).1, (closing r).2) := by
  rcases r with ⟨log', _ | _ | _ | _⟩
  · rfl
  · rfl
  · simp only [closing, List.append_assoc]
  · simp only [closing, List.append_assoc]

namespace Decoder

variable {d : Decoder} {a b chunk : Bytes}

lemma seen_conclude (r : Run) : (conclude r).seen = closing r.seen := by
  rcases r with ⟨d, c, _ | _ | e, log⟩ <;> rfl

lemma seen_readChunk (d : Decoder) (chunk : Bytes) :
    (d.readChunk chunk).seen =
      closing ((d.owing (d.pending - chunk.length)).run (.start chunk)).seen :=
  seen_conclude _

/-- A chunk that there is room for is read, unless the decoder has ended. -/
lemma update_eq_readChunk (hc : d.phase ≠ .complete) (hf : d.phase ≠ .failed)
    (hle : chunk.length ≤ d.pending) : d.update chunk = d.readChunk chunk := by
  rw [update]
  split
  · next h => exact absurd h hc
  · next h => exact absurd h hf
  · rw [if_neg (Nat.not_lt.2 hle)]

lemma seen_readChunk_append (hd : d.Sound) (hle : (a ++ b).length ≤ d.pending) :
    (d.readChunk (a ++ b)).seen =
      closing (resume (d.pending - (a ++ b).length) b (fun d' => (d'.run (.start b)).seen)
        ((d.owing (d.pending - a.length)).run (.start a)).seen) := by
  have hp : (d.owing (d.pending - a.length)).pending
      = d.pending - (a ++ b).length + b.length := by
    rw [List.length_append] at hle ⊢
    simp only [owing]
    omega
  have happ := seen_run_append (hd.owing (d.pending - a.length)) (Cursor.ahead_start a)
    (Cursor.ahead_start (a ++ b)) hp
  rw [seen_readChunk, ← happ]
  rfl

/-! ### Decoders that wait -/

/-- Only a new chunk changes what is still expected. -/
lemma pending_run (d : Decoder) (c : Cursor) : (d.run c).decoder.pending = d.pending := by
  induction d, c using run_induction with
  | stop d c stop hstop =>
      rw [run_of_stop hstop]
      exact pending_step d c
  | goesOn d c hstop ih =>
      rw [run_of_goesOn hstop]
      exact ih.trans (pending_step d c)

/-- A run that waits leaves the decoder sound. -/
lemma sound_of_waits {c : Cursor} {log : List Event} {d' : Decoder} (hd : d.Sound)
    (h : (d.run c).seen = (log, .waits d')) : d'.Sound := by
  induction d, c using run_induction generalizing log with
  | stop d c stop hstop =>
      rw [seen_run_of_stop hstop, Step.seen_of_stop hstop] at h
      rcases stop with _ | _ | e
      · obtain ⟨-, rfl⟩ : _ ∧ (d.step c).decoder = d' := by simpa [Outcome.ofStop] using h
        exact sound_step hd (.inr hstop)
      · simp [Outcome.ofStop] at h
      · simp [Outcome.ofStop] at h
  | goesOn d c hstop ih =>
      rw [seen_run_of_goesOn hstop, Prod.mk.injEq] at h
      exact ih (sound_step hd (.inl hstop)) (Prod.ext rfl h.2)

/-- A decoder that waits makes nothing of an empty chunk. -/
lemma seen_run_nil {c : Cursor} {log : List Event} {d' : Decoder} (hd : d.Sound)
    (h : (d.run c).seen = (log, .waits d')) (hp : d'.pending = d.pending) :
    (d'.run (.start [])).seen = ([], .waits d') := by
  have happ := seen_run_append (b := []) (p := d.pending) hd rfl (List.append_nil c.ahead).symm rfl
  have hd' : d'.owing d.pending = d' := by rw [← hp, owing]
  change (d.run c).seen = _ at happ
  rw [h, resume, hd', Prod.mk.injEq] at happ
  exact Prod.ext (List.self_eq_append_right.1 happ.1) happ.2.symm

/-- The decoder is sound and asks for more input than none. -/
structure Waiting (d : Decoder) : Prop where
  sound : d.Sound
  rests : (d.run (.start [])).seen = ([], .waits d)

namespace Waiting

lemma ne_complete (hw : d.Waiting) : d.phase ≠ .complete := by
  intro h
  have hs : (d.step (.start [])).stop? = some .finish := by rw [step, h]
  have hr := hw.rests
  rw [seen_run_of_stop hs, Step.seen_of_stop hs, Prod.mk.injEq] at hr
  cases hr.2

lemma ne_failed (hw : d.Waiting) : d.phase ≠ .failed := by
  intro h
  have hs : (d.step (.start [])).stop? = some (.fail .invalidState) := by rw [step, h]
  have hr := hw.rests
  rw [seen_run_of_stop hs, Step.seen_of_stop hs, Prod.mk.injEq] at hr
  cases hr.2

/-- A decoder that waits reads the chunks that there is room for. -/
lemma update_eq (hw : d.Waiting) (hle : chunk.length ≤ d.pending) :
    d.update chunk = d.readChunk chunk :=
  update_eq_readChunk hw.ne_complete hw.ne_failed hle

end Waiting

/-- A decoder that has not begun waits, however much was declared. -/
lemma waiting_init (len : Nat) : Waiting ⟨.init, {}, len, {}⟩ := by
  refine ⟨⟨rfl, rfl⟩, ?_⟩
  have hs : (step ⟨.init, {}, len, {}⟩ (.start [])).stop? = some .suspend := rfl
  rw [seen_run_of_stop hs]
  rfl

lemma waiting_create {len : Nat} (h : create len = .ok d) : d.Waiting :=
  (create_eq_ok_iff.1 h).2 ▸ waiting_init len

/-! ### What a chunk comes to -/

/-- What a chunk comes to: the decoder waits for more, is complete, or has failed. -/
lemma readChunk_cases (d : Decoder) (chunk : Bytes) :
    (∃ log d', ((d.owing (d.pending - chunk.length)).run (.start chunk)).seen = (log, .waits d') ∧
      d'.pending = d.pending - chunk.length ∧
      d.readChunk chunk = ⟨d', .ok .needsMoreInput, log⟩) ∨
    (∃ log d' ahead,
      ((d.owing (d.pending - chunk.length)).run (.start chunk)).seen = (log, .ends d' ahead) ∧
      d'.pending = d.pending - chunk.length ∧
      d.readChunk chunk = ⟨{ d' with phase := .complete }, .ok .complete,
        log ++ [.decoded d'.tx.type (ahead.length + d'.pending)]⟩) ∨
    (∃ log state field e,
      ((d.owing (d.pending - chunk.length)).run (.start chunk)).seen
        = (log, .fails state field e) ∧
      (d.readChunk chunk).result = .error e ∧
      (d.readChunk chunk).log = log ++ [.failed state field e] ∧
      (d.readChunk chunk).decoder.phase = .failed) := by
  have hread : d.readChunk chunk
      = conclude ((d.owing (d.pending - chunk.length)).run (.start chunk)) := rfl
  have hp := pending_run (d.owing (d.pending - chunk.length)) (.start chunk)
  rw [hread]
  generalize (d.owing (d.pending - chunk.length)).run (.start chunk) = r at hp ⊢
  rcases r with ⟨d', c, _ | _ | e, log⟩
  · exact .inl ⟨log, d', rfl, hp, rfl⟩
  · exact .inr (.inl ⟨log, d', c.ahead, rfl, hp, rfl⟩)
  · exact .inr (.inr ⟨log, d'.state, d'.field?, e, rfl, rfl, rfl, rfl⟩)

/-- **A decoder that asks for more input waits for it**, and expects less by the chunk. -/
theorem waiting_of_needsMoreInput (hw : d.Waiting) (hle : chunk.length ≤ d.pending)
    (h : (d.update chunk).result = .ok .needsMoreInput) :
    (d.update chunk).decoder.Waiting ∧
      (d.update chunk).decoder.pending = d.pending - chunk.length := by
  rw [hw.update_eq hle] at h ⊢
  have hd := hw.sound.owing (d.pending - chunk.length)
  rcases readChunk_cases d chunk with ⟨log, d', hseen, hp, heq⟩ | ⟨log, d', ahead, -, -, heq⟩ |
      ⟨log, state, field, e, -, heq, -⟩
  · rw [heq]
    exact ⟨⟨sound_of_waits hd hseen, seen_run_nil hd hseen hp⟩, hp⟩
  · rw [heq] at h
    cases h
  · rw [heq] at h
    cases h

/-- **An empty chunk changes nothing** while more input is wanted. -/
theorem Waiting.update_nil (hw : d.Waiting) : d.update [] = ⟨d, .ok .needsMoreInput, []⟩ := by
  have hrests := hw.rests
  change ((d.owing (d.pending - ([] : Bytes).length)).run (.start [])).seen = _ at hrests
  rw [hw.update_eq (Nat.zero_le _)]
  rcases readChunk_cases d [] with ⟨log, d', hseen, -, heq⟩ | ⟨log, d', ahead, hseen, -, -⟩ |
      ⟨log, state, field, e, hseen, -, -⟩
  · obtain ⟨rfl, h⟩ := Prod.mk.inj (hrests.symm.trans hseen)
    rw [heq, Outcome.waits.inj h]
  · cases hrests.symm.trans hseen
  · cases hrests.symm.trans hseen

/-- A decoder that waits reads a chunk on where it was cut. -/
lemma seen_update_append (hw : d.Waiting) (hle : (a ++ b).length ≤ d.pending)
    (h : (d.update a).result = .ok .needsMoreInput) :
    (d.update (a ++ b)).seen =
      ((d.update a).log ++ ((d.update a).decoder.update b).seen.1,
        ((d.update a).decoder.update b).seen.2) := by
  have hlen : a.length + b.length ≤ d.pending := by rwa [← List.length_append]
  have hlea : a.length ≤ d.pending := by omega
  obtain ⟨hw', hp'⟩ := waiting_of_needsMoreInput hw hlea h
  have hleb : b.length ≤ (d.update a).decoder.pending := by omega
  rw [hw'.update_eq hleb, hw.update_eq hle, seen_readChunk_append hw.sound hle, seen_readChunk]
  rw [hw.update_eq hlea] at h ⊢
  rcases readChunk_cases d a with ⟨log, d', hseen, hp, heq⟩ | ⟨log, d', ahead, -, -, heq⟩ |
      ⟨log, state, field, e, -, heq, -⟩
  · have hrest : d'.pending - b.length = d.pending - (a ++ b).length := by
      rw [List.length_append]
      omega
    rw [heq, hseen, resume, closing_log, hrest]
  · rw [heq] at h
    cases h
  · rw [heq] at h
    cases h

/-- What follows the end of the transaction is left over. -/
lemma seen_update_append_of_complete (hw : d.Waiting) (hle : (a ++ b).length ≤ d.pending)
    (h : (d.update a).result = .ok .complete) :
    (d.update (a ++ b)).seen =
      ((d.update a).log,
        .ok (.complete, (d.update a).decoder.owing (d.pending - (a ++ b).length))) := by
  have hlen : a.length + b.length ≤ d.pending := by rwa [← List.length_append]
  have hlea : a.length ≤ d.pending := by omega
  rw [hw.update_eq hle, seen_readChunk_append hw.sound hle]
  rw [hw.update_eq hlea] at h ⊢
  rcases readChunk_cases d a with ⟨log, d', -, -, heq⟩ | ⟨log, d', ahead, hseen, hp, heq⟩ |
      ⟨log, state, field, e, -, heq, -⟩
  · rw [heq] at h
    cases h
  · -- the bytes left over and those still expected are as many as before
    have htrailing : (ahead ++ b).length + (d.pending - (a ++ b).length)
        = ahead.length + d'.pending := by
      simp only [List.length_append]
      omega
    rw [heq, hseen]
    simp only [resume, closing, owing, htrailing]
  · rw [heq] at h
    cases h

/-- A failure is final. -/
lemma seen_update_append_of_error (hw : d.Waiting) (hle : (a ++ b).length ≤ d.pending)
    {e : DecodeError} (h : (d.update a).result = .error e) :
    (d.update (a ++ b)).seen = ((d.update a).log, .error e) := by
  have hlen : a.length + b.length ≤ d.pending := by rwa [← List.length_append]
  have hlea : a.length ≤ d.pending := by omega
  rw [hw.update_eq hle, seen_readChunk_append hw.sound hle]
  rw [hw.update_eq hlea] at h ⊢
  rcases readChunk_cases d a with ⟨log, d', -, -, heq⟩ | ⟨log, d', ahead, -, -, heq⟩ |
      ⟨log, state, field, e', hseen, heq, hlog, -⟩
  · rw [heq] at h
    cases h
  · rw [heq] at h
    cases h
  · obtain rfl : e' = e := Except.error.inj (heq.symm.trans h)
    rw [hseen, hlog]
    rfl

/-! ### Chunks in a row -/

/-- The decoder after chunks in a row, those after a failure included. -/
def after (d : Decoder) (chunks : List Bytes) : Decoder :=
  chunks.foldl (fun d chunk => (d.update chunk).decoder) d

/-- A decoder between two chunks waits or has ended. -/
def Resting (d : Decoder) : Prop :=
  d.Waiting ∨ d.phase = .complete ∨ d.phase = .failed

/-- An answer that ends a decoder leaves it so. -/
lemma phase_update (d : Decoder) (chunk : Bytes) :
    ((d.update chunk).result = .ok .complete → (d.update chunk).decoder.phase = .complete) ∧
      ∀ e, (d.update chunk).result = .error e → (d.update chunk).decoder.phase = .failed := by
  fun_cases update d chunk with
  | case1 hc => simp [hc]
  | case2 hf => simp [hf]
  | case3 _ u => simp [u, fail]
  | case4 =>
      rcases readChunk_cases d chunk with ⟨log, d', -, -, heq⟩ | ⟨log, d', ahead, -, -, heq⟩ |
          ⟨log, state, field, e, -, hres, -, hphase⟩
      · simp [heq]
      · simp [heq]
      · simp [hres, hphase]

/-- Only a chunk that there is room for is answered well by a decoder that waits. -/
lemma Waiting.length_le (hw : d.Waiting) {p : Progress} (h : (d.update chunk).result = .ok p) :
    chunk.length ≤ d.pending := by
  by_contra hlt
  revert h
  fun_cases update d chunk with
  | case1 hc => exact absurd hc hw.ne_complete
  | case2 hf => exact absurd hf hw.ne_failed
  | case3 _ u => simp [u, fail]
  | case4 _ _ hle => exact absurd (Nat.not_lt.1 ‹_›) hlt

/-- Any chunk leaves a decoder waiting or ended. -/
lemma Resting.update (hd : d.Resting) (chunk : Bytes) : (d.update chunk).decoder.Resting := by
  rcases hd with hw | hc | hf
  · rcases h : (d.update chunk).result with e | _ | _
    · exact .inr (.inr ((phase_update d chunk).2 e h))
    · exact .inl (waiting_of_needsMoreInput hw (hw.length_le h) h).1
    · exact .inr (.inl ((phase_update d chunk).1 h))
  · rw [update_of_complete hc]
    exact .inr (.inl hc)
  · rw [update_of_failed hf]
    exact .inr (.inr hf)

/-- Chunks in a row leave a decoder waiting or ended. -/
lemma Resting.after (hd : d.Resting) (chunks : List Bytes) : (d.after chunks).Resting := by
  induction chunks generalizing d with
  | nil => exact hd
  | cons chunk chunks ih => exact ih (hd.update chunk)

/-- A decoder with what is still expected, unless nothing more is read. -/
def settled (d : Decoder) : Decoder :=
  match d.phase with
  | .complete => d.owing 0
  | _ => d

/-- What chunks in a row come to: what is reported, and the decoder up to what it leaves over. -/
def fed (d : Decoder) (chunks : List Bytes) : List Event × Except DecodeError Decoder :=
  ((d.updates chunks).flatMap Update.log, (d.feed chunks).map settled)

lemma fed_nil (d : Decoder) : d.fed [] = ([], .ok d.settled) := rfl

lemma fed_cons_of_ok {p : Progress} {chunks : List Bytes} (h : (d.update a).result = .ok p) :
    d.fed (a :: chunks) =
      ((d.update a).log ++ ((d.update a).decoder.fed chunks).1,
        ((d.update a).decoder.fed chunks).2) := by
  simp only [fed, updates, feed, h, List.flatMap_cons]

lemma fed_cons_of_error {e : DecodeError} (chunks : List Bytes)
    (h : (d.update a).result = .error e) : d.fed (a :: chunks) = ((d.update a).log, .error e) := by
  simp only [fed, updates, feed, h, List.flatMap_cons, List.flatMap_nil, List.append_nil]
  rfl

lemma fed_singleton (d : Decoder) (a : Bytes) :
    d.fed [a] = ((d.update a).seen.1, (d.update a).seen.2.map fun r => r.2.settled) := by
  rcases h : (d.update a).result with e | p
  · rw [fed_cons_of_error [] h, Update.seen, h]
    rfl
  · rw [fed_cons_of_ok h, fed_nil, Update.seen, h, List.append_nil]
    rfl

lemma fed_of_complete (h : d.phase = .complete) (chunks : List Bytes) :
    d.fed chunks = ([], .ok d.settled) := by
  induction chunks with
  | nil => rfl
  | cons a chunks ih =>
      have hu := update_of_complete h a
      rw [fed_cons_of_ok (p := .complete) (by rw [hu]), hu]
      rw [ih, List.append_nil]

/-- **Chunks in a row come to what they come to in one.** -/
theorem fed_flatten (hw : d.Waiting) {chunks : List Bytes}
    (hle : chunks.flatten.length ≤ d.pending) : d.fed chunks = d.fed [chunks.flatten] := by
  induction chunks generalizing d with
  | nil =>
      rw [List.flatten_nil, fed_nil, fed_singleton, hw.update_nil]
      rfl
  | cons a chunks ih =>
      have hflat : (a :: chunks).flatten = a ++ chunks.flatten := rfl
      rw [hflat] at hle ⊢
      have hlen : a.length + chunks.flatten.length ≤ d.pending := by
        rwa [← List.length_append]
      have hlea : a.length ≤ d.pending := by omega
      rw [fed_singleton d (a ++ _)]
      rcases h : (d.update a).result with e | _ | _
      · rw [fed_cons_of_error chunks h, seen_update_append_of_error hw hle h]
        rfl
      · obtain ⟨hw', hp'⟩ := waiting_of_needsMoreInput hw hlea h
        rw [fed_cons_of_ok h, ih hw' (by omega), fed_singleton, seen_update_append hw hle h]
      · have hphase := (phase_update d a).1 h
        rw [fed_cons_of_ok h, fed_of_complete hphase, seen_update_append_of_complete hw hle h,
          List.append_nil]
        simp only [settled, hphase, Except.map, phase_owing]
        rfl

lemma finish_eq_ok_iff {tx : Transaction} :
    d.finish = .ok tx ↔ d.phase = .complete ∧ d.tx = tx := by
  rw [finish]
  rcases d.phase with _ | _ | _ | _ | _ | _ | _ | _ <;> simp

/-- What a caller sees of a decoder does not depend on what a complete one leaves over. -/
lemma seen_of_settled_eq {d d' : Decoder} (h : d.settled = d'.settled) :
    d.state = d'.state ∧ d.field? = d'.field? ∧ d.transaction? = d'.transaction? ∧
      d.finish = d'.finish ∧ (d.state ≠ .complete → d.pending = d'.pending) := by
  have hview : ∀ d : Decoder, d.settled.phase = d.phase ∧ d.settled.tx = d.tx ∧
      (d.state ≠ .complete → d.settled.pending = d.pending) := by
    rintro ⟨phase, held, pending, tx⟩
    cases phase <;> exact ⟨rfl, rfl, fun hs => by first | rfl | exact absurd rfl hs⟩
  obtain ⟨hphase, htx, hpending⟩ := hview d
  obtain ⟨hphase', htx', hpending'⟩ := hview d'
  rw [h] at hphase htx hpending
  have hp : d.phase = d'.phase := hphase.symm.trans hphase'
  have ht : d.tx = d'.tx := htx.symm.trans htx'
  have hs : d.state = d'.state := congrArg Phase.state hp
  refine ⟨hs, congrArg Phase.field? hp, ?_, ?_, fun hn => ?_⟩
  · rw [transaction?, transaction?, hp, ht]
  · rw [finish, finish, hp, ht]
  · rw [← hpending hn, hpending' (hs ▸ hn)]

/-- **Where the input is cut does not matter.** Two rows of chunks with the same bytes, at most as
many as were declared, end with the same failure, or else with decoders that show the same. A
decoder that has not ended is left as it is by an empty chunk, whatever came before. -/
theorem feed_agree_of_flatten_eq {len : Nat} {d : Decoder} (h : create len = .ok d)
    {cs ds : List Bytes} (hflat : cs.flatten = ds.flatten) (hle : cs.flatten.length ≤ len) :
    (∀ e, d.feed cs = .error e ↔ d.feed ds = .error e) ∧
      (∀ a b, d.feed cs = .ok a → d.feed ds = .ok b →
        a.state = b.state ∧ a.field? = b.field? ∧ a.transaction? = b.transaction? ∧
          a.finish = b.finish ∧ (a.state ≠ .complete → a.pending = b.pending)) ∧
      ∀ chunks : List Bytes, (d.after chunks).state ≠ .complete → (d.after chunks).state ≠ .error →
        (d.after chunks).update [] = ⟨d.after chunks, .ok .needsMoreInput, []⟩ := by
  have hw := waiting_create h
  have hp : d.pending = len := by
    rw [create] at h
    split_ifs at h
    cases h
    rfl
  have hfed : d.fed cs = d.fed ds :=
    calc d.fed cs = d.fed [cs.flatten] := fed_flatten hw (hp ▸ hle)
      _ = d.fed [ds.flatten] := by rw [hflat]
      _ = d.fed ds := (fed_flatten hw (hp ▸ hflat ▸ hle)).symm
  have hfeed : (d.feed cs).map settled = (d.feed ds).map settled := congrArg Prod.snd hfed
  refine ⟨fun e => ?_, fun a b ha hb => ?_, fun chunks hc hf => ?_⟩
  · rcases hcs : d.feed cs with e₁ | a <;> rcases hds : d.feed ds with e₂ | b <;>
      rw [hcs, hds] at hfeed <;> simp_all [Except.map]
  · rw [ha, hb] at hfeed
    exact seen_of_settled_eq (Except.ok.inj hfeed)
  · rcases Resting.after (.inl hw) chunks with hw' | hc' | hf'
    · exact hw'.update_nil
    · exact absurd (congrArg Phase.state hc') hc
    · exact absurd (congrArg Phase.state hf') hf

/-- A cut within the outer header: both rows stop before the second field of a legacy
transaction. -/
theorem feed_agree_cut_header :
    ∃ a b, feed ⟨.init, {}, 4, {}⟩ [[0xf8, 0x01], [], [0x80]] = .ok a ∧
      feed ⟨.init, {}, 4, {}⟩ [[0xf8], [0x01, 0x80]] = .ok b ∧ a.field? = some .gasPrice ∧
      a.field? = b.field? ∧ a.pending = b.pending := by
  have ha : feed ⟨.init, {}, 4, {}⟩ [[0xf8, 0x01], [], [0x80]]
      = .ok ⟨.fields (TxType.legacy.layout.drop 1) none none, {}, 1, {}⟩ := by cbv
  have hb : feed ⟨.init, {}, 4, {}⟩ [[0xf8], [0x01, 0x80]]
      = .ok ⟨.fields (TxType.legacy.layout.drop 1) none none, {}, 1, {}⟩ := by cbv
  have hcut : ([[0xf8, 0x01], [], [0x80]] : List Bytes).flatten = [[0xf8], [0x01, 0x80]].flatten :=
    rfl
  obtain ⟨-, hfield, -, -, hpending⟩ :=
    (feed_agree_of_flatten_eq (rfl : create 4 = _) hcut (by decide)).2.1 _ _ ha hb
  exact ⟨_, _, ha, hb, rfl, hfield, hpending (by decide)⟩

end Decoder

end TxStream
