import TxStream.Chunked
import TxStream.Proofs.Decoder.Protocol

/-!
A transaction that is delivered in chunks of one size, and the same transaction in one chunk.

* `Delivery.Tracks`: the answer that a delivery remembers is that of its decoder;
* `Delivery.Tracks.deliver`: a delivery comes to what `feed` comes to, and counts the bytes;
* `ChunkedError.ofDecode`: the cause that a delivery gives for a failure of the decoder;
* `decodeChunked_eq`: for every size that is allowed, chunks of this size give the transaction of
  the bytes, or the cause for its failure;
* `decodeChunked_iff`: the same answer by answer, with the sizes that are not allowed.
-/

namespace TxStream

namespace Decoder

variable {d : Decoder} {e : DecodeError} {chunk : Bytes} {chunks : List Bytes}

/-! ### Ends of decoders -/

lemma finish_of_unfinished (hc : d.state ≠ .complete) (hf : d.state ≠ .error) :
    d.finish = .error .incomplete := by
  rcases d with ⟨phase, held, pending, tx⟩
  cases phase with
  | complete => exact absurd rfl hc
  | failed => exact absurd rfl hf
  | _ => rfl

/-- What a complete decoder leaves over is not part of the transaction. -/
lemma finish_settled (d : Decoder) : d.settled.finish = d.finish := by
  rcases d with ⟨phase, held, pending, tx⟩
  cases phase <;> rfl

lemma bind_finish_of_fed_eq {d₁ d₂ : Decoder} {cs ds : List Bytes} (h : d₁.fed cs = d₂.fed ds) :
    (d₁.feed cs).bind finish = (d₂.feed ds).bind finish := by
  have hbind : ∀ r : Except DecodeError Decoder, (r.map settled).bind finish = r.bind finish := by
    rintro (e | d')
    · rfl
    · exact finish_settled d'
  have hfeed : (d₁.feed cs).map settled = (d₂.feed ds).map settled := congrArg Prod.snd h
  rw [← hbind, hfeed, hbind]

/-- **Chunks in a row end as all of them in one chunk do.** -/
theorem feed_bind_finish (hw : d.Waiting) (hle : chunks.flatten.length ≤ d.pending) :
    (d.feed chunks).bind finish = (d.feed [chunks.flatten]).bind finish :=
  bind_finish_of_fed_eq (fed_flatten hw hle)

/-- No chunk is refused for being incomplete. -/
lemma ne_incomplete_of_feed (hd : d.Resting) (h : d.feed chunks = .error e) : e ≠ .incomplete := by
  induction chunks generalizing d with
  | nil => cases h
  | cons chunk chunks ih =>
      rw [feed] at h
      rcases hr : (d.update chunk).result with e' | p
      · simp only [hr, Except.error.injEq] at h
        subst h
        rintro rfl
        rcases status_of_error hd hr with hs | hs <;> cases hs
      · simp only [hr] at h
        exact ih (hd.update chunk) h

end Decoder

/-- The transaction that bytes encode, as a decoder for them ends. -/
lemma deserialize_eq_bind (raw : Bytes) :
    deserialize raw =
      (Decoder.create raw.length).bind fun d => (d.feed [raw]).bind Decoder.finish := by
  rw [deserialize]
  rcases Decoder.create raw.length with e | d
  · rfl
  · show _ = (d.feed [raw]).bind Decoder.finish
    rw [Decoder.feed]
    rcases hr : (d.update raw).result with e | p <;> simp only [hr] <;> rfl

lemma deserialize_eq_of_fed_eq {a b : Bytes} {d₁ d₂ : Decoder}
    (h₁ : Decoder.create a.length = .ok d₁) (h₂ : Decoder.create b.length = .ok d₂)
    (h : d₁.fed [a] = d₂.fed [b]) : deserialize a = deserialize b := by
  rw [deserialize_eq_bind, deserialize_eq_bind, h₁, h₂]
  exact Decoder.bind_finish_of_fed_eq h

/-! ### Deliveries -/

/-- The cause that a delivery of `len` bytes gives for a failure of the decoder. Bytes that are
incomplete are all consumed. -/
def ChunkedError.ofDecode (len : Nat) : DecodeError → ChunkedError
  | .incomplete => .incomplete len len
  | e => .decode e

namespace ChunkedError

variable {len : Nat} {e e' : DecodeError}

lemma ofDecode_of_ne (h : e ≠ .incomplete) : ofDecode len e = .decode e := by
  cases e with
  | incomplete => exact absurd rfl h
  | _ => rfl

lemma ofDecode_eq_incomplete_iff {consumed total : Nat} :
    ofDecode len e = .incomplete consumed total ↔
      e = .incomplete ∧ consumed = len ∧ total = len := by
  by_cases h : e = .incomplete
  · subst h
    simp [ofDecode, eq_comm]
  · simp [ofDecode_of_ne h, h]

lemma ofDecode_eq_decode_iff : ofDecode len e = .decode e' ↔ e = e' ∧ e' ≠ .incomplete := by
  by_cases h : e = .incomplete
  · subst h
    simp only [ofDecode, reduceCtorEq, false_iff, not_and, not_not]
    exact Eq.symm
  · simp only [ofDecode_of_ne h, ChunkedError.decode.injEq]
    constructor
    · rintro rfl
      exact ⟨rfl, h⟩
    · exact And.left

end ChunkedError

namespace Delivery

variable {s : Delivery}

/-- The answer that a delivery remembers is that of its decoder, which has not failed. -/
structure Tracks (s : Delivery) : Prop where
  resting : s.decoder.Resting
  ne_error : s.decoder.state ≠ .error
  complete_iff : s.answer = .complete ↔ s.decoder.state = .complete

namespace Tracks

lemma next (hs : s.Tracks) {chunk : Bytes} {p : Progress}
    (h : (s.decoder.update chunk).result = .ok p) :
    (s.next chunk (s.decoder.update chunk).decoder p).Tracks := by
  have hu := Decoder.faithful_update hs.resting chunk
  refine ⟨hs.resting.update chunk, fun hf => ?_, ?_⟩
  · obtain ⟨e, he⟩ := hu.failed_iff.2 hf
    cases h.symm.trans he
  · have hc := hu.complete_iff
    rwa [h, Except.ok.injEq] at hc

/-- **A delivery comes to what its decoder comes to**, and counts the bytes. -/
theorem deliver (hs : s.Tracks) (chunks : List Bytes) :
    (∃ e, s.deliver chunks = .error e ∧ s.decoder.feed chunks = .error e) ∨
      ∃ s', s.deliver chunks = .ok s' ∧ s.decoder.feed chunks = .ok s'.decoder ∧ s'.Tracks ∧
        s'.consumed = s.consumed + chunks.flatten.length := by
  induction chunks generalizing s with
  | nil => exact .inr ⟨s, rfl, rfl, hs, rfl⟩
  | cons chunk chunks ih =>
      rw [Delivery.deliver, Decoder.feed]
      rcases hr : (s.decoder.update chunk).result with e | p
      · exact .inl ⟨e, rfl, rfl⟩
      · rcases ih (hs.next hr) with ⟨e, hdeliver, hfeed⟩ | ⟨s', hdeliver, hfeed, hs', hlen⟩
        · exact .inl ⟨e, hdeliver, hfeed⟩
        · refine .inr ⟨s', hdeliver, hfeed, hs', ?_⟩
          rw [hlen, List.flatten_cons, List.length_append]
          exact Nat.add_assoc ..

/-- If the last answer asks for more input, the decoder is incomplete. -/
lemma finish_of_needsMoreInput (hs : s.Tracks) (h : s.answer = .needsMoreInput) :
    s.decoder.finish = .error .incomplete := by
  refine Decoder.finish_of_unfinished (fun hc => ?_) hs.ne_error
  cases h.symm.trans (hs.complete_iff.2 hc)

end Tracks

/-- A delivery begins with an answer that agrees with its decoder. -/
lemma tracks_of_waiting {d : Decoder} (hw : d.Waiting) : Tracks { decoder := d } := by
  refine ⟨.inl hw, fun h => hw.ne_failed (Decoder.phase_of_state_error h), ?_⟩
  exact iff_of_false (by simp) fun h => hw.ne_complete (Decoder.phase_of_state_complete h)

end Delivery

/-! ### Whole transactions -/

/-- **Chunks of one size give what all of the bytes in one chunk give**, for every size that is
allowed. -/
theorem decodeChunked_eq (raw : Bytes) {size : Nat} (hsize : chunkSizeAllowed size = true) :
    decodeChunked raw size = (deserialize raw).mapError (ChunkedError.ofDecode raw.length) := by
  rw [decodeChunked, if_pos hsize, deserialize_eq_bind]
  rcases hnew : Decoder.create raw.length with e | d
  · rw [Decoder.create] at hnew
    split_ifs at hnew
    cases hnew
    rfl
  have hw := Decoder.waiting_create hnew
  have hpending : d.pending = raw.length := by rw [(Decoder.create_eq_ok_iff.1 hnew).2]
  have hflat := flatten_pieces size raw
  have hle : (pieces size raw).flatten.length ≤ d.pending :=
    Nat.le_of_eq (by rw [hflat, hpending])
  -- the chunks are the bytes, so that they end as all of them do in one chunk
  have hfinish := Decoder.feed_bind_finish hw hle
  rw [hflat] at hfinish
  show _ = ((d.feed [raw]).bind Decoder.finish).mapError _
  rw [← hfinish]
  rcases (Delivery.tracks_of_waiting hw).deliver (pieces size raw) with ⟨e, hdeliver, hfeed⟩ |
      ⟨s, hdeliver, hfeed, hs, hlen⟩
  · have he := Decoder.ne_incomplete_of_feed (.inl hw) hfeed
    simp only [hdeliver, hfeed, Except.bind, Except.mapError, ChunkedError.ofDecode_of_ne he]
  · have hconsumed : s.consumed = raw.length := by rw [hlen, hflat, Nat.zero_add]
    simp only [hdeliver, hfeed, Except.bind, hconsumed]
    rcases ha : s.answer with _ | _
    · rw [hs.finish_of_needsMoreInput ha]
      rfl
    · have hphase := Decoder.phase_of_state_complete (hs.complete_iff.1 ha)
      rw [Decoder.finish_eq_ok_iff.2 ⟨hphase, rfl⟩]
      rfl

/-- **Decoding in chunks agrees with decoding at once.** For every size of chunks that is allowed,
it gives a transaction exactly if the bytes encode it. It says that the bytes are incomplete exactly
if they are, with all of them consumed, and gives any other failure of the decoder as its cause. So
the size does not matter, unless it is not allowed: then it is refused, whatever the bytes are. -/
theorem decodeChunked_iff (raw : Bytes) (size : Nat) :
    (1 ≤ size → size ≤ maxChunkLength →
      (∀ tx, decodeChunked raw size = .ok tx ↔ deserialize raw = .ok tx) ∧
      (∀ consumed total, decodeChunked raw size = .error (.incomplete consumed total) ↔
        deserialize raw = .error .incomplete ∧ consumed = raw.length ∧ total = raw.length) ∧
      (∀ e, decodeChunked raw size = .error (.decode e) ↔
        deserialize raw = .error e ∧ e ≠ .incomplete) ∧
      ∀ size', 1 ≤ size' → size' ≤ maxChunkLength →
        decodeChunked raw size' = decodeChunked raw size) ∧
    (¬(1 ≤ size ∧ size ≤ maxChunkLength) →
      decodeChunked raw size = .error (.chunkSize size)) := by
  have hallowed : ∀ n, chunkSizeAllowed n = true ↔ 1 ≤ n ∧ n ≤ maxChunkLength := by
    simp [chunkSizeAllowed]
  refine ⟨fun hpos hle => ?_, fun hnot => ?_⟩
  · have heq := decodeChunked_eq raw ((hallowed size).2 ⟨hpos, hle⟩)
    have hsame : ∀ size', 1 ≤ size' → size' ≤ maxChunkLength →
        decodeChunked raw size' = decodeChunked raw size := fun size' hpos' hle' =>
      (decodeChunked_eq raw ((hallowed size').2 ⟨hpos', hle'⟩)).trans heq.symm
    refine ⟨?_, ?_, ?_, hsame⟩ <;> rw [heq] <;> rcases deserialize raw with e | tx <;>
      simp [Except.mapError, ChunkedError.ofDecode_eq_incomplete_iff,
        ChunkedError.ofDecode_eq_decode_iff]
  · rw [decodeChunked, if_neg fun h => hnot ((hallowed size).1 h)]

/-- A legacy transaction that lacks its last byte, in chunks of two bytes. -/
theorem decodeChunked_iff_cut :
    1 ≤ 2 ∧ 2 ≤ maxChunkLength ∧
      decodeChunked ([0xc9] ++ List.replicate 8 0x80) 2 = .error (.incomplete 9 9) := by
  have hle : 2 ≤ maxChunkLength := by decide
  have h : deserialize ([0xc9] ++ List.replicate 8 0x80) = .error .incomplete := by cbv
  obtain ⟨-, hincomplete, -⟩ :=
    (decodeChunked_iff ([0xc9] ++ List.replicate 8 0x80) 2).1 (by decide) hle
  exact ⟨by decide, hle, (hincomplete 9 9).2 ⟨h, rfl, rfl⟩⟩

end TxStream
