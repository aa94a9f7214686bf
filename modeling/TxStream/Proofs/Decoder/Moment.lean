import TxStream.Proofs.Decoder.Protocol

/-!
The very chunk in which something happens. What a decoder does with all of an input in one chunk
tells what it does with the chunk that brings some byte of it, wherever the input is cut.

* `Decoder.OnLastByte`: a property of the chunk that brings the last byte of some bytes, and of the
  decoder that takes it;
* `feed_of_waits`: a decoder that waits after all of `a` waits after any chunks within `a`, and goes
  on as it does in one chunk;
* `onLastByte_of_error`: the chunk that is refused;
* `onLastByte_of_field`: the chunk in which a field is reached.
-/

namespace TxStream

namespace Decoder

variable {d d' : Decoder} {c c' : Cursor} {a b q q₀ chunk : Bytes} {e : DecodeError}

/-- What holds of the chunk that brings the last byte of `q`, and of the decoder that takes it, in
any row of chunks that begins with `q` and is no longer than declared. -/
def OnLastByte (d : Decoder) (q : Bytes) (P : Decoder → Bytes → Prop) : Prop :=
  ∀ cs chunk, cs.flatten.length < q.length → q <+: cs.flatten ++ chunk →
    (cs.flatten ++ chunk).length ≤ d.pending →
    ∃ d₁, d.feed cs = .ok d₁ ∧ d₁.state ≠ .complete ∧ d₁.state ≠ .error ∧ P d₁ chunk

/-- A decoder that waits after some bytes waits after the first of them. -/
lemma update_of_waits (hw : d.Waiting) (hle : (a ++ b).length ≤ d.pending)
    (h : (d.update (a ++ b)).result = .ok .needsMoreInput) :
    (d.update a).result = .ok .needsMoreInput := by
  have hseen := Update.seen_eq_ok_iff.2 ⟨h, rfl⟩
  rcases ha : (d.update a).result with e | _ | _
  · rw [seen_update_append_of_error hw hle ha] at hseen
    cases hseen
  · rfl
  · rw [seen_update_append_of_complete hw hle ha] at hseen
    cases hseen

/-- **A decoder that waits after all of `a` waits after chunks within `a`**, and goes on as it does
in one chunk. -/
theorem feed_of_waits (hw : d.Waiting) (hle : a.length ≤ d.pending)
    (h : (d.update a).result = .ok .needsMoreInput) {cs : List Bytes} (hcs : cs.flatten <+: a) :
    ∃ d₁, d.feed cs = .ok d₁ ∧ d₁.Waiting ∧ d₁.pending + cs.flatten.length = d.pending ∧
      ∀ chunk, (cs.flatten ++ chunk).length ≤ d.pending →
        (d₁.update chunk).seen.2 = (d.update (cs.flatten ++ chunk)).seen.2 := by
  -- by induction on the chunks, each of which is the front of what is left of `a`
  induction cs generalizing d a with
  | nil => exact ⟨d, rfl, hw, rfl, fun _ _ => rfl⟩
  | cons c cs ih =>
      obtain ⟨r, rfl⟩ := hcs
      rw [List.flatten_cons, List.append_assoc] at h hle
      have hlen : c.length + (cs.flatten ++ r).length ≤ d.pending := by
        rwa [← List.length_append]
      have hc := update_of_waits hw hle h
      obtain ⟨hw', hp'⟩ := waiting_of_needsMoreInput hw (by omega) hc
      have hrest :
          ((d.update c).decoder.update (cs.flatten ++ r)).result = .ok .needsMoreInput := by
        have hseen := congrArg Prod.snd (seen_update_append hw hle hc)
        exact (Update.seen_eq_ok_iff.1 (hseen.symm.trans (Update.seen_eq_ok_iff.2 ⟨h, rfl⟩))).1
      obtain ⟨d₁, hfeed, hw₁, hp₁, hgo⟩ := ih hw' (by omega) hrest (List.prefix_append ..)
      refine ⟨d₁, ?_, hw₁, ?_, fun chunk hchunk => ?_⟩
      · rw [feed]
        simp only [hc]
        exact hfeed
      · rw [List.flatten_cons, List.length_append]
        omega
      · rw [List.flatten_cons, List.append_assoc] at hchunk ⊢
        have hsum : (c ++ (cs.flatten ++ chunk)).length
            = c.length + (cs.flatten ++ chunk).length := List.length_append
        rw [hgo chunk (by omega), seen_update_append hw hchunk hc]

/-- Chunks that come to the same leave the same decoder, unless they fail. -/
lemma decoder_of_seen {u u' : Update} {p : Progress} (h : u.seen.2 = u'.seen.2)
    (hr : u'.result = .ok p) : u.result = .ok p ∧ u.decoder = u'.decoder :=
  Update.seen_eq_ok_iff.1 (h.trans (Update.seen_eq_ok_iff.2 ⟨hr, rfl⟩))

lemma Waiting.state_ne (hw : d.Waiting) : d.state ≠ .complete ∧ d.state ≠ .error :=
  ⟨fun h => hw.ne_complete (phase_of_state_complete h),
    fun h => hw.ne_failed (phase_of_state_error h)⟩

/-- **A failure on the last byte**: if a decoder waits without it, and fails with it whatever
follows, the chunk that brings it is refused. -/
theorem onLastByte_of_error (hw : d.Waiting) {x : UInt8}
    (hwait : q₀.length ≤ d.pending → (d.update q₀).result = .ok .needsMoreInput)
    (hfail : ∀ r, (q₀ ++ x :: r).length ≤ d.pending →
      (d.update (q₀ ++ x :: r)).result = .error e) :
    d.OnLastByte (q₀ ++ [x]) fun d₁ chunk => (d₁.update chunk).result = .error e := by
  intro cs chunk hlt hq hle
  have hwithin : cs.flatten <+: q₀ := by
    rw [List.length_append, List.length_singleton] at hlt
    exact List.prefix_of_prefix_length_le (List.prefix_append ..)
      ((List.prefix_append ..).trans hq) (by omega)
  obtain ⟨r, hr⟩ := hq
  rw [List.append_assoc, List.singleton_append] at hr
  have hq₀ : q₀.length ≤ d.pending := by
    rw [← hr, List.length_append] at hle
    omega
  obtain ⟨d₁, hfeed, hw₁, -, hgo⟩ := feed_of_waits hw hq₀ (hwait hq₀) hwithin
  refine ⟨d₁, hfeed, hw₁.state_ne.1, hw₁.state_ne.2, Update.seen_eq_error_iff.1 ?_⟩
  rw [hgo chunk hle, ← hr]
  exact Update.seen_eq_error_iff.2 (hfail r (hr ▸ hle))

lemma update_of_feed_eq_error (hw : d.Waiting) {cs : List Bytes}
    (hle : cs.flatten.length ≤ d.pending) (h : d.feed cs = .error e) :
    (d.update cs.flatten).result = .error e := by
  have hfed := congrArg Prod.snd (fed_flatten hw hle)
  rw [fed_singleton, fed, h] at hfed
  rcases hr : (d.update cs.flatten).result with e' | p
  · rw [Update.seen, hr] at hfed
    exact congrArg Except.error (Except.error.inj hfed).symm
  · rw [Update.seen, hr] at hfed
    cases hfed

lemma feed_ne_ok_of_update (hw : d.Waiting) {cs : List Bytes}
    (hle : cs.flatten.length ≤ d.pending) (h : (d.update cs.flatten).result = .error e)
    (d₁ : Decoder) : d.feed cs ≠ .ok d₁ := by
  intro hok
  have hfed := congrArg Prod.snd (fed_flatten hw hle)
  rw [fed_singleton, fed, hok, Update.seen, h] at hfed
  cases hfed

/-- No chunk after a refused one is taken, so that the chunk after those that are taken is refused
as soon as the last byte is there. -/
lemma OnLastByte.result_eq {cs : List Bytes}
    (h : d.OnLastByte q fun d₁ chunk => (d₁.update chunk).result = .error e) (hw : d.Waiting)
    (hne : q ≠ []) (hq : q <+: cs.flatten ++ chunk) (hle : (cs.flatten ++ chunk).length ≤ d.pending)
    (hfeed : d.feed cs = .ok d') : (d'.update chunk).result = .error e := by
  have hcs : cs.flatten.length ≤ d.pending := by
    rw [List.length_append] at hle
    omega
  have hlt : cs.flatten.length < q.length := by
    by_contra hge
    have hbrought := List.prefix_of_prefix_length_le hq (List.prefix_append ..) (Nat.not_lt.1 hge)
    obtain ⟨d₁, hd₁, -, -, hres⟩ := h [] cs.flatten (List.length_pos_iff.2 hne) hbrought hcs
    cases hd₁
    exact feed_ne_ok_of_update hw hcs hres _ hfeed
  obtain ⟨d₁, hd₁, -, -, hres⟩ := h cs chunk hlt hq hle
  obtain rfl := Except.ok.inj (hfeed.symm.trans hd₁)
  exact hres

lemma Reaches.field?_eq (hr : d.Reaches chunk d' c') (hd : d.Sound)
    (hstop : (d'.step c').stop? = some .suspend) :
    (d.update chunk).result = .ok .needsMoreInput ∧
      (d.update chunk).decoder.field? = d'.field? := by
  obtain ⟨hres, hdec⟩ := hr.update_eq hstop
  refine ⟨hres, ?_⟩
  rw [hdec]
  exact (hr.moves hd hstop).2.field?_eq

/-- **A field that is reached on the last byte**: if a decoder waits at it then, the chunk that
brings the byte comes by the field. -/
theorem onLastByte_of_field (hw : d.Waiting) {f : Field}
    (hwait : q.length ≤ d.pending → ∃ d' c', d.Reaches q d' c' ∧
      (d'.step c').stop? = some .suspend ∧ d'.field? = some f) :
    d.OnLastByte q fun d₁ chunk => ∃ d' c', d₁.Reaches chunk d' c' ∧ d'.field? = some f := by
  intro cs chunk hlt hq hle
  obtain ⟨a, rfl⟩ : cs.flatten <+: q :=
    List.prefix_of_prefix_length_le (List.prefix_append ..) hq (Nat.le_of_lt hlt)
  obtain ⟨b, hb⟩ := hq
  rw [List.append_assoc] at hb
  obtain rfl := List.append_cancel_left hb
  have hlen : cs.flatten.length + (a ++ b).length ≤ d.pending := by rwa [← List.length_append]
  have hsum : (a ++ b).length = a.length + b.length := List.length_append
  have hqle : (cs.flatten ++ a).length ≤ d.pending := by
    rw [List.length_append]
    omega
  obtain ⟨d', c', hr, hstop, hfield⟩ := hwait hqle
  obtain ⟨hmore, hfield'⟩ := hr.field?_eq hw.sound hstop
  obtain ⟨d₁, hfeed, hw₁, hp₁, hgo⟩ := feed_of_waits hw hqle hmore (List.prefix_append ..)
  refine ⟨d₁, hfeed, hw₁.state_ne.1, hw₁.state_ne.2, ?_⟩
  -- the last step within the first piece waits at the field too
  obtain ⟨hmore₁, hdec₁⟩ := decoder_of_seen (hgo a hqle) hmore
  have hroom : a.length ≤ d₁.pending := by omega
  obtain ⟨d₂, c₂, hr₂, hstop₂, -⟩ := exists_reaches_of_needsMoreInput (hw₁.takes hroom) hmore₁
  have hfield₂ := (hr₂.field?_eq hw₁.sound hstop₂).2
  have hexpected : (d₁.owing (d₁.pending - a.length)).pending
      = d₁.pending - (a ++ b).length + b.length := by
    simp only [owing]
    omega
  obtain ⟨c₃, hv, -⟩ := hr₂.visits.append (hw₁.sound.owing _)
    (rfl : (Cursor.start (a ++ b)).ahead = a ++ b) hexpected
  refine ⟨_, c₃, ⟨hw₁.takes (by omega), hv⟩, ?_⟩
  rw [← hfield, ← hfield', ← hdec₁, hfield₂]
  rfl

end Decoder

end TxStream
