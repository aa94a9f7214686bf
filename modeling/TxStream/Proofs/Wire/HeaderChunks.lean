import TxStream.Proofs.Wire.HeaderCoding
import TxStream.Proofs.Wire.HeaderReading

/-!
A header that arrives over several calls. Each call has a cursor of its own, which may stand
anywhere in its chunk, and a call may bring no byte at all.

* `PartialHeader.after`, `delivered`: what is held after some calls, and what they brought.
* `PartialHeader.Sound`: held bytes are the start of a header, or a lead byte that is refused.
  Every call keeps that (`PartialHeader.Sound.read`), so that it holds after all calls
  (`PartialHeader.sound_after`).
* `PartialHeader.after_of_waits`: while the bytes do not suffice, they are what is held.
* `PartialHeader.after_of_stuck`: a lead byte that is refused is refused for good.
* `PartialHeader.resumes`: a call after others finds the header of all the bytes in a row.
-/

namespace TxStream

/-- The bytes that the calls on some cursors bring in a row. -/
def delivered (cs : List Cursor) : Bytes := cs.flatMap Cursor.ahead

lemma delivered_concat (cs : List Cursor) (c : Cursor) :
    delivered (cs ++ [c]) = delivered cs ++ c.ahead := by
  rw [delivered, List.flatMap_append, List.flatMap_singleton, delivered]

namespace Header

/-- A header can be read from the bytes. -/
def Decodable (b : Bytes) : Prop := ∃ h, decode b = .ok h

/-- The bytes begin with a lead byte that is not supported. -/
def Refused (b : Bytes) : Prop := ∃ lead r, b = lead :: r ∧ Unsupported lead

/-- The bytes do not suffice exactly if more of them could make a header. -/
lemma canDecode_eq_false_iff {b : Bytes} :
    canDecode b = .ok false ↔ ¬ Decodable b ∧ ¬ Refused b := by
  rw [Decodable, ← canDecode_eq_true_iff, Refused, ← canDecode_eq_error_iff]
  rcases hc : canDecode b with e | _ | _
  · obtain rfl := eq_invalidHeader_of_canDecode hc
    simp
  · simp
  · simp

end Header

namespace PartialHeader

variable {p : PartialHeader} {cs : List Cursor} {c : Cursor}

/-- What is held after calls on some cursors. -/
def after (p : PartialHeader) (cs : List Cursor) : PartialHeader :=
  cs.foldl (fun p c => (p.read c).partialHeader) p

lemma after_concat (p : PartialHeader) (cs : List Cursor) (c : Cursor) :
    p.after (cs ++ [c]) = ((p.after cs).read c).partialHeader := by
  rw [after, List.foldl_append]
  rfl

/-! ### What every call keeps -/

/-- A lead byte that is refused is all that is held. -/
def Stuck (p : PartialHeader) : Prop := ∃ lead, p.held = [lead] ∧ Header.Unsupported lead

/-- What is held are the first bytes of a header, or a lead byte that is refused. -/
def Sound (p : PartialHeader) : Prop := Header.canDecode p.held = .ok false ∨ p.Stuck

lemma Stuck.canDecode (h : p.Stuck) : Header.canDecode p.held = .error .invalidHeader := by
  obtain ⟨lead, hheld, hlead⟩ := h
  rw [hheld]
  exact Header.canDecode_cons_of_unsupported hlead []

/-- A call does nothing more once a lead byte is refused. -/
lemma Stuck.read (h : p.Stuck) (c : Cursor) : p.read c = ⟨p, c, .error .invalidHeader⟩ := by
  rw [PartialHeader.read, readFrom.eq_def, h.canDecode]

/-- Nor do any number of calls. -/
lemma after_of_stuck (h : p.Stuck) (cs : List Cursor) : p.after cs = p := by
  induction cs with
  | nil => rfl
  | cons c cs ih =>
      have hc : (p.read c).partialHeader = p := by rw [h.read]
      rw [after, List.foldl_cons, hc]
      exact ih

lemma read_of_refused (hp : Header.canDecode p.held = .ok false)
    (hr : Header.Refused (p.held ++ c.ahead)) :
    p.read c = ⟨⟨c.ahead.take 1⟩, (c.take 1).2, .error .invalidHeader⟩ ∧
      (p.read c).partialHeader.Stuck := by
  have he := Header.canDecode_eq_error_iff.2 hr
  have hread : p.read c = ⟨⟨c.ahead.take 1⟩, (c.take 1).2, .error .invalidHeader⟩ := by
    rw [read_eq hp, scan_of_refused he]
  have hheld := Header.eq_nil_of_canDecode_append_eq_error hp he
  obtain ⟨lead, r, heq, hlead⟩ := hr
  rw [hheld, List.nil_append] at heq
  refine ⟨hread, lead, ?_, hlead⟩
  rw [hread, heq]
  rfl

lemma Sound.read (hp : p.Sound) (c : Cursor) : (p.read c).partialHeader.Sound := by
  rcases hp with hp | hstuck
  · rcases scan_cases p.held c.ahead with ⟨h, hd⟩ | hc | ⟨e, he⟩
    · left
      rw [read_eq hp, scan_of_decode hd]
      rfl
    · left
      rw [read_eq hp, scan_of_partial hc]
      exact hc
    · right
      obtain rfl := Header.eq_invalidHeader_of_canDecode he
      exact (read_of_refused hp (Header.canDecode_eq_error_iff.1 he)).2
  · right
    rwa [hstuck.read]

lemma sound_after (cs : List Cursor) : (after {} cs).Sound := by
  induction cs using List.reverseRecOn with
  | nil => exact .inl rfl
  | append_singleton cs c ih =>
      rw [after_concat]
      exact ih.read c

/-- There is always room for the bytes of a header. -/
lemma Sound.no_overflow (hp : p.Sound) (c : Cursor) :
    (p.read c).result ≠ .error .headerOverflow := by
  rcases hp with hp | hstuck
  · rw [read_eq hp]
    rcases scan_cases p.held c.ahead with ⟨h, hd⟩ | hc | ⟨e, he⟩
    · simp [scan_of_decode hd]
    · simp [scan_of_partial hc]
    · obtain rfl := Header.eq_invalidHeader_of_canDecode he
      simp [scan_of_refused he]
  · simp [hstuck.read]

/-! ### Calls that find no header -/

/-- While the bytes do not suffice, all of them are held. -/
lemma after_of_waits (h : Header.canDecode (delivered cs) = .ok false) :
    after {} cs = ⟨delivered cs⟩ := by
  induction cs using List.reverseRecOn with
  | nil => rfl
  | append_singleton cs c ih =>
      rw [delivered_concat] at h
      have hcs := ih (Header.canDecode_of_append_eq_false h)
      have hheld : Header.canDecode (after {} cs).held = .ok false := by
        rw [hcs]
        exact Header.canDecode_of_append_eq_false h
      rw [after_concat, delivered_concat, read_eq hheld, hcs, scan_of_partial h]

/-- A call on `c`, after calls on `cs` from an empty start, comes to what all the bytes in a row
come to. -/
structure Resumes (cs : List Cursor) (c : Cursor) (r : HeaderReading) : Prop where
  /-- Without a header, the chunk is read to its end and the call asks for more. -/
  waits : ¬ Header.Decodable (delivered cs ++ c.ahead) → ¬ Header.Refused (delivered cs ++ c.ahead) →
    r.result = .ok none ∧ r.cursor.ahead = [] ∧
      (r.partialHeader.isPending = true ↔ delivered cs ++ c.ahead ≠ [])
  /-- As soon as there is a header it is found, and no byte after it is read. -/
  finds : ∀ h, Header.decode (delivered cs ++ c.ahead) = .ok h → ¬ Header.Decodable (delivered cs) →
    r.result = .ok (some h) ∧
      (∀ later, Header.decode (delivered cs ++ c.ahead ++ later) = .ok h) ∧
      (delivered cs).length + r.cursor.position = h.offset + c.position ∧
      r.cursor.ahead = (delivered cs ++ c.ahead).drop h.offset ∧
      (h.offset = 0 → r.cursor = c) ∧ r.partialHeader = {}
  /-- A lead byte that is not supported is read and refused, and refused again by all calls that
  follow, which read nothing. -/
  refuses : ∀ lead rest, delivered cs = [] → c.ahead = lead :: rest → Header.Unsupported lead →
    r.result = .error .invalidHeader ∧ r.cursor = ⟨lead :: c.behind, rest⟩ ∧
      ∀ later c', (r.partialHeader.after later).read c'
        = ⟨r.partialHeader, c', .error .invalidHeader⟩
  /-- The chunk stays as it is. -/
  chunk_eq : r.cursor.chunk = c.chunk
  /-- There is room for every byte that is held. -/
  no_overflow : r.result ≠ .error .headerOverflow

/-- A call that completes a header reads its last bytes and no more. -/
lemma read_of_decode {h : Header} (hp : Header.canDecode p.held = .ok false)
    (hd : Header.decode (p.held ++ c.ahead) = .ok h) :
    p.read c = ⟨{}, (c.take (h.offset - p.held.length)).2, .ok (some h)⟩ ∧
      p.held.length + (p.read c).cursor.position = h.offset + c.position ∧
      (p.read c).cursor.ahead = (p.held ++ c.ahead).drop h.offset := by
  have hread : p.read c = ⟨{}, (c.take (h.offset - p.held.length)).2, .ok (some h)⟩ := by
    rw [read_eq hp, scan_of_decode hd]
  have hle : p.held.length ≤ h.offset := by
    rcases Header.length_lt_offset hp hd with ⟨hnil, -⟩ | hlt
    · rw [hnil]
      exact Nat.zero_le _
    · exact hlt.le
  have hlast := Header.offset_le_length hd
  rw [List.length_append] at hlast
  refine ⟨hread, ?_, ?_⟩
  · rw [hread]
    dsimp only
    rw [Cursor.position_take, Cursor.take, List.length_take]
    omega
  · rw [hread, List.drop_append, List.drop_of_length_le hle, List.nil_append]
    rfl

/-- **A header may arrive over any number of calls**: each call comes to what all the bytes so far
come to in a row, wherever the bytes are cut. -/
theorem resumes (cs : List Cursor) (c : Cursor) : Resumes cs c ((after {} cs).read c) := by
  -- calls that left the header unfinished hold all that they were brought
  have hheld (hd : Header.canDecode (delivered cs) = .ok false) :
      Header.canDecode (after {} cs).held = .ok false ∧ (after {} cs).held = delivered cs := by
    rw [after_of_waits hd]
    exact ⟨hd, rfl⟩
  refine ⟨?_, ?_, ?_, chunk_read _ c, (sound_after cs).no_overflow c⟩
  · intro hdec href
    have hc := Header.canDecode_eq_false_iff.2 ⟨hdec, href⟩
    obtain ⟨hopen, heq⟩ := hheld (Header.canDecode_of_append_eq_false hc)
    rw [read_eq hopen, heq, scan_of_partial hc]
    refine ⟨rfl, List.drop_length, ?_⟩
    simp [isPending]
  · intro h hd hbefore
    have hopen : Header.canDecode (delivered cs) = .ok false := by
      refine Header.canDecode_eq_false_iff.2 ⟨hbefore, ?_⟩
      intro href
      have he := Header.canDecode_append_error (Header.canDecode_eq_error_iff.2 href) c.ahead
      rw [Header.canDecode_eq_true_iff.2 ⟨h, hd⟩] at he
      cases he
    obtain ⟨hopen, heq⟩ := hheld hopen
    rw [← heq] at hd ⊢
    obtain ⟨hread, hposition, hahead⟩ := read_of_decode hopen hd
    refine ⟨by rw [hread], Header.decode_append hd, hposition, hahead, ?_, by rw [hread]⟩
    intro h0
    rw [hread, h0, Nat.zero_sub]
    rfl
  · intro lead rest hnil hahead hlead
    have hd : Header.canDecode (delivered cs) = .ok false := by rw [hnil]; rfl
    obtain ⟨hopen, heq⟩ := hheld hd
    have href : Header.Refused ((after {} cs).held ++ c.ahead) := by
      rw [heq, hnil, hahead]
      exact ⟨lead, rest, rfl, hlead⟩
    obtain ⟨hread, hstuck⟩ := read_of_refused hopen href
    refine ⟨by rw [hread], ?_, ?_⟩
    · rw [hread, Cursor.take, hahead]
      rfl
    · intro later c'
      rw [after_of_stuck hstuck, hstuck.read]

/-- A long header whose three bytes arrive in three calls, the first of them without a byte, and
the byte after it, which is its own item and stays unread. -/
theorem resumes_header_and_single :
    ∃ r : HeaderReading,
      r = (after {} [.start [], .start [0xb9, 0x01]]).read (.start [0x00, 0x05]) ∧
      r.result = .ok (some ⟨256, false, 3⟩) ∧ r.cursor.ahead = [0x05] ∧ r.partialHeader = {} ∧
      ((after {} []).read r.cursor).result = .ok (some ⟨1, false, 0⟩) ∧
      ((after {} []).read r.cursor).cursor = r.cursor := by
  refine ⟨_, rfl, ?_⟩
  have hfirst := resumes [.start [], .start [0xb9, 0x01]] (.start [0x00, 0x05])
  have hbefore : ¬ Header.Decodable (delivered [.start [], .start [0xb9, 0x01]]) :=
    (Header.canDecode_eq_false_iff.1 rfl).1
  obtain ⟨hresult, -, -, hahead, -, hempty⟩ := hfirst.finds ⟨256, false, 3⟩ (by decide) hbefore
  have hsecond := resumes [] ((after {} [.start [], .start [0xb9, 0x01]]).read
    (.start [0x00, 0x05])).cursor
  have hnothing : ¬ Header.Decodable (delivered []) := (Header.canDecode_eq_false_iff.1 rfl).1
  have hd : Header.decode (delivered [] ++ ((after {} [.start [], .start [0xb9, 0x01]]).read
      (.start [0x00, 0x05])).cursor.ahead) = .ok ⟨1, false, 0⟩ := by
    rw [hahead]
    rfl
  obtain ⟨hresult', -, -, -, hunmoved, -⟩ := hsecond.finds ⟨1, false, 0⟩ hd hnothing
  exact ⟨hresult, hahead, hempty, hresult', hunmoved rfl⟩

end PartialHeader

end TxStream
