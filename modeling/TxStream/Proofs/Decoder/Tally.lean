import TxStream.Proofs.Decoder.Recount
import TxStream.Proofs.Decoder.Uses

/-!
Every byte that a decoder is given is read once, as part of a header or of a payload.

* `Itemized`: bytes that are read, header by header and payload by payload, up to some field;
* `Tallies`: what has been read at a phase, with the bytes ahead. The bytes that are held of an
  unfinished header, and those of the open field, come last;
* `Decoder.Tally.of_moves`, `Decoder.Tally.of_run`: steps and runs keep this;
* `Decoder.every_byte_read_once`: so it is for all chunks in a row, and a transaction that is decoded
  leaves unread, or still expected, what its headers and payloads have not taken of the declared
  length.
-/

namespace TxStream

/-- The bytes that are read up to some fields, each with its header and its payload. The frame is
what stands before the fields: the outer header, and that of the item that wraps typed content. -/
inductive Itemized (t : TxType) (frame : Bytes) : List Beginning → List Use → Prop where
  | legacy {n : Nat} (ht : t = .legacy) (ho : IsHeader true n frame) :
      Itemized t frame [] (Role.header.uses frame)
  | typed {n k : Nat} {outer wrapper : Bytes} (ht : t ≠ .legacy) (ho : IsHeader true n outer)
      (hw : IsHeader false k wrapper) (hf : frame = outer ++ wrapper) :
      Itemized t frame [] (Role.header.uses frame)
  | field {begun : List Beginning} {u : List Use} {header payload : Bytes} {e : Entry} {h : Header}
      (hu : Itemized t frame begun u) (hlen : header.length = h.offset)
      (hd : Header.decode (header ++ payload) = .ok h)
      (hpay : payload.length = if e.kind.consumesPayload then h.len else 0) :
      Itemized t frame (begun ++ [(e, h)])
        (u ++ (Role.header.uses header ++ Role.payload.uses payload))

/-- The number of bytes of a frame and of some fields. -/
def encodedLength (frame : Bytes) (begun : List Beginning) : Nat :=
  frame.length + (begun.map fun b => b.1.extent b.2).sum

/-- The fields of a transaction that is decoded: those of its type, or for a legacy transaction at
least those before its chain. -/
def IsWhole (t : TxType) (begun : List Beginning) : Prop :=
  begun.map Prod.fst = t.layout ∨ t = .legacy ∧ begun.map Prod.fst = TxType.legacy.items

/-- What has been read at a phase in which `held` is held of a header, with the bytes `r` ahead. -/
inductive Tallies (held r : Bytes) (t : TxType) (u : List Use) : Phase → Prop where
  | init (hu : u = Role.header.uses held) : Tallies held r t u .init
  | envelope {n : Nat} {outer : Bytes} (ho : IsHeader true n outer)
      (hu : u = Role.header.uses outer ++ Role.header.uses held) : Tallies held r t u .envelope
  | wrapper {n k : Nat} {outer wrapper : Bytes} {item : Header} (ho : IsHeader true n outer)
      (hw : IsHeader false k wrapper) (hheld : held = []) (hlen : wrapper.length = item.offset)
      (hd : Header.decode (wrapper ++ r) = .ok item)
      (hu : u = Role.header.uses outer ++ Role.header.uses wrapper) :
      Tallies held r t u (.wrapper item)
  | content {n k : Nat} {outer wrapper : Bytes} {item : Header} (ho : IsHeader true n outer)
      (hw : IsHeader false k wrapper)
      (hu : u = Role.header.uses (outer ++ wrapper) ++ Role.header.uses held) :
      Tallies held r t u (.content item)
  | typeTag {n k : Nat} {outer wrapper header : Bytes} {list : Header} (ho : IsHeader true n outer)
      (hw : IsHeader false k wrapper) (hheld : held = []) (hlen : header.length = list.offset)
      (hd : Header.decode (header ++ r) = .ok list)
      (hu : u = Role.header.uses (outer ++ wrapper) ++ Role.header.uses header) :
      Tallies held r t u (.typeTag list)
  | fields {frame : Bytes} {begun : List Beginning} {v : List Use} {todo : List Entry}
      {budget : Option Nat} (hv : Itemized t frame begun v)
      (hl : begun.map Prod.fst ++ todo = t.layout) (hend : todo = [] → held = [])
      (hu : u = v ++ Role.header.uses held) : Tallies held r t u (.fields todo none budget)
  | opened {frame header payload : Bytes} {begun : List Beginning} {v : List Use} {e : Entry}
      {rest : List Entry} {f : OpenField} {budget : Option Nat} (hv : Itemized t frame begun v)
      (hl : begun.map Prod.fst ++ e :: rest = t.layout) (hheld : held = [])
      (hlen : header.length = f.header.offset)
      (hd : Header.decode (header ++ (payload ++ r)) = .ok f.header)
      (hpos : 1 ≤ e.extent f.header) (hpay : payload.length = f.position)
      (hle : f.position ≤ f.header.len) (hlist : e.kind = .list → payload = [])
      (hu : u = v ++ (Role.header.uses header ++ Role.payload.uses payload)) :
      Tallies held r t u (.fields (e :: rest) (some f) budget)

variable {t : TxType} {frame : Bytes} {begun : List Beginning} {u v : List Use}

lemma encodedLength_concat (frame : Bytes) (begun : List Beginning) (e : Entry) (h : Header) :
    encodedLength frame (begun ++ [(e, h)]) = encodedLength frame begun + e.extent h := by
  simp [encodedLength, Nat.add_assoc]

/-- As many bytes are read as the headers and payloads have. -/
lemma Itemized.length_eq (h : Itemized t frame begun u) : u.length = encodedLength frame begun := by
  induction h with
  | legacy => simp [Role.uses, encodedLength]
  | typed => simp [Role.uses, encodedLength]
  | field _ hlen _ hpay ih =>
      rw [encodedLength_concat, Entry.extent, ← hpay, ← hlen, ← ih]
      simp [Role.uses]

lemma Tallies.of_header {held r header : Bytes} {e : Entry} {rest : List Entry} {h : Header}
    {tx tx' : Transaction} (budget : Option Nat) (hv : Itemized t frame begun v)
    (hl : begun.map Prod.fst ++ e :: rest = t.layout) (hheld : held = [])
    (hlen : header.length = h.offset) (hd : Header.decode (header ++ r) = .ok h)
    (ha : e.accept h tx = .ok tx') (hu : u = v ++ Role.header.uses header) :
    Tallies held r t u (.fields (e :: rest) (some ⟨h, 0⟩) budget) := by
  have hd' : Header.decode (header ++ ([] ++ r)) = .ok h := hd
  refine .opened hv hl hheld hlen hd' (Entry.extent_pos hd ha) rfl (Nat.zero_le _) (fun _ => rfl) ?_
  rw [hu, Role.uses_nil, List.append_nil]

namespace Decoder

/-- What a decoder has read so far, with the bytes `r` ahead. -/
def Tally (d : Decoder) (r : Bytes) (u : List Use) : Prop :=
  Tallies d.partialHeader.held r d.tx.type u d.phase

variable {d d' : Decoder} {c c' : Cursor} {chunk : Bytes} {h : Header}

/-! ### Headers and payload -/

lemma headerBytes_eq (hopen : ∀ todo f budget, d.phase ≠ .fields todo (some f) budget)
    (c : Cursor) : d.headerBytes c = (d.partialHeader.read c).cursor.position - c.position := by
  rw [headerBytes]
  split
  · next hphase => exact absurd hphase (hopen _ _ _)
  · rfl

/-- A header is read to its end, over what is held of it. -/
lemma exists_reads_past (hd : d.Sound)
    (hopen : ∀ todo f budget, d.phase ≠ .fields todo (some f) budget)
    (hdec : Header.decode (d.partialHeader.held ++ c.ahead) = .ok h) :
    ∃ b, c.Reads b (d.past c h) ∧ d.headerBytes c = b.length ∧
      (d.partialHeader.held ++ b).length = h.offset ∧
      Header.decode (d.partialHeader.held ++ b ++ (d.past c h).ahead) = .ok h := by
  have hreads := Cursor.Reads.take c (h.offset - d.partialHeader.held.length)
  refine ⟨_, hreads, ?_, ?_, ?_⟩
  · rw [headerBytes_eq hopen, PartialHeader.read_eq hd.held, PartialHeader.scan_of_decode hdec]
    dsimp only
    rw [hreads.position, Nat.add_sub_cancel_left]
  · have hoff := Header.offset_le_length hdec
    have hheld := Header.length_lt_offset hd.held hdec
    rw [List.length_append] at hoff
    rw [List.length_append, List.length_take]
    rcases hheld with ⟨hnil, hzero⟩ | hlt
    · simp [hnil, hzero]
    · omega
  · rwa [List.append_assoc, past, ← hreads.ahead]

lemma Tally.of_pays {e : Entry} {rest : List Entry} {f : OpenField} {budget : Option Nat}
    {stop? : Option Stop}
    (ht : Tallies d.partialHeader.held c.ahead d.tx.type u (.fields (e :: rest) (some f) budget))
    (hp : d.Pays c e rest f budget d' c' stop?) :
    ∃ b, c.Reads b c' ∧ d'.Tally c'.ahead (u ++ Role.payload.uses b) := by
  cases ht with
  | @opened frame header payload begun v _ _ _ _ hv hl hheld hlen hd hpos hpay hle hlist hu =>
  have hl' : (begun ++ [(e, f.header)]).map Prod.fst ++ rest = d.tx.type.layout := by
    rw [List.map_append, List.append_assoc]
    exact hl
  -- an item whose payload ends `n` bytes after its header is read for this header
  have hfront : ∀ n, e.extent f.header = f.header.offset + n → n ≤ (payload ++ c.ahead).length →
      Header.decode (header ++ (payload ++ c.ahead).take n) = .ok f.header :=
    fun n hextent hn => Header.decode_front hd hlen hn (hextent ▸ hpos)
  cases hp with
  | list hk =>
      obtain rfl := hlist hk
      have hitem := hfront 0 (by rw [Entry.extent, hk]; rfl) (Nat.zero_le _)
      refine ⟨[], .refl c, ?_⟩
      show Tallies d.partialHeader.held c.ahead d.tx.type _ _
      rw [hheld]
      exact .fields (.field hv hlen hitem (by rw [hk]; rfl)) hl' (fun _ => rfl) (by simp [hu])
  | @closes budget' tx hk hle' hs ha =>
      have hk' := consumesPayload_eq hk
      have hrest : (c.ahead.take f.remaining).length = f.remaining := List.length_take_of_le hle'
      have hwhole : (payload ++ c.ahead.take f.remaining).length = f.header.len := by
        rw [List.length_append, hpay, hrest, OpenField.remaining]
        omega
      have htake : (payload ++ c.ahead).take f.header.len = payload ++ c.ahead.take f.remaining := by
        rw [List.take_append, List.take_of_length_le (hpay ▸ hle), hpay]
        rfl
      have hitem := hfront f.header.len (by rw [Entry.extent, if_pos hk'])
        (by rw [OpenField.remaining] at hle'; rw [List.length_append, hpay]; omega)
      rw [htake] at hitem
      refine ⟨c.ahead.take f.remaining, .take c _, ?_⟩
      show Tallies d.partialHeader.held (c.take f.remaining).2.ahead tx.type _ _
      rw [hheld, (Entry.spares_of_apply ha).type]
      exact .fields (.field hv hlen hitem (by rw [if_pos hk', hwhole])) hl' (fun _ => rfl)
        (by simp [hu, Role.uses_append])
  | @waits budget' tx hk hlt hs ha =>
      have hall : c.ahead.take f.remaining = c.ahead := List.take_of_length_le hlt.le
      have hnone : c.ahead.drop f.remaining = [] := List.drop_eq_nil_of_le hlt.le
      refine ⟨c.ahead, ?_, ?_⟩
      · have hreads := Cursor.Reads.take c f.remaining
        rwa [hall] at hreads
      · show Tallies d.partialHeader.held (c.ahead.drop f.remaining) tx.type _ _
        rw [hheld, hnone, (Entry.spares_of_apply ha).type]
        have hd' : Header.decode (header ++ (payload ++ c.ahead ++ [])) = .ok f.header := by
          rwa [List.append_nil]
        have hle' : f.position + c.ahead.length ≤ f.header.len := by
          rw [OpenField.remaining] at hlt
          omega
        exact .opened hv hl rfl hlen hd' hpos (by rw [List.length_append, hpay]) hle'
          (fun h => absurd h hk) (by simp [hu, Role.uses_append])

/-! ### Steps -/

/-- A header that goes on after the chunk takes all of it. -/
lemma usesTo_of_partial (hopen : ∀ todo f budget, d.phase ≠ .fields todo (some f) budget)
    (hd : d.Sound) (hcan : Header.canDecode (d.partialHeader.held ++ c.ahead) = .ok false) :
    d.usesTo c (c.take c.ahead.length).2 = Role.header.uses c.ahead := by
  have hreads := Cursor.Reads.take c c.ahead.length
  have hbytes : d.headerBytes c = c.ahead.length := by
    rw [headerBytes_eq hopen, PartialHeader.read_eq hd.held, PartialHeader.scan_of_partial hcan]
    dsimp only
    rw [hreads.position, Nat.add_sub_cancel_left, List.take_length]
  rw [List.take_length] at hreads
  exact usesTo_of_header hreads hbytes

lemma Tally.of_enters {t : TxType} {budget : Option Nat} {e : Entry} {rest : List Entry}
    {tx : Transaction} (ht : d.Tally c.ahead u) (hd : d.Sound) (he : d.Enters c d' c' t h budget)
    (hl : t.layout = e :: rest) (ha : e.accept h { d.tx with type := t } = .ok tx) :
    Tallies d'.partialHeader.held c'.ahead t (u ++ d.usesTo c c')
      (.fields (e :: rest) (some ⟨h, 0⟩) budget) := by
  rw [Tally] at ht
  cases he with
  | short hphase hdec hstring hshort =>
      rw [hphase] at ht
      obtain ⟨b, hreads, hbytes, hlen, hdec'⟩ := exists_reads_past hd (by simp [hphase]) hdec
      cases ht with
      | envelope ho hu =>
          refine .of_header none (.legacy rfl ho) hl.symm rfl hlen hdec' ha ?_
          rw [hu, usesTo_of_header hreads hbytes, Role.uses_append, List.append_assoc]
  | plain hphase hx hlt =>
      rw [hphase] at ht
      cases ht with
      | wrapper ho hw hheld hlen hdec hu =>
          refine .of_header none (.legacy rfl ho) hl.symm hheld hlen hdec ha ?_
          rw [hu, usesTo_self, List.append_nil]
  | typed hphase htag htype =>
      rw [hphase] at ht
      obtain ⟨hne, -⟩ := TxType.ofTag?_eq_some_iff.1 htype
      cases ht with
      | typeTag ho hw hheld hlen hdec hu =>
          refine .of_header _ (.typed hne ho hw rfl) hl.symm hheld hlen hdec ha ?_
          rw [hu, usesTo_self, List.append_nil]

/-- **Every step that goes on or waits tallies the bytes that it reads.** -/
theorem Tally.of_moves {stop? : Option Stop} (ht : d.Tally c.ahead u) (hd : d.Sound)
    (hm : d.Moves c d' c' stop?) (hstop : stop? = none ∨ stop? = some .suspend) :
    d'.Tally c'.ahead (u ++ d.usesTo c c') := by
  have htally := ht
  rw [Tally] at ht
  cases hm with
  | @holds phase hphase hcan =>
      have hopen : ∀ todo f budget, d.phase ≠ .fields todo (some f) budget := by
        intro todo f budget h
        rw [h] at hphase
        cases hphase
      rw [usesTo_of_partial hopen hd hcan]
      show Tallies (d.partialHeader.held ++ c.ahead) _ d.tx.type _ phase
      -- a header that goes on takes all bytes ahead, which are tallied as its own
      generalize d.phase = phase₀ at hphase ht
      cases hphase with
      | init =>
          cases ht with
          | init hu => exact .init (by rw [hu, Role.uses_append])
      | envelope =>
          cases ht with
          | envelope ho hu => exact .envelope ho (by rw [hu, Role.uses_append, List.append_assoc])
      | content =>
          cases ht with
          | content ho hw hu =>
              exact .content ho hw (by rw [hu, Role.uses_append _ d.partialHeader.held,
                List.append_assoc])
      | fields =>
          cases ht with
          | fields hv hl hend hu =>
              exact .fields hv hl (by simp) (by rw [hu, Role.uses_append, List.append_assoc])
  | peeks hphase hend =>
      rwa [usesTo_self, List.append_nil]
  | outer hphase hdec hlist =>
      rw [hphase] at ht
      obtain ⟨b, hreads, hbytes, hlen, hdec'⟩ := exists_reads_past hd (by simp [hphase]) hdec
      cases ht with
      | init hu =>
          have hform := isHeader_of_front hdec' hlen (.inl hlist)
          rw [hlist] at hform
          refine .envelope hform ?_
          rw [hu, usesTo_of_header hreads hbytes, Role.uses_append]
          exact (List.append_nil _).symm
  | @wraps h hphase hdec hstring hlong =>
      rw [hphase] at ht
      obtain ⟨b, hreads, hbytes, hlen, hdec'⟩ := exists_reads_past hd (by simp [hphase]) hdec
      cases ht with
      | envelope ho hu =>
          have hoff : h.offset ≠ 0 := by
            intro h0
            simp [Header.isSingle, h0] at hlong
          have hform := isHeader_of_front hdec' hlen (.inr hoff)
          rw [hstring] at hform
          refine .wrapper ho hform rfl hlen hdec' ?_
          rw [hu, usesTo_of_header hreads hbytes, Role.uses_append, List.append_assoc]
  | lists hphase =>
      rw [hphase] at ht
      cases ht with
      | wrapper ho hw hheld _ _ hu =>
          refine .content ho hw ?_
          simp [hu, hheld, Role.uses_append]
  | fills hphase hdec =>
      rw [hphase] at ht
      obtain ⟨b, hreads, hbytes, hlen, hdec'⟩ := exists_reads_past hd (by simp [hphase]) hdec
      cases ht with
      | content ho hw hu =>
          refine .typeTag ho hw rfl hlen hdec' ?_
          rw [hu, usesTo_of_header hreads hbytes, Role.uses_append _ d.partialHeader.held,
            List.append_assoc]
  | @enters d₁ c₁ t h budget e rest tx he hl ha =>
      have htype : tx.type = t := (Entry.spares_of_accept ha).type
      show Tallies d₁.partialHeader.held _ tx.type _ _
      rw [htype]
      exact htally.of_enters hd he hl ha
  | pays hphase hp =>
      rw [hphase] at ht
      obtain ⟨b, hreads, htally'⟩ := Tally.of_pays ht hp
      rwa [usesTo_of_payload hreads (by rw [headerBytes, hphase])]
  | @opens e rest h budget budget' tx d₁ c₁ stop? hphase hchain hdec hs ha hp =>
      rw [hphase] at ht
      obtain ⟨b, hreads, hbytes, hlen, hdec'⟩ := exists_reads_past hd (by simp [hphase]) hdec
      cases ht with
      | @fields frame begun v _ _ hv hl _ hu =>
          have htype : tx.type = d.tx.type := (Entry.spares_of_accept ha).type
          -- the header opens the field with no payload read, and the payload is read on from there
          have hopened : Tallies [] (d.past c h).ahead tx.type (u ++ Role.header.uses b)
              (.fields (e :: rest) (some ⟨h, 0⟩) budget') := by
            refine .of_header budget' (htype ▸ hv) (htype ▸ hl) rfl hlen hdec' ha ?_
            rw [hu, Role.uses_append, List.append_assoc]
          obtain ⟨b', hreads', htally'⟩ := Tally.of_pays hopened hp
          rwa [usesTo_of_reads (hreads.trans hreads') hbytes, ← List.append_assoc]
  | ends => rcases hstop with h | h <;> cases h
  | early => rcases hstop with h | h <;> cases h
  | complete => rcases hstop with h | h <;> cases h
  | fails => rcases hstop with h | h <;> cases h

/-- **At the end, all fields are read.** -/
theorem Tally.of_finish (ht : d.Tally c.ahead u) (hm : d.Moves c d' c' (some .finish)) :
    ∃ frame begun, Itemized d'.tx.type frame begun (u ++ d.usesTo c c') ∧
      IsWhole d'.tx.type begun := by
  rw [Tally] at ht
  cases hm with
  | ends hphase =>
      rw [hphase] at ht
      rw [usesTo_self, List.append_nil]
      cases ht with
      | @fields frame begun v _ _ hv hl hend hu =>
          obtain rfl : u = v := by rw [hu, hend rfl, Role.uses_nil, List.append_nil]
          exact ⟨frame, begun, hv, .inl ((List.append_nil _).symm.trans hl)⟩
  | early hphase hchain hends =>
      rw [hphase] at ht
      rw [usesTo_self, List.append_nil]
      simp only [endsBeforeChain, Bool.and_eq_true, beq_iff_eq, PartialHeader.isPending, Bool.not_not,
        List.isEmpty_iff] at hends
      obtain ⟨⟨⟨htype, -⟩, -⟩, hheld⟩ := hends
      cases ht with
      | @fields frame begun v _ _ hv hl _ hu =>
          obtain rfl : u = v := by rw [hu, hheld, Role.uses_nil, List.append_nil]
          rw [htype] at hl
          exact ⟨frame, begun, hv, .inr ⟨htype, TxType.eq_tail_of_chain hl hchain⟩⟩
  | complete hphase =>
      rw [hphase] at ht
      cases ht
  | pays _ hp => cases hp
  | opens _ _ _ _ _ hp => cases hp

/-! ### Runs and updates -/

/-- **Runs tally the bytes that they read**, up to where they wait or end. -/
theorem Tally.of_run (ht : d.Tally c.ahead u) (hd : d.Sound) (hf : d.phase ≠ .failed) :
    ((d.run c).stop = .suspend → (d.run c).cursor.ahead = [] ∧
      (d.run c).decoder.Tally [] (u ++ d.runUses c)) ∧
    ((d.run c).stop = .finish → ∃ frame begun,
      Itemized (d.run c).decoder.tx.type frame begun (u ++ d.runUses c) ∧
        IsWhole (d.run c).decoder.tx.type begun) := by
  induction d, c using run_induction generalizing u with
  | stop d c stop hstop =>
      have hm := moves_step hd hf c
      rw [hstop] at hm
      rw [run_of_stop hstop, runUses_of_stop hstop]
      constructor
      · rintro rfl
        have ht' := ht.of_moves hd hm (.inr rfl)
        rw [hm.ahead_eq_nil] at ht'
        exact ⟨hm.ahead_eq_nil, ht'⟩
      · rintro rfl
        exact ht.of_finish hm
  | goesOn d c hstop ih =>
      have hm := moves_step hd hf c
      rw [hstop] at hm
      rw [run_of_goesOn hstop, runUses_of_goesOn hstop, ← List.append_assoc]
      exact ih (ht.of_moves hd hm (.inl rfl)) (sound_step hd (.inl hstop)) hm.ne_failed.1

lemma Tally.append (ht : d.Tally [] u) (r : Bytes) : d.Tally r u := by
  rw [Tally] at ht ⊢
  generalize d.phase = phase at ht ⊢
  cases ht with
  | init hu => exact .init hu
  | envelope ho hu => exact .envelope ho hu
  | wrapper ho hw hheld hlen hd hu =>
      rw [List.append_nil] at hd
      exact .wrapper ho hw hheld hlen (Header.decode_append hd r) hu
  | content ho hw hu => exact .content ho hw hu
  | typeTag ho hw hheld hlen hd hu =>
      rw [List.append_nil] at hd
      exact .typeTag ho hw hheld hlen (Header.decode_append hd r) hu
  | fields hv hl hend hu => exact .fields hv hl hend hu
  | opened hv hl hheld hlen hd hpos hpay hle hlist hu =>
      rw [List.append_nil] at hd
      have hd' := Header.decode_append hd r
      rw [List.append_assoc] at hd'
      exact .opened hv hl hheld hlen hd' hpos hpay hle hlist hu

lemma pending_conclude (r : Run) : (conclude r).decoder.pending = r.decoder.pending := by
  rcases r with ⟨d, c, _ | _ | e, log⟩ <;> rfl

lemma Waiting.pending_update (hw : d.Waiting) (hle : chunk.length ≤ d.pending) :
    (d.update chunk).decoder.pending = d.pending - chunk.length := by
  rw [hw.update_eq hle, readChunk, pending_conclude, pending_run]

/-- **Updates tally the bytes that they read**, and one that asks for more input reads all. -/
theorem Tally.of_update (ht : d.Tally [] u) (hw : d.Waiting) (hle : chunk.length ≤ d.pending) :
    ((d.update chunk).result = .ok .needsMoreInput →
      d.unread chunk = [] ∧ (d.update chunk).decoder.Tally [] (u ++ d.usesIn chunk)) ∧
    ((d.update chunk).result = .ok .complete → ∃ frame begun,
      Itemized (d.update chunk).decoder.tx.type frame begun (u ++ d.usesIn chunk) ∧
        IsWhole (d.update chunk).decoder.tx.type begun) := by
  have hupdate : d.update chunk
      = conclude ((d.owing (d.pending - chunk.length)).run (.start chunk)) := hw.update_eq hle
  obtain ⟨hwaits, hends⟩ := (ht.append chunk).of_run (d := d.owing (d.pending - chunk.length))
    (c := .start chunk) (hw.sound.owing _) hw.ne_failed
  rw [usesIn_of_takes (hw.takes hle), unread, hupdate, result_conclude]
  constructor
  · intro h
    obtain ⟨hnil, ht'⟩ := hwaits (Stop.eq_suspend_of_answer h)
    rw [conclude, Stop.eq_suspend_of_answer h]
    exact ⟨hnil, ht'⟩
  · intro h
    rw [conclude, Stop.eq_finish_of_answer h]
    exact hends (Stop.eq_finish_of_answer h)

/-! ### Chunks in a row -/

/-- Until a decoder ends, all bytes that it was given are read, and tallied. -/
lemma tally_after {len : Nat} (h : create len = .ok d) {chunks : List Bytes}
    (hc : (d.after chunks).phase ≠ .complete) (hf : (d.after chunks).phase ≠ .failed) :
    bytesOf (d.usesOf chunks) = chunks.flatten ∧ (d.after chunks).Tally [] (d.usesOf chunks) := by
  refine ((waiting_create h).after_induction (P := fun d' cs => d.after cs = d' ∧
    bytesOf (d.usesOf cs) = cs.flatten ∧ d'.Tally [] (d.usesOf cs)) ?_ ?_ chunks hc hf).2.2
  · obtain ⟨-, rfl⟩ := create_eq_ok_iff.1 h
    exact ⟨rfl, rfl, .init rfl⟩
  · rintro d' cs chunk hw ⟨rfl, hbytes, ht⟩ hle hr
    obtain ⟨hnil, ht'⟩ := (ht.of_update hw hle).1 hr
    have hchunk := bytes_usesIn hw.sound (hw.takes hle)
    rw [hnil, List.append_nil] at hchunk
    rw [usesOf_concat, bytesOf_append, hbytes, hchunk, List.flatten_append, List.flatten_singleton]
    exact ⟨after_concat .., rfl, ht'⟩

/-- What is read of the chunk after some others, of which `len` bytes were declared. -/
structure ReadsOnce (d : Decoder) (len : Nat) (chunks : List Bytes) (chunk : Bytes) : Prop where
  /-- The bytes so far are those that are read, in order, and those of the chunk that are not. -/
  bytes_eq : bytesOf (d.usesOf (chunks ++ [chunk])) ++ (d.after chunks).unread chunk
    = chunks.flatten ++ chunk
  /-- A chunk that asks for more input is read to its end. -/
  waits : ((d.after chunks).update chunk).result = .ok .needsMoreInput →
    (d.after chunks).unread chunk = []
  /-- If the chunk completes the transaction, then the headers and payloads of all fields are read
  and nothing later is. What is unread or still expected is what they have not taken of the declared
  length. -/
  ends : ((d.after chunks).update chunk).result = .ok .complete → ∃ frame begun,
    Itemized (d.after (chunks ++ [chunk])).tx.type frame begun (d.usesOf (chunks ++ [chunk])) ∧
    IsWhole (d.after (chunks ++ [chunk])).tx.type begun ∧
    encodedLength frame begun ≤ len ∧
    ((d.after chunks).unread chunk).length + (d.after (chunks ++ [chunk])).pending
      = len - encodedLength frame begun ∧
    ∀ later, d.usesOf (chunks ++ [chunk] ++ later) = d.usesOf (chunks ++ [chunk])

/-- What is read of a chunk that there is room for. -/
lemma Tally.readsOnce {len : Nat} {chunks : List Bytes}
    (ht : (d.after chunks).Tally [] (d.usesOf chunks)) (hw : (d.after chunks).Waiting)
    (hbytes : bytesOf (d.usesOf chunks) = chunks.flatten)
    (hpending : (d.after chunks).pending + chunks.flatten.length = len)
    (hle : chunk.length ≤ (d.after chunks).pending) : d.ReadsOnce len chunks chunk := by
  have hall : bytesOf (d.usesOf (chunks ++ [chunk])) ++ (d.after chunks).unread chunk
      = chunks.flatten ++ chunk := by
    rw [usesOf_concat, bytesOf_append, hbytes, List.append_assoc,
      bytes_usesIn hw.sound (hw.takes hle)]
  obtain ⟨hwaits, hends⟩ := ht.of_update hw hle
  refine ⟨hall, fun h => (hwaits h).1, fun h => ?_⟩
  obtain ⟨frame, begun, hitems, hwhole⟩ := hends h
  rw [← usesOf_concat, ← after_concat] at hitems
  rw [← after_concat] at hwhole
  have hphase : (d.after (chunks ++ [chunk])).phase = .complete := by
    rw [after_concat]
    exact (phase_update _ _).1 h
  have hexpected : (d.after (chunks ++ [chunk])).pending
      = (d.after chunks).pending - chunk.length := by
    rw [after_concat]
    exact hw.pending_update hle
  have hlength := congrArg List.length hall
  rw [List.length_append, List.length_append, length_bytesOf, hitems.length_eq] at hlength
  refine ⟨frame, begun, hitems, hwhole, by omega, by omega, fun later => ?_⟩
  rw [usesOf_append, usesOf_of_complete hphase, List.append_nil]

/-- **No byte is lost or read twice.** Until a decoder ends, the bytes that it has read are those of
the chunks so far, in order: the headers and payloads of the fields that have begun, as far as they
are there. A further chunk that there is room for is read to its end if the decoder asks for more
input, and if the transaction is decoded, then what is left over is the declared length without the
outer header and all items. -/
theorem every_byte_read_once {len : Nat} (hlen : len ≤ maxLength) :
    ∃ d, create len = .ok d ∧ ∀ chunks : List Bytes,
      (d.after chunks).state ≠ .complete → (d.after chunks).state ≠ .error →
        bytesOf (d.usesOf chunks) = chunks.flatten ∧
        (d.after chunks).Tally [] (d.usesOf chunks) ∧
        ∀ chunk : Bytes, chunk.length ≤ (d.after chunks).pending → d.ReadsOnce len chunks chunk := by
  have hcreate := create_eq hlen
  refine ⟨_, hcreate, fun chunks hc hf => ?_⟩
  have hc' : (after ⟨.init, {}, len, {}⟩ chunks).phase ≠ .complete :=
    fun h => hc (congrArg Phase.state h)
  have hf' : (after ⟨.init, {}, len, {}⟩ chunks).phase ≠ .failed :=
    fun h => hf (congrArg Phase.state h)
  obtain ⟨hbytes, ht⟩ := tally_after hcreate hc' hf'
  obtain ⟨hw, hpending⟩ := pending_after hcreate hc' hf'
  exact ⟨hbytes, ht, fun chunk hle => ht.readsOnce hw hbytes hpending hle⟩

/-- A legacy transaction with a nonce of two bytes, cut within the nonce and followed by a byte, of
which one byte more was declared: the two halves of the nonce are read as payload once each, and two
bytes of 14 are left over. -/
theorem every_byte_read_once_trailing :
    14 ≤ maxLength ∧ ∃ d, create 14 = .ok d ∧
      d.usesOf [[0xcb, 0x82, 0x01]] = [(.header, 0xcb), (.header, 0x82), (.payload, 0x01)] ∧
      (d.after [[0xcb, 0x82, 0x01]]).Tally [] (d.usesOf [[0xcb, 0x82, 0x01]]) ∧
      ∃ frame begun, encodedLength frame begun ≤ 14 ∧
        ((d.after [[0xcb, 0x82, 0x01]]).unread (0x02 :: List.replicate 8 0x80 ++ [0xff])).length
          + (d.after [[0xcb, 0x82, 0x01], 0x02 :: List.replicate 8 0x80 ++ [0xff]]).pending
            = 14 - encodedLength frame begun ∧
        14 - encodedLength frame begun = 2 := by
  have hle : 14 ≤ maxLength := by decide
  obtain ⟨d, hd, hall⟩ := every_byte_read_once hle
  obtain rfl : (⟨.init, {}, 14, {}⟩ : Decoder) = d := Except.ok.inj hd
  have hstate : (after ⟨.init, {}, 14, {}⟩ [[0xcb, 0x82, 0x01]]).state = .fields := by cbv
  obtain ⟨-, htally, hchunk⟩ := hall [[0xcb, 0x82, 0x01]] (by rw [hstate]; decide)
    (by rw [hstate]; decide)
  have hreads := hchunk (0x02 :: List.replicate 8 0x80 ++ [0xff]) (by cbv)
  obtain ⟨frame, begun, -, -, henc, hleft, -⟩ := hreads.ends (by cbv)
  exact ⟨hle, _, hd, by decide +kernel, htally, frame, begun, henc, hleft, hleft.symm.trans (by cbv)⟩

end Decoder

end TxStream
