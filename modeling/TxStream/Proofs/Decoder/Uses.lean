import TxStream.Proofs.Decoder.Progress

/-!
What becomes of the bytes of a chunk. A step reads bytes as a header and as payload, and the cursor
moves over them; bytes that are only looked at, and a byte that is given back, are not among them.

* `Cursor.Reads`: a cursor after further bytes;
* `Decoder.uses`: the bytes that a step reads, each with its role;
* `Decoder.usesIn`, `Decoder.usesOf`: those of an update, and of chunks in a row;
* `Decoder.unread`: the bytes that are ahead where an update ends;
* `Decoder.bytes_usesIn`: the bytes of a chunk are those that are read, in order and each once, and
  those that are not, whatever the chunk comes to.
-/

namespace TxStream

/-- What a byte is read as. -/
inductive Role where
  /-- A byte of a header. -/
  | header
  /-- A byte of payload. -/
  | payload
deriving DecidableEq

/-- A byte that is read, with its role. -/
abbrev Use := Role × UInt8

/-- Bytes that are read in one role. -/
def Role.uses (r : Role) (b : Bytes) : List Use := b.map fun x => (r, x)

/-- The bytes that are read, whatever their roles. -/
def bytesOf (u : List Use) : Bytes := u.map Prod.snd

/-- The cursor `c'` is `c` after the bytes `b`. -/
structure Cursor.Reads (c : Cursor) (b : Bytes) (c' : Cursor) : Prop where
  ahead : c.ahead = b ++ c'.ahead
  position : c'.position = c.position + b.length

namespace Decoder

/-- How many bytes a step may read as a header: those that reading a header takes, if no field is
open. -/
def headerBytes (d : Decoder) (c : Cursor) : Nat :=
  match d.phase with
  | .fields _ (some _) _ => 0
  | _ => (d.partialHeader.read c).cursor.position - c.position

/-- The bytes that a step from `c` to `c'` reads. Those that are no header are payload. -/
def usesTo (d : Decoder) (c c' : Cursor) : List Use :=
  let read := c.ahead.take (c'.position - c.position)
  Role.header.uses (read.take (d.headerBytes c)) ++ Role.payload.uses (read.drop (d.headerBytes c))

/-- The bytes that a step reads. -/
def uses (d : Decoder) (c : Cursor) : List Use := d.usesTo c (d.step c).cursor

/-- The bytes that the steps of a run read. -/
def runUses (d : Decoder) (c : Cursor) : List Use := (d.trail c).flatMap fun p => p.1.uses p.2

/-- The bytes that an update reads. -/
def usesIn (d : Decoder) (chunk : Bytes) : List Use :=
  (d.places chunk).flatMap fun p => p.1.uses p.2

/-- The bytes that are read of chunks in a row. -/
def usesOf (d : Decoder) : List Bytes → List Use
  | [] => []
  | chunk :: rest => d.usesIn chunk ++ (d.update chunk).decoder.usesOf rest

/-- The bytes of a chunk that are ahead where the steps within it end. -/
def unread (d : Decoder) (chunk : Bytes) : Bytes :=
  ((d.owing (d.pending - chunk.length)).run (.start chunk)).cursor.ahead

end Decoder

@[simp] lemma Role.uses_nil (r : Role) : r.uses [] = [] := rfl

lemma Role.uses_append (r : Role) (a b : Bytes) : r.uses (a ++ b) = r.uses a ++ r.uses b :=
  List.map_append

@[simp] lemma bytesOf_append (u v : List Use) : bytesOf (u ++ v) = bytesOf u ++ bytesOf v :=
  List.map_append

@[simp] lemma bytesOf_uses (r : Role) (b : Bytes) : bytesOf (r.uses b) = b := by
  rw [bytesOf, Role.uses, List.map_map]
  exact List.map_id b

@[simp] lemma length_bytesOf (u : List Use) : (bytesOf u).length = u.length :=
  List.length_map ..

/-! ### Cursors -/

namespace Cursor

variable {c c' c'' : Cursor} {a b : Bytes}

namespace Reads

lemma refl (c : Cursor) : c.Reads [] c := ⟨rfl, rfl⟩

lemma take (c : Cursor) (n : Nat) : c.Reads (c.ahead.take n) (c.take n).2 :=
  ⟨(c.take_append_ahead n).symm, c.position_take n⟩

lemma trans (h : c.Reads a c') (h' : c'.Reads b c'') : c.Reads (a ++ b) c'' := by
  refine ⟨by rw [h.ahead, h'.ahead, List.append_assoc], ?_⟩
  rw [h'.position, h.position, List.length_append, Nat.add_assoc]

/-- The bytes that are read are found again by how far the cursor has moved. -/
lemma take_position (h : c.Reads b c') : c.ahead.take (c'.position - c.position) = b := by
  rw [h.position, Nat.add_sub_cancel_left, h.ahead, List.take_left]

end Reads

end Cursor

lemma PartialHeader.reads_read {p : PartialHeader} (hp : Header.canDecode p.held = .ok false)
    (c : Cursor) : c.Reads (c.ahead.take (scan p.held c.ahead).taken) (p.read c).cursor := by
  rw [read_eq hp]
  exact .take c _

namespace Decoder

variable {d d' : Decoder} {c c' : Cursor} {b chunk : Bytes}

/-! ### Steps -/

lemma exists_reads_readPayload (d : Decoder) (c : Cursor) (e : Entry) (rest : List Entry)
    (f : OpenField) (budget : Option Nat) :
    ∃ b, c.Reads b (d.readPayload c e rest f budget).cursor := by
  have htake : ∀ piece c₁, c.take f.remaining = (piece, c₁) → ∃ b, c.Reads b c₁ := by
    rintro piece c₁ h
    cases h
    exact ⟨_, .take c f.remaining⟩
  fun_cases readPayload d c e rest f budget with
  | case1 _ piece c₁ h => exact htake piece c₁ h
  | case2 _ piece c₁ h => exact htake piece c₁ h
  | case3 _ piece c₁ h => exact htake piece c₁ h
  | case4 _ piece c₁ h => exact htake piece c₁ h
  | case5 => exact ⟨[], .refl c⟩

lemma exists_reads_readField (hheld : Header.canDecode d.partialHeader.held = .ok false)
    (c : Cursor) (e : Entry) (rest : List Entry) (budget : Option Nat) :
    ∃ b, c.Reads b (d.readField c e rest budget).cursor := by
  have hread := PartialHeader.reads_read hheld c
  fun_cases readField d c e rest budget with
  | case5 r d' budget' _ h _ tx _ =>
      obtain ⟨b, hb⟩ := exists_reads_readPayload { d' with tx := tx } r.cursor e rest ⟨h, 0⟩ budget'
      exact ⟨_, hread.trans hb⟩
  | _ => exact ⟨_, hread⟩

lemma cursor_enter (d : Decoder) (c : Cursor) (t : TxType) (h : Header) (budget : Option Nat) :
    (d.enter c t h budget).cursor = c := by
  fun_cases enter d c t h budget <;> rfl

lemma exists_reads_withHeader {go : Decoder → Cursor → Header → Step}
    (hheld : Header.canDecode d.partialHeader.held = .ok false)
    (hgo : ∀ d₁ c₁ h, (go d₁ c₁ h).cursor = c₁) (c : Cursor) :
    ∃ b, c.Reads b (d.withHeader c go).cursor := by
  have hread := PartialHeader.reads_read hheld c
  fun_cases withHeader d c go with
  | case3 =>
      rw [hgo]
      exact ⟨_, hread⟩
  | _ => exact ⟨_, hread⟩

/-- **A step only reads on**, whatever it comes to. -/
theorem exists_reads_step (hd : d.Sound) (c : Cursor) : ∃ b, c.Reads b (d.step c).cursor := by
  fun_cases step d c with
  | case1 => exact exists_reads_withHeader hd.held (fun d₁ c₁ h => by split <;> rfl) c
  | case2 =>
      refine exists_reads_withHeader hd.held (fun d₁ c₁ h => ?_) c
      split_ifs
      · rfl
      · exact cursor_enter ..
      · rfl
  | case5 => exact ⟨[], (cursor_enter ..).symm ▸ .refl c⟩
  | case6 => exact exists_reads_withHeader hd.held (fun d₁ c₁ h => by split <;> rfl) c
  | case9 => exact ⟨[], (cursor_enter ..).symm ▸ .refl c⟩
  | case10 todo current budget =>
      fun_cases readFields d c todo current budget with
      | case2 e rest f => exact exists_reads_readPayload d c e rest f budget
      | case5 e rest => exact exists_reads_readField hd.held c e rest none
      | case6 e rest => exact exists_reads_readField hd.held c e rest budget
      | _ => exact ⟨[], .refl c⟩
  | _ => exact ⟨[], .refl c⟩

/-- The first bytes that a step reads are those of a header. -/
lemma usesTo_of_reads {header payload : Bytes} (h : c.Reads (header ++ payload) c')
    (hlen : d.headerBytes c = header.length) :
    d.usesTo c c' = Role.header.uses header ++ Role.payload.uses payload := by
  rw [usesTo, h.take_position, hlen]
  simp only [List.take_left, List.drop_left]

lemma usesTo_of_header (h : c.Reads b c') (hlen : d.headerBytes c = b.length) :
    d.usesTo c c' = Role.header.uses b := by
  rw [← List.append_nil b] at h
  rw [usesTo_of_reads h hlen, Role.uses_nil, List.append_nil]

lemma usesTo_of_payload (h : c.Reads b c') (hlen : d.headerBytes c = 0) :
    d.usesTo c c' = Role.payload.uses b := by
  rw [← List.nil_append b] at h
  exact usesTo_of_reads h hlen

@[simp] lemma usesTo_self (d : Decoder) (c : Cursor) : d.usesTo c c = [] := by
  simp [usesTo]

/-- **The bytes ahead are those that a step reads, and those that are ahead after it.** -/
theorem bytes_uses (hd : d.Sound) (c : Cursor) :
    bytesOf (d.uses c) ++ (d.step c).cursor.ahead = c.ahead := by
  obtain ⟨b, hb⟩ := exists_reads_step hd c
  rw [uses, usesTo, hb.take_position, bytesOf_append, bytesOf_uses, bytesOf_uses,
    List.take_append_drop, ← hb.ahead]

/-! ### Runs and updates -/

lemma runUses_of_stop {stop : Stop} (h : (d.step c).stop? = some stop) :
    d.runUses c = d.uses c := by
  rw [runUses, trail_of_stop h, List.flatMap_singleton]

lemma runUses_of_goesOn (h : (d.step c).stop? = none) :
    d.runUses c = d.uses c ++ (d.step c).decoder.runUses (d.step c).cursor := by
  rw [runUses, trail_of_goesOn h, List.flatMap_cons]
  rfl

lemma bytes_runUses (hd : d.Sound) (c : Cursor) :
    bytesOf (d.runUses c) ++ (d.run c).cursor.ahead = c.ahead := by
  induction d, c using run_induction with
  | stop d c stop hstop =>
      rw [runUses_of_stop hstop, run_of_stop hstop]
      exact bytes_uses hd c
  | goesOn d c hstop ih =>
      rw [runUses_of_goesOn hstop, run_of_goesOn hstop, bytesOf_append, List.append_assoc]
      dsimp only
      rw [ih (sound_step hd (.inl hstop))]
      exact bytes_uses hd c

lemma usesIn_of_takes (ht : d.Takes chunk) :
    d.usesIn chunk = (d.owing (d.pending - chunk.length)).runUses (.start chunk) := by
  rw [usesIn, places_of_takes ht]
  rfl

/-- **The bytes of a chunk are those that are read, and those that are not.** -/
theorem bytes_usesIn (hd : d.Sound) (ht : d.Takes chunk) :
    bytesOf (d.usesIn chunk) ++ d.unread chunk = chunk := by
  rw [usesIn_of_takes ht]
  exact bytes_runUses (hd.owing _) (.start chunk)

/-! ### Chunks in a row -/

lemma usesOf_append (d : Decoder) (as bs : List Bytes) :
    d.usesOf (as ++ bs) = d.usesOf as ++ (d.after as).usesOf bs := by
  induction as generalizing d with
  | nil => rfl
  | cons a as ih =>
      rw [List.cons_append, usesOf, usesOf, ih, List.append_assoc]
      rfl

lemma usesOf_concat (d : Decoder) (chunks : List Bytes) (chunk : Bytes) :
    d.usesOf (chunks ++ [chunk]) = d.usesOf chunks ++ (d.after chunks).usesIn chunk := by
  rw [usesOf_append, usesOf, usesOf, List.append_nil]

lemma usesOf_of_complete (h : d.phase = .complete) (chunks : List Bytes) : d.usesOf chunks = [] := by
  induction chunks with
  | nil => rfl
  | cons chunk chunks ih =>
      rw [usesOf, update_of_complete h, ih, usesIn, places, if_pos (.inl h)]
      rfl

end Decoder

end TxStream
