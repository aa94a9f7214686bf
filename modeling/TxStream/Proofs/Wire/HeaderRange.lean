import TxStream.Proofs.BigEndian
import TxStream.Proofs.Wire.HeaderReading

/-!
Headers are read within bounds, whatever the bytes.

* `Header.InRange`: the length takes thirty-two bits and the header five bytes, as for every header
  that is read (`Header.inRange_of_decode`);
* `PartialHeader.Passes`: what is held, and where, while a header is read byte by byte;
* `PartialHeader.InRange`: there is room for every byte that comes to be held, a byte is given back
  only if it was read from this chunk, and reading never moves back;
* `PartialHeader.inRange_of_canDecode`: that is so whenever the held bytes do not suffice at first.
-/

namespace TxStream

namespace Header

/-- The numbers of a header are small. -/
structure InRange (h : Header) : Prop where
  len_lt : h.len < 2 ^ 32
  offset_le : h.offset ≤ maxLength

lemma inRange_of_decode {b : Bytes} {h : Header} (hd : decode b = .ok h) : h.InRange := by
  rcases isHeader_of_decode hd with ⟨lead, r, rfl, -, rfl⟩ | ⟨s, r, rfl, hs, hoff⟩
  · exact ⟨by decide, by decide⟩
  · rcases h with ⟨len, isList, offset⟩
    cases hs with
    | short hlen => exact ⟨Nat.lt_of_le_of_lt hlen (by decide), hoff.trans_le (Nat.le_add_left 1 4)⟩
    | @long lead digits hpos hle =>
        refine ⟨?_, hoff.trans_le (Nat.succ_le_succ hle)⟩
        calc bigEndian digits < 256 ^ digits.length := bigEndian_lt digits
          _ ≤ 256 ^ 4 := Nat.pow_le_pow_right (by decide) hle

end Header

namespace PartialHeader

variable {p : PartialHeader} {c c' : Cursor} {held : Bytes}

/-- While a header is read from `c` on, `held` is held at `c'`. -/
inductive Passes (p : PartialHeader) (c : Cursor) : Bytes → Cursor → Prop
  | start : Passes p c p.held c
  | next {held : Bytes} {c' c'' : Cursor} {b : UInt8} (h : Passes p c held c')
      (hmore : Header.canDecode held = .ok false) (hnext : c'.next? = some (b, c'')) :
      Passes p c (held ++ [b]) c''

lemma next?_eq_some_iff {b : UInt8} :
    c.next? = some (b, c') ↔ ∃ rest, c.ahead = b :: rest ∧ c' = ⟨b :: c.behind, rest⟩ := by
  rcases c with ⟨behind, _ | ⟨x, ahead⟩⟩
  · simp [Cursor.next?]
  · constructor
    · intro h
      cases h
      exact ⟨ahead, rfl, rfl⟩
    · rintro ⟨rest, heq, rfl⟩
      cases heq
      rfl

/-- Reading goes by the places on the way. -/
lemma Passes.read_eq (h : p.Passes c held c') : p.read c = readFrom held c'.behind c'.ahead := by
  induction h with
  | start => rfl
  | @next held c' c'' b _ hmore hnext ih =>
      obtain ⟨rest, hahead, rfl⟩ := next?_eq_some_iff.1 hnext
      rw [ih, hahead, readFrom_cons hmore]

/-- A place on the way is the first one, or follows another one by a byte. -/
lemma Passes.eq_or_next (h : p.Passes c held c') :
    held = p.held ∧ c' = c ∨ ∃ held₁ c₁ b, p.Passes c held₁ c₁ ∧
      Header.canDecode held₁ = .ok false ∧ c₁.next? = some (b, c') ∧ held = held₁ ++ [b] := by
  cases h with
  | start => exact .inl ⟨rfl, rfl⟩
  | next h hmore hnext => exact .inr ⟨_, _, _, h, hmore, hnext, rfl⟩

/-- A header is read without leaving its bounds. -/
structure InRange (p : PartialHeader) (c : Cursor) : Prop where
  /-- There is room for the bytes that are held. -/
  held_le : ∀ {held c'}, p.Passes c held c' → held.length ≤ Header.maxLength
  /-- There is room for one more if they do not suffice. -/
  held_lt : ∀ {held c'}, p.Passes c held c' → Header.canDecode held = .ok false →
    held.length < Header.maxLength
  /-- A byte that is its own item is given back to the chunk that it was read from. -/
  rewinds : ∀ {held c' h}, p.Passes c held c' → Header.decode held = .ok h → h.isSingle = true →
    ∃ b, held = [b] ∧ c.next? = some (b, c') ∧ 1 ≤ c'.position ∧ c'.rewind 1 = c
  /-- Reading does not move back, nor out of the chunk. -/
  forward : c.position ≤ (p.read c).cursor.position
  chunk_eq : (p.read c).cursor.chunk = c.chunk
  /-- What is read is small. -/
  header : ∀ {h}, (p.read c).result = .ok (some h) → h.InRange
  /-- The check for room never fails. -/
  no_overflow : (p.read c).result ≠ .error .headerOverflow

/-- **A header is read within bounds**, if what is held does not suffice at first. -/
theorem inRange_of_canDecode (hp : Header.canDecode p.held = .ok false) (c : Cursor) :
    p.InRange c := by
  have hlt : ∀ {held}, Header.canDecode held = .ok false → held.length < Header.maxLength :=
    fun h => Nat.lt_succ_of_le (Header.length_le_of_canDecode_eq_false h)
  refine ⟨fun h => ?_, fun _ => hlt, fun {held c' h'} h hdec hsingle => ?_, ?_, chunk_read p c, ?_,
    ?_⟩
  · rcases h.eq_or_next with ⟨rfl, -⟩ | ⟨held₁, c₁, b, -, hmore, -, rfl⟩
    · exact (hlt hp).le
    · rw [List.length_append, List.length_singleton]
      exact hlt hmore
  · rcases h.eq_or_next with ⟨rfl, -⟩ | ⟨held₁, c₁, b, h₁, hmore, hnext, rfl⟩
    · rw [Header.canDecode_eq_true_iff.2 ⟨_, hdec⟩] at hp
      cases hp
    · -- the byte is the first one that is read, since more bytes are no item of their own
      have hoff : h'.offset = 0 := by simpa [Header.isSingle] using hsingle
      obtain rfl : held₁ = [] := by
        rcases Header.length_lt_offset hmore hdec with ⟨rfl, -⟩ | hlen
        · rfl
        · omega
      obtain rfl : c₁ = c := by
        rcases h₁.eq_or_next with ⟨-, hc⟩ | ⟨held₂, c₂, b', -, -, -, heq⟩
        · exact hc
        · simp at heq
      refine ⟨b, rfl, hnext, ?_, Cursor.rewind_next c₁ hnext⟩
      obtain ⟨rest, -, rfl⟩ := next?_eq_some_iff.1 hnext
      exact Nat.le_add_left ..
  · rw [read_eq hp, Cursor.position_take]
    exact Nat.le_add_right ..
  · intro h hr
    rw [read_eq hp] at hr
    exact Header.inRange_of_decode (decode_of_scan hr)
  · rw [read_eq hp]
    rcases scan_cases p.held c.ahead with ⟨h, hd⟩ | hc | ⟨e, he⟩
    · rw [scan_of_decode hd]
      simp
    · rw [scan_of_partial hc]
      simp
    · obtain rfl := Header.eq_invalidHeader_of_canDecode he
      rw [scan_of_refused he]
      simp

end PartialHeader

end TxStream
