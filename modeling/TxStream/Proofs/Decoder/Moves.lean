import TxStream.Proofs.Decoder.Invariant

/-!
What a step of a decoder can do, one case at a time. Invariants are proved by going through these
cases, so that no other proof takes a step apart.

* `Decoder.Pays`: what payload of an open field comes to, if it is not refused;
* `Decoder.Enters`: the three ways into the fields of a transaction;
* `Decoder.Moves`: a step, with one constructor for each thing that it can do;
* `Decoder.moves_step`: every step of a sound decoder that has not failed is one of these.
-/

namespace TxStream

/-- A cause of failure that lies in the bytes. The others are a declared length that is not kept,
input that ends early, and a decoder that is not in order. -/
def DecodeError.OfBytes : DecodeError → Prop
  | .invalidLength => False
  | .headerOverflow => False
  | .incomplete => False
  | .invalidState => False
  | _ => True

/-- A phase among the fields in which nothing is counted: there is no budget, or the chain is
awaited with none of it left. -/
def Phase.Uncounted : Phase → Prop
  | .fields _ _ none => True
  | .fields (e :: _) none (some m) => e.field = .chainId ∧ m = 0
  | _ => False

/-- The budget from which a field is paid: from the chain on nothing is counted. -/
def Entry.counted (e : Entry) (budget : Option Nat) : Option Nat :=
  if e.field = .chainId then none else budget

/-- A header is awaited in a phase, which becomes another one when `n` more bytes of it are held. -/
inductive Phase.Holds (n : Nat) : Phase → Phase → Prop
  | init : Holds n .init .init
  | envelope : Holds n .envelope .envelope
  | content {item : Header} : Holds n (.content item) (.content item)
  | fields {e : Entry} {rest : List Entry} {budget budget' : Option Nat}
      (hs : spend (e.counted budget) n = .ok budget') :
      Holds n (.fields (e :: rest) none budget) (.fields (e :: rest) none budget')

namespace Decoder

/-- The decoder without any bytes of an unfinished header. -/
def released (d : Decoder) : Decoder := { d with partialHeader := {} }

/-- The decoder with further bytes of an unfinished header. -/
def holding (d : Decoder) (b : Bytes) : Decoder :=
  { d with partialHeader := ⟨d.partialHeader.held ++ b⟩ }

/-- The position after a header of which some bytes are held. -/
def past (d : Decoder) (c : Cursor) (h : Header) : Cursor :=
  (c.take (h.offset - d.partialHeader.held.length)).2

/-- If no bytes are held, the whole header is taken from those ahead. -/
lemma ahead_past_of_nil {d : Decoder} (hheld : d.partialHeader.held = []) (c : Cursor)
    (h : Header) : (d.past c h).ahead = c.ahead.drop h.offset := by
  rw [past, Cursor.ahead_take, hheld, List.length_nil, Nat.sub_zero]

/-- What payload of the open field `f`, the first of `e :: rest`, comes to. -/
inductive Pays (d : Decoder) (c : Cursor) (e : Entry) (rest : List Entry) (f : OpenField)
    (budget : Option Nat) : Decoder → Cursor → Option Stop → Prop
  /-- A list is entered. -/
  | list (hk : e.kind = .list) : Pays d c e rest f budget (d.among rest none budget) c none
  /-- The payload is read to its end. -/
  | closes {budget' : Option Nat} {tx : Transaction} (hk : e.kind ≠ .list)
      (hle : f.remaining ≤ c.ahead.length) (hs : spend budget f.remaining = .ok budget')
      (ha : e.kind.apply e.field f.header f.position (c.ahead.take f.remaining) d.tx = .ok tx) :
      Pays d c e rest f budget ({ d with tx := tx }.among rest none budget')
        (c.take f.remaining).2 none
  /-- The payload goes on after the chunk. -/
  | waits {budget' : Option Nat} {tx : Transaction} (hk : e.kind ≠ .list)
      (hlt : c.ahead.length < f.remaining) (hs : spend budget c.ahead.length = .ok budget')
      (ha : e.kind.apply e.field f.header f.position c.ahead d.tx = .ok tx) :
      Pays d c e rest f budget
        ({ d with tx := tx }.among (e :: rest)
          (some ⟨f.header, f.position + c.ahead.length⟩) budget')
        (c.take f.remaining).2 (some .suspend)

/-- The fields of a transaction are entered, with a header that is already read. -/
inductive Enters (d : Decoder) (c : Cursor) : Decoder → Cursor → TxType → Header → Option Nat → Prop
  /-- A first item without a header or a payload is a nonce. -/
  | short {h : Header} (hphase : d.phase = .envelope)
      (hdec : Header.decode (d.partialHeader.held ++ c.ahead) = .ok h) (hstring : h.isList = false)
      (hshort : (h.isSingle || h.len == 0) = true) :
      Enters d c d.released (d.past c h) .legacy h none
  /-- So is one that does not begin like a list. -/
  | plain {item : Header} {x : UInt8} (hphase : d.phase = .wrapper item) (hx : c.peek? = some x)
      (hlt : x.toNat < listLead) : Enters d c d c .legacy item none
  /-- The tag of typed content tells its type. -/
  | typed {list : Header} {tag : UInt8} {t : TxType} (hphase : d.phase = .typeTag list)
      (htag : c.peek? = some tag) (ht : TxType.ofTag? tag = some t) :
      Enters d c d c t list (some list.len)

/-- What a step can do. -/
inductive Moves (d : Decoder) (c : Cursor) : Decoder → Cursor → Option Stop → Prop
  /-- The header that is awaited goes on after the chunk. -/
  | holds {phase : Phase} (hphase : d.phase.Holds c.ahead.length phase)
      (hcan : Header.canDecode (d.partialHeader.held ++ c.ahead) = .ok false) :
      Moves d c { d.holding c.ahead with phase := phase } (c.take c.ahead.length).2 (some .suspend)
  /-- There is no byte to look at. -/
  | peeks (hphase : (∃ item, d.phase = .wrapper item) ∨ ∃ list, d.phase = .typeTag list)
      (hend : c.ahead = []) : Moves d c d c (some .suspend)
  /-- The outer list begins. -/
  | outer {h : Header} (hphase : d.phase = .init)
      (hdec : Header.decode (d.partialHeader.held ++ c.ahead) = .ok h) (hlist : h.isList = true) :
      Moves d c { d.released with phase := .envelope } (d.past c h) none
  /-- The first item may wrap typed content. -/
  | wraps {h : Header} (hphase : d.phase = .envelope)
      (hdec : Header.decode (d.partialHeader.held ++ c.ahead) = .ok h) (hstring : h.isList = false)
      (hlong : (h.isSingle || h.len == 0) = false) :
      Moves d c { d.released with phase := .wrapper h } (d.past c h) none
  /-- It does. -/
  | lists {item : Header} {x : UInt8} (hphase : d.phase = .wrapper item) (hx : c.peek? = some x)
      (hle : listLead ≤ x.toNat) : Moves d c { d with phase := .content item } c none
  /-- The content fills its item. -/
  | fills {item h : Header} (hphase : d.phase = .content item)
      (hdec : Header.decode (d.partialHeader.held ++ c.ahead) = .ok h)
      (hlen : h.len + h.offset = item.len) :
      Moves d c { d.released with phase := .typeTag h } (d.past c h) none
  /-- The first field is opened with a header that is already read. -/
  | enters {d₁ : Decoder} {c₁ : Cursor} {t : TxType} {h : Header} {budget : Option Nat} {e : Entry}
      {rest : List Entry} {tx : Transaction} (he : d.Enters c d₁ c₁ t h budget)
      (hl : t.layout = e :: rest) (ha : e.accept h { d.tx with type := t } = .ok tx) :
      Moves d c ({ d₁ with tx := tx }.among (e :: rest) (some ⟨h, 0⟩) budget) c₁ none
  /-- The open field is read on. -/
  | pays {e : Entry} {rest : List Entry} {f : OpenField} {budget : Option Nat} {d₁ : Decoder}
      {c₁ : Cursor} {stop? : Option Stop} (hphase : d.phase = .fields (e :: rest) (some f) budget)
      (hp : d.Pays c e rest f budget d₁ c₁ stop?) : Moves d c d₁ c₁ stop?
  /-- A field is opened by its header, and read. -/
  | opens {e : Entry} {rest : List Entry} {h : Header} {budget budget' : Option Nat}
      {tx : Transaction} {d₁ : Decoder} {c₁ : Cursor} {stop? : Option Stop}
      (hphase : d.phase = .fields (e :: rest) none budget)
      (hchain : e.field = .chainId → budget.getD 0 = 0)
      (hdec : Header.decode (d.partialHeader.held ++ c.ahead) = .ok h)
      (hs : spend (e.counted budget) (h.offset - d.partialHeader.held.length) = .ok budget')
      (ha : e.accept h d.tx = .ok tx)
      (hp : { d.released with tx := tx }.Pays (d.past c h) e rest ⟨h, 0⟩ budget' d₁ c₁ stop?) :
      Moves d c d₁ c₁ stop?
  /-- After the last field the transaction is decoded. -/
  | ends {budget : Option Nat} (hphase : d.phase = .fields [] none budget) :
      Moves d c d c (some .finish)
  /-- A legacy transaction ends before its chain. -/
  | early {e : Entry} {rest : List Entry} {budget : Option Nat}
      (hphase : d.phase = .fields (e :: rest) none budget) (hchain : e.field = .chainId)
      (hend : d.endsBeforeChain c = true) :
      Moves d c (d.among (e :: rest) none none) c (some .finish)
  /-- A transaction that is decoded stays so. -/
  | complete (hphase : d.phase = .complete) : Moves d c d c (some .finish)
  /-- The bytes are refused. -/
  | fails {d₁ : Decoder} {c₁ : Cursor} {err : DecodeError} (hbytes : err.OfBytes)
      (hcounts : err = .contentLength → ¬d.phase.Uncounted) : Moves d c d₁ c₁ (some (.fail err))

variable {d : Decoder} {c : Cursor}

/-! ### Payload and headers -/

/-- What payload comes to, unless it exceeds the budget. -/
lemma pays_readPayload {e : Entry} {f : OpenField} (rest : List Entry) (budget : Option Nat)
    (ho : e.Opened f d.tx) :
    d.Pays c e rest f budget (d.readPayload c e rest f budget).decoder
        (d.readPayload c e rest f budget).cursor (d.readPayload c e rest f budget).stop? ∨
      (d.readPayload c e rest f budget).stop? = some (.fail .contentLength) ∧ budget ≠ none := by
  rcases readPayload_cases d c rest budget ho with ⟨hk, heq⟩ | ⟨hk, err, hs, heq⟩ |
      ⟨hk, hle, budget', tx', hs, ha, heq⟩ | ⟨hk, hlt, budget', tx', hs, ha, -, heq⟩ <;>
    rw [heq]
  · exact .inl (.list hk)
  · obtain rfl := spend_eq_error hs
    refine .inr ⟨rfl, ?_⟩
    rintro rfl
    cases hs
  · exact .inl (.closes hk hle hs ha)
  · exact .inl (.waits hk hlt hs ha)

lemma scanned_of_decode {h : Header}
    (hdec : Header.decode (d.partialHeader.held ++ c.ahead) = .ok h) :
    d.scanned c.ahead = d.released := by
  rw [scanned, PartialHeader.scan_of_decode hdec]
  rfl

lemma passed_of_decode {h : Header}
    (hdec : Header.decode (d.partialHeader.held ++ c.ahead) = .ok h) : d.passed c = d.past c h := by
  rw [passed, PartialHeader.scan_of_decode hdec]
  rfl

lemma scanned_of_partial (hcan : Header.canDecode (d.partialHeader.held ++ c.ahead) = .ok false) :
    d.scanned c.ahead = d.holding c.ahead := by
  rw [scanned, PartialHeader.scan_of_partial hcan]
  rfl

lemma passed_of_partial (hcan : Header.canDecode (d.partialHeader.held ++ c.ahead) = .ok false) :
    d.passed c = (c.take c.ahead.length).2 := by
  rw [passed, PartialHeader.scan_of_partial hcan]

/-- A header that does not fit its field is refused for what it announces. -/
lemma ofBytes_of_accept {e : Entry} {h : Header} {tx : Transaction} {err : DecodeError}
    (ha : e.accept h tx = .error err) : err.OfBytes ∧ err ≠ .contentLength := by
  rw [Entry.accept] at ha
  split at ha
  · next hc =>
    cases ha
    rw [Kind.check, Kind.checkLength] at hc
    split_ifs at hc
    · cases hc
      exact ⟨trivial, by simp⟩
    · cases hc
      exact ⟨trivial, by simp⟩
    · cases hc
      exact ⟨trivial, by simp⟩
    · split at hc
      · split_ifs at hc
        cases hc
        exact ⟨trivial, by simp⟩
      · cases hc
  · cases ha

/-- A header outside of the fields is read, is not there yet, or is refused. -/
lemma moves_withHeader {go : Decoder → Cursor → Header → Step}
    (hheld : Header.canDecode d.partialHeader.held = .ok false)
    (hphase : ∀ n, d.phase.Holds n d.phase)
    (hgo : ∀ h, Header.decode (d.partialHeader.held ++ c.ahead) = .ok h →
      d.Moves c (go d.released (d.past c h) h).decoder (go d.released (d.past c h) h).cursor
        (go d.released (d.past c h) h).stop?) :
    d.Moves c (d.withHeader c go).decoder (d.withHeader c go).cursor (d.withHeader c go).stop? := by
  rw [withHeader_eq hheld]
  rcases PartialHeader.scan_cases d.partialHeader.held c.ahead with ⟨h, hdec⟩ | hcan | ⟨e, he⟩
  · rw [scanned_of_decode hdec, passed_of_decode hdec, PartialHeader.scan_of_decode hdec]
    exact hgo h hdec
  · rw [scanned_of_partial hcan, passed_of_partial hcan, PartialHeader.scan_of_partial hcan]
    exact .holds (hphase _) hcan
  · obtain rfl := Header.eq_invalidHeader_of_canDecode he
    rw [PartialHeader.scan_of_refused he]
    exact .fails trivial (by simp)

/-! ### The fields -/

/-- The fields are entered, or the header that is already read does not fit the first of them. -/
lemma moves_enter {d₁ : Decoder} {c₁ : Cursor} {t : TxType} {h : Header} {budget : Option Nat}
    (he : d.Enters c d₁ c₁ t h budget) (htx : d₁.tx = d.tx) :
    d.Moves c (d₁.enter c₁ t h budget).decoder (d₁.enter c₁ t h budget).cursor
      (d₁.enter c₁ t h budget).stop? := by
  rw [enter, htx]
  rcases hl : t.layout with _ | ⟨e, rest⟩
  · exact absurd hl t.layout_ne_nil
  dsimp only
  rcases ha : e.accept h { d.tx with type := t } with err | tx
  · obtain ⟨hbytes, hne⟩ := ofBytes_of_accept ha
    exact .fails hbytes fun h => absurd h hne
  · exact .enters he hl ha

/-- A field is opened and read, its header is not there yet, or it is refused. -/
lemma moves_readField {e : Entry} {rest : List Entry} {budget : Option Nat}
    (hheld : Header.canDecode d.partialHeader.held = .ok false)
    (hphase : d.phase = .fields (e :: rest) none budget)
    (hchain : e.field = .chainId → budget.getD 0 = 0) (hw : e.Awaits d.tx) :
    d.Moves c (d.readField c e rest (e.counted budget)).decoder
      (d.readField c e rest (e.counted budget)).cursor
      (d.readField c e rest (e.counted budget)).stop? := by
  -- a decoder that counts bytes against a budget has not come to where nothing is counted
  have hcounts : e.counted budget ≠ none → ¬d.phase.Uncounted := by
    rw [hphase, Entry.counted]
    split_ifs with hfield
    · exact fun h => absurd rfl h
    · cases budget with
      | none => exact fun h => absurd rfl h
      | some m => exact fun _ h => hfield h.1
  have hspend : ∀ n err, spend (e.counted budget) n = .error err →
      ∀ d₁ c₁, d.Moves c d₁ c₁ (some (.fail err)) := by
    intro n err hs d₁ c₁
    obtain rfl := spend_eq_error hs
    refine .fails trivial fun _ => hcounts fun hnone => ?_
    rw [hnone] at hs
    cases hs
  rw [readField_eq hheld]
  rcases hs : spend (e.counted budget) (PartialHeader.scan d.partialHeader.held c.ahead).taken with
    err | budget'
  · exact hspend _ err hs _ _
  dsimp only
  rcases PartialHeader.scan_cases d.partialHeader.held c.ahead with ⟨h, hdec⟩ | hcan | ⟨err, he⟩
  · rw [PartialHeader.scan_of_decode hdec] at hs ⊢
    rw [scanned_of_decode hdec, passed_of_decode hdec]
    dsimp only at hs ⊢
    rcases ha : e.accept h d.tx with err | tx
    · obtain ⟨hbytes, hne⟩ := ofBytes_of_accept ha
      exact .fails hbytes fun h => absurd h hne
    · have ho : e.Opened ⟨h, 0⟩ { d.released with tx := tx }.tx := Entry.opened_of_accept hw ha
      rcases pays_readPayload (c := d.past c h) rest budget' ho with hp | ⟨hstop, hne⟩
      · exact .opens hphase hchain hdec hs ha hp
      · have hfail : ({ d.released with tx := tx }.readPayload (d.past c h) e rest ⟨h, 0⟩ budget'
            |>.after (e.acceptanceLog h)).stop? = some (.fail .contentLength) := hstop
        rw [hfail]
        refine .fails trivial fun _ => hcounts fun hnone => hne ?_
        rw [hnone] at hs
        cases hs
        rfl
  · rw [PartialHeader.scan_of_partial hcan] at hs ⊢
    rw [scanned_of_partial hcan, passed_of_partial hcan]
    have hholds : d.phase.Holds c.ahead.length (.fields (e :: rest) none budget') :=
      hphase ▸ .fields hs
    exact .holds hholds hcan
  · obtain rfl := Header.eq_invalidHeader_of_canDecode he
    rw [PartialHeader.scan_of_refused he]
    exact .fails trivial (by simp)

lemma moves_readFields {todo : List Entry} {current : Option OpenField} {budget : Option Nat}
    (hheld : Header.canDecode d.partialHeader.held = .ok false)
    (hphase : d.phase = .fields todo current budget) (hs : d.phase.Sound d.tx) :
    d.Moves c (d.readFields c todo current budget).decoder
      (d.readFields c todo current budget).cursor (d.readFields c todo current budget).stop? := by
  rw [hphase] at hs
  rcases todo with _ | ⟨e, rest⟩ <;> rcases current with _ | f
  · exact .ends hphase
  · exact hs.elim
  · have hw : e.Awaits d.tx := hs.2 e List.mem_cons_self
    have hread := fun hchain => moves_readField (c := c) hheld hphase hchain hw
    rw [Entry.counted] at hread
    simp only [readFields]
    by_cases hchain : e.field = .chainId
    · rw [if_pos hchain] at hread ⊢
      by_cases hbudget : budget.getD 0 ≠ 0
      · rw [if_pos hbudget]
        refine .fails trivial fun _ => ?_
        rw [hphase]
        cases budget with
        | none => exact absurd rfl hbudget
        | some m => exact fun h => hbudget h.2
      · rw [if_neg hbudget]
        by_cases hend : d.endsBeforeChain c = true
        · rw [if_pos hend]
          exact .early hphase hchain hend
        · rw [if_neg hend]
          exact hread fun _ => not_not.1 hbudget
    · rw [if_neg hchain] at hread ⊢
      exact hread fun h => absurd h hchain
  · simp only [readFields]
    rcases pays_readPayload (c := c) rest budget hs.2.1 with hp | ⟨hstop, hne⟩
    · exact .pays hphase hp
    · rw [hstop]
      refine .fails trivial fun _ => ?_
      rw [hphase]
      cases budget with
      | none => exact absurd rfl hne
      | some m => exact id

/-- **A step does one of these things**, if the decoder is sound and has not failed. -/
theorem moves_step (hd : d.Sound) (hf : d.phase ≠ .failed) (c : Cursor) :
    d.Moves c (d.step c).decoder (d.step c).cursor (d.step c).stop? := by
  rw [step]
  rcases hp : d.phase with _ | _ | item | item | list | ⟨todo, current, budget⟩ | _ | _
  · refine moves_withHeader hd.held (fun n => hp ▸ .init) fun h hdec => ?_
    split_ifs with hlist
    · exact .outer hp hdec hlist
    · exact .fails trivial (by simp)
  · refine moves_withHeader hd.held (fun n => hp ▸ .envelope) fun h hdec => ?_
    split_ifs with hlist hshort
    · exact .fails trivial (by simp)
    · exact moves_enter (.short hp hdec (by simpa using hlist) hshort) rfl
    · exact .wraps hp hdec (by simpa using hlist) (by simpa using hshort)
  · rcases hx : c.peek? with _ | x
    · exact .peeks (.inl ⟨item, hp⟩) (List.head?_eq_none_iff.1 hx)
    · dsimp only
      split_ifs with hle
      · exact .lists hp hx hle
      · exact moves_enter (.plain hp hx (Nat.not_le.1 hle)) rfl
  · refine moves_withHeader hd.held (fun n => hp ▸ .content) fun h hdec => ?_
    split_ifs with hlen
    · exact .fills hp hdec hlen
    · refine .fails trivial fun _ => ?_
      rw [hp]
      exact id
  · rcases hx : c.peek? with _ | tag
    · exact .peeks (.inr ⟨list, hp⟩) (List.head?_eq_none_iff.1 hx)
    · dsimp only
      rcases ht : TxType.ofTag? tag with _ | t
      · exact .fails trivial (by simp)
      · exact moves_enter (.typed hp hx ht) rfl
  · exact moves_readFields hd.held hp hd.phase
  · exact .complete hp
  · exact absurd hp hf

end Decoder

end TxStream
