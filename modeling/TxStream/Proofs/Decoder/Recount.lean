import Mathlib.Data.List.Infix
import TxStream.Proofs.Decoder.Begun
import TxStream.Proofs.Format.Items
import TxStream.Proofs.Format.Record
import TxStream.Proofs.Wire.HeaderChunks

/-!
What the log of a decoder tells about the bytes. It names the type of the transaction, then the
fields with their headers in the order of the layout, and at last how decoding ended, so that it
accounts for every byte up to there.

* `openingLog`: the type and the fields with their headers, as they are reported;
* `Consumed`: the bytes from the outer header to the last of these fields;
* `Recounts`: within a chunk, the log so far and the bytes read so far go together;
* `Step.Recounts`, `recounts_step`, `recounts_run`: steps and runs keep this;
* `Decoder.Reports`: what the log of some chunks in a row looks like, however it ends;
* `log_of_chunks`: that is so for all chunks, and the log does not depend on where they are cut.
-/

namespace TxStream

/-- A field that begins, with its header. -/
abbrev Beginning := Entry × Header

/-- The bytes that a field takes: its header, and its payload unless it is a list. -/
def Entry.extent (e : Entry) (h : Header) : Nat :=
  h.offset + if e.kind.consumesPayload then h.len else 0

/-- What is reported of a transaction of a type from whose fields some have begun. -/
def openingLog (t : TxType) (begun : List Beginning) : List Event :=
  .typed t :: begun.map fun b => .field b.1 b.2

/-- The bytes from the outer header to the last of some fields, each of which begins with its
header. -/
inductive Consumed (t : TxType) : List Beginning → Bytes → Prop where
  /-- Before the fields of a legacy transaction stands the outer header. -/
  | legacy {n : Nat} {outer : Bytes} (ht : t = .legacy) (ho : IsHeader true n outer) :
      Consumed t [] outer
  /-- Before those of a typed one stands the header of the item that wraps them, too. -/
  | typed {n k : Nat} {outer wrapper : Bytes} (ht : t ≠ .legacy) (ho : IsHeader true n outer)
      (hw : IsHeader false k wrapper) : Consumed t [] (outer ++ wrapper)
  /-- The next field takes its header and its payload. -/
  | field {begun : List Beginning} {b item : Bytes} {e : Entry} {h : Header}
      (hb : Consumed t begun b) (hd : Header.decode item = .ok h)
      (hlen : item.length = e.extent h) : Consumed t (begun ++ [(e, h)]) (b ++ item)

/-- Within a chunk `b`, the log of a decoder in a phase, with the bytes `r` ahead. -/
inductive Recounts (b : Bytes) (t : TxType) : Phase → List Event → Bytes → Prop where
  | init : Recounts b t .init [] b
  | envelope {n : Nat} {outer r : Bytes} (ho : IsHeader true n outer) (hb : b = outer ++ r) :
      Recounts b t .envelope [] r
  | wrapper {n : Nat} {outer wrapper r : Bytes} {item : Header} (ho : IsHeader true n outer)
      (hw : IsHeader false item.len wrapper) (hlen : wrapper.length = item.offset)
      (hd : Header.decode (wrapper ++ r) = .ok item) (hb : b = outer ++ (wrapper ++ r)) :
      Recounts b t (.wrapper item) [] r
  | content {n k : Nat} {outer wrapper r : Bytes} {item : Header} (ho : IsHeader true n outer)
      (hw : IsHeader false k wrapper) (hb : b = outer ++ (wrapper ++ r)) :
      Recounts b t (.content item) [] r
  | typeTag {n k : Nat} {outer wrapper header r : Bytes} {list : Header}
      (ho : IsHeader true n outer) (hw : IsHeader false k wrapper)
      (hlen : header.length = list.offset) (hd : Header.decode (header ++ r) = .ok list)
      (hb : b = outer ++ (wrapper ++ (header ++ r))) : Recounts b t (.typeTag list) [] r
  /-- The header of the open field is read, and nothing after it. -/
  | opened {begun : List Beginning} {w header r : Bytes} {e : Entry} {rest : List Entry}
      {h : Header} {budget : Option Nat} (hw : Consumed t begun w) (hlen : header.length = h.offset)
      (hd : Header.decode (header ++ r) = .ok h) (hpos : 1 ≤ e.extent h)
      (hb : b = w ++ (header ++ r)) (hl : begun.map Prod.fst ++ e :: rest = t.layout) :
      Recounts b t (.fields (e :: rest) (some ⟨h, 0⟩) budget) (openingLog t (begun ++ [(e, h)])) r
  | fields {begun : List Beginning} {w r : Bytes} {todo : List Entry} {budget : Option Nat}
      (hw : Consumed t begun w) (hb : b = w ++ r) (hl : begun.map Prod.fst ++ todo = t.layout) :
      Recounts b t (.fields todo none budget) (openingLog t begun) r

/-- The log of a decoder that may go on: nothing is reported, or a type and some fields, the first
ones of its layout. -/
inductive Opens : List Event → Prop where
  | nil : Opens []
  | fields {t : TxType} {begun : List Beginning} (h : begun.map Prod.fst <+: t.layout) :
      Opens (openingLog t begun)

/-- What is reported before a failure: what is reported before it goes on, or a cause. -/
inductive Breaks : List Event → Prop where
  | opens {log : List Event} (h : Opens log) : Breaks log
  /-- A tag that is not known. -/
  | tag (tag : UInt8) : Breaks [.unknownTag tag]
  /-- A header that does not fit the last field to begin. -/
  | unfit {t : TxType} {begun : List Beginning} {e : Entry} {h : Header}
      (hl : (begun ++ [(e, h)]).map Prod.fst <+: t.layout) :
      Breaks (openingLog t (begun ++ [(e, h)]) ++ [.unfit e.field h])

/-- The log of a decoder that has read all fields, or all before the chain of a legacy transaction
where the declared input ends, with the bytes `r` ahead. -/
inductive Ends (b : Bytes) (t : TxType) (pending : Nat) : List Event → Bytes → Prop where
  | whole {begun : List Beginning} {w r : Bytes} (hw : Consumed t begun w) (hb : b = w ++ r)
      (hl : begun.map Prod.fst = t.layout) : Ends b t pending (openingLog t begun) r
  | early {begun : List Beginning} (ht : t = .legacy) (hw : Consumed t begun b)
      (hl : begun.map Prod.fst = TxType.legacy.items) (hp : pending = 0) :
      Ends b t pending (openingLog t begun) []

/-- What an outcome has to do with the log before it. -/
def Outcome.Recounts (b : Bytes) (log : List Event) : Outcome → Prop
  | .goesOn d ahead => d.partialHeader = {} ∧ TxStream.Recounts b d.tx.type d.phase log ahead
  | .waits _ => Opens log
  | .ends d ahead => Ends b d.tx.type d.pending log ahead
  | .fails .. => Breaks log

/-- A step goes together with the log, as it stands after the step. -/
def Step.Recounts (s : Step) (b : Bytes) (log : List Event) : Prop :=
  s.seen.2.Recounts b (log ++ s.log)

variable {b r : Bytes} {t : TxType} {e : Entry} {rest : List Entry} {h : Header} {log : List Event}

lemma openingLog_concat (t : TxType) (begun : List Beginning) (e : Entry) (h : Header) :
    openingLog t (begun ++ [(e, h)]) = openingLog t begun ++ [.field e h] := by
  rw [openingLog, openingLog, List.map_append, List.map_singleton, List.cons_append]

/-! ### Headers and items -/

lemma Entry.extent_pos {tx tx' : Transaction} (hd : Header.decode b = .ok h)
    (ha : e.accept h tx = .ok tx') : 1 ≤ e.extent h := by
  rcases Header.isHeader_of_decode hd with ⟨lead, r, -, -, rfl⟩ | ⟨s, r, -, hs, hoff⟩
  · -- a byte that is its own item is no list, so that it is payload
    have hk : e.kind ≠ .list := by
      intro hk
      have hcheck := (Entry.accept_eq_ok ha).1
      rw [Kind.check, if_pos hk] at hcheck
      cases hcheck
    rw [extent, Decoder.consumesPayload_eq hk, if_pos rfl]
    exact Nat.le_refl _
  · have hpos := hs.length_pos
    rw [extent]
    omega

/-- An item is read for its header, whatever follows it. -/
lemma Header.decode_front {header : Bytes} {n : Nat} (hd : decode (header ++ r) = .ok h)
    (hlen : header.length = h.offset) (hn : n ≤ r.length) (hpos : 1 ≤ h.offset + n) :
    decode (header ++ r.take n) = .ok h := by
  refine decode_of_take_prefix hd ?_
  have hwindow : h.window ≤ (header ++ r.take n).length := by
    rw [List.length_append, List.length_take_of_le hn, hlen]
    exact max_le hpos (Nat.le_add_right ..)
  have hfront : header ++ r.take n <+: header ++ r :=
    (List.prefix_append_right_inj header).2 (List.take_prefix ..)
  exact List.prefix_of_prefix_length_le (List.take_prefix ..) hfront
    ((List.length_take_le ..).trans hwindow)

lemma PartialHeader.of_read_new {c : Cursor} (hr : (read {} c).result = .ok (some h)) :
    (read {} c).partialHeader = {} ∧ ∃ header, header.length = h.offset ∧
      c.ahead = header ++ (read {} c).cursor.ahead ∧
      Header.decode (header ++ (read {} c).cursor.ahead) = .ok h := by
  have hd : Header.decode c.ahead = .ok h := by
    rw [read_eq rfl] at hr
    exact decode_of_scan hr
  obtain ⟨hread, -, hahead⟩ := read_of_decode (p := {}) rfl hd
  have hsplit : c.ahead = c.ahead.take h.offset ++ (read {} c).cursor.ahead := by
    rw [hahead, List.nil_append, List.take_append_drop]
  refine ⟨by rw [hread], c.ahead.take h.offset, ?_, hsplit, ?_⟩
  · exact List.length_take_of_le (Header.offset_le_length hd)
  · rwa [← hsplit]

/-- What is reported of a header tells whether it fits. -/
lemma acceptanceLog_of_ok {tx tx' : Transaction} (ha : e.accept h tx = .ok tx') :
    e.acceptanceLog h = [.field e h] ∧ tx'.type = tx.type := by
  obtain ⟨hcheck, rfl⟩ := Entry.accept_eq_ok ha
  rw [Entry.acceptanceLog, hcheck]
  exact ⟨rfl, (e.spares_start h tx).type⟩

lemma acceptanceLog_of_error {tx : Transaction} {err : DecodeError}
    (ha : e.accept h tx = .error err) : e.acceptanceLog h = [.field e h, .unfit e.field h] := by
  rw [Entry.accept] at ha
  rw [Entry.acceptanceLog]
  rcases hc : e.kind.check h with err' | _
  · rfl
  · rw [hc] at ha
    cases ha

/-- The chain is the first field of the tail. -/
lemma TxType.eq_tail_of_chain {begun : List Entry} (hl : begun ++ e :: rest = legacy.layout)
    (he : e.field = .chainId) : begun = legacy.items := by
  have htail : ∀ l ∈ legacy.layout.tails, l.head?.map (·.field) = some .chainId →
      l = Family.tail := by decide
  have hmem : e :: rest ∈ legacy.layout.tails := (List.mem_tails ..).2 ⟨begun, hl⟩
  rw [htail _ hmem (congrArg some he), layout_legacy] at hl
  exact List.append_cancel_right hl

namespace Decoder

variable {d : Decoder} {c : Cursor} {budget : Option Nat}

/-! ### Steps -/

/-- Payload takes the open field to its end, or stops. -/
lemma recounts_readPayload (hheld : d.partialHeader = {})
    (h₀ : Recounts b d.tx.type (.fields (e :: rest) (some ⟨h, 0⟩) budget) log c.ahead)
    (budget' : Option Nat) :
    (d.readPayload c e rest ⟨h, 0⟩ budget').Recounts b log := by
  cases h₀ with
  | @opened begun w header _ _ _ _ _ hw hlen hd hpos hb hl =>
  have hfront : (begun ++ [(e, h)]).map Prod.fst ++ rest = d.tx.type.layout := by
    rw [List.map_append, List.append_assoc]
    exact hl
  have hopens : Opens (openingLog d.tx.type (begun ++ [(e, h)])) := .fields ⟨rest, hfront⟩
  -- a field of which `n` bytes of payload are read, and no more belong to it
  have hcloses : ∀ n, n ≤ c.ahead.length → h.offset + n = e.extent h →
      Consumed d.tx.type (begun ++ [(e, h)]) (w ++ (header ++ c.ahead.take n)) ∧
        b = w ++ (header ++ c.ahead.take n) ++ c.ahead.drop n := by
    intro n hn hextent
    constructor
    · refine .field hw (Header.decode_front hd hlen hn (hextent ▸ hpos)) ?_
      rw [List.length_append, hlen, List.length_take_of_le hn, hextent]
    · rw [List.append_assoc, List.append_assoc, List.take_append_drop, hb]
  rw [Step.Recounts]
  fun_cases readPayload d c e rest ⟨h, 0⟩ budget' with
  | case1 =>
      rw [List.append_nil]
      exact .opens hopens
  | case2 =>
      rw [List.append_nil]
      exact .opens hopens
  | case3 hk piece c' hpiece _ _ w d' _ f' hdone =>
      cases hpiece
      have hlast : h.len ≤ 0 + (c.ahead.take h.len).length := of_decide_eq_true hdone
      have hn : h.len ≤ c.ahead.length := by
        rw [List.length_take] at hlast
        omega
      obtain ⟨hcons, hrest⟩ := hcloses h.len hn (by rw [Entry.extent, if_pos hk])
      rw [List.append_nil]
      refine ⟨hheld, ?_⟩
      show Recounts b w.tx.type _ _ _
      rw [(Entry.spares_write ..).type]
      exact .fields hcons hrest hfront
  | case4 =>
      rw [List.append_nil]
      exact hopens
  | case5 hk =>
      obtain ⟨hcons, hrest⟩ := hcloses 0 (Nat.zero_le _) (by rw [Entry.extent, if_neg hk])
      rw [List.append_nil]
      exact ⟨hheld, .fields hcons hrest hfront⟩

/-- The header of a field opens it, or stops. -/
lemma recounts_readField {budget₀ : Option Nat} (hheld : d.partialHeader = {})
    (h₀ : Recounts b d.tx.type (.fields (e :: rest) none budget₀) log c.ahead)
    (budget : Option Nat) : (d.readField c e rest budget).Recounts b log := by
  cases h₀ with
  | @fields begun w _ _ _ hw hb hl =>
  have hopens : Opens (openingLog d.tx.type begun) := .fields ⟨e :: rest, hl⟩
  have hbegins : ∀ h, (begun ++ [(e, h)]).map Prod.fst ++ rest = d.tx.type.layout := by
    intro h
    rw [List.map_append, List.append_assoc]
    exact hl
  rw [Step.Recounts]
  fun_cases readField d c e rest budget with
  | case1 =>
      rw [List.append_nil]
      exact .opens hopens
  | case2 =>
      rw [List.append_nil]
      exact .opens hopens
  | case3 =>
      rw [List.append_nil]
      exact hopens
  | case4 _ _ _ _ h _ _ ha =>
      have hlog : openingLog d.tx.type begun ++ e.acceptanceLog h
          = openingLog d.tx.type (begun ++ [(e, h)]) ++ [.unfit e.field h] := by
        rw [acceptanceLog_of_error ha, openingLog_concat, List.append_assoc]
        rfl
      show Breaks (openingLog d.tx.type begun ++ e.acceptanceLog h)
      rw [hlog]
      exact .unfit ⟨rest, hbegins h⟩
  | case5 r d' budget' _ h hres tx ha =>
      obtain ⟨hlog, htype⟩ := acceptanceLog_of_ok ha
      have hread : r = PartialHeader.read {} c := by rw [← hheld]
      rw [hread] at hres
      obtain ⟨hempty, header, hlen, hahead, hd⟩ := PartialHeader.of_read_new hres
      rw [← hread] at hempty hahead hd
      have hopened : Recounts b tx.type (.fields (e :: rest) (some ⟨h, 0⟩) budget')
          (openingLog d.tx.type begun ++ [.field e h]) r.cursor.ahead := by
        rw [← openingLog_concat, htype]
        exact .opened hw hlen hd (Entry.extent_pos hd ha) (hahead ▸ hb) hl
      have hp := recounts_readPayload (d := { d' with tx := tx }) hempty hopened budget'
      rw [Step.Recounts, List.append_assoc] at hp
      rw [hlog]
      exact hp

lemma recounts_readFields {todo : List Entry} {current : Option OpenField}
    (hheld : d.partialHeader = {})
    (h₀ : Recounts b d.tx.type (.fields todo current budget) log c.ahead) :
    (d.readFields c todo current budget).Recounts b log := by
  fun_cases readFields d c todo current budget with
  | case1 =>
      rw [Step.Recounts, List.append_nil]
      cases h₀ with
      | fields hw hb hl => exact .whole hw hb ((List.append_nil _).symm.trans hl)
  | case2 e rest f =>
      have hf : f = ⟨f.header, 0⟩ := by
        cases h₀
        rfl
      rw [hf] at h₀ ⊢
      exact recounts_readPayload hheld h₀ budget
  | case3 =>
      rw [Step.Recounts, List.append_nil]
      cases h₀ with
      | fields hw hb hl => exact .opens (.fields ⟨_, hl⟩)
  | case4 e rest hchain _ hends =>
      rw [Step.Recounts, List.append_nil]
      simp only [endsBeforeChain, Bool.and_eq_true, beq_iff_eq, Cursor.isEmpty,
        List.isEmpty_iff] at hends
      obtain ⟨⟨⟨htype, hempty⟩, hpending⟩, -⟩ := hends
      cases h₀ with
      | fields hw hb hl =>
          rw [hempty, List.append_nil] at hb
          subst hb
          rw [htype] at hl
          show Ends _ d.tx.type d.pending _ c.ahead
          rw [hempty]
          exact .early htype hw (TxType.eq_tail_of_chain hl hchain) hpending
  | case5 => exact recounts_readField hheld h₀ _
  | case6 => exact recounts_readField hheld h₀ _

/-- A header outside of the fields is read, or stops without a report. -/
lemma recounts_withHeader {go : Decoder → Cursor → Header → Step} (hheld : d.partialHeader = {})
    (hgo : ∀ {d' c' h header}, d'.partialHeader = {} → header.length = h.offset →
      c.ahead = header ++ c'.ahead → Header.decode (header ++ c'.ahead) = .ok h →
      (go d' c' h).Recounts b []) : (d.withHeader c go).Recounts b [] := by
  fun_cases withHeader d c go with
  | case1 => exact .opens .nil
  | case2 => exact .nil
  | case3 r d' h hres =>
      have hread : r = PartialHeader.read {} c := by rw [← hheld]
      rw [hread] at hres
      obtain ⟨hempty, header, hlen, hahead, hd⟩ := PartialHeader.of_read_new hres
      rw [← hread] at hempty hahead hd
      exact hgo hempty hlen hahead hd

/-- Entering the fields reports the type and opens the first field with a header that is already
read. -/
lemma recounts_enter {w header : Bytes} (hheld : d.partialHeader = {}) (hw : Consumed t [] w)
    (hlen : header.length = h.offset) (hd : Header.decode (header ++ c.ahead) = .ok h)
    (hb : b = w ++ (header ++ c.ahead)) (budget : Option Nat) :
    (d.enter c t h budget).Recounts b [] := by
  rw [enter]
  rcases hl : t.layout with _ | ⟨e, rest⟩
  · exact absurd hl t.layout_ne_nil
  dsimp only
  rcases ha : e.accept h { d.tx with type := t } with err | tx
  · rw [acceptanceLog_of_error ha]
    have hunfit : Breaks (openingLog t ([] ++ [(e, h)]) ++ [.unfit e.field h]) :=
      .unfit ⟨rest, hl.symm⟩
    exact hunfit
  · obtain ⟨hlog, htype⟩ := acceptanceLog_of_ok ha
    rw [hlog]
    refine ⟨hheld, ?_⟩
    have hopened : Recounts b t (.fields (e :: rest) (some ⟨h, 0⟩) budget)
        (openingLog t ([] ++ [(e, h)])) c.ahead :=
      .opened hw hlen hd (Entry.extent_pos hd ha) hb hl.symm
    show Recounts b tx.type _ _ _
    rw [htype]
    exact hopened

/-- A header that is no byte of its own has one of the forms. -/
lemma isHeader_of_front {header : Bytes} (hd : Header.decode (header ++ r) = .ok h)
    (hlen : header.length = h.offset) (hlong : h.isList = true ∨ h.offset ≠ 0) :
    IsHeader h.isList h.len header := by
  obtain ⟨header', r', heq, hh, hoff, -⟩ := Header.exists_isHeader hd hlong
  rwa [(List.append_inj heq (hlen.trans hoff)).1]

/-- **A step accounts for what it reports**, whether it goes on, waits, ends or fails. -/
theorem recounts_step (hheld : d.partialHeader = {})
    (h₀ : Recounts b d.tx.type d.phase log c.ahead) : (d.step c).Recounts b log := by
  fun_cases Decoder.step d c with
  | case1 hphase =>
      rw [hphase] at h₀
      cases h₀
      refine recounts_withHeader hheld fun hempty hlen hahead hd => ?_
      split
      · next hlist =>
        exact ⟨hempty, .envelope (hlist ▸ isHeader_of_front hd hlen (.inl hlist)) hahead⟩
      · exact .opens .nil
  | case2 hphase =>
      rw [hphase] at h₀
      cases h₀ with
      | envelope ho hb =>
      refine recounts_withHeader hheld fun {d' c' h header} hempty hlen hahead hd => ?_
      rw [hahead] at hb
      split
      · exact .opens .nil
      · next hstring =>
        -- a single byte or an empty string is the nonce, and any other string may wrap content
        split
        · exact recounts_enter hempty (.legacy rfl ho) hlen hd hb none
        · next hlong =>
          have hoff : h.offset ≠ 0 := fun h0 => hlong (by simp [Header.isSingle, h0])
          have hw := isHeader_of_front hd hlen (.inr hoff)
          rw [eq_false_of_ne_true hstring] at hw
          exact ⟨hempty, .wrapper ho hw hlen hd hb⟩
  | case3 item hphase =>
      rw [hphase] at h₀
      cases h₀
      exact Opens.nil
  | case4 item hphase =>
      rw [hphase] at h₀
      cases h₀ with
      | wrapper ho hw _ _ hb => exact ⟨hheld, .content ho hw hb⟩
  | case5 item hphase =>
      rw [hphase] at h₀
      cases h₀ with
      | wrapper ho _ hlen hd hb => exact recounts_enter hheld (.legacy rfl ho) hlen hd hb none
  | case6 item hphase =>
      rw [hphase] at h₀
      cases h₀ with
      | content ho hw hb =>
      refine recounts_withHeader hheld fun hempty hlen hahead hd => ?_
      rw [hahead] at hb
      split
      · exact ⟨hempty, .typeTag ho hw hlen hd hb⟩
      · exact .opens .nil
  | case7 list hphase =>
      rw [hphase] at h₀
      cases h₀
      exact Opens.nil
  | case8 list hphase tag =>
      rw [hphase] at h₀
      cases h₀
      exact .tag tag
  | case9 list hphase tag _ t ht =>
      rw [hphase] at h₀
      obtain ⟨hne, -⟩ := TxType.ofTag?_eq_some_iff.1 ht
      cases h₀ with
      | typeTag ho hw hlen hd hb =>
          rw [← List.append_assoc] at hb
          exact recounts_enter hheld (.typed hne ho hw) hlen hd hb _
  | case10 todo current budget hphase => exact recounts_readFields hheld (hphase ▸ h₀)
  | case11 hphase =>
      rw [hphase] at h₀
      cases h₀
  | case12 hphase =>
      rw [hphase] at h₀
      cases h₀

/-! ### Runs -/

/-- **So does a run.** -/
theorem recounts_run (hheld : d.partialHeader = {})
    (h₀ : Recounts b d.tx.type d.phase log c.ahead) :
    (d.run c).seen.2.Recounts b (log ++ (d.run c).log) := by
  induction d, c using run_induction generalizing log with
  | stop d c stop hstop =>
      have hs := recounts_step hheld h₀
      rw [seen_run_of_stop hstop, run_of_stop hstop]
      exact hs
  | goesOn d c hstop ih =>
      have hs := recounts_step hheld h₀
      rw [Step.Recounts, Step.seen_of_stop?_eq_none hstop] at hs
      have hrun := ih hs.1 hs.2
      rw [List.append_assoc] at hrun
      rw [seen_run_of_goesOn hstop, run_of_goesOn hstop]
      exact hrun

end Decoder

/-! ### Chunks in a row -/

/-- How the log of some bytes closes, of which `len` were declared, by what comes of them: no
transaction yet, a transaction, or a failure. -/
inductive Closes (len : Nat) (b : Bytes) :
    List Event → Except DecodeError (Option Transaction) → Prop where
  | waits {log : List Event} (ho : Opens log) : Closes len b log (.ok none)
  /-- All fields have begun, and what is not theirs is trailing. -/
  | whole {tx : Transaction} {begun : List Beginning} {w left : Bytes} {trailing : Nat}
      (hl : begun.map Prod.fst = tx.type.layout) (hw : Consumed tx.type begun w)
      (hb : b = w ++ left) (ht : trailing + w.length = len) :
      Closes len b (openingLog tx.type begun ++ [.decoded tx.type trailing]) (.ok (some tx))
  /-- A legacy transaction ends before its chain, with the last byte that was declared. -/
  | early {tx : Transaction} {begun : List Beginning} (ht : tx.type = .legacy)
      (hl : begun.map Prod.fst = TxType.legacy.items) (hw : Consumed .legacy begun b)
      (hlen : b.length = len) :
      Closes len b (openingLog .legacy begun ++ [.decoded .legacy 0]) (.ok (some tx))
  | fails {before : List Event} (hb : Breaks before) (state : State) (field : Option Field)
      (e : DecodeError) : Closes len b (before ++ [.failed state field e]) (.error e)

namespace Decoder

variable {len : Nat}

/-- The end of a run closes the log. -/
lemma closes_of_ends {d : Decoder} (hle : b.length ≤ len) (hp : d.pending = len - b.length)
    (h : Ends b d.tx.type d.pending log r) :
    Closes len b (log ++ [.decoded d.tx.type (r.length + d.pending)]) (.ok (some d.tx)) := by
  generalize htype : d.tx.type = t at h
  cases h with
  | whole hw hb hl =>
      rw [← htype] at hw hl ⊢
      refine .whole hl hw hb ?_
      rw [hb, List.length_append] at hle hp
      omega
  | early ht hw hl hpending =>
      rw [ht] at htype hw ⊢
      rw [hpending]
      exact .early htype hl hw (by omega)

lemma transaction?_eq_none {d : Decoder} (h : d.phase ≠ .complete) : d.transaction? = none := by
  rcases d with ⟨phase, held, pending, tx⟩
  cases phase with
  | complete => exact absurd rfl h
  | _ => rfl

/-- **The log of a chunk closes**, whatever the chunk comes to. -/
theorem closes_update (hle : b.length ≤ len) :
    Closes len b (update ⟨.init, {}, len, {}⟩ b).log
      ((update ⟨.init, {}, len, {}⟩ b).result.map fun _ =>
        (update ⟨.init, {}, len, {}⟩ b).decoder.transaction?) := by
  have hw := waiting_init len
  have hrun : (run ⟨.init, {}, len - b.length, {}⟩ (.start b)).seen.2.Recounts b
      ([] ++ (run ⟨.init, {}, len - b.length, {}⟩ (.start b)).log) := recounts_run rfl .init
  rw [hw.update_eq hle]
  rcases readChunk_cases ⟨.init, {}, len, {}⟩ b with ⟨log, d', hseen, -, heq⟩ |
      ⟨log, d', ahead, hseen, hp, heq⟩ | ⟨log, state, field, e, hseen, hres, hlog, -⟩
  all_goals
    have hlog' : (run ⟨.init, {}, len - b.length, {}⟩ (.start b)).log = log :=
      congrArg Prod.fst hseen
    have hout := congrArg Prod.snd hseen
    change (run ⟨.init, {}, len - b.length, {}⟩ (.start b)).seen.2 = _ at hout
    rw [hout, hlog', List.nil_append] at hrun
  · have hneeds : (update ⟨.init, {}, len, {}⟩ b).result = .ok .needsMoreInput := by
      rw [hw.update_eq hle, heq]
    have hw' := (waiting_of_needsMoreInput hw hle hneeds).1
    rw [hw.update_eq hle, heq] at hw'
    rw [heq]
    show Closes len b log (.ok d'.transaction?)
    rw [transaction?_eq_none hw'.ne_complete]
    exact .waits hrun
  · rw [heq]
    exact closes_of_ends hle hp hrun
  · rw [hres, hlog]
    exact .fails hrun state field e

/-- What a decoder leaves over is no part of its transaction. -/
lemma map_transaction?_settled (r : Except DecodeError Decoder) :
    (r.map settled).map transaction? = r.map transaction? := by
  rcases r with e | ⟨phase, held, pending, tx⟩
  · rfl
  · cases phase <;> rfl

/-- What chunks in a row report, of which `len` bytes were declared. -/
structure Reports (d : Decoder) (len : Nat) (chunks : List Bytes) : Prop where
  /-- It is what all of their bytes report in one chunk. -/
  log_eq : (d.updates chunks).flatMap Update.log = (d.update chunks.flatten).log
  /-- So are the records as they are written. -/
  records_eq : ((d.updates chunks).flatMap Update.log).map Event.record
    = (d.update chunks.flatten).log.map Event.record
  /-- No field begins twice. -/
  once : ((begunIn ((d.updates chunks).flatMap Update.log)).map Entry.field).Nodup
  /-- The type comes first, then the fields in order, and the outcome closes it. -/
  closes : Closes len chunks.flatten ((d.updates chunks).flatMap Update.log)
    ((d.feed chunks).map transaction?)

/-- **The log does not depend on where the input is cut**, and it accounts for the bytes: the type
and each field begin once, in the order of the layout, a transaction that is decoded leaves over
what its outer header and its items have not taken of the declared length, and a failure is reported
once, at the end. -/
theorem log_of_chunks (hlen : len ≤ maxLength) :
    ∃ d, create len = .ok d ∧ creationLog len = [] ∧
      ∀ chunks : List Bytes, chunks.flatten.length ≤ len → d.Reports len chunks := by
  refine ⟨_, create_eq hlen, if_neg (Nat.not_lt.2 hlen), fun chunks hle => ?_⟩
  have hfed := fed_flatten (waiting_init len) hle
  have hlog : (updates ⟨.init, {}, len, {}⟩ chunks).flatMap Update.log
      = (update ⟨.init, {}, len, {}⟩ chunks.flatten).log := by
    rw [fed_singleton] at hfed
    exact congrArg Prod.fst hfed
  have hresult : (feed ⟨.init, {}, len, {}⟩ chunks).map transaction?
      = (update ⟨.init, {}, len, {}⟩ chunks.flatten).result.map fun _ =>
          (update ⟨.init, {}, len, {}⟩ chunks.flatten).decoder.transaction? := by
    have hsettled : (feed ⟨.init, {}, len, {}⟩ chunks).map settled
        = (update ⟨.init, {}, len, {}⟩ chunks.flatten).seen.2.map fun r => r.2.settled := by
      rw [fed_singleton] at hfed
      exact congrArg Prod.snd hfed
    rw [← map_transaction?_settled, hsettled, Update.seen]
    generalize update ⟨.init, {}, len, {}⟩ chunks.flatten = u
    rcases u with ⟨d, e | p, log⟩
    · rfl
    · exact map_transaction?_settled (.ok d)
  have honce : ((begunIn (updates ⟨.init, {}, len, {}⟩ chunks |>.flatMap Update.log)).map
      Entry.field).Nodup := by
    have htraces := (Traces.new len).after chunks
    exact (TxType.nodup_layout _).sublist (htraces.layout.sublist.map Entry.field)
  refine ⟨hlog, congrArg _ hlog, honce, ?_⟩
  rw [hlog, hresult]
  exact closes_update hle

/-- A legacy transaction without payloads, cut after its nonce and followed by a byte, of which one
byte more was declared: two bytes are trailing. -/
theorem log_of_chunks_trailing :
    12 ≤ maxLength ∧ ∃ d, create 12 = .ok d ∧
      (d.updates [[0xc9, 0x80], [], List.replicate 8 0x80 ++ [0xff]]).flatMap Update.log
        = (d.update ([0xc9] ++ List.replicate 9 0x80 ++ [0xff])).log ∧
      (d.update ([0xc9] ++ List.replicate 9 0x80 ++ [0xff])).log.getLast?
        = some (.decoded .legacy 2) := by
  have hle : 12 ≤ maxLength := by decide
  obtain ⟨d, hd, -, hall⟩ := log_of_chunks hle
  obtain rfl : (⟨.init, {}, 12, {}⟩ : Decoder) = d := Except.ok.inj hd
  have hreports := hall [[0xc9, 0x80], [], List.replicate 8 0x80 ++ [0xff]] (by decide)
  exact ⟨hle, _, hd, hreports.log_eq, by cbv⟩

end Decoder

end TxStream
