import TxStream.Proofs.Decoder.Protocol

/-!
How the budget for typed content keeps up with the input.

* `Decoder.ne_contentLength_of_uncounted`: where nothing is counted any more, no chunk is refused
  for the length of the content;
* `Decoder.Tracks`: what is left of the content is what is left of the input, less what follows the
  content. Every step keeps this, and so do chunks in a row;
* `Decoder.Hands`: a step hands bytes to a field. Where bytes count, they are bytes of the content
  (`Tracks.le_of_hands`).
-/

namespace TxStream

namespace Decoder

variable {d d' : Decoder} {c c' : Cursor} {chunk later : Bytes} {stop? : Option Stop}

/-! ### Where nothing is counted -/

lemma Pays.uncounted {e : Entry} {rest : List Entry} {f : OpenField}
    (hp : d.Pays c e rest f none d' c' stop?) : d'.phase.Uncounted := by
  cases hp with
  | list => exact trivial
  | closes _ _ hs =>
      cases hs
      exact trivial
  | waits _ _ hs =>
      cases hs
      exact trivial

lemma Moves.uncounted (hm : d.Moves c d' c' none) (hu : d.phase.Uncounted) :
    d'.phase.Uncounted := by
  cases hm with
  | outer hphase =>
      rw [hphase] at hu
      exact hu.elim
  | wraps hphase =>
      rw [hphase] at hu
      exact hu.elim
  | lists hphase =>
      rw [hphase] at hu
      exact hu.elim
  | fills hphase =>
      rw [hphase] at hu
      exact hu.elim
  | enters he =>
      cases he with
      | short => exact trivial
      | plain => exact trivial
      | typed hphase =>
          rw [hphase] at hu
          exact hu.elim
  | @pays e rest f budget _ _ _ hphase hp =>
      rw [hphase] at hu
      cases budget with
      | none => exact hp.uncounted
      | some m => exact hu.elim
  | @opens e rest h budget budget' _ _ _ _ hphase _ _ hs _ hp =>
      rw [hphase] at hu
      have hnone : e.counted budget = none := by
        cases budget with
        | none => exact ite_self _
        | some m => exact if_pos hu.1
      rw [hnone] at hs
      cases hs
      exact hp.uncounted

/-- A step fails for the length of the content only where it is counted. -/
lemma Moves.not_uncounted (hm : d.Moves c d' c' (some (.fail .contentLength))) :
    ¬d.phase.Uncounted := by
  cases hm with
  | pays _ hp => cases hp
  | opens _ _ _ _ _ hp => cases hp
  | fails _ hcounts => exact hcounts rfl

/-- **Where nothing is counted any more, no chunk is refused for the length of the content.** -/
theorem ne_contentLength_of_uncounted (hr : d.Reaches chunk d' c') (hd : d.Sound)
    (hu : d'.phase.Uncounted) : (d.update chunk).result ≠ .error .contentLength := by
  intro hfail
  obtain ⟨d₂, c₂, hv, hstop⟩ := exists_visits_run d' c'
  have hlast : d.Reaches chunk d₂ c₂ := ⟨hr.takes, hr.visits.trans hv⟩
  rw [Stop.eq_fail_of_answer ((hlast.update_eq hstop).1.symm.trans hfail)] at hstop
  have hne : d'.phase ≠ .failed := by
    intro h
    rw [h] at hu
    exact hu
  obtain ⟨-, -, hu₂⟩ := hv.invariant (P := fun d _ => d.phase.Uncounted) (hr.moves hd rfl).1 hne hu
    fun _ hu hm _ => hm.uncounted hu
  exact (hlast.moves hd hstop).2.not_uncounted hu₂

/-! ### What is left of the content -/

/-- What is left in a budget is the length of `y` without `beyond` bytes at its end. -/
def Leaves (beyond : Nat) (budget : Option Nat) (y : Bytes) : Prop :=
  ∀ m, budget = some m → y.length = m + beyond

/-- The input `y` after a decoder has `beyond` bytes after the content. The whole input begins with
the header `outer` and the header `wrapper` of an item of length `w`. -/
def Tracks (outer wrapper : Bytes) (w beyond : Nat) (d : Decoder) (y : Bytes) : Prop :=
  match d.phase with
  | .init => ∃ z, d.partialHeader.held ++ y = outer ++ (wrapper ++ z) ∧ z.length = w + beyond
  | .envelope => ∃ z, d.partialHeader.held ++ y = wrapper ++ z ∧ z.length = w + beyond
  | .wrapper item => d.partialHeader.held = [] ∧ y.length = item.len + beyond
  | .content item => d.partialHeader.held.length + y.length = item.len + beyond
  | .typeTag list => y.length = list.len + beyond
  | .fields _ _ budget => Leaves beyond budget y
  | _ => True

section Tracks

variable {outer wrapper y : Bytes} {k w beyond n : Nat} {budget budget' : Option Nat} {h : Header}

/-- What is spent is taken from the input too. -/
lemma Leaves.of_spend {y' : Bytes} (hl : Leaves beyond budget y) (hs : spend budget n = .ok budget')
    (hy : y.length = n + y'.length) : Leaves beyond budget' y' := by
  rintro m' rfl
  cases budget with
  | none => cases hs
  | some m =>
      obtain ⟨hle, hm'⟩ := spend_eq_ok hs
      cases hm'
      have hm := hl m rfl
      omega

lemma Leaves.counted (hl : Leaves beyond budget y) (e : Entry) :
    Leaves beyond (e.counted budget) y := by
  intro m hm
  rw [Entry.counted] at hm
  split_ifs at hm
  exact hl m hm

/-- A header is read over what is held of it. -/
lemma ahead_past (hheld : Header.canDecode d.partialHeader.held = .ok false)
    (hdec : Header.decode (d.partialHeader.held ++ c.ahead) = .ok h) (later : Bytes) :
    d.partialHeader.held.length ≤ h.offset ∧
      h.offset ≤ d.partialHeader.held.length + c.ahead.length ∧
      (d.past c h).ahead ++ later = (d.partialHeader.held ++ (c.ahead ++ later)).drop h.offset := by
  have hle : d.partialHeader.held.length ≤ h.offset := by
    rcases Header.length_lt_offset hheld hdec with ⟨hnil, -⟩ | hlt
    · rw [hnil]
      exact Nat.zero_le _
    · exact Nat.le_of_lt hlt
  have hoff := Header.offset_le_length hdec
  rw [List.length_append] at hoff
  refine ⟨hle, hoff, ?_⟩
  rw [past, Cursor.ahead_take, List.drop_append, List.drop_eq_nil_of_le hle, List.nil_append,
    List.drop_append_of_le_length (by omega)]

/-- The input is shorter by what is read of it. -/
lemma length_ahead_past (hheld : Header.canDecode d.partialHeader.held = .ok false)
    (hdec : Header.decode (d.partialHeader.held ++ c.ahead) = .ok h) (later : Bytes) :
    (c.ahead ++ later).length
      = h.offset - d.partialHeader.held.length + ((d.past c h).ahead ++ later).length := by
  obtain ⟨hle, hoff, hahead⟩ := ahead_past hheld hdec later
  simp only [hahead, List.length_drop, List.length_append]
  omega

lemma position_past (hdec : Header.decode (d.partialHeader.held ++ c.ahead) = .ok h) :
    (d.past c h).position - c.position = h.offset - d.partialHeader.held.length := by
  have hoff := Header.offset_le_length hdec
  rw [List.length_append] at hoff
  rw [past, Cursor.position_take, Nat.add_sub_cancel_left]
  exact List.length_take_of_le (by omega)

/-- A header that is known is read as such. -/
lemma decode_known {header z : Bytes} {isList : Bool} (hh : IsHeader isList n header)
    (hdec : Header.decode (d.partialHeader.held ++ c.ahead) = .ok h)
    (hy : d.partialHeader.held ++ (c.ahead ++ later) = header ++ z) :
    h = ⟨n, isList, header.length⟩ := by
  have hknown := Header.decode_of_isHeader hh z
  rw [← hy, ← List.append_assoc] at hknown
  exact Except.ok.inj ((Header.decode_append hdec later).symm.trans hknown)

lemma Pays.tracks {e : Entry} {rest : List Entry} {f : OpenField}
    (hp : d.Pays c e rest f budget d' c' stop?) (hl : Leaves beyond budget (c.ahead ++ later)) :
    d'.Tracks outer wrapper w beyond (c'.ahead ++ later) := by
  cases hp with
  | list => exact hl
  | closes _ hle hs =>
      refine hl.of_spend hs ?_
      rw [Cursor.ahead_take, List.length_append, List.length_append, List.length_drop]
      omega
  | waits _ hlt hs =>
      refine hl.of_spend hs ?_
      rw [Cursor.ahead_take, List.drop_eq_nil_of_le (Nat.le_of_lt hlt), List.length_append,
        List.nil_append]

/-- **Every step keeps track of the content**, if it does not fail or end. -/
lemma Tracks.of_moves (houter : IsHeader true k outer) (hwrapper : IsHeader false w wrapper)
    (ht : d.Tracks outer wrapper w beyond (c.ahead ++ later)) (hd : d.Sound)
    (hm : d.Moves c d' c' stop?) (hstop : stop? = none ∨ stop? = some .suspend) :
    d'.Tracks outer wrapper w beyond (c'.ahead ++ later) := by
  cases hm with
  | @holds phase hphase =>
      have hnil : (c.take c.ahead.length).2.ahead = [] := List.drop_length
      rw [hnil, List.nil_append]
      rw [Tracks] at ht ⊢
      -- held bytes still stand before those ahead, unless they are counted: then they are spent
      generalize d.phase = phase₀ at hphase ht
      cases hphase with
      | init => simpa only [holding, List.append_assoc] using ht
      | envelope => simpa only [holding, List.append_assoc] using ht
      | content =>
          simp only [holding, List.length_append] at ht ⊢
          omega
      | @fields e rest budget budget' hs =>
          exact (Leaves.counted ht e).of_spend hs List.length_append
  | peeks => exact ht
  | outer hphase hdec =>
      rw [Tracks, hphase] at ht
      obtain ⟨z, hy, hz⟩ := ht
      obtain rfl := decode_known houter hdec hy
      refine ⟨z, ?_, hz⟩
      rw [(ahead_past hd.held hdec later).2.2, hy]
      exact List.drop_left
  | wraps hphase hdec =>
      rw [Tracks, hphase] at ht
      obtain ⟨z, hy, hz⟩ := ht
      obtain rfl := decode_known hwrapper hdec hy
      refine ⟨rfl, ?_⟩
      rw [(ahead_past hd.held hdec later).2.2, hy]
      exact (congrArg List.length List.drop_left).trans hz
  | lists hphase =>
      rw [Tracks, hphase] at ht
      rw [Tracks]
      simp only [ht.1, List.length_nil, Nat.zero_add]
      exact ht.2
  | fills hphase hdec hlen =>
      rw [Tracks, hphase] at ht
      have hread := length_ahead_past hd.held hdec later
      have hle := (ahead_past hd.held hdec later).1
      rw [Tracks]
      dsimp only at ht ⊢
      omega
  | enters he =>
      cases he with
      | short => exact fun _ h => by cases h
      | plain => exact fun _ h => by cases h
      | typed hphase =>
          rw [Tracks, hphase] at ht
          rintro m hm
          cases hm
          exact ht
  | pays hphase hp =>
      rw [Tracks, hphase] at ht
      exact hp.tracks ht
  | opens hphase _ hdec hs _ hp =>
      rw [Tracks, hphase] at ht
      exact hp.tracks ((Leaves.counted ht _).of_spend hs (length_ahead_past hd.held hdec later))
  | ends => rcases hstop with h | h <;> cases h
  | early => rcases hstop with h | h <;> cases h
  | complete => rcases hstop with h | h <;> cases h
  | fails => rcases hstop with h | h <;> cases h

lemma Reaches.tracks (houter : IsHeader true k outer) (hwrapper : IsHeader false w wrapper)
    (hr : d.Reaches chunk d' c') (hd : d.Sound)
    (ht : d.Tracks outer wrapper w beyond (chunk ++ later)) :
    d'.Tracks outer wrapper w beyond (c'.ahead ++ later) :=
  (hr.visits.invariant (P := fun d c => d.Tracks outer wrapper w beyond (c.ahead ++ later))
    (hd.owing _) hr.takes.ne_failed ht
    fun hd₁ ht₁ hm _ => ht₁.of_moves houter hwrapper hd₁ hm (.inl rfl)).2.2

/-- A chunk that asks for more input keeps track of the content. -/
lemma Tracks.update (houter : IsHeader true k outer) (hwrapper : IsHeader false w wrapper)
    (hw : d.Waiting) (ht : d.Tracks outer wrapper w beyond (chunk ++ later))
    (hle : chunk.length ≤ d.pending) (h : (d.update chunk).result = .ok .needsMoreInput) :
    (d.update chunk).decoder.Tracks outer wrapper w beyond later := by
  obtain ⟨d', c', hr, hstop, hdec⟩ := exists_reaches_of_needsMoreInput (hw.takes hle) h
  have ht' := hr.tracks houter hwrapper hw.sound ht
  obtain ⟨hd', hmoves⟩ := hr.moves hw.sound hstop
  have ht₁ := ht'.of_moves houter hwrapper hd' hmoves (.inr rfl)
  rw [hmoves.ahead_eq_nil, List.nil_append] at ht₁
  rw [hdec]
  exact ht₁

/-- **Chunks in a row keep track of the content**, unless they bring the decoder to an end. -/
theorem Tracks.after (houter : IsHeader true k outer) (hwrapper : IsHeader false w wrapper)
    (hw : d.Waiting) {chunks : List Bytes}
    (ht : d.Tracks outer wrapper w beyond (chunks.flatten ++ later))
    (hc : (d.after chunks).phase ≠ .complete) (hf : (d.after chunks).phase ≠ .failed) :
    (d.after chunks).Waiting ∧ (d.after chunks).Tracks outer wrapper w beyond later := by
  generalize hy : chunks.flatten ++ later = y at ht
  have hall := hw.after_induction
    (P := fun d' cs => ∀ r, cs.flatten ++ r = y → d'.Tracks outer wrapper w beyond r)
    (by rintro r rfl; exact ht) (fun hw' hp hle hres r hr => ?_) chunks hc hf
  · exact ⟨hall.1, hall.2 later hy⟩
  · rw [List.flatten_append, List.flatten_singleton, List.append_assoc] at hr
    exact (hp _ hr).update houter hwrapper hw' hle hres

/-! ### What is handed to a field -/

/-- A step from `d` at `c` hands the bytes `piece` at `c₁` to a field: its header is read and fits,
and all of it is paid for. -/
inductive Hands (d : Decoder) (c : Cursor) : Bytes → Cursor → Prop
  /-- The field is open already. -/
  | goesOn {e : Entry} {rest : List Entry} {f : OpenField} {budget budget' : Option Nat}
      (hphase : d.phase = .fields (e :: rest) (some f) budget)
      (hk : e.kind.consumesPayload = true)
      (hs : spend budget (c.take f.remaining).1.length = .ok budget') :
      Hands d c (c.take f.remaining).1 c
  /-- The field is opened in this step. -/
  | opens {e : Entry} {rest : List Entry} {h : Header} {c₁ : Cursor} {tx : Transaction}
      {budget budget₁ budget' : Option Nat}
      (hphase : d.phase = .fields (e :: rest) none budget)
      (hchain : e.field = .chainId → budget.getD 0 = 0)
      (hread : (d.partialHeader.read c).result = .ok (some h))
      (hc₁ : (d.partialHeader.read c).cursor = c₁)
      (hs₁ : spend (e.counted budget) (c₁.position - c.position) = .ok budget₁)
      (ha : e.accept h d.tx = .ok tx) (hk : e.kind.consumesPayload = true)
      (hs : spend budget₁ (c₁.take h.len).1.length = .ok budget') :
      Hands d c (c₁.take h.len).1 c₁

/-- **Bytes that count and are handed to a field are bytes of the content**: what follows it is
still ahead. -/
theorem Tracks.le_of_hands {piece : Bytes} {c₁ : Cursor}
    (ht : d.Tracks outer wrapper w beyond (c.ahead ++ later)) (hd : d.Sound)
    (hh : d.Hands c piece c₁) (hu : ¬d.phase.Uncounted) :
    beyond + piece.length ≤ (c₁.ahead ++ later).length := by
  cases hh with
  | @goesOn e rest f budget budget' hphase hk hs =>
      rw [hphase] at hu
      rw [Tracks, hphase] at ht
      cases budget with
      | none => exact absurd trivial hu
      | some m =>
          have hm := ht m rfl
          have hle := (spend_eq_ok hs).1
          omega
  | @opens e rest h c₁ tx budget budget₁ budget' hphase hchain hread hc₁ hs₁ ha hk hs =>
      rw [hphase] at hu
      rw [Tracks, hphase] at ht
      rw [PartialHeader.read_eq hd.held] at hread hc₁
      have hdec := PartialHeader.decode_of_scan hread
      rw [PartialHeader.scan_of_decode hdec] at hc₁
      obtain rfl : d.past c h = c₁ := hc₁
      have hcounted : e.counted budget = budget := by
        refine if_neg fun hchain' => hu ?_
        cases budget with
        | none => exact trivial
        | some m => exact ⟨hchain', hchain hchain'⟩
      rw [hcounted, position_past hdec] at hs₁
      have hl := Leaves.of_spend ht hs₁ (length_ahead_past hd.held hdec later)
      cases budget with
      | none => exact absurd trivial hu
      | some m =>
          obtain ⟨-, rfl⟩ := spend_eq_ok hs₁
          have hm := hl _ rfl
          have hle := (spend_eq_ok hs).1
          omega

lemma Hands.position_le {piece : Bytes} {c₁ : Cursor} (hh : d.Hands c piece c₁) :
    c₁.chunk = c.chunk ∧ c₁.position + piece.length ≤ c.chunk.length := by
  have hpiece : ∀ n, c₁.position + (c₁.take n).1.length ≤ c₁.chunk.length := by
    intro n
    rw [← c₁.position_add_remaining, Cursor.remaining, ← c₁.take_append_ahead n, List.length_append]
    omega
  cases hh with
  | goesOn => exact ⟨rfl, hpiece _⟩
  | opens hphase hchain hread hc₁ =>
      have hchunk : c₁.chunk = c.chunk := hc₁ ▸ PartialHeader.chunk_read d.partialHeader c
      exact ⟨hchunk, hchunk ▸ hpiece _⟩

end Tracks

end Decoder

end TxStream
