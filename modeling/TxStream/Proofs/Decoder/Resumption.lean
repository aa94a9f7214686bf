import TxStream.Proofs.Decoder.Invariant

/-!
Input in two pieces. A chunk `a ++ b` comes to what `a` comes to, gone on with `b`: if `a` alone
makes the decoder wait, it is the decoder that waits which reads `b`, and in every other case `b`
is left over or not looked at.

* `resume`: what a first piece comes to, gone on with a second one;
* `seen_step_append`: one step;
* `seen_run_append`: all the steps within a chunk.
-/

namespace TxStream

/-- What a first piece of input comes to, gone on with a second piece `b` after which `p` bytes
are still expected. A decoder that waits goes on as `k` says. -/
def resume (p : Nat) (b : Bytes) (k : Decoder → List Event × Outcome) :
    List Event × Outcome → List Event × Outcome
  | (log, .goesOn d ahead) => (log, .goesOn (d.owing p) (ahead ++ b))
  | (log, .waits d) => (log ++ (k (d.owing p)).1, (k (d.owing p)).2)
  | (log, .ends d ahead) => (log, .ends (d.owing p) (ahead ++ b))
  | (log, .fails state field e) => (log, .fails state field e)

lemma resume_log (p : Nat) (b : Bytes) (k : Decoder → List Event × Outcome) (log : List Event)
    (r : List Event × Outcome) :
    resume p b k (log ++ r.1, r.2) = (log ++ (resume p b k r).1, (resume p b k r).2) := by
  rcases r with ⟨log', _ | _ | _ | _⟩
  · rfl
  · simp only [resume, List.append_assoc]
  · rfl
  · rfl

namespace Decoder

/-- How a decoder that waits goes on with a further piece. -/
def next (b : Bytes) (d : Decoder) : List Event × Outcome := (d.step (.start b)).seen

/-! ### Payload in two pieces -/

section Payload

variable {d : Decoder} {e : Entry} {rest : List Entry} {f : OpenField}

lemma seen_readPayload_congr (ho : e.Opened f d.tx) (budget : Option Nat) {c c' : Cursor}
    (h : c'.ahead = c.ahead) :
    (d.readPayload c' e rest f budget).seen = (d.readPayload c e rest f budget).seen := by
  rcases readPayload_cases d c rest budget ho with ⟨hk, heq⟩ | ⟨hk, err, hs, heq⟩ |
      ⟨hk, hle, budget', tx', hs, ha, heq⟩ | ⟨hk, hlt, budget', tx', hs, ha, -, heq⟩ <;>
    rw [heq]
  · rw [readPayload_list hk, Step.seen_mk, Step.seen_mk, h]
  · rw [readPayload_overrun hk (h.symm ▸ hs)]
    rfl
  · rw [readPayload_closes hk (h.symm ▸ hle) hs (h.symm ▸ ha), Step.seen_mk, Step.seen_mk,
      Cursor.ahead_take, Cursor.ahead_take, h]
  · rw [readPayload_waits hk (h.symm ▸ hlt) (h.symm ▸ hs) (h.symm ▸ ha), h]
    rfl

variable (rest) in
lemma seen_readPayload_append {a b : Bytes} {c c' : Cursor} (hc : c.ahead = a)
    (hc' : c'.ahead = a ++ b) (budget : Option Nat) (p : Nat) (ho : e.Opened f d.tx) :
    ((d.owing p).readPayload c' e rest f budget).seen =
      resume p b (next b) (d.readPayload c e rest f budget).seen := by
  have ho' : e.Opened f (d.owing p).tx := ho
  rcases readPayload_cases d c rest budget ho with ⟨hk, heq⟩ | ⟨hk, err, hs, heq⟩ |
      ⟨hk, hle, budget', tx', hs, ha, heq⟩ | ⟨hk, hlt, budget', tx', hs, ha, ho₁, heq⟩ <;>
    rw [heq]
  · rw [readPayload_list hk]
    simp only [Step.seen_mk, hc, hc']
    rfl
  · have hsplit : (c'.ahead.take f.remaining).length =
        (c.ahead.take f.remaining).length + (b.take (f.remaining - a.length)).length := by
      rw [hc', hc, List.take_append, List.length_append]
    rw [readPayload_overrun hk (hsplit ▸ spend_add_error hs _)]
    rfl
  · have hle' : f.remaining ≤ a.length := hc ▸ hle
    have htake : c'.ahead.take f.remaining = c.ahead.take f.remaining := by
      rw [hc', hc, List.take_append_of_le_length hle']
    have hlen : f.remaining ≤ c'.ahead.length := by
      rw [hc', List.length_append]
      omega
    rw [readPayload_closes hk hlen hs (htake ▸ ha)]
    simp only [Step.seen_mk, Cursor.ahead_take, hc', hc, List.drop_append_of_le_length hle']
    rfl
  · -- the decoder that waits reads the second piece
    rw [hc] at hlt hs ha ho₁ ⊢
    have htake : c'.ahead.take f.remaining = a ++ b.take (f.remaining - a.length) := by
      rw [hc', List.take_append, List.take_of_length_le (Nat.le_of_lt hlt)]
    have hrem : OpenField.remaining ⟨f.header, f.position + a.length⟩ = f.remaining - a.length := by
      simp only [OpenField.remaining]
      omega
    let d₁ := ({ d with tx := tx' }.among (e :: rest)
      (some ⟨f.header, f.position + a.length⟩) budget').owing p
    change _ = (d₁.readPayload (.start b) e rest ⟨f.header, f.position + a.length⟩ budget').seen
    have ho₂ : e.Opened ⟨f.header, f.position + a.length⟩ d₁.tx := ho₁
    rcases readPayload_cases d₁ (.start b) rest budget' ho₂ with ⟨hk', -⟩ | ⟨-, err, hs', heq'⟩ |
        ⟨-, hle', budget'', tx'', hs', ha', heq'⟩ | ⟨-, hlt', budget'', tx'', hs', ha', -, heq'⟩
    · exact absurd hk' hk
    · rw [Cursor.ahead_start, hrem] at hs'
      have hs₂ : spend budget (c'.ahead.take f.remaining).length = .error err := by
        rw [htake, List.length_append, spend_add hs, hs']
      rw [heq', readPayload_overrun hk hs₂]
      rfl
    · rw [Cursor.ahead_start, hrem] at hle' ha'
      rw [hrem] at hs'
      have hle₂ : f.remaining ≤ c'.ahead.length := by
        rw [hc', List.length_append]
        omega
      have hs₂ : spend budget f.remaining = .ok budget'' := by
        rw [← hs', ← spend_add hs, show a.length + (f.remaining - a.length) = f.remaining by omega]
      have hlen : (a ++ b.take (f.remaining - a.length)).length ≤ f.remaining := by
        rw [List.length_append, List.length_take]
        omega
      have ha₂ : e.kind.apply e.field f.header f.position (c'.ahead.take f.remaining)
          (d.owing p).tx = .ok tx'' := by
        rw [htake]
        exact (ho.apply_append hlen ha).trans ha'
      rw [heq', readPayload_closes hk hle₂ hs₂ ha₂]
      simp only [Step.seen_mk, Cursor.ahead_take, Cursor.ahead_start, hc', hrem,
        List.drop_append, List.drop_eq_nil_of_le (Nat.le_of_lt hlt), List.nil_append]
      rfl
    · rw [Cursor.ahead_start, hrem] at hlt'
      rw [Cursor.ahead_start] at hs' ha'
      have hlt₂ : c'.ahead.length < f.remaining := by
        rw [hc', List.length_append]
        omega
      have hs₂ : spend budget c'.ahead.length = .ok budget'' := by
        rw [hc', List.length_append, spend_add hs, hs']
      have ha₂ : e.kind.apply e.field f.header f.position c'.ahead (d.owing p).tx = .ok tx'' := by
        rw [hc'] at hlt₂ ⊢
        exact (ho.apply_append (Nat.le_of_lt hlt₂) ha).trans ha'
      rw [heq', readPayload_waits hk hlt₂ hs₂ ha₂]
      simp only [Step.seen_mk, Cursor.ahead_start, hc', List.length_append, Nat.add_assoc]
      rfl

end Payload

/-! ### A header in two pieces -/

section Scan

variable {d : Decoder} {a b : Bytes} {c c' : Cursor}

/-- A header that is whole, or refused, in the first piece leaves the decoder as it does alone. -/
lemma scanned_append_of_stops (hheld : Header.canDecode d.partialHeader.held = .ok false)
    (hr : (PartialHeader.scan d.partialHeader.held a).result ≠ .ok none) (p : Nat) :
    (d.owing p).scanned (a ++ b) = (d.scanned a).owing p := by
  simp only [scanned, owing, PartialHeader.scan_append_of_stops hheld hr b]

lemma ahead_passed_append_of_stops (hc : c.ahead = a) (hc' : c'.ahead = a ++ b)
    (hheld : Header.canDecode d.partialHeader.held = .ok false)
    (hr : (PartialHeader.scan d.partialHeader.held a).result ≠ .ok none) (p : Nat) :
    ((d.owing p).passed c').ahead = (d.passed c).ahead ++ b := by
  have hle : (PartialHeader.scan d.partialHeader.held a).taken ≤ a.length :=
    PartialHeader.taken_scan_le hheld
  simp only [passed, partialHeader_owing, Cursor.ahead_take, hc, hc',
    PartialHeader.scan_append_of_stops hheld hr b]
  rw [List.drop_append_of_le_length hle]

/-- A header that goes on in the second piece is read on by the decoder that waits. -/
lemma scanned_append_of_waits
    (hr : (PartialHeader.scan d.partialHeader.held a).result = .ok none) (p : Nat) :
    (d.owing p).scanned (a ++ b) = ((d.scanned a).owing p).scanned b := by
  obtain ⟨hmore, hscan⟩ := PartialHeader.scan_of_waits hr
  simp only [scanned, owing, hscan, PartialHeader.scan_append_of_waits hmore b]

lemma held_scanned_of_waits
    (hr : (PartialHeader.scan d.partialHeader.held a).result = .ok none) :
    (d.scanned a).partialHeader.held = d.partialHeader.held ++ a := by
  rw [scanned, (PartialHeader.scan_of_waits hr).2]

lemma ahead_passed_append_of_waits (hc' : c'.ahead = a ++ b)
    (hr : (PartialHeader.scan d.partialHeader.held a).result = .ok none) (p : Nat) :
    ((d.owing p).passed c').ahead = (((d.scanned a).owing p).passed (.start b)).ahead := by
  have hscan' := PartialHeader.scan_append_of_waits (PartialHeader.scan_of_waits hr).1 b
  simp only [passed, partialHeader_owing, Cursor.ahead_take, Cursor.ahead_start, hc', hscan',
    held_scanned_of_waits hr]
  rw [List.drop_append, List.drop_eq_nil_of_le (Nat.le_add_right ..), List.nil_append,
    Nat.add_sub_cancel_left]

end Scan

section Field

variable {d : Decoder} {e : Entry} {rest : List Entry} {a b : Bytes} {c c' : Cursor}

/-- A header that is whole, or refused, in the first piece. -/
lemma seen_readField_append_of_stops (hc : c.ahead = a) (hc' : c'.ahead = a ++ b)
    (hheld : Header.canDecode d.partialHeader.held = .ok false) (hw : e.Awaits d.tx)
    (hr : (PartialHeader.scan d.partialHeader.held a).result ≠ .ok none) (budget : Option Nat)
    (p : Nat) :
    ((d.owing p).readField c' e rest budget).seen =
      resume p b (next b) (d.readField c e rest budget).seen := by
  have hscan := PartialHeader.scan_append_of_stops hheld hr b
  have hscanned := scanned_append_of_stops (b := b) hheld hr p
  have hahead := ahead_passed_append_of_stops hc hc' hheld hr p
  rw [readField_eq (d := d.owing p) hheld, readField_eq hheld]
  simp only [partialHeader_owing, tx_owing, hc, hc', hscan, hscanned]
  rcases spend budget (PartialHeader.scan d.partialHeader.held a).taken with err | budget'
  · rfl
  rcases hres : (PartialHeader.scan d.partialHeader.held a).result with err | _ | h
  · rfl
  · exact absurd hres hr
  rcases ha : e.accept h d.tx with err | tx
  · simp only [ha]
    rfl
  · have ho : e.Opened ⟨h, 0⟩ tx := Entry.opened_of_accept hw ha
    have happ := seen_readPayload_append rest (d := { d.scanned a with tx := tx }) (b := b) rfl
      hahead budget' p ho
    simp only [ha, Step.seen_after, resume_log, ← happ]
    rfl

/-- A header that goes on in the second piece. The decoder that waits for it reads it on. -/
lemma seen_readField_append_of_waits (hc : c.ahead = a) (hc' : c'.ahead = a ++ b)
    (hheld : Header.canDecode d.partialHeader.held = .ok false) (hw : e.Awaits d.tx)
    (hr : (PartialHeader.scan d.partialHeader.held a).result = .ok none) (budget : Option Nat)
    (p : Nat)
    (hnext : ∀ budget', spend budget a.length = .ok budget' →
      next b (((d.scanned a).among (e :: rest) none budget').owing p) =
        (((d.scanned a).owing p).readField (.start b) e rest budget').seen) :
    ((d.owing p).readField c' e rest budget).seen =
      resume p b (next b) (d.readField c e rest budget).seen := by
  obtain ⟨hmore, hscan⟩ := PartialHeader.scan_of_waits hr
  have hscan' := PartialHeader.scan_append_of_waits hmore b
  have hd₁ := held_scanned_of_waits hr
  have hheld₁ : Header.canDecode ((d.scanned a).owing p).partialHeader.held = .ok false := by
    rw [partialHeader_owing, hd₁]
    exact hmore
  have hscanned := scanned_append_of_waits (b := b) hr p
  have hahead := ahead_passed_append_of_waits hc' hr p
  rw [readField_eq (d := d.owing p) hheld, readField_eq hheld]
  simp only [partialHeader_owing, tx_owing, hc, hc', hscan, hscan', hscanned]
  rcases hs : spend budget a.length with err | budget'
  · simp only [spend_add_error hs]
    rfl
  simp only [spend_add hs]
  have hnext' := hnext budget' hs
  rw [readField_eq hheld₁] at hnext'
  simp only [partialHeader_owing, hd₁, Cursor.ahead_start, tx_owing] at hnext'
  simp only [Step.seen_mk, Outcome.ofStop, resume, hnext', List.nil_append]
  rcases spend budget' (PartialHeader.scan (d.partialHeader.held ++ a) b).taken with err | budget''
  · rfl
  rcases (PartialHeader.scan (d.partialHeader.held ++ a) b).result with err | _ | h
  · rfl
  · rfl
  have htx : (d.scanned a).tx = d.tx := rfl
  simp only [htx]
  rcases ha : e.accept h d.tx with err | tx
  · rfl
  · have ho : e.Opened ⟨h, 0⟩ tx := Entry.opened_of_accept hw ha
    simp only [Step.seen_after]
    rw [seen_readPayload_congr (d := { ((d.scanned a).owing p).scanned b with tx := tx }) ho
      budget'' hahead]

end Field

/-! ### A step in two pieces -/

section Step

variable {d : Decoder} {a b : Bytes} {c c' : Cursor} {p : Nat}

/-- The input ends before the chain in the first piece exactly if nothing follows it. -/
lemma endsBeforeChain_append (hc : c.ahead = a) (hc' : c'.ahead = a ++ b)
    (hp : d.pending = p + b.length) :
    (d.owing p).endsBeforeChain c' = d.endsBeforeChain c := by
  rw [endsBeforeChain, endsBeforeChain, Cursor.isEmpty, Cursor.isEmpty, hc, hc', hp, owing]
  cases a <;> cases b <;> simp

/-- A decoder that waits for the header of the chain does not end before it. -/
lemma endsBeforeChain_next (hc : c.ahead = a) (hp : d.pending = p + b.length)
    (hends : d.endsBeforeChain c = false)
    (hr : (PartialHeader.scan d.partialHeader.held a).result = .ok none) (todo : List Entry)
    (budget : Option Nat) :
    (((d.scanned a).among todo none budget).owing p).endsBeforeChain (.start b) = false := by
  have hscan := (PartialHeader.scan_of_waits hr).2
  rw [endsBeforeChain, Cursor.isEmpty, hc, hp, PartialHeader.isPending] at hends
  rw [endsBeforeChain, Cursor.isEmpty, Cursor.ahead_start, PartialHeader.isPending]
  simp only [owing, among, scanned, hscan]
  cases a <;> cases b <;> simp_all

lemma seen_readFields_append {todo : List Entry} {current : Option OpenField} {budget : Option Nat}
    (hc : c.ahead = a) (hc' : c'.ahead = a ++ b) (hp : d.pending = p + b.length)
    (hheld : Header.canDecode d.partialHeader.held = .ok false)
    (hphase : (Phase.fields todo current budget).Sound d.tx) :
    ((d.owing p).readFields c' todo current budget).seen =
      resume p b (next b) (d.readFields c todo current budget).seen := by
  rcases todo with _ | ⟨e, rest⟩
  · simp only [readFields, Step.seen_mk, hc, hc']
    rfl
  rcases current with _ | f
  · have hw : e.Awaits d.tx := hphase.2 e List.mem_cons_self
    -- a header goes on in the second piece or not, whatever the budget that it counts against
    have hread : ∀ budget, (∀ budget', spend budget a.length = .ok budget' →
        (PartialHeader.scan d.partialHeader.held a).result = .ok none →
        next b (((d.scanned a).among (e :: rest) none budget').owing p) =
          (((d.scanned a).owing p).readField (.start b) e rest budget').seen) →
        ((d.owing p).readField c' e rest budget).seen =
          resume p b (next b) (d.readField c e rest budget).seen := by
      intro budget hnext
      by_cases hr : (PartialHeader.scan d.partialHeader.held a).result = .ok none
      · exact seen_readField_append_of_waits hc hc' hheld hw hr budget p
          fun budget' hs => hnext budget' hs hr
      · exact seen_readField_append_of_stops hc hc' hheld hw hr budget p
    simp only [readFields]
    -- only the chain asks where the declared input ends, which the second piece may move
    by_cases hchain : e.field = .chainId
    · rw [if_pos hchain, if_pos hchain, endsBeforeChain_append hc hc' hp]
      by_cases hbudget : budget.getD 0 ≠ 0
      · rw [if_pos hbudget, if_pos hbudget]
        rfl
      rw [if_neg hbudget, if_neg hbudget]
      rcases hends : d.endsBeforeChain c with _ | _
      · refine hread none fun budget' hs hr => ?_
        obtain rfl : budget' = none := by
          cases hs
          rfl
        have hends' := endsBeforeChain_next hc hp hends hr (e :: rest) none
        change (readFields _ (.start b) (e :: rest) none none).seen = _
        rw [readFields]
        simp only [hchain, if_true, Option.getD_none, ne_eq, not_true, if_false, hends']
        rfl
      · simp only [if_true, Step.seen_mk, hc, hc']
        rfl
    · rw [if_neg hchain, if_neg hchain]
      refine hread budget fun budget' hs hr => ?_
      change (readFields _ (.start b) (e :: rest) none budget').seen = _
      rw [readFields]
      simp only [hchain, if_false]
      rfl
  · exact seen_readPayload_append rest hc hc' budget p hphase.2.1

/-- Entering the fields leaves the second piece ahead. -/
lemma seen_enter_append (hc' : c'.ahead = c.ahead ++ b) (t : TxType) (h : Header)
    (budget : Option Nat) (k : Decoder → List Event × Outcome) :
    ((d.owing p).enter c' t h budget).seen = resume p b k (d.enter c t h budget).seen := by
  rw [enter, enter]
  rcases t.layout with _ | ⟨e, rest⟩
  · rfl
  simp only [tx_owing]
  rcases e.accept h { d.tx with type := t } with err | tx
  · rfl
  · simp only [Step.seen_mk, hc']
    rfl

lemma seen_enter_congr (hc' : c'.ahead = c.ahead) (t : TxType) (h : Header)
    (budget : Option Nat) : (d.enter c' t h budget).seen = (d.enter c t h budget).seen := by
  rw [enter, enter]
  rcases t.layout with _ | ⟨e, rest⟩
  · rfl
  simp only
  rcases e.accept h { d.tx with type := t } with err | tx
  · rfl
  · simp only [Step.seen_mk, hc']

/-- A header outside of the fields. What follows it does not wait, and does not look behind. -/
lemma seen_withHeader_append {go : Decoder → Cursor → Header → Step} (hc : c.ahead = a)
    (hc' : c'.ahead = a ++ b) (hheld : Header.canDecode d.partialHeader.held = .ok false)
    (hstep : ∀ (d₁ : Decoder) c₁, d₁.phase = d.phase → d₁.step c₁ = d₁.withHeader c₁ go)
    (happ : ∀ d₁ c₁ c₁' h, c₁'.ahead = c₁.ahead ++ b →
      (go (owing d₁ p) c₁' h).seen = resume p b (next b) (go d₁ c₁ h).seen)
    (hcongr : ∀ d₁ c₁ c₁' h, c₁'.ahead = c₁.ahead → (go d₁ c₁' h).seen = (go d₁ c₁ h).seen) :
    ((d.owing p).step c').seen = resume p b (next b) (d.step c).seen := by
  rw [hstep d c rfl, hstep (d.owing p) c' rfl, withHeader_eq (d := d.owing p) hheld,
    withHeader_eq hheld]
  simp only [partialHeader_owing, hc, hc']
  by_cases hr : (PartialHeader.scan d.partialHeader.held a).result = .ok none
  · obtain ⟨hmore, hscan⟩ := PartialHeader.scan_of_waits hr
    have hscan' := PartialHeader.scan_append_of_waits hmore b
    have hd₁ := held_scanned_of_waits hr
    have hheld₁ : Header.canDecode ((d.scanned a).owing p).partialHeader.held = .ok false := by
      rw [partialHeader_owing, hd₁]
      exact hmore
    have hscanned := scanned_append_of_waits (b := b) hr p
    have hahead := ahead_passed_append_of_waits hc' hr p
    have hnext : next b ((d.scanned a).owing p)
        = (((d.scanned a).owing p).withHeader (.start b) go).seen := by
      rw [next, hstep ((d.scanned a).owing p) (.start b) rfl]
    rw [withHeader_eq hheld₁] at hnext
    simp only [partialHeader_owing, hd₁, Cursor.ahead_start] at hnext
    simp only [hr, Step.seen_mk, Outcome.ofStop, resume, hnext, List.nil_append, hscanned, hscan']
    rcases (PartialHeader.scan (d.partialHeader.held ++ a) b).result with err | _ | h
    · rfl
    · rfl
    · exact hcongr _ _ _ h hahead
  · have hscan := PartialHeader.scan_append_of_stops hheld hr b
    have hscanned := scanned_append_of_stops (b := b) hheld hr p
    have hahead := ahead_passed_append_of_stops hc hc' hheld hr p
    simp only [hscan, hscanned]
    rcases hres : (PartialHeader.scan d.partialHeader.held a).result with err | _ | h
    · rfl
    · exact absurd hres hr
    · exact happ _ _ _ h hahead

/-- A byte that is looked at and not read. What follows does not wait, and does not look behind. -/
lemma seen_peek_append {go : Decoder → Cursor → UInt8 → Step} (hc : c.ahead = a)
    (hc' : c'.ahead = a ++ b)
    (hstep : ∀ (d₁ : Decoder) c₁, d₁.phase = d.phase → d₁.step c₁ =
      match c₁.peek? with
      | none => ⟨d₁, c₁, some .suspend, []⟩
      | some x => go d₁ c₁ x)
    (happ : ∀ d₁ c₁ c₁' x, c₁'.ahead = c₁.ahead ++ b →
      (go (owing d₁ p) c₁' x).seen = resume p b (next b) (go d₁ c₁ x).seen)
    (hcongr : ∀ d₁ c₁ c₁' x, c₁'.ahead = c₁.ahead → (go d₁ c₁' x).seen = (go d₁ c₁ x).seen) :
    ((d.owing p).step c').seen = resume p b (next b) (d.step c).seen := by
  rw [hstep d c rfl, hstep (d.owing p) c' rfl, Cursor.peek?, Cursor.peek?, hc, hc']
  rcases a with _ | ⟨x, a⟩
  · change _ = next b (d.owing p)
    rw [next, hstep (d.owing p) (.start b) rfl, Cursor.peek?, Cursor.ahead_start]
    rcases b with _ | ⟨y, b⟩
    · rfl
    · exact hcongr _ _ _ y hc'
  · exact happ d c c' x (hc ▸ hc')

/-- **One step in two pieces**: what a step makes of `a ++ b` is what it makes of `a`, gone on with
`b`. -/
theorem seen_step_append (hd : d.Sound) (hc : c.ahead = a) (hc' : c'.ahead = a ++ b)
    (hp : d.pending = p + b.length) :
    ((d.owing p).step c').seen = resume p b (next b) (d.step c).seen := by
  have hphase := hd.phase
  -- phases that read a header come to `seen_withHeader_append`, those that look at a byte to
  -- `seen_peek_append`, and the fields have a lemma of their own
  rcases hph : d.phase with _ | _ | item | item | list | ⟨todo, current, budget⟩ | _ | _
  · refine seen_withHeader_append hc hc' hd.held (fun d₁ c₁ h => by rw [step, h, hph])
      (fun d₁ c₁ c₁' h hc₁ => ?_) (fun d₁ c₁ c₁' h hc₁ => ?_)
    all_goals
      split_ifs
      · rw [Step.seen_mk, hc₁]
        rfl
      · rfl
  · refine seen_withHeader_append hc hc' hd.held (fun d₁ c₁ h => by rw [step, h, hph])
      (fun d₁ c₁ c₁' h hc₁ => ?_) (fun d₁ c₁ c₁' h hc₁ => ?_)
    · split_ifs
      · rfl
      · exact seen_enter_append hc₁ .legacy h none _
      · rw [Step.seen_mk, hc₁]
        rfl
    · split_ifs
      · rfl
      · exact seen_enter_congr hc₁ .legacy h none
      · rw [Step.seen_mk, hc₁]
        rfl
  · refine seen_peek_append hc hc' (fun d₁ c₁ h => by simp only [step, h, hph]; rfl)
      (fun d₁ c₁ c₁' x hc₁ => ?_) (fun d₁ c₁ c₁' x hc₁ => ?_)
    · split_ifs
      · rw [Step.seen_mk, hc₁]
        rfl
      · exact seen_enter_append hc₁ .legacy item none _
    · split_ifs
      · rw [Step.seen_mk, hc₁]
        rfl
      · exact seen_enter_congr hc₁ .legacy item none
  · refine seen_withHeader_append hc hc' hd.held (fun d₁ c₁ h => by rw [step, h, hph])
      (fun d₁ c₁ c₁' h hc₁ => ?_) (fun d₁ c₁ c₁' h hc₁ => ?_)
    all_goals
      split_ifs
      · rw [Step.seen_mk, hc₁]
        rfl
      · rfl
  · refine seen_peek_append hc hc' (fun d₁ c₁ h => by simp only [step, h, hph]; rfl)
      (fun d₁ c₁ c₁' x hc₁ => ?_) (fun d₁ c₁ c₁' x hc₁ => ?_)
    · rcases TxType.ofTag? x with _ | t
      · rfl
      · exact seen_enter_append hc₁ t list (some list.len) _
    · rcases TxType.ofTag? x with _ | t
      · rfl
      · exact seen_enter_congr hc₁ t list (some list.len)
  · rw [step, step, phase_owing, hph]
    exact seen_readFields_append hc hc' hp hd.held (hph ▸ hphase)
  · rw [step, step, phase_owing, hph, Step.seen_mk, Step.seen_mk, hc, hc']
    rfl
  · simp only [step, phase_owing, hph, Step.seen_mk, Outcome.ofStop, resume, state, field?]

/-- What is behind the cursor does not matter for a step. -/
lemma seen_step_congr (hd : d.Sound) (h : c'.ahead = c.ahead) :
    (d.step c').seen = (d.step c).seen := by
  have h' : c'.ahead = c.ahead ++ [] := by rw [h, List.append_nil]
  have h₁ := seen_step_append (p := d.pending) hd rfl h' rfl
  have h₂ := seen_step_append (p := d.pending) hd rfl (List.append_nil c.ahead).symm rfl
  exact h₁.trans h₂.symm

end Step

/-! ### A run in two pieces -/

section Run

variable {d : Decoder} {c c' : Cursor}

lemma seen_run_congr (hd : d.Sound) (h : c'.ahead = c.ahead) :
    (d.run c').seen = (d.run c).seen := by
  induction d, c using run_induction generalizing c' with
  | stop d c stop hstop =>
      have hseen := seen_step_congr hd h
      have hstop' := Step.stop?_eq_some_of_seen _ _ (hseen.trans (Step.seen_of_stop hstop))
      rw [seen_run_of_stop hstop, seen_run_of_stop hstop', hseen]
  | goesOn d c hstop ih =>
      have hseen := seen_step_congr hd h
      rw [Step.seen_of_stop?_eq_none hstop] at hseen
      obtain ⟨hstop', hlog, hdec, hahead⟩ := Step.stop?_eq_none_of_seen hseen
      have hd' := sound_step hd (.inl hstop)
      rw [seen_run_of_goesOn hstop, seen_run_of_goesOn hstop', hlog, hdec, ih hd' hahead]

/-- A run whose first step comes to what another one does, apart from an earlier report, comes to
what the other run does. -/
lemma seen_run_of_seen_step {d' : Decoder} {log : List Event} (hd' : d'.Sound)
    (h : (d.step c).seen = (log ++ (d'.step c').seen.1, (d'.step c').seen.2)) :
    (d.run c).seen = (log ++ (d'.run c').seen.1, (d'.run c').seen.2) := by
  rcases hstop' : (d'.step c').stop? with _ | stop'
  · rw [Step.seen_of_stop?_eq_none hstop'] at h
    obtain ⟨hstop, hlog, hdec, hahead⟩ := Step.stop?_eq_none_of_seen h
    have hd₁ := sound_step hd' (.inl hstop')
    rw [seen_run_of_goesOn hstop, seen_run_of_goesOn hstop', hlog, hdec,
      seen_run_congr hd₁ hahead, List.append_assoc]
  · have hstop := h
    rw [Step.seen_of_stop hstop'] at hstop
    have hstop := Step.stop?_eq_some_of_seen _ _ hstop
    rw [seen_run_of_stop hstop, seen_run_of_stop hstop', h]

/-- **A run in two pieces**: what the steps within `a ++ b` come to is what those within `a` come
to, gone on with `b`. -/
theorem seen_run_append {a b : Bytes} {p : Nat} (hd : d.Sound) (hc : c.ahead = a)
    (hc' : c'.ahead = a ++ b) (hp : d.pending = p + b.length) :
    ((d.owing p).run c').seen =
      resume p b (fun d' => (d'.run (.start b)).seen) (d.run c).seen := by
  induction d, c using run_induction generalizing a c' with
  | stop d c stop hstop =>
      have hseen := seen_step_append hd hc hc' hp
      rw [seen_run_of_stop hstop, Step.seen_of_stop hstop]
      rw [Step.seen_of_stop hstop] at hseen
      rcases stop with _ | _ | e
      · -- the decoder waits, and its next step is the first one within the second piece
        have hd' := (sound_step hd (.inr hstop)).owing p
        exact seen_run_of_seen_step hd' hseen
      · have hstop' : ((d.owing p).step c').stop? = some .finish :=
          Step.stop?_eq_some_of_seen ((d.step c).decoder.owing p) _ hseen
        rw [seen_run_of_stop hstop', hseen]
        rfl
      · have hstop' : ((d.owing p).step c').stop? = some (.fail e) :=
          Step.stop?_eq_some_of_seen (d.step c).decoder [] hseen
        rw [seen_run_of_stop hstop', hseen]
        rfl
  | goesOn d c hstop ih =>
      have hseen := seen_step_append hd hc hc' hp
      rw [Step.seen_of_stop?_eq_none hstop] at hseen
      obtain ⟨hstop', hlog, hdec, hahead⟩ := Step.stop?_eq_none_of_seen hseen
      have hd' := sound_step hd (.inl hstop)
      rw [seen_run_of_goesOn hstop, seen_run_of_goesOn hstop', hlog, hdec, resume_log,
        ih hd' rfl hahead (pending_step d c ▸ hp)]

end Run

end Decoder

end TxStream
