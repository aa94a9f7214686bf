import TxStream.Decoder.Run
import TxStream.Proofs.Field.Payload
import TxStream.Proofs.Wire.HeaderReading

/-!
What a step comes to, one case at a time. The bytes behind the cursor play no part in it, and
neither does what a failing step leaves in the decoder, except for the state and the field that
are reported.

* `Outcome`, `Step.seen`: the part of a step that shows later on, with its log;
* `run_of_stop`, `run_of_goesOn`: a run, by its first step;
* `readPayload_overrun`, `readPayload_closes`, `readPayload_waits`: payload exceeds the budget,
  suffices for the open field, or does not;
* `readField_eq`, `withHeader_eq`: headers, in terms of `PartialHeader.scan`.
-/

namespace TxStream

/-- What a step or a run comes to, apart from the bytes behind it. -/
inductive Outcome where
  /-- It goes on with the bytes ahead. -/
  | goesOn (d : Decoder) (ahead : Bytes)
  /-- It waits for more input. -/
  | waits (d : Decoder)
  /-- It ends with bytes left over. -/
  | ends (d : Decoder) (ahead : Bytes)
  /-- It fails in a state, at a field if there is one. -/
  | fails (state : State) (field : Option Field) (e : DecodeError)

/-- The outcome for a reason to stop, or for none. -/
def Outcome.ofStop (d : Decoder) (ahead : Bytes) : Option Stop → Outcome
  | none => .goesOn d ahead
  | some .suspend => .waits d
  | some .finish => .ends d ahead
  | some (.fail e) => .fails d.state d.field? e

/-- What a step reports and comes to. -/
def Step.seen (s : Step) : List Event × Outcome :=
  (s.log, .ofStop s.decoder s.cursor.ahead s.stop?)

/-- What a run reports and comes to. -/
def Run.seen (r : Run) : List Event × Outcome :=
  (r.log, .ofStop r.decoder r.cursor.ahead (some r.stop))

@[simp] lemma Step.seen_mk (d : Decoder) (c : Cursor) (stop? : Option Stop) (log : List Event) :
    Step.seen ⟨d, c, stop?, log⟩ = (log, .ofStop d c.ahead stop?) := rfl

lemma Step.seen_after (s : Step) (log : List Event) :
    (s.after log).seen = (log ++ s.seen.1, s.seen.2) := rfl

@[simp] lemma Cursor.ahead_take (c : Cursor) (n : Nat) : (c.take n).2.ahead = c.ahead.drop n := rfl

@[simp] lemma Cursor.ahead_start (b : Bytes) : (Cursor.start b).ahead = b := rfl

lemma Step.stop?_eq_none_of_seen {s : Step} {log : List Event} {d : Decoder} {ahead : Bytes}
    (h : s.seen = (log, .goesOn d ahead)) :
    s.stop? = none ∧ s.log = log ∧ s.decoder = d ∧ s.cursor.ahead = ahead := by
  rcases s with ⟨d', c', _ | (_ | _ | e), log'⟩ <;> cases h
  exact ⟨rfl, rfl, rfl, rfl⟩

lemma Step.seen_of_stop?_eq_none {s : Step} (h : s.stop? = none) :
    s.seen = (s.log, .goesOn s.decoder s.cursor.ahead) := by
  rw [seen, h]
  rfl

lemma Step.seen_of_stop {s : Step} {stop : Stop} (h : s.stop? = some stop) :
    s.seen = (s.log, .ofStop s.decoder s.cursor.ahead (some stop)) := by
  rw [seen, h]

/-- What is seen of a step tells whether and why it stops. -/
lemma Step.stop?_eq_some_of_seen {s : Step} {log : List Event} {stop : Stop} (d : Decoder)
    (ahead : Bytes) (h : s.seen = (log, .ofStop d ahead (some stop))) : s.stop? = some stop := by
  rcases s with ⟨d', c', _ | (_ | _ | e'), log⟩ <;> rcases stop with _ | _ | e <;>
    simp_all [Outcome.ofStop]

namespace Decoder

variable {d : Decoder} {c : Cursor}

lemma run_of_stop {stop : Stop} (h : (d.step c).stop? = some stop) :
    d.run c = ⟨(d.step c).decoder, (d.step c).cursor, stop, (d.step c).log⟩ := by
  rw [run]
  split
  · next stop' h' =>
    obtain rfl : stop = stop' := Option.some.inj (h.symm.trans h')
    rfl
  · next h' => cases h.symm.trans h'

/-- A run that goes on after its first step is the run after it, with what the step reports. -/
lemma run_of_goesOn (h : (d.step c).stop? = none) :
    d.run c = { (d.step c).decoder.run (d.step c).cursor with
      log := (d.step c).log ++ ((d.step c).decoder.run (d.step c).cursor).log } := by
  conv_lhs => rw [run]
  split
  · next stop h' => cases h.symm.trans h'
  · rfl

lemma seen_run_of_stop {stop : Stop} (h : (d.step c).stop? = some stop) :
    (d.run c).seen = (d.step c).seen := by
  rw [run_of_stop h, Step.seen_of_stop h]
  rfl

lemma seen_run_of_goesOn (h : (d.step c).stop? = none) :
    (d.run c).seen = ((d.step c).log ++ ((d.step c).decoder.run (d.step c).cursor).seen.1,
      ((d.step c).decoder.run (d.step c).cursor).seen.2) := by
  rw [run_of_goesOn h]
  rfl

/-- A property of all runs is one that a last step has, and that a step which goes on inherits from
the run after it. -/
@[elab_as_elim]
lemma run_induction {P : Decoder → Cursor → Prop}
    (stop : ∀ d c stop, (d.step c).stop? = some stop → P d c)
    (goesOn : ∀ d c, (d.step c).stop? = none → P (d.step c).decoder (d.step c).cursor → P d c)
    (d : Decoder) (c : Cursor) : P d c :=
  run.induct P stop goesOn d c

end Decoder

/-! ### Spending -/

lemma spend_eq_error {budget : Option Nat} {n : Nat} {e : DecodeError}
    (h : spend budget n = .error e) : e = .contentLength := by
  cases budget with
  | none => cases h
  | some m =>
      rw [spend] at h
      split_ifs at h
      cases h
      rfl

lemma spend_eq_ok {m n : Nat} {budget : Option Nat} (h : spend (some m) n = .ok budget) :
    n ≤ m ∧ budget = some (m - n) := by
  rw [spend] at h
  split_ifs at h with hle
  cases h
  exact ⟨hle, rfl⟩

/-- Spending twice is spending the sum. -/
lemma spend_add {budget budget' : Option Nat} {m : Nat} (h : spend budget m = .ok budget')
    (n : Nat) : spend budget (m + n) = spend budget' n := by
  cases budget with
  | none =>
      cases h
      rfl
  | some k =>
      rw [spend] at h
      split_ifs at h with hm
      cases h
      rw [spend, spend]
      by_cases hn : n ≤ k - m
      · rw [if_pos hn, if_pos (by omega), Nat.sub_sub]
      · rw [if_neg hn, if_neg (by omega)]

lemma spend_add_error {budget : Option Nat} {m : Nat} {e : DecodeError}
    (h : spend budget m = .error e) (n : Nat) : spend budget (m + n) = .error e := by
  obtain rfl := spend_eq_error h
  cases budget with
  | none => cases h
  | some k =>
      rw [spend] at h ⊢
      split_ifs at h with hm
      rw [if_neg (by omega)]

namespace Decoder

/-! ### Payload -/

section Payload

variable {d : Decoder} {c : Cursor} {e : Entry} {rest : List Entry} {f : OpenField}
  {budget budget' : Option Nat} {tx' : Transaction}

lemma consumesPayload_eq {k : Kind} (hk : k ≠ .list) : k.consumesPayload = true := by
  cases k <;> first | rfl | exact absurd rfl hk

lemma readPayload_list (hk : e.kind = .list) :
    d.readPayload c e rest f budget = ⟨d.among rest none budget, c, none, []⟩ := by
  rw [readPayload, hk, if_neg (by decide)]

lemma readPayload_overrun {err : DecodeError} (hk : e.kind ≠ .list)
    (hs : spend budget (c.ahead.take f.remaining).length = .error err) :
    d.readPayload c e rest f budget =
      ⟨d.among (e :: rest) none budget, (c.take f.remaining).2, some (.fail err), []⟩ := by
  rw [readPayload, if_pos (consumesPayload_eq hk)]
  simp only [Cursor.take] at hs ⊢
  simp only [hs]

lemma readPayload_closes (hk : e.kind ≠ .list) (hle : f.remaining ≤ c.ahead.length)
    (hs : spend budget f.remaining = .ok budget')
    (ha : e.kind.apply e.field f.header f.position (c.ahead.take f.remaining) d.tx = .ok tx') :
    d.readPayload c e rest f budget =
      ⟨{ d with tx := tx' }.among rest none budget', (c.take f.remaining).2, none, []⟩ := by
  have hlen : (c.ahead.take f.remaining).length = f.remaining := List.length_take_of_le hle
  have hdone : OpenField.isDone ⟨f.header, f.position + f.remaining⟩ = true := by
    refine decide_eq_true (show f.header.len ≤ f.position + f.remaining from ?_)
    rw [OpenField.remaining]
    omega
  rw [readPayload, if_pos (consumesPayload_eq hk)]
  simp only [Cursor.take]
  simp only [hlen, hs, Kind.apply_eq_ok_iff.1 ha, hdone, if_true]

lemma readPayload_waits (hk : e.kind ≠ .list) (hlt : c.ahead.length < f.remaining)
    (hs : spend budget c.ahead.length = .ok budget')
    (ha : e.kind.apply e.field f.header f.position c.ahead d.tx = .ok tx') :
    d.readPayload c e rest f budget =
      ⟨{ d with tx := tx' }.among (e :: rest)
          (some ⟨f.header, f.position + c.ahead.length⟩) budget',
        (c.take f.remaining).2, some .suspend, []⟩ := by
  have htake : c.ahead.take f.remaining = c.ahead := List.take_of_length_le (Nat.le_of_lt hlt)
  have hdone : OpenField.isDone ⟨f.header, f.position + c.ahead.length⟩ = false := by
    rw [OpenField.remaining] at hlt
    refine decide_eq_false (show ¬f.header.len ≤ f.position + c.ahead.length from ?_)
    omega
  rw [readPayload, if_pos (consumesPayload_eq hk)]
  simp only [Cursor.take, htake]
  simp only [hs, Kind.apply_eq_ok_iff.1 ha, hdone, Bool.false_eq_true, if_false]

/-- What reading payload of an open field comes to: the field is a list, or its payload exceeds
the budget, suffices, or does not. -/
lemma readPayload_cases (d : Decoder) (c : Cursor) (rest : List Entry) (budget : Option Nat)
    (ho : e.Opened f d.tx) :
    (e.kind = .list ∧ d.readPayload c e rest f budget = ⟨d.among rest none budget, c, none, []⟩) ∨
    (e.kind ≠ .list ∧ ∃ err, spend budget (c.ahead.take f.remaining).length = .error err ∧
      d.readPayload c e rest f budget =
        ⟨d.among (e :: rest) none budget, (c.take f.remaining).2, some (.fail err), []⟩) ∨
    (e.kind ≠ .list ∧ f.remaining ≤ c.ahead.length ∧ ∃ budget' tx',
      spend budget f.remaining = .ok budget' ∧
      e.kind.apply e.field f.header f.position (c.ahead.take f.remaining) d.tx = .ok tx' ∧
      d.readPayload c e rest f budget =
        ⟨{ d with tx := tx' }.among rest none budget', (c.take f.remaining).2, none, []⟩) ∨
    (e.kind ≠ .list ∧ c.ahead.length < f.remaining ∧ ∃ budget' tx',
      spend budget c.ahead.length = .ok budget' ∧
      e.kind.apply e.field f.header f.position c.ahead d.tx = .ok tx' ∧
      e.Opened ⟨f.header, f.position + c.ahead.length⟩ tx' ∧
      d.readPayload c e rest f budget =
        ⟨{ d with tx := tx' }.among (e :: rest)
            (some ⟨f.header, f.position + c.ahead.length⟩) budget',
          (c.take f.remaining).2, some .suspend, []⟩) := by
  by_cases hk : e.kind = .list
  · exact .inl ⟨hk, readPayload_list hk⟩
  by_cases hle : f.remaining ≤ c.ahead.length
  · have hlen : (c.ahead.take f.remaining).length = f.remaining := List.length_take_of_le hle
    rcases hs : spend budget f.remaining with err | budget'
    · have hs' : spend budget (c.ahead.take f.remaining).length = .error err := by rw [hlen, hs]
      exact .inr (.inl ⟨hk, err, hs', readPayload_overrun hk hs'⟩)
    · obtain ⟨tx', ha, -⟩ := ho.apply (Nat.le_of_eq hlen)
      exact .inr (.inr (.inl ⟨hk, hle, budget', tx', rfl, ha, readPayload_closes hk hle hs ha⟩))
  · rw [Nat.not_le] at hle
    have htake : c.ahead.take f.remaining = c.ahead := List.take_of_length_le (Nat.le_of_lt hle)
    rcases hs : spend budget c.ahead.length with err | budget'
    · have hs' : spend budget (c.ahead.take f.remaining).length = .error err := by rw [htake, hs]
      exact .inr (.inl ⟨hk, err, hs', readPayload_overrun hk hs'⟩)
    · obtain ⟨tx', ha, ho'⟩ := ho.apply (Nat.le_of_lt hle)
      exact .inr (.inr (.inr ⟨hk, hle, budget', tx', rfl, ha, ho',
        readPayload_waits hk hle hs ha⟩))

end Payload

/-! ### Headers -/

/-- The decoder after a header, or a part of it, that is read within a chunk. -/
def scanned (d : Decoder) (ahead : Bytes) : Decoder :=
  { d with partialHeader := ⟨(PartialHeader.scan d.partialHeader.held ahead).held⟩ }

/-- The cursor after a header, or a part of it. -/
def passed (d : Decoder) (c : Cursor) : Cursor :=
  (c.take (PartialHeader.scan d.partialHeader.held c.ahead).taken).2

/-- A header outside of the fields, by the bytes alone. -/
lemma withHeader_eq {d : Decoder} (hd : Header.canDecode d.partialHeader.held = .ok false)
    (c : Cursor) (next : Decoder → Cursor → Header → Step) :
    d.withHeader c next =
      match (PartialHeader.scan d.partialHeader.held c.ahead).result with
      | .error err => ⟨d.scanned c.ahead, d.passed c, some (.fail err), []⟩
      | .ok none => ⟨d.scanned c.ahead, d.passed c, some .suspend, []⟩
      | .ok (some h) => next (d.scanned c.ahead) (d.passed c) h := by
  rw [withHeader, PartialHeader.read_eq hd]
  rfl

/-- The header of a field, by the bytes alone. -/
lemma readField_eq {d : Decoder} (hd : Header.canDecode d.partialHeader.held = .ok false)
    (c : Cursor) (e : Entry) (rest : List Entry) (budget : Option Nat) :
    d.readField c e rest budget =
      match spend budget (PartialHeader.scan d.partialHeader.held c.ahead).taken with
      | .error err =>
        ⟨(d.scanned c.ahead).among (e :: rest) none budget, d.passed c, some (.fail err), []⟩
      | .ok budget' =>
        match (PartialHeader.scan d.partialHeader.held c.ahead).result with
        | .error err =>
          ⟨(d.scanned c.ahead).among (e :: rest) none budget', d.passed c, some (.fail err), []⟩
        | .ok none =>
          ⟨(d.scanned c.ahead).among (e :: rest) none budget', d.passed c, some .suspend, []⟩
        | .ok (some h) =>
          match e.accept h d.tx with
          | .error err =>
            ⟨(d.scanned c.ahead).among (e :: rest) none budget', d.passed c, some (.fail err),
              e.acceptanceLog h⟩
          | .ok tx =>
            ({ d.scanned c.ahead with tx := tx }.readPayload (d.passed c) e rest ⟨h, 0⟩
              budget').after (e.acceptanceLog h) := by
  have hle : (PartialHeader.scan d.partialHeader.held c.ahead).taken ≤ c.ahead.length :=
    PartialHeader.taken_scan_le hd
  have hpos : (d.passed c).position - c.position
      = (PartialHeader.scan d.partialHeader.held c.ahead).taken := by
    rw [passed, Cursor.position_take, Nat.add_sub_cancel_left]
    exact List.length_take_of_le hle
  rw [← hpos, readField, PartialHeader.read_eq hd]
  rfl

end Decoder

end TxStream
