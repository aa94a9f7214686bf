import TxStream.Decoder.Step

/-!
A decoder makes finitely many steps. `Phase.rank` bounds the steps that may still follow a phase:
one for each phase before the fields and one for each field. `Decoder.rank_step_lt` says that a
step which goes on lowers the rank, whatever lengths the headers declare.
-/

namespace TxStream

/-- How many steps may still follow a phase. -/
def Phase.rank : Phase → Nat
  | .init => 20
  | .envelope => 19
  | .wrapper _ => 18
  | .content _ => 17
  | .typeTag _ => 16
  | .fields todo _ _ => todo.length
  | .complete => 0
  | .failed => 0

namespace Decoder

/-- The rank among the fields counts the fields. -/
@[simp] theorem rank_among (d : Decoder) (todo : List Entry) (current : Option OpenField)
    (budget : Option Nat) : (d.among todo current budget).phase.rank = todo.length := rfl

/-- Entering the fields leaves no more steps than a layout has fields. -/
theorem rank_enter_lt (d : Decoder) (c : Cursor) (t : TxType) (h : Header) (budget : Option Nat) :
    (d.enter c t h budget).decoder.phase.rank < 16 := by
  have hl := t.length_layout_le
  fun_cases enter d c t h budget with
  | case1 => simp
  | case2 => simp_all; omega
  | case3 => simp_all; omega

theorem rank_readPayload_lt {d : Decoder} {c : Cursor} {e : Entry} {rest : List Entry}
    {f : OpenField} {budget : Option Nat} (h : (d.readPayload c e rest f budget).stop? = none) :
    (d.readPayload c e rest f budget).decoder.phase.rank < rest.length + 1 := by
  revert h
  fun_cases readPayload d c e rest f budget <;> simp

theorem rank_readField_lt {d : Decoder} {c : Cursor} {e : Entry} {rest : List Entry}
    {budget : Option Nat} (h : (d.readField c e rest budget).stop? = none) :
    (d.readField c e rest budget).decoder.phase.rank < rest.length + 1 := by
  revert h
  fun_cases readField d c e rest budget with
  | case5 => exact rank_readPayload_lt
  | _ => simp

theorem rank_readFields_lt {d : Decoder} {c : Cursor} {todo : List Entry}
    {current : Option OpenField} {budget : Option Nat}
    (h : (d.readFields c todo current budget).stop? = none) :
    (d.readFields c todo current budget).decoder.phase.rank < todo.length := by
  revert h
  fun_cases readFields d c todo current budget with
  | case1 => simp
  | case2 => exact rank_readPayload_lt
  | case3 => simp
  | case4 => simp
  | case5 => exact rank_readField_lt
  | case6 => exact rank_readField_lt

theorem rank_withHeader_lt {d : Decoder} {c : Cursor} {next : Decoder → Cursor → Header → Step}
    {n : Nat}
    (hnext : ∀ d c h, (next d c h).stop? = none → (next d c h).decoder.phase.rank < n)
    (h : (d.withHeader c next).stop? = none) :
    (d.withHeader c next).decoder.phase.rank < n := by
  revert h
  fun_cases withHeader d c next with
  | case3 => exact hnext _ _ _
  | _ => simp

/-- A step that goes on lowers the rank. -/
theorem rank_step_lt {d : Decoder} {c : Cursor} (h : (d.step c).stop? = none) :
    (d.step c).decoder.phase.rank < d.phase.rank := by
  revert h
  fun_cases step d c with
  | case1 hp =>
    refine rank_withHeader_lt fun d c h => ?_
    split <;> simp [Phase.rank, hp]
  | case2 hp =>
    refine rank_withHeader_lt fun d c h => ?_
    split
    · simp
    · split
      · exact fun _ => hp ▸ Nat.lt_of_lt_of_le (rank_enter_lt ..) (by decide)
      · simp [Phase.rank, hp]
  | case3 => simp
  | case4 => simp_all [Phase.rank]
  | case5 item hp =>
    exact fun _ => hp ▸ Nat.lt_of_lt_of_le (rank_enter_lt ..) (Nat.le_add_left 16 2)
  | case6 item hp =>
    refine rank_withHeader_lt fun d c h => ?_
    split <;> simp [Phase.rank, hp]
  | case7 => simp
  | case8 => simp
  | case9 list hp => exact fun _ => hp ▸ rank_enter_lt ..
  | case10 todo current budget hp =>
    rw [hp]
    exact rank_readFields_lt
  | case11 => simp
  | case12 => simp

end Decoder

end TxStream
