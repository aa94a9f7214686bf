import Mathlib.Data.List.Basic
import TxStream.Json.Reader

/-!
Objects whose members are strings, natural numbers and truth values are read back from their text.

* `readString_quote`: a string, whatever characters are in it;
* `readPositive_digits`: a natural number;
* `readValue_scalar`, `readMembers_pretty`: a member, and the members of an object in order;
* `parse?_pretty`: an object, so that its text determines it;
* `pretty_obj`: that text has a line for each member, two blanks deep;
* `field?_eq`: a member is found by its name where no other has the name.
-/

namespace TxStream

/-! ### Digits -/

namespace Decimal

variable {n : Nat} {c : Char} {cs : List Char}

lemma digits_ne_zero_cons (n : Nat) (c : Char) (cs : List Char) : digits n ≠ '0' :: c :: cs := by
  -- the front of the digits is that of a tenth of the number, down to a single digit
  have hsingle : ∀ m < 10, digit m = '0' → m = 0 := by decide
  fun_induction digits n generalizing c cs with
  | case1 n h => simp
  | case2 n h ih =>
      intro heq
      rcases hfront : digits (n / 10) with _ | ⟨x, _ | ⟨y, l⟩⟩
      · exact digits_ne_nil _ hfront
      · rw [hfront, List.singleton_append, List.cons.injEq] at heq
        obtain ⟨rfl, -⟩ := heq
        rw [digits] at hfront
        split_ifs at hfront with hlt
        · have hzero := hsingle _ hlt (List.cons.inj hfront).1
          omega
        · have hlen := congrArg List.length hfront
          have hpos := List.length_pos_iff.2 (digits_ne_nil (n / 10 / 10))
          rw [List.length_append] at hlen
          simp only [List.length_singleton] at hlen
          omega
      · rw [hfront, List.cons_append, List.cons.injEq] at heq
        obtain ⟨rfl, -⟩ := heq
        exact ih y l hfront

end Decimal

namespace Json

variable {r rest : List Char}

/-! ### White space and words -/

lemma skipSpace_append {ws : List Char} (h : ∀ c ∈ ws, isSpace c = true) (r : List Char) :
    skipSpace (ws ++ r) = skipSpace r :=
  List.dropWhile_append_of_pos h

lemma skipSpace_cons {c : Char} (h : isSpace c = false) (r : List Char) :
    skipSpace (c :: r) = c :: r := by
  rw [skipSpace, List.dropWhile_cons, if_neg (by simp [h])]

lemma isSpace_of_mem_newline {depth : Nat} : ∀ c ∈ newline depth, isSpace c = true := by
  intro c hc
  rcases List.mem_cons.1 hc with rfl | hc
  · rfl
  · rw [List.eq_of_mem_replicate hc]
    rfl

lemma readWord_append (w r : List Char) : readWord w (w ++ r) = some r := by
  induction w with
  | nil => cases r <;> rfl
  | cons c w ih => rw [List.cons_append, readWord, if_pos rfl, ih]

/-! ### Strings -/

lemma hexDigit?_digit : ∀ n < 16, hexDigit? (Hex.digit n) = some n := by
  decide

/-- The four digits for a control character spell it. -/
lemma hexUnit?_ofByte {n : Nat} (h : n < 0x20) :
    hexUnit? '0' '0' (Hex.digit (n / 16)) (Hex.digit (n % 16)) = some n := by
  have hzero : hexDigit? '0' = some 0 := by decide
  rw [hexUnit?, hzero, hexDigit?_digit _ (by omega), hexDigit?_digit _ (by omega)]
  simp only [Option.bind_eq_bind, Option.bind_some, Option.pure_def, Option.some.injEq]
  omega

/-- A character is read as it stands in a quoted string. -/
lemma readString_escape (c : Char) (r : List Char) :
    readString (escape c ++ r) = consChar c (readString r) := by
  rw [escape]
  split_ifs with hquote hback hb ht hn hf hr hcontrol
  · subst hquote
    rfl
  · subst hback
    rfl
  · subst hb
    rfl
  · subst ht
    rfl
  · subst hn
    rfl
  · subst hf
    rfl
  · subst hr
    rfl
  · have hbyte : (UInt8.ofNat c.toNat).toNat = c.toNat := Nat.mod_eq_of_lt (by omega)
    have hunit := hexUnit?_ofByte hcontrol
    rw [Hex.ofByte, hbyte]
    simp only [List.cons_append, List.nil_append]
    rw [readString]
    simp only [hunit]
    rw [if_neg (by decide), if_neg (by decide), if_pos trivial, if_neg (by omega),
      if_neg (by omega), Char.ofNat_toNat]
  · rw [List.singleton_append, readString.eq_def]
    simp only [hquote, hback, hcontrol, if_false]

/-- **A string is read back from between its quotation marks**, whatever characters are in it. -/
lemma readString_quote (s : List Char) (r : List Char) :
    readString (s.flatMap escape ++ '"' :: r) = some (s, r) := by
  induction s with
  | nil =>
      rw [List.flatMap_nil, List.nil_append, readString.eq_def]
      exact if_pos rfl
  | cons c s ih => rw [List.flatMap_cons, List.append_assoc, readString_escape, ih, consChar]

/-! ### Scalars -/

/-- A string, a natural number or a truth value. -/
inductive IsScalar : Json → Prop
  | bool (b : Bool) : IsScalar (.bool b)
  | nat (n : Nat) : IsScalar (.nat n)
  | str (s : String) : IsScalar (.str s)

/-- What follows a member: a comma, or the line of the closing brace. -/
def Follows (r : List Char) : Prop := ∃ rest, r = ',' :: rest ∨ r = '\n' :: rest

lemma takeWhile_digits (n : Nat) (hr : Follows r) :
    (Decimal.digits n ++ r).takeWhile Decimal.isDigit = Decimal.digits n ∧
      (Decimal.digits n ++ r).dropWhile Decimal.isDigit = r := by
  have hall := List.all_eq_true.1 (Decimal.all_isDigit_digits n)
  rw [List.takeWhile_append_of_pos hall, List.dropWhile_append_of_pos hall]
  obtain ⟨rest, rfl | rfl⟩ := hr
  · exact ⟨List.append_nil _, rfl⟩
  · exact ⟨List.append_nil _, rfl⟩

/-- A natural number is read back from its digits. -/
lemma readPositive_digits (n : Nat) (hr : Follows r) :
    readPositive (Decimal.digits n ++ r) = some (.nat n, r) := by
  obtain ⟨htake, hdrop⟩ := takeWhile_digits n hr
  have hwhole : readWhole (Decimal.digits n ++ r) = some (Decimal.digits n, r) := by
    have hdigits : readDigits (Decimal.digits n ++ r) = some (Decimal.digits n, r) := by
      rw [readDigits, htake, hdrop]
      exact if_neg (Decimal.digits_ne_nil n)
    rw [readWhole, hdigits]
    split
    · next c cs _ heq =>
      exact absurd (congrArg Prod.fst (Option.some.inj heq)) (Decimal.digits_ne_zero_cons n c cs)
    · rfl
  have hrest : readFraction r = some ([], r) ∧ readExponent r = some ([], r) := by
    obtain ⟨rest, rfl | rfl⟩ := hr
    · exact ⟨rfl, rfl⟩
    · exact ⟨rfl, rfl⟩
  rw [readPositive, hwhole]
  simp only [Option.bind_eq_bind, Option.bind_some, hrest.1, hrest.2, and_self, if_true,
    Decimal.valueFrom_digits]
  rfl

/-- A number begins with a digit, which begins no other value and is no white space. -/
lemma exists_digits_cons (n : Nat) : ∃ c cs, Decimal.digits n = c :: cs ∧ isSpace c = false ∧
    c ∉ ['"', '[', '\x7b', 'n', 't', 'f', '-'] := by
  rcases hd : Decimal.digits n with _ | ⟨c, cs⟩
  · exact absurd hd (Decimal.digits_ne_nil n)
  · have hdigit : Decimal.isDigit c = true :=
      List.all_eq_true.1 (Decimal.all_isDigit_digits n) c (hd ▸ List.mem_cons_self)
    have hne : ∀ x, Decimal.isDigit x = false → c ≠ x := by
      rintro x hx rfl
      rw [hdigit] at hx
      cases hx
    refine ⟨c, cs, rfl, ?_, ?_⟩
    · simp only [isSpace, Bool.or_eq_false_iff, beq_eq_false_iff_ne]
      exact ⟨⟨⟨hne _ rfl, hne _ rfl⟩, hne _ rfl⟩, hne _ rfl⟩
    · intro hmem
      have hall : (['"', '[', '\x7b', 'n', 't', 'f', '-'].all (!Decimal.isDigit ·)) = true := rfl
      have hnot := List.all_eq_true.1 hall c hmem
      rw [hdigit] at hnot
      cases hnot

/-- **A scalar is read back** in front of what follows it, with white space before it. -/
lemma readValue_scalar {v : Json} (hv : IsScalar v) {ws : List Char}
    (hws : ∀ c ∈ ws, isSpace c = true) (depth turns : Nat) (hr : Follows r) :
    readValue (turns + 1) (ws ++ (prettyAt depth v ++ r)) = some (v, r) := by
  rw [readValue, skipSpace_append hws]
  cases hv with
  | bool b =>
      cases b with
      | false =>
          have hword : readWord "alse".toList ('a' :: 'l' :: 's' :: 'e' :: r) = some r :=
            readWord_append ['a', 'l', 's', 'e'] r
          have htext : prettyAt depth (.bool false) ++ r = 'f' :: 'a' :: 'l' :: 's' :: 'e' :: r :=
            rfl
          rw [htext, skipSpace_cons rfl]
          dsimp only
          rw [hword]
          rfl
      | true =>
          have hword : readWord "rue".toList ('r' :: 'u' :: 'e' :: r) = some r :=
            readWord_append ['r', 'u', 'e'] r
          have htext : prettyAt depth (.bool true) ++ r = 't' :: 'r' :: 'u' :: 'e' :: r := rfl
          rw [htext, skipSpace_cons rfl]
          dsimp only
          rw [hword]
          rfl
  | str s =>
      have htext : prettyAt depth (.str s) ++ r = '"' :: (s.toList.flatMap escape ++ '"' :: r) := by
        simp [prettyAt, quote]
      rw [htext, skipSpace_cons rfl]
      simp only [if_true, readString_quote, Option.map_some, String.ofList_toList]
  | nat n =>
      -- the first digit is none of the characters with which the other values begin
      obtain ⟨c, cs, hd, hspace, hne⟩ := exists_digits_cons n
      have hread := readPositive_digits n hr
      rw [hd, List.cons_append] at hread
      simp only [List.mem_cons, not_or, List.not_mem_nil, not_false_eq_true, and_true] at hne
      obtain ⟨hquote, hbracket, hbrace, hn, ht, hf, hminus⟩ := hne
      rw [prettyAt, hd, List.cons_append, skipSpace_cons hspace]
      simp only [hquote, hbracket, hbrace, hn, ht, hf, if_false]
      rw [readNumber]
      · exact hread
      · intro rest heq
        exact hminus (List.cons.inj heq).1

/-! ### Objects -/

lemma follows_members (members : List (String × Json)) (rest : List Char) :
    Follows (prettyMembers 1 members ++ (newline 0 ++ '\x7d' :: rest)) := by
  rcases members with _ | ⟨⟨k, v⟩, members⟩
  · exact ⟨_, .inr rfl⟩
  · rw [prettyMembers]
    simp only [List.cons_append]
    exact ⟨_, .inl rfl⟩

lemma quote_append (k : String) (r : List Char) :
    quote k ++ r = '"' :: (k.toList.flatMap escape ++ '"' :: r) := by
  rw [quote, List.cons_append, List.cons_append, List.append_assoc, List.singleton_append]

section Member

variable {k : String} {v : Json} {ws : List Char} {turns : Nat}

/-- The value of a member is read back behind its key. -/
lemma readValue_member (hv : IsScalar v) (hr : Follows r) :
    readValue (turns + 1) (' ' :: (prettyAt 1 v ++ r)) = some (v, r) := by
  have hblank : ∀ c ∈ [' '], isSpace c = true := List.forall_mem_singleton.2 rfl
  exact readValue_scalar hv hblank 1 turns hr

lemma readMembers_last (hv : IsScalar v) (hws : ∀ c ∈ ws, isSpace c = true) (hr : Follows r)
    (hclose : skipSpace r = '\x7d' :: rest) :
    readMembers (turns + 2) (ws ++ (quote k ++ ':' :: ' ' :: (prettyAt 1 v ++ r)))
      = some ([(k, v)], rest) := by
  rw [readMembers, skipSpace_append hws, quote_append, skipSpace_cons rfl]
  simp only [readString_quote]
  rw [skipSpace_cons rfl]
  simp only [readValue_member hv hr, hclose, String.ofList_toList]

lemma readMembers_next (hv : IsScalar v) (hws : ∀ c ∈ ws, isSpace c = true) (hr : Follows r)
    (hcomma : skipSpace r = ',' :: rest) :
    readMembers (turns + 2) (ws ++ (quote k ++ ':' :: ' ' :: (prettyAt 1 v ++ r)))
      = (readMembers (turns + 1) rest).map fun m => ((k, v) :: m.1, m.2) := by
  rw [readMembers, skipSpace_append hws, quote_append, skipSpace_cons rfl]
  simp only [readString_quote]
  rw [skipSpace_cons rfl]
  simp only [readValue_member hv hr, hcomma, String.ofList_toList]

end Member

/-- What stands after the key of a member: its value, the further members, the closing brace and
the rest. -/
def afterKey (v : Json) (members : List (String × Json)) (rest : List Char) : List Char :=
  ':' :: ' ' :: (prettyAt 1 v ++ (prettyMembers 1 members ++ (newline 0 ++ '\x7d' :: rest)))

/-- **The members of an object are read back in order**, if there are turns enough. -/
lemma readMembers_pretty {members : List (String × Json)} (hm : ∀ m ∈ members, IsScalar m.2)
    {k : String} {v : Json} (hv : IsScalar v) {turns : Nat} (hturns : members.length ≤ turns)
    {ws : List Char} (hws : ∀ c ∈ ws, isSpace c = true) (rest : List Char) :
    readMembers (turns + 2) (ws ++ (quote k ++ afterKey v members rest))
      = some ((k, v) :: members, rest) := by
  have hfollows := follows_members members rest
  -- by induction on the members behind the first, each of which takes a turn
  induction members generalizing k v turns ws with
  | nil =>
      refine readMembers_last hv hws hfollows ?_
      rw [prettyMembers, List.nil_append, skipSpace_append isSpace_of_mem_newline,
        skipSpace_cons rfl]
  | cons m members ih =>
      obtain ⟨k', v'⟩ := m
      obtain ⟨turns, rfl⟩ : ∃ n, turns = n + 1 := ⟨turns - 1, by
        rw [List.length_cons] at hturns
        omega⟩
      have hturns' : members.length ≤ turns := Nat.le_of_succ_le_succ hturns
      have hm' : ∀ m ∈ members, IsScalar m.2 := fun m hmem => hm m (List.mem_cons_of_mem _ hmem)
      have hrest : readMembers (turns + 2) (newline 1 ++ (quote k' ++ afterKey v' members rest))
          = some ((k', v') :: members, rest) :=
        ih hm' (hm _ List.mem_cons_self) hturns' isSpace_of_mem_newline (follows_members _ rest)
      have hcomma : skipSpace (prettyMembers 1 ((k', v') :: members) ++
          (newline 0 ++ '\x7d' :: rest))
          = ',' :: (newline 1 ++ (quote k' ++ afterKey v' members rest)) := by
        rw [prettyMembers, afterKey]
        simp only [List.cons_append, List.append_assoc, List.nil_append]
        rw [skipSpace_cons rfl]
      rw [afterKey, readMembers_next hv hws hfollows hcomma, hrest]
      rfl

/-- An object is written with a character for each of its members at least. -/
lemma length_le_prettyMembers (depth : Nat) (members : List (String × Json)) :
    members.length ≤ (prettyMembers depth members).length := by
  induction members with
  | nil => exact Nat.zero_le _
  | cons m members ih =>
      obtain ⟨k, v⟩ := m
      rw [prettyMembers]
      simp only [List.length_cons, List.length_append]
      omega

/-- **An object of scalars is read back from its text.** -/
theorem parse?_pretty {members : List (String × Json)} (hm : ∀ m ∈ members, IsScalar m.2) :
    parse? (pretty (.obj members)) = some (.obj members) := by
  rcases members with _ | ⟨⟨k, v⟩, members⟩
  · rfl
  · have hm' : ∀ m ∈ members, IsScalar m.2 := fun m hmem => hm m (List.mem_cons_of_mem _ hmem)
    have htext : prettyAt 0 (.obj ((k, v) :: members))
        = '\x7b' :: (newline 1 ++ (quote k ++ afterKey v members [])) := by
      rw [prettyAt, afterKey]
      simp only [List.cons_append, List.append_assoc, List.nil_append, Nat.zero_add]
    have hlen := length_le_prettyMembers 1 members
    obtain ⟨turns, hturns, hle⟩ : ∃ turns, 2 * (prettyAt 0 (.obj ((k, v) :: members))).length + 1
        = turns + 2 + 1 ∧ members.length ≤ turns := by
      refine ⟨2 * (prettyAt 0 (.obj ((k, v) :: members))).length - 2, ?_, ?_⟩ <;>
        rw [htext, afterKey] <;> simp only [List.length_cons, List.length_append] <;> omega
    have hread : readMembers (turns + 2) (quote k ++ afterKey v members [])
        = some ((k, v) :: members, []) :=
      readMembers_pretty hm' (hm _ List.mem_cons_self) hle (List.forall_mem_nil _) []
    have hspace : skipSpace (newline 1 ++ (quote k ++ afterKey v members []))
        = quote k ++ afterKey v members [] := by
      rw [skipSpace_append isSpace_of_mem_newline, quote_append, skipSpace_cons rfl]
    have hvalue : readValue (turns + 2 + 1) (prettyAt 0 (.obj ((k, v) :: members)))
        = some (.obj ((k, v) :: members), []) := by
      rw [htext, readValue, skipSpace_cons rfl]
      simp only [hspace]
      rw [quote_append] at hread ⊢
      rw [if_neg (by decide), if_neg (by decide), if_pos trivial]
      exact congrArg (Option.map fun m => (obj m.1, m.2)) hread
    rw [parse?, pretty, String.toList_ofList, hturns, hvalue]
    rfl

/-! ### Lines -/

/-- The line of a member, but for the comma. -/
def memberLine (m : String × Json) : String :=
  "  " ++ String.ofList (quote m.1) ++ ": " ++ m.2.pretty

/-- Scalars are written alike at all depths. -/
lemma prettyAt_eq_toList_pretty {v : Json} (hv : IsScalar v) (depth : Nat) :
    prettyAt depth v = v.pretty.toList := by
  rw [pretty, String.toList_ofList]
  cases hv with
  | bool b => cases b <;> rfl
  | nat n => rw [prettyAt, prettyAt]
  | str s => rw [prettyAt, prettyAt]

lemma toList_memberLine (m : String × Json) :
    (memberLine m).toList = ' ' :: ' ' :: (quote m.1 ++ ':' :: ' ' :: m.2.pretty.toList) := by
  simp [memberLine]

/-- The lines of the members after the first, each behind a comma. -/
lemma prettyMembers_eq {members : List (String × Json)} (hm : ∀ m ∈ members, IsScalar m.2)
    (first : String) :
    first.toList ++ prettyMembers 1 members =
      (",\n".intercalate (first :: members.map memberLine)).toList := by
  induction members generalizing first with
  | nil => simp [prettyMembers]
  | cons m members ih =>
      obtain ⟨k, v⟩ := m
      have hv : prettyAt 1 v = v.pretty.toList :=
        prettyAt_eq_toList_pretty (hm _ List.mem_cons_self) 1
      have hm' : ∀ m ∈ members, IsScalar m.2 := fun m hmem => hm m (List.mem_cons_of_mem _ hmem)
      rw [List.map_cons, String.intercalate_cons_cons, String.toList_append, ← ih hm',
        toList_memberLine, prettyMembers, hv]
      simp [newline, List.replicate]

/-- **An object of scalars has a line for each member**, two blanks deep, commas in between, and
the braces on lines of their own. -/
theorem pretty_obj {members : List (String × Json)} (hne : members ≠ [])
    (hm : ∀ m ∈ members, IsScalar m.2) :
    pretty (.obj members) =
      "\x7b\n" ++ ",\n".intercalate (members.map memberLine) ++ "\n\x7d" := by
  rcases members with _ | ⟨⟨k, v⟩, members⟩
  · exact absurd rfl hne
  · have hv : prettyAt 1 v = v.pretty.toList :=
      prettyAt_eq_toList_pretty (hm _ List.mem_cons_self) 1
    have hm' : ∀ m ∈ members, IsScalar m.2 := fun m hmem => hm m (List.mem_cons_of_mem _ hmem)
    rw [← String.toList_inj, String.toList_append, String.toList_append, List.map_cons,
      ← prettyMembers_eq hm', toList_memberLine, pretty, String.toList_ofList, prettyAt, hv]
    simp [newline, List.replicate]

/-! ### Members by name -/

/-- A member is found by its name if all members of the name have one value. -/
lemma field?_eq {members : List (String × Json)} {name : String} {o : Option Json}
    (h : ∀ v, (name, v) ∈ members ↔ o = some v) : field? members name = o := by
  rw [field?]
  cases hfound : members.reverse.find? (fun m => m.1 == name) with
  | none =>
      cases o with
      | none => rfl
      | some v =>
          have hmem : (name, v) ∈ members.reverse := List.mem_reverse.2 ((h v).2 rfl)
          have hother := List.find?_eq_none.1 hfound _ hmem
          exact absurd (beq_self_eq_true name) hother
  | some m =>
      obtain ⟨k, v⟩ := m
      have hbeq := List.find?_some hfound
      have hname : k = name := eq_of_beq hbeq
      have hmem : (k, v) ∈ members := List.mem_reverse.1 (List.mem_of_find?_eq_some hfound)
      rw [hname] at hmem
      exact ((h v).1 hmem).symm

end Json

end TxStream
