import Mathlib.Data.List.Basic
import Mathlib.Data.List.TakeWhile
import TxStream.Text.HexInput
import TxStream.Proofs.Text.Spelling

/-!
The notation in which the command line takes bytes: hexadecimal digits, one mark that may stand in
front of them, and white space around both.

* `Blank.Trims`: a text without the white space at its ends (`Blank.trim_eq_iff`);
* `HexInput.Leaves`: what is left of a text without white space and mark, which is one text for each
  (`HexInput.leaves_iff`);
* `HexInput.parse_wrapped`: written bytes are read back, whatever white space is around them and
  with the mark or without;
* `HexInput.parse_notation`: a text is read exactly if digits are left that spell bytes, and is
  refused otherwise for the number of bytes that are left or for the first of them that is no digit.
-/

namespace TxStream

/-! ### White space at the ends -/

namespace Blank

variable {cs text : List Char}

/-- **A text without the white space at its ends.** Nothing but white space is taken away, and
neither end is white space any more. -/
structure Trims (cs text : List Char) : Prop where
  /-- White space is taken away at both ends. -/
  exists_ends : ∃ lead trail, cs = lead ++ text ++ trail ∧
    (∀ c ∈ lead, isBlank c = true) ∧ ∀ c ∈ trail, isBlank c = true
  /-- None is left in front. -/
  head : ∀ c ∈ text.head?, isBlank c = false
  /-- None is left behind. -/
  last : ∀ c ∈ text.getLast?, isBlank c = false

/-- White space is dropped up to the first character that is none. -/
lemma isBlank_head_dropWhile (cs : List Char) :
    ∀ c ∈ (cs.dropWhile isBlank).head?, isBlank c = false := by
  intro c hc
  have hhead := List.head?_dropWhile_not isBlank cs
  rw [Option.mem_def.1 hc] at hhead
  exact hhead

/-- A text that does not begin with white space stays as it is. -/
lemma dropWhile_of_head (h : ∀ c ∈ cs.head?, isBlank c = false) : cs.dropWhile isBlank = cs := by
  cases cs with
  | nil => rfl
  | cons c cs =>
      have hc : isBlank c = false := h c rfl
      rw [List.dropWhile_cons, hc]
      rfl

lemma trims_trim (cs : List Char) : Trims cs (trim cs) := by
  have hstart : cs = cs.takeWhile isBlank ++ trimStart cs :=
    List.takeWhile_append_dropWhile.symm
  have hend : trimStart cs = trim cs ++ ((trimStart cs).reverse.takeWhile isBlank).reverse := by
    rw [trim, trimEnd, ← List.reverse_append, List.takeWhile_append_dropWhile, List.reverse_reverse]
  refine ⟨⟨cs.takeWhile isBlank, ((trimStart cs).reverse.takeWhile isBlank).reverse, ?_, ?_, ?_⟩,
    ?_, ?_⟩
  · rw [List.append_assoc, ← hend]
    exact hstart
  · exact fun c hc => List.mem_takeWhile_imp hc
  · exact fun c hc => List.mem_takeWhile_imp (List.mem_reverse.1 hc)
  · intro c hc
    have hfront : c ∈ (trimStart cs).head? := by
      rw [hend, List.head?_append, Option.mem_def.1 hc]
      rfl
    exact isBlank_head_dropWhile cs c hfront
  · intro c hc
    rw [trim, trimEnd, List.getLast?_reverse] at hc
    exact isBlank_head_dropWhile _ c hc

/-- There is one such text. -/
lemma Trims.trim_eq (h : Trims cs text) : trim cs = text := by
  obtain ⟨⟨lead, trail, rfl, hlead, htrail⟩, hhead, hlast⟩ := h
  have hstart : trimStart (lead ++ text ++ trail) = text ++ if text = [] then [] else trail := by
    rw [trimStart, List.append_assoc, List.dropWhile_append_of_pos hlead]
    split_ifs with hnil
    · rw [hnil, List.nil_append]
      exact List.dropWhile_eq_nil_iff.2 htrail
    · refine dropWhile_of_head fun c hc => hhead c ?_
      rwa [List.head?_append_of_ne_nil _ hnil] at hc
  have hrest : ∀ c ∈ (if text = [] then [] else trail), isBlank c = true := by
    split_ifs
    · exact List.forall_mem_nil _
    · exact htrail
  have hback : ∀ c ∈ text.reverse.head?, isBlank c = false := by
    rw [List.head?_reverse]
    exact hlast
  rw [trim, hstart, trimEnd, List.reverse_append, List.dropWhile_append_of_pos,
    dropWhile_of_head hback, List.reverse_reverse]
  exact fun c hc => hrest c (List.mem_reverse.1 hc)

/-- **Trimming takes away the white space at the ends**, and nothing else. -/
theorem trim_eq_iff : trim cs = text ↔ Trims cs text :=
  ⟨fun h => h ▸ trims_trim cs, Trims.trim_eq⟩

lemma isBlank_of_isDigit {c : Char} {n : Nat} (h : Hex.IsDigit c n) : isBlank c = false := by
  rw [Hex.isDigit_iff] at h
  simp only [isBlank, ranges, List.any_cons, List.any_nil, Bool.or_false, Bool.or_eq_false_iff,
    Bool.and_eq_false_iff, decide_eq_false_iff_not]
  omega

end Blank

namespace HexInput

variable {s : String} {rest : List Char}

/-! ### One mark in front -/

lemma dropMark_eq_self {text : List Char} (h : ¬['0', 'x'] <+: text) :
    dropMark text = text := by
  rw [dropMark]
  rintro cs rfl
  exact h (List.prefix_append ['0', 'x'] cs)

lemma dropMark_eq_iff {text : List Char} : dropMark text = rest ↔
    text = '0' :: 'x' :: rest ∨ text = rest ∧ ¬['0', 'x'] <+: rest := by
  by_cases hmark : ['0', 'x'] <+: text
  · obtain ⟨cs, rfl⟩ := hmark
    constructor
    · rintro rfl
      exact .inl rfl
    · rintro (heq | ⟨rfl, hnot⟩)
      · exact (List.cons.inj (List.cons.inj heq).2).2
      · exact absurd (List.prefix_append ['0', 'x'] cs) hnot
  · rw [dropMark_eq_self hmark]
    constructor
    · rintro rfl
      exact .inr ⟨rfl, hmark⟩
    · rintro (rfl | ⟨rfl, -⟩)
      · exact absurd (List.prefix_append ['0', 'x'] rest) hmark
      · rfl

/-- **What is left of a text** without the white space at its ends, and then without the one mark
that may stand in front. -/
def Leaves (s : String) (rest : List Char) : Prop :=
  ∃ text, Blank.Trims s.toList text ∧
    (text = '0' :: 'x' :: rest ∨ text = rest ∧ ¬['0', 'x'] <+: rest)

/-- What is left is what the command line reads. -/
lemma leaves_iff : Leaves s rest ↔ rest = dropMark (Blank.trim s.toList) := by
  constructor
  · rintro ⟨text, htrims, hrest⟩
    rw [Blank.trim_eq_iff.2 htrims, dropMark_eq_iff.2 hrest]
  · rintro rfl
    exact ⟨_, Blank.trim_eq_iff.1 rfl, dropMark_eq_iff.1 rfl⟩

/-! ### The notation -/

/-- **Written bytes are read back**, in any white space and with the mark or without. -/
theorem parse_wrapped (b : Bytes) {lead trail mark : List Char}
    (hlead : ∀ c ∈ lead, Blank.isBlank c = true) (htrail : ∀ c ∈ trail, Blank.isBlank c = true)
    (hmark : mark = [] ∨ mark = ['0', 'x']) :
    parse (String.ofList (lead ++ mark ++ (Hex.encode b).toList ++ trail)) = .ok b := by
  have hdigits := Hex.spells_digits b
  have hnoMark : ¬['0', 'x'] <+: Hex.digits b := by
    intro h
    have hx : 'x' ∈ Hex.digits b := h.subset (List.mem_cons_of_mem _ List.mem_cons_self)
    exact absurd (Hex.mem_lowerDigits_of_mem_digits b _ hx) (by decide)
  have htext : ∀ c ∈ mark ++ Hex.digits b, Blank.isBlank c = false := by
    intro c hc
    rcases List.mem_append.1 hc with hc | hc
    · rcases hmark with rfl | rfl
      · cases hc
      · rcases List.mem_cons.1 hc with rfl | hc
        · rfl
        · rw [List.mem_singleton.1 hc]
          rfl
    · obtain ⟨n, hn⟩ := hdigits.isDigit c hc
      exact Blank.isBlank_of_isDigit hn
  have htrims : Blank.Trims (lead ++ (mark ++ Hex.digits b) ++ trail) (mark ++ Hex.digits b) :=
    ⟨⟨lead, trail, rfl, hlead, htrail⟩, fun c hc => htext c (List.mem_of_mem_head? hc),
      fun c hc => htext c (List.mem_of_getLast? hc)⟩
  have hrest : dropMark (mark ++ Hex.digits b) = Hex.digits b := by
    refine dropMark_eq_iff.2 ?_
    rcases hmark with rfl | rfl
    · exact .inr ⟨rfl, hnoMark⟩
    · exact .inl rfl
  rw [parse, String.toList_ofList, Hex.encode, String.toList_ofList, List.append_assoc lead,
    Blank.trim_eq_iff.2 htrims, hrest, Hex.decode_digits]

/-- **The notation of the command line.** One text is left of any text, without the white space at
its ends and the mark in front.
* Bytes are read exactly if what is left are their digits, two a byte and in any case.
* The text is refused for its length exactly if the bytes that are left are odd in number.
* Otherwise it is refused for the first byte that is no digit, at its place behind the mark.

Hence bytes that are written are read back, in any white space and with the mark or without. -/
theorem parse_notation :
    (∀ s, ∃ rest, (∀ cs, Leaves s cs ↔ cs = rest) ∧
      (∀ b, parse s = .ok b ↔ rest.length = 2 * b.length ∧ Hex.Spells rest b) ∧
      (parse s = .error .oddLength ↔ (Hex.utf8 rest).length % 2 = 1) ∧
      ∀ x place, parse s = .error (.invalidDigit x place) ↔
        (Hex.utf8 rest).length % 2 = 0 ∧ Hex.FirstInvalid (Hex.utf8 rest) x place) ∧
    ∀ (b : Bytes) (lead trail mark : List Char), (∀ c ∈ lead, Blank.isBlank c = true) →
      (∀ c ∈ trail, Blank.isBlank c = true) → mark = [] ∨ mark = ['0', 'x'] →
      parse (String.ofList (lead ++ mark ++ (Hex.encode b).toList ++ trail)) = .ok b := by
  refine ⟨fun s => ⟨dropMark (Blank.trim s.toList), fun cs => leaves_iff, fun b => ?_,
    Hex.decode_eq_oddLength_iff, fun x place => Hex.decode_eq_invalidDigit_iff⟩,
    fun b lead trail mark hlead htrail hmark => parse_wrapped b hlead htrail hmark⟩
  constructor
  · intro h
    have hspells := Hex.decode_eq_ok_iff.1 h
    exact ⟨hspells.length_eq, hspells⟩
  · rintro ⟨-, hspells⟩
    exact Hex.decode_eq_ok_iff.2 hspells

/-- Mixed case and a mark are read, a second mark is no digit, and half a byte is refused whatever
it is. -/
example : parse " 0xAb\n" = .ok [0xab] ∧ parse "0x0x" = .error (.invalidDigit 0x78 1) ∧
    parse "0xx" = .error .oddLength := ⟨rfl, rfl, rfl⟩

end HexInput

end TxStream
