import Mathlib.Data.List.Basic
import TxStream.Summary.Format

/-!
The two readers of hexadecimal text, which differ in the marks that may stand in front: the command
line drops one, and `Summary.ofHex` drops them all.

* `HexInput.RepeatsMark`: two marks stand in front;
* `parseRepeated_eq_parse`: unless they do, the readers agree;
* `exists_parse_eq_error`: if they do, the command line refuses the text;
* `ofHex_agrees_iff`: so summaries agree with the command line unless the mark is repeated in front
  of digits, and `ofHex_repeated_mark` is a text where they do not.
-/

namespace TxStream

namespace HexInput

/-- Two marks stand in front of a text, after white space. -/
def RepeatsMark (s : String) : Prop := ['0', 'x', '0', 'x'] <+: Blank.trim s.toList

variable {s : String} {cs : List Char}

/-! ### Marks -/

/-- Without two marks in front, all marks are at most one. -/
lemma dropMarks_eq_dropMark (h : ¬['0', 'x', '0', 'x'] <+: cs) : dropMarks cs = dropMark cs := by
  fun_cases dropMark cs with
  | case1 rest =>
      rw [dropMarks]
      fun_cases dropMarks rest with
      | case1 rest => exact absurd (List.prefix_append ['0', 'x', '0', 'x'] rest) h
      | case2 => rfl
  | case2 _ hnone =>
      rw [dropMarks]
      exact hnone

/-- A mark is not hexadecimal. -/
lemma exists_decode_eq_error (cs : List Char) :
    ∃ e, Hex.decode ('0' :: 'x' :: cs) = .error e := by
  have hutf8 : Hex.utf8 ('0' :: 'x' :: cs) = 0x30 :: 0x78 :: Hex.utf8 cs := rfl
  rw [Hex.decode, hutf8]
  split_ifs
  · exact ⟨_, rfl⟩
  · exact ⟨_, rfl⟩

/-! ### The two readers -/

/-- **Unless the mark is repeated, the readers agree.** -/
theorem parseRepeated_eq_parse (h : ¬RepeatsMark s) : parseRepeated s = parse s := by
  rw [parseRepeated, parse, dropMarks_eq_dropMark h]

/-- **A repeated mark is refused** where one mark is dropped. -/
theorem exists_parse_eq_error (h : RepeatsMark s) : ∃ e, parse s = .error e := by
  obtain ⟨cs, hcs⟩ := h
  rw [parse, ← hcs]
  exact exists_decode_eq_error cs

end HexInput

namespace Summary

variable {s : String} {n : Nat}

lemma exists_ofHex_eq_hex_iff :
    (∃ e, ofHex s n = .error (.hex e)) ↔ ∃ e, HexInput.parseRepeated s = .error e := by
  rw [ofHex]
  rcases HexInput.parseRepeated s with e | raw
  · simp
  · rcases hd : decodeChunked raw n with e | tx <;> simp [hd]

lemma ofHex_eq_ok_iff {summary : Summary} :
    ofHex s n = .ok summary ↔ ∃ raw, HexInput.parseRepeated s = .ok raw ∧
      ∃ tx, decodeChunked raw n = .ok tx ∧ ofTransaction tx = summary := by
  rw [ofHex]
  rcases HexInput.parseRepeated s with e | raw
  · simp
  · rcases hd : decodeChunked raw n with e | tx <;> simp [hd]

/-- **Summaries agree with the command line unless the mark is repeated.** For every text and every
size of chunks: a summary is given exactly if the text as the command line reads it spells a
transaction with this summary, and the text is refused exactly if the command line refuses it,
unless two marks or more stand in front of digits. There the text is refused by the command line
alone. -/
theorem ofHex_agrees_iff (s : String) (n : Nat) :
    ((∀ summary, ofHex s n = .ok summary ↔ ∃ raw, HexInput.parse s = .ok raw ∧
        ∃ tx, decodeChunked raw n = .ok tx ∧ ofTransaction tx = summary) ∧
      ((∃ e, ofHex s n = .error (.hex e)) ↔ ∃ e, HexInput.parse s = .error e)) ↔
    ¬(HexInput.RepeatsMark s ∧ ∃ raw, HexInput.parseRepeated s = .ok raw) := by
  constructor
  · rintro ⟨-, hrefused⟩ ⟨hmark, raw, hraw⟩
    obtain ⟨e, he⟩ := exists_ofHex_eq_hex_iff.1 (hrefused.2 (HexInput.exists_parse_eq_error hmark))
    cases hraw.symm.trans he
  · intro hnot
    by_cases hmark : HexInput.RepeatsMark s
    · -- both readers refuse the text
      obtain ⟨e, he⟩ := HexInput.exists_parse_eq_error hmark
      rcases hr : HexInput.parseRepeated s with e' | raw
      · refine ⟨fun summary => ?_, exists_ofHex_eq_hex_iff.trans ?_⟩
        · rw [ofHex_eq_ok_iff, hr, he]
          simp
        · rw [hr, he]
          simp
      · exact absurd ⟨hmark, raw, hr⟩ hnot
    · rw [← HexInput.parseRepeated_eq_parse hmark]
      exact ⟨fun summary => ofHex_eq_ok_iff, exists_ofHex_eq_hex_iff⟩

/-- A legacy transaction without payloads after two marks: it has a summary, and the command line
refuses it. -/
theorem ofHex_repeated_mark :
    1 ≤ 255 ∧ 255 ≤ maxChunkLength ∧
      ofHex "0x0xc9808080808080808080" 255 = .ok (ofTransaction {}) ∧
      HexInput.parse "0x0xc9808080808080808080" = .error (.invalidDigit 0x78 1) := by
  have hraw : HexInput.parseRepeated "0x0xc9808080808080808080"
      = .ok ([0xc9] ++ List.replicate 9 0x80) := rfl
  have htx : decodeChunked ([0xc9] ++ List.replicate 9 0x80) 255 = .ok {} := by cbv
  exact ⟨by decide, by decide, ofHex_eq_ok_iff.2 ⟨_, hraw, _, htx, rfl⟩, rfl⟩

end Summary

end TxStream
