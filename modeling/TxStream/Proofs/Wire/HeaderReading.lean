import TxStream.Proofs.Wire.HeaderForms
import TxStream.Wire.PartialHeader

/-!
Reading a header that arrives in pieces, by the bytes alone. `PartialHeader.read` moves a cursor
byte by byte and steps back over a byte that is its own item. `PartialHeader.scan` says what this
comes to: it looks at the held bytes and at those ahead in a row.

* `read_eq`: reading is scanning, and the cursor moves over the bytes that are taken;
* `scan_append_of_stops`, `scan_append_of_waits`: bytes ahead that come in two pieces are scanned
  as in one piece.
-/

namespace TxStream

/-- What a scan for a header comes to. -/
structure Scan where
  /-- The bytes that are held after it. -/
  held : Bytes
  /-- The number of bytes ahead that are used up. -/
  taken : Nat
  /-- The header, or none if the bytes do not suffice. -/
  result : Except DecodeError (Option Header)

namespace PartialHeader

/-- What the bytes ahead come to after some held bytes that do not suffice. -/
def scan (held ahead : Bytes) : Scan :=
  match Header.canDecode (held ++ ahead) with
  | .error e => ⟨ahead.take 1, 1, .error e⟩
  | .ok false => ⟨held ++ ahead, ahead.length, .ok none⟩
  | .ok true =>
    match Header.decode (held ++ ahead) with
    | .error e => ⟨held ++ ahead, ahead.length, .error e⟩
    | .ok h => ⟨[], h.offset - held.length, .ok (some h)⟩

/-! ### The three outcomes -/

lemma scan_of_refused {held ahead : Bytes} {e : DecodeError}
    (h : Header.canDecode (held ++ ahead) = .error e) :
    scan held ahead = ⟨ahead.take 1, 1, .error e⟩ := by
  rw [scan, h]

lemma scan_of_partial {held ahead : Bytes} (h : Header.canDecode (held ++ ahead) = .ok false) :
    scan held ahead = ⟨held ++ ahead, ahead.length, .ok none⟩ := by
  rw [scan, h]

lemma scan_of_decode {held ahead : Bytes} {h : Header}
    (hd : Header.decode (held ++ ahead) = .ok h) :
    scan held ahead = ⟨[], h.offset - held.length, .ok (some h)⟩ := by
  rw [scan, Header.canDecode_eq_true_iff.2 ⟨h, hd⟩]
  simp only [hd]

/-- The outcome of a scan: a header, too few bytes, or a lead byte that is refused. -/
lemma scan_cases (held ahead : Bytes) :
    (∃ h, Header.decode (held ++ ahead) = .ok h) ∨
      Header.canDecode (held ++ ahead) = .ok false ∨
        ∃ e, Header.canDecode (held ++ ahead) = .error e := by
  rcases hc : Header.canDecode (held ++ ahead) with e | _ | _
  · exact .inr (.inr ⟨e, rfl⟩)
  · exact .inr (.inl rfl)
  · exact .inl (Header.exists_decode_of_canDecode hc)

lemma decode_of_scan {held ahead : Bytes} {h : Header}
    (hr : (scan held ahead).result = .ok (some h)) : Header.decode (held ++ ahead) = .ok h := by
  rcases scan_cases held ahead with ⟨h', hd⟩ | hp | ⟨e, he⟩
  · rw [scan_of_decode hd] at hr
    cases hr
    exact hd
  · rw [scan_of_partial hp] at hr
    cases hr
  · rw [scan_of_refused he] at hr
    cases hr

lemma taken_scan_le {held ahead : Bytes} (hheld : Header.canDecode held = .ok false) :
    (scan held ahead).taken ≤ ahead.length := by
  rcases scan_cases held ahead with ⟨h, hd⟩ | hp | ⟨e, he⟩
  · have hle := Header.offset_le_length hd
    rw [List.length_append] at hle
    rw [scan_of_decode hd]
    dsimp only
    omega
  · exact Nat.le_of_eq (by rw [scan_of_partial hp])
  · rw [scan_of_refused he]
    obtain rfl := Header.eq_nil_of_canDecode_append_eq_error hheld he
    cases ahead with
    | nil => cases he
    | cons x ahead => simp

/-! ### Reading is scanning -/

/-- Held bytes that do not suffice leave room for a further byte. -/
lemma readFrom_cons {held behind rest : Bytes} {x : UInt8}
    (hheld : Header.canDecode held = .ok false) :
    readFrom held behind (x :: rest) = readFrom (held ++ [x]) (x :: behind) rest := by
  have h4 := Header.length_le_of_canDecode_eq_false hheld
  conv_lhs => rw [readFrom]
  rw [hheld]
  simp only
  rw [if_neg (by simp only [Header.maxLength]; omega)]

/-- A header is read, and a byte that is its own item is given back. -/
lemma readFrom_of_decode {held behind ahead : Bytes} {h : Header}
    (hheld : Header.canDecode held = .ok false)
    (hd : Header.decode (held ++ ahead) = .ok h) :
    readFrom held behind ahead =
      ⟨⟨[]⟩, (Cursor.take ⟨behind, ahead⟩ (h.offset - held.length)).2, .ok (some h)⟩ := by
  induction ahead generalizing held behind with
  | nil =>
      rw [List.append_nil] at hd
      rw [Header.canDecode_eq_true_iff.2 ⟨h, hd⟩] at hheld
      cases hheld
  | cons x rest ih =>
      rw [readFrom_cons hheld]
      have hsplit : held ++ x :: rest = held ++ [x] ++ rest := by simp
      rw [hsplit] at hd
      rcases hc : Header.canDecode (held ++ [x]) with e | _ | _
      · have := Header.canDecode_append_error hc rest
        rw [Header.canDecode_eq_true_iff.2 ⟨h, hd⟩] at this
        cases this
      · -- the byte does not complete the header, so that more than it are taken
        rw [ih hc hd]
        have hlt := Header.length_lt_offset hc hd
        have hn : h.offset - held.length = h.offset - (held ++ [x]).length + 1 := by
          simp only [List.append_eq_nil_iff, List.cons_ne_self, and_false, false_and,
            false_or] at hlt
          simp only [List.length_append, List.length_singleton] at hlt ⊢
          omega
        rw [hn]
        simp [Cursor.take]
      · -- the byte completes the header
        obtain ⟨h', hd'⟩ := Header.exists_decode_of_canDecode hc
        obtain rfl : h' = h := Except.ok.inj ((Header.decode_append hd' rest).symm.trans hd)
        rw [readFrom.eq_def, hc]
        simp only [finish, hd']
        have hle := Header.offset_le_length hd'
        rw [List.length_append, List.length_singleton] at hle
        rcases Header.length_lt_offset hheld hd' with ⟨rfl, h0⟩ | hlt
        · simp [Header.isSingle, h0, Cursor.rewind, Cursor.take]
        · have hn : h'.offset - held.length = 1 := by omega
          have hs : h'.isSingle = false := by
            simp only [Header.isSingle, beq_eq_false_iff_ne]
            omega
          simp [hs, hn, Cursor.take]

/-- Without a header in sight, all bytes are read and held. -/
lemma readFrom_of_partial {held behind ahead : Bytes}
    (hc : Header.canDecode (held ++ ahead) = .ok false) :
    readFrom held behind ahead =
      ⟨⟨held ++ ahead⟩, (Cursor.take ⟨behind, ahead⟩ ahead.length).2, .ok none⟩ := by
  induction ahead generalizing held behind with
  | nil =>
      rw [List.append_nil] at hc
      rw [readFrom, hc]
      simp [Cursor.take]
  | cons x rest ih =>
      have hheld := Header.canDecode_of_append_eq_false hc
      have hsplit : held ++ x :: rest = held ++ [x] ++ rest := by simp
      rw [readFrom_cons hheld, ih (hsplit ▸ hc)]
      simp [Cursor.take]

/-- A lead byte that is refused is read, and held. -/
lemma readFrom_of_refused {held behind ahead : Bytes} {e : DecodeError}
    (hheld : Header.canDecode held = .ok false)
    (hc : Header.canDecode (held ++ ahead) = .error e) :
    readFrom held behind ahead =
      ⟨⟨ahead.take 1⟩, (Cursor.take ⟨behind, ahead⟩ 1).2, .error e⟩ := by
  obtain rfl := Header.eq_nil_of_canDecode_append_eq_error hheld hc
  cases ahead with
  | nil => cases hc
  | cons x rest =>
      have hx : Header.canDecode [x] = .error e :=
        Header.canDecode_cons_eq_error_iff.2 (Header.canDecode_cons_eq_error_iff.1 hc)
      rw [readFrom_cons hheld, List.nil_append, readFrom.eq_def, hx]
      simp [Cursor.take]

/-- **Reading is scanning**: what a call for a header answers and holds is what the bytes come to,
and the cursor has moved over the bytes that are taken. -/
theorem read_eq {p : PartialHeader} (hp : Header.canDecode p.held = .ok false) (c : Cursor) :
    p.read c = ⟨⟨(scan p.held c.ahead).held⟩, (c.take (scan p.held c.ahead).taken).2,
      (scan p.held c.ahead).result⟩ := by
  rw [read]
  rcases scan_cases p.held c.ahead with ⟨h, hd⟩ | hc | ⟨e, he⟩
  · rw [readFrom_of_decode hp hd, scan_of_decode hd]
  · rw [readFrom_of_partial hc, scan_of_partial hc]
  · rw [readFrom_of_refused hp he, scan_of_refused he]

/-- The bytes that are held after a call without a header still do not suffice. -/
lemma canDecode_held_scan {held ahead : Bytes} {r : Option Header}
    (h : (scan held ahead).result = .ok r) :
    Header.canDecode (scan held ahead).held = .ok false := by
  rcases scan_cases held ahead with ⟨h', hd⟩ | hc | ⟨e, he⟩
  · rw [scan_of_decode hd]
    rfl
  · rw [scan_of_partial hc]
    exact hc
  · rw [scan_of_refused he] at h
    cases h

lemma scan_of_waits {held ahead : Bytes} (h : (scan held ahead).result = .ok none) :
    Header.canDecode (held ++ ahead) = .ok false ∧
      scan held ahead = ⟨held ++ ahead, ahead.length, .ok none⟩ := by
  rcases scan_cases held ahead with ⟨h', hd⟩ | hc | ⟨e, he⟩
  · rw [scan_of_decode hd] at h
    cases h
  · exact ⟨hc, scan_of_partial hc⟩
  · rw [scan_of_refused he] at h
    cases h

/-! ### Bytes in two pieces -/

/-- A scan that does not wait looks at no further bytes. -/
lemma scan_append_of_stops {held a : Bytes} (hheld : Header.canDecode held = .ok false)
    (h : (scan held a).result ≠ .ok none) (b : Bytes) : scan held (a ++ b) = scan held a := by
  rcases scan_cases held a with ⟨h', hd⟩ | hc | ⟨e, he⟩
  · have hd' := Header.decode_append hd b
    rw [List.append_assoc] at hd'
    rw [scan_of_decode hd, scan_of_decode hd']
  · rw [scan_of_partial hc] at h
    exact absurd rfl h
  · have he' := Header.canDecode_append_error he b
    rw [List.append_assoc] at he'
    obtain rfl := Header.eq_nil_of_canDecode_append_eq_error hheld he
    cases a with
    | nil => cases he
    | cons x a =>
        rw [scan_of_refused he, scan_of_refused he', List.cons_append, List.take_succ_cons,
          List.take_succ_cons, List.take_zero, List.take_zero]

/-- A scan that waits goes on with the further bytes. -/
lemma scan_append_of_waits {held a : Bytes} (h : Header.canDecode (held ++ a) = .ok false)
    (b : Bytes) :
    scan held (a ++ b) =
      { scan (held ++ a) b with taken := a.length + (scan (held ++ a) b).taken } := by
  rcases scan_cases (held ++ a) b with ⟨h', hd⟩ | hc | ⟨e, he⟩
  · have hd' : Header.decode (held ++ (a ++ b)) = .ok h' := by rwa [← List.append_assoc]
    rw [scan_of_decode hd, scan_of_decode hd']
    have htaken : h'.offset - held.length = a.length + (h'.offset - (held ++ a).length) := by
      rw [List.length_append]
      rcases Header.length_lt_offset h hd with ⟨hnil, h0⟩ | hlt
      · obtain ⟨rfl, rfl⟩ := List.append_eq_nil_iff.1 hnil
        simp [h0]
      · rw [List.length_append] at hlt
        omega
    rw [htaken]
  · have hc' : Header.canDecode (held ++ (a ++ b)) = .ok false := by rwa [← List.append_assoc]
    rw [scan_of_partial hc, scan_of_partial hc', List.append_assoc, List.length_append]
  · have he' : Header.canDecode (held ++ (a ++ b)) = .error e := by rwa [← List.append_assoc]
    have hnil := Header.eq_nil_of_canDecode_append_eq_error h he
    obtain ⟨rfl, rfl⟩ := List.append_eq_nil_iff.1 hnil
    rw [scan_of_refused he, scan_of_refused he']
    rfl

end PartialHeader

end TxStream
