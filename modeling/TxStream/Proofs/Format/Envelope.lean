import TxStream.Proofs.Format.Rows

/-!
From the outer header to the first field.

* `yields_init_iff`: any list header may stand outside;
* `yields_plain_iff`: a first item that is a nonce is read again as the first field of a legacy
  transaction;
* `yields_wrapped_iff`: any other first item wraps typed content, a list that fills it and begins
  with a tag;
* `envelope_of_yields`: there is no third way in.
-/

namespace TxStream

/-- The first item of a legacy transaction does not begin like a list. -/
def PlainNonce (p : Bytes) : Prop := ∀ x, p.head? = some x → x.toNat < 0xc0

namespace Decoder

/-- A decoder before the fields, with nothing held and nothing more expected. -/
def fresh (phase : Phase) : Decoder := ⟨phase, {}, 0, {}⟩

variable {b r : Bytes} {tx : Transaction} {phase : Phase} {h : Header}

/-! ### Headers and peeks -/

/-- The outer header has to be that of a list. -/
lemma step_init (c : Cursor) : (fresh .init).step c = (fresh .init).withHeader c fun d c h =>
    if h.isList then ⟨{ d with phase := .envelope }, c, none, []⟩
    else ⟨d, c, some (.fail .unexpectedString), []⟩ := rfl

/-- The header of the first item tells a nonce without payload from an item with payload. -/
lemma step_envelope (c : Cursor) :
    (fresh .envelope).step c = (fresh .envelope).withHeader c fun d c h =>
      if h.isList then ⟨d, c, some (.fail .unexpectedList), []⟩
      else if h.isSingle || h.len == 0 then d.enter c .legacy h none
      else ⟨{ d with phase := .wrapper h }, c, none, []⟩ := rfl

/-- The header of the content list is compared with the item. -/
lemma step_content (item : Header) (c : Cursor) :
    (fresh (.content item)).step c = (fresh (.content item)).withHeader c fun d c h =>
      if h.len + h.offset = item.len then ⟨{ d with phase := .typeTag h }, c, none, []⟩
      else ⟨d, c, some (.fail .contentLength), []⟩ := rfl

lemma yields_withHeader_iff {go : Decoder → Cursor → Header → Step} (hd : (fresh phase).Sound)
    (hstep : (fresh phase).step (.start b) = (fresh phase).withHeader (.start b) go) :
    (fresh phase).Yields b tx ↔ ∃ h, Header.decode b = .ok h ∧
      (go (fresh phase) ((Cursor.start b).take h.offset).2 h).seen.2.Yields tx := by
  have hheld : (fresh phase).partialHeader.held = [] := rfl
  rw [yields_iff hd, hstep, withHeader_eq hd.held]
  simp only [hheld, Cursor.ahead_start]
  by_cases hdec : ∃ h, Header.decode b = .ok h
  · obtain ⟨h, hdec⟩ := hdec
    have hscan : PartialHeader.scan [] b = ⟨[], h.offset, .ok (some h)⟩ :=
      PartialHeader.scan_of_decode hdec
    have hscanned : (fresh phase).scanned b = fresh phase := by
      rw [scanned, hheld, hscan]
      rfl
    have hpassed : (fresh phase).passed (.start b) = ((Cursor.start b).take h.offset).2 := by
      rw [passed, hheld, Cursor.ahead_start, hscan]
    simp only [hscan, hscanned, hpassed]
    constructor
    · intro hy
      exact ⟨h, hdec, hy⟩
    · rintro ⟨h', hdec', hy⟩
      obtain rfl := Except.ok.inj (hdec.symm.trans hdec')
      exact hy
  · refine iff_of_false ?_ ?_
    · rcases hr : (PartialHeader.scan [] b).result with err | _ | h
      · exact id
      · exact id
      · exact absurd ⟨h, PartialHeader.decode_of_scan hr⟩ hdec
    · rintro ⟨h, hdec', -⟩
      exact hdec ⟨h, hdec'⟩

lemma yields_enter_iff {t : TxType} {e : Entry} {rest : List Entry} (hl : t.layout = e :: rest)
    (c : Cursor) (budget : Option Nat) :
    ((fresh phase).enter c t h budget).seen.2.Yields tx ↔
      ∃ tx₁, e.accept h { type := t } = .ok tx₁ ∧
        (opened (e :: rest) h budget tx₁).Yields c.ahead tx := by
  rw [enter]
  simp only [hl]
  have htx : (fresh phase).tx = {} := rfl
  rw [htx]
  rcases ha : e.accept h { type := t } with err | tx₁
  · refine iff_of_false id ?_
    rintro ⟨tx₁, ha', -⟩
    cases ha'
  · constructor
    · intro hy
      exact ⟨tx₁, rfl, hy⟩
    · rintro ⟨tx₁', ha', hy⟩
      obtain rfl := Except.ok.inj ha'
      exact hy

/-! ### The outer list -/

lemma exists_list_decode_iff {P : Header → Bytes → Prop} :
    (∃ h, Header.decode b = .ok h ∧ h.isList = true ∧ P h (b.drop h.offset)) ↔
      ∃ n header r, b = header ++ r ∧ IsHeader true n header ∧ P ⟨n, true, header.length⟩ r := by
  constructor
  · rintro ⟨⟨n, isList, offset⟩, hdec, rfl, hP⟩
    rcases Header.isHeader_of_decode hdec with ⟨lead, r, rfl, -, h⟩ | ⟨header, r, rfl, hh, rfl⟩
    · cases h
    · rw [List.drop_left] at hP
      exact ⟨n, header, r, rfl, hh, hP⟩
  · rintro ⟨n, header, r, rfl, hh, hP⟩
    refine ⟨⟨n, true, header.length⟩, Header.decode_of_isHeader hh r, rfl, ?_⟩
    rwa [List.drop_left]

/-- **Any list header may stand outside.** -/
lemma yields_init_iff :
    (fresh .init).Yields b tx ↔ ∃ n header body, b = header ++ body ∧ IsHeader true n header ∧
      (fresh .envelope).Yields body tx := by
  have hd : (fresh .init).Sound := ⟨rfl, rfl⟩
  rw [yields_withHeader_iff hd (step_init _),
    ← exists_list_decode_iff (P := fun _ body => (fresh .envelope).Yields body tx)]
  refine exists_congr fun h => and_congr_right fun _ => ?_
  by_cases hl : h.isList = true
  · rw [if_pos hl]
    exact (and_iff_right hl).symm
  · rw [if_neg hl]
    exact iff_of_false id fun h => hl h.1

/-! ### Legacy transactions -/

/-- A nonce whose header is already read is the first field of a legacy transaction. -/
lemma yields_enter_legacy_iff (hdec : Header.decode b = .ok h) {c : Cursor}
    (hc : c.ahead = b.drop h.offset) :
    ((fresh phase).enter c .legacy h none).seen.2.Yields tx ↔
      (before TxType.legacy.layout none {}).Yields b tx := by
  have hp := Partway.new (fun _ => []) .legacy
  have hl : TxType.legacy.layout = ⟨.nonce, .uint⟩ :: TxType.legacy.layout.tail := rfl
  rw [yields_enter_iff hl, hl, yields_header_iff (hl ▸ sound_before hp none)
    (step_before (by decide : Field.nonce ≠ .chainId) _), hc]
  constructor
  · rintro ⟨tx₁, ha, hy⟩
    exact ⟨h, none, tx₁, hdec, rfl, ha, hy⟩
  · rintro ⟨h', budget₁, tx₁, hdec', hs, ha, hy⟩
    obtain rfl := Except.ok.inj (hdec.symm.trans hdec')
    cases hs
    exact ⟨tx₁, ha, hy⟩

/-- The first item is a string. One without a header or a payload begins a legacy transaction. -/
lemma yields_envelope_iff :
    (fresh .envelope).Yields b tx ↔ ∃ h, Header.decode b = .ok h ∧ h.isList = false ∧
      if h.isSingle || h.len == 0 then (before TxType.legacy.layout none {}).Yields b tx
      else (fresh (.wrapper h)).Yields (b.drop h.offset) tx := by
  have hd : (fresh .envelope).Sound := ⟨rfl, rfl⟩
  rw [yields_withHeader_iff hd (step_envelope _)]
  refine exists_congr fun h => and_congr_right fun hdec => ?_
  cases h.isList with
  | true =>
      rw [if_pos rfl]
      refine iff_of_false id ?_
      rintro ⟨hfalse, -⟩
      cases hfalse
  | false =>
      simp only [Bool.false_eq_true, if_false, true_and]
      split_ifs
      · exact yields_enter_legacy_iff hdec rfl
      · rfl

/-- The first byte of any other item tells what it is. -/
lemma yields_wrapper_iff (hdec : Header.decode b = .ok h) :
    (fresh (.wrapper h)).Yields (b.drop h.offset) tx ↔ ∃ x, (b.drop h.offset).head? = some x ∧
      if listLead ≤ x.toNat then (fresh (.content h)).Yields (b.drop h.offset) tx
      else (before TxType.legacy.layout none {}).Yields b tx := by
  have hd : (fresh (.wrapper h)).Sound := ⟨rfl, rfl⟩
  rw [yields_iff hd]
  rcases hr : b.drop h.offset with _ | ⟨x, r⟩
  · have hstep : (fresh (.wrapper h)).step (.start [])
        = ⟨fresh (.wrapper h), .start [], some .suspend, []⟩ := rfl
    rw [hstep]
    refine iff_of_false id ?_
    rintro ⟨x, hx, -⟩
    cases hx
  · have hstep : (fresh (.wrapper h)).step (.start (x :: r)) =
        if listLead ≤ x.toNat then ⟨fresh (.content h), .start (x :: r), none, []⟩
        else (fresh (.wrapper h)).enter (.start (x :: r)) .legacy h none := rfl
    rw [hstep]
    simp only [List.head?_cons, Option.some.injEq, exists_eq_left']
    split_ifs
    · rfl
    · exact hr ▸ yields_enter_legacy_iff hdec rfl

/-- **A first item that does not begin like a list is the nonce of a legacy transaction**, and is
read again as its first field. -/
lemma yields_plain_iff {p item : Bytes} (hitem : IsString p item) (hplain : PlainNonce p) :
    (fresh .envelope).Yields (item ++ r) tx ↔
      (before TxType.legacy.layout none {}).Yields (item ++ r) tx := by
  obtain ⟨n, -, hall⟩ := hitem.decode
  obtain ⟨hdec, hdrop⟩ := hall r
  rw [yields_envelope_iff]
  simp only [hdec, Except.ok.injEq, exists_eq_left', true_and]
  split_ifs with hshort
  · rfl
  rcases p with _ | ⟨x, p⟩
  · exact absurd (by simp) hshort
  have hx : ¬listLead ≤ x.toNat := Nat.not_le.2 (hplain x rfl)
  have hpeek : ((item ++ r).drop n).head? = some x := by rw [hdrop]; rfl
  rw [yields_wrapper_iff hdec]
  simp only [hpeek, Option.some.injEq, exists_eq_left', hx, if_false]

/-! ### Typed transactions -/

/-- **A first item that begins like a list wraps typed content.** -/
lemma yields_wrapped_iff {w : Nat} {header : Bytes} {x : UInt8} (hw : w ≠ 0)
    (hh : IsHeader false w header) (hx : listLead ≤ x.toNat) :
    (fresh .envelope).Yields (header ++ x :: r) tx ↔
      (fresh (.content ⟨w, false, header.length⟩)).Yields (x :: r) tx := by
  have hdec := Header.decode_of_isHeader hh (x :: r)
  have hlong : (Header.isSingle ⟨w, false, header.length⟩ || w == 0) = false := by
    have hpos := hh.length_pos
    simp only [Header.isSingle, Bool.or_eq_false_iff, beq_eq_false_iff_ne]
    exact ⟨by omega, hw⟩
  rw [yields_envelope_iff]
  simp only [hdec, Except.ok.injEq, exists_eq_left', true_and, hlong, Bool.false_eq_true, if_false]
  have hwrapper : (fresh (.wrapper ⟨w, false, header.length⟩)).Yields
      ((header ++ x :: r).drop header.length) tx ↔ _ := yields_wrapper_iff hdec
  simp only [List.drop_left, List.head?_cons, Option.some.injEq, exists_eq_left', hx, if_true]
    at hwrapper
  rw [List.drop_left]
  exact hwrapper

/-- An item without a header or a payload does not begin like a list. -/
lemma plainNonce_of_short {p item : Bytes} {n : Nat} (hitem : IsString p item)
    (hn : n + p.length = item.length) (hshort : n = 0 ∨ p.length = 0) : PlainNonce p := by
  intro x hx
  cases hitem with
  | single hb =>
      cases hx
      omega
  | headed hh =>
      have hpos := hh.length_pos
      rw [List.length_append] at hn
      obtain rfl : p = [] := List.eq_nil_of_length_eq_zero (by omega)
      cases hx

/-- **There is no third way in**: the first item is a plain nonce, or wraps typed content. -/
lemma envelope_of_yields (hy : (fresh .envelope).Yields b tx) :
    (∃ p item r, b = item ++ r ∧ IsString p item ∧ PlainNonce p ∧
      (before TxType.legacy.layout none {}).Yields b tx) ∨
    ∃ w header x r, b = header ++ x :: r ∧ w ≠ 0 ∧ IsHeader false w header ∧
      listLead ≤ x.toNat ∧ (fresh (.content ⟨w, false, header.length⟩)).Yields (x :: r) tx := by
  obtain ⟨h, hdec, hstring, hy⟩ := yields_envelope_iff.1 hy
  have hlegacy : (before TxType.legacy.layout none {}).Yields b tx →
      ∃ p item r, b = item ++ r ∧ IsString p item := by
    intro hy
    have hp := Partway.new (fun _ => []) .legacy
    obtain ⟨p, item, r, -, -, hb, hitem, -⟩ :=
      item_of_yields hp (step_before (by decide : Field.nonce ≠ .chainId) _) (by simp) hy
    exact ⟨p, item, r, hb, hitem⟩
  split_ifs at hy with hshort
  · left
    obtain ⟨p, item, r, rfl, hitem⟩ := hlegacy hy
    refine ⟨p, item, r, rfl, hitem, ?_, hy⟩
    obtain ⟨n, hn, hall⟩ := hitem.decode
    obtain rfl := Except.ok.inj ((hall r).1.symm.trans hdec)
    refine plainNonce_of_short hitem hn ?_
    simpa [Header.isSingle] using hshort
  · obtain ⟨x, hx, hy⟩ := (yields_wrapper_iff hdec).1 hy
    split_ifs at hy with hlist
    · right
      rcases Header.isHeader_of_decode hdec with ⟨lead, r, -, -, rfl⟩ | ⟨header, r, rfl, hh, hoff⟩
      · exact absurd rfl hshort
      obtain ⟨w, isList, offset⟩ := h
      obtain rfl : isList = false := hstring
      obtain rfl : offset = header.length := hoff
      rw [List.drop_left] at hx hy
      obtain ⟨r, rfl⟩ := List.head?_eq_some_iff.1 hx
      refine ⟨w, header, x, r, rfl, ?_, hh, hlist, hy⟩
      rintro rfl
      exact hshort (by simp)
    · left
      obtain ⟨p, item, r, rfl, hitem⟩ := hlegacy hy
      refine ⟨p, item, r, rfl, hitem, ?_, hy⟩
      obtain ⟨n, -, hall⟩ := hitem.decode
      obtain ⟨hdec', hdrop⟩ := hall r
      obtain rfl := Except.ok.inj (hdec'.symm.trans hdec)
      intro y hyp
      rw [hdrop, List.head?_append, hyp, Option.some_or] at hx
      obtain rfl := Option.some.inj hx
      exact Nat.not_le.1 hlist

/-- The content list has to fill the item that wraps it. -/
lemma yields_content_iff {item : Header} :
    (fresh (.content item)).Yields b tx ↔ ∃ h, Header.decode b = .ok h ∧
      h.len + h.offset = item.len ∧ (fresh (.typeTag h)).Yields (b.drop h.offset) tx := by
  have hd : (fresh (.content item)).Sound := ⟨rfl, rfl⟩
  rw [yields_withHeader_iff hd (step_content item _)]
  refine exists_congr fun h => and_congr_right fun hdec => ?_
  by_cases hlen : h.len + h.offset = item.len
  · rw [if_pos hlen]
    exact (and_iff_right hlen).symm
  · rw [if_neg hlen]
    exact iff_of_false id fun h => hlen h.1

lemma yields_tag_iff {t : TxType} {rest : List Entry} {n : Nat}
    (hd : (before (⟨.type, .tag⟩ :: rest) (some n) { type := t }).Sound) :
    (before (⟨.type, .tag⟩ :: rest) (some n) { type := t }).Yields (t.id :: r) tx ↔
      1 ≤ n ∧ (before rest (some (n - 1)) { type := t }).Yields r tx := by
  have hdec : Header.decode (t.id :: r) = .ok ⟨1, false, 0⟩ := Header.decode_single t.id_lt r
  have ha : Entry.accept ⟨.type, .tag⟩ ⟨1, false, 0⟩ { type := t } = .ok { type := t } := rfl
  have hd₁ : (opened (⟨.type, .tag⟩ :: rest) ⟨1, false, 0⟩ (some n) { type := t }).Sound :=
    ⟨rfl, hd.phase.opened ha _⟩
  rw [yields_header_iff hd (step_before (by decide : Field.type ≠ .chainId) _)]
  simp only [hdec, Except.ok.injEq, exists_and_left, exists_eq_left', spend_zero, ha,
    List.drop_zero]
  rw [yields_payload_iff hd₁ (by simp), spend]
  by_cases hn : 1 ≤ n
  · simp [hn, Kind.apply_eq]
  · simp [hn]

/-- The tag at the start of the content settles the type. -/
lemma yields_typeTag_iff {list : Header} (hlist : list.isList = true) :
    (fresh (.typeTag list)).Yields b tx ↔ ∃ t r, t ≠ .legacy ∧ b = TxType.id t :: r ∧
      1 ≤ list.len ∧
      (before (t.items ++ TxType.closing) (some (list.len - 1)) { type := t }).Yields r tx := by
  have hd : (fresh (.typeTag list)).Sound := ⟨rfl, rfl⟩
  -- the list is entered with its own header, and the tag is read again as its first field
  have henter : ∀ t r, t ≠ .legacy →
      (((fresh (.typeTag list)).enter (.start (t.id :: r)) t list
          (some list.len)).seen.2.Yields tx ↔
        1 ≤ list.len ∧
          (before (t.items ++ TxType.closing) (some (list.len - 1)) { type := t }).Yields r tx) := by
    intro t r ht
    have hl := TxType.layout_typed ht
    have ha : Entry.accept ⟨.content, .list⟩ list { type := t } = .ok { type := t } := by
      simp [Entry.accept, Kind.check, Kind.start, hlist]
    have hnew := sound_before (Partway.new (fun _ => []) t) none
    rw [hl] at hnew
    have hopened := hnew.phase.opened ha (some list.len)
    have htag : (before (⟨.type, .tag⟩ :: (t.items ++ TxType.closing)) (some list.len)
        { type := t }).Sound :=
      ⟨rfl, (List.suffix_cons _ _).trans hopened.1, hopened.2.2⟩
    rw [yields_enter_iff hl, ha]
    simp only [Except.ok.injEq, exists_eq_left']
    exact (yields_list_iff ⟨rfl, hopened⟩ rfl).trans (yields_tag_iff htag)
  rw [yields_iff hd]
  rcases b with _ | ⟨tag, b⟩
  · have hstep : (fresh (.typeTag list)).step (.start [])
        = ⟨fresh (.typeTag list), .start [], some .suspend, []⟩ := rfl
    rw [hstep]
    refine iff_of_false id ?_
    rintro ⟨t, r, -, heq, -⟩
    cases heq
  rcases ht : TxType.ofTag? tag with _ | t
  · have hstep : (fresh (.typeTag list)).step (.start (tag :: b)) = ⟨fresh (.typeTag list),
        .start (tag :: b), some (.fail .unsupportedType), [.unknownTag tag]⟩ := by
      simp only [step, fresh, Cursor.peek?, Cursor.start, List.head?_cons, ht]
    rw [hstep]
    refine iff_of_false id ?_
    rintro ⟨t, r, hne, heq, -⟩
    rw [TxType.ofTag?_eq_some_iff.2 ⟨hne, (List.cons.inj heq).1.symm⟩] at ht
    cases ht
  · have hstep : (fresh (.typeTag list)).step (.start (tag :: b))
        = (fresh (.typeTag list)).enter (.start (tag :: b)) t list (some list.len) := by
      simp only [step, fresh, Cursor.peek?, Cursor.start, List.head?_cons, ht]
    rw [hstep]
    obtain ⟨hne, rfl⟩ := TxType.ofTag?_eq_some_iff.1 ht
    refine (henter t b hne).trans ⟨fun hy => ⟨t, b, hne, rfl, hy⟩, ?_⟩
    rintro ⟨t', r, hne', heq, hy⟩
    obtain ⟨hid, rfl⟩ := List.cons.inj heq
    have hsame := TxType.ofTag?_eq_some_iff.2 ⟨hne', hid.symm⟩
    obtain rfl := Option.some.inj (ht.symm.trans hsame)
    exact hy

end Decoder

end TxStream
