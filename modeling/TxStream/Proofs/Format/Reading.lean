import TxStream.Proofs.Decoder.Chunks
import TxStream.Proofs.Format.Items
import TxStream.Proofs.Format.Record

/-!
Decoding all of the declared input in one chunk, a header or a payload at a time.

* `Decoder.Yields`: a decoder brings a transaction to its end on the bytes given. A step decides
  or goes on to it (`Decoder.yields_iff`), and `deserialize_eq_ok_iff` puts it for a new decoder;
* `yields_header_iff`, `yields_payload_iff`: the header of a field, and its payload;
* `yields_item`, `item_of_yields`: the two make up a string item that fits the field.
-/

namespace TxStream

/-- A decoder brings a transaction to its end on the bytes given. -/
def Decoder.Yields (d : Decoder) (b : Bytes) (tx : Transaction) : Prop :=
  ∃ d' left, (d.run (.start b)).seen.2 = .ends d' left ∧ d'.tx = tx

/-- An outcome is the end of a transaction, or goes on to it. -/
def Outcome.Yields (tx : Transaction) : Outcome → Prop
  | .goesOn d ahead => d.Yields ahead tx
  | .ends d _ => d.tx = tx
  | _ => False

/-- A decoder yields what its first step does. -/
lemma Decoder.yields_iff {d : Decoder} {b : Bytes} {tx : Transaction} (hd : d.Sound) :
    d.Yields b tx ↔ (d.step (.start b)).seen.2.Yields tx := by
  rcases hstop : (d.step (.start b)).stop? with _ | stop
  · have hd₁ := sound_step hd (.inl hstop)
    have hrun : (d.run (.start b)).seen.2
        = ((d.step (.start b)).decoder.run (.start (d.step (.start b)).cursor.ahead)).seen.2 := by
      rw [seen_run_of_goesOn hstop, ← seen_run_congr hd₁ (Cursor.ahead_start _)]
    rw [Yields, hrun, Step.seen_of_stop?_eq_none hstop]
    rfl
  · rw [Yields, seen_run_of_stop hstop, Step.seen_of_stop hstop]
    rcases stop with _ | _ | e <;> simp [Outcome.ofStop, Outcome.Yields]

/-! ### Whole transactions -/

/-- **The transaction that bytes encode** is the one that a new decoder yields on them, if they are
not too many. -/
theorem deserialize_eq_ok_iff {raw : Bytes} {tx : Transaction} :
    deserialize raw = .ok tx ↔
      raw.length ≤ Decoder.maxLength ∧ Decoder.Yields ⟨.init, {}, 0, {}⟩ raw tx := by
  by_cases hlen : raw.length ≤ Decoder.maxLength
  · have hnew := Decoder.create_eq hlen
    have hw := Decoder.waiting_create hnew
    have hupdate := hw.update_eq (Nat.le_refl _)
    have howing : Decoder.owing ⟨.init, {}, raw.length, {}⟩ (raw.length - raw.length)
        = ⟨.init, {}, 0, {}⟩ := by
      rw [Nat.sub_self]
      rfl
    have hcases := Decoder.readChunk_cases ⟨.init, {}, raw.length, {}⟩ raw
    dsimp only at hcases
    rw [howing] at hcases
    simp only [deserialize, hnew, hupdate, hlen, true_and]
    rcases hcases with ⟨log, d', hseen, -, heq⟩ | ⟨log, d', ahead, hseen, -, heq⟩ |
        ⟨log, state, field, e, hseen, heq, -⟩
    · have hw' := (Decoder.waiting_of_needsMoreInput hw (Nat.le_refl _) (by rw [hupdate, heq])).1
      rw [hupdate, heq] at hw'
      rw [heq, Decoder.Yields, hseen, Decoder.finish_eq_ok_iff]
      simp [hw'.ne_complete]
    · rw [heq, Decoder.Yields, hseen, Decoder.finish_eq_ok_iff]
      simp
    · rw [heq, Decoder.Yields, hseen]
      simp
  · rw [deserialize, Decoder.create, if_pos (Nat.not_le.1 hlen)]
    refine iff_of_false ?_ fun h => hlen h.1
    intro heq
    cases heq

namespace Decoder

/-! ### A field -/

/-- A decoder before the first field of `todo`, with nothing held and nothing more expected. -/
def before (todo : List Entry) (budget : Option Nat) (tx : Transaction) : Decoder :=
  ⟨.fields todo none budget, {}, 0, tx⟩

/-- A decoder after the header of the first field of `todo`. -/
def opened (todo : List Entry) (h : Header) (budget : Option Nat) (tx : Transaction) : Decoder :=
  ⟨.fields todo (some ⟨h, 0⟩) budget, {}, 0, tx⟩

section Field

variable {e : Entry} {rest : List Entry} {budget budget' budget₀ : Option Nat} {h : Header}
  {tx tx' : Transaction} {b : Bytes}

lemma step_opened (c : Cursor) :
    (opened (e :: rest) h budget tx).step c
      = (opened (e :: rest) h budget tx).readPayload c e rest ⟨h, 0⟩ budget := rfl

/-- The header of a field comes first, and counts against the budget. -/
lemma yields_header_iff (hd : (before (e :: rest) budget₀ tx).Sound)
    (hstep : (before (e :: rest) budget₀ tx).step (.start b)
      = (before (e :: rest) budget₀ tx).readField (.start b) e rest budget) :
    (before (e :: rest) budget₀ tx).Yields b tx' ↔
      ∃ h budget₁ tx₁, Header.decode b = .ok h ∧ spend budget h.offset = .ok budget₁ ∧
        e.accept h tx = .ok tx₁ ∧
        (opened (e :: rest) h budget₁ tx₁).Yields (b.drop h.offset) tx' := by
  have hread := hstep.trans (readField_eq hd.held _ e rest budget)
  have hheld : (before (e :: rest) budget₀ tx).partialHeader.held = [] := rfl
  simp only [hheld, Cursor.ahead_start] at hread
  rw [yields_iff hd, hread]
  -- without a whole header the decoder waits or fails, which yields nothing
  by_cases hdec : ∃ h, Header.decode b = .ok h
  · obtain ⟨h, hdec⟩ := hdec
    have hscan : PartialHeader.scan [] b = ⟨[], h.offset, .ok (some h)⟩ :=
      PartialHeader.scan_of_decode hdec
    have hscanned : (before (e :: rest) budget₀ tx).scanned b = before (e :: rest) budget₀ tx := by
      rw [scanned, hheld, hscan]
      rfl
    have hahead : ((before (e :: rest) budget₀ tx).passed (.start b)).ahead = b.drop h.offset := by
      rw [passed, Cursor.ahead_take, hheld, Cursor.ahead_start, hscan]
    simp only [hscan, hscanned]
    rcases hs : spend budget h.offset with err | budget₁
    · refine iff_of_false id ?_
      rintro ⟨h', budget₁, tx₁, hdec', hs', -⟩
      obtain rfl := Except.ok.inj (hdec.symm.trans hdec')
      cases hs.symm.trans hs'
    have htx : (before (e :: rest) budget₀ tx).tx = tx := rfl
    simp only [htx]
    rcases ha : e.accept h tx with err | tx₁
    · refine iff_of_false id ?_
      rintro ⟨h', budget₁', tx₁, hdec', -, ha', -⟩
      obtain rfl := Except.ok.inj (hdec.symm.trans hdec')
      cases ha.symm.trans ha'
    -- what is left is the payload of the opened field, read behind the header
    · have hd₁ : (opened (e :: rest) h budget₁ tx₁).Sound := ⟨rfl, hd.phase.opened ha budget₁⟩
      have hopened : (opened (e :: rest) h budget₁ tx₁).Yields (b.drop h.offset) tx' ↔
          ((opened (e :: rest) h budget₁ tx₁).readPayload
            ((before (e :: rest) budget₀ tx).passed (.start b)) e rest ⟨h, 0⟩ budget₁).seen.2.Yields
            tx' := by
        rw [yields_iff hd₁, step_opened, seen_readPayload_congr hd₁.phase.2.1 budget₁ hahead.symm]
      refine hopened.symm.trans ⟨fun hy => ⟨h, budget₁, tx₁, hdec, hs, ha, hy⟩, ?_⟩
      rintro ⟨h', budget₁', tx₁', hdec', hs', ha', hy⟩
      obtain rfl := Except.ok.inj (hdec.symm.trans hdec')
      obtain rfl := Except.ok.inj (hs.symm.trans hs')
      obtain rfl := Except.ok.inj (ha.symm.trans ha')
      exact hy
  · refine iff_of_false ?_ ?_
    · rcases spend budget (PartialHeader.scan [] b).taken with err | budget₁
      · exact id
      rcases hr : (PartialHeader.scan [] b).result with err | _ | h
      · exact id
      · exact id
      · exact absurd ⟨h, PartialHeader.decode_of_scan hr⟩ hdec
    · rintro ⟨h, -, -, hdec', -⟩
      exact hdec ⟨h, hdec'⟩

/-- The payload of a field that is no list follows its header, and counts against the budget. -/
lemma yields_payload_iff (hd : (opened (e :: rest) h budget tx).Sound) (hk : e.kind ≠ .list) :
    (opened (e :: rest) h budget tx).Yields b tx' ↔
      ∃ budget' tx₂, h.len ≤ b.length ∧ spend budget h.len = .ok budget' ∧
        e.kind.apply e.field h 0 (b.take h.len) tx = .ok tx₂ ∧
        (before rest budget' tx₂).Yields (b.drop h.len) tx' := by
  have ho : e.Opened ⟨h, 0⟩ (opened (e :: rest) h budget tx).tx := hd.phase.2.1
  have hrem : OpenField.remaining ⟨h, 0⟩ = h.len := rfl
  rw [yields_iff hd, step_opened]
  rcases readPayload_cases _ (.start b) rest budget ho with ⟨hk', -⟩ | ⟨-, err, hs, heq⟩ |
      ⟨-, hle, budget', tx₂, hs, happ, heq⟩ | ⟨-, hlt, budget', tx₂, -, -, -, heq⟩
  · exact absurd hk' hk
  · rw [Cursor.ahead_start, hrem] at hs
    rw [heq]
    refine iff_of_false id ?_
    rintro ⟨budget', tx₂, hle, hs', -⟩
    rw [List.length_take_of_le hle, hs'] at hs
    cases hs
  · rw [Cursor.ahead_start, hrem] at hle happ
    rw [hrem] at hs
    rw [heq]
    constructor
    · intro hy
      exact ⟨budget', tx₂, hle, hs, happ, hy⟩
    · rintro ⟨budget'', tx₂', -, hs', happ', hy⟩
      obtain rfl := Except.ok.inj (hs.symm.trans hs')
      obtain rfl := Except.ok.inj (happ.symm.trans happ')
      exact hy
  · rw [Cursor.ahead_start, hrem] at hlt
    rw [heq]
    refine iff_of_false id ?_
    rintro ⟨budget', tx₂, hle, -⟩
    exact absurd hlt (Nat.not_lt.2 hle)

lemma yields_list_iff (hd : (opened (e :: rest) h budget tx).Sound) (hk : e.kind = .list) :
    (opened (e :: rest) h budget tx).Yields b tx' ↔ (before rest budget tx).Yields b tx' := by
  rw [yields_iff hd, step_opened, readPayload_list hk]
  rfl

end Field

/-! ### A string item -/

section Item

variable {content : Field → Bytes} {t : TxType} {done rest : List Entry} {e : Entry}
  {budget budget' budget₀ : Option Nat} {tx tx' : Transaction} {b item : Bytes}

lemma sound_before {todo : List Entry} (hp : Partway content t done todo tx) (budget : Option Nat) :
    (before todo budget tx).Sound :=
  ⟨rfl, hp.type ▸ hp.layout ▸ List.suffix_append done todo, fun _ he => hp.awaits he⟩

lemma exists_spend_add {m n : Nat} (h : spend budget (m + n) = .ok budget') :
    ∃ budget₁, spend budget m = .ok budget₁ ∧ spend budget₁ n = .ok budget' := by
  rcases hm : spend budget m with err | budget₁
  · rw [spend_add_error hm] at h
    cases h
  · rw [spend_add hm] at h
    exact ⟨budget₁, rfl, h⟩

/-- **A string item that fits is read**, and what it holds is kept. -/
lemma yields_item (hp : Partway content t done (e :: rest) tx)
    (hstep : ∀ r, (before (e :: rest) budget₀ tx).step (.start (item ++ r))
      = (before (e :: rest) budget₀ tx).readField (.start (item ++ r)) e rest budget)
    (hk : e.kind ≠ .list) (hitem : IsString (content e.field) item)
    (htag : e.kind = .tag → (content e.field).length = 1) (hfits : e.kind.Fits (content e.field))
    (hs : spend budget item.length = .ok budget') :
    ∃ tx₂, Partway content t (done ++ [e]) rest tx₂ ∧ ∀ r tx',
      (before rest budget' tx₂).Yields r tx' →
        (before (e :: rest) budget₀ tx).Yields (item ++ r) tx' := by
  have hd := sound_before hp budget₀
  obtain ⟨n, hn, hdecode⟩ := hitem.decode
  obtain ⟨budget₁, hs₁, hs₂⟩ := exists_spend_add (hn ▸ hs)
  have hcheck : e.kind.check ⟨(content e.field).length, false, n⟩ = .ok () :=
    (Kind.check_eq_ok_iff hk).2 ⟨rfl, htag, hfits⟩
  obtain ⟨tx₁, tx₂, ha, happ⟩ := hp.exists_next hcheck rfl
  refine ⟨tx₂, hp.next ha rfl happ rfl, ?_⟩
  intro r tx' hy
  obtain ⟨hdec, hdrop⟩ := hdecode r
  have hd₁ : (opened (e :: rest) ⟨(content e.field).length, false, n⟩ budget₁ tx₁).Sound :=
    ⟨rfl, hd.phase.opened ha budget₁⟩
  refine (yields_header_iff hd (hstep r)).2 ⟨_, budget₁, tx₁, hdec, hs₁, ha, ?_⟩
  rw [hdrop]
  refine (yields_payload_iff hd₁ hk).2 ⟨budget', tx₂, ?_, hs₂, ?_, ?_⟩
  · rw [List.length_append]
    exact Nat.le_add_right ..
  · rw [List.take_left]
    exact happ
  · rw [List.drop_left]
    exact hy

/-- **What is read is a string item that fits.** -/
lemma item_of_yields (hp : Partway content t done (e :: rest) tx)
    (hstep : (before (e :: rest) budget₀ tx).step (.start b)
      = (before (e :: rest) budget₀ tx).readField (.start b) e rest budget)
    (hk : e.kind ≠ .list) (hy : (before (e :: rest) budget₀ tx).Yields b tx') :
    ∃ p item r budget' tx₂, b = item ++ r ∧ IsString p item ∧ e.kind.Fits p ∧
      spend budget item.length = .ok budget' ∧
      Partway (Function.update content e.field p) t (done ++ [e]) rest tx₂ ∧
      (before rest budget' tx₂).Yields r tx' := by
  have hd := sound_before hp budget₀
  obtain ⟨h, budget₁, tx₁, hdec, hs₁, ha, hy₁⟩ := (yields_header_iff hd hstep).1 hy
  have hd₁ : (opened (e :: rest) h budget₁ tx₁).Sound := ⟨rfl, hd.phase.opened ha budget₁⟩
  obtain ⟨budget', tx₂, hle, hs₂, happ, hy₂⟩ := (yields_payload_iff hd₁ hk).1 hy₁
  obtain ⟨hlist, -, hcap⟩ := (Kind.check_eq_ok_iff hk).1 (Entry.accept_eq_ok ha).1
  obtain ⟨p, item, r, rfl, hitem, hlen, hitemlen, hdrop⟩ := IsString.of_decode hdec hlist hle
  rw [hdrop] at happ hy₂
  rw [← hlen, List.take_left] at happ
  rw [← hlen, List.drop_left] at hy₂
  have hs : spend budget item.length = .ok budget' := by
    rw [hitemlen, spend_add hs₁, hs₂]
  have hne : ∀ e' ∈ done, Function.update content e.field p e'.field = content e'.field := by
    intro e' he'
    exact Function.update_of_ne (hp.field_ne List.mem_cons_self he') p content
  have hp' := (hp.congr hne).next ha hlen.symm happ (Function.update_self ..)
  exact ⟨p, item, r, budget', tx₂, rfl, hitem, fun n hn => hlen ▸ hcap n hn, hs, hp', hy₂⟩

end Item

end Decoder

end TxStream
