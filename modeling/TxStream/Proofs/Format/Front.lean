import TxStream.Proofs.Decoder.Declared
import TxStream.Proofs.Format.Envelope

/-!
What a decoder does with the front of a transaction, in one chunk and without regard to what
follows: it reads on, waits within an item, or fails as soon as the typed content is used up.

* `Decoder.Reads`, `Decoder.Stops`: a decoder comes to another one, or stops for a reason;
* `reads_item`, `stops_within_item`, `stops_beyond_item`: a string item, the front of one, and one
  byte more than is left of the content;
* `reads_items`, `stops_within_items`, `stops_beyond_items`: the same for items in a row;
* `reads_outer`, `reads_wrapper`, `reads_list`, `reads_tag`: what stands before them;
* `reads_content`, `stops_within_content`, `stops_beyond_content`, `stops_chain`: the tag with the
  items, and the chain after them.
-/

namespace TxStream

namespace Decoder

variable {d d' d'' : Decoder} {a b r : Bytes} {stop : Stop} {c : Cursor}

/-! ### Reading on and stopping -/

/-- The decoder reads `b` and comes to `d'`, whatever follows. -/
def Reads (d : Decoder) (b : Bytes) (d' : Decoder) : Prop :=
  ∀ (c : Cursor) (r : Bytes), c.ahead = b ++ r → ∃ c', c'.ahead = r ∧ d.Visits c d' c'

/-- The decoder stops for a reason when it is given `b`. -/
def Stops (d : Decoder) (b : Bytes) (stop : Stop) : Prop :=
  ∀ c : Cursor, c.ahead = b → (d.run c).stop = stop

lemma Reads.trans (h : d.Reads a d') (h' : d'.Reads b d'') : d.Reads (a ++ b) d'' := by
  intro c r hc
  rw [List.append_assoc] at hc
  obtain ⟨c', hc', hv⟩ := h c _ hc
  obtain ⟨c'', hc'', hv'⟩ := h' c' r hc'
  exact ⟨c'', hc'', hv.trans hv'⟩

lemma Reads.stops (h : d.Reads a d') (h' : d'.Stops b stop) : d.Stops (a ++ b) stop := by
  intro c hc
  obtain ⟨c', hc', hv⟩ := h c b hc
  exact hv.run_eq.1.trans (h' c' hc')

lemma Reads.of_step (h : ∀ (c : Cursor) (r : Bytes), c.ahead = b ++ r →
    (d.step c).stop? = none ∧ (d.step c).decoder = d' ∧ (d.step c).cursor.ahead = r) :
    d.Reads b d' := by
  intro c r hc
  obtain ⟨hstop, rfl, hahead⟩ := h c r hc
  exact ⟨_, hahead, .step .start hstop⟩

lemma Stops.of_step (h : ∀ c : Cursor, c.ahead = b → (d.step c).stop? = some stop) :
    d.Stops b stop := by
  intro c hc
  rw [run_of_stop (h c hc)]

/-- A chunk is answered for the reason to stop in it, however much was declared. -/
lemma result_update_of_stops {len : Nat} (h : (fresh .init).Stops b stop) (hne : stop ≠ .finish)
    (hle : b.length ≤ len) :
    (update ⟨.init, {}, len, {}⟩ b).result = stop.answer := by
  have ht : Takes ⟨.init, {}, b.length, {}⟩ b := ⟨by simp, by simp, Nat.le_refl _⟩
  have hres : (update ⟨.init, {}, b.length, {}⟩ b).result = stop.answer := by
    rw [update_eq_readChunk ht.ne_complete ht.ne_failed ht.length_le, readChunk, Nat.sub_self,
      result_conclude]
    exact congrArg Stop.answer (h (.start b) rfl)
  have hunfinished : (update ⟨.init, {}, b.length, {}⟩ b).result ≠ .ok .complete := by
    rw [hres]
    cases stop with
    | suspend => simp [Stop.answer]
    | finish => exact absurd rfl hne
    | fail e => simp [Stop.answer]
  exact (result_update_owing ht hle hunfinished).trans hres

/-- What is read of a chunk is reached in it, however much was declared. -/
lemma Reads.reaches {len : Nat} (h : (fresh .init).Reads b d) (hle : (b ++ r).length ≤ len) :
    ∃ c, c.ahead = r ∧
      Reaches ⟨.init, {}, len, {}⟩ (b ++ r) (d.owing (len - (b ++ r).length)) c := by
  obtain ⟨c, hc, hv⟩ := h (.start (b ++ r)) r rfl
  exact ⟨c, hc, ⟨by simp, by simp, hle⟩, (hv.owing (Nat.zero_le _)).1⟩

/-! ### Headers -/

section Header

variable {phase : Phase} {go : Decoder → Cursor → Header → Step} {h : Header}

lemma withHeader_of_decode (hdec : Header.decode c.ahead = .ok h) :
    (fresh phase).withHeader c go = go (fresh phase) (c.take h.offset).2 h := by
  have hscan : PartialHeader.scan [] c.ahead = ⟨[], h.offset, .ok (some h)⟩ :=
    PartialHeader.scan_of_decode hdec
  have hheld : (fresh phase).partialHeader.held = [] := rfl
  rw [withHeader_eq rfl]
  simp only [hheld, scanned, passed, hscan]
  rfl

lemma stop?_withHeader_of_partial (hcan : Header.canDecode c.ahead = .ok false) :
    ((fresh phase).withHeader c go).stop? = some .suspend := by
  have hscan : PartialHeader.scan [] c.ahead = ⟨c.ahead, c.ahead.length, .ok none⟩ :=
    PartialHeader.scan_of_partial hcan
  have hheld : (fresh phase).partialHeader.held = [] := rfl
  rw [withHeader_eq rfl]
  simp only [hheld, hscan]

variable {e : Entry} {rest : List Entry} {budget budget₀ budget' : Option Nat}
  {tx tx' : Transaction}

lemma readField_of_decode (hdec : Header.decode c.ahead = .ok h)
    (hs : spend budget h.offset = .ok budget') (ha : e.accept h tx = .ok tx') :
    (before (e :: rest) budget₀ tx).readField c e rest budget =
      ((before (e :: rest) budget₀ tx').readPayload (c.take h.offset).2 e rest ⟨h, 0⟩ budget').after
        (e.acceptanceLog h) := by
  have hscan : PartialHeader.scan [] c.ahead = ⟨[], h.offset, .ok (some h)⟩ :=
    PartialHeader.scan_of_decode hdec
  have hheld : (before (e :: rest) budget₀ tx).partialHeader.held = [] := rfl
  have htx : (before (e :: rest) budget₀ tx).tx = tx := rfl
  rw [readField_eq rfl]
  simp only [hheld, scanned, passed, hscan, hs, htx, ha]
  rfl

lemma stop?_readField_of_partial (hcan : Header.canDecode c.ahead = .ok false)
    (hs : spend budget c.ahead.length = .ok budget') :
    ((before (e :: rest) budget₀ tx).readField c e rest budget).stop? = some .suspend := by
  have hscan : PartialHeader.scan [] c.ahead = ⟨c.ahead, c.ahead.length, .ok none⟩ :=
    PartialHeader.scan_of_partial hcan
  have hheld : (before (e :: rest) budget₀ tx).partialHeader.held = [] := rfl
  rw [readField_eq rfl]
  simp only [hheld, hscan, hs]

/-- A header that takes more than there is to be spent is refused. -/
lemma stop?_readField_of_spend {err : DecodeError}
    (hs : spend budget (PartialHeader.scan [] c.ahead).taken = .error err) :
    ((before (e :: rest) budget₀ tx).readField c e rest budget).stop? = some (.fail err) := by
  have hheld : (before (e :: rest) budget₀ tx).partialHeader.held = [] := rfl
  rw [readField_eq rfl]
  simp only [hheld, hs]

/-- Payload that exceeds the budget after its header is refused. -/
lemma stop?_readField_of_overrun {err : DecodeError} (hdec : Header.decode c.ahead = .ok h)
    (hs : spend budget h.offset = .ok budget') (ha : e.accept h tx = .ok tx') (hk : e.kind ≠ .list)
    (hover : spend budget' ((c.take h.offset).2.ahead.take h.len).length = .error err) :
    ((before (e :: rest) budget₀ tx).readField c e rest budget).stop? = some (.fail err) := by
  have hpay : (before (e :: rest) budget₀ tx').readPayload (c.take h.offset).2 e rest ⟨h, 0⟩ budget'
      = _ := readPayload_overrun hk hover
  rw [readField_of_decode hdec hs ha]
  exact congrArg Step.stop? (congrArg (Step.after · _) hpay)

end Header

/-! ### A string item -/

/-- The front of an item is the front of a header, or a header with some of the payload. -/
lemma front_cases {p item : Bytes} (h : IsString p item) (ha : a <+: item)
    (hlt : a.length < item.length) :
    Header.canDecode a = .ok false ∨ ∃ header q, a = header ++ q ∧ IsHeader false p.length header ∧
      q.length < p.length ∧ item = header ++ p := by
  cases h with
  | single hb =>
      left
      obtain rfl : a = [] := List.eq_nil_of_length_eq_zero (Nat.lt_one_iff.1 hlt)
      rfl
  | @headed p header hh =>
      rcases Nat.lt_or_ge a.length header.length with hshort | hlong
      · exact .inl (Header.canDecode_of_lt hh (List.prefix_of_prefix_length_le ha
          (List.prefix_append ..) (Nat.le_of_lt hshort)) hshort)
      · obtain ⟨q, rfl⟩ := List.prefix_of_prefix_length_le (List.prefix_append header p) ha hlong
        simp only [List.length_append] at hlt
        exact .inr ⟨header, q, rfl, hh, by omega, rfl⟩

section Item

variable {content : Field → Bytes} {t : TxType} {done rest es : List Entry} {e : Entry}
  {budget budget' : Option Nat} {tx : Transaction} {item : Bytes}

lemma exists_accept {h : Header} (hp : Partway content t done (e :: rest) tx)
    (hes : e.kind ≠ .list ∧ e.kind ≠ .tag) (hfits : ∀ n, e.kind.capacity? = some n → h.len ≤ n)
    (hstring : h.isList = false) :
    ∃ tx₁, e.accept h tx = .ok tx₁ ∧ e.Opened ⟨h, 0⟩ tx₁ := by
  have hcheck : e.kind.check h = .ok () :=
    (Kind.check_eq_ok_iff hes.1).2 ⟨hstring, fun hk => absurd hk hes.2, hfits⟩
  have ha : e.accept h tx = .ok (e.kind.start h tx) := by rw [Entry.accept, hcheck]
  exact ⟨_, ha, Entry.opened_of_accept (hp.awaits List.mem_cons_self) ha⟩

/-- **An item that fits is read**, as far as the budget goes. -/
lemma reads_item (hp : Partway content t done (e :: rest) tx)
    (hes : e.field ≠ .chainId ∧ e.kind ≠ .list ∧ e.kind ≠ .tag)
    (hitem : IsString (content e.field) item) (hfits : e.kind.Fits (content e.field))
    (hs : spend budget item.length = .ok budget') :
    ∃ tx₂, Partway content t (done ++ [e]) rest tx₂ ∧
      (before (e :: rest) budget tx).Reads item (before rest budget' tx₂) := by
  obtain ⟨n, hn, hdecode⟩ := hitem.decode
  obtain ⟨budget₁, hs₁, hs₂⟩ := exists_spend_add (hn ▸ hs)
  have hcheck : e.kind.check ⟨(content e.field).length, false, n⟩ = .ok () :=
    (Kind.check_eq_ok_iff hes.2.1).2 ⟨rfl, fun hk => absurd hk hes.2.2, hfits⟩
  obtain ⟨tx₁, tx₂, ha, happ⟩ := hp.exists_next hcheck rfl
  refine ⟨tx₂, hp.next ha rfl happ rfl, .of_step fun c r hc => ?_⟩
  obtain ⟨hdec, hdrop⟩ := hdecode r
  have hahead : (c.take n).2.ahead = content e.field ++ r := by rw [Cursor.ahead_take, hc, hdrop]
  have hrem : OpenField.remaining ⟨⟨(content e.field).length, false, n⟩, 0⟩
      = (content e.field).length := rfl
  have hpay : (before (e :: rest) budget tx₁).readPayload (c.take n).2 e rest
      ⟨⟨(content e.field).length, false, n⟩, 0⟩ budget₁ = _ :=
    readPayload_closes hes.2.1
      (by rw [hahead, List.length_append, hrem]; exact Nat.le_add_right ..) hs₂
      (by rw [hahead, hrem, List.take_left]; exact happ)
  rw [step_before hes.1, readField_of_decode (hc ▸ hdec) hs₁ ha, hpay]
  refine ⟨rfl, rfl, ?_⟩
  show ((c.take n).2.take (content e.field).length).2.ahead = r
  rw [Cursor.ahead_take, hahead, List.drop_left]

/-- **The front of an item is not enough**, as far as the budget goes. -/
lemma stops_within_item (hp : Partway content t done (e :: rest) tx)
    (hes : e.field ≠ .chainId ∧ e.kind ≠ .list ∧ e.kind ≠ .tag)
    (hitem : IsString (content e.field) item) (hfits : e.kind.Fits (content e.field))
    (ha : a <+: item) (hlt : a.length < item.length) (hs : spend budget a.length = .ok budget') :
    (before (e :: rest) budget tx).Stops a .suspend := by
  refine .of_step fun c hc => ?_
  subst hc
  rw [step_before hes.1]
  rcases front_cases hitem ha hlt with hcan | ⟨header, q, hq, hh, hqlt, -⟩
  · exact stop?_readField_of_partial hcan hs
  · rw [hq, List.length_append] at hs
    obtain ⟨budget₁, hs₁, hs₂⟩ := exists_spend_add hs
    have hdec : Header.decode c.ahead = .ok ⟨(content e.field).length, false, header.length⟩ :=
      hq ▸ Header.decode_of_isHeader hh q
    obtain ⟨tx₁, haccept, ho⟩ :=
      exists_accept (h := ⟨(content e.field).length, false, header.length⟩) hp hes.2 hfits rfl
    have hahead : (c.take header.length).2.ahead = q := by
      rw [Cursor.ahead_take, hq, List.drop_left]
    obtain ⟨tx₂, happ, -⟩ := ho.apply (Nat.le_of_lt hqlt)
    have hpay : (before (e :: rest) budget tx₁).readPayload (c.take header.length).2 e rest
        ⟨⟨(content e.field).length, false, header.length⟩, 0⟩ budget₁ = _ :=
      readPayload_waits hes.2.1 (by rw [hahead]; exact hqlt) (hahead ▸ hs₂) (hahead ▸ happ)
    rw [readField_of_decode hdec hs₁ haccept, hpay]
    rfl

lemma spend_lt {m n : Nat} (h : m < n) : spend (some m) n = .error .contentLength :=
  if_neg (Nat.not_le.2 h)

/-- A byte that is its own item fits every field. -/
lemma le_capacity {k : Kind} : ∀ n, k.capacity? = some n → 1 ≤ n := by
  intro n hn
  cases k <;> cases hn <;> decide

/-- With the front of a header in the budget, the byte after it is refused, whatever it is. -/
lemma stops_beyond_header (hp : Partway content t done (e :: rest) tx)
    (hes : e.field ≠ .chainId ∧ e.kind ≠ .list ∧ e.kind ≠ .tag)
    (hcan : Header.canDecode a = .ok false) (x : UInt8) (r : Bytes) :
    (before (e :: rest) (some a.length) tx).Stops (a ++ x :: r) (.fail .contentLength) := by
  refine .of_step fun c hc => ?_
  rw [step_before hes.1]
  rcases PartialHeader.scan_cases [] c.ahead with ⟨h, hdec⟩ | hpart | ⟨err, herr⟩
  · -- a header takes more than is left, unless it has no bytes at all
    rw [hc, List.nil_append] at hdec
    rcases Header.length_lt_offset hcan hdec with ⟨rfl, hoff⟩ | hoff
    · rcases Header.isHeader_of_decode hdec with ⟨lead, r', hlead, -, rfl⟩ | ⟨s, -, -, hs, hlen⟩
      · obtain ⟨tx₁, haccept, -⟩ := exists_accept (h := ⟨1, false, 0⟩) hp hes.2 le_capacity rfl
        refine stop?_readField_of_overrun (by rw [hc]; exact hdec) rfl haccept hes.2.1 ?_
        rw [Cursor.ahead_take, hc]
        exact spend_lt Nat.one_pos
      · exact absurd hs.length_pos (by omega)
    · refine stop?_readField_of_spend ?_
      rw [PartialHeader.scan_of_decode (by rw [hc]; exact hdec)]
      exact spend_lt hoff
  · refine stop?_readField_of_spend ?_
    rw [PartialHeader.scan_of_partial hpart, hc]
    exact spend_lt (by simp)
  · rw [hc, List.nil_append] at herr
    obtain rfl := Header.eq_nil_of_canDecode_append_eq_error hcan herr
    refine stop?_readField_of_spend ?_
    rw [PartialHeader.scan_of_refused (by rw [hc]; exact herr)]
    exact spend_lt Nat.one_pos

/-- With a header and the front of its payload in the budget, the byte after them is refused. -/
lemma stops_beyond_payload {header q : Bytes} (hp : Partway content t done (e :: rest) tx)
    (hes : e.field ≠ .chainId ∧ e.kind ≠ .list ∧ e.kind ≠ .tag)
    (hh : IsHeader false (content e.field).length header) (hfits : e.kind.Fits (content e.field))
    (hlt : q.length < (content e.field).length) (x : UInt8) (r : Bytes) :
    (before (e :: rest) (some (header ++ q).length) tx).Stops (header ++ q ++ x :: r)
      (.fail .contentLength) := by
  refine .of_step fun c hc => ?_
  rw [step_before hes.1]
  rw [List.append_assoc] at hc
  have hdec : Header.decode c.ahead = .ok ⟨(content e.field).length, false, header.length⟩ :=
    hc ▸ Header.decode_of_isHeader hh _
  obtain ⟨tx₁, haccept, -⟩ := exists_accept (h := ⟨(content e.field).length, false, header.length⟩)
    hp hes.2 hfits rfl
  have hs : spend (some (header ++ q).length) header.length = .ok (some q.length) := by
    simp [spend]
  refine stop?_readField_of_overrun hdec hs haccept hes.2.1 (spend_lt ?_)
  rw [Cursor.ahead_take, hc, List.drop_left]
  simp only [List.length_take, List.length_append, List.length_cons]
  omega

/-- **A byte more than is left of the content is refused**, whatever it is. -/
lemma stops_beyond_item (hp : Partway content t done (e :: rest) tx)
    (hes : e.field ≠ .chainId ∧ e.kind ≠ .list ∧ e.kind ≠ .tag)
    (hitem : IsString (content e.field) item) (hfits : e.kind.Fits (content e.field))
    (ha : a <+: item) (hlt : a.length < item.length) (x : UInt8) (r : Bytes) :
    (before (e :: rest) (some a.length) tx).Stops (a ++ x :: r) (.fail .contentLength) := by
  rcases front_cases hitem ha hlt with hcan | ⟨header, q, rfl, hh, hqlt, -⟩
  · exact stops_beyond_header hp hes hcan x r
  · exact stops_beyond_payload hp hes hh hfits hqlt x r

/-! ### Items in a row -/

lemma exists_item_of_prefix {b : Bytes} (h : Items content es b) (ha : a <+: b)
    (hlt : a.length < b.length) :
    ∃ es₁ e es₂ b₁ item a₁, es = es₁ ++ e :: es₂ ∧ a = b₁ ++ a₁ ∧ Items content es₁ b₁ ∧
      IsString (content e.field) item ∧ a₁ <+: item ∧ a₁.length < item.length := by
  induction h generalizing a with
  | nil => exact absurd hlt (Nat.not_lt_zero _)
  | @cons e es item b head tail ih =>
      rcases Nat.lt_or_ge a.length item.length with hshort | hlong
      · exact ⟨[], e, es, [], item, a, rfl, rfl, .nil, head,
          List.prefix_of_prefix_length_le ha (List.prefix_append ..) (Nat.le_of_lt hshort), hshort⟩
      · obtain ⟨a', rfl⟩ := List.prefix_of_prefix_length_le (List.prefix_append item b) ha hlong
        rw [List.prefix_append_right_inj] at ha
        simp only [List.length_append] at hlt
        obtain ⟨es₁, e', es₂, b₁, item', a₁, rfl, rfl, hes₁, hitem, ha₁, hlt₁⟩ := ih ha (by omega)
        exact ⟨e :: es₁, e', es₂, item ++ b₁, item', a₁, rfl, (List.append_assoc ..).symm,
          .cons head hes₁, hitem, ha₁, hlt₁⟩

/-- **Items that fit are read in a row**, as far as the budget goes. -/
lemma reads_items {b : Bytes} (hp : Partway content t done (es ++ rest) tx)
    (hes : ∀ e ∈ es, e.field ≠ .chainId ∧ e.kind ≠ .list ∧ e.kind ≠ .tag)
    (hitems : Items content es b) (hfits : ∀ e ∈ es, e.kind.Fits (content e.field))
    (hs : spend budget b.length = .ok budget') :
    ∃ tx₂, Partway content t (done ++ es) rest tx₂ ∧
      (before (es ++ rest) budget tx).Reads b (before rest budget' tx₂) := by
  induction hitems generalizing done tx budget with
  | nil =>
      obtain rfl := Except.ok.inj ((spend_zero budget).symm.trans hs)
      exact ⟨tx, (List.append_nil done).symm ▸ hp, fun c r hc => ⟨c, hc, .start⟩⟩
  | @cons e es item b head tail ih =>
      rw [List.length_append] at hs
      obtain ⟨budget₁, hs₁, hs₂⟩ := exists_spend_add hs
      obtain ⟨tx₁, hp₁, hr₁⟩ := reads_item hp (hes e List.mem_cons_self) head
        (hfits e List.mem_cons_self) hs₁
      obtain ⟨tx₂, hp₂, hr₂⟩ := ih hp₁ (fun e' he' => hes e' (List.mem_cons_of_mem e he'))
        (fun e' he' => hfits e' (List.mem_cons_of_mem e he')) hs₂
      rw [List.append_assoc, List.singleton_append] at hp₂
      exact ⟨tx₂, hp₂, hr₁.trans hr₂⟩

/-- **The front of items in a row is not enough**, as far as the budget goes. -/
lemma stops_within_items {b : Bytes} (hp : Partway content t done (es ++ rest) tx)
    (hes : ∀ e ∈ es, e.field ≠ .chainId ∧ e.kind ≠ .list ∧ e.kind ≠ .tag)
    (hitems : Items content es b) (hfits : ∀ e ∈ es, e.kind.Fits (content e.field))
    (ha : a <+: b) (hlt : a.length < b.length) (hs : spend budget a.length = .ok budget') :
    (before (es ++ rest) budget tx).Stops a .suspend := by
  obtain ⟨es₁, e, es₂, b₁, item, a₁, rfl, rfl, hes₁, hitem, ha₁, hlt₁⟩ :=
    exists_item_of_prefix hitems ha hlt
  rw [List.length_append] at hs
  obtain ⟨budget₁, hs₁, hs₂⟩ := exists_spend_add hs
  rw [List.append_assoc] at hp ⊢
  obtain ⟨tx₁, hp₁, hr⟩ := reads_items hp (fun e' he' => hes e' (List.mem_append_left _ he')) hes₁
    (fun e' he' => hfits e' (List.mem_append_left _ he')) hs₁
  have he : e ∈ es₁ ++ e :: es₂ := by simp
  exact hr.stops (stops_within_item hp₁ (hes e he) hitem (hfits e he) ha₁ hlt₁ hs₂)

/-- **A byte more than is left of the content is refused**, in whichever item it is. -/
lemma stops_beyond_items {b : Bytes} (hp : Partway content t done (es ++ rest) tx)
    (hes : ∀ e ∈ es, e.field ≠ .chainId ∧ e.kind ≠ .list ∧ e.kind ≠ .tag)
    (hitems : Items content es b) (hfits : ∀ e ∈ es, e.kind.Fits (content e.field))
    (ha : a <+: b) (hlt : a.length < b.length) (x : UInt8) (r : Bytes) :
    (before (es ++ rest) (some a.length) tx).Stops (a ++ x :: r) (.fail .contentLength) := by
  obtain ⟨es₁, e, es₂, b₁, item, a₁, rfl, rfl, hes₁, hitem, ha₁, hlt₁⟩ :=
    exists_item_of_prefix hitems ha hlt
  have hs : spend (some (b₁ ++ a₁).length) b₁.length = .ok (some a₁.length) := by simp [spend]
  rw [List.append_assoc] at hp ⊢
  obtain ⟨tx₁, hp₁, hr⟩ := reads_items hp (fun e' he' => hes e' (List.mem_append_left _ he')) hes₁
    (fun e' he' => hfits e' (List.mem_append_left _ he')) hs
  have he : e ∈ es₁ ++ e :: es₂ := by simp
  rw [List.append_assoc]
  exact hr.stops (stops_beyond_item hp₁ (hes e he) hitem (hfits e he) ha₁ hlt₁ x r)

end Item

/-! ### The envelope -/

section Envelope

variable {n k w : Nat} {outer wrapper list : Bytes} {item : Header} {t : TxType}

/-- Any list header may stand outside. -/
lemma reads_outer (hh : IsHeader true k outer) : (fresh .init).Reads outer (fresh .envelope) := by
  refine .of_step fun c r hc => ?_
  have hdec : Header.decode c.ahead = .ok ⟨k, true, outer.length⟩ :=
    hc ▸ Header.decode_of_isHeader hh r
  rw [step_init, withHeader_of_decode hdec]
  refine ⟨rfl, rfl, ?_⟩
  show (c.take outer.length).2.ahead = r
  rw [Cursor.ahead_take, hc, List.drop_left]

/-- The header of a string with payload is read. -/
lemma reads_wrapper (hw : w ≠ 0) (hh : IsHeader false w wrapper) :
    (fresh .envelope).Reads wrapper (fresh (.wrapper ⟨w, false, wrapper.length⟩)) := by
  refine .of_step fun c r hc => ?_
  have hdec : Header.decode c.ahead = .ok ⟨w, false, wrapper.length⟩ :=
    hc ▸ Header.decode_of_isHeader hh r
  have hlong : (Header.isSingle ⟨w, false, wrapper.length⟩ || w == 0) = false := by
    have hpos := hh.length_pos
    simp only [Header.isSingle, Bool.or_eq_false_iff, beq_eq_false_iff_ne]
    exact ⟨by omega, hw⟩
  rw [step_envelope, withHeader_of_decode hdec]
  simp only [hlong, Bool.false_eq_true, if_false]
  refine ⟨trivial, rfl, ?_⟩
  rw [Cursor.ahead_take, hc, List.drop_left]

/-- A byte that begins a list is looked at and left there. -/
lemma visits_content {c : Cursor} {x : UInt8} (hx : c.peek? = some x) (hle : listLead ≤ x.toNat) :
    (fresh (.wrapper item)).Visits c (fresh (.content item)) c := by
  have hstep : (fresh (.wrapper item)).step c = ⟨fresh (.content item), c, none, []⟩ := by
    rw [step]
    simp only [fresh, hx, if_pos hle]
  have hv := Visits.step (d := fresh (.wrapper item)) (c := c) .start (by rw [hstep])
  rwa [hstep] at hv

/-- The front of a list header begins like a list. -/
lemma exists_lead_of_prefix {c : Cursor} (hh : IsHeader true n list) (ha : c.ahead <+: list ++ r)
    (hne : c.ahead ≠ []) : ∃ x, c.peek? = some x ∧ listLead ≤ x.toNat := by
  obtain ⟨x, rest, rfl, -, hx⟩ := hh.le_lead_iff
  obtain ⟨y, a, hy⟩ := List.exists_cons_of_ne_nil hne
  rw [hy, List.cons_append] at ha
  obtain ⟨rfl, -⟩ := List.cons_prefix_cons.1 ha
  exact ⟨y, by rw [Cursor.peek?, hy]; rfl, hx.2 rfl⟩

/-- The content list that fills its item is entered. -/
lemma reads_list (hh : IsHeader true n list) (hfills : n + list.length = item.len) :
    (fresh (.wrapper item)).Reads list (fresh (.typeTag ⟨n, true, list.length⟩)) := by
  intro c r hc
  obtain ⟨x, hx, hle⟩ := exists_lead_of_prefix (r := r) (c := c) hh (hc ▸ List.prefix_rfl)
    (hc ▸ List.append_ne_nil_of_left_ne_nil (List.ne_nil_of_length_pos hh.length_pos) r)
  have hdec : Header.decode c.ahead = .ok ⟨n, true, list.length⟩ :=
    hc ▸ Header.decode_of_isHeader hh r
  have hstep : (fresh (.content item)).step c
      = ⟨fresh (.typeTag ⟨n, true, list.length⟩), (c.take list.length).2, none, []⟩ := by
    rw [step_content, withHeader_of_decode hdec, if_pos hfills]
    rfl
  have hv := (visits_content hx hle).step (d := fresh (.wrapper item)) (by rw [hstep])
  rw [hstep] at hv
  refine ⟨_, ?_, hv⟩
  rw [Cursor.ahead_take, hc, List.drop_left]

/-- A content list that does not fill it is refused. -/
lemma stops_list (hh : IsHeader true n list) (hfills : n + list.length ≠ item.len) (r : Bytes) :
    (fresh (.wrapper item)).Stops (list ++ r) (.fail .contentLength) := by
  intro c hc
  obtain ⟨x, hx, hle⟩ := exists_lead_of_prefix (r := r) (c := c) hh (hc ▸ List.prefix_rfl)
    (hc ▸ List.append_ne_nil_of_left_ne_nil (List.ne_nil_of_length_pos hh.length_pos) r)
  have hdec : Header.decode c.ahead = .ok ⟨n, true, list.length⟩ :=
    hc ▸ Header.decode_of_isHeader hh r
  rw [(visits_content hx hle).run_eq.1, run_of_stop]
  rw [step_content, withHeader_of_decode hdec, if_neg hfills]

/-- The front of its header is not enough. -/
lemma stops_within_list (hh : IsHeader true n list) (ha : a <+: list)
    (hlt : a.length < list.length) : (fresh (.wrapper item)).Stops a .suspend := by
  intro c hc
  by_cases hne : a = []
  · have hstep : ((fresh (.wrapper item)).step c).stop? = some .suspend := by
      rw [step]
      simp only [fresh, Cursor.peek?, hc, hne, List.head?_nil]
    rw [run_of_stop hstep]
  · obtain ⟨x, hx, hle⟩ := exists_lead_of_prefix (r := []) (c := c) hh
      (by rw [List.append_nil, hc]; exact ha) (hc ▸ hne)
    rw [(visits_content hx hle).run_eq.1, run_of_stop]
    rw [step_content]
    exact stop?_withHeader_of_partial (hc ▸ Header.canDecode_of_lt hh ha hlt)

/-! ### The tag -/

/-- The tag tells the type, and is read again as the first field that counts. -/
lemma visits_typed {c : Cursor} (ht : t ≠ .legacy) (hc : c.peek? = some t.id) :
    (fresh (.typeTag ⟨n, true, k⟩)).Visits c
      (before (⟨.type, .tag⟩ :: (t.items ++ TxType.closing)) (some n) { type := t }) c := by
  have hl := TxType.layout_typed ht
  have ha : Entry.accept ⟨.content, .list⟩ ⟨n, true, k⟩ { type := t } = .ok { type := t } := rfl
  have henter : ((fresh (.typeTag ⟨n, true, k⟩)).step c).stop? = none ∧
      ((fresh (.typeTag ⟨n, true, k⟩)).step c).decoder
        = opened (⟨.content, .list⟩ :: ⟨.type, .tag⟩ :: (t.items ++ TxType.closing)) ⟨n, true, k⟩
          (some n) { type := t } ∧
      ((fresh (.typeTag ⟨n, true, k⟩)).step c).cursor = c := by
    have htag : TxType.ofTag? t.id = some t := TxType.ofTag?_eq_some_iff.2 ⟨ht, rfl⟩
    have hstep : (fresh (.typeTag ⟨n, true, k⟩)).step c
        = (fresh (.typeTag ⟨n, true, k⟩)).enter c t ⟨n, true, k⟩ (some n) := by
      rw [step]
      simp only [fresh, hc, htag]
    have htx : (fresh (.typeTag ⟨n, true, k⟩)).tx = {} := rfl
    rw [hstep, enter, htx]
    simp only [hl, ha]
    exact ⟨trivial, rfl, trivial⟩
  obtain ⟨hstop, hdec, hcur⟩ := henter
  have hv := Visits.step (d := fresh (.typeTag ⟨n, true, k⟩)) (c := c) .start hstop
  rw [hdec, hcur] at hv
  exact hv.step rfl

/-- There it is a payload without a header. -/
lemma step_tag {rest : List Entry} {c : Cursor} {r : Bytes} (hc : c.ahead = t.id :: r) :
    (before (⟨.type, .tag⟩ :: rest) (some n) { type := t }).step c =
      ((before (⟨.type, .tag⟩ :: rest) (some n) { type := t }).readPayload (c.take 0).2
        ⟨.type, .tag⟩ rest ⟨⟨1, false, 0⟩, 0⟩ (some n)).after
          (Entry.acceptanceLog ⟨.type, .tag⟩ ⟨1, false, 0⟩) := by
  have hdec : Header.decode c.ahead = .ok ⟨1, false, 0⟩ := hc ▸ Header.decode_single t.id_lt r
  have hne : (⟨.type, .tag⟩ : Entry).field ≠ .chainId := by simp
  rw [step_before hne]
  exact readField_of_decode hdec rfl rfl

/-- **The tag is read** as a byte of the content. -/
lemma reads_tag (ht : t ≠ .legacy) (hn : 1 ≤ n) :
    (fresh (.typeTag ⟨n, true, k⟩)).Reads [t.id]
      (before (t.items ++ TxType.closing) (some (n - 1)) { type := t }) := by
  intro c r hc
  have hv := visits_typed (n := n) (k := k) ht (c := c) (by rw [Cursor.peek?, hc]; rfl)
  have hs : spend (some n) 1 = .ok (some (n - 1)) := if_pos hn
  have hpay : (before (⟨.type, .tag⟩ :: (t.items ++ TxType.closing)) (some n)
      { type := t }).readPayload (c.take 0).2 ⟨.type, .tag⟩ (t.items ++ TxType.closing)
      ⟨⟨1, false, 0⟩, 0⟩ (some n) = _ :=
    readPayload_closes (by simp) (by rw [Cursor.ahead_take, hc]; simp [OpenField.remaining]) hs rfl
  have hstep := (step_tag hc).trans (congrArg (Step.after · _) hpay)
  have hv' := hv.step (by rw [hstep]; rfl)
  rw [hstep] at hv'
  refine ⟨_, ?_, hv'⟩
  show ((c.take 0).2.take 1).2.ahead = r
  rw [Cursor.ahead_take, Cursor.ahead_take, hc]
  rfl

/-- Without content there is no byte for it. -/
lemma stops_tag (ht : t ≠ .legacy) (r : Bytes) :
    (fresh (.typeTag ⟨0, true, k⟩)).Stops (t.id :: r) (.fail .contentLength) := by
  intro c hc
  have hv := visits_typed (n := 0) (k := k) ht (c := c) (by rw [Cursor.peek?, hc]; rfl)
  have hover : spend (some 0) (((c.take 0).2.ahead.take 1).length) = .error .contentLength := by
    rw [Cursor.ahead_take, hc]
    rfl
  rw [hv.run_eq.1, run_of_stop]
  rw [step_tag hc, readPayload_overrun (by simp) hover]
  rfl

/-- It is awaited if it is not there. -/
lemma stops_before_tag : (fresh (.typeTag ⟨n, true, k⟩)).Stops [] .suspend := by
  refine .of_step fun c hc => ?_
  rw [step]
  simp only [fresh, Cursor.peek?, hc, List.head?_nil]

end Envelope

/-! ### The content -/

section Content

variable {content : Field → Bytes} {t : TxType} {tx : Transaction} {n m k : Nat}

/-- The content is read to its end, and what is left of the budget stays. -/
lemma reads_content (ht : t ≠ .legacy) (hb : Items content t.items b)
    (hfits : ∀ e ∈ t.items, e.kind.Fits (content e.field)) (hn : b.length + 1 + m = n) :
    ∃ tx, tx.type = t ∧ (fresh (.typeTag ⟨n, true, k⟩)).Reads (t.id :: b)
      (before TxType.closing (some m) tx) := by
  have hs : spend (some (n - 1)) b.length = .ok (some m) := by
    rw [spend, if_pos (by omega), show n - 1 - b.length = m by omega]
  obtain ⟨tx, hp, hr⟩ := reads_items (Partway.typed content ht)
    (fun e he => TxType.kind_of_mem_items he) hb hfits hs
  exact ⟨tx, hp.type, (reads_tag ht (by omega)).trans hr⟩

lemma stops_within_content (ht : t ≠ .legacy) (hb : Items content t.items b)
    (hfits : ∀ e ∈ t.items, e.kind.Fits (content e.field)) (ha : a <+: t.id :: b)
    (hlt : a.length < b.length + 1) (hn : a.length ≤ n) :
    (fresh (.typeTag ⟨n, true, k⟩)).Stops a .suspend := by
  rcases a with _ | ⟨x, a⟩
  · exact stops_before_tag
  · obtain ⟨rfl, ha'⟩ := List.cons_prefix_cons.1 ha
    simp only [List.length_cons] at hlt hn
    have hs : spend (some (n - 1)) a.length = .ok (some (n - 1 - a.length)) := if_pos (by omega)
    exact (reads_tag ht (by omega)).stops (stops_within_items (Partway.typed content ht)
      (fun e he => TxType.kind_of_mem_items he) hb hfits ha' (by omega) hs)

/-- A byte more than the content has is refused, if it is not the tag. -/
lemma stops_beyond_content (ht : t ≠ .legacy) (hb : Items content t.items b)
    (hfits : ∀ e ∈ t.items, e.kind.Fits (content e.field)) (ha : a <+: t.id :: b)
    (hlt : a.length < b.length + 1) (hn : a.length = n) {x : UInt8} (hx : n = 0 → x = t.id)
    (r : Bytes) : (fresh (.typeTag ⟨n, true, k⟩)).Stops (a ++ x :: r) (.fail .contentLength) := by
  subst hn
  rcases a with _ | ⟨y, a⟩
  · rw [hx rfl]
    exact stops_tag ht r
  · obtain ⟨rfl, ha'⟩ := List.cons_prefix_cons.1 ha
    simp only [List.length_cons] at hlt
    exact (reads_tag ht (Nat.le_add_left ..)).stops (stops_beyond_items (Partway.typed content ht)
      (fun e he => TxType.kind_of_mem_items he) hb hfits ha' (by omega) x r)

/-- What is left of the content is refused at the chain. -/
lemma stops_chain (hm : m ≠ 0) (r : Bytes) :
    (before TxType.closing (some m) tx).Stops r (.fail .contentLength) := by
  refine .of_step fun c hc => ?_
  rw [closing_eq]
  show ((before _ _ tx).readFields c (⟨.chainId, .uint⟩ :: standIns) none (some m)).stop? = _
  rw [readFields]
  simp only [if_true, Option.getD_some, if_pos hm]

/-- With nothing left of it the chain is awaited. -/
lemma stop?_step_chain (htype : tx.type ≠ .legacy) (q : Nat) {c : Cursor} (hc : c.ahead = []) :
    (((before TxType.closing (some 0) tx).owing q).step c).stop? = some .suspend := by
  have hends : ((before TxType.closing (some 0) tx).owing q).endsBeforeChain c = false := by
    simp [endsBeforeChain, owing, before, htype]
  rw [closing_eq] at hends ⊢
  show (((before _ _ tx).owing q).readFields c (⟨.chainId, .uint⟩ :: standIns) none
    (some 0)).stop? = _
  rw [readFields]
  simp only [if_true, Option.getD_some, ne_eq, not_true, if_false, hends, Bool.false_eq_true]
  rw [readField_owing]
  exact stop?_readField_of_partial (by rw [hc]; rfl) rfl

end Content

end Decoder

end TxStream
