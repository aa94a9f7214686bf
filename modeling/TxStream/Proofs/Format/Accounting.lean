import TxStream.Proofs.Decoder.Budget
import TxStream.Proofs.Decoder.Moment
import TxStream.Proofs.Format.Front

/-!
The length of typed content. The content list has to fill the item that wraps it, and the tag and
the items have to fill the list.

* `Decoder.Accounts`: what becomes of content that is as long as announced, or shorter, or longer;
* `typed_content_accounts`: this is what becomes of it, in any row of chunks, and a list that does
  not fill its item is refused with its header.
-/

namespace TxStream

namespace Decoder

variable {d : Decoder} {a b q r start body : Bytes} {len n : Nat} {e : DecodeError}

/-! ### From one chunk to several -/

/-- Bytes that lead to a failure, and whose front does not, are refused with the last one. -/
lemma onLastByte_of_reads (hr : (fresh .init).Reads start d) (hne : q ≠ [])
    (hwait : ∀ a, a <+: q → a.length < q.length → d.Stops a .suspend)
    (hfail : ∀ r, d.Stops (q ++ r) (.fail e)) :
    OnLastByte ⟨.init, {}, len, {}⟩ (start ++ q)
      fun d₁ chunk => (d₁.update chunk).result = .error e := by
  obtain ⟨a, x, rfl⟩ : ∃ a x, q = a ++ [x] := ⟨_, _, (List.dropLast_concat_getLast hne).symm⟩
  rw [← List.append_assoc]
  refine onLastByte_of_error (waiting_init len) (fun hle => ?_) fun r hle => ?_
  · have hstops := hr.stops (hwait a (List.prefix_append ..) (by simp))
    exact result_update_of_stops hstops (by simp) hle
  · have hstops := hr.stops (hfail r)
    rw [List.append_assoc a, List.singleton_append, ← List.append_assoc] at hstops
    exact result_update_of_stops hstops (by simp) hle

/-- The front of bytes that a decoder waits after is not refused. -/
lemma result_ne_error_of_stops (h : (fresh .init).Stops (a ++ b) .suspend) (hle : a.length ≤ len) :
    (update ⟨.init, {}, len, {}⟩ a).result ≠ .error e := by
  intro hfail
  -- if there is no room for the rest, nothing changes with more of it
  have ht : Takes ⟨.init, {}, len, {}⟩ a := (waiting_init len).takes hle
  have hroom := result_update_owing ht (Nat.le_add_right len b.length) (by rw [hfail]; simp)
  have hab : (a ++ b).length ≤ len + b.length := by
    rw [List.length_append]
    exact Nat.add_le_add_right hle _
  have hmore := update_of_waits (waiting_init (len + b.length)) hab
    (result_update_of_stops h (by simp) hab)
  cases (hroom.trans hfail).symm.trans hmore

/-! ### What becomes of the content -/

/-- What becomes of the typed content `body` after the bytes `start`, if its length is announced to
be `n`. -/
structure Accounts (d : Decoder) (start body : Bytes) (n : Nat) : Prop where
  /-- Content that is as long as announced is not refused for its length, whatever follows it. -/
  accepted : body.length = n → ∀ cs rest, cs.flatten <+: start ++ body ++ rest →
    cs.flatten.length ≤ d.pending → d.feed cs ≠ .error .contentLength
  /-- The chain is reached with its last byte. -/
  reached : body.length = n → d.OnLastByte (start ++ body) fun d₁ chunk =>
    ∃ d' c', d₁.Reaches chunk d' c' ∧ d'.field? = some .chainId
  /-- Content that is shorter is refused with its last byte, whatever follows it. -/
  short : body.length < n → d.OnLastByte (start ++ body) fun d₁ chunk =>
    (d₁.update chunk).result = .error .contentLength
  /-- Content that is longer is refused with the first byte too many, whatever follows it. Unless
  this byte should be the tag, it may be any. -/
  long : n < body.length → ∀ x, (n = 0 → body.head? = some x) →
    d.OnLastByte (start ++ (body.take n ++ [x])) fun d₁ chunk =>
      (d₁.update chunk).result = .error .contentLength
  /-- No byte after the content is handed to a field. -/
  kept : n < body.length → ∀ x, (n = 0 → body.head? = some x) →
    ∀ {cs : List Bytes} {chunk rest : Bytes},
    cs.flatten ++ chunk <+: start ++ (body.take n ++ x :: rest) →
    (cs.flatten ++ chunk).length ≤ d.pending → ∀ {d₁}, d.feed cs = .ok d₁ →
    ∀ {d' c' piece c₁}, d₁.Reaches chunk d' c' → d'.Hands c' piece c₁ →
      cs.flatten.length + c₁.position + piece.length ≤ start.length + n

section Accounts

variable {content : Field → Bytes} {t : TxType} {outer wrapper list : Bytes} {k w : Nat}

lemma reads_start (houter : IsHeader true k outer) (hwrapper : IsHeader false w wrapper)
    (hlist : IsHeader true n list) (hw : w = n + list.length) :
    (fresh .init).Reads (outer ++ wrapper ++ list) (fresh (.typeTag ⟨n, true, list.length⟩)) := by
  have hpos := hlist.length_pos
  exact ((reads_outer houter).trans (reads_wrapper (by omega) hwrapper)).trans
    (reads_list hlist hw.symm)

/-- Content is not refused for its length if nothing is left to count after it. -/
lemma feed_ne_contentLength {tx : Transaction}
    (hr : (fresh .init).Reads q (before TxType.closing (some 0) tx))
    (hwait : (fresh .init).Stops q .suspend) {cs : List Bytes} {rest : Bytes}
    (hcs : cs.flatten <+: q ++ rest) (hle : cs.flatten.length ≤ len) :
    feed ⟨.init, {}, len, {}⟩ cs ≠ .error .contentLength := by
  intro hfeed
  have hfail := update_of_feed_eq_error (waiting_init len) hle hfeed
  rcases Nat.le_total cs.flatten.length q.length with hshort | hlong
  · obtain ⟨b, rfl⟩ := List.prefix_of_prefix_length_le hcs (List.prefix_append ..) hshort
    exact result_ne_error_of_stops hwait hle hfail
  · obtain ⟨r, hq⟩ := List.prefix_of_prefix_length_le (List.prefix_append ..) hcs hlong
    rw [← hq] at hle hfail
    obtain ⟨c, -, hreach⟩ := hr.reaches hle
    have huncounted : (before TxType.closing (some 0) tx).phase.Uncounted := ⟨rfl, rfl⟩
    exact ne_contentLength_of_uncounted hreach (waiting_init len).sound huncounted hfail

/-- The chain is reached with the last byte before it. -/
lemma onLastByte_chain {tx : Transaction} (htype : tx.type ≠ .legacy)
    (hr : (fresh .init).Reads q (before TxType.closing (some 0) tx)) :
    OnLastByte ⟨.init, {}, len, {}⟩ q fun d₁ chunk =>
      ∃ d' c', d₁.Reaches chunk d' c' ∧ d'.field? = some .chainId := by
  refine onLastByte_of_field (waiting_init len) fun hle => ?_
  have hle' : (q ++ []).length ≤ len := by rwa [List.append_nil]
  obtain ⟨c, hc, hreach⟩ := hr.reaches hle'
  rw [List.append_nil] at hreach
  exact ⟨_, c, hreach, stop?_step_chain htype _ hc, rfl⟩

/-- **No byte after the content is handed to a field**, if the first of them is refused. -/
lemma le_of_hands (houter : IsHeader true k outer) (hwrapper : IsHeader false w wrapper)
    {x : UInt8} (hw : w = list.length + a.length)
    (hfail : OnLastByte ⟨.init, {}, len, {}⟩ (outer ++ wrapper ++ list ++ (a ++ [x]))
      fun d₁ chunk => (d₁.update chunk).result = .error .contentLength)
    {cs : List Bytes} {chunk rest : Bytes}
    (hcs : cs.flatten ++ chunk <+: outer ++ wrapper ++ list ++ (a ++ x :: rest))
    (hle : (cs.flatten ++ chunk).length ≤ len) {d₁ d' : Decoder} {c' c₁ : Cursor} {piece : Bytes}
    (hfeed : feed ⟨.init, {}, len, {}⟩ cs = .ok d₁) (hr : d₁.Reaches chunk d' c')
    (hh : d'.Hands c' piece c₁) :
    cs.flatten.length + c₁.position + piece.length ≤ (outer ++ wrapper ++ list ++ a).length := by
  have hd₁ := after_of_feed hfeed
  have hc := hr.takes.ne_complete
  have hf := hr.takes.ne_failed
  rw [← hd₁] at hc hf
  have hw₁ : d₁.Waiting := by
    rw [← hd₁]
    exact (Resting.after (.inl (waiting_init len)) cs).resolve_right fun h => h.elim hc hf
  obtain ⟨hchunk, -⟩ := hr.visits.chunk_eq (hw₁.sound.owing _) hr.takes.ne_failed
  obtain ⟨hc₁, hposition⟩ := hh.position_le
  rw [hchunk, Cursor.chunk_start] at hposition
  have hsum : (cs.flatten ++ chunk).length = cs.flatten.length + chunk.length := List.length_append
  rcases Nat.lt_or_ge (outer ++ wrapper ++ list ++ a).length (cs.flatten ++ chunk).length with
    hcross | hwithin
  · -- the chunk brings the byte too many and is refused, so that all that it hands over is counted
    have hq : outer ++ wrapper ++ list ++ (a ++ [x]) <+: cs.flatten ++ chunk := by
      rw [← List.append_assoc, ← List.singleton_append, ← List.append_assoc] at hcs
      rw [← List.append_assoc]
      refine List.prefix_of_prefix_length_le (List.prefix_append _ rest) hcs ?_
      rw [List.length_append, List.length_singleton]
      exact hcross
    have hres := hfail.result_eq (waiting_init len) (by simp) hq hle hfeed
    have hcounted := fun hu => ne_contentLength_of_uncounted hr hw₁.sound hu hres
    obtain ⟨r, hinput⟩ := hq
    have ht : Tracks outer wrapper w (r.length + 1) ⟨.init, {}, len, {}⟩ (cs.flatten ++ chunk) := by
      refine ⟨list ++ (a ++ x :: r), ?_, ?_⟩
      · rw [← hinput]
        simp
      · simp only [List.length_append, List.length_cons]
        omega
    have ht₁ := (Tracks.after houter hwrapper (waiting_init len) ht hc hf).2
    rw [hd₁, ← List.append_nil chunk] at ht₁
    have hbound := (hr.tracks houter hwrapper hw₁.sound ht₁).le_of_hands
      (hr.moves hw₁.sound rfl).1 hh hcounted
    have hremaining := c₁.position_add_remaining
    rw [hc₁, hchunk, Cursor.chunk_start, Cursor.remaining] at hremaining
    rw [← hinput] at hsum
    simp only [List.length_append, List.length_singleton, List.length_nil] at hsum hbound ⊢
    omega
  · omega

/-- The last of the content is refused if it is announced to be longer. -/
lemma onLastByte_short (houter : IsHeader true k outer) (hwrapper : IsHeader false w wrapper)
    (hlist : IsHeader true n list) (hw : w = n + list.length) (ht : t ≠ .legacy)
    (hb : Items content t.items b) (hfits : ∀ e ∈ t.items, e.kind.Fits (content e.field))
    (hn : (t.id :: b).length < n) :
    OnLastByte ⟨.init, {}, len, {}⟩ (outer ++ wrapper ++ list ++ t.id :: b)
      fun d₁ chunk => (d₁.update chunk).result = .error .contentLength := by
  obtain ⟨m, hm⟩ := Nat.exists_eq_add_of_lt hn
  obtain ⟨tx, -, hr⟩ := reads_content (m := m + 1) (k := list.length) ht hb hfits hm.symm
  refine onLastByte_of_reads (reads_start houter hwrapper hlist hw) (by simp)
    (fun a ha hlt => ?_) fun r => hr.stops (stops_chain (Nat.succ_ne_zero m) r)
  exact stops_within_content ht hb hfits ha hlt (Nat.le_of_lt (Nat.lt_trans hlt hn))

/-- A byte too many is refused. -/
lemma onLastByte_long (houter : IsHeader true k outer) (hwrapper : IsHeader false w wrapper)
    (hlist : IsHeader true n list) (hw : w = n + list.length) (ht : t ≠ .legacy)
    (hb : Items content t.items b) (hfits : ∀ e ∈ t.items, e.kind.Fits (content e.field))
    (hn : n < (t.id :: b).length) {x : UInt8} (hx : n = 0 → (t.id :: b).head? = some x) :
    OnLastByte ⟨.init, {}, len, {}⟩ (outer ++ wrapper ++ list ++ ((t.id :: b).take n ++ [x]))
      fun d₁ chunk => (d₁.update chunk).result = .error .contentLength := by
  have hlength : ((t.id :: b).take n).length = n := List.length_take_of_le (Nat.le_of_lt hn)
  have htake := List.take_prefix n (t.id :: b)
  refine onLastByte_of_reads (reads_start houter hwrapper hlist hw) (by simp)
    (fun a ha hlt => ?_) fun r => ?_
  · rw [List.length_append, List.length_singleton, hlength] at hlt
    have hfront := List.prefix_of_prefix_length_le ha (List.prefix_append ..) (by omega)
    exact stops_within_content ht hb hfits (hfront.trans htake) (Nat.lt_of_lt_of_le hlt hn)
      (Nat.le_of_lt_succ hlt)
  · rw [List.append_assoc, List.singleton_append]
    exact stops_beyond_content ht hb hfits htake (hlength.symm ▸ hn) hlength
      (fun h0 => (Option.some.inj (hx h0)).symm) r

/-- A list that does not fill its item is refused with its header. -/
lemma onLastByte_list (houter : IsHeader true k outer) (hwrapper : IsHeader false w wrapper)
    (hlist : IsHeader true n list) (hpos : 1 ≤ w) (hw : w ≠ n + list.length) :
    OnLastByte ⟨.init, {}, len, {}⟩ (outer ++ wrapper ++ list)
      fun d₁ chunk => (d₁.update chunk).result = .error .contentLength :=
  onLastByte_of_reads ((reads_outer houter).trans (reads_wrapper (Nat.ne_of_gt hpos) hwrapper))
    (List.ne_nil_of_length_pos hlist.length_pos) (fun _ => stops_within_list hlist)
    (stops_list hlist hw.symm)

/-- **Content that fills its item is accounted for.** -/
lemma accounts_of_fills (houter : IsHeader true k outer) (hwrapper : IsHeader false w wrapper)
    (hlist : IsHeader true n list) (hw : w = n + list.length) (ht : t ≠ .legacy)
    (hb : Items content t.items b) (hfits : ∀ e ∈ t.items, e.kind.Fits (content e.field)) :
    Accounts ⟨.init, {}, len, {}⟩ (outer ++ wrapper ++ list) (t.id :: b) n := by
  have hall : (t.id :: b).length = n → ∃ tx : Transaction, tx.type ≠ .legacy ∧
      (fresh .init).Reads (outer ++ wrapper ++ list ++ t.id :: b)
        (before TxType.closing (some 0) tx) := by
    intro hn
    obtain ⟨tx, htype, hr⟩ := reads_content (m := 0) (k := list.length) ht hb hfits hn
    exact ⟨tx, htype ▸ ht, (reads_start houter hwrapper hlist hw).trans hr⟩
  refine ⟨fun hn cs rest hcs hle => ?_, fun hn => ?_,
    onLastByte_short houter hwrapper hlist hw ht hb hfits,
    fun hn x => onLastByte_long houter hwrapper hlist hw ht hb hfits hn, ?_⟩
  · obtain ⟨tx, htype, hr⟩ := hall hn
    have hwait := hr.stops (.of_step fun c hc => stop?_step_chain htype 0 hc)
    rw [List.append_nil] at hwait
    exact feed_ne_contentLength hr hwait hcs hle
  · obtain ⟨tx, htype, hr⟩ := hall hn
    exact onLastByte_chain htype hr
  · intro hn x hx cs chunk rest hcs hle d₁ hfeed d' c' piece c₁ hr hh
    have hlength : ((t.id :: b).take n).length = n := List.length_take_of_le (Nat.le_of_lt hn)
    have hbound := le_of_hands houter hwrapper (by omega)
      (onLastByte_long houter hwrapper hlist hw ht hb hfits hn hx) hcs hle hfeed hr hh
    rw [List.length_append] at hbound
    omega

/-- **The length of typed content is accounted for.** After the header of an outer list, the header
of an item of `w` bytes and that of a content list of `n` bytes, in any chunks within the declared
length: if the list fills the item, and a tag and items that fit follow, content that is as long as
announced is never refused for its length and is followed by the chain, shorter content is refused
with its last byte, and longer content with the first byte too many, none of which is handed to a
field. If the list does not fill an item that is not empty, it is refused with its header. -/
theorem typed_content_accounts (hlen : len ≤ maxLength) (houter : IsHeader true k outer)
    (hwrapper : IsHeader false w wrapper) (hlist : IsHeader true n list) :
    ∃ d, create len = .ok d ∧
      (w = n + list.length → ∀ {content : Field → Bytes} {t : TxType} {b : Bytes}, t ≠ .legacy →
        Items content t.items b → (∀ e ∈ t.items, e.kind.Fits (content e.field)) →
          d.Accounts (outer ++ wrapper ++ list) (t.id :: b) n) ∧
      (1 ≤ w → w ≠ n + list.length → d.OnLastByte (outer ++ wrapper ++ list) fun d₁ chunk =>
        (d₁.update chunk).result = .error .contentLength) :=
  ⟨_, if_neg (Nat.not_lt.2 hlen), fun hw _ _ _ => accounts_of_fills houter hwrapper hlist hw,
    onLastByte_list houter hwrapper hlist⟩

/-- A cancellation whose list announces a byte less than its items have: the chunk with the last one
is refused, whatever that is. -/
theorem typed_content_accounts_long :
    8 ≤ maxLength ∧ ∃ d, create 8 = .ok d ∧ ∃ d₁,
      d.feed [[0xc0, 0x85], [0xc4, 0x38, 0x80, 0x80, 0x80]] = .ok d₁ ∧
        (d₁.update [0xc1]).result = .error .contentLength := by
  have hle : 8 ≤ maxLength := by decide
  have houter : IsHeader true 0 [0xc0] := .short (by decide) rfl
  have hwrapper : IsHeader false 5 [0x85] := .short (by decide) rfl
  have hlist : IsHeader true 4 [0xc4] := .short (by decide) rfl
  obtain ⟨d, hd, haccounts, -⟩ := typed_content_accounts hle houter hwrapper hlist
  have hitems : Items (fun _ => []) (TxType.items (.typed .cancel .basic))
      [0x80, 0x80, 0x80, 0x80] := Items.short (by decide)
  have h := haccounts rfl (by simp) hitems fun _ _ _ _ => Nat.zero_le _
  obtain rfl : (⟨.init, {}, 8, {}⟩ : Decoder) = d := Except.ok.inj hd
  obtain ⟨d₁, hfeed, -, -, hres⟩ := h.long (by decide) 0xc1 (by decide)
    [[0xc0, 0x85], [0xc4, 0x38, 0x80, 0x80, 0x80]] [0xc1] (by decide) (by decide) (by decide)
  exact ⟨hle, _, hd, d₁, hfeed, hres⟩

end Accounts

end Decoder

end TxStream
