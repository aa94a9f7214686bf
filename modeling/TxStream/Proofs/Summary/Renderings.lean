import Mathlib.Data.List.TFAE
import Mathlib.Tactic.TFAE
import TxStream.Proofs.Summary.Amounts
import TxStream.Proofs.Summary.RoundTrip

/-!
What the two formats of a summary tell apart.

* `jsonText_injective`: JSON text tells any two summaries apart, since it is read back;
* `text_inj`: text for people tells apart the summaries whose parts are each on one line and whose
  amounts show quantities (`Summary.Shown`). Its lines are found again at the line feeds, and a
  line that may be missing is known by its title;
* `ofTransaction_eq_iff`: summaries of transactions agree exactly if the transactions are alike
  (`Transaction.Alike`);
* `renderings_agree_tfae`: so both formats tell apart exactly the transactions that are not alike.
-/

namespace TxStream

/-! ### Parts that may be missing -/

/-- A part that may be missing and what comes after it are both determined, if what comes after it
does not begin like the part. -/
lemma optional_append_inj {α β : Type} {f : α → β} {o o' : Option α} {l l' : List β}
    (hf : ∀ a ∈ o, ∀ a' ∈ o', f a = f a' → a = a') (hl : ∀ a, l.head? ≠ some (f a))
    (hl' : ∀ a, l'.head? ≠ some (f a)) (h : o.toList.map f ++ l = o'.toList.map f ++ l') :
    o = o' ∧ l = l' := by
  cases o with
  | none =>
      cases o' with
      | none => exact ⟨rfl, h⟩
      | some a => exact absurd (congrArg List.head? h) (hl a)
  | some a =>
      cases o' with
      | none => exact absurd (congrArg List.head? h).symm (hl' a)
      | some a' =>
          obtain ⟨ha, hrest⟩ := List.cons.inj h
          exact ⟨congrArg some (hf a rfl a' rfl ha), hrest⟩

lemma string_append_inj_right {s t u v : String}
    (hlen : u.toList.length = v.toList.length) (h : s ++ u = t ++ v) : s = t ∧ u = v := by
  rw [← String.toList_inj, String.toList_append, String.toList_append] at h
  obtain ⟨hs, hu⟩ := List.append_inj' h hlen
  exact ⟨String.toList_inj.1 hs, String.toList_inj.1 hu⟩

/-- Titles of one length that differ are not mistaken for each other. -/
lemma titled_ne {title title' : String} (hne : title ≠ title')
    (hlen : title.toList.length = title'.toList.length) (s s' : String) :
    title ++ s ≠ title' ++ s' := by
  intro h
  rw [← String.toList_inj, String.toList_append, String.toList_append] at h
  exact hne (String.toList_inj.1 (List.append_inj h hlen).1)

attribute [ext] Summary

namespace Summary

variable {s t : Summary}

/-! ### JSON text -/

/-- **JSON text tells any two summaries apart.** -/
theorem jsonText_injective : Function.Injective jsonText := by
  intro s t h
  refine Option.some.inj ?_
  calc some s = (Json.parse? s.jsonText).bind ofJson? := (read_jsonText s).symm
    _ = (Json.parse? t.jsonText).bind ofJson? := by rw [h]
    _ = some t := read_jsonText t

/-! ### Text for people -/

/-- The summaries whose parts are each on one line and whose amounts show quantities. -/
structure Shown (s : Summary) : Prop where
  /-- The name of the type is on one line. -/
  txType : '\n' ∉ s.txType.toList
  /-- The class of the fee payer is on one line. -/
  feePayer : '\n' ∉ s.feePayer.toList
  /-- The recipient is on one line. -/
  recipient : '\n' ∉ s.recipient.toList
  /-- The serial number shows a quantity. -/
  nonce : s.nonce.Shown
  /-- The price of gas shows a quantity. -/
  gasPrice : s.gasPrice.Shown
  /-- The bound on gas shows a quantity. -/
  gasLimit : s.gasLimit.Shown
  /-- The value shows a quantity. -/
  value : s.value.Shown
  /-- The chain shows a quantity if it is named. -/
  chainId : ∀ c ∈ s.chainId, Amount.Shown c

lemma chainId_ofTransaction (tx : Transaction) : (ofTransaction tx).chainId =
    if tx.chainId.bytes = [] then none else some (.ofQuantity tx.chainId) :=
  rfl

/-- Summaries of transactions are of this kind. -/
lemma shown_ofTransaction (tx : Transaction) : (ofTransaction tx).Shown where
  txType := tx.type.newline_notMem_name
  feePayer := by
    have hname : ∀ p : FeePayer, '\n' ∉ p.name.toList := by rintro ⟨⟩ <;> simp [FeePayer.name]
    exact hname tx.type.feePayer
  recipient := newline_notMem_append (by simp) (Hex.newline_notMem_encode _)
  nonce := Amount.shown_ofQuantity _
  gasPrice := Amount.shown_ofQuantity _
  gasLimit := Amount.shown_ofQuantity _
  value := Amount.shown_ofQuantity _
  chainId := by
    intro c hc
    rw [chainId_ofTransaction] at hc
    split_ifs at hc with hempty
    · cases hc
    · cases hc
      exact Amount.shown_ofQuantity _

/-! #### Lines -/

lemma toList_joinLines (ls : List String) :
    (joinLines ls).toList = List.intercalate ['\n'] (ls.map String.toList) := by
  induction ls with
  | nil => rfl
  | cons l ls ih =>
      rcases ls with _ | ⟨l', ls⟩
      · simp [joinLines]
      · rw [joinLines, String.toList_append, String.toList_append, ih]
        · exact List.intercalate_cons_cons.symm
        · exact List.cons_ne_nil l' ls

/-- Lines are found again at the line feeds. -/
lemma joinLines_inj {ls ls' : List String} (hls : ls ≠ []) (hls' : ls' ≠ [])
    (hlines : ∀ l ∈ ls, '\n' ∉ l.toList) (hlines' : ∀ l ∈ ls', '\n' ∉ l.toList)
    (h : joinLines ls = joinLines ls') : ls = ls' := by
  have hsplit : ∀ {ls : List String}, ls ≠ [] → (∀ l ∈ ls, '\n' ∉ l.toList) →
      (joinLines ls).toList.splitOn '\n' = ls.map String.toList := by
    intro ls hls hlines
    rw [toList_joinLines, List.splitOn_intercalate '\n']
    · intro l hl
      obtain ⟨l, hmem, rfl⟩ := List.mem_map.1 hl
      exact hlines l hmem
    · exact fun hnil => hls (List.map_eq_nil_iff.1 hnil)
  have hmap : ls.map String.toList = ls'.map String.toList := by
    rw [← hsplit hls hlines, h, hsplit hls' hlines']
  exact List.map_injective_iff.2 (fun l l' hl => String.toList_inj.1 hl) hmap

lemma newline_notMem_lines (hs : s.Shown) : ∀ l ∈ s.lines, '\n' ∉ l.toList := by
  have hchain : ∀ l ∈ s.chainId.toList.map (fun c => "chain id:  " ++ c.display),
      '\n' ∉ l.toList := by
    intro l hl
    obtain ⟨c, hc, rfl⟩ := List.mem_map.1 hl
    exact newline_notMem_append (by simp) (hs.chainId c (Option.mem_toList.1 hc)).newline_notMem
  have hratio : ∀ l ∈ s.feeRatio.toList.map
      (fun r => "fee ratio: " ++ Decimal.render r.toNat ++ "%"), '\n' ∉ l.toList := by
    intro l hl
    obtain ⟨r, -, rfl⟩ := List.mem_map.1 hl
    exact newline_notMem_append
      (newline_notMem_append (by simp) (Decimal.newline_notMem_render _)) (by simp)
  have hdata : '\n' ∉ (if s.dataPresent then "true" else "false").toList := by
    cases s.dataPresent <;> simp
  rw [lines]
  simp only [List.forall_mem_append, List.forall_mem_cons]
  refine ⟨⟨⟨⟨?_, ?_, ?_, ?_, ?_, ?_, ?_, List.forall_mem_nil _⟩, hchain⟩, hratio⟩, ?_,
    List.forall_mem_nil _⟩
  · exact newline_notMem_append (newline_notMem_append (newline_notMem_append
      (newline_notMem_append (by simp) hs.txType) (by simp))
      (Hex.newline_notMem_byteText _)) (by simp)
  · exact newline_notMem_append (by simp) hs.feePayer
  · exact newline_notMem_append (by simp) hs.nonce.newline_notMem
  · exact newline_notMem_append (by simp) hs.gasPrice.newline_notMem
  · exact newline_notMem_append (by simp) hs.gasLimit.newline_notMem
  · exact newline_notMem_append (by simp) hs.recipient
  · exact newline_notMem_append (by simp) hs.value.newline_notMem
  · exact newline_notMem_append (by simp) hdata

/-- The tag has four characters, so the first line determines the name and the tag. -/
lemma type_line_inj {a b : String} {i j : UInt8}
    (h : "type:      " ++ a ++ " (" ++ Hex.byteText i ++ ")"
      = "type:      " ++ b ++ " (" ++ Hex.byteText j ++ ")") : a = b ∧ i = j := by
  rw [String.append_left_inj] at h
  have hlen : (Hex.byteText i).toList.length = (Hex.byteText j).toList.length := by
    rw [Hex.length_byteText, Hex.length_byteText]
  obtain ⟨hname, htag⟩ := string_append_inj_right hlen h
  rw [String.append_left_inj, String.append_right_inj] at hname
  rw [Hex.byteText, Hex.byteText, String.append_right_inj] at htag
  exact ⟨hname, (List.cons.inj (Hex.encode_injective htag)).1⟩

/-- The line of the chain is not mistaken for a later one. -/
lemma head_ratio_line_ne (s : Summary) (c : Amount) :
    (s.feeRatio.toList.map (fun r => "fee ratio: " ++ (Decimal.render r.toNat ++ "%")) ++
      ["data:      " ++ if s.dataPresent then "true" else "false"]).head?
        ≠ some ("chain id:  " ++ c.display) := by
  cases s.feeRatio with
  | none =>
      rw [Option.toList_none, List.map_nil, List.nil_append, List.head?_cons, ne_eq,
        Option.some.injEq]
      exact titled_ne (by decide) (by decide) _ _
  | some r =>
      rw [Option.toList_some, List.map_singleton, List.singleton_append, List.head?_cons, ne_eq,
        Option.some.injEq]
      exact titled_ne (by decide) (by decide) _ _

/-- The line of the fee ratio is not mistaken for the last one. -/
lemma head_data_line_ne (s : Summary) (r : UInt8) :
    ["data:      " ++ if s.dataPresent then "true" else "false"].head?
      ≠ some ("fee ratio: " ++ (Decimal.render r.toNat ++ "%")) := by
  rw [List.head?_cons, ne_eq, Option.some.injEq]
  exact titled_ne (by decide) (by decide) _ _

lemma lines_inj (hs : s.Shown) (ht : t.Shown) (h : s.lines = t.lines) : s = t := by
  have hchain : ∀ c ∈ s.chainId, ∀ d ∈ t.chainId,
      "chain id:  " ++ c.display = "chain id:  " ++ d.display → c = d := by
    intro c hc d hd hcd
    exact ((hs.chainId c hc).display_inj (ht.chainId d hd)).1 ((String.append_right_inj _).1 hcd)
  have hratio : ∀ q r : UInt8, "fee ratio: " ++ (Decimal.render q.toNat ++ "%")
      = "fee ratio: " ++ (Decimal.render r.toNat ++ "%") → q = r := by
    intro q r hqr
    rw [String.append_right_inj, String.append_left_inj] at hqr
    exact UInt8.toNat_inj.1 (Decimal.render_injective hqr)
  have htell : ∀ b b' : Bool, (if b then "true" else "false") = (if b' then "true" else "false") →
      b = b' := by decide
  rw [lines, lines] at h
  simp only [List.append_assoc] at h
  obtain ⟨hfixed, h⟩ := List.append_inj h rfl
  -- the titles are of one length, so no line is mistaken for the line after it
  obtain ⟨hchainId, h⟩ := optional_append_inj hchain (head_ratio_line_ne s) (head_ratio_line_ne t) h
  obtain ⟨hfeeRatio, hdata⟩ := optional_append_inj (fun q _ r _ => hratio q r)
    (head_data_line_ne s) (head_data_line_ne t) h
  simp only [List.cons.injEq, String.append_right_inj, and_true] at hfixed hdata
  obtain ⟨htype, hpayer, hnonce, hprice, hlimit, hto, hvalue⟩ := hfixed
  obtain ⟨hname, hid⟩ := type_line_inj htype
  exact Summary.ext hname hid hpayer ((hs.nonce.display_inj ht.nonce).1 hnonce)
    ((hs.gasPrice.display_inj ht.gasPrice).1 hprice)
    ((hs.gasLimit.display_inj ht.gasLimit).1 hlimit) ((hs.value.display_inj ht.value).1 hvalue)
    hto hchainId hfeeRatio (htell _ _ hdata)

/-- **Text for people tells apart the summaries whose amounts show quantities.** -/
theorem text_inj (hs : s.Shown) (ht : t.Shown) (h : s.text = t.text) : s = t := by
  have hne : ∀ s : Summary, s.lines ≠ [] := by
    intro s
    rw [lines]
    exact List.cons_ne_nil _ _
  exact lines_inj hs ht
    (joinLines_inj (hne s) (hne t) (newline_notMem_lines hs) (newline_notMem_lines ht) h)

end Summary

/-! ### Transactions -/

/-- **Transactions that are shown alike.** They agree in the type, the recipient and the presence of
data, in the fee ratio where the fee is shared, and in the quantities as far as amounts show them.
A chain that is not named is not the chain zero. -/
structure Transaction.Alike (x y : Transaction) : Prop where
  /-- The types agree. -/
  type : x.type = y.type
  /-- The recipients agree. -/
  recipient : x.recipient = y.recipient
  /-- Data is there in both or in neither. -/
  dataPresent : x.dataPresent = y.dataPresent
  /-- The fee ratios agree where the fee is shared. -/
  feeRatio : x.type.feePayer = .partialFeeDelegated → x.feeRatio = y.feeRatio
  /-- The chain is empty in both or in neither. -/
  chainId_empty : x.chainId.bytes = [] ↔ y.chainId.bytes = []
  /-- The chains are alike where they are not empty. -/
  chainId : x.chainId.bytes ≠ [] → x.chainId.Alike y.chainId
  /-- The serial numbers are alike. -/
  nonce : x.nonce.Alike y.nonce
  /-- The prices of gas are alike. -/
  gasPrice : x.gasPrice.Alike y.gasPrice
  /-- The bounds on gas are alike. -/
  gasLimit : x.gasLimit.Alike y.gasLimit
  /-- The values are alike. -/
  value : x.value.Alike y.value

namespace Summary

variable {x y : Transaction}

lemma feeRatio_ofTransaction (tx : Transaction) : (ofTransaction tx).feeRatio =
    if tx.type.feePayer = .partialFeeDelegated then some tx.feeRatio else none :=
  rfl

lemma type_eq_of_id_eq {t u : TxType} (h : t.id = u.id) : t = u := by
  have hfound := TxType.ofId?_id t
  rw [h, TxType.ofId?_id] at hfound
  exact (Option.some.inj hfound).symm

lemma recipient_eq_iff : (ofTransaction x).recipient = (ofTransaction y).recipient ↔
    x.recipient = y.recipient := by
  have hbytes : x.recipient.bytes = y.recipient.bytes ↔ x.recipient = y.recipient := by
    cases x.recipient
    cases y.recipient
    rw [Address.mk.injEq]
  rw [← hbytes, ← Hex.encode_injective.eq_iff]
  exact String.append_right_inj "0x"

/-- The chain in a summary is that of the transaction, as far as amounts show it. -/
lemma chainId_eq_iff : (ofTransaction x).chainId = (ofTransaction y).chainId ↔
    (x.chainId.bytes = [] ↔ y.chainId.bytes = []) ∧
      (x.chainId.bytes ≠ [] → x.chainId.Alike y.chainId) := by
  rw [chainId_ofTransaction, chainId_ofTransaction]
  by_cases hx : x.chainId.bytes = [] <;> by_cases hy : y.chainId.bytes = [] <;>
    simp [hx, hy, Amount.ofQuantity_eq_iff]

/-- **Summaries agree exactly if the transactions are alike.** -/
theorem ofTransaction_eq_iff : ofTransaction x = ofTransaction y ↔ x.Alike y := by
  constructor
  · intro h
    have htype : x.type = y.type := type_eq_of_id_eq (congrArg txTypeId h)
    obtain ⟨hempty, hchain⟩ := chainId_eq_iff.1 (congrArg Summary.chainId h)
    refine
      { type := htype
        recipient := recipient_eq_iff.1 (congrArg Summary.recipient h)
        dataPresent := congrArg Summary.dataPresent h
        feeRatio := fun hshared => ?_
        chainId_empty := hempty
        chainId := hchain
        nonce := Amount.ofQuantity_eq_iff.1 (congrArg Summary.nonce h)
        gasPrice := Amount.ofQuantity_eq_iff.1 (congrArg Summary.gasPrice h)
        gasLimit := Amount.ofQuantity_eq_iff.1 (congrArg Summary.gasLimit h)
        value := Amount.ofQuantity_eq_iff.1 (congrArg Summary.value h) }
    have hratio := congrArg Summary.feeRatio h
    rw [feeRatio_ofTransaction, feeRatio_ofTransaction, ← htype, if_pos hshared,
      if_pos hshared] at hratio
    exact Option.some.inj hratio
  · intro h
    have hratio : (ofTransaction x).feeRatio = (ofTransaction y).feeRatio := by
      rw [feeRatio_ofTransaction, feeRatio_ofTransaction, ← h.type]
      split_ifs with hshared
      · rw [h.feeRatio hshared]
      · rfl
    exact Summary.ext (congrArg TxType.name h.type) (congrArg TxType.id h.type)
      (congrArg (fun t => t.feePayer.name) h.type) (Amount.ofQuantity_eq_iff.2 h.nonce)
      (Amount.ofQuantity_eq_iff.2 h.gasPrice) (Amount.ofQuantity_eq_iff.2 h.gasLimit)
      (Amount.ofQuantity_eq_iff.2 h.value) (recipient_eq_iff.2 h.recipient)
      (chainId_eq_iff.2 ⟨h.chainId_empty, h.chainId⟩) hratio h.dataPresent

/-- **Both formats tell apart exactly the transactions that are not alike.** For any two
transactions: their summaries have the same text, exactly if the summaries are equal, exactly if
these have the same JSON text, exactly if the transactions are alike. -/
theorem renderings_agree_tfae (x y : Transaction) :
    [Format.text.render (ofTransaction x) = Format.text.render (ofTransaction y),
      ofTransaction x = ofTransaction y,
      Format.json.render (ofTransaction x) = Format.json.render (ofTransaction y),
      x.Alike y].TFAE := by
  tfae_have 1 → 2 := text_inj (shown_ofTransaction x) (shown_ofTransaction y)
  tfae_have 2 → 1 := congrArg (Format.render .text)
  tfae_have 2 → 3 := congrArg (Format.render .json)
  tfae_have 3 → 2 := fun h => jsonText_injective h
  tfae_have 2 ↔ 4 := ofTransaction_eq_iff
  tfae_finish

end Summary

end TxStream
