import TxStream.Proofs.Format.Reading

/-!
Several string items in a row, up to the end of the transaction.

* `yields_items`, `items_of_yields`: items before the chain, which count against the budget;
* `yields_tail`, `tail_of_yields`: the chain and the two items after it. Typed content has to end
  before them, and a legacy transaction may.
-/

namespace TxStream

namespace Decoder

variable {content : Field → Bytes} {t : TxType} {done rest es : List Entry} {e : Entry}
  {budget budget' : Option Nat} {tx tx' : Transaction} {b : Bytes}

/-! ### Items before the chain -/

lemma spend_zero (budget : Option Nat) : spend budget 0 = .ok budget := by
  cases budget <;> rfl

lemma step_before (hchain : e.field ≠ .chainId) (c : Cursor) :
    (before (e :: rest) budget tx).step c
      = (before (e :: rest) budget tx).readField c e rest budget := by
  show (before (e :: rest) budget tx).readFields c (e :: rest) none budget = _
  rw [readFields]
  simp only [hchain, if_false]

/-- **Items that fit are read in a row**, as far as the budget goes. -/
lemma yields_items (hp : Partway content t done (es ++ rest) tx)
    (hes : ∀ e ∈ es, e.field ≠ .chainId ∧ e.kind ≠ .list ∧ e.kind ≠ .tag)
    (hitems : Items content es b) (hfits : ∀ e ∈ es, e.kind.Fits (content e.field))
    (hs : spend budget b.length = .ok budget') :
    ∃ tx₂, Partway content t (done ++ es) rest tx₂ ∧
      ∀ r tx', (before rest budget' tx₂).Yields r tx' →
        (before (es ++ rest) budget tx).Yields (b ++ r) tx' := by
  induction hitems generalizing done tx budget with
  | nil =>
      obtain rfl := Except.ok.inj ((spend_zero budget).symm.trans hs)
      exact ⟨tx, (List.append_nil done).symm ▸ hp, fun r tx' hy => hy⟩
  | @cons e es item b head tail ih =>
      obtain ⟨hchain, hlist, htag⟩ := hes e List.mem_cons_self
      rw [List.length_append] at hs
      obtain ⟨budget₁, hs₁, hs₂⟩ := exists_spend_add hs
      obtain ⟨tx₁, hp₁, hy₁⟩ := yields_item hp (fun r => step_before hchain _) hlist head
        (fun hk => absurd hk htag) (hfits e List.mem_cons_self) hs₁
      obtain ⟨tx₂, hp₂, hy₂⟩ := ih hp₁ (fun e' he' => hes e' (List.mem_cons_of_mem e he'))
        (fun e' he' => hfits e' (List.mem_cons_of_mem e he')) hs₂
      rw [List.append_assoc, List.singleton_append] at hp₂
      refine ⟨tx₂, hp₂, ?_⟩
      intro r tx' hy
      rw [List.append_assoc]
      exact hy₁ _ _ (hy₂ r tx' hy)

/-- What holds what was held before and a further payload agrees with both. -/
lemma agree_of_update {content' : Field → Bytes} {p : Bytes}
    (hp : Partway content t done (e :: rest) tx)
    (h : ∀ e' ∈ done ++ [e], content' e'.field = Function.update content e.field p e'.field) :
    (∀ e' ∈ done, content' e'.field = content e'.field) ∧ content' e.field = p := by
  constructor
  · intro e' he'
    rw [h e' (List.mem_append_left _ he')]
    exact Function.update_of_ne (hp.field_ne List.mem_cons_self he') p content
  · rw [h e (by simp), Function.update_self]

/-- **What is read before the chain are items that fit**, within the budget. -/
lemma items_of_yields (hp : Partway content t done (es ++ rest) tx)
    (hes : ∀ e ∈ es, e.field ≠ .chainId ∧ e.kind ≠ .list ∧ e.kind ≠ .tag)
    (hy : (before (es ++ rest) budget tx).Yields b tx') :
    ∃ content' b' r budget' tx₂, (∀ e ∈ done, content' e.field = content e.field) ∧ b = b' ++ r ∧
      Items content' es b' ∧ (∀ e ∈ es, e.kind.Fits (content' e.field)) ∧
      spend budget b'.length = .ok budget' ∧ Partway content' t (done ++ es) rest tx₂ ∧
      (before rest budget' tx₂).Yields r tx' := by
  induction es generalizing content done tx budget b with
  | nil =>
      exact ⟨content, [], b, budget, tx, fun _ _ => rfl, rfl, .nil, List.forall_mem_nil _,
        spend_zero budget, (List.append_nil done).symm ▸ hp, hy⟩
  | cons e es ih =>
      obtain ⟨hchain, hlist, htag⟩ := hes e List.mem_cons_self
      obtain ⟨p, item, r, budget₁, tx₁, rfl, hitem, hfit, hs₁, hp₁, hy₁⟩ :=
        item_of_yields hp (step_before hchain _) hlist hy
      obtain ⟨content', b', r', budget', tx₂, hagree, rfl, hitems, hfits, hs₂, hp₂, hy₂⟩ :=
        ih hp₁ (fun e' he' => hes e' (List.mem_cons_of_mem e he')) hy₁
      obtain ⟨hdone, he⟩ := agree_of_update hp hagree
      rw [List.append_assoc, List.singleton_append] at hp₂
      refine ⟨content', item ++ b', r', budget', tx₂, hdone, ?_, .cons (he ▸ hitem) hitems, ?_, ?_,
        hp₂, hy₂⟩
      · rw [List.append_assoc]
      · intro e' he'
        rcases List.mem_cons.1 he' with rfl | he'
        · exact he ▸ hfit
        · exact hfits e' he'
      · rw [List.length_append, spend_add hs₁, hs₂]

/-! ### The chain and what follows it -/

/-- After the last field the transaction is decoded, whatever follows. -/
lemma yields_nil_iff : (before [] budget tx).Yields b tx' ↔ tx = tx' := by
  have hd : (before [] budget tx).Sound := ⟨rfl, List.nil_suffix, List.forall_mem_nil _⟩
  rw [yields_iff hd]
  rfl

/-- At the chain, a step fails if content is left to count, ends where a legacy transaction may, and
otherwise reads the chain uncounted. -/
lemma step_chain (rest : List Entry) (budget : Option Nat) (tx : Transaction) (b : Bytes) :
    (before (⟨.chainId, .uint⟩ :: rest) budget tx).step (.start b) =
      if budget.getD 0 ≠ 0 then
        ⟨before (⟨.chainId, .uint⟩ :: rest) none tx, .start b, some (.fail .contentLength), []⟩
      else if tx.type = .legacy ∧ b = [] then
        ⟨before (⟨.chainId, .uint⟩ :: rest) none tx, .start b, some .finish, []⟩
      else (before (⟨.chainId, .uint⟩ :: rest) budget tx).readField (.start b) ⟨.chainId, .uint⟩
        rest none := by
  have hends : (before (⟨.chainId, .uint⟩ :: rest) budget tx).endsBeforeChain (.start b)
      = decide (tx.type = .legacy ∧ b = []) := by
    rw [endsBeforeChain]
    cases b <;> simp [before, Cursor.isEmpty, PartialHeader.isPending, beq_eq_decide]
  show (before _ budget tx).readFields (.start b) (⟨.chainId, .uint⟩ :: rest) none budget = _
  rw [readFields]
  simp only [if_true, hends, decide_eq_true_eq]
  rfl

/-- The two items after the chain, which stand in for a signature. -/
abbrev standIns : List Entry := [⟨.zero1, .discard⟩, ⟨.zero2, .discard⟩]

lemma closing_eq : TxType.closing = ⟨.chainId, .uint⟩ :: standIns := rfl

lemma not_chain_of_mem_standIns :
    ∀ e ∈ standIns, e.field ≠ .chainId ∧ e.kind ≠ .list ∧ e.kind ≠ .tag := by
  decide

/-- **The chain and the two items after it are read**, once no content is left to count. -/
lemma yields_tail (hp : Partway content t done TxType.closing tx) (hbudget : budget.getD 0 = 0)
    (hitems : Items content TxType.closing b)
    (hfits : ∀ e ∈ TxType.closing, e.kind.Fits (content e.field)) :
    ∃ tx', Partway content t (done ++ TxType.closing) [] tx' ∧
      ∀ r, (before TxType.closing budget tx).Yields (b ++ r) tx' := by
  rw [closing_eq] at hp hitems hfits ⊢
  cases hitems with
  | @cons _ _ item b head rest =>
      have hstep : ∀ r, (before (⟨.chainId, .uint⟩ :: standIns) budget tx).step (.start (item ++ r))
          = (before (⟨.chainId, .uint⟩ :: standIns) budget tx).readField (.start (item ++ r))
            ⟨.chainId, .uint⟩ standIns none := by
        intro r
        have hne : item ++ r ≠ [] := List.append_ne_nil_of_left_ne_nil
          (List.ne_nil_of_length_pos head.length_pos) r
        rw [step_chain, if_neg (not_not.2 hbudget), if_neg fun h => hne h.2]
      obtain ⟨tx₁, hp₁, hy₁⟩ := yields_item hp hstep (by simp) head (by simp)
        (hfits _ List.mem_cons_self) (rfl : spend none item.length = .ok none)
      have hp₁' : Partway content t (done ++ [⟨.chainId, .uint⟩]) (standIns ++ []) tx₁ := hp₁
      obtain ⟨tx₂, hp₂, hy₂⟩ := yields_items hp₁' not_chain_of_mem_standIns rest
        (fun e he => hfits e (List.mem_cons_of_mem _ he)) (rfl : spend none b.length = .ok none)
      rw [List.append_assoc, List.singleton_append] at hp₂
      refine ⟨tx₂, hp₂, ?_⟩
      intro r
      rw [List.append_assoc]
      exact hy₁ _ _ (hy₂ r tx₂ (yields_nil_iff.2 rfl))

/-- **What is read from the chain on are three items that fit**, unless a legacy transaction ends
before it. -/
lemma tail_of_yields (hp : Partway content t done TxType.closing tx)
    (hy : (before TxType.closing budget tx).Yields b tx') :
    budget.getD 0 = 0 ∧ (tx.type = .legacy ∧ b = [] ∧ tx' = tx ∨
      ∃ content' b' r, (∀ e ∈ done, content' e.field = content e.field) ∧ b = b' ++ r ∧
        Items content' TxType.closing b' ∧ (∀ e ∈ TxType.closing, e.kind.Fits (content' e.field)) ∧
        Partway content' t (done ++ TxType.closing) [] tx') := by
  rw [closing_eq] at hp hy ⊢
  have hd := sound_before hp budget
  have hstep := step_chain standIns budget tx b
  by_cases hbudget : budget.getD 0 = 0
  · refine ⟨hbudget, ?_⟩
    rw [if_neg (not_not.2 hbudget)] at hstep
    by_cases hends : tx.type = .legacy ∧ b = []
    · rw [yields_iff hd, hstep, if_pos hends] at hy
      exact .inl ⟨hends.1, hends.2, hy.symm⟩
    · rw [if_neg hends] at hstep
      obtain ⟨p, item, r, budget₁, tx₁, rfl, hitem, hfit, -, hp₁, hy₁⟩ :=
        item_of_yields hp hstep (by simp) hy
      have hp₁' : Partway _ t (done ++ [⟨.chainId, .uint⟩]) (standIns ++ []) tx₁ := hp₁
      obtain ⟨content', b', r', budget', tx₂, hagree, rfl, hitems, hfits, -, hp₂, hy₂⟩ :=
        items_of_yields hp₁' not_chain_of_mem_standIns hy₁
      obtain rfl := yields_nil_iff.1 hy₂
      obtain ⟨hdone, he⟩ := agree_of_update hp hagree
      rw [List.append_assoc, List.singleton_append] at hp₂
      refine .inr ⟨content', item ++ b', r', hdone, (List.append_assoc ..).symm,
        .cons (he ▸ hitem) hitems, ?_, hp₂⟩
      intro e' he'
      rcases List.mem_cons.1 he' with rfl | he'
      · exact he ▸ hfit
      · exact hfits e' he'
  · rw [yields_iff hd, hstep, if_pos hbudget] at hy
    exact hy.elim

end Decoder

end TxStream
