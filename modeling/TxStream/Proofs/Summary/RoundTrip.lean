import Mathlib.Data.List.Nodup
import TxStream.Proofs.Json.Flat
import TxStream.Summary.Format

/-!
Summaries are read back from their JSON text.

* `Amount.ofJson?_eq_some_iff`: a value is read as an amount exactly if the amount is written as
  the value, so numbers stay numbers and texts stay texts;
* `Summary.ofJson?_eq_some`: an object is read as a summary if its members are those that the
  summary has, in whatever order, and whatever other members there are;
* `Summary.json_round_trip`: so JSON text is read back, and it has a line for each part that is
  there.

A summary is taken apart into slots, one for each part. A slot that is empty has no member, and its
part is read as null.
-/

namespace TxStream

/-! ### Parts -/

namespace Amount

/-- **A value is read as an amount exactly if the amount is written as the value.** -/
theorem ofJson?_eq_some_iff {v : Json} {a : Amount} : ofJson? v = some a ↔ v = a.toJson := by
  constructor
  · intro h
    cases v with
    | nat n =>
        rw [ofJson?] at h
        split_ifs at h with hlt
        obtain rfl := Option.some.inj h
        rw [toJson, UInt64.toNat_ofNat_of_lt' hlt]
    | str s =>
        obtain rfl := Option.some.inj h
        rfl
    | null => cases h
    | bool b => cases h
    | number text => cases h
    | arr items => cases h
    | obj members => cases h
  · rintro rfl
    cases a with
    | number n => rw [toJson, ofJson?, if_pos n.toNat_lt, UInt64.ofNat_toNat]
    | text s => rfl

lemma toJson_ne_null (a : Amount) : a.toJson ≠ .null := by
  cases a <;> simp [toJson]

end Amount

namespace Json

lemma asByte?_nat (r : UInt8) : asByte? (.nat r.toNat) = some r := by
  rw [asByte?, if_pos r.toNat_lt, UInt8.ofNat_toNat]

/-- A part that may be missing is read back, null standing for it where it is missing. -/
lemma asOptional?_getD {α : Type} {read : Json → Option α} {write : α → Json}
    (hread : ∀ a, read (write a) = some a) (hnull : ∀ a, write a ≠ .null) (o : Option α) :
    asOptional? read ((o.map write).getD .null) = some o := by
  cases o with
  | none => rfl
  | some a =>
      rw [Option.map_some, Option.getD_some, asOptional?, hread, Option.map_some]
      exact hnull a

end Json

lemma mapM_eq_some_map {α β : Type} {f : α → Option β} {g : α → β} {l : List α}
    (h : ∀ a ∈ l, f a = some (g a)) : l.mapM f = some (l.map g) := by
  induction l with
  | nil => rfl
  | cons a l ih =>
      obtain ⟨ha, hl⟩ := List.forall_mem_cons.1 h
      rw [List.mapM_cons, ha, ih hl]
      rfl

namespace Summary

variable {s : Summary} {name : String} {o : Option Json}

/-! ### Members -/

/-- The members of a summary. -/
def members (s : Summary) : List (String × Json) :=
  [("tx_type", .str s.txType), ("tx_type_id", .nat s.txTypeId.toNat),
    ("fee_payer", .str s.feePayer), ("nonce", s.nonce.toJson), ("gas_price", s.gasPrice.toJson),
    ("gas_limit", s.gasLimit.toJson), ("value", s.value.toJson), ("to", .str s.recipient)] ++
  (s.chainId.toList.map (fun c => ("chain_id", c.toJson)) ++
  (s.feeRatio.toList.map (fun r => ("fee_ratio", .nat r.toNat)) ++
  [("data_present", .bool s.dataPresent)]))

lemma toJson_eq (s : Summary) : s.toJson = .obj s.members := by
  rw [toJson, members]
  simp only [List.append_assoc]

lemma isScalar_amount (a : Amount) : Json.IsScalar a.toJson := by
  cases a with
  | number n => exact .nat _
  | text s => exact .str _

/-- There is no structure in the members of a summary. -/
lemma isScalar_of_mem_members (s : Summary) : ∀ m ∈ s.members, Json.IsScalar m.2 := by
  have hchain : ∀ m ∈ s.chainId.toList.map (fun c => ("chain_id", c.toJson)),
      Json.IsScalar m.2 := by
    intro m hm
    obtain ⟨c, -, rfl⟩ := List.mem_map.1 hm
    exact isScalar_amount c
  have hratio : ∀ m ∈ s.feeRatio.toList.map (fun r => ("fee_ratio", Json.nat r.toNat)),
      Json.IsScalar m.2 := by
    intro m hm
    obtain ⟨r, -, rfl⟩ := List.mem_map.1 hm
    exact .nat _
  rw [members]
  simp only [List.forall_mem_append, List.forall_mem_cons]
  exact ⟨⟨.str _, .nat _, .str _, isScalar_amount _, isScalar_amount _, isScalar_amount _,
    isScalar_amount _, .str _, List.forall_mem_nil _⟩, hchain, hratio, .bool _,
    List.forall_mem_nil _⟩

/-! ### Slots -/

/-- The slots of a summary: the names of its parts in order, each with its value if it is there. -/
def slots (s : Summary) : List (String × Option Json) :=
  [("tx_type", some (.str s.txType)), ("tx_type_id", some (.nat s.txTypeId.toNat)),
    ("fee_payer", some (.str s.feePayer)), ("nonce", some s.nonce.toJson),
    ("gas_price", some s.gasPrice.toJson), ("gas_limit", some s.gasLimit.toJson),
    ("value", some s.value.toJson), ("to", some (.str s.recipient)),
    ("chain_id", s.chainId.map Amount.toJson), ("fee_ratio", s.feeRatio.map fun r => .nat r.toNat),
    ("data_present", some (.bool s.dataPresent))]

lemma map_fst_slots (s : Summary) : s.slots.map Prod.fst = partNames := rfl

lemma slot_unique {o' : Option Json} (h : (name, o) ∈ s.slots) (h' : (name, o') ∈ s.slots) :
    o = o' := by
  have hnodup : (s.slots.map Prod.fst).Nodup := by
    rw [map_fst_slots]
    decide
  exact (Prod.mk.inj (List.inj_on_of_nodup_map hnodup h h' rfl)).2

/-- Only the slots of the chain and of the fee ratio may be empty. -/
lemma name_of_empty_slot (h : (name, none) ∈ s.slots) :
    name = "chain_id" ∨ name = "fee_ratio" := by
  simp only [slots, List.mem_cons, Prod.mk.injEq, reduceCtorEq, and_false, List.not_mem_nil,
    or_false, false_or] at h
  exact h.imp And.left And.left

/-- There is a member for each slot that is not empty. -/
lemma members_eq_filterMap (s : Summary) :
    s.members = s.slots.filterMap fun p => p.2.map (Prod.mk p.1) := by
  rw [members, slots]
  cases s.chainId <;> cases s.feeRatio <;> rfl

lemma mem_members_iff {v : Json} : (name, v) ∈ s.members ↔ (name, some v) ∈ s.slots := by
  rw [members_eq_filterMap, List.mem_filterMap]
  constructor
  · rintro ⟨⟨name', o⟩, hmem, hvalue⟩
    obtain ⟨v', rfl, heq⟩ := Option.map_eq_some_iff.1 hvalue
    obtain ⟨rfl, rfl⟩ := Prod.mk.inj heq
    exact hmem
  · intro hmem
    exact ⟨_, hmem, rfl⟩

/-- A summary is read from its slots, null standing for the empty ones. -/
lemma ofParts?_slots (s : Summary) :
    ofParts? (s.slots.map fun p => p.2.getD .null) = some s := by
  have hamount : ∀ a : Amount, Amount.ofJson? a.toJson = some a := fun a =>
    Amount.ofJson?_eq_some_iff.2 rfl
  have hchain := Json.asOptional?_getD hamount Amount.toJson_ne_null s.chainId
  have hratio := Json.asOptional?_getD Json.asByte?_nat (fun _ => by simp) s.feeRatio
  simp only [slots, List.map_cons, List.map_nil, Option.getD_some, ofParts?, hamount, hchain,
    hratio, Json.asByte?_nat, Json.asString?, Json.asBool?]
  rfl

/-! ### Reading -/

/-- An object has the members of a summary: for the name of each part, the value of the part if it
is there, and no other. -/
def Describes (members : List (String × Json)) (s : Summary) : Prop :=
  ∀ name o, (name, o) ∈ s.slots → ∀ v, (name, v) ∈ members ↔ o = some v

lemma describes_members (s : Summary) : Describes s.members s := by
  intro name o hslot v
  rw [mem_members_iff]
  constructor
  · exact slot_unique hslot
  · rintro rfl
    exact hslot

/-- The part of a slot, null standing for it where it is missing. -/
lemma part?_of_describes {members : List (String × Json)} (h : Describes members s)
    (hslot : (name, o) ∈ s.slots) : part? members name = some (o.getD .null) := by
  rw [part?, Json.field?_eq (h name o hslot)]
  cases o with
  | some v => rfl
  | none => exact if_pos (name_of_empty_slot hslot)

/-- **An object is read as a summary if it has the members of the summary**, in whatever order, and
whatever other members it has. -/
theorem ofJson?_eq_some {members : List (String × Json)} (h : Describes members s) :
    ofJson? (.obj members) = some s := by
  have hparts : partNames.mapM (part? members) = some (s.slots.map fun p => p.2.getD .null) := by
    rw [← map_fst_slots s, List.mapM_map]
    exact mapM_eq_some_map fun p hp => part?_of_describes h hp
  rw [ofJson?, hparts, Option.bind_some, ofParts?_slots]

/-- The names of the members: the parts in order, without a chain and a fee ratio that are
missing. -/
lemma map_fst_members (s : Summary) : s.members.map Prod.fst = partNames.filter fun name =>
    (name = "chain_id" → s.chainId.isSome) ∧ (name = "fee_ratio" → s.feeRatio.isSome) := by
  rw [members]
  cases s.chainId <;> cases s.feeRatio <;> rfl

/-- JSON text holds the members of the summary. -/
lemma parse?_jsonText (s : Summary) : Json.parse? s.jsonText = some (.obj s.members) := by
  rw [jsonText, toJson_eq, Json.parse?_pretty (isScalar_of_mem_members s)]

lemma ofJson?_members (s : Summary) : ofJson? (.obj s.members) = some s :=
  ofJson?_eq_some (describes_members s)

lemma read_jsonText (s : Summary) : (Json.parse? s.jsonText).bind ofJson? = some s := by
  rw [parse?_jsonText, Option.bind_some, ofJson?_members]

lemma jsonText_eq (s : Summary) : s.jsonText =
    "\x7b\n" ++ ",\n".intercalate (s.members.map Json.memberLine) ++ "\n\x7d" := by
  rw [jsonText, toJson_eq]
  exact Json.pretty_obj (List.cons_ne_nil _ _) (isScalar_of_mem_members s)

/-- **A summary is read back from its JSON text.** The text holds an object with a member for each
part that is there, in order; the object is read as the summary; its text has a line for each
member, two blanks deep; and an amount is read only from the value as which it is written. -/
theorem json_round_trip (s : Summary) :
    Json.parse? (Format.json.render s) = some (.obj s.members) ∧
      ofJson? (.obj s.members) = some s ∧
      (s.members.map Prod.fst = partNames.filter fun name =>
        (name = "chain_id" → s.chainId.isSome) ∧ (name = "fee_ratio" → s.feeRatio.isSome)) ∧
      Format.json.render s =
        "\x7b\n" ++ ",\n".intercalate (s.members.map Json.memberLine) ++ "\n\x7d" ∧
      ∀ (v : Json) (a : Amount), Amount.ofJson? v = some a ↔ v = a.toJson :=
  ⟨parse?_jsonText s, ofJson?_members s, map_fst_members s, jsonText_eq s,
    fun _ _ => Amount.ofJson?_eq_some_iff⟩

end Summary

end TxStream
