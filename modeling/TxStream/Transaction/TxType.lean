import TxStream.Text.Names

/-!
The types of transactions. A transaction is either a legacy one, which carries no type tag, or a
typed one: an action together with the class of its fee payer. The tag of a typed transaction has
the action in its upper bits and the fee payer in the lower three:

* `TxType.id`: the tag, zero for legacy transactions;
* `TxType.ofTag?`: the type with a given tag, which is never the legacy type
  (`TxType.ofTag?_eq_some_iff`);
* `Family`: what decides the layout of a transaction, the action without the fee payer.
-/

namespace TxStream

/-! ### Fee payers -/

/-- Who pays the fee of a transaction. -/
inductive FeePayer where
  /-- The sender pays. -/
  | basic
  /-- A delegate pays. -/
  | feeDelegated
  /-- Sender and delegate share the fee in a ratio that the transaction gives. -/
  | partialFeeDelegated
deriving DecidableEq

namespace FeePayer

/-- The class of fee payer as it stands in the low bits of a type tag. -/
def id : FeePayer → UInt8
  | .basic => 0
  | .feeDelegated => 1
  | .partialFeeDelegated => 2

/-- The name of a fee payer class. -/
def name : FeePayer → String
  | .basic => "Basic"
  | .feeDelegated => "FeeDelegated"
  | .partialFeeDelegated => "PartialFeeDelegated"

/-- What stands before the action in the name of a transaction type. -/
def qualifier : FeePayer → String
  | .basic => ""
  | .feeDelegated => "FEE_DELEGATED_"
  | .partialFeeDelegated => "PARTIAL_FEE_DELEGATED_"

/-- The three classes in the order of their numbers. -/
def all : List FeePayer := [.basic, .feeDelegated, .partialFeeDelegated]

instance : Enumeration FeePayer := ⟨all, name⟩

/-- The class with a given number. -/
def ofId? (n : UInt8) : Option FeePayer := all.find? fun p => p.id == n

end FeePayer

/-! ### Actions and families -/

/-- What a typed transaction does. -/
inductive Action where
  /-- Moves value. -/
  | valueTransfer
  /-- Moves value under a memo. -/
  | valueTransferMemo
  /-- Puts a contract in place. -/
  | contractDeploy
  /-- Calls a contract. -/
  | contractExecution
  /-- Takes the place of an earlier transaction and does nothing. -/
  | cancel
deriving DecidableEq

namespace Action

/-- The tag of an action whose fee the sender pays. -/
def id : Action → UInt8
  | .valueTransfer => 0x08
  | .valueTransferMemo => 0x10
  | .contractDeploy => 0x28
  | .contractExecution => 0x30
  | .cancel => 0x38

/-- The name of an action within the name of a transaction type. -/
def label : Action → String
  | .valueTransfer => "VALUE_TRANSFER"
  | .valueTransferMemo => "VALUE_TRANSFER_MEMO"
  | .contractDeploy => "SMART_CONTRACT_DEPLOY"
  | .contractExecution => "SMART_CONTRACT_EXECUTION"
  | .cancel => "CANCEL"

/-- The actions in the order of their tags. -/
def all : List Action :=
  [.valueTransfer, .valueTransferMemo, .contractDeploy, .contractExecution, .cancel]

end Action

/-- The families of transactions, each with a layout of its own. -/
inductive Family where
  /-- Transactions without a type tag. -/
  | legacy
  /-- Typed transactions with the same action. -/
  | typed (action : Action)
deriving DecidableEq

namespace Family

/-- The name of a family. -/
def name : Family → String
  | .legacy => "Legacy"
  | .typed .valueTransfer => "ValueTransfer"
  | .typed .valueTransferMemo => "ValueTransferMemo"
  | .typed .contractDeploy => "SmartContractDeploy"
  | .typed .contractExecution => "SmartContractExecution"
  | .typed .cancel => "Cancel"

/-- The families, the legacy one first. -/
def all : List Family := .legacy :: Action.all.map .typed

instance : Enumeration Family := ⟨all, name⟩

end Family

/-! ### Types -/

/-- The type of a transaction. -/
inductive TxType where
  /-- A transaction without a type tag, told by the shape of its envelope. -/
  | legacy
  /-- A transaction with a type tag. -/
  | typed (action : Action) (payer : FeePayer)
deriving DecidableEq

namespace TxType

/-- The tag of a type. No transaction carries the tag zero of the legacy type. -/
def id : TxType → UInt8
  | .legacy => 0
  | .typed a p => a.id + p.id

/-- The name of a type. -/
def name : TxType → String
  | .legacy => "LEGACY"
  | .typed a p => p.qualifier ++ a.label

/-- The family of a type. -/
def family : TxType → Family
  | .legacy => .legacy
  | .typed a _ => .typed a

/-- Who pays the fee. -/
def feePayer : TxType → FeePayer
  | .legacy => .basic
  | .typed _ p => p

/-- The types in the order of their tags. -/
def all : List TxType :=
  .legacy :: Action.all.flatMap fun a => FeePayer.all.map (.typed a)

instance : Enumeration TxType := ⟨all, name⟩

theorem mem_all (t : TxType) : t ∈ all := by
  rcases t with _ | ⟨a, p⟩
  · decide
  · cases a <;> cases p <;> decide

/-- What is decided for each type is decided for all of them. -/
instance {P : TxType → Prop} [DecidablePred P] : Decidable (∀ t, P t) :=
  decidable_of_decidable_of_iff (p := ∀ t ∈ all, P t) ⟨fun h t => h t t.mem_all, fun h t _ => h t⟩

/-- The type with a given number, zero being the legacy type. -/
def ofId? (n : UInt8) : Option TxType := all.find? fun t => t.id == n

/-- The typed transaction with a given tag. -/
def ofTag? (tag : UInt8) : Option TxType :=
  match ofId? tag with
  | some (.typed a p) => some (.typed a p)
  | _ => none

/-! ### Tags determine types -/

theorem ofId?_id : ∀ t : TxType, ofId? t.id = some t := by decide

theorem id_of_ofId? {n : UInt8} {t : TxType} (h : ofId? n = some t) : t.id = n := by
  simpa using List.find?_some h

/-- The tags of typed transactions, and no others, have a type. -/
theorem ofTag?_eq_some_iff {tag : UInt8} {t : TxType} :
    ofTag? tag = some t ↔ t ≠ .legacy ∧ t.id = tag := by
  constructor
  · intro h
    unfold ofTag? at h
    split at h
    · rename_i a p hid
      cases h
      exact ⟨nofun, id_of_ofId? hid⟩
    · cases h
  · rintro ⟨ht, rfl⟩
    rcases t with _ | ⟨a, p⟩
    · exact absurd rfl ht
    · rw [ofTag?, ofId?_id]

end TxType

end TxStream
