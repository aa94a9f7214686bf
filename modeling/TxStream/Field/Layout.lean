import TxStream.Field.Kind

/-!
The layout of a transaction: its fields in the order of the wire, each with its kind.

* `Family.table`: the fields of a family, with the fee ratio for every typed family;
* `TxType.layout`: the fields of a type. The fee ratio is one of them only where the fee is shared.

A typed transaction opens with the content list, the tag, the nonce and the two fields for gas,
and every transaction closes with the chain and two stand-ins for a signature.
-/

namespace TxStream

/-- A field of a layout with its kind. -/
structure Entry where
  /-- The field. -/
  field : Field
  /-- What is done with it. -/
  kind : Kind
deriving DecidableEq

namespace Family

/-- The fields that open every typed transaction. -/
def typedHead : List Entry :=
  [⟨.content, .list⟩, ⟨.type, .tag⟩, ⟨.nonce, .uint⟩, ⟨.gasPrice, .uint⟩, ⟨.gasLimit, .uint⟩]

/-- The fields that close every transaction. -/
def tail : List Entry :=
  [⟨.chainId, .uint⟩, ⟨.zero1, .discard⟩, ⟨.zero2, .discard⟩]

/-- The fields that an action brings. The recipient of a deployment is dropped, and a memo is read
as data. -/
def body : Action → List Entry
  | .valueTransfer =>
    [⟨.recipient, .address⟩, ⟨.value, .uint⟩, ⟨.sender, .discard⟩, ⟨.ratio, .ratio⟩]
  | .valueTransferMemo =>
    [⟨.recipient, .address⟩, ⟨.value, .uint⟩, ⟨.sender, .discard⟩, ⟨.data, .data⟩, ⟨.ratio, .ratio⟩]
  | .contractDeploy =>
    [⟨.recipient, .discard⟩, ⟨.value, .uint⟩, ⟨.sender, .discard⟩, ⟨.data, .data⟩,
      ⟨.humanReadable, .discard⟩, ⟨.ratio, .ratio⟩, ⟨.codeFormat, .discard⟩]
  | .contractExecution =>
    [⟨.recipient, .address⟩, ⟨.value, .uint⟩, ⟨.sender, .discard⟩, ⟨.data, .data⟩, ⟨.ratio, .ratio⟩]
  | .cancel =>
    [⟨.sender, .discard⟩, ⟨.ratio, .ratio⟩]

/-- The fields of a legacy transaction before the chain. -/
def legacyHead : List Entry :=
  [⟨.nonce, .uint⟩, ⟨.gasPrice, .uint⟩, ⟨.gasLimit, .uint⟩, ⟨.recipient, .address⟩, ⟨.value, .uint⟩,
    ⟨.data, .data⟩]

/-- The fields of a family in the order of the wire. -/
def table : Family → List Entry
  | .legacy => legacyHead ++ tail
  | .typed a => typedHead ++ body a ++ tail

end Family

namespace TxType

/-- Whether a field of the family is there in a type. -/
def carries (t : TxType) (e : Entry) : Bool :=
  e.kind != .ratio || t.feePayer == .partialFeeDelegated

/-- The fields of a type in the order of the wire. -/
def layout (t : TxType) : List Entry :=
  t.family.table.filter t.carries

/-- No layout has more than fifteen fields. -/
theorem length_layout_le : ∀ t : TxType, t.layout.length ≤ 15 := by decide

end TxType

end TxStream
