import TxStream.Transaction.Record

/-!
Summaries of transactions, for display and export.

* `Amount`: a number in 64 bits where it fits, and otherwise a hexadecimal text of all its bytes;
* `Summary.ofTransaction`: the summary of a transaction. The chain is left out where it is empty,
  and the fee ratio where the fee is not shared.
-/

namespace TxStream

/-- An amount as it is shown. -/
inductive Amount where
  /-- A number of 64 bits. -/
  | number (n : UInt64)
  /-- A text, for numbers that are larger. -/
  | text (s : String)
deriving DecidableEq

namespace Amount

/-- The amount that shows a quantity. -/
def ofQuantity (q : Quantity) : Amount :=
  match q.toUInt64? with
  | some n => .number n
  | none => .text q.markedHex

end Amount

/-- What is shown of a transaction. -/
structure Summary where
  /-- The name of the type. -/
  txType : String
  /-- The tag of the type. -/
  txTypeId : UInt8
  /-- The class of the fee payer. -/
  feePayer : String
  /-- The serial number. -/
  nonce : Amount
  /-- The price of gas. -/
  gasPrice : Amount
  /-- The bound on gas. -/
  gasLimit : Amount
  /-- The value that is moved. -/
  value : Amount
  /-- The recipient in hexadecimal digits. -/
  recipient : String
  /-- The chain, if one is named. -/
  chainId : Option Amount
  /-- The ratio in which the fee is shared, if it is. -/
  feeRatio : Option UInt8
  /-- Whether data is there. -/
  dataPresent : Bool
deriving DecidableEq

namespace Summary

/-- The summary of a transaction. -/
def ofTransaction (tx : Transaction) : Summary where
  txType := tx.type.name
  txTypeId := tx.type.id
  feePayer := tx.type.feePayer.name
  nonce := .ofQuantity tx.nonce
  gasPrice := .ofQuantity tx.gasPrice
  gasLimit := .ofQuantity tx.gasLimit
  value := .ofQuantity tx.value
  recipient := "0x" ++ Hex.encode tx.recipient.bytes
  chainId := if tx.chainId.bytes = [] then none else some (.ofQuantity tx.chainId)
  feeRatio := if tx.type.feePayer = .partialFeeDelegated then some tx.feeRatio else none
  dataPresent := tx.dataPresent

end Summary

end TxStream
