import TxStream.Transaction.Address
import TxStream.Transaction.TxType
import TxStream.Transaction.Quantity

/-!
The decoded transaction: what is kept of the fields on the wire. Fields that are not kept, such as
the sender and the payload of a contract call, are checked and dropped. A new transaction is a
legacy one with every field empty, and a field that its type does not carry stays that way.
-/

namespace TxStream

/-- What is kept of a transaction. -/
structure Transaction where
  /-- The type. -/
  type : TxType := .legacy
  /-- The serial number of the transaction among those of its sender. -/
  nonce : Quantity := .empty
  /-- The price of a unit of gas. -/
  gasPrice : Quantity := .empty
  /-- The units of gas that may be spent. -/
  gasLimit : Quantity := .empty
  /-- The value that is moved. -/
  value : Quantity := .empty
  /-- The chain, empty for early legacy transactions that name none. -/
  chainId : Quantity := .empty
  /-- The recipient, zero for types without one. -/
  recipient : Address := .zero
  /-- The share of the fee that the delegate pays, kept only where the fee is shared. -/
  feeRatio : UInt8 := 0
  /-- Whether a memo or contract data other than a lone zero byte is there. -/
  dataPresent : Bool := false
deriving DecidableEq

end TxStream
