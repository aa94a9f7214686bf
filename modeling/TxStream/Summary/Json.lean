import TxStream.Json.Value
import TxStream.Summary.Basic

/-!
Summaries as JSON values:

* `Summary.toJson`: an object with a member for each part that is there, in order;
* `Summary.ofJson?`: reads a summary from an object or from an array.

An object may have further members, which are passed over, and may lack the chain and the fee
ratio. An array has every part in order. In both, null stands for a chain or a fee ratio that is
not there, and every part has the one form in which it is written.
-/

namespace TxStream

/-! ### Parts -/

namespace Amount

/-- An amount as a JSON value. -/
def toJson : Amount → Json
  | .number n => .nat n.toNat
  | .text s => .str s

/-- Reads an amount from a natural number of 64 bits or from any string. -/
def ofJson? : Json → Option Amount
  | .nat n => if n < UInt64.size then some (.number (UInt64.ofNat n)) else none
  | .str s => some (.text s)
  | _ => none

end Amount

namespace Json

/-- The string that a value is. -/
def asString? : Json → Option String
  | .str s => some s
  | _ => none

/-- The truth value that a value is. -/
def asBool? : Json → Option Bool
  | .bool b => some b
  | _ => none

/-- The natural number of eight bits that a value is. -/
def asByte? : Json → Option UInt8
  | .nat n => if n < UInt8.size then some (UInt8.ofNat n) else none
  | _ => none

/-- Reads a part that null may stand for. -/
def asOptional? {α : Type} (read : Json → Option α) : Json → Option (Option α)
  | .null => some none
  | v => (read v).map some

end Json

/-! ### Summaries -/

namespace Summary

/-- The names of the parts in order. -/
def partNames : List String :=
  ["tx_type", "tx_type_id", "fee_payer", "nonce", "gas_price", "gas_limit", "value", "to",
    "chain_id", "fee_ratio", "data_present"]

/-- A summary as a JSON value. -/
def toJson (s : Summary) : Json :=
  .obj <|
    [("tx_type", .str s.txType), ("tx_type_id", .nat s.txTypeId.toNat),
      ("fee_payer", .str s.feePayer), ("nonce", s.nonce.toJson), ("gas_price", s.gasPrice.toJson),
      ("gas_limit", s.gasLimit.toJson), ("value", s.value.toJson), ("to", .str s.recipient)] ++
    s.chainId.toList.map (fun c => ("chain_id", c.toJson)) ++
    s.feeRatio.toList.map (fun r => ("fee_ratio", .nat r.toNat)) ++
    [("data_present", .bool s.dataPresent)]

/-- Reads a summary from its parts in order. -/
def ofParts? : List Json → Option Summary
  | [txType, txTypeId, feePayer, nonce, gasPrice, gasLimit, value, recipient, chainId, feeRatio,
      dataPresent] => do
    return {
      txType := ← txType.asString?
      txTypeId := ← txTypeId.asByte?
      feePayer := ← feePayer.asString?
      nonce := ← Amount.ofJson? nonce
      gasPrice := ← Amount.ofJson? gasPrice
      gasLimit := ← Amount.ofJson? gasLimit
      value := ← Amount.ofJson? value
      recipient := ← recipient.asString?
      chainId := ← chainId.asOptional? Amount.ofJson?
      feeRatio := ← feeRatio.asOptional? Json.asByte?
      dataPresent := ← dataPresent.asBool? }
  | _ => none

/-- The part of an object with a given name. The chain and the fee ratio may be missing. -/
def part? (members : List (String × Json)) (name : String) : Option Json :=
  match Json.field? members name with
  | some v => some v
  | none => if name = "chain_id" ∨ name = "fee_ratio" then some .null else none

/-- Reads a summary from a JSON value. -/
def ofJson? : Json → Option Summary
  | .obj members => (partNames.mapM (part? members)).bind ofParts?
  | .arr parts => ofParts? parts
  | _ => none

/-- A summary as JSON text. -/
def jsonText (s : Summary) : String := s.toJson.pretty

end Summary

end TxStream
