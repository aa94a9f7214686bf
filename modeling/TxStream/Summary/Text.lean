import TxStream.Summary.Basic
import TxStream.Text.Decimal

/-!
Summaries as text for people: a line for each part that is there, with a title in front. Lines are
parted by line feeds, and none stands at the end.
-/

namespace TxStream

/-- The text of an amount. -/
def Amount.display : Amount → String
  | .number n => Decimal.render n.toNat
  | .text s => s

namespace Summary

/-- The lines of a summary in order. -/
def lines (s : Summary) : List String :=
  ["type:      " ++ s.txType ++ " (" ++ Hex.byteText s.txTypeId ++ ")",
    "fee payer: " ++ s.feePayer,
    "nonce:     " ++ s.nonce.display,
    "gas price: " ++ s.gasPrice.display,
    "gas limit: " ++ s.gasLimit.display,
    "to:        " ++ s.recipient,
    "value:     " ++ s.value.display] ++
  s.chainId.toList.map (fun c => "chain id:  " ++ c.display) ++
  s.feeRatio.toList.map (fun r => "fee ratio: " ++ Decimal.render r.toNat ++ "%") ++
  ["data:      " ++ if s.dataPresent then "true" else "false"]

/-- Lines parted by line feeds. -/
def joinLines : List String → String
  | [] => ""
  | [line] => line
  | line :: rest => line ++ "\n" ++ joinLines rest

/-- A summary as text for people. -/
def text (s : Summary) : String := joinLines s.lines

end Summary

end TxStream
