import TxStream.Text.Names

/-!
The fields of a transaction on the wire, in the order in which they may come, each under two
names: the name for people, in lower case with underscores, and the short label of diagnostics.
-/

namespace TxStream

/-- A field on the wire. -/
inductive Field where
  /-- The list that holds the content of a typed transaction. -/
  | content
  /-- The type tag. -/
  | type
  /-- The serial number. -/
  | nonce
  /-- The price of gas. -/
  | gasPrice
  /-- The bound on gas. -/
  | gasLimit
  /-- The recipient. -/
  | recipient
  /-- The value that is moved. -/
  | value
  /-- The sender. -/
  | sender
  /-- A memo, the code of a contract or the input of a call. -/
  | data
  /-- Whether the address of a contract is readable by people. -/
  | humanReadable
  /-- The ratio in which the fee is shared. -/
  | ratio
  /-- The format of contract code. -/
  | codeFormat
  /-- The chain. -/
  | chainId
  /-- The first stand-in for a signature. -/
  | zero1
  /-- The second stand-in for a signature. -/
  | zero2
deriving DecidableEq

namespace Field

/-- The name of a field. -/
def name : Field → String
  | .content => "content"
  | .type => "type"
  | .nonce => "nonce"
  | .gasPrice => "gas_price"
  | .gasLimit => "gas_limit"
  | .recipient => "to"
  | .value => "value"
  | .sender => "from"
  | .data => "data"
  | .humanReadable => "human_readable"
  | .ratio => "ratio"
  | .codeFormat => "code_format"
  | .chainId => "chain_id"
  | .zero1 => "zero1"
  | .zero2 => "zero2"

/-- The label of a field in diagnostics. -/
def label : Field → String
  | .content => "Content"
  | .type => "Type"
  | .nonce => "Nonce"
  | .gasPrice => "GasPrice"
  | .gasLimit => "GasLimit"
  | .recipient => "To"
  | .value => "Value"
  | .sender => "From"
  | .data => "Data"
  | .humanReadable => "HumanReadable"
  | .ratio => "Ratio"
  | .codeFormat => "CodeFormat"
  | .chainId => "ChainId"
  | .zero1 => "Zero1"
  | .zero2 => "Zero2"

/-- The fields in the order of the wire. -/
def all : List Field :=
  [.content, .type, .nonce, .gasPrice, .gasLimit, .recipient, .value, .sender, .data,
    .humanReadable, .ratio, .codeFormat, .chainId, .zero1, .zero2]

instance : Enumeration Field := ⟨all, name⟩

end Field

end TxStream
