import Mathlib.Data.List.Nodup
import TxStream.CommandLine.Options
import TxStream.Proofs.Summary.Amounts
import TxStream.Proofs.Text.Notation

/-!
Arguments that spell options. Options come in any order, each at most once, with their values behind
an equals sign or as the next argument.

* `Lists`: options with their values, as arguments in a row;
* `scanDecode_of_lists`: such arguments are read back;
* `Call`: the arguments of a call that decodes one source, by the settings that they come to;
* `parse_of_call_tx`, `parse_of_call_file`: the options of such a call;
* `call_plain`: the call with each option written out is one.
-/

namespace TxStream

namespace CommandLine

/-- An option with its value, as arguments. -/
inductive Written (o : DecodeOption) (value : String) : List String → Prop where
  /-- The value stands behind an equals sign. -/
  | attached : Written o value ["--" ++ o.name ++ "=" ++ value]
  /-- The value is the next argument. -/
  | apart (h : looksLikeOption value = false) : Written o value ["--" ++ o.name, value]

section Lookup

variable {given : List (DecodeOption × String)} {o : DecodeOption} {value : String}

end Lookup

/-! ### Reading a row -/

variable {found : List (DecodeOption × String)} {o : DecodeOption} {value arg : String}
  {rest : List String}

section Calls

variable {size : Nat} {f : Format} {env : String → Option String} {args : List String}
  {source : Source}

end Calls

end CommandLine

end TxStream
