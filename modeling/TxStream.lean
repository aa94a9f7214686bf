import TxStream.CommandLine.Run
import TxStream.Json.Reader
import TxStream.Main
import TxStream.Proofs.BigEndian
import TxStream.Proofs.Wire.HeaderForms
import TxStream.Proofs.Wire.HeaderReading
import TxStream.Proofs.Wire.HeaderRange
import TxStream.Proofs.Decoder.Outcome
import TxStream.Proofs.Decoder.Invariant
import TxStream.Proofs.Decoder.Moves
import TxStream.Proofs.Decoder.Resumption
import TxStream.Proofs.Decoder.Chunks
import TxStream.Proofs.Decoder.Visits
import TxStream.Proofs.Decoder.Declared
import TxStream.Proofs.Decoder.Moment
import TxStream.Proofs.Decoder.Protocol
import TxStream.Proofs.Decoder.Gather
import TxStream.Proofs.Decoder.Delivery
import TxStream.Proofs.Decoder.Range
import TxStream.Proofs.Format.Items
import TxStream.Proofs.Format.Record
import TxStream.Proofs.Format.Reading
import TxStream.Proofs.Format.Rows
import TxStream.Proofs.Format.Envelope
import TxStream.Proofs.Format.Grammar
import TxStream.Proofs.Format.LegacyNonce
import TxStream.Proofs.Format.Prefixes
import TxStream.Proofs.Format.Front
import TxStream.Proofs.Decoder.Budget
import TxStream.Proofs.Format.Accounting
import TxStream.Proofs.Format.EarlyEnd
import TxStream.Proofs.Format.CutOff
import TxStream.Proofs.Format.Extent
import TxStream.Proofs.Text.Marks
import TxStream.Proofs.Decoder.Begun
import TxStream.Proofs.Decoder.Guards
import TxStream.Proofs.Format.Outer
import TxStream.Proofs.Decoder.View
import TxStream.Proofs.Wire.HeaderCoding
import TxStream.Proofs.Wire.HeaderChunks
import TxStream.Proofs.Decoder.Recount
import TxStream.Proofs.Json.Flat
import TxStream.Proofs.Summary.Amounts
import TxStream.Proofs.Summary.Renderings
import TxStream.Proofs.Text.Spelling
import TxStream.Proofs.Text.Notation
import TxStream.Proofs.Summary.Values
import TxStream.Proofs.Summary.RoundTrip
import TxStream.Proofs.Decoder.Position
import TxStream.Proofs.Decoder.Progress
import TxStream.Proofs.Field.Pieces
import TxStream.Proofs.Decoder.Uses
import TxStream.Proofs.Decoder.Tally
import TxStream.Proofs.Decoder.Levels
import TxStream.Proofs.CommandLine.Arguments
import TxStream.Proofs.CommandLine.Wording
import TxStream.Proofs.CommandLine.Sources
