import Protowire.Decoding
import Protowire.Encoding
import Protowire.LazyTable
import Protowire.Reader.Program
import Protowire.Writer
import Protowire.Proofs.Encoding.Size
import Protowire.Proofs.Zigzag
import Protowire.Proofs.Payload
import Protowire.Proofs.Encoding.Reference
import Protowire.Proofs.Read
import Protowire.Proofs.Read.Scalar
import Protowire.Proofs.FieldTable
import Protowire.Proofs.Message.KeyOrder
import Protowire.Proofs.Message.Update
import Protowire.Proofs.Read.Tag
import Protowire.Proofs.Transcript
import Protowire.Proofs.Decoding.Values
import Protowire.Proofs.Decoding.Fits
import Protowire.Proofs.Decoding.Grammar
import Protowire.Proofs.RoundTrip.Records
import Protowire.Proofs.RoundTrip
import Protowire.Proofs.Message.Refusal
import Protowire.Proofs.Read.Failure
import Protowire.Proofs.Decoding.Failure
import Protowire.Proofs.Decoding.Replay
import Protowire.Proofs.History
import Protowire.Proofs.Read.Relocation
import Protowire.Proofs.Transcript.Relocation
import Protowire.Proofs.Decoding.Relocation
import Protowire.Proofs.Decoding.Concatenation
import Protowire.Proofs.Decoding.Ignored
import Protowire.Proofs.Decoding.Nested
import Protowire.Proofs.RoundTrip.Truncation
import Protowire.Proofs.Decoding.Atomic
import Protowire.Proofs.Decoding.Depth
import Protowire.Proofs.Encoding.Acceptance
import Protowire.Proofs.Read.Agreement
import Protowire.Proofs.Decoding.Agreement
import Protowire.Proofs.Decoding.Passage
import Protowire.Proofs.Decoding.Policy
import Protowire.Proofs.Decoding.Limit
import Protowire.Proofs.Guarded
import Protowire.Proofs.Guarded.Reader
import Protowire.Proofs.Guarded.Mirror
import Protowire.Proofs.Guarded.Payload
import Protowire.Proofs.Guarded.Allowance
import Protowire.Proofs.Guarded.Refinement
import Protowire.Proofs.Guarded.Encoding
import Protowire.Proofs.Guarded.Sizing
import Protowire.Proofs.Guarded.Writing
import Protowire.Proofs.Decoding.Unlimited
import Protowire.Proofs.Guarded.Safety
import Protowire.Proofs.Decoding.Progress
import Protowire.Proofs.Reader
import Protowire.Proofs.Read.Underrun
import Protowire.Proofs.Reader.Execution
import Protowire.Proofs.Reader.Containment
import Protowire.Proofs.Writer
import Protowire.Proofs.Message.Commutation
import Protowire.Proofs.Decoding.Commutation
import Protowire.Proofs.RoundTrip.Carried
import Protowire.Proofs.RoundTrip.Evolution
import Protowire.Proofs.Message.LastWrite
import Protowire.Proofs.Message.Overwriting
import Protowire.Proofs.Decoding.Repetition
import Protowire.Proofs.Decoding.Taken
import Protowire.Proofs.Decoding.Entries
import Protowire.Proofs.Decoding.Grouping
import Protowire.Proofs.Decoding.Garbage
import Protowire.Proofs.Read.Skipping
import Protowire.Proofs.FieldTable.Building
import Protowire.Proofs.Varint.Shortest
import Protowire.Proofs.Zigzag.Magnitude
import Protowire.Proofs.Read.Varint
import Protowire.Proofs.RoundTrip.Retyped
import Protowire.Proofs.Reader.Confinement
import Protowire.Proofs.Tag
import Protowire.Proofs.Finding
import Protowire.Proofs.Read.Logs
import Protowire.Proofs.Read.Finding
import Protowire.Proofs.Decoding.Finding
import Protowire.Proofs.Decoding.Logs
import Protowire.Proofs.Encoding.Parts
import Protowire.Proofs.RoundTrip.Quiet
import Protowire.Proofs.Decoding.Accounting
