import NarrowLink.Bench.Application
import NarrowLink.Bench.Loopback
import NarrowLink.Connection.Recorder
import NarrowLink.Engine.Basic
import NarrowLink.Narrowing
import NarrowLink.Proofs.Engine.Answers
import NarrowLink.Proofs.Engine.Attending
import NarrowLink.Proofs.Engine.Comparing
import NarrowLink.Proofs.Engine.Farewell
import NarrowLink.Proofs.Engine.Fragments
import NarrowLink.Proofs.Engine.Frames
import NarrowLink.Proofs.Engine.Gapless
import NarrowLink.Proofs.Engine.Keeping
import NarrowLink.Proofs.Engine.Lasting
import NarrowLink.Proofs.Engine.Line
import NarrowLink.Proofs.Engine.Numbering
import NarrowLink.Proofs.Engine.Outgrowing
import NarrowLink.Proofs.Engine.Overtaking
import NarrowLink.Proofs.Engine.Retrying
import NarrowLink.Proofs.Engine.Runs
import NarrowLink.Proofs.Engine.Serving
import NarrowLink.Proofs.Engine.Supply
import NarrowLink.Proofs.Engine.Unbinding
import NarrowLink.Proofs.Exchange.Acknowledgement
import NarrowLink.Proofs.Exchange.Actions
import NarrowLink.Proofs.Exchange.Admission
import NarrowLink.Proofs.Exchange.Agreement
import NarrowLink.Proofs.Exchange.Books
import NarrowLink.Proofs.Exchange.Closing
import NarrowLink.Proofs.Exchange.Delivery
import NarrowLink.Proofs.Exchange.Invariant
import NarrowLink.Proofs.Exchange.Ledger
import NarrowLink.Proofs.Exchange.Moves
import NarrowLink.Proofs.Exchange.Once
import NarrowLink.Proofs.Exchange.Reception
import NarrowLink.Proofs.Exchange.Run
import NarrowLink.Proofs.Exchange.Sending
import NarrowLink.Proofs.Exchange.Showing
import NarrowLink.Proofs.Exchange.Steps
import NarrowLink.Proofs.Exchange.Streams
import NarrowLink.Proofs.Exchange.Widening
import NarrowLink.Proofs.Exchange.Window
import NarrowLink.Proofs.InFlight.Removal
import NarrowLink.Proofs.InFlight.Schedule
import NarrowLink.Proofs.Queue.Accounting
import NarrowLink.Proofs.Queue.Consistency
import NarrowLink.Proofs.Queue.Fairness
import NarrowLink.Proofs.Queue.Insertion
import NarrowLink.Proofs.Queue.Sorting
import NarrowLink.Proofs.Queue.Stored
import NarrowLink.Proofs.Queue.Total
import NarrowLink.Proofs.Reassembly.Assembling
import NarrowLink.Proofs.Reassembly.Availability
import NarrowLink.Proofs.Reassembly.Backlog
import NarrowLink.Proofs.Reassembly.Bounds
import NarrowLink.Proofs.Reassembly.Calls
import NarrowLink.Proofs.Reassembly.Draining
import NarrowLink.Proofs.Reassembly.Gathering
import NarrowLink.Proofs.Reassembly.Handout
import NarrowLink.Proofs.Reassembly.Integrity
import NarrowLink.Proofs.Reassembly.Lanes
import NarrowLink.Proofs.Reassembly.Precedence
import NarrowLink.Proofs.Reassembly.Restoration
import NarrowLink.Proofs.Serial.Row
import NarrowLink.Proofs.Session.Beyond
import NarrowLink.Proofs.Session.Dispatch
import NarrowLink.Proofs.Session.Formed
import NarrowLink.Proofs.Session.Gaps
import NarrowLink.Proofs.Session.Holding
import NarrowLink.Proofs.Session.Intake
import NarrowLink.Proofs.Session.Lasting
import NarrowLink.Proofs.Session.Life
import NarrowLink.Proofs.Session.Ranges
import NarrowLink.Proofs.Session.Receiving
import NarrowLink.Proofs.Session.Refusal
import NarrowLink.Proofs.Session.Replying
import NarrowLink.Proofs.Session.Reporting
import NarrowLink.Proofs.Session.Resting
import NarrowLink.Proofs.Session.Room
import NarrowLink.Proofs.Session.Sequence
import NarrowLink.Proofs.Session.TakesNothing
import NarrowLink.Proofs.Session.Trailing
import NarrowLink.Proofs.Stream.Reading
import NarrowLink.Proofs.Stream.Transparency
import NarrowLink.Proofs.Table.Calls
import NarrowLink.Proofs.Table.Keeping
import NarrowLink.Proofs.Table.Lifecycle
import NarrowLink.Proofs.Table.Listener
import NarrowLink.Proofs.Table.Load
import NarrowLink.Proofs.Table.Storm
import NarrowLink.Proofs.Table.Viewing
import NarrowLink.Proofs.Transmitter.Acts
import NarrowLink.Proofs.Transmitter.Custody
import NarrowLink.Proofs.Transmitter.Succession
import NarrowLink.Proofs.Transmitter.Turns
import NarrowLink.Proofs.Transmitter.Waiting
import NarrowLink.Proofs.Wire.Corruption
import NarrowLink.Proofs.Wire.Format
import NarrowLink.Proofs.Wire.Remainder
import NarrowLink.Proofs.Wire.Vote
import NarrowLink.Stream.Link
