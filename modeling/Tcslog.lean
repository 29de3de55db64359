import Tcslog.Lib.Spanned
import Tcslog.Format
import Tcslog.Header
import Tcslog.Naming
import Tcslog.Lib.Program
import Tcslog.Storage
import Tcslog.Read.Reader
import Tcslog.Read.Calls
import Tcslog.Write.Writer
import Tcslog.Layout
import Tcslog.Read.Scene
import Tcslog.Read.Crossing
import Tcslog.Read.Transfer
import Tcslog.Read.Record
import Tcslog.Read.Search
import Tcslog.Read.Step
import Tcslog.Read.Await
import Tcslog.Read.Account
import Tcslog.Read.Run
import Tcslog.Read.Outcomes
import Tcslog.Write.Growth
import Tcslog.Write.Disk
import Tcslog.Write.Naming
import Tcslog.Write.Pen
import Tcslog.Write.Chronicle
import Tcslog.Write.Session
import Tcslog.Write.Records
import Tcslog.Write.Calls
import Tcslog.Write.Opening
import Tcslog.Write.Runs
import Tcslog.Write.Faithful
import Tcslog.Write.Faults
import Tcslog.System.Meeting
import Tcslog.System.Damage
import Tcslog.Read.Footprint
import Tcslog.System.Disturbance
import Tcslog.System.Sections
import Tcslog.System.Sequence
import Tcslog.System.Recovery
import Tcslog.Write.Steps
import Tcslog.Write.Identifiers
import Tcslog.Write.Diary
import Tcslog.Write.Timestamps
import Tcslog.Write.Traces
import Tcslog.Write.Counts
import Tcslog.Write.HandOver
import Tcslog.Read.Termination
import Tcslog.Lib.Coupling
import Tcslog.Read.Retrace
import Tcslog.Read.Standing
import Tcslog.Read.Placing
import Tcslog.Read.Buffers
import Tcslog.Read.Checked
import Tcslog.Codec
import Tcslog.Lib.Calendar
import Tcslog.Lib.Text
import Tcslog.Listing
import Tcslog.Timestamp
import Tcslog.Write.Epoch
import Tcslog.Overlap
import Tcslog.Read.Upholding
import Tcslog.System.Isolation
import Tcslog.Read.Headers
import Tcslog.Read.Advance
import Tcslog.System.Holding
import Tcslog.Write.Reported
import Tcslog.Binding.Pin
import Tcslog.Binding.Iterators
import Tcslog.Read.Panics
import Tcslog.Binding.Drain
import Tcslog.Lib.Changes
import Tcslog.Write.Resolution
import Tcslog.Read.Course
import Tcslog.System.Boundaries
import Tcslog.Tape
import Tcslog.Read.Shelf
import Tcslog.Read.Intact
import Tcslog.Read.Entire
import Tcslog.Read.Script
import Tcslog.System.Tapes
import Tcslog.System.RoundTrip
import Tcslog.Write.Moments
import Tcslog.Read.Reach
import Tcslog.System.Live
import Tcslog.System.Remains
import Tcslog.System.Retelling
import Tcslog.System.Retold
import Tcslog.System.Tally
import Tcslog.System.Clipping
import Tcslog.System.Clean
import Tcslog.System.Returned
import Tcslog.System.Restored
import Tcslog.System.Fuzzing
import Tcslog.Generator.Spec
import Tcslog.Generator.Create
import Tcslog.Read.Noted
import Tcslog.Binding.Iterated
import Tcslog.Binding.Texts
import Tcslog.Binding.Library
import Tcslog.System.Adversity
import Tcslog.Lib.Noting
import Tcslog.Write.Made
import Tcslog.System.Bridged
