import Melody.Binary64
import Melody.Decimal.Binary
import Melody.Decimal.Layout
import Melody.Decimal.Reader
import Melody.Decimal.Rounding
import Melody.Decimal.Shortest
import Melody.Duration
import Melody.Envelope.Automation
import Melody.Envelope.Basic
import Melody.Envelope.Sampling
import Melody.Envelope.Segment
import Melody.Json.Envelope
import Melody.Json.Fault
import Melody.Json.Note
import Melody.Json.Number
import Melody.Json.Record
import Melody.Json.Scale
import Melody.Json.Tagged
import Melody.Json.Tempo
import Melody.Json.Text
import Melody.Json.Value
import Melody.Json.Writer
import Melody.Notation.Error
import Melody.Notation.Expression
import Melody.Notation.Item
import Melody.Notation.Phrase
import Melody.Notation.Property
import Melody.Notation.Token
import Melody.Note.Basic
import Melody.Note.Group
import Melody.Note.Resolution
import Melody.Note.Strategy
import Melody.Notice
import Melody.Osc.Decoding
import Melody.Osc.Encoding
import Melody.Osc.Packet
import Melody.Osc.Timetag
import Melody.Performance
import Melody.Pitch.Basic
import Melody.Pitch.Name
import Melody.Pitch.Temperament
import Melody.Playback
import Melody.Proofs.Scheduler.Lanes
import Melody.Proofs.Scheduler.Move
import Melody.Proofs.Scheduler.Queue
import Melody.Proofs.Scheduler.Run
import Melody.Scalar
import Melody.Scheduler.Basic
import Melody.Scheduler.Lane
import Melody.Scheduler.Operation
import Melody.Scheduler.Timers
import Melody.Scheduler.Window
import Melody.Synth.Generator
import Melody.Synth.Messages
import Melody.Synth.Node
import Melody.Tempo
import Melody.Text.Blank
import Melody.Text.Bytes
import Melody.Text.Fault
import Melody.Text.Lines
import Melody.Text.Quoted
import Melody.Text.Visible
import Melody.Tuning.Scale
import Melody.Tuning.ScaleFile
import Melody.Voice.Basic
import Melody.Voice.Recorder
import Melody.Proofs.Scheduler.Coherence
import Melody.Proofs.Scheduler.Steps
import Melody.Proofs.Scheduler.Representation
import Melody.Proofs.Scalar.Order
import Melody.Proofs.Voice.Recording
import Melody.Proofs.Scheduler.Ownership
import Melody.Proofs.Scheduler.Sounding
import Melody.Proofs.Scheduler.Cancellation
import Melody.Proofs.Scalar.Exact
import Melody.Proofs.Note.Settling
import Melody.Proofs.Outcome
import Melody.Proofs.Notation.Line
import Melody.Proofs.Notation.Descent
import Melody.Proofs.Notation.Grouping
import Melody.Proofs.Notation.Spelling
import Melody.Proofs.Notation.Ungrouped
import Melody.Proofs.Scalar.Field
import Melody.Proofs.Scalar.Real
import Melody.Proofs.Scheduler.Due
import Melody.Proofs.Scheduler.Reading
import Melody.Proofs.Scheduler.Firing
import Melody.Proofs.Scheduler.Asking
import Melody.Proofs.Scheduler.Waiting
import Melody.Proofs.Scheduler.Waking
import Melody.Proofs.Scheduler.Lookahead
import Melody.Proofs.Tempo
import Melody.Proofs.Playback.Trace
import Melody.Proofs.Playback.Window
import Melody.Proofs.Playback.Prompt
import Melody.Proofs.Note.Lasting
import Melody.Proofs.Playback.Delivery
import Melody.Proofs.Notation.Nesting
import Melody.Proofs.Notation.Acceptance
import Melody.Proofs.Notation.Grammar
import Melody.Proofs.Notation.Words
import Melody.Proofs.Text.Run
import Melody.Proofs.Playback.Passes
import Melody.Proofs.Scheduler.Draining
import Melody.Proofs.Scheduler.Commands
import Melody.Proofs.Note.Validity
import Melody.Proofs.Json.Guarantee
import Melody.Proofs.Json.Numbers
import Melody.Proofs.Json.Writing
import Melody.Proofs.Note.Settled
import Melody.Proofs.Note.Reloading
import Melody.Proofs.Note.Editing
import Melody.Proofs.Scheduler.Forgetting
import Melody.Proofs.Scheduler.Alike
import Melody.Proofs.Scheduler.Matching
import Melody.Proofs.Scheduler.Inaudible
import Melody.Proofs.Note.Separation
import Melody.Proofs.Scheduler.Freshness
import Melody.Proofs.Scheduler.Undisturbed
import Melody.Proofs.Scheduler.Custody
import Melody.Proofs.Scheduler.Departures
import Melody.Proofs.Scheduler.Silence
import Melody.Proofs.Playback.Failure
import Melody.Proofs.Envelope.Construction
import Melody.Proofs.Envelope.Automation
import Melody.Proofs.Note.Chords
import Melody.Proofs.Note.Endless
import Melody.Proofs.Note.Trimming
import Melody.Proofs.Scalar.Nearest
import Melody.Proofs.Scalar.Packing
import Melody.Proofs.Scalar.Rounding
import Melody.Proofs.Text.Place
import Melody.Proofs.Notation.Failing
import Melody.Proofs.Notation.Pointing
import Melody.Proofs.Envelope.Extent
import Melody.Proofs.Synth.Node
import Melody.Proofs.Synth.Calls
import Melody.Proofs.Synth.Hearing
import Melody.Proofs.Sorting
import Melody.Proofs.Scheduler.Conducting
import Melody.Proofs.Synth.Following
import Melody.Proofs.Synth.Releases
import Melody.Proofs.Notation.Isolation
import Melody.Proofs.Scalar.Overflow
import Melody.Proofs.Scalar.Scaling
import Melody.Proofs.Note.Moving
import Melody.Proofs.Note.Overflowing
import Melody.Proofs.Json.Doubles
import Melody.Proofs.Tempo.Made
import Melody.Proofs.Envelope.Scaling
import Melody.Proofs.Note.Merging
import Melody.Proofs.Envelope.Approximation
import Melody.Proofs.Scalar.Ceiling
import Melody.Proofs.Envelope.Fidelity
import Melody.Proofs.Envelope.Parameter
import Melody.Proofs.Envelope.Covering
import Melody.Proofs.Scalar.Multiple
import Melody.Proofs.Osc.Timetag
import Melody.Proofs.Text.Slice
import Melody.Proofs.Notation.Cursor
import Melody.Proofs.Notation.Naming
import Melody.Proofs.Notation.Slicing
import Melody.Proofs.Tuning.Repetition
