import TimelineMixer.Document.Event
import TimelineMixer.Document.Spec
import TimelineMixer.Launch
import TimelineMixer.Main
import TimelineMixer.Proofs.Ledger
import TimelineMixer.Proofs.Time.Exactness
import TimelineMixer.Proofs.Time.WholeFrames
import TimelineMixer.Proofs.Clock.Landing
import TimelineMixer.Proofs.Clock.Playing
import TimelineMixer.Proofs.Clock.Seeking
import TimelineMixer.Proofs.Queue.Reading
import TimelineMixer.Proofs.Queue.Store
import TimelineMixer.Proofs.Queue.Balance
import TimelineMixer.Proofs.Mix.Overlay
import TimelineMixer.Proofs.Mix.Rounds
import TimelineMixer.Proofs.Mix.Frames
import TimelineMixer.Proofs.Mix.Cuts
import TimelineMixer.Proofs.Producer.Generation
import TimelineMixer.Proofs.Queue.Chunks
import TimelineMixer.Proofs.Player.Effects
import TimelineMixer.Proofs.Producer.SeekRace
import TimelineMixer.Proofs.Time.Grid
import TimelineMixer.Proofs.Producer.Supply
import TimelineMixer.Proofs.Producer.Broadcast
import TimelineMixer.Proofs.Producer.InSync
import TimelineMixer.Proofs.Producer.Listings
import TimelineMixer.Proofs.Mix.Accounts
import TimelineMixer.Proofs.Output.Playout
import TimelineMixer.Proofs.Controller.Resuming
import TimelineMixer.Proofs.Event.Delivery
import TimelineMixer.Proofs.Player.Reports
import TimelineMixer.Proofs.Transport.Calls
import TimelineMixer.Proofs.Transport.Position
import TimelineMixer.Proofs.Transport.Underruns
import TimelineMixer.Proofs.Controller.Remembering
import TimelineMixer.Proofs.Transport.Loopback
import TimelineMixer.Proofs.Producer.Priming
import TimelineMixer.Proofs.Transport.Listeners
import TimelineMixer.Proofs.Producer.FrameCount
import TimelineMixer.Proofs.Producer.Schedule
import TimelineMixer.Proofs.Producer.Coverage
import TimelineMixer.Proofs.Producer.Ahead
import TimelineMixer.Proofs.Producer.Progress
import TimelineMixer.Proofs.Mix.Shortfall
import TimelineMixer.Proofs.Json.Numbers
import TimelineMixer.Proofs.Json.Strings
import TimelineMixer.Proofs.Json.RoundTrip
import TimelineMixer.Proofs.Document.Values
import TimelineMixer.Proofs.Document.Timelines
import TimelineMixer.Proofs.Clock.Choosing
import TimelineMixer.Proofs.Mix.Samples
import TimelineMixer.Proofs.Time.Rounding
import TimelineMixer.Proofs.Document.Fractions
import TimelineMixer.Proofs.Document.Events
import TimelineMixer.Proofs.Time.Fallback
import TimelineMixer.Proofs.Time.Registers
import TimelineMixer.Proofs.Time.Differences
import TimelineMixer.Proofs.Clock.Forwards
import TimelineMixer.Proofs.Time.Words
import TimelineMixer.Proofs.Time.Calculations
import TimelineMixer.Proofs.Time.Conversions
import TimelineMixer.Proofs.Clock.Formats
import TimelineMixer.Proofs.Player.Readiness
import TimelineMixer.Proofs.Output.Corking
import TimelineMixer.Proofs.Mix.Turns
import TimelineMixer.Proofs.Stream.Packing
import TimelineMixer.Proofs.Player.Periods
import TimelineMixer.Proofs.Player.Buffers
