import SidPlayback.Cursor
import SidPlayback.Decimal.Binary
import SidPlayback.Decimal.Layout
import SidPlayback.Decimal.Shortest
import SidPlayback.Digi.Status
import SidPlayback.Digi.Window
import SidPlayback.Engine.Basic
import SidPlayback.Engine.Call
import SidPlayback.Engine.Scripted
import SidPlayback.Engine.Staging
import SidPlayback.Failure
import SidPlayback.FilterCurve
import SidPlayback.Host.Basic
import SidPlayback.Host.Scripted
import SidPlayback.Json.Codec
import SidPlayback.Json.Fault
import SidPlayback.Json.Number
import SidPlayback.Json.Reader
import SidPlayback.Json.Record
import SidPlayback.Json.Skip
import SidPlayback.Json.Text
import SidPlayback.Latency
import SidPlayback.Machine
import SidPlayback.Memory.Listing
import SidPlayback.Notice
import SidPlayback.Panning
import SidPlayback.Player.Basic
import SidPlayback.Player.Control
import SidPlayback.Player.Listening
import SidPlayback.Player.Operation
import SidPlayback.Player.Recording
import SidPlayback.Player.Session
import SidPlayback.Rates
import SidPlayback.Recorded
import SidPlayback.Rom.Bank
import SidPlayback.Rom.Base64
import SidPlayback.Settings
import SidPlayback.Song.Info
import SidPlayback.Speaker
import SidPlayback.Text.Extended
import SidPlayback.Text.Hidden
import SidPlayback.Text.Quoted
import SidPlayback.Traces
import SidPlayback.TrackOptions
import SidPlayback.VoiceMask
import SidPlayback.Wave.Capture
import SidPlayback.Wave.Format
import SidPlayback.Proofs.Recorded
import SidPlayback.Proofs.Staging
import SidPlayback.Proofs.Heap
import SidPlayback.Proofs.Ownership
import SidPlayback.Proofs.Player.Loading
import SidPlayback.Proofs.Digi.Window
import SidPlayback.Proofs.Player.Consistency
import SidPlayback.Proofs.Journal
import SidPlayback.Proofs.Player.Protocol
import SidPlayback.Proofs.Decimal.Rational
import SidPlayback.Proofs.Panning
import SidPlayback.Proofs.Player.Delivery
import SidPlayback.Proofs.Player.Readiness
import SidPlayback.Proofs.Player.Positions
import SidPlayback.Proofs.Decimal.Whole
import SidPlayback.Proofs.Player.Deferral
import SidPlayback.Proofs.Decimal.Reading
import SidPlayback.Proofs.Decimal.Average
import SidPlayback.Proofs.Text.Order
import SidPlayback.Proofs.Digi.Labels
import SidPlayback.Proofs.Digi.Summary
import SidPlayback.Proofs.Digi.Account
import SidPlayback.Proofs.Player.Telemetry
import SidPlayback.Proofs.TrackOptions
import SidPlayback.Proofs.Player.Outcomes
import SidPlayback.Proofs.Player.Frames
import SidPlayback.Proofs.Player.Mirrors
import SidPlayback.Proofs.Twins
import SidPlayback.Proofs.Player.Isolation
import SidPlayback.Proofs.Rom.Bits
import SidPlayback.Proofs.Rom.Encoding
import SidPlayback.Proofs.Wave.Reading
import SidPlayback.Proofs.Wave.Capture
import SidPlayback.Proofs.Player.Recording
import SidPlayback.Proofs.Digi.Readings
import SidPlayback.Proofs.Digi.Techniques
import SidPlayback.Proofs.Decimal.Reach
import SidPlayback.Proofs.Digi.Activity
import SidPlayback.Proofs.Decimal.Digits
import SidPlayback.Proofs.Text.References
import SidPlayback.Proofs.Memory.Listing
import SidPlayback.Proofs.Json.Reader
import SidPlayback.Proofs.Json.Codec
import SidPlayback.Proofs.Json.Record
import SidPlayback.Proofs.Blocks
import SidPlayback.Proofs.Latency
import SidPlayback.Proofs.Player.Latencies
import SidPlayback.Proofs.Decimal.Rounding
import SidPlayback.Proofs.Decimal.Ranks
import SidPlayback.Proofs.Decimal.Recall
import SidPlayback.Proofs.Decimal.Spans
import SidPlayback.Proofs.Decimal.Doubles
import SidPlayback.Proofs.Player.Copies
import SidPlayback.Proofs.Json.Spelling
import SidPlayback.Proofs.Json.Scaling
import SidPlayback.Proofs.Json.Numerals
import SidPlayback.Proofs.Json.Reals
import SidPlayback.Proofs.FilterCurve
