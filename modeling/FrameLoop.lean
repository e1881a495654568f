import FrameLoop.Bytes
import FrameLoop.Echo.Connection
import FrameLoop.Echo.Server
import FrameLoop.Frame.Buffered
import FrameLoop.Frame.Checked
import FrameLoop.Frame.Decoder
import FrameLoop.Frame.Error
import FrameLoop.Frame.Intake
import FrameLoop.Frame.Line
import FrameLoop.Frame.Policy
import FrameLoop.Frame.Rounds
import FrameLoop.Frame.Scan
import FrameLoop.Frame.Scripted
import FrameLoop.Frame.Segments
import FrameLoop.Frame.Splitter
import FrameLoop.Group.Aggregation
import FrameLoop.Group.Await
import FrameLoop.Group.Build
import FrameLoop.Group.Driven
import FrameLoop.Group.Error
import FrameLoop.Group.LoopGroup
import FrameLoop.Group.LoopSession
import FrameLoop.Group.Session
import FrameLoop.Group.Settings
import FrameLoop.Group.Sharing
import FrameLoop.Group.Tally
import FrameLoop.Loop.Host
import FrameLoop.Loop.Lifecycle
import FrameLoop.Loop.Machine
import FrameLoop.Loop.Script
import FrameLoop.Loop.Session
import FrameLoop.Loop.Task
import FrameLoop.Main
import FrameLoop.Naming
import FrameLoop.Parker.Basic
import FrameLoop.Parker.Flag
import FrameLoop.Parker.Token
import FrameLoop.Parker.Word
import FrameLoop.Proofs.Echo.Answers
import FrameLoop.Proofs.Echo.Apart
import FrameLoop.Proofs.Echo.Lanes
import FrameLoop.Proofs.Echo.Places
import FrameLoop.Proofs.Echo.Serving
import FrameLoop.Proofs.Frame.Bounds
import FrameLoop.Proofs.Frame.Calling
import FrameLoop.Proofs.Frame.Chunking
import FrameLoop.Proofs.Frame.Cutting
import FrameLoop.Proofs.Frame.Episodes
import FrameLoop.Proofs.Frame.Feeds
import FrameLoop.Proofs.Frame.Flags
import FrameLoop.Proofs.Frame.Framer
import FrameLoop.Proofs.Frame.LineScan
import FrameLoop.Proofs.Frame.Lines
import FrameLoop.Proofs.Frame.Longest
import FrameLoop.Proofs.Frame.Matching
import FrameLoop.Proofs.Frame.Oversized
import FrameLoop.Proofs.Frame.Overruns
import FrameLoop.Proofs.Frame.Pass
import FrameLoop.Proofs.Frame.Resting
import FrameLoop.Proofs.Frame.Resuming
import FrameLoop.Proofs.Frame.RoundTrip
import FrameLoop.Proofs.Frame.Rounds
import FrameLoop.Proofs.Frame.Scanned
import FrameLoop.Proofs.Frame.Search
import FrameLoop.Proofs.Frame.Telling
import FrameLoop.Proofs.Group.Arriving
import FrameLoop.Proofs.Group.Awaiting
import FrameLoop.Proofs.Group.Choosing
import FrameLoop.Proofs.Group.Completing
import FrameLoop.Proofs.Group.Counting
import FrameLoop.Proofs.Group.Settling
import FrameLoop.Proofs.Group.Sharing
import FrameLoop.Proofs.Group.Tracking
import FrameLoop.Proofs.Group.Undoing
import FrameLoop.Proofs.Loop.Accounts
import FrameLoop.Proofs.Loop.Batches
import FrameLoop.Proofs.Loop.Closing
import FrameLoop.Proofs.Loop.Delivery
import FrameLoop.Proofs.Loop.Ledger
import FrameLoop.Proofs.Loop.Quiet
import FrameLoop.Proofs.Loop.Requests
import FrameLoop.Proofs.Loop.Steps
import FrameLoop.Proofs.Loop.Stopping
import FrameLoop.Proofs.Loop.Waking
import FrameLoop.Proofs.Parker.Lawful
import FrameLoop.Proofs.Parker.OneToken
import FrameLoop.Proofs.Positions
import FrameLoop.Proofs.Rotation
import FrameLoop.Proofs.Runs
import FrameLoop.Proofs.Signal.Asking
import FrameLoop.Proofs.Signal.Cascades
import FrameLoop.Proofs.Signal.Moves
import FrameLoop.Proofs.Signal.Once
import FrameLoop.Proofs.Signal.Programs
import FrameLoop.Proofs.Signal.Unfolding
import FrameLoop.Proofs.Signal.Waiting
import FrameLoop.Proofs.Text.Integers
import FrameLoop.Rotation
import FrameLoop.Setting
import FrameLoop.Signal.Basic
import FrameLoop.Signal.Program
import FrameLoop.Signal.Threads
import FrameLoop.Span
import FrameLoop.Text.Blank
import FrameLoop.Text.Casing
import FrameLoop.Text.Checked
import FrameLoop.Text.Numeral
