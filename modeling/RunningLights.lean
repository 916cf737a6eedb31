import RunningLights.Main
import RunningLights.Playback.Player
import RunningLights.Proofs.Expr.Depth
import RunningLights.Proofs.Expr.Exactness
import RunningLights.Proofs.Expr.Policy
import RunningLights.Proofs.Frame.Encoding
import RunningLights.Proofs.Library.Ordering
import RunningLights.Proofs.Library.Partition
import RunningLights.Proofs.Library.Rescaling
import RunningLights.Proofs.Pattern.Binding
import RunningLights.Proofs.Pattern.Masking
import RunningLights.Proofs.Pattern.Sequencing
import RunningLights.Proofs.Playback.Observing
import RunningLights.Proofs.Playback.Stepping
import RunningLights.Proofs.Program.Contents
import RunningLights.Proofs.Program.Elements
import RunningLights.Proofs.Program.Semicolons
import RunningLights.Proofs.Run.Budget
import RunningLights.Proofs.Run.Ceiling
import RunningLights.Proofs.Run.Counting
import RunningLights.Proofs.Run.Halting
import RunningLights.Proofs.Run.Initializing
import RunningLights.Proofs.Run.Isolation
import RunningLights.Proofs.Run.References
import RunningLights.Proofs.Run.Report
import RunningLights.Proofs.Run.Sharing
import RunningLights.Proofs.Run.Stack
import RunningLights.Proofs.Run.Tally
import RunningLights.Proofs.Run.Truncation
import RunningLights.Proofs.Run.Typing
import RunningLights.Proofs.Run.Words
import RunningLights.Proofs.Script.Display
import RunningLights.Proofs.Script.Phrases
import RunningLights.Proofs.Script.Places
import RunningLights.Proofs.Script.Scatter
import RunningLights.Proofs.Script.Segments
import RunningLights.Proofs.Script.Statistics
import RunningLights.Proofs.Script.Waves
