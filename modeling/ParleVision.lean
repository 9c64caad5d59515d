import ParleVision.Lib.Framing
import ParleVision.Lib.Loop
import ParleVision.Lib.Matching
import ParleVision.Lib.QMap
import ParleVision.Lib.Run
import ParleVision.Lib.Measure
import ParleVision.Core.Factory
import ParleVision.Core.RefPtr
import ParleVision.Core.RefCounts
import ParleVision.Graph.Store
import ParleVision.Graph.Invariant
import ParleVision.Graph.Build
import ParleVision.Graph.Editing
import ParleVision.Graph.Connecting
import ParleVision.Graph.Consistency
import ParleVision.Graph.Rejected
import ParleVision.Graph.Ordering
import ParleVision.Graph.Topological
import ParleVision.Graph.FreePin
import ParleVision.Graph.PinTables
import ParleVision.Graph.NewIds
import ParleVision.Graph.Concurrent
import ParleVision.Lifecycle.Element
import ParleVision.Lifecycle.Start
import ParleVision.Lifecycle.FailedStart
import ParleVision.Lifecycle.Init
import ParleVision.Lifecycle.Schedule
import ParleVision.Lifecycle.Heartbeat
import ParleVision.Loader.Document
import ParleVision.Loader.Sound
import ParleVision.Loader.RoundTrip
import ParleVision.Loader.Files
import ParleVision.Loader.FailedLoad
import ParleVision.Loader.Save
import ParleVision.Loader.FailedSave
import ParleVision.Properties.Setters
import ParleVision.Properties.Replay
import ParleVision.Properties.Types
import ParleVision.Runtime.Network
import ParleVision.Runtime.Step
import ParleVision.Runtime.Effects
import ParleVision.Runtime.Accounts
import ParleVision.Runtime.Serials
import ParleVision.Runtime.Monotone
import ParleVision.Runtime.Frames
import ParleVision.Runtime.Alignment
import ParleVision.Runtime.Wrap
import ParleVision.Runtime.Scores
import ParleVision.Runtime.Bound
import ParleVision.Runtime.Watched
import ParleVision.Runtime.Deadlock
import ParleVision.Runtime.Stop
import ParleVision.Runtime.Errors
import ParleVision.Runtime.Consumption
import ParleVision.Runtime.Asynchronous
import ParleVision.Runtime.Starting
import ParleVision.Runtime.Guarded
import ParleVision.Runtime.Draining
import ParleVision.Runtime.Complete
import ParleVision.Runtime.Realised
import ParleVision.Runtime.Dataflow
import ParleVision.Runtime.Sequential
import ParleVision.Runtime.Source
import ParleVision.Runtime.Sessions
import ParleVision.Runtime.Polling
import ParleVision.Runtime.Contracts
import ParleVision.Images.Mat
import ParleVision.Images.Stream
import ParleVision.Images.Sharing
import ParleVision.Images.Isolation
import ParleVision.Images.ImageConverter
import ParleVision.Opencv.Average
import ParleVision.Opencv.DelayImage
import ParleVision.Opencv.Stitch
import ParleVision.Opencv.Camera
import ParleVision.Opencv.CameraProducer
import ParleVision.Mskinect.Producer
import ParleVision.Tcp.Wire
import ParleVision.Tcp.Reader
import ParleVision.Tcp.Protocol
import ParleVision.Tcp.Fragmentation
import ParleVision.Tcp.Connection
import ParleVision.Tcp.Integrity
import ParleVision.Tcp.Delivery
import ParleVision.Tcp.System
import ParleVision.Tcp.FlowControl
import ParleVision.Tcp.Throttling
import ParleVision.Tcp.Skipping
import ParleVision.Tcp.Reconnect
import ParleVision.Tcp.Recovery
import ParleVision.Tcp.Slots
import ParleVision.Tcp.Settings
import ParleVision.Tcp.Produce
import ParleVision.Tcp.EndToEnd
import ParleVision.Tracker.Munkres
import ParleVision.Tracker.Search
import ParleVision.Tracker.Covering
import ParleVision.Tracker.Augment
import ParleVision.Tracker.Solve
import ParleVision.Tracker.Track
import ParleVision.Tracker.Conservation
import ParleVision.Tracker.Optimal
import ParleVision.Tracker.Pipeline
import ParleVision.Tracker.Death
import ParleVision.Tracker.LifeCycle
import ParleVision.Tracker.Overlapping
import ParleVision.Gui.Selection
import ParleVision.Opencv.VideoProducer
