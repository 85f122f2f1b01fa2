import UltraDisplay.Library.Transition
import UltraDisplay.Library.Simulation
import UltraDisplay.Library.BinaryField
import UltraDisplay.Library.BoundedQueue
import UltraDisplay.Library.Channel
import UltraDisplay.Library.CheckedRead
import UltraDisplay.Library.CheckedWrite
import UltraDisplay.Library.Coalescing
import UltraDisplay.Library.Commands
import UltraDisplay.Library.Crew
import UltraDisplay.Library.CyclicLog
import UltraDisplay.Library.ExpiringList
import UltraDisplay.Library.FirstMinimum
import UltraDisplay.Library.LastWrite
import UltraDisplay.Library.Lines
import UltraDisplay.Library.Linearization
import UltraDisplay.Library.LinkedList
import UltraDisplay.Library.LittleEndian
import UltraDisplay.Library.Memory
import UltraDisplay.Library.Ledger
import UltraDisplay.Library.Ledger.Object
import UltraDisplay.Library.Packing
import UltraDisplay.Library.Parity
import UltraDisplay.Library.Progress
import UltraDisplay.Library.ShellWords
import UltraDisplay.Library.ShellWords.Quoting
import UltraDisplay.Library.ShellWords.Joining
import UltraDisplay.Library.SlidingWindow
import UltraDisplay.Library.Smoothing
import UltraDisplay.Library.TumblingWindow
import UltraDisplay.Library.Words
import UltraDisplay.Shared.RingBuffer
import UltraDisplay.Shared.RingBuffer.Invariant
import UltraDisplay.Shared.RingBuffer.Interleaving
import UltraDisplay.Shared.RingBuffer.Queue
import UltraDisplay.Shared.RingBuffer.Capacity
import UltraDisplay.Shared.RingBuffer.Linearizable
import UltraDisplay.Shared.Pool
import UltraDisplay.Shared.Pool.Ownership
import UltraDisplay.Shared.Pool.Linearizable
import UltraDisplay.Shared.Protocol
import UltraDisplay.Shared.Clock
import UltraDisplay.Shared.Clock.Smoothing
import UltraDisplay.Shared.CongestionGcc
import UltraDisplay.Shared.CongestionGcc.Acks
import UltraDisplay.Shared.CongestionGcc.Duplicates
import UltraDisplay.Shared.CongestionGcc.LossWindow
import UltraDisplay.Shared.Fec
import UltraDisplay.Shared.Fec.Erasure
import UltraDisplay.Shared.Fec.Groups
import UltraDisplay.Shared.Fec.Recovery
import UltraDisplay.Shared.Fec.Emissions
import UltraDisplay.Shared.Fec.Field
import UltraDisplay.Shared.Result
import UltraDisplay.Shared.AudioPipeline
import UltraDisplay.Shared.AudioPipeline.Opus
import UltraDisplay.Shared.Multipath
import UltraDisplay.Shared.Multipath.BestPath
import UltraDisplay.Shared.Pacer
import UltraDisplay.Shared.Pacer.Refill
import UltraDisplay.Shared.Pacer.Waiting
import UltraDisplay.Shared.Pacer.Conformance
import UltraDisplay.Server.SceneAnalyzer
import UltraDisplay.Server.SceneAnalyzer.Merging
import UltraDisplay.Server.SceneAnalyzer.Area
import UltraDisplay.Server.SceneAnalyzer.Idle
import UltraDisplay.Server.Discovery
import UltraDisplay.Server.Discovery.Bounds
import UltraDisplay.Server.Discovery.Records
import UltraDisplay.Server.Discovery.Scan
import UltraDisplay.Server.Discovery.Announcements
import UltraDisplay.Server.Discovery.WireFormat
import UltraDisplay.Server.Discovery.Encoding
import UltraDisplay.Server.Discovery.Fallback
import UltraDisplay.Server.Discovery.Stopping
import UltraDisplay.Server.AdaptiveController
import UltraDisplay.Server.AdaptiveController.Bitrate
import UltraDisplay.Server.AdaptiveController.Gop
import UltraDisplay.Server.DxgiCapture
import UltraDisplay.Server.ColorConvert
import UltraDisplay.Server.Transport
import UltraDisplay.Server.Transport.Contexts
import UltraDisplay.Server.Transport.Contexts.Forgetting
import UltraDisplay.Server.NvencEncoder
import UltraDisplay.Server.Encoder
import UltraDisplay.Server.AmfEncoder
import UltraDisplay.Server.QsvEncoder
import UltraDisplay.Server.WasapiCapture
import UltraDisplay.Server.WasapiCapture.Session
import UltraDisplay.Server.WinService
import UltraDisplay.Client.Transport
import UltraDisplay.Client.Transport.Copy
import UltraDisplay.Client.AlsaPlayback
import UltraDisplay.Client.ConnectionOverlay
import UltraDisplay.Client.DrmDisplay
import UltraDisplay.Client.InputForwarder
import UltraDisplay.Client.NetOptimizer
import UltraDisplay.Client.VaapiDecoder
import UltraDisplay.Client.WifiScreen
import UltraDisplay.Client.WifiScreen.Selection
import UltraDisplay.Client.WifiScreen.Scan
import UltraDisplay.Client.WifiScreen.Connect
import UltraDisplay.InputEvents
import UltraDisplay.RoundTrip
import UltraDisplay.Network
import UltraDisplay.Shutdown
import UltraDisplay.Lifetimes
import UltraDisplay.Inbox
import UltraDisplay.Registry
import UltraDisplay.Scripts.OtaUpdater
import UltraDisplay.Scripts.OtaUpdater.Slots
