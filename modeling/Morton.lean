import Morton.Base.Bits
import Morton.Base.Serial
import Morton.Base.Table
import Morton.Base.Run
import Morton.Base.Keyed
import Morton.Base.Pipeline
import Morton.Base.Process
import Morton.Base.Traced
import Morton.Base.Aging
import Morton.Base.CountingSort
import Morton.Base.Rolling
import Morton.Base.LowerBound
import Morton.Base.Contest
import Morton.Base.Text
import Morton.Proto.BitStream
import Morton.Proto.BitStreamSpec
import Morton.Proto.BitStreamRoom
import Morton.Proto.Fields
import Morton.Net.SequenceBuffer
import Morton.Net.Reliability
import Morton.Net.PacketCodec
import Morton.Net.ReliabilitySpec
import Morton.Net.Rejection
import Morton.Net.EndpointRuns
import Morton.Net.Packing
import Morton.Net.Link
import Morton.Net.AckSoundness
import Morton.Net.Progress
import Morton.Net.Drain
import Morton.Net.LossCursor
import Morton.Net.Connection
import Morton.Net.ClientConnection
import Morton.Net.Handshake
import Morton.Net.HandshakeSafety
import Morton.Net.ClientIndex
import Morton.Net.Http
import Morton.Net.JsonObject
import Morton.Proto.Snapshot
import Morton.Proto.SnapshotCodec
import Morton.Proto.SnapshotOrder
import Morton.Proto.SnapshotBudget
import Morton.Proto.Replication
import Morton.Proto.Selection
import Morton.Proto.SnapshotExact
import Morton.Proto.Fairness
import Morton.Proto.Messages
import Morton.Proto.InputCodec
import Morton.Proto.Quantizer
import Morton.Proto.InputDecoder
import Morton.Proto.Scan
import Morton.Proto.ScanMessages
import Morton.Spatial.MortonCode
import Morton.Spatial.Grid
import Morton.Spatial.RadiusQuery
import Morton.Spatial.PairWalk
import Morton.Sim.Movement
import Morton.Sim.ClientView
import Morton.Sim.Prediction
import Morton.Sim.Mirror
import Morton.Sim.ReconcileOrder
import Morton.Sim.Turn
import Morton.Sim.AppliedOrder
import Morton.Sim.Replicated
import Morton.Sim.World
import Morton.Sim.WorldSpec
import Morton.Sim.WorldRuns
import Morton.Sim.GridWorld
import Morton.Sim.Interest
import Morton.Sim.ViewerFrames
import Morton.Sim.QuantizedInput
import Morton.Sim.Region
import Morton.Cluster.MigrationTicket
import Morton.Proto.EventCodec
import Morton.Cluster.TicketWire
import Morton.Cluster.Redis
import Morton.Cluster.RedisSpec
import Morton.Cluster.Presence
import Morton.Cluster.Migration
import Morton.Cluster.Publication
import Morton.Cluster.Shard
import Morton.Cluster.Matchmaker
import Morton.Cluster.MatchmakerSpec
import Morton.Cluster.Ownership
import Morton.Cluster.Discovery
import Morton.Cluster.PickShard
import Morton.Cluster.TicketRedemption
import Morton.Cluster.SessionApi
import Morton.Cluster.Resp
import Morton.Cluster.RespExact
import Morton.Cluster.RedisClient
import Morton.Cluster.RedisScript
import Morton.Cluster.RegistryCalls
import Morton.Cluster.ScriptTasks
import Morton.Cluster.RegistryTasks
import Morton.App.GameClient
import Morton.App.WorldServer
import Morton.App.ServerEffects
import Morton.App.InputTruth
import Morton.App.Fleet
import Morton.App.FleetSpec
import Morton.App.FleetScripts
import Morton.App.PresenceHistory
import Morton.App.TokenKinds
import Morton.App.TicketUse
import Morton.App.Residency
import Morton.App.MatchAgreement
import Morton.App.SlotEffects
import Morton.App.Bookkeeping
import Morton.App.InputStream
import Morton.App.Coasting
import Morton.App.ResumedSession
import Morton.App.Host
import Morton.App.AckedBaselines
import Morton.Net.ScanPacket
import Morton.App.HostileBytes
import Morton.App.Login
import Morton.Net.SlidingWindow
import Morton.Net.WebSocket
import Morton.Net.ViewerStreams
import Morton.Metrics.Histogram
import Morton.Proto.Catchup
import Morton.Sim.Convergence
import Morton.Net.DatagramCodec
import Morton.Net.Agreement
import Morton.Base.CasLoop
import Morton.Metrics.Recorders
import Morton.Base.Samples
import Morton.Sim.Motion
import Morton.Sim.Rendering
import Morton.App.Pacing
import Morton.Net.UdpSocket
import Morton.Base.Smoothing
import Morton.Net.NetworkStats
import Morton.Net.HttpWire
import Morton.Net.Completion
import Morton.Sim.Collisions
