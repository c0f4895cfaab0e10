import KompicsBenches.Quorum
import KompicsBenches.Histories
import KompicsBenches.Flight
import KompicsBenches.RegisterNode
import KompicsBenches.RegisterCell
import KompicsBenches.RegisterFootprint
import KompicsBenches.RegisterReplies
import KompicsBenches.RegisterAcks
import KompicsBenches.RegisterOrder
import KompicsBenches.RegisterValues
import KompicsBenches.RegisterLinear
import KompicsBenches.RegisterSystem
import KompicsBenches.RegisterHandlers
import KompicsBenches.RegisterSteps
import KompicsBenches.RegisterSim
import KompicsBenches.RegisterRuns
import KompicsBenches.RegisterResponses
import KompicsBenches.RegisterPorts
import KompicsBenches.LeaderComp
import KompicsBenches.LeaderElection
import KompicsBenches.LeaderMajority
import KompicsBenches.Segments
import KompicsBenches.ReconfigComp
import KompicsBenches.ReconfigSystem
import KompicsBenches.ReconfigInvariant
import KompicsBenches.SequenceCollect
import KompicsBenches.SequenceNode
import KompicsBenches.SequenceOpen
import KompicsBenches.SequenceRuns
import KompicsBenches.ActivePeers
import KompicsBenches.Wire
import KompicsBenches.PaxosCodec
import KompicsBenches.ControlCodec
import KompicsBenches.ByteFile
import KompicsBenches.DiskLog
import KompicsBenches.DiskRefine
import KompicsBenches.ExperimentConfigs
import KompicsBenches.ClientComp
import KompicsBenches.ClientMoves
import KompicsBenches.ClientInflight
import KompicsBenches.ClientProposals
import KompicsBenches.ClientTimers
import KompicsBenches.ClientPanics
import KompicsBenches.ClientHolding
import KompicsBenches.ClientLatch
import KompicsBenches.StopComp
import KompicsBenches.StopSystem
import KompicsBenches.StopLedger
import KompicsBenches.StopRuns
import KompicsBenches.Shortening
import KompicsBenches.Graphs
import KompicsBenches.BlockAddresses
import KompicsBenches.ApspActors
import KompicsBenches.Lockstep
import KompicsBenches.ApspBlocks
import KompicsBenches.ApspRuns
import KompicsBenches.ApspWeights
import KompicsBenches.ApspProgress
import KompicsBenches.MinimalOps
import KompicsBenches.MultiCall
import KompicsBenches.LinearCheck
import KompicsBenches.LinearVerdict
import KompicsBenches.VerdictTies
import KompicsBenches.StoppingRule
import KompicsBenches.MasterClients
import KompicsBenches.CheckInRuns
import KompicsBenches.RequestCleanup
import KompicsBenches.GuardedRuns
import KompicsBenches.RequestQueue
import KompicsBenches.IdentifyHandshake
import KompicsBenches.HandshakeRuns
import KompicsBenches.JvmCodec
import KompicsBenches.StreamingWindows
import KompicsBenches.CreditRuns
import KompicsBenches.Custody
import KompicsBenches.Chameneos
import KompicsBenches.ChameneosRuns
import KompicsBenches.SizedThroughput
import KompicsBenches.BatchRuns
import KompicsBenches.SlidingWindow
import KompicsBenches.PingPong
import KompicsBenches.SegmentRanges
import KompicsBenches.SegmentTags
import KompicsBenches.Mailboxes
import KompicsBenches.BenchHelpers
import KompicsBenches.StreamBoundary
import KompicsBenches.StreamPartitions
import KompicsBenches.BoundaryRuns
import KompicsBenches.ShortestPaths
import KompicsBenches.WindowMedians
import KompicsBenches.LanguageMedians
import KompicsBenches.RelativeErrors
import KompicsBenches.Replacement
import KompicsBenches.ParameterEscapes
import KompicsBenches.Grouping
import KompicsBenches.ImplResults
import KompicsBenches.MergedTables
import KompicsBenches.PlotSeries
import KompicsBenches.RaftProposals
import KompicsBenches.DiskFaults
import KompicsBenches.TornLog
import KompicsBenches.FailedAppends
import KompicsBenches.Crowd
import KompicsBenches.Fibonacci
import KompicsBenches.Stages
import KompicsBenches.Partitioning
import KompicsBenches.DiskStates
import KompicsBenches.RaftReplicas
import KompicsBenches.RaftStops
import KompicsBenches.StreamMedians
