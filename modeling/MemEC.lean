import MemEC.Lib.Memory
import MemEC.Lib.Lists
import MemEC.Lib.Run
import MemEC.Common.Key
import MemEC.Common.KeyValue
import MemEC.Common.ChunkUtil
import MemEC.Common.ChunkLayout
import MemEC.Common.ChunkPool
import MemEC.Server.SealChunk
import MemEC.Server.DataChunkBuffer
import MemEC.Server.DataChunkBufferInvariant
import MemEC.Common.Coding
import MemEC.Server.ParityChunkBuffer
import MemEC.Server.ParityChunkBufferSpec
import MemEC.Server.ParityLedger
import MemEC.Server.ParityRun
import MemEC.Server.ParityRace
import MemEC.Common.Connection
import MemEC.Common.CuckooHash
import MemEC.Common.CuckooHashSpec
import MemEC.Common.FixedKeyTable
import MemEC.Common.ObjectIndex
import MemEC.Server.Map
import MemEC.Coordinator.Heartbeat
import MemEC.Coordinator.DegradedLock
import MemEC.Coordinator.DegradedLockSpec
import MemEC.Coordinator.DegradedLockRun
import MemEC.Coordinator.RemappingAgreement
import MemEC.Common.Fanout
import MemEC.Common.FanoutSpec
import MemEC.Coordinator.DegradedRelease
import MemEC.Coordinator.DegradedReleaseRun
import MemEC.Lib.Packing
import MemEC.Server.UnsealedChunk
import MemEC.Server.UnsealedChunkRun
import MemEC.Client.Backup
import MemEC.Client.BackupRun
import MemEC.Lib.Multimap
import MemEC.Server.ServerBackup
import MemEC.Server.RevertDelta
import MemEC.Server.RevertDeltaRun
import MemEC.Server.RevertDeltaSpec
import MemEC.Common.CodingContract
import MemEC.Server.GetChunk
import MemEC.Lib.Loops
import MemEC.Server.GetChunkSeals
import MemEC.Server.GetChunkCollect
import MemEC.Server.GetChunkRun
import MemEC.Server.RemappedData
import MemEC.Server.RemappedDataRun
import MemEC.Coordinator.ReconstructionTask
import MemEC.Lib.Tally
import MemEC.Server.Reconstruction
import MemEC.Server.ReconstructionRun
import MemEC.Coordinator.ReconstructionSend
import MemEC.Coordinator.ReconstructionWait
import MemEC.Common.LargeObject
import MemEC.Client.UpdateSplit
import MemEC.Client.GetSplit
import MemEC.Client.GetSplitRun
import MemEC.Client.Pending
import MemEC.Client.Replay
import MemEC.Client.ReplayRun
import MemEC.Coordinator.Recovery
import MemEC.Coordinator.RecoveryRun
import MemEC.Coordinator.StateTransit
import MemEC.Coordinator.StateTransitRun
import MemEC.Client.StateTransit
import MemEC.Client.StateTransitRun
import MemEC.Server.ParityDelta
import MemEC.Client.AckParityDelta
import MemEC.Lib.Bisection
import MemEC.Lib.Zigzag
import MemEC.Common.PrimeCode
import MemEC.Common.Symbols
import MemEC.Common.EvenOddDecode
import MemEC.Common.EvenOddRestore
import MemEC.Common.ErasureCode
import MemEC.Common.StripeList
import MemEC.Common.StripeListMembers
import MemEC.Common.HeartbeatProtocol
import MemEC.Coordinator.HeartbeatSync
import MemEC.Common.BatchProtocol
import MemEC.Common.DegradedProtocol
import MemEC.Common.ParserExtents
import MemEC.Common.ChunkTransfer
import MemEC.Common.DeleteObject
import MemEC.Common.KeyOrder
import MemEC.Common.SplitSizes
import MemEC.Common.Mirroring
import MemEC.Server.ForceSeal
import MemEC.Server.MirrorRun
import MemEC.Server.GetChunkBackup
import MemEC.Server.ChunkIndex
import MemEC.Server.SetChunk
import MemEC.Server.BackupRange
import MemEC.Server.RedirectedList
import MemEC.Server.SealProtocol
import MemEC.Lib.Waiting
import MemEC.Server.DegradedMap
import MemEC.Server.DegradedWaiting
import MemEC.Server.ForwardedChunk
import MemEC.Server.DegradedLookup
import MemEC.Server.DegradedRead
import MemEC.Server.DegradedReadLookup
import MemEC.Server.DegradedReadHandover
import MemEC.Server.ObjectServer
import MemEC.Server.UpdateRequest
import MemEC.Coordinator.RemappingRecords
import MemEC.Coordinator.StateChangeInit
import MemEC.Client.SetStateLocks
import MemEC.Coordinator.DegradedLockRequest
import MemEC.Client.PendingKeys
import MemEC.Common.StripeListLoad
import MemEC.Client.Remapping
import MemEC.Common.MultiFrame
import MemEC.Lib.CyclicScan
import MemEC.Server.SourceSelection
import MemEC.Coordinator.ReconstructionDistribution
import MemEC.Server.DeleteRequest
import MemEC.Server.ModifyChunk
import MemEC.Common.ChunkAddress
import MemEC.Common.CodingParams
import MemEC.Common.EventQueue
import MemEC.Common.IDGenerator
import MemEC.Common.InstanceIdGenerator
import MemEC.Common.MemoryPool
import MemEC.Common.PrimeSearch
import MemEC.Server.ChunkTable
import MemEC.Server.ParityUpdates
import MemEC.Lib.Broadcast
import MemEC.Common.StripeDecode
import MemEC.Server.Cluster
import MemEC.Server.ClusterRun
import MemEC.Server.ClusterDurable
import MemEC.Lib.Superregular
import MemEC.Common.GeneratorMatrix
import MemEC.Lib.Simulation
import MemEC.Server.ObjectLog
import MemEC.Server.ObjectStore
import MemEC.Server.ObjectStoreRun
import MemEC.Lib.Threads
import MemEC.Lib.Format
import MemEC.Common.NormalMessages
import MemEC.Common.DegradedMessages
import MemEC.Common.Messages
import MemEC.Server.ClientRequests
import MemEC.Server.ConnectedServer
