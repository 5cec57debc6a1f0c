import Alpamayo.General.Bits
import Alpamayo.General.Buf
import Alpamayo.General.CellRing
import Alpamayo.General.CodedMap
import Alpamayo.General.Command
import Alpamayo.General.CyclicWindow
import Alpamayo.General.HashMap
import Alpamayo.General.Pages
import Alpamayo.General.Ranks
import Alpamayo.General.Routine
import Alpamayo.General.Service
import Alpamayo.General.SharedFetch
import Alpamayo.General.Since
import Alpamayo.General.SortedMap
import Alpamayo.General.Successive
import Alpamayo.General.Wire
import Alpamayo.General.WireMessage
import Alpamayo.Proof.AddressRows
import Alpamayo.Proof.Backfill
import Alpamayo.Proof.BackfillRange
import Alpamayo.Proof.BlockEncoding
import Alpamayo.Proof.BlockIndexes
import Alpamayo.Proof.BlockMessage
import Alpamayo.Proof.BlockTimeBounds
import Alpamayo.Proof.BlocksDeque
import Alpamayo.Proof.BlocksListing
import Alpamayo.Proof.CommitmentLevels
import Alpamayo.Proof.ConfirmedChain
import Alpamayo.Proof.ConfirmedReads
import Alpamayo.Proof.CrashRecovery
import Alpamayo.Proof.CrashSteps
import Alpamayo.Proof.CursorResume
import Alpamayo.Proof.DatabaseRows
import Alpamayo.Proof.DurableStore
import Alpamayo.Proof.ExactIndexes
import Alpamayo.Proof.Fees
import Alpamayo.Proof.FileExtents
import Alpamayo.Proof.FilesEviction
import Alpamayo.Proof.FilesOpen
import Alpamayo.Proof.FilesReadBack
import Alpamayo.Proof.FilesReopen
import Alpamayo.Proof.FilesRestart
import Alpamayo.Proof.FilesRoom
import Alpamayo.Proof.FirstAvailable
import Alpamayo.Proof.FreeSpace
import Alpamayo.Proof.FullEntries
import Alpamayo.Proof.HeightWalk
import Alpamayo.Proof.IndexedStore
import Alpamayo.Proof.InflationReward
import Alpamayo.Proof.LatestConfirmed
import Alpamayo.Proof.MemoryBuffer
import Alpamayo.Proof.MemoryEmit
import Alpamayo.Proof.MemoryRounds
import Alpamayo.Proof.ProcessedState
import Alpamayo.Proof.PushOutcomes
import Alpamayo.Proof.ReadLoop
import Alpamayo.Proof.ReadStages
import Alpamayo.Proof.RecentBlocks
import Alpamayo.Proof.RecentFees
import Alpamayo.Proof.RecentIndex
import Alpamayo.Proof.RecordFaults
import Alpamayo.Proof.RefusedPush
import Alpamayo.Proof.ResumeAttempts
import Alpamayo.Proof.RewardCalls
import Alpamayo.Proof.RewardLog
import Alpamayo.Proof.RewardRecords
import Alpamayo.Proof.SfaRecords
import Alpamayo.Proof.SignatureCommitment
import Alpamayo.Proof.SignatureHistory
import Alpamayo.Proof.SignatureScan
import Alpamayo.Proof.SignatureStitching
import Alpamayo.Proof.SlotBounds
import Alpamayo.Proof.SlotLookup
import Alpamayo.Proof.SlotRecords
import Alpamayo.Proof.SlotsCounted
import Alpamayo.Proof.SlotsPublished
import Alpamayo.Proof.StandingBlocks
import Alpamayo.Proof.StatusesAnswered
import Alpamayo.Proof.StatusesCompleted
import Alpamayo.Proof.StoreFront
import Alpamayo.Proof.StoreRing
import Alpamayo.Proof.StoreRoom
import Alpamayo.Proof.StoreSteps
import Alpamayo.Proof.StoredBytes
import Alpamayo.Proof.StoredHeights
import Alpamayo.Proof.StreamAssembly
import Alpamayo.Proof.StreamBuffer
import Alpamayo.Proof.TransactionFilters
import Alpamayo.Proof.TransactionPages
import Alpamayo.Proof.TransactionReads
import Alpamayo.Proof.TransactionRecord
import Alpamayo.Proof.TransactionScan
import Alpamayo.Proof.UpstreamCaches
import Alpamayo.Proof.ValidatedReads
import Alpamayo.Proof.WriteFront
import Alpamayo.Proof.WriteIteration
import Alpamayo.Proof.WriteServes
import Alpamayo.Proof.WriteSources
import Alpamayo.Proof.WriteSteps
import Alpamayo.Proof.WriterChain
import Alpamayo.Proof.WriterDisk
import Alpamayo.Proof.WriterReplica
import Alpamayo.Proof.WriterRing
import Alpamayo.Proof.WriterSteps
import Alpamayo.Rpc.Block
import Alpamayo.Rpc.InflationReward
import Alpamayo.Rpc.RecentPrioritizationFees
import Alpamayo.Rpc.SignatureStatuses
import Alpamayo.Rpc.SignaturesForAddress
import Alpamayo.Rpc.Transaction
import Alpamayo.Rpc.TransactionsForAddress
import Alpamayo.Rpc.Upstream
import Alpamayo.Source.Block
import Alpamayo.Source.Fees
import Alpamayo.Source.Stream
import Alpamayo.Source.StreamSource
import Alpamayo.Source.Transaction
import Alpamayo.Storage.Blocks
import Alpamayo.Storage.BlocksRead
import Alpamayo.Storage.Crash
import Alpamayo.Storage.Files
import Alpamayo.Storage.FilesRead
import Alpamayo.Storage.InflationReward
import Alpamayo.Storage.Memory
import Alpamayo.Storage.Processed
import Alpamayo.Storage.Read
import Alpamayo.Storage.ReadBlock
import Alpamayo.Storage.ReadLatest
import Alpamayo.Storage.ReadRequests
import Alpamayo.Storage.ReadSignatures
import Alpamayo.Storage.ReadStatuses
import Alpamayo.Storage.ReadTransaction
import Alpamayo.Storage.ReadTransactionsForAddress
import Alpamayo.Storage.RecentFees
import Alpamayo.Storage.RecordBytes
import Alpamayo.Storage.Rocksdb
import Alpamayo.Storage.RocksdbRows
import Alpamayo.Storage.SfaIndex
import Alpamayo.Storage.SlotIndex
import Alpamayo.Storage.Slots
import Alpamayo.Storage.SourceStream
import Alpamayo.Storage.Startup
import Alpamayo.Storage.Steps
import Alpamayo.Storage.Sync
import Alpamayo.Storage.TransactionIndex
import Alpamayo.Storage.Write
