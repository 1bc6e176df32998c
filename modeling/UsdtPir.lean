import UsdtPir.Interaction
import UsdtPir.ChangeJournal
import UsdtPir.FeedFollower
import UsdtPir.Records
import UsdtPir.BalanceMap
import UsdtPir.TouchedAddresses
import UsdtPir.TouchStamps
import UsdtPir.SyncProcess
import UsdtPir.BalanceReads
import UsdtPir.ApplyRange
import UsdtPir.SyncRun
import UsdtPir.FollowLoop
import UsdtPir.PassOutcomes
import UsdtPir.ChangeSet
import UsdtPir.FollowReports
import UsdtPir.PirView
import UsdtPir.CanonicalChain
import UsdtPir.GrowingChain
import UsdtPir.FaithfulProvider
import UsdtPir.ChainBalances
import UsdtPir.PassInvariants
import UsdtPir.ReorgWatch
import UsdtPir.ReorgRepair
import UsdtPir.InterruptedPass
import UsdtPir.CatchUp
import UsdtPir.RestartedRepair
import UsdtPir.FalseAlarms
import UsdtPir.Observation
import UsdtPir.SyncCommand
import UsdtPir.AskedQuestions
import UsdtPir.DurableSync
import UsdtPir.ScannedBlocks
import UsdtPir.CommandHistory
import UsdtPir.Machine
import UsdtPir.QueryBatches
import UsdtPir.BatchInvariants
import UsdtPir.BatchIndependence
import UsdtPir.ServedOnce
import UsdtPir.LittleEndian
import UsdtPir.SnapshotFormat
import UsdtPir.SnapshotIntegrity
import UsdtPir.ReachableMaps
import UsdtPir.RangeCuts
import UsdtPir.BoundedRetries
import UsdtPir.WatchWindow
import UsdtPir.Freshness
import UsdtPir.SampledFeed
import UsdtPir.ChunkedSync
import UsdtPir.Replay
import UsdtPir.MarkedFeed
import UsdtPir.StampFold
import UsdtPir.Paths
import UsdtPir.Interruption
import UsdtPir.Storage
import UsdtPir.AtomicWrite
import UsdtPir.SnapshotSave
import UsdtPir.SharedDisk
import UsdtPir.WriterPaths
import UsdtPir.EthPir
import UsdtPir.TablePir
import UsdtPir.PirThread
import UsdtPir.TableRuns
import UsdtPir.HolderMap
import UsdtPir.ThreadInvariants
import UsdtPir.ExposedDirectory
import UsdtPir.PublishedDirectory
import UsdtPir.KeywordPair
import UsdtPir.PirClient
import UsdtPir.ClientSession
import UsdtPir.DirectoryVersions
import UsdtPir.FailedChunks
import UsdtPir.ResultCaps
import UsdtPir.MulticallReads
import UsdtPir.NamedAddresses
import UsdtPir.RangeTallies
import UsdtPir.StatsBalance
import UsdtPir.ChunkOrder
import UsdtPir.KeywordFormat
import UsdtPir.KeywordSave
import UsdtPir.Agreement
import UsdtPir.CheckedSync
import UsdtPir.BlockArithmetic
import UsdtPir.OverflowReached
import UsdtPir.CanonicalStamps
import UsdtPir.RecordCodec
import UsdtPir.AddressForms
import UsdtPir.ReportedBlocks
import UsdtPir.RateLimiter
import UsdtPir.ClientAllowance
import UsdtPir.OvertakingChecks
import UsdtPir.RateBounds
import UsdtPir.AdvertisedWait
import UsdtPir.ZeroWindow
import UsdtPir.PendingQueries
import UsdtPir.SessionDirectories
import UsdtPir.CompactionTrigger
import UsdtPir.ClientShare
import UsdtPir.PromptReplies
import UsdtPir.RetryAfter
import UsdtPir.SnapshotLock
import UsdtPir.StaticFiles
import UsdtPir.PortalReports
import UsdtPir.UpdatePipeline
import UsdtPir.ReportText
import UsdtPir.DirectoryEndpoint
import UsdtPir.Deployment
import UsdtPir.SettledLookups
import UsdtPir.PostedQueries
import UsdtPir.HiddenAddresses
