import NextDb.Actor.Resident
import NextDb.Actor.Split
import NextDb.Api.Crash
import NextDb.Wal.Integrity
import NextDb.Wal.Readers
import NextDb.Api.SchemaProposals
import NextDb.Api.TopologyOwners
import NextDb.Api.TopologyFailed
import NextDb.Api.TopologyOverrides
import NextDb.Api.Failover
import NextDb.Api.Repair
import NextDb.Api.CacheControl
import NextDb.Api.BackupRuns
import NextDb.Api.ObjectGc
import NextDb.Api.CursorReads
import NextDb.Api.HostHttpRuns
import NextDb.Api.NextLsn
import NextDb.Api.Drain
import NextDb.Api.BehaviorRetry
import NextDb.Api.BehaviorContext
import NextDb.Api.BehaviorReload
import NextDb.Api.Routes
import NextDb.Api.Connections
import NextDb.Api.WaitForLsn
import NextDb.Api.ExpectedLsn
import NextDb.Api.UniqueWrites
import NextDb.Api.FanoutDeliveries
import NextDb.Api.SyncPull
import NextDb.Api.ReminderWheel
import NextDb.Api.Aggregates
import NextDb.Records.HotStale
import NextDb.Api.RecordAddresses
import NextDb.Api.KeyOverlay
import NextDb.Api.QueryCopies
