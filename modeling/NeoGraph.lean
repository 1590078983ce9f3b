import NeoGraph.PlanOrder
import NeoGraph.JoinSafety
import NeoGraph.Budget.SettlementOrder
import NeoGraph.Sse.ChunkIndependence
import NeoGraph.TextSafety.Sanitize
import NeoGraph.CanonicalJson.SizeAccounting
import NeoGraph.CanonicalJson.SemanticVersion
import NeoGraph.Engine.StallReport
import NeoGraph.Checkpoint.Snapshot
import NeoGraph.Checkpoint.ProviderHistory
import NeoGraph.Checkpoint.Encoding
import NeoGraph.Program.Monetary
import NeoGraph.Program.RelationSets
import NeoGraph.Context.ExtendsPrefix
import NeoGraph.Context.StoresAgree
import NeoGraph.Program.KeyedOperationLock
import NeoGraph.Hook.JournalEquivalence
import NeoGraph.Host.AdmissionSafety
import NeoGraph.Program.PendingEffects
import NeoGraph.Program.MigrationContinuation
import NeoGraph.Program.MigrationStorage
import NeoGraph.A2A.RoundTrip
import NeoGraph.Host.LoopSafety
import NeoGraph.Provider.Conservation
import NeoGraph.Research.Coordination
import NeoGraph.Tenant.Isolation
import NeoGraph.Tool.EffectSafety
import NeoGraph.Tool.LeaseSafety
import NeoGraph.Validator.ReachabilityExact
import NeoGraph.Executor.ContinuedAttempt
import NeoGraph.Executor.ResumeSelection
import NeoGraph.Engine.GatesAskedOnce
import NeoGraph.Engine.VisitLimits
import NeoGraph.Sha256.X86
import NeoGraph.Hook.OpenOutcome
import NeoGraph.TaskGraph.Confluence
import NeoGraph.Provider.UsageReports
import NeoGraph.Program.PendingSatisfies
import NeoGraph.Program.MetadataReview
import NeoGraph.Program.CommandJournal
import NeoGraph.Tool.CallIsolation
import NeoGraph.Provider.ObserverQueue
import NeoGraph.Async.Redirects
import NeoGraph.Async.UpgradeRequest
import NeoGraph.Engine.NodeCache
import NeoGraph.Program.ViolationOrder
import NeoGraph.Program.ContractPublication
import NeoGraph.Server.ElasticTaskQueue
import NeoGraph.Provider.WakeSignal
import NeoGraph.Engine.CancelToken
