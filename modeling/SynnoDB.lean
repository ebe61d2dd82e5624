import SynnoDB.Lib.Digits
import SynnoDB.Lib.MapM
import SynnoDB.Lib.Utf8
import SynnoDB.Lib.Json
import SynnoDB.Hotpatch.TraceFrames
import SynnoDB.Lib.Hex
import SynnoDB.Lib.Trace
import SynnoDB.Lib.IStream
import SynnoDB.Conversations.RevertStage
import SynnoDB.Cpp.Incremental
import SynnoDB.Tools.RunTool
import SynnoDB.Tools.Snapshotter
import SynnoDB.Tools.EditCache
import SynnoDB.Tools.ReplaceInFile
import SynnoDB.Tools.CachedEditing
import SynnoDB.Tools.DiffRepair
import SynnoDB.Tools.DiffWrappers
import SynnoDB.Tools.IngestTime
import SynnoDB.Workload.QueryCache
import SynnoDB.Workload.HoistQuotes
import SynnoDB.Tools.Publish
import SynnoDB.Tools.Freshness
import SynnoDB.Tools.CacheKeys
import SynnoDB.Tools.CurrentData
import SynnoDB.Hotpatch.RunCalls
import SynnoDB.Hotpatch.RunEnv
import SynnoDB.Hotpatch.BuildId
import SynnoDB.Router.TopQuery
import SynnoDB.Template.ThreadPoolWakeups
import SynnoDB.Template.ParallelReduce
import SynnoDB.Template.ReduceReturns
import SynnoDB.Workload.NamedPublish
import SynnoDB.Workload.PublishGate
import SynnoDB.PgRouter.Marks
import SynnoDB.PgRouter.Sessions
import SynnoDB.PgRouter.Transactions
import SynnoDB.PgRouter.Pipeline
import SynnoDB.Hotpatch.DoneToken
import SynnoDB.Hotpatch.Reload
import SynnoDB.Ssd.Clock
import SynnoDB.Ssd.StringColumn
import SynnoDB.Ssd.IntegerColumn
import SynnoDB.Workload.ArgsRoundTrip
import SynnoDB.Workload.Resync
import SynnoDB.Router.RegistryRuns
import SynnoDB.Router.HotLoad
import SynnoDB.Router.WriteGate
import SynnoDB.Router.ResultFiles
import SynnoDB.Compat.Handles
import SynnoDB.Compat.EngineLife
import SynnoDB.Compat.Registration
import SynnoDB.Compat.SchemaFingerprint
import SynnoDB.Compat.ScanFailures
import SynnoDB.Compat.BlockedWrites
import SynnoDB.Compat.InStep
import SynnoDB.Router.FailClosed
import SynnoDB.Router.FloatGroups
import SynnoDB.Router.InlineBind
import SynnoDB.Router.PositionalBind
import SynnoDB.Workload.ExtraEdge
import SynnoDB.Workload.JoinInference
import SynnoDB.Router.SplitLiteral
import SynnoDB.Router.ScratchWorkspace
import SynnoDB.Workload.EmbeddedParameters
import SynnoDB.Workload.AnonymousPlaceholders
import SynnoDB.Workload.ParamSpace
import SynnoDB.Workload.PyNumbers
import SynnoDB.PgRouter.Struct
import SynnoDB.PgRouter.NumericText
import SynnoDB.PgRouter.HandlerRows
import SynnoDB.Conversations.CorrectnessLoops
import SynnoDB.Cpp.DecimalColumn
import SynnoDB.Llm.Compaction
import SynnoDB.Router.Divergence
import SynnoDB.Lib.Term
import SynnoDB.PgRouter.QueryValues
import SynnoDB.PgRouter.Relay
