import LlmGateway.Lib.AssocMap
import LlmGateway.Lib.Outcome
import LlmGateway.Lib.MarkingWalk
import LlmGateway.Lib.InverseIndex
import LlmGateway.Lib.IndexedList
import LlmGateway.Lib.LruMap
import LlmGateway.Lib.GuardedPath
import LlmGateway.Lib.Numerals
import LlmGateway.Lib.PendingTable
import LlmGateway.Lib.SmoothRoundRobin
import LlmGateway.Lib.EvenSpread
import LlmGateway.Lib.TokenBucket
import LlmGateway.Lib.Threads
import LlmGateway.Lib.ThreadEffects
import LlmGateway.Lib.LineBuffer
import LlmGateway.Lib.LongestSuffix
import LlmGateway.Lib.Utf8
import LlmGateway.Lib.Ring
import LlmGateway.Lib.Template
import LlmGateway.Lib.LuaPattern
import LlmGateway.Lib.LuaMatch
import LlmGateway.Lib.DependencyOrder
import LlmGateway.Base
import LlmGateway.Json
import LlmGateway.CacheEntry
import LlmGateway.L2PersistentCache
import LlmGateway.L2Cascade
import LlmGateway.CascadeMarks
import LlmGateway.ConfidenceDecay
import LlmGateway.L2Index
import LlmGateway.L2Lookup
import LlmGateway.L2Purge
import LlmGateway.L2Files
import LlmGateway.L2Restart
import LlmGateway.L2Invalidation
import LlmGateway.L1CacheStore
import LlmGateway.L1Refinement
import LlmGateway.L1Eviction
import LlmGateway.L3ArchiveStore
import LlmGateway.ArchiveRefs
import LlmGateway.SessionBuffer
import LlmGateway.SessionHistory
import LlmGateway.SessionContext
import LlmGateway.CacheCoordinator
import LlmGateway.CoordinatorRuns
import LlmGateway.QueryHits
import LlmGateway.ReadYourWrites
import LlmGateway.StaleAnswers
import LlmGateway.CacheThreads
import LlmGateway.AgentRegistry
import LlmGateway.LiveCapabilities
import LlmGateway.WsChatController
import LlmGateway.ArchiveConfinement
import LlmGateway.CacheStore
import LlmGateway.GatewayCache
import LlmGateway.CachedReply
import LlmGateway.Utf8Json
import LlmGateway.Utf8Caches
import LlmGateway.Utf8Summaries
import LlmGateway.SSEParser
import LlmGateway.ProcessLine
import LlmGateway.LineCallbacks
import LlmGateway.RemoteUpstream
import LlmGateway.Transfers
import LlmGateway.SubmittedRequests
import LlmGateway.RequestMetrics
import LlmGateway.ToolCallStream
import LlmGateway.Gateway
import LlmGateway.PendingCalls
import LlmGateway.GatewaySteps
import LlmGateway.CallAnswers
import LlmGateway.AnswerDelivery
import LlmGateway.CallForwarding
import LlmGateway.AbandonedCalls
import LlmGateway.ClosedSessions
import LlmGateway.AgentLoad
import LlmGateway.ToolList
import LlmGateway.ToolSchemas
import LlmGateway.ShorthandParameters
import LlmGateway.ExecutorRegistration
import LlmGateway.ExecutorRotation
import LlmGateway.CallThreads
import LlmGateway.LoadBalancer
import LlmGateway.RoundRobin
import LlmGateway.NodeNames
import LlmGateway.Router
import LlmGateway.AuthManager
import LlmGateway.TokenAdmission
import LlmGateway.PluginManager
import LlmGateway.PluginReload
import LlmGateway.FailedReload
import LlmGateway.PluginWatcher
import LlmGateway.LuaSandbox
import LlmGateway.LuaVMPool
import LlmGateway.OrchestratorDag
import LlmGateway.StageInput
import LlmGateway.StageOrder
import LlmGateway.StageProgress
import LlmGateway.StageRounds
import LlmGateway.StageResults
import LlmGateway.WorkflowRequest
import LlmGateway.Logger
import LlmGateway.ChatEntries
import LlmGateway.ChatCancel
import LlmGateway.TokenPipeline
import LlmGateway.EventStream
import LlmGateway.GatewayChain
import LlmGateway.ChatDelivery
import LlmGateway.Startup
import LlmGateway.MissingConfig
import LlmGateway.CallbackLatencies
import LlmGateway.ContentModeration
import LlmGateway.ShippedPlugins
