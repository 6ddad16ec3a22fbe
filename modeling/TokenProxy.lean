import TokenProxy.Execution
import TokenProxy.Dict
import TokenProxy.Resilience
import TokenProxy.BreakerTiming
import TokenProxy.ResilientCall
import TokenProxy.ResilientCallFailOpen
import TokenProxy.ResilientCallGate
import TokenProxy.ResilienceScoping
import TokenProxy.PyJson
import TokenProxy.ToolPolicy
import TokenProxy.ToolEligibility
import TokenProxy.StreamToolGate
import TokenProxy.KeyStore
import TokenProxy.KeyStoreMutation
import TokenProxy.KeyStoreRestriction
import TokenProxy.BatchPoller
import TokenProxy.BatchBilling
import TokenProxy.TextReplace
import TokenProxy.PiiMasking
import TokenProxy.PiiSlots
import TokenProxy.PiiInvertible
import TokenProxy.PgKeyStore
import TokenProxy.PgKeyStoreRevocation
import TokenProxy.CacheRefresher
import TokenProxy.BatchAcknowledged
import TokenProxy.AnthropicStream
import TokenProxy.GeminiStream
import TokenProxy.StreamedAsWhole
import TokenProxy.TenantContext
import TokenProxy.TenantIsolation
import TokenProxy.TenantBuckets
import TokenProxy.ContextBudget
import TokenProxy.RateLimit
import TokenProxy.Raising
import TokenProxy.TokenCounter
import TokenProxy.CallBook
import TokenProxy.CallPricing
import TokenProxy.ProviderCalls
import TokenProxy.TierCascade
import TokenProxy.CostLedger
import TokenProxy.ConfigFailSafe
import TokenProxy.OperatorPrecedence
import TokenProxy.TrialGate
import TokenProxy.AnthropicReplay
import TokenProxy.CalendarMonth
import TokenProxy.CcrReferences
import TokenProxy.GeminiToolAnswers
import TokenProxy.UsageCounters
import TokenProxy.CacheAgreement
import TokenProxy.CascadeSpend
import TokenProxy.ConfigReload
import TokenProxy.OutgoingParams
import TokenProxy.PolicyHistory
import TokenProxy.RoutingRules
import TokenProxy.RulesFailSafe
import TokenProxy.SessionMemory
import TokenProxy.AgentDispatch
import TokenProxy.ProseEnvelope
import TokenProxy.JsonCompaction
import TokenProxy.GatedFragments
import TokenProxy.GatedStream
import TokenProxy.CacheFloor
import TokenProxy.CacheSeparation
import TokenProxy.JsonReader
import TokenProxy.MaskedArguments
import TokenProxy.CcrTenants
import TokenProxy.IngressParams
import TokenProxy.PiiOverlaps
import TokenProxy.ReplaceFirst
import TokenProxy.StickyFloor
import TokenProxy.SummaryCoverage
import TokenProxy.ToolPruning
import TokenProxy.ToonTable
import TokenProxy.ToonText
import TokenProxy.SecretPatterns
import TokenProxy.SecretRedaction
import TokenProxy.BudgetDisclosure
import TokenProxy.AnthropicThinking
import TokenProxy.BatchResults
import TokenProxy.CacheCost
import TokenProxy.CodeFences
import TokenProxy.CompactionSize
import TokenProxy.LogCompaction
import TokenProxy.PriceLookup
import TokenProxy.Rotation
import TokenProxy.RoundRobin
import TokenProxy.StarvationGuard
import TokenProxy.CacheOrder
import TokenProxy.HeldDeltas
import TokenProxy.PatternCheck
import TokenProxy.PromptCompaction
import TokenProxy.StrippedContext
import TokenProxy.TurnDedup
import TokenProxy.OutputHistory
import TokenProxy.ProseCompress
import TokenProxy.ProseDeletion
import TokenProxy.ProseIdempotence
import TokenProxy.BypassCurrency
import TokenProxy.ClientIp
import TokenProxy.ExpiringKeys
import TokenProxy.FloatOrder
import TokenProxy.InjectionCoverage
import TokenProxy.LifecycleEntries
import TokenProxy.LoopControl
import TokenProxy.OverrideCache
import TokenProxy.RetrievalCollection
import TokenProxy.KeyCache
import TokenProxy.KeyCacheFreshness
import TokenProxy.KeyCachePacing
import TokenProxy.AddressText
import TokenProxy.Authentication
import TokenProxy.CallerIdentity
import TokenProxy.Pipeline
import TokenProxy.Bisection
import TokenProxy.DocumentChunks
import TokenProxy.OneShotStream
import TokenProxy.ToolMarks
import TokenProxy.ToolMarksSpacing
import TokenProxy.ReasoningCeiling
import TokenProxy.Base64
import TokenProxy.BoundedCache
import TokenProxy.EmbeddingCache
