import Orchestra.Distill
import Orchestra.Events
import Orchestra.Lib.Logged
import Orchestra.Nodes
import Orchestra.Compiled
import Orchestra.Lib.Machine
import Orchestra.Turns
import Orchestra.Graph
import Orchestra.Runs
import Orchestra.Soundness
import Orchestra.SchemaFit
import Orchestra.Agent
import Orchestra.Sequences
import Orchestra.Sessions
import Orchestra.Projection
import Orchestra.Pauses
import Orchestra.Forks
import Orchestra.Server
import Orchestra.Exclusion
import Orchestra.Statuses
import Orchestra.Streams
import Orchestra.Delivery
import Orchestra.RunStore
import Orchestra.RunPage
import Orchestra.Lib.Text
import Orchestra.Lib.Climb
import Orchestra.Lib.Decimal
import Orchestra.Lib.Program
import Orchestra.Ucan
import Orchestra.Acl
import Orchestra.Narrowing
import Orchestra.Budget
import Orchestra.Billing
import Orchestra.Overdraft
import Orchestra.Settlement
import Orchestra.Tiers
import Orchestra.Recall
import Orchestra.Delegation
import Orchestra.Provenance
import Orchestra.Costs
import Orchestra.Agents
import Orchestra.TreeOfThoughts
import Orchestra.SelfCheck
import Orchestra.Questions
import Orchestra.Metering
import Orchestra.Usage
import Orchestra.Accounting
import Orchestra.Grants
import Orchestra.Policies
import Orchestra.Safeguards
import Orchestra.CallLimits
import Orchestra.Wire
import Orchestra.Attenuation
import Orchestra.Merging
import Orchestra.Lib.Json
import Orchestra.Lib.Latest
import Orchestra.Coding
import Orchestra.Stores
import Orchestra.Interchange
import Orchestra.Postgres
import Orchestra.Checkpoints
import Orchestra.Subscriptions
import Orchestra.TieredTasks
import Orchestra.Demotions
import Orchestra.Subgraphs
import Orchestra.Inlining
import Orchestra.Guard
import Orchestra.Lockdown
import Orchestra.Breaker
import Orchestra.Transactions
import Orchestra.Reconciliation
import Orchestra.SingleFlight
import Orchestra.ToolLoop
import Orchestra.Mirror
import Orchestra.NodeStatuses
import Orchestra.Lib.Sharing
import Orchestra.ColdTiers
import Orchestra.Handoffs
import Orchestra.Fluent
import Orchestra.Chains
import Orchestra.PeerDid
import Orchestra.KeyRotation
import Orchestra.Walks
import Orchestra.CostReports
import Orchestra.Lib.Codes
import Orchestra.Commitments
import Orchestra.Tprm.Server
import Orchestra.Tprm.Outcomes
import Orchestra.Lib.Records
import Orchestra.Lib.Batch
import Orchestra.Lib.Fallible
import Orchestra.Visits
import Orchestra.Tprm.Schemas
import Orchestra.Tprm.State
import Orchestra.Tprm.Answers
import Orchestra.Tprm.Routing
import Orchestra.Tprm.Coverage
import Orchestra.Tprm.Verdicts
import Orchestra.Tprm.Specialists
import Orchestra.Tprm.Isolation
import Orchestra.Tprm.Reports
import Orchestra.Tprm.Stages
import Orchestra.Tprm.Graph
import Orchestra.Tprm.Wiring
import Orchestra.Tprm.Pipeline
import Orchestra.Tprm.Endings
import Orchestra.Tprm.Findings
import Orchestra.Tprm.Assignments
import Orchestra.Tprm.Memo
import Orchestra.Openings
import Orchestra.Failover
import Orchestra.Conservation
import Orchestra.Lib.Stateful
import Orchestra.Evictions
import Orchestra.ToolReplay
import Orchestra.Guardrails
import Orchestra.Retries
import Orchestra.FixedOutput
import Orchestra.PromptHash
import Orchestra.Replay
import Orchestra.Serialization
import Orchestra.RoundTrips
import Orchestra.Lib.Windows
import Orchestra.RateLimit
import Orchestra.ForkRate
import Orchestra.Lib.Best
import Orchestra.Discovery
import Orchestra.ModelRouter
import Orchestra.Distillation
import Orchestra.ToolTags
import Orchestra.Lib.Loops
import Orchestra.ThoughtSearch
import Orchestra.Lib.Descent
import Orchestra.GeminiSchema
import Orchestra.HotReload
import Orchestra.ResponseCache
import Orchestra.Lib.Means
import Orchestra.Tprm.Scores
import Orchestra.Tprm.Leniency
import Orchestra.Builder
import Orchestra.Tprm.PriceChips
import Orchestra.Tprm.RunRegistry
import Orchestra.Lib.Dates
import Orchestra.Lib.Tally
import Orchestra.CostWindows
import Orchestra.Lib.JsonReader
import Orchestra.PromptedTools
import Orchestra.Lib.Arena
import Orchestra.Tracing
import Orchestra.Pricing
import Orchestra.Lib.Paths
import Orchestra.Tprm.PacketPaths
import Orchestra.Lib.Base64
import Orchestra.Lib.Base58
import Orchestra.DidDocuments
import Orchestra.Lib.Utf16
import Orchestra.Canonical
import Orchestra.BranchLedger
import Orchestra.Lib.Chunks
import Orchestra.UseSse
import Orchestra.Tprm.Fences
import Orchestra.Lib.Locks
import Orchestra.Writers
import Orchestra.YamlEnds
import Orchestra.Recompiling
import Orchestra.DelegationContexts
import Orchestra.TaskQueue
import Orchestra.TaskRuns
import Orchestra.Lib.Edits
import Orchestra.Validation
import Orchestra.Lib.Attempts
import Orchestra.ProviderRequests
import Orchestra.Lib.Filters
import Orchestra.Middleware
import Orchestra.MemoryBackends
