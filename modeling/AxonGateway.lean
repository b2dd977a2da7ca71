import AxonGateway.Lib.Interleaving
import AxonGateway.Lib.ConditionalStore
import AxonGateway.Lib.PyText
import AxonGateway.Lib.Binary64
import AxonGateway.Lib.Effects
import AxonGateway.Lib.TimeWindow
import AxonGateway.Lib.Netstring
import AxonGateway.Lib.Schedule
import AxonGateway.Lib.HashChain
import AxonGateway.Policy.Model
import AxonGateway.Policy.Restriction
import AxonGateway.Policy.Ancestry
import AxonGateway.Policy.Writes
import AxonGateway.Budget.Scope
import AxonGateway.Quota.LocalBudget
import AxonGateway.Quota.LocalLedger
import AxonGateway.Budget.Table
import AxonGateway.Budget.Operations
import AxonGateway.Budget.Arguments
import AxonGateway.Budget.Ledger
import AxonGateway.Budget.Protocol
import AxonGateway.Budget.Conservation
import AxonGateway.Budget.Idempotency
import AxonGateway.Budget.Alerts
import AxonGateway.Routing.Model
import AxonGateway.Routing.Router
import AxonGateway.Routing.StreamOrder
import AxonGateway.Routing.Smart
import AxonGateway.Routing.Agent
import AxonGateway.Routing.Answers
import AxonGateway.Routing.Access
import AxonGateway.Routing.Models
import AxonGateway.Routing.Confinement
import AxonGateway.RateLimit.SlidingWindow
import AxonGateway.RateLimit.Admission
import AxonGateway.Spend.Slot
import AxonGateway.Spend.Gate
import AxonGateway.Spend.GateHonesty
import AxonGateway.Spend.Instance
import AxonGateway.Spend.EpochIsolation
import AxonGateway.Audit.Record
import AxonGateway.Audit.Trail
import AxonGateway.Audit.Chain
import AxonGateway.Lib.UpdateItem
import AxonGateway.Export.Job
import AxonGateway.Export.Fencing
import AxonGateway.Export.Worker
import AxonGateway.Export.Integrity
import AxonGateway.Policy.Resolver
import AxonGateway.Policy.Snapshots
import AxonGateway.Export.Delivery
import AxonGateway.Lib.Dict
import AxonGateway.Providers.Routes
import AxonGateway.Providers.Accounting
import AxonGateway.Config.Sync
import AxonGateway.Config.Convergence
import AxonGateway.Lib.TextScan
import AxonGateway.Cedar.Syntax
import AxonGateway.Cedar.Parser
import AxonGateway.Cedar.Soundness
import AxonGateway.Cedar.Service
import AxonGateway.Cedar.Freshness
import AxonGateway.Keys.Service
import AxonGateway.Keys.Revocation
import AxonGateway.Keys.Finality
import AxonGateway.Lib.Pattern
import AxonGateway.Semantic.Literals
import AxonGateway.Semantic.Similarity
import AxonGateway.Semantic.Cache
import AxonGateway.Semantic.Legitimacy
import AxonGateway.Lib.Generator
import AxonGateway.Settlement.Agent
import AxonGateway.Settlement.Exits
import AxonGateway.Lib.JsonText
import AxonGateway.RateLimit.SharedWindow
import AxonGateway.RateLimit.FleetAdmission
import AxonGateway.Config.ModelSync
import AxonGateway.Config.NoRollback
import AxonGateway.Auth.Jwks
import AxonGateway.Auth.KeyFreshness
import AxonGateway.Routing.Replacement
import AxonGateway.Routing.WholeRegistry
import AxonGateway.Auth.BrowserSession
import AxonGateway.Auth.SessionFencing
import AxonGateway.Auth.SessionLifecycle
import AxonGateway.Lib.PyValue
import AxonGateway.Lib.PyLower
import AxonGateway.Lib.Occurrence
import AxonGateway.Screening.Messages
import AxonGateway.Screening.Guardrail
import AxonGateway.Screening.Injection
import AxonGateway.Screening.Redactor
import AxonGateway.Screening.Carrier
import AxonGateway.Screening.Chunks
import AxonGateway.Screening.Output
import AxonGateway.Screening.Coverage
import AxonGateway.Rehearsal.Vocabulary
import AxonGateway.Rehearsal.Record
import AxonGateway.Rehearsal.Ledger
import AxonGateway.Rehearsal.History
import AxonGateway.Rehearsal.Fencing
import AxonGateway.Lib.WeightedChoice
import AxonGateway.Region.Router
import AxonGateway.Region.Monitor
import AxonGateway.RateLimit.RetryAfter
import AxonGateway.Screening.Spans
import AxonGateway.Screening.Rebuilt
import AxonGateway.Routing.RoundRobin
import AxonGateway.Routing.Fallback
import AxonGateway.Lib.Replace
import AxonGateway.Lib.Bracketed
import AxonGateway.Screening.Reinject
import AxonGateway.Screening.RoundTrip
import AxonGateway.Lib.Base64
import AxonGateway.Lib.JsonRead
import AxonGateway.Query.Reconciliation
import AxonGateway.Query.Cursor
import AxonGateway.Query.Paging
import AxonGateway.Query.Iteration
import AxonGateway.Lib.JsonDumps
import AxonGateway.Cedar.Decision
import AxonGateway.Routing.Ensemble
import AxonGateway.Providers.Availability
import AxonGateway.Providers.Cooldown
import AxonGateway.Providers.Execution
import AxonGateway.Providers.LeaseSettlement
import AxonGateway.Adapters.Merging
import AxonGateway.Adapters.Responses
import AxonGateway.Adapters.ResponsesAgreement
import AxonGateway.Adapters.GeminiTools
import AxonGateway.Adapters.SystemInstruction
import AxonGateway.Lib.FifoLock
import AxonGateway.Locks.StripedLock
import AxonGateway.Adapters.CohereTools
import AxonGateway.Adapters.CoherePairing
import AxonGateway.Lib.LineFraming
import AxonGateway.Lib.Utf8
import AxonGateway.Providers.StreamFraming
import AxonGateway.Providers.HttpStreaming
import AxonGateway.Athena.Results
import AxonGateway.Lib.Outcome
import AxonGateway.Athena.ResultPaging
import AxonGateway.Athena.Execution
import AxonGateway.Athena.Orphans
import AxonGateway.Lib.Scalarization
import AxonGateway.Routing.SmartSelection
import AxonGateway.Lib.PyJson
import AxonGateway.Requests.Validator
import AxonGateway.Requests.WellFormed
import AxonGateway.Requests.Shape
import AxonGateway.Requests.Validation
import AxonGateway.Routing.CostEstimate
import AxonGateway.Routing.BudgetedRoute
import AxonGateway.Lib.JsonEnds
import AxonGateway.Adapters.GeminiRoundTrip
import AxonGateway.Adapters.IndexedCalls
import AxonGateway.Adapters.GeminiReplies
import AxonGateway.Adapters.GeminiAgreement
import AxonGateway.Lib.JsonSorted
import AxonGateway.Registry.Numbers
import AxonGateway.Registry.Model
import AxonGateway.Registry.Validity
import AxonGateway.Registry.Entries
import AxonGateway.Registry.Export
import AxonGateway.Registry.Order
import AxonGateway.Registry.Adoption
import AxonGateway.Registry.Loading
import AxonGateway.Registry.Edits
import AxonGateway.Registry.Fleet
import AxonGateway.Registry.Agreement
import AxonGateway.Lib.JsonHook
import AxonGateway.Lib.GroupedQueue
import AxonGateway.Events.Envelope
import AxonGateway.Events.Parts
import AxonGateway.Events.RoundTrip
import AxonGateway.Events.Outbox
import AxonGateway.Events.Delivery
