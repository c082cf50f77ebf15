import ReviewAgent.Agents.BaseAgent
import ReviewAgent.Agents.ContextBudget
import ReviewAgent.Agents.Contracts
import ReviewAgent.Agents.DumpedFindings
import ReviewAgent.Agents.FindingOrder
import ReviewAgent.Agents.Payloads
import ReviewAgent.Agents.ResponseParsing
import ReviewAgent.Agents.RetrievalQuery
import ReviewAgent.Agents.SurroundingProse
import ReviewAgent.Agents.Truncation
import ReviewAgent.BestPerKey
import ReviewAgent.Binary64
import ReviewAgent.Cli.LocalRuns
import ReviewAgent.Cli.ReviewLocal
import ReviewAgent.Database.AgentEvents
import ReviewAgent.Database.EventRepository
import ReviewAgent.Database.Metrics
import ReviewAgent.Database.MetricsAccount
import ReviewAgent.Database.MetricsAgree
import ReviewAgent.Database.MetricsSnapshot
import ReviewAgent.Database.PendingRows
import ReviewAgent.Database.ReviewRows
import ReviewAgent.Database.ReviewStore
import ReviewAgent.Economics.Budget
import ReviewAgent.Economics.DailyCap
import ReviewAgent.Economics.Ledger
import ReviewAgent.Economics.Overshoot
import ReviewAgent.Economics.SpendRuns
import ReviewAgent.Effects.Histories
import ReviewAgent.Effects.LeftOut
import ReviewAgent.Effects.Machine
import ReviewAgent.Effects.Program
import ReviewAgent.Effects.Protocols
import ReviewAgent.Effects.Restarts
import ReviewAgent.Effects.Script
import ReviewAgent.Effects.Spawn
import ReviewAgent.Effects.Steps
import ReviewAgent.Effects.Stretches
import ReviewAgent.Effects.Sum
import ReviewAgent.Effects.Triple
import ReviewAgent.Effects.Writes
import ReviewAgent.Evaluation.FencedAnswers
import ReviewAgent.Evaluation.GateRuns
import ReviewAgent.Evaluation.GoldenDataset
import ReviewAgent.Evaluation.Judge
import ReviewAgent.Evaluation.JudgePrompt
import ReviewAgent.Evaluation.JudgeScores
import ReviewAgent.Evaluation.RegressionGate
import ReviewAgent.Floating
import ReviewAgent.GreedyFit
import ReviewAgent.Hitl.PendingReviews
import ReviewAgent.Hitl.Queue
import ReviewAgent.InsertionDict
import ReviewAgent.Integrations.Accounting
import ReviewAgent.Integrations.CircuitOpens
import ReviewAgent.Integrations.Credentials
import ReviewAgent.Integrations.DiffHistory
import ReviewAgent.Integrations.DiffLines
import ReviewAgent.Integrations.DiffMapping
import ReviewAgent.Integrations.GitHubApi
import ReviewAgent.Integrations.GitHubAuth
import ReviewAgent.Integrations.GitHubClient
import ReviewAgent.Integrations.GitHubModels
import ReviewAgent.Integrations.GitHubRules
import ReviewAgent.Integrations.MarkerCheck
import ReviewAgent.Integrations.MarkerQuotes
import ReviewAgent.Integrations.MovingHeads
import ReviewAgent.Integrations.PostedOnce
import ReviewAgent.Integrations.Refusals
import ReviewAgent.Integrations.RevokedTokens
import ReviewAgent.Integrations.TokenCache
import ReviewAgent.Integrations.TransientAnswers
import ReviewAgent.Integrations.TurnedAway
import ReviewAgent.Integrations.WholeFileList
import ReviewAgent.Interpreter
import ReviewAgent.JobQueue.Acknowledged
import ReviewAgent.JobQueue.ArqWorker
import ReviewAgent.JobQueue.AtMostOnce
import ReviewAgent.JobQueue.BuiltReviews
import ReviewAgent.JobQueue.FailureAtomic
import ReviewAgent.JobQueue.InMemory
import ReviewAgent.JobQueue.Payload
import ReviewAgent.JobQueue.PostedRows
import ReviewAgent.JobQueue.PostedRuns
import ReviewAgent.JobQueue.QueueCalls
import ReviewAgent.JobQueue.RedisArq
import ReviewAgent.JobQueue.Refinement
import ReviewAgent.JobQueue.Reruns
import ReviewAgent.Json.Bytes
import ReviewAgent.Json.Decoder
import ReviewAgent.Json.Encoder
import ReviewAgent.Json.Extend
import ReviewAgent.Json.Local
import ReviewAgent.Json.Reads
import ReviewAgent.JsonFields
import ReviewAgent.KeywordSearch
import ReviewAgent.Memory.CodeChunks
import ReviewAgent.Memory.ContextRetriever
import ReviewAgent.Models.FindingJson
import ReviewAgent.Models.Findings
import ReviewAgent.Models.Review
import ReviewAgent.Models.Webhook
import ReviewAgent.Observability.Events
import ReviewAgent.Observability.LastDecisions
import ReviewAgent.Observability.ProbeRuns
import ReviewAgent.Observability.TraceRuns
import ReviewAgent.Observability.Traces
import ReviewAgent.Observability.TracingGuard
import ReviewAgent.Orchestrator.Analysis
import ReviewAgent.Orchestrator.BranchOrders
import ReviewAgent.Orchestrator.Checkpoints
import ReviewAgent.Orchestrator.Engine
import ReviewAgent.Orchestrator.ForcedReview
import ReviewAgent.Orchestrator.LostFallbacks
import ReviewAgent.Orchestrator.Nodes
import ReviewAgent.Orchestrator.Operations
import ReviewAgent.Orchestrator.Outages
import ReviewAgent.Orchestrator.Responses
import ReviewAgent.Orchestrator.Resumed
import ReviewAgent.Orchestrator.ResumedRuns
import ReviewAgent.Orchestrator.Resumption
import ReviewAgent.Orchestrator.ReviewWrites
import ReviewAgent.Orchestrator.Routing
import ReviewAgent.Orchestrator.State
import ReviewAgent.Paging
import ReviewAgent.PlacedText
import ReviewAgent.Python
import ReviewAgent.Redaction
import ReviewAgent.Regroup
import ReviewAgent.Reliability.Backoff
import ReviewAgent.Reliability.BreakerEdges
import ReviewAgent.Reliability.BreakerRuns
import ReviewAgent.Reliability.BreakerStates
import ReviewAgent.Reliability.CircuitBreaker
import ReviewAgent.Reliability.DeadDependency
import ReviewAgent.Reliability.Guarded
import ReviewAgent.Reliability.GuardedHistories
import ReviewAgent.Reliability.LateFailures
import ReviewAgent.Reliability.LostProbes
import ReviewAgent.Reliability.Probes
import ReviewAgent.Reliability.Retry
import ReviewAgent.Reliability.RetryStream
import ReviewAgent.Reliability.Scripted
import ReviewAgent.Reliability.SharedExecutor
import ReviewAgent.Reliability.Timeout
import ReviewAgent.Reliability.ToldBreakers
import ReviewAgent.Rounding
import ReviewAgent.Scripts.DroppedText
import ReviewAgent.Scripts.GroundedPrompts
import ReviewAgent.Scripts.SeedCodeChunks
import ReviewAgent.Scripts.SeedMain
import ReviewAgent.Scripts.SeedRuns
import ReviewAgent.ServerQueue
import ReviewAgent.Substrings
import ReviewAgent.System.Processes
import ReviewAgent.System.Provenance
import ReviewAgent.System.Subjects
import ReviewAgent.Text
import ReviewAgent.Tools.LlmClient
import ReviewAgent.WebhookReceiver.Documented
import ReviewAgent.WebhookReceiver.Independent
import ReviewAgent.WebhookReceiver.Parser
import ReviewAgent.WebhookReceiver.Router
import ReviewAgent.WebhookReceiver.Validator
import ReviewAgent.WebhookReceiver.VerifiedFirst
