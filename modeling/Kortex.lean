import Kortex.Library.Closure
import Kortex.Library.Dates
import Kortex.Library.Dict
import Kortex.Library.FileTree
import Kortex.Library.Greedy
import Kortex.Library.HashChain
import Kortex.Library.Highest
import Kortex.Library.Json
import Kortex.Library.JsonDecode
import Kortex.Library.JsonEmbedded
import Kortex.Library.JsonFrame
import Kortex.Library.JsonLayout
import Kortex.Library.JsonLimits
import Kortex.Library.JsonLines
import Kortex.Library.JsonRoundTrip
import Kortex.Library.JsonSort
import Kortex.Library.Lines
import Kortex.Library.Luhn
import Kortex.Library.Machine
import Kortex.Library.Numbered
import Kortex.Library.Occurrences
import Kortex.Library.OrderBy
import Kortex.Library.OrderStatistic
import Kortex.Library.ReadCommitted
import Kortex.Library.Regex
import Kortex.Library.RegexSplit
import Kortex.Library.RegexText
import Kortex.Library.Renaming
import Kortex.Library.Retry
import Kortex.Library.Rounds
import Kortex.Library.Run
import Kortex.Library.Shelf
import Kortex.Library.Sorted
import Kortex.Library.Split
import Kortex.Library.Strip
import Kortex.Library.Sweep
import Kortex.Library.Table
import Kortex.Library.Text
import Kortex.Library.Time
import Kortex.Library.Traverse
import Kortex.Model.AccessControl
import Kortex.Model.AccountTokens
import Kortex.Model.Accounts
import Kortex.Model.AgentLoop
import Kortex.Model.ApiKeyRequests
import Kortex.Model.AttachmentImport
import Kortex.Model.AttachmentRequests
import Kortex.Model.Attachments
import Kortex.Model.Audit
import Kortex.Model.AuditSession
import Kortex.Model.AuditStorage
import Kortex.Model.AuditedRequests
import Kortex.Model.Background
import Kortex.Model.Bedrock
import Kortex.Model.Billing
import Kortex.Model.BlobStore
import Kortex.Model.Chunker
import Kortex.Model.ConflictTask
import Kortex.Model.Consolidation
import Kortex.Model.Conversations
import Kortex.Model.DailyQuota
import Kortex.Model.Database
import Kortex.Model.Decay
import Kortex.Model.Embedding
import Kortex.Model.EmbeddingQueue
import Kortex.Model.Environment
import Kortex.Model.EvalMetrics
import Kortex.Model.Export
import Kortex.Model.GitLog
import Kortex.Model.Harnesses
import Kortex.Model.Idempotency
import Kortex.Model.IdempotencyRace
import Kortex.Model.IfMatch
import Kortex.Model.Import
import Kortex.Model.Importers
import Kortex.Model.JudgeOutput
import Kortex.Model.MemoryLinks
import Kortex.Model.MemoryRepo
import Kortex.Model.MemoryService
import Kortex.Model.MemoryTool
import Kortex.Model.PiiDetector
import Kortex.Model.Ranking
import Kortex.Model.RateLimit
import Kortex.Model.ReadPaths
import Kortex.Model.Recall
import Kortex.Model.RefreshTokens
import Kortex.Model.Retrieval
import Kortex.Model.ReviewSession
import Kortex.Model.SdkClient
import Kortex.Model.Signup
import Kortex.Model.TrustPolicy
import Kortex.Model.Types
import Kortex.Model.Voyage
import Kortex.Model.WriteSessions
import Kortex.Proof.AccountTokens
import Kortex.Proof.AgentLoop
import Kortex.Proof.Analyser
import Kortex.Proof.ApiKeyRequests
import Kortex.Proof.ApiKeys
import Kortex.Proof.Archive
import Kortex.Proof.AttachmentImport
import Kortex.Proof.AttachmentIsolation
import Kortex.Proof.AttachmentReads
import Kortex.Proof.AttachmentRuns
import Kortex.Proof.AttachmentTask
import Kortex.Proof.Audit
import Kortex.Proof.AuditExport
import Kortex.Proof.AuditInterleaving
import Kortex.Proof.AuditRetention
import Kortex.Proof.AuditSession
import Kortex.Proof.AuditStorage
import Kortex.Proof.AuditTamper
import Kortex.Proof.AuditedRequests
import Kortex.Proof.Background
import Kortex.Proof.Bedrock
import Kortex.Proof.Billing
import Kortex.Proof.BlobStore
import Kortex.Proof.BulkReview
import Kortex.Proof.ChunkCoverage
import Kortex.Proof.ChunkOverlap
import Kortex.Proof.Chunker
import Kortex.Proof.CliImport
import Kortex.Proof.ConflictCoverage
import Kortex.Proof.ConflictDirection
import Kortex.Proof.ConflictNotes
import Kortex.Proof.ConflictTask
import Kortex.Proof.Consolidation
import Kortex.Proof.ConsolidationRerun
import Kortex.Proof.Conversations
import Kortex.Proof.DailyQuota
import Kortex.Proof.Decay
import Kortex.Proof.DecayScores
import Kortex.Proof.DedupInterleaving
import Kortex.Proof.EmbedIsolation
import Kortex.Proof.EmbedRetries
import Kortex.Proof.EmbedStates
import Kortex.Proof.EmbeddingFreshness
import Kortex.Proof.EmbeddingQueue
import Kortex.Proof.EvalMetrics
import Kortex.Proof.Finalize
import Kortex.Proof.Fingerprint
import Kortex.Proof.GitLog
import Kortex.Proof.Governance
import Kortex.Proof.Harnesses
import Kortex.Proof.HeldWrites
import Kortex.Proof.Idempotency
import Kortex.Proof.IdempotencyRace
import Kortex.Proof.IfMatch
import Kortex.Proof.Import
import Kortex.Proof.ImportFile
import Kortex.Proof.ImportMemories
import Kortex.Proof.Importers
import Kortex.Proof.JudgeOutput
import Kortex.Proof.LinkExpansion
import Kortex.Proof.LuhnCheck
import Kortex.Proof.MemoryRepo
import Kortex.Proof.MemoryService
import Kortex.Proof.MemoryTool
import Kortex.Proof.Noninterference
import Kortex.Proof.Ownership
import Kortex.Proof.Packing
import Kortex.Proof.PiiCards
import Kortex.Proof.PiiDetector
import Kortex.Proof.PiiPolicy
import Kortex.Proof.PiiRedaction
import Kortex.Proof.PinnedFirst
import Kortex.Proof.QuotaInterleaving
import Kortex.Proof.Ranking
import Kortex.Proof.RankingFront
import Kortex.Proof.RateLimit
import Kortex.Proof.ReadPaths
import Kortex.Proof.Recall
import Kortex.Proof.RefreshTokens
import Kortex.Proof.Resend
import Kortex.Proof.ResentEdits
import Kortex.Proof.Retrieval
import Kortex.Proof.RetryAfter
import Kortex.Proof.ReviewSession
import Kortex.Proof.RowHistory
import Kortex.Proof.SdkRetries
import Kortex.Proof.StepOrder
import Kortex.Proof.Summaries
import Kortex.Proof.TenantReads
import Kortex.Proof.TokenBudget
import Kortex.Proof.ToolEdits
import Kortex.Proof.ToolErrors
import Kortex.Proof.ToolFiles
import Kortex.Proof.ToolHeld
import Kortex.Proof.ToolLines
import Kortex.Proof.ToolMap
import Kortex.Proof.ToolPaths
import Kortex.Proof.ToolPlans
import Kortex.Proof.Voyage
import Kortex.Proof.WriteGuard
import Kortex.Proof.WriteSessions
