import LegalBot.Lib.System
import LegalBot.Lib.Table
import LegalBot.Json
import LegalBot.Db.Types
import LegalBot.Db.Models
import LegalBot.Jobs.Service
import LegalBot.Interrupts.Resolution
import LegalBot.Services.Session
import LegalBot.Interrupts.Service
import LegalBot.Db.Transaction
import LegalBot.Ingestion.Items
import LegalBot.Workers.Runs
import LegalBot.Services.Starters
import LegalBot.Orchestrator.Tx
import LegalBot.Orchestrator.Commits
import LegalBot.Orchestrator.Tasks
import LegalBot.Orchestrator.System
import LegalBot.Proofs.RunExclusion
import LegalBot.Proofs.JobLifecycle
import LegalBot.Orchestrator.Points
import LegalBot.Orchestrator.Invariants
import LegalBot.Proofs.Episodes
import LegalBot.Proofs.ResumeOnce
import LegalBot.Proofs.GraphOutcome
import LegalBot.Lib.Drafts
import LegalBot.Artifacts.Keys
import LegalBot.Artifacts.Service
import LegalBot.Artifacts.Transactions
import LegalBot.Proofs.ArtifactVersions
import LegalBot.Proofs.StoredContent
import LegalBot.Proofs.LostUpdate
import LegalBot.Proofs.ReadBack
import LegalBot.Proofs.ResumeFidelity
import LegalBot.Proofs.TenantReads
import LegalBot.Orchestrator.Effects
import LegalBot.Interrupts.ProvidedFields
import LegalBot.Proofs.ValidatedInput
import LegalBot.Orchestrator.Owed
import LegalBot.Proofs.PauseAgreement
import LegalBot.Proofs.AwaitedJobs
import LegalBot.Proofs.Cancellation
import LegalBot.Orchestrator.Budget
import LegalBot.Proofs.ConcurrencyCeiling
import LegalBot.Proofs.BudgetSlots
import LegalBot.Proofs.StartsPerDispatch
import LegalBot.Ingestion.Deliveries
import LegalBot.Proofs.IngestOnce
import LegalBot.Ingestion.Commits
import LegalBot.Lib.Reservations
import LegalBot.Ingestion.Email
import LegalBot.Proofs.MailboxIsolation
import LegalBot.Proofs.MailboxSchedules
import LegalBot.Proofs.MailRows
import LegalBot.Orchestrator.Columns
import LegalBot.Proofs.RetryCounts
import LegalBot.Proofs.PrimarySessions
import LegalBot.Proofs.FinishedRuns
import LegalBot.Proofs.ArchivedSessions
import LegalBot.Proofs.ReplayRuns
import LegalBot.Scheduling.Service
import LegalBot.Orchestrator.Replays
import LegalBot.Proofs.ReplayScope
import LegalBot.Proofs.FollowUpInput
import LegalBot.Lib.Numbered
import LegalBot.Services.Transcript
import LegalBot.Proofs.TranscriptOrder
import LegalBot.Orchestrator.Appends
import LegalBot.Proofs.Projections
import LegalBot.Ingestion.Polling
import LegalBot.Proofs.PolledMail
import LegalBot.Proofs.KeptMail
import LegalBot.Orchestrator.Leases
import LegalBot.Proofs.JobLeases
import LegalBot.Scheduling.Firing
import LegalBot.Scheduling.Moves
import LegalBot.Proofs.FinalSchedules
import LegalBot.Proofs.OneShots
import LegalBot.Proofs.SilencedRuns
import LegalBot.Artifacts.LocalBlobStore
import LegalBot.Proofs.BlobSafety
import LegalBot.Memory.Extraction
import LegalBot.Memory.Graph
import LegalBot.Memory.Service
import LegalBot.Lib.Programs
import LegalBot.Memory.Writes
import LegalBot.Memory.Indexing
import LegalBot.Memory.Resolving
import LegalBot.Memory.Projecting
import LegalBot.Memory.Histories
import LegalBot.Proofs.GraphTenants
import LegalBot.Memory.Mentions
import LegalBot.Memory.Projected
import LegalBot.Proofs.Reindexing
import LegalBot.Memory.Parents
import LegalBot.Proofs.EmailEntities
import LegalBot.Proofs.ReplyGraph
import LegalBot.Proofs.EntityIdentity
import LegalBot.Proofs.KeptNames
import LegalBot.Proofs.StableResolution
import LegalBot.Jobs.Dispatcher
import LegalBot.Proofs.DispatchPass
import LegalBot.Proofs.DispatchFairness
import LegalBot.Proofs.ToolDecisions
import LegalBot.Interrupts.Request
import LegalBot.Proofs.ArtifactEdits
import LegalBot.Proofs.AnswerMerge
import LegalBot.Lib.Selection
import LegalBot.Proofs.LoneWrites
import LegalBot.Proofs.PausedGraph
import LegalBot.Lib.Raising
import LegalBot.Scheduling.Fires
import LegalBot.Proofs.FailedFires
import LegalBot.Agents.Domain
import LegalBot.Agents.Sending
import LegalBot.Proofs.DraftSends
import LegalBot.Proofs.ToolRuns
import LegalBot.Proofs.ToolConfinement
import LegalBot.Json.Members
import LegalBot.Proofs.MergePatch
import LegalBot.Agents.StageMessages
import LegalBot.Proofs.ToolChains
import LegalBot.Json.Loads
import LegalBot.Json.Printed
import LegalBot.Contracts.Registry
import LegalBot.Agents.ContractTools
import LegalBot.Proofs.ContractDrafts
import LegalBot.Agents.StageResult
import LegalBot.Agents.ArtifactTools
import LegalBot.Agents.StageHistory
import LegalBot.Proofs.StageCalls
import LegalBot.Proofs.StageHandoff
import LegalBot.Agents.ResearchReport
import LegalBot.Agents.AnalyzeGraph
import LegalBot.Proofs.ResearchLoop
import LegalBot.Agents.GraphTools
import LegalBot.Proofs.ReportedHits
import LegalBot.Proofs.ResourceTypes
import LegalBot.Proofs.Rendering
import LegalBot.Proofs.FaithfulBytes
import LegalBot.Proofs.ExactNames
import LegalBot.Proofs.ExtractionIdentity
import LegalBot.Proofs.TypedCandidates
import LegalBot.Lib.Ranking
import LegalBot.Proofs.SearchRanking
import LegalBot.Memory.Contents
import LegalBot.Proofs.BranchAgreement
import LegalBot.Proofs.ClosedProjections
import LegalBot.Memory.Parts
import LegalBot.Proofs.MalformedArtifacts
import LegalBot.Proofs.DraftedContracts
import LegalBot.Proofs.ContractParties
import LegalBot.Proofs.PersonKeys
import LegalBot.Agents.ExtractInventory
import LegalBot.Proofs.PhantomDocuments
import LegalBot.Memory.Addresses
import LegalBot.Proofs.MailboxForms
import LegalBot.Providers.Gmail
import LegalBot.Proofs.MimeWalk
import LegalBot.Proofs.RecipientHeaders
import LegalBot.Proofs.HistoryListing
import LegalBot.Providers.Outlook
import LegalBot.Proofs.DeltaPaging
import LegalBot.Artifacts.Index
import LegalBot.Proofs.IndexMerges
import LegalBot.Proofs.UntypedLookups
import LegalBot.Lib.Separated
import LegalBot.Proofs.ContractKeys
import LegalBot.Proofs.Lookups
import LegalBot.Proofs.VersionedReads
import LegalBot.Proofs.ReadBounds
import LegalBot.Agents.Subagents
import LegalBot.Workers.GraphThread
import LegalBot.Proofs.StageBudgets
import LegalBot.Proofs.LastingRows
import LegalBot.Proofs.InventoryReads
import LegalBot.Proofs.ThreadInventory
import LegalBot.Json.Sizes
import LegalBot.Proofs.InventoryParts
import LegalBot.Proofs.InventoryRebuilds
import LegalBot.Lib.AppendLog
import LegalBot.Proofs.ArtifactLog
import LegalBot.Artifacts.Listing
import LegalBot.Proofs.ListedVersions
import LegalBot.Agents.StageGraph
import LegalBot.Proofs.StageLoops
import LegalBot.Scheduling.Redbeat
import LegalBot.Proofs.EntryMirror
import LegalBot.Json.Ascii
import LegalBot.Lib.EventStream
import LegalBot.Proofs.MessageStream
