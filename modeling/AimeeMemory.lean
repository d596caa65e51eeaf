import AimeeMemory.Lib.Trace
import AimeeMemory.Lib.Stream
import AimeeMemory.Lib.LittleEndian
import AimeeMemory.Bus.Wire
import AimeeMemory.Bus.ModuleProtocol
import AimeeMemory.Bus.ModuleRuntime
import AimeeMemory.Bus.Reassembly
import AimeeMemory.Bus.Replies
import AimeeMemory.Bus.ModuleCaller
import AimeeMemory.Bus.Ring
import AimeeMemory.Core.Store
import AimeeMemory.Core.Gate
import AimeeMemory.Core.Insert
import AimeeMemory.Core.Landing
import AimeeMemory.Core.Depth
import AimeeMemory.Core.ReferenceDb
import AimeeMemory.Core.Downgrade
import AimeeMemory.Core.Sensitivity
import AimeeMemory.Core.Supersede
import AimeeMemory.Core.Delete
import AimeeMemory.Lib.Sorting
import AimeeMemory.Recall.Query
import AimeeMemory.Recall.Candidates
import AimeeMemory.Recall.Rerank
import AimeeMemory.Recall.Scoped
import AimeeMemory.Recall.Visible
import AimeeMemory.Lib.Scan
import AimeeMemory.Module.EmbedBreaker
import AimeeMemory.Module.Ontology
import AimeeMemory.Module.Extract
import AimeeMemory.Module.Wire
import AimeeMemory.Module.MemoryPattern
import AimeeMemory.Recall.Archived
import AimeeMemory.Bus.ModuleCall
import AimeeMemory.Bus.Client
import AimeeMemory.Bus.RoundTrip
import AimeeMemory.Lib.Loop
import AimeeMemory.Core.Lifecycle
import AimeeMemory.Core.Json
import AimeeMemory.Core.Cognify
import AimeeMemory.Recall.ThreadState
import AimeeMemory.Recall.EmbedMemo
import AimeeMemory.Core.Transcripts
import AimeeMemory.Lib.Calendar
import AimeeMemory.Lib.Decimal
import AimeeMemory.Recall.RelativeDates
import AimeeMemory.Lib.ScoreArith
import AimeeMemory.Recall.Ranker
import AimeeMemory.Lib.Draft
import AimeeMemory.Context.Hint
import AimeeMemory.Context.Markup
import AimeeMemory.Context.World
import AimeeMemory.Context.Sections
import AimeeMemory.Context.Candidate
import AimeeMemory.Context.Task
import AimeeMemory.Context.Assemble
import AimeeMemory.Context.Cache
import AimeeMemory.Lib.Greedy
import AimeeMemory.Context.SectionPass
import AimeeMemory.Context.Explain
import AimeeMemory.Recall.FetchBudget
import AimeeMemory.Recall.FallbackOrder
import AimeeMemory.Recall.RankOrder
import AimeeMemory.Recall.RankBuffer
import AimeeMemory.Lib.Promotion
import AimeeMemory.Recall.LaneFloor
import AimeeMemory.Recall.SourceMasks
import AimeeMemory.Recall.Answer
import AimeeMemory.Core.Writers
import AimeeMemory.Core.UnitConfidence
import AimeeMemory.Core.Maintenance
import AimeeMemory.Lib.Related
import AimeeMemory.Recall.DateConstraints
import AimeeMemory.Recall.IndexedDays
import AimeeMemory.Recall.MonthSpelling
import AimeeMemory.Recall.DatePhrases
import AimeeMemory.Lib.Mass
import AimeeMemory.Recall.PagerankMass
import AimeeMemory.Lib.Filling
import AimeeMemory.Context.SectionTurn
import AimeeMemory.Context.SectionCap
import AimeeMemory.Context.TokenBudget
import AimeeMemory.Context.Handover
import AimeeMemory.Context.NegativeContext
import AimeeMemory.Lib.Escaping
import AimeeMemory.Context.Escape
import AimeeMemory.Core.Chunks
import AimeeMemory.Lib.Runs
import AimeeMemory.Core.NumericKeys
import AimeeMemory.Core.Merges
import AimeeMemory.Recall.EmbedTexts
import AimeeMemory.Core.Scopes
import AimeeMemory.Core.SessionFold
import AimeeMemory.Lib.Bfs
import AimeeMemory.Graph.Walk
import AimeeMemory.Lib.Upsert
import AimeeMemory.Graph.Fusion
import AimeeMemory.Graph.PathCredit
import AimeeMemory.Lib.MergeUnique
import AimeeMemory.Core.Directives
import AimeeMemory.Core.Prospective
import AimeeMemory.Core.Triggers
import AimeeMemory.Lib.Trimming
import AimeeMemory.Context.RecallBundle
import AimeeMemory.Context.RecallBookkeeping
import AimeeMemory.Core.MaintenanceCycle
import AimeeMemory.Core.IdleGuard
import AimeeMemory.Core.ToolDecisions
import AimeeMemory.Lib.PathWalk
import AimeeMemory.Redirect.Classify
import AimeeMemory.Lib.Quoting
import AimeeMemory.Redirect.BashGuard
import AimeeMemory.Redirect.Check
import AimeeMemory.Module.ValueShapes
import AimeeMemory.Bus.QueuePair
import AimeeMemory.Bus.PollBounds
import AimeeMemory.Module.RelTypeNames
import AimeeMemory.Context.Confidence
import AimeeMemory.Context.TopicPivot
import AimeeMemory.Context.NearDuplicate
import AimeeMemory.Core.Commitments
import AimeeMemory.Module.ExtractPrecision
import AimeeMemory.Module.Retraction
import AimeeMemory.Bus.CallDeadline
import AimeeMemory.Bus.JobAccounting
import AimeeMemory.Module.BreakerOpens
import AimeeMemory.Module.EmbedReports
import AimeeMemory.Module.PiiGate
import AimeeMemory.Core.PatternSynthesis
import AimeeMemory.Core.Summaries
import AimeeMemory.Core.Workflows
import AimeeMemory.Recall.StricterAnswers
import AimeeMemory.Lib.Joining
import AimeeMemory.Recall.JoinedText
import AimeeMemory.Recall.TemporalPhrases
import AimeeMemory.Recall.UnitKinds
import AimeeMemory.Context.Briefing
import AimeeMemory.Core.Importance
import AimeeMemory.Core.ProfilePack
import AimeeMemory.Context.DerivedFacts
import AimeeMemory.Lib.CheckedInt
import AimeeMemory.Module.BreakerDelay
import AimeeMemory.Core.ToolReads
import AimeeMemory.Context.DepHint
import AimeeMemory.Core.CanonicalTerms
import AimeeMemory.Bus.Progress
import AimeeMemory.Bus.Agreement
import AimeeMemory.Bus.Withdrawal
import AimeeMemory.Bus.Channel
import AimeeMemory.Lib.BestOffers
import AimeeMemory.Graph.RelatedMemories
import AimeeMemory.Core.MaintenanceTrigger
import AimeeMemory.Recall.WindowSearch
import AimeeMemory.Core.DirectiveLife
import AimeeMemory.Lib.Memo
import AimeeMemory.Core.MaintenanceHealth
