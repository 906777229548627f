import AgenticKb.Properties.GhostEdges
import AgenticKb.Properties.NoOracle
import AgenticKb.Properties.ReceiptTrust
import AgenticKb.Properties.PublishedVersions
import AgenticKb.Properties.ListedSources
import AgenticKb.Properties.CacheTransparency
import AgenticKb.Properties.Generations
import AgenticKb.Properties.DeletedSources
import AgenticKb.Properties.Activation
import AgenticKb.Properties.RelationPrecision
import AgenticKb.Properties.SearchIndex
import AgenticKb.Properties.CommitAcl
import AgenticKb.Indexing.Projection
import AgenticKb.Properties.Metering
import AgenticKb.Properties.ConcurrentWriters
import AgenticKb.Effects.Rows
import AgenticKb.Effects.CodeEdges
import AgenticKb.Properties.FailedExtraction
import AgenticKb.Properties.SourceVersions
import AgenticKb.Properties.PartialListing
import AgenticKb.Properties.FailingSource
import AgenticKb.Properties.CurrentTree
import AgenticKb.Properties.AgentAllowance
import AgenticKb.Properties.PanelReconciliation
import AgenticKb.Properties.PromptFences
import AgenticKb.Properties.RenameReattachment
import AgenticKb.Properties.EntailmentCache
import AgenticKb.Properties.JudgeCache
import AgenticKb.Properties.LinkOrder
import AgenticKb.Properties.AliasTitles
import AgenticKb.Properties.SearchMeter
import AgenticKb.Properties.LedgerRows
import AgenticKb.Properties.TierWalks
import AgenticKb.Properties.RankedCards
import AgenticKb.Properties.CandidateRanking
import AgenticKb.Linker.ChatModel
import AgenticKb.Properties.JudgedQuotes
import AgenticKb.Properties.ReferenceTargets
import AgenticKb.Properties.CallLabels
import AgenticKb.Properties.ChangePack
import AgenticKb.Properties.ReusedAnswers
import AgenticKb.Properties.DerivedAcl
import AgenticKb.Properties.ArtifactKeys
import AgenticKb.Properties.RenderedCommits
import AgenticKb.Properties.SourceGlobs
import AgenticKb.Properties.CentralityScores
import AgenticKb.Properties.AliasLookup
import AgenticKb.Properties.ExportedNotes
import AgenticKb.Properties.SkeletonLines
import AgenticKb.Properties.ExtractionMapping
import AgenticKb.Properties.SymbolBodies
import AgenticKb.Properties.IdenticalFindings
import AgenticKb.Properties.StaleDocuments
import AgenticKb.Properties.AnswerHash
import AgenticKb.Properties.FencedReplies
import AgenticKb.Properties.BlastRadius
import AgenticKb.Properties.WorkItemListing
import AgenticKb.Properties.TaskContextReads
import AgenticKb.Properties.KeywordRanking
import AgenticKb.Properties.StoredDrafts
import AgenticKb.Properties.AgentBudget
import AgenticKb.Properties.PaidOutputs
import AgenticKb.Properties.LocalIndex
import AgenticKb.Properties.LoneCalls
