import Henji.Library.InsMap
import Henji.Library.SortedSearch
import Henji.Library.Effect
import Henji.Library.Process
import Henji.Library.Heap
import Henji.Library.JsonShape
import Henji.Library.JsonBytes
import Henji.Library.TextDecoder
import Henji.Json
import Henji.Core.Contracts
import Henji.Core.Cancellation
import Henji.Core.Steering
import Henji.Session.CausalTranscript
import Henji.Conversation.Model
import Henji.Conversation.Normalizer
import Henji.Core.TurnState
import Henji.Tools.Registry
import Henji.Core.ModelResult
import Henji.Core.AgentTurn
import Henji.Core.LoopEnd
import Henji.Core.Loop
import Henji.Core.LoopSettlement
import Henji.Core.LoopTurn
import Henji.History.Contract
import Henji.Conversation.HistoryAdapter
import Henji.Core.FailureDetails
import Henji.Core.RedactionLaw
import Henji.Core.SecretForms
import Henji.Conversation.Order
import Henji.Api.Reducer
import Henji.Api.Mirror
import Henji.Api.SessionStream
import Henji.Api.SessionStreamLaw
import Henji.Api.SessionEvents
import Henji.Conversation.KeyedState
import Henji.Data.ConversationChanges
import Henji.Data.PublishedChanges
import Henji.Data.ConversationWriter
import Henji.Data.WriterInvariant
import Henji.Data.WriterQuiet
import Henji.Data.WriterMoves
import Henji.Data.WriterRuns
import Henji.Data.WatchLaw
import Henji.Data.StreamConvergence
import Henji.Data.ConversationWatch
import Henji.Data.ConversationWatchLaw
import Henji.Data.ConversationDelivery
import Henji.Data.ConversationResync
import Henji.Library.Runs
import Henji.Host.TaskService
import Henji.Host.TaskLaneLaw
import Henji.Host.TaskFollowUps
import Henji.Host.TaskLifecycle
import Henji.Host.CommandRegistry
import Henji.Host.CommandLaw
import Henji.Host.CommandAnswers
import Henji.Api.CommandCodec
import Henji.Host.ExecutionCoordinator
import Henji.Host.TerminalDelivery
import Henji.Host.ExecutionUpkeep
import Henji.Host.ExecutionDelivery
import Henji.Library.ByteFile
import Henji.Tools.BashOutput
import Henji.Tools.BashReadback
import Henji.Tools.BashReadbackLaw
import Henji.Tools.BashCapture
import Henji.Tools.BashDrainLaw
import Henji.Tools.BashCaptureLaw
import Henji.Library.Utf8
import Henji.Tools.BashAccounting
import Henji.Tools.BashAccountingLaw
import Henji.Tools.BashContents
import Henji.Tools.BashSpool
import Henji.Provider.StreamAssembly
import Henji.Provider.StreamAssemblyLaw
import Henji.Library.Transducer
import Henji.Provider.SseFramer
import Henji.Provider.SseFramerLaw
import Henji.Provider.ModelCatalog
import Henji.Provider.CatalogRuns
import Henji.Library.Utf8Windows
import Henji.History.ConversationContent
import Henji.History.ConversationPages
import Henji.Tui.KeyedConversation
import Henji.Library.Blocks
import Henji.Tui.NoticePlacement
import Henji.History.ExecutionAdmission
import Henji.History.AdmissionLaw
import Henji.History.HistoryTables
import Henji.History.TableLaw
import Henji.History.SessionDelete
import Henji.History.SubtreeLaw
import Henji.History.DeleteLaw
import Henji.History.SessionDeleteLaw
import Henji.Data.ExecutionDataJournal
import Henji.Data.JournalLaw
import Henji.Library.Promises
import Henji.Data.AgentDataPort
import Henji.Data.AgentDataPortLaw
import Henji.Library.Mealy
import Henji.Tui.InputDecoder
import Henji.Tui.PasteFraming
import Henji.Tui.KeyTokens
import Henji.Tui.TerminalText
import Henji.Tui.InputLayout
import Henji.Tui.LayoutLaw
import Henji.Tui.InputEditor
import Henji.Tui.CursorMoves
import Henji.Tui.RemoteDraft
import Henji.Tui.EditorLaw
import Henji.Tui.DraftSteps
import Henji.Tui.DraftLaw
import Henji.Library.Terminal
import Henji.Library.Saturation
import Henji.Library.Relational
import Henji.Library.Replacement
import Henji.Library.Surrogates
import Henji.Library.Utf8Stream
import Henji.Tui.ScrollbackWriter
import Henji.Tui.ScrollbackLaw
import Henji.Tui.WrapRows
import Henji.Tui.WrapLaw
import Henji.Tui.WrapShown
import Henji.Provider.ChatGPTAuth
import Henji.Provider.TokenRefresh
import Henji.Provider.TokenRefreshLaw
import Henji.Provider.TokenRefusal
import Henji.Provider.EvidenceRecorder
import Henji.Provider.EvidenceLaw
import Henji.Provider.EvidenceRuns
import Henji.Runtime.OwnedProcess
import Henji.Runtime.ProcessGroupLaw
import Henji.Runtime.ProcessAnchor
import Henji.Core.FailureCapture
import Henji.Tools.EditTool
import Henji.Tools.EditLaw
import Henji.Tools.AtomicReplace
import Henji.Tools.ReplaceLaw
import Henji.Tools.ReadWindow
import Henji.Tools.ReadLines
import Henji.Tools.ReadPages
import Henji.Tools.ReadingOn
import Henji.ExternalTools.GitInspect
import Henji.ExternalTools.GitPages
import Henji.ExternalTools.LsTool
import Henji.ExternalTools.LsLaw
import Henji.ExternalTools.GrepResult
import Henji.ExternalTools.GrepResultLaw
