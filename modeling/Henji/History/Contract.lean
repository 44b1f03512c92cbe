import Henji.Conversation.Model

/-!
# The history boundary

Events as they are appended and stored, the execution row, and the inputs and results of the
history writers. An event carries the payload of its kind; the kinds that no modelled function
reads further are told apart by their kind only.
-/

namespace Henji

/-! ## Event payloads -/

/-- `ProviderEvidenceRuntimeEvent`: what a provider observation reports about a running turn. -/
inductive ProviderRuntimeEvent where
  | assistantProgress (text : JsText) (request : RequestReference)
  | modelResult (result : ModelResult) (request : RequestReference)
  | toolCall (call : ToolCall) (callIndex : Nat) (request : RequestReference)
  | toolProgress (callId name : String) (text : JsText) (callIndex : Nat)
      (request : RequestReference)
  | toolResult (result : ToolResultContent) (callIndex : Nat) (request : RequestReference)
  | turnOutcome (outcome : LoopStopReason)
deriving DecidableEq

/-- The agent events that the conversation shows, and the others by their semantic kind. -/
inductive AgentEvent where
  | assistantThinking (turn modelStep : Nat) (thinkingKind : ThinkingKind) (text : JsText)
      (complete : Bool) (requestKey : Option RequestReference)
  | steeringMessage (turn : Nat) (text : JsText)
  | contextNotice (turn : Nat) (notice : NoticeKind) (text : JsText)
  | userMessage
  | assistantMessage
  | assistantProgress
  | toolCall
  | toolResult
  | toolProgress
  | hookContextUpdate
  | other
deriving DecidableEq

structure ProviderRequest where
  ordinal : Nat
  lane : Lane
  modelStep : Nat
  requestMetadata : RequestAttribution
deriving DecidableEq, Repr

inductive ControlEventKind where
  | cancelRequested
  | cancelSent
  | cancelFailed
  | cancelReceived
  | cancelEscalated
  | workerStageSnapshot
  | acknowledgementRequested
  | acknowledgementSent
  | acknowledgementFailed
  | turnSettled
  | postCommitTurnEnd
  | processCleanupFinished
deriving DecidableEq, Repr

inductive Settlement where
  | interrupted
  | unknown
deriving DecidableEq, Repr

/-- Kind and payload of an execution event. A context observation carries `contextItems` items,
each stored as a record of its own. -/
inductive EventPayload where
  | executionAdmitted
  | turnDispatchRequested
  | turnDispatchSent
  | turnDispatchFailed
  | control (kind : ControlEventKind)
  | steer (status : SteeringStatus) (text : JsText)
  | effectObservation
  | providerRequestStart (turn : Nat) (request : ProviderRequest)
  | providerResponseStart
  | providerRequestUsage
  | providerParserTransition
  | providerRequestFailure
  | contextObservation (contextItems : Nat)
  | providerObservation (turn : Nat) (event : ProviderRuntimeEvent)
  | agentEvent (event : AgentEvent)
  | executionSettled (outcome : Outcome) (adoption : Adoption)
  | executionReconciled (settlement : Settlement)
deriving DecidableEq

structure ExecutionEventInput where
  executionId : ExecutionId
  observedAt : Option String
  workerSequence : Option Nat
  payload : EventPayload
deriving DecidableEq

structure StoredExecutionEvent where
  executionId : ExecutionId
  ordinal : Nat
  firstEventOrdinal : Option Nat
  observedAt : String
  workerSequence : Option Nat
  payload : EventPayload
deriving DecidableEq

/-- The event returned by an append, with the semantic identity assigned in the same
transaction. -/
structure HistoryAppendResult where
  event : StoredExecutionEvent
  semanticOccurrenceId : Option RecordId
deriving DecidableEq

/-! ## Executions -/

structure OutcomeSummary where
  stopReason : Option String
  diagnostic : Option Diagnostic
deriving DecidableEq, Repr

structure StoredExecutionRow where
  executionId : ExecutionId
  taskId : String
  task : JsText
  canonicalSessionId : Option SessionId
  sessionCorrelation : SessionId
  parentExecutionId : Option ExecutionId
  spawnCallId : Option String
  turn : Nat
  createdAt : String
  settledAt : Option String
  lifecycle : Lifecycle
  outcome : Outcome
  outcomeJson : Option OutcomeSummary
  adoption : Adoption
  baseRevision : Nat
  committedRevision : Option Nat
  agent : String
  model : Json
deriving DecidableEq

/-- One execution of a conversation page, its events in replay order. -/
structure StoredSessionConversationExecution where
  execution : StoredExecutionRow
  executionOrder : Option Nat
  events : List HistoryAppendResult
deriving DecidableEq

structure StoredSessionConversationPage where
  page : PageMetadata
  executions : List StoredSessionConversationExecution
deriving DecidableEq

/-! ## Writer inputs and results -/

structure HistoryExecutionInput where
  taskId : String
  executionId : ExecutionId
  createdAt : String
  sessionCorrelation : SessionId
  canonicalSessionId : Option SessionId
  turn : Nat
  task : JsText
  baseStateRevision : Nat
  agent : String
  model : Json
  parentExecutionId : Option ExecutionId
  spawnCallId : Option String
deriving DecidableEq

structure BeginExecutionInput extends HistoryExecutionInput where
  recalledContext : Bool
deriving DecidableEq

structure LoopOutcomeMetadata where
  ok : Bool
  stopReason : LoopStopReason
  diagnostic : Option Diagnostic
deriving DecidableEq, Repr

structure CanonicalTurnCommitInput extends HistoryExecutionInput where
  messageSuffix : List Message
  updatedAt : String
  outcome : LoopOutcomeMetadata
deriving DecidableEq

structure NonCanonicalExecutionInput extends HistoryExecutionInput where
  messageSuffix : List Message
  outcome : LoopOutcomeMetadata
deriving DecidableEq

structure ReconcileExecutionInput where
  executionId : ExecutionId
  settledAt : Option String
  settlement : Settlement
deriving DecidableEq, Repr

structure HistoryPostSettlementSemanticEventInput where
  executionId : ExecutionId
  observedAt : String
  workerSequence : Option Nat
  payload : EventPayload
deriving DecidableEq

/-- Facts made durable by one terminal COMMIT. -/
structure HistoryCommitDelta where
  executionId : ExecutionId
  eventOrdinal : Nat
  settledAt : String
  terminalSemanticOccurrenceId : RecordId
  outcome : Outcome
  stopReason : Option LoopStopReason
  diagnostic : Option Diagnostic
  adoption : Adoption
  committedRevision : Option Nat
deriving DecidableEq, Repr

/-- A history store as its callers see it: each call may throw and may leave another state. -/
structure HistoryPort (ε σ : Type) where
  beginExecution : BeginExecutionInput → σ → Except ε Unit × σ
  appendExecutionEventsWithSemanticIds :
    List ExecutionEventInput → σ → Except ε (List HistoryAppendResult) × σ
  appendPostSettlementSemanticEvent :
    HistoryPostSettlementSemanticEventInput → σ → Except ε HistoryAppendResult × σ
  appendExecutionControlEvents :
    List ExecutionEventInput → σ → Except ε (List StoredExecutionEvent) × σ
  commitCanonicalTurn :
    CanonicalTurnCommitInput → σ → Except ε (Option HistoryCommitDelta) × σ
  settleNonCanonicalExecution :
    NonCanonicalExecutionInput → σ → Except ε (Option HistoryCommitDelta) × σ
  reconcileExecution : ReconcileExecutionInput → σ → Except ε (Option HistoryCommitDelta) × σ
  readSessionConversationPageFacts : SessionId → Option Nat → PageDirection → σ →
    Except ε StoredSessionConversationPage × σ
  /-- The session of an execution row. -/
  readExecutionMetadata : ExecutionId → σ → Except ε SessionId × σ

end Henji
