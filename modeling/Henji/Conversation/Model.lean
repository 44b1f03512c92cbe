import Henji.Core.Contracts
import Henji.Library.InsMap

/-!
# The conversation data model

Entities, their ordering coordinates, the keyed state and the changes published from it.

Entity ids are the source's template strings (`execution/…`, `message/task/…`, `request/…` and so
on). Each template is a constructor here: the parts are percent-encoded and joined by slashes, so
two ids are the same string exactly when they are the same constructor with the same parts. In the
same way `conversationRequestIdentity` prints the four fields of a request key with `''` and `-1`
for an absent lane and ordinal, which no present value takes, so the identity is the key itself.
-/

namespace Henji

abbrev SessionId := String
abbrev ExecutionId := String

/-! ## Keys and ids -/

inductive Lane where
  | parent
  | planner
deriving DecidableEq, Repr

structure RequestReference where
  lane : Option Lane
  modelStep : Nat
  requestOrdinal : Option Nat
deriving DecidableEq, Repr

structure RequestKey where
  executionId : ExecutionId
  lane : Option Lane
  modelStep : Nat
  requestOrdinal : Option Nat
deriving DecidableEq, Repr

/-- Identity of a semantic record: `<execution>:semantic:<ordinal>`, or a random control or
metadata id. -/
inductive RecordId where
  | semantic (executionId : ExecutionId) (ordinal : Nat)
  | control (uuid : String)
  | metadata (uuid : String)
deriving DecidableEq, Repr

inductive ThinkingKind where
  | text
  | summary
deriving DecidableEq, Repr

inductive EntityId where
  | execution (executionId : ExecutionId)
  | taskMessage (executionId : ExecutionId)
  | request (key : RequestKey)
  | assistant (key : RequestKey)
  | thinking (key : RequestKey) (kind : ThinkingKind)
  | declaredTool (occurrence : RecordId) (index : Nat)
  | tool (occurrence : RecordId)
  | steering (executionId : ExecutionId) (eventOrdinal : Nat)
  | applied (occurrence : RecordId)
deriving DecidableEq, Repr

/-! ## Positions -/

/-- Stable ordering coordinates supplied by source facts. -/
structure Position where
  executionOrder : Int
  requestOrder : Int
  phase : Int
  eventOrdinal : Int
  itemOrdinal : Int
deriving DecidableEq, Repr

/-- `compareConversationPositions`. A comparator is modelled by the sign of its number. -/
def comparePositions : Position → Position → Ordering :=
  compareLex (compareOn (·.executionOrder)) <| compareLex (compareOn (·.requestOrder)) <|
    compareLex (compareOn (·.phase)) <| compareLex (compareOn (·.eventOrdinal))
      (compareOn (·.itemOrdinal))

/-! ## Content locators -/

inductive ContentField where
  | task
  | message
  | thinking
  | toolArguments
  | toolProgress
  | toolResult
  | steering
deriving DecidableEq, Repr

/-- Source bytes for opening a large field in detail, before the entity is known. -/
structure ContentReference where
  sessionId : SessionId
  executionId : ExecutionId
  field : ContentField
  digest : String
  version : Nat
  cut : Nat
  totalBytes : Nat
  sourceEventOrdinal : Option Nat
  sourceIndex : Option Nat
deriving DecidableEq, Repr

structure ContentLocator where
  reference : ContentReference
  entityId : EntityId
deriving DecidableEq, Repr

/-- The locator without the cut at which it was published. -/
def ContentLocator.sansCut (locator : ContentLocator) : ContentLocator :=
  { locator with reference := { locator.reference with cut := 0 } }

/-! ## Entities -/

inductive Outcome where
  | unknown
  | completed
  | cancelled
  | failed
  | interrupted
deriving DecidableEq, Repr

inductive Adoption where
  | canonical
  | nonCanonical
deriving DecidableEq, Repr

inductive Lifecycle where
  | active
  | settled
deriving DecidableEq, Repr

structure Diagnostic where
  code : String
  stage : String
deriving DecidableEq, Repr

inductive NoticeKind where
  | trimmed
  | historyPartial
  | historyOmitted
  | exceeded
deriving DecidableEq, Repr

structure ContextNotice where
  notice : NoticeKind
  text : JsText
deriving DecidableEq, Repr

structure ExecutionMetadata where
  executionId : ExecutionId
  taskId : String
  task : JsText
  sessionId : SessionId
  canonicalSessionId : Option SessionId
  parentExecutionId : Option ExecutionId
  spawnCallId : Option String
  turn : Nat
  createdAt : String
  settledAt : Option String
  terminalSemanticOccurrenceId : Option RecordId
  lifecycle : Lifecycle
  outcome : Outcome
  stopReason : Option String
  diagnostic : Option Diagnostic
  contextNotices : Option (List ContextNotice)
  adoption : Adoption
  baseRevision : Nat
  committedRevision : Option Nat
  agent : String
  model : Json
deriving DecidableEq

structure RequestAttribution where
  provider : Option String
  modelId : Option String
  api : Option String
deriving DecidableEq, Repr

inductive MessageRole where
  | user
  | assistant
deriving DecidableEq, Repr

structure MessageBody where
  turn : Nat
  role : MessageRole
  text : JsText
  complete : Bool
  requestKey : Option RequestKey
  semanticOccurrenceId : Option RecordId
  toolOccurrenceIds : Option (List RecordId)
  toolIds : Option (List EntityId)
deriving DecidableEq, Repr

structure ThinkingBody where
  turn : Nat
  requestKey : RequestKey
  thinkingKind : ThinkingKind
  text : JsText
  complete : Bool
deriving DecidableEq, Repr

structure ToolResultView where
  text : JsText
  outcome : ToolResultOutcome
  terminal : Option TerminalKind
deriving DecidableEq, Repr

structure ToolBody where
  semanticOccurrenceId : Option RecordId
  declarationOccurrenceId : Option RecordId
  declarationIndex : Option Nat
  callIndex : Option Nat
  started : Bool
  turn : Nat
  requestKey : RequestKey
  callId : String
  name : String
  arguments : Json
  progress : Option JsText
  result : Option ToolResultView
deriving DecidableEq

inductive SteeringStatus where
  | requested
  | sent
  | failed
deriving DecidableEq, Repr

inductive EntityBody where
  | execution (execution : ExecutionMetadata)
  | request (requestKey : RequestKey) (turn : Nat) (attribution : Option RequestAttribution)
  | message (message : MessageBody)
  | thinking (thinking : ThinkingBody)
  | tool (tool : ToolBody)
  | steering (status : SteeringStatus) (text : JsText)
deriving DecidableEq

/-- One keyed item of the conversation. -/
structure Entity where
  id : EntityId
  executionId : ExecutionId
  version : Nat
  position : Position
  body : EntityBody
  details : Option (List ContentLocator)
deriving DecidableEq

/-! ## State and changes -/

/-- Keyed state: `order` holds the ordering coordinates, consumers sort only for a snapshot. -/
structure ConversationState where
  sessionId : SessionId
  entities : InsMap EntityId Entity
  order : InsMap EntityId Position
  toolsByRequest : InsMap RequestKey (List EntityId)
deriving DecidableEq

inductive ConversationChange where
  | upsert (entity : Entity)
  | remove (id : EntityId)
  | orderInsert (id : EntityId) (position : Option Position)
  | orderRemove (id : EntityId)
deriving DecidableEq

def createConversationState (sessionId : SessionId) : ConversationState :=
  { sessionId, entities := .empty, order := .empty, toolsByRequest := .empty }

inductive PageDirection where
  | latest
  | older
  | newer
deriving DecidableEq, Repr

/-- Page cursor with exclusive execution-order bounds. -/
structure PageMetadata where
  direction : PageDirection
  cursor : Option Nat
  lowerExecutionOrder : Option Nat
  upperExecutionOrder : Option Nat
  hasOlder : Bool
  hasNewer : Bool
deriving DecidableEq, Repr

/-! ## Observations -/

structure DeclaredCall where
  callId : String
  name : String
  arguments : Json
  details : Option (List ContentReference)
deriving DecidableEq

/-- Provider-neutral input accepted from saved-history and live-save adapters. -/
inductive Observation where
  | execution (execution : ExecutionMetadata) (executionOrder : Nat)
      (taskDetails : Option (List ContentReference))
  | requestStart (executionId : ExecutionId) (turn eventOrdinal : Nat)
      (request : RequestReference) (attribution : Option RequestAttribution)
  | assistantProgress (executionId : ExecutionId) (turn eventOrdinal : Nat)
      (firstEventOrdinal : Option Nat) (request : RequestReference) (text : JsText)
      (semanticOccurrenceId : Option RecordId) (details : Option (List ContentReference))
  | modelResult (executionId : ExecutionId) (turn eventOrdinal : Nat)
      (firstEventOrdinal : Option Nat) (request : RequestReference) (text : Option JsText)
      (semanticOccurrenceId : Option RecordId) (details : Option (List ContentReference))
      (declaredCalls : Option (List DeclaredCall))
  | thinking (executionId : ExecutionId) (turn eventOrdinal : Nat) (request : RequestReference)
      (thinkingKind : ThinkingKind) (text : JsText) (complete : Bool)
      (details : Option (List ContentReference))
  | toolCall (executionId : ExecutionId) (turn eventOrdinal : Nat)
      (semanticOccurrenceId : RecordId) (callIndex : Option Nat) (request : RequestReference)
      (callId name : String) (arguments : Json) (details : Option (List ContentReference))
  | toolProgress (executionId : ExecutionId) (turn eventOrdinal : Nat)
      (request : RequestReference) (callIndex : Option Nat) (callId : String) (text : JsText)
  | toolResult (executionId : ExecutionId) (turn eventOrdinal : Nat)
      (request : RequestReference) (callIndex : Option Nat) (callId name : String)
      (result : ToolResultView) (details : Option (List ContentReference))
  | steeringOperation (executionId : ExecutionId) (eventOrdinal : Nat) (status : SteeringStatus)
      (text : JsText) (details : Option (List ContentReference))
  | steeringApplied (executionId : ExecutionId) (turn eventOrdinal : Nat)
      (semanticOccurrenceId : RecordId) (text : JsText)
      (details : Option (List ContentReference))
  | executionSettled (executionId : ExecutionId) (eventOrdinal : Nat)
      (settledAt : Option String) (terminalSemanticOccurrenceId : Option RecordId)
      (outcome : Outcome) (stopReason : Option String) (diagnostic : Option Diagnostic)
      (adoption : Adoption) (committedRevision : Option Nat)
  | contextNotice (executionId : ExecutionId) (turn eventOrdinal : Nat) (notice : NoticeKind)
      (text : JsText)
deriving DecidableEq

end Henji
