import Henji.Conversation.Model

/-!
# The conversation normalizer

Provider and history observations become keyed facts (`normalizeConversationObservation`), and
facts become changes of the keyed state (`applyFact`). The normalizer's maps are the attribution
context: where each request started, which request a model step last started, and which declared
and open tool calls a later event may refer to.
-/

namespace Henji

/-! ## Facts and the attribution context -/

inductive ConversationFact where
  | upsert (entity : Entity)
  | remove (id : EntityId)
  | contextNotice (executionId : ExecutionId) (eventOrdinal : Nat) (notice : NoticeKind)
      (text : JsText)
  | settleExecution (executionId : ExecutionId) (eventOrdinal : Nat) (settledAt : Option String)
      (terminalSemanticOccurrenceId : Option RecordId) (outcome : Outcome)
      (stopReason : Option String) (diagnostic : Option Diagnostic) (adoption : Adoption)
      (committedRevision : Option Nat)
deriving DecidableEq

structure DeclaredToolReference where
  id : EntityId
  declarationOccurrenceId : RecordId
  declarationIndex : Nat
  requestKey : RequestKey
  callId : String
deriving DecidableEq, Repr

structure ToolOrigin where
  requestKey : RequestKey
  position : Position
  callIndex : Option Nat
  callId : String
  name : String
  arguments : Json
  details : Option (List ContentLocator)
deriving DecidableEq

/-- `JSON.stringify([executionId, modelStep])`. -/
structure RequestStepIdentity where
  executionId : ExecutionId
  modelStep : Nat
deriving DecidableEq, Repr

structure RequestIndexIdentity where
  requestKey : RequestKey
  callIndex : Nat
deriving DecidableEq, Repr

structure RequestCallIdentity where
  requestKey : RequestKey
  callId : String
deriving DecidableEq, Repr

/-- A call of one logical model step, whatever physical request carried it. -/
structure LogicalCallIdentity where
  executionId : ExecutionId
  lane : Option Lane
  modelStep : Nat
  callId : String
deriving DecidableEq, Repr

structure LogicalIndexIdentity where
  executionId : ExecutionId
  lane : Option Lane
  modelStep : Nat
  callId : String
  callIndex : Nat
deriving DecidableEq, Repr

structure ConversationNormalizer where
  requestStartOrdinals : InsMap RequestKey Nat
  latestRequestByStep : InsMap RequestStepIdentity RequestKey
  openToolsByRequestCall : InsMap RequestCallIdentity (List EntityId)
  openToolsByLogicalCall : InsMap LogicalCallIdentity (List EntityId)
  openToolsByRequestIndex : InsMap RequestIndexIdentity (List EntityId)
  openToolsByLogicalIndex : InsMap LogicalIndexIdentity (List EntityId)
  declaredToolsByRequestCall : InsMap RequestCallIdentity (List DeclaredToolReference)
  declaredToolsByLogicalCall : InsMap LogicalCallIdentity (List DeclaredToolReference)
  declaredToolsByRequestIndex : InsMap RequestIndexIdentity (List DeclaredToolReference)
  declaredToolsByLogicalIndex : InsMap LogicalIndexIdentity (List DeclaredToolReference)
  toolOriginsById : InsMap EntityId ToolOrigin
  executionOrders : InsMap ExecutionId Nat
deriving DecidableEq

def createConversationNormalizer : ConversationNormalizer where
  requestStartOrdinals := .empty
  latestRequestByStep := .empty
  openToolsByRequestCall := .empty
  openToolsByLogicalCall := .empty
  openToolsByRequestIndex := .empty
  openToolsByLogicalIndex := .empty
  declaredToolsByRequestCall := .empty
  declaredToolsByLogicalCall := .empty
  declaredToolsByRequestIndex := .empty
  declaredToolsByLogicalIndex := .empty
  toolOriginsById := .empty
  executionOrders := .empty

def logicalCallIdentity (key : RequestKey) (callId : String) : LogicalCallIdentity :=
  ⟨key.executionId, key.lane, key.modelStep, callId⟩

def requestLogicalIndexIdentity (key : RequestKey) (callId : String) (callIndex : Nat) :
    LogicalIndexIdentity :=
  ⟨key.executionId, key.lane, key.modelStep, callId, callIndex⟩

/-! ## Resolution -/

/-- `position(executionOrder, requestOrder, phase, eventOrdinal)`: the item ordinal repeats the
event ordinal unless it is given. -/
def position (executionOrder requestOrder phase eventOrdinal : Int) : Position :=
  ⟨executionOrder, requestOrder, phase, eventOrdinal, eventOrdinal⟩

def detailsForEntity (entityId : EntityId) :
    Option (List ContentReference) → Option (List ContentLocator)
  | none | some [] => none
  | some details => some (details.map fun detail => ⟨detail, entityId⟩)

def executionOrder (normalizer : ConversationNormalizer) (executionId : ExecutionId) : Nat :=
  (normalizer.executionOrders.get? executionId).getD 0

def compatible (prior : RequestKey) (reference : RequestReference) : Bool :=
  (reference.lane.isNone || prior.lane = reference.lane) &&
    (reference.requestOrdinal.isNone || prior.requestOrdinal = reference.requestOrdinal)

def resolveRequest (normalizer : ConversationNormalizer) (executionId : ExecutionId)
    (reference : RequestReference) (inheritMissingAttribution : Bool) : RequestKey :=
  let prior := if inheritMissingAttribution then
    normalizer.latestRequestByStep.get? ⟨executionId, reference.modelStep⟩ else none
  let inherited := prior.filter fun prior => compatible prior reference
  { executionId
    lane := reference.lane.or (inherited.bind (·.lane))
    modelStep := reference.modelStep
    requestOrdinal := reference.requestOrdinal.or (inherited.bind (·.requestOrdinal)) }

def requestOrder (normalizer : ConversationNormalizer) (key : RequestKey) (eventOrdinal : Nat) :
    Nat :=
  (normalizer.requestStartOrdinals.get? key).getD eventOrdinal

def messagePosition (normalizer : ConversationNormalizer) (key : RequestKey) (eventOrdinal : Nat)
    (phase : Int) : Position :=
  position (executionOrder normalizer key.executionId) (requestOrder normalizer key eventOrdinal)
    phase eventOrdinal

/-- Drop the last occurrence of `value` from the list stored at `key`, if there is one. -/
def removeLast {κ : Type} [DecidableEq κ] (index : InsMap κ (List EntityId)) (key : κ)
    (value : EntityId) : InsMap κ (List EntityId) :=
  match index.get? key with
  | none => index
  | some values => index.set key (values.reverse.erase value).reverse

/-- Append `value` to the list stored at `key`. -/
def pushAt {κ α : Type} [DecidableEq κ] (index : InsMap κ (List α)) (key : κ) (value : α) :
    InsMap κ (List α) :=
  index.set key ((index.get? key).getD [] ++ [value])

def lastAt {κ α : Type} [DecidableEq κ] (index : InsMap κ (List α)) (key : κ) : Option α :=
  (index.get? key).bind List.getLast?

def resolveTool (normalizer : ConversationNormalizer) (request : RequestKey) (callId : String)
    (callIndex : Option Nat) : Option EntityId :=
  match callIndex with
  | none => (lastAt normalizer.openToolsByRequestCall ⟨request, callId⟩).or
      (lastAt normalizer.openToolsByLogicalCall (logicalCallIdentity request callId))
  | some callIndex => (lastAt normalizer.openToolsByRequestIndex ⟨request, callIndex⟩).or
      (lastAt normalizer.openToolsByLogicalIndex
        (requestLogicalIndexIdentity request callId callIndex))

/-- `index.get(identity)?.shift()`. -/
def takeDeclaration {κ : Type} [DecidableEq κ] (index : InsMap κ (List DeclaredToolReference))
    (identity : κ) : Option DeclaredToolReference × InsMap κ (List DeclaredToolReference) :=
  match index.get? identity with
  | some (declaration :: rest) => (some declaration, index.set identity rest)
  | _ => (none, index)

def removeDeclaration {κ : Type} [DecidableEq κ] (index : InsMap κ (List DeclaredToolReference))
    (identity : κ) (id : EntityId) : InsMap κ (List DeclaredToolReference) :=
  match index.get? identity with
  | none => index
  | some values => index.set identity (values.eraseP fun value => value.id = id)

def removeDeclaredTool (normalizer : ConversationNormalizer)
    (declaration : DeclaredToolReference) : ConversationNormalizer :=
  { normalizer with
    declaredToolsByRequestCall := removeDeclaration normalizer.declaredToolsByRequestCall
      ⟨declaration.requestKey, declaration.callId⟩ declaration.id
    declaredToolsByLogicalCall := removeDeclaration normalizer.declaredToolsByLogicalCall
      (logicalCallIdentity declaration.requestKey declaration.callId) declaration.id
    declaredToolsByRequestIndex := removeDeclaration normalizer.declaredToolsByRequestIndex
      ⟨declaration.requestKey, declaration.declarationIndex⟩ declaration.id
    declaredToolsByLogicalIndex := removeDeclaration normalizer.declaredToolsByLogicalIndex
      (requestLogicalIndexIdentity declaration.requestKey declaration.callId
        declaration.declarationIndex) declaration.id }

/-- The declaration that a started call settles: by declaration index when the call carries one,
by call id otherwise; in both cases first within the physical request, then within the step. -/
def takeDeclaredTool (normalizer : ConversationNormalizer) (key : RequestKey) (callId : String)
    (callIndex : Option Nat) : Option DeclaredToolReference × ConversationNormalizer :=
  match callIndex with
  | none =>
    match takeDeclaration normalizer.declaredToolsByRequestCall ⟨key, callId⟩ with
    | (some declaration, index) =>
      (some declaration, { normalizer with declaredToolsByRequestCall := index })
    | (none, _) =>
      let (declaration, index) := takeDeclaration normalizer.declaredToolsByLogicalCall
        (logicalCallIdentity key callId)
      (declaration, { normalizer with declaredToolsByLogicalCall := index })
  | some callIndex =>
    match takeDeclaration normalizer.declaredToolsByRequestIndex ⟨key, callIndex⟩ with
    | (some declaration, index) =>
      (some declaration, { normalizer with declaredToolsByRequestIndex := index })
    | (none, _) =>
      let (declaration, index) := takeDeclaration normalizer.declaredToolsByLogicalIndex
        (requestLogicalIndexIdentity key callId callIndex)
      (declaration, { normalizer with declaredToolsByLogicalIndex := index })

/-! ## Observations to facts -/

def assistantMessage (executionId : ExecutionId) (turn version : Nat) (key : RequestKey)
    (text : JsText) (complete : Bool) (pos : Position) (semanticOccurrenceId : Option RecordId)
    (details : Option (List ContentReference)) : ConversationFact :=
  .upsert {
    id := .assistant key
    executionId, version
    position := pos
    body := .message {
      turn, text, complete, semanticOccurrenceId
      role := .assistant
      requestKey := some key
      toolOccurrenceIds := none
      toolIds := none }
    details := detailsForEntity (.assistant key) details }

/-- Enter one declared call of a model result into the four declaration indexes. -/
def declareTool (normalizer : ConversationNormalizer) (declaration : DeclaredToolReference) :
    ConversationNormalizer :=
  { normalizer with
    declaredToolsByRequestIndex := pushAt normalizer.declaredToolsByRequestIndex
      ⟨declaration.requestKey, declaration.declarationIndex⟩ declaration
    declaredToolsByLogicalIndex := pushAt normalizer.declaredToolsByLogicalIndex
      (requestLogicalIndexIdentity declaration.requestKey declaration.callId
        declaration.declarationIndex) declaration
    declaredToolsByRequestCall := pushAt normalizer.declaredToolsByRequestCall
      ⟨declaration.requestKey, declaration.callId⟩ declaration
    declaredToolsByLogicalCall := pushAt normalizer.declaredToolsByLogicalCall
      (logicalCallIdentity declaration.requestKey declaration.callId) declaration }

/-- One declared call: its index entries, its origin and its not yet started tool entity. -/
def declareCall (normalizer : ConversationNormalizer) (executionId : ExecutionId)
    (turn eventOrdinal : Nat) (key : RequestKey) (occurrence : RecordId) (declarationIndex : Nat)
    (call : DeclaredCall) : ConversationFact × ConversationNormalizer :=
  let id : EntityId := .declaredTool occurrence declarationIndex
  let normalizer := declareTool normalizer {
    id, declarationIndex
    declarationOccurrenceId := occurrence
    requestKey := key
    callId := call.callId }
  let position := { messagePosition normalizer key eventOrdinal 2 with
    itemOrdinal := declarationIndex }
  let origin : ToolOrigin := {
    requestKey := key
    position
    callIndex := some declarationIndex
    callId := call.callId
    name := call.name
    arguments := call.arguments
    details := detailsForEntity id call.details }
  (.upsert {
      id, executionId, position
      version := eventOrdinal
      body := .tool {
        semanticOccurrenceId := none
        declarationOccurrenceId := some occurrence
        declarationIndex := some declarationIndex
        callIndex := some declarationIndex
        started := false
        turn
        requestKey := key
        callId := call.callId
        name := call.name
        arguments := call.arguments
        progress := none
        result := none }
      details := detailsForEntity id call.details },
    { normalizer with toolOriginsById := normalizer.toolOriginsById.set id origin })

/-- The declared calls of a model result, in order, from declaration index `index` on. -/
def declareCalls (executionId : ExecutionId) (turn eventOrdinal : Nat) (key : RequestKey)
    (occurrence : RecordId) :
    Nat → List DeclaredCall → ConversationNormalizer →
      List ConversationFact × ConversationNormalizer
  | _, [], normalizer => ([], normalizer)
  | index, call :: calls, normalizer =>
    let (fact, normalizer) :=
      declareCall normalizer executionId turn eventOrdinal key occurrence index call
    let (facts, normalizer) :=
      declareCalls executionId turn eventOrdinal key occurrence (index + 1) calls normalizer
    (fact :: facts, normalizer)

/-- Enter a started call into the open-tool indexes. -/
def openTool (normalizer : ConversationNormalizer) (id : EntityId) (origin : ToolOrigin) :
    ConversationNormalizer :=
  let normalizer := match origin.callIndex with
    | none => normalizer
    | some callIndex => { normalizer with
        openToolsByRequestIndex := pushAt normalizer.openToolsByRequestIndex
          ⟨origin.requestKey, callIndex⟩ id
        openToolsByLogicalIndex := pushAt normalizer.openToolsByLogicalIndex
          (requestLogicalIndexIdentity origin.requestKey origin.callId callIndex) id }
  { normalizer with
    openToolsByRequestCall := pushAt normalizer.openToolsByRequestCall
      ⟨origin.requestKey, origin.callId⟩ id
    openToolsByLogicalCall := pushAt normalizer.openToolsByLogicalCall
      (logicalCallIdentity origin.requestKey origin.callId) id }

/-- Take a finished call out of the open-tool indexes. -/
def closeTool (normalizer : ConversationNormalizer) (id : EntityId) (origin : ToolOrigin) :
    ConversationNormalizer :=
  let normalizer := match origin.callIndex with
    | none => normalizer
    | some callIndex => { normalizer with
        openToolsByRequestIndex := removeLast normalizer.openToolsByRequestIndex
          ⟨origin.requestKey, callIndex⟩ id
        openToolsByLogicalIndex := removeLast normalizer.openToolsByLogicalIndex
          (requestLogicalIndexIdentity origin.requestKey origin.callId callIndex) id }
  { normalizer with
    openToolsByRequestCall := removeLast normalizer.openToolsByRequestCall
      ⟨origin.requestKey, origin.callId⟩ id
    openToolsByLogicalCall := removeLast normalizer.openToolsByLogicalCall
      (logicalCallIdentity origin.requestKey origin.callId) id }

/-- The tool entity that a call, a progress or a result event proposes from the call's origin. -/
def toolEntity (id : EntityId) (executionId : ExecutionId) (turn version : Nat)
    (origin : ToolOrigin) (details : Option (List ContentLocator)) : Entity where
  id := id
  executionId := executionId
  version := version
  position := origin.position
  body := .tool {
    semanticOccurrenceId := none
    declarationOccurrenceId := none
    declarationIndex := none
    callIndex := origin.callIndex
    started := true
    turn
    requestKey := origin.requestKey
    callId := origin.callId
    name := origin.name
    arguments := origin.arguments
    progress := none
    result := none }
  details := details

/-- Write fields of the tool body of an entity. -/
def Entity.mapTool (f : ToolBody → ToolBody) (entity : Entity) : Entity :=
  match entity.body with
  | .tool tool => { entity with body := .tool (f tool) }
  | _ => entity

/-- Both detail lists in order; absent when both are absent or empty. -/
def joinDetails (left right : Option (List ContentLocator)) : Option (List ContentLocator) :=
  match left.getD [] ++ right.getD [] with
  | [] => none
  | details => some details

def normalizeConversationObservation (normalizer : ConversationNormalizer) :
    Observation → List ConversationFact × ConversationNormalizer
  | .execution execution executionOrder taskDetails =>
    ([.upsert {
        id := .execution execution.executionId
        executionId := execution.executionId
        version := 0
        position := ⟨executionOrder, -1, -2, -1, -1⟩
        body := .execution execution
        details := none },
      .upsert {
        id := .taskMessage execution.executionId
        executionId := execution.executionId
        version := 0
        position := ⟨executionOrder, -1, -1, 0, 0⟩
        body := .message {
          turn := execution.turn
          role := .user
          text := execution.task
          complete := true
          requestKey := none
          semanticOccurrenceId := none
          toolOccurrenceIds := none
          toolIds := none }
        details := detailsForEntity (.taskMessage execution.executionId) taskDetails }],
      { normalizer with
        executionOrders := normalizer.executionOrders.set execution.executionId executionOrder })
  | .executionSettled executionId eventOrdinal settledAt terminalSemanticOccurrenceId outcome
      stopReason diagnostic adoption committedRevision =>
    ([.settleExecution executionId eventOrdinal settledAt terminalSemanticOccurrenceId outcome
      stopReason diagnostic adoption committedRevision], normalizer)
  | .contextNotice executionId _ eventOrdinal notice text =>
    ([.contextNotice executionId eventOrdinal notice text], normalizer)
  | .requestStart executionId turn eventOrdinal request attribution =>
    let key := resolveRequest normalizer executionId request true
    ([.upsert {
        id := .request key
        executionId
        version := eventOrdinal
        position := position (executionOrder normalizer executionId) eventOrdinal (-1) eventOrdinal
        body := .request key turn attribution
        details := none }],
      { normalizer with
        requestStartOrdinals := normalizer.requestStartOrdinals.set key eventOrdinal
        latestRequestByStep := normalizer.latestRequestByStep.set
          ⟨executionId, key.modelStep⟩ key })
  | .assistantProgress executionId turn eventOrdinal firstEventOrdinal request text
      semanticOccurrenceId details =>
    let key := resolveRequest normalizer executionId request false
    ([assistantMessage executionId turn eventOrdinal key text false
      (messagePosition normalizer key (firstEventOrdinal.getD eventOrdinal) 1)
      semanticOccurrenceId details], normalizer)
  | .modelResult executionId turn eventOrdinal firstEventOrdinal request text semanticOccurrenceId
      details declaredCalls =>
    let key := resolveRequest normalizer executionId request false
    let message := match text with
      | none => .remove (.assistant key)
      | some text => assistantMessage executionId turn eventOrdinal key text true
          (messagePosition normalizer key (firstEventOrdinal.getD eventOrdinal) 1)
          semanticOccurrenceId details
    match semanticOccurrenceId with
    | none => ([message], normalizer)
    | some occurrence =>
      let (tools, normalizer) := declareCalls executionId turn eventOrdinal key occurrence 0
        (declaredCalls.getD []) normalizer
      (message :: tools, normalizer)
  | .thinking executionId turn eventOrdinal request thinkingKind text complete details =>
    let key := resolveRequest normalizer executionId request true
    ([.upsert {
        id := .thinking key thinkingKind
        executionId
        version := eventOrdinal
        position := messagePosition normalizer key eventOrdinal 0
        body := .thinking { turn, requestKey := key, thinkingKind, text, complete }
        details := detailsForEntity (.thinking key thinkingKind) details }], normalizer)
  | .toolCall executionId turn eventOrdinal semanticOccurrenceId callIndex request callId name
      arguments details =>
    let key := resolveRequest normalizer executionId request false
    let (declaration, normalizer) := takeDeclaredTool normalizer key callId callIndex
    let normalizer := match declaration with
      | none => normalizer
      | some declaration => removeDeclaredTool normalizer declaration
    let id := match declaration with
      | none => .tool semanticOccurrenceId
      | some declaration => declaration.id
    let callIndex := callIndex.or (declaration.map (·.declarationIndex))
    let origin := (normalizer.toolOriginsById.get? id).getD {
      requestKey := key
      position := messagePosition normalizer key eventOrdinal 2
      callIndex, callId, name, arguments
      details := detailsForEntity id details }
    let normalizer := { normalizer with
      toolOriginsById := normalizer.toolOriginsById.set id origin }
    ([.upsert ((toolEntity id executionId turn eventOrdinal origin origin.details).mapTool
        fun tool => { tool with
          semanticOccurrenceId := some semanticOccurrenceId
          declarationOccurrenceId := declaration.map (·.declarationOccurrenceId)
          declarationIndex := declaration.map (·.declarationIndex) })],
      openTool normalizer id origin)
  | .toolProgress executionId turn eventOrdinal request callIndex callId text =>
    let key := resolveRequest normalizer executionId request false
    match resolveTool normalizer key callId callIndex with
    | none => ([], normalizer)
    | some id =>
      let origin := (normalizer.toolOriginsById.get? id).getD {
        requestKey := key
        position := messagePosition normalizer key eventOrdinal 2
        callIndex := none
        callId
        name := ""
        arguments := .null
        details := none }
      ([.upsert ((toolEntity id executionId turn eventOrdinal origin origin.details).mapTool
        fun tool => { tool with progress := some text })], normalizer)
  | .toolResult executionId turn eventOrdinal request callIndex callId name result details =>
    let key := resolveRequest normalizer executionId request false
    match resolveTool normalizer key callId callIndex with
    | none => ([], normalizer)
    | some id =>
      let origin := (normalizer.toolOriginsById.get? id).getD {
        requestKey := key
        position := messagePosition normalizer key eventOrdinal 2
        callIndex, callId, name
        arguments := .null
        details := detailsForEntity id details }
      ([.upsert ((toolEntity id executionId turn eventOrdinal origin
          (joinDetails origin.details (detailsForEntity id details))).mapTool
          fun tool => { tool with result := some result })],
        closeTool normalizer id origin)
  | .steeringOperation executionId eventOrdinal status text details =>
    ([.upsert {
        id := .steering executionId eventOrdinal
        executionId
        version := eventOrdinal
        position := position (executionOrder normalizer executionId) eventOrdinal 0 eventOrdinal
        body := .steering status text
        details := detailsForEntity (.steering executionId eventOrdinal) details }], normalizer)
  | .steeringApplied executionId turn eventOrdinal semanticOccurrenceId text details =>
    ([.upsert {
        id := .applied semanticOccurrenceId
        executionId
        version := eventOrdinal
        position := position (executionOrder normalizer executionId) eventOrdinal 0 eventOrdinal
        body := .message {
          turn, text
          role := .user
          complete := true
          requestKey := none
          semanticOccurrenceId := some semanticOccurrenceId
          toolOccurrenceIds := none
          toolIds := none }
        details := detailsForEntity (.applied semanticOccurrenceId) details }], normalizer)

/-! ## Facts to changes -/

/-- `{ ...entity, toolIds: [...ids] }` for an assistant message whose request has tools. -/
def withToolRelations (state : ConversationState) (entity : Entity) : Entity :=
  match entity.body with
  | .message message =>
    match message.role, message.requestKey with
    | .assistant, some key =>
      match state.toolsByRequest.get? key with
      | none | some [] => entity
      | some ids => { entity with body := .message { message with toolIds := some ids } }
    | _, _ => entity
  | _ => entity

/-- `{ ...priorTool, ...proposed }` with the prior name, arguments and progress where the proposed
entity has none. -/
def mergeTool (prior proposed : ToolBody) : ToolBody where
  semanticOccurrenceId := proposed.semanticOccurrenceId.or prior.semanticOccurrenceId
  declarationOccurrenceId := proposed.declarationOccurrenceId.or prior.declarationOccurrenceId
  declarationIndex := proposed.declarationIndex.or prior.declarationIndex
  callIndex := proposed.callIndex.or prior.callIndex
  started := proposed.started
  turn := proposed.turn
  requestKey := proposed.requestKey
  callId := proposed.callId
  name := if proposed.name.length = 0 then prior.name else proposed.name
  arguments := if proposed.arguments = .null then prior.arguments else proposed.arguments
  progress := proposed.progress.or prior.progress
  result := proposed.result.or prior.result

/-- The entity that an upsert fact proposes against the current state, before versions are
compared. -/
def proposedEntity (state : ConversationState) (proposed : Entity) : Entity :=
  match proposed.body with
  | .tool tool =>
    match state.entities.get? proposed.id with
    | some prior =>
      match prior.body with
      | .tool priorTool => { proposed with
          body := .tool (mergeTool priorTool tool)
          details := proposed.details.or prior.details }
      | _ => proposed
    | none => proposed
  | _ => withToolRelations state proposed

/-- Add a tool to the assistant message of its request. `none` when the message has it already. -/
def relateAssistant (assistant : MessageBody) (id : EntityId) (occurrence : Option RecordId) :
    Option MessageBody :=
  let toolIds := assistant.toolIds.getD []
  let toolOccurrenceIds := assistant.toolOccurrenceIds.getD []
  let hasEntityId := toolIds.contains id
  let newOccurrence := occurrence.filter fun occurrence => ¬ toolOccurrenceIds.contains occurrence
  if hasEntityId ∧ newOccurrence.isNone then none
  else some { assistant with
    toolIds := some (if hasEntityId then toolIds else toolIds ++ [id])
    toolOccurrenceIds := match newOccurrence with
      | none => assistant.toolOccurrenceIds
      | some occurrence => some (toolOccurrenceIds ++ [occurrence]) }

/-- The tool relation of an accepted entity: the request's tool list, and the assistant message of
the request when it changes. -/
def relateTool (state : ConversationState) (entity : Entity) :
    Option Entity × ConversationState :=
  match entity.body with
  | .tool tool =>
    let related := (state.toolsByRequest.get? tool.requestKey).getD []
    let state := { state with
      toolsByRequest := state.toolsByRequest.set tool.requestKey
        (if related.contains entity.id then related else related ++ [entity.id]) }
    match state.entities.get? (.assistant tool.requestKey) with
    | none => (none, state)
    | some assistant =>
      match assistant.body with
      | .message message =>
        match message.role with
        | .user => (none, state)
        | .assistant =>
          match relateAssistant message entity.id tool.semanticOccurrenceId with
          | none => (none, state)
          | some message =>
            let next := { assistant with body := .message message }
            (some next, { state with
              entities := state.entities.set (.assistant tool.requestKey) next })
      | _ => (none, state)
  | _ => (none, state)

/-- Apply an upsert fact. A version older than the present one changes nothing; a present entity
keeps its position. -/
def applyUpsert (state : ConversationState) (proposed : Entity) :
    List ConversationChange × ConversationState :=
  let next := proposedEntity state proposed
  match state.entities.get? next.id with
  | some current =>
    if current.version > next.version then ([], state)
    else
      let entity := { next with position := current.position }
      let (relatedAssistant, state) := relateTool state entity
      (.upsert entity :: (relatedAssistant.map ConversationChange.upsert).toList,
        { state with entities := state.entities.set entity.id entity })
  | none =>
    let (relatedAssistant, state) := relateTool state next
    (.upsert next :: .orderInsert next.id (some next.position) ::
        (relatedAssistant.map ConversationChange.upsert).toList,
      { state with
        entities := state.entities.set next.id next
        order := state.order.set next.id next.position })

def applyFact (state : ConversationState) :
    ConversationFact → List ConversationChange × ConversationState
  | .remove id =>
    if state.entities.has id then
      ([.remove id, .orderRemove id],
        { state with entities := state.entities.erase id, order := state.order.erase id })
    else ([], state)
  | .contextNotice executionId eventOrdinal notice text =>
    match state.entities.get? (.execution executionId) with
    | none => ([], state)
    | some current =>
      match current.body with
      | .execution execution =>
        let notices := execution.contextNotices.getD []
        if notices.any fun prior => prior.notice = notice then ([], state)
        else
          let entity := { current with
            version := max current.version eventOrdinal
            body := .execution { execution with
              contextNotices := some (notices ++ [⟨notice, text⟩]) } }
          ([.upsert entity],
            { state with entities := state.entities.set (.execution executionId) entity })
      | _ => ([], state)
  | .settleExecution executionId eventOrdinal settledAt terminalSemanticOccurrenceId outcome
      stopReason diagnostic adoption committedRevision =>
    match state.entities.get? (.execution executionId) with
    | none => ([], state)
    | some current =>
      match current.body with
      | .execution execution =>
        if eventOrdinal < current.version then ([], state)
        else
          let entity := { current with
            version := eventOrdinal
            body := .execution { execution with
              lifecycle := .settled
              outcome, adoption
              stopReason := stopReason.or execution.stopReason
              diagnostic := diagnostic.or execution.diagnostic
              settledAt := settledAt.or execution.settledAt
              terminalSemanticOccurrenceId :=
                terminalSemanticOccurrenceId.or execution.terminalSemanticOccurrenceId
              committedRevision := committedRevision.or execution.committedRevision } }
          ([.upsert entity],
            { state with entities := state.entities.set (.execution executionId) entity })
      | _ => ([], state)
  | .upsert proposed => applyUpsert state proposed

/-- Apply facts in order and collect their changes. -/
def applyFacts (state : ConversationState) :
    List ConversationFact → List ConversationChange × ConversationState
  | [] => ([], state)
  | fact :: facts =>
    let (changes, state) := applyFact state fact
    let (rest, state) := applyFacts state facts
    (changes ++ rest, state)

def applyObservation (state : ConversationState) (normalizer : ConversationNormalizer)
    (observation : Observation) :
    List ConversationChange × ConversationState × ConversationNormalizer :=
  let (facts, normalizer) := normalizeConversationObservation normalizer observation
  let (changes, state) := applyFacts state facts
  (changes, state, normalizer)

end Henji
