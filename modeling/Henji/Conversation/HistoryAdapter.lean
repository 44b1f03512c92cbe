import Henji.Conversation.Normalizer
import Henji.History.Contract

/-!
# The history adapter

Stored events become observations (`eventObservation`), long texts become bounded previews with a
content reference, and a session is replayed from its stored executions. `exactByteDigest` is the
digest of a byte string.
-/

namespace Henji

/-! ## Previews -/

def conversationPreviewBytes : Nat := 20480

/-- The last boundary of a code point at or before `limit`. -/
def prefixEnd (bytes : List UInt8) : Nat → Nat
  | 0 => 0
  | n + 1 =>
    match bytes[n + 1]? with
    | some b => if isContinuation b then prefixEnd bytes n else n + 1
    | none => n + 1

/-- The longest prefix of whole code points within `limit` bytes. -/
def utf8Prefix (bytes : List UInt8) (limit : Nat) : JsText :=
  (decodeUtf8 (bytes.take (prefixEnd bytes (min bytes.length limit)))).getD []

def decimal (n : Nat) : JsText := js (toString n)

section Digest

variable (exactByteDigest : List UInt8 → String)

def contentReference (sessionId : SessionId) (executionId : ExecutionId) (field : ContentField)
    (version cut : Nat) (text : JsText) (sourceEventOrdinal sourceIndex : Option Nat) :
    ContentReference where
  sessionId := sessionId
  executionId := executionId
  field := field
  digest := exactByteDigest (encodeUtf8 text)
  version := version
  cut := cut
  totalBytes := (encodeUtf8 text).length
  sourceEventOrdinal := sourceEventOrdinal
  sourceIndex := sourceIndex

/-- The text itself, or its preview with the reference to the whole. -/
def boundedText (text : JsText) (details : ContentReference) (includeFullText : Bool) :
    JsText × Option (List ContentReference) :=
  let bytes := encodeUtf8 text
  if includeFullText ∨ bytes.length ≤ conversationPreviewBytes then (text, none)
  else
    (utf8Prefix bytes conversationPreviewBytes ++ js "… [" ++ decimal bytes.length ++
      js " bytes; open detail]", some [details])

/-- `record[key] = value` on the fields of an object. -/
def assignField (fields : List (JsText × Json)) (key : JsText) (value : Json) :
    List (JsText × Json) :=
  if fields.any fun field => field.1 = key then
    fields.map fun field => if field.1 = key then (key, value) else field
  else fields ++ [(key, value)]

mutual
/-- A preview of a JSON value whose serialization stays near `budget` bytes. -/
def boundedValue : Json → Nat → Json
  | .str text, budget =>
    if (encodeUtf8 (stringify (.str text))).length ≤ budget then .str text
    else .str (utf8Prefix (encodeUtf8 text) budget ++ js "…")
  | .arr items, budget =>
    if (encodeUtf8 (stringify (.arr items))).length ≤ budget then .arr items
    else
      let preview := boundedItems items budget []
      if preview.length < items.length then
        .arr (preview ++ [.str (js "… " ++ decimal (items.length - preview.length) ++ js " more")])
      else .arr preview
  | .obj fields, budget =>
    if (encodeUtf8 (stringify (.obj fields))).length ≤ budget then .obj fields
    else
      let preview := boundedFields fields budget []
      if preview.length < fields.length then
        .obj (assignField preview (js "…")
          (.str (decimal (fields.length - preview.length) ++ js " more fields")))
      else .obj preview
  | value, budget => if (encodeUtf8 (stringify value)).length ≤ budget then value else .null

def boundedItems : List Json → Nat → List Json → List Json
  | [], _, preview => preview
  | item :: items, budget, preview =>
    let candidate := preview ++ [boundedValue item (max 32 (budget - 64))]
    if (encodeUtf8 (stringify (.arr candidate))).length > budget then preview
    else boundedItems items budget candidate

def boundedFields : List (JsText × Json) → Nat → List (JsText × Json) → List (JsText × Json)
  | [], _, preview => preview
  | (key, item) :: fields, budget, preview =>
    let candidate := preview ++ [(key, boundedValue item (max 32 (budget - 96)))]
    if (encodeUtf8 (stringify (.obj candidate))).length > budget then preview
    -- assigning the key `__proto__` sets the prototype and adds no field
    else boundedFields fields budget (if key = js "__proto__" then preview else candidate)
end

/-- The arguments of a call as the conversation shows them: whole, or a preview with the reference
to the canonical text. -/
def boundedArguments (arguments : Json) (details : ContentReference) (includeFullText : Bool) :
    Json × Option (List ContentReference) :=
  match (boundedText (canonicalJson arguments) details includeFullText).2 with
  | none => (arguments, none)
  | some details => (boundedValue arguments conversationPreviewBytes, some details)

/-! ## Events to observations -/

def executionMetadata (row : StoredExecutionRow) (task : JsText) : ExecutionMetadata where
  executionId := row.executionId
  taskId := row.taskId
  task := task
  sessionId := row.sessionCorrelation
  canonicalSessionId := row.canonicalSessionId
  parentExecutionId := row.parentExecutionId
  spawnCallId := row.spawnCallId
  turn := row.turn
  createdAt := row.createdAt
  settledAt := row.settledAt
  terminalSemanticOccurrenceId := none
  lifecycle := row.lifecycle
  outcome := row.outcome
  stopReason := row.outcomeJson.bind (·.stopReason)
  diagnostic := row.outcomeJson.bind (·.diagnostic)
  contextNotices := none
  adoption := row.adoption
  baseRevision := row.baseRevision
  committedRevision := row.committedRevision
  agent := row.agent
  model := row.model

/-- The calls that a model result declares, from declaration index `index` on. -/
def declaredCalls (reference : JsText → Option Nat → ContentReference) (includeFullText : Bool) :
    Nat → List ToolCall → List DeclaredCall
  | _, [] => []
  | index, call :: calls =>
    let (arguments, details) := boundedArguments call.arguments
      (reference (canonicalJson call.arguments) (some index)) includeFullText
    { callId := call.callId, name := call.name, arguments, details } ::
      declaredCalls reference includeFullText (index + 1) calls

def providerEventObservation (event : StoredExecutionEvent)
    (semanticOccurrenceId : Option RecordId) (sessionId : SessionId) (cut : Nat)
    (includeFullText : Bool) (turn : Nat) (input : ProviderRuntimeEvent) : List Observation :=
  let executionId := event.executionId
  let reference (field : ContentField) (text : JsText) (sourceIndex : Option Nat) :=
    contentReference exactByteDigest sessionId executionId field event.ordinal cut text
      (some event.ordinal) sourceIndex
  match input with
  | .assistantProgress text request =>
    let (text, details) := boundedText text (reference .message text none) includeFullText
    [.assistantProgress executionId turn event.ordinal event.firstEventOrdinal request text
      semanticOccurrenceId details]
  | .modelResult result request =>
    let detail := result.visibleText.map fun text =>
      boundedText text (reference .message text none) includeFullText
    [.modelResult executionId turn event.ordinal event.firstEventOrdinal request
      (detail.map (·.1)) semanticOccurrenceId (detail.bind (·.2))
      (result.declaredCalls.map (declaredCalls (reference .toolArguments) includeFullText 0))]
  | .toolCall call callIndex request =>
    let (arguments, details) := boundedArguments call.arguments
      (reference .toolArguments (canonicalJson call.arguments) (some callIndex)) includeFullText
    match semanticOccurrenceId with
    | none => []
    | some occurrence =>
      [.toolCall executionId turn event.ordinal occurrence (some callIndex) request call.callId
        call.name arguments details]
  | .toolProgress callId _ text callIndex request =>
    let (text, _) := boundedText text (reference .toolProgress text none) includeFullText
    [.toolProgress executionId turn event.ordinal request (some callIndex) callId text]
  | .toolResult result callIndex request =>
    let (text, details) :=
      boundedText result.text (reference .toolResult result.text none) includeFullText
    [.toolResult executionId turn event.ordinal request (some callIndex) result.callId result.name
      { text, outcome := result.outcome, terminal := result.terminal } details]
  | .turnOutcome _ => []

def eventObservation (event : StoredExecutionEvent) (semanticOccurrenceId : Option RecordId)
    (sessionId : SessionId) (cut : Nat) (includeFullText : Bool) : List Observation :=
  let executionId := event.executionId
  let reference (field : ContentField) (text : JsText) :=
    contentReference exactByteDigest sessionId executionId field event.ordinal cut text
      (some event.ordinal) none
  match event.payload with
  | .agentEvent (.contextNotice turn notice text) =>
    [.contextNotice executionId turn event.ordinal notice text]
  | .providerRequestStart turn request =>
    [.requestStart executionId turn event.ordinal
      ⟨some request.lane, request.modelStep, some request.ordinal⟩
      (some request.requestMetadata)]
  | .steer status text =>
    let (text, details) := boundedText text (reference .steering text) includeFullText
    [.steeringOperation executionId event.ordinal status text details]
  | .executionSettled outcome adoption =>
    [.executionSettled executionId event.ordinal none semanticOccurrenceId outcome none none
      adoption none]
  | .executionReconciled settlement =>
    [.executionSettled executionId event.ordinal none semanticOccurrenceId
      (match settlement with
        | .interrupted => .interrupted
        | .unknown => .unknown) none none .nonCanonical none]
  | .providerObservation turn input =>
    providerEventObservation exactByteDigest event semanticOccurrenceId sessionId cut
      includeFullText turn input
  | .agentEvent (.assistantThinking turn modelStep thinkingKind text complete requestKey) =>
    let request := requestKey.getD ⟨none, modelStep, none⟩
    let (text, details) := boundedText text (reference .thinking text) includeFullText
    [.thinking executionId turn event.ordinal request thinkingKind text complete details]
  | .agentEvent (.steeringMessage turn text) =>
    match semanticOccurrenceId with
    | none => []
    | some occurrence =>
      let (text, details) := boundedText text (reference .message text) includeFullText
      [.steeringApplied executionId turn event.ordinal occurrence text details]
  | _ => []

/-! ## Live application and replay -/

def applyObservations (state : ConversationState) (normalizer : ConversationNormalizer) :
    List Observation → List ConversationChange × ConversationState × ConversationNormalizer
  | [] => ([], state, normalizer)
  | observation :: observations =>
    let (changes, state, normalizer) := applyObservation state normalizer observation
    let (rest, state, normalizer) := applyObservations state normalizer observations
    (changes ++ rest, state, normalizer)

def observationsFromAppendResults (results : List HistoryAppendResult) (sessionId : SessionId)
    (cut : Nat) : List Observation :=
  results.flatMap fun result =>
    eventObservation exactByteDigest result.event result.semanticOccurrenceId sessionId cut false

def applyHistoryAppendResults (state : ConversationState) (normalizer : ConversationNormalizer)
    (results : List HistoryAppendResult) (cut : Nat) :
    List ConversationChange × ConversationState × ConversationNormalizer :=
  applyObservations state normalizer
    (observationsFromAppendResults exactByteDigest results state.sessionId cut)

/-- The observations of one stored execution: the execution itself, then its events. -/
def executionObservations (sessionId : SessionId) (cut : Nat) (includeFullText : Bool)
    (executionOrder : Nat) (facts : StoredSessionConversationExecution) : List Observation :=
  let row := facts.execution
  let (task, details) := boundedText row.task
    (contentReference exactByteDigest sessionId row.executionId .task 0 cut row.task none none)
    includeFullText
  .execution (executionMetadata row task) executionOrder details ::
    facts.events.flatMap fun result =>
      eventObservation exactByteDigest result.event result.semanticOccurrenceId sessionId cut
        includeFullText

/-- The observations of a session; an execution without a stored order takes the next one. -/
def sessionObservations (sessionId : SessionId) (cut : Nat) (includeFullText : Bool) :
    Nat → List StoredSessionConversationExecution → List Observation
  | _, [] => []
  | fallbackExecutionOrder, facts :: executions =>
    let executionOrder := facts.executionOrder.getD fallbackExecutionOrder
    executionObservations exactByteDigest sessionId cut includeFullText executionOrder facts ++
      sessionObservations sessionId cut includeFullText
        (max fallbackExecutionOrder (executionOrder + 1)) executions

def replaySessionConversation (sessionId : SessionId)
    (executions : List StoredSessionConversationExecution) (cut : Nat) (includeFullText : Bool) :
    ConversationState × ConversationNormalizer :=
  (applyObservations (createConversationState sessionId) createConversationNormalizer
    (sessionObservations exactByteDigest sessionId cut includeFullText 0 executions)).2

end Digest

end Henji
