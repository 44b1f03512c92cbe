import Henji.Core.LoopEnd

/-!
# The agent loop

`runAgentTurn` runs one user turn: it appends the task to a copy of the committed transcript, asks
the model, runs the tools that the model calls, and goes on until the turn ends.
-/

namespace Henji

namespace Loop

variable {ω α β : Type}

/-! ## The request of a step -/

/-- The projection that was supplied, the one with sources first. -/
def projection (t : AgentTurn ω) (request : ModelRequest) (sources : Sources) :
    TurnEffect ω (ModelRequest × Sources) :=
  match t.projectParentRequestWithSources with
  | some project => call project (request, sources)
  | none => do
    let projected ← callOptional t.projectParentRequest request
    return (projected.getD request, sources)

/-- Project the request; a cancellation during the projection is thrown. -/
def projectRequest (t : AgentTurn ω) (request : ModelRequest) (sources : Sources) :
    TurnEffect ω (ModelRequest × Sources) := do
  let projected ← projection t request sources
  throwIfCancelled
  return projected

def prepareRequest (t : AgentTurn ω) : TurnEffect ω (Stage (ModelRequest × Sources)) := do
  let s ← get
  let request : ModelRequest := ⟨t.systemInstruction, s.transcript, t.registry.definitions⟩
  match ← Effect.attempt (projectRequest t request s.transcriptSources) with
  | .ok prepared => return .next prepared
  | .error error =>
    let stopped ← aborted
    if error = .turnCancelled ∨ stopped = true then finish (finishCancelled t)
    else finish (finishContractFailure t (js "context preparation failure: " ++ errorText error)
      ⟨"request_build", "invalid_input", some 0, none⟩ (.thrown error))

def budgetExhaustedText : JsText := js "model request budget exhausted"

/-- The body of the `try` around the admission of a model request. -/
def claimRequest (t : AgentTurn ω) : TurnEffect ω (Stage Unit) := do
  throwIfCancelled
  if (← callOptional (t.executionContext.map (·.claimModelRequest)) ()) = some false then
    finish (finishContractFailure t budgetExhaustedText
      ⟨"request_admission", "request_budget_exhausted", some 0, none⟩ (.text budgetExhaustedText))
  else do
    throwIfCancelled
    return .next ()

def admitRequest (t : AgentTurn ω) : TurnEffect ω (Stage Unit) := do
  match ← Effect.attempt (claimRequest t) with
  | .ok stage => return stage
  | .error error =>
    if error = .turnCancelled then finish (finishCancelled t)
    else throw error

/-- `evidence?.setContextRequestOrdinal(ordinal)`. -/
def setContextRequestOrdinal (t : AgentTurn ω) (ordinal : Option Nat) : TurnEffect ω Unit := do
  let _ ← callOptional (t.evidence.map (·.setContextRequestOrdinal)) ordinal

/-- The body of the `try` around the observation of a request. -/
def reportRequest (t : AgentTurn ω) (request : ModelRequest) (sources : Sources) :
    TurnEffect ω Unit := do
  let s ← get
  let ordinal ← callOptional (t.executionContext.bind (·.observeModelRequest)) {
    request
    modelStep := s.steps
    modelSelection := t.executionContext.bind (·.modelSelection)
    sourceAttribution := sources
    previousTranscriptLength := s.observedTranscriptLength }
  suspend t
  modify fun s => { s with observedTranscriptLength := request.transcript.length }
  setContextRequestOrdinal t ordinal

def observeRequest (t : AgentTurn ω) (request : ModelRequest) (sources : Sources) :
    TurnEffect ω (Stage Unit) := do
  modify fun s => { s with steps := s.steps + 1 }
  match ← Effect.attempt (reportRequest t request sources) with
  | .ok _ => return .next ()
  | .error error =>
    finish (finishContractFailure t
      (js "context request observation failure: " ++ errorText error)
      ⟨"request_build", "invalid_input", some (← get).steps, none⟩ (.thrown error))

/-! ## Live reports -/

def modifyLive (f : LiveProgress → LiveProgress) : TurnEffect ω Unit :=
  modify fun s => { s with live := f s.live }

/-- `cancellation?.request()`. -/
def requestCancellation : TurnEffect ω Unit :=
  modify (TurnState.act .requestCancellation)

/-- `deliverLive`: a failed delivery owns the cancellation synchronously. -/
def deliverLive (t : AgentTurn ω) (event : LoopEvent) (record : TurnEffect ω Unit) :
    TurnEffect ω Unit := do
  match ← Effect.attempt (deliverEvent t event >>= fun _ => record) with
  | .ok _ => pure ()
  | .error _ => do
    modifyLive fun live => { live with progressFailed := true }
    requestCancellation
    throw .eventDelivery

def liveUpdateMinIntervalMs : Int := 100
def liveUpdateMaxIntervalMs : Int := 500

/-- `due` of a live cadence that last accepted at `previousAt`: the time, when a snapshot is
due. -/
def due (t : AgentTurn ω) (previousAt : Option Int) (gainedLine : Bool) :
    TurnEffect ω (Option Int) := do
  let now ← call t.now ()
  return match previousAt with
    | none => some now
    | some previous =>
      if now - previous < liveUpdateMinIntervalMs then none
      else if gainedLine || liveUpdateMaxIntervalMs ≤ now - previous then some now
      else none

def reportAssistantProgress (t : AgentTurn ω) (text : JsText) : TurnEffect ω Unit := do
  let s ← get
  if s.live.progressFailed ∨ s.shared.aborted = true ∨ text = s.live.lastProgressText then pure ()
  else do
    let gainedLine := s.live.lastProgressText.length < text.length &&
      (text.drop s.live.lastProgressText.length).contains 0xa
    match ← due t s.live.progressAt gainedLine with
    | none => pure ()
    | some now =>
      if isValidAssistantProgressSnapshot text then do
        deliverLive t (.assistantProgress t.number text) (do
          let _ ← callOptional (t.evidence.map (·.recordAssistantProgress)) (text, s.steps))
        modifyLive fun live => { live with lastProgressText := text, progressAt := some now }
      else pure ()

/-- The observed thinking of a request: its full text, or else its summary. -/
def observedThinking (live : LiveProgress) : Option ReadableThinking :=
  selectThinking live.thinkingText live.thinkingSummary

/-- Add one thinking fragment to its kind. -/
def addThinking (thinking : ReadableThinking) (live : LiveProgress) : LiveProgress :=
  match thinking.kind with
  | .text => { live with
      thinkingText := live.thinkingText ++ thinking.text
      pendingLineText := live.pendingLineText || thinking.text.contains 0xa }
  | .summary => { live with
      thinkingSummary := live.thinkingSummary ++ thinking.text
      pendingLineSummary := live.pendingLineSummary || thinking.text.contains 0xa }

def pendingLine (live : LiveProgress) : ThinkingKind → Bool
  | .text => live.pendingLineText
  | .summary => live.pendingLineSummary

def clearPendingLine (live : LiveProgress) : ThinkingKind → LiveProgress
  | .text => { live with pendingLineText := false }
  | .summary => { live with pendingLineSummary := false }

/-- The time at which a thinking snapshot is due: at once when its kind changed. -/
def thinkingTime (t : AgentTurn ω) (live : LiveProgress) (kindChanged : Bool)
    (kind : ThinkingKind) : TurnEffect ω (Option Int) :=
  if kindChanged then call t.now () >>= fun now => pure (some now)
  else due t live.thinkingAt (pendingLine live kind)

def reportThinkingDelta (t : AgentTurn ω) (delta : ReadableThinking) : TurnEffect ω Unit := do
  modifyLive (addThinking delta)
  let s ← get
  if s.live.progressFailed ∨ s.shared.aborted = true then pure ()
  else match observedThinking s.live with
    | none => pure ()
    | some thinking =>
      let kindChanged := s.live.thinkingLive.any fun live => live.kind ≠ thinking.kind
      let unchanged := s.live.thinkingLive.any fun live =>
        live.text.length == thinking.text.length
      if !kindChanged && unchanged then pure ()
      else do
        match ← thinkingTime t s.live kindChanged thinking.kind with
        | none => pure ()
        | some now =>
          if isValidAssistantProgressSnapshot thinking.text then do
            deliverLive t (.assistantThinking t.number s.steps thinking false) (pure ())
            modifyLive fun live => clearPendingLine
              { live with thinkingLive := some thinking, thinkingAt := some now } thinking.kind
          else pure ()

/-- The reporters that the model is given; without a sink there are none. -/
def onModelReport (t : AgentTurn ω) (report : ModelReport) : TurnEffect ω Unit :=
  if t.eventSink.isSome then
    match report with
    | .assistantProgress text => reportAssistantProgress t text
    | .thinkingDelta thinking => reportThinkingDelta t thinking
  else pure ()

/-- The settled thinking of a request. An incomplete settle identical to the last live snapshot
adds no fact; the completed settle always does. -/
def emitThinking (t : AgentTurn ω) (complete : Bool) (state : Option Json) :
    TurnEffect ω Unit := do
  let s ← get
  match (readableThinkingFromState state).or (observedThinking s.live) with
  | none => pure ()
  | some thinking =>
    if !complete && s.live.thinkingLive = some thinking then pure ()
    else deliverEvent t (.assistantThinking t.number s.steps thinking complete)

/-! ## The model's result -/

/-- `cancellationFrom(error)`. -/
def cancellationFrom (error : Thrown) (stopped : Bool) : Bool :=
  error = .turnCancelled || (stopped && error ≠ .cancellationCleanup)

def cleanupFallback : DiagnosticFallback := ⟨"cancellation_cleanup", "cleanup_error", some 0, none⟩

/-- A failed delivery rejects the turn once the foreign code has settled. -/
def rejectDelivery (error : Thrown) : TurnEffect ω α := do
  if error = .cancellationCleanup then do
    markCleanupFailed
    throw .eventDelivery
  else throw .eventDelivery

/-- The catch of `model.generate`. -/
def generateFailed (t : AgentTurn ω) (error : Thrown) : TurnEffect ω (Stage α) := do
  setContextRequestOrdinal t none
  emitThinking t false none
  let s ← get
  if s.live.progressFailed then rejectDelivery error
  else if error = .cancellationCleanup then
    finish (finishCleanupFailure t cleanupFallback (.thrown error))
  else if cancellationFrom error s.shared.aborted then finish (finishCancelled t)
  else finish (finishContractFailure t (js "model contract failure: " ++ errorText error)
    unknownFallback (.thrown error))

def invalidResultText : JsText := js "model contract failure: invalid result"

/-- The fallback of a result that fails the check, with its shape. -/
def invalidResultFallback (t : AgentTurn ω) (reply : ModelReply) : DiagnosticFallback where
  stage := "model_result_validation"
  code := "invalid_model_result"
  modelStep := none
  details := some (t.captureFailureDetails
    (.text (js "Model result did not satisfy the current contract")) "model_result_validation"
    [("field", "result"), ("expectedShape", "final or tool_calls model result"),
      ("actualShape", actualShape reply)])

/-- The continuation of a `model.generate` that returned. -/
def receiveResult (t : AgentTurn ω) (reply : ModelReply) :
    TurnEffect ω (Stage ModelResult) := do
  let s ← get
  if s.live.progressFailed then throw .eventDelivery
  else if s.shared.aborted = true then do
    emitThinking t false none
    finish (finishCancelled t)
  else match checkedResult reply with
    | none => do
      emitThinking t false none
      finish (finishContractFailure t invalidResultText (invalidResultFallback t reply)
        (.text invalidResultText))
    | some result => do
      emitThinking t true result.providerState
      return .next result

def generateResult (t : AgentTurn ω) (request : ModelRequest) :
    TurnEffect ω (Stage ModelResult) := do
  modifyLive fun _ => .start
  let s ← get
  let options := if s.shared.hasSignal || t.eventSink.isSome || t.evidence.isSome then
      some ⟨s.shared.hasSignal, t.eventSink.isSome, t.evidence.isSome, s.steps⟩
    else none
  match ← Effect.attempt (callReporting t.model.generate (onModelReport t) (request, options)) with
  | .ok reply => receiveResult t reply
  | .error error => generateFailed t error

/-- Append an assistant message and tell the sink. -/
def appendAssistant (t : AgentTurn ω) (message : Message) : TurnEffect ω Unit := do
  let s ← get
  pushMessage message
  deliverEvent t (.assistantMessage t.number message)
  pushSource t message .assistant s.transcript.length (some s.steps)

/-- The branch of a final answer: a steering message continues the turn. -/
def answerFinal (t : AgentTurn ω) (text : JsText) (providerState : Option Json) :
    TurnEffect ω (Stage Unit) := do
  setContextRequestOrdinal t none
  appendAssistant t (.assistant (.text text) none providerState)
  if ← aborted then finish (finishCancelled t)
  else if ← applySteering t then return .next ()
  else finish (do finishNormal t (successOutcome t (← get) .final text none))

/-! ## Tool calls -/

/-- `evidence?.record…`, once the model result has an attribution. -/
def recordEvidence (t : AgentTurn ω) (attribution : Option RequestReference)
    (record : ProviderEvidence ω → Callback ω β Unit) (input : RequestReference → β) :
    TurnEffect ω Unit := do
  match attribution with
  | none => pure ()
  | some attribution => do
    let _ ← callOptional (t.evidence.map record) (input attribution)

/-- The error result of a call in a batch that mixes a terminal tool with other calls. -/
def terminalBatchError (call : ToolCall) : ToolResultContent :=
  ⟨call.callId, call.name, js "terminal tool must be the sole call in its batch", .error, none,
    none⟩

/-- Tell the sink and the recorder of a result. -/
def deliverResult (t : AgentTurn ω) (attribution : Option RequestReference) (callIndex : Nat)
    (result : ToolResultContent) (hookEffect : Option Json) : TurnEffect ω Unit := do
  deliverEvent t (.toolResult t.number result hookEffect)
  modify fun s => { s with toolResultCount := s.toolResultCount + 1 }
  recordEvidence t attribution (·.recordToolResult) fun a => (result, callIndex, a, hookEffect)

/-- Tell the sink and the recorder of a call. -/
def deliverCall (t : AgentTurn ω) (attribution : Option RequestReference) (callIndex : Nat)
    (call : ToolCall) (hookEffect : Option Json) : TurnEffect ω Unit := do
  deliverEvent t (.toolCall t.number call hookEffect)
  recordEvidence t attribution (·.recordToolCall) fun a => (call, callIndex, a, hookEffect)

/-- One call of an invalid batch. -/
def rejectCall (t : AgentTurn ω) (attribution : Option RequestReference) (callIndex : Nat)
    (call : ToolCall) : TurnEffect ω (Stage RegistryDispatchResult) := do
  deliverCall t attribution callIndex call none
  if ← aborted then finish (finishCancelled t)
  else do
    deliverResult t attribution callIndex (terminalBatchError call) none
    return .next ⟨terminalBatchError call, none⟩

def maxToolProgressUpdatesPerCall : Nat := 64

/-- The reporter of one tool call; without a sink there is none. -/
def onToolProgress (t : AgentTurn ω) (attribution : Option RequestReference) (callIndex : Nat)
    (call : ToolCall) (text : JsText) : TurnEffect ω Unit := do
  let s ← get
  if t.eventSink.isNone ∨ s.toolLive.progressFailed ∨ s.shared.aborted = true ∨
      maxToolProgressUpdatesPerCall ≤ s.toolLive.acceptedProgress ∨
      ¬ isValidToolProgressSnapshot text then pure ()
  else do
    modify fun s => { s with toolLive := { s.toolLive with
      acceptedProgress := s.toolLive.acceptedProgress + 1 } }
    let delivered ← Effect.attempt (do
      deliverEvent t (.toolProgress t.number call.callId call.name text)
      recordEvidence t attribution (·.recordToolProgress) fun a => (call, text, callIndex, a))
    match delivered with
    | .ok _ => pure ()
    | .error _ => do
      modify fun s => { s with toolLive := { s.toolLive with progressFailed := true } }
      requestCancellation
      throw .eventDelivery

/-- The error result of a failed `before_tool` hook. -/
def hookFailureResult (t : AgentTurn ω) (call : ToolCall) (failure : HookEffectFailure) :
    RegistryDispatchResult :=
  let message := js "before_tool hook " ++ failure.name ++ js ": " ++ failure.reason
  continuing call message .error
    (some (t.captureFailureDetails (.thrown (.error message none)) "hook_before_tool" []))

/-- The catch of a dispatch. -/
def dispatchFailed (t : AgentTurn ω) (call : ToolCall) (error : Thrown) :
    TurnEffect ω (Stage RegistryDispatchResult) := do
  let s ← get
  if s.toolLive.progressFailed then rejectDelivery error
  else if error = .cancellationCleanup then
    finish (finishCleanupFailure t cleanupFallback (.thrown error))
  else if cancellationFrom error s.shared.aborted then finish (finishCancelled t)
  else return .next (continuing call (js "tool execution error: " ++ errorText error) .error
    (some (t.captureFailureDetails (.thrown error) "tool_dispatch" [])))

/-- Dispatch a call and wait for it. -/
def dispatchCall (t : AgentTurn ω) (attribution : Option RequestReference) (callIndex : Nat)
    (call : ToolCall) (arguments : Json) : TurnEffect ω (Stage RegistryDispatchResult) := do
  modify fun s => { s with toolLive := ⟨false, 0⟩ }
  let s ← get
  let ended ← Effect.attempt (dispatch t.captureFailureDetails t.registry { call with arguments }
    ⟨s.steps, call.callId, t.eventSink.isSome⟩ (onToolProgress t attribution callIndex call))
  suspend t
  match ended with
  | .error error => dispatchFailed t call error
  | .ok dispatched =>
    if (← get).toolLive.progressFailed then throw .eventDelivery
    else return .next dispatched

/-- `beforeTool`, or the call's own arguments. -/
def prepareCall (t : AgentTurn ω) (call : ToolCall) : TurnEffect ω PreparedCall := do
  let s ← get
  let prepared ← callOptional t.beforeTool (call, s.steps)
  return prepared.getD ⟨call.arguments, false, none, none⟩

/-- The result of a prepared call, before the `after_tool` hooks. -/
def obtainResult (t : AgentTurn ω) (attribution : Option RequestReference) (callIndex : Nat)
    (call : ToolCall) (prepared : PreparedCall) : TurnEffect ω (Stage RegistryDispatchResult) :=
  match prepared.failure with
  | some failure => pure (.next (hookFailureResult t call failure))
  | none => dispatchCall t attribution callIndex call prepared.arguments

/-- `afterTool`, when it was supplied and `before_tool` did not fail. -/
def processResult (t : AgentTurn ω) (call : ToolCall) (prepared : PreparedCall)
    (dispatched : RegistryDispatchResult) : TurnEffect ω ProcessedResult := do
  let s ← get
  let hook := if prepared.failure.isNone then t.afterTool else none
  let processed ← callOptional hook
    ⟨call, prepared.arguments, dispatched.content, dispatched.terminal, s.steps⟩
  return processed.getD ⟨dispatched.content, none⟩

/-- The note on the input that the tool received, when a hook changed it. -/
def supplemented (prepared : PreparedCall) (result : ToolResultContent) : ToolResultContent :=
  if prepared.applied ∧ prepared.failure.isNone then
    let supplement := js "[Input used by tool after before_tool processing: " ++
      stringify prepared.arguments ++ js "]"
    { result with text := result.text ++ [0xa, 0xa] ++ supplement }
  else result

/-- One call of a valid batch: its result, and the terminal result that its dispatch reported. -/
def performCall (t : AgentTurn ω) (attribution : Option RequestReference) (callIndex : Nat)
    (call : ToolCall) : TurnEffect ω (Stage RegistryDispatchResult) := do
  let prepared ← prepareCall t call
  deliverCall t attribution callIndex call prepared.hookEffect
  if ← aborted then finish (finishCancelled t)
  else andThen (obtainResult t attribution callIndex call prepared) fun dispatched => do
    if ← aborted then finish (finishCancelled t)
    else do
      let processed ← processResult t call prepared dispatched
      let result := supplemented prepared processed.result
      deliverResult t attribution callIndex result processed.hookEffect
      return .next ⟨result, dispatched.terminal⟩

/-- The loop over a batch: the results so far, and the last terminal result reported. -/
def runCalls (t : AgentTurn ω) (attribution : Option RequestReference) (invalidBatch : Bool) :
    List ToolCall → List ToolResultContent → Option TerminalResult →
      TurnEffect ω (Stage (List ToolResultContent × Option TerminalResult))
  | [], results, terminal => pure (.next (results, terminal))
  | call :: calls, results, terminal => do
    if ← aborted then finish (finishCancelled t)
    else do
      modify fun s => { s with toolCallCount := s.toolCallCount + 1 }
      andThen (if invalidBatch then rejectCall t attribution results.length call
          else performCall t attribution results.length call) fun performed =>
        runCalls t attribution invalidBatch calls (results ++ [performed.content])
          (performed.terminal.or terminal)

/-- A terminal tool must be the sole call of its batch. -/
def isInvalidTerminalBatch (t : AgentTurn ω) (calls : List ToolCall) : Bool :=
  let terminalCalls := calls.filter fun call =>
    (t.registry.resolve call.name).any (·.terminal)
  0 < terminalCalls.length && (calls.length ≠ 1 || terminalCalls.length ≠ 1)

/-- What follows the tool message of a batch. -/
def endBatch (t : AgentTurn ω) (terminal : Option TerminalResult) :
    TurnEffect ω (Stage Unit) := do
  setContextRequestOrdinal t none
  if ← aborted then finish (finishCancelled t)
  else match terminal with
    | some terminal =>
      finish (do finishNormal t (successOutcome t (← get) .toolTerminal terminal.finalText
        (some terminal.kind)))
    | none => do
      let _ ← applySteering t
      if t.limit ≤ (← get).steps then finish (finishMaxSteps t)
      else return .next ()

/-- The branch of tool calls. -/
def answerCalls (t : AgentTurn ω) (attribution : Option RequestReference)
    (calls : List ToolCall) (text : Option JsText) (providerState : Option Json) :
    TurnEffect ω (Stage Unit) := do
  appendAssistant t (.assistant (.calls calls) text providerState)
  andThen (runCalls t attribution (isInvalidTerminalBatch t calls) calls [] none)
    fun (results, terminal) => do
      let message := Message.tool results
      pushMessage message
      let s ← get
      pushSource t message .tool (s.transcript.length - 1) (some s.steps)
      endBatch t terminal

/-! ## The turn -/

/-- One round of the loop, after the checks at its top. -/
def step (t : AgentTurn ω) : TurnEffect ω (Stage Unit) :=
  andThen (prepareRequest t) fun (request, sources) =>
  andThen (admitRequest t) fun _ =>
  andThen (observeRequest t request sources) fun _ =>
  andThen (generateResult t request) fun result => do
    let s ← get
    let attribution ← callOptional (t.evidence.map (·.recordModelResult)) (result, s.steps)
    match result with
    | .final text providerState => answerFinal t text providerState
    | .toolCalls calls text providerState => answerCalls t attribution calls text providerState

/-- The loop. `remaining` is the limit less the steps taken, so that `steps >= limit` is
`remaining = 0`. The abort check at the top stands twice in the source, with nothing between. -/
def runSteps (t : AgentTurn ω) : Nat → TurnEffect ω LoopOutcome
  | 0 => do
    if ← aborted then finishCancelled t
    else finishMaxSteps t
  | remaining + 1 => do
    if ← aborted then finishCancelled t
    else match ← step t with
      | .finished outcome => return outcome
      | .next _ => runSteps t remaining

/-- `runAgentTurnInternal`. -/
def runAgentTurnInternal (t : AgentTurn ω) : TurnEffect ω LoopOutcome := do
  if t.maxSteps.getD 8 ≤ 0 then throw (.error (js "maxSteps must be a positive integer") none)
  else if t.turn.getD 1 ≤ 0 then throw (.error (js "turn must be a positive integer") none)
  else do
    modify fun s => { s with transcript := t.committedTranscript }
    pushCommittedSources t 0 t.committedTranscript
    let message := Message.user t.task false
    pushMessage message
    deliverEvent t (.turnStart t.number)
    deliverEvent t (.userMessage t.number message)
    pushSource t message .task t.committedTranscript.length none
    runSteps t t.limit

/-- Run exactly one user turn, and close its steering lane whichever way it ends. -/
def runAgentTurn (t : AgentTurn ω) : TurnEffect ω LoopOutcome :=
  Effect.finallyDo (do
    let outcome ← runAgentTurnInternal t
    suspend t
    return outcome) closeSteering

end Loop

end Henji
