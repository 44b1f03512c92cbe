import Henji.Core.AgentTurn

/-!
# How a turn ends

Delivery of events, the diagnostic and the counts of an ending turn, and the `finish…` functions
through which every return of the loop goes.

The three finish functions of the source call each other; the calls end because a failed cleanup
is settled without arbitration. Here `finishCleanupFailure` is that last case, and the others
follow in the order in which they may call.
-/

namespace Henji

namespace Loop

variable {ω α β : Type}

/-- Go on with the value, unless the turn has ended. -/
def andThen (m : TurnEffect ω (Stage α)) (f : α → TurnEffect ω (Stage β)) :
    TurnEffect ω (Stage β) := m >>= fun stage =>
  match stage with
  | .finished outcome => pure (.finished outcome)
  | .next value => f value

/-- End the turn. -/
def finish (m : TurnEffect ω LoopOutcome) : TurnEffect ω (Stage α) :=
  m >>= fun outcome => pure (.finished outcome)

/-- Call foreign code when it was supplied. -/
def callOptional (code : Option (Callback ω β α)) (input : β) : TurnEffect ω (Option α) :=
  match code with
  | none => pure none
  | some code => call code input >>= fun a => pure (some a)

/-- An `await` of a value that is already there. -/
def suspend (t : AgentTurn ω) : TurnEffect ω Unit := fun s =>
  (.ok (), (t.suspended s.world).1.foldl (fun s action => s.act action)
    { s with world := (t.suspended s.world).2 })

/-! ## Delivery and the transcript -/

/-- `deliverEvent`: any failure of the sink is a delivery error. -/
def deliverEvent (t : AgentTurn ω) (event : LoopEvent) : TurnEffect ω Unit := do
  modify fun s => { s with offered := s.offered ++ [event] }
  match t.eventSink with
  | none => pure ()
  | some sink =>
    match ← Effect.attempt (call sink event) with
    | .ok _ => pure ()
    | .error _ => throw .eventDelivery

def pushMessage (message : Message) : TurnEffect ω Unit :=
  modify fun s => { s with transcript := s.transcript ++ [message] }

/-- `transcriptSources.push(requestMessageSource?.(…) ?? [])`. -/
def pushSource (t : AgentTurn ω) (message : Message) (kind : RequestMessageSourceKind)
    (messageIndex : Nat) (modelStep : Option Nat) : TurnEffect ω Unit := do
  let source ← callOptional t.requestMessageSource (message, kind, messageIndex, modelStep)
  modify fun s => { s with transcriptSources := s.transcriptSources ++ [source.getD []] }

/-- The sources of the committed messages, from an index on. -/
def pushCommittedSources (t : AgentTurn ω) : Nat → List Message → TurnEffect ω Unit
  | _, [] => pure ()
  | index, message :: messages => do
    pushSource t message .committed index none
    pushCommittedSources t (index + 1) messages

/-- `steering?.consume()`. -/
def consumeSteering : TurnEffect ω (Option JsText) := fun s =>
  match s.shared.steering with
  | none => (.ok none, s)
  | some owner =>
    (.ok owner.consume.1, { s with shared := { s.shared with steering := some owner.consume.2 } })

/-- `steering?.close()`. -/
def closeSteering (s : TurnState ω) : TurnState ω :=
  { s with shared := { s.shared with steering := s.shared.steering.map (·.close) } }

def applySteering (t : AgentTurn ω) : TurnEffect ω Bool := do
  match ← consumeSteering with
  | none => return false
  | some text =>
    let message := Message.user text true
    pushMessage message
    deliverEvent t (.steeringMessage t.number message)
    let s ← get
    pushSource t message .steering (s.transcript.length - 1) (some s.steps)
    return true

/-! ## Diagnostics and counts -/

/-- A count is reported when it is a safe integer and not negative. -/
def boundedCount (value : Option Int) : Option Nat :=
  match value with
  | some value => if 0 ≤ value ∧ value ≤ 9007199254740991 then some value.toNat else none
  | none => none

def terminalRequestCounts (t : AgentTurn ω) : TurnEffect ω RequestCounts := do
  let turn ← callOptional t.turnProviderRequestCount ()
  let runtime ← callOptional t.runtimeProviderRequestCount ()
  return ⟨boundedCount turn, boundedCount runtime⟩

/-- The part of `FailureDiagnosticFact` that a call of `diagnosticFor` falls back to. -/
structure DiagnosticFallback where
  stage : String
  code : String
  modelStep : Option Nat
  details : Option Json

def unknownFallback : DiagnosticFallback := ⟨"unknown_stage", "unknown_code", none, none⟩

/-- `projectFailureDiagnosticFact`: only an error carries a fact. -/
def projectFailureDiagnosticFact : Option Cause → Option FailureFact
  | some (.thrown (.error _ fact)) => fact
  | _ => none

/-- The provider request count of a diagnostic. -/
def diagnosticCount (t : AgentTurn ω) (stage : String) (observed : Option FailureFact) :
    TurnEffect ω Int := do
  match ← callOptional t.turnProviderRequestCount () with
  | some count => return count
  | none => match observed with
    | some fact => return fact.requestCount
    | none =>
      if stage = "request_build" ∨ stage = "credential_resolution" then return 0
      else
        let aggregate ← callOptional (t.executionContext.map (·.aggregate)) ()
        return (aggregate.getD 0 : Nat)

/-- The model step of a diagnostic without a step of its own. -/
def diagnosticStep (stage : String) (steps : Nat) : Nat :=
  if stage = "request_build" ∨ stage = "request_admission" ∨ stage = "session_commit" ∨
      stage = "cancellation_cleanup" ∨ stage = "turn_control" then 0
  else steps

/-- The turn's one diagnostic: the one that exists, or a new record; a record that fails leaves
what the owner then holds. -/
def diagnosticFor (t : AgentTurn ω) (cause : Option Cause) (fallback : DiagnosticFallback) :
    TurnEffect ω (Option FailureDiagnostic) := do
  match t.diagnosticOwner with
  | none => return none
  | some owner =>
    match ← call owner.snapshot () with
    | some existing => return some existing
    | none =>
      let observed := projectFailureDiagnosticFact cause
      let stage := (observed.map (·.stage)).getD fallback.stage
      let code := (observed.map (·.code)).getD fallback.code
      let providerRequestCount ← diagnosticCount t stage observed
      let s ← get
      let details := cause.map fun cause =>
        ((observed.bind (·.details)).orElse fun _ => fallback.details).getD
          (t.captureFailureDetails cause stage [])
      let recorded ← Effect.attempt (call owner.record {
        stage, code, details, providerRequestCount
        retryCount := (observed.map (·.retryCount)).getD 0
        modelStep := fallback.modelStep.getD (diagnosticStep stage s.steps)
        httpStatus := observed.bind (·.httpStatus)
        parseReason := observed.bind (·.parseReason) })
      match recorded with
      | .ok diagnostic => return some diagnostic
      | .error _ => call owner.snapshot ()

/-! ## Outcomes -/

/-- An outcome that is not a success, at the state's transcript and counts. -/
def failureOutcome (t : AgentTurn ω) (s : TurnState ω) (stopReason : LoopStopReason)
    (error : Option JsText) (diagnostic : Option FailureDiagnostic)
    (requestCounts : RequestCounts) : LoopOutcome where
  ok := false
  task := t.task
  kind := stopReason
  stopReason := stopReason
  finalText := none
  terminalKind := none
  error := error
  diagnostic := diagnostic
  requestCounts := requestCounts
  steps := s.steps
  toolCallCount := s.toolCallCount
  toolResultCount := s.toolResultCount
  transcript := s.transcript

/-- `contractFailure`. -/
def contractFailure (t : AgentTurn ω) (s : TurnState ω) (error : JsText)
    (diagnostic : Option FailureDiagnostic) (requestCounts : RequestCounts) : LoopOutcome :=
  failureOutcome t s .contractFailure (some error) diagnostic requestCounts

/-- `cancelled`, with the diagnostic and the counts that its caller adds. -/
def cancelled (t : AgentTurn ω) (s : TurnState ω) (diagnostic : Option FailureDiagnostic)
    (requestCounts : RequestCounts) : LoopOutcome :=
  failureOutcome t s .cancelled none diagnostic requestCounts

/-- `maxSteps`. -/
def maxSteps (t : AgentTurn ω) (s : TurnState ω) : LoopOutcome :=
  failureOutcome t s .maxSteps none none ⟨none, none⟩

/-- A successful outcome: a final answer, or the result of a terminal tool. -/
def successOutcome (t : AgentTurn ω) (s : TurnState ω) (stopReason : LoopStopReason)
    (finalText : JsText) (terminalKind : Option TerminalKind) : LoopOutcome where
  ok := true
  task := t.task
  kind := .final
  stopReason := stopReason
  finalText := some finalText
  terminalKind := terminalKind
  error := none
  diagnostic := none
  requestCounts := ⟨none, none⟩
  steps := s.steps
  toolCallCount := s.toolCallCount
  toolResultCount := s.toolResultCount
  transcript := s.transcript

/-! ## Finishing -/

/-- `cancellation?.markCleanupFailed()`. -/
def markCleanupFailed : TurnEffect ω Unit := modify (TurnState.act .markCleanupFailed)

/-- `!ownsCancellation || cancellation === undefined || cancellation.trySettleNormally()`. -/
def settleNormally (t : AgentTurn ω) : TurnEffect ω Bool := fun s =>
  match s.shared.cancellation with
  | none => (.ok true, s)
  | some owner =>
    if t.ownsCancellation then
      (.ok owner.trySettleNormally.1, { s with shared := { s.shared with
        cancellation := some owner.trySettleNormally.2 } })
    else (.ok true, s)

/-- `if (ownsCancellation) cancellation?.settleCancelled()`. -/
def settleCancelled (t : AgentTurn ω) : TurnEffect ω Unit :=
  modify fun s => { s with shared := { s.shared with
    cancellation := if t.ownsCancellation then s.shared.cancellation.map (·.settleCancelled)
      else s.shared.cancellation } }

/-- The end of `finishContractFailure`: no arbitration is left. -/
def endContractFailure (t : AgentTurn ω) (error : JsText) (fallback : DiagnosticFallback)
    (cause : Cause) : TurnEffect ω LoopOutcome := do
  let diagnostic ← diagnosticFor t (some cause) fallback
  let requestCounts ← terminalRequestCounts t
  let outcome := contractFailure t (← get) error diagnostic requestCounts
  deliverEvent t (.turnEnd t.number .contractFailure false requestCounts diagnostic)
  return outcome

def cleanupFailureText : JsText := js "cancellation cleanup failed"

/-- `finishContractFailure('cancellation cleanup failed', …)`. -/
def finishCleanupFailure (t : AgentTurn ω) (fallback : DiagnosticFallback) (cause : Cause) :
    TurnEffect ω LoopOutcome := do
  markCleanupFailed
  endContractFailure t cleanupFailureText fallback cause

def finishCancelled (t : AgentTurn ω) : TurnEffect ω LoopOutcome := do
  let s ← get
  if s.shared.cancellation.map (·.state) = some .cleanupFailed then
    finishCleanupFailure t unknownFallback (.text cleanupFailureText)
  else do
    settleCancelled t
    let diagnostic ← diagnosticFor t none ⟨"turn_control", "turn_cancelled", some 0, none⟩
    let s ← get
    let requestCounts ← terminalRequestCounts t
    deliverEvent t (.turnEnd t.number .cancelled false requestCounts diagnostic)
    return cancelled t s diagnostic requestCounts

/-- `finishContractFailure` with any other error: a cancellation that came first wins. -/
def finishContractFailure (t : AgentTurn ω) (error : JsText) (fallback : DiagnosticFallback)
    (cause : Cause) : TurnEffect ω LoopOutcome := do
  if ← settleNormally t then endContractFailure t error fallback cause
  else finishCancelled t

/-- Call `commit` and note the call. -/
def callCommit (commit : Callback ω (List Message) Unit) (transcript : List Message) :
    TurnEffect ω (Except Thrown Unit) := do
  let shared := (← get).shared
  let ended ← Effect.attempt (call commit transcript)
  modify fun s => { s with
    commits := s.commits ++ [⟨transcript, shared, ended.isOk⟩] }
  return ended

/-- The end of a settled turn: a normal `turn_end`. -/
def endNormal (t : AgentTurn ω) (outcome : LoopOutcome) (committed : Bool)
    (requestCounts : RequestCounts) (diagnostic : Option FailureDiagnostic) :
    TurnEffect ω LoopOutcome := do
  deliverEvent t (.turnEnd t.number outcome.stopReason committed requestCounts diagnostic)
  return outcome

/-- The catch of a failed commit. -/
def endCommitFailure (t : AgentTurn ω) (requestCounts : RequestCounts) (error : Thrown) :
    TurnEffect ω LoopOutcome := do
  let diagnostic ← diagnosticFor t (some (.thrown error))
    ⟨"session_commit", "commit_error", some 0, none⟩
  let failure := contractFailure t (← get) (js "session commit failure: " ++ errorText error)
    diagnostic requestCounts
  deliverEvent t (.turnEnd t.number .contractFailure false requestCounts diagnostic)
  return failure

/-- `outcome.ok && (stopReason === 'final' || stopReason === 'tool_terminal')`. -/
def successful (outcome : LoopOutcome) : Bool :=
  outcome.ok && (outcome.stopReason = .final || outcome.stopReason = .toolTerminal)

/-- `{ ...outcome, ...requestCounts, diagnostic }`: what is absent leaves the outcome's own. -/
def settledOutcome (outcome : LoopOutcome) (requestCounts : RequestCounts)
    (diagnostic : Option FailureDiagnostic) : LoopOutcome :=
  { outcome with
    requestCounts := {
      turnProviderRequestCount := requestCounts.turnProviderRequestCount.or
        outcome.requestCounts.turnProviderRequestCount
      runtimeProviderRequestCount := requestCounts.runtimeProviderRequestCount.or
        outcome.requestCounts.runtimeProviderRequestCount }
    diagnostic := diagnostic.or outcome.diagnostic }

/-- What `finishNormal` does once the turn has settled. -/
def endSettled (t : AgentTurn ω) (outcome : LoopOutcome) : TurnEffect ω LoopOutcome := do
  let owned ← callOptional (t.diagnosticOwner.map (·.snapshot)) ()
  let diagnostic := owned.join
  let requestCounts ← terminalRequestCounts t
  let settled := settledOutcome outcome requestCounts diagnostic
  if successful outcome then
    match t.commit with
    | none => endNormal t settled false requestCounts diagnostic
    | some commit =>
      match ← callCommit commit outcome.transcript with
      | .ok _ => endNormal t settled true requestCounts diagnostic
      | .error error => endCommitFailure t requestCounts error
  else endNormal t settled false requestCounts diagnostic

def finishNormal (t : AgentTurn ω) (outcome : LoopOutcome) : TurnEffect ω LoopOutcome := do
  modify closeSteering
  -- A re-entrant cancellation from the final event sink wins over normal settlement.
  if ← settleNormally t then endSettled t outcome
  else finishCancelled t

def finishMaxSteps (t : AgentTurn ω) : TurnEffect ω LoopOutcome := do
  if ← aborted then finishCancelled t
  else do
    let _ ← diagnosticFor t none ⟨"turn_control", "model_step_limit", some 0, none⟩
    finishNormal t (maxSteps t (← get))

end Loop

end Henji
