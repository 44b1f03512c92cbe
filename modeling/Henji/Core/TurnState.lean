import Henji.Conversation.Model
import Henji.Core.Cancellation
import Henji.Core.Steering
import Henji.Library.Process

/-!
# The state of a running turn and its boundary

A turn calls code that it does not own: the model, tools, hooks, the event sink, the evidence
recorder, the diagnostic owner, the commit. Each is a `Callback`: a function of its input, of what
it shares with the loop and of its own world, that gives a process. While the process runs it may
request a cancellation, fire the other abort signal or admit a steering message; a suspended loop
sees what others did meanwhile as actions of the process it waits for.

Results:
1. `call_keeps`: what is stable under the actions and the world survives every callback.
-/

namespace Henji

/-! ## Errors -/

/-- The bounded failure fact that an error may carry, already checked by
`projectFailureDiagnosticFact`. Stage and code are the error's own texts. -/
structure FailureFact where
  stage : String
  code : String
  requestCount : Nat
  retryCount : Nat
  httpStatus : Option Nat
  parseReason : Option String
  details : Option Json
deriving DecidableEq

/-- What foreign code and the loop throw, as far as the loop tells errors apart. -/
inductive Thrown where
  | turnCancelled
  | cancellationCleanup
  | eventDelivery
  | toolInput (message : JsText)
  | error (message : JsText) (failureFact : Option FailureFact)
deriving DecidableEq

/-- `errorText`: the message of an error. -/
def errorText : Thrown → JsText
  | .turnCancelled => js "turn cancelled"
  | .cancellationCleanup => js "cancellation cleanup failed"
  | .eventDelivery => js "agent event delivery failed"
  | .toolInput message => message
  | .error message _ => message

/-! ## What a turn shares -/

/-- The owners and signals that the loop shares with the code around it. `signal` is the abort
signal given without an owner: whether it has fired. -/
structure SharedState where
  cancellation : Option TurnCancellationOwner
  signal : Option Bool
  steering : Option SteeringOwner

/-- What other code can do to the shared state at any moment. -/
inductive OutsideAction where
  | requestCancellation
  | markCleanupFailed
  | abortSignal
  | admitSteering (value : Option JsText)

namespace SharedState

/-- One outside action. -/
def act (shared : SharedState) : OutsideAction → SharedState
  | .requestCancellation =>
    { shared with cancellation := shared.cancellation.map (·.request) }
  | .markCleanupFailed =>
    { shared with cancellation := shared.cancellation.map (·.markCleanupFailed) }
  | .abortSignal => { shared with signal := shared.signal.map fun _ => true }
  | .admitSteering value =>
    { shared with steering := shared.steering.map fun owner => (owner.admitValue value).2 }

/-- `signal?.aborted`: the owner's signal goes before the other one. -/
def aborted (shared : SharedState) : Bool :=
  match shared.cancellation with
  | some owner => owner.aborted
  | none => shared.signal = some true

/-- `signal !== undefined`. -/
def hasSignal (shared : SharedState) : Bool :=
  shared.cancellation.isSome || shared.signal.isSome

end SharedState

/-! ## Events and outcomes -/

structure ReadableThinking where
  kind : ThinkingKind
  text : JsText
deriving DecidableEq, Repr

structure FailureDiagnostic where
  diagnosticId : String
  stage : String
  code : String
  lane : Lane
  providerRequestCount : Int
  httpStatus : Option Nat
  parseReason : Option String
  details : Option Json
  occurredAt : String
  turnNumber : Nat
  modelStep : Nat
  retryCount : Nat
deriving DecidableEq

structure RequestCounts where
  turnProviderRequestCount : Option Nat
  runtimeProviderRequestCount : Option Nat
deriving DecidableEq, Repr

/-- The events that a turn delivers to its sink. Hook effects are passed on unread. -/
inductive LoopEvent where
  | turnStart (turn : Nat)
  | userMessage (turn : Nat) (message : Message)
  | assistantMessage (turn : Nat) (message : Message)
  | assistantProgress (turn : Nat) (text : JsText)
  | assistantThinking (turn modelStep : Nat) (thinking : ReadableThinking) (complete : Bool)
  | toolCall (turn : Nat) (call : ToolCall) (hookEffect : Option Json)
  | toolResult (turn : Nat) (result : ToolResultContent) (hookEffect : Option Json)
  | toolProgress (turn : Nat) (callId name : String) (text : JsText)
  | steeringMessage (turn : Nat) (message : Message)
  | turnEnd (turn : Nat) (outcome : LoopStopReason) (committed : Bool)
      (requestCounts : RequestCounts) (diagnostic : Option FailureDiagnostic)
deriving DecidableEq

def LoopEvent.isTurnEnd : LoopEvent → Bool
  | .turnEnd .. => true
  | _ => false

/-- `LoopOutcome`, with the fields that the loop sets. `kind` is its `outcome` field. -/
structure LoopOutcome where
  ok : Bool
  task : JsText
  kind : LoopStopReason
  stopReason : LoopStopReason
  finalText : Option JsText
  terminalKind : Option TerminalKind
  error : Option JsText
  diagnostic : Option FailureDiagnostic
  requestCounts : RequestCounts
  steps : Nat
  toolCallCount : Nat
  toolResultCount : Nat
  transcript : List Message
deriving DecidableEq

/-! ## The state -/

/-- One call of the commit callback: its argument, the shared state it was called in, and
whether it returned. -/
structure CommitCall where
  transcript : List Message
  shared : SharedState
  returned : Bool

/-- The variables of one model request that its reporters write. -/
structure LiveProgress where
  progressFailed : Bool
  lastProgressText : JsText
  progressAt : Option Int
  thinkingText : JsText
  thinkingSummary : JsText
  pendingLineText : Bool
  pendingLineSummary : Bool
  thinkingLive : Option ReadableThinking
  thinkingAt : Option Int

/-- A request before its first report. -/
def LiveProgress.start : LiveProgress :=
  ⟨false, [], none, [], [], false, false, none, none⟩

/-- The variables of one tool call that its reporter writes. -/
structure ToolProgress where
  progressFailed : Bool
  acceptedProgress : Nat

/-- The loop's variables, the state it shares, the world of the foreign code, and two records of
what the loop did: the events it handed to `deliverEvent`, and its calls of `commit`. -/
structure TurnState (ω : Type) where
  world : ω
  shared : SharedState
  transcript : List Message
  transcriptSources : List (List Json)
  steps : Nat
  toolCallCount : Nat
  toolResultCount : Nat
  observedTranscriptLength : Nat
  live : LiveProgress
  toolLive : ToolProgress
  offered : List LoopEvent
  commits : List CommitCall

/-- The state in which a turn starts. -/
def TurnState.start {ω : Type} (shared : SharedState) (world : ω) : TurnState ω :=
  { world, shared, transcript := [], transcriptSources := [], steps := 0, toolCallCount := 0,
    toolResultCount := 0, observedTranscriptLength := 0, live := .start, toolLive := ⟨false, 0⟩,
    offered := [], commits := [] }

abbrev TurnEffect (ω α : Type) : Type := Effect Thrown (TurnState ω) α

/-- Foreign code with input `β` and result `α` that may call back with reports `R`. -/
abbrev Reporting (ω β R α : Type) : Type :=
  β → SharedState → ω → Process Thrown OutsideAction R α × ω

/-- Foreign code that does not call back. -/
abbrev Callback (ω β α : Type) : Type := Reporting ω β Empty α

section Calls

variable {ω α β R : Type}

/-- One outside action on the turn. -/
def TurnState.act (action : OutsideAction) (s : TurnState ω) : TurnState ω :=
  { s with shared := s.shared.act action }

/-- Call foreign code that may report. -/
def callReporting (code : Reporting ω β R α) (onReport : R → TurnEffect ω Unit) (input : β) :
    TurnEffect ω α := fun s =>
  ((code input s.shared s.world).1.exec TurnState.act onReport)
    { s with world := (code input s.shared s.world).2 }

def call (code : Callback ω β α) (input : β) : TurnEffect ω α :=
  callReporting code nofun input

/-- `signal?.aborted`. -/
def aborted : TurnEffect ω Bool := fun s => (.ok s.shared.aborted, s)

/-- `throwIfCancelled(signal)`. -/
def throwIfCancelled : TurnEffect ω Unit := do
  if ← aborted then throw .turnCancelled

/-! ## What a call leaves -/

/-- The property depends on nothing that foreign code can change. -/
structure TurnStable (I : TurnState ω → Prop) : Prop where
  world : ∀ s world, I s → I { s with world }
  act : ∀ s action, I s → I (s.act action)

variable {I : TurnState ω → Prop}

theorem callReporting_keeps (hI : TurnStable I) (code : Reporting ω β R α)
    {onReport : R → TurnEffect ω Unit} (hreport : ∀ report, Effect.Keeps I (onReport report))
    (input : β) : Effect.Keeps I (callReporting code onReport input) := by
  rw [Effect.keeps_iff]
  intro s hs
  exact Effect.keeps_iff.mp (Process.keeps_exec (fun action s => hI.act s action) hreport _) _
    (hI.world s _ hs)

theorem call_keeps (hI : TurnStable I) (code : Callback ω β α) (input : β) :
    Effect.Keeps I (call code input) :=
  callReporting_keeps hI code nofun input

/-- A call returns only what its code may return. -/
theorem call_returns (hI : TurnStable I) {code : Callback ω β α} {input : β} {Q : α → Prop}
    (h : ∀ shared world, (code input shared world).1.Returns Q) :
    Effect.Triple I (call code input) (fun a s => I s ∧ Q a) (fun _ => I) := by
  intro s hs
  have hkeeps := call_keeps hI code input s hs
  rcases hr : Effect.run (call code input) s with ⟨_ | a, s'⟩
  · rw [hr] at hkeeps
    exact hkeeps
  · rw [hr] at hkeeps
    exact ⟨hkeeps, Process.exec_returns (h s.shared s.world) _ hr⟩

theorem aborted_keeps : Effect.Keeps I (aborted : TurnEffect ω Bool) := fun _ hs => hs

theorem throwIfCancelled_keeps : Effect.Keeps I (throwIfCancelled : TurnEffect ω Unit) :=
  Effect.keeps_bind aborted_keeps fun _ =>
    Effect.keeps_ite (Effect.keeps_throw _) (Effect.keeps_pure _)

end Calls

end Henji
