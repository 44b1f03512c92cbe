import Henji.Core.ModelResult
import Henji.Tools.Registry

/-!
# The arguments of a turn

The model, the tools and the options that `runAgentTurn` is called with. Each function among them
is foreign code; a turn that lacks one runs without it.
-/

namespace Henji

/-! ## What a turn calls -/

structure ModelRequest where
  systemInstruction : Option JsText
  transcript : List Message
  tools : List ToolDefinition

/-- The provenance lists that run parallel to a request transcript. -/
abbrev Sources : Type := List (List Json)

structure GenerateOptions where
  signal : Bool
  reportsProgress : Bool
  providerEvidence : Bool
  modelStep : Nat

/-- What a model may report while it generates. -/
inductive ModelReport where
  | assistantProgress (text : JsText)
  | thinkingDelta (thinking : ReadableThinking)

structure Model (ω : Type) where
  generate : Reporting ω (ModelRequest × Option GenerateOptions) ModelReport ModelReply

/-- The provider evidence recorder. -/
structure ProviderEvidence (ω : Type) where
  setContextRequestOrdinal : Callback ω (Option Nat) Unit
  recordAssistantProgress : Callback ω (JsText × Nat) Unit
  recordModelResult : Callback ω (ModelResult × Nat) RequestReference
  recordToolCall : Callback ω (ToolCall × Nat × RequestReference × Option Json) Unit
  recordToolProgress : Callback ω (ToolCall × JsText × Nat × RequestReference) Unit
  recordToolResult : Callback ω (ToolResultContent × Nat × RequestReference × Option Json) Unit

structure ModelRequestObservation where
  request : ModelRequest
  modelStep : Nat
  modelSelection : Option Json
  sourceAttribution : Sources
  previousTranscriptLength : Nat

structure ExecutionContext (ω : Type) where
  providerEvidence : Option (ProviderEvidence ω)
  observeModelRequest : Option (Callback ω ModelRequestObservation Nat)
  modelSelection : Option Json
  claimModelRequest : Callback ω Unit Bool
  aggregate : Callback ω Unit Nat

/-- `FailureDiagnosticFact`, without the turn number, as the loop records it. -/
structure FailureDiagnosticFact where
  stage : String
  code : String
  details : Option Json
  providerRequestCount : Int
  retryCount : Nat
  modelStep : Nat
  httpStatus : Option Nat
  parseReason : Option String

structure FailureDiagnosticOwner (ω : Type) where
  snapshot : Callback ω Unit (Option FailureDiagnostic)
  record : Callback ω FailureDiagnosticFact FailureDiagnostic

inductive RequestMessageSourceKind where
  | committed
  | task
  | assistant
  | tool
  | steering
deriving DecidableEq, Repr

structure HookEffectFailure where
  name : JsText
  reason : JsText

structure PreparedCall where
  arguments : Json
  applied : Bool
  hookEffect : Option Json
  failure : Option HookEffectFailure

structure AfterToolInput where
  call : ToolCall
  arguments : Json
  result : ToolResultContent
  terminal : Option TerminalResult
  modelStep : Nat

structure ProcessedResult where
  result : ToolResultContent
  hookEffect : Option Json

/-- The arguments of `runAgentTurn`. An option that falls back to the execution context is the
one that is used. `suspended` is what others do to the shared state while the loop waits at an
`await` without a callback of its own. -/
structure AgentTurn (ω : Type) where
  task : JsText
  committedTranscript : List Message
  model : Model ω
  registry : Registry ω
  maxSteps : Option Int
  turn : Option Int
  systemInstruction : Option JsText
  executionContext : Option (ExecutionContext ω)
  ownsCancellation : Bool
  diagnosticOwner : Option (FailureDiagnosticOwner ω)
  turnProviderRequestCount : Option (Callback ω Unit Int)
  runtimeProviderRequestCount : Option (Callback ω Unit Int)
  eventSink : Option (Callback ω LoopEvent Unit)
  commit : Option (Callback ω (List Message) Unit)
  projectParentRequest : Option (Callback ω ModelRequest ModelRequest)
  projectParentRequestWithSources : Option (Callback ω (ModelRequest × Sources)
    (ModelRequest × Sources))
  requestMessageSource : Option (Callback ω
    (Message × RequestMessageSourceKind × Nat × Option Nat) (List Json))
  beforeTool : Option (Callback ω (ToolCall × Nat) PreparedCall)
  afterTool : Option (Callback ω AfterToolInput ProcessedResult)
  now : Callback ω Unit Int
  captureFailureDetails : FailureCapture
  suspended : ω → List OutsideAction × ω

namespace AgentTurn

variable {ω : Type} (t : AgentTurn ω)

/-- `options.maxSteps ?? 8`, once it has been checked. -/
def limit : Nat := (t.maxSteps.getD 8).toNat

/-- `options.turn ?? 1`, once it has been checked. -/
def number : Nat := (t.turn.getD 1).toNat

def evidence : Option (ProviderEvidence ω) := t.executionContext.bind (·.providerEvidence)

end AgentTurn

/-- A part of the turn either ends the turn or hands on a value. -/
inductive Stage (α : Type) where
  | finished (outcome : LoopOutcome)
  | next (value : α)

end Henji
