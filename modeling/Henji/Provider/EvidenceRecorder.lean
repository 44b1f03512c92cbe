import Henji.Library.Runs
import Mathlib.Data.List.Basic

/-!
# Provider evidence

One recorder observes the provider requests of a turn: those of the model, one call at a time with its
retries, and those that tools and hooks make. It attributes what it is told to its active request, the
one that was started last.

The calls take their steps between awaits, in any order. The state keeps a history of the observations,
newest first, with the request that each is about. No step reads it.
-/

namespace Henji

namespace ProviderEvidence

/-! ## The recorder -/

inductive EvidenceLane where
  | parent
  | planner
deriving DecidableEq, Repr

inductive EvidencePhase where
  | user_turn
  | compaction
  | hook
deriving DecidableEq, Repr

abbrev Metadata : Type := List (String × String)

/-- The input of `startRequestMetadata`. -/
structure RequestStart where
  lane : EvidenceLane
  phase : Option EvidencePhase
  modelStep : Nat
  endpoint : String
  method : String
  requestMetadata : Option Metadata
  contextRequestOrdinal : Option Nat
deriving DecidableEq, Repr

structure ProviderRequest where
  ordinal : Nat
  contextRequestOrdinal : Option Nat
  lane : EvidenceLane
  phase : Option EvidencePhase
  modelStep : Nat
  endpoint : String
  method : String
  requestMetadata : Metadata
deriving DecidableEq, Repr

/-- A field of a usage object: absent or null, a finite number, or something else. -/
inductive Counter where
  | absent
  | number (value : Int)
  | other
deriving DecidableEq, Repr

/-- `a ?? b`. -/
def Counter.orElse (first second : Counter) : Counter :=
  match first with
  | .absent => second
  | _ => first

def Counter.number? : Counter → Option Int
  | .number value => some value
  | _ => none

structure UsageValue where
  input_tokens : Counter
  prompt_tokens : Counter
  output_tokens : Counter
  completion_tokens : Counter
  total_tokens : Counter
deriving DecidableEq, Repr

structure TokenUsage where
  inputTokens : Option Int
  outputTokens : Option Int
  totalTokens : Option Int
  estimatedInputTokens : Option Int
  inputEstimateDifference : Option Int
deriving DecidableEq, Repr

structure ParserFailure where
  reason : Option String
  field : Option String
  expectedShape : Option String
  actualShape : Option String
deriving DecidableEq, Repr

structure ParserTransition where
  ordinal : Nat
  failure : ParserFailure
deriving DecidableEq, Repr

structure RequestFailure where
  stage : String
  code : String
  httpStatus : Option Nat
  parseReason : Option String
deriving DecidableEq, Repr

structure Attribution where
  modelStep : Nat
  lane : Option EvidenceLane
  requestOrdinal : Option Nat
deriving DecidableEq, Repr

inductive ToolKind where
  | tool_call
  | tool_progress
  | tool_result
deriving DecidableEq, Repr

/-- What a runtime event is about, without its content. -/
inductive RuntimeKind where
  | assistant_progress
  | model_result
  | tool (kind : ToolKind) (callIndex : Nat)
deriving DecidableEq, Repr

inductive Observation where
  | request_start (request : ProviderRequest)
  | response_start (requestOrdinal : Nat) (status : Nat)
  | request_usage (requestOrdinal : Nat) (usage : TokenUsage)
  | parser_transition (requestOrdinal : Nat) (transition : ParserTransition)
  | request_failure (requestOrdinal : Nat) (failure : RequestFailure)
  | runtime_event (kind : RuntimeKind) (attribution : Attribution)
deriving DecidableEq, Repr

structure Recorder where
  activeRequest : Option ProviderRequest
  requestOrdinal : Nat
  parserTransitionOrdinal : Nat
  contextRequestOrdinal : Option Nat
  estimatedInputTokens : Option Int
deriving DecidableEq, Repr

namespace Recorder

variable (recorder : Recorder)

/-- The request that starts. -/
def requestOf (input : RequestStart) : ProviderRequest where
  ordinal := recorder.requestOrdinal + 1
  contextRequestOrdinal := input.contextRequestOrdinal.or recorder.contextRequestOrdinal
  lane := input.lane
  phase := input.phase
  modelStep := input.modelStep
  endpoint := input.endpoint
  method := input.method
  requestMetadata := input.requestMetadata.getD []

def startRequestMetadata (input : RequestStart) : Recorder :=
  { recorder with
    activeRequest := some (recorder.requestOf input)
    requestOrdinal := recorder.requestOrdinal + 1
    parserTransitionOrdinal := 0 }

def recordResponse (status : Nat) : Option Observation :=
  recorder.activeRequest.map fun request => .response_start request.ordinal status

/-- `value` is absent where it is not a record. -/
def recordUsage (value : Option UsageValue) : Option Observation :=
  match recorder.activeRequest, value with
  | some request, some value =>
    let input := (value.input_tokens.orElse value.prompt_tokens).number?
    let output := (value.output_tokens.orElse value.completion_tokens).number?
    let total := value.total_tokens.number?
    if input = none ∧ output = none ∧ total = none then none
    else some (.request_usage request.ordinal {
      inputTokens := input
      outputTokens := output
      totalTokens := total
      estimatedInputTokens := recorder.estimatedInputTokens
      inputEstimateDifference := input.bind fun input =>
        recorder.estimatedInputTokens.map fun estimate => input - estimate })
  | _, _ => none

/-- The failure of a request of another step is dropped. -/
def recordRequestFailure (failure : RequestFailure) (modelStep : Option Nat) : Option Observation :=
  match recorder.activeRequest with
  | none => none
  | some request =>
    if modelStep ≠ none ∧ modelStep ≠ some request.modelStep then none
    else some (.request_failure request.ordinal failure)

def recordParserTransition (failure : ParserFailure) : Recorder × Option Observation :=
  match recorder.activeRequest with
  | none => (recorder, none)
  | some request =>
    let ordinal := recorder.parserTransitionOrdinal + 1
    ({ recorder with parserTransitionOrdinal := ordinal },
      some (.parser_transition request.ordinal ⟨ordinal, failure⟩))

def modelAttribution (modelStep : Nat) (lane : Option EvidenceLane) : Attribution where
  modelStep := modelStep
  lane := lane
  requestOrdinal :=
    match recorder.activeRequest with
    | none => none
    | some request =>
      if request.modelStep ≠ modelStep ∨ some request.lane ≠ lane then none
      else some request.ordinal

def recordAssistantProgress (modelStep : Nat) (lane : Option EvidenceLane) : Observation :=
  .runtime_event .assistant_progress (recorder.modelAttribution modelStep lane)

def recordModelResult (modelStep : Nat) (lane : Option EvidenceLane) : Observation × Attribution :=
  let attribution := recorder.modelAttribution modelStep lane
  (.runtime_event .model_result attribution, attribution)

end Recorder

/-! ## The calls -/

/-- The adapters of the model: chat completions, and the responses API of an SDK. -/
inductive Adapter where
  | chat
  | responses
deriving DecidableEq, Repr

/-- Where a call of the model is. From its first request on it has an ordinal. -/
inductive ModelPhase where
  | building
  | requested (ordinal requestCount : Nat)
  | answered (ordinal requestCount status : Nat)
  | retrying (ordinal requestCount : Nat)
deriving DecidableEq, Repr

def ModelPhase.ordinal : ModelPhase → Option Nat
  | .building => none
  | .requested ordinal _ => some ordinal
  | .answered ordinal _ _ => some ordinal
  | .retrying ordinal _ => some ordinal

inductive LoopPhase where
  | preparing
  | generating (adapter : Adapter) (phase : ModelPhase)
  | working (attribution : Attribution)
  | ended
deriving DecidableEq, Repr

/-- The evidence of a tool or hook request. Its endpoint is the recorded one. -/
structure AuxiliaryEvidence where
  phase : EvidencePhase
  modelStep : Nat
  endpoint : String
  method : String
  requestMetadata : Metadata
deriving DecidableEq, Repr

/-- `createHookScopedProviderRequest`: a hook has no model step. -/
def hookEvidence (endpoint method : String) (requestMetadata : Metadata) : AuxiliaryEvidence where
  phase := .hook
  modelStep := 0
  endpoint := endpoint
  method := method
  requestMetadata := requestMetadata

/-- Where a dispatched request is. -/
inductive AuxiliaryPhase where
  | entered (evidence : AuxiliaryEvidence)
  | requested (evidence : AuxiliaryEvidence) (ordinal : Nat)
  | reading (evidence : AuxiliaryEvidence) (ordinal : Nat)
  | returned (evidence : AuxiliaryEvidence) (ordinal : Nat)
  | ended
deriving DecidableEq, Repr

/-! ## The system -/

/-- Who starts a request. -/
inductive Origin where
  | model (step : Nat)
  | auxiliary (id : Nat)
deriving DecidableEq, Repr

inductive Fact where
  | started (origin : Origin) (request : ProviderRequest)
  /-- An observation about the request of a call; without one where the call has issued none. -/
  | reported (cause : Option Nat) (observation : Observation)
  | runtime (kind : RuntimeKind) (attribution : Attribution)
  /-- The call of this request ended in an error. -/
  | failed (ordinal : Nat)
  /-- The model call of this request was cancelled. -/
  | cancelled (ordinal : Nat)
deriving DecidableEq, Repr

/-- What the sink is told. -/
def Fact.observation : Fact → Option Observation
  | .started _ request => some (.request_start request)
  | .reported _ observation => some observation
  | .runtime kind attribution => some (.runtime_event kind attribution)
  | .failed _ => none
  | .cancelled _ => none

structure EvidenceState where
  recorder : Recorder
  steps : Nat
  loop : LoopPhase
  calls : Nat → Option AuxiliaryPhase
  history : List Fact

inductive EvidenceEvent where
  /-- The loop comes to its next step and calls the model. -/
  | generate (adapter : Adapter) (contextRequestOrdinal : Option Nat)
  /-- The model call sends its request, the first time or again. -/
  | modelStart (endpoint method : String) (requestMetadata : Metadata)
  | modelAnswer (status : Nat)
  | modelProgress
  | modelUsage (value : Option UsageValue)
  | modelTransition (failure : ParserFailure)
  | modelRetry
  | modelFail (failure : RequestFailure)
  /-- The model call ends without a failure of its own: refused before a request, or cancelled. -/
  | modelStop
  | modelReturn (final : Bool)
  | toolEvent (kind : ToolKind) (callIndex : Nat)
  /-- The tool calls of a step are done. -/
  | toolsDone
  | stop
  /-- A tool or a hook makes a request with evidence. -/
  | auxiliary (id : Nat) (evidence : AuxiliaryEvidence)
  | hook (id : Nat) (endpoint method : String) (requestMetadata : Metadata)
  /-- The credential is there and the request goes out. -/
  | auxiliaryStart (id : Nat)
  | auxiliaryRefused (id : Nat)
  | auxiliaryAnswer (id : Nat) (status : Nat)
  | auxiliaryRead (id : Nat)
  | auxiliaryFail (id : Nat) (failure : RequestFailure)
  /-- A tool rejects the response that it got. -/
  | auxiliaryTransition (id : Nat) (failure : ParserFailure)
  | setContext (contextRequestOrdinal : Option Nat)
  | setEstimate (tokens : Option Int)

namespace EvidenceState

variable (s : EvidenceState)

def setCall (id : Nat) (phase : AuxiliaryPhase) : EvidenceState :=
  { s with calls := fun other => if other = id then some phase else s.calls other }

/-- A request starts. -/
def start (origin : Origin) (input : RequestStart) : EvidenceState :=
  { s with
    recorder := s.recorder.startRequestMetadata input
    history := .started origin (s.recorder.requestOf input) :: s.history }

def report (cause : Option Nat) (observation : Option Observation) : EvidenceState :=
  { s with history := (observation.map (.reported cause)).toList ++ s.history }

def fail (ordinal : Nat) (observation : Option Observation) : EvidenceState :=
  { s.report (some ordinal) observation with
    history := .failed ordinal :: (s.report (some ordinal) observation).history }

end EvidenceState

/-- What a model request records. -/
def modelRequestStart (modelStep : Nat) (endpoint method : String) (requestMetadata : Metadata) :
    RequestStart where
  lane := .parent
  phase := some .user_turn
  modelStep := modelStep
  endpoint := endpoint
  method := method
  requestMetadata := some requestMetadata
  contextRequestOrdinal := none

def auxiliaryRequestStart (evidence : AuxiliaryEvidence) : RequestStart where
  lane := .parent
  phase := some evidence.phase
  modelStep := evidence.modelStep
  endpoint := evidence.endpoint
  method := evidence.method
  requestMetadata := some evidence.requestMetadata
  contextRequestOrdinal := none

/-- A chat request is sent again after the first two answers with a server error. -/
def retries (adapter : Adapter) (requestCount status : Nat) : Bool :=
  adapter = .chat ∧ 500 ≤ status ∧ status ≤ 599 ∧ requestCount ≤ 2

/-- A failing model call. Without a request the chat adapter does not record it. -/
def modelFailed (s : EvidenceState) (adapter : Adapter) (failure : RequestFailure) :
    ModelPhase → Option EvidenceState
  | .building =>
    if adapter = .responses then
      some { (s.report none (s.recorder.recordRequestFailure failure (some s.steps))) with loop := .ended }
    else none
  | .requested ordinal _ => some { (s.fail ordinal
      (s.recorder.recordRequestFailure failure (some s.steps))) with loop := .ended }
  | .answered ordinal _ _ => some { (s.fail ordinal
      (s.recorder.recordRequestFailure failure (some s.steps))) with loop := .ended }
  | .retrying ordinal _ => some { (s.fail ordinal
      (s.recorder.recordRequestFailure failure (some s.steps))) with loop := .ended }

/-- The request of a model call goes out: the first, or one more after an answer. -/
def modelStarted (s : EvidenceState) (adapter : Adapter) (input : RequestStart) :
    ModelPhase → Option EvidenceState
  | .building => some { s.start (.model s.steps) input with
      loop := .generating adapter (.requested (s.recorder.requestOrdinal + 1) 1) }
  | .retrying _ requestCount => some { s.start (.model s.steps) input with
      loop := .generating adapter (.requested (s.recorder.requestOrdinal + 1) (requestCount + 1)) }
  | _ => none

def EvidenceState.step (s : EvidenceState) : EvidenceEvent → Option EvidenceState
  | .generate adapter contextRequestOrdinal =>
    match s.loop with
    | .preparing => some { s with
        steps := s.steps + 1
        recorder := { s.recorder with contextRequestOrdinal := contextRequestOrdinal }
        loop := .generating adapter .building }
    | _ => none
  | .modelStart endpoint method requestMetadata =>
    match s.loop with
    | .generating adapter phase =>
      modelStarted s adapter (modelRequestStart s.steps endpoint method requestMetadata) phase
    | _ => none
  | .modelAnswer status =>
    match s.loop with
    | .generating adapter (.requested ordinal requestCount) =>
      some { (s.report (some ordinal) (s.recorder.recordResponse status)) with
        loop := .generating adapter (.answered ordinal requestCount status) }
    | _ => none
  | .modelProgress =>
    match s.loop with
    | .generating _ (.answered _ _ _) => some { s with
        history := .runtime .assistant_progress (s.recorder.modelAttribution s.steps (some .parent)) ::
          s.history }
    | _ => none
  | .modelUsage value =>
    match s.loop with
    | .generating _ (.answered ordinal _ _) =>
      some (s.report (some ordinal) (s.recorder.recordUsage value))
    | _ => none
  | .modelTransition failure =>
    match s.loop with
    | .generating _ (.answered ordinal _ _) =>
      let recorded := s.recorder.recordParserTransition failure
      some { s.report (some ordinal) recorded.2 with recorder := recorded.1 }
    | _ => none
  | .modelRetry =>
    match s.loop with
    | .generating adapter (.answered ordinal requestCount status) =>
      if retries adapter requestCount status then
        some { s with loop := .generating adapter (.retrying ordinal requestCount) }
      else none
    | _ => none
  | .modelFail failure =>
    match s.loop with
    | .generating adapter phase => modelFailed s adapter failure phase
    | _ => none
  | .modelStop =>
    match s.loop with
    | .generating _ phase => some { s with
        loop := .ended
        history := (phase.ordinal.map .cancelled).toList ++ s.history }
    | _ => none
  | .modelReturn final =>
    match s.loop with
    | .generating _ (.answered _ _ _) =>
      let recorded := s.recorder.recordModelResult s.steps (some .parent)
      let s := { s with history := .runtime .model_result recorded.2 :: s.history }
      if final then some { s with
          recorder := { s.recorder with contextRequestOrdinal := none }
          loop := .preparing }
      else some { s with loop := .working recorded.2 }
    | _ => none
  | .toolEvent kind callIndex =>
    match s.loop with
    | .working attribution =>
      some { s with history := .runtime (.tool kind callIndex) attribution :: s.history }
    | _ => none
  | .toolsDone =>
    match s.loop with
    | .working _ => some { s with
        recorder := { s.recorder with contextRequestOrdinal := none }
        loop := .preparing }
    | _ => none
  | .stop =>
    match s.loop with
    | .generating _ _ => none
    | _ => some { s with loop := .ended }
  | .auxiliary id evidence =>
    match s.calls id with
    | none => some (s.setCall id (.entered evidence))
    | some _ => none
  | .hook id endpoint method requestMetadata =>
    match s.calls id with
    | none => some (s.setCall id (.entered (hookEvidence endpoint method requestMetadata)))
    | some _ => none
  | .auxiliaryStart id =>
    match s.calls id with
    | some (.entered evidence) =>
      some ((s.start (.auxiliary id) (auxiliaryRequestStart evidence)).setCall id
        (.requested evidence (s.recorder.requestOrdinal + 1)))
    | _ => none
  | .auxiliaryRefused id =>
    match s.calls id with
    | some (.entered _) => some (s.setCall id .ended)
    | _ => none
  | .auxiliaryAnswer id status =>
    match s.calls id with
    | some (.requested evidence ordinal) =>
      some ((s.report (some ordinal) (s.recorder.recordResponse status)).setCall id
        (.reading evidence ordinal))
    | _ => none
  | .auxiliaryRead id =>
    match s.calls id with
    | some (.reading evidence ordinal) => some (s.setCall id (.returned evidence ordinal))
    | _ => none
  | .auxiliaryFail id failure =>
    match s.calls id with
    | some (.requested evidence ordinal) =>
      some ((s.fail ordinal (s.recorder.recordRequestFailure failure (some evidence.modelStep))).setCall
        id .ended)
    | some (.reading evidence ordinal) =>
      some ((s.fail ordinal (s.recorder.recordRequestFailure failure (some evidence.modelStep))).setCall
        id .ended)
    | _ => none
  | .auxiliaryTransition id failure =>
    match s.calls id with
    | some (.returned _ ordinal) =>
      let recorded := s.recorder.recordParserTransition failure
      some { s.report (some ordinal) recorded.2 with recorder := recorded.1 }
    | _ => none
  | .setContext contextRequestOrdinal =>
    some { s with recorder := { s.recorder with contextRequestOrdinal := contextRequestOrdinal } }
  | .setEstimate tokens => some { s with recorder := { s.recorder with estimatedInputTokens := tokens } }

/-- A turn before its first step. -/
def EvidenceState.initial (initialRequestOrdinal : Nat) : EvidenceState where
  recorder := ⟨none, initialRequestOrdinal, 0, none, none⟩
  steps := 0
  loop := .preparing
  calls := fun _ => none
  history := []

end ProviderEvidence

end Henji
