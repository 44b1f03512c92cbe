import Henji.Json
import Henji.Library.Runs

/-!
# The journal of an execution's data

The journal takes the messages of a Worker in the order of their sequences, buffers the semantic
fact of each and hands the buffer to the writer: when it holds 256 facts, when its timer fires, and
before a control fact, a terminal cut or its seal. An append takes the whole buffer or throws.

`flushThrough` waits for a sequence that is not received yet; its call resumes some time after its
waiter was resolved. A gap timer of the stage probe calls `captureStageSnapshot`; its call is one at
any time.
-/

namespace Henji.DataPort

abbrev ExecutionId := String

/-! ## Messages -/

structure WorkerCorrelation where
  session : String
  instanceCorrelation : String
  workerGeneration : String
  baseStateRevision : Nat
  command : String
deriving DecidableEq, Repr

/-- The kinds of a provider observation, as far as the journal tells them apart. -/
inductive ProviderObservationKind where
  | request_start
  | response_start
  | request_usage
  | parser_transition
  | request_failure
  | other
deriving DecidableEq, Repr

inductive WorkerMessageKind where
  | ready
  | model_selected
  | closed
  | checkpoint_proposal
  | async_agent_request
  | runtime_event
  | effect_observation
  | provider_observation (observation : ProviderObservationKind)
  | context_observation
  | cancel_received
  | commit_proposal
  | turn_failed
  | other
deriving DecidableEq, Repr

/-- `WorkerToHostMessage`: `transcript` is the one of its outcome, `body` the other fields. -/
structure WorkerToHostMessage where
  kind : WorkerMessageKind
  correlation : Option WorkerCorrelation
  sequence : Option Nat
  transcript : List Json
  historyTranscriptBaseApplied : Bool
  body : Json
deriving DecidableEq

inductive ExecutionEventKind where
  | runtime_event
  | effect_observation
  | provider_request_start
  | provider_response_start
  | provider_request_usage
  | provider_parser_transition
  | provider_request_failure
  | context_observation
  | cancel_received
deriving DecidableEq, Repr

/-- The semantic fact of a message. -/
structure ExecutionEventInput where
  executionId : ExecutionId
  kind : ExecutionEventKind
  workerSequence : Option Nat
  payload : WorkerToHostMessage
deriving DecidableEq

structure ExecutionDataInput where
  executionId : ExecutionId
  sequence : Int
  message : WorkerToHostMessage
deriving DecidableEq

/-- A proposal is stored without the transcript of its outcome. -/
def prepareWorkerObservationForHistory (message : WorkerToHostMessage) : WorkerToHostMessage :=
  match message.kind with
  | .commit_proposal => { message with
      transcript := []
      historyTranscriptBaseApplied := true }
  | .turn_failed => { message with historyTranscriptBaseApplied := true }
  | _ => message

def observationEventKind : WorkerMessageKind → ExecutionEventKind
  | .effect_observation => .effect_observation
  | .provider_observation .request_start => .provider_request_start
  | .provider_observation .response_start => .provider_response_start
  | .provider_observation .request_usage => .provider_request_usage
  | .provider_observation .parser_transition => .provider_parser_transition
  | .provider_observation .request_failure => .provider_request_failure
  | .context_observation => .context_observation
  | .cancel_received => .cancel_received
  | _ => .runtime_event

def carriesWorkerSequence : WorkerMessageKind → Bool
  | .runtime_event | .effect_observation | .provider_observation _ | .context_observation
  | .cancel_received => true
  | _ => false

/-- The semantic projection of a message; control messages have none. -/
def workerObservationInput (executionId : ExecutionId) (message : WorkerToHostMessage) :
    Option ExecutionEventInput :=
  match message.kind with
  | .ready | .model_selected | .closed | .checkpoint_proposal | .async_agent_request => none
  | kind => some {
      executionId := executionId
      kind := observationEventKind kind
      workerSequence := if carriesWorkerSequence kind then message.sequence else none
      payload := prepareWorkerObservationForHistory message }

/-! ## State -/

inductive JournalError where
  | correlation_or_sequence_mismatch
  | append_failed
  | sealed_before_terminal_sequence
  | stage_probe_mismatch
deriving DecidableEq, Repr

/-- Where a call of `flushThrough` stands: at its wait, between its wait and its flush, or ended. -/
inductive CutState where
  | waiting
  | resumed
  | resolved
  | rejected (error : JournalError)
deriving DecidableEq, Repr

structure CutCall where
  sequence : Int
  state : CutState
deriving DecidableEq, Repr

/-- A waiter, with the number of its call. -/
structure CutWaiter where
  call : Nat
  sequence : Int
deriving DecidableEq, Repr

/-- The journal with what it has done: the calls of `flushThrough`, the inputs that it took, and the
facts that the writer took. -/
structure ExecutionDataJournal where
  executionId : ExecutionId
  correlation : WorkerCorrelation
  buffer : List ExecutionEventInput
  waiters : List CutWaiter
  timer : Bool
  received : Nat
  buffered : Nat
  durable : Nat
  receivedWorkerSequence : Nat
  bufferedWorkerSequence : Nat
  durableWorkerSequence : Nat
  stageProbe : Bool
  pendingStageSnapshots : Nat
  sealed : Bool
  failure : Option JournalError
  calls : List CutCall
  taken : List ExecutionDataInput
  written : List ExecutionEventInput
deriving DecidableEq

namespace ExecutionDataJournal

def start (executionId : ExecutionId) (correlation : WorkerCorrelation) : ExecutionDataJournal where
  executionId := executionId
  correlation := correlation
  buffer := []
  waiters := []
  timer := false
  received := 0
  buffered := 0
  durable := 0
  receivedWorkerSequence := 0
  bufferedWorkerSequence := 0
  durableWorkerSequence := 0
  stageProbe := false
  pendingStageSnapshots := 0
  sealed := false
  failure := none
  calls := []
  taken := []
  written := []

/-- The calls of some waiters end their wait. -/
def settleCalls (waiters : List CutWaiter) (state : CutState) (calls : List CutCall) :
    List CutCall :=
  calls.mapIdx fun number call =>
    if waiters.any (fun waiter => waiter.call == number) then { call with state := state } else call

def setCall (journal : ExecutionDataJournal) (number : Nat) (state : CutState) :
    ExecutionDataJournal :=
  { journal with calls := journal.calls.modify number fun call => { call with state := state } }

/-- The first failure stays, and rejects every waiter. -/
def fail (journal : ExecutionDataJournal) (error : JournalError) : ExecutionDataJournal :=
  if journal.failure.isSome then journal
  else { journal with
    failure := some error
    timer := false
    calls := settleCalls journal.waiters (.rejected error) journal.calls
    waiters := [] }

/-- The greatest Worker sequence of a batch. -/
def batchWorkerSequence (latest : Nat) (buffer : List ExecutionEventInput) : Nat :=
  buffer.foldl (fun latest event => event.workerSequence.elim latest (max latest)) latest

/-- `appends` says whether the writer takes the buffer. -/
def flush (appends : Bool) (journal : ExecutionDataJournal) :
    Except JournalError Unit × ExecutionDataJournal :=
  match journal.failure with
  | some error => (.error error, journal)
  | none =>
    let journal := { journal with timer := false }
    if journal.buffer.isEmpty then (.ok (), { journal with durable := journal.buffered })
    else if appends then
      (.ok (), { journal with
        written := journal.written ++ journal.buffer
        durableWorkerSequence :=
          batchWorkerSequence journal.durableWorkerSequence journal.buffer
        buffer := []
        durable := journal.buffered })
    else (.error .append_failed, journal.fail .append_failed)

/-! ## Messages -/

/-- The message is of this execution and generation, and the next one. -/
def fits (journal : ExecutionDataJournal) (input : ExecutionDataInput) : Bool :=
  input.executionId == journal.executionId &&
    input.message.correlation == some journal.correlation &&
    input.sequence == journal.received + 1

/-- A positive sequence of a message. -/
def workerSequence (message : WorkerToHostMessage) : Option Nat :=
  message.sequence.filter fun sequence => decide (0 < sequence)

/-- The counters and the buffer with a message that fits. -/
def take (journal : ExecutionDataJournal) (input : ExecutionDataInput) : ExecutionDataJournal :=
  let fact := workerObservationInput journal.executionId input.message
  { journal with
    receivedWorkerSequence :=
      (workerSequence input.message).elim journal.receivedWorkerSequence
        (max journal.receivedWorkerSequence)
    received := journal.received + 1
    buffer := journal.buffer ++ fact.toList
    buffered := journal.received + 1
    bufferedWorkerSequence := (fact.bind ExecutionEventInput.workerSequence).elim
      journal.bufferedWorkerSequence (max journal.bufferedWorkerSequence)
    taken := journal.taken ++ [input] }

/-- The waiters whose sequence is received. -/
def resolveWaiters (journal : ExecutionDataJournal) : ExecutionDataJournal :=
  { journal with
    calls := settleCalls
      (journal.waiters.filter fun waiter => decide (waiter.sequence ≤ journal.received)) .resumed
      journal.calls
    waiters := journal.waiters.filter fun waiter => decide (¬ waiter.sequence ≤ journal.received) }

inductive Acceptance where
  | accepted
  | sealed
deriving DecidableEq, Repr

def receive (input : ExecutionDataInput) (appends : Bool) (journal : ExecutionDataJournal) :
    Except JournalError Acceptance × ExecutionDataJournal :=
  if journal.sealed then (.ok .sealed, journal)
  else match journal.failure with
  | some error => (.error error, journal)
  | none =>
    if !journal.fits input then
      (.error .correlation_or_sequence_mismatch, journal.fail .correlation_or_sequence_mismatch)
    else
      let journal := journal.take input
      if 256 ≤ journal.buffer.length then
        match journal.flush appends with
        | (.error error, journal) => (.error error, journal)
        | (.ok (), journal) => (.ok .accepted, journal.resolveWaiters)
      else
        (.ok .accepted,
          resolveWaiters { journal with timer := journal.timer || !journal.buffer.isEmpty })

/-! ## Control facts and snapshots -/

/-- A control fact is written behind the buffered facts, also when their append throws. `controls`
says whether the writer takes it. -/
def appendControl (appends controls : Bool) (journal : ExecutionDataJournal) :
    Except JournalError Unit × ExecutionDataJournal :=
  let journal := if journal.failure.isNone then (journal.flush appends).2 else journal
  (if controls then .ok () else .error .append_failed, journal)

/-- A snapshot of the stage probe; `readable` says whether the probe can be read. -/
def captureStageSnapshot (appends readable controls : Bool) (journal : ExecutionDataJournal) :
    ExecutionDataJournal :=
  if !journal.stageProbe then
    { journal with pendingStageSnapshots := journal.pendingStageSnapshots + 1 }
  else
    let journal := (journal.flush appends).2
    if readable then (journal.appendControl appends controls).2 else journal

/-- The snapshots that waited for the probe. -/
def captureStageSnapshots (appends readable controls : Bool) :
    Nat → ExecutionDataJournal → ExecutionDataJournal
  | 0, journal => journal
  | count + 1, journal => captureStageSnapshots appends readable controls count
      (journal.captureStageSnapshot appends readable controls)

def attachStageProbe (correlation : WorkerCorrelation) (appends readable controls : Bool)
    (journal : ExecutionDataJournal) : Except JournalError Unit × ExecutionDataJournal :=
  if correlation ≠ journal.correlation then (.error .stage_probe_mismatch, journal)
  else (.ok (), captureStageSnapshots appends readable controls journal.pendingStageSnapshots
    { journal with
      stageProbe := true
      pendingStageSnapshots := 0 })

/-! ## Cuts -/

/-- How a call of `flushThrough` ends that flushes. -/
def endCall (number : Nat) (appends : Bool) (journal : ExecutionDataJournal) :
    ExecutionDataJournal :=
  match journal.flush appends with
  | (.ok (), journal) => journal.setCall number .resolved
  | (.error error, journal) => journal.setCall number (.rejected error)

/-- A call of `flushThrough`, and where it stands. -/
def called (sequence : Int) (state : CutState) (journal : ExecutionDataJournal) :
    ExecutionDataJournal :=
  { journal with calls := journal.calls ++ [⟨sequence, state⟩] }

def flushThrough (sequence : Int) (appends : Bool) (journal : ExecutionDataJournal) :
    ExecutionDataJournal :=
  let number := journal.calls.length
  match journal.failure with
  | some error => journal.called sequence (.rejected error)
  | none =>
    if journal.received < sequence then
      if journal.sealed then journal.called sequence (.rejected .sealed_before_terminal_sequence)
      else
        let journal := journal.called sequence .waiting
        { journal with waiters := journal.waiters ++ [⟨number, sequence⟩] }
    else (journal.called sequence .resumed).endCall number appends

/-- `seal` of the source: nothing is received any more, and a cut that is not received is rejected. -/
def sealJournal (appends : Bool) (journal : ExecutionDataJournal) :
    Except JournalError (Nat × Nat) × ExecutionDataJournal :=
  match flush appends { journal with sealed := true } with
  | (.error error, journal) => (.error error, journal)
  | (.ok (), journal) =>
    (.ok (journal.received, journal.durable), { journal with
      calls := settleCalls journal.waiters (.rejected .sealed_before_terminal_sequence)
        journal.calls
      waiters := [] })

end ExecutionDataJournal

/-! ## Runs -/

inductive JournalEvent where
  | receive (input : ExecutionDataInput) (appends : Bool)
  | timer (appends : Bool)
  | flush (appends : Bool)
  | appendControl (appends controls : Bool)
  | captureStageSnapshot (appends readable controls : Bool)
  | attachStageProbe (correlation : WorkerCorrelation) (appends readable controls : Bool)
  | flushThrough (sequence : Int) (appends : Bool)
  | resume (call : Nat) (appends : Bool)
  | sealJournal (appends : Bool)
deriving DecidableEq

namespace ExecutionDataJournal

/-- The timer fires when it is set, and a call resumes when its waiter was resolved. -/
def step (journal : ExecutionDataJournal) : JournalEvent → Option ExecutionDataJournal
  | .receive input appends => some (journal.receive input appends).2
  | .timer appends => if journal.timer then some (journal.flush appends).2 else none
  | .flush appends => some (journal.flush appends).2
  | .appendControl appends controls => some (journal.appendControl appends controls).2
  | .captureStageSnapshot appends readable controls =>
    some (journal.captureStageSnapshot appends readable controls)
  | .attachStageProbe correlation appends readable controls =>
    some (journal.attachStageProbe correlation appends readable controls).2
  | .flushThrough sequence appends => some (journal.flushThrough sequence appends)
  | .resume call appends =>
    if (journal.calls[call]?).any fun call => call.state == .resumed then
      some (journal.endCall call appends)
    else none
  | .sealJournal appends => some (journal.sealJournal appends).2

end ExecutionDataJournal

end Henji.DataPort
