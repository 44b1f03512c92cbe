import Henji.Core.Contracts
import Henji.Library.Heap
import Henji.Library.Runs

/-!
# The task service of the application

The service admits one execution at a time to the host and keeps at most one follow-up for it. A
follow-up is a mutable record: it is queued while an execution is active and becomes the next
execution when that one has settled well. Every change of a record is saved through one chain of
writes.

`begin` and `settle` are asynchronous. An execution is a cell of `runs`, and its phase is the await
at which its `begin`, and then its `settle`, is suspended. What a suspended call waits for, a caller
of the service and a step of a suspended call are events; they happen in any order, except that the
continuations of one promise run in the order in which they were registered.
-/

namespace Henji

/-! ## Values -/

inductive FollowUpStatus where
  | queued
  | started
  | discarded
  | startRejected
deriving DecidableEq, Repr

/-- `FollowUpRecord`. -/
structure FollowUp where
  queueId : Nat
  commandId : String
  sessionId : String
  afterExecutionId : Nat
  text : JsText
  status : FollowUpStatus
  executionId : Option Nat
  reason : Option String
deriving DecidableEq

structure TaskLane where
  executionId : Nat
  commandId : String
  text : JsText
  sessionId : String
deriving DecidableEq

/-- `ExecutionTrackingChange`. -/
inductive TrackingChange where
  | upsert (executionId : Nat) (sessionId submittedByCommandId : String) (complete : Bool)
  | remove (executionId : Nat)
deriving DecidableEq

/-- The part of a loop outcome that `settle` reads. -/
structure Completed where
  ok : Bool
  stopReason : LoopStopReason
deriving DecidableEq, Repr

def LoopStopReason.text : LoopStopReason → String
  | .final => "final"
  | .toolTerminal => "tool_terminal"
  | .maxSteps => "max_steps"
  | .contractFailure => "contract_failure"
  | .cancelled => "cancelled"
  | .interrupted => "interrupted"

/-- A follow-up starts after this outcome. -/
def Completed.startsFollowUp (outcome : Completed) : Bool :=
  outcome.ok && (outcome.stopReason = .final || outcome.stopReason = .toolTerminal)

/-- Where the `begin` or the `settle` of an execution stands. -/
inductive RunPhase where
  /-- `begin` waits for `host.admit`. -/
  | admitting
  /-- `begin` waits for the write of a rejected start, or of a start. -/
  | savingRejected (write : Nat)
  | savingStarted (write : Nat)
  /-- `settle` waits for the completion. -/
  | running
  /-- `settle` waits for `persistCompletion`; the completion may have thrown. -/
  | persisting (ended : Option Completed)
  /-- `settle` waits in `flushFollowUps` for a write: before the follow-up is looked at, after it
  was discarded, or after a completion that threw. -/
  | flushing (outcome : Completed) (write : Nat)
  | releasing (write : Nat)
  | flushingFailed (write : Nat)
  /-- `settle` waits for the `begin` of the follow-up, then for its `untilIdle`. -/
  | handingOff (child : Nat)
  | awaitingChild (child : Nat)
  /-- `begin` threw because the host did not admit. -/
  | refused
  /-- `settle` is over. -/
  | settled
  /-- `begin` threw because a write failed, before or after the host had admitted. -/
  | rejectionUnsaved
  | startUnsaved
  /-- `settle` threw because of a failed write, of the completion or of a follow-up. -/
  | completionUnsaved
  | flushBroken
deriving DecidableEq

/-- The write for which a `begin` waits. -/
def RunPhase.savedBy : RunPhase → Option Nat
  | .savingRejected write | .savingStarted write => some write
  | _ => none

/-- An execution: what it was begun with, what the host did with it (whether it was admitted, and
how it completed, if it did), and its phase. -/
structure TaskRun where
  lane : TaskLane
  reservation : Option Nat
  admitted : Bool
  completion : Option (Option Completed)
  phase : RunPhase
deriving DecidableEq

/-- A call of `steer` that waits for the host. -/
structure SteerCall where
  active : TaskLane
  commandId : String
  text : JsText
deriving DecidableEq

/-- How `host.steerActiveTurn` ends: with a result, or it throws. -/
inductive SteerEnd where
  | accepted
  | alreadyAccepted
  | idle
  | threw
deriving DecidableEq, Repr

inductive CancelResult where
  | requested
  | alreadyRequested
  | idle
deriving DecidableEq, Repr

/-- `ApplicationTaskService`. An execution id is its cell in `runs`, a queue id its cell in
`followUps`. `writes` is the chain `followUpWrites`: the records saved so far, of which the first
`written` are written; after a failed write no later one is tried. `published` has the latest change
first. -/
structure TaskService where
  active : Option TaskLane
  preparing : Bool
  handoffPending : Bool
  closing : Bool
  steering : Option TaskLane
  steeringAccepted : Bool
  steeringApplied : Bool
  cancellationRequested : Bool
  queued : Option Nat
  followUps : Heap FollowUp
  runs : Heap TaskRun
  writes : List FollowUp
  written : Nat
  writeFailed : Bool
  steerCalls : List SteerCall
  published : List TrackingChange

namespace TaskService

def start : TaskService where
  active := none
  preparing := false
  handoffPending := false
  closing := false
  steering := none
  steeringAccepted := false
  steeringApplied := false
  cancellationRequested := false
  queued := none
  followUps := .empty ⟨0, "", "", 0, [], .discarded, none, none⟩
  runs := .empty ⟨⟨0, "", [], ""⟩, none, false, none, .settled⟩
  writes := []
  written := 0
  writeFailed := false
  steerCalls := []
  published := []

/-- `isBusy`. -/
def isBusy (service : TaskService) : Bool :=
  service.preparing || service.handoffPending || service.active.isSome

/-- `canQueueFollowUp`. -/
def canQueueFollowUp (service : TaskService) : Bool :=
  service.active.isSome && !service.preparing && service.queued.isNone &&
    !service.cancellationRequested

def setPhase (service : TaskService) (ref : Nat) (phase : RunPhase) : TaskService :=
  { service with runs := service.runs.modify ref fun run => { run with phase } }

/-- `publish` with changes of executions. -/
def publish (service : TaskService) (change : TrackingChange) : TaskService :=
  { service with published := change :: service.published }

/-- `executionChange`. -/
def executionChange (service : TaskService) (ref : Nat) (complete : Bool) : TrackingChange :=
  let lane := (service.runs.read ref).lane
  .upsert lane.executionId lane.sessionId lane.commandId complete

/-! ## Follow-up records -/

/-- `saveFollowUp`: a copy of the record enters the chain. -/
def saveFollowUp (service : TaskService) (record : Nat) : TaskService :=
  { service with writes := service.writes ++ [service.followUps.read record] }

def discard (service : TaskService) (record : Nat) (reason : String) : TaskService :=
  { service with
    followUps := service.followUps.modify record fun followUp =>
      { followUp with status := .discarded, reason := some reason }
    queued := none }.saveFollowUp record

/-- `if (this.queued !== undefined) this.discard(this.queued, reason)`. -/
def discardQueued (service : TaskService) (reason : String) : TaskService :=
  match service.queued with
  | some record => service.discard record reason
  | none => service

/-- `if (this.queued === reservation) this.queued = undefined`. -/
def release (service : TaskService) (record : Nat) : TaskService :=
  if service.queued = some record then { service with queued := none } else service

/-! ## `begin` -/

/-- `begin`, up to its await of `host.admit`. -/
def begin (service : TaskService) (sessionId : String) (text : JsText) (commandId : String)
    (reservation : Option Nat) : TaskService :=
  let lane : TaskLane := ⟨service.runs.next, commandId, text, sessionId⟩
  { service with
    active := some lane
    preparing := true
    handoffPending := false
    cancellationRequested := false
    steeringAccepted := false
    steeringApplied := false
    steering := none
    runs := (service.runs.alloc ⟨lane, reservation, false, none, .admitting⟩).2
    published := .upsert lane.executionId sessionId commandId false :: service.published }

/-- The end of a `begin` that throws. -/
def refuse (service : TaskService) (ref : Nat) : TaskService :=
  ({ service with cancellationRequested := false }.publish (.remove ref)).setPhase ref .refused

/-- `host.admit` threw. -/
def admissionFailed (service : TaskService) (ref : Nat) : TaskService :=
  let service : TaskService := { service with
    active := if service.active.map TaskLane.executionId = some ref then none else service.active
    preparing := false }
  match (service.runs.read ref).reservation with
  | none => service.refuse ref
  | some record =>
    if service.cancellationRequested then (service.discard record "cancelled").refuse ref
    else if (service.followUps.read record).status = .queued then
      let rejected := { service with
        followUps := service.followUps.modify record fun followUp =>
          { followUp with status := .startRejected, reason := some "admissionFailed" } }
      (rejected.saveFollowUp record).setPhase ref (.savingRejected (service.writes.length + 1))
    else service.refuse ref

/-- The write of a rejected start is done. -/
def rejectionSaved (service : TaskService) (ref : Nat) : TaskService :=
  match (service.runs.read ref).reservation with
  | some record => (service.release record).refuse ref
  | none => service.refuse ref

/-- `host.admit` resolved, with the execution id that the host says. `settle` is called at once when
there is nothing to save. -/
def admissionAccepted (service : TaskService) (ref hostExecutionId : Nat) : TaskService :=
  let service : TaskService := { service with
    preparing := false
    runs := service.runs.modify ref fun run => { run with admitted := true } }
  match (service.runs.read ref).reservation with
  | none => service.setPhase ref .running
  | some record =>
    let started := { service with
      followUps := service.followUps.modify record fun followUp => { followUp with
        executionId := some hostExecutionId
        status := if followUp.status = FollowUpStatus.queued then .started else followUp.status } }
    (started.saveFollowUp record).setPhase ref (.savingStarted (service.writes.length + 1))

/-- The write of a start is done, and `settle` is called. -/
def startSaved (service : TaskService) (ref : Nat) : TaskService :=
  match (service.runs.read ref).reservation with
  | some record => (service.release record).setPhase ref .running
  | none => service.setPhase ref .running

/-! ## `settle` -/

/-- The completion resolved or threw. -/
def completed (service : TaskService) (ref : Nat) (ended : Option Completed) : TaskService :=
  { service with
    runs := service.runs.modify ref fun run => { run with
      completion := some ended
      phase := .persisting ended } }

/-- What `settle` resets when the completion is saved. -/
def leaveLane (service : TaskService) : TaskService :=
  { service with
    handoffPending := true
    active := none
    steering := none
    steeringAccepted := false
    steeringApplied := false
    cancellationRequested := false }

/-- The completion is saved. -/
def completionSaved (service : TaskService) (ref : Nat) : Option Completed → TaskService
  | none =>
    let service := service.leaveLane.discardQueued "failed"
    service.setPhase ref (.flushingFailed service.writes.length)
  | some outcome =>
    let service := service.leaveLane
    let service := (service.publish (service.executionChange ref true)).publish (.remove ref)
    service.setPhase ref (.flushing outcome service.writes.length)

/-- The follow-up after the first flush: it is begun, or discarded. -/
def handOff (service : TaskService) (ref : Nat) (outcome : Completed) (sessionId : String) :
    TaskService :=
  match service.queued with
  | none => service.setPhase ref (.releasing service.writes.length)
  | some record =>
    if !service.closing && outcome.startsFollowUp then
      let followUp := service.followUps.read record
      (service.setPhase ref (.handingOff service.runs.next)).begin sessionId followUp.text
        followUp.commandId (some record)
    else
      let service := service.discard record
        (if service.closing then "core_closed" else outcome.stopReason.text)
      service.setPhase ref (.releasing service.writes.length)

/-- The end of `settle`. -/
def released (service : TaskService) (ref : Nat) : TaskService :=
  { service with handoffPending := false }.setPhase ref .settled

/-- The end of `settle` after a completion that threw. -/
def releasedFailed (service : TaskService) (ref : Nat) : TaskService :=
  let service : TaskService := { service with handoffPending := false }
  ((service.publish (service.executionChange ref true)).publish (.remove ref)).setPhase ref .settled

/-! ## Events -/

inductive TaskEvent where
  /-- `admit`. -/
  | admitTask (sessionId : String) (text : JsText) (commandId : String)
  | steer (executionId : Nat) (text : JsText) (commandId : String)
  | steerEnded (call : SteerCall) (ended : SteerEnd)
  | queueFollowUp (afterExecutionId : Nat) (text : JsText) (commandId : String)
  | cancel (executionId : Nat) (result : CancelResult)
  | observeSteeringApplied (executionId : Nat)
  | close
  /-- `host.admit` resolves with an execution id, or throws. -/
  | hostAdmitted (ref hostExecutionId : Nat)
  | hostRefused (ref : Nat)
  /-- The completion resolves, or throws. -/
  | hostCompleted (ref : Nat) (ended : Option Completed)
  /-- `persistCompletion` of an execution, and `persistFollowUp` of the next record of the chain,
  resolve or throw. -/
  | completionPersisted (ref : Nat) (ok : Bool)
  | followUpPersisted (ok : Bool)
  /-- A suspended `begin` or `settle` goes on; `sessionId` is the host's, where a `begin` asks. -/
  | resume (ref : Nat) (sessionId : String)

/-- `steer`, up to its await. -/
def steer (service : TaskService) (executionId : Nat) (text : JsText) (commandId : String) :
    TaskService :=
  match service.active with
  | none => service
  | some active =>
    if active.executionId ≠ executionId ∨ service.preparing ∨ service.cancellationRequested ∨
        service.steeringAccepted then service
    else { service with
      steeringAccepted := true
      steerCalls := ⟨active, commandId, text⟩ :: service.steerCalls }

/-- `steer` after its await. -/
def steerEnded (service : TaskService) (call : SteerCall) (ended : SteerEnd) : TaskService :=
  let service : TaskService := { service with steerCalls := service.steerCalls.erase call }
  if service.active ≠ some call.active then service
  else match ended with
    | .accepted =>
      if service.steeringApplied then service
      else { service with
        steering := some { call.active with commandId := call.commandId, text := call.text } }
    | .alreadyAccepted => { service with steeringAccepted := true }
    | .idle | .threw => { service with steeringAccepted := false }

/-- `queueFollowUp`, up to its await. -/
def queueFollowUp (service : TaskService) (afterExecutionId : Nat) (text : JsText)
    (commandId : String) : TaskService :=
  match service.active with
  | none => service
  | some active =>
    if active.executionId ≠ afterExecutionId ∨ service.preparing ∨
        service.cancellationRequested ∨ service.queued.isSome then service
    else
      let queueId := service.followUps.next
      let record : FollowUp :=
        ⟨queueId, commandId, active.sessionId, afterExecutionId, text, .queued, none, none⟩
      { service with
        followUps := (service.followUps.alloc record).2
        queued := some queueId }.saveFollowUp queueId

/-- `cancel`, with what the host's `cancelActiveTurn` returns. -/
def cancel (service : TaskService) (executionId : Nat) (result : CancelResult) : TaskService :=
  if service.active.map TaskLane.executionId ≠ some executionId ∨ result = .idle then service
  else { service with cancellationRequested := true }.discardQueued "cancelled"

/-- `observe` of a `steering_applied`. -/
def observeSteeringApplied (service : TaskService) (executionId : Nat) : TaskService :=
  if service.active.map TaskLane.executionId = some executionId then
    { service with steeringApplied := true, steering := none }
  else service

/-- No `begin` is still to go on with a write up to this one: its continuation was registered when
the write was made, before any flush could wait for it. -/
def BeginsFirst (service : TaskService) (write : Nat) : Prop :=
  ∀ ref < service.runs.next,
    ((service.runs.read ref).phase.savedBy.all fun saved => write < saved) = true

instance (service : TaskService) (write : Nat) : Decidable (service.BeginsFirst write) :=
  inferInstanceAs (Decidable (∀ ref < service.runs.next, _ = true))

/-- One round of `flushFollowUps`, which waits for `write`: it is over when the chain has not grown
meanwhile, and throws when a write failed. -/
def flush (service : TaskService) (ref write : Nat) (waiting : Nat → RunPhase)
    (done : TaskService) : Option TaskService :=
  if write ≤ service.written then
    if ¬ service.BeginsFirst write then none
    else if write = service.writes.length then some done
    else some (service.setPhase ref (waiting service.writes.length))
  else if service.writeFailed then some (service.setPhase ref .flushBroken)
  else none

/-- A suspended call goes on, where what it waits for is there. -/
def resume (service : TaskService) (ref : Nat) (sessionId : String) : Option TaskService :=
  match (service.runs.read ref).phase with
  | .savingRejected write =>
    if write ≤ service.written then some (service.rejectionSaved ref)
    else if service.writeFailed then some (service.setPhase ref .rejectionUnsaved)
    else none
  | .savingStarted write =>
    if write ≤ service.written then some (service.startSaved ref)
    else if service.writeFailed then some (service.setPhase ref .startUnsaved)
    else none
  | .flushing outcome write =>
    service.flush ref write (.flushing outcome) (service.handOff ref outcome sessionId)
  | .releasing write => service.flush ref write .releasing (service.released ref)
  | .flushingFailed write => service.flush ref write .flushingFailed (service.releasedFailed ref)
  | .handingOff child =>
    match (service.runs.read child).phase with
    | .admitting | .savingRejected _ | .savingStarted _ => none
    | .refused | .rejectionUnsaved | .startUnsaved => some (service.setPhase ref .settled)
    | _ => some (service.setPhase ref (.awaitingChild child))
  | .awaitingChild child =>
    match (service.runs.read child).phase with
    | .settled | .completionUnsaved | .flushBroken => some (service.setPhase ref .settled)
    | _ => none
  | _ => none

/-- One event; `none` where it cannot happen. -/
def step (service : TaskService) : TaskEvent → Option TaskService
  | .admitTask sessionId text commandId =>
    if service.isBusy then some service else some (service.begin sessionId text commandId none)
  | .steer executionId text commandId => some (service.steer executionId text commandId)
  | .steerEnded call ended =>
    if call ∈ service.steerCalls then some (service.steerEnded call ended) else none
  | .queueFollowUp afterExecutionId text commandId =>
    some (service.queueFollowUp afterExecutionId text commandId)
  | .cancel executionId result => some (service.cancel executionId result)
  | .observeSteeringApplied executionId => some (service.observeSteeringApplied executionId)
  | .close => some { service with closing := true }
  | .hostAdmitted ref hostExecutionId =>
    match (service.runs.read ref).phase with
    | .admitting => some (service.admissionAccepted ref hostExecutionId)
    | _ => none
  | .hostRefused ref =>
    match (service.runs.read ref).phase with
    | .admitting => some (service.admissionFailed ref)
    | _ => none
  | .hostCompleted ref ended =>
    match (service.runs.read ref).phase with
    | .running => some (service.completed ref ended)
    | _ => none
  | .completionPersisted ref ok =>
    match (service.runs.read ref).phase with
    | .persisting ended =>
      if ok then some (service.completionSaved ref ended)
      else some (service.setPhase ref .completionUnsaved)
    | _ => none
  | .followUpPersisted ok =>
    if service.written < service.writes.length ∧ service.writeFailed = false then
      if ok then some { service with written := service.written + 1 }
      else some { service with writeFailed := true }
    else none
  | .resume ref sessionId => service.resume ref sessionId

end TaskService

end Henji
