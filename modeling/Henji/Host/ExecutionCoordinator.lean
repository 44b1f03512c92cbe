import Henji.Library.Heap
import Henji.Library.Runs

/-!
# The coordinator of a session's executions

`runReservation` takes an execution from its admission to its end. The watchdog of a cancellation
runs beside it, and the terminal of the execution is decided by one of two promises: that of
`settleProposal` or that of `seal`. A failure that the Worker reports is settled by `runReservation`
itself.

A reservation is a cell of `reservations`, with the await at which each of its parts is suspended.
-/

namespace Henji

/-! ## Values -/

/-- `LoopOutcomeMetadata`, as far as a `turn_end` shows it. A diagnostic is its stage and code. -/
structure SettledOutcome where
  stopReason : String
  diagnostic : Option (String × String)
  turnProviderRequestCount : Option Nat
  runtimeProviderRequestCount : Option Nat
  executionArtifactId : Option String
  recallableExecutionId : Option String
  executionArtifactDurability : Option String
  executionArtifactPersistenceError : Option String
  executionAdmissionDurability : Option String
  executionAdmissionPersistenceError : Option String
deriving DecidableEq

/-- `DataSessionTerminalResult`. -/
structure DataTerminalResult where
  accepted : Bool
  canonical : Bool
  durable : Bool
  outcome : SettledOutcome
deriving DecidableEq

/-- The `turn_end` event. -/
structure TurnEndEvent where
  turn : Nat
  outcome : String
  committed : Bool
  turnProviderRequestCount : Option Nat
  runtimeProviderRequestCount : Option Nat
  executionArtifactId : Option String
  recallableExecutionId : Option String
  executionArtifactDurability : Option String
  executionArtifactPersistenceError : Option String
  executionAdmissionDurability : Option String
  executionAdmissionPersistenceError : Option String
deriving DecidableEq

def turnEndFromOutcome (turn : Nat) (outcome : SettledOutcome) (committed : Bool) : TurnEndEvent where
  turn
  outcome := outcome.stopReason
  committed
  turnProviderRequestCount := outcome.turnProviderRequestCount
  runtimeProviderRequestCount := outcome.runtimeProviderRequestCount
  executionArtifactId := outcome.executionArtifactId
  recallableExecutionId := outcome.recallableExecutionId
  executionArtifactDurability := outcome.executionArtifactDurability
  executionArtifactPersistenceError := outcome.executionArtifactPersistenceError
  executionAdmissionDurability := outcome.executionAdmissionDurability
  executionAdmissionPersistenceError := outcome.executionAdmissionPersistenceError

/-- `DataExecutionControlFact`. -/
inductive ControlFact where
  | cancelRequested
  | cancelSent
  | cancelFailed
  | cancelEscalated
  | cancelReceived (result : String)
  | acknowledgementRequested (accepted : Bool)
  | acknowledgementSent (accepted : Bool)
  | acknowledgementFailed (accepted : Bool)
  | turnSettled
  | postCommitTurnEnd (turn : Nat) (outcome : String) (committed generationUnavailable : Bool)
  | processCleanupFinished (failed : Bool)
deriving DecidableEq

inductive CommitDecision where
  | accepted
  | refused (settlement reason : String)
deriving DecidableEq

/-- What a seal is asked for. -/
structure SealRequest where
  decision : String
  reason : String
deriving DecidableEq

/-- The messages of the Worker that end its part of an execution. -/
inductive ReadyMessage where
  | proposalReady
  | failureReady
  | workerError (message : String)
deriving DecidableEq

/-- The answers to an acknowledgement. -/
inductive TurnMessage where
  | turnSettled
  | workerError
deriving DecidableEq

/-! ## State -/

/-- A wait for a message of the Worker. It is rejected once the queue has failed more often than
when the waiter was registered. -/
inductive Wait (α : Type) where
  | registered (fails : Nat)
  | received (message : α)
deriving DecidableEq

/-- Whose promise `terminalPromise` is. -/
inductive TerminalSource where
  | proposal
  | sealing
deriving DecidableEq, Repr

/-- How `runReservation` came to its `finally`: the execution was not admitted, a failure of the
Worker was settled, or a terminal promise was settled. -/
inductive Ending where
  | refused
  | failure
  | joined (source : TerminalSource)
deriving DecidableEq, Repr

/-- The await at which `runReservation` stands. `waits` says of a `finishProcessCleanup` that it
did not return at once. -/
inductive MainPhase where
  | ensuring
  | admitting
  | registering
  | waiting (wait : Wait ReadyMessage)
  | errorCleaning (reason : String) (waits : Bool)
  | errorChildren (reason : String)
  | failureChildren
  | failureMetadata
  | settlingFailure
  | failureTurn (result : DataTerminalResult) (wait : Wait TurnMessage)
  | failureCleaning (result : DataTerminalResult) (waits : Bool)
  | preparing
  | proposalChildren
  | proposalMetadata (childFailed : Bool)
  /-- It awaits the terminal promise, inside of its `try` or not. -/
  | joining (source : TerminalSource) (inTry : Bool)
  | forcedCleaning (waits : Bool)
  | caughtCleaning (reason : String) (waits : Bool)
  | finalChildren (ending : Ending)
  | finalCleaning (ending : Ending) (waits : Bool)
  | finalWrites (ending : Ending)
  | finished (ending : Ending)
deriving DecidableEq

/-- The promise of `settleProposal`. -/
inductive ProposalPhase where
  | idle
  | authorizing (decision : CommitDecision)
  | turnWait (result : DataTerminalResult) (wait : Wait TurnMessage)
  | cleaning (result : DataTerminalResult) (waits : Bool)
  | resolved
  | rejected
deriving DecidableEq

/-- The promise of `seal`. -/
inductive SealPhase where
  | idle
  | cleaning (request : SealRequest) (waits : Bool)
  | children (request : SealRequest)
  | metadata (request : SealRequest)
  | sealing (request : SealRequest)
  | resolved
  | rejected
deriving DecidableEq

inductive Watchdog where
  | idle
  | armed
  /-- `escalateCancellation` waits for the processes; it found the execution active, or not. -/
  | escalating (captured : Bool)
  | expired
deriving DecidableEq, Repr

/-- `PendingAdmission` with its `ActiveExecution`, which exists once it is admitted. `stored` is the
terminal result that Data holds for it; `controlFacts` and `turnEnds` are what was recorded and
delivered. -/
structure ExecutionReservation where
  cancelled : Bool
  admitted : Bool
  turn : Nat
  executionCancelled : Bool
  forced : Bool
  dispatched : Bool
  settling : Bool
  cleanupRecorded : Bool
  watchdog : Watchdog
  main : MainPhase
  terminal : Option TerminalSource
  proposal : ProposalPhase
  sealed : SealPhase
  stored : Option DataTerminalResult
  controlFacts : List ControlFact
  turnEnds : List TurnEndEvent

/-- The fields of the coordinator and of its supervisor. `fails` counts the failures of the message
queue. -/
structure CoordinatorHost where
  closed : Bool
  active : Bool
  pendingAdmission : Option Nat
  activeExecution : Option Nat
  unavailable : Bool
  needsReplacement : Bool
  fails : Nat
  runtimeRequestCount : Nat

/-- What the code of one reservation reads and writes. -/
structure ReservationTurn where
  host : CoordinatorHost
  reservation : ExecutionReservation

structure ExecutionCoordinator where
  host : CoordinatorHost
  reservations : Heap ExecutionReservation

/-- How a promise that a part of a reservation awaits is settled. -/
inductive Reply where
  | resolved
  | rejected (error : String)
  /-- `executionAdmit` resolves with the turn of the execution. -/
  | admitted (turn : Nat)
  /-- `cleanupParent` resolves; a run of a child may have failed. -/
  | children (failed : Bool)
  /-- `waitForProcessCleanup` is over. -/
  | cleaned (failed : Bool)
  /-- Data settles the execution. Sending the acknowledgement may fail, and an answer to it may be
  in the queue already. -/
  | settled (result : DataTerminalResult) (sendFails : Bool) (queued : Option TurnMessage)
  /-- Data does not answer, and may have stored a result. -/
  | settleFailed (error : String) (stored : Option DataTerminalResult)
  /-- A message was received, or its wait was rejected; or the terminal promise is settled. -/
  | resumed

namespace ReservationTurn

def update (t : ReservationTurn) (f : ExecutionReservation → ExecutionReservation) :
    ReservationTurn :=
  { t with reservation := f t.reservation }

def setMain (t : ReservationTurn) (main : MainPhase) : ReservationTurn :=
  t.update fun reservation => { reservation with main }

/-- `recordExecutionControl`. -/
def recordExecutionControl (t : ReservationTurn) (fact : ControlFact) : ReservationTurn :=
  t.update fun reservation =>
    { reservation with controlFacts := reservation.controlFacts ++ [fact] }

def markUnavailable (t : ReservationTurn) : ReservationTurn :=
  { t with host := { t.host with unavailable := true, fails := t.host.fails + 1 } }

def markUnavailableForReplacement (t : ReservationTurn) : ReservationTurn :=
  { t with host := { t.host with needsReplacement := true } }.markUnavailable

/-- Whether a call of `finishProcessCleanup` waits. -/
def cleanupWaits (t : ReservationTurn) : Bool := !t.reservation.cleanupRecorded

/-- The rest of `finishProcessCleanup`. -/
def endProcessCleanup (t : ReservationTurn) (waits failed : Bool) : ReservationTurn :=
  if waits then
    (t.update fun reservation => { reservation with cleanupRecorded := true }).recordExecutionControl
      (.processCleanupFinished failed)
  else t

def clearCancellationWatchdog (t : ReservationTurn) : ReservationTurn :=
  match t.reservation.watchdog with
  | .armed => t.update fun reservation => { reservation with watchdog := .idle }
  | .idle | .escalating _ | .expired => t

/-- `finishExecution`. -/
def finishExecution (ref : Nat) (t : ReservationTurn) : ReservationTurn :=
  (if t.host.activeExecution = some ref then
    t.update fun reservation => { reservation with settling := true } else t)
    |>.clearCancellationWatchdog

/-- `terminalOutcome`. -/
def terminalOutcome (t : ReservationTurn) (result : DataTerminalResult) : SettledOutcome :=
  { result.outcome with
    runtimeProviderRequestCount :=
      result.outcome.runtimeProviderRequestCount.map fun _ => t.host.runtimeRequestCount }

/-- `deliverTerminal`. -/
def deliverTerminal (t : ReservationTurn) (result : DataTerminalResult) (committed : Bool) :
    ReservationTurn :=
  if result.durable then
    let outcome := t.terminalOutcome result
    let turn := t.reservation.turn
    (t.recordExecutionControl (.postCommitTurnEnd turn outcome.stopReason committed
      (t.host.unavailable || t.host.needsReplacement))).update fun reservation =>
        { reservation with
          turnEnds := reservation.turnEnds ++ [turnEndFromOutcome turn outcome committed] }
  else t

/-- `sendSettlementAcknowledgement`. -/
def sendSettlementAcknowledgement (t : ReservationTurn) (result : DataTerminalResult)
    (sendFails : Bool) : ReservationTurn :=
  let accepted := result.accepted && result.durable
  let requested := t.recordExecutionControl (.acknowledgementRequested accepted)
  if sendFails then
    (requested.recordExecutionControl (.acknowledgementFailed accepted)).markUnavailableForReplacement
  else requested.recordExecutionControl (.acknowledgementSent accepted)

/-- The wait of `waitForTurnSettled`, where an answer is in the queue or not. -/
def turnWait (t : ReservationTurn) : Option TurnMessage → Wait TurnMessage
  | some message => .received message
  | none => .registered t.host.fails

/-- The rest of `waitForTurnSettled`; `none` while its waiter is registered. -/
def turnAnswered (t : ReservationTurn) : Wait TurnMessage → Option ReservationTurn
  | .received .turnSettled => some (t.recordExecutionControl .turnSettled)
  | .received .workerError => some t.markUnavailableForReplacement
  | .registered fails =>
    if fails < t.host.fails then some t.markUnavailableForReplacement else none

/-- `seal`, where no terminal promise is there. -/
def startSeal (t : ReservationTurn) (decision reason : String) : ReservationTurn :=
  t.markUnavailableForReplacement.update fun reservation =>
    { reservation with
      settling := true
      terminal := some .sealing
      sealed := .cleaning ⟨decision, reason⟩ t.cleanupWaits }

/-- `await this.seal(..)`. -/
def awaitSeal (t : ReservationTurn) (inTry : Bool) (decision reason : String) : ReservationTurn :=
  match t.reservation.terminal with
  | some source => t.setMain (.joining source inTry)
  | none => (t.startSeal decision reason).setMain (.joining .sealing inTry)

/-- The end of `finally`. -/
def release (ref : Nat) (t : ReservationTurn) (ending : Ending) : ReservationTurn :=
  { t.setMain (.finished ending) with
    host := { t.host with
      activeExecution := if t.host.activeExecution = some ref then none else t.host.activeExecution
      pendingAdmission :=
        if t.host.pendingAdmission = some ref then none else t.host.pendingAdmission
      active := false } }

/-- `finally` of an admitted execution, up to its first await. -/
def finalize (t : ReservationTurn) (ending : Ending) : ReservationTurn :=
  t.clearCancellationWatchdog.setMain (.finalChildren ending)

/-- The execution was not admitted. -/
def refuse (ref : Nat) (t : ReservationTurn) : ReservationTurn :=
  t.clearCancellationWatchdog.release ref .refused

/-- The `catch` of an admitted execution, up to its first await. -/
def caught (t : ReservationTurn) (error : String) : ReservationTurn :=
  if t.reservation.forced then t.setMain (.forcedCleaning t.cleanupWaits)
  else if t.reservation.executionCancelled ∨ t.reservation.cancelled then
    t.awaitSeal false "cancelled" "execution cancelled"
  else t.markUnavailableForReplacement.setMain (.caughtCleaning error t.cleanupWaits)

def terminatedReason : String :=
  "Worker generation was terminated after cancellation did not settle"

/-- `executionAdmit` resolved. -/
def admitExecution (ref : Nat) (t : ReservationTurn) (turn : Nat) : ReservationTurn :=
  { t with
    host := { t.host with activeExecution := some ref }
    reservation := { t.reservation with
      admitted := true
      turn
      executionCancelled := t.reservation.cancelled
      main := .registering } }

/-- The children are open: the turn is sent, unless it was cancelled. -/
def dispatch (t : ReservationTurn) : ReservationTurn :=
  if t.reservation.cancelled ∨ t.reservation.forced then
    t.awaitSeal true (if t.reservation.forced then "interrupted" else "cancelled")
      "cancelled during preparation"
  else t.update fun reservation =>
    { reservation with dispatched := true, main := .waiting (.registered t.host.fails) }

/-- The Worker is done with its part. -/
def ready (t : ReservationTurn) : ReadyMessage → ReservationTurn
  | .workerError message =>
    t.markUnavailableForReplacement.update fun reservation =>
      { reservation with settling := true, main := .errorCleaning message t.cleanupWaits }
  | .failureReady =>
    t.update fun reservation => { reservation with settling := true, main := .failureChildren }
  | .proposalReady =>
    t.update fun reservation => { reservation with settling := true, main := .preparing }

/-- The decision of `settleProposal`. -/
def commitDecision (ref : Nat) (t : ReservationTurn) (childFailed : Bool) : CommitDecision :=
  let stillCurrent := t.host.activeExecution = some ref ∧ t.host.unavailable = false
  if t.reservation.executionCancelled ∨ t.reservation.cancelled then
    .refused "cancelled" "execution cancelled before commit"
  else if t.reservation.forced ∨ ¬ stillCurrent then
    .refused "interrupted" "execution changed before commit"
  else if childFailed then .refused "rejected" "child cleanup failed"
  else .accepted

/-- `settleProposal` publishes its promise and awaits it. -/
def authorize (ref : Nat) (t : ReservationTurn) (childFailed : Bool) : ReservationTurn :=
  t.update fun reservation =>
    { reservation with
      settling := true
      terminal := some .proposal
      proposal := .authorizing (t.commitDecision ref childFailed)
      main := .joining .proposal true }

/-- What Data answers is the one result that it stores. -/
def store (t : ReservationTurn) (result : DataTerminalResult) : Option ReservationTurn :=
  if t.reservation.stored.all (· = result) then
    some (t.update fun reservation => { reservation with stored := some result })
  else none

/-- Data does not answer, and may have stored a result. -/
def storeUnanswered (t : ReservationTurn) (stored : Option DataTerminalResult) : ReservationTurn :=
  t.update fun reservation => { reservation with stored := reservation.stored <|> stored }

/-- The end of the failure path of `runReservation`. -/
def failureSettled (ref : Nat) (t : ReservationTurn) (result : DataTerminalResult) :
    ReservationTurn :=
  let finished := t.finishExecution ref
  let marked :=
    if result.outcome.diagnostic = some ("cancellation_cleanup", "cleanup_error") then
      finished.markUnavailable
    else finished
  (marked.deliverTerminal result false).finalize .failure

/-- Whether the terminal promise of a source is settled; `false` where it is rejected. -/
def terminalSettled (t : ReservationTurn) : TerminalSource → Option Bool
  | .proposal => match t.reservation.proposal with
    | .resolved => some true
    | .rejected => some false
    | .idle | .authorizing _ | .turnWait _ _ | .cleaning _ _ => none
  | .sealing => match t.reservation.sealed with
    | .resolved => some true
    | .rejected => some false
    | .idle | .cleaning _ _ | .children _ | .metadata _ | .sealing _ => none

/-! ## The parts of a reservation -/

/-- `runReservation` goes on; `none` where it does not stand at such an await. -/
def mainStep (ref : Nat) (t : ReservationTurn) (reply : Reply) : Option ReservationTurn :=
  match t.reservation.main, reply with
  | .ensuring, .resolved =>
    some { t.setMain .admitting with
      host := { t.host with unavailable := false, needsReplacement := false } }
  | .ensuring, .rejected _ | .admitting, .rejected _ => some (t.refuse ref)
  | .admitting, .admitted turn => some (t.admitExecution ref turn)
  | .registering, .resolved => some t.dispatch
  | .registering, .rejected error => some (t.caught error)
  | .waiting (.received message), .resumed => some (t.ready message)
  | .waiting (.registered fails), .resumed =>
    if fails < t.host.fails then some (t.caught "Worker transport unavailable") else none
  | .errorCleaning reason waits, .cleaned failed =>
    some ((t.endProcessCleanup waits failed).setMain (.errorChildren reason))
  | .errorChildren reason, .children _ => some (t.awaitSeal true "interrupted" reason)
  | .errorChildren _, .rejected error => some (t.caught error)
  | .failureChildren, .children _ => some (t.setMain .failureMetadata)
  | .failureChildren, .rejected error => some (t.caught error)
  | .failureMetadata, .resolved => some (t.setMain .settlingFailure)
  | .failureMetadata, .rejected error => some (t.caught error)
  | .settlingFailure, .settled result sendFails queued =>
    (t.store result).map fun stored =>
      let acknowledged := stored.sendSettlementAcknowledgement result sendFails
      acknowledged.setMain (.failureTurn result (acknowledged.turnWait queued))
  | .settlingFailure, .settleFailed error stored => some ((t.storeUnanswered stored).caught error)
  | .failureTurn result wait, .resumed =>
    (t.turnAnswered wait).map fun answered =>
      answered.setMain (.failureCleaning result answered.cleanupWaits)
  | .failureCleaning result waits, .cleaned failed =>
    some ((t.endProcessCleanup waits failed).failureSettled ref result)
  | .preparing, .resolved =>
    some (t.setMain (match t.reservation.terminal with
      | some source => .joining source true
      | none => .proposalChildren))
  | .preparing, .rejected error => some (t.caught error)
  | .proposalChildren, .children failed =>
    some (t.setMain (match t.reservation.terminal with
      | some source => .joining source true
      | none => .proposalMetadata failed))
  | .proposalChildren, .rejected error => some (t.caught error)
  -- the terminal promise is not looked at again after this await
  | .proposalMetadata childFailed, .resolved => some (t.authorize ref childFailed)
  | .proposalMetadata _, .rejected error => some (t.caught error)
  | .joining source inTry, .resumed =>
    (t.terminalSettled source).map fun resolved =>
      if resolved || !inTry then t.finalize (.joined source)
      else t.caught "terminal promise rejected"
  | .forcedCleaning waits, .cleaned failed =>
    some ((t.endProcessCleanup waits failed).awaitSeal false "interrupted" terminatedReason)
  | .caughtCleaning reason waits, .cleaned failed =>
    some ((t.endProcessCleanup waits failed).awaitSeal false "interrupted" reason)
  | .finalChildren ending, .children _ | .finalChildren ending, .rejected _ =>
    some (t.setMain (.finalCleaning ending t.cleanupWaits))
  | .finalCleaning ending waits, .cleaned failed =>
    some ((t.endProcessCleanup waits failed).setMain (.finalWrites ending))
  | .finalWrites ending, .resolved => some (t.release ref ending)
  | _, _ => none

/-- The promise of `settleProposal` goes on. -/
def proposalStep (ref : Nat) (t : ReservationTurn) (reply : Reply) : Option ReservationTurn :=
  match t.reservation.proposal, reply with
  | .authorizing _, .settled result sendFails queued =>
    (t.store result).map fun stored =>
      let acknowledged := stored.sendSettlementAcknowledgement result sendFails
      acknowledged.update fun reservation =>
        { reservation with proposal := .turnWait result (acknowledged.turnWait queued) }
  | .authorizing _, .settleFailed _ stored =>
    some ((t.storeUnanswered stored).update fun reservation =>
      { reservation with proposal := .rejected })
  | .turnWait result wait, .resumed =>
    (t.turnAnswered wait).map fun answered =>
      answered.update fun reservation =>
        { reservation with proposal := .cleaning result answered.cleanupWaits }
  | .cleaning result waits, .cleaned failed =>
    some ((((t.endProcessCleanup waits failed).finishExecution ref).deliverTerminal result
      (result.accepted && result.durable)).update fun reservation =>
        { reservation with proposal := .resolved })
  | _, _ => none

/-- The promise of `seal` goes on. -/
def sealStep (ref : Nat) (t : ReservationTurn) (reply : Reply) : Option ReservationTurn :=
  match t.reservation.sealed, reply with
  | .cleaning request waits, .cleaned failed =>
    some ((t.endProcessCleanup waits failed).update fun reservation =>
      { reservation with sealed := .children request })
  | .children request, .children _ | .children request, .rejected _ =>
    some (t.update fun reservation => { reservation with sealed := .metadata request })
  | .metadata request, .resolved | .metadata request, .rejected _ =>
    some (t.update fun reservation => { reservation with sealed := .sealing request })
  | .sealing _, .settled result _ _ =>
    (t.store result).map fun stored =>
      ((stored.deliverTerminal result false).finishExecution ref).update fun reservation =>
        { reservation with sealed := .resolved }
  | .sealing _, .settleFailed _ stored =>
    some ((t.storeUnanswered stored).update fun reservation =>
      { reservation with sealed := .rejected })
  | _, _ => none

/-- `escalateCancellation`, up to its wait for the processes. -/
def escalate (ref : Nat) (t : ReservationTurn) : Option ReservationTurn :=
  match t.reservation.watchdog with
  | .armed =>
    if t.reservation.cancelled then
      let captured := decide (t.host.activeExecution = some ref)
      some (t.markUnavailableForReplacement.update fun reservation =>
        { reservation with
          forced := reservation.forced || captured
          watchdog := .escalating captured })
    else some (t.update fun reservation => { reservation with watchdog := .expired })
  | .idle | .escalating _ | .expired => none

/-- The rest of `escalateCancellation`. -/
def escalated (t : ReservationTurn) : Option ReservationTurn :=
  match t.reservation.watchdog with
  | .escalating captured =>
    let recorded := (t.recordExecutionControl .cancelEscalated).update fun reservation =>
      { reservation with watchdog := .expired }
    some (if captured ∧ t.reservation.terminal = none then
      recorded.startSeal "interrupted" terminatedReason else recorded)
  | .idle | .armed | .expired => none

/-- The waiter of `runReservation` gets a message, unless it was rejected. -/
def receiveReady (t : ReservationTurn) (message : ReadyMessage) : Option ReservationTurn :=
  match t.reservation.main with
  | .waiting (.registered fails) =>
    if fails < t.host.fails then none else some (t.setMain (.waiting (.received message)))
  | _ => none

/-- The waiter of `waitForTurnSettled` gets a message, unless it was rejected. -/
def receiveTurn (t : ReservationTurn) (message : TurnMessage) : Option ReservationTurn :=
  match t.reservation.main, t.reservation.proposal with
  | .failureTurn result (.registered fails), _ =>
    if fails < t.host.fails then none
    else some (t.setMain (.failureTurn result (.received message)))
  | _, .turnWait result (.registered fails) =>
    if fails < t.host.fails then none
    else some (t.update fun reservation =>
      { reservation with proposal := .turnWait result (.received message) })
  | _, _ => none

/-- `cancelActiveTurn` for its target. `sent` says how sending the message went, where a correlation
is known. -/
def cancel (ref : Nat) (t : ReservationTurn) (sent : Option Bool) : ReservationTurn :=
  if (t.host.activeExecution = some ref ∧ t.reservation.executionCancelled = true) ∨
      (t.host.pendingAdmission = some ref ∧ t.reservation.cancelled = true) then t
  else
    let requested := (t.update fun reservation =>
      { reservation with
        executionCancelled :=
          reservation.executionCancelled || decide (t.host.activeExecution = some ref)
        cancelled := true
        watchdog := .armed }).recordExecutionControl .cancelRequested
    match sent with
    | none => requested
    | some true => requested.recordExecutionControl .cancelSent
    | some false =>
      (requested.recordExecutionControl .cancelFailed).markUnavailableForReplacement

end ReservationTurn

/-! ## Events -/

inductive CoordinatorEvent where
  | admitTask (initiallyCancelled : Bool)
  | main (ref : Nat) (reply : Reply)
  | proposal (ref : Nat) (reply : Reply)
  | sealed (ref : Nat) (reply : Reply)
  | readyMessage (ref : Nat) (message : ReadyMessage)
  | turnMessage (ref : Nat) (message : TurnMessage)
  | cancelReceived (ref : Nat) (result : String)
  | cancelActiveTurn (sent : Option Bool)
  /-- The timer of the watchdog. -/
  | watchdogFires (ref : Nat)
  | escalated (ref : Nat)
  | close (sent : Option Bool)
  /-- The generation is given up elsewhere. -/
  | generationLost
  | requestCounted (runtimeRequestCount : Nat)

namespace ExecutionCoordinator

/-- The cell of a reservation that was never made. -/
def unreserved : ExecutionReservation where
  cancelled := false
  admitted := false
  turn := 0
  executionCancelled := false
  forced := false
  dispatched := false
  settling := false
  cleanupRecorded := false
  watchdog := .idle
  main := .finished .refused
  terminal := none
  proposal := .idle
  sealed := .idle
  stored := none
  controlFacts := []
  turnEnds := []

def start : ExecutionCoordinator where
  host :=
    { closed := false
      active := false
      pendingAdmission := none
      activeExecution := none
      unavailable := false
      needsReplacement := false
      fails := 0
      runtimeRequestCount := 0 }
  reservations := .empty unreserved

/-- A part of one reservation runs. -/
def onTurn (coordinator : ExecutionCoordinator) (ref : Nat)
    (f : ReservationTurn → Option ReservationTurn) : Option ExecutionCoordinator :=
  (f ⟨coordinator.host, coordinator.reservations.read ref⟩).map fun t =>
    ⟨t.host, coordinator.reservations.write ref t.reservation⟩

/-- `admit`. Where it is rejected, nothing changes. -/
def admitTask (coordinator : ExecutionCoordinator) (initiallyCancelled : Bool) : ExecutionCoordinator :=
  let host := coordinator.host
  if host.pendingAdmission.isSome ∨ host.active ∨ host.closed ∨
      (host.unavailable ∧ host.needsReplacement = false) then coordinator
  else
    { host := { host with
        pendingAdmission := some coordinator.reservations.next
        active := true }
      reservations := (coordinator.reservations.alloc { unreserved with
        cancelled := initiallyCancelled
        main := .ensuring }).2 }

/-- `cancelActiveTurn`. An active execution is that of the pending admission. -/
def cancelActiveTurn (coordinator : ExecutionCoordinator) (sent : Option Bool) :
    Option ExecutionCoordinator :=
  match coordinator.host.activeExecution <|> coordinator.host.pendingAdmission with
  | some ref =>
    if coordinator.host.active then coordinator.onTurn ref fun t => some (t.cancel ref sent)
    else some coordinator
  | none => some coordinator

/-- One event; `none` where it cannot happen. -/
def step (coordinator : ExecutionCoordinator) : CoordinatorEvent → Option ExecutionCoordinator
  | .admitTask initiallyCancelled => some (coordinator.admitTask initiallyCancelled)
  | .main ref reply => coordinator.onTurn ref fun t => t.mainStep ref reply
  | .proposal ref reply => coordinator.onTurn ref fun t => t.proposalStep ref reply
  | .sealed ref reply => coordinator.onTurn ref fun t => t.sealStep ref reply
  | .readyMessage ref message => coordinator.onTurn ref fun t => t.receiveReady message
  | .turnMessage ref message => coordinator.onTurn ref fun t => t.receiveTurn message
  | .cancelReceived ref result =>
    coordinator.onTurn ref fun t =>
      if t.host.pendingAdmission = some ref then
        some (t.recordExecutionControl (.cancelReceived result))
      else none
  | .cancelActiveTurn sent => coordinator.cancelActiveTurn sent
  | .watchdogFires ref => coordinator.onTurn ref fun t => t.escalate ref
  | .escalated ref => coordinator.onTurn ref fun t => t.escalated
  | .close sent =>
    if coordinator.host.closed then some coordinator
    else { coordinator with
      host := { coordinator.host with closed := true } }.cancelActiveTurn sent
  | .generationLost =>
    some { coordinator with
      host := { coordinator.host with
        unavailable := true
        needsReplacement := true
        fails := coordinator.host.fails + 1 } }
  | .requestCounted runtimeRequestCount =>
    some { coordinator with host := { coordinator.host with runtimeRequestCount } }

end ExecutionCoordinator

end Henji
