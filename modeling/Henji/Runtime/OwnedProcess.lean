import Henji.Library.Runs
import Mathlib.Data.List.Basic

/-!
# The process group of a command

A runner leads the group of a command. It starts the command, reports its status and stays until its
input ends, so that the id of the group stays taken. The host ends the input when nobody else is left in
the group, or stops the group: it sends TERM, and to what is left after a while KILL.

What the host knows of the group are snapshots. The command, its descendants, the runner, the pipes and
the host take their steps in any order.
-/

namespace Henji

namespace OwnedProcess

structure ProcessStatus where
  exitCode : Option Nat
  signal : Option String
deriving DecidableEq, Repr

def killedStatus : ProcessStatus := ⟨none, some "SIGKILL"⟩

/-- The leader of the group. `booting` lasts until it has its handler and its command. -/
inductive RunnerState where
  | booting
  | anchored
  | exited
  | reaped
deriving DecidableEq, Repr

inductive CommandState where
  | absent
  | running
  | exited (status : ProcessStatus)
deriving DecidableEq, Repr

/-- What the runner writes to its control pipe. -/
inductive Message where
  | started
  | status (status : ProcessStatus)
deriving DecidableEq, Repr

/-- A promise. -/
inductive Settled (α : Type) where
  | pending
  | resolved (value : α)
  | rejected
deriving DecidableEq, Repr

inductive Signal where
  | TERM
  | KILL
deriving DecidableEq, Repr

/-- Where `manageLifetime` is. -/
inductive LifetimePhase where
  | awaitStatus
  | scanning
  | scanned (remaining : Bool)
  | delaying
  | awaitStop
  | awaitExit
  | awaitPipes
  | resolved
  | failing
  | rejected
deriving DecidableEq, Repr

/-- Where `stop` is. -/
inductive StopPhase where
  | awaitReady
  | awaitRelease
  | terminating
  | polling
  | polled (remaining : Bool)
  | deciding
  | decided (remaining : Bool)
  | awaitStatus
  | killing
  | awaitExit
  | draining
  | drained (live : Bool)
  | awaitPipes
  | resolved
  | rejected
deriving DecidableEq, Repr

/-- A signal that was sent to the group, with the runner and the group at that time. -/
structure Sent where
  signal : Signal
  runner : RunnerState
  foreign : Bool
deriving DecidableEq, Repr

structure ProcessState where
  runner : RunnerState
  command : CommandState
  /-- The live members of the group but for the runner. -/
  others : List Nat
  /-- The id of the group is taken by a foreign group. -/
  foreign : Bool
  control : List Message
  /-- The runner has seen the exit of the command. -/
  observed : Bool
  killRequested : Bool
  inputEnded : Bool
  /-- The runner has seen the end of its input. -/
  controlDone : Bool
  pipesClosed : Bool
  ready : Settled Unit
  status : Settled ProcessStatus
  releaseAnchor : Bool
  lifetime : LifetimePhase
  stopping : Option StopPhase
  sent : List Sent
deriving DecidableEq, Repr

/-- The command is a member of the group. -/
def commandPid : Nat := 0

inductive ProcessEvent where
  -- the group
  | boot
  | bootFails
  | commandExits (status : ProcessStatus)
  | fork (parent child : Nat)
  | exits (id : Nat)
  /-- A member leaves the group for one of its own. -/
  | leaves (id : Nat)
  /-- A member sends KILL to its group. -/
  | memberKill (id : Nat)
  | runnerObserves
  | runnerReads
  | runnerInputEnds
  | runnerExits
  | reap
  | pipesClose
  | reuse
  -- the host
  | receive
  | controlEnds
  /-- A snapshot of the group; `foreignLive` is what it shows of a foreign group. -/
  | lifetimeScan (foreignLive : Bool)
  | lifetimeScanFails
  | lifetime
  | stop
  | stopScan (foreignLive : Bool)
  | stopScanFails
  /-- `stop` goes on; `late` after its deadline. -/
  | stopping (late : Bool)
  /-- A signal arrives; `ignoring` are the members that go on after TERM. -/
  | signal (ignoring : List Nat)
  /-- The signal could not be sent, and the group shows nobody alive. -/
  | signalMissed (foreignLive : Bool)
  | signalFails
deriving Repr

namespace ProcessState

variable (s : ProcessState)

/-- What `remaining` shows. -/
def remaining (foreignLive : Bool) : Bool :=
  if s.foreign then foreignLive else !s.others.isEmpty

/-- Whether the group shows a live member. -/
def live (foreignLive : Bool) : Bool :=
  if s.foreign then foreignLive
  else !s.others.isEmpty || s.runner == .booting || s.runner == .anchored

/-- The command ends, if it still runs. -/
def endCommand (status : ProcessStatus) : ProcessState :=
  if s.command = .running then
    { s with command := .exited status, others := s.others.erase commandPid }
  else s

/-- TERM reaches the members. The runner has a handler for it. -/
def term (ignoring : List Nat) : ProcessState :=
  let stays := s.others.filter (ignoring.contains ·)
  if commandPid ∈ s.others ∧ commandPid ∉ ignoring then
    { s with others := stays, command := .exited ⟨none, some "SIGTERM"⟩ }
  else { s with others := stays }

/-- KILL reaches the members and the runner. -/
def kill : ProcessState :=
  { s with
    others := []
    command := if commandPid ∈ s.others then .exited killedStatus else s.command
    runner := match s.runner with
      | .booting => .exited
      | .anchored => .exited
      | runner => runner }

/-- `signalGroup`. Where the id is taken by a foreign group, the signal goes there. -/
def sendSignal (signal : Signal) (ignoring : List Nat) : ProcessState :=
  let recorded := { s with sent := ⟨signal, s.runner, s.foreign⟩ :: s.sent }
  if s.foreign then recorded
  else match signal with
    | .TERM => recorded.term ignoring
    | .KILL => recorded.kill

/-- `this.stop()`: the first call begins, the others find it. -/
def callStop : ProcessState :=
  { s with stopping := s.stopping.or (some .awaitReady) }

/-- The end of the loop of `manageLifetime`. -/
def afterLoop : ProcessState :=
  if s.stopping ≠ none then { s with lifetime := .awaitStop }
  else { s with releaseAnchor := true, inputEnded := true, lifetime := .awaitExit }

/-- The head of the loop. -/
def loopHead : ProcessState :=
  if s.releaseAnchor then s.afterLoop else { s with lifetime := .scanning }

/-- The catch of `manageLifetime`. -/
def lifetimeFails : ProcessState := { s.callStop with lifetime := .failing }

end ProcessState

/-- `manageLifetime` goes on. -/
def lifetimeStep (s : ProcessState) : LifetimePhase → Option ProcessState
  | .awaitStatus =>
    match s.status with
    | .pending => none
    | .resolved _ => some s.loopHead
    | .rejected => some s.lifetimeFails
  | .scanned remaining => if remaining then some { s with lifetime := .delaying } else some s.afterLoop
  | .delaying => some s.loopHead
  | .awaitStop =>
    match s.stopping with
    | some .resolved => some { s with releaseAnchor := true, inputEnded := true, lifetime := .awaitExit }
    | some .rejected => some s.lifetimeFails
    | _ => none
  | .awaitExit => if s.runner = .reaped then some { s with lifetime := .awaitPipes } else none
  | .awaitPipes => if s.pipesClosed then some { s with lifetime := .resolved } else none
  | .failing =>
    match s.stopping with
    | some .resolved => some { s with lifetime := .rejected }
    | some .rejected => some { s with lifetime := .rejected }
    | _ => none
  | .scanning => none
  | .resolved => none
  | .rejected => none

/-- `stop` goes on. -/
def stopStep (s : ProcessState) (late : Bool) : StopPhase → Option ProcessState
  | .awaitReady =>
    match s.ready with
    | .pending => none
    | .rejected => some { s with stopping := some .rejected }
    | .resolved _ =>
      if s.releaseAnchor then some { s with stopping := some .awaitRelease }
      else some { s with stopping := some .terminating }
  | .awaitRelease => if s.runner = .reaped then some { s with stopping := some .resolved } else none
  | .polled remaining =>
    if remaining ∧ late = false then some { s with stopping := some .polling }
    else some { s with stopping := some .deciding }
  | .decided remaining =>
    if remaining then some { s with killRequested := true, stopping := some .awaitStatus }
    else some { s with inputEnded := true, stopping := some .awaitExit }
  | .awaitStatus =>
    match s.status with
    | .pending => none
    | .rejected => some { s with stopping := some .rejected }
    | .resolved _ => some { s with stopping := some .killing }
  | .awaitExit => if s.runner = .reaped then some { s with stopping := some .draining } else none
  | .drained live =>
    if live then some { s with stopping := some .draining }
    else some { s with stopping := some .awaitPipes }
  | .awaitPipes =>
    if s.pipesClosed then some { s with releaseAnchor := true, stopping := some .resolved } else none
  | _ => none

/-- The signal that `stop` is about to send, and where it is after that. -/
def StopPhase.sends : StopPhase → Option (Signal × StopPhase)
  | .terminating => some (.TERM, .polling)
  | .killing => some (.KILL, .awaitExit)
  | _ => none

def ProcessState.step (s : ProcessState) : ProcessEvent → Option ProcessState
  | .boot =>
    if s.runner = .booting then
      some { s with
        runner := .anchored
        command := .running
        others := [commandPid]
        control := s.control ++ [.started] }
    else none
  | .bootFails => if s.runner = .booting then some { s with runner := .exited } else none
  | .commandExits status => if s.command = .running then some (s.endCommand status) else none
  | .fork parent child =>
    if parent ∈ s.others ∧ child ∉ s.others ∧ child ≠ commandPid then
      some { s with others := s.others ++ [child] }
    else none
  | .exits id =>
    if id ∈ s.others ∧ id ≠ commandPid then some { s with others := s.others.erase id } else none
  | .leaves id => if id ∈ s.others then some { s with others := s.others.erase id } else none
  | .memberKill id => if id ∈ s.others then some s.kill else none
  | .runnerObserves =>
    match s.runner, s.command, s.observed with
    | .anchored, .exited status, false =>
      some { s with observed := true, control := s.control ++ [.status status] }
    | _, _, _ => none
  | .runnerReads =>
    if s.runner = .anchored ∧ s.killRequested = true then
      some ({ s with killRequested := false }.endCommand killedStatus)
    else none
  | .runnerInputEnds =>
    if s.runner = .anchored ∧ s.inputEnded = true ∧ s.killRequested = false then
      some { s with controlDone := true }
    else none
  | .runnerExits =>
    if s.runner = .anchored ∧ s.observed = true ∧ s.controlDone = true then
      some { s with runner := .exited }
    else none
  | .reap => if s.runner = .exited then some { s with runner := .reaped } else none
  | .pipesClose => if s.runner = .reaped then some { s with pipesClosed := true } else none
  | .reuse =>
    if s.runner = .reaped ∧ s.others = [] then some { s with foreign := true } else none
  | .receive =>
    match s.control with
    | [] => none
    | .started :: rest => some { s with control := rest, ready := .resolved () }
    | .status status :: rest => some { s with control := rest, status := .resolved status }
  | .controlEnds =>
    if s.runner = .reaped ∧ s.control = [] ∧ s.status = .pending then
      some { s with
        ready := if s.ready = .pending then .rejected else s.ready
        status := .rejected }
    else none
  | .lifetimeScan foreignLive =>
    if s.lifetime = .scanning then
      some { s with lifetime := .scanned (s.remaining foreignLive) }
    else none
  | .lifetimeScanFails => if s.lifetime = .scanning then some s.lifetimeFails else none
  | .lifetime => lifetimeStep s s.lifetime
  | .stop => some s.callStop
  | .stopScan foreignLive =>
    match s.stopping with
    | some .polling => some { s with stopping := some (.polled (s.remaining foreignLive)) }
    | some .deciding => some { s with stopping := some (.decided (s.remaining foreignLive)) }
    | some .draining => some { s with stopping := some (.drained (s.live foreignLive)) }
    | _ => none
  | .stopScanFails =>
    match s.stopping with
    | some .polling => some { s with stopping := some .rejected }
    | some .deciding => some { s with stopping := some .rejected }
    | some .draining => some { s with stopping := some .rejected }
    | _ => none
  | .stopping late => s.stopping.bind (stopStep s late)
  | .signal ignoring =>
    match s.stopping.bind StopPhase.sends with
    | some (signal, next) => some { s.sendSignal signal ignoring with stopping := some next }
    | none => none
  | .signalMissed foreignLive =>
    match s.stopping.bind StopPhase.sends with
    | some (_, next) =>
      if s.live foreignLive = false then some { s with stopping := some next } else none
    | none => none
  | .signalFails =>
    match s.stopping.bind StopPhase.sends with
    | some _ => some { s with stopping := some .rejected }
    | none => none

/-- The runner has been spawned. -/
def ProcessState.spawned : ProcessState where
  runner := .booting
  command := .absent
  others := []
  foreign := false
  control := []
  observed := false
  killRequested := false
  inputEnded := false
  controlDone := false
  pipesClosed := false
  ready := .pending
  status := .pending
  releaseAnchor := false
  lifetime := .awaitStatus
  stopping := none
  sent := []

end OwnedProcess

end Henji
