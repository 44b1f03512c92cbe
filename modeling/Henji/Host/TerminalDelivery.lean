import Henji.Host.ExecutionCoordinator
import Mathlib.Logic.Relation

/-!
# The delivery of a terminal

What decides how often the terminal of an execution is delivered: which promise is published as the
terminal, how far the two promises and `runReservation` are, what Data stores and what was delivered.

Results:
1. `ok_move`: the moves that the parts of an execution can make keep these in step.
2. `moves_of_step`: an event makes such moves only, where no promise is published over another one
   and Data does not fail after it stored a result.
-/

namespace Henji

/-- How far a promise is; `pending (some result)` once Data has answered. -/
inductive PromiseState where
  | idle
  | pending (result : Option DataTerminalResult)
  | resolved
  | rejected

/-- What `runReservation` still does about the terminal. -/
inductive MainPart where
  | unadmitted
  | working
  | joined (source : TerminalSource)
  | failed (result : DataTerminalResult)
  | ended (ending : Ending)

structure Delivery where
  terminal : Option TerminalSource
  proposal : PromiseState
  sealed : PromiseState
  main : MainPart
  stored : Option DataTerminalResult
  turn : Nat
  turnEnds : List TurnEndEvent

/-- The event shows the outcome of a stored result. The count of the runtime is the coordinator's. -/
def Shows (turn : Nat) (result : DataTerminalResult) (event : TurnEndEvent) : Prop :=
  ∃ count committed, event = turnEndFromOutcome turn
    { result.outcome with
      runtimeProviderRequestCount := result.outcome.runtimeProviderRequestCount.map fun _ => count }
    committed

namespace Delivery

def promise (d : Delivery) : TerminalSource → PromiseState
  | .proposal => d.proposal
  | .sealing => d.sealed

/-- No terminal promise is published, or it is rejected. -/
def Unpublished (d : Delivery) : Prop :=
  ∀ source, d.terminal = some source → d.promise source = .rejected

/-- A result is delivered where it is durable. -/
def Delivered (turn : Nat) (result : DataTerminalResult) (turnEnds : List TurnEndEvent) : Prop :=
  if result.durable then ∃ event, turnEnds = [event] ∧ Shows turn result event else turnEnds = []

structure Ok (d : Delivery) : Prop where
  unset : d.terminal = none → d.sealed = .idle ∧ d.proposal = .idle
  sealTerminal : d.terminal = some .sealing → d.sealed ≠ .idle ∧ d.proposal = .idle
  proposalTerminal : d.terminal = some .proposal →
    d.proposal ≠ .idle ∧ (d.sealed = .idle ∨ d.sealed = .rejected)
  joined : ∀ source, d.main = .joined source → d.terminal = some source
  answered : ∀ result, d.proposal = .pending (some result) → d.stored = some result
  failed : ∀ result, d.main = .failed result → d.stored = some result
  /-- What is delivered is what Data stores. -/
  shown : d.turnEnds = [] ∨ ∃ result event, d.stored = some result ∧ result.durable = true ∧
    d.turnEnds = [event] ∧ Shows d.turn result event
  delivering : d.turnEnds ≠ [] →
    d.main = .ended .failure ∨ d.sealed = .resolved ∨ d.proposal = .resolved
  delivered : d.sealed = .resolved ∨ d.proposal = .resolved ∨ d.main = .ended .failure →
    ∃ result, d.stored = some result ∧ (result.durable = true → d.turnEnds ≠ [])
  rejected : ∀ source, d.terminal = some source → d.promise source = .rejected →
    d.stored = none ∨ (∃ result, d.main = .failed result) ∨ d.main = .ended .failure
  ended : ∀ source, d.main = .ended (.joined source) → d.terminal = some source ∧
    (d.promise source = .resolved ∨ d.promise source = .rejected)
  awaited : ∀ result, d.proposal = .pending result → d.main = .joined .proposal
  sealing : ∀ result, d.sealed = .pending result → d.turnEnds = []
  unadmitted : d.main = .unadmitted ∨ d.main = .ended .refused →
    d.terminal = none ∧ d.stored = none ∧ d.turnEnds = []

/-- The moves of the parts of an execution. -/
inductive Move (d : Delivery) : Delivery → Prop
  | admitted (turn : Nat) (hmain : d.main = .unadmitted) :
    Move d { d with
      main := .working
      turn }
  | refused (hmain : d.main = .unadmitted) : Move d { d with main := .ended .refused }
  /-- The `catch` of `runReservation`. -/
  | caught {source} (hmain : d.main = .joined source) (hrejected : d.promise source = .rejected) :
    Move d { d with main := .working }
  | join {source} (hmain : d.main = .working) (hterminal : d.terminal = some source) :
    Move d { d with main := .joined source }
  | mainSeal (hmain : d.main = .working) (hterminal : d.terminal = none) :
    Move d { d with
      main := .joined .sealing
      terminal := some .sealing
      sealed := .pending none }
  /-- The seal of an escalation. -/
  | watchdogSeal (hterminal : d.terminal = none) (hnone : d.turnEnds = [])
      (hmain : d.main ≠ .unadmitted ∧ d.main ≠ .ended .refused) :
    Move d { d with
      terminal := some .sealing
      sealed := .pending none }
  | publish (hmain : d.main = .working) (hunpublished : d.Unpublished) :
    Move d { d with
      main := .joined .proposal
      terminal := some .proposal
      proposal := .pending none }
  | failureSettled (result : DataTerminalResult) (hmain : d.main = .working)
      (hstored : d.stored = none ∨ d.stored = some result) :
    Move d { d with
      main := .failed result
      stored := some result }
  | failureUnanswered (stored : Option DataTerminalResult) (hmain : d.main = .working)
      (hrejected : ∀ source, d.terminal = some source → d.promise source = .rejected →
        stored = none) :
    Move d { d with stored := d.stored <|> stored }
  | failureDelivered {result} {turnEnds : List TurnEndEvent} (hmain : d.main = .failed result)
      (hunpublished : d.Unpublished)
      (hdelivered : d.turnEnds = [] → Delivered d.turn result turnEnds) :
    Move d { d with
      main := .ended .failure
      turnEnds }
  | authorized (result : DataTerminalResult) (hproposal : d.proposal = .pending none)
      (hstored : d.stored = none ∨ d.stored = some result) :
    Move d { d with
      proposal := .pending (some result)
      stored := some result }
  | proposalRejected (hproposal : d.proposal = .pending none) (hstored : d.stored = none) :
    Move d { d with proposal := .rejected }
  | proposalDelivered {result} {turnEnds : List TurnEndEvent}
      (hproposal : d.proposal = .pending (some result))
      (hdelivered : d.turnEnds = [] → Delivered d.turn result turnEnds) :
    Move d { d with
      proposal := .resolved
      turnEnds }
  | sealDelivered {turnEnds : List TurnEndEvent} (result : DataTerminalResult)
      (hsealed : d.sealed = .pending none) (hstored : d.stored = none ∨ d.stored = some result)
      (hdelivered : d.turnEnds = [] → Delivered d.turn result turnEnds) :
    Move d { d with
      sealed := .resolved
      stored := some result
      turnEnds }
  | sealRejected (hsealed : d.sealed = .pending none) (hstored : d.stored = none) :
    Move d { d with sealed := .rejected }
  | ended {source} (hmain : d.main = .joined source)
      (hsettled : d.promise source = .resolved ∨ d.promise source = .rejected) :
    Move d { d with main := .ended (.joined source) }

variable {d d' : Delivery}

theorem Unpublished.cases (h : d.Unpublished) : d.terminal = none ∨
    (d.terminal = some .sealing ∧ d.sealed = .rejected) ∨
    (d.terminal = some .proposal ∧ d.proposal = .rejected) := by
  cases hterminal : d.terminal with
  | none => exact .inl rfl
  | some source =>
    cases source with
    | sealing => exact .inr (.inl ⟨rfl, h .sealing hterminal⟩)
    | proposal => exact .inr (.inr ⟨rfl, h .proposal hterminal⟩)

section Moves

variable (h : d.Ok)

include h

theorem ok_admitted (turn : Nat) (hmain : d.main = .unadmitted) :
    Ok { d with
      main := .working
      turn } := by
  cases h
  constructor <;> grind only [promise, cases TerminalSource]

theorem ok_refused (hmain : d.main = .unadmitted) :
    Ok { d with main := .ended .refused } := by
  cases h
  constructor <;> grind only [promise, cases TerminalSource]

theorem ok_caught {source : TerminalSource} (hmain : d.main = .joined source)
    (hrejected : d.promise source = .rejected) :
    Ok { d with main := .working } := by
  cases h
  constructor <;> grind only [promise, cases TerminalSource]

theorem ok_join {source : TerminalSource} (hmain : d.main = .working)
    (hterminal : d.terminal = some source) :
    Ok { d with main := .joined source } := by
  cases h
  constructor <;> grind only [promise, cases TerminalSource]

theorem ok_mainSeal (hmain : d.main = .working) (hterminal : d.terminal = none) :
    Ok { d with
      main := .joined .sealing
      terminal := some .sealing
      sealed := .pending none } := by
  cases h
  constructor <;> grind only [promise, cases TerminalSource]

theorem ok_watchdogSeal (hterminal : d.terminal = none) (hnone : d.turnEnds = [])
    (hmain : d.main ≠ .unadmitted ∧ d.main ≠ .ended .refused) :
    Ok { d with
      terminal := some .sealing
      sealed := .pending none } := by
  cases h
  constructor <;> grind only [promise, cases TerminalSource]

theorem ok_publish (hmain : d.main = .working) (hunpublished : d.Unpublished) :
    Ok { d with
      main := .joined .proposal
      terminal := some .proposal
      proposal := .pending none } := by
  cases h
  have hterminal := hunpublished.cases
  constructor <;> grind only [promise, cases TerminalSource]

theorem ok_failureSettled (result : DataTerminalResult) (hmain : d.main = .working)
    (hstored : d.stored = none ∨ d.stored = some result) :
    Ok { d with
      main := .failed result
      stored := some result } := by
  cases h
  constructor <;> grind only [promise, cases TerminalSource]

theorem ok_failureUnanswered (stored : Option DataTerminalResult) (hmain : d.main = .working)
    (hrejected : ∀ source, d.terminal = some source → d.promise source = .rejected →
      stored = none) :
    Ok { d with stored := d.stored <|> stored } := by
  cases h
  have hnone : d.stored = none → (d.stored <|> stored) = stored := fun h => by rw [h]; rfl
  have hsome : ∀ result, d.stored = some result → (d.stored <|> stored) = some result :=
    fun _ h => by rw [h]; rfl
  constructor <;> grind only [promise, cases TerminalSource]

theorem ok_failureDelivered {result : DataTerminalResult} {turnEnds : List TurnEndEvent}
    (hmain : d.main = .failed result) (hunpublished : d.Unpublished)
    (hdelivered : d.turnEnds = [] → Delivered d.turn result turnEnds) :
    Ok { d with
      main := .ended .failure
      turnEnds } := by
  cases h
  have hterminal := hunpublished.cases
  constructor <;> grind only [promise, Delivered, cases TerminalSource]

theorem ok_authorized (result : DataTerminalResult) (hproposal : d.proposal = .pending none)
    (hstored : d.stored = none ∨ d.stored = some result) :
    Ok { d with
      proposal := .pending (some result)
      stored := some result } := by
  cases h
  constructor <;> grind only [promise, cases TerminalSource]

theorem ok_proposalRejected (hproposal : d.proposal = .pending none) (hstored : d.stored = none) :
    Ok { d with proposal := .rejected } := by
  cases h
  constructor <;> grind only [promise, cases TerminalSource]

theorem ok_proposalDelivered {result : DataTerminalResult} {turnEnds : List TurnEndEvent}
    (hproposal : d.proposal = .pending (some result))
    (hdelivered : d.turnEnds = [] → Delivered d.turn result turnEnds) :
    Ok { d with
      proposal := .resolved
      turnEnds } := by
  cases h
  constructor <;> grind only [promise, Delivered, cases TerminalSource]

theorem ok_sealDelivered {turnEnds : List TurnEndEvent} (result : DataTerminalResult)
    (hsealed : d.sealed = .pending none) (hstored : d.stored = none ∨ d.stored = some result)
    (hdelivered : d.turnEnds = [] → Delivered d.turn result turnEnds) :
    Ok { d with
      sealed := .resolved
      stored := some result
      turnEnds } := by
  cases h
  constructor <;> grind only [promise, Delivered, cases TerminalSource]

theorem ok_sealRejected (hsealed : d.sealed = .pending none) (hstored : d.stored = none) :
    Ok { d with sealed := .rejected } := by
  cases h
  constructor <;> grind only [promise, cases TerminalSource]

theorem ok_ended {source : TerminalSource} (hmain : d.main = .joined source)
    (hsettled : d.promise source = .resolved ∨ d.promise source = .rejected) :
    Ok { d with main := .ended (.joined source) } := by
  cases h
  constructor <;> grind only [promise, cases TerminalSource]

end Moves

/-- Every move keeps the parts in step. -/
theorem ok_move (h : d.Ok) (move : Move d d') : d'.Ok := by
  cases move with
  | admitted turn hmain => exact ok_admitted h turn hmain
  | refused hmain => exact ok_refused h hmain
  | caught hmain hrejected => exact ok_caught h hmain hrejected
  | join hmain hterminal => exact ok_join h hmain hterminal
  | mainSeal hmain hterminal => exact ok_mainSeal h hmain hterminal
  | watchdogSeal hterminal hnone hmain => exact ok_watchdogSeal h hterminal hnone hmain
  | publish hmain hunpublished => exact ok_publish h hmain hunpublished
  | failureSettled result hmain hstored => exact ok_failureSettled h result hmain hstored
  | failureUnanswered stored hmain hrejected => exact ok_failureUnanswered h stored hmain hrejected
  | failureDelivered hmain hunpublished hdelivered => exact ok_failureDelivered h hmain hunpublished hdelivered
  | authorized result hproposal hstored => exact ok_authorized h result hproposal hstored
  | proposalRejected hproposal hstored => exact ok_proposalRejected h hproposal hstored
  | proposalDelivered hproposal hdelivered => exact ok_proposalDelivered h hproposal hdelivered
  | sealDelivered result hsealed hstored hdelivered => exact ok_sealDelivered h result hsealed hstored hdelivered
  | sealRejected hsealed hstored => exact ok_sealRejected h hsealed hstored
  | ended hmain hsettled => exact ok_ended h hmain hsettled

end Delivery

/-! ## The delivery of a reservation -/

def MainPhase.part : MainPhase → MainPart
  | .ensuring | .admitting => .unadmitted
  | .registering | .waiting _ | .errorCleaning _ _ | .errorChildren _ | .failureChildren
  | .failureMetadata | .settlingFailure | .preparing | .proposalChildren | .proposalMetadata _
  | .forcedCleaning _ | .caughtCleaning _ _ => .working
  | .failureTurn result _ | .failureCleaning result _ => .failed result
  | .joining source _ => .joined source
  | .finalChildren ending | .finalCleaning ending _ | .finalWrites ending | .finished ending =>
    .ended ending

def ProposalPhase.state : ProposalPhase → PromiseState
  | .idle => .idle
  | .authorizing _ => .pending none
  | .turnWait result _ | .cleaning result _ => .pending (some result)
  | .resolved => .resolved
  | .rejected => .rejected

def SealPhase.state : SealPhase → PromiseState
  | .idle => .idle
  | .cleaning _ _ | .children _ | .metadata _ | .sealing _ => .pending none
  | .resolved => .resolved
  | .rejected => .rejected

def ExecutionReservation.delivery (reservation : ExecutionReservation) : Delivery where
  terminal := reservation.terminal
  proposal := reservation.proposal.state
  sealed := reservation.sealed.state
  main := reservation.main.part
  stored := reservation.stored
  turn := reservation.turn
  turnEnds := reservation.turnEnds

/-! ## The condition -/

def MainPhase.waits : MainPhase → Bool
  | .errorCleaning _ waits | .failureCleaning _ waits | .forcedCleaning waits
  | .caughtCleaning _ waits | .finalCleaning _ waits => waits
  | _ => false

def ProposalPhase.waits : ProposalPhase → Bool
  | .cleaning _ waits => waits
  | _ => false

def SealPhase.waits : SealPhase → Bool
  | .cleaning _ waits => waits
  | _ => false

/-- The calls of `finishProcessCleanup` that wait. -/
def ExecutionReservation.waitingCleanups (reservation : ExecutionReservation) : Nat :=
  reservation.main.waits.toNat + reservation.proposal.waits.toNat + reservation.sealed.waits.toNat

namespace ReservationTurn

def delivery (t : ReservationTurn) : Delivery := t.reservation.delivery

/-- The terminal promise is rejected. -/
def terminalRejected (t : ReservationTurn) : Bool :=
  match t.reservation.terminal with
  | some source => t.terminalSettled source == some false
  | none => false

/-- No terminal promise is published, or it is rejected. -/
def unpublished (t : ReservationTurn) : Bool :=
  t.reservation.terminal.isNone || t.terminalRejected

/-- A waiter for the answer to the acknowledgement will not be left alone: the generation is there,
or the watchdog will fail the queue. -/
def attended (t : ReservationTurn) (sendFails : Bool) : Bool :=
  (!sendFails && !t.host.unavailable) || t.reservation.watchdog == .armed

def mainFair (t : ReservationTurn) (reply : Reply) : Bool :=
  match t.reservation.main, reply with
  | .failureCleaning _ _, .cleaned _ | .proposalMetadata _, .resolved => t.unpublished
  | .settlingFailure, .settled _ sendFails none => t.attended sendFails
  | .settlingFailure, .settleFailed _ stored => !t.terminalRejected || stored.isNone
  | _, _ => true

def proposalFair (t : ReservationTurn) (reply : Reply) : Bool :=
  match t.reservation.proposal, reply with
  | .authorizing _, .settled _ sendFails none => t.attended sendFails
  | .authorizing _, .settleFailed _ stored => t.reservation.stored.isNone && stored.isNone
  | _, _ => true

def sealFair (t : ReservationTurn) (reply : Reply) : Bool :=
  match t.reservation.sealed, reply with
  | .sealing _, .settleFailed _ stored => t.reservation.stored.isNone && stored.isNone
  | _, _ => true

end ReservationTurn

/-- The condition on a step: no promise is published, and no failure is delivered, over another
terminal; the escalation does not seal what was delivered; Data does not fail after it stored the
result that its answer would have brought; no waiter is left alone; and no two calls of
`finishProcessCleanup` wait at a time. -/
def ExecutionCoordinator.fair (coordinator : ExecutionCoordinator) : CoordinatorEvent → Bool
  | .main ref reply =>
    let t : ReservationTurn := ⟨coordinator.host, coordinator.reservations.read ref⟩
    t.mainFair reply && decide (t.reservation.waitingCleanups ≤ 1)
  | .proposal ref reply =>
    let t : ReservationTurn := ⟨coordinator.host, coordinator.reservations.read ref⟩
    t.proposalFair reply && decide (t.reservation.waitingCleanups ≤ 1)
  | .sealed ref reply =>
    let t : ReservationTurn := ⟨coordinator.host, coordinator.reservations.read ref⟩
    t.sealFair reply && decide (t.reservation.waitingCleanups ≤ 1)
  | .escalated ref =>
    let reservation := coordinator.reservations.read ref
    reservation.terminal.isSome || reservation.turnEnds.isEmpty ||
      reservation.watchdog == .escalating false
  | _ => true

/-! ## The moves of the code -/

abbrev Delivery.Moves : Delivery → Delivery → Prop := Relation.ReflTransGen Delivery.Move

theorem Delivery.ok_moves {d d' : Delivery} (h : d.Ok) (moves : Delivery.Moves d d') : d'.Ok := by
  induction moves with
  | refl => exact h
  | tail _ move ih => exact ok_move ih move

namespace ReservationTurn

variable {ref : Nat} {t t' : ReservationTurn}

@[simp] theorem delivery_setMain (t : ReservationTurn) (main : MainPhase) :
    (t.setMain main).delivery = { t.delivery with main := main.part } := rfl

@[simp] theorem delivery_record (t : ReservationTurn) (fact : ControlFact) :
    (t.recordExecutionControl fact).delivery = t.delivery := rfl

@[simp] theorem delivery_markUnavailable (t : ReservationTurn) :
    t.markUnavailable.delivery = t.delivery := rfl

@[simp] theorem delivery_markUnavailableForReplacement (t : ReservationTurn) :
    t.markUnavailableForReplacement.delivery = t.delivery := rfl

@[simp] theorem delivery_endProcessCleanup (t : ReservationTurn) (waits failed : Bool) :
    (t.endProcessCleanup waits failed).delivery = t.delivery := by
  unfold endProcessCleanup
  split <;> rfl

@[simp] theorem delivery_clearCancellationWatchdog (t : ReservationTurn) :
    t.clearCancellationWatchdog.delivery = t.delivery := by
  unfold clearCancellationWatchdog
  split <;> rfl

@[simp] theorem delivery_finishExecution (ref : Nat) (t : ReservationTurn) :
    (t.finishExecution ref).delivery = t.delivery := by
  rw [finishExecution, delivery_clearCancellationWatchdog]
  split <;> rfl

@[simp] theorem delivery_sendSettlementAcknowledgement (t : ReservationTurn)
    (result : DataTerminalResult) (sendFails : Bool) :
    (t.sendSettlementAcknowledgement result sendFails).delivery = t.delivery := by
  unfold sendSettlementAcknowledgement
  dsimp only
  split <;> rfl

theorem delivery_turnAnswered {wait : Wait TurnMessage} (h : t.turnAnswered wait = some t') :
    t'.delivery = t.delivery := by
  unfold turnAnswered at h
  split at h
  · exact Option.some.inj h ▸ rfl
  · exact Option.some.inj h ▸ rfl
  · split at h
    · exact Option.some.inj h ▸ rfl
    · cases h

theorem delivery_deliverTerminal (t : ReservationTurn) (result : DataTerminalResult)
    (committed : Bool) : ∃ turnEnds,
      (t.deliverTerminal result committed).delivery = { t.delivery with turnEnds } ∧
      (t.delivery.turnEnds = [] → Delivery.Delivered t.delivery.turn result turnEnds) := by
  unfold deliverTerminal
  split
  · next hdurable =>
    refine ⟨_, rfl, fun hnone => ?_⟩
    have hnil : t.reservation.turnEnds = [] := hnone
    simp only [Delivery.Delivered, hdurable, if_true]
    refine ⟨_, ?_, t.host.runtimeRequestCount, committed, rfl⟩
    show t.reservation.turnEnds ++ _ = _
    rw [hnil]
    rfl
  · next hdurable =>
    exact ⟨t.delivery.turnEnds, rfl, fun hnone => by
      simp only [Delivery.Delivered, hdurable]
      exact hnone⟩

theorem store_spec {result : DataTerminalResult} (h : t.store result = some t') :
    (t.delivery.stored = none ∨ t.delivery.stored = some result) ∧
      t' = t.update fun reservation => { reservation with stored := some result } := by
  unfold store at h
  split at h
  · next hsame =>
    refine ⟨?_, (Option.some.inj h).symm⟩
    show t.reservation.stored = none ∨ t.reservation.stored = some result
    cases hstored : t.reservation.stored with
    | none => exact .inl rfl
    | some known =>
      rw [hstored] at hsame
      exact .inr (congrArg some (of_decide_eq_true hsame))
  · cases h

theorem delivery_storeUnanswered_none (t : ReservationTurn) :
    (t.storeUnanswered none).delivery = t.delivery := by
  have hsame : (t.reservation.stored <|> none) = t.reservation.stored := by
    cases t.reservation.stored <;> rfl
  show { t.delivery with stored := t.reservation.stored <|> none } = t.delivery
  rw [hsame]
  rfl

theorem promise_terminalSettled (t : ReservationTurn) (source : TerminalSource) {resolved : Bool}
    (h : t.terminalSettled source = some resolved) :
    t.delivery.promise source = if resolved then .resolved else .rejected := by
  cases source with
  | proposal =>
    show t.reservation.proposal.state = _
    cases hphase : t.reservation.proposal <;>
      simp only [terminalSettled, hphase, Option.some.injEq, reduceCtorEq] at h <;> subst h <;> rfl
  | sealing =>
    show t.reservation.sealed.state = _
    cases hphase : t.reservation.sealed <;>
      simp only [terminalSettled, hphase, Option.some.injEq, reduceCtorEq] at h <;> subst h <;> rfl

theorem terminalSettled_rejected {source : TerminalSource}
    (h : t.delivery.promise source = .rejected) : t.terminalSettled source = some false := by
  cases source with
  | proposal =>
    change t.reservation.proposal.state = _ at h
    cases hphase : t.reservation.proposal <;> simp_all [terminalSettled, ProposalPhase.state]
  | sealing =>
    change t.reservation.sealed.state = _ at h
    cases hphase : t.reservation.sealed <;> simp_all [terminalSettled, SealPhase.state]

theorem delivery_unpublished (h : t.unpublished = true) : t.delivery.Unpublished := by
  intro source hsource
  have hterminal : t.reservation.terminal = some source := hsource
  simp only [unpublished, terminalRejected, hterminal, Option.isNone_some, Bool.false_or,
    beq_iff_eq] at h
  exact promise_terminalSettled t source h

/-- Awaiting the seal makes the promise that there is, or a new one, the one that is joined. -/
theorem moves_awaitSeal (t : ReservationTurn) (hmain : t.delivery.main = .working) (inTry : Bool)
    (decision reason : String) :
    Delivery.Moves t.delivery (t.awaitSeal inTry decision reason).delivery := by
  unfold awaitSeal
  split
  · next source hterminal => exact .single (.join hmain hterminal)
  · next hterminal => exact .single (.mainSeal hmain hterminal)

theorem moves_caught (t : ReservationTurn) (hmain : t.delivery.main = .working) (error : String) :
    Delivery.Moves t.delivery (t.caught error).delivery := by
  have hsame : { t.delivery with main := .working } = t.delivery := by rw [← hmain]
  unfold caught
  split
  · rw [delivery_setMain, MainPhase.part, hsame]
  · split
    · exact moves_awaitSeal t hmain false _ _
    · rw [delivery_setMain, MainPhase.part, delivery_markUnavailableForReplacement, hsame]

theorem part_of_main {main : MainPhase} (h : t.reservation.main = main) :
    t.delivery.main = main.part := congrArg MainPhase.part h

/-- A new phase with the same part in the delivery. -/
theorem delivery_samePart {part : MainPart} (hmain : t.delivery.main = part) :
    { t.delivery with main := part } = t.delivery := by rw [← hmain]

theorem delivery_setMain_same (next : MainPhase) {part : MainPart} (hmain : t.delivery.main = part)
    (hpart : next.part = part) : (t.setMain next).delivery = t.delivery := by
  rw [delivery_setMain, hpart, delivery_samePart hmain]

/-- The `catch` does not look at the await that threw. -/
theorem caught_setMain (t : ReservationTurn) (main : MainPhase) (error : String) :
    (t.setMain main).caught error = t.caught error := by
  unfold caught awaitSeal
  rfl

theorem moves_dispatch (t : ReservationTurn) (hmain : t.delivery.main = .working) :
    Delivery.Moves t.delivery t.dispatch.delivery := by
  unfold dispatch
  split
  · exact moves_awaitSeal t hmain true _ _
  · show Delivery.Moves t.delivery { t.delivery with main := .working }
    rw [← hmain]

theorem delivery_ready (t : ReservationTurn) (hmain : t.delivery.main = .working)
    (message : ReadyMessage) : (t.ready message).delivery = t.delivery := by
  have hsame : { t.delivery with main := .working } = t.delivery := by rw [← hmain]
  cases message with
  | workerError message => exact hsame
  | failureReady => exact hsame
  | proposalReady => exact hsame

theorem delivery_finalize (t : ReservationTurn) (ending : Ending) :
    (t.finalize ending).delivery = { t.delivery with main := .ended ending } := by
  rw [finalize, delivery_setMain, delivery_clearCancellationWatchdog]
  rfl

theorem delivery_refuse (t : ReservationTurn) :
    (t.refuse ref).delivery = { t.delivery with main := .ended .refused } := by
  show (t.clearCancellationWatchdog.setMain (.finished .refused)).delivery = _
  rw [delivery_setMain, delivery_clearCancellationWatchdog]
  rfl

/-- Joining the terminal promise where there is one. -/
theorem moves_joinOr (main : MainPhase) (hmain : t.delivery.main = .working)
    (hpart : main.part = .working) :
    Delivery.Moves t.delivery (t.setMain (match t.reservation.terminal with
      | some source => .joining source true
      | none => main)).delivery := by
  cases hterminal : t.reservation.terminal with
  | some source => exact .single (.join hmain hterminal)
  | none =>
    rw [delivery_setMain_same main hmain hpart]

theorem moves_failureSettled (ref : Nat) (t : ReservationTurn) {result : DataTerminalResult}
    (hmain : t.delivery.main = .failed result) (hunpublished : t.delivery.Unpublished) :
    Delivery.Moves t.delivery (t.failureSettled ref result).delivery := by
  have hmarked : (if result.outcome.diagnostic = some ("cancellation_cleanup", "cleanup_error") then
      (t.finishExecution ref).markUnavailable else t.finishExecution ref).delivery =
      t.delivery := by
    split <;> simp
  obtain ⟨turnEnds, hdelivery, hdelivered⟩ := delivery_deliverTerminal
    (if result.outcome.diagnostic = some ("cancellation_cleanup", "cleanup_error") then
      (t.finishExecution ref).markUnavailable else t.finishExecution ref) result false
  rw [hmarked] at hdelivery hdelivered
  unfold failureSettled
  dsimp only
  rw [delivery_finalize, hdelivery]
  exact .single (.failureDelivered hmain hunpublished hdelivered)

/-- What `runReservation` does about the terminal. -/
theorem moves_mainStep {reply : Reply} (hfair : t.mainFair reply = true)
    (h : t.mainStep ref reply = some t') : Delivery.Moves t.delivery t'.delivery := by
  unfold mainStep at h
  split at h
  · next hmain => -- the generation is there
    obtain rfl := Option.some.inj h
    show Delivery.Moves t.delivery (t.setMain .admitting).delivery
    rw [delivery_setMain_same .admitting (part_of_main hmain) rfl]
  · next hmain =>
    obtain rfl := Option.some.inj h
    rw [delivery_refuse]
    exact .single (.refused (part_of_main hmain))
  · next hmain =>
    obtain rfl := Option.some.inj h
    rw [delivery_refuse]
    exact .single (.refused (part_of_main hmain))
  · next turn hmain =>
    obtain rfl := Option.some.inj h
    exact .single (.admitted turn (part_of_main hmain))
  · next hmain =>
    obtain rfl := Option.some.inj h
    exact moves_dispatch t (part_of_main hmain)
  · next error hmain =>
    obtain rfl := Option.some.inj h
    exact moves_caught t (part_of_main hmain) error
  · next message hmain =>
    obtain rfl := Option.some.inj h
    rw [delivery_ready t (part_of_main hmain)]
  · next hmain => -- the waiter was rejected
    split at h
    · obtain rfl := Option.some.inj h
      exact moves_caught t (part_of_main hmain) _
    · cases h
  · next hmain =>
    obtain rfl := Option.some.inj h
    rw [delivery_setMain, delivery_endProcessCleanup]
    exact (delivery_samePart (part_of_main hmain)).symm ▸ .refl
  · next hmain =>
    obtain rfl := Option.some.inj h
    exact moves_awaitSeal t (part_of_main hmain) true _ _
  · next error hmain =>
    obtain rfl := Option.some.inj h
    exact moves_caught t (part_of_main hmain) error
  · next hmain =>
    obtain rfl := Option.some.inj h
    rw [delivery_setMain_same .failureMetadata (part_of_main hmain) rfl]
  · next error hmain =>
    obtain rfl := Option.some.inj h
    exact moves_caught t (part_of_main hmain) error
  · next hmain =>
    obtain rfl := Option.some.inj h
    rw [delivery_setMain_same .settlingFailure (part_of_main hmain) rfl]
  · next error hmain =>
    obtain rfl := Option.some.inj h
    exact moves_caught t (part_of_main hmain) error
  · next result sendFails queued hmain => -- Data settles the failure
    obtain ⟨stored, hstore, rfl⟩ := Option.map_eq_some_iff.mp h
    obtain ⟨hsame, rfl⟩ := store_spec hstore
    rw [delivery_setMain, delivery_sendSettlementAcknowledgement]
    exact .single (.failureSettled result (part_of_main hmain) hsame)
  · next error stored hmain => -- it does not answer
    obtain rfl := Option.some.inj h
    refine .trans (.single (.failureUnanswered stored (part_of_main hmain) ?_))
      (moves_caught (t.storeUnanswered stored) (part_of_main hmain) error)
    intro source hterminal hrejected
    have hsource : t.reservation.terminal = some source := hterminal
    simp only [mainFair, hmain, terminalRejected, hsource,
      terminalSettled_rejected hrejected] at hfair
    simpa using hfair
  · next hmain =>
    obtain ⟨answered, hanswered, rfl⟩ := Option.map_eq_some_iff.mp h
    rw [delivery_setMain, delivery_turnAnswered hanswered]
    exact (delivery_samePart (part_of_main hmain)).symm ▸ .refl
  · next result waits failed hmain => -- the failure is delivered
    obtain rfl := Option.some.inj h
    have hunpublished : t.unpublished = true := by simpa only [mainFair, hmain] using hfair
    have hmoves := moves_failureSettled ref (t.endProcessCleanup waits failed)
      (by rw [delivery_endProcessCleanup]; exact part_of_main hmain)
      (by rw [delivery_endProcessCleanup]; exact delivery_unpublished hunpublished)
    rwa [delivery_endProcessCleanup] at hmoves
  · next hmain =>
    obtain rfl := Option.some.inj h
    exact moves_joinOr .proposalChildren (part_of_main hmain) rfl
  · next error hmain =>
    obtain rfl := Option.some.inj h
    exact moves_caught t (part_of_main hmain) error
  · next failed hmain =>
    obtain rfl := Option.some.inj h
    exact moves_joinOr (.proposalMetadata failed) (part_of_main hmain) rfl
  · next error hmain =>
    obtain rfl := Option.some.inj h
    exact moves_caught t (part_of_main hmain) error
  · next childFailed hmain => -- the promise of the proposal is published
    obtain rfl := Option.some.inj h
    have hunpublished : t.unpublished = true := by simpa only [mainFair, hmain] using hfair
    exact .single (.publish (part_of_main hmain) (delivery_unpublished hunpublished))
  · next error hmain =>
    obtain rfl := Option.some.inj h
    exact moves_caught t (part_of_main hmain) error
  · next source inTry hmain => -- the terminal promise is settled
    obtain ⟨resolved, hresolved, rfl⟩ := Option.map_eq_some_iff.mp h
    have hjoined : t.delivery.main = .joined source := part_of_main hmain
    have hpromise := promise_terminalSettled t source hresolved
    split
    · rw [delivery_finalize]
      refine .single (.ended hjoined ?_)
      cases resolved with
      | true => exact .inl hpromise
      | false => exact .inr hpromise
    · next hnot =>
      have hrejected : t.delivery.promise source = .rejected := by
        cases resolved with
        | true => exact absurd rfl hnot
        | false => exact hpromise
      have hmoves := moves_caught (t.setMain (.forcedCleaning false)) rfl "terminal promise rejected"
      rw [caught_setMain] at hmoves
      exact .trans (.single (.caught hjoined hrejected)) hmoves
  · next waits failed hmain =>
    obtain rfl := Option.some.inj h
    have hmoves := moves_awaitSeal (t.endProcessCleanup waits failed)
      (by rw [delivery_endProcessCleanup]; exact part_of_main hmain) false "interrupted"
      terminatedReason
    rwa [delivery_endProcessCleanup] at hmoves
  · next reason waits failed hmain =>
    obtain rfl := Option.some.inj h
    have hmoves := moves_awaitSeal (t.endProcessCleanup waits failed)
      (by rw [delivery_endProcessCleanup]; exact part_of_main hmain) false "interrupted" reason
    rwa [delivery_endProcessCleanup] at hmoves
  · next ending _ hmain =>
    obtain rfl := Option.some.inj h
    rw [delivery_setMain_same (.finalCleaning ending t.cleanupWaits) (part_of_main hmain) rfl]
  · next ending _ hmain =>
    obtain rfl := Option.some.inj h
    rw [delivery_setMain_same (.finalCleaning ending t.cleanupWaits) (part_of_main hmain) rfl]
  · next hmain =>
    obtain rfl := Option.some.inj h
    rw [delivery_setMain, delivery_endProcessCleanup]
    exact (delivery_samePart (part_of_main hmain)).symm ▸ .refl
  · next ending hmain =>
    obtain rfl := Option.some.inj h
    show Delivery.Moves t.delivery (t.setMain (.finished ending)).delivery
    rw [delivery_setMain_same (.finished ending) (part_of_main hmain) rfl]
  · cases h

theorem moves_proposalStep {reply : Reply} (hfair : t.proposalFair reply = true)
    (h : t.proposalStep ref reply = some t') : Delivery.Moves t.delivery t'.delivery := by
  unfold proposalStep at h
  split at h
  · next result sendFails queued hproposal =>
    obtain ⟨stored, hstore, rfl⟩ := Option.map_eq_some_iff.mp h
    obtain ⟨hsame, rfl⟩ := store_spec hstore
    have hpending : t.delivery.proposal = .pending none := congrArg ProposalPhase.state hproposal
    show Delivery.Moves t.delivery { (sendSettlementAcknowledgement _ result sendFails).delivery with
      proposal := .pending (some result) }
    rw [delivery_sendSettlementAcknowledgement]
    exact .single (.authorized result hpending hsame)
  · next stored hproposal =>
    obtain rfl := Option.some.inj h
    have hpending : t.delivery.proposal = .pending none := congrArg ProposalPhase.state hproposal
    simp only [proposalFair, hproposal, Bool.and_eq_true, Option.isNone_iff_eq_none] at hfair
    have hstored : t.delivery.stored = none := hfair.1
    show Delivery.Moves t.delivery { (t.storeUnanswered stored).delivery with proposal := .rejected }
    rw [hfair.2, delivery_storeUnanswered_none]
    exact .single (.proposalRejected hpending hstored)
  · next result wait hproposal =>
    obtain ⟨answered, hanswered, rfl⟩ := Option.map_eq_some_iff.mp h
    have hpending : t.delivery.proposal = .pending (some result) :=
      congrArg ProposalPhase.state hproposal
    show Delivery.Moves t.delivery { answered.delivery with proposal := .pending (some result) }
    rw [delivery_turnAnswered hanswered, ← hpending]
  · next result waits failed hproposal =>
    obtain rfl := Option.some.inj h
    have hpending : t.delivery.proposal = .pending (some result) :=
      congrArg ProposalPhase.state hproposal
    obtain ⟨turnEnds, hdelivery, hdelivered⟩ := delivery_deliverTerminal
      ((t.endProcessCleanup waits failed).finishExecution ref) result
      (result.accepted && result.durable)
    rw [delivery_finishExecution, delivery_endProcessCleanup] at hdelivery hdelivered
    refine .single ?_
    show Delivery.Move t.delivery { (deliverTerminal _ result _).delivery with
      proposal := .resolved }
    rw [hdelivery]
    exact .proposalDelivered hpending hdelivered
  · cases h

theorem moves_sealStep {reply : Reply} (hfair : t.sealFair reply = true)
    (h : t.sealStep ref reply = some t') : Delivery.Moves t.delivery t'.delivery := by
  unfold sealStep at h
  split at h
  · next request waits failed hsealed =>
    obtain rfl := Option.some.inj h
    have hpending : t.delivery.sealed = .pending none := congrArg SealPhase.state hsealed
    show Delivery.Moves t.delivery { (t.endProcessCleanup waits failed).delivery with
      sealed := .pending none }
    rw [delivery_endProcessCleanup, ← hpending]
  · next hsealed =>
    obtain rfl := Option.some.inj h
    have hpending : t.delivery.sealed = .pending none := congrArg SealPhase.state hsealed
    show Delivery.Moves t.delivery { t.delivery with sealed := .pending none }
    rw [← hpending]
  · next hsealed =>
    obtain rfl := Option.some.inj h
    have hpending : t.delivery.sealed = .pending none := congrArg SealPhase.state hsealed
    show Delivery.Moves t.delivery { t.delivery with sealed := .pending none }
    rw [← hpending]
  · next hsealed =>
    obtain rfl := Option.some.inj h
    have hpending : t.delivery.sealed = .pending none := congrArg SealPhase.state hsealed
    show Delivery.Moves t.delivery { t.delivery with sealed := .pending none }
    rw [← hpending]
  · next hsealed =>
    obtain rfl := Option.some.inj h
    have hpending : t.delivery.sealed = .pending none := congrArg SealPhase.state hsealed
    show Delivery.Moves t.delivery { t.delivery with sealed := .pending none }
    rw [← hpending]
  · next result sendFails queued hsealed => -- Data seals the execution
    obtain ⟨stored, hstore, rfl⟩ := Option.map_eq_some_iff.mp h
    obtain ⟨hsame, rfl⟩ := store_spec hstore
    have hpending : t.delivery.sealed = .pending none := congrArg SealPhase.state hsealed
    obtain ⟨turnEnds, hdelivery, hdelivered⟩ := delivery_deliverTerminal
      (t.update fun reservation => { reservation with stored := some result }) result false
    refine .single ?_
    show Delivery.Move t.delivery { (finishExecution ref _).delivery with sealed := .resolved }
    rw [delivery_finishExecution, hdelivery]
    exact .sealDelivered result hpending hsame hdelivered
  · next stored hsealed =>
    obtain rfl := Option.some.inj h
    have hpending : t.delivery.sealed = .pending none := congrArg SealPhase.state hsealed
    simp only [sealFair, hsealed, Bool.and_eq_true, Option.isNone_iff_eq_none] at hfair
    have hstored : t.delivery.stored = none := hfair.1
    show Delivery.Moves t.delivery { (t.storeUnanswered stored).delivery with sealed := .rejected }
    rw [hfair.2, delivery_storeUnanswered_none]
    exact .single (.sealRejected hpending hstored)
  · cases h

theorem delivery_escalate (h : t.escalate ref = some t') : t'.delivery = t.delivery := by
  unfold escalate at h
  split at h
  · split at h
    · exact Option.some.inj h ▸ rfl
    · exact Option.some.inj h ▸ rfl
  all_goals cases h

theorem moves_escalated (hadmitted : t.reservation.watchdog = .escalating true →
      t.delivery.main ≠ .unadmitted ∧ t.delivery.main ≠ .ended .refused)
    (hfair : t.reservation.watchdog = .escalating true → t.reservation.terminal = none →
      t.reservation.turnEnds = [])
    (h : t.escalated = some t') : Delivery.Moves t.delivery t'.delivery := by
  unfold escalated at h
  split at h
  · next captured hwatchdog =>
    obtain rfl := Option.some.inj h
    split
    · next hseal =>
      have hwatch : t.reservation.watchdog = .escalating true := by rw [hwatchdog, hseal.1]
      exact .single (.watchdogSeal hseal.2 (hfair hwatch hseal.2) (hadmitted hwatch))
    · exact .refl
  all_goals cases h

theorem delivery_receiveReady {message : ReadyMessage} (h : t.receiveReady message = some t') :
    t'.delivery = t.delivery := by
  unfold receiveReady at h
  split at h
  · next hmain =>
    split at h
    · cases h
    · obtain rfl := Option.some.inj h
      exact delivery_setMain_same _ (part_of_main hmain) rfl
  · cases h

theorem delivery_receiveTurn {message : TurnMessage} (h : t.receiveTurn message = some t') :
    t'.delivery = t.delivery := by
  unfold receiveTurn at h
  split at h
  · next hmain =>
    split at h
    · cases h
    · obtain rfl := Option.some.inj h
      exact delivery_setMain_same _ (part_of_main hmain) rfl
  · next result fails hproposal _ =>
    split at h
    · cases h
    · obtain rfl := Option.some.inj h
      have hpending : t.delivery.proposal = .pending (some result) :=
        congrArg ProposalPhase.state hproposal
      show { t.delivery with proposal := .pending (some result) } = t.delivery
      rw [← hpending]
  · cases h

theorem delivery_cancel (t : ReservationTurn) (sent : Option Bool) :
    (t.cancel ref sent).delivery = t.delivery := by
  unfold cancel
  split
  · rfl
  · cases sent with
    | none => rfl
    | some sent => cases sent <;> rfl

end ReservationTurn

/-! ## The delivery in a step -/

namespace ExecutionCoordinator

variable {coordinator next : ExecutionCoordinator} {event : CoordinatorEvent}

theorem onTurn_spec {ref : Nat} {f : ReservationTurn → Option ReservationTurn}
    (h : coordinator.onTurn ref f = some next) :
    ∃ t, f ⟨coordinator.host, coordinator.reservations.read ref⟩ = some t ∧
      next = ⟨t.host, coordinator.reservations.write ref t.reservation⟩ := by
  obtain ⟨t, ht, rfl⟩ := Option.map_eq_some_iff.mp h
  exact ⟨t, ht, rfl⟩

theorem cancelActiveTurn_spec {sent : Option Bool}
    (h : coordinator.cancelActiveTurn sent = some next) :
    next = coordinator ∨ ∃ ref,
      (coordinator.host.activeExecution <|> coordinator.host.pendingAdmission) = some ref ∧
      coordinator.onTurn ref (fun t => some (t.cancel ref sent)) = some next := by
  unfold cancelActiveTurn at h
  split at h
  · next ref htarget =>
    split at h
    · exact .inr ⟨ref, htarget, h⟩
    · exact .inl (Option.some.inj h).symm
  · exact .inl (Option.some.inj h).symm

end ExecutionCoordinator

end Henji
