import Henji.Host.ExecutionUpkeep

/-!
# One delivery for each execution

The fields of the coordinator follow the reservation that is not over. With what the parts of a
reservation keep, this gives what a run of the coordinator delivers.

Results:
1. `ok_step`: an event keeps the coordinator in order where it meets the condition.
2. `terminal_delivered_once`: in a run of such events each terminal is delivered once.
-/

namespace Henji

def MainPhase.isOver : MainPhase → Bool
  | .finished _ => true
  | _ => false

namespace ReservationTurn

variable {ref : Nat} {t t' : ReservationTurn}

/-- What a part of a reservation does to the fields that admissions depend on. -/
inductive LaneMove (ref : Nat) (t t' : ReservationTurn) : Prop
  | same (hpending : t'.host.pendingAdmission = t.host.pendingAdmission)
      (hactive : t'.host.active = t.host.active)
      (hexecution : t'.host.activeExecution = t.host.activeExecution)
      (hover : t'.reservation.main.isOver = t.reservation.main.isOver)
  | admitted (hpending : t'.host.pendingAdmission = t.host.pendingAdmission)
      (hactive : t'.host.active = t.host.active)
      (hexecution : t'.host.activeExecution = some ref) (hmain : t'.reservation.main = .registering)
      (hbefore : t.reservation.main.isOver = false)
  | released (hpending : t'.host.pendingAdmission =
        if t.host.pendingAdmission = some ref then none else t.host.pendingAdmission)
      (hactive : t'.host.active = false)
      (hexecution : t'.host.activeExecution =
        if t.host.activeExecution = some ref then none else t.host.activeExecution)
      (hover : t'.reservation.main.isOver = true) (hbefore : t.reservation.main.isOver = false)

theorem LaneMove.of_host {u : ReservationTurn} (hhost : u.host = t.host)
    (hmain : u.reservation.main.isOver = t.reservation.main.isOver) (h : LaneMove ref u t') :
    LaneMove ref t t' := by
  cases h with
  | same h1 h2 h3 h4 => exact .same (hhost ▸ h1) (hhost ▸ h2) (hhost ▸ h3) (hmain ▸ h4)
  | admitted h1 h2 h3 h4 h5 => exact .admitted (hhost ▸ h1) (hhost ▸ h2) h3 h4 (hmain ▸ h5)
  | released h1 h2 h3 h4 h5 => exact .released (hhost ▸ h1) h2 (hhost ▸ h3) h4 (hmain ▸ h5)

theorem lane_awaitSeal (t : ReservationTurn) (hmain : t.reservation.main.isOver = false)
    (inTry : Bool) (decision reason : String) :
    LaneMove ref t (t.awaitSeal inTry decision reason) := by
  unfold awaitSeal
  split <;> exact .same rfl rfl rfl hmain.symm

theorem lane_caught (t : ReservationTurn) (hmain : t.reservation.main.isOver = false)
    (error : String) : LaneMove ref t (t.caught error) := by
  unfold caught
  split
  · exact .same rfl rfl rfl hmain.symm
  · split
    · exact lane_awaitSeal t hmain false _ _
    · exact .same rfl rfl rfl hmain.symm

theorem host_endProcessCleanup (t : ReservationTurn) (waits failed : Bool) :
    (t.endProcessCleanup waits failed).host = t.host ∧
      (t.endProcessCleanup waits failed).reservation.main = t.reservation.main := by
  unfold endProcessCleanup
  split <;> exact ⟨rfl, rfl⟩

theorem host_clear (t : ReservationTurn) : t.clearCancellationWatchdog.host = t.host ∧
    t.clearCancellationWatchdog.reservation.main = t.reservation.main := by
  unfold clearCancellationWatchdog
  split <;> exact ⟨rfl, rfl⟩

theorem host_finishExecution (ref : Nat) (t : ReservationTurn) : (t.finishExecution ref).host = t.host ∧
    (t.finishExecution ref).reservation.main = t.reservation.main := by
  unfold finishExecution
  obtain ⟨hhost, hmain⟩ := host_clear (if t.host.activeExecution = some ref then
    t.update fun reservation => { reservation with settling := true } else t)
  rw [hhost, hmain]
  split <;> exact ⟨rfl, rfl⟩

theorem host_deliverTerminal (t : ReservationTurn) (result : DataTerminalResult)
    (committed : Bool) : (t.deliverTerminal result committed).host = t.host ∧
      (t.deliverTerminal result committed).reservation.main = t.reservation.main := by
  unfold deliverTerminal
  split <;> exact ⟨rfl, rfl⟩

/-- The fields of the lane are those of another turn. -/
structure SameLane (t t' : ReservationTurn) : Prop where
  pending : t'.host.pendingAdmission = t.host.pendingAdmission
  active : t'.host.active = t.host.active
  execution : t'.host.activeExecution = t.host.activeExecution

theorem sameLane_of_host (h : t'.host = t.host) : SameLane t t' := by
  constructor <;> rw [h]

theorem SameLane.trans {u : ReservationTurn} (h : SameLane t u) (h' : SameLane u t') :
    SameLane t t' :=
  ⟨h'.pending.trans h.pending, h'.active.trans h.active, h'.execution.trans h.execution⟩

theorem SameLane.move (h : SameLane t t') (hover : t'.reservation.main.isOver =
    t.reservation.main.isOver) : LaneMove ref t t' :=
  .same h.pending h.active h.execution hover

theorem lane_acknowledgement (t : ReservationTurn) (result : DataTerminalResult)
    (sendFails : Bool) : SameLane t (t.sendSettlementAcknowledgement result sendFails) ∧
      (t.sendSettlementAcknowledgement result sendFails).reservation.main = t.reservation.main := by
  unfold sendSettlementAcknowledgement
  dsimp only
  split <;> exact ⟨⟨rfl, rfl, rfl⟩, rfl⟩

theorem lane_turnAnswered {wait : Wait TurnMessage} (h : t.turnAnswered wait = some t') :
    SameLane t t' ∧ t'.reservation.main = t.reservation.main := by
  unfold turnAnswered at h
  split at h
  · exact Option.some.inj h ▸ ⟨⟨rfl, rfl, rfl⟩, rfl⟩
  · exact Option.some.inj h ▸ ⟨⟨rfl, rfl, rfl⟩, rfl⟩
  · split at h
    · exact Option.some.inj h ▸ ⟨⟨rfl, rfl, rfl⟩, rfl⟩
    · cases h

theorem lane_finalize (t : ReservationTurn) (ending : Ending) : SameLane t (t.finalize ending) :=
  sameLane_of_host (host_clear t).1

theorem lane_failureSettled (t : ReservationTurn) (result : DataTerminalResult) :
    SameLane t (t.failureSettled ref result) := by
  have hfinished : SameLane t (t.finishExecution ref) :=
    sameLane_of_host (host_finishExecution ref t).1
  have hmarked : SameLane (t.finishExecution ref)
      (if result.outcome.diagnostic = some ("cancellation_cleanup", "cleanup_error") then
        (t.finishExecution ref).markUnavailable else t.finishExecution ref) := by
    split <;> exact ⟨rfl, rfl, rfl⟩
  have hdelivered := sameLane_of_host (host_deliverTerminal
    (if result.outcome.diagnostic = some ("cancellation_cleanup", "cleanup_error") then
      (t.finishExecution ref).markUnavailable else t.finishExecution ref) result false).1
  exact ((hfinished.trans hmarked).trans hdelivered).trans (lane_finalize _ .failure)

theorem lane_refuse (t : ReservationTurn) (hmain : t.reservation.main.isOver = false) :
    LaneMove ref t (t.refuse ref) := by
  have hhost := (host_clear t).1
  refine .released ?_ rfl ?_ rfl hmain
  · show (if t.clearCancellationWatchdog.host.pendingAdmission = some ref then _ else _) = _
    rw [hhost]
  · show (if t.clearCancellationWatchdog.host.activeExecution = some ref then _ else _) = _
    rw [hhost]

/-- The seal is awaited after the processes are cleaned up. -/
theorem lane_cleaned (t : ReservationTurn) (waits failed : Bool)
    (hmain : t.reservation.main.isOver = false) (decision reason : String) :
    LaneMove ref t ((t.endProcessCleanup waits failed).awaitSeal false decision reason) := by
  obtain ⟨hhost, hsame⟩ := host_endProcessCleanup t waits failed
  exact .of_host hhost (congrArg MainPhase.isOver hsame)
    (lane_awaitSeal (t.endProcessCleanup waits failed) (hsame ▸ hmain) false decision reason)

theorem lane_ready (t : ReservationTurn) (hmain : t.reservation.main.isOver = false)
    (message : ReadyMessage) : LaneMove ref t (t.ready message) := by
  cases message <;> exact .same rfl rfl rfl hmain.symm

/-- The fields of the lane follow `runReservation`. -/
theorem lane_mainStep {reply : Reply} (h : t.mainStep ref reply = some t') :
    LaneMove ref t t' := by
  have hnot : ∀ {main : MainPhase}, t.reservation.main = main → main.isOver = false →
      t.reservation.main.isOver = false := fun hmain h => hmain ▸ h
  unfold mainStep at h
  split at h
  · next hmain =>
    obtain rfl := Option.some.inj h
    exact .same rfl rfl rfl (hnot hmain rfl).symm
  · next hmain =>
    obtain rfl := Option.some.inj h
    exact lane_refuse t (hnot hmain rfl)
  · next hmain =>
    obtain rfl := Option.some.inj h
    exact lane_refuse t (hnot hmain rfl)
  · next hmain =>
    obtain rfl := Option.some.inj h
    exact .admitted rfl rfl rfl rfl (hnot hmain rfl)
  · next hmain =>
    obtain rfl := Option.some.inj h
    unfold dispatch
    split
    · exact lane_awaitSeal t (hnot hmain rfl) true _ _
    · exact .same rfl rfl rfl (hnot hmain rfl).symm
  · next error hmain =>
    obtain rfl := Option.some.inj h
    exact lane_caught t (hnot hmain rfl) error
  · next message hmain =>
    obtain rfl := Option.some.inj h
    exact lane_ready t (hnot hmain rfl) message
  · next hmain =>
    split at h
    · obtain rfl := Option.some.inj h
      exact lane_caught t (hnot hmain rfl) _
    · cases h
  · next waits failed hmain =>
    obtain rfl := Option.some.inj h
    refine SameLane.move ?_ (hnot hmain rfl).symm
    exact sameLane_of_host (host_endProcessCleanup t waits failed).1
  · next hmain =>
    obtain rfl := Option.some.inj h
    exact lane_awaitSeal t (hnot hmain rfl) true _ _
  · next error hmain =>
    obtain rfl := Option.some.inj h
    exact lane_caught t (hnot hmain rfl) error
  · next hmain =>
    obtain rfl := Option.some.inj h
    exact .same rfl rfl rfl (hnot hmain rfl).symm
  · next error hmain =>
    obtain rfl := Option.some.inj h
    exact lane_caught t (hnot hmain rfl) error
  · next hmain =>
    obtain rfl := Option.some.inj h
    exact .same rfl rfl rfl (hnot hmain rfl).symm
  · next error hmain =>
    obtain rfl := Option.some.inj h
    exact lane_caught t (hnot hmain rfl) error
  · next result sendFails queued hmain =>
    obtain ⟨stored, hstore, rfl⟩ := Option.map_eq_some_iff.mp h
    obtain ⟨_, rfl⟩ := store_spec hstore
    have hsame := (lane_acknowledgement (t.update fun reservation =>
      { reservation with stored := some result }) result sendFails).1
    exact .same hsame.pending hsame.active hsame.execution (hnot hmain rfl).symm
  · next error stored hmain =>
    obtain rfl := Option.some.inj h
    exact .of_host (u := t.storeUnanswered stored) rfl rfl
      (lane_caught (t.storeUnanswered stored) (hnot hmain rfl) error)
  · next hmain =>
    obtain ⟨answered, hanswered, rfl⟩ := Option.map_eq_some_iff.mp h
    have hsame := (lane_turnAnswered hanswered).1
    exact .same hsame.pending hsame.active hsame.execution (hnot hmain rfl).symm
  · next result waits failed hmain =>
    obtain rfl := Option.some.inj h
    have hcleaned := sameLane_of_host (host_endProcessCleanup t waits failed).1
    exact (hcleaned.trans (lane_failureSettled _ result)).move (hnot hmain rfl).symm
  · next hmain =>
    obtain rfl := Option.some.inj h
    cases t.reservation.terminal <;> exact .same rfl rfl rfl (hnot hmain rfl).symm
  · next error hmain =>
    obtain rfl := Option.some.inj h
    exact lane_caught t (hnot hmain rfl) error
  · next hmain =>
    obtain rfl := Option.some.inj h
    cases t.reservation.terminal <;> exact .same rfl rfl rfl (hnot hmain rfl).symm
  · next error hmain =>
    obtain rfl := Option.some.inj h
    exact lane_caught t (hnot hmain rfl) error
  · next hmain =>
    obtain rfl := Option.some.inj h
    exact .same rfl rfl rfl (hnot hmain rfl).symm
  · next error hmain =>
    obtain rfl := Option.some.inj h
    exact lane_caught t (hnot hmain rfl) error
  · next source inTry hmain =>
    obtain ⟨resolved, _, rfl⟩ := Option.map_eq_some_iff.mp h
    split
    · exact (lane_finalize t _).move (hnot hmain rfl).symm
    · exact lane_caught t (hnot hmain rfl) _
  · next waits failed hmain =>
    obtain rfl := Option.some.inj h
    exact lane_cleaned t waits failed (hnot hmain rfl) _ _
  · next waits failed hmain =>
    obtain rfl := Option.some.inj h
    exact lane_cleaned t waits failed (hnot hmain rfl) _ _
  · next hmain =>
    obtain rfl := Option.some.inj h
    exact .same rfl rfl rfl (hnot hmain rfl).symm
  · next hmain =>
    obtain rfl := Option.some.inj h
    exact .same rfl rfl rfl (hnot hmain rfl).symm
  · next waits failed hmain =>
    obtain rfl := Option.some.inj h
    refine SameLane.move ?_ (hnot hmain rfl).symm
    exact sameLane_of_host (host_endProcessCleanup t waits failed).1
  · next hmain =>
    obtain rfl := Option.some.inj h
    exact .released rfl rfl rfl rfl (hnot hmain rfl)
  · cases h

theorem lane_proposalStep {reply : Reply} (h : t.proposalStep ref reply = some t') :
    SameLane t t' ∧ t'.reservation.main = t.reservation.main := by
  unfold proposalStep at h
  split at h
  · next result sendFails queued _ =>
    obtain ⟨stored, hstore, rfl⟩ := Option.map_eq_some_iff.mp h
    obtain ⟨_, rfl⟩ := store_spec hstore
    obtain ⟨hsame, hmain⟩ := lane_acknowledgement (t.update fun reservation =>
      { reservation with stored := some result }) result sendFails
    exact ⟨⟨hsame.pending, hsame.active, hsame.execution⟩, hmain⟩
  · obtain rfl := Option.some.inj h
    exact ⟨⟨rfl, rfl, rfl⟩, rfl⟩
  · obtain ⟨answered, hanswered, rfl⟩ := Option.map_eq_some_iff.mp h
    obtain ⟨hsame, hmain⟩ := lane_turnAnswered hanswered
    exact ⟨⟨hsame.pending, hsame.active, hsame.execution⟩, hmain⟩
  · next result waits failed _ =>
    obtain rfl := Option.some.inj h
    obtain ⟨hcleaned, hmain⟩ := host_endProcessCleanup t waits failed
    obtain ⟨hfinished, hmain'⟩ := host_finishExecution ref (t.endProcessCleanup waits failed)
    obtain ⟨hdelivered, hmain''⟩ := host_deliverTerminal
      ((t.endProcessCleanup waits failed).finishExecution ref) result
      (result.accepted && result.durable)
    exact ⟨sameLane_of_host (hdelivered.trans (hfinished.trans hcleaned)),
      hmain''.trans (hmain'.trans hmain)⟩
  · cases h

theorem lane_sealStep {reply : Reply} (h : t.sealStep ref reply = some t') :
    SameLane t t' ∧ t'.reservation.main = t.reservation.main := by
  unfold sealStep at h
  split at h
  · next waits failed _ =>
    obtain rfl := Option.some.inj h
    obtain ⟨hcleaned, hmain⟩ := host_endProcessCleanup t waits failed
    exact ⟨sameLane_of_host hcleaned, hmain⟩
  · obtain rfl := Option.some.inj h
    exact ⟨⟨rfl, rfl, rfl⟩, rfl⟩
  · obtain rfl := Option.some.inj h
    exact ⟨⟨rfl, rfl, rfl⟩, rfl⟩
  · obtain rfl := Option.some.inj h
    exact ⟨⟨rfl, rfl, rfl⟩, rfl⟩
  · obtain rfl := Option.some.inj h
    exact ⟨⟨rfl, rfl, rfl⟩, rfl⟩
  · next result sendFails queued _ =>
    obtain ⟨stored, hstore, rfl⟩ := Option.map_eq_some_iff.mp h
    obtain ⟨_, rfl⟩ := store_spec hstore
    obtain ⟨hdelivered, hmain⟩ := host_deliverTerminal (t.update fun reservation =>
      { reservation with stored := some result }) result false
    obtain ⟨hfinished, hmain'⟩ := host_finishExecution ref
      ((t.update fun reservation => { reservation with stored := some result }).deliverTerminal
        result false)
    exact ⟨sameLane_of_host (hfinished.trans hdelivered), hmain'.trans hmain⟩
  · obtain rfl := Option.some.inj h
    exact ⟨⟨rfl, rfl, rfl⟩, rfl⟩
  · cases h

theorem lane_escalate (h : t.escalate ref = some t') :
    SameLane t t' ∧ t'.reservation.main = t.reservation.main := by
  unfold escalate at h
  split at h
  · split at h
    · exact Option.some.inj h ▸ ⟨⟨rfl, rfl, rfl⟩, rfl⟩
    · exact Option.some.inj h ▸ ⟨⟨rfl, rfl, rfl⟩, rfl⟩
  all_goals cases h

theorem lane_escalated (h : t.escalated = some t') :
    SameLane t t' ∧ t'.reservation.main = t.reservation.main := by
  unfold escalated at h
  split at h
  · obtain rfl := Option.some.inj h
    split <;> exact ⟨⟨rfl, rfl, rfl⟩, rfl⟩
  all_goals cases h

theorem lane_receiveReady {message : ReadyMessage} (h : t.receiveReady message = some t') :
    LaneMove ref t t' := by
  unfold receiveReady at h
  split at h
  · next hmain =>
    split at h
    · cases h
    · obtain rfl := Option.some.inj h
      exact .same rfl rfl rfl (by rw [hmain]; rfl)
  · cases h

theorem lane_receiveTurn {message : TurnMessage} (h : t.receiveTurn message = some t') :
    LaneMove ref t t' := by
  unfold receiveTurn at h
  split at h
  · next hmain =>
    split at h
    · cases h
    · obtain rfl := Option.some.inj h
      exact .same rfl rfl rfl (by rw [hmain]; rfl)
  · split at h
    · cases h
    · obtain rfl := Option.some.inj h
      exact .same rfl rfl rfl rfl
  · cases h

theorem lane_cancel (ref : Nat) (t : ReservationTurn) (sent : Option Bool) :
    SameLane t (t.cancel ref sent) ∧ (t.cancel ref sent).reservation.main = t.reservation.main := by
  unfold cancel
  split
  · exact ⟨⟨rfl, rfl, rfl⟩, rfl⟩
  · cases sent with
    | none => exact ⟨⟨rfl, rfl, rfl⟩, rfl⟩
    | some sent => cases sent <;> exact ⟨⟨rfl, rfl, rfl⟩, rfl⟩

end ReservationTurn

/-! ## The coordinator -/

open ReservationTurn

/-- What holds between the events of a run. -/
structure CoordinatorOk (coordinator : ExecutionCoordinator) : Prop where
  /-- The pending admission is the reservation that is not over. -/
  reserved : ∀ ref, coordinator.host.pendingAdmission = some ref ↔
    (coordinator.reservations.read ref).main.isOver = false
  active : coordinator.host.active = coordinator.host.pendingAdmission.isSome
  executing : ∀ ref, coordinator.host.activeExecution = some ref →
    coordinator.host.pendingAdmission = some ref ∧
      (coordinator.reservations.read ref).main.part.admitted = true
  fresh : ∀ ref, coordinator.reservations.next ≤ ref →
    coordinator.reservations.read ref = ExecutionCoordinator.unreserved
  delivery : ∀ ref, (coordinator.reservations.read ref).delivery.Ok
  upkeep : ∀ ref, (upkeepOf coordinator.host.fails coordinator.host.unavailable
    (coordinator.reservations.read ref)).Ok

theorem Upkeep.admitted_moves {u u' : Upkeep} (moves : Upkeep.Moves u u')
    (h : u.admitted = true) : u'.admitted = true := by
  induction moves with
  | refl => exact h
  | tail _ move ih =>
    cases move with
    | main admitted past mainWaits mainWaiter hadmitted => exact hadmitted ih
    | _ => exact ih

namespace ExecutionCoordinator

variable {coordinator next : ExecutionCoordinator} {event : CoordinatorEvent}

theorem ok_start : CoordinatorOk start where
  reserved ref := by simp [start, unreserved, MainPhase.isOver]
  active := rfl
  executing ref h := absurd h (Option.some_ne_none _).symm
  fresh ref _ := rfl
  delivery ref := by
    constructor <;> simp [start, unreserved, ExecutionReservation.delivery, ProposalPhase.state,
      SealPhase.state, MainPhase.part, Delivery.promise]
  upkeep ref := by
    constructor <;> simp [start, unreserved, upkeepOf, ProposalPhase.turnWaiter,
      ProposalPhase.waits, SealPhase.waits, SealPhase.started, MainPhase.waits,
      MainPhase.turnWaiter, Upkeep.Attends]

/-- A part of one reservation keeps the coordinator in order. -/
theorem ok_onTurn {ref : Nat} {f : ReservationTurn → Option ReservationTurn}
    (hok : CoordinatorOk coordinator) (h : coordinator.onTurn ref f = some next)
    (hreserved : ref < coordinator.reservations.next)
    (hf : ∀ t, f ⟨coordinator.host, coordinator.reservations.read ref⟩ = some t →
      Delivery.Moves (coordinator.reservations.read ref).delivery t.delivery ∧
      Upkeep.Moves (upkeepOf coordinator.host.fails coordinator.host.unavailable
        (coordinator.reservations.read ref)) t.upkeep ∧
      LaneMove ref ⟨coordinator.host, coordinator.reservations.read ref⟩ t) :
    CoordinatorOk next := by
  obtain ⟨t, ht, rfl⟩ := onTurn_spec h
  obtain ⟨hdelivery, hupkeep, hlane⟩ := hf t ht
  have hhost := Upkeep.hostMove_moves hupkeep
  have hother : ∀ {other}, other ≠ ref →
      (coordinator.reservations.write ref t.reservation).read other =
        coordinator.reservations.read other :=
    fun hne => coordinator.reservations.read_write_ne t.reservation hne
  have hself := coordinator.reservations.read_write_self ref t.reservation
  have hadmitted : (coordinator.reservations.read ref).main.part.admitted = true →
      t.reservation.main.part.admitted = true := Upkeep.admitted_moves hupkeep
  constructor
  case reserved =>
    intro other
    have hbefore := hok.reserved other
    show t.host.pendingAdmission = some other ↔ _
    by_cases heq : other = ref
    · subst heq
      rw [hself]
      cases hlane with
      | same hpending _ _ hover => rw [hpending, hover, hbefore]
      | admitted hpending _ _ hmain hover => rw [hpending, hmain, hbefore, hover]; rfl
      | released hpending _ _ hover hbefore' =>
        rw [hpending, if_pos (hbefore.mpr hbefore'), hover]
        exact ⟨fun h => absurd h (Option.some_ne_none _).symm, fun h => Bool.noConfusion h⟩
    · rw [hother heq, ← hbefore]
      cases hlane with
      | same hpending _ _ _ => rw [hpending]
      | admitted hpending _ _ _ _ => rw [hpending]
      | released hpending _ _ _ hover =>
        have hpending' := (hok.reserved ref).mpr hover
        rw [hpending, if_pos hpending', hpending']
        exact ⟨fun h => absurd h (Option.some_ne_none _).symm,
          fun h => absurd (Option.some.inj h).symm heq⟩
  case active =>
    show t.host.active = t.host.pendingAdmission.isSome
    cases hlane with
    | same hpending hactive _ _ => rw [hpending, hactive, hok.active]
    | admitted hpending hactive _ _ _ => rw [hpending, hactive, hok.active]
    | released hpending hactive _ _ hover =>
      rw [hpending, if_pos ((hok.reserved ref).mpr hover), hactive]
      rfl
  case executing =>
    intro other hexecution
    change t.host.activeExecution = some other at hexecution
    show t.host.pendingAdmission = some other ∧ _
    cases hlane with
    | same hpending _ hsame _ =>
      rw [hsame] at hexecution
      obtain ⟨hreserve, hpart⟩ := hok.executing other hexecution
      refine ⟨hpending.trans hreserve, ?_⟩
      by_cases heq : other = ref
      · subst heq
        rw [hself]
        exact hadmitted hpart
      · rw [hother heq]
        exact hpart
    | admitted hpending _ hsame hmain hover =>
      rw [hsame] at hexecution
      obtain rfl := Option.some.inj hexecution
      refine ⟨hpending.trans ((hok.reserved ref).mpr hover), ?_⟩
      rw [hself, hmain]
      rfl
    | released _ _ hsame _ hover =>
      have hreserve := (hok.reserved ref).mpr hover
      rw [hsame] at hexecution
      split at hexecution
      · cases hexecution
      · next hne =>
        obtain ⟨hpending, _⟩ := hok.executing other hexecution
        obtain rfl : ref = other := Option.some.inj (hreserve.symm.trans hpending)
        exact absurd hexecution hne
  case fresh =>
    intro other hle
    exact (hother (by
      change coordinator.reservations.next ≤ other at hle
      omega)).trans (hok.fresh other hle)
  case delivery =>
    intro other
    by_cases heq : other = ref
    · subst heq
      rw [hself]
      exact Delivery.ok_moves (hok.delivery other) hdelivery
    · rw [hother heq]
      exact hok.delivery other
  case upkeep =>
    intro other
    by_cases heq : other = ref
    · subst heq
      rw [hself]
      exact Upkeep.ok_moves (hok.upkeep other) hupkeep
    · rw [hother heq]
      exact Upkeep.ok_host (hok.upkeep other) hhost

theorem lt_of_reserved (hok : CoordinatorOk coordinator) {ref : Nat}
    (h : (coordinator.reservations.read ref) ≠ unreserved) : ref < coordinator.reservations.next :=
  Nat.lt_of_not_le fun hle => h (hok.fresh ref hle)

/-- A new reservation. -/
theorem ok_admit (hok : CoordinatorOk coordinator) (initiallyCancelled : Bool) :
    CoordinatorOk (coordinator.admitTask initiallyCancelled) := by
  unfold admitTask
  dsimp only
  split
  · exact hok
  · next hfree =>
    have hnone : coordinator.host.pendingAdmission = none := by
      cases hpending : coordinator.host.pendingAdmission with
      | none => rfl
      | some ref => exact absurd (.inl (by rw [hpending]; rfl)) hfree
    have hread : ∀ ref, (coordinator.reservations.alloc { unreserved with
        cancelled := initiallyCancelled
        main := .ensuring }).2.read ref = if ref = coordinator.reservations.next then
          { unreserved with
            cancelled := initiallyCancelled
            main := .ensuring }
        else coordinator.reservations.read ref := coordinator.reservations.read_alloc _
    constructor
    case reserved =>
      intro ref
      show some _ = some ref ↔ _
      rw [hread]
      split
      · next heq => exact ⟨fun _ => rfl, fun _ => by rw [heq]⟩
      · next hne =>
        rw [← hok.reserved ref, hnone]
        exact ⟨fun h => absurd (Option.some.inj h).symm hne,
          fun h => absurd h (Option.some_ne_none _).symm⟩
    case active => rfl
    case executing =>
      intro ref hexecution
      have hbefore := (hok.executing ref hexecution).1
      rw [hnone] at hbefore
      cases hbefore
    case fresh =>
      intro ref hle
      rw [hread, if_neg (by rw [Heap.next_alloc] at hle; omega)]
      exact hok.fresh ref (Nat.le_of_succ_le hle)
    case delivery =>
      intro ref
      rw [hread]
      split
      · constructor <;> simp [unreserved, ExecutionReservation.delivery, ProposalPhase.state,
          SealPhase.state, MainPhase.part, Delivery.promise]
      · exact hok.delivery ref
    case upkeep =>
      intro ref
      rw [hread]
      split
      · constructor <;> simp [unreserved, upkeepOf, ProposalPhase.turnWaiter,
          ProposalPhase.waits, SealPhase.waits, SealPhase.started, MainPhase.waits,
          MainPhase.turnWaiter, Upkeep.Attends]
      · exact hok.upkeep ref

theorem reserved_of_pending (hok : CoordinatorOk coordinator) {ref : Nat}
    (h : coordinator.host.pendingAdmission = some ref) :
    coordinator.reservations.read ref ≠ unreserved := fun heq => by
  have hover := (hok.reserved ref).mp h
  rw [heq] at hover
  cases hover

theorem ok_cancelActiveTurn (hok : CoordinatorOk coordinator) {sent : Option Bool}
    (h : coordinator.cancelActiveTurn sent = some next) : CoordinatorOk next := by
  obtain rfl | ⟨ref, htarget, hturn⟩ := cancelActiveTurn_spec h
  · exact hok
  · have hpending : coordinator.host.pendingAdmission = some ref := by
      cases hexecution : coordinator.host.activeExecution with
      | none =>
        rw [hexecution] at htarget
        exact htarget
      | some active =>
        rw [hexecution] at htarget
        exact (hok.executing ref (hexecution.trans htarget)).1
    refine ok_onTurn hok hturn (lt_of_reserved hok (reserved_of_pending hok hpending)) fun t ht => ?_
    obtain rfl := Option.some.inj ht
    obtain ⟨hsame, hmain⟩ := lane_cancel ref
      ⟨coordinator.host, coordinator.reservations.read ref⟩ sent
    refine ⟨?_, upkeep_cancel (t := ⟨coordinator.host, coordinator.reservations.read ref⟩) hpending
      sent, hsame.move (congrArg MainPhase.isOver hmain)⟩
    rw [delivery_cancel]
    exact .refl

/-- The fields that a step of the environment leaves alone. -/
theorem ok_host (hok : CoordinatorOk coordinator) (host : CoordinatorHost)
    (hpending : host.pendingAdmission = coordinator.host.pendingAdmission)
    (hactive : host.active = coordinator.host.active)
    (hexecution : host.activeExecution = coordinator.host.activeExecution)
    (hfails : Upkeep.HostMove coordinator.host.fails coordinator.host.unavailable host.fails
      host.unavailable) : CoordinatorOk ⟨host, coordinator.reservations⟩ where
  reserved ref := by rw [← hok.reserved ref, ← hpending]
  active := by
    show host.active = host.pendingAdmission.isSome
    rw [hactive, hpending, hok.active]
  executing ref h := by
    obtain ⟨hreserve, hpart⟩ := hok.executing ref (hexecution ▸ h)
    exact ⟨hpending.trans hreserve, hpart⟩
  fresh := hok.fresh
  delivery := hok.delivery
  upkeep ref := Upkeep.ok_host (hok.upkeep ref) hfails

/-- An event that meets the condition keeps the coordinator in order. -/
theorem ok_step (hok : CoordinatorOk coordinator) (hfair : coordinator.fair event = true)
    (h : coordinator.step event = some next) : CoordinatorOk next := by
  have hreserved : ∀ {ref f}, coordinator.onTurn ref f = some next →
      f ⟨coordinator.host, unreserved⟩ = none → ref < coordinator.reservations.next := by
    intro ref f hturn hnone
    refine lt_of_reserved hok fun heq => ?_
    obtain ⟨t, ht, _⟩ := onTurn_spec hturn
    rw [heq, hnone] at ht
    cases ht
  cases event with
  | admitTask initiallyCancelled => exact Option.some.inj h ▸ ok_admit hok initiallyCancelled
  | main ref reply =>
    change coordinator.onTurn ref (fun t => t.mainStep ref reply) = some next at h
    simp only [fair, Bool.and_eq_true, decide_eq_true_eq] at hfair
    exact ok_onTurn hok h (hreserved h (by cases reply <;> rfl)) fun t ht =>
      ⟨moves_mainStep hfair.1 ht, upkeep_mainStep (t := ⟨_, _⟩) (hok.delivery ref) hfair.1 hfair.2 ht,
        lane_mainStep ht⟩
  | proposal ref reply =>
    change coordinator.onTurn ref (fun t => t.proposalStep ref reply) = some next at h
    simp only [fair, Bool.and_eq_true, decide_eq_true_eq] at hfair
    refine ok_onTurn hok h (hreserved h (by cases reply <;> rfl)) fun t ht => ?_
    obtain ⟨hsame, hmain⟩ := lane_proposalStep ht
    exact ⟨moves_proposalStep hfair.1 ht, upkeep_proposalStep (t := ⟨_, _⟩) (hok.delivery ref) hfair.1 hfair.2 ht,
      hsame.move (congrArg MainPhase.isOver hmain)⟩
  | sealed ref reply =>
    change coordinator.onTurn ref (fun t => t.sealStep ref reply) = some next at h
    simp only [fair, Bool.and_eq_true, decide_eq_true_eq] at hfair
    refine ok_onTurn hok h (hreserved h (by cases reply <;> rfl)) fun t ht => ?_
    obtain ⟨hsame, hmain⟩ := lane_sealStep ht
    exact ⟨moves_sealStep hfair.1 ht, upkeep_sealStep (t := ⟨_, _⟩) (hok.delivery ref) hfair.2 ht,
      hsame.move (congrArg MainPhase.isOver hmain)⟩
  | readyMessage ref message =>
    change coordinator.onTurn ref (fun t => t.receiveReady message) = some next at h
    refine ok_onTurn hok h (hreserved h rfl) fun t ht =>
      ⟨?_, upkeep_receiveReady ht, lane_receiveReady ht⟩
    rw [delivery_receiveReady ht]
    exact .refl
  | turnMessage ref message =>
    change coordinator.onTurn ref (fun t => t.receiveTurn message) = some next at h
    refine ok_onTurn hok h (hreserved h rfl) fun t ht =>
      ⟨?_, upkeep_receiveTurn ht, lane_receiveTurn ht⟩
    rw [delivery_receiveTurn ht]
    exact .refl
  | cancelReceived ref result =>
    change coordinator.onTurn ref (fun t =>
      if t.host.pendingAdmission = some ref then
        some (t.recordExecutionControl (.cancelReceived result)) else none) = some next at h
    have hpending : coordinator.host.pendingAdmission = some ref := by
      obtain ⟨t, ht, _⟩ := onTurn_spec h
      split at ht
      · assumption
      · cases ht
    refine ok_onTurn hok h (lt_of_reserved hok (reserved_of_pending hok hpending)) fun t ht => ?_
    rw [if_pos hpending] at ht
    obtain rfl := Option.some.inj ht
    refine ⟨.refl, ?_, .same rfl rfl rfl rfl⟩
    rw [upkeep_record _ (.cancelReceived result) rfl rfl]
    exact .refl
  | cancelActiveTurn sent => exact ok_cancelActiveTurn hok h
  | watchdogFires ref =>
    change coordinator.onTurn ref (fun t => t.escalate ref) = some next at h
    refine ok_onTurn hok h (hreserved h rfl) fun t ht => ?_
    obtain ⟨hsame, hmain⟩ := lane_escalate ht
    refine ⟨?_, upkeep_escalate (fun hexecution => (hok.executing ref hexecution).2) ht,
      hsame.move (congrArg MainPhase.isOver hmain)⟩
    rw [delivery_escalate ht]
    exact .refl
  | escalated ref =>
    change coordinator.onTurn ref (fun t => t.escalated) = some next at h
    refine ok_onTurn hok h (hreserved h rfl) fun t ht => ?_
    obtain ⟨hsame, hmain⟩ := lane_escalated ht
    refine ⟨moves_escalated (fun hwatchdog => ?_) (fun hwatchdog hterminal => ?_) ht,
      upkeep_escalated ht, hsame.move (congrArg MainPhase.isOver hmain)⟩
    · have hadmitted := (hok.upkeep ref).captured hwatchdog
      constructor <;> intro hpart <;>
        · change (coordinator.reservations.read ref).main.part = _ at hpart
          change (coordinator.reservations.read ref).main.part.admitted = true at hadmitted
          rw [hpart] at hadmitted
          cases hadmitted
    · change (coordinator.reservations.read ref).watchdog = _ at hwatchdog
      change (coordinator.reservations.read ref).terminal = _ at hterminal
      simp only [fair, hwatchdog, hterminal] at hfair
      simpa using hfair
  | close sent =>
    change (if coordinator.host.closed then _ else _) = some next at h
    split at h
    · exact Option.some.inj h ▸ hok
    · exact ok_cancelActiveTurn (ok_host hok { coordinator.host with closed := true } rfl rfl rfl
        (.inr ⟨rfl, id⟩)) h
  | generationLost =>
    obtain rfl := Option.some.inj h
    exact ok_host hok _ rfl rfl rfl (.inl (Nat.lt_succ_self _))
  | requestCounted runtimeRequestCount =>
    obtain rfl := Option.some.inj h
    exact ok_host hok _ rfl rfl rfl (.inr ⟨rfl, id⟩)

/-- What is delivered of one reservation. -/
structure DeliversOnce (coordinator : ExecutionCoordinator) (ref : Nat) : Prop where
  /-- At most one `turn_end`, with the outcome that Data stores. -/
  shown : (coordinator.reservations.read ref).turnEnds = [] ∨ ∃ result event,
    (coordinator.reservations.read ref).stored = some result ∧ result.durable = true ∧
    (coordinator.reservations.read ref).turnEnds = [event] ∧
    Shows (coordinator.reservations.read ref).turn result event
  /-- Each with its control fact. -/
  facts : (coordinator.reservations.read ref).controlFacts.filterMap ControlFact.turnEnd? =
    (coordinator.reservations.read ref).turnEnds.map TurnEndEvent.told
  /-- A durable settlement is delivered when `runReservation` ends. -/
  delivered : (coordinator.reservations.read ref).main.isOver = true →
    ∀ result, (coordinator.reservations.read ref).stored = some result → result.durable = true →
      (coordinator.reservations.read ref).turnEnds ≠ []
  /-- No settled execution waits for an answer that cannot come. -/
  attended : ∀ since, (coordinator.reservations.read ref).main.turnWaiter = some since ∨
      (coordinator.reservations.read ref).proposal.turnWaiter = some since →
    since < coordinator.host.fails ∨ coordinator.host.unavailable = false ∨
      (coordinator.reservations.read ref).watchdog = .armed
  cleanups : (coordinator.reservations.read ref).controlFacts.countP ControlFact.isCleanup ≤ 1
  /-- The fields are reset for the next admission. -/
  released : (coordinator.reservations.read ref).main.isOver = true →
    coordinator.host.pendingAdmission ≠ some ref ∧ coordinator.host.activeExecution ≠ some ref

theorem deliversOnce_of_ok (hok : CoordinatorOk coordinator) (ref : Nat) :
    coordinator.DeliversOnce ref where
  shown := (hok.delivery ref).shown
  facts := (hok.upkeep ref).told
  delivered hover result hstored hdurable := by
    have hdelivery := hok.delivery ref
    cases hmain : (coordinator.reservations.read ref).main with
    | finished ending =>
      have hended : (coordinator.reservations.read ref).delivery.main = .ended ending :=
        congrArg MainPhase.part hmain
      have hsame : ∀ {other : DataTerminalResult}, (coordinator.reservations.read ref).delivery.stored =
          some other → other = result := fun h => Option.some.inj (h.symm.trans hstored)
      cases ending with
      | refused =>
        have hnone := (hdelivery.unadmitted (.inr hended)).2.1
        exact absurd (hstored.symm.trans hnone) (Option.some_ne_none _)
      | failure =>
        obtain ⟨other, hother, hturnEnds⟩ := hdelivery.delivered (.inr (.inr hended))
        exact hturnEnds (hsame hother ▸ hdurable)
      | joined source =>
        obtain ⟨hterminal, hresolved | hrejected⟩ := hdelivery.ended source hended
        · have hpromise : (coordinator.reservations.read ref).delivery.sealed = .resolved ∨
              (coordinator.reservations.read ref).delivery.proposal = .resolved ∨
              (coordinator.reservations.read ref).delivery.main = .ended .failure := by
            cases source with
            | sealing => exact .inl hresolved
            | proposal => exact .inr (.inl hresolved)
          obtain ⟨other, hother, hturnEnds⟩ := hdelivery.delivered hpromise
          exact hturnEnds (hsame hother ▸ hdurable)
        · obtain hnone | ⟨other, hfailed⟩ | hfailure :=
            hdelivery.rejected source hterminal hrejected
          · exact absurd (hstored.symm.trans hnone) (Option.some_ne_none _)
          · exact MainPart.noConfusion (hended.symm.trans hfailed)
          · exact Ending.noConfusion (MainPart.ended.inj (hended.symm.trans hfailure))
    | _ =>
      rw [hmain] at hover
      cases hover
  attended since hwaiter := by
    have hattends := hwaiter.elim ((hok.upkeep ref).mainWaiter since)
      ((hok.upkeep ref).proposalWaiter since)
    exact hattends.imp_right And.right
  cleanups := by
    have hcount := (hok.upkeep ref).cleanups
    change List.countP _ _ = _ at hcount
    rw [hcount]
    split <;> decide
  released hover := by
    have hnot : coordinator.host.pendingAdmission ≠ some ref := fun hpending => by
      rw [(hok.reserved ref).mp hpending] at hover
      cases hover
    exact ⟨hnot, fun hexecution => hnot (hok.executing ref hexecution).1⟩

/-- In a run whose events meet the condition, every terminal is delivered once, and when all the
reservations are over the coordinator is free for the next one. -/
theorem terminal_delivered_once {events : List CoordinatorEvent}
    (hfair : Runs.Throughout step (fun coordinator event => coordinator.fair event = true) start
      events)
    (hrun : Runs.run step start events = some coordinator) :
    (∀ ref, coordinator.DeliversOnce ref) ∧
    ((∀ ref, (coordinator.reservations.read ref).main.isOver = true) →
      coordinator.host.active = false ∧ coordinator.host.pendingAdmission = none ∧
      coordinator.host.activeExecution = none) := by
  have hok : CoordinatorOk coordinator :=
    Runs.run_keeps_throughout (fun hok hfair hstep => ok_step hok hfair hstep) ok_start hfair hrun
  refine ⟨deliversOnce_of_ok hok, fun hover => ?_⟩
  have hpending : coordinator.host.pendingAdmission = none := by
    cases hcase : coordinator.host.pendingAdmission with
    | none => rfl
    | some ref => exact absurd hcase (deliversOnce_of_ok hok ref |>.released (hover ref)).1
  have hexecution : coordinator.host.activeExecution = none := by
    cases hcase : coordinator.host.activeExecution with
    | none => rfl
    | some ref => exact absurd hcase (deliversOnce_of_ok hok ref |>.released (hover ref)).2
  exact ⟨by rw [hok.active, hpending]; rfl, hpending, hexecution⟩

/-! ## Runs -/

def storedCancelled : DataTerminalResult where
  accepted := false
  canonical := false
  durable := true
  outcome :=
    { stopReason := "cancelled"
      diagnostic := none
      turnProviderRequestCount := some 1
      runtimeProviderRequestCount := some 1
      executionArtifactId := none
      recallableExecutionId := none
      executionArtifactDurability := none
      executionArtifactPersistenceError := none
      executionAdmissionDurability := none
      executionAdmissionPersistenceError := none }

/-- An execution is admitted, cancelled, and its Worker reports a failure, which Data settles. -/
def cancelledFailure : List CoordinatorEvent :=
  [.admitTask false, .main 0 .resolved, .main 0 (.admitted 1), .main 0 .resolved,
    .cancelActiveTurn (some true), .readyMessage 0 .failureReady, .main 0 .resumed,
    .main 0 (.children false), .main 0 .resolved, .main 0 (.settled storedCancelled false none)]

/-- The Worker answers, and the execution ends. -/
def answeredFailure : List CoordinatorEvent :=
  cancelledFailure ++ [.turnMessage 0 .turnSettled, .main 0 .resumed, .main 0 (.cleaned false),
    .main 0 (.children false), .main 0 (.cleaned false), .main 0 .resolved]

theorem terminal_delivered_once_answered : ∃ coordinator,
    Runs.run step start answeredFailure = some coordinator ∧
    (coordinator.reservations.read 0).turnEnds.length = 1 ∧
    ∀ ref, coordinator.DeliversOnce ref := by
  obtain ⟨coordinator, hrun, hlength⟩ : ∃ coordinator,
      Runs.run step start answeredFailure = some coordinator ∧
        (coordinator.reservations.read 0).turnEnds.length = 1 := Runs.exists_run (by decide)
  exact ⟨coordinator, hrun, hlength, (terminal_delivered_once (by decide) hrun).1⟩

/-- The watchdog fires before the answer: its seal and the failure path both deliver. -/
def escalatedFailure : List CoordinatorEvent :=
  cancelledFailure ++ [.watchdogFires 0, .main 0 .resumed, .escalated 0, .sealed 0 (.cleaned false),
    .main 0 (.cleaned false), .sealed 0 (.children false), .sealed 0 .resolved,
    .sealed 0 (.settled storedCancelled false none), .main 0 (.children false),
    .main 0 (.cleaned false), .main 0 .resolved]

theorem failure_delivered_twice : ∃ coordinator,
    Runs.run step start escalatedFailure = some coordinator ∧
    (coordinator.reservations.read 0).main.isOver = true ∧
    (coordinator.reservations.read 0).stored = some storedCancelled ∧
    (coordinator.reservations.read 0).turnEnds.length = 2 ∧
    ((coordinator.reservations.read 0).controlFacts.filterMap ControlFact.turnEnd?).length = 2 ∧
    (coordinator.reservations.read 0).controlFacts.countP ControlFact.isCleanup = 2 :=
  Runs.exists_run (by decide)

end ExecutionCoordinator

end Henji
