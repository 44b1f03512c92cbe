import Henji.Host.TerminalDelivery

/-!
# What runs beside the delivery

The cleanup of the processes, the watchdog of a cancellation, the waiters for the answer to an
acknowledgement and the control facts of an execution.

Results:
1. `ok_move`: the moves that the parts of an execution can make keep these in step.
2. `upkeep_mainStep` and its siblings: the code makes such moves only.
-/

namespace Henji

/-- The `turn_end` that a control fact is about. -/
def ControlFact.turnEnd? : ControlFact → Option (Nat × String × Bool)
  | .postCommitTurnEnd turn outcome committed _ => some (turn, outcome, committed)
  | _ => none

def ControlFact.isCleanup : ControlFact → Bool
  | .processCleanupFinished _ => true
  | _ => false

def TurnEndEvent.told (event : TurnEndEvent) : Nat × String × Bool :=
  (event.turn, event.outcome, event.committed)

/-- The execution of a reservation with this part exists. -/
def MainPart.admitted : MainPart → Bool
  | .unadmitted | .ended .refused => false
  | _ => true

/-- `runReservation` has come to the terminal promise, or to its `catch`. -/
def MainPhase.past : MainPhase → Bool
  | .joining _ _ | .forcedCleaning _ | .caughtCleaning _ _ | .finalChildren _ | .finalCleaning _ _
  | .finalWrites _ | .finished _ => true
  | _ => false

/-- The failures of the queue when the waiter for the answer to an acknowledgement came. -/
def Wait.since {α : Type} : Wait α → Option Nat
  | .registered fails => some fails
  | .received _ => none

def MainPhase.turnWaiter : MainPhase → Option Nat
  | .failureTurn _ wait => wait.since
  | _ => none

def ProposalPhase.turnWaiter : ProposalPhase → Option Nat
  | .turnWait _ wait => wait.since
  | _ => none

def SealPhase.started : SealPhase → Bool
  | .idle => false
  | _ => true

/-- The state beside the delivery. `told` are the `turn_end` facts, `ended` the events. -/
structure Upkeep where
  fails : Nat
  unavailable : Bool
  cancelled : Bool
  watchdog : Watchdog
  recorded : Bool
  cleanups : Nat
  admitted : Bool
  past : Bool
  mainWaits : Bool
  mainWaiter : Option Nat
  proposalWaits : Bool
  proposalWaiter : Option Nat
  sealStarted : Bool
  sealWaits : Bool
  told : List (Nat × String × Bool)
  ended : List (Nat × String × Bool)

namespace Upkeep

/-- A waiter was rejected, or it is answered or rejected: the generation is there, or the watchdog
will fail the queue. -/
def Attends (u : Upkeep) (waiter : Option Nat) : Prop :=
  ∀ since, waiter = some since →
    since < u.fails ∨ (since = u.fails ∧ (u.unavailable = false ∨ u.watchdog = .armed))

structure Ok (u : Upkeep) : Prop where
  captured : u.watchdog = .escalating true → u.admitted = true
  cancelled : u.watchdog ≠ .idle → u.cancelled = true
  started : u.sealStarted = true → u.watchdog = .expired ∨ u.past = true
  pastWaiter : u.past = true → u.mainWaiter = none
  mainWaiter : u.Attends u.mainWaiter
  proposalWaiter : u.Attends u.proposalWaiter
  cleanups : u.cleanups = if u.recorded then 1 else 0
  mainWaits : u.mainWaits = true → u.recorded = false
  proposalWaits : u.proposalWaits = true → u.recorded = false
  sealWaits : u.sealWaits = true → u.recorded = false
  told : u.told = u.ended

inductive Move (u : Upkeep) : Upkeep → Prop
  /-- `runReservation` is at another await. -/
  | main (admitted past mainWaits : Bool) (mainWaiter : Option Nat)
      (hadmitted : u.admitted = true → admitted = true) (hpast : u.past = true → past = true)
      (hwaits : mainWaits = true → u.recorded = false)
      (hpastWaiter : past = true → mainWaiter = none)
      (hwaiter : mainWaiter = none ∨ mainWaiter = u.mainWaiter ∨
        (mainWaiter = some u.fails ∧ (u.unavailable = false ∨ u.watchdog = .armed))) :
    Move u { u with
      admitted
      past
      mainWaits
      mainWaiter }
  | proposal (proposalWaits : Bool) (proposalWaiter : Option Nat)
      (hwaits : proposalWaits = true → u.recorded = false)
      (hwaiter : proposalWaiter = none ∨ proposalWaiter = u.proposalWaiter ∨
        (proposalWaiter = some u.fails ∧ (u.unavailable = false ∨ u.watchdog = .armed))) :
    Move u { u with
      proposalWaits
      proposalWaiter }
  | sealed (sealWaits : Bool) (hwaits : sealWaits = true → u.recorded = false)
      (hstarted : u.sealStarted = true ∨ u.past = true ∨ u.watchdog = .expired) :
    Move u { u with
      sealStarted := true
      sealWaits }
  /-- A call of `finishProcessCleanup` ends, and no other waits. -/
  | cleanedMain (hmain : u.mainWaits = true) (hproposal : u.proposalWaits = false)
      (hsealed : u.sealWaits = false) :
    Move u { u with
      recorded := true
      cleanups := u.cleanups + 1
      mainWaits := false }
  | cleanedProposal (hmain : u.mainWaits = false) (hproposal : u.proposalWaits = true)
      (hsealed : u.sealWaits = false) :
    Move u { u with
      recorded := true
      cleanups := u.cleanups + 1
      proposalWaits := false }
  | cleanedSeal (hmain : u.mainWaits = false) (hproposal : u.proposalWaits = false)
      (hsealed : u.sealWaits = true) :
    Move u { u with
      recorded := true
      cleanups := u.cleanups + 1
      sealWaits := false }
  | failed : Move u { u with
      fails := u.fails + 1
      unavailable := true }
  | replaced : Move u { u with unavailable := false }
  | cleared (harmed : u.watchdog = .armed) (hmain : u.mainWaiter = none ∨ u.sealStarted = true)
      (hproposal : u.proposalWaiter = none) : Move u { u with watchdog := .idle }
  | fired (captured : Bool) (harmed : u.watchdog = .armed)
      (hcaptured : captured = true → u.admitted = true) :
    Move u { u with
      watchdog := .escalating captured
      fails := u.fails + 1
      unavailable := true }
  | firedUncancelled (harmed : u.watchdog = .armed) (hcancelled : u.cancelled = false) :
    Move u { u with watchdog := .expired }
  | escalated {captured} (hescalating : u.watchdog = .escalating captured) :
    Move u { u with watchdog := .expired }
  | cancelled (hcancelled : u.cancelled = false) :
    Move u { u with
      cancelled := true
      watchdog := .armed }
  | delivered (event : Nat × String × Bool) :
    Move u { u with
      told := u.told ++ [event]
      ended := u.ended ++ [event] }

variable {u u' : Upkeep}

theorem Attends.of_wait {waiter waiter' : Option Nat} (h : u.Attends waiter)
    (hwaiter : waiter' = none ∨ waiter' = waiter ∨
      (waiter' = some u.fails ∧ (u.unavailable = false ∨ u.watchdog = .armed))) :
    u.Attends waiter' := by
  obtain rfl | rfl | ⟨rfl, hattended⟩ := hwaiter
  · intro since hsince
    exact absurd hsince (Option.some_ne_none since).symm
  · exact h
  · intro since hsince
    exact .inr ⟨(Option.some.inj hsince).symm, hattended⟩

/-- A failure of the queue rejects every waiter. -/
theorem Attends.lt {waiter : Option Nat} (h : u.Attends waiter) {since : Nat}
    (hsince : waiter = some since) : since < u.fails + 1 :=
  (h since hsince).elim Nat.lt_succ_of_lt fun ⟨hfails, _⟩ => hfails ▸ Nat.lt_succ_self since

theorem Attends.replaced {waiter : Option Nat} (h : u.Attends waiter) :
    Attends { u with unavailable := false } waiter :=
  fun since hsince => (h since hsince).imp_right fun ⟨hfails, _⟩ => ⟨hfails, .inl rfl⟩

/-- Without the watchdog, only a generation that is there attends a waiter. -/
theorem Attends.unwatched {waiter : Option Nat} {watchdog : Watchdog} (h : u.Attends waiter)
    (hwaiter : waiter = none ∨ u.watchdog ≠ .armed) : Attends { u with watchdog } waiter := by
  intro since hsince
  obtain rfl | hunarmed := hwaiter
  · exact absurd hsince (Option.some_ne_none since).symm
  · exact (h since hsince).imp_right fun ⟨hfails, hattended⟩ =>
      ⟨hfails, .inl (hattended.resolve_right hunarmed)⟩

section Moves

variable (h : u.Ok)

include h

theorem ok_main (admitted past mainWaits : Bool) (mainWaiter : Option Nat)
    (hadmitted : u.admitted = true → admitted = true) (hpast : u.past = true → past = true)
    (hwaits : mainWaits = true → u.recorded = false)
    (hpastWaiter : past = true → mainWaiter = none)
    (hwaiter : mainWaiter = none ∨ mainWaiter = u.mainWaiter ∨
      (mainWaiter = some u.fails ∧ (u.unavailable = false ∨ u.watchdog = .armed))) :
    Ok { u with
      admitted
      past
      mainWaits
      mainWaiter } :=
  { h with
    captured := fun hescalating => hadmitted (h.captured hescalating)
    started := fun hstarted => (h.started hstarted).imp_right hpast
    pastWaiter := hpastWaiter
    mainWaiter := h.mainWaiter.of_wait hwaiter
    mainWaits := hwaits }

theorem ok_proposal (proposalWaits : Bool) (proposalWaiter : Option Nat)
    (hwaits : proposalWaits = true → u.recorded = false)
    (hwaiter : proposalWaiter = none ∨ proposalWaiter = u.proposalWaiter ∨
      (proposalWaiter = some u.fails ∧ (u.unavailable = false ∨ u.watchdog = .armed))) :
    Ok { u with
      proposalWaits
      proposalWaiter } :=
  { h with
    proposalWaiter := h.proposalWaiter.of_wait hwaiter
    proposalWaits := hwaits }

theorem ok_sealed (sealWaits : Bool) (hwaits : sealWaits = true → u.recorded = false)
    (hstarted : u.sealStarted = true ∨ u.past = true ∨ u.watchdog = .expired) :
    Ok { u with
      sealStarted := true
      sealWaits } :=
  { h with
    started := fun _ => hstarted.elim h.started Or.symm
    sealWaits := hwaits }

/-- The only call of `finishProcessCleanup` that waits ends. -/
theorem ok_cleaned {mainWaits proposalWaits sealWaits : Bool} (hrecorded : u.recorded = false)
    (hmain : mainWaits = false) (hproposal : proposalWaits = false) (hsealed : sealWaits = false) :
    Ok { u with
      recorded := true
      cleanups := u.cleanups + 1
      mainWaits
      proposalWaits
      sealWaits } :=
  { h with
    cleanups := by
      have hcleanups := h.cleanups
      rw [hrecorded] at hcleanups
      exact congrArg (· + 1) hcleanups
    mainWaits := fun hwaits => Bool.noConfusion (hmain.symm.trans hwaits)
    proposalWaits := fun hwaits => Bool.noConfusion (hproposal.symm.trans hwaits)
    sealWaits := fun hwaits => Bool.noConfusion (hsealed.symm.trans hwaits) }

theorem ok_failed :
    Ok { u with
      fails := u.fails + 1
      unavailable := true } :=
  { h with
    mainWaiter := fun _ hsince => .inl (h.mainWaiter.lt hsince)
    proposalWaiter := fun _ hsince => .inl (h.proposalWaiter.lt hsince) }

theorem ok_replaced : Ok { u with unavailable := false } :=
  { h with
    mainWaiter := h.mainWaiter.replaced
    proposalWaiter := h.proposalWaiter.replaced }

theorem ok_cleared (harmed : u.watchdog = .armed)
    (hmain : u.mainWaiter = none ∨ u.sealStarted = true) (hproposal : u.proposalWaiter = none) :
    Ok { u with watchdog := .idle } := by
  have hpast : u.sealStarted = true → u.past = true := fun hstarted =>
    (h.started hstarted).resolve_left fun hexpired => Watchdog.noConfusion (harmed ▸ hexpired)
  have hnone : u.mainWaiter = none :=
    hmain.elim id fun hstarted => h.pastWaiter (hpast hstarted)
  exact { h with
    captured := fun hescalating => Watchdog.noConfusion hescalating
    cancelled := fun hidle => absurd rfl hidle
    started := fun hstarted => .inr (hpast hstarted)
    mainWaiter := h.mainWaiter.unwatched (.inl hnone)
    proposalWaiter := h.proposalWaiter.unwatched (.inl hproposal) }

theorem ok_fired (captured : Bool) (harmed : u.watchdog = .armed)
    (hcaptured : captured = true → u.admitted = true) :
    Ok { u with
      watchdog := .escalating captured
      fails := u.fails + 1
      unavailable := true } :=
  { h with
    captured := fun hescalating => hcaptured (Watchdog.escalating.inj hescalating)
    cancelled := fun _ => h.cancelled (harmed ▸ Watchdog.noConfusion)
    started := fun hstarted => (h.started hstarted).elim
      (fun hexpired => Watchdog.noConfusion (harmed.symm.trans hexpired)) .inr
    mainWaiter := fun _ hsince => .inl (h.mainWaiter.lt hsince)
    proposalWaiter := fun _ hsince => .inl (h.proposalWaiter.lt hsince) }

/-- The watchdog is armed by a cancellation only. -/
theorem ok_firedUncancelled (harmed : u.watchdog = .armed) (hcancelled : u.cancelled = false) :
    Ok { u with watchdog := .expired } :=
  Bool.noConfusion (hcancelled.symm.trans (h.cancelled (harmed ▸ Watchdog.noConfusion)))

theorem ok_escalated {captured : Bool} (hescalating : u.watchdog = .escalating captured) :
    Ok { u with watchdog := .expired } := by
  have hunarmed : u.watchdog ≠ .armed := fun harmed =>
    Watchdog.noConfusion (hescalating.symm.trans harmed)
  exact { h with
    captured := fun hexpired => Watchdog.noConfusion hexpired
    cancelled := fun _ => h.cancelled (hescalating ▸ Watchdog.noConfusion)
    started := fun _ => .inl rfl
    mainWaiter := h.mainWaiter.unwatched (.inr hunarmed)
    proposalWaiter := h.proposalWaiter.unwatched (.inr hunarmed) }

theorem ok_cancelled (hcancelled : u.cancelled = false) :
    Ok { u with
      cancelled := true
      watchdog := .armed } := by
  have hidle : u.watchdog = .idle := by
    by_contra hnot
    exact Bool.noConfusion (hcancelled.symm.trans (h.cancelled hnot))
  exact { h with
    captured := fun harmed => Watchdog.noConfusion harmed
    cancelled := fun _ => rfl
    started := fun hstarted => (h.started hstarted).elim
      (fun hexpired => Watchdog.noConfusion (hidle.symm.trans hexpired)) .inr
    mainWaiter := fun since hsince =>
      (h.mainWaiter since hsince).imp_right fun ⟨hfails, _⟩ => ⟨hfails, .inr rfl⟩
    proposalWaiter := fun since hsince =>
      (h.proposalWaiter since hsince).imp_right fun ⟨hfails, _⟩ => ⟨hfails, .inr rfl⟩ }

theorem ok_delivered (event : Nat × String × Bool) :
    Ok { u with
      told := u.told ++ [event]
      ended := u.ended ++ [event] } :=
  { h with told := congrArg (· ++ [event]) h.told }

end Moves

/-- Every move keeps the upkeep in order. -/
theorem ok_move (h : u.Ok) (move : Move u u') : u'.Ok := by
  cases move with
  | main admitted past mainWaits mainWaiter hadmitted hpast hwaits hpastWaiter hwaiter =>
    exact ok_main h admitted past mainWaits mainWaiter hadmitted hpast hwaits hpastWaiter hwaiter
  | proposal proposalWaits proposalWaiter hwaits hwaiter =>
    exact ok_proposal h proposalWaits proposalWaiter hwaits hwaiter
  | sealed sealWaits hwaits hstarted => exact ok_sealed h sealWaits hwaits hstarted
  | cleanedMain hmain hproposal hsealed =>
    exact ok_cleaned h (h.mainWaits hmain) rfl hproposal hsealed
  | cleanedProposal hmain hproposal hsealed =>
    exact ok_cleaned h (h.proposalWaits hproposal) hmain rfl hsealed
  | cleanedSeal hmain hproposal hsealed =>
    exact ok_cleaned h (h.sealWaits hsealed) hmain hproposal rfl
  | failed => exact ok_failed h
  | replaced => exact ok_replaced h
  | cleared harmed hmain hproposal => exact ok_cleared h harmed hmain hproposal
  | fired captured harmed hcaptured => exact ok_fired h captured harmed hcaptured
  | firedUncancelled harmed hcancelled => exact ok_firedUncancelled h harmed hcancelled
  | escalated hescalating => exact ok_escalated h hescalating
  | cancelled hcancelled => exact ok_cancelled h hcancelled
  | delivered event => exact ok_delivered h event

/-- What the moves do to the fields that all reservations see. -/
def HostMove (fails : Nat) (unavailable : Bool) (fails' : Nat) (unavailable' : Bool) : Prop :=
  fails < fails' ∨ (fails' = fails ∧ (unavailable = false → unavailable' = false))

theorem hostMove_move (move : Move u u') :
    HostMove u.fails u.unavailable u'.fails u'.unavailable := by
  cases move <;> grind only [HostMove]

theorem ok_host (h : u.Ok) {fails : Nat} {unavailable : Bool}
    (hhost : HostMove u.fails u.unavailable fails unavailable) :
    Ok { u with
      fails
      unavailable } := by
  obtain ⟨captured, cancelled, started, pastWaiter, mainWaiter, proposalWaiter, cleanups, mainWaits,
    proposalWaits, sealWaits, told⟩ := h
  constructor <;> grind only [Attends, HostMove]

abbrev Moves : Upkeep → Upkeep → Prop := Relation.ReflTransGen Move

theorem ok_moves (h : u.Ok) (moves : Moves u u') : u'.Ok := by
  induction moves with
  | refl => exact h
  | tail _ move ih => exact ok_move ih move

theorem hostMove_moves (moves : Moves u u') :
    HostMove u.fails u.unavailable u'.fails u'.unavailable := by
  induction moves with
  | refl => exact .inr ⟨rfl, id⟩
  | tail _ move ih =>
    have hlast := hostMove_move move
    grind only [HostMove]

end Upkeep

/-! ## The upkeep of a reservation -/

def upkeepOf (fails : Nat) (unavailable : Bool) (reservation : ExecutionReservation) : Upkeep where
  fails
  unavailable
  cancelled := reservation.cancelled
  watchdog := reservation.watchdog
  recorded := reservation.cleanupRecorded
  cleanups := reservation.controlFacts.countP ControlFact.isCleanup
  admitted := reservation.main.part.admitted
  past := reservation.main.past
  mainWaits := reservation.main.waits
  mainWaiter := reservation.main.turnWaiter
  proposalWaits := reservation.proposal.waits
  proposalWaiter := reservation.proposal.turnWaiter
  sealStarted := reservation.sealed.started
  sealWaits := reservation.sealed.waits
  told := reservation.controlFacts.filterMap ControlFact.turnEnd?
  ended := reservation.turnEnds.map TurnEndEvent.told

namespace ReservationTurn

variable {ref : Nat} {t t' : ReservationTurn}

def upkeep (t : ReservationTurn) : Upkeep := upkeepOf t.host.fails t.host.unavailable t.reservation

theorem upkeep_record (t : ReservationTurn) (fact : ControlFact) (hcleanup : fact.isCleanup = false)
    (htold : fact.turnEnd? = none) : (t.recordExecutionControl fact).upkeep = t.upkeep := by
  simp [upkeep, upkeepOf, recordExecutionControl, update, hcleanup, htold]

/-- `runReservation` goes to an await at which it waits for nobody's answer. -/
theorem upkeep_setMain (t : ReservationTurn) (next : MainPhase)
    (hadmitted : t.reservation.main.part.admitted = true → next.part.admitted = true)
    (hpast : t.reservation.main.past = true → next.past = true)
    (hwaits : next.waits = true → t.reservation.cleanupRecorded = false)
    (hwaiter : next.turnWaiter = none) : Upkeep.Moves t.upkeep (t.setMain next).upkeep :=
  .single (.main next.part.admitted next.past next.waits next.turnWaiter hadmitted hpast hwaits
    (fun _ => hwaiter) (.inl hwaiter))

theorem upkeep_markUnavailable (t : ReservationTurn) :
    Upkeep.Moves t.upkeep t.markUnavailableForReplacement.upkeep :=
  .single .failed

theorem cleanupWaits_spec (t : ReservationTurn) (h : t.cleanupWaits = true) :
    t.reservation.cleanupRecorded = false := by
  simpa [cleanupWaits] using h

theorem upkeep_endProcessCleanup (t : ReservationTurn) (failed : Bool) :
    (t.endProcessCleanup true failed).upkeep = { t.upkeep with
      recorded := true
      cleanups := t.upkeep.cleanups + 1 } := by
  simp [upkeep, upkeepOf, endProcessCleanup, recordExecutionControl, update, ControlFact.isCleanup,
    ControlFact.turnEnd?]

/-- Of three parts of which one waits at most, the others do not. -/
theorem alone : ∀ {main proposal sealed : Bool},
    main.toNat + proposal.toNat + sealed.toNat ≤ 1 → main = true →
      proposal = false ∧ sealed = false := by
  decide

/-- The call of `finishProcessCleanup` that `runReservation` awaits ends. -/
theorem upkeep_endMain (t : ReservationTurn) (waits failed : Bool) (next : MainPhase)
    (hmain : t.reservation.main.waits = waits) (hone : t.reservation.waitingCleanups ≤ 1)
    (hadmitted : t.reservation.main.part.admitted = true → next.part.admitted = true)
    (hpast : t.reservation.main.past = true → next.past = true)
    (hwaits : next.waits = false) (hwaiter : next.turnWaiter = none) :
    Upkeep.Moves t.upkeep ((t.endProcessCleanup waits failed).setMain next).upkeep := by
  have hnot : next.waits = true → ∀ b : Bool, b = false := fun h => by rw [hwaits] at h; cases h
  cases waits with
  | false => exact upkeep_setMain t next hadmitted hpast (fun h => hnot h _) hwaiter
  | true =>
    have hothers := alone hone hmain
    have hcleaned : Upkeep.Moves t.upkeep _ := .single (.cleanedMain hmain hothers.1 hothers.2)
    refine hcleaned.tail ?_
    show Upkeep.Move _ { (t.endProcessCleanup true failed).upkeep with
      admitted := next.part.admitted
      past := next.past
      mainWaits := next.waits
      mainWaiter := next.turnWaiter }
    rw [upkeep_endProcessCleanup]
    exact .main next.part.admitted next.past next.waits next.turnWaiter hadmitted hpast
      (fun h => hnot h _) (fun _ => hwaiter) (.inl hwaiter)

theorem upkeep_awaitSeal (t : ReservationTurn) (inTry : Bool) (decision reason : String) :
    Upkeep.Moves t.upkeep (t.awaitSeal inTry decision reason).upkeep := by
  unfold awaitSeal
  split
  · next source _ =>
    exact upkeep_setMain t (.joining source inTry) (fun _ => rfl) (fun _ => rfl)
      (fun h => Bool.noConfusion h) rfl
  · have hjoined := upkeep_setMain t (.joining .sealing inTry) (fun _ => rfl) (fun _ => rfl)
      (fun h => Bool.noConfusion h) rfl
    have hfailed := hjoined.trans (upkeep_markUnavailable (t.setMain (.joining .sealing inTry)))
    exact hfailed.tail (.sealed t.cleanupWaits t.cleanupWaits_spec (.inr (.inl rfl)))

theorem upkeep_caught (t : ReservationTurn) (error : String) :
    Upkeep.Moves t.upkeep (t.caught error).upkeep := by
  unfold caught
  split
  · exact upkeep_setMain t _ (fun _ => rfl) (fun _ => rfl) t.cleanupWaits_spec rfl
  · split
    · exact upkeep_awaitSeal t false _ _
    · exact (upkeep_markUnavailable t).trans (upkeep_setMain t.markUnavailableForReplacement _
        (fun _ => rfl) (fun _ => rfl) t.cleanupWaits_spec rfl)

theorem upkeep_clear (t : ReservationTurn)
    (hmain : t.reservation.main.turnWaiter = none ∨ t.reservation.sealed.started = true)
    (hproposal : t.reservation.proposal.turnWaiter = none) :
    Upkeep.Moves t.upkeep t.clearCancellationWatchdog.upkeep := by
  unfold clearCancellationWatchdog
  split
  · next harmed => exact .single (.cleared harmed hmain hproposal)
  all_goals exact .refl

theorem upkeep_finishExecution (ref : Nat) (t : ReservationTurn)
    (hmain : t.reservation.main.turnWaiter = none ∨ t.reservation.sealed.started = true)
    (hproposal : t.reservation.proposal.turnWaiter = none) :
    Upkeep.Moves t.upkeep (t.finishExecution ref).upkeep := by
  unfold finishExecution
  split
  · exact upkeep_clear (t.update fun reservation => { reservation with settling := true }) hmain
      hproposal
  · exact upkeep_clear t hmain hproposal

theorem upkeep_deliverTerminal (t : ReservationTurn) (result : DataTerminalResult)
    (committed : Bool) : Upkeep.Moves t.upkeep (t.deliverTerminal result committed).upkeep := by
  unfold deliverTerminal
  split
  · have hmove := Upkeep.Move.delivered (u := t.upkeep)
      (t.reservation.turn, result.outcome.stopReason, committed)
    refine .single (Eq.subst (motive := fun u => Upkeep.Move t.upkeep u) ?_ hmove)
    simp [upkeep, upkeepOf, recordExecutionControl, update, ControlFact.isCleanup,
      ControlFact.turnEnd?, TurnEndEvent.told, turnEndFromOutcome, terminalOutcome]
  · exact .refl

theorem upkeep_sendSettlementAcknowledgement (t : ReservationTurn) (result : DataTerminalResult)
    (sendFails : Bool) :
    Upkeep.Moves t.upkeep (t.sendSettlementAcknowledgement result sendFails).upkeep := by
  unfold sendSettlementAcknowledgement
  dsimp only
  split
  · refine .trans ?_ (upkeep_markUnavailable _)
    rw [upkeep_record _ (.acknowledgementFailed _) rfl rfl,
      upkeep_record _ (.acknowledgementRequested _) rfl rfl]
  · rw [upkeep_record _ (.acknowledgementSent _) rfl rfl,
      upkeep_record _ (.acknowledgementRequested _) rfl rfl]

/-- The waiter for the answer is attended to. -/
theorem turnWait_attended (t : ReservationTurn) (result : DataTerminalResult) (sendFails : Bool)
    (queued : Option TurnMessage) (hfair : queued = none → t.attended sendFails = true) :
    let u := (t.sendSettlementAcknowledgement result sendFails).upkeep
    let waiter := ((t.sendSettlementAcknowledgement result sendFails).turnWait queued).since
    waiter = none ∨ (waiter = some u.fails ∧ (u.unavailable = false ∨ u.watchdog = .armed)) := by
  cases queued with
  | some message => exact .inl rfl
  | none =>
    refine .inr ⟨rfl, ?_⟩
    have hattended := hfair rfl
    simp only [attended, Bool.or_eq_true, Bool.and_eq_true, Bool.not_eq_true', beq_iff_eq]
      at hattended
    cases sendFails with
    | false =>
      obtain ⟨_, havailable⟩ | harmed := hattended
      · exact .inl havailable
      · exact .inr harmed
    | true =>
      obtain ⟨hfalse, _⟩ | harmed := hattended
      · cases hfalse
      · exact .inr harmed

theorem upkeep_turnAnswered {wait : Wait TurnMessage} (h : t.turnAnswered wait = some t') :
    Upkeep.Moves t.upkeep t'.upkeep ∧ t'.reservation.main = t.reservation.main ∧
      t'.reservation.proposal = t.reservation.proposal := by
  unfold turnAnswered at h
  split at h
  · obtain rfl := Option.some.inj h
    exact ⟨upkeep_record t .turnSettled rfl rfl ▸ .refl, rfl, rfl⟩
  · obtain rfl := Option.some.inj h
    exact ⟨upkeep_markUnavailable t, rfl, rfl⟩
  · split at h
    · obtain rfl := Option.some.inj h
      exact ⟨upkeep_markUnavailable t, rfl, rfl⟩
    · cases h

theorem upkeep_dispatch (t : ReservationTurn) (hpast : t.reservation.main.past = false) :
    Upkeep.Moves t.upkeep t.dispatch.upkeep := by
  unfold dispatch
  split
  · exact upkeep_awaitSeal t true _ _
  · exact upkeep_setMain t (.waiting (.registered t.host.fails)) (fun _ => rfl)
      (fun h => by rw [hpast] at h; cases h) (fun h => Bool.noConfusion h) rfl

theorem upkeep_ready (t : ReservationTurn) (hpast : t.reservation.main.past = false)
    (message : ReadyMessage) : Upkeep.Moves t.upkeep (t.ready message).upkeep := by
  have hnot : ∀ b : Bool, t.reservation.main.past = true → b = true := fun _ h => by
    rw [hpast] at h
    cases h
  cases message with
  | workerError message =>
    exact (upkeep_markUnavailable t).trans (upkeep_setMain t.markUnavailableForReplacement
      (.errorCleaning message t.cleanupWaits) (fun _ => rfl) (hnot _) t.cleanupWaits_spec rfl)
  | failureReady =>
    exact upkeep_setMain t .failureChildren (fun _ => rfl) (hnot _) (fun h => Bool.noConfusion h) rfl
  | proposalReady =>
    exact upkeep_setMain t .preparing (fun _ => rfl) (hnot _) (fun h => Bool.noConfusion h) rfl

theorem upkeep_finalize (t : ReservationTurn) (ending : Ending)
    (hadmitted : t.reservation.main.part.admitted = true →
      (MainPhase.finalChildren ending).part.admitted = true)
    (hmain : t.reservation.main.turnWaiter = none)
    (hproposal : t.reservation.proposal.turnWaiter = none) :
    Upkeep.Moves t.upkeep (t.finalize ending).upkeep := by
  have hsame : t.clearCancellationWatchdog.reservation.main = t.reservation.main := by
    unfold clearCancellationWatchdog
    split <;> rfl
  refine (upkeep_clear t (.inl hmain) hproposal).trans ?_
  exact upkeep_setMain t.clearCancellationWatchdog (.finalChildren ending) (hsame ▸ hadmitted)
    (fun _ => rfl) (fun h => Bool.noConfusion h) rfl

theorem upkeep_refuse (t : ReservationTurn) (hadmitted : t.reservation.main.part.admitted = false)
    (hmain : t.reservation.main.turnWaiter = none)
    (hproposal : t.reservation.proposal.turnWaiter = none) :
    Upkeep.Moves t.upkeep (t.refuse ref).upkeep := by
  have hsame : t.clearCancellationWatchdog.reservation.main = t.reservation.main := by
    unfold clearCancellationWatchdog
    split <;> rfl
  refine (upkeep_clear t (.inl hmain) hproposal).trans ?_
  exact upkeep_setMain t.clearCancellationWatchdog (.finished .refused)
    (fun h => by rw [hsame, hadmitted] at h; cases h) (fun _ => rfl) (fun h => Bool.noConfusion h) rfl

/-- While the promise of the proposal waits for an answer, `runReservation` awaits that promise. -/
theorem proposalWaiter_none (hok : t.delivery.Ok)
    (hmain : t.delivery.main ≠ .joined .proposal) : t.reservation.proposal.turnWaiter = none := by
  cases hproposal : t.reservation.proposal with
  | turnWait result wait =>
    have hpending : t.delivery.proposal = .pending (some result) :=
      congrArg ProposalPhase.state hproposal
    exact absurd (hok.awaited _ hpending) hmain
  | idle => rfl
  | authorizing decision => rfl
  | cleaning result waits => rfl
  | resolved => rfl
  | rejected => rfl

theorem upkeep_failureSettled (ref : Nat) (t : ReservationTurn) (result : DataTerminalResult)
    (hmain : t.reservation.main.turnWaiter = none)
    (hproposal : t.reservation.proposal.turnWaiter = none) :
    Upkeep.Moves t.upkeep (t.failureSettled ref result).upkeep := by
  have hfinished := upkeep_finishExecution ref t (.inl hmain) hproposal
  have hsame : (t.finishExecution ref).reservation.main = t.reservation.main ∧
      (t.finishExecution ref).reservation.proposal = t.reservation.proposal := by
    unfold finishExecution clearCancellationWatchdog
    split <;> split <;> exact ⟨rfl, rfl⟩
  unfold failureSettled
  dsimp only
  refine hfinished.trans ?_
  generalize t.finishExecution ref = finished at hsame
  have hmarked : Upkeep.Moves finished.upkeep
      (if result.outcome.diagnostic = some ("cancellation_cleanup", "cleanup_error") then
        finished.markUnavailable else finished).upkeep ∧
      (if result.outcome.diagnostic = some ("cancellation_cleanup", "cleanup_error") then
        finished.markUnavailable else finished).reservation = finished.reservation := by
    split
    · exact ⟨.single .failed, rfl⟩
    · exact ⟨.refl, rfl⟩
  refine hmarked.1.trans ?_
  generalize (if result.outcome.diagnostic = some ("cancellation_cleanup", "cleanup_error") then
    finished.markUnavailable else finished) = marked at hmarked
  have hkept : (marked.deliverTerminal result false).reservation.main = t.reservation.main ∧
      (marked.deliverTerminal result false).reservation.proposal = t.reservation.proposal := by
    rw [← hsame.1, ← hsame.2, ← hmarked.2]
    unfold deliverTerminal
    split <;> exact ⟨rfl, rfl⟩
  exact (upkeep_deliverTerminal marked result false).trans (upkeep_finalize _ .failure
    (fun _ => rfl) (hkept.1 ▸ hmain) (hkept.2 ▸ hproposal))

theorem proposalWaiter_settled {resolved : Bool}
    (h : t.terminalSettled .proposal = some resolved) :
    t.reservation.proposal.turnWaiter = none := by
  unfold terminalSettled at h
  cases hproposal : t.reservation.proposal with
  | turnWait result wait =>
    rw [hproposal] at h
    cases h
  | idle => rfl
  | authorizing decision => rfl
  | cleaning result waits => rfl
  | resolved => rfl
  | rejected => rfl

/-- A reservation with one fact and one event more. -/
def withTurnEnd (r : ExecutionReservation) (fact : ControlFact) (event : TurnEndEvent) :
    ExecutionReservation :=
  { r with
    controlFacts := r.controlFacts ++ [fact]
    turnEnds := r.turnEnds ++ [event] }

/-- A change of a reservation of which the end of an execution reads and writes nothing. -/
structure Apart (f : ExecutionReservation → ExecutionReservation) : Prop where
  watchdog : ∀ r, (f r).watchdog = r.watchdog
  turn : ∀ r, (f r).turn = r.turn
  idle : ∀ r, f { r with watchdog := .idle } = { f r with watchdog := .idle }
  settling : ∀ r, f { r with settling := true } = { f r with settling := true }
  turnEnd : ∀ r fact event, f (withTurnEnd r fact event) = withTurnEnd (f r) fact event

theorem apart_main (main : MainPhase) : Apart fun r => { r with main } :=
  ⟨fun _ => rfl, fun _ => rfl, fun _ => rfl, fun _ => rfl, fun _ _ _ => rfl⟩

theorem apart_proposal (proposal : ProposalPhase) : Apart fun r => { r with proposal } :=
  ⟨fun _ => rfl, fun _ => rfl, fun _ => rfl, fun _ => rfl, fun _ _ _ => rfl⟩

theorem apart_sealed (sealed : SealPhase) : Apart fun r => { r with sealed } :=
  ⟨fun _ => rfl, fun _ => rfl, fun _ => rfl, fun _ => rfl, fun _ _ _ => rfl⟩

variable {f : ExecutionReservation → ExecutionReservation}

theorem clear_update (hf : Apart f) (t : ReservationTurn) :
    (t.update f).clearCancellationWatchdog = t.clearCancellationWatchdog.update f := by
  unfold clearCancellationWatchdog
  rw [show (t.update f).reservation.watchdog = t.reservation.watchdog from hf.watchdog _]
  cases t.reservation.watchdog with
  | armed => exact congrArg (ReservationTurn.mk t.host) (hf.idle t.reservation).symm
  | idle => rfl
  | escalating captured => rfl
  | expired => rfl

theorem finishExecution_update (hf : Apart f) (t : ReservationTurn) :
    (t.update f).finishExecution ref = (t.finishExecution ref).update f := by
  unfold finishExecution
  by_cases hactive : t.host.activeExecution = some ref
  · rw [if_pos hactive, if_pos (show (t.update f).host.activeExecution = some ref from hactive),
      ← clear_update hf]
    exact congrArg (fun r => clearCancellationWatchdog ⟨t.host, r⟩) (hf.settling _).symm
  · rw [if_neg hactive, if_neg (show (t.update f).host.activeExecution ≠ some ref from hactive),
      ← clear_update hf]

theorem deliverTerminal_update (hf : Apart f) (t : ReservationTurn) (result : DataTerminalResult)
    (committed : Bool) : (t.update f).deliverTerminal result committed =
      (t.deliverTerminal result committed).update f := by
  have hdeliver : ∀ x : ReservationTurn, result.durable = true →
      x.deliverTerminal result committed = ⟨x.host, withTurnEnd x.reservation
        (.postCommitTurnEnd x.reservation.turn result.outcome.stopReason committed
          (x.host.unavailable || x.host.needsReplacement))
        (turnEndFromOutcome x.reservation.turn (x.terminalOutcome result) committed)⟩ :=
    fun x hdurable => by rw [deliverTerminal, if_pos hdurable]; rfl
  by_cases hdurable : result.durable = true
  · rw [hdeliver _ hdurable, hdeliver _ hdurable]
    show ReservationTurn.mk t.host (withTurnEnd (f t.reservation) _ _) = .mk t.host (f _)
    rw [hf.turnEnd, show (t.update f).reservation.turn = t.reservation.turn from hf.turn _]
    rfl
  · rw [deliverTerminal, if_neg hdurable, deliverTerminal, if_neg hdurable]

/-- The end of the failure path does not look at its await. -/
theorem failureSettled_setMain (t : ReservationTurn) (main : MainPhase)
    (result : DataTerminalResult) :
    (t.setMain main).failureSettled ref result = t.failureSettled ref result := by
  have hmarked : ∀ x : ReservationTurn,
      (if result.outcome.diagnostic = some ("cancellation_cleanup", "cleanup_error") then
        (x.setMain main).markUnavailable else x.setMain main) =
      (if result.outcome.diagnostic = some ("cancellation_cleanup", "cleanup_error") then
        x.markUnavailable else x).setMain main := fun x => by split <;> rfl
  have hfinished : (t.setMain main).finishExecution ref = (t.finishExecution ref).setMain main :=
    finishExecution_update (apart_main main) t
  have hdelivered : ∀ x : ReservationTurn, (x.setMain main).deliverTerminal result false =
      (x.deliverTerminal result false).setMain main :=
    fun x => deliverTerminal_update (apart_main main) x result false
  have hcleared : ∀ x : ReservationTurn, (x.setMain main).clearCancellationWatchdog =
      x.clearCancellationWatchdog.setMain main := fun x => clear_update (apart_main main) x
  unfold failureSettled finalize
  dsimp only
  rw [hfinished, hmarked, hdelivered, hcleared]
  rfl

/-- An acknowledgement is sent, and its answer is waited for. -/
theorem upkeep_acknowledge (t : ReservationTurn) {sendFails : Bool} (result : DataTerminalResult)
    (queued : Option TurnMessage) (hattended : queued = none → t.attended sendFails = true)
    (hpast : t.reservation.main.past = false) :
    let acknowledged := t.sendSettlementAcknowledgement result sendFails
    Upkeep.Moves t.upkeep
      (acknowledged.setMain (.failureTurn result (acknowledged.turnWait queued))).upkeep := by
  intro acknowledged
  have hmain : acknowledged.reservation.main = t.reservation.main := by
    simp only [acknowledged, sendSettlementAcknowledgement]
    split <;> rfl
  have hwaiter := turnWait_attended t result sendFails queued hattended
  refine (upkeep_sendSettlementAcknowledgement t result sendFails).tail (.main true false false
    (acknowledged.turnWait queued).since (fun _ => rfl) (fun h => ?_) (fun h => Bool.noConfusion h)
    (fun h => Bool.noConfusion h) (hwaiter.imp_right .inr))
  change acknowledged.reservation.main.past = true at h
  rw [hmain, hpast] at h
  cases h

theorem upkeep_joinOr (t : ReservationTurn) (main : MainPhase)
    (hpast : t.reservation.main.past = true → main.past = true) (hpart : main.part = .working)
    (hwaits : main.waits = false) (hwaiter : main.turnWaiter = none) :
    Upkeep.Moves t.upkeep (t.setMain (match t.reservation.terminal with
      | some source => .joining source true
      | none => main)).upkeep := by
  cases t.reservation.terminal with
  | some source =>
    exact upkeep_setMain t (.joining source true) (fun _ => rfl) (fun _ => rfl)
      (fun h => Bool.noConfusion h) rfl
  | none =>
    exact upkeep_setMain t main (fun _ => by rw [hpart]; rfl) hpast
      (fun h => by rw [hwaits] at h; cases h) hwaiter

/-- What `runReservation` does beside the delivery. -/
theorem upkeep_mainStep {reply : Reply} (hok : t.delivery.Ok) (hfair : t.mainFair reply = true)
    (hone : t.reservation.waitingCleanups ≤ 1) (h : t.mainStep ref reply = some t') :
    Upkeep.Moves t.upkeep t'.upkeep := by
  have hproposal : ∀ {main : MainPhase}, t.reservation.main = main →
      main.part ≠ .joined .proposal → t.reservation.proposal.turnWaiter = none :=
    fun hmain hpart => proposalWaiter_none hok (part_of_main hmain ▸ hpart)
  have hnotPast : ∀ {main : MainPhase} {b : Bool}, t.reservation.main = main → main.past = false →
      t.reservation.main.past = true → b = true := fun hmain hpast h => by
    rw [hmain, hpast] at h
    cases h
  unfold mainStep at h
  split at h
  · next hmain => -- the generation is there
    obtain rfl := Option.some.inj h
    have hnot : t.reservation.main.part.admitted = true → false = true := fun h => by
      rw [hmain] at h
      exact h
    exact (upkeep_setMain t .admitting hnot (hnotPast hmain rfl) (fun h => Bool.noConfusion h)
      rfl).tail .replaced
  · next hmain =>
    obtain rfl := Option.some.inj h
    exact upkeep_refuse t (by rw [hmain]; rfl) (by rw [hmain]; rfl)
      (hproposal hmain MainPart.noConfusion)
  · next hmain =>
    obtain rfl := Option.some.inj h
    exact upkeep_refuse t (by rw [hmain]; rfl) (by rw [hmain]; rfl)
      (hproposal hmain MainPart.noConfusion)
  · next turn hmain =>
    obtain rfl := Option.some.inj h
    exact upkeep_setMain t .registering (fun _ => rfl) (hnotPast hmain rfl)
      (fun h => Bool.noConfusion h) rfl
  · next hmain =>
    obtain rfl := Option.some.inj h
    exact upkeep_dispatch t (by rw [hmain]; rfl)
  · next error hmain =>
    obtain rfl := Option.some.inj h
    exact upkeep_caught t error
  · next message hmain =>
    obtain rfl := Option.some.inj h
    exact upkeep_ready t (by rw [hmain]; rfl) message
  · next hmain =>
    split at h
    · obtain rfl := Option.some.inj h
      exact upkeep_caught t _
    · cases h
  · next reason waits failed hmain =>
    obtain rfl := Option.some.inj h
    exact upkeep_endMain t waits failed (.errorChildren reason) (by rw [hmain]; rfl) hone (fun _ => rfl)
      (hnotPast hmain rfl) rfl rfl
  · next hmain =>
    obtain rfl := Option.some.inj h
    exact upkeep_awaitSeal t true _ _
  · next error hmain =>
    obtain rfl := Option.some.inj h
    exact upkeep_caught t error
  · next hmain =>
    obtain rfl := Option.some.inj h
    exact upkeep_setMain t .failureMetadata (fun _ => rfl) (hnotPast hmain rfl)
      (fun h => Bool.noConfusion h) rfl
  · next error hmain =>
    obtain rfl := Option.some.inj h
    exact upkeep_caught t error
  · next hmain =>
    obtain rfl := Option.some.inj h
    exact upkeep_setMain t .settlingFailure (fun _ => rfl) (hnotPast hmain rfl)
      (fun h => Bool.noConfusion h) rfl
  · next error hmain =>
    obtain rfl := Option.some.inj h
    exact upkeep_caught t error
  · next result sendFails queued hmain => -- Data settles the failure
    obtain ⟨stored, hstore, rfl⟩ := Option.map_eq_some_iff.mp h
    obtain ⟨_, rfl⟩ := store_spec hstore
    have hattended : queued = none → t.attended sendFails = true := fun hqueued => by
      subst hqueued
      simpa only [mainFair, hmain] using hfair
    exact upkeep_acknowledge (t.update fun reservation =>
      { reservation with stored := some result }) result queued hattended
      (show t.reservation.main.past = false by rw [hmain]; rfl)
  · next error stored hmain =>
    obtain rfl := Option.some.inj h
    exact upkeep_caught (t.storeUnanswered stored) error
  · next result wait hmain =>
    obtain ⟨answered, hanswered, rfl⟩ := Option.map_eq_some_iff.mp h
    obtain ⟨hmoves, hsame, _⟩ := upkeep_turnAnswered hanswered
    refine hmoves.trans (upkeep_setMain answered (.failureCleaning result answered.cleanupWaits)
      (fun _ => rfl) (fun h => ?_) answered.cleanupWaits_spec rfl)
    rw [hsame] at h
    exact hnotPast hmain rfl h
  · next result waits failed hmain => -- the failure is delivered
    obtain rfl := Option.some.inj h
    have hcleaned := upkeep_endMain t waits failed (.failureCleaning result false)
      (by rw [hmain]; rfl) hone (fun _ => rfl) (hnotPast hmain rfl) rfl rfl
    have hkept : ((t.endProcessCleanup waits failed).setMain
        (.failureCleaning result false)).reservation.proposal = t.reservation.proposal := by
      unfold endProcessCleanup
      split <;> rfl
    have hsettled := upkeep_failureSettled ref
      ((t.endProcessCleanup waits failed).setMain (.failureCleaning result false)) result rfl
      (hkept ▸ hproposal hmain MainPart.noConfusion)
    rw [failureSettled_setMain] at hsettled
    exact hcleaned.trans hsettled
  · next hmain =>
    obtain rfl := Option.some.inj h
    exact upkeep_joinOr t .proposalChildren (hnotPast hmain rfl) rfl rfl rfl
  · next error hmain =>
    obtain rfl := Option.some.inj h
    exact upkeep_caught t error
  · next failed hmain =>
    obtain rfl := Option.some.inj h
    exact upkeep_joinOr t (.proposalMetadata failed) (hnotPast hmain rfl) rfl rfl rfl
  · next error hmain =>
    obtain rfl := Option.some.inj h
    exact upkeep_caught t error
  · next childFailed hmain => -- the promise of the proposal is published
    obtain rfl := Option.some.inj h
    exact (upkeep_setMain t (.joining .proposal true) (fun _ => rfl) (fun _ => rfl)
      (fun h => Bool.noConfusion h) rfl).tail
        (.proposal false none (fun h => Bool.noConfusion h) (.inl rfl))
  · next error hmain =>
    obtain rfl := Option.some.inj h
    exact upkeep_caught t error
  · next source inTry hmain => -- the terminal promise is settled
    obtain ⟨resolved, hresolved, rfl⟩ := Option.map_eq_some_iff.mp h
    split
    · refine upkeep_finalize t (.joined source) (fun _ => rfl) (by rw [hmain]; rfl) ?_
      cases source with
      | sealing =>
        exact hproposal hmain fun h => TerminalSource.noConfusion (MainPart.joined.inj h)
      | proposal => exact proposalWaiter_settled hresolved
    · exact upkeep_caught t _
  · next waits failed hmain =>
    obtain rfl := Option.some.inj h
    exact (upkeep_endMain t waits failed (.forcedCleaning false) (by rw [hmain]; rfl) hone
      (fun _ => rfl) (fun _ => rfl) rfl rfl).trans (upkeep_awaitSeal _ false _ _)
  · next reason waits failed hmain =>
    obtain rfl := Option.some.inj h
    exact (upkeep_endMain t waits failed (.caughtCleaning reason false) (by rw [hmain]; rfl) hone
      (fun _ => rfl) (fun _ => rfl) rfl rfl).trans (upkeep_awaitSeal _ false _ _)
  · next ending _ hmain =>
    obtain rfl := Option.some.inj h
    exact upkeep_setMain t (.finalCleaning ending t.cleanupWaits) (by rw [hmain]; exact id)
      (fun _ => rfl) t.cleanupWaits_spec rfl
  · next ending _ hmain =>
    obtain rfl := Option.some.inj h
    exact upkeep_setMain t (.finalCleaning ending t.cleanupWaits) (by rw [hmain]; exact id)
      (fun _ => rfl) t.cleanupWaits_spec rfl
  · next ending waits failed hmain =>
    obtain rfl := Option.some.inj h
    exact upkeep_endMain t waits failed (.finalWrites ending) (by rw [hmain]; rfl) hone
      (by rw [hmain]; exact id) (fun _ => rfl) rfl rfl
  · next ending hmain =>
    obtain rfl := Option.some.inj h
    exact upkeep_setMain t (.finished ending) (by rw [hmain]; exact id) (fun _ => rfl)
      (fun h => Bool.noConfusion h) rfl
  · cases h

/-! ## The promises, the watchdog and the messages -/

theorem upkeep_setProposal (t : ReservationTurn) (next : ProposalPhase)
    (hwaits : next.waits = true → t.reservation.cleanupRecorded = false)
    (hwaiter : next.turnWaiter = none ∨ (next.turnWaiter = some t.host.fails ∧
      (t.host.unavailable = false ∨ t.reservation.watchdog = .armed))) :
    Upkeep.Moves t.upkeep
      (t.update fun reservation => { reservation with proposal := next }).upkeep :=
  .single (.proposal next.waits next.turnWaiter hwaits (hwaiter.imp_right .inr))

theorem upkeep_setSealed (t : ReservationTurn) (next : SealPhase)
    (hstarted : t.reservation.sealed.started = true) (hnext : next.started = true)
    (hwaits : next.waits = false) : Upkeep.Moves t.upkeep
      (t.update fun reservation => { reservation with sealed := next }).upkeep := by
  have hmove := Upkeep.Move.sealed (u := t.upkeep) next.waits
    (fun h => by rw [hwaits] at h; cases h) (.inl hstarted)
  rw [← hnext] at hmove
  exact .single hmove

theorem upkeep_endProposal (t : ReservationTurn) (waits failed : Bool)
    (hproposal : t.reservation.proposal.waits = waits)
    (hone : t.reservation.waitingCleanups ≤ 1) :
    Upkeep.Moves t.upkeep ((t.endProcessCleanup waits failed).update fun reservation =>
      { reservation with proposal := .resolved }).upkeep := by
  have hdone : ∀ x : ReservationTurn, Upkeep.Moves x.upkeep (x.update fun reservation =>
      { reservation with proposal := .resolved }).upkeep := fun x =>
    upkeep_setProposal x .resolved (fun h => Bool.noConfusion h) (.inl rfl)
  cases waits with
  | false => exact hdone t
  | true =>
    rw [ExecutionReservation.waitingCleanups, Nat.add_comm t.reservation.main.waits.toNat] at hone
    have hothers := alone hone hproposal
    refine (Relation.ReflTransGen.single
      (.cleanedProposal hothers.1 hproposal hothers.2)).trans ?_
    show Upkeep.Moves _ { (t.endProcessCleanup true failed).upkeep with
      proposalWaits := false
      proposalWaiter := none }
    rw [upkeep_endProcessCleanup]
    exact .single (.proposal false none (fun h => Bool.noConfusion h) (.inl rfl))

theorem upkeep_endSeal (t : ReservationTurn) {waits : Bool} (failed : Bool) (request : SealRequest)
    (hsealed : t.reservation.sealed = .cleaning request waits)
    (hone : t.reservation.waitingCleanups ≤ 1) :
    Upkeep.Moves t.upkeep ((t.endProcessCleanup waits failed).update fun reservation =>
      { reservation with sealed := .children request }).upkeep := by
  have hstarted : t.reservation.sealed.started = true := by rw [hsealed]; rfl
  cases waits with
  | false => exact upkeep_setSealed t (.children request) hstarted rfl rfl
  | true =>
    have hwaits : t.reservation.sealed.waits = true := by rw [hsealed]; rfl
    rw [ExecutionReservation.waitingCleanups, Nat.add_comm] at hone
    have hothers : t.reservation.main.waits = false ∧ t.reservation.proposal.waits = false :=
      alone (by omega) hwaits
    refine (Relation.ReflTransGen.single (.cleanedSeal hothers.1 hothers.2 hwaits)).trans ?_
    show Upkeep.Moves _ { (t.endProcessCleanup true failed).upkeep with
      sealStarted := true
      sealWaits := false }
    rw [upkeep_endProcessCleanup]
    exact .single (.sealed false (fun h => Bool.noConfusion h) (.inl hstarted))

theorem upkeep_proposalStep {reply : Reply} (hok : t.delivery.Ok)
    (hfair : t.proposalFair reply = true) (hone : t.reservation.waitingCleanups ≤ 1)
    (h : t.proposalStep ref reply = some t') : Upkeep.Moves t.upkeep t'.upkeep := by
  unfold proposalStep at h
  split at h
  · next result sendFails queued hproposal => -- Data settles the execution
    obtain ⟨stored, hstore, rfl⟩ := Option.map_eq_some_iff.mp h
    obtain ⟨_, rfl⟩ := store_spec hstore
    have hattended : queued = none → t.attended sendFails = true := fun hqueued => by
      subst hqueued
      simpa only [proposalFair, hproposal] using hfair
    exact (upkeep_sendSettlementAcknowledgement (t.update fun reservation =>
      { reservation with stored := some result }) result sendFails).trans
        (upkeep_setProposal _ (.turnWait result _) (fun h => Bool.noConfusion h)
          (turnWait_attended (t.update fun reservation =>
            { reservation with stored := some result }) result sendFails queued hattended))
  · next stored hproposal =>
    obtain rfl := Option.some.inj h
    exact upkeep_setProposal (t.storeUnanswered stored) .rejected (fun h => Bool.noConfusion h)
      (.inl rfl)
  · next result wait hproposal =>
    obtain ⟨answered, hanswered, rfl⟩ := Option.map_eq_some_iff.mp h
    exact (upkeep_turnAnswered hanswered).1.trans (upkeep_setProposal answered
      (.cleaning result answered.cleanupWaits) answered.cleanupWaits_spec (.inl rfl))
  · next result waits failed hproposal => -- the proposal is delivered
    obtain rfl := Option.some.inj h
    have hpending : t.delivery.proposal = .pending (some result) :=
      congrArg ProposalPhase.state hproposal
    have hjoined : t.delivery.main = .joined .proposal := hok.awaited _ hpending
    have hmain : t.reservation.main.turnWaiter = none := by
      cases hphase : t.reservation.main with
      | failureTurn result wait =>
        rw [part_of_main hphase] at hjoined
        cases hjoined
      | _ => rfl
    have hended := upkeep_endProposal t waits failed (by rw [hproposal]; rfl) hone
    rw [← deliverTerminal_update (apart_proposal _), ← finishExecution_update (apart_proposal _)]
    refine (hended.trans (upkeep_finishExecution ref _ (.inl ?_) rfl)).trans
      (upkeep_deliverTerminal _ result _)
    have hkept : (t.endProcessCleanup waits failed).reservation.main = t.reservation.main := by
      unfold endProcessCleanup
      split <;> rfl
    exact (congrArg MainPhase.turnWaiter hkept).trans hmain
  · cases h

/-- While the seal is under way, no proposal waits. -/
theorem proposalWaiter_sealing (hok : t.delivery.Ok)
    (hsealed : t.delivery.sealed = .pending none) : t.reservation.proposal.turnWaiter = none := by
  refine proposalWaiter_none hok fun hjoined => ?_
  obtain ⟨_, hsealed' | hsealed'⟩ := hok.proposalTerminal (hok.joined _ hjoined)
  · rw [hsealed] at hsealed'
    cases hsealed'
  · rw [hsealed] at hsealed'
    cases hsealed'

theorem upkeep_sealStep {reply : Reply} (hok : t.delivery.Ok)
    (hone : t.reservation.waitingCleanups ≤ 1)
    (h : t.sealStep ref reply = some t') : Upkeep.Moves t.upkeep t'.upkeep := by
  have hstarted : ∀ {sealed : SealPhase}, t.reservation.sealed = sealed → sealed.started = true →
      t.reservation.sealed.started = true := fun hsealed h => hsealed ▸ h
  unfold sealStep at h
  split at h
  · next request waits failed hsealed =>
    obtain rfl := Option.some.inj h
    exact upkeep_endSeal t failed request hsealed hone
  · next request _ hsealed =>
    obtain rfl := Option.some.inj h
    exact upkeep_setSealed t (.metadata request) (hstarted hsealed rfl) rfl rfl
  · next request _ hsealed =>
    obtain rfl := Option.some.inj h
    exact upkeep_setSealed t (.metadata request) (hstarted hsealed rfl) rfl rfl
  · next request hsealed =>
    obtain rfl := Option.some.inj h
    exact upkeep_setSealed t (.sealing request) (hstarted hsealed rfl) rfl rfl
  · next request _ hsealed =>
    obtain rfl := Option.some.inj h
    exact upkeep_setSealed t (.sealing request) (hstarted hsealed rfl) rfl rfl
  · next result sendFails queued hsealed => -- Data seals the execution
    obtain ⟨stored, hstore, rfl⟩ := Option.map_eq_some_iff.mp h
    obtain ⟨_, rfl⟩ := store_spec hstore
    have hpending : t.delivery.sealed = .pending none := congrArg SealPhase.state hsealed
    have hproposal : t.reservation.proposal.turnWaiter = none := proposalWaiter_sealing hok hpending
    rw [← finishExecution_update (apart_sealed _), ← deliverTerminal_update (apart_sealed _)]
    have hresolved := upkeep_setSealed (t.update fun reservation =>
      { reservation with stored := some result }) .resolved (hstarted hsealed rfl) rfl rfl
    refine (hresolved.trans (upkeep_deliverTerminal _ result false)).trans
      (upkeep_finishExecution ref _ (.inr ?_) ?_)
    · rw [deliverTerminal_update (apart_sealed _)]
      rfl
    · rw [deliverTerminal_update (apart_sealed _)]
      unfold deliverTerminal
      split <;> exact hproposal
  · next stored hsealed =>
    obtain rfl := Option.some.inj h
    exact upkeep_setSealed (t.storeUnanswered stored) .rejected (hstarted hsealed rfl) rfl rfl
  · cases h

theorem upkeep_escalate (hcaptured : t.host.activeExecution = some ref →
      t.reservation.main.part.admitted = true) (h : t.escalate ref = some t') :
    Upkeep.Moves t.upkeep t'.upkeep := by
  unfold escalate at h
  split at h
  · next harmed =>
    split at h
    · obtain rfl := Option.some.inj h
      exact .single (.fired (decide (t.host.activeExecution = some ref)) harmed
        fun h => hcaptured (of_decide_eq_true h))
    · next hcancelled =>
      obtain rfl := Option.some.inj h
      exact .single (.firedUncancelled harmed (Bool.not_eq_true _ ▸ hcancelled))
  all_goals cases h

theorem upkeep_escalated (h : t.escalated = some t') : Upkeep.Moves t.upkeep t'.upkeep := by
  unfold escalated at h
  split at h
  · next captured hwatchdog =>
    obtain rfl := Option.some.inj h
    have hrecorded : Upkeep.Moves t.upkeep ((t.recordExecutionControl .cancelEscalated).update
        fun reservation => { reservation with watchdog := .expired }).upkeep := by
      have hmove : Upkeep.Move (t.recordExecutionControl .cancelEscalated).upkeep _ :=
        .escalated hwatchdog
      rw [upkeep_record t .cancelEscalated rfl rfl] at hmove
      exact .single (by
        rw [← upkeep_record t .cancelEscalated rfl rfl] at hmove ⊢
        exact hmove)
    split
    · exact (hrecorded.trans (upkeep_markUnavailable _)).tail
        (.sealed _ (cleanupWaits_spec _) (.inr (.inr rfl)))
    · exact hrecorded
  all_goals cases h

theorem upkeep_receiveReady {message : ReadyMessage} (h : t.receiveReady message = some t') :
    Upkeep.Moves t.upkeep t'.upkeep := by
  unfold receiveReady at h
  split at h
  · next hmain =>
    split at h
    · cases h
    · obtain rfl := Option.some.inj h
      exact upkeep_setMain t (.waiting (.received message)) (fun _ => rfl)
        (fun h => by rw [hmain] at h; cases h) (fun h => Bool.noConfusion h) rfl
  · cases h

theorem upkeep_receiveTurn {message : TurnMessage} (h : t.receiveTurn message = some t') :
    Upkeep.Moves t.upkeep t'.upkeep := by
  unfold receiveTurn at h
  split at h
  · next result fails hmain =>
    split at h
    · cases h
    · obtain rfl := Option.some.inj h
      exact upkeep_setMain t (.failureTurn result (.received message)) (fun _ => rfl)
        (fun h => by rw [hmain] at h; cases h) (fun h => Bool.noConfusion h) rfl
  · next result fails _ _ =>
    split at h
    · cases h
    · obtain rfl := Option.some.inj h
      exact upkeep_setProposal t (.turnWait result (.received message))
        (fun h => Bool.noConfusion h) (.inl rfl)
  · cases h

theorem upkeep_cancel (hpending : t.host.pendingAdmission = some ref) (sent : Option Bool) :
    Upkeep.Moves t.upkeep (t.cancel ref sent).upkeep := by
  unfold cancel
  split
  · exact .refl
  · next hnot =>
    have hcancelled : t.reservation.cancelled = false := by
      cases hcase : t.reservation.cancelled with
      | false => rfl
      | true => exact absurd (.inr ⟨hpending, hcase⟩) hnot
    have hrequested : Upkeep.Moves t.upkeep ((t.update fun reservation =>
        { reservation with
          executionCancelled :=
            reservation.executionCancelled || decide (t.host.activeExecution = some ref)
          cancelled := true
          watchdog := .armed }).recordExecutionControl .cancelRequested).upkeep := by
      rw [upkeep_record _ .cancelRequested rfl rfl]
      exact .single (.cancelled hcancelled)
    cases sent with
    | none => exact hrequested
    | some sent =>
      cases sent with
      | true =>
        show Upkeep.Moves t.upkeep (recordExecutionControl _ .cancelSent).upkeep
        rw [upkeep_record _ .cancelSent rfl rfl]
        exact hrequested
      | false =>
        show Upkeep.Moves t.upkeep (recordExecutionControl _ .cancelFailed
          |>.markUnavailableForReplacement).upkeep
        refine Relation.ReflTransGen.trans ?_ (upkeep_markUnavailable _)
        rw [upkeep_record _ .cancelFailed rfl rfl]
        exact hrequested

end ReservationTurn

end Henji
