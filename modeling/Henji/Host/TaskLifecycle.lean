import Henji.Host.TaskFollowUps

/-!
# Runs of the task service

Results:
1. `task_lane_released`: while no write fails, at most one execution is with the host, every
   execution that is over has been removed, and a service at rest is not busy and has no follow-up.
2. `follow_up_lifecycle`: what becomes of a follow-up over a run.
-/

namespace Henji

namespace TaskService

/-- The invariants of the service together. -/
structure Inv (service : TaskService) : Prop where
  lane : service.lane.Ok
  tracking : service.Tracking
  followUps : service.followUpView.Ok

theorem inv_start : start.Inv := ⟨laneOk_start, nofun, followUps_start⟩

variable {service next : TaskService} {events : List TaskEvent}

theorem inv_step (h : service.Inv) {event : TaskEvent} (hstep : service.step event = some next) :
    next.Inv :=
  ⟨laneOk_step h.lane hstep, tracking_step h.tracking h.lane hstep,
    followUps_step h.followUps h.lane hstep⟩

theorem inv_run (hrun : Runs.run step start events = some service) : service.Inv :=
  Runs.run_keeps (fun h hstep => inv_step h hstep) inv_start hrun

/-! ## Writes that do not fail -/

/-- The event is not the failure of `persistCompletion` or `persistFollowUp`. -/
def Persists : TaskEvent → Prop
  | .completionPersisted _ ok | .followUpPersisted ok => ok = true
  | _ => True

/-- `begin` or `settle` threw because of a failed write. -/
def unsaved : RunPhase → Bool
  | .rejectionUnsaved | .startUnsaved | .completionUnsaved | .flushBroken => true
  | _ => false

/-- No write has failed, and nothing was given up because of one. -/
structure Sound (service : TaskService) : Prop where
  written : service.writeFailed = false
  saved : ∀ ref, unsaved (service.runs.read ref).phase = false

theorem sound_setPhase {ref : Nat} {phase : RunPhase} (h : service.Sound)
    (hfailed : next.writeFailed = service.writeFailed) (hruns : next.runs = service.runs)
    (hphase : unsaved phase = false) : (next.setPhase ref phase).Sound := by
  refine ⟨hfailed.trans h.written, fun other => ?_⟩
  simp only [setPhase]
  rw [Heap.read_modify, hruns]
  split
  · exact hphase
  · exact h.saved other

theorem sound_refuse {ref : Nat} (h : service.Sound)
    (hfailed : next.writeFailed = service.writeFailed) (hruns : next.runs = service.runs) : (next.refuse ref).Sound := by
  unfold refuse
  exact sound_setPhase h hfailed hruns rfl

theorem sound_same (h : service.Sound) (hfailed : next.writeFailed = service.writeFailed)
    (hruns : next.runs = service.runs) : next.Sound :=
  ⟨hfailed.trans h.written, fun ref => hruns ▸ h.saved ref⟩

theorem sound_begin (h : service.Sound) (sessionId : String) (text : JsText) (commandId : String)
    (reservation : Option Nat) : (service.begin sessionId text commandId reservation).Sound := by
  refine ⟨h.written, fun ref => ?_⟩
  simp only [begin]
  rw [Heap.read_alloc]
  split
  · rfl
  · exact h.saved ref

theorem writeFailed_discardQueued (service : TaskService) (reason : String) :
    (service.discardQueued reason).writeFailed = service.writeFailed := by
  unfold discardQueued
  split <;> rfl

theorem writeFailed_release (service : TaskService) (record : Nat) :
    (service.release record).writeFailed = service.writeFailed := by
  unfold release
  split <;> rfl

theorem sound_flush (h : service.Sound) {ref write : Nat} {waiting : Nat → RunPhase}
    {done : TaskService} (hflush : service.flush ref write waiting done = some next)
    (hwaiting : ∀ write, unsaved (waiting write) = false) (hdone : done.Sound) : next.Sound := by
  unfold flush at hflush
  split at hflush
  · split at hflush
    · cases hflush
    · split at hflush
      · cases hflush
        exact hdone
      · cases hflush
        exact sound_setPhase h rfl rfl (hwaiting _)
  · rw [h.written] at hflush
    cases hflush

theorem sound_handOff (h : service.Sound) (ref : Nat) (outcome : Completed) (sessionId : String) :
    (service.handOff ref outcome sessionId).Sound := by
  unfold handOff
  split
  · exact sound_setPhase h rfl rfl rfl
  · split
    · exact sound_begin (sound_setPhase h rfl rfl rfl) _ _ _ _
    · exact sound_setPhase h rfl rfl rfl

theorem sound_resume (h : service.Sound) {ref : Nat} {sessionId : String}
    (hstep : service.resume ref sessionId = some next) : next.Sound := by
  unfold resume at hstep
  rw [h.written] at hstep
  cases hphase : (service.runs.read ref).phase with
  | savingRejected write =>
    rw [hphase] at hstep
    dsimp only at hstep
    split at hstep
    · cases hstep
      unfold rejectionSaved
      split
      · exact sound_refuse h (writeFailed_release _ _) (runs_release _)
      · exact sound_refuse h rfl rfl
    · cases hstep
  | savingStarted write =>
    rw [hphase] at hstep
    dsimp only at hstep
    split at hstep
    · cases hstep
      unfold startSaved
      split
      · exact sound_setPhase h (writeFailed_release _ _) (runs_release _) rfl
      · exact sound_setPhase h rfl rfl rfl
    · cases hstep
  | flushing outcome write =>
    rw [hphase] at hstep
    exact sound_flush h hstep (fun _ => rfl) (sound_handOff h ref outcome sessionId)
  | releasing write =>
    rw [hphase] at hstep
    refine sound_flush h hstep (fun _ => rfl) ?_
    unfold released
    exact sound_setPhase h rfl rfl rfl
  | flushingFailed write =>
    rw [hphase] at hstep
    refine sound_flush h hstep (fun _ => rfl) ?_
    unfold releasedFailed
    exact sound_setPhase h rfl rfl rfl
  | handingOff child =>
    rw [hphase] at hstep
    dsimp only at hstep
    split at hstep <;> cases hstep <;> exact sound_setPhase h rfl rfl rfl
  | awaitingChild child =>
    rw [hphase] at hstep
    dsimp only at hstep
    split at hstep <;> cases hstep <;> exact sound_setPhase h rfl rfl rfl
  | admitting | running | persisting | refused | settled | rejectionUnsaved | startUnsaved
  | completionUnsaved | flushBroken =>
    rw [hphase] at hstep
    cases hstep

/-- While writes do not fail nothing is given up. -/
theorem sound_step (h : service.Sound) {event : TaskEvent} (hpersists : Persists event)
    (hstep : service.step event = some next) : next.Sound := by
  cases event with
  | admitTask sessionId text commandId =>
    simp only [step] at hstep
    split at hstep <;> cases hstep
    · exact h
    · exact sound_begin h _ _ _ _
  | steer executionId text commandId =>
    cases hstep
    have hview : (service.steer executionId text commandId).followUpView = service.followUpView :=
      followUpView_steer executionId text commandId
    exact sound_same h (congrArg FollowUpView.writeFailed hview) (congrArg FollowUpView.runs hview)
  | steerEnded call ended =>
    simp only [step] at hstep
    split at hstep <;> cases hstep
    have hview : (service.steerEnded call ended).followUpView = service.followUpView :=
      followUpView_steerEnded call ended
    exact sound_same h (congrArg FollowUpView.writeFailed hview) (congrArg FollowUpView.runs hview)
  | queueFollowUp afterExecutionId text commandId =>
    cases hstep
    refine sound_same h ?_ (congrArg LaneView.runs (lane_queueFollowUp _ _ _))
    unfold queueFollowUp
    split
    · rfl
    · split <;> rfl
  | cancel executionId result =>
    cases hstep
    refine sound_same h ?_ (congrArg LaneView.runs (lane_cancel _ _))
    unfold cancel
    split
    · rfl
    · exact writeFailed_discardQueued { service with cancellationRequested := true } "cancelled"
  | observeSteeringApplied executionId =>
    cases hstep
    have hview : (service.observeSteeringApplied executionId).followUpView = service.followUpView :=
      followUpView_observeSteeringApplied executionId
    exact sound_same h (congrArg FollowUpView.writeFailed hview) (congrArg FollowUpView.runs hview)
  | close =>
    cases hstep
    exact sound_same h rfl rfl
  | hostAdmitted ref hostExecutionId =>
    simp only [step] at hstep
    split at hstep <;> cases hstep
    have hadmitted : TaskService.Sound { service with
        preparing := false
        runs := service.runs.modify ref fun run => { run with admitted := true } } := by
      refine ⟨h.written, fun other => ?_⟩
      dsimp only
      rw [Heap.read_modify]
      split
      · exact h.saved ref
      · exact h.saved other
    unfold admissionAccepted
    dsimp only
    split
    · exact sound_setPhase hadmitted rfl rfl rfl
    · exact sound_setPhase hadmitted rfl rfl rfl
  | hostRefused ref =>
    simp only [step] at hstep
    split at hstep <;> cases hstep
    unfold admissionFailed
    dsimp only
    split
    · exact sound_refuse h rfl rfl
    · split
      · exact sound_refuse h rfl rfl
      · split
        · exact sound_setPhase h rfl rfl rfl
        · exact sound_refuse h rfl rfl
  | hostCompleted ref ended =>
    simp only [step] at hstep
    split at hstep <;> cases hstep
    refine ⟨h.written, fun other => ?_⟩
    simp only [completed]
    rw [Heap.read_modify]
    split
    · rfl
    · exact h.saved other
  | completionPersisted ref ok =>
    obtain rfl : ok = true := hpersists
    simp only [step] at hstep
    split at hstep
    · next ended hphase =>
      rw [if_pos trivial] at hstep
      cases hstep
      cases ended with
      | none =>
        exact sound_setPhase h (writeFailed_discardQueued service.leaveLane "failed")
          (runs_discardQueued service.leaveLane "failed") rfl
      | some outcome => exact sound_setPhase h rfl rfl rfl
    · cases hstep
  | followUpPersisted ok =>
    obtain rfl : ok = true := hpersists
    simp only [step] at hstep
    split at hstep
    · rw [if_pos trivial] at hstep
      cases hstep
      exact sound_same h rfl rfl
    · cases hstep
  | resume ref sessionId => exact sound_resume h hstep

theorem sound_start : start.Sound := ⟨rfl, fun _ => rfl⟩

theorem sound_run (hrun : Runs.run step start events = some service)
    (hpersists : Runs.Throughout step (fun _ event => Persists event) start events) :
    service.Sound :=
  Runs.run_keeps_throughout (fun h hcondition hstep => sound_step h hcondition hstep) sound_start
    hpersists hrun

/-! ## At rest -/

/-- `begin` and `settle` of an execution in this phase are over. -/
def isOver : RunPhase → Bool
  | .refused | .settled | .rejectionUnsaved | .startUnsaved | .completionUnsaved | .flushBroken =>
    true
  | _ => false

/-- No `begin` or `settle` is pending, and no write of a follow-up. -/
def Quiescent (service : TaskService) : Prop :=
  (∀ ref < service.runs.next, isOver (service.runs.read ref).phase = true) ∧
    (service.written = service.writes.length ∨ service.writeFailed = true)

instance (service : TaskService) : Decidable service.Quiescent :=
  inferInstanceAs (Decidable ((∀ ref < service.runs.next, _ = true) ∧ _))

theorem over_of_quiescent (h : service.Inv) (hrest : service.Quiescent) (ref : Nat) :
    isOver (service.runs.read ref).phase = true := by
  rcases Nat.lt_or_ge ref service.runs.next with hbegun | hunbegun
  · exact hrest.1 ref hbegun
  · rw [show service.runs.read ref = unbegun from h.lane.unbegun ref hunbegun]
    rfl

theorem over_cases {phase : RunPhase} (hsaved : unsaved phase = false) (hover : isOver phase = true) :
    phase = .refused ∨ phase = .settled := by
  cases phase <;> simp_all [unsaved, isOver]

/-- Where no write has failed, `begin` and `settle` are over by throwing before the admission or by
settling. -/
theorem over_sound (h : service.Sound) {ref : Nat}
    (hover : isOver (service.runs.read ref).phase = true) :
    (service.runs.read ref).phase = .refused ∨ (service.runs.read ref).phase = .settled :=
  over_cases (h.saved ref) hover

theorem idle_of_quiescent (h : service.Inv) (hsound : service.Sound) (hrest : service.Quiescent) :
    service.isBusy = false := by
  obtain ⟨owner, -, hfields⟩ := h.lane.owned
  have hfree : (service.lane.runs.read owner).phase.use = .free := by
    rcases over_sound hsound (over_of_quiescent h hrest owner) with hphase | hphase <;>
      exact congrArg RunPhase.use hphase
  unfold LaneView.Fields at hfields
  rw [hfree] at hfields
  have hactive : service.active = none := hfields.1
  have hpreparing : service.preparing = false := hfields.2.1
  have hhandoff : service.handoffPending = false := hfields.2.2
  simp [isBusy, hactive, hpreparing, hhandoff]

/-- At rest no follow-up is queued. -/
theorem none_queued_of_quiescent (h : service.Inv) (hsound : service.Sound)
    (hrest : service.Quiescent) : service.queued = none := by
  cases hqueued : service.queued with
  | none => rfl
  | some record =>
    exfalso
    rcases h.followUps.followed record (h.followUps.queued record hqueued) with hfree | ⟨ref, hheld⟩
    · rcases hfree.waiting with ⟨-, -, hmay⟩ | ⟨hnot, -⟩
      · have hparent := over_sound hsound
          (over_of_quiescent h hrest (service.followUps.read record).afterExecutionId)
        rcases hparent with hphase | hphase <;>
          exact Bool.noConfusion (hmay.symm.trans (congrArg RunPhase.mayHandOff hphase))
      · exact hnot hqueued
    · have hstage := hheld.stage
      rcases over_sound hsound (over_of_quiescent h hrest ref) with hphase | hphase <;>
        rw [show (service.followUpView.runs.read ref).phase = _ from hphase] at hstage <;>
        exact hstage.2 hqueued

/-- While a follow-up is queued and an execution is active, the follow-up is for that execution,
unless the `begin` of the follow-up itself is under way. -/
theorem queued_for_active (h : service.Inv) (hsound : service.Sound) {record : Nat} {lane : TaskLane}
    (hqueued : service.queued = some record) (hactive : service.active = some lane)
    (hother : (service.followUps.read record).afterExecutionId ≠ lane.executionId) :
    ∃ ref, (service.runs.read ref).reservation = some record ∧
      ((service.runs.read ref).phase = .admitting ∨
        (service.runs.read ref).phase.savedBy.isSome) := by
  rcases h.followUps.followed record (h.followUps.queued record hqueued) with hfree | ⟨ref, hheld⟩
  · exfalso
    rcases hfree.waiting with ⟨-, -, hmay⟩ | ⟨hnot, -⟩
    · -- The record waits for the owner of the lane, whose execution is the active one.
      have huse := RunPhase.use_of_mayHandOff hmay
      have hbegun := LaneView.Ok.begun h.lane fun heq => huse (congrArg RunPhase.use heq)
      have hid := h.lane.ids _ hbegun
      have hfields := (LaneView.Ok.owner h.lane huse).2
      unfold LaneView.Fields at hfields
      have hlane : ∀ owner : TaskLane, service.lane.active = some owner → owner = lane :=
        fun owner howner => Option.some.inj (howner.symm.trans hactive)
      have hnone : service.lane.active ≠ none := fun hnone => by
        rw [show service.lane.active = some lane from hactive] at hnone
        cases hnone
      split at hfields
      · exact hnone hfields.1
      · exact hother (hid.symm.trans (congrArg TaskLane.executionId (hlane _ hfields.1)))
      · exact hother (hid.symm.trans (congrArg TaskLane.executionId (hlane _ hfields.1)))
      · exact hnone hfields.1
    · exact hnot hqueued
  · refine ⟨ref, hheld.reserves, ?_⟩
    have hstage := hheld.stage
    have hsaved := hsound.saved ref
    have hphases : (service.followUpView.runs.read ref).phase = (service.runs.read ref).phase := rfl
    rw [hphases] at hstage
    cases hphase : (service.runs.read ref).phase <;> rw [hphase] at hstage hsaved <;>
      first
        | exact .inl rfl
        | exact .inr rfl
        | exact absurd hqueued hstage.2
        | cases hsaved

/-- **The task lane.** In a run in which no write fails at most one execution is with the host, an
execution that is over has been removed, the lane is free at rest, and a queued follow-up keeps the
active execution from a follow-up of its own only while its own `begin` is under way. -/
theorem task_lane_released (hrun : Runs.run step start events = some service)
    (hpersists : Runs.Throughout step (fun _ event => Persists event) start events) :
    (∀ first second, AtHost (service.runs.read first) → AtHost (service.runs.read second) →
      first = second) ∧
    (∀ ref, isOver (service.runs.read ref).phase = true → tracked service.published ref = false) ∧
    (service.Quiescent → service.isBusy = false ∧ service.queued = none) ∧
    (∀ record lane, service.queued = some record → service.active = some lane →
      (service.followUps.read record).afterExecutionId ≠ lane.executionId →
      ∃ ref, (service.runs.read ref).reservation = some record ∧
        ((service.runs.read ref).phase = .admitting ∨
          (service.runs.read ref).phase.savedBy.isSome)) := by
  have hinv := inv_run hrun
  have hsound := sound_run hrun hpersists
  refine ⟨fun first second => one_at_host hinv.lane, fun ref hover => ?_, fun hrest => ?_, ?_⟩
  · by_contra htracked
    have htracks := hinv.tracking ref (eq_true_of_ne_false htracked)
    rcases over_sound hsound hover with hphase | hphase <;> rw [hphase] at htracks <;> cases htracks
  · exact ⟨idle_of_quiescent hinv hsound hrest, none_queued_of_quiescent hinv hsound hrest⟩
  · intro record lane hqueued hactive hother
    exact queued_for_active hinv hsound hqueued hactive hother

/-- A run with a follow-up that starts when its parent has settled. -/
def followUpRun : List TaskEvent :=
  [.admitTask "s" [1] "c1", .hostAdmitted 0 0, .queueFollowUp 0 [2] "c2", .followUpPersisted true,
    .hostCompleted 0 (some ⟨true, .final⟩), .completionPersisted 0 true, .resume 0 "s",
    .hostAdmitted 1 1, .followUpPersisted true, .resume 1 "s",
    .hostCompleted 1 (some ⟨true, .final⟩), .completionPersisted 1 true, .resume 1 "s",
    .resume 1 "s", .resume 0 "s", .resume 0 "s"]

theorem followUpRun_persists :
    Runs.Throughout step (fun _ event => Persists event) start followUpRun :=
  Runs.throughout_of_forall (by simp [followUpRun, Persists])

/-- After that run the service is at rest. -/
theorem task_lane_released_after_follow_up : ∃ service,
    Runs.run step start followUpRun = some service ∧ service.isBusy = false ∧
      service.queued = none := by
  obtain ⟨service, hrun, hrest⟩ : ∃ service, Runs.run step start followUpRun = some service ∧
      service.Quiescent := Runs.exists_run (by decide)
  exact ⟨service, hrun, (task_lane_released hrun followUpRun_persists).2.2.1 hrest⟩

/-- A completion whose write fails leaves the service at rest and yet busy for ever, and the
execution tracked. -/
theorem wedged_by_unsaved_completion : ∃ service,
    Runs.run step start [.admitTask "s" [1] "c1", .hostAdmitted 0 0,
      .hostCompleted 0 (some ⟨true, .final⟩), .completionPersisted 0 false] = some service ∧
    service.Quiescent ∧ service.isBusy = true ∧ tracked service.published 0 = true :=
  Runs.exists_run (by decide)

/-! ## The life of a follow-up -/

theorem status_discarded (service : TaskService) {record : Nat} (reason : String)
    (hstatus : (service.followUps.read record).status ≠ .queued) :
    ((service.discardQueued reason).followUps.read record).status ≠ .queued := by
  unfold discardQueued
  split
  · simp only [discard, saveFollowUp]
    rw [Heap.read_modify]
    split
    · simp
    · exact hstatus
  · exact hstatus

/-- A record that has left `queued` does not return to it. -/
theorem status_left (h : service.Inv) {event : TaskEvent} {record : Nat}
    (hrecord : record < service.followUps.next)
    (hstatus : (service.followUps.read record).status ≠ .queued)
    (hstep : service.step event = some next) :
    (next.followUps.read record).status ≠ .queued := by
  by_cases hlate : service.Late event
  · -- A late event discards the record at most.
    cases event with
    | cancel executionId result =>
      cases hstep
      unfold cancel
      rw [if_neg (by simp [hlate.1, hlate.2.1])]
      exact status_discarded { service with cancellationRequested := true } _ hstatus
    | completionPersisted ref ok =>
      obtain ⟨rfl, hphase, -⟩ := hlate
      simp only [step, hphase] at hstep
      cases hstep
      exact status_discarded service.leaveLane _ hstatus
    | admitTask | steer | steerEnded | queueFollowUp | observeSteeringApplied | close | hostAdmitted
    | hostRefused | hostCompleted | followUpPersisted | resume => exact hlate.elim
  · rw [status_step h.followUps h.lane hrecord hstatus hlate hstep]
    exact hstatus

theorem next_discardQueued (service : TaskService) (reason : String) :
    (service.discardQueued reason).followUps.next = service.followUps.next := by
  unfold discardQueued
  split <;> rfl

theorem next_release (service : TaskService) (record : Nat) :
    (service.release record).followUps.next = service.followUps.next := by
  unfold release
  split <;> rfl

theorem next_flush {ref write : Nat} {waiting : Nat → RunPhase} {done : TaskService}
    (hflush : service.flush ref write waiting done = some next)
    (hdone : done.followUps.next = service.followUps.next) :
    next.followUps.next = service.followUps.next := by
  unfold flush at hflush
  split at hflush
  · split at hflush
    · cases hflush
    · split at hflush <;> cases hflush
      · exact hdone
      · rfl
  · split at hflush <;> cases hflush
    rfl

theorem next_resume {ref : Nat} {sessionId : String}
    (hstep : service.resume ref sessionId = some next) :
    next.followUps.next = service.followUps.next := by
  unfold resume at hstep
  split at hstep
  · split at hstep
    · cases hstep
      unfold rejectionSaved
      split
      · exact next_release service _
      · rfl
    · split at hstep <;> cases hstep
      rfl
  · split at hstep
    · cases hstep
      unfold startSaved
      split
      · exact next_release service _
      · rfl
    · split at hstep <;> cases hstep
      rfl
  · refine next_flush hstep ?_
    unfold handOff
    split
    · rfl
    · split <;> rfl
  · exact next_flush hstep rfl
  · exact next_flush hstep rfl
  · split at hstep <;> cases hstep <;> rfl
  · split at hstep <;> cases hstep <;> rfl
  · cases hstep

/-- Records are never taken back. -/
theorem next_step {event : TaskEvent} (hstep : service.step event = some next) :
    service.followUps.next ≤ next.followUps.next := by
  cases event with
  | queueFollowUp afterExecutionId text commandId =>
    cases hstep
    unfold queueFollowUp
    split
    · exact Nat.le_refl _
    · split
      · exact Nat.le_refl _
      · exact Nat.le_succ _
  | steer executionId text commandId =>
    cases hstep
    have hview : (service.steer executionId text commandId).followUps = service.followUps :=
      congrArg FollowUpView.followUps (followUpView_steer _ _ _)
    exact Nat.le_of_eq (congrArg Heap.next hview.symm)
  | steerEnded call ended =>
    simp only [step] at hstep
    split at hstep <;> cases hstep
    have hview : (service.steerEnded call ended).followUps = service.followUps :=
      congrArg FollowUpView.followUps (followUpView_steerEnded _ _)
    exact Nat.le_of_eq (congrArg Heap.next hview.symm)
  | observeSteeringApplied executionId =>
    cases hstep
    have hview : (service.observeSteeringApplied executionId).followUps = service.followUps :=
      congrArg FollowUpView.followUps (followUpView_observeSteeringApplied _)
    exact Nat.le_of_eq (congrArg Heap.next hview.symm)
  | cancel executionId result =>
    cases hstep
    unfold cancel
    split
    · exact Nat.le_refl _
    · exact Nat.le_of_eq
        (next_discardQueued { service with cancellationRequested := true } "cancelled").symm
  | close =>
    cases hstep
    exact Nat.le_refl _
  | admitTask sessionId text commandId =>
    simp only [step] at hstep
    split at hstep <;> cases hstep <;> exact Nat.le_refl _
  | hostAdmitted ref hostExecutionId =>
    simp only [step] at hstep
    split at hstep <;> cases hstep
    unfold admissionAccepted
    dsimp only
    split <;> exact Nat.le_refl _
  | hostRefused ref =>
    simp only [step] at hstep
    split at hstep <;> cases hstep
    unfold admissionFailed
    dsimp only
    split
    · exact Nat.le_refl _
    · split
      · exact Nat.le_refl _
      · split <;> exact Nat.le_refl _
  | hostCompleted ref ended =>
    simp only [step] at hstep
    split at hstep <;> cases hstep
    exact Nat.le_refl _
  | completionPersisted ref ok =>
    simp only [step] at hstep
    split at hstep
    · next ended _ =>
      split at hstep <;> cases hstep
      · cases ended with
        | none => exact Nat.le_of_eq (next_discardQueued service.leaveLane "failed").symm
        | some outcome => exact Nat.le_refl _
      · exact Nat.le_refl _
    · cases hstep
  | followUpPersisted ok =>
    simp only [step] at hstep
    split at hstep
    · split at hstep <;> cases hstep <;> exact Nat.le_refl _
    · cases hstep
  | resume ref sessionId => exact Nat.le_of_eq (next_resume hstep).symm

/-- A record that has left `queued` stays left, however the run goes on. -/
theorem left_run (h : service.Inv) {record : Nat} (hrecord : record < service.followUps.next)
    (hstatus : (service.followUps.read record).status ≠ .queued)
    (hrun : Runs.run step service events = some next) :
    (next.followUps.read record).status ≠ .queued := by
  have hkept : next.Inv ∧ record < next.followUps.next ∧
      (next.followUps.read record).status ≠ .queued :=
    Runs.run_keeps (P := fun s : TaskService => s.Inv ∧ record < s.followUps.next ∧
        (s.followUps.read record).status ≠ .queued)
      (fun hs hstep => ⟨inv_step hs.1 hstep, Nat.lt_of_lt_of_le hs.2.1 (next_step hstep),
        status_left hs.1 hs.2.1 hs.2.2 hstep⟩)
      ⟨h, hrecord, hstatus⟩ hrun
  exact hkept.2.2

/-- A record that has left `queued` keeps its status while no event is late. -/
theorem status_run (h : service.Inv) {record : Nat} (hrecord : record < service.followUps.next)
    (hstatus : (service.followUps.read record).status ≠ .queued)
    (hlate : Runs.Throughout step (fun s event => ¬ s.Late event) service events)
    (hrun : Runs.run step service events = some next) :
    (next.followUps.read record).status = (service.followUps.read record).status := by
  have hkept : next.Inv ∧ record < next.followUps.next ∧
      (next.followUps.read record).status = (service.followUps.read record).status :=
    Runs.run_keeps_throughout (P := fun s : TaskService => s.Inv ∧ record < s.followUps.next ∧
        (s.followUps.read record).status = (service.followUps.read record).status)
      (fun hs hnot hstep => ⟨inv_step hs.1 hstep, Nat.lt_of_lt_of_le hs.2.1 (next_step hstep),
        (status_step hs.1.followUps hs.1.lane hs.2.1 (hs.2.2 ▸ hstatus) hnot hstep).trans hs.2.2⟩)
      ⟨h, hrecord, rfl⟩ hlate hrun
  exact hkept.2.2

/-- At rest every record has left `queued`. -/
theorem left_of_quiescent (h : service.Inv) (hsound : service.Sound) (hrest : service.Quiescent)
    {record : Nat} (hrecord : record < service.followUps.next) :
    (service.followUps.read record).status ≠ .queued := by
  rcases h.followUps.followed record hrecord with hfree | ⟨ref, hheld⟩
  · rcases hfree.waiting with ⟨hqueued, -⟩ | ⟨-, hdiscarded⟩
    · have hnone := none_queued_of_quiescent h hsound hrest
      exact absurd (hnone.symm.trans hqueued) nofun
    · rw [show (service.followUps.read record).status = _ from hdiscarded]
      decide
  · have hstage := hheld.stage
    rcases over_sound hsound (over_of_quiescent h hrest ref) with hphase | hphase
    · rw [show (service.followUpView.runs.read ref).phase = _ from hphase] at hstage
      intro hqueued
      rcases hstage.1.2 with hs | hs <;> exact absurd (hqueued.symm.trans hs) (by decide)
    · rw [show (service.followUpView.runs.read ref).phase = _ from hphase] at hstage
      intro hqueued
      rcases hstage.1.2 with hs | hs
      · exact absurd (hqueued.symm.trans hs) (by decide)
      · exact absurd (hqueued.symm.trans hs.1) (by decide)

/-- What a record says of its execution: the host admitted one, exactly when the record names it, for
the text of the record and after an execution that ended well. -/
structure Settled (service : TaskService) (record : Nat) : Prop where
  known : (∃ ref, (service.runs.read ref).reservation = some record ∧
      (service.runs.read ref).admitted = true) ↔
    (service.followUps.read record).executionId ≠ none
  once : ∀ first second, (service.runs.read first).reservation = some record →
    (service.runs.read second).reservation = some record → first = second
  after : ∀ ref, (service.runs.read ref).reservation = some record →
    (service.runs.read ref).lane.text = (service.followUps.read record).text ∧
    ∃ outcome, (service.runs.read (service.followUps.read record).afterExecutionId).completion =
      some (some outcome) ∧ outcome.startsFollowUp = true
  started : (service.followUps.read record).status = .started →
    (service.followUps.read record).executionId ≠ none
  admitted : (service.followUps.read record).executionId ≠ none →
    (service.followUps.read record).status = .started ∨
      ((service.followUps.read record).status = .discarded ∧
        (service.followUps.read record).reason = some "cancelled")

theorem settled_of_unreserved {record : Nat} (h : service.followUpView.Unreserved record) :
    service.Settled record := by
  have hnone : (service.followUps.read record).executionId = none := h.executionId
  refine ⟨⟨?_, fun hid => absurd hnone hid⟩, ?_, ?_, ?_, fun hid => absurd hnone hid⟩
  · rintro ⟨ref, hreserves, -⟩
    exact absurd hreserves (h.free ref)
  · intro first _ hfirst
    exact absurd hfirst (h.free first)
  · intro ref hreserves
    exact absurd hreserves (h.free ref)
  · intro hstarted
    rcases h.waiting with ⟨-, hstatus, -⟩ | ⟨-, hstatus⟩ <;>
      exact absurd (hstarted.symm.trans hstatus) (by decide)

/-- The host has admitted an execution exactly when its `begin` is past `host.admit`. -/
theorem admitted_of_hostPart {run : TaskRun} (h : RunPhase.HostPart run) :
    run.admitted = true ↔ run.phase.beginStage = .starting ∨ run.phase.beginStage = .begun := by
  unfold RunPhase.HostPart at h
  cases hphase : run.phase <;> rw [hphase] at h <;> simp [h.1, RunPhase.beginStage]

/-- At each stage the record names its execution exactly when the host has admitted it. -/
theorem known_at_stage {view : FollowUpView} {record : Nat} {stage : BeginStage}
    (h : view.AtStage record stage) :
    ((stage = .starting ∨ stage = .begun) ↔ (view.followUps.read record).executionId ≠ none) ∧
    ((view.followUps.read record).status = .started →
      (view.followUps.read record).executionId ≠ none) ∧
    ((view.followUps.read record).executionId ≠ none →
      FollowUpView.StartKnown (view.followUps.read record)) := by
  cases stage with
  | admitting =>
    refine ⟨by simp [h.1], fun hstarted => ?_, fun hid => absurd h.1 hid⟩
    rcases h.2 with hstatus | hstatus
    · exact absurd (hstarted.symm.trans hstatus.2) (by decide)
    · exact absurd (hstarted.symm.trans hstatus.2.1) (by decide)
  | rejecting =>
    refine ⟨by simp [h.1], fun hstarted => ?_, fun hid => absurd h.1 hid⟩
    rcases h.2 with hstatus | hstatus <;> exact absurd (hstarted.symm.trans hstatus) (by decide)
  | refused =>
    refine ⟨by simp [h.1.1], fun hstarted => ?_, fun hid => absurd h.1.1 hid⟩
    rcases h.1.2 with hstatus | hstatus <;> exact absurd (hstarted.symm.trans hstatus) (by decide)
  | starting => exact ⟨iff_of_true (.inl rfl) h.1, fun _ => h.1, fun _ => h⟩
  | begun => exact ⟨iff_of_true (.inr rfl) h.1.1, fun _ => h.1.1, fun _ => h.1⟩

theorem settled_of_reserved (hlane : service.lane.Ok) {ref record : Nat}
    (h : service.followUpView.Reserved ref record) : service.Settled record := by
  have hbegun : ref < service.runs.next := by
    by_contra hge
    have hreserves := h.reserves
    unfold FollowUpView.Reserves at hreserves
    rw [show service.followUpView.runs.read ref = unbegun from
      hlane.unbegun ref (Nat.le_of_not_lt hge)] at hreserves
    cases hreserves
  have hhost := admitted_of_hostPart (hlane.hostPart ref hbegun)
  obtain ⟨hknown, hstarted, hadmitted⟩ := known_at_stage h.stage
  refine ⟨⟨?_, fun hid => ⟨ref, h.reserves, hhost.mpr (hknown.mpr hid)⟩⟩, ?_, ?_, hstarted,
    fun hid => (hadmitted hid).2⟩
  · rintro ⟨other, hreserves, hother⟩
    obtain rfl := h.unique other hreserves
    exact hknown.mp (hhost.mp hother)
  · intro first second hfirst hsecond
    exact (h.unique first hfirst).trans (h.unique second hsecond).symm
  · intro other hreserves
    obtain rfl := h.unique other hreserves
    exact ⟨h.text, h.parent⟩

/-- **The life of a follow-up.** In every run the host is given the text of a record at most once,
after an execution that ended well, and then the record names the execution and is started, unless
it was cancelled about its start. The last save of the record is what it is. A record that has left
`queued` stays left, with its status where nothing is late; and when no write has failed every
record has left `queued` at rest. -/
theorem follow_up_lifecycle (hrun : Runs.run step start events = some service) {record : Nat}
    (hrecord : record < service.followUps.next) :
    service.Settled record ∧
    FollowUpView.lastSaved service.writes record = some (service.followUps.read record) ∧
    (∀ more next, Runs.run step service more = some next →
      (service.followUps.read record).status ≠ .queued →
      (next.followUps.read record).status ≠ .queued ∧
      (Runs.Throughout step (fun s event => ¬ s.Late event) service more →
        (next.followUps.read record).status = (service.followUps.read record).status)) ∧
    (Runs.Throughout step (fun _ event => Persists event) start events → service.Quiescent →
      (service.followUps.read record).status ≠ .queued) := by
  have hinv := inv_run hrun
  refine ⟨?_, hinv.followUps.saved record hrecord, ?_, ?_⟩
  · rcases hinv.followUps.followed record hrecord with hfree | ⟨ref, hheld⟩
    · exact settled_of_unreserved hfree
    · exact settled_of_reserved hinv.lane hheld
  · intro more next hmore hstatus
    exact ⟨left_run hinv hrecord hstatus hmore,
      fun hlate => status_run hinv hrecord hstatus hlate hmore⟩
  · intro hpersists hrest
    exact left_of_quiescent hinv (sound_run hrun hpersists) hrest hrecord

/-- The life of the follow-up of `followUpRun`. -/
theorem follow_up_lifecycle_started : ∃ service,
    Runs.run step start followUpRun = some service ∧ service.Settled 0 ∧
      (service.followUps.read 0).status = .started := by
  obtain ⟨service, hrun, hnext, hstatus⟩ : ∃ service,
      Runs.run step start followUpRun = some service ∧
        0 < service.followUps.next ∧ (service.followUps.read 0).status = .started :=
    Runs.exists_run (by decide)
  exact ⟨service, hrun, (follow_up_lifecycle hrun hnext).1, hstatus⟩

/-- A follow-up that is cancelled while the host admits it is discarded, and yet admitted. -/
theorem discarded_yet_admitted : ∃ service,
    Runs.run step start [.admitTask "s" [1] "c1", .hostAdmitted 0 0, .queueFollowUp 0 [2] "c2",
      .followUpPersisted true, .hostCompleted 0 (some ⟨true, .final⟩), .completionPersisted 0 true,
      .resume 0 "s", .cancel 1 .requested, .hostAdmitted 1 1] = some service ∧
    (service.followUps.read 0).status = .discarded ∧ (service.runs.read 1).reservation = some 0 ∧
    (service.runs.read 1).admitted = true :=
  Runs.exists_run (by decide)

end TaskService

end Henji
