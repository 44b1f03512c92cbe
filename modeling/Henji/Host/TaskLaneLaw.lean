import Henji.Host.TaskService

/-!
# The lane of the task service

`isBusy` is a disjunction of three fields that `begin` and `settle` set and clear at different
awaits. What the fields are at a time follows from one execution, the owner of the lane, and the
await at which its `begin` or `settle` stands.

Results:
1. `laneOk_step`: every event keeps the fields in step with the owner.
2. `one_at_host`: at most one execution is being admitted or has not completed.
3. `tracking_step`: an execution is tracked only while its `begin` or `settle` is under way, or
   after a failed write.
-/

namespace Henji

/-- What an execution in a phase needs the fields of the lane for. -/
inductive LaneUse where
  | free
  | preparing
  | active
  | handoff
deriving DecidableEq, Repr

namespace RunPhase

def use : RunPhase → LaneUse
  | .admitting => .preparing
  | .savingStarted _ | .running | .persisting _ | .startUnsaved | .completionUnsaved => .active
  | .flushing _ _ | .releasing _ | .flushingFailed _ | .flushBroken => .handoff
  | .savingRejected _ | .handingOff _ | .awaitingChild _ | .refused | .settled
  | .rejectionUnsaved => .free

/-- What the host has done with an execution in a phase. -/
def HostPart (run : TaskRun) : Prop :=
  match run.phase with
  | .admitting | .savingRejected _ | .rejectionUnsaved | .refused =>
    run.admitted = false ∧ run.completion = none
  | .savingStarted _ | .startUnsaved =>
    run.admitted = true ∧ run.completion = none ∧ run.reservation.isSome
  | .running => run.admitted = true ∧ run.completion = none
  | .persisting ended => run.admitted = true ∧ run.completion = some ended
  | .flushing outcome _ => run.admitted = true ∧ run.completion = some (some outcome)
  | .releasing _ | .flushingFailed _ | .completionUnsaved | .flushBroken | .handingOff _
  | .awaitingChild _ | .settled => run.admitted = true ∧ run.completion.isSome

end RunPhase

/-- The fields that the lane is about. -/
structure LaneView where
  active : Option TaskLane
  preparing : Bool
  handoffPending : Bool
  runs : Heap TaskRun

/-- The cell of an execution that was never begun. -/
def unbegun : TaskRun := ⟨⟨0, "", [], ""⟩, none, false, none, .settled⟩

namespace LaneView

/-- The fields as the owner of the lane needs them. -/
def Fields (view : LaneView) (owner : TaskRun) : Prop :=
  match owner.phase.use with
  | .free => view.active = none ∧ view.preparing = false ∧ view.handoffPending = false
  | .preparing =>
    view.active = some owner.lane ∧ view.preparing = true ∧ view.handoffPending = false
  | .active =>
    view.active = some owner.lane ∧ view.preparing = false ∧ view.handoffPending = false
  | .handoff => view.active = none ∧ view.preparing = false ∧ view.handoffPending = true

structure Ok (view : LaneView) : Prop where
  /-- One execution owns the lane, and the fields are as it needs them. -/
  owned : ∃ owner, (∀ ref, ref ≠ owner → (view.runs.read ref).phase.use = .free) ∧
    view.Fields (view.runs.read owner)
  ids : ∀ ref < view.runs.next, (view.runs.read ref).lane.executionId = ref
  hostPart : ∀ ref < view.runs.next, RunPhase.HostPart (view.runs.read ref)
  unbegun : ∀ ref, view.runs.next ≤ ref → view.runs.read ref = unbegun

variable {view : LaneView} {ref : Nat}

/-- A phase other than that of an unbegun execution shows that the execution was begun. -/
theorem Ok.begun (h : view.Ok) (hphase : (view.runs.read ref).phase ≠ .settled) :
    ref < view.runs.next := by
  by_contra hge
  exact hphase (by rw [h.unbegun ref (Nat.le_of_not_lt hge)]; rfl)

/-- An execution that uses the lane owns it. -/
theorem Ok.owner (h : view.Ok) (huse : (view.runs.read ref).phase.use ≠ .free) :
    (∀ other, other ≠ ref → (view.runs.read other).phase.use = .free) ∧
      view.Fields (view.runs.read ref) := by
  obtain ⟨owner, hothers, hfields⟩ := h.owned
  have heq : ref = owner := by
    by_contra hne
    exact huse (hothers ref hne)
  subst heq
  exact ⟨hothers, hfields⟩

/-- Nothing uses a lane whose fields are clear. -/
theorem Ok.free (h : view.Ok)
    (hclear : view.active = none ∧ view.preparing = false ∧ view.handoffPending = false)
    (ref : Nat) : (view.runs.read ref).phase.use = .free := by
  by_contra huse
  have hfields := (h.owner huse).2
  obtain ⟨h1, h2, h3⟩ := hclear
  unfold Fields at hfields
  cases hu : (view.runs.read ref).phase.use <;> simp_all

/-- An execution moves to another phase: the owner with the fields that it then needs, another one
without a need for the lane. -/
theorem ok_move (h : view.Ok) {active : Option TaskLane} {preparing handoffPending : Bool}
    {run : TaskRun} (hbegun : ref < view.runs.next) (hlane : run.lane = (view.runs.read ref).lane)
    (hpart : RunPhase.HostPart run)
    (hmove : ((view.runs.read ref).phase.use ≠ .free ∧
        Fields ⟨active, preparing, handoffPending, view.runs⟩ run) ∨
      ((view.runs.read ref).phase.use = .free ∧ run.phase.use = .free ∧ active = view.active ∧
        preparing = view.preparing ∧ handoffPending = view.handoffPending)) :
    Ok ⟨active, preparing, handoffPending, view.runs.write ref run⟩ := by
  refine ⟨?_, fun other ho => ?_, fun other ho => ?_, fun other ho => ?_⟩
  · rcases hmove with ⟨huse, hfields⟩ | ⟨huse, hfree, rfl, rfl, rfl⟩
    · refine ⟨ref, fun other hne => ?_, ?_⟩
      · dsimp only
        rw [Heap.read_write_ne _ _ hne]
        exact (h.owner huse).1 other hne
      · dsimp only
        rw [Heap.read_write_self]
        exact hfields
    · obtain ⟨owner, hothers, hfields⟩ := h.owned
      refine ⟨owner, fun other hne => ?_, ?_⟩
      · dsimp only
        rw [Heap.read_write]
        split
        · exact hfree
        · exact hothers other hne
      · dsimp only
        rw [Heap.read_write]
        split
        · next heq =>
          unfold Fields at hfields ⊢
          rw [hfree]
          rw [heq, huse] at hfields
          exact hfields
        · exact hfields
  · dsimp only
    rw [Heap.read_write]
    split
    · next heq => rw [hlane, heq]; exact h.ids ref hbegun
    · exact h.ids other ho
  · dsimp only
    rw [Heap.read_write]
    split
    · exact hpart
    · exact h.hostPart other ho
  · have hne : other ≠ ref := fun heq => absurd hbegun (Nat.not_lt.mpr (heq ▸ ho))
    dsimp only
    rw [Heap.read_write_ne _ _ hne]
    exact h.unbegun other ho

/-- A new execution takes a lane that nothing uses. -/
theorem ok_begin (h : view.Ok) (hfree : ∀ ref, (view.runs.read ref).phase.use = .free)
    (run : TaskRun) (hid : run.lane.executionId = view.runs.next) (hphase : run.phase = .admitting)
    (hhost : run.admitted = false ∧ run.completion = none) :
    Ok ⟨some run.lane, true, false, (view.runs.alloc run).2⟩ := by
  refine ⟨⟨view.runs.next, fun other hne => ?_, ?_⟩, fun other ho => ?_, fun other ho => ?_,
    fun other ho => ?_⟩
  · dsimp only
    rw [Heap.read_alloc, if_neg hne]
    exact hfree other
  · dsimp only
    rw [Heap.read_alloc, if_pos rfl]
    unfold Fields
    rw [hphase]
    exact ⟨rfl, rfl, rfl⟩
  · dsimp only
    rw [Heap.read_alloc]
    split
    · next heq => rw [hid, heq]
    · next hne =>
      have ho' : other < view.runs.next + 1 := ho
      exact h.ids other (by omega)
  · dsimp only
    rw [Heap.read_alloc]
    split
    · unfold RunPhase.HostPart
      rw [hphase]
      exact hhost
    · next hne =>
      have ho' : other < view.runs.next + 1 := ho
      exact h.hostPart other (by omega)
  · have ho' : view.runs.next + 1 ≤ other := ho
    dsimp only
    rw [Heap.read_alloc, if_neg (by omega)]
    exact h.unbegun other (by omega)

end LaneView

namespace TaskService

def lane (service : TaskService) : LaneView :=
  ⟨service.active, service.preparing, service.handoffPending, service.runs⟩

variable {service next : TaskService} {ref : Nat}

@[simp] theorem lane_saveFollowUp (record : Nat) :
    (service.saveFollowUp record).lane = service.lane := rfl

@[simp] theorem lane_discard (record : Nat) (reason : String) :
    (service.discard record reason).lane = service.lane := rfl

@[simp] theorem lane_discardQueued (reason : String) :
    (service.discardQueued reason).lane = service.lane := by
  unfold discardQueued
  split <;> rfl

@[simp] theorem lane_release (record : Nat) : (service.release record).lane = service.lane := by
  unfold release
  split <;> rfl

@[simp] theorem lane_publish (change : TrackingChange) :
    (service.publish change).lane = service.lane := rfl

@[simp] theorem lane_refuse (ref : Nat) :
    (service.refuse ref).lane = (service.setPhase ref .refused).lane := rfl

/-- A phase change of a suspended call, after changes that do not touch the lane. -/
theorem laneOk_setPhase (h : service.lane.Ok) (hsame : next.lane = service.lane) {phase : RunPhase}
    (hbegun : ref < service.runs.next)
    (hpart : RunPhase.HostPart { service.runs.read ref with phase })
    (huse : phase.use = (service.runs.read ref).phase.use) :
    (next.setPhase ref phase).lane.Ok := by
  have hlane : (next.setPhase ref phase).lane = ⟨service.active, service.preparing,
      service.handoffPending, service.runs.write ref { service.runs.read ref with phase }⟩ := by
    show LaneView.mk next.lane.active next.lane.preparing next.lane.handoffPending
      (next.lane.runs.modify ref fun run => { run with phase }) = _
    rw [hsame]
    rfl
  rw [hlane]
  refine LaneView.ok_move h hbegun rfl hpart ?_
  by_cases hfree : (service.runs.read ref).phase.use = .free
  · exact .inr ⟨hfree, huse.trans hfree, rfl, rfl, rfl⟩
  · refine .inl ⟨hfree, ?_⟩
    have hfields := (LaneView.Ok.owner h hfree).2
    unfold LaneView.Fields at hfields ⊢
    rw [show RunPhase.use _ = _ from huse]
    exact hfields

/-- `begin` in a service whose lane nothing uses. -/
theorem laneOk_begin (h : service.lane.Ok)
    (hfree : ∀ ref, (service.runs.read ref).phase.use = .free) (sessionId : String) (text : JsText)
    (commandId : String) (reservation : Option Nat) :
    (service.begin sessionId text commandId reservation).lane.Ok :=
  LaneView.ok_begin h hfree ⟨⟨service.runs.next, commandId, text, sessionId⟩, reservation, false,
    none, .admitting⟩ rfl rfl ⟨rfl, rfl⟩

theorem free_of_not_busy (h : service.lane.Ok) (hidle : service.isBusy = false) (ref : Nat) :
    (service.runs.read ref).phase.use = .free := by
  simp only [isBusy, Bool.or_eq_false_iff, Option.isSome_eq_false_iff, Option.isNone_iff_eq_none]
    at hidle
  exact LaneView.Ok.free h ⟨hidle.2, hidle.1.1, hidle.1.2⟩ ref

theorem begun_of_phase (h : service.lane.Ok) {phase : RunPhase}
    (hphase : (service.runs.read ref).phase = phase) (hne : phase ≠ .settled) :
    ref < service.runs.next :=
  LaneView.Ok.begun h (hphase ▸ hne)

theorem hostPart_of_phase (h : service.lane.Ok) {phase : RunPhase}
    (hphase : (service.runs.read ref).phase = phase) (hne : phase ≠ .settled) :
    RunPhase.HostPart (service.runs.read ref) :=
  h.hostPart ref (begun_of_phase h hphase hne)

/-- What the fields are while an execution uses the lane. -/
theorem fields_of_phase (h : service.lane.Ok) {phase : RunPhase}
    (hphase : (service.runs.read ref).phase = phase) (huse : phase.use ≠ .free) :
    service.lane.Fields (service.runs.read ref) :=
  (LaneView.Ok.owner h (hphase ▸ huse)).2

theorem laneOk_admissionFailed (h : service.lane.Ok)
    (hphase : (service.runs.read ref).phase = .admitting) :
    (service.admissionFailed ref).lane.Ok := by
  have hbegun := begun_of_phase h hphase (by decide)
  have hpart := hostPart_of_phase h hphase (by decide)
  have hfields := fields_of_phase h hphase (by decide)
  unfold LaneView.Fields at hfields
  unfold RunPhase.HostPart at hpart
  rw [hphase] at hfields hpart
  obtain ⟨hactive, -, hhandoff⟩ := hfields
  have hcleared : (if service.active.map TaskLane.executionId = some ref then none
      else service.active) = none := by
    rw [show service.active = some (service.runs.read ref).lane from hactive, Option.map_some,
      show (service.runs.read ref).lane.executionId = ref from h.ids ref hbegun, if_pos rfl]
  have hend : ∀ phase : RunPhase, phase.use = .free →
      RunPhase.HostPart { service.runs.read ref with phase } →
      LaneView.Ok ⟨if service.active.map TaskLane.executionId = some ref then none
        else service.active, false, service.handoffPending,
        service.runs.modify ref fun run => { run with phase }⟩ := by
    intro phase hfree hpart'
    refine LaneView.ok_move h hbegun rfl hpart' (.inl ⟨?_, ?_⟩)
    · show (service.runs.read ref).phase.use ≠ .free
      rw [hphase]
      decide
    · unfold LaneView.Fields
      rw [show RunPhase.use _ = _ from hfree]
      exact ⟨hcleared, rfl, hhandoff⟩
  unfold admissionFailed
  dsimp only
  split
  · exact hend .refused rfl hpart
  · split
    · exact hend .refused rfl hpart
    · split
      · exact hend (.savingRejected _) rfl hpart
      · exact hend .refused rfl hpart

theorem laneOk_admissionAccepted (h : service.lane.Ok) (hostExecutionId : Nat)
    (hphase : (service.runs.read ref).phase = .admitting) :
    (service.admissionAccepted ref hostExecutionId).lane.Ok := by
  have hbegun := begun_of_phase h hphase (by decide)
  have hpart := hostPart_of_phase h hphase (by decide)
  have hfields := fields_of_phase h hphase (by decide)
  unfold LaneView.Fields at hfields
  unfold RunPhase.HostPart at hpart
  rw [hphase] at hfields hpart
  obtain ⟨hactive, -, hhandoff⟩ := hfields
  have hend : ∀ phase : RunPhase, phase.use = .active →
      RunPhase.HostPart { service.runs.read ref with admitted := true, phase } →
      LaneView.Ok ⟨service.active, false, service.handoffPending,
        service.runs.write ref { service.runs.read ref with admitted := true, phase }⟩ := by
    intro phase hactivePhase hpart'
    refine LaneView.ok_move h hbegun rfl hpart' (.inl ⟨?_, ?_⟩)
    · show (service.runs.read ref).phase.use ≠ .free
      rw [hphase]
      decide
    · unfold LaneView.Fields
      rw [show RunPhase.use _ = _ from hactivePhase]
      exact ⟨hactive, rfl, hhandoff⟩
  unfold admissionAccepted
  dsimp only
  split
  · next hreservation =>
    simp only [lane, setPhase, Heap.modify_modify]
    exact hend .running rfl ⟨rfl, hpart.2⟩
  · next record hreservation =>
    rw [Heap.read_modify_self] at hreservation
    simp only [lane, setPhase, saveFollowUp, Heap.modify_modify]
    exact hend (.savingStarted (service.writes.length + 1)) rfl
      ⟨rfl, hpart.2, by rw [show TaskRun.reservation _ = _ from hreservation]; rfl⟩

theorem laneOk_completed (h : service.lane.Ok) (ended : Option Completed)
    (hphase : (service.runs.read ref).phase = .running) :
    (service.completed ref ended).lane.Ok := by
  have hbegun := begun_of_phase h hphase (by decide)
  have hpart := hostPart_of_phase h hphase (by decide)
  have hfields := fields_of_phase h hphase (by decide)
  unfold LaneView.Fields at hfields
  unfold RunPhase.HostPart at hpart
  rw [hphase] at hfields hpart
  refine LaneView.ok_move h hbegun rfl ⟨hpart.1, rfl⟩ (.inl ⟨?_, hfields⟩)
  show (service.runs.read ref).phase.use ≠ .free
  rw [hphase]
  decide

theorem laneOk_completionSaved (h : service.lane.Ok) {ended : Option Completed}
    (hphase : (service.runs.read ref).phase = .persisting ended) :
    (service.completionSaved ref ended).lane.Ok := by
  have hbegun := begun_of_phase h hphase (by simp)
  have hpart := hostPart_of_phase h hphase (by simp)
  have hfields := fields_of_phase h hphase (by simp [RunPhase.use])
  unfold LaneView.Fields at hfields
  unfold RunPhase.HostPart at hpart
  rw [hphase] at hfields hpart
  obtain ⟨-, hpreparing, -⟩ := hfields
  have hend : ∀ phase : RunPhase, phase.use = .handoff →
      RunPhase.HostPart { service.runs.read ref with phase } →
      LaneView.Ok ⟨none, service.preparing, true,
        service.runs.modify ref fun run => { run with phase }⟩ := by
    intro phase hhandoff hpart'
    refine LaneView.ok_move h hbegun rfl hpart' (.inl ⟨?_, ?_⟩)
    · show (service.runs.read ref).phase.use ≠ .free
      rw [hphase]
      simp [RunPhase.use]
    · unfold LaneView.Fields
      rw [show RunPhase.use _ = _ from hhandoff]
      exact ⟨rfl, hpreparing, rfl⟩
  cases ended with
  | none =>
    have hlane : (service.leaveLane.discardQueued "failed").lane = service.leaveLane.lane :=
      lane_discardQueued "failed"
    have hruns : (service.leaveLane.discardQueued "failed").runs = service.runs :=
      congrArg LaneView.runs hlane
    have hrun := hend (.flushingFailed
      (service.leaveLane.discardQueued "failed").writes.length) rfl ⟨hpart.1, by rw [hpart.2]; rfl⟩
    unfold completionSaved setPhase lane
    dsimp only
    rw [hruns, show TaskService.active _ = _ from congrArg LaneView.active hlane,
      show TaskService.preparing _ = _ from congrArg LaneView.preparing hlane,
      show TaskService.handoffPending _ = _ from congrArg LaneView.handoffPending hlane]
    exact hrun
  | some outcome => exact hend (.flushing outcome _) rfl hpart

/-- The owner gives the lane up, in a state with these fields. -/
theorem laneOk_leave (h : service.lane.Ok) (phase : RunPhase)
    (hphase : (service.runs.read ref).phase.use ≠ .free) (hbegun : ref < service.runs.next)
    (hpart : RunPhase.HostPart { service.runs.read ref with phase }) (hfree : phase.use = .free) :
    LaneView.Ok ⟨none, false, false, service.runs.modify ref fun run => { run with phase }⟩ := by
  refine LaneView.ok_move h hbegun rfl hpart (.inl ⟨hphase, ?_⟩)
  unfold LaneView.Fields
  rw [show RunPhase.use _ = _ from hfree]
  exact ⟨rfl, rfl, rfl⟩

theorem fields_handoff (h : service.lane.Ok) {phase : RunPhase}
    (hphase : (service.runs.read ref).phase = phase) (huse : phase.use = .handoff) :
    service.active = none ∧ service.preparing = false ∧ service.handoffPending = true := by
  have hfields := fields_of_phase h hphase (by rw [huse]; decide)
  unfold LaneView.Fields at hfields
  rw [hphase, huse] at hfields
  exact hfields

theorem laneOk_handOff (h : service.lane.Ok) {outcome : Completed} {write : Nat}
    (sessionId : String) (hphase : (service.runs.read ref).phase = .flushing outcome write) :
    (service.handOff ref outcome sessionId).lane.Ok := by
  have hbegun := begun_of_phase h hphase (by simp)
  have hpart := hostPart_of_phase h hphase (by simp)
  unfold RunPhase.HostPart at hpart
  rw [hphase] at hpart
  have hcompletion : (service.runs.read ref).completion.isSome := by rw [hpart.2]; rfl
  have huse : RunPhase.use (service.runs.read ref).phase = .handoff := by rw [hphase]; rfl
  unfold handOff
  split
  · exact laneOk_setPhase h rfl hbegun ⟨hpart.1, hcompletion⟩ huse.symm
  · next record hqueued =>
    split
    · have hleft : LaneView.Ok _ := laneOk_leave h (.handingOff service.runs.next)
        (by rw [huse]; decide) hbegun ⟨hpart.1, hcompletion⟩ rfl
      refine LaneView.ok_begin hleft (fun other => ?_) ⟨⟨service.runs.next, _, _, sessionId⟩,
        some record, false, none, .admitting⟩ rfl rfl ⟨rfl, rfl⟩
      exact LaneView.Ok.free hleft ⟨rfl, rfl, rfl⟩ other
    · exact laneOk_setPhase h rfl hbegun ⟨hpart.1, hcompletion⟩ huse.symm

theorem laneOk_flush (h : service.lane.Ok) {write : Nat} {waiting : Nat → RunPhase}
    {done : TaskService} (hflush : service.flush ref write waiting done = some next)
    (hbegun : ref < service.runs.next)
    (hpart : (service.runs.read ref).admitted = true ∧
      (service.runs.read ref).completion.isSome)
    (huse : (service.runs.read ref).phase.use = .handoff)
    (hwaiting : ∀ write, (waiting write).use = .handoff ∧
      RunPhase.HostPart { service.runs.read ref with phase := waiting write })
    (hdone : done.lane.Ok) : next.lane.Ok := by
  unfold flush at hflush
  split at hflush
  · split at hflush
    · cases hflush
    · split at hflush
      · cases hflush
        exact hdone
      · cases hflush
        exact laneOk_setPhase h rfl hbegun (hwaiting _).2 ((hwaiting _).1.trans huse.symm)
  · split at hflush
    · cases hflush
      exact laneOk_setPhase h rfl hbegun hpart huse.symm
    · cases hflush

theorem laneOk_resume (h : service.lane.Ok) {sessionId : String}
    (hstep : service.resume ref sessionId = some next) : next.lane.Ok := by
  unfold resume at hstep
  cases hphase : (service.runs.read ref).phase with
  | savingRejected write =>
    have hbegun := begun_of_phase h hphase (by simp)
    have hpart := hostPart_of_phase h hphase (by simp)
    unfold RunPhase.HostPart at hpart
    rw [hphase] at hpart hstep
    have huse : RunPhase.use (service.runs.read ref).phase = .free := by rw [hphase]; rfl
    dsimp only at hstep
    split at hstep
    · cases hstep
      unfold rejectionSaved
      split
      · rw [lane_refuse]
        exact laneOk_setPhase h (lane_release _) hbegun hpart huse.symm
      · exact laneOk_setPhase h rfl hbegun hpart huse.symm
    · split at hstep
      · cases hstep
        exact laneOk_setPhase h rfl hbegun hpart huse.symm
      · cases hstep
  | savingStarted write =>
    have hbegun := begun_of_phase h hphase (by simp)
    have hpart := hostPart_of_phase h hphase (by simp)
    unfold RunPhase.HostPart at hpart
    rw [hphase] at hpart hstep
    have huse : RunPhase.use (service.runs.read ref).phase = .active := by rw [hphase]; rfl
    dsimp only at hstep
    split at hstep
    · cases hstep
      unfold startSaved
      split
      · exact laneOk_setPhase h (lane_release _) hbegun ⟨hpart.1, hpart.2.1⟩ huse.symm
      · exact laneOk_setPhase h rfl hbegun ⟨hpart.1, hpart.2.1⟩ huse.symm
    · split at hstep
      · cases hstep
        exact laneOk_setPhase h rfl hbegun hpart huse.symm
      · cases hstep
  | flushing outcome write =>
    have hbegun := begun_of_phase h hphase (by simp)
    have hpart := hostPart_of_phase h hphase (by simp)
    unfold RunPhase.HostPart at hpart
    rw [hphase] at hpart hstep
    exact laneOk_flush h hstep hbegun ⟨hpart.1, by rw [hpart.2]; rfl⟩ (by rw [hphase]; rfl)
      (fun _ => ⟨rfl, hpart⟩) (laneOk_handOff h sessionId hphase)
  | releasing write =>
    have hbegun := begun_of_phase h hphase (by simp)
    have hpart := hostPart_of_phase h hphase (by simp)
    unfold RunPhase.HostPart at hpart
    rw [hphase] at hpart hstep
    obtain ⟨hactive, hpreparing, -⟩ := fields_handoff h hphase rfl
    refine laneOk_flush h hstep hbegun hpart (by rw [hphase]; rfl) (fun _ => ⟨rfl, hpart⟩) ?_
    show LaneView.Ok ⟨service.active, service.preparing, false, _⟩
    rw [hactive, hpreparing]
    exact laneOk_leave h .settled (by rw [hphase]; simp [RunPhase.use]) hbegun hpart rfl
  | flushingFailed write =>
    have hbegun := begun_of_phase h hphase (by simp)
    have hpart := hostPart_of_phase h hphase (by simp)
    unfold RunPhase.HostPart at hpart
    rw [hphase] at hpart hstep
    obtain ⟨hactive, hpreparing, -⟩ := fields_handoff h hphase rfl
    refine laneOk_flush h hstep hbegun hpart (by rw [hphase]; rfl) (fun _ => ⟨rfl, hpart⟩) ?_
    show LaneView.Ok ⟨service.active, service.preparing, false, _⟩
    rw [hactive, hpreparing]
    exact laneOk_leave h .settled (by rw [hphase]; simp [RunPhase.use]) hbegun hpart rfl
  | handingOff child =>
    have hbegun := begun_of_phase h hphase (by simp)
    have hpart := hostPart_of_phase h hphase (by simp)
    unfold RunPhase.HostPart at hpart
    rw [hphase] at hpart hstep
    have huse : RunPhase.use (service.runs.read ref).phase = .free := by rw [hphase]; rfl
    dsimp only at hstep
    split at hstep <;> cases hstep <;> exact laneOk_setPhase h rfl hbegun hpart huse.symm
  | awaitingChild child =>
    have hbegun := begun_of_phase h hphase (by simp)
    have hpart := hostPart_of_phase h hphase (by simp)
    unfold RunPhase.HostPart at hpart
    rw [hphase] at hpart hstep
    have huse : RunPhase.use (service.runs.read ref).phase = .free := by rw [hphase]; rfl
    dsimp only at hstep
    split at hstep <;> cases hstep <;> exact laneOk_setPhase h rfl hbegun hpart huse.symm
  | admitting | running | persisting | refused | settled | rejectionUnsaved | startUnsaved
  | completionUnsaved | flushBroken =>
    rw [hphase] at hstep
    cases hstep

/-- An event that does not touch the lane. -/
theorem laneOk_same (h : service.lane.Ok) (hsame : next.lane = service.lane) : next.lane.Ok :=
  hsame ▸ h

theorem lane_steer (executionId : Nat) (text : JsText) (commandId : String) :
    (service.steer executionId text commandId).lane = service.lane := by
  unfold steer
  split
  · rfl
  · split <;> rfl

theorem lane_steerEnded (call : SteerCall) (ended : SteerEnd) :
    (service.steerEnded call ended).lane = service.lane := by
  unfold steerEnded
  dsimp only
  split
  · rfl
  · cases ended with
    | accepted => dsimp only; split <;> rfl
    | alreadyAccepted | idle | threw => rfl

theorem lane_queueFollowUp (afterExecutionId : Nat) (text : JsText) (commandId : String) :
    (service.queueFollowUp afterExecutionId text commandId).lane = service.lane := by
  unfold queueFollowUp
  split
  · rfl
  · split <;> rfl

theorem lane_cancel (executionId : Nat) (result : CancelResult) :
    (service.cancel executionId result).lane = service.lane := by
  unfold cancel
  split
  · rfl
  · exact lane_discardQueued "cancelled"

theorem lane_observeSteeringApplied (executionId : Nat) :
    (service.observeSteeringApplied executionId).lane = service.lane := by
  unfold observeSteeringApplied
  split <;> rfl

/-- Every event keeps the fields in step with the owner of the lane. -/
theorem laneOk_step (h : service.lane.Ok) {event : TaskEvent}
    (hstep : service.step event = some next) : next.lane.Ok := by
  cases event with
  | admitTask sessionId text commandId =>
    simp only [step] at hstep
    split at hstep
    · cases hstep
      exact h
    · next hidle =>
      cases hstep
      exact laneOk_begin h (free_of_not_busy h (Bool.eq_false_iff.mpr hidle)) _ _ _ _
  | steer executionId text commandId =>
    cases hstep
    exact laneOk_same h (lane_steer executionId text commandId)
  | steerEnded call ended =>
    simp only [step] at hstep
    split at hstep
    · cases hstep
      exact laneOk_same h (lane_steerEnded call ended)
    · cases hstep
  | queueFollowUp afterExecutionId text commandId =>
    cases hstep
    exact laneOk_same h (lane_queueFollowUp afterExecutionId text commandId)
  | cancel executionId result =>
    cases hstep
    exact laneOk_same h (lane_cancel executionId result)
  | observeSteeringApplied executionId =>
    cases hstep
    exact laneOk_same h (lane_observeSteeringApplied executionId)
  | close =>
    cases hstep
    exact h
  | hostAdmitted ref hostExecutionId =>
    simp only [step] at hstep
    split at hstep
    · next hphase =>
      cases hstep
      exact laneOk_admissionAccepted h hostExecutionId hphase
    · cases hstep
  | hostRefused ref =>
    simp only [step] at hstep
    split at hstep
    · next hphase =>
      cases hstep
      exact laneOk_admissionFailed h hphase
    · cases hstep
  | hostCompleted ref ended =>
    simp only [step] at hstep
    split at hstep
    · next hphase =>
      cases hstep
      exact laneOk_completed h ended hphase
    · cases hstep
  | completionPersisted ref ok =>
    simp only [step] at hstep
    split at hstep
    · next ended hphase =>
      split at hstep
      · cases hstep
        exact laneOk_completionSaved h hphase
      · cases hstep
        have hpart := hostPart_of_phase h hphase (by simp)
        unfold RunPhase.HostPart at hpart
        rw [hphase] at hpart
        exact laneOk_setPhase h rfl (begun_of_phase h hphase (by simp))
          ⟨hpart.1, by rw [hpart.2]; rfl⟩ (by rw [hphase]; rfl)
    · cases hstep
  | followUpPersisted ok =>
    simp only [step] at hstep
    split at hstep
    · split at hstep <;> cases hstep <;> exact h
    · cases hstep
  | resume ref sessionId => exact laneOk_resume h hstep

theorem laneOk_start : start.lane.Ok where
  owned := ⟨0, fun _ _ => rfl, rfl, rfl, rfl⟩
  ids _ h := absurd h (Nat.not_lt_zero _)
  hostPart _ h := absurd h (Nat.not_lt_zero _)
  unbegun _ _ := rfl

/-- The host has the execution: it is being admitted, or it was and has not completed. -/
def AtHost (run : TaskRun) : Prop :=
  run.phase = .admitting ∨ (run.admitted = true ∧ run.completion = none)

theorem atHost_use (h : service.lane.Ok) (hhost : AtHost (service.runs.read ref)) :
    (service.runs.read ref).phase.use ≠ .free := by
  rcases hhost with hphase | ⟨hadmitted, hcompletion⟩
  · rw [hphase]
    decide
  · have hbegun : ref < service.runs.next := by
      by_contra hge
      rw [show service.runs.read ref = _ from h.unbegun ref (Nat.le_of_not_lt hge)] at hadmitted
      cases hadmitted
    have hpart : RunPhase.HostPart (service.runs.read ref) := h.hostPart ref hbegun
    unfold RunPhase.HostPart at hpart
    cases hphase : (service.runs.read ref).phase <;> rw [hphase] at hpart <;>
      simp_all [RunPhase.use]

theorem one_at_host (h : service.lane.Ok) {first second : Nat}
    (hfirst : AtHost (service.runs.read first)) (hsecond : AtHost (service.runs.read second)) :
    first = second := by
  by_contra hne
  have hothers := (LaneView.Ok.owner h (atHost_use h hsecond)).1
  exact atHost_use h hfirst (hothers first hne)

/-! ## Tracking -/

/-- Whether the latest change of an execution is an `upsert` (the latest change first). -/
def tracked : List TrackingChange → Nat → Bool
  | [], _ => false
  | .upsert executionId _ _ _ :: earlier, ref => executionId = ref || tracked earlier ref
  | .remove executionId :: earlier, ref => executionId ≠ ref && tracked earlier ref

/-- The phases in which an execution may be tracked. -/
def tracks : RunPhase → Bool
  | .admitting | .savingRejected _ | .savingStarted _ | .running | .persisting _
  | .flushingFailed _ | .rejectionUnsaved | .startUnsaved | .completionUnsaved | .flushBroken =>
    true
  | .flushing _ _ | .releasing _ | .handingOff _ | .awaitingChild _ | .refused | .settled => false

/-- An execution is tracked only while its phase allows it. -/
def Tracking (service : TaskService) : Prop :=
  ∀ ref, tracked service.published ref = true → tracks (service.runs.read ref).phase = true

/-- Only an execution in another phase matters, and the published changes stay. -/
theorem tracking_setPhase (h : service.Tracking) (hruns : next.runs = service.runs)
    (hpublished : next.published = service.published) {phase : RunPhase}
    (hphase : tracks (service.runs.read ref).phase = true → tracks phase = true) :
    (next.setPhase ref phase).Tracking := by
  intro other hother
  have hother : tracked next.published other = true := hother
  rw [hpublished] at hother
  show tracks ((next.runs.modify ref fun run => { run with phase }).read other).phase = true
  rw [Heap.read_modify, hruns]
  split
  · next heq => exact hphase (heq ▸ h other hother)
  · exact h other hother

/-- An execution that leaves the tracked phases is removed at the same time. -/
theorem tracking_removed (next : TaskService) (h : service.Tracking) (changes : List TrackingChange)
    (hruns : next.runs = service.runs)
    (hpublished : next.published = .remove ref :: changes)
    (hchanges : ∀ other, other ≠ ref → tracked changes other = tracked service.published other)
    (phase : RunPhase) : (next.setPhase ref phase).Tracking := by
  intro other hother
  have hother : tracked next.published other = true := hother
  rw [hpublished] at hother
  simp only [tracked, ne_eq, Bool.and_eq_true, decide_eq_true_eq] at hother
  have hne : other ≠ ref := fun heq => hother.1 heq.symm
  show tracks ((next.runs.modify ref fun run => { run with phase }).read other).phase = true
  rw [Heap.read_modify_ne _ _ hne, hruns]
  exact h other (hchanges other hne ▸ hother.2)

theorem tracking_refuse (h : service.Tracking) (hruns : next.runs = service.runs)
    (hpublished : next.published = service.published) (ref : Nat) :
    (next.refuse ref).Tracking := by
  refine tracking_removed ({ next with cancellationRequested := false }.publish (.remove ref)) h
    service.published hruns ?_ (fun _ _ => rfl) .refused
  exact congrArg _ hpublished

@[simp] theorem runs_discardQueued (service : TaskService) (reason : String) :
    (service.discardQueued reason).runs = service.runs :=
  congrArg LaneView.runs (lane_discardQueued reason)

@[simp] theorem runs_release (record : Nat) : (service.release record).runs = service.runs :=
  congrArg LaneView.runs (lane_release record)

@[simp] theorem published_discardQueued (service : TaskService) (reason : String) :
    (service.discardQueued reason).published = service.published := by
  unfold discardQueued
  split <;> rfl

@[simp] theorem published_release (record : Nat) :
    (service.release record).published = service.published := by
  unfold release
  split <;> rfl

theorem tracking_begin (h : service.Tracking) (sessionId : String) (text : JsText)
    (commandId : String) (reservation : Option Nat) :
    (service.begin sessionId text commandId reservation).Tracking := by
  intro other hother
  simp only [begin, tracked, Bool.or_eq_true, decide_eq_true_eq] at hother
  show tracks ((service.runs.alloc _).2.read other).phase = true
  rw [Heap.read_alloc]
  split
  · rfl
  · next hne => exact h other (hother.resolve_left fun heq => hne heq.symm)

theorem tracking_admissionFailed (h : service.Tracking) : (service.admissionFailed ref).Tracking := by
  unfold admissionFailed
  dsimp only
  split
  · exact tracking_refuse h rfl rfl ref
  · split
    · exact tracking_refuse h rfl rfl ref
    · split
      · exact tracking_setPhase h rfl rfl fun _ => rfl
      · exact tracking_refuse h rfl rfl ref

theorem tracking_admissionAccepted (h : service.Tracking) (hostExecutionId : Nat) :
    (service.admissionAccepted ref hostExecutionId).Tracking := by
  have hadmitted : TaskService.Tracking { service with
      preparing := false
      runs := service.runs.modify ref fun run => { run with admitted := true } } := by
    intro other hother
    dsimp only
    rw [Heap.read_modify]
    split
    · next heq => exact heq ▸ h other hother
    · exact h other hother
  unfold admissionAccepted
  dsimp only
  split
  · exact tracking_setPhase hadmitted rfl rfl fun _ => rfl
  · exact tracking_setPhase hadmitted rfl rfl fun _ => rfl

theorem tracking_completed (h : service.Tracking) (ended : Option Completed) :
    (service.completed ref ended).Tracking := by
  intro other hother
  dsimp only [completed]
  rw [Heap.read_modify]
  split
  · rfl
  · exact h other hother

/-- The last changes of an execution that is settled: it is complete, and removed. -/
theorem tracking_complete (h : service.Tracking) (hlane : service.lane.Ok)
    (hbegun : ref < service.runs.next) (hruns : next.runs = service.runs)
    (hpublished : next.published = service.published) (phase : RunPhase) :
    (((next.publish (next.executionChange ref true)).publish (.remove ref)).setPhase ref
      phase).Tracking := by
  refine tracking_removed ((next.publish (next.executionChange ref true)).publish (.remove ref)) h
    (next.executionChange ref true :: service.published) hruns ?_ (fun other hne => ?_) phase
  · show _ :: _ :: next.published = _
    rw [hpublished]
  · have hid : (next.runs.read ref).lane.executionId = ref := by
      rw [hruns]
      exact hlane.ids ref hbegun
    simp only [executionChange, tracked, hid, decide_eq_false (Ne.symm hne), Bool.false_or]

theorem tracking_completionSaved (h : service.Tracking) (hlane : service.lane.Ok)
    {ended : Option Completed} (hphase : (service.runs.read ref).phase = .persisting ended) :
    (service.completionSaved ref ended).Tracking := by
  cases ended with
  | none =>
    exact tracking_setPhase h (runs_discardQueued service.leaveLane "failed")
      (published_discardQueued service.leaveLane "failed") fun _ => rfl
  | some outcome =>
    exact tracking_complete h hlane (begun_of_phase hlane hphase (by simp)) rfl rfl _

theorem tracking_handOff (h : service.Tracking) {outcome : Completed} {write : Nat}
    (sessionId : String) (hphase : (service.runs.read ref).phase = .flushing outcome write) :
    (service.handOff ref outcome sessionId).Tracking := by
  have hnot : ∀ phase : RunPhase, tracks (service.runs.read ref).phase = true →
      tracks phase = true := fun _ htracks => by rw [hphase] at htracks; cases htracks
  unfold handOff
  split
  · exact tracking_setPhase h rfl rfl (hnot _)
  · split
    · exact tracking_begin (tracking_setPhase h rfl rfl (hnot _)) _ _ _ _
    · exact tracking_setPhase h rfl rfl (hnot _)

theorem tracking_flush (h : service.Tracking) {write : Nat} {waiting : Nat → RunPhase}
    {done : TaskService} (hflush : service.flush ref write waiting done = some next)
    (hwaiting : ∀ write, tracks (service.runs.read ref).phase = true →
      tracks (waiting write) = true)
    (hdone : done.Tracking) : next.Tracking := by
  unfold flush at hflush
  split at hflush
  · split at hflush
    · cases hflush
    · split at hflush
      · cases hflush
        exact hdone
      · cases hflush
        exact tracking_setPhase h rfl rfl (hwaiting _)
  · split at hflush
    · cases hflush
      exact tracking_setPhase h rfl rfl fun _ => rfl
    · cases hflush

theorem tracking_resume (h : service.Tracking) (hlane : service.lane.Ok) {sessionId : String}
    (hstep : service.resume ref sessionId = some next) : next.Tracking := by
  unfold resume at hstep
  cases hphase : (service.runs.read ref).phase with
  | savingRejected write =>
    rw [hphase] at hstep
    dsimp only at hstep
    split at hstep
    · cases hstep
      unfold rejectionSaved
      split
      · exact tracking_refuse h (runs_release _) (published_release _) ref
      · exact tracking_refuse h rfl rfl ref
    · split at hstep
      · cases hstep
        exact tracking_setPhase h rfl rfl fun _ => rfl
      · cases hstep
  | savingStarted write =>
    rw [hphase] at hstep
    dsimp only at hstep
    split at hstep
    · cases hstep
      unfold startSaved
      split
      · exact tracking_setPhase h (runs_release _) (published_release _) fun _ => rfl
      · exact tracking_setPhase h rfl rfl fun _ => rfl
    · split at hstep
      · cases hstep
        exact tracking_setPhase h rfl rfl fun _ => rfl
      · cases hstep
  | flushing outcome write =>
    rw [hphase] at hstep
    exact tracking_flush h hstep (fun _ htracks => by rwa [hphase] at htracks)
      (tracking_handOff h sessionId hphase)
  | releasing write =>
    rw [hphase] at hstep
    refine tracking_flush h hstep (fun _ htracks => by rwa [hphase] at htracks) ?_
    exact tracking_setPhase h rfl rfl fun htracks => by rw [hphase] at htracks; cases htracks
  | flushingFailed write =>
    rw [hphase] at hstep
    refine tracking_flush h hstep (fun _ htracks => by rwa [hphase] at htracks) ?_
    exact tracking_complete h hlane (begun_of_phase hlane hphase (by simp)) rfl rfl _
  | handingOff child =>
    rw [hphase] at hstep
    dsimp only at hstep
    split at hstep <;> cases hstep <;>
      exact tracking_setPhase h rfl rfl fun htracks => by rw [hphase] at htracks; cases htracks
  | awaitingChild child =>
    rw [hphase] at hstep
    dsimp only at hstep
    split at hstep <;> cases hstep <;>
      exact tracking_setPhase h rfl rfl fun htracks => by rw [hphase] at htracks; cases htracks
  | admitting | running | persisting | refused | settled | rejectionUnsaved | startUnsaved
  | completionUnsaved | flushBroken =>
    rw [hphase] at hstep
    cases hstep

/-- An event that changes no execution and publishes none. -/
theorem tracking_same (h : service.Tracking) (hruns : next.runs = service.runs)
    (hpublished : next.published = service.published) : next.Tracking := by
  intro other hother
  rw [hruns]
  exact h other (hpublished ▸ hother)

/-- Every event keeps the tracking of executions in step with their phases. -/
theorem tracking_step (h : service.Tracking) (hlane : service.lane.Ok) {event : TaskEvent}
    (hstep : service.step event = some next) : next.Tracking := by
  cases event with
  | admitTask sessionId text commandId =>
    simp only [step] at hstep
    split at hstep
    · cases hstep
      exact h
    · cases hstep
      exact tracking_begin h _ _ _ _
  | steer executionId text commandId =>
    cases hstep
    refine tracking_same h (congrArg LaneView.runs (lane_steer _ _ _)) ?_
    unfold steer
    split
    · rfl
    · split <;> rfl
  | steerEnded call ended =>
    simp only [step] at hstep
    split at hstep
    · cases hstep
      refine tracking_same h (congrArg LaneView.runs (lane_steerEnded _ _)) ?_
      unfold steerEnded
      dsimp only
      split
      · rfl
      · cases ended with
        | accepted => dsimp only; split <;> rfl
        | alreadyAccepted | idle | threw => rfl
    · cases hstep
  | queueFollowUp afterExecutionId text commandId =>
    cases hstep
    refine tracking_same h (congrArg LaneView.runs (lane_queueFollowUp _ _ _)) ?_
    unfold queueFollowUp
    split
    · rfl
    · split <;> rfl
  | cancel executionId result =>
    cases hstep
    refine tracking_same h (congrArg LaneView.runs (lane_cancel _ _)) ?_
    unfold cancel
    split
    · rfl
    · exact published_discardQueued { service with cancellationRequested := true } "cancelled"
  | observeSteeringApplied executionId =>
    cases hstep
    refine tracking_same h (congrArg LaneView.runs (lane_observeSteeringApplied _)) ?_
    unfold observeSteeringApplied
    split <;> rfl
  | close =>
    cases hstep
    exact h
  | hostAdmitted ref hostExecutionId =>
    simp only [step] at hstep
    split at hstep
    · cases hstep
      exact tracking_admissionAccepted h hostExecutionId
    · cases hstep
  | hostRefused ref =>
    simp only [step] at hstep
    split at hstep
    · cases hstep
      exact tracking_admissionFailed h
    · cases hstep
  | hostCompleted ref ended =>
    simp only [step] at hstep
    split at hstep
    · cases hstep
      exact tracking_completed h ended
    · cases hstep
  | completionPersisted ref ok =>
    simp only [step] at hstep
    split at hstep
    · next hphase =>
      split at hstep
      · cases hstep
        exact tracking_completionSaved h hlane hphase
      · cases hstep
        exact tracking_setPhase h rfl rfl fun _ => rfl
    · cases hstep
  | followUpPersisted ok =>
    simp only [step] at hstep
    split at hstep
    · split at hstep <;> cases hstep <;> exact h
    · cases hstep
  | resume ref sessionId => exact tracking_resume h hlane hstep

end TaskService

end Henji
