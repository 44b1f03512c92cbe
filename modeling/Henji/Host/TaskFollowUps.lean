import Henji.Host.TaskLaneLaw

/-!
# The follow-ups of the task service

A follow-up waits for the settlement of the execution that it was queued for, or it is the
reservation of one execution, and the status of the record follows from the stage of that
execution's `begin`. The exception is a record that is discarded again while the write of its start
or of its rejected start is pending.

Results:
1. `followUps_step`: every event keeps the invariant of the follow-ups.
2. `status_step`: a record that has left `queued` keeps its status in every step that is not late.
-/

namespace Henji

/-- How far the `begin` of an execution is. -/
inductive BeginStage where
  | admitting
  | rejecting
  | refused
  | starting
  | begun
deriving DecidableEq, Repr

namespace RunPhase

def beginStage : RunPhase → BeginStage
  | .admitting => .admitting
  | .savingRejected _ | .rejectionUnsaved => .rejecting
  | .refused => .refused
  | .savingStarted _ | .startUnsaved => .starting
  | .running | .persisting _ | .flushing _ _ | .releasing _ | .flushingFailed _ | .handingOff _
  | .awaitingChild _ | .settled | .completionUnsaved | .flushBroken => .begun

/-- A follow-up may be waiting for an execution in this phase. -/
def mayHandOff : RunPhase → Bool
  | .savingStarted _ | .startUnsaved | .running | .persisting _ | .completionUnsaved
  | .flushing _ _ | .flushBroken => true
  | _ => false

theorem use_of_mayHandOff {phase : RunPhase} (h : phase.mayHandOff = true) : phase.use ≠ .free := by
  cases phase <;> simp_all [mayHandOff, use]

end RunPhase

/-- The fields that the follow-ups are about. -/
structure FollowUpView where
  queued : Option Nat
  followUps : Heap FollowUp
  runs : Heap TaskRun
  writes : List FollowUp
  written : Nat
  writeFailed : Bool

namespace FollowUpView

/-- The last record of the chain that was saved for a queue id. -/
def lastSaved (writes : List FollowUp) (queueId : Nat) : Option FollowUp :=
  writes.reverse.find? fun saved => saved.queueId = queueId

/-- The execution was begun with the record as its reservation. -/
def Reserves (view : FollowUpView) (ref record : Nat) : Prop :=
  (view.runs.read ref).reservation = some record

/-- A started record, or one that was cancelled about its start: its execution is known. -/
def StartKnown (followUp : FollowUp) : Prop :=
  followUp.executionId ≠ none ∧ (followUp.status = .started ∨
    (followUp.status = .discarded ∧ followUp.reason = some "cancelled"))

/-- A record whose start was rejected, or that was discarded about it. -/
def StartRefused (followUp : FollowUp) : Prop :=
  followUp.executionId = none ∧ (followUp.status = .startRejected ∨ followUp.status = .discarded)

/-- What the record of a reservation is at a stage of `begin`. -/
def AtStage (view : FollowUpView) (record : Nat) (stage : BeginStage) : Prop :=
  let followUp := view.followUps.read record
  match stage with
  | .admitting => followUp.executionId = none ∧
      ((view.queued = some record ∧ followUp.status = .queued) ∨ (view.queued = none ∧
        followUp.status = .discarded ∧ followUp.reason = some "cancelled"))
  | .rejecting => StartRefused followUp
  | .refused => StartRefused followUp ∧ view.queued ≠ some record
  | .starting => StartKnown followUp
  | .begun => StartKnown followUp ∧ view.queued ≠ some record

/-- A record that is the reservation of no execution. -/
structure Unreserved (view : FollowUpView) (record : Nat) : Prop where
  free : ∀ ref, ¬ view.Reserves ref record
  executionId : (view.followUps.read record).executionId = none
  waiting : (view.queued = some record ∧ (view.followUps.read record).status = .queued ∧
      (view.runs.read
        (view.followUps.read record).afterExecutionId).phase.mayHandOff = true) ∨
    (view.queued ≠ some record ∧ (view.followUps.read record).status = .discarded)

/-- A record that is the reservation of one execution. -/
structure Reserved (view : FollowUpView) (ref record : Nat) : Prop where
  reserves : view.Reserves ref record
  unique : ∀ other, view.Reserves other record → other = ref
  text : (view.runs.read ref).lane.text = (view.followUps.read record).text
  /-- The execution that the record was queued for completed well. -/
  parent : ∃ outcome, (view.runs.read
      (view.followUps.read record).afterExecutionId).completion = some (some outcome) ∧
    outcome.startsFollowUp = true
  stage : view.AtStage record (view.runs.read ref).phase.beginStage

def Followed (view : FollowUpView) (record : Nat) : Prop :=
  view.Unreserved record ∨ ∃ ref, view.Reserved ref record

/-- The invariant of the follow-ups. -/
structure Ok (view : FollowUpView) : Prop where
  ids : ∀ record < view.followUps.next, (view.followUps.read record).queueId = record
  known : ∀ ref record, view.Reserves ref record → record < view.followUps.next
  queued : ∀ record, view.queued = some record → record < view.followUps.next
  followed : ∀ record < view.followUps.next, view.Followed record
  saved : ∀ record < view.followUps.next,
    lastSaved view.writes record = some (view.followUps.read record)
  /-- A `begin` waits for a write of the chain; a failed write is not the last that was tried for. -/
  savedBy : ∀ ref write, (view.runs.read ref).phase.savedBy = some write →
    write ≤ view.writes.length
  failed : view.writeFailed = true → view.written < view.writes.length
  unsaved : ∀ ref, (view.runs.read ref).phase = .rejectionUnsaved → view.writeFailed = true

variable {view next : FollowUpView} {ref record : Nat}

/-! ## The chain of writes -/

theorem lastSaved_append_self {writes : List FollowUp} (followUp : FollowUp) :
    lastSaved (writes ++ [followUp]) followUp.queueId = some followUp := by
  simp [lastSaved]

theorem lastSaved_append_ne {writes : List FollowUp} {followUp : FollowUp}
    (h : followUp.queueId ≠ record) :
    lastSaved (writes ++ [followUp]) record = lastSaved writes record := by
  simp [lastSaved, h]

/-- A record is changed and saved in one step. -/
theorem saved_modify (h : view.Ok) (f : FollowUp → FollowUp)
    (hid : ∀ followUp, (f followUp).queueId = followUp.queueId)
    (hrecord : record < view.followUps.next) :
    ∀ other < view.followUps.next,
      lastSaved (view.writes ++ [(view.followUps.modify record f).read record]) other =
        some ((view.followUps.modify record f).read other) := by
  intro other hother
  rw [Heap.read_modify_self, Heap.read_modify]
  have hqueueId : (f (view.followUps.read record)).queueId = record :=
    (hid _).trans (h.ids record hrecord)
  split
  · next heq =>
    subst heq
    have hself : lastSaved (view.writes ++ [f (view.followUps.read other)]) _ = _ :=
      lastSaved_append_self (f (view.followUps.read other))
    rwa [hqueueId] at hself
  · next hne =>
    rw [lastSaved_append_ne (by rw [hqueueId]; exact Ne.symm hne)]
    exact h.saved other hother

/-! ## Frames -/

/-- The stage of a record does not depend on other records, nor on the phases of others. -/
theorem atStage_congr {stage : BeginStage} (h : view.AtStage record stage)
    (hrecord : next.followUps.read record = view.followUps.read record)
    (hqueued : next.queued = view.queued) : next.AtStage record stage := by
  unfold AtStage at h ⊢
  rw [hrecord, hqueued]
  exact h

/-- What happens to one execution leaves a record followed, if its stage is kept where it is the
reservation, and the execution goes on where the record waits for it. -/
theorem followed_move (ref : Nat) (h : view.Followed record)
    (hrecord : next.followUps.read record = view.followUps.read record)
    (hqueued : next.queued = view.queued)
    (hothers : ∀ other, other ≠ ref → next.runs.read other = view.runs.read other)
    (hreservation : (next.runs.read ref).reservation = (view.runs.read ref).reservation)
    (hlane : (next.runs.read ref).lane = (view.runs.read ref).lane)
    (hcompletion : ∀ ended, (view.runs.read ref).completion = some ended →
      (next.runs.read ref).completion = some ended)
    (hstage : view.Reserves ref record →
      view.AtStage record (view.runs.read ref).phase.beginStage →
      next.AtStage record (next.runs.read ref).phase.beginStage)
    (hwaiting : view.queued = some record → view.Unreserved record →
      (view.runs.read ref).phase.mayHandOff = true →
      (next.runs.read ref).phase.mayHandOff = true) : next.Followed record := by
  have hreserves : ∀ other, next.Reserves other record ↔ view.Reserves other record := by
    intro other
    unfold Reserves
    by_cases heq : other = ref
    · rw [heq, hreservation]
    · rw [hothers other heq]
  rcases h with h | ⟨holder, h⟩
  · refine .inl ⟨fun other ho => h.free other ((hreserves other).mp ho), hrecord ▸ h.executionId, ?_⟩
    rw [hrecord, hqueued]
    refine h.waiting.imp_left fun hwait => ⟨hwait.1, hwait.2.1, ?_⟩
    by_cases heq : (view.followUps.read record).afterExecutionId = ref
    · rw [heq]
      exact hwaiting hwait.1 h (heq ▸ hwait.2.2)
    · rw [hothers _ heq]
      exact hwait.2.2
  · refine .inr ⟨holder, (hreserves holder).mpr h.reserves,
      fun other ho => h.unique other ((hreserves other).mp ho), ?_, ?_, ?_⟩
    · rw [hrecord, ← h.text]
      by_cases heq : holder = ref
      · rw [heq, hlane]
      · rw [hothers holder heq]
    · obtain ⟨outcome, hparent, hstarts⟩ := h.parent
      refine ⟨outcome, ?_, hstarts⟩
      rw [hrecord]
      by_cases heq : (view.followUps.read record).afterExecutionId = ref
      · rw [heq]
        exact hcompletion _ (heq ▸ hparent)
      · rw [hothers _ heq]
        exact hparent
    · by_cases heq : holder = ref
      · rw [heq]
        exact hstage (heq ▸ h.reserves) (heq ▸ h.stage)
      · rw [hothers holder heq]
        exact atStage_congr h.stage hrecord hqueued

/-- The record of a reservation is at the stage of its execution. -/
theorem Ok.stage (h : view.Ok) (hreserves : view.Reserves ref record) :
    view.AtStage record (view.runs.read ref).phase.beginStage := by
  rcases h.followed record (h.known ref record hreserves) with hfree | ⟨holder, hheld⟩
  · exact absurd hreserves (hfree.free ref)
  · exact hheld.unique ref hreserves ▸ hheld.stage

/-! ## Changes of the view -/

/-- An execution moves on, and the records stay. -/
theorem ok_move (ref : Nat) (h : view.Ok) (run : TaskRun)
    (hreservation : run.reservation = (view.runs.read ref).reservation)
    (hlane : run.lane = (view.runs.read ref).lane)
    (hcompletion : ∀ ended, (view.runs.read ref).completion = some ended →
      run.completion = some ended)
    (hstage : ∀ record, view.Reserves ref record →
      view.AtStage record (view.runs.read ref).phase.beginStage →
      view.AtStage record run.phase.beginStage)
    (hwaiting : ∀ record, view.queued = some record → view.Unreserved record →
      (view.runs.read ref).phase.mayHandOff = true → run.phase.mayHandOff = true)
    (hsavedBy : ∀ write, run.phase.savedBy = some write → write ≤ view.writes.length)
    (hunsaved : run.phase = .rejectionUnsaved → view.writeFailed = true) :
    Ok { view with runs := view.runs.write ref run } := by
  refine ⟨h.ids, fun other record hr => ?_, h.queued, fun record hr => ?_, h.saved,
    fun other write hw => ?_, h.failed, fun other ho => ?_⟩
  · unfold Reserves at hr
    dsimp only at hr
    rw [Heap.read_write] at hr
    split at hr
    · exact h.known ref record (hreservation.symm.trans hr)
    · exact h.known other record hr
  · have hself : (view.runs.write ref run).read ref = run := Heap.read_write_self _ _ _
    refine followed_move ref (h.followed record hr) rfl rfl
      (fun other hne => Heap.read_write_ne _ _ hne) ?_ ?_ ?_ ?_ ?_
    · exact (congrArg TaskRun.reservation hself).trans hreservation
    · exact (congrArg TaskRun.lane hself).trans hlane
    · intro ended hended
      exact (congrArg TaskRun.completion hself).trans (hcompletion ended hended)
    · intro hres hold
      show AtStage _ record ((view.runs.write ref run).read ref).phase.beginStage
      rw [hself]
      exact atStage_congr (hstage record hres hold) rfl rfl
    · intro hqueued hfree hold
      show ((view.runs.write ref run).read ref).phase.mayHandOff = true
      rw [hself]
      exact hwaiting record hqueued hfree hold
  · dsimp only at hw
    rw [Heap.read_write] at hw
    split at hw
    · exact hsavedBy write hw
    · exact h.savedBy other write hw
  · dsimp only at ho
    rw [Heap.read_write] at ho
    split at ho
    · exact hunsaved ho
    · exact h.unsaved other ho

/-- A write of the chain is done, or failed. -/
theorem ok_persisted (h : view.Ok) {written : Nat} {writeFailed : Bool}
    (hfailed : writeFailed = true → written < view.writes.length)
    (hkept : view.writeFailed = true → writeFailed = true) :
    Ok { view with written, writeFailed } :=
  ⟨h.ids, h.known, h.queued, fun record hr => followed_move 0 (h.followed record hr) rfl rfl
    (fun _ _ => rfl) rfl rfl (fun _ hended => hended)
    (fun _ hstage => atStage_congr hstage rfl rfl) (fun _ _ hmay => hmay), h.saved, h.savedBy,
    hfailed, fun other ho => hkept (h.unsaved other ho)⟩

/-- A new execution without a reservation. -/
theorem ok_begin (h : view.Ok) (hunbegun : view.runs.read view.runs.next = unbegun) {run : TaskRun}
    (hreservation : run.reservation = none) (hphase : run.phase = .admitting) :
    Ok { view with runs := (view.runs.alloc run).2 } := by
  have hself : (view.runs.alloc run).2.read view.runs.next = run := by
    rw [Heap.read_alloc, if_pos rfl]
  have hread : ∀ other, other ≠ view.runs.next →
      (view.runs.alloc run).2.read other = view.runs.read other := by
    intro other hne
    rw [Heap.read_alloc, if_neg hne]
  have hreserves : ∀ other record, Reserves { view with runs := (view.runs.alloc run).2 } other
      record ↔ view.Reserves other record := by
    intro other record
    unfold Reserves
    dsimp only
    by_cases heq : other = view.runs.next
    · rw [heq, hself, hreservation, hunbegun]
      rfl
    · rw [hread other heq]
  refine ⟨h.ids, fun other record hr => h.known other record ((hreserves other record).mp hr),
    h.queued, fun record hr => ?_, h.saved, fun other write hw => ?_, h.failed, fun other ho => ?_⟩
  · rcases h.followed record hr with hfree | ⟨holder, hheld⟩
    · refine .inl ⟨fun other ho => hfree.free other ((hreserves other record).mp ho),
        hfree.executionId, hfree.waiting.imp_left fun hwait => ⟨hwait.1, hwait.2.1, ?_⟩⟩
      have hne : (view.followUps.read record).afterExecutionId ≠ view.runs.next := by
        intro heq
        have hmay := hwait.2.2
        rw [heq, hunbegun] at hmay
        cases hmay
      show ((view.runs.alloc run).2.read _).phase.mayHandOff = true
      rw [hread _ hne]
      exact hwait.2.2
    · have hne : holder ≠ view.runs.next := by
        intro heq
        have hres := hheld.reserves
        unfold Reserves at hres
        rw [heq, hunbegun] at hres
        cases hres
      obtain ⟨outcome, hparent, hstarts⟩ := hheld.parent
      have hparentNe : (view.followUps.read record).afterExecutionId ≠ view.runs.next := by
        intro heq
        rw [heq, hunbegun] at hparent
        cases hparent
      refine .inr ⟨holder, (hreserves holder record).mpr hheld.reserves,
        fun other ho => hheld.unique other ((hreserves other record).mp ho), ?_,
        ⟨outcome, ?_, hstarts⟩, ?_⟩
      · show ((view.runs.alloc run).2.read holder).lane.text = _
        rw [hread holder hne]
        exact hheld.text
      · show ((view.runs.alloc run).2.read _).completion = _
        rw [hread _ hparentNe]
        exact hparent
      · show AtStage _ record ((view.runs.alloc run).2.read holder).phase.beginStage
        rw [hread holder hne]
        exact atStage_congr hheld.stage rfl rfl
  · dsimp only at hw
    by_cases heq : other = view.runs.next
    · rw [heq, hself, hphase] at hw
      cases hw
    · rw [hread other heq] at hw
      exact h.savedBy other write hw
  · dsimp only at ho
    by_cases heq : other = view.runs.next
    · rw [heq, hself, hphase] at ho
      cases ho
    · rw [hread other heq] at ho
      exact h.unsaved other ho

/-- The queued record is discarded. -/
theorem ok_discardQueued (h : view.Ok) (hqueued : view.queued = some record) (reason : String)
    (hreason : ∀ ref, view.Reserves ref record →
      (view.runs.read ref).phase.use ≠ .free → reason = "cancelled") :
    Ok { view with
      queued := none
      followUps := view.followUps.modify record fun followUp =>
        { followUp with status := .discarded, reason := some reason }
      writes := view.writes ++ [(view.followUps.modify record fun followUp =>
        { followUp with status := .discarded, reason := some reason }).read record] } := by
  have hrecord := h.queued record hqueued
  have hnext : (view.followUps.modify record fun followUp =>
      { followUp with status := .discarded, reason := some reason }).next = view.followUps.next :=
    rfl
  refine ⟨fun other ho => ?_, h.known, nofun, fun other ho => ?_,
    saved_modify h _ (fun _ => rfl) hrecord, fun other write hw => ?_, fun hf => ?_, h.unsaved⟩
  · dsimp only
    rw [Heap.read_modify]
    split
    · next heq => exact heq ▸ h.ids record hrecord
    · exact h.ids other ho
  · by_cases heq : other = record
    · subst heq
      have hread : (view.followUps.modify other fun followUp =>
          { followUp with status := .discarded, reason := some reason }).read other =
          { view.followUps.read other with status := .discarded, reason := some reason } :=
        Heap.read_modify_self _ _ _
      rcases h.followed other hrecord with hfree | ⟨holder, hheld⟩
      · refine .inl ⟨hfree.free, ?_, .inr ⟨nofun, ?_⟩⟩
        · dsimp only
          rw [hread]
          exact hfree.executionId
        · dsimp only
          rw [hread]
      · refine .inr ⟨holder, hheld.reserves, hheld.unique, ?_, ?_, ?_⟩
        · dsimp only
          rw [hread]
          exact hheld.text
        · dsimp only
          rw [hread]
          exact hheld.parent
        · have hstage := hheld.stage
          unfold AtStage at hstage ⊢
          dsimp only at hstage ⊢
          rw [hread]
          cases hs : (view.runs.read holder).phase.beginStage with
          | admitting =>
            rw [hs] at hstage
            refine ⟨hstage.1, .inr ⟨rfl, rfl, ?_⟩⟩
            rw [hreason holder hheld.reserves]
            intro hfree
            cases hp : (view.runs.read holder).phase <;> rw [hp] at hs hfree <;>
              first | cases hs; done | cases hfree
          | rejecting =>
            rw [hs] at hstage
            exact ⟨hstage.1, .inr rfl⟩
          | refused =>
            rw [hs] at hstage
            exact absurd hqueued hstage.2
          | starting =>
            rw [hs] at hstage
            refine ⟨hstage.1, .inr ⟨rfl, ?_⟩⟩
            rw [hreason holder hheld.reserves]
            intro hfree
            cases hp : (view.runs.read holder).phase <;> rw [hp] at hs hfree <;>
              first | cases hs; done | cases hfree
          | begun =>
            rw [hs] at hstage
            exact absurd hqueued hstage.2
    · have hread : (view.followUps.modify record fun followUp =>
          { followUp with status := .discarded, reason := some reason }).read other =
          view.followUps.read other := Heap.read_modify_ne _ _ heq
      have hnot : view.queued ≠ some other := fun hq => heq (Option.some.inj (hq.symm.trans hqueued))
      rcases h.followed other ho with hfree | ⟨holder, hheld⟩
      · refine .inl ⟨hfree.free, hread ▸ hfree.executionId, .inr ⟨nofun, ?_⟩⟩
        dsimp only
        rw [hread]
        rcases hfree.waiting with hwait | hwait
        · exact absurd hwait.1 hnot
        · exact hwait.2
      · refine .inr ⟨holder, hheld.reserves, hheld.unique, hread ▸ hheld.text,
          hread ▸ hheld.parent, ?_⟩
        have hstage := hheld.stage
        unfold AtStage at hstage ⊢
        dsimp only at hstage ⊢
        rw [hread]
        cases hs : (view.runs.read holder).phase.beginStage with
        | admitting =>
          rw [hs] at hstage
          rcases hstage.2 with hq | hq
          · exact absurd hq.1 hnot
          · exact absurd (hqueued.symm.trans hq.1) nofun
        | rejecting => rw [hs] at hstage; exact hstage
        | refused => rw [hs] at hstage; exact ⟨hstage.1, nofun⟩
        | starting => rw [hs] at hstage; exact hstage
        | begun => rw [hs] at hstage; exact ⟨hstage.1, nofun⟩
  · have := h.savedBy other write hw
    simp only [List.length_append, List.length_singleton]
    omega
  · have := h.failed hf
    simp only [List.length_append, List.length_singleton]
    omega

/-- A new record waits for the execution that it is queued for. -/
theorem ok_queue (h : view.Ok) (hqueued : view.queued = none)
    (hidle : ∀ ref, (view.runs.read ref).phase ≠ .admitting) (followUp : FollowUp)
    (hid : followUp.queueId = view.followUps.next) (hstatus : followUp.status = .queued)
    (hexecution : followUp.executionId = none)
    (hparent : (view.runs.read followUp.afterExecutionId).phase.mayHandOff = true) :
    Ok { view with
      queued := some view.followUps.next
      followUps := (view.followUps.alloc followUp).2
      writes := view.writes ++ [(view.followUps.alloc followUp).2.read view.followUps.next] } := by
  have hself : (view.followUps.alloc followUp).2.read view.followUps.next = followUp := by
    rw [Heap.read_alloc, if_pos rfl]
  have hread : ∀ other, other ≠ view.followUps.next →
      (view.followUps.alloc followUp).2.read other = view.followUps.read other := by
    intro other hne
    rw [Heap.read_alloc, if_neg hne]
  refine ⟨fun other ho => ?_, fun other record hr => Nat.lt_succ_of_lt (h.known other record hr),
    fun other ho => ?_, fun other ho => ?_, fun other ho => ?_, fun other write hw => ?_,
    fun hf => ?_, h.unsaved⟩
  · by_cases heq : other = view.followUps.next
    · dsimp only
      rw [heq, hself, hid]
    · dsimp only
      rw [hread other heq]
      have ho : other < view.followUps.next + 1 := ho
      exact h.ids other (by omega)
  · obtain rfl := Option.some.inj ho
    exact Nat.lt_succ_self _
  · by_cases heq : other = view.followUps.next
    · subst heq
      refine .inl ⟨fun holder hr => Nat.lt_irrefl _ (h.known holder _ hr), ?_, .inl ⟨rfl, ?_, ?_⟩⟩
      · dsimp only
        rw [hself, hexecution]
      · dsimp only
        rw [hself, hstatus]
      · dsimp only
        rw [hself, hparent]
    · have ho : other < view.followUps.next + 1 := ho
      have hnot : some view.followUps.next ≠ some other :=
        fun hq => heq (Option.some.inj hq).symm
      rcases h.followed other (by omega) with hfree | ⟨holder, hheld⟩
      · refine .inl ⟨hfree.free, (hread other heq).symm ▸ hfree.executionId, .inr ⟨hnot, ?_⟩⟩
        dsimp only
        rw [hread other heq]
        rcases hfree.waiting with hwait | hwait
        · exact absurd (hqueued.symm.trans hwait.1) nofun
        · exact hwait.2
      · refine .inr ⟨holder, hheld.reserves, hheld.unique, (hread other heq).symm ▸ hheld.text,
          (hread other heq).symm ▸ hheld.parent, ?_⟩
        have hstage := hheld.stage
        unfold AtStage at hstage ⊢
        dsimp only at hstage ⊢
        rw [hread other heq]
        cases hs : (view.runs.read holder).phase.beginStage with
        | admitting =>
          cases hp : (view.runs.read holder).phase <;> rw [hp] at hs
          case admitting => exact absurd hp (hidle holder)
          all_goals cases hs
        | rejecting => rw [hs] at hstage; exact hstage
        | refused => rw [hs] at hstage; exact ⟨hstage.1, hnot⟩
        | starting => rw [hs] at hstage; exact hstage
        | begun => rw [hs] at hstage; exact ⟨hstage.1, hnot⟩
  · by_cases heq : other = view.followUps.next
    · dsimp only
      rw [heq, hself, ← hid]
      exact lastSaved_append_self followUp
    · dsimp only
      rw [hread other heq, hself, lastSaved_append_ne fun hne => heq (hne.symm.trans hid)]
      have ho : other < view.followUps.next + 1 := ho
      exact h.saved other (by omega)
  · have := h.savedBy other write hw
    simp only [List.length_append, List.length_singleton]
    omega
  · have := h.failed hf
    simp only [List.length_append, List.length_singleton]
    omega

/-- The record of a reservation is stamped and saved when its admission has ended. -/
theorem ok_stamp (h : view.Ok) (hreserves : view.Reserves ref record)
    (hphase : (view.runs.read ref).phase = .admitting) (f : FollowUp → FollowUp)
    (hid : ∀ followUp, (f followUp).queueId = followUp.queueId)
    (htext : ∀ followUp, (f followUp).text = followUp.text)
    (hparent : ∀ followUp, (f followUp).afterExecutionId = followUp.afterExecutionId)
    (run : TaskRun) (hreservation : run.reservation = (view.runs.read ref).reservation)
    (hlane : run.lane = (view.runs.read ref).lane)
    (hcompletion : run.completion = (view.runs.read ref).completion)
    (hsavedBy : ∀ write, run.phase.savedBy = some write → write ≤ view.writes.length + 1)
    (hunsaved : run.phase ≠ .rejectionUnsaved)
    (hstage : view.AtStage record .admitting →
      AtStage { view with followUps := view.followUps.modify record f } record
        run.phase.beginStage) :
    Ok { view with
      runs := view.runs.write ref run
      followUps := view.followUps.modify record f
      writes := view.writes ++ [(view.followUps.modify record f).read record] } := by
  have hrecord := h.known ref record hreserves
  have hself : (view.runs.write ref run).read ref = run := Heap.read_write_self _ _ _
  have hothers : ∀ other, other ≠ ref →
      (view.runs.write ref run).read other = view.runs.read other :=
    fun other hne => Heap.read_write_ne _ _ hne
  have hread : (view.followUps.modify record f).read record = f (view.followUps.read record) :=
    Heap.read_modify_self _ _ _
  have hreservesAfter : ∀ other q, ((view.runs.write ref run).read other).reservation = some q ↔
      view.Reserves other q := by
    intro other q
    unfold Reserves
    by_cases heq : other = ref
    · rw [heq, hself, hreservation]
    · rw [hothers other heq]
  have hheld : view.Reserved ref record := by
    rcases h.followed record hrecord with hfree | ⟨holder, hheld⟩
    · exact absurd hreserves (hfree.free ref)
    · exact hheld.unique ref hreserves ▸ hheld
  refine ⟨fun other ho => ?_, fun other q hr => h.known other q ((hreservesAfter other q).mp hr),
    h.queued, fun other ho => ?_, saved_modify h f hid hrecord, fun other write hw => ?_,
    fun hf => ?_, fun other ho => ?_⟩
  · dsimp only
    rw [Heap.read_modify]
    split
    · next heq => rw [hid, heq]; exact h.ids record hrecord
    · exact h.ids other ho
  · by_cases heq : other = record
    · subst heq
      refine .inr ⟨ref, (hreservesAfter ref other).mpr hreserves,
        fun third ht => hheld.unique third ((hreservesAfter third other).mp ht), ?_, ?_, ?_⟩
      · dsimp only
        rw [hself, hlane, hread, htext]
        exact hheld.text
      · obtain ⟨outcome, hcompleted, hstarts⟩ := hheld.parent
        refine ⟨outcome, ?_, hstarts⟩
        dsimp only
        rw [hread, hparent]
        by_cases hself' : (view.followUps.read other).afterExecutionId = ref
        · rw [hself', hself, hcompletion]
          exact hself' ▸ hcompleted
        · rw [hothers _ hself']
          exact hcompleted
      · dsimp only
        rw [hself]
        have hold := hheld.stage
        rw [hphase] at hold
        exact atStage_congr (hstage hold) rfl rfl
    · have hsame : (view.followUps.modify record f).read other = view.followUps.read other :=
        Heap.read_modify_ne _ _ heq
      refine followed_move ref (h.followed other ho) hsame rfl hothers ?_ ?_ ?_ ?_ ?_
      · exact (congrArg TaskRun.reservation hself).trans hreservation
      · exact (congrArg TaskRun.lane hself).trans hlane
      · intro ended hended
        exact (congrArg TaskRun.completion hself).trans (hcompletion.trans hended)
      · intro hr _
        unfold Reserves at hr hreserves
        exact absurd (Option.some.inj (hr.symm.trans hreserves)) heq
      · intro _ _ hmay
        rw [hphase] at hmay
        cases hmay
  · dsimp only at hw
    rw [Heap.read_write] at hw
    simp only [List.length_append, List.length_singleton]
    split at hw
    · exact hsavedBy write hw
    · exact Nat.le_succ_of_le (h.savedBy other write hw)
  · have := h.failed hf
    simp only [List.length_append, List.length_singleton]
    omega
  · dsimp only at ho
    rw [Heap.read_write] at ho
    split at ho
    · exact absurd ho hunsaved
    · exact h.unsaved other ho

/-- A record whose start was saved is no longer the queued one. -/
theorem ok_release (h : view.Ok) (hreserves : view.Reserves ref record)
    (hstage : (view.runs.read ref).phase.beginStage = .rejecting ∨
      (view.runs.read ref).phase.beginStage = .starting) :
    Ok { view with queued := if view.queued = some record then none else view.queued } := by
  by_cases hqueued : view.queued = some record
  · simp only [if_pos hqueued]
    refine ⟨h.ids, h.known, nofun, fun other ho => ?_, h.saved, h.savedBy, h.failed, h.unsaved⟩
    rcases h.followed other ho with hfree | ⟨holder, hheld⟩
    · refine .inl ⟨hfree.free, hfree.executionId, .inr ⟨nofun, ?_⟩⟩
      rcases hfree.waiting with hwait | hwait
      · obtain rfl := Option.some.inj (hqueued.symm.trans hwait.1)
        exact absurd hreserves (hfree.free ref)
      · exact hwait.2
    · refine .inr ⟨holder, hheld.reserves, hheld.unique, hheld.text, hheld.parent, ?_⟩
      have hold := hheld.stage
      unfold AtStage at hold ⊢
      dsimp only at hold ⊢
      cases hs : (view.runs.read holder).phase.beginStage with
      | admitting =>
        rw [hs] at hold
        rcases hold.2 with hq | hq
        · obtain rfl := Option.some.inj (hqueued.symm.trans hq.1)
          rw [← hheld.unique ref hreserves] at hs
          rcases hstage with hstage | hstage <;> rw [hs] at hstage <;> cases hstage
        · exact absurd (hqueued.symm.trans hq.1) nofun
      | rejecting => rw [hs] at hold; exact hold
      | refused => rw [hs] at hold; exact ⟨hold.1, nofun⟩
      | starting => rw [hs] at hold; exact hold
      | begun => rw [hs] at hold; exact ⟨hold.1, nofun⟩
  · simp only [if_neg hqueued]
    exact h

/-- The waiting record becomes the reservation of a new execution. -/
theorem ok_handOff (h : view.Ok) (hunbegun : view.runs.read view.runs.next = unbegun)
    (hqueued : view.queued = some record) (hfree : view.Unreserved record)
    (hparent : ∃ outcome, (view.runs.read
        (view.followUps.read record).afterExecutionId).completion = some (some outcome) ∧
      outcome.startsFollowUp = true)
    {run : TaskRun} (hreservation : run.reservation = some record) (hphase : run.phase = .admitting)
    (htext : run.lane.text = (view.followUps.read record).text) :
    Ok { view with runs := (view.runs.alloc run).2 } := by
  have hrecord := h.queued record hqueued
  have hstatus : (view.followUps.read record).status = .queued := by
    rcases hfree.waiting with hwait | hwait
    · exact hwait.2.1
    · exact absurd hqueued hwait.1
  have hself : (view.runs.alloc run).2.read view.runs.next = run := by
    rw [Heap.read_alloc, if_pos rfl]
  have hread : ∀ other, other ≠ view.runs.next →
      (view.runs.alloc run).2.read other = view.runs.read other := by
    intro other hne
    rw [Heap.read_alloc, if_neg hne]
  have hreserves : ∀ other q, ((view.runs.alloc run).2.read other).reservation = some q →
      (other = view.runs.next ∧ q = record) ∨ (other ≠ view.runs.next ∧ view.Reserves other q) := by
    intro other q hr
    by_cases heq : other = view.runs.next
    · rw [heq, hself, hreservation] at hr
      exact .inl ⟨heq, (Option.some.inj hr).symm⟩
    · rw [hread other heq] at hr
      exact .inr ⟨heq, hr⟩
  have hcompleted : ∀ other ended, (view.runs.read other).completion = some ended →
      ((view.runs.alloc run).2.read other).completion = some ended := by
    intro other ended hended
    have hne : other ≠ view.runs.next := by
      intro heq
      rw [heq, hunbegun] at hended
      cases hended
    rw [hread other hne]
    exact hended
  refine ⟨h.ids, fun other q hr => ?_, h.queued, fun other ho => ?_, h.saved,
    fun other write hw => ?_, h.failed, fun other ho => ?_⟩
  · rcases hreserves other q hr with ⟨-, rfl⟩ | ⟨-, hr⟩
    · exact hrecord
    · exact h.known other q hr
  · by_cases heq : other = record
    · subst heq
      refine .inr ⟨view.runs.next, (congrArg TaskRun.reservation hself).trans hreservation,
        fun holder hr => ?_, ?_, ?_, ?_⟩
      · rcases hreserves holder other hr with ⟨hnext, -⟩ | ⟨-, hr⟩
        · exact hnext
        · exact absurd hr (hfree.free holder)
      · dsimp only
        rw [hself, htext]
      · obtain ⟨outcome, hcompletion, hstarts⟩ := hparent
        exact ⟨outcome, hcompleted _ _ hcompletion, hstarts⟩
      · dsimp only
        rw [hself, hphase]
        exact ⟨hfree.executionId, .inl ⟨hqueued, hstatus⟩⟩
    · have hnot : view.queued ≠ some other :=
        fun hq => heq (Option.some.inj (hq.symm.trans hqueued))
      rcases h.followed other ho with hother | ⟨holder, hheld⟩
      · refine .inl ⟨fun third hr => ?_, hother.executionId, .inr ⟨hnot, ?_⟩⟩
        · rcases hreserves third other hr with ⟨-, hq⟩ | ⟨-, hr⟩
          · exact heq hq
          · exact hother.free third hr
        · rcases hother.waiting with hwait | hwait
          · exact absurd hwait.1 hnot
          · exact hwait.2
      · have hne : holder ≠ view.runs.next := by
          intro hnext
          have hr := hheld.reserves
          unfold Reserves at hr
          rw [hnext, hunbegun] at hr
          cases hr
        obtain ⟨outcome, hcompletion, hstarts⟩ := hheld.parent
        refine .inr ⟨holder, (congrArg TaskRun.reservation (hread holder hne)).trans hheld.reserves,
          fun third hr => ?_, ?_, ⟨outcome, hcompleted _ _ hcompletion, hstarts⟩, ?_⟩
        · rcases hreserves third other hr with ⟨-, hq⟩ | ⟨-, hr⟩
          · exact absurd hq heq
          · exact hheld.unique third hr
        · dsimp only
          rw [hread holder hne]
          exact hheld.text
        · dsimp only
          rw [hread holder hne]
          exact atStage_congr hheld.stage rfl rfl
  · dsimp only at hw
    by_cases heq : other = view.runs.next
    · rw [heq, hself, hphase] at hw
      cases hw
    · rw [hread other heq] at hw
      exact h.savedBy other write hw
  · dsimp only at ho
    by_cases heq : other = view.runs.next
    · rw [heq, hself, hphase] at ho
      cases ho
    · rw [hread other heq] at ho
      exact h.unsaved other ho

/-- The execution that the record waited for hands it over, and goes on with its own `settle`. -/
theorem ok_handOver (h : view.Ok) (hunbegun : view.runs.read view.runs.next = unbegun)
    (hqueued : view.queued = some record) (hfree : view.Unreserved record)
    (hparent : (view.followUps.read record).afterExecutionId = ref)
    (hcompletion : ∃ outcome, (view.runs.read ref).completion = some (some outcome) ∧
      outcome.startsFollowUp = true)
    (run : TaskRun) (hreservation : run.reservation = some record) (hphase : run.phase = .admitting)
    (htext : run.lane.text = (view.followUps.read record).text) (hbegun : ref < view.runs.next)
    {phase : RunPhase} (hold : (view.runs.read ref).phase.beginStage = .begun)
    (hnew : phase.beginStage = .begun) :
    Ok { view with
      runs := ((view.runs.modify ref fun run => { run with phase }).alloc run).2 } := by
  have hmade := ok_handOff h hunbegun hqueued hfree (hparent ▸ hcompletion) hreservation hphase htext
  have hread : (view.runs.alloc run).2.read ref = view.runs.read ref :=
    Heap.read_alloc_lt view.runs run hbegun
  rw [Heap.alloc_modify _ _ _ hbegun]
  refine ok_move ref hmade { (view.runs.alloc run).2.read ref with phase } rfl rfl
    (fun _ hended => hended) (fun other _ hstage => ?_) (fun other hother hunreserved => ?_)
    (fun write hw => ?_) fun hu => ?_
  · rw [hnew]
    rw [show FollowUpView.runs _ = _ from rfl, hread, hold] at hstage
    exact hstage
  · obtain rfl := Option.some.inj (hqueued.symm.trans hother)
    refine absurd ?_ (hunreserved.free view.runs.next)
    exact (congrArg TaskRun.reservation (Heap.read_alloc_self view.runs run)).trans hreservation
  · cases phase <;> simp_all [RunPhase.beginStage, RunPhase.savedBy]
  · have hphase' : phase = .rejectionUnsaved := hu
    rw [hphase'] at hnew
    cases hnew

end FollowUpView

namespace TaskService

def followUpView (service : TaskService) : FollowUpView :=
  ⟨service.queued, service.followUps, service.runs, service.writes, service.written,
    service.writeFailed⟩

/-! ## Steps of the service -/

section Steps

open FollowUpView

variable {service next : TaskService} {ref : Nat}

/-- A change of what the follow-ups do not depend on. -/
theorem followUps_same (h : service.followUpView.Ok)
    (hsame : next.followUpView = service.followUpView) : next.followUpView.Ok :=
  hsame ▸ h

/-- A suspended call moves to a phase of the same stage, or one that the stage allows. -/
theorem followUps_setPhase (h : service.followUpView.Ok) (phase : RunPhase)
    (hstage : ∀ record, service.followUpView.Reserves ref record →
      service.followUpView.AtStage record (service.runs.read ref).phase.beginStage →
      service.followUpView.AtStage record phase.beginStage)
    (hwaiting : service.queued ≠ none → (service.runs.read ref).phase.mayHandOff = true →
      phase.mayHandOff = true)
    (hsavedBy : ∀ write, phase.savedBy = some write → write ≤ service.writes.length)
    (hunsaved : phase = .rejectionUnsaved → service.writeFailed = true) :
    (service.setPhase ref phase).followUpView.Ok :=
  FollowUpView.ok_move ref h { service.runs.read ref with phase } rfl rfl (fun _ hended => hended)
    hstage (fun _ hqueued _ => hwaiting (by
      rw [show service.queued = _ from hqueued]
      nofun)) hsavedBy hunsaved

theorem followUps_begun (h : service.followUpView.Ok) {phase : RunPhase}
    (hold : (service.runs.read ref).phase.beginStage = .begun) (hnew : phase.beginStage = .begun)
    (hwaiting : service.queued ≠ none → (service.runs.read ref).phase.mayHandOff = true →
      phase.mayHandOff = true) :
    (service.setPhase ref phase).followUpView.Ok := by
  refine followUps_setPhase h phase (fun record _ hstage => ?_) hwaiting (fun write hw => ?_)
    fun hu => ?_
  · rw [hnew]
    exact hold ▸ hstage
  · cases phase <;> simp_all [RunPhase.beginStage, RunPhase.savedBy]
  · rw [hu] at hnew
    cases hnew

theorem unbegun_next (hlane : service.lane.Ok) :
    service.runs.read service.runs.next = unbegun :=
  hlane.unbegun _ (Nat.le_refl _)

/-- The queued record is discarded: the lane tells for which reason, if it is being started. -/
theorem followUps_discardQueued (h : service.followUpView.Ok) {reason : String}
    (hreason : ∀ record, service.queued = some record → ∀ ref,
      service.followUpView.Reserves ref record → (service.runs.read ref).phase.use ≠ .free →
      reason = "cancelled") :
    (service.discardQueued reason).followUpView.Ok := by
  unfold discardQueued
  split
  · next record hqueued => exact FollowUpView.ok_discardQueued h hqueued reason (hreason record hqueued)
  · exact h

theorem followUps_admissionAccepted (h : service.followUpView.Ok) (hostExecutionId : Nat)
    (hphase : (service.runs.read ref).phase = .admitting) :
    (service.admissionAccepted ref hostExecutionId).followUpView.Ok := by
  unfold admissionAccepted
  dsimp only
  rw [Heap.read_modify_self]
  split
  · next hreservation =>
    simp only [followUpView, setPhase, Heap.modify_modify]
    refine FollowUpView.ok_move ref h { service.runs.read ref with admitted := true, phase := .running }
      rfl rfl (fun _ hended => hended) (fun record hr => ?_) (fun _ _ _ _ => rfl)
      (fun _ hw => absurd hw (Option.some_ne_none _).symm) fun hu => RunPhase.noConfusion hu
    exact absurd (hr.symm.trans hreservation) (Option.some_ne_none _)
  · next record hreservation =>
    simp only [followUpView, setPhase, saveFollowUp, Heap.modify_modify]
    refine FollowUpView.ok_stamp h hreservation hphase (fun followUp => { followUp with
        executionId := some hostExecutionId
        status := if followUp.status = .queued then .started else followUp.status })
      (fun _ => rfl) (fun _ => rfl) (fun _ => rfl) { service.runs.read ref with
        admitted := true
        phase := .savingStarted (service.writes.length + 1) } rfl rfl rfl
      (fun write hw => Nat.le_of_eq (Option.some.inj hw).symm)
      (fun hu => RunPhase.noConfusion hu) fun hstage => ?_
    unfold FollowUpView.AtStage at hstage ⊢
    dsimp only [RunPhase.beginStage] at hstage ⊢
    rw [Heap.read_modify_self]
    refine ⟨Option.some_ne_none _, ?_⟩
    rcases hstage.2 with ⟨-, hstatus⟩ | ⟨-, hstatus, hreason⟩
    · exact .inl (if_pos hstatus)
    · refine .inr ⟨?_, hreason⟩
      show (if _ then _ else _) = _
      rw [hstatus]
      rfl

/-- The refusal of an execution without a reservation, or with a record that is discarded. -/
theorem followUps_refuse (h : service.followUpView.Ok)
    (hphase : (service.runs.read ref).phase = .admitting)
    (hstatus : ∀ record, service.followUpView.Reserves ref record → service.queued ≠ some record) :
    (service.refuse ref).followUpView.Ok := by
  refine FollowUpView.ok_move ref h { service.runs.read ref with phase := .refused } rfl rfl
    (fun _ hended => hended) (fun record hr hstage => ?_) (fun _ _ _ hmay => ?_) nofun nofun
  · rw [show (service.followUpView.runs.read ref).phase = _ from hphase] at hstage
    rcases hstage.2 with hqueued | hdiscarded
    · exact absurd hqueued.1 (hstatus record hr)
    · exact ⟨⟨hstage.1, .inr hdiscarded.2.1⟩, hstatus record hr⟩
  · rw [show (service.followUpView.runs.read ref).phase = _ from hphase] at hmay
    cases hmay

/-- The refusal of an execution whose record is saved as it is stamped. -/
theorem followUps_admissionFailed (h : service.followUpView.Ok)
    (hphase : (service.runs.read ref).phase = .admitting) :
    (service.admissionFailed ref).followUpView.Ok := by
  unfold admissionFailed
  dsimp only
  split
  · next hreservation =>
    refine followUps_refuse h hphase fun record hr => ?_
    exact absurd (hr.symm.trans hreservation) nofun
  · next record hreservation =>
    have hstage := FollowUpView.Ok.stage h hreservation
    rw [show (service.followUpView.runs.read ref).phase = _ from hphase] at hstage
    split
    · rcases hstage.2 with ⟨hqueued, -⟩ | ⟨hqueued, -⟩
      · have hdiscarded : (service.discard record "cancelled").followUpView.Ok :=
          FollowUpView.ok_discardQueued h hqueued "cancelled" fun _ _ _ => rfl
        exact followUps_refuse hdiscarded hphase fun _ _ => nofun
      · have hstamped := FollowUpView.ok_stamp h hreservation hphase (fun followUp =>
            { followUp with status := .discarded, reason := some "cancelled" })
          (fun _ => rfl) (fun _ => rfl) (fun _ => rfl)
          { service.runs.read ref with phase := .refused } rfl rfl rfl nofun nofun fun _ => ?_
        · rw [show service.followUpView = ⟨none, service.followUps, service.runs, service.writes,
            service.written, service.writeFailed⟩ from by rw [← hqueued]; rfl] at hstamped
          exact hstamped
        · unfold FollowUpView.AtStage StartRefused
          dsimp only [RunPhase.beginStage]
          rw [Heap.read_modify_self]
          exact ⟨⟨hstage.1, .inr rfl⟩, by rw [hqueued]; nofun⟩
    · split
      · refine FollowUpView.ok_stamp h hreservation hphase (fun followUp =>
            { followUp with status := .startRejected, reason := some "admissionFailed" })
          (fun _ => rfl) (fun _ => rfl) (fun _ => rfl)
          { service.runs.read ref with phase := .savingRejected (service.writes.length + 1) }
          rfl rfl rfl (fun write hw => by cases hw; exact Nat.le_refl _) nofun fun _ => ?_
        unfold FollowUpView.AtStage StartRefused
        dsimp only [RunPhase.beginStage]
        rw [Heap.read_modify_self]
        exact ⟨hstage.1, .inl rfl⟩
      · next hstatus =>
        refine followUps_refuse h hphase fun other hr hqueued => ?_
        obtain rfl := Option.some.inj (hr.symm.trans hreservation)
        rcases hstage.2 with hwaiting | hdiscarded
        · exact hstatus hwaiting.2
        · exact absurd (hqueued.symm.trans hdiscarded.1) nofun

theorem followUps_completed (h : service.followUpView.Ok) (hlane : service.lane.Ok)
    (ended : Option Completed) (hphase : (service.runs.read ref).phase = .running) :
    (service.completed ref ended).followUpView.Ok := by
  have hpart := hostPart_of_phase hlane hphase (by decide)
  unfold RunPhase.HostPart at hpart
  rw [hphase] at hpart
  refine FollowUpView.ok_move ref h { service.runs.read ref with
      completion := some ended
      phase := .persisting ended } rfl rfl (fun _ hended => ?_) (fun record _ hstage => ?_)
    (fun _ _ _ _ => rfl) nofun nofun
  · exact absurd (hended.symm.trans hpart.2) nofun
  · rw [show (service.followUpView.runs.read ref).phase = _ from hphase] at hstage
    exact hstage

/-- While the completion of one execution is saved, no other one is being started. -/
theorem startsNothing (hlane : service.lane.Ok)
    (huse : (service.runs.read ref).phase.use ≠ .free) {other : Nat} (hne : other ≠ ref) :
    (service.runs.read other).phase.use = .free :=
  (LaneView.Ok.owner hlane huse).1 other hne

theorem followUps_completionSaved (h : service.followUpView.Ok) (hlane : service.lane.Ok)
    {ended : Option Completed} (hphase : (service.runs.read ref).phase = .persisting ended) :
    (service.completionSaved ref ended).followUpView.Ok := by
  have huse : (service.runs.read ref).phase.use ≠ .free := by
    rw [hphase]
    simp [RunPhase.use]
  have hbegun : (service.runs.read ref).phase.beginStage = .begun := by
    rw [hphase]
    rfl
  cases ended with
  | none =>
    have hleft : service.leaveLane.followUpView.Ok := h
    have hdiscarded : (service.leaveLane.discardQueued "failed").followUpView.Ok := by
      refine followUps_discardQueued hleft fun record hqueued other hr hused => ?_
      exfalso
      have hself : other = ref := by
        by_contra hne
        exact hused (startsNothing hlane huse hne)
      subst hself
      have hstage := FollowUpView.Ok.stage h hr
      rw [show (service.followUpView.runs.read other).phase.beginStage = _ from hbegun] at hstage
      exact hstage.2 hqueued
    have hruns : (service.leaveLane.discardQueued "failed").runs = service.runs :=
      runs_discardQueued service.leaveLane "failed"
    refine followUps_begun hdiscarded (by rw [hruns]; exact hbegun) rfl fun hqueued _ => ?_
    refine absurd ?_ hqueued
    unfold discardQueued
    split
    · rfl
    · next hnone => exact hnone
  | some outcome => exact followUps_begun h hbegun rfl fun _ _ => rfl

/-- A flush that is over leaves no rejected start to be saved, so that a record that is still
queued waits for the execution that owns the lane. -/
theorem unreserved_of_flushed (h : service.followUpView.Ok) (hlane : service.lane.Ok)
    {outcome : Completed} {write record : Nat}
    (hphase : (service.runs.read ref).phase = .flushing outcome write)
    (hwritten : write ≤ service.written) (hwrites : write = service.writes.length)
    (hfirst : service.BeginsFirst write) (hqueued : service.queued = some record) :
    service.followUpView.Unreserved record ∧
      (service.followUps.read record).afterExecutionId = ref := by
  have huse : (service.runs.read ref).phase.use ≠ .free := by
    rw [hphase]
    simp [RunPhase.use]
  have hunfailed : service.writeFailed = false := by
    by_contra hfailed
    have hlt : service.written < service.writes.length := h.failed (Bool.not_eq_false _ ▸ hfailed)
    omega
  rcases h.followed record (h.queued record hqueued) with hfree | ⟨holder, hheld⟩
  · refine ⟨hfree, ?_⟩
    by_contra hne
    rcases hfree.waiting with hwait | hwait
    · exact RunPhase.use_of_mayHandOff hwait.2.2 (startsNothing hlane huse hne)
    · exact hwait.1 hqueued
  · exfalso
    have hstage := hheld.stage
    have hnotOwner : (service.runs.read holder).phase.beginStage ≠ .begun →
        (service.runs.read holder).phase.use = .free := by
      intro hbegun
      refine startsNothing hlane huse fun heq => hbegun ?_
      rw [heq, hphase]
      rfl
    cases hp : (service.runs.read holder).phase with
    | savingRejected saved =>
      have hle : saved ≤ service.writes.length := h.savedBy holder saved (by
        show (service.runs.read holder).phase.savedBy = _
        rw [hp]
        rfl)
      have hbefore := hfirst holder (begun_of_phase hlane hp (by simp))
      rw [hp] at hbefore
      simp only [RunPhase.savedBy, Option.all_some, decide_eq_true_eq] at hbefore
      omega
    | rejectionUnsaved =>
      have hfailed : service.writeFailed = true := h.unsaved holder hp
      rw [hunfailed] at hfailed
      cases hfailed
    | admitting | savingStarted | startUnsaved =>
      have hfree := hnotOwner (by rw [hp]; simp [RunPhase.beginStage])
      rw [hp] at hfree
      cases hfree
    | running | persisting | flushing | releasing | flushingFailed | handingOff | awaitingChild
    | refused | settled | completionUnsaved | flushBroken =>
      rw [show (service.followUpView.runs.read holder).phase = _ from hp] at hstage
      exact hstage.2 hqueued

theorem followUps_handOff (h : service.followUpView.Ok) (hlane : service.lane.Ok)
    {outcome : Completed} {write : Nat} (sessionId : String)
    (hphase : (service.runs.read ref).phase = .flushing outcome write)
    (hwritten : write ≤ service.written) (hwrites : write = service.writes.length)
    (hfirst : service.BeginsFirst write) :
    (service.handOff ref outcome sessionId).followUpView.Ok := by
  have hbegun : (service.runs.read ref).phase.beginStage = .begun := by
    rw [hphase]
    rfl
  have hpart := hostPart_of_phase hlane hphase (by simp)
  unfold RunPhase.HostPart at hpart
  rw [hphase] at hpart
  have hrefBegun := begun_of_phase hlane hphase (by simp)
  unfold handOff
  split
  · next hnone => exact followUps_begun h hbegun rfl fun hqueued _ => absurd hnone hqueued
  · next record hqueued =>
    obtain ⟨hfree, hafter⟩ :=
      unreserved_of_flushed h hlane hphase hwritten hwrites hfirst hqueued
    split
    · next hstarts =>
      exact FollowUpView.ok_handOver h (unbegun_next hlane) hqueued hfree hafter
        ⟨outcome, hpart.2, (Bool.and_eq_true_iff.mp hstarts).2⟩ _ rfl rfl rfl hrefBegun hbegun rfl
    · have hdiscarded : ∀ reason, (service.discard record reason).followUpView.Ok := fun reason =>
        FollowUpView.ok_discardQueued h hqueued reason fun holder hr => absurd hr (hfree.free holder)
      exact followUps_begun (hdiscarded _) hbegun rfl fun hqueued _ => absurd rfl hqueued

theorem followUps_flush (h : service.followUpView.Ok) {write : Nat} {waiting : Nat → RunPhase}
    {done : TaskService} (hflush : service.flush ref write waiting done = some next)
    (hold : (service.runs.read ref).phase.beginStage = .begun)
    (hwaiting : ∀ write, (waiting write).beginStage = .begun ∧
      ((service.runs.read ref).phase.mayHandOff = true → (waiting write).mayHandOff = true))
    (hdone : write ≤ service.written → write = service.writes.length → service.BeginsFirst write →
      done.followUpView.Ok) : next.followUpView.Ok := by
  unfold flush at hflush
  split at hflush
  · next hwritten =>
    split at hflush
    · cases hflush
    · next hfirst =>
      split at hflush
      · next hwrites =>
        cases hflush
        exact hdone hwritten hwrites (Decidable.not_not.mp hfirst)
      · cases hflush
        exact followUps_begun h hold (hwaiting _).1 fun _ => (hwaiting _).2
  · split at hflush
    · cases hflush
      exact followUps_begun h hold rfl fun _ _ => rfl
    · cases hflush

/-- A `begin` whose write is done. -/
theorem followUps_released (h : service.followUpView.Ok) {record : Nat} (phase : RunPhase)
    (hreservation : (service.runs.read ref).reservation = some record)
    (hstage : ((service.runs.read ref).phase.beginStage = .rejecting ∧ phase = .refused) ∨
      ((service.runs.read ref).phase.beginStage = .starting ∧ phase = .running)) :
    ((service.release record).setPhase ref phase).followUpView.Ok := by
  have hreleased : (service.release record).followUpView.Ok := by
    have hok := FollowUpView.ok_release h hreservation (hstage.imp And.left And.left)
    unfold release
    by_cases hqueued : service.queued = some record
    · rw [if_pos hqueued]
      rw [show service.followUpView.queued = _ from hqueued, if_pos rfl] at hok
      exact hok
    · rw [if_neg hqueued]
      exact h
  have hnot : (service.release record).queued ≠ some record := by
    unfold release
    split
    · nofun
    · next hne => exact hne
  have hruns : (service.release record).runs = service.runs := runs_release record
  refine followUps_setPhase hreleased phase (fun other hr hold => ?_) (fun _ hmay => ?_)
    (fun write hw => ?_) fun hu => ?_
  · have hr : ((service.release record).runs.read ref).reservation = some other := hr
    rw [hruns] at hr hold
    obtain rfl := Option.some.inj (hreservation.symm.trans hr)
    rcases hstage with ⟨hs, rfl⟩ | ⟨hs, rfl⟩
    · rw [hs] at hold
      exact ⟨hold, hnot⟩
    · rw [hs] at hold
      exact ⟨hold, hnot⟩
  · rw [hruns] at hmay
    rcases hstage with ⟨hs, rfl⟩ | ⟨hs, rfl⟩
    · cases hp : (service.runs.read ref).phase <;> rw [hp] at hs hmay <;>
        simp_all [RunPhase.beginStage, RunPhase.mayHandOff]
    · rfl
  · rcases hstage with ⟨-, rfl⟩ | ⟨-, rfl⟩ <;> cases hw
  · rcases hstage with ⟨-, rfl⟩ | ⟨-, rfl⟩ <;> cases hu

theorem followUps_resume (h : service.followUpView.Ok) (hlane : service.lane.Ok)
    {sessionId : String} (hstep : service.resume ref sessionId = some next) :
    next.followUpView.Ok := by
  unfold resume at hstep
  cases hphase : (service.runs.read ref).phase with
  | savingRejected write =>
    have hle : write ≤ service.writes.length := h.savedBy ref write (by
      show (service.runs.read ref).phase.savedBy = _
      rw [hphase]
      rfl)
    rw [hphase] at hstep
    dsimp only at hstep
    split at hstep
    · cases hstep
      unfold rejectionSaved
      split
      · next record hreservation =>
        exact followUps_released h .refused hreservation (.inl ⟨by rw [hphase]; rfl, rfl⟩)
      · next hreservation =>
        refine followUps_setPhase h .refused (fun record hr _ => ?_) (fun _ hmay => ?_) nofun nofun
        · exact absurd (hr.symm.trans hreservation) nofun
        · rw [hphase] at hmay
          cases hmay
    · split at hstep
      · next hfailed =>
        cases hstep
        refine followUps_setPhase h .rejectionUnsaved (fun record _ hstage => ?_)
          (fun _ hmay => ?_) nofun fun _ => hfailed
        · rw [hphase] at hstage
          exact hstage
        · rw [hphase] at hmay
          cases hmay
      · cases hstep
  | savingStarted write =>
    rw [hphase] at hstep
    dsimp only at hstep
    split at hstep
    · cases hstep
      unfold startSaved
      split
      · next record hreservation =>
        exact followUps_released h .running hreservation (.inr ⟨by rw [hphase]; rfl, rfl⟩)
      · next hreservation =>
        refine followUps_setPhase h .running (fun record hr _ => ?_) (fun _ _ => rfl) nofun nofun
        exact absurd (hr.symm.trans hreservation) nofun
    · split at hstep
      · cases hstep
        refine followUps_setPhase h .startUnsaved (fun record _ hstage => ?_)
          (fun _ _ => rfl) nofun nofun
        rw [hphase] at hstage
        exact hstage
      · cases hstep
  | flushing outcome write =>
    rw [hphase] at hstep
    exact followUps_flush h hstep (by rw [hphase]; rfl) (fun _ => ⟨rfl, fun _ => rfl⟩)
      fun hwritten hwrites hfirst =>
        followUps_handOff h hlane sessionId hphase hwritten hwrites hfirst
  | releasing write =>
    have hmay : (service.runs.read ref).phase.mayHandOff ≠ true := by
      rw [hphase]
      nofun
    rw [hphase] at hstep
    refine followUps_flush h hstep (by rw [hphase]; rfl) (fun _ => ⟨rfl, fun hm => absurd hm hmay⟩)
      fun _ _ _ => ?_
    exact followUps_begun h (by rw [hphase]; rfl) rfl fun _ hm => absurd hm hmay
  | flushingFailed write =>
    have hmay : (service.runs.read ref).phase.mayHandOff ≠ true := by
      rw [hphase]
      nofun
    rw [hphase] at hstep
    refine followUps_flush h hstep (by rw [hphase]; rfl) (fun _ => ⟨rfl, fun hm => absurd hm hmay⟩)
      fun _ _ _ => ?_
    exact followUps_begun h (by rw [hphase]; rfl) rfl fun _ hm => absurd hm hmay
  | handingOff child =>
    rw [hphase] at hstep
    dsimp only at hstep
    split at hstep <;> cases hstep <;>
      exact followUps_begun h (by rw [hphase]; rfl) rfl fun _ hm => by rw [hphase] at hm; cases hm
  | awaitingChild child =>
    rw [hphase] at hstep
    dsimp only at hstep
    split at hstep <;> cases hstep <;>
      exact followUps_begun h (by rw [hphase]; rfl) rfl fun _ hm => by rw [hphase] at hm; cases hm
  | admitting | running | persisting | refused | settled | rejectionUnsaved | startUnsaved
  | completionUnsaved | flushBroken =>
    rw [hphase] at hstep
    cases hstep

theorem followUps_queueFollowUp (h : service.followUpView.Ok) (hlane : service.lane.Ok)
    (afterExecutionId : Nat) (text : JsText) (commandId : String) :
    (service.queueFollowUp afterExecutionId text commandId).followUpView.Ok := by
  unfold queueFollowUp
  split
  · exact h
  · next active hactive =>
    split
    · exact h
    · next hopen =>
      simp only [not_or, ne_eq, Decidable.not_not, Bool.not_eq_true, Option.isSome_eq_false_iff,
        Option.isNone_iff_eq_none] at hopen
      obtain ⟨hid, hpreparing, -, hqueued⟩ := hopen
      -- The active execution owns the lane.
      obtain ⟨owner, hothers, hfields⟩ := hlane.owned
      unfold LaneView.Fields at hfields
      have hactive' : service.lane.active = some active := hactive
      have hnotPreparing : service.lane.preparing = false := hpreparing
      have howner : (service.runs.read owner).phase.use = .active ∧
          (service.runs.read owner).lane = active := by
        cases hu : (service.runs.read owner).phase.use <;>
          rw [show (service.lane.runs.read owner).phase.use = _ from hu] at hfields <;>
          rw [hactive', hnotPreparing] at hfields
        · exact absurd hfields.1 nofun
        · exact absurd hfields.2.1 nofun
        · exact ⟨rfl, (Option.some.inj hfields.1).symm⟩
        · exact absurd hfields.1 nofun
      have hbegun : owner < service.runs.next := by
        refine LaneView.Ok.begun hlane fun hsettled => ?_
        rw [show (service.runs.read owner).phase = _ from hsettled] at howner
        exact absurd howner.1 nofun
      have hownerId : owner = afterExecutionId := by
        rw [← hid, ← howner.2]
        exact (hlane.ids owner hbegun).symm
      refine FollowUpView.ok_queue h hqueued (fun ref hadmitting => ?_) _ rfl rfl rfl ?_
      · have huse : (service.lane.runs.read ref).phase.use ≠ .free := by
          rw [show (service.lane.runs.read ref).phase = _ from hadmitting]
          decide
        have hself := (LaneView.Ok.owner hlane huse).2
        unfold LaneView.Fields at hself
        rw [show (service.lane.runs.read ref).phase = _ from hadmitting] at hself
        exact absurd (hself.2.1.symm.trans hnotPreparing) nofun
      · show (service.runs.read afterExecutionId).phase.mayHandOff = true
        rw [← hownerId]
        have huse := howner.1
        cases hp : (service.runs.read owner).phase <;> rw [hp] at huse <;>
          first | rfl | cases huse

theorem followUpView_steer (executionId : Nat) (text : JsText) (commandId : String) :
    (service.steer executionId text commandId).followUpView = service.followUpView := by
  unfold steer
  split
  · rfl
  · split <;> rfl

theorem followUpView_steerEnded (call : SteerCall) (ended : SteerEnd) :
    (service.steerEnded call ended).followUpView = service.followUpView := by
  unfold steerEnded
  dsimp only
  split
  · rfl
  · cases ended with
    | accepted => dsimp only; split <;> rfl
    | alreadyAccepted | idle | threw => rfl

theorem followUpView_observeSteeringApplied (executionId : Nat) :
    (service.observeSteeringApplied executionId).followUpView = service.followUpView := by
  unfold observeSteeringApplied
  split <;> rfl

/-- Every event keeps the invariant of the follow-ups. -/
theorem followUps_step (h : service.followUpView.Ok) (hlane : service.lane.Ok) {event : TaskEvent}
    (hstep : service.step event = some next) : next.followUpView.Ok := by
  cases event with
  | admitTask sessionId text commandId =>
    simp only [step] at hstep
    split at hstep
    · cases hstep
      exact h
    · cases hstep
      exact FollowUpView.ok_begin h (unbegun_next hlane) rfl rfl
  | steer executionId text commandId =>
    cases hstep
    exact followUps_same h (followUpView_steer _ _ _)
  | steerEnded call ended =>
    simp only [step] at hstep
    split at hstep
    · cases hstep
      exact followUps_same h (followUpView_steerEnded _ _)
    · cases hstep
  | queueFollowUp afterExecutionId text commandId =>
    cases hstep
    exact followUps_queueFollowUp h hlane _ _ _
  | cancel executionId result =>
    cases hstep
    unfold cancel
    split
    · exact h
    · have hrequested :
          (TaskService.followUpView { service with cancellationRequested := true }).Ok := h
      exact followUps_discardQueued hrequested fun _ _ _ _ _ => rfl
  | observeSteeringApplied executionId =>
    cases hstep
    exact followUps_same h (followUpView_observeSteeringApplied _)
  | close =>
    cases hstep
    exact h
  | hostAdmitted ref hostExecutionId =>
    simp only [step] at hstep
    split at hstep
    · next hphase =>
      cases hstep
      exact followUps_admissionAccepted h hostExecutionId hphase
    · cases hstep
  | hostRefused ref =>
    simp only [step] at hstep
    split at hstep
    · next hphase =>
      cases hstep
      exact followUps_admissionFailed h hphase
    · cases hstep
  | hostCompleted ref ended =>
    simp only [step] at hstep
    split at hstep
    · next hphase =>
      cases hstep
      exact followUps_completed h hlane ended hphase
    · cases hstep
  | completionPersisted ref ok =>
    simp only [step] at hstep
    split at hstep
    · next hphase =>
      split at hstep
      · cases hstep
        exact followUps_completionSaved h hlane hphase
      · cases hstep
        exact followUps_begun h (by rw [hphase]; rfl) rfl fun _ _ => rfl
    · cases hstep
  | followUpPersisted ok =>
    simp only [step] at hstep
    split at hstep
    · next hpending =>
      split at hstep
      · cases hstep
        exact FollowUpView.ok_persisted h
          (fun hf => Bool.noConfusion (hpending.2.symm.trans hf)) id
      · cases hstep
        exact FollowUpView.ok_persisted h (fun _ => hpending.1) fun _ => rfl
    · cases hstep
  | resume ref sessionId => exact followUps_resume h hlane hstep

theorem followUps_start : start.followUpView.Ok where
  ids _ h := absurd h (Nat.not_lt_zero _)
  known _ _ h := nomatch h
  queued _ h := nomatch h
  followed _ h := absurd h (Nat.not_lt_zero _)
  saved _ h := absurd h (Nat.not_lt_zero _)
  savedBy _ _ h := nomatch h
  failed h := nomatch h
  unsaved _ h := nomatch h

/-! ## Statuses -/

/-- The queued record has left `queued`: the write of its start, or of its rejected start, is
pending. -/
def SavingStart (service : TaskService) : Prop :=
  ∃ record, service.queued = some record ∧ (service.followUps.read record).status ≠ .queued

/-- An event that discards the queued record although its start, or its rejected start, is being
saved: a cancellation, or the failure of a later execution. -/
def Late (service : TaskService) : TaskEvent → Prop
  | .cancel executionId result => service.active.map TaskLane.executionId = some executionId ∧
      result ≠ .idle ∧ service.SavingStart
  | .completionPersisted ref ok =>
    ok = true ∧ (service.runs.read ref).phase = .persisting none ∧ service.SavingStart
  | _ => False

/-- Discarding the queued record touches a record that has left `queued` only late. -/
theorem status_discardQueued (service : TaskService) {record : Nat} (reason : String)
    (hstatus : (service.followUps.read record).status ≠ .queued) (hlate : ¬ service.SavingStart) :
    ((service.discardQueued reason).followUps.read record).status =
      (service.followUps.read record).status := by
  unfold discardQueued
  split
  · next queued hqueued =>
    have hne : record ≠ queued := fun heq => hlate ⟨queued, hqueued, heq ▸ hstatus⟩
    simp only [discard, saveFollowUp]
    rw [Heap.read_modify_ne _ _ hne]
  · rfl

/-- What a flush that is over does decides about a round of the flush. -/
theorem status_flush {write record : Nat} {waiting : Nat → RunPhase} {done : TaskService}
    (hflush : service.flush ref write waiting done = some next)
    (hdone : write ≤ service.written → write = service.writes.length → service.BeginsFirst write →
      (done.followUps.read record).status = (service.followUps.read record).status) :
    (next.followUps.read record).status = (service.followUps.read record).status := by
  unfold flush at hflush
  split at hflush
  · next hwritten =>
    split at hflush
    · cases hflush
    · next hfirst =>
      split at hflush
      · next hwrites =>
        cases hflush
        exact hdone hwritten hwrites (Decidable.not_not.mp hfirst)
      · cases hflush
        rfl
  · split at hflush <;> cases hflush
    rfl

theorem status_handOff (h : service.followUpView.Ok) (hlane : service.lane.Ok)
    {outcome : Completed} {write record : Nat} (sessionId : String)
    (hphase : (service.runs.read ref).phase = .flushing outcome write)
    (hwritten : write ≤ service.written) (hwrites : write = service.writes.length)
    (hfirst : service.BeginsFirst write)
    (hstatus : (service.followUps.read record).status ≠ .queued) :
    ((service.handOff ref outcome sessionId).followUps.read record).status =
      (service.followUps.read record).status := by
  unfold handOff
  split
  · rfl
  · next queued hqueued =>
    split
    · rfl
    · have hfree := (unreserved_of_flushed h hlane hphase hwritten hwrites hfirst hqueued).1
      have hne : record ≠ queued := by
        rintro rfl
        rcases hfree.waiting with hwait | hwait
        · exact hstatus hwait.2.1
        · exact hwait.1 hqueued
      simp only [discard, saveFollowUp, setPhase]
      rw [Heap.read_modify_ne _ _ hne]

theorem status_admissionFailed (h : service.followUpView.Ok) {record : Nat}
    (hphase : (service.runs.read ref).phase = .admitting)
    (hstatus : (service.followUps.read record).status ≠ .queued) :
    ((service.admissionFailed ref).followUps.read record).status =
      (service.followUps.read record).status := by
  unfold admissionFailed
  dsimp only
  split
  · rfl
  · next reserved hreservation =>
    have hstage := FollowUpView.Ok.stage h hreservation
    rw [show (service.followUpView.runs.read ref).phase = _ from hphase] at hstage
    split
    · simp only [discard, saveFollowUp, refuse, publish, setPhase]
      rw [Heap.read_modify]
      split
      · next heq =>
        subst heq
        rcases hstage.2 with hwaiting | hdiscarded
        · exact absurd hwaiting.2 hstatus
        · exact hdiscarded.2.1.symm
      · rfl
    · split
      · next hqueued =>
        have hne : record ≠ reserved := fun heq => hstatus (heq ▸ hqueued)
        simp only [saveFollowUp, setPhase]
        rw [Heap.read_modify_ne _ _ hne]
      · rfl

theorem status_admissionAccepted {record : Nat} (hostExecutionId : Nat)
    (hstatus : (service.followUps.read record).status ≠ .queued) :
    ((service.admissionAccepted ref hostExecutionId).followUps.read record).status =
      (service.followUps.read record).status := by
  unfold admissionAccepted
  dsimp only
  split
  · rfl
  · simp only [saveFollowUp, setPhase]
    rw [Heap.read_modify]
    split
    · next heq =>
      subst heq
      exact if_neg hstatus
    · rfl

theorem status_resume (h : service.followUpView.Ok) (hlane : service.lane.Ok) {record : Nat}
    {sessionId : String} (hstep : service.resume ref sessionId = some next)
    (hstatus : (service.followUps.read record).status ≠ .queued) :
    (next.followUps.read record).status = (service.followUps.read record).status := by
  have hrelease : ∀ reserved, (service.release reserved).followUps = service.followUps := by
    intro reserved
    unfold release
    split <;> rfl
  unfold resume at hstep
  cases hphase : (service.runs.read ref).phase with
  | savingRejected write =>
    rw [hphase] at hstep
    dsimp only at hstep
    split at hstep
    · cases hstep
      unfold rejectionSaved
      split
      · exact congrArg (fun heap => (Heap.read heap record).status) (hrelease _)
      · rfl
    · split at hstep <;> cases hstep
      rfl
  | savingStarted write =>
    rw [hphase] at hstep
    dsimp only at hstep
    split at hstep
    · cases hstep
      unfold startSaved
      split
      · exact congrArg (fun heap => (Heap.read heap record).status) (hrelease _)
      · rfl
    · split at hstep <;> cases hstep
      rfl
  | flushing outcome write =>
    rw [hphase] at hstep
    exact status_flush hstep fun hwritten hwrites hfirst =>
      status_handOff h hlane sessionId hphase hwritten hwrites hfirst hstatus
  | releasing write =>
    rw [hphase] at hstep
    exact status_flush hstep fun _ _ _ => rfl
  | flushingFailed write =>
    rw [hphase] at hstep
    exact status_flush hstep fun _ _ _ => rfl
  | handingOff child =>
    rw [hphase] at hstep
    dsimp only at hstep
    split at hstep <;> cases hstep <;> rfl
  | awaitingChild child =>
    rw [hphase] at hstep
    dsimp only at hstep
    split at hstep <;> cases hstep <;> rfl
  | admitting | running | persisting | refused | settled | rejectionUnsaved | startUnsaved
  | completionUnsaved | flushBroken =>
    rw [hphase] at hstep
    cases hstep

/-- A record that has left `queued` keeps its status in every step that is not late. -/
theorem status_step (h : service.followUpView.Ok) (hlane : service.lane.Ok) {event : TaskEvent}
    {record : Nat} (hrecord : record < service.followUps.next)
    (hstatus : (service.followUps.read record).status ≠ .queued)
    (hlate : ¬ service.Late event) (hstep : service.step event = some next) :
    (next.followUps.read record).status = (service.followUps.read record).status := by
  cases event with
  | admitTask sessionId text commandId =>
    simp only [step] at hstep
    split at hstep <;> cases hstep <;> rfl
  | steer executionId text commandId =>
    cases hstep
    have hview : (service.steer executionId text commandId).followUps = service.followUps :=
      congrArg FollowUpView.followUps (followUpView_steer _ _ _)
    rw [hview]
  | steerEnded call ended =>
    simp only [step] at hstep
    split at hstep
    · cases hstep
      have hview : (service.steerEnded call ended).followUps = service.followUps :=
        congrArg FollowUpView.followUps (followUpView_steerEnded _ _)
      rw [hview]
    · cases hstep
  | queueFollowUp afterExecutionId text commandId =>
    cases hstep
    unfold queueFollowUp
    split
    · rfl
    · split
      · rfl
      · simp only [saveFollowUp]
        rw [Heap.read_alloc_lt _ _ hrecord]
  | cancel executionId result =>
    cases hstep
    unfold cancel
    split
    · rfl
    · next hcancel =>
      rw [not_or, not_not] at hcancel
      exact status_discardQueued { service with cancellationRequested := true } "cancelled"
        hstatus fun hsaving => hlate ⟨hcancel.1, hcancel.2, hsaving⟩
  | observeSteeringApplied executionId =>
    cases hstep
    have hview : (service.observeSteeringApplied executionId).followUps = service.followUps :=
      congrArg FollowUpView.followUps (followUpView_observeSteeringApplied _)
    rw [hview]
  | close =>
    cases hstep
    rfl
  | hostAdmitted ref hostExecutionId =>
    simp only [step] at hstep
    split at hstep
    · cases hstep
      exact status_admissionAccepted hostExecutionId hstatus
    · cases hstep
  | hostRefused ref =>
    simp only [step] at hstep
    split at hstep
    · next hphase =>
      cases hstep
      exact status_admissionFailed h hphase hstatus
    · cases hstep
  | hostCompleted ref ended =>
    simp only [step] at hstep
    split at hstep <;> cases hstep
    rfl
  | completionPersisted ref ok =>
    simp only [step] at hstep
    split at hstep
    · next ended hphase =>
      split at hstep
      · next hok =>
        cases hstep
        cases ended with
        | none =>
          exact status_discardQueued service.leaveLane "failed" hstatus
            fun hsaving => hlate ⟨hok, hphase, hsaving⟩
        | some outcome => rfl
      · cases hstep
        rfl
    · cases hstep
  | followUpPersisted ok =>
    simp only [step] at hstep
    split at hstep
    · split at hstep <;> cases hstep <;> rfl
    · cases hstep
  | resume ref sessionId => exact status_resume h hlane hstep hstatus

end Steps

end TaskService

end Henji
