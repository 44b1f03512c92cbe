import Henji.Data.ConversationDelivery

/-!
# Overflow and convergence of the conversation watch

An overflow drops the queue, not the update that the pump has already taken out of it. A listener
that was there receives that update, if it is still to be called with it, and then a snapshot.

Results:
1. `overflow_resyncs`: what a listener receives after an overflow.
2. `quiet_converges`: a pump that has come to rest after the last publication, with no delivery
   that failed, has left every listener at the writer's cut.
3. `pump_decreases`, `pump_can_move`: a pump comes to rest, and is not stuck before.
-/

namespace Henji

/-- The update that a pump has taken out of the queue, up to its descriptor. -/
def PumpPhase.InHand (update : ConversationUpdate) : PumpPhase → Prop
  | .readingDescriptor delta sequence => update.cut = delta.cut ∧
      update.storeRevision = delta.storeRevision ∧ update.bytes = delta.bytes ∧
      update.deliverySequence = sequence ∧ update.snapshot = false
  | .calling calledWith _ _ => update = calledWith
  | _ => False

namespace WatchService

/-! ## Overflow -/

-- `hand` is what the pump had in hand, `target` the listener that is due a snapshot.
variable {hand : ConversationUpdate → Prop} {target : WatchTarget} {entry : WatchEntry}

/-- The entry calls the target with nothing but updates in hand before a snapshot. -/
def Due (hand : ConversationUpdate → Prop) (target : WatchTarget) (entry : WatchEntry) : Prop :=
  match entry.phase with
  | .idle => target ∈ entry.listeners → entry.needsResync = true
  | .readingSnapshot _ => True
  | .snapshotRead update => update.snapshot = true ∧ (target ∈ entry.listeners →
      target.afterCut < update.cut ∨ entry.needsResync = true)
  | .readingDescriptor delta sequence => target ∈ entry.listeners →
      (∀ update, PumpPhase.InHand update (.readingDescriptor delta sequence) → hand update) ∧
      entry.needsResync = true
  | .calling update remaining _ =>
      (target ∈ remaining → update.snapshot = true ∨ hand update) ∧
      (target ∈ entry.listeners →
        (update.snapshot = true ∧ target ∈ remaining) ∨ entry.needsResync = true)

theorem due_of_resync (hresync : entry.needsResync = true)
    (hsnapshot : ∀ update, entry.phase = .snapshotRead update → update.snapshot = true) :
    Due (fun update => entry.phase.InHand update) target entry := by
  unfold Due
  cases hphase : entry.phase with
  | idle => exact fun _ => hresync
  | readingSnapshot => trivial
  | snapshotRead update => exact ⟨hsnapshot update hphase, fun _ => .inr hresync⟩
  | readingDescriptor => exact fun _ => ⟨fun _ hupdate => hupdate, hresync⟩
  | calling => exact ⟨fun _ => .inr rfl, fun _ => .inr hresync⟩

theorem due_failPump : Due hand target entry.failPump := fun _ => rfl

/-- With the marker set the pump reads a snapshot next, whatever else it waits for. -/
theorem takeDelta_due {sequence : Nat} {pending : List WriterDelta} {bytes : Int}
    (hnot : target ∉ entry.listeners) :
    Due hand target (entry.takeDelta sequence pending bytes).1 := by
  induction pending generalizing bytes with
  | nil => exact fun hmem => absurd hmem hnot
  | cons delta pending ih =>
    unfold WatchEntry.takeDelta
    split
    · exact ih
    · exact fun hmem => absurd hmem hnot

theorem pumpLoop_due {sequence : Nat} (h : target ∈ entry.listeners → entry.needsResync = true) :
    Due hand target (entry.pumpLoop sequence).1 := by
  unfold WatchEntry.pumpLoop
  split
  · exact h
  · split
    · trivial
    · next hresync => exact takeDelta_due fun hmem => hresync (h hmem)

/-- Only the phase, the listeners and the marker matter, and the marker may be set. -/
theorem due_congr {changed : WatchEntry} (h : Due hand target entry)
    (hphase : changed.phase = entry.phase)
    (hlisteners : target ∈ changed.listeners → target ∈ entry.listeners ∧
      (entry.needsResync = true → changed.needsResync = true)) :
    Due hand target changed := by
  unfold Due at h ⊢
  rw [hphase]
  cases hp : entry.phase with
  | idle =>
    rw [hp] at h
    intro hmem
    obtain ⟨hold, hmarker⟩ := hlisteners hmem
    exact hmarker (h hold)
  | readingSnapshot => trivial
  | snapshotRead =>
    rw [hp] at h
    refine ⟨h.1, fun hmem => ?_⟩
    obtain ⟨hold, hmarker⟩ := hlisteners hmem
    exact (h.2 hold).imp_right hmarker
  | readingDescriptor =>
    rw [hp] at h
    intro hmem
    obtain ⟨hold, hmarker⟩ := hlisteners hmem
    exact ⟨(h hold).1, hmarker (h hold).2⟩
  | calling =>
    rw [hp] at h
    refine ⟨h.1, fun hmem => ?_⟩
    obtain ⟨hold, hmarker⟩ := hlisteners hmem
    exact (h.2 hold).imp_right hmarker

theorem due_enqueue {sequence : Nat} {delta : WriterDelta} (h : Due hand target entry) :
    Due hand target (entry.enqueue sequence delta).1 := by
  have hkept : ∀ queued : WatchEntry, Due hand target queued → Due hand target
      (if queued.phase = .idle then queued.pumpLoop sequence else (queued, sequence)).1 := by
    intro queued hq
    split
    · next hidle =>
      unfold Due at hq
      rw [hidle] at hq
      exact pumpLoop_due hq
    · exact hq
  unfold WatchEntry.enqueue
  refine hkept _ ?_
  split
  · exact h
  · split
    · exact due_congr h rfl fun hmem => ⟨hmem, fun _ => rfl⟩
    · exact due_congr h rfl fun hmem => ⟨hmem, id⟩

theorem due_enqueueTimes {sequence times : Nat} {delta : WriterDelta}
    (h : Due hand target entry) : Due hand target (entry.enqueueTimes sequence delta times).1 := by
  induction times generalizing entry sequence with
  | zero => exact h
  | succ times ih => exact ih (due_enqueue h)

theorem due_settle {sequence : Nat} {update : ConversationUpdate} {failed : Bool}
    (h : Due hand target entry) (hphase : entry.phase = .calling update [] failed) :
    Due hand target (entry.settle sequence update failed).1 := by
  unfold WatchEntry.settle
  split
  · exact due_failPump
  · unfold Due at h
    rw [hphase] at h
    refine pumpLoop_due fun hmem => ?_
    rcases h.2 hmem with ⟨-, hnone⟩ | hresync
    · cases hnone
    · exact hresync

theorem due_removeListener (other : WatchTarget) (h : Due hand target entry) :
    Due hand target (entry.removeListener other) := by
  refine due_congr h (removeListener_phase entry other) fun hmem => ?_
  have hmem' := hmem
  rw [removeListener_listeners] at hmem'
  refine ⟨(List.mem_filter.mp hmem').1, fun hresync => ?_⟩
  have hsome := List.ne_nil_of_mem hmem'
  unfold WatchEntry.removeListener
  dsimp only
  rw [if_neg hsome]
  exact hresync

theorem due_startCalls {update : ConversationUpdate}
    (hcall : target ∈ entry.listeners → update.snapshot = true ∨ hand update)
    (hafter : target ∈ entry.listeners →
      (update.snapshot = true ∧ target.afterCut < update.cut) ∨ entry.needsResync = true) :
    Due hand target (entry.startCalls update) := by
  refine ⟨fun hmem => hcall (List.mem_filter.mp hmem).1, fun hmem => ?_⟩
  refine (hafter hmem).imp_left fun ⟨hsnapshot, hlt⟩ => ⟨hsnapshot, ?_⟩
  exact List.mem_filter.mpr ⟨hmem, decide_eq_true hlt⟩

/-- The calls of the target, the latest first: up to its first snapshot it is called with nothing
but updates in hand. -/
def ResyncFirst (hand : ConversationUpdate → Prop) (target : WatchTarget) : List Receipt → Prop
  | [] => True
  | receipt :: earlier =>
    (receipt.target = target → receipt.update.snapshot = true ∨ hand receipt.update ∨
      ∃ first ∈ earlier, first.target = target ∧ first.update.snapshot = true) ∧
    ResyncFirst hand target earlier

/-- The target is known to one entry, and that is due a snapshot for it. -/
structure Resyncing (hand : ConversationUpdate → Prop) (target : WatchTarget) (ref : Nat)
    (service : WatchService) : Prop where
  due : Due hand target (service.entries.read ref)
  elsewhere : ∀ other, other ≠ ref → target ∉ (service.entries.read other).members
  known : target.id < service.nextTarget
  behind : target.afterCut < service.writerCut

/-- What follows the receipts so far. -/
def Resynced (hand : ConversationUpdate → Prop) (target : WatchTarget) (ref : Nat)
    (receipts : List Receipt) (service : WatchService) : Prop :=
  ∃ calls, service.receipts = calls ++ receipts ∧ ResyncFirst hand target calls ∧
    ((∃ first ∈ calls, first.target = target ∧ first.update.snapshot = true) ∨
      Resyncing hand target ref service)

variable {service : WatchService} {ref : Nat}

/-- A step of the pump of one entry. -/
theorem resyncing_pump {changed : WatchEntry} {sequence other : Nat} {receipts : List Receipt}
    (h : Resyncing hand target ref service) (hdue : other = ref → Due hand target changed)
    (hmembers : other ≠ ref → ∀ member ∈ changed.members,
      member ∈ (service.entries.read other).members) :
    Resyncing hand target ref { service with
      entries := service.entries.write other changed
      nextDeliverySequence := sequence
      receipts } := by
  refine ⟨?_, fun third hne hmem => ?_, h.known, h.behind⟩
  · dsimp only
    rw [Heap.read_write]
    split
    · next heq => exact hdue heq.symm
    · exact h.due
  · dsimp only at hmem
    rw [Heap.read_write] at hmem
    split at hmem
    · next heq =>
      subst heq
      exact h.elsewhere third hne (hmembers hne target hmem)
    · exact h.elsewhere third hne hmem

theorem resyncing_publish (h : Resyncing hand target ref service) (storeRevision : Nat)
    (bytes : List UInt8) (stale : Nat) :
    Resyncing hand target ref (service.publish storeRevision bytes stale) := by
  have hbehind : target.afterCut < service.writerCut + 1 := Nat.lt_succ_of_lt h.behind
  unfold publish
  dsimp only
  split
  · exact ⟨h.due, h.elsewhere, h.known, hbehind⟩
  · next other _ =>
    have hpump : Resyncing hand target ref (service.setEntry other
        ((service.entries.read other).enqueueTimes service.nextDeliverySequence
          ⟨service.writerCut + 1, storeRevision, bytes⟩ (stale + 1))) := by
      refine resyncing_pump h (fun heq => heq ▸ due_enqueueTimes h.due) fun _ member hmem => ?_
      rwa [WatchEntry.members, enqueueTimes_listeners, enqueueTimes_remaining] at hmem
    exact ⟨hpump.due, hpump.elsewhere, hpump.known, hbehind⟩

theorem resyncing_subscribe (h : Resyncing hand target ref service) :
    Resyncing hand target ref service.subscribe := by
  have hknown : target.id < service.nextTarget + 1 := Nat.lt_succ_of_lt h.known
  have hnew : target ≠ ⟨service.nextTarget, service.writerCut⟩ :=
    fun heq => Nat.lt_irrefl _ (heq ▸ h.known)
  unfold subscribe
  dsimp only
  split
  · refine ⟨?_, fun other hne hmem => ?_, hknown, h.behind⟩
    · dsimp only
      rw [Heap.read_alloc]
      split
      · exact fun hmem => absurd (List.mem_singleton.mp hmem) hnew
      · exact h.due
    · dsimp only at hmem
      rw [Heap.read_alloc] at hmem
      split at hmem
      · exact hnew (List.mem_singleton.mp hmem)
      · exact h.elsewhere other hne hmem
  · next current _ =>
    refine ⟨?_, fun other hne hmem => ?_, hknown, h.behind⟩
    · dsimp only
      rw [Heap.read_modify]
      split
      · next heq =>
        subst heq
        refine due_congr h.due rfl fun hmem => ⟨?_, id⟩
        rcases List.mem_append.mp hmem with hmem | hmem
        · exact hmem
        · exact absurd (List.mem_singleton.mp hmem) hnew
      · exact h.due
    · dsimp only at hmem
      rw [Heap.read_modify] at hmem
      split at hmem
      · next heq =>
        refine h.elsewhere other hne ?_
        rw [heq]
        rcases List.mem_append.mp hmem with hmem | hmem
        · rcases List.mem_append.mp hmem with hmem | hmem
          · exact List.mem_append_left _ hmem
          · exact absurd (List.mem_singleton.mp hmem) hnew
        · exact List.mem_append_right _ hmem
      · exact h.elsewhere other hne hmem

theorem resyncing_unsubscribe (h : Resyncing hand target ref service) (other : Nat)
    (removed : WatchTarget) : Resyncing hand target ref (service.unsubscribe other removed) := by
  have hpump : Resyncing hand target ref (service.setEntry other
      ((service.entries.read other).removeListener removed, service.nextDeliverySequence)) := by
    refine resyncing_pump h (fun heq => heq ▸ due_removeListener removed h.due)
      fun _ member hmem => ?_
    rw [WatchEntry.members, removeListener_phase, removeListener_listeners] at hmem
    rcases List.mem_append.mp hmem with hmem | hmem
    · exact List.mem_append_left _ (List.mem_filter.mp hmem).1
    · exact List.mem_append_right _ hmem
  exact ⟨hpump.due, hpump.elsewhere, hpump.known, hpump.behind⟩

/-- A step that calls nobody extends what follows the receipts by nothing. -/
theorem Resynced.quiet {receipts : List Receipt} {next : WatchService}
    (h : Resynced hand target ref receipts service) (hsame : next.receipts = service.receipts)
    (hstep : Resyncing hand target ref service → Resyncing hand target ref next) :
    Resynced hand target ref receipts next := by
  obtain ⟨calls, hcalls, hfirst, hdue⟩ := h
  exact ⟨calls, hsame.trans hcalls, hfirst, hdue.imp_right hstep⟩

/-- The entry's members stay members when its pump starts to call its listeners. -/
theorem startCalls_members (entry : WatchEntry) (update : ConversationUpdate) :
    ∀ member ∈ (entry.startCalls update).members, member ∈ entry.members := by
  intro member hmem
  rcases List.mem_append.mp hmem with hmem | hmem
  · exact List.mem_append_left _ hmem
  · exact List.mem_append_left _ (List.mem_filter.mp hmem).1

theorem resyncing_pumpEvent {changed : WatchEntry} {sequence other : Nat}
    (hdue : Due hand target (service.entries.read other) → Due hand target changed)
    (hmembers : ∀ member ∈ changed.members, member ∈ (service.entries.read other).members)
    (h : Resyncing hand target ref service) :
    Resyncing hand target ref { service with
      entries := service.entries.write other changed
      nextDeliverySequence := sequence } :=
  resyncing_pump h (fun heq => hdue (heq ▸ h.due)) fun _ => hmembers

theorem resynced_callListener {receipts : List Receipt} {update : ConversationUpdate}
    {called : WatchTarget} {remaining : List WatchTarget} {failed : Bool} {other : Nat}
    (ended : CallEnd) (h : Resynced hand target ref receipts service)
    (hphase : (service.entries.read other).phase = .calling update (called :: remaining) failed) :
    Resynced hand target ref receipts
      (service.callListener other update called remaining failed ended) := by
  obtain ⟨calls, hcalls, hfirst, hdue⟩ := h
  refine ⟨⟨called, update, ended = .delivered⟩ :: calls, by simp [callListener, hcalls], ?_, ?_⟩
  · refine ⟨fun heq => ?_, hfirst⟩
    rcases hdue with ⟨first, hmem, hdone⟩ | hdue
    · exact .inr (.inr ⟨first, hmem, hdone⟩)
    · have heq : called = target := heq
      subst heq
      have hmember : called ∈ (service.entries.read other).members := by
        rw [WatchEntry.members, hphase]
        exact List.mem_append_right _ List.mem_cons_self
      have href : other = ref := by
        by_contra hne
        exact hdue.elsewhere other hne hmember
      have hcalling := hdue.due
      unfold Due at hcalling
      rw [← href, hphase] at hcalling
      exact (hcalling.1 List.mem_cons_self).imp_right .inl
  · rcases hdue with ⟨first, hmem, hdone⟩ | hdue
    · exact .inl ⟨first, List.mem_cons_of_mem _ hmem, hdone⟩
    · by_cases hsnapshot : called = target ∧ update.snapshot = true
      · exact .inl ⟨_, List.mem_cons_self, hsnapshot.1, hsnapshot.2⟩
      · refine .inr (resyncing_pump hdue (fun heq => ?_) fun _ member hmem => ?_)
        · have hcalling := hdue.due
          unfold Due at hcalling
          rw [← heq, hphase] at hcalling
          have hrest : ∀ failedAfter : Bool, Due hand target { service.entries.read other with
              phase := .calling update remaining failedAfter } := by
            refine fun _ => ⟨fun hmem => hcalling.1 (List.mem_cons_of_mem _ hmem), fun hmem => ?_⟩
            refine (hcalling.2 hmem).imp_left fun hin => ⟨hin.1, ?_⟩
            exact (List.mem_cons.mp hin.2).resolve_left
              fun hself => hsnapshot ⟨hself.symm, hin.1⟩
          cases ended with
          | threw => exact due_failPump
          | rejected => exact hrest true
          | delivered => exact hrest failed
        · rw [WatchEntry.members, hphase]
          cases ended with
          | threw =>
            rcases List.mem_append.mp hmem with hmem | hmem
            · exact List.mem_append_left _ hmem
            · cases hmem
          | rejected =>
            rcases List.mem_append.mp hmem with hmem | hmem
            · exact List.mem_append_left _ hmem
            · exact List.mem_append_right _ (List.mem_cons_of_mem _ hmem)
          | delivered =>
            rcases List.mem_append.mp hmem with hmem | hmem
            · exact List.mem_append_left _ hmem
            · exact List.mem_append_right _ (List.mem_cons_of_mem _ hmem)

theorem resynced_step {receipts : List Receipt} {event : WatchEvent} {next : WatchService}
    (h : Resynced hand target ref receipts service) (hstep : service.step event = some next) :
    Resynced hand target ref receipts next := by
  have hkept : ∀ {entry : WatchEntry}, ∀ member ∈ entry.listeners, member ∈ entry.members :=
    fun member hmem => List.mem_append_left _ hmem
  have hnoCalls : ∀ {changed entry : WatchEntry}, changed.listeners = entry.listeners →
      changed.phase.remaining = [] → ∀ member ∈ changed.members, member ∈ entry.members := by
    intro changed entry hlisteners hnone member hmem
    rw [WatchEntry.members, hnone, List.append_nil, hlisteners] at hmem
    exact hkept member hmem
  cases event with
  | publish storeRevision bytes stale =>
    cases hstep
    refine h.quiet ?_ fun hdue => resyncing_publish hdue storeRevision bytes stale
    unfold publish
    dsimp only
    split <;> rfl
  | subscribe =>
    cases hstep
    refine h.quiet ?_ resyncing_subscribe
    unfold subscribe
    dsimp only
    split <;> rfl
  | unsubscribe other removed =>
    simp only [step] at hstep
    split at hstep
    · cases hstep
      exact h.quiet rfl fun hdue => resyncing_unsubscribe hdue other removed
    · cases hstep
  | takeSnapshot other storeRevision bytes descriptor =>
    simp only [step] at hstep
    split at hstep
    · cases hstep
      refine h.quiet rfl fun hdue => resyncing_pumpEvent (fun _ => ?_) (hnoCalls rfl rfl) hdue
      exact ⟨rfl, fun _ => .inl hdue.behind⟩
    · cases hstep
  | resumeSnapshot other =>
    simp only [step] at hstep
    split at hstep
    · next update hphase =>
      cases hstep
      refine h.quiet rfl (resyncing_pumpEvent (fun hdue => ?_) (startCalls_members _ _))
      unfold Due at hdue
      rw [hphase] at hdue
      exact due_startCalls (fun _ => .inl hdue.1)
        fun hmem => (hdue.2 hmem).imp_left fun hlt => ⟨hdue.1, hlt⟩
    · cases hstep
  | resumeUpdate other descriptor =>
    simp only [step] at hstep
    split at hstep
    · next delta sequence hphase =>
      cases hstep
      refine h.quiet rfl (resyncing_pumpEvent (fun hdue => ?_) (startCalls_members _ _))
      unfold Due at hdue
      rw [hphase] at hdue
      exact due_startCalls (fun hmem => .inr ((hdue hmem).1 _ ⟨rfl, rfl, rfl, rfl, rfl⟩))
        fun hmem => .inr (hdue hmem).2
    · cases hstep
  | readFailed other =>
    simp only [step] at hstep
    split at hstep
    · cases hstep
      exact h.quiet rfl (resyncing_pumpEvent (fun _ => due_failPump) (hnoCalls rfl rfl))
    · cases hstep
      exact h.quiet rfl (resyncing_pumpEvent (fun _ => due_failPump) (hnoCalls rfl rfl))
    · cases hstep
  | callListener other ended =>
    simp only [step] at hstep
    split at hstep
    · next update called remaining failed hphase =>
      cases hstep
      exact resynced_callListener ended h hphase
    · cases hstep
  | callsSettled other =>
    simp only [step] at hstep
    split at hstep
    · next update failed hphase =>
      cases hstep
      exact h.quiet rfl (resyncing_pumpEvent (fun hdue => due_settle hdue hphase)
        (hnoCalls (settle_listeners _ _ _ _) (settle_remaining _ _ _ _)))
    · cases hstep

/-- After an overflow a listener that was there is called with the update that the pump had in
hand, if with anything, before it is called with a snapshot. -/
theorem overflow_resyncs {overflowed next : WatchService} {storeRevision stale : Nat}
    {bytes : List UInt8} {events : List WatchEvent} (h : WatchInv service)
    (hstep : service.step (.publish storeRevision bytes stale) = some overflowed)
    (hbefore : (service.entries.read ref).needsResync = false)
    (hafter : (overflowed.entries.read ref).needsResync = true)
    (htarget : target ∈ (overflowed.entries.read ref).listeners)
    (hrun : overflowed.run events = some next) :
    ∃ calls, next.receipts = calls ++ overflowed.receipts ∧
      ResyncFirst (fun update => (overflowed.entries.read ref).phase.InHand update) target
        calls := by
  have hinv := invariant_step h hstep
  cases hstep
  have hmember : target ∈ ((service.publish storeRevision bytes stale).entries.read ref).members :=
    List.mem_append_left _ htarget
  have hcurrent : service.current = some ref := by
    by_contra hother
    refine absurd hafter (Bool.eq_false_iff.mp ?_)
    unfold publish
    dsimp only
    split
    · exact hbefore
    · next other hc =>
      dsimp only [setEntry]
      have hne : ref ≠ other := fun heq => hother (hc.trans (congrArg some heq.symm))
      rw [Heap.read_write_ne _ _ hne]
      exact hbefore
  have hlisteners : ((service.publish storeRevision bytes stale).entries.read ref).listeners =
      (service.entries.read ref).listeners := by
    unfold publish
    rw [hcurrent]
    dsimp only [setEntry]
    rw [Heap.read_write_self, enqueueTimes_listeners]
  have hcut : (service.publish storeRevision bytes stale).writerCut = service.writerCut + 1 := by
    unfold publish
    dsimp only
    split <;> rfl
  have hresyncing : Resyncing (fun update =>
      ((service.publish storeRevision bytes stale).entries.read ref).phase.InHand update) target ref
      (service.publish storeRevision bytes stale) := by
    refine ⟨due_of_resync hafter fun update hphase => ?_, fun other hne hmem => ?_,
      hinv.known ref target hmember, ?_⟩
    · have hphaseOk := (hinv.entryOk ref).phase
      unfold PhaseOk at hphaseOk
      rw [hphase] at hphaseOk
      exact hphaseOk.1
    · exact hinv.apart other ref hne target hmem hmember
    · have hheld := (h.entryOk ref).held_le target (hlisteners ▸ htarget)
      have hafterCut := afterCut_le_held h.lawful target
      omega
  obtain ⟨calls, hcalls, hfirst, -⟩ := run_keeps (P := Resynced _ target ref _) resynced_step
    ⟨[], rfl, trivial, .inr hresyncing⟩ hrun
  exact ⟨calls, hcalls, hfirst⟩

/-! ## Convergence -/

/-- An event after the last publication that is not the failure of a delivery. -/
def Quiet (service : WatchService) : WatchEvent → Prop
  | .publish _ _ _ | .readFailed _ => False
  | .callListener _ ended => ended = .delivered
  | .callsSettled ref => ∀ update, (service.entries.read ref).phase ≠ .calling update [] true
  | _ => True

/-- A run of quiet events. -/
inductive QuietRun : WatchService → WatchService → Prop where
  | refl (service : WatchService) : QuietRun service service
  | step {service middle next : WatchService} {event : WatchEvent} :
      QuietRun service middle → Quiet middle event → middle.step event = some next →
      QuietRun service next

/-- An entry at rest has no snapshot to send. -/
def Clean (entry : WatchEntry) : Prop :=
  entry.phase = .idle → entry.listeners ≠ [] → entry.needsResync = false

theorem clean_of_busy {entry : WatchEntry} (h : entry.phase ≠ .idle) : Clean entry :=
  fun hidle => absurd hidle h

theorem takeDelta_clean {entry : WatchEntry} {sequence : Nat} {pending : List WriterDelta}
    {bytes : Int} (hresync : entry.needsResync = false) :
    Clean (entry.takeDelta sequence pending bytes).1 := by
  induction pending generalizing bytes with
  | nil => exact fun _ _ => hresync
  | cons delta pending ih =>
    unfold WatchEntry.takeDelta
    split
    · exact ih
    · exact fun hidle => by cases hidle

theorem pumpLoop_clean {entry : WatchEntry} {sequence : Nat} :
    Clean (entry.pumpLoop sequence).1 := by
  unfold WatchEntry.pumpLoop
  split
  · next hnone => exact fun _ hsome => absurd hnone hsome
  · split
    · exact fun hidle => by cases hidle
    · next hresync => exact takeDelta_clean (Bool.eq_false_iff.mpr hresync)

/-- A delta leaves the pump working, or at rest for good. -/
theorem enqueue_clean {entry : WatchEntry} {sequence : Nat} {delta : WriterDelta} :
    Clean (entry.enqueue sequence delta).1 := by
  have hkept : ∀ queued : WatchEntry, Clean
      (if queued.phase = .idle then queued.pumpLoop sequence else (queued, sequence)).1 := by
    intro queued
    split
    · exact pumpLoop_clean
    · next hphase => exact fun hidle => absurd hidle hphase
  exact hkept _

theorem enqueueTimes_clean {entry : WatchEntry} {sequence : Nat} {delta : WriterDelta}
    (times : Nat) : Clean (entry.enqueueTimes sequence delta (times + 1)).1 := by
  induction times generalizing entry sequence with
  | zero => exact enqueue_clean
  | succ times ih => exact ih

theorem publish_clean {storeRevision stale : Nat} {bytes : List UInt8} (h : WatchInv service)
    (ref : Nat) : Clean ((service.publish storeRevision bytes stale).entries.read ref) := by
  have hunwatched : service.current ≠ some ref → Clean (service.entries.read ref) :=
    fun hother _ hsome => absurd ((h.installed ref).mp hsome) hother
  unfold publish
  dsimp only
  split
  · next hnone => exact hunwatched fun heq => by rw [hnone] at heq; cases heq
  · next current hcurrent =>
    dsimp only [setEntry]
    rw [Heap.read_write]
    split
    · exact enqueueTimes_clean stale
    · next hne => exact hunwatched fun heq => hne (Option.some.inj (heq.symm.trans hcurrent))

theorem write_clean {entry : WatchEntry} {other : Nat}
    (h : ∀ ref, Clean (service.entries.read ref)) (hentry : Clean entry) (ref : Nat) :
    Clean ((service.entries.write other entry).read ref) := by
  rw [Heap.read_write]
  split
  · exact hentry
  · exact h ref

/-- Quiet events leave no entry at rest with a snapshot to send, and the writer's cut alone. -/
theorem quiet_clean {event : WatchEvent} {next : WatchService} (hinv : WatchInv service)
    (h : ∀ ref, Clean (service.entries.read ref)) (hquiet : Quiet service event)
    (hstep : service.step event = some next) :
    (∀ ref, Clean (next.entries.read ref)) ∧ next.writerCut = service.writerCut := by
  cases event with
  | publish => exact hquiet.elim
  | readFailed => exact hquiet.elim
  | subscribe =>
    cases hstep
    unfold subscribe
    dsimp only
    split
    · refine ⟨fun ref => ?_, rfl⟩
      dsimp only
      rw [Heap.read_alloc]
      split
      · exact fun _ _ => rfl
      · exact h ref
    · next current hcurrent =>
      exact ⟨write_clean h fun hidle _ => h current hidle ((hinv.installed current).mpr hcurrent),
        rfl⟩
  | unsubscribe other removed =>
    simp only [step] at hstep
    split at hstep
    · cases hstep
      refine ⟨write_clean h fun hidle hsome => ?_, rfl⟩
      rw [removeListener_phase] at hidle
      rw [removeListener_listeners] at hsome
      have hkept : ((service.entries.read other).removeListener removed).needsResync =
          (service.entries.read other).needsResync := by
        unfold WatchEntry.removeListener
        dsimp only
        rw [if_neg hsome]
      rw [hkept]
      refine h other hidle fun hnone => hsome ?_
      rw [hnone]
      rfl
    · cases hstep
  | takeSnapshot other storeRevision bytes descriptor =>
    simp only [step] at hstep
    split at hstep
    · cases hstep
      exact ⟨write_clean h (clean_of_busy PumpPhase.noConfusion), rfl⟩
    · cases hstep
  | resumeSnapshot other =>
    simp only [step] at hstep
    split at hstep
    · cases hstep
      exact ⟨write_clean h (clean_of_busy PumpPhase.noConfusion), rfl⟩
    · cases hstep
  | resumeUpdate other descriptor =>
    simp only [step] at hstep
    split at hstep
    · cases hstep
      exact ⟨write_clean h (clean_of_busy PumpPhase.noConfusion), rfl⟩
    · cases hstep
  | callListener other ended =>
    simp only [step] at hstep
    split at hstep
    · obtain rfl : ended = .delivered := hquiet
      cases hstep
      exact ⟨write_clean h (clean_of_busy PumpPhase.noConfusion), rfl⟩
    · cases hstep
  | callsSettled other =>
    simp only [step] at hstep
    split at hstep
    · next update failed hphase =>
      cases hstep
      refine ⟨write_clean h ?_, rfl⟩
      cases failed with
      | true => exact absurd hphase (hquiet update)
      | false => exact pumpLoop_clean
    · cases hstep

theorem quietRun_keeps {next : WatchService} (hinv : WatchInv service)
    (h : ∀ ref, Clean (service.entries.read ref)) (hrun : QuietRun service next) :
    WatchInv next ∧ (∀ ref, Clean (next.entries.read ref)) ∧
      next.writerCut = service.writerCut := by
  induction hrun with
  | refl => exact ⟨hinv, h, rfl⟩
  | step _ hquiet hstep ih =>
    obtain ⟨hinv', hclean, hcut⟩ := ih
    obtain ⟨hclean', hcut'⟩ := quiet_clean hinv' hclean hquiet hstep
    exact ⟨invariant_step hinv' hstep, hclean', hcut'.trans hcut⟩

/-- After the last publication: a pump at rest has delivered the writer's cut to every
listener. -/
theorem quiet_converges {published next : WatchService} {storeRevision stale : Nat}
    {bytes : List UInt8} (h : WatchInv service)
    (hstep : service.step (.publish storeRevision bytes stale) = some published)
    (hrun : QuietRun published next) (hidle : (next.entries.read ref).phase = .idle)
    (htarget : target ∈ (next.entries.read ref).listeners) :
    next.writerCut = service.writerCut + 1 ∧
      (next.entries.read ref).lastDeliveredCut = next.writerCut ∧
      held next.receipts target = (next.writerCut, true) := by
  have hinv := invariant_step h hstep
  cases hstep
  have hcut : (service.publish storeRevision bytes stale).writerCut = service.writerCut + 1 := by
    unfold publish
    dsimp only
    split <;> rfl
  obtain ⟨hinv', hclean, hsame⟩ := quietRun_keeps hinv (publish_clean h) hrun
  have hok := hinv'.entryOk ref
  have hphaseOk := hok.phase
  unfold PhaseOk at hphaseOk
  rw [hidle] at hphaseOk
  have hsome := List.ne_nil_of_mem htarget
  obtain ⟨hlast, hsync⟩ := hphaseOk.2 hsome (hclean ref hidle hsome)
  refine ⟨hsame.trans hcut, hlast, ?_⟩
  have hheld := hok.held_le target htarget
  have hafter := afterCut_le_held hinv'.lawful target
  rw [hsync target htarget, max_eq_left (hafter.trans hheld)]

/-! ## Progress of a pump -/

/-- The steps for the updates that are still to be taken up, at most. -/
def queuedWork (entry : WatchEntry) : Nat :=
  (if entry.needsResync then 1 else entry.pending.length) * (entry.listeners.length + 4)

/-- The steps that a pump still has, at most. -/
def pumpWork (entry : WatchEntry) : Nat :=
  match entry.phase with
  | .idle => 0
  | .readingSnapshot _ => queuedWork entry + entry.listeners.length + 3
  | .snapshotRead _ | .readingDescriptor _ _ => queuedWork entry + entry.listeners.length + 2
  | .calling _ remaining _ => queuedWork entry + remaining.length + 1

/-- The events that are steps of the pump of the entry. -/
def PumpEvent (ref : Nat) : WatchEvent → Prop
  | .takeSnapshot other _ _ _ | .resumeSnapshot other | .resumeUpdate other _ | .readFailed other
  | .callListener other _ | .callsSettled other => other = ref
  | _ => False

theorem takeDelta_work {entry : WatchEntry} {sequence : Nat} {pending : List WriterDelta}
    {bytes : Int} (hresync : entry.needsResync = false) :
    pumpWork (entry.takeDelta sequence pending bytes).1 <
      pending.length * (entry.listeners.length + 4) + 1 := by
  induction pending generalizing bytes with
  | nil => exact Nat.succ_pos _
  | cons delta pending ih =>
    rw [List.length_cons, Nat.succ_mul]
    unfold WatchEntry.takeDelta
    split
    · exact Nat.lt_of_lt_of_le ih (by omega)
    · simp only [pumpWork, queuedWork, hresync, Bool.false_eq_true, if_false]
      omega

theorem pumpLoop_work {entry : WatchEntry} {sequence : Nat} :
    pumpWork (entry.pumpLoop sequence).1 < queuedWork entry + 1 := by
  unfold WatchEntry.pumpLoop queuedWork
  split
  · exact Nat.succ_pos _
  · cases hresync : entry.needsResync with
    | true => simp [pumpWork, queuedWork]
    | false => exact takeDelta_work hresync

theorem startCalls_work (entry : WatchEntry) (update : ConversationUpdate) :
    pumpWork (entry.startCalls update) < queuedWork entry + entry.listeners.length + 2 := by
  have hle := List.length_filter_le (fun target : WatchTarget => target.afterCut < update.cut)
    entry.listeners
  show queuedWork entry + _ + 1 < _
  omega

/-- Every step of a pump leaves it less to do. -/
theorem pump_decreases {event : WatchEvent} {next : WatchService} (hevent : PumpEvent ref event)
    (hstep : service.step event = some next) :
    pumpWork (next.entries.read ref) < pumpWork (service.entries.read ref) := by
  cases event with
  | publish => exact hevent.elim
  | subscribe => exact hevent.elim
  | unsubscribe => exact hevent.elim
  | takeSnapshot other storeRevision bytes descriptor =>
    obtain rfl : other = ref := hevent
    simp only [step] at hstep
    split at hstep
    · next sequence hphase =>
      cases hstep
      rw [Heap.read_modify_self]
      simp only [pumpWork, queuedWork, hphase]
      omega
    · cases hstep
  | resumeSnapshot other =>
    obtain rfl : other = ref := hevent
    simp only [step] at hstep
    split at hstep
    · next update hphase =>
      cases hstep
      have hwork := startCalls_work (service.entries.read other) update
      rw [Heap.read_modify_self]
      refine Nat.lt_of_lt_of_eq hwork ?_
      rw [pumpWork, hphase]
    · cases hstep
  | resumeUpdate other descriptor =>
    obtain rfl : other = ref := hevent
    simp only [step] at hstep
    split at hstep
    · next delta sequence hphase =>
      cases hstep
      have hwork := startCalls_work (service.entries.read other)
        ⟨delta.cut, delta.storeRevision, delta.bytes, descriptor, sequence, false⟩
      rw [Heap.read_modify_self]
      refine Nat.lt_of_lt_of_eq hwork ?_
      rw [pumpWork, hphase]
    · cases hstep
  | readFailed other =>
    obtain rfl : other = ref := hevent
    simp only [step] at hstep
    split at hstep
    · next hphase =>
      cases hstep
      simp only [Heap.read_modify_self, pumpWork, hphase, WatchEntry.failPump]
      omega
    · next hphase =>
      cases hstep
      simp only [Heap.read_modify_self, pumpWork, hphase, WatchEntry.failPump]
      omega
    · cases hstep
  | callListener other ended =>
    obtain rfl : other = ref := hevent
    simp only [step] at hstep
    split at hstep
    · next update target remaining failed hphase =>
      cases hstep
      cases ended <;>
        simp only [callListener, Heap.read_write_self, pumpWork, queuedWork, hphase,
          WatchEntry.failPump, List.length_cons] <;>
        omega
    · cases hstep
  | callsSettled other =>
    obtain rfl : other = ref := hevent
    simp only [step] at hstep
    split at hstep
    · next update failed hphase =>
      cases hstep
      dsimp only [setEntry]
      rw [Heap.read_write_self]
      have hwork : pumpWork (service.entries.read other) =
          queuedWork (service.entries.read other) + 0 + 1 := by
        rw [pumpWork, hphase]
        rfl
      unfold WatchEntry.settle
      split
      · rw [hwork]
        exact Nat.succ_pos _
      · rw [hwork]
        exact pumpLoop_work
    · cases hstep

/-- A pump that is not at rest can take a step, and a quiet one unless a call of it was
rejected. -/
theorem pump_can_move (hphase : (service.entries.read ref).phase ≠ .idle) :
    ∃ event, PumpEvent ref event ∧ (service.step event).isSome ∧
      (Quiet service event ∨
        ∃ update, (service.entries.read ref).phase = .calling update [] true) := by
  cases hp : (service.entries.read ref).phase with
  | idle => exact absurd hp hphase
  | readingSnapshot sequence =>
    exact ⟨.takeSnapshot ref 0 [] .null, rfl, by simp [step, hp], .inl trivial⟩
  | snapshotRead update =>
    exact ⟨.resumeSnapshot ref, rfl, by simp [step, hp], .inl trivial⟩
  | readingDescriptor delta sequence =>
    exact ⟨.resumeUpdate ref .null, rfl, by simp [step, hp], .inl trivial⟩
  | calling update remaining failed =>
    cases remaining with
    | nil =>
      refine ⟨.callsSettled ref, rfl, by simp [step, hp], ?_⟩
      cases failed with
      | true => exact .inr ⟨update, rfl⟩
      | false => exact .inl fun other heq => by rw [hp] at heq; cases heq
    | cons target remaining =>
      exact ⟨.callListener ref .delivered, rfl, by simp [step, hp], .inl rfl⟩

/-! ## What the watch promises -/

/-- A publication that overflows the queue is followed, for each listener, by the update that the
pump had in hand, if by anything, before a snapshot. -/
def ResyncsAfterOverflow (service : WatchService) : Prop :=
  ∀ storeRevision bytes stale overflowed ref target events next,
    service.step (.publish storeRevision bytes stale) = some overflowed →
    (service.entries.read ref).needsResync = false →
    (overflowed.entries.read ref).needsResync = true →
    target ∈ (overflowed.entries.read ref).listeners → overflowed.run events = some next →
    ∃ calls, next.receipts = calls ++ overflowed.receipts ∧
      ResyncFirst (fun update => (overflowed.entries.read ref).phase.InHand update) target calls

/-- Once a publication was the last one and deliveries succeed, a pump at rest has delivered the
writer's cut to every listener. -/
def Converges (service : WatchService) : Prop :=
  ∀ storeRevision bytes stale published ref target next,
    service.step (.publish storeRevision bytes stale) = some published →
    QuietRun published next → (next.entries.read ref).phase = .idle →
    target ∈ (next.entries.read ref).listeners →
    (next.entries.read ref).lastDeliveredCut = next.writerCut ∧
      held next.receipts target = (next.writerCut, true)

/-- A pump that is not at rest can move on, and every step leaves it less to do. -/
def ComesToRest (service : WatchService) : Prop :=
  ∀ ref,
    ((service.entries.read ref).phase ≠ .idle → ∃ event, PumpEvent ref event ∧
      (service.step event).isSome ∧ (Quiet service event ∨
        ∃ update, (service.entries.read ref).phase = .calling update [] true)) ∧
    ∀ event next, PumpEvent ref event → service.step event = some next →
      pumpWork (next.entries.read ref) < pumpWork (service.entries.read ref)

/-- Delivery of the conversation watch, in every state that a run reaches. -/
theorem watch_delivers (writerCut : Nat) {events : List WatchEvent} {service : WatchService}
    (hrun : (start writerCut).run events = some service) :
    Lawful service.receipts ∧ ResyncsAfterOverflow service ∧ Converges service ∧
      ComesToRest service := by
  have hinv := invariant_run (invariant_start writerCut) hrun
  refine ⟨hinv.lawful, ?_, ?_, fun ref => ⟨pump_can_move, fun _ _ => pump_decreases⟩⟩
  · intro storeRevision bytes stale overflowed ref target events next hstep hbefore hafter ht hrun
    exact overflow_resyncs hinv hstep hbefore hafter ht hrun
  · intro storeRevision bytes stale published ref target next hstep hrun hidle ht
    exact (quiet_converges hinv hstep hrun hidle ht).2

/-- A listener joins, and a delta is delivered to it. -/
theorem watch_delivers_delta : ∃ service,
    (start 7).run [.subscribe, .publish 3 [1, 2] 0, .resumeUpdate 0 .null,
      .callListener 0 .delivered, .callsSettled 0] = some service ∧
    Lawful service.receipts ∧ ResyncsAfterOverflow service ∧ Converges service ∧
      ComesToRest service := by
  have hsome : ((start 7).run [.subscribe, .publish 3 [1, 2] 0, .resumeUpdate 0 .null,
      .callListener 0 .delivered, .callsSettled 0]).isSome := rfl
  obtain ⟨service, hrun⟩ := Option.isSome_iff_exists.mp hsome
  exact ⟨service, hrun, watch_delivers 7 hrun⟩

/-- The entry of a listener whose pump has the first delta in hand. -/
def deltaInHand : WatchEntry :=
  ⟨[⟨0, 0⟩], [], 0, false, 0, .readingDescriptor ⟨1, 1, []⟩ 1⟩

theorem deltaInHand_overflow (delta : WriterDelta)
    (h : conversationWatchPendingBytes < (delta.bytes.length : Int)) :
    deltaInHand.enqueue 1 delta = ({ deltaInHand with needsResync := true }, 1) := by
  simp [WatchEntry.enqueue, deltaInHand, h]

theorem delta_before_snapshot {bytes : List UInt8}
    (hbytes : conversationWatchPendingBytes < (bytes.length : Int)) :
    ∃ before overflowed next target update,
    (start 0).run [.subscribe, .publish 1 [] 0] = some before ∧
    before.step (.publish 2 bytes 0) = some overflowed ∧
    (before.entries.read 0).needsResync = false ∧
    (overflowed.entries.read 0).needsResync = true ∧
    target ∈ (overflowed.entries.read 0).listeners ∧
    overflowed.run [.resumeUpdate 0 .null, .callListener 0 .delivered] = some next ∧
    next.receipts = ⟨target, update, true⟩ :: overflowed.receipts ∧ update.snapshot = false := by
  have hoverflow := deltaInHand_overflow ⟨2, 2, bytes⟩ hbytes
  have hstep : (WatchService.publish ((start 0).subscribe.publish 1 [] 0) 2 bytes 0) =
      WatchService.setEntry { (start 0).subscribe.publish 1 [] 0 with writerCut := 2 } 0
        ({ deltaInHand with needsResync := true }, 1) := by
    rw [← hoverflow]
    rfl
  exact ⟨(start 0).subscribe.publish 1 [] 0, _, _, ⟨0, 0⟩, ⟨1, 1, [], .null, 1, false⟩, rfl,
    congrArg some hstep, rfl, rfl, List.mem_cons_self, rfl, rfl, rfl⟩

/-- A delta is in hand when the next one overflows the queue: it is delivered first, and it is not
a snapshot. -/
theorem overflow_delivers_delta : ∃ before overflowed next target update,
    (start 0).run [.subscribe, .publish 1 [] 0] = some before ∧
    before.step (.publish 2 (List.replicate 2097153 0) 0) = some overflowed ∧
    (before.entries.read 0).needsResync = false ∧
    (overflowed.entries.read 0).needsResync = true ∧
    target ∈ (overflowed.entries.read 0).listeners ∧
    overflowed.run [.resumeUpdate 0 .null, .callListener 0 .delivered] = some next ∧
    next.receipts = ⟨target, update, true⟩ :: overflowed.receipts ∧ update.snapshot = false := by
  refine delta_before_snapshot ?_
  rw [List.length_replicate]
  decide

end WatchService

end Henji
