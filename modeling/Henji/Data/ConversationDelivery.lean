import Henji.Data.ConversationWatchLaw

/-!
# Runs of the conversation watch

Results:
1. `invariant_step`, `invariant_run`: the invariant of the watch holds in every state reached.
2. `run_keeps`: the rule of runs.
-/

namespace Henji

/-- The targets that an entry knows of: its listeners, and those that the pump is still to call. -/
def WatchEntry.members (entry : WatchEntry) : List WatchTarget :=
  entry.listeners ++ entry.phase.remaining

namespace WatchService

/-- The invariant of the watch. -/
structure WatchInv (service : WatchService) : Prop where
  lawful : Lawful service.receipts
  entryOk : ∀ ref, EntryOk service.receipts service.writerCut (service.entries.read ref)
  /-- A listener belongs to one entry. -/
  apart : ∀ ref other, ref ≠ other → ∀ target ∈ (service.entries.read ref).members,
    target ∉ (service.entries.read other).members
  known : ∀ ref, ∀ target ∈ (service.entries.read ref).members, target.id < service.nextTarget
  called : ∀ receipt ∈ service.receipts, receipt.target.id < service.nextTarget
  /-- The installed entry is the one with listeners. -/
  installed : ∀ ref, (service.entries.read ref).listeners ≠ [] ↔ service.current = some ref
  drained : ∀ ref, (service.entries.read ref).listeners = [] →
    (service.entries.read ref).pending = []

theorem invariant_start (writerCut : Nat) : WatchInv (start writerCut) where
  lawful := trivial
  entryOk _ := ⟨List.nodup_nil, Nat.zero_le _, nofun, nofun, rfl, fun h => absurd rfl h⟩
  apart _ _ _ _ ht := nomatch ht
  known _ _ ht := nomatch ht
  called := nofun
  installed _ := ⟨fun h => absurd rfl h, nofun⟩
  drained _ _ := rfl

variable {service : WatchService} {ref : Nat}

/-- A step of the pump of one entry: the entry keeps its listeners, and only its members are
called. -/
theorem invariant_pump {entry : WatchEntry} {sequence : Nat} {receipts : List Receipt}
    (h : WatchInv service) (hlawful : Lawful receipts)
    (hcalled : ∀ receipt ∈ receipts, receipt.target.id < service.nextTarget)
    (hok : EntryOk receipts service.writerCut entry)
    (hframe : ∀ target, target ∉ (service.entries.read ref).members →
      held receipts target = held service.receipts target)
    (hlisteners : entry.listeners = (service.entries.read ref).listeners)
    (hmembers : ∀ target ∈ entry.members, target ∈ (service.entries.read ref).members)
    (hdrained : entry.listeners = [] → entry.pending = []) :
    WatchInv { service with
      entries := service.entries.write ref entry
      nextDeliverySequence := sequence
      receipts } := by
  have hread : ∀ other, ((service.entries.write ref entry).read other).listeners =
        (service.entries.read other).listeners ∧
      ∀ target ∈ ((service.entries.write ref entry).read other).members,
        target ∈ (service.entries.read other).members := by
    intro other
    rw [Heap.read_write]
    split
    · next heq => exact heq ▸ ⟨hlisteners, hmembers⟩
    · exact ⟨rfl, fun _ ht => ht⟩
  refine ⟨hlawful, fun other => ?_, fun first second hne target ht hmem => ?_,
    fun other target ht => h.known other target ((hread other).2 target ht), hcalled,
    fun other => ?_, fun other hnone => ?_⟩
  · show EntryOk receipts service.writerCut ((service.entries.write ref entry).read other)
    rw [Heap.read_write]
    split
    · exact hok
    · next hne =>
      exact ok_frame (h.entryOk other) fun target ht =>
        hframe target (h.apart other ref hne target ht)
  · exact h.apart first second hne target ((hread first).2 target ht)
      ((hread second).2 target hmem)
  · rw [(hread other).1]
    exact h.installed other
  · show ((service.entries.write ref entry).read other).pending = []
    have hnone : ((service.entries.write ref entry).read other).listeners = [] := hnone
    rw [Heap.read_write] at hnone ⊢
    split at hnone
    · next heq => rw [if_pos heq]; exact hdrained hnone
    · next hne => rw [if_neg hne]; exact h.drained other hnone

/-- A step of the pump that calls nobody. -/
theorem invariant_pump_quiet {entry : WatchEntry} {sequence : Nat} (h : WatchInv service)
    (hok : EntryOk service.receipts service.writerCut entry)
    (hlisteners : entry.listeners = (service.entries.read ref).listeners)
    (hmembers : ∀ target ∈ entry.phase.remaining, target ∈ (service.entries.read ref).members)
    (hdrained : entry.listeners = [] → entry.pending = []) :
    WatchInv { service with
      entries := service.entries.write ref entry
      nextDeliverySequence := sequence } := by
  refine invariant_pump h h.lawful h.called hok (fun _ _ => rfl) hlisteners (fun target ht => ?_)
    hdrained
  rcases List.mem_append.mp ht with ht | ht
  · exact List.mem_append_left _ (hlisteners ▸ ht)
  · exact hmembers target ht

/-! ## The listeners -/

/-- An update of the writer reaches the installed entry only. -/
theorem invariant_publish (h : WatchInv service) (storeRevision : Nat) (bytes : List UInt8)
    (stale : Nat) : WatchInv (service.publish storeRevision bytes stale) := by
  have htop : service.writerCut ≤ service.writerCut + 1 := Nat.le_succ _
  unfold publish
  dsimp only
  split
  · next hcurrent =>
    have hnone : ∀ ref, (service.entries.read ref).listeners = [] := by
      intro ref
      by_contra hsome
      rw [(h.installed ref).mp hsome] at hcurrent
      cases hcurrent
    exact ⟨h.lawful, fun ref => ok_unwatched (h.entryOk ref) (hnone ref) htop, h.apart, h.known,
      h.called, fun ref => (h.installed ref).trans (hcurrent ▸ Iff.rfl), h.drained⟩
  · next ref hcurrent =>
    have hsome : (service.entries.read ref).listeners ≠ [] := (h.installed ref).mpr hcurrent
    have hok := ok_enqueueTimes service.nextDeliverySequence stale
      ⟨service.writerCut + 1, storeRevision, bytes⟩ (h.entryOk ref) hsome (.inr rfl)
    have hlisteners := enqueueTimes_listeners (service.entries.read ref)
      service.nextDeliverySequence ⟨service.writerCut + 1, storeRevision, bytes⟩ (stale + 1)
    have hremaining := enqueueTimes_remaining (service.entries.read ref)
      service.nextDeliverySequence ⟨service.writerCut + 1, storeRevision, bytes⟩ (stale + 1)
    generalize WatchEntry.enqueueTimes _ _ _ _ = result at hok hlisteners hremaining ⊢
    have hread : ∀ other, ((service.entries.write ref result.1).read other).listeners =
          (service.entries.read other).listeners ∧
        ((service.entries.write ref result.1).read other).members =
          (service.entries.read other).members := by
      intro other
      rw [Heap.read_write]
      split
      · next heq =>
        subst heq
        rw [WatchEntry.members, hlisteners, hremaining]
        exact ⟨rfl, rfl⟩
      · exact ⟨rfl, rfl⟩
    refine ⟨h.lawful, fun other => ?_, fun first second hne target ht hmem => ?_,
      fun other target ht => ?_, h.called, fun other => ?_, fun other hnone => ?_⟩
    · dsimp only [setEntry]
      rw [Heap.read_write]
      split
      · exact hok
      · next hne =>
        refine ok_unwatched (h.entryOk other) ?_ htop
        by_contra hsome'
        rw [(h.installed other).mp hsome'] at hcurrent
        exact hne (Option.some.inj hcurrent)
    · dsimp only [setEntry] at ht hmem
      rw [(hread _).2] at ht hmem
      exact h.apart first second hne target ht hmem
    · dsimp only [setEntry] at ht
      rw [(hread _).2] at ht
      exact h.known other target ht
    · dsimp only [setEntry]
      rw [(hread _).1]
      exact h.installed other
    · dsimp only [setEntry] at hnone ⊢
      rw [(hread _).1] at hnone
      have hne : other ≠ ref := fun heq => hsome (heq ▸ hnone)
      rw [Heap.read_write_ne _ _ hne]
      exact h.drained other hnone

/-- A new listener is not known to any entry and has not been called. -/
theorem newTarget_fresh (h : WatchInv service) (target : WatchTarget)
    (hid : target.id = service.nextTarget) :
    (∀ ref, target ∉ (service.entries.read ref).members) ∧
      held service.receipts target = (target.afterCut, true) := by
  refine ⟨fun ref ht => ?_, held_of_not_mem fun receipt hr heq => ?_⟩
  · exact Nat.lt_irrefl _ (hid ▸ h.known ref target ht)
  · exact Nat.lt_irrefl _ (hid ▸ heq ▸ h.called receipt hr)

theorem invariant_subscribe (h : WatchInv service) : WatchInv service.subscribe := by
  obtain ⟨hnew, hheld⟩ := newTarget_fresh h ⟨service.nextTarget, service.writerCut⟩ rfl
  have hcalled : ∀ receipt ∈ service.receipts, receipt.target.id < service.nextTarget + 1 :=
    fun receipt hr => Nat.lt_succ_of_lt (h.called receipt hr)
  unfold subscribe
  dsimp only
  split
  · next hcurrent =>
    have hnone : ∀ ref, (service.entries.read ref).listeners = [] := by
      intro ref
      by_contra hsome
      rw [(h.installed ref).mp hsome] at hcurrent
      cases hcurrent
    refine ⟨h.lawful, fun ref => ?_, fun first second hne target ht hmem => ?_,
      fun ref target ht => ?_, hcalled, fun ref => ?_, fun ref hnil => ?_⟩
    · dsimp only
      rw [Heap.read_alloc]
      split
      · exact ok_firstListener rfl hheld
      · exact h.entryOk ref
    · dsimp only at ht hmem
      rw [Heap.read_alloc] at ht hmem
      split at ht
      · split at hmem
        · next h1 h2 => exact hne (h1.trans h2.symm)
        · exact hnew second ((List.mem_singleton.mp ht) ▸ hmem)
      · split at hmem
        · exact hnew first ((List.mem_singleton.mp hmem) ▸ ht)
        · exact h.apart first second hne target ht hmem
    · dsimp only at ht
      rw [Heap.read_alloc] at ht
      split at ht
      · obtain rfl := List.mem_singleton.mp ht
        exact Nat.lt_succ_self _
      · exact Nat.lt_succ_of_lt (h.known ref target ht)
    · dsimp only
      rw [Heap.read_alloc]
      split
      · next heq => exact ⟨fun _ => heq ▸ rfl, fun _ => List.cons_ne_nil _ _⟩
      · next hne =>
        refine ⟨fun hsome => absurd (hnone ref) hsome, fun heq => ?_⟩
        exact absurd (Option.some.inj heq).symm hne
    · dsimp only at hnil ⊢
      rw [Heap.read_alloc] at hnil ⊢
      split at hnil
      · cases hnil
      · next hne =>
        rw [if_neg hne]
        exact h.drained ref hnil
  · next ref hcurrent =>
    have hsome : (service.entries.read ref).listeners ≠ [] := (h.installed ref).mpr hcurrent
    have hread : ∀ other, ∀ target ∈ ((service.entries.modify ref fun entry => { entry with
          listeners := entry.listeners ++ [⟨service.nextTarget, service.writerCut⟩] }).read
          other).members,
        target ∈ (service.entries.read other).members ∨
          (other = ref ∧ target = ⟨service.nextTarget, service.writerCut⟩) := by
      intro other target ht
      rw [Heap.read_modify] at ht
      split at ht
      · next heq =>
        rw [heq]
        simp only [WatchEntry.members, List.append_assoc, List.mem_append, List.mem_singleton]
          at ht ⊢
        tauto
      · exact .inl ht
    refine ⟨h.lawful, fun other => ?_, fun first second hne target ht hmem => ?_,
      fun other target ht => ?_, hcalled, fun other => ?_, fun other hnil => ?_⟩
    · dsimp only
      rw [Heap.read_modify]
      split
      · exact ok_addListener (h.entryOk ref) hsome rfl hheld
          fun hmem => hnew ref (List.mem_append_left _ hmem)
      · exact h.entryOk other
    · rcases hread first target ht with ht | ⟨h1, ht⟩
      · rcases hread second target hmem with hmem | ⟨-, rfl⟩
        · exact h.apart first second hne target ht hmem
        · exact hnew first ht
      · rcases hread second target hmem with hmem | ⟨h2, -⟩
        · exact hnew second (ht ▸ hmem)
        · exact hne (h1.trans h2.symm)
    · rcases hread other target ht with ht | ⟨-, rfl⟩
      · exact Nat.lt_succ_of_lt (h.known other target ht)
      · exact Nat.lt_succ_self _
    · dsimp only
      rw [Heap.read_modify]
      split
      · next heq =>
        refine ⟨fun _ => heq ▸ hcurrent, fun _ hnil => ?_⟩
        exact List.cons_ne_nil _ _ (List.append_eq_nil_iff.mp hnil).2
      · exact h.installed other
    · dsimp only at hnil ⊢
      rw [Heap.read_modify] at hnil ⊢
      split at hnil
      · exact absurd (List.append_eq_nil_iff.mp hnil).2 (List.cons_ne_nil _ _)
      · next hne =>
        rw [if_neg hne]
        exact h.drained other hnil

theorem removeListener_phase (entry : WatchEntry) (target : WatchTarget) :
    (entry.removeListener target).phase = entry.phase := by
  unfold WatchEntry.removeListener
  dsimp only
  split <;> rfl

theorem removeListener_listeners (entry : WatchEntry) (target : WatchTarget) :
    (entry.removeListener target).listeners = entry.listeners.filter (· ≠ target) := by
  unfold WatchEntry.removeListener
  dsimp only
  split <;> rfl

theorem removeListener_drained (entry : WatchEntry) (target : WatchTarget)
    (hnone : (entry.removeListener target).listeners = []) :
    (entry.removeListener target).pending = [] := by
  rw [removeListener_listeners] at hnone
  unfold WatchEntry.removeListener
  dsimp only
  rw [if_pos hnone]

theorem invariant_unsubscribe (h : WatchInv service) {target : WatchTarget}
    (hmem : target ∈ (service.entries.read ref).listeners) :
    WatchInv (service.unsubscribe ref target) := by
  have hcurrent : service.current = some ref := (h.installed ref).mp (List.ne_nil_of_mem hmem)
  have hread : ∀ other, ∀ member ∈ ((service.entries.write ref
        ((service.entries.read ref).removeListener target)).read other).members,
      member ∈ (service.entries.read other).members := by
    intro other member hm
    rw [Heap.read_write] at hm
    split at hm
    · next heq =>
      rw [heq]
      rw [WatchEntry.members, removeListener_phase, removeListener_listeners] at hm
      rcases List.mem_append.mp hm with hm | hm
      · exact List.mem_append_left _ (List.mem_filter.mp hm).1
      · exact List.mem_append_right _ hm
    · exact hm
  unfold unsubscribe
  dsimp only
  refine ⟨h.lawful, fun other => ?_, fun first second hne member ht hmem => ?_,
    fun other member ht => h.known other member (hread other member ht), h.called,
    fun other => ?_, fun other hnil => ?_⟩
  · dsimp only
    rw [Heap.read_write]
    split
    · exact ok_removeListener (h.entryOk ref) target
    · exact h.entryOk other
  · exact h.apart first second hne member (hread first member ht) (hread second member hmem)
  · dsimp only
    rw [Heap.read_write]
    split
    · next heq =>
      split
      · next hnone => exact ⟨fun hsome => absurd hnone hsome, nofun⟩
      · next hsome => exact ⟨fun _ => heq ▸ hcurrent, fun _ => hsome⟩
    · next hne =>
      have hother : service.current ≠ some other :=
        fun heq => hne (Option.some.inj (heq.symm.trans hcurrent))
      refine ⟨fun hsome => absurd ((h.installed other).mp hsome) hother, fun heq => ?_⟩
      split at heq
      · cases heq
      · exact absurd heq hother
  · dsimp only at hnil ⊢
    rw [Heap.read_write] at hnil ⊢
    split at hnil
    · next heq =>
      rw [if_pos heq]
      exact removeListener_drained _ _ hnil
    · next hne =>
      rw [if_neg hne]
      exact h.drained other hnil

/-! ## The pump -/

theorem invariant_callListener {update : ConversationUpdate} {target : WatchTarget}
    {remaining : List WatchTarget} {failed : Bool} (ended : CallEnd) (h : WatchInv service)
    (hphase : (service.entries.read ref).phase = .calling update (target :: remaining) failed) :
    WatchInv (service.callListener ref update target remaining failed ended) := by
  have hok := h.entryOk ref
  have hmember : target ∈ (service.entries.read ref).members := by
    rw [WatchEntry.members, hphase]
    exact List.mem_append_right _ List.mem_cons_self
  have hcall := hok.phase
  unfold PhaseOk at hcall
  rw [hphase] at hcall
  obtain ⟨hafter, hheld, hdelta⟩ := hcall.2.2.2.1 target List.mem_cons_self
  have hcalled : ∀ receipt ∈ ⟨target, update, ended = .delivered⟩ :: service.receipts,
      receipt.target.id < service.nextTarget := by
    intro receipt hr
    rcases List.mem_cons.mp hr with rfl | hr
    · exact h.known ref target hmember
    · exact h.called receipt hr
  have hframe : ∀ other, other ∉ (service.entries.read ref).members →
      held (⟨target, update, ended = .delivered⟩ :: service.receipts) other =
        held service.receipts other := by
    intro other ho
    exact held_cons_ne fun heq : target = other => ho (heq ▸ hmember)
  have hrest : ∀ failedAfter : Bool, ∀ member ∈ WatchEntry.members { service.entries.read ref with
      phase := .calling update remaining failedAfter },
      member ∈ (service.entries.read ref).members := by
    intro failedAfter member hm
    rw [WatchEntry.members, hphase]
    rcases List.mem_append.mp hm with hm | hm
    · exact List.mem_append_left _ hm
    · exact List.mem_append_right _ (List.mem_cons_of_mem _ hm)
  have hlawful : Lawful (⟨target, update, ended = .delivered⟩ :: service.receipts) :=
    ⟨hafter, hheld, hdelta, h.lawful⟩
  unfold callListener
  cases ended with
  | delivered =>
    exact invariant_pump h hlawful hcalled (ok_called hok hphase fun hf => ⟨hf, by decide⟩) hframe
      rfl (hrest failed) (h.drained ref)
  | rejected =>
    exact invariant_pump h hlawful hcalled (ok_called hok hphase nofun) hframe rfl (hrest true)
      (h.drained ref)
  | threw =>
    refine invariant_pump h hlawful hcalled (ok_threw hok hphase) hframe rfl (fun member hm => ?_)
      fun _ => rfl
    rcases List.mem_append.mp hm with hm | hm
    · exact List.mem_append_left _ hm
    · cases hm

theorem pumpLoop_drained {entry : WatchEntry} (sequence : Nat)
    (hempty : entry.listeners = [] → entry.pending = [])
    (hnone : (entry.pumpLoop sequence).1.listeners = []) :
    (entry.pumpLoop sequence).1.pending = [] := by
  rw [pumpLoop_listeners] at hnone
  simp only [WatchEntry.pumpLoop, if_pos hnone]
  exact hempty hnone

theorem settle_listeners (entry : WatchEntry) (sequence : Nat) (update : ConversationUpdate)
    (failed : Bool) : (entry.settle sequence update failed).1.listeners = entry.listeners := by
  unfold WatchEntry.settle
  split
  · rfl
  · rw [pumpLoop_listeners]

theorem settle_remaining (entry : WatchEntry) (sequence : Nat) (update : ConversationUpdate)
    (failed : Bool) : (entry.settle sequence update failed).1.phase.remaining = [] := by
  unfold WatchEntry.settle
  split
  · rfl
  · rw [pumpLoop_remaining]

theorem settle_drained {entry : WatchEntry} (sequence : Nat) (update : ConversationUpdate)
    (failed : Bool) (hempty : entry.listeners = [] → entry.pending = [])
    (hnone : (entry.settle sequence update failed).1.listeners = []) :
    (entry.settle sequence update failed).1.pending = [] := by
  unfold WatchEntry.settle at hnone ⊢
  split
  · rfl
  · next hok =>
    rw [if_neg hok] at hnone
    exact pumpLoop_drained sequence hempty hnone

/-- Every event keeps the invariant of the watch. -/
theorem invariant_step {event : WatchEvent} {next : WatchService} (h : WatchInv service)
    (hstep : service.step event = some next) : WatchInv next := by
  cases event with
  | publish storeRevision bytes stale =>
    cases hstep
    exact invariant_publish h storeRevision bytes stale
  | subscribe =>
    cases hstep
    exact invariant_subscribe h
  | unsubscribe ref target =>
    simp only [step] at hstep
    split at hstep
    · next hmem =>
      cases hstep
      exact invariant_unsubscribe h hmem
    · cases hstep
  | takeSnapshot ref storeRevision bytes descriptor =>
    simp only [step] at hstep
    split at hstep
    · cases hstep
      exact invariant_pump_quiet h (ok_takeSnapshot (h.entryOk ref) rfl rfl) rfl nofun
        (h.drained ref)
    · cases hstep
  | resumeSnapshot ref =>
    simp only [step] at hstep
    split at hstep
    · next update hphase =>
      cases hstep
      refine invariant_pump_quiet h (ok_resumeSnapshot h.lawful (h.entryOk ref) hphase) rfl
        (fun target ht => ?_) (h.drained ref)
      exact List.mem_append_left _ (List.mem_filter.mp ht).1
    · cases hstep
  | resumeUpdate ref descriptor =>
    simp only [step] at hstep
    split at hstep
    · next delta sequence hphase =>
      cases hstep
      refine invariant_pump_quiet h (ok_resumeUpdate descriptor (h.entryOk ref) hphase) rfl
        (fun target ht => ?_) (h.drained ref)
      exact List.mem_append_left _ (List.mem_filter.mp ht).1
    · cases hstep
  | readFailed ref =>
    simp only [step] at hstep
    split at hstep
    · cases hstep
      exact invariant_pump_quiet h (ok_failPump (h.entryOk ref)) rfl nofun fun _ => rfl
    · cases hstep
      exact invariant_pump_quiet h (ok_failPump (h.entryOk ref)) rfl nofun fun _ => rfl
    · cases hstep
  | callListener ref ended =>
    simp only [step] at hstep
    split at hstep
    · next update target remaining failed hphase =>
      cases hstep
      exact invariant_callListener ended h hphase
    · cases hstep
  | callsSettled ref =>
    simp only [step] at hstep
    split at hstep
    · next update failed hphase =>
      cases hstep
      refine invariant_pump_quiet h (ok_settle (h.entryOk ref) hphase (h.drained ref))
        (settle_listeners _ _ _ _) (fun target ht => ?_)
        (settle_drained _ _ _ (h.drained ref))
      rw [settle_remaining] at ht
      cases ht
    · cases hstep

/-- A rule of runs: what every event keeps holds at the end of a run. -/
theorem run_keeps {P : WatchService → Prop}
    (hstep : ∀ {service next : WatchService} {event : WatchEvent}, P service →
      service.step event = some next → P next)
    {events : List WatchEvent} {next : WatchService} (h : P service)
    (hrun : service.run events = some next) : P next := by
  induction events generalizing service with
  | nil => exact Option.some.inj hrun ▸ h
  | cons event events ih =>
    obtain ⟨middle, hmiddle, hrest⟩ := Option.bind_eq_some_iff.mp hrun
    exact ih (hstep h hmiddle) hrest

theorem invariant_run {events : List WatchEvent} {next : WatchService} (h : WatchInv service)
    (hrun : service.run events = some next) : WatchInv next :=
  run_keeps invariant_step h hrun

end WatchService

end Henji
