import Mathlib.Order.Lattice
import Mathlib.Data.List.Nodup
import Henji.Data.ConversationWatch

/-!
# Gap-free delivery of the conversation watch

The queue of an entry is a chain: it starts one above the cut that the pump has delivered or has in
hand and runs up to the writer's cut, a delta at a time, possibly with repeats that the pump skips.
A listener is synced at a cut when the last call of it delivered that cut, or when its own snapshot
covers it. The pump takes a delta up only when all listeners are synced one below.

Results:
1. `ok_settle`, `ok_resumeSnapshot`, `ok_resumeUpdate`, `ok_takeSnapshot`, `ok_called`, `ok_threw`:
   the steps of the pump keep the invariant of its entry.
2. `ok_enqueueTimes`, `ok_addListener`, `ok_removeListener`: so do a publication and a listener that
   joins or leaves.
-/

namespace Henji

namespace WatchService

/-! ## The law of the receipts -/

/-- The cut that a listener holds from its latest call, or from its snapshot, and whether it was
delivered. -/
def held (receipts : List Receipt) (target : WatchTarget) : Nat × Bool :=
  match receipts.find? fun receipt => receipt.target = target with
  | none => (target.afterCut, true)
  | some receipt => (receipt.update.cut, receipt.delivered)

/-- Every call, against the calls before it (the list has the latest first): its cut is above the
listener's snapshot and not below what the listener holds, and a delta is the very next cut after
one that was delivered. -/
def Lawful : List Receipt → Prop
  | [] => True
  | receipt :: earlier =>
    receipt.target.afterCut < receipt.update.cut ∧
    (held earlier receipt.target).1 ≤ receipt.update.cut ∧
    (receipt.update.snapshot = false →
      held earlier receipt.target = (receipt.update.cut - 1, true)) ∧
    Lawful earlier

/-- The listener holds the cut, or its own snapshot is not older. -/
def Synced (receipts : List Receipt) (target : WatchTarget) (cut : Nat) : Prop :=
  held receipts target = (max cut target.afterCut, true)

variable {receipts : List Receipt} {target other : WatchTarget}

theorem held_cons_self (receipt : Receipt) :
    held (receipt :: receipts) receipt.target = (receipt.update.cut, receipt.delivered) := by
  simp [held]

theorem held_cons_ne {receipt : Receipt} (h : receipt.target ≠ target) :
    held (receipt :: receipts) target = held receipts target := by
  simp [held, h]

theorem held_of_not_mem (h : ∀ receipt ∈ receipts, receipt.target ≠ target) :
    held receipts target = (target.afterCut, true) := by
  have : receipts.find? (fun receipt => receipt.target = target) = none := by
    simpa [List.find?_eq_none] using h
  simp [held, this]

/-- A listener holds at least its snapshot. -/
theorem afterCut_le_held (h : Lawful receipts) (target : WatchTarget) :
    target.afterCut ≤ (held receipts target).1 := by
  induction receipts with
  | nil => exact Nat.le_refl _
  | cons receipt earlier ih =>
    by_cases ht : receipt.target = target
    · subst ht
      rw [held_cons_self]
      exact Nat.le_of_lt h.1
    · rw [held_cons_ne ht]
      exact ih h.2.2.2

/-- A listener that holds no more than its snapshot has not been called. -/
theorem held_eq_of_le (h : Lawful receipts)
    (hle : (held receipts target).1 ≤ target.afterCut) :
    held receipts target = (target.afterCut, true) := by
  induction receipts with
  | nil => rfl
  | cons receipt earlier ih =>
    by_cases ht : receipt.target = target
    · subst ht
      rw [held_cons_self] at hle
      exact absurd h.1 (Nat.not_lt.mpr hle)
    · rw [held_cons_ne ht] at hle ⊢
      exact ih h.2.2.2 hle

/-! ## The queue -/

/-- The queue leads from `base` to `top` in steps of one; what is not above its place is a
repeat. -/
def Chain (base : Nat) : List WriterDelta → Nat → Prop
  | [], top => base = top
  | delta :: pending, top =>
    (delta.cut ≤ base ∧ Chain base pending top) ∨
    (delta.cut = base + 1 ∧ Chain (base + 1) pending top)

theorem Chain.append {base top : Nat} {pending : List WriterDelta} (h : Chain base pending top)
    {delta : WriterDelta} (hd : delta.cut = top ∨ delta.cut = top + 1) :
    Chain base (pending ++ [delta]) delta.cut := by
  induction pending generalizing base with
  | nil =>
    cases h
    rcases hd with hd | hd
    · exact .inl ⟨hd.le, hd.symm⟩
    · exact .inr ⟨hd, hd.symm⟩
  | cons first pending ih =>
    rcases h with ⟨h1, h2⟩ | ⟨h1, h2⟩
    · exact .inl ⟨h1, ih h2⟩
    · exact .inr ⟨h1, ih h2⟩

/-- What has been queued up to `top` is all covered at `top`. -/
theorem chain_of_le {top : Nat} {pending : List WriterDelta}
    (h : ∀ delta ∈ pending, delta.cut ≤ top) : Chain top pending top := by
  induction pending with
  | nil => rfl
  | cons first pending ih =>
    exact .inl ⟨h first List.mem_cons_self, ih fun d hd => h d (List.mem_cons_of_mem _ hd)⟩

/-! ## The invariant of one entry -/

/-- What a phase of the pump promises. The writer's cut is `top`; the promises about the queue and
about synced listeners hold while the entry has listeners. -/
def PhaseOk (receipts : List Receipt) (top : Nat) (entry : WatchEntry) : Prop :=
  match entry.phase with
  | .idle => entry.pending = [] ∧ (entry.listeners ≠ [] → entry.needsResync = false →
      entry.lastDeliveredCut = top ∧ ∀ target ∈ entry.listeners, Synced receipts target top)
  | .readingSnapshot _ => True
  | .snapshotRead update => update.snapshot = true ∧ entry.lastDeliveredCut ≤ update.cut ∧
      update.cut ≤ top ∧
      (∀ target ∈ entry.listeners, (held receipts target).1 ≤ max update.cut target.afterCut) ∧
      (entry.listeners ≠ [] → entry.needsResync = false → Chain update.cut entry.pending top)
  | .readingDescriptor delta _ => delta.cut = entry.lastDeliveredCut + 1 ∧ delta.cut ≤ top ∧
      (∀ target ∈ entry.listeners, Synced receipts target entry.lastDeliveredCut) ∧
      (entry.listeners ≠ [] → entry.needsResync = false → Chain delta.cut entry.pending top)
  | .calling update remaining failed => entry.lastDeliveredCut ≤ update.cut ∧
      update.cut ≤ top ∧ remaining.Nodup ∧
      (∀ target ∈ remaining, target.afterCut < update.cut ∧
        (held receipts target).1 ≤ update.cut ∧ (update.snapshot = false →
          held receipts target = (update.cut - 1, true))) ∧
      (failed = false → ∀ target ∈ entry.listeners, target ∉ remaining →
        Synced receipts target update.cut) ∧
      (entry.listeners ≠ [] → entry.needsResync = false → Chain update.cut entry.pending top)

/-- The invariant of one entry. -/
structure EntryOk (receipts : List Receipt) (top : Nat) (entry : WatchEntry) : Prop where
  distinct : entry.listeners.Nodup
  delivered_le : entry.lastDeliveredCut ≤ top
  held_le : ∀ target ∈ entry.listeners, (held receipts target).1 ≤ top
  pending_le : ∀ delta ∈ entry.pending, delta.cut ≤ top
  phase : PhaseOk receipts top entry

/-! ## Steps of the pump -/

section Pump

variable {top : Nat} {entry : WatchEntry}

theorem ok_failPump (h : EntryOk receipts top entry) : EntryOk receipts top entry.failPump where
  distinct := h.distinct
  delivered_le := h.delivered_le
  held_le := h.held_le
  pending_le := nofun
  phase := ⟨rfl, fun _ hsync => by cases hsync⟩

theorem takeDelta_ok {sequence : Nat} {pending : List WriterDelta} {bytes : Int}
    (hdistinct : entry.listeners.Nodup) (hle : entry.lastDeliveredCut ≤ top)
    (hheld : ∀ target ∈ entry.listeners, (held receipts target).1 ≤ top)
    (hpending : ∀ delta ∈ pending, delta.cut ≤ top)
    (hchain : Chain entry.lastDeliveredCut pending top)
    (hsync : ∀ target ∈ entry.listeners, Synced receipts target entry.lastDeliveredCut) :
    EntryOk receipts top (entry.takeDelta sequence pending bytes).1 := by
  induction pending generalizing bytes with
  | nil =>
    cases hchain
    exact ⟨hdistinct, hle, hheld, nofun, rfl, fun _ _ => ⟨rfl, hsync⟩⟩
  | cons delta pending ih =>
    have hpending' := fun d hd => hpending d (List.mem_cons_of_mem _ hd)
    unfold WatchEntry.takeDelta
    split
    · next hcovered =>
      refine ih hpending' ?_
      rcases hchain with ⟨-, hchain⟩ | ⟨hcut, -⟩
      · exact hchain
      · omega
    · next hnew =>
      have hcut : delta.cut = entry.lastDeliveredCut + 1 ∧
          Chain (entry.lastDeliveredCut + 1) pending top := by
        rcases hchain with ⟨hcut, -⟩ | h
        · exact absurd hcut hnew
        · exact h
      refine ⟨hdistinct, hle, hheld, hpending', hcut.1, hpending delta List.mem_cons_self, hsync,
        fun _ _ => ?_⟩
      rw [hcut.1]
      exact hcut.2

/-- At the head of the loop the entry is ready: a queue that is in use continues what all
listeners hold. -/
theorem pumpLoop_ok {sequence : Nat} (hdistinct : entry.listeners.Nodup)
    (hle : entry.lastDeliveredCut ≤ top)
    (hheld : ∀ target ∈ entry.listeners, (held receipts target).1 ≤ top)
    (hpending : ∀ delta ∈ entry.pending, delta.cut ≤ top)
    (hempty : entry.listeners = [] → entry.pending = [])
    (hready : entry.listeners ≠ [] → entry.needsResync = false →
      Chain entry.lastDeliveredCut entry.pending top ∧
      ∀ target ∈ entry.listeners, Synced receipts target entry.lastDeliveredCut) :
    EntryOk receipts top (entry.pumpLoop sequence).1 := by
  unfold WatchEntry.pumpLoop
  split
  · next hnone =>
    exact ⟨hdistinct, hle, hheld, hpending, hempty hnone, fun h => absurd hnone h⟩
  · next hsome =>
    split
    · exact ⟨hdistinct, hle, hheld, nofun, trivial⟩
    · next hresync =>
      have hresync : entry.needsResync = false := Bool.eq_false_iff.mpr hresync
      obtain ⟨hchain, hsync⟩ := hready hsome hresync
      exact takeDelta_ok hdistinct hle hheld hpending hchain hsync

theorem ok_settle {sequence : Nat} {update : ConversationUpdate} {failed : Bool}
    (h : EntryOk receipts top entry) (hphase : entry.phase = .calling update [] failed)
    (hempty : entry.listeners = [] → entry.pending = []) :
    EntryOk receipts top (entry.settle sequence update failed).1 := by
  unfold WatchEntry.settle
  split
  · exact ok_failPump h
  · next hok =>
    have hphaseOk := h.phase
    unfold PhaseOk at hphaseOk
    rw [hphase] at hphaseOk
    obtain ⟨hle, htop, -, -, hsync, hchain⟩ := hphaseOk
    have hmax : max entry.lastDeliveredCut update.cut = update.cut := max_eq_right hle
    refine pumpLoop_ok h.distinct ?_ h.held_le h.pending_le hempty fun hsome hresync => ?_
    · show max _ _ ≤ top
      rw [hmax]
      exact htop
    · show Chain (max _ _) _ _ ∧ ∀ target ∈ _, Synced _ _ (max _ _)
      rw [hmax]
      exact ⟨hchain hsome hresync, fun target ht =>
        hsync (Bool.eq_false_iff.mpr hok) target ht List.not_mem_nil⟩

theorem startCalls_ok {update : ConversationUpdate} (h : EntryOk receipts top entry)
    (hle : entry.lastDeliveredCut ≤ update.cut) (htop : update.cut ≤ top)
    (hcalls : ∀ target ∈ entry.listeners, target.afterCut < update.cut →
      (held receipts target).1 ≤ update.cut ∧
      (update.snapshot = false → held receipts target = (update.cut - 1, true)))
    (hskipped : ∀ target ∈ entry.listeners, update.cut ≤ target.afterCut →
      Synced receipts target update.cut)
    (hchain : entry.listeners ≠ [] → entry.needsResync = false →
      Chain update.cut entry.pending top) :
    EntryOk receipts top (entry.startCalls update) := by
  refine ⟨h.distinct, h.delivered_le, h.held_le, h.pending_le, hle, htop,
    h.distinct.filter _, fun target ht => ?_, fun _ target ht hnot => ?_, hchain⟩
  · obtain ⟨ht, hafter⟩ := List.mem_filter.mp ht
    have hafter := of_decide_eq_true hafter
    exact ⟨hafter, hcalls target ht hafter⟩
  · refine hskipped target ht (Nat.le_of_not_lt fun hafter => hnot ?_)
    exact List.mem_filter.mpr ⟨ht, decide_eq_true hafter⟩

theorem ok_resumeSnapshot {update : ConversationUpdate} (hlawful : Lawful receipts)
    (h : EntryOk receipts top entry) (hphase : entry.phase = .snapshotRead update) :
    EntryOk receipts top (entry.startCalls update) := by
  have hphaseOk := h.phase
  unfold PhaseOk at hphaseOk
  rw [hphase] at hphaseOk
  obtain ⟨hsnapshot, hle, htop, hheld, hchain⟩ := hphaseOk
  refine startCalls_ok h hle htop (fun target ht hafter => ⟨?_, ?_⟩) (fun target ht hafter => ?_)
    hchain
  · have := hheld target ht
    omega
  · exact fun hdelta => by rw [hsnapshot] at hdelta; cases hdelta
  · have hmax := hheld target ht
    rw [max_eq_right hafter] at hmax
    rw [Synced, max_eq_right hafter]
    exact held_eq_of_le hlawful hmax

theorem ok_resumeUpdate {delta : WriterDelta} {sequence : Nat} (descriptor : Json)
    (h : EntryOk receipts top entry)
    (hphase : entry.phase = .readingDescriptor delta sequence) :
    EntryOk receipts top (entry.startCalls
      ⟨delta.cut, delta.storeRevision, delta.bytes, descriptor, sequence, false⟩) := by
  have hphaseOk := h.phase
  unfold PhaseOk at hphaseOk
  rw [hphase] at hphaseOk
  obtain ⟨hcut, htop, hsync, hchain⟩ := hphaseOk
  refine startCalls_ok h (by dsimp only; omega) htop (fun target ht hafter => ?_)
    (fun target ht hafter => ?_) hchain
  · have hs := hsync target ht
    dsimp only at hafter ⊢
    rw [Synced, max_eq_left (by omega)] at hs
    rw [hs, hcut]
    exact ⟨Nat.le_succ _, fun _ => rfl⟩
  · have hs := hsync target ht
    dsimp only at hafter ⊢
    rw [Synced, max_eq_right (by omega)] at hs
    rw [Synced, max_eq_right (by omega)]
    exact hs

theorem ok_takeSnapshot {update : ConversationUpdate} (h : EntryOk receipts top entry)
    (hcut : update.cut = top)
    (hsnapshot : update.snapshot = true) :
    EntryOk receipts top { entry with phase := .snapshotRead update } := by
  subst hcut
  refine ⟨h.distinct, h.delivered_le, h.held_le, h.pending_le, hsnapshot, h.delivered_le,
    Nat.le_refl _, fun target ht => ?_, fun _ _ => chain_of_le h.pending_le⟩
  exact Nat.le_trans (h.held_le target ht) (Nat.le_max_left _ _)

/-! ## The queue and the listeners -/

/-- What a publication adds to the queue: the cut after `top`, or a repeat of `top`. -/
theorem ok_queued {delta : WriterDelta} {bytes : Int} (h : EntryOk receipts top entry)
    (hcut : delta.cut = top ∨ delta.cut = top + 1) (hphase : entry.phase ≠ .idle) :
    EntryOk receipts delta.cut
      { entry with pending := entry.pending ++ [delta], pendingBytes := bytes } := by
  have htop : top ≤ delta.cut := by omega
  refine ⟨h.distinct, Nat.le_trans h.delivered_le htop,
    fun target ht => Nat.le_trans (h.held_le target ht) htop, fun queued hq => ?_, ?_⟩
  · rcases List.mem_append.mp hq with hq | hq
    · exact Nat.le_trans (h.pending_le queued hq) htop
    · exact (List.mem_singleton.mp hq) ▸ Nat.le_refl _
  · have hphaseOk := h.phase
    unfold PhaseOk at hphaseOk ⊢
    dsimp only at hphase ⊢
    cases hp : entry.phase with
    | idle => exact absurd hp hphase
    | readingSnapshot => trivial
    | snapshotRead update =>
      rw [hp] at hphaseOk
      obtain ⟨h1, h2, h3, h4, hchain⟩ := hphaseOk
      exact ⟨h1, h2, Nat.le_trans h3 htop, h4, fun hs hr => (hchain hs hr).append hcut⟩
    | readingDescriptor =>
      rw [hp] at hphaseOk
      obtain ⟨h1, h2, h3, hchain⟩ := hphaseOk
      exact ⟨h1, Nat.le_trans h2 htop, h3, fun hs hr => (hchain hs hr).append hcut⟩
    | calling =>
      rw [hp] at hphaseOk
      obtain ⟨h1, h2, h3, h4, h5, hchain⟩ := hphaseOk
      exact ⟨h1, Nat.le_trans h2 htop, h3, h4, h5, fun hs hr => (hchain hs hr).append hcut⟩

/-- A queue that is dropped, or that is not used, does not have to follow the writer. -/
theorem ok_resync {newTop : Nat} {pending : List WriterDelta} {bytes : Int}
    (h : EntryOk receipts top entry) (hphase : entry.phase ≠ .idle) (htop : top ≤ newTop)
    (hpending : ∀ delta ∈ pending, delta ∈ entry.pending) :
    EntryOk receipts newTop
      { entry with pending, pendingBytes := bytes, needsResync := true } := by
  refine ⟨h.distinct, Nat.le_trans h.delivered_le htop,
    fun target ht => Nat.le_trans (h.held_le target ht) htop,
    fun delta hd => Nat.le_trans (h.pending_le delta (hpending delta hd)) htop, ?_⟩
  have hphaseOk := h.phase
  unfold PhaseOk at hphaseOk ⊢
  dsimp only at hphase ⊢
  cases hp : entry.phase with
  | idle => exact absurd hp hphase
  | readingSnapshot => trivial
  | snapshotRead update =>
    rw [hp] at hphaseOk
    obtain ⟨h1, h2, h3, h4, -⟩ := hphaseOk
    exact ⟨h1, h2, Nat.le_trans h3 htop, h4, fun _ hr => by cases hr⟩
  | readingDescriptor =>
    rw [hp] at hphaseOk
    obtain ⟨h1, h2, h3, -⟩ := hphaseOk
    exact ⟨h1, Nat.le_trans h2 htop, h3, fun _ hr => by cases hr⟩
  | calling =>
    rw [hp] at hphaseOk
    obtain ⟨h1, h2, h3, h4, h5, -⟩ := hphaseOk
    exact ⟨h1, Nat.le_trans h2 htop, h3, h4, h5, fun _ hr => by cases hr⟩

theorem takeDelta_listeners (sequence : Nat) (pending : List WriterDelta) (bytes : Int) :
    (entry.takeDelta sequence pending bytes).1.listeners = entry.listeners := by
  induction pending generalizing bytes with
  | nil => rfl
  | cons delta pending ih =>
    unfold WatchEntry.takeDelta
    split
    · exact ih _
    · rfl

theorem pumpLoop_listeners (sequence : Nat) :
    (entry.pumpLoop sequence).1.listeners = entry.listeners := by
  unfold WatchEntry.pumpLoop
  split
  · rfl
  · split
    · rfl
    · exact takeDelta_listeners _ _ _

theorem takeDelta_remaining (sequence : Nat) (pending : List WriterDelta) (bytes : Int) :
    (entry.takeDelta sequence pending bytes).1.phase.remaining = [] := by
  induction pending generalizing bytes with
  | nil => rfl
  | cons delta pending ih =>
    unfold WatchEntry.takeDelta
    split
    · exact ih _
    · rfl

theorem pumpLoop_remaining (sequence : Nat) :
    (entry.pumpLoop sequence).1.phase.remaining = [] := by
  unfold WatchEntry.pumpLoop
  split
  · rfl
  · split
    · rfl
    · exact takeDelta_remaining _ _ _

/-- What can become of the entry when a delta is enqueued: the pump starts, the queue is not used,
it is dropped, or the delta is appended. -/
theorem enqueue_cases (entry : WatchEntry) (sequence : Nat) (delta : WriterDelta) :
    (entry.phase = .idle ∧ entry.pending = [] ∧ entry.enqueue sequence delta =
      WatchEntry.pumpLoop (if entry.needsResync then entry else { entry with
        pending := [delta]
        pendingBytes := entry.pendingBytes + delta.bytes.length }) sequence) ∨
    (entry.phase = .idle ∧ entry.pending ≠ []) ∨
    (entry.phase ≠ .idle ∧ entry.needsResync = true ∧
      entry.enqueue sequence delta = (entry, sequence)) ∨
    (entry.phase ≠ .idle ∧ entry.needsResync = false ∧ entry.enqueue sequence delta =
      ({ entry with pending := [], pendingBytes := 0, needsResync := true }, sequence)) ∨
    (entry.phase ≠ .idle ∧ entry.needsResync = false ∧ entry.enqueue sequence delta =
      ({ entry with
        pending := entry.pending ++ [delta]
        pendingBytes := entry.pendingBytes + delta.bytes.length }, sequence)) := by
  by_cases hphase : entry.phase = .idle
  · by_cases hpending : entry.pending = []
    · refine .inl ⟨hphase, hpending, ?_⟩
      cases hresync : entry.needsResync <;> simp [WatchEntry.enqueue, hphase, hpending, hresync]
    · exact .inr (.inl ⟨hphase, hpending⟩)
  · refine .inr (.inr ?_)
    cases hresync : entry.needsResync with
    | true => exact .inl ⟨hphase, rfl, by simp [WatchEntry.enqueue, hphase, hresync]⟩
    | false =>
      refine .inr ?_
      by_cases hbytes : conversationWatchPendingBytes < entry.pendingBytes + delta.bytes.length
      · exact .inl ⟨hphase, rfl, by simp [WatchEntry.enqueue, hphase, hresync, hbytes]⟩
      · exact .inr ⟨hphase, rfl, by simp [WatchEntry.enqueue, hphase, hresync, hbytes]⟩

theorem idle_pending (h : EntryOk receipts top entry) (hphase : entry.phase = .idle) :
    entry.pending = [] := by
  have hphaseOk := h.phase
  unfold PhaseOk at hphaseOk
  rw [hphase] at hphaseOk
  exact hphaseOk.1

theorem ok_enqueue {sequence : Nat} {delta : WriterDelta} (h : EntryOk receipts top entry)
    (hsome : entry.listeners ≠ []) (hcut : delta.cut = top ∨ delta.cut = top + 1) :
    EntryOk receipts delta.cut (entry.enqueue sequence delta).1 := by
  have htop : top ≤ delta.cut := by omega
  rcases enqueue_cases entry sequence delta with ⟨hphase, hpending, heq⟩ | ⟨hphase, hpending⟩ |
    ⟨hphase, hresync, heq⟩ | ⟨hphase, -, heq⟩ | ⟨hphase, -, heq⟩
  · rw [heq]
    have hphaseOk := h.phase
    unfold PhaseOk at hphaseOk
    rw [hphase] at hphaseOk
    have hle := Nat.le_trans h.delivered_le htop
    have hheld := fun target ht => Nat.le_trans (h.held_le target ht) htop
    cases hresync : entry.needsResync with
    | true =>
      refine pumpLoop_ok h.distinct hle hheld ?_ (fun hnone => absurd hnone hsome) ?_
      · show ∀ delta ∈ entry.pending, _
        rw [hpending]
        nofun
      · exact fun _ hr => absurd (hresync.symm.trans hr) nofun
    | false =>
      obtain ⟨hlast, hsync⟩ := hphaseOk.2 hsome hresync
      refine pumpLoop_ok h.distinct hle hheld ?_ (fun hnone => absurd hnone hsome) ?_
      · intro queued hq
        exact (List.mem_singleton.mp hq) ▸ Nat.le_refl _
      · intro _ _
        refine ⟨?_, fun target ht => hlast ▸ hsync target ht⟩
        show Chain entry.lastDeliveredCut ([] ++ [delta]) delta.cut
        have hchain : Chain entry.lastDeliveredCut [] top := hlast
        exact hchain.append hcut
  · exact absurd (idle_pending h hphase) hpending
  · rw [heq]
    have hkept : EntryOk receipts delta.cut { entry with
        pending := entry.pending
        pendingBytes := entry.pendingBytes
        needsResync := true } := ok_resync h hphase htop fun _ hd => hd
    rwa [← hresync] at hkept
  · rw [heq]
    exact ok_resync h hphase htop nofun
  · rw [heq]
    exact ok_queued h hcut hphase

theorem enqueue_listeners (sequence : Nat) (delta : WriterDelta) :
    (entry.enqueue sequence delta).1.listeners = entry.listeners := by
  have hkept : ∀ queued : WatchEntry, queued.listeners = entry.listeners →
      (if queued.phase = .idle then queued.pumpLoop sequence else (queued, sequence)).1.listeners
        = entry.listeners := by
    intro queued hq
    split
    · rw [pumpLoop_listeners, hq]
    · exact hq
  unfold WatchEntry.enqueue
  refine hkept _ ?_
  split
  · rfl
  · split <;> rfl

/-- A delta does not change whom the pump is still to call. -/
theorem enqueue_remaining (sequence : Nat) (delta : WriterDelta) :
    (entry.enqueue sequence delta).1.phase.remaining = entry.phase.remaining := by
  have hkept : ∀ queued : WatchEntry, queued.phase = entry.phase →
      (if queued.phase = .idle then queued.pumpLoop sequence
        else (queued, sequence)).1.phase.remaining = entry.phase.remaining := by
    intro queued hq
    split
    · next hidle => rw [pumpLoop_remaining, ← hq, hidle]; rfl
    · rw [hq]
  unfold WatchEntry.enqueue
  refine hkept _ ?_
  split
  · rfl
  · split <;> rfl

theorem ok_enqueueTimes (sequence times : Nat) (delta : WriterDelta)
    (h : EntryOk receipts top entry) (hsome : entry.listeners ≠ [])
    (hcut : delta.cut = top ∨ delta.cut = top + 1) :
    EntryOk receipts delta.cut (entry.enqueueTimes sequence delta (times + 1)).1 := by
  induction times generalizing entry sequence top with
  | zero => exact ok_enqueue h hsome hcut
  | succ times ih =>
    have hfirst : EntryOk receipts delta.cut (entry.enqueue sequence delta).1 :=
      ok_enqueue h hsome hcut
    have hsome' : (entry.enqueue sequence delta).1.listeners ≠ [] := by
      rwa [enqueue_listeners]
    exact ih _ hfirst hsome' (.inl rfl)

theorem enqueueTimes_listeners (entry : WatchEntry) (sequence : Nat) (delta : WriterDelta)
    (times : Nat) :
    (entry.enqueueTimes sequence delta times).1.listeners = entry.listeners := by
  induction times generalizing entry sequence with
  | zero => rfl
  | succ times ih => exact (ih _ _).trans (enqueue_listeners sequence delta)

theorem enqueueTimes_remaining (entry : WatchEntry) (sequence : Nat) (delta : WriterDelta)
    (times : Nat) :
    (entry.enqueueTimes sequence delta times).1.phase.remaining = entry.phase.remaining := by
  induction times generalizing entry sequence with
  | zero => rfl
  | succ times ih => exact (ih _ _).trans (enqueue_remaining sequence delta)

/-- A new listener has the writer's cut as its snapshot and has not been called. -/
theorem ok_addListener {target : WatchTarget} (h : EntryOk receipts top entry)
    (hsome : entry.listeners ≠ []) (hafter : target.afterCut = top)
    (hheld : held receipts target = (top, true)) (hnew : target ∉ entry.listeners) :
    EntryOk receipts top { entry with listeners := entry.listeners ++ [target] } := by
  have hsynced : ∀ {cut : Nat}, cut ≤ top → Synced receipts target cut := by
    intro cut hle
    rw [Synced, hheld, hafter, max_eq_right hle]
  have hmem : ∀ {P : WatchTarget → Prop}, (∀ other ∈ entry.listeners, P other) → P target →
      ∀ other ∈ entry.listeners ++ [target], P other := by
    intro P hold hself other ho
    rcases List.mem_append.mp ho with ho | ho
    · exact hold other ho
    · exact (List.mem_singleton.mp ho) ▸ hself
  refine ⟨?_, h.delivered_le, hmem h.held_le (by rw [hheld]), h.pending_le, ?_⟩
  · exact List.nodup_append.mpr ⟨h.distinct, List.nodup_singleton _,
      fun other ho same hs => (List.mem_singleton.mp hs) ▸ fun heq => hnew (heq ▸ ho)⟩
  · have hphaseOk := h.phase
    unfold PhaseOk at hphaseOk ⊢
    dsimp only
    cases hp : entry.phase with
    | idle =>
      rw [hp] at hphaseOk
      refine ⟨hphaseOk.1, fun _ hr => ?_⟩
      obtain ⟨hlast, hsync⟩ := hphaseOk.2 hsome hr
      exact ⟨hlast, hmem hsync (hsynced (Nat.le_refl _))⟩
    | readingSnapshot => trivial
    | snapshotRead update =>
      rw [hp] at hphaseOk
      obtain ⟨h1, h2, h3, h4, h5⟩ := hphaseOk
      refine ⟨h1, h2, h3, hmem h4 ?_, fun _ => h5 hsome⟩
      rw [hheld, hafter]
      exact Nat.le_max_right _ _
    | readingDescriptor =>
      rw [hp] at hphaseOk
      obtain ⟨h1, h2, h3, h4⟩ := hphaseOk
      exact ⟨h1, h2, hmem h3 (hsynced h.delivered_le), fun _ => h4 hsome⟩
    | calling update remaining failed =>
      rw [hp] at hphaseOk
      obtain ⟨h1, h2, h3, h4, h5, h6⟩ := hphaseOk
      refine ⟨h1, h2, h3, h4, fun hf => hmem (h5 hf) fun _ => hsynced h2, fun _ => h6 hsome⟩

/-- The entry of a first listener. -/
theorem ok_firstListener {target : WatchTarget} (hafter : target.afterCut = top)
    (hheld : held receipts target = (top, true)) :
    EntryOk receipts top ⟨[target], [], 0, false, top, .idle⟩ := by
  have hself : ∀ {P : WatchTarget → Prop}, P target → ∀ other ∈ [target], P other :=
    fun hp other ho => (List.mem_singleton.mp ho) ▸ hp
  refine ⟨List.nodup_singleton _, Nat.le_refl _, hself (by rw [hheld]), nofun, rfl,
    fun _ _ => ⟨rfl, hself ?_⟩⟩
  rw [Synced, hheld, hafter, max_eq_right (Nat.le_refl _)]

/-- With fewer listeners less is promised; without listeners nothing about the queue. -/
theorem ok_fewerListeners {listeners : List WatchTarget} {pending : List WriterDelta} {bytes : Int}
    {resync : Bool} (h : EntryOk receipts top entry) (hsub : listeners.Sublist entry.listeners)
    (hqueue : (listeners ≠ [] ∧ pending = entry.pending ∧ resync = entry.needsResync) ∨
      (listeners = [] ∧ pending = [])) :
    EntryOk receipts top
      { entry with listeners, pending, pendingBytes := bytes, needsResync := resync } := by
  have hless : ∀ {P : WatchTarget → Prop}, (∀ target ∈ entry.listeners, P target) →
      ∀ target ∈ listeners, P target := fun hall target ht => hall target (hsub.subset ht)
  have hchain : ∀ {base : Nat},
      (entry.listeners ≠ [] → entry.needsResync = false → Chain base entry.pending top) →
      listeners ≠ [] → resync = false → Chain base pending top := by
    intro base hall hsome hr
    rcases hqueue with ⟨-, hp, hresync⟩ | ⟨hnone, -⟩
    · rw [hp]
      refine hall (fun hnil => hsome ?_) (hresync ▸ hr)
      exact List.sublist_nil.mp (hnil ▸ hsub)
    · exact absurd hnone hsome
  refine ⟨h.distinct.sublist hsub, h.delivered_le, hless h.held_le, ?_, ?_⟩
  · rcases hqueue with ⟨-, hp, -⟩ | ⟨-, hp⟩
    · rw [hp]
      exact h.pending_le
    · rw [hp]
      nofun
  · have hphaseOk := h.phase
    unfold PhaseOk at hphaseOk ⊢
    dsimp only
    cases hp : entry.phase with
    | idle =>
      rw [hp] at hphaseOk
      rcases hqueue with ⟨-, hpend, hresync⟩ | ⟨hnone, hpend⟩
      · refine ⟨hpend.trans hphaseOk.1, fun hsome hr => ?_⟩
        have hsome' : entry.listeners ≠ [] :=
          fun hnil => hsome (List.sublist_nil.mp (hnil ▸ hsub))
        obtain ⟨hlast, hsync⟩ := hphaseOk.2 hsome' (hresync ▸ hr)
        exact ⟨hlast, hless hsync⟩
      · exact ⟨hpend, fun hsome => absurd hnone hsome⟩
    | readingSnapshot => trivial
    | snapshotRead =>
      rw [hp] at hphaseOk
      obtain ⟨h1, h2, h3, h4, h5⟩ := hphaseOk
      exact ⟨h1, h2, h3, hless h4, hchain h5⟩
    | readingDescriptor =>
      rw [hp] at hphaseOk
      obtain ⟨h1, h2, h3, h4⟩ := hphaseOk
      exact ⟨h1, h2, hless h3, hchain h4⟩
    | calling =>
      rw [hp] at hphaseOk
      obtain ⟨h1, h2, h3, h4, h5, h6⟩ := hphaseOk
      exact ⟨h1, h2, h3, h4, fun hf => hless (h5 hf), hchain h6⟩

theorem ok_removeListener (h : EntryOk receipts top entry) (target : WatchTarget) :
    EntryOk receipts top (entry.removeListener target) := by
  have hsub : (entry.listeners.filter (· ≠ target)).Sublist entry.listeners :=
    List.filter_sublist
  unfold WatchEntry.removeListener
  dsimp only
  split
  · next hnone => exact ok_fewerListeners h hsub (.inr ⟨hnone, rfl⟩)
  · next hsome => exact ok_fewerListeners h hsub (.inl ⟨hsome, rfl, rfl⟩)

/-- An entry without listeners does not follow the writer. -/
theorem ok_unwatched {newTop : Nat} (h : EntryOk receipts top entry)
    (hnone : entry.listeners = []) (htop : top ≤ newTop) : EntryOk receipts newTop entry := by
  refine ⟨h.distinct, Nat.le_trans h.delivered_le htop,
    fun target ht => Nat.le_trans (h.held_le target ht) htop,
    fun delta hd => Nat.le_trans (h.pending_le delta hd) htop, ?_⟩
  have hphaseOk := h.phase
  unfold PhaseOk at hphaseOk ⊢
  cases hp : entry.phase with
  | idle =>
    rw [hp] at hphaseOk
    exact ⟨hphaseOk.1, fun hsome => absurd hnone hsome⟩
  | readingSnapshot => trivial
  | snapshotRead =>
    rw [hp] at hphaseOk
    obtain ⟨h1, h2, h3, h4, -⟩ := hphaseOk
    exact ⟨h1, h2, Nat.le_trans h3 htop, h4, fun hsome => absurd hnone hsome⟩
  | readingDescriptor =>
    rw [hp] at hphaseOk
    obtain ⟨h1, h2, h3, -⟩ := hphaseOk
    exact ⟨h1, Nat.le_trans h2 htop, h3, fun hsome => absurd hnone hsome⟩
  | calling =>
    rw [hp] at hphaseOk
    obtain ⟨h1, h2, h3, h4, h5, -⟩ := hphaseOk
    exact ⟨h1, Nat.le_trans h2 htop, h3, h4, h5, fun hsome => absurd hnone hsome⟩

/-! ## Calls -/

/-- Calls of other targets do not matter to an entry. -/
theorem ok_frame {newReceipts : List Receipt} (h : EntryOk receipts top entry)
    (hsame : ∀ target ∈ entry.listeners ++ entry.phase.remaining,
      held newReceipts target = held receipts target) :
    EntryOk newReceipts top entry := by
  have hlisteners : ∀ target ∈ entry.listeners, held newReceipts target = held receipts target :=
    fun target ht => hsame target (List.mem_append_left _ ht)
  refine ⟨h.distinct, h.delivered_le, fun target ht => hlisteners target ht ▸ h.held_le target ht,
    h.pending_le, ?_⟩
  have hphaseOk := h.phase
  unfold PhaseOk at hphaseOk ⊢
  cases hp : entry.phase with
  | idle =>
    rw [hp] at hphaseOk
    refine ⟨hphaseOk.1, fun hsome hr => ?_⟩
    obtain ⟨hlast, hsync⟩ := hphaseOk.2 hsome hr
    exact ⟨hlast, fun target ht => (hlisteners target ht).trans (hsync target ht)⟩
  | readingSnapshot => trivial
  | snapshotRead =>
    rw [hp] at hphaseOk
    obtain ⟨h1, h2, h3, h4, h5⟩ := hphaseOk
    exact ⟨h1, h2, h3, fun target ht => hlisteners target ht ▸ h4 target ht, h5⟩
  | readingDescriptor =>
    rw [hp] at hphaseOk
    obtain ⟨h1, h2, h3, h4⟩ := hphaseOk
    exact ⟨h1, h2, fun target ht => (hlisteners target ht).trans (h3 target ht), h4⟩
  | calling update remaining failed =>
    rw [hp] at hphaseOk hsame
    obtain ⟨h1, h2, h3, h4, h5, h6⟩ := hphaseOk
    refine ⟨h1, h2, h3, fun target ht => ?_, fun hf target ht hnot =>
      (hlisteners target ht).trans (h5 hf target ht hnot), h6⟩
    rw [hsame target (List.mem_append_right _ ht)]
    exact h4 target ht

/-- The next listener is called; whether it delivers is recorded with the call. -/
theorem ok_called {update : ConversationUpdate} {target : WatchTarget}
    {remaining : List WatchTarget} {failed failedAfter delivered : Bool}
    (h : EntryOk receipts top entry)
    (hphase : entry.phase = .calling update (target :: remaining) failed)
    (hfailed : failedAfter = false → failed = false ∧ delivered = true) :
    EntryOk (⟨target, update, delivered⟩ :: receipts) top
      { entry with phase := .calling update remaining failedAfter } := by
  have hphaseOk := h.phase
  unfold PhaseOk at hphaseOk
  rw [hphase] at hphaseOk
  obtain ⟨h1, h2, h3, h4, h5, h6⟩ := hphaseOk
  obtain ⟨hfresh, hnodup⟩ := List.nodup_cons.mp h3
  have hself : held (⟨target, update, delivered⟩ :: receipts) target =
      (update.cut, delivered) := held_cons_self ⟨target, update, delivered⟩
  have hother : ∀ other, other ≠ target →
      held (⟨target, update, delivered⟩ :: receipts) other = held receipts other :=
    fun other hne => held_cons_ne (Ne.symm hne)
  refine ⟨h.distinct, h.delivered_le, fun other ho => ?_, h.pending_le, h1, h2, hnodup,
    fun other ho => ?_, fun hf other ho hnot => ?_, h6⟩
  · by_cases heq : other = target
    · rw [heq, hself]
      exact h2
    · rw [hother other heq]
      exact h.held_le other ho
  · rw [hother other fun heq => hfresh (heq ▸ ho)]
    exact h4 other (List.mem_cons_of_mem _ ho)
  · obtain ⟨hf, hd⟩ := hfailed hf
    by_cases heq : other = target
    · rw [Synced, heq, hself, hd, max_eq_left]
      exact Nat.le_of_lt (h4 target List.mem_cons_self).1
    · rw [Synced, hother other heq]
      exact h5 hf other ho fun hmem => hnot ((List.mem_cons.mp hmem).resolve_left heq)

/-- A listener that throws at once ends the pump. -/
theorem ok_threw {update : ConversationUpdate} {target : WatchTarget}
    {remaining : List WatchTarget} {failed delivered : Bool} (h : EntryOk receipts top entry)
    (hphase : entry.phase = .calling update (target :: remaining) failed) :
    EntryOk (⟨target, update, delivered⟩ :: receipts) top entry.failPump := by
  have hcalled : EntryOk (⟨target, update, delivered⟩ :: receipts) top
      { entry with phase := .calling update remaining true } := ok_called h hphase nofun
  have hfailed := ok_failPump hcalled
  exact hfailed

end Pump

end WatchService

end Henji
