import Henji.Data.WriterInvariant

/-!
# Quiet parts of the writer's operations

`Quiet before after` says that nothing a watcher could see has changed: the same publications and
subscriptions, the same listeners, and every cursor that existed holds the same view, with the same
content, at the same cut. Most private methods are quiet; `keeps_quiet_of` names them.
-/

namespace Henji

open ConversationWriter

variable {ε σ : Type}

structure Quiet (before after : ConversationWriter σ) : Prop where
  invariant : before.Invariant
  invariant' : after.Invariant
  publications : after.publications = before.publications
  subscriptions : after.subscriptions = before.subscriptions
  closedSessions : after.closedSessions = before.closedSessions
  cursorsNext : before.cursors.next ≤ after.cursors.next
  viewsNext : before.views.next ≤ after.views.next
  sessions : ∀ sessionId cursor, before.sessions.get? sessionId = some cursor →
    after.sessions.get? sessionId = some cursor
  sessionsBack : ∀ sessionId cursor, cursor < before.cursors.next →
    after.sessions.get? sessionId = some cursor → before.sessions.get? sessionId = some cursor
  view : ∀ cursor, cursor < before.cursors.next →
    (after.cursors.read cursor).view = (before.cursors.read cursor).view
  cut : ∀ cursor, cursor < before.cursors.next →
    (after.cursors.read cursor).cut = (before.cursors.read cursor).cut
  content : ∀ view, view < before.views.next → after.views.read view = before.views.read view
  listeners : ∀ sessionId, after.listenersOf sessionId = before.listenersOf sessionId

namespace WriterLemmas

variable {writer before middle after : ConversationWriter σ}

theorem quiet_refl (h : writer.Invariant) : Quiet writer writer :=
  ⟨h, h, rfl, rfl, rfl, Nat.le_refl _, Nat.le_refl _, fun _ _ h => h, fun _ _ _ h => h,
    fun _ _ => rfl, fun _ _ => rfl, fun _ _ => rfl, fun _ => rfl⟩

theorem quiet_trans (h : Quiet before middle) (h' : Quiet middle after) : Quiet before after where
  invariant := h.invariant
  invariant' := h'.invariant'
  publications := h'.publications.trans h.publications
  subscriptions := h'.subscriptions.trans h.subscriptions
  closedSessions := h'.closedSessions.trans h.closedSessions
  cursorsNext := Nat.le_trans h.cursorsNext h'.cursorsNext
  viewsNext := Nat.le_trans h.viewsNext h'.viewsNext
  sessions _ _ hget := h'.sessions _ _ (h.sessions _ _ hget)
  sessionsBack _ _ hlt hget :=
    h.sessionsBack _ _ hlt (h'.sessionsBack _ _ (Nat.lt_of_lt_of_le hlt h.cursorsNext) hget)
  view _ hlt := (h'.view _ (Nat.lt_of_lt_of_le hlt h.cursorsNext)).trans (h.view _ hlt)
  cut _ hlt := (h'.cut _ (Nat.lt_of_lt_of_le hlt h.cursorsNext)).trans (h.cut _ hlt)
  content _ hlt := (h'.content _ (Nat.lt_of_lt_of_le hlt h.viewsNext)).trans (h.content _ hlt)
  listeners _ := (h'.listeners _).trans (h.listeners _)

/-- Code is quiet when every state it starts in is related to the one it ends in. -/
def IsQuiet {α : Type} (m : WriterEffect ε σ α) : Prop :=
  ∀ writer : ConversationWriter σ, writer.Invariant → Quiet writer (m.run writer).2

/-- Quiet code carries on from any quiet start. -/
theorem keeps_quiet {α : Type} {m : WriterEffect ε σ α} (h : IsQuiet m)
    (before : ConversationWriter σ) : Effect.Keeps (Quiet before) m :=
  Effect.keeps_iff.mpr fun _ hs => quiet_trans hs (h _ hs.invariant')

theorem isQuiet_of_keeps {α : Type} {m : WriterEffect ε σ α}
    (h : ∀ before, Effect.Keeps (Quiet before) m) : IsQuiet m :=
  fun writer hwriter => Effect.keeps_iff.mp (h writer) writer (quiet_refl hwriter)

theorem isQuiet_pure {α : Type} (a : α) : IsQuiet (pure a : WriterEffect ε σ α) :=
  fun _ h => quiet_refl h

theorem isQuiet_throw {α : Type} (e : WriterError ε) : IsQuiet (throw e : WriterEffect ε σ α) :=
  fun _ h => quiet_refl h

theorem isQuiet_get : IsQuiet (get : WriterEffect ε σ (ConversationWriter σ)) :=
  fun _ h => quiet_refl h

theorem isQuiet_bind {α β : Type} {m : WriterEffect ε σ α} {f : α → WriterEffect ε σ β}
    (hm : IsQuiet m) (hf : ∀ a, IsQuiet (f a)) : IsQuiet (m >>= f) :=
  isQuiet_of_keeps fun before =>
    Effect.keeps_bind (keeps_quiet hm before) fun a => keeps_quiet (hf a) before

/-! ## The quiet state changes -/

/-- Fields outside the invariant and outside what a watcher sees. -/
theorem quiet_fields (h : before.Invariant) (hcursors : after.cursors = before.cursors)
    (hviews : after.views = before.views) (hsessions : after.sessions = before.sessions)
    (hadmissions : after.admissions = before.admissions)
    (hsubscriptions : after.subscriptions = before.subscriptions)
    (hclosed : after.closedSessions = before.closedSessions)
    (hpublications : after.publications = before.publications) : Quiet before after := by
  have hinv : after.Invariant := by
    unfold Invariant
    rw [hcursors, hviews, hsessions, hadmissions, hsubscriptions]
    exact h
  refine ⟨h, hinv, hpublications, hsubscriptions, hclosed, by rw [hcursors], by rw [hviews],
    fun _ _ hget => by rw [hsessions]; exact hget, fun _ _ _ hget => by rw [← hsessions]; exact hget,
    fun _ _ => by rw [hcursors], fun _ _ => by rw [hcursors], fun _ _ => by rw [hviews],
    fun sessionId => ?_⟩
  exact listenersOf_congr (by rw [hsessions]) fun _ _ => by rw [viewOf, viewOf, hcursors, hviews]

theorem quiet_admissions (h : before.Invariant) {admissions : InsMap Nat Admission}
    (nextAdmission : Nat)
    (hinv : Invariant { before with admissions, nextAdmission }) :
    Quiet before { before with admissions, nextAdmission } :=
  ⟨h, hinv, rfl, rfl, rfl, Nat.le_refl _, Nat.le_refl _, fun _ _ h => h, fun _ _ _ h => h,
    fun _ _ => rfl, fun _ _ => rfl, fun _ _ => rfl, fun _ => rfl⟩

theorem quiet_cursorFields (h : before.Invariant) (ref : CursorRef)
    {f : SessionSaveCursor → SessionSaveCursor} (hview : ∀ cursor, (f cursor).view = cursor.view)
    (hcut : ∀ cursor, (f cursor).cut = cursor.cut) :
    Quiet before { before with cursors := before.cursors.modify ref f } := by
  have hread : ∀ cursor, ((before.cursors.modify ref f).read cursor).view =
      (before.cursors.read cursor).view := by
    intro cursor
    rw [Heap.read_modify]
    split
    · next heq => rw [hview, heq]
    · rfl
  refine ⟨h, invariant_cursorFields h ref f hview, rfl, rfl, rfl, Nat.le_refl _, Nat.le_refl _,
    fun _ _ h => h, fun _ _ _ h => h, fun cursor _ => hread cursor, fun cursor _ => ?_,
    fun _ _ => rfl, fun sessionId => ?_⟩
  · rw [Heap.read_modify]
    split
    · next heq => rw [hcut, heq]
    · rfl
  · exact listenersOf_congr rfl fun cursor _ => by rw [viewOf, hread, viewOf]

theorem quiet_newCursor (h : before.Invariant) {sessionId : SessionId}
    (hnone : before.sessions.get? sessionId = none) :
    Quiet before { before with
      cursors := (before.cursors.alloc ⟨0, 0, none⟩).2
      sessions := before.sessions.set sessionId (before.cursors.alloc ⟨0, 0, none⟩).1 } := by
  have hread : ∀ cursor, cursor < before.cursors.next →
      (before.cursors.alloc ⟨0, 0, none⟩).2.read cursor = before.cursors.read cursor :=
    fun cursor hlt => Heap.read_alloc_lt _ _ hlt
  refine ⟨h, invariant_newCursor h hnone, rfl, rfl, rfl, Nat.le_succ _, Nat.le_refl _,
    fun other cursor hget => ?_, fun other cursor hlt hget => ?_,
    fun cursor hlt => by rw [hread cursor hlt], fun cursor hlt => by rw [hread cursor hlt],
    fun _ _ => rfl, fun other => ?_⟩
  · rw [InsMap.get?_set_ne, hget]
    rintro rfl
    rw [hnone] at hget
    cases hget
  · rw [InsMap.get?_set] at hget
    split at hget
    · exact absurd hlt (by rw [← Option.some.inj hget]; exact Nat.lt_irrefl _)
    · exact hget
  · rcases eq_or_ne other sessionId with rfl | hne
    · rw [listenersOf_none hnone, listenersOf_some (InsMap.get?_set_self _ _ _), viewOf,
        Heap.read_alloc, if_pos (Heap.alloc_fst _ _)]
      rfl
    · refine listenersOf_congr (InsMap.get?_set_ne _ _ hne) fun cursor hget => ?_
      rw [viewOf, hread cursor (h.cursorBound _ _ hget), viewOf]

/-! ## Quiet methods -/

theorem isQuiet_modify {f : ConversationWriter σ → ConversationWriter σ}
    (h : ∀ writer : ConversationWriter σ, writer.Invariant → Quiet writer (f writer)) :
    IsQuiet (modify f : WriterEffect ε σ PUnit) := h

theorem isQuiet_callStore {α : Type} (call : σ → Except ε α × σ) :
    IsQuiet (callStore call : WriterEffect ε σ α) := by
  intro writer hwriter
  unfold callStore Effect.run
  rcases hcall : call writer.store with ⟨_ | _, store⟩ <;> simp only [hcall] <;>
    exact quiet_fields hwriter rfl rfl rfl rfl rfl rfl rfl

theorem isQuiet_assertOpen : IsQuiet (assertOpen : WriterEffect ε σ Unit) := by
  refine isQuiet_bind isQuiet_get fun writer => ?_
  split
  · exact isQuiet_throw _
  · exact isQuiet_pure _

theorem isQuiet_raiseStoreRevision (ref : CursorRef) (revision : Nat) :
    IsQuiet (raiseStoreRevision ref revision : WriterEffect ε σ Unit) :=
  isQuiet_modify fun _ h => quiet_cursorFields h ref (fun _ => rfl) fun _ => rfl

theorem isQuiet_rememberExecution (executionId : ExecutionId) (sessionId : SessionId) :
    IsQuiet (rememberExecution executionId sessionId : WriterEffect ε σ Unit) := by
  refine isQuiet_modify fun writer h => ?_
  simp only
  split
  · exact quiet_refl h
  · exact quiet_fields h rfl rfl rfl rfl rfl rfl rfl

/-- What `ensureCursor` returns is the session's cursor. -/
theorem ensureCursor_run (sessionId : SessionId) (h : writer.Invariant) :
    ∃ cursor after, (ensureCursor sessionId : WriterEffect ε σ CursorRef).run writer =
        (.ok cursor, after) ∧ Quiet writer after ∧
      after.sessions.get? sessionId = some cursor := by
  cases hget : writer.sessions.get? sessionId with
  | some cursor =>
    refine ⟨cursor, writer, ?_, quiet_refl h, hget⟩
    simp [ensureCursor, Effect.run_bind, hget]
  | none =>
    refine ⟨_, _, ?_, quiet_newCursor h hget, InsMap.get?_set_self _ _ _⟩
    simp [ensureCursor, Effect.run_bind, hget]

theorem isQuiet_ensureCursor (sessionId : SessionId) :
    IsQuiet (ensureCursor sessionId : WriterEffect ε σ CursorRef) := by
  intro writer h
  obtain ⟨cursor, after, hrun, hquiet, _⟩ := ensureCursor_run sessionId h
  rw [hrun]
  exact hquiet

section Port

variable (port : HistoryPort ε σ) (exactByteDigest : List UInt8 → String)

theorem isQuiet_sessionIdForExecution (executionId : ExecutionId) :
    IsQuiet (sessionIdForExecution port executionId) := by
  refine isQuiet_bind isQuiet_get fun writer => ?_
  split
  · exact isQuiet_pure _
  · exact isQuiet_callStore _

theorem isQuiet_sessionForTerminal (executionId : ExecutionId) (expectedSessionId : SessionId) :
    IsQuiet (sessionForTerminal port executionId expectedSessionId) := by
  refine isQuiet_bind (isQuiet_sessionIdForExecution port executionId) fun sessionId => ?_
  split
  · exact isQuiet_pure _
  · exact isQuiet_throw _

theorem isQuiet_foldlM {α β : Type} {f : β → α → WriterEffect ε σ β}
    (h : ∀ acc a, IsQuiet (f acc a)) (xs : List α) (acc : β) : IsQuiet (xs.foldlM f acc) := by
  induction xs generalizing acc with
  | nil => exact isQuiet_pure _
  | cons x xs ih => exact isQuiet_bind (h acc x) fun acc => ih acc

theorem isQuiet_sessionsByExecution (inputs : List ExecutionEventInput) :
    IsQuiet (sessionsByExecution port inputs) := by
  refine isQuiet_foldlM (fun sessions input => ?_) inputs _
  split
  · exact isQuiet_pure _
  · refine isQuiet_bind (isQuiet_sessionIdForExecution port _) fun sessionId => ?_
    exact isQuiet_bind (isQuiet_ensureCursor _) fun _ => isQuiet_pure _

theorem isQuiet_loadPage (sessionId : SessionId) (cut : Nat) (cursor : Option Nat)
    (direction : PageDirection) :
    IsQuiet (loadPage port exactByteDigest sessionId cut cursor direction) :=
  isQuiet_bind (isQuiet_callStore _) fun _ => isQuiet_pure _

end Port

end WriterLemmas

end Henji
