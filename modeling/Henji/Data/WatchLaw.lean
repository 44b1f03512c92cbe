import Henji.Data.WriterRuns

/-!
# The watch registration law

`WatchRegistry` keeps what watching means, apart from cursors and views: the listeners of each
session, and for each watch whether it was unsubscribed or cleared. The law says that a publication
notifies the registered listeners of its session.

An unsubscribe closure removes its listener from the view it captured. After a page refresh this is
no longer the view of the session: the listener stays, and a closed session whose captured view has
run empty loses the view of all others. `SafeUnsubscribe` is the exact condition under which an
unsubscribe does what it says; `FreshAdmission` is the one for a `beginExecution` that was suspended
while its session was released.

Results:
1. `registered_step`: on safe steps the views hold the registered listeners.
2. `publications_notify_registered`: in a safe run every publication keeps the law.
3. `unsubscribed_still_notified`: a run in which an unsubscribed listener is notified.
-/

namespace Henji

open ConversationWriter

variable {ε σ : Type}

/-! ## The registry -/

structure Watch where
  active : Bool
  sessionId : SessionId
  listener : Listener
  epoch : Nat
deriving DecidableEq, Repr

/-- The registered listeners; an epoch ends when a session is released. -/
structure WatchRegistry where
  listeners : SessionId → List Listener
  epoch : SessionId → Nat
  watches : List Watch

def WatchRegistry.empty : WatchRegistry := ⟨fun _ => [], fun _ => 0, []⟩

def WatchRegistry.watch (registry : WatchRegistry) (sessionId : SessionId) (listener : Listener) :
    WatchRegistry :=
  let watch : Watch := ⟨true, sessionId, listener, registry.epoch sessionId⟩
  { registry with
    listeners := Function.update registry.listeners sessionId
      (registry.listeners sessionId ++
        if listener ∈ registry.listeners sessionId then [] else [listener])
    watches := registry.watches ++ [watch] }

/-- A watch that was cleared by a release has nothing left to unsubscribe. -/
def WatchRegistry.unsubscribe (registry : WatchRegistry) (index : Nat) : WatchRegistry :=
  match registry.watches[index]? with
  | some ⟨true, sessionId, listener, epoch⟩ =>
    let inactive : Watch := ⟨false, sessionId, listener, epoch⟩
    { registry with
      watches := registry.watches.set index inactive
      listeners :=
        if epoch = registry.epoch sessionId then
          Function.update registry.listeners sessionId
            ((registry.listeners sessionId).erase listener)
        else registry.listeners }
  | _ => registry

def WatchRegistry.release (registry : WatchRegistry) (sessionId : SessionId) : WatchRegistry :=
  { registry with
    listeners := Function.update registry.listeners sessionId []
    epoch := Function.update registry.epoch sessionId (registry.epoch sessionId + 1) }

def WatchRegistry.close (registry : WatchRegistry) : WatchRegistry :=
  { registry with listeners := fun _ => [], epoch := fun sessionId => registry.epoch sessionId + 1 }

section Operations

variable (port : HistoryPort ε σ) (exactByteDigest : List UInt8 → String)
variable (collation : Collation)

/-- What an operation of the writer registers: a watch counts when it returned. -/
def WatchRegistry.step (writer : ConversationWriter σ) (registry : WatchRegistry) :
    WriterOp σ → WatchRegistry
  | .watchSession sessionId listener =>
    match (watchSession port exactByteDigest collation sessionId listener).run writer with
    | (.ok _, _) => registry.watch sessionId listener
    | (.error _, _) => registry
  | .unsubscribe index => registry.unsubscribe index
  | .releaseSession sessionId => registry.release sessionId
  | .close => if writer.closed then registry else registry.close
  | _ => registry

/-- A writer and the registry of its watches. -/
structure WatchedWriter (σ : Type) where
  writer : ConversationWriter σ
  registry : WatchRegistry

def WatchedWriter.create (store : σ) : WatchedWriter σ :=
  ⟨createConversationWriter store, .empty⟩

def WatchedWriter.step (watched : WatchedWriter σ) (op : WriterOp σ) : WatchedWriter σ where
  writer := watched.writer.step port exactByteDigest collation op
  registry := watched.registry.step port exactByteDigest collation watched.writer op

def WatchedWriter.steps (watched : WatchedWriter σ) (ops : List (WriterOp σ)) : WatchedWriter σ :=
  ops.foldl (WatchedWriter.step port exactByteDigest collation) watched

/-- The publications of a step notify the registered listeners, each once. -/
def WatchedWriter.NotifiesRegistered (watched : WatchedWriter σ) (op : WriterOp σ) : Prop :=
  ∃ published, (watched.step port exactByteDigest collation op).writer.publications =
      watched.writer.publications ++ published ∧
    ∀ publication ∈ published,
      publication.notified = watched.registry.listeners publication.delta.sessionId ∧
      publication.notified.Nodup

/-! ## Safe steps -/

/-- The captured view is still the view of the session, or the difference does not show: the
listener is in neither view, or the session's other listeners are gone as well. -/
def SafeUnsubscribe (writer : ConversationWriter σ) (index : Nat) : Prop :=
  ∀ subscription, writer.subscriptions[index]? = some subscription → subscription.active = true →
    writer.sessions.get? subscription.sessionId = some subscription.cursor →
    (writer.cursors.read subscription.cursor).view = some subscription.view ∨
      if subscription.sessionId ∈ writer.closedSessions ∧
          (writer.views.read subscription.view).listeners.erase subscription.listener = [] then
        (writer.listenersOf subscription.sessionId).erase subscription.listener = []
      else subscription.listener ∉ writer.listenersOf subscription.sessionId

def SafeOp (writer : ConversationWriter σ) : WriterOp σ → Prop
  | .unsubscribe index => SafeUnsubscribe writer index
  | .resumeAdmission ticket => FreshAdmission writer ticket
  | _ => True

/-- Every step of the run is safe where it is taken. -/
def SafeRun (watched : WatchedWriter σ) : List (WriterOp σ) → Prop
  | [] => True
  | op :: ops => SafeOp watched.writer op ∧
      SafeRun (watched.step port exactByteDigest collation op) ops

end Operations

/-- A watch of the registry and its subscription; the epoch is current while the session holds the
captured cursor. -/
structure WatchOf (watched : WatchedWriter σ) (subscription : Subscription) (watch : Watch) :
    Prop where
  active : subscription.active = watch.active
  sessionId : subscription.sessionId = watch.sessionId
  listener : subscription.listener = watch.listener
  current : watch.epoch = watched.registry.epoch subscription.sessionId ↔
    watched.writer.sessions.get? subscription.sessionId = some subscription.cursor
  bound : watch.epoch ≤ watched.registry.epoch subscription.sessionId

/-- The views hold what the registry says. -/
structure WatchedWriter.Registered (watched : WatchedWriter σ) : Prop where
  invariant : watched.writer.Invariant
  listeners : ∀ sessionId, watched.writer.listenersOf sessionId =
    watched.registry.listeners sessionId
  length : watched.writer.subscriptions.length = watched.registry.watches.length
  watches : ∀ (index : Nat) subscription watch, watched.writer.subscriptions[index]? = some subscription →
    watched.registry.watches[index]? = some watch → WatchOf watched subscription watch

namespace WatchLemmas

open WriterLemmas

variable {writer before middle after : ConversationWriter σ} {sessionId : SessionId}
variable {cursor : CursorRef}

/-! ## Writes leave the registrations -/

/-- Code that registers nothing: what it published went to the listeners of the session. -/
structure Steady (before after : ConversationWriter σ) : Prop where
  invariant' : after.Invariant
  subscriptions : after.subscriptions = before.subscriptions
  cursorsNext : before.cursors.next ≤ after.cursors.next
  sessions : ∀ sessionId cursor, before.sessions.get? sessionId = some cursor →
    after.sessions.get? sessionId = some cursor
  sessionsBack : ∀ sessionId cursor, cursor < before.cursors.next →
    after.sessions.get? sessionId = some cursor → before.sessions.get? sessionId = some cursor
  listeners : ∀ sessionId, after.listenersOf sessionId = before.listenersOf sessionId
  published : ∃ published, after.publications = before.publications ++ published ∧
    ∀ publication ∈ published,
      publication.notified = before.listenersOf publication.delta.sessionId

theorem steady_quiet (h : Quiet before after) : Steady before after :=
  ⟨h.invariant', h.subscriptions, h.cursorsNext, h.sessions, h.sessionsBack, h.listeners,
    [], by rw [h.publications, List.append_nil], fun _ hmem => absurd hmem List.not_mem_nil⟩

theorem steady_trans (h : Steady before middle) (h' : Steady middle after) :
    Steady before after := by
  obtain ⟨first, hfirst, hnotified⟩ := h.published
  obtain ⟨second, hsecond, hnotified'⟩ := h'.published
  refine ⟨h'.invariant', h'.subscriptions.trans h.subscriptions,
    Nat.le_trans h.cursorsNext h'.cursorsNext,
    fun _ _ hget => h'.sessions _ _ (h.sessions _ _ hget),
    fun _ _ hlt hget => h.sessionsBack _ _ hlt
      (h'.sessionsBack _ _ (Nat.lt_of_lt_of_le hlt h.cursorsNext) hget),
    fun _ => (h'.listeners _).trans (h.listeners _),
    first ++ second, by rw [hsecond, hfirst, List.append_assoc], fun publication hmem => ?_⟩
  rcases List.mem_append.mp hmem with hmem | hmem
  · exact hnotified publication hmem
  · rw [hnotified' publication hmem, h.listeners]

/-- A state with the same sessions and subscriptions and no new publication. -/
theorem steady_silent (hinv : after.Invariant) (hsessions : after.sessions = before.sessions)
    (hsubscriptions : after.subscriptions = before.subscriptions)
    (hnext : after.cursors.next = before.cursors.next)
    (hpublications : after.publications = before.publications)
    (hlisteners : ∀ sessionId, after.listenersOf sessionId = before.listenersOf sessionId) :
    Steady before after :=
  ⟨hinv, hsubscriptions, Nat.le_of_eq hnext.symm, fun _ _ hget => by rw [hsessions]; exact hget,
    fun _ _ _ hget => by rw [← hsessions]; exact hget, hlisteners, [],
    by rw [hpublications, List.append_nil], fun _ hmem => absurd hmem List.not_mem_nil⟩

/-- A publication goes to the listeners of the session when its cursor is the session's own. -/
theorem steady_published (h : writer.Invariant) (hcursor : writer.CursorFor sessionId cursor)
    (hcurrent : writer.sessions.get? sessionId = some cursor ∨ writer.listenersOf sessionId = [])
    (changes : List ConversationChange) :
    Steady writer (writer.published sessionId cursor changes) := by
  have hnotified : (writer.viewOf cursor).elim [] (·.listeners) =
      writer.listenersOf sessionId := by
    by_cases hget : writer.sessions.get? sessionId = some cursor
    · rw [listenersOf_some hget]
    · -- the session has lost the cursor, and its view was cleared then
      rw [hcurrent.resolve_left hget, viewOf]
      cases hview : (writer.cursors.read cursor).view with
      | none => rfl
      | some view =>
        refine h.detached cursor view (fun other hother => hget ?_) hview
        rw [← hcursor.owner other hother]
        exact hother
  refine ⟨invariant_published h _ _ _, rfl, Nat.le_refl _, fun _ _ hget => hget,
    fun _ _ _ hget => hget, fun _ => listenersOf_published _ _ _ _, _, rfl, fun publication hmem => ?_⟩
  rw [List.mem_singleton.mp hmem]
  exact hnotified

theorem steady_move {first second : Progress σ} (h : WriteMove False first second) :
    Steady first.writer second.writer := by
  cases h with
  | quiet pending done h => exact steady_quiet h
  | refresh h hcursor hold hloaded _ _ =>
    have hinv := invariant_loaded h hcursor hloaded
    rw [hold] at hinv
    exact steady_silent hinv rfl rfl rfl rfl (listenersOf_attachView h (by rw [hold]; rfl))
  | live observations h hget hview happly _ =>
    exact steady_silent (invariant_live h happly) rfl rfl rfl rfl (listenersOf_writeLive _ _ _)
  | publish h hcursor hcurrent _ =>
    exact steady_published h hcursor (hcurrent.resolve_left id) _

theorem steady_write (h : Write False before after) (hinv : before.Invariant) :
    Steady before after := by
  obtain ⟨done, h⟩ := h
  have hsteady : ∀ {second : Progress σ}, Writes False (.idle before) second →
      Steady before second.writer := by
    intro second h
    induction h with
    | refl => exact steady_quiet (quiet_refl hinv)
    | tail _ hmove ih => exact steady_trans ih (steady_move hmove)
  exact hsteady h

/-! ## Views that are dropped or cleared -/

theorem listenersOf_dropView (cursor : CursorRef) (other : SessionId) :
    (writer.dropView cursor).listenersOf other =
      if writer.sessions.get? other = some cursor then [] else writer.listenersOf other := by
  split
  · next hget =>
    have hget' : (writer.dropView cursor).sessions.get? other = some cursor := hget
    rw [listenersOf_some hget', viewOf, dropView, Heap.read_modify_self]
    rfl
  · next hne =>
    refine listenersOf_congr rfl fun held hheld => ?_
    have hdiff : held ≠ cursor := by
      rintro rfl
      exact hne hheld
    rw [viewOf, dropView, Heap.read_modify_ne _ _ hdiff, viewOf]

/-- Changing the listeners of a view changes those of the session that holds it. -/
theorem listenersOf_setListeners (writer : ConversationWriter σ) (view : ViewRef) (f : List Listener → List Listener)
    (other : SessionId) :
    (writer.setListeners view f).listenersOf other =
      if (writer.sessions.get? other).bind (fun held => (writer.cursors.read held).view) =
        some view then f (writer.listenersOf other) else writer.listenersOf other := by
  cases hget : writer.sessions.get? other with
  | none =>
    have hget' : (writer.setListeners view f).sessions.get? other = none := hget
    rw [listenersOf_none hget', listenersOf_none hget, if_neg (by simp)]
  | some held =>
    have hget' : (writer.setListeners view f).sessions.get? other = some held := hget
    rw [listenersOf_some hget', listenersOf_some hget, Option.bind_some, viewOf, viewOf]
    split
    · next hview =>
      rw [hview, setListeners]
      simp only [hview, Option.map_some, Option.elim_some, Heap.read_modify_self]
    · next hne =>
      unfold setListeners
      cases hview : (writer.cursors.read held).view with
      | none => rfl
      | some ref =>
        have hdiff : ref ≠ view := by
          rintro rfl
          exact hne hview
        simp only [Option.map_some, Option.elim_some, Heap.read_modify_ne _ _ hdiff]

/-- Only a silent view is dropped, so nobody is lost. -/
theorem steady_dropIdleView (h : writer.Invariant) (sessionId : SessionId) {view : ViewRef}
    (hview : (writer.cursors.read cursor).view = some view) :
    Steady writer ((dropIdleView sessionId cursor view : WriterEffect ε σ Unit).exec writer) := by
  unfold dropIdleView
  rw [Effect.exec_bind_ok (Effect.run_get writer)]
  split
  · next hidle =>
    refine steady_silent (invariant_dropView h cursor) rfl rfl rfl rfl fun other => ?_
    refine (listenersOf_dropView cursor other).trans ?_
    split
    · next hget =>
      rw [listenersOf_some hget, viewOf, hview]
      exact hidle.2.symm
    · rfl
  · exact steady_quiet (quiet_refl h)

/-! ## Reading operations -/

/-- Quiet code before a steady operation. -/
theorem steady_bind {α β : Type} {m : WriterEffect ε σ α} {f : α → WriterEffect ε σ β}
    (hm : IsQuiet m) (h : writer.Invariant)
    (hf : ∀ a after, m.run writer = (.ok a, after) → Quiet writer after →
      Steady after ((f a).exec after)) : Steady writer ((m >>= f).exec writer) := by
  have hquiet := hm writer h
  cases hrun : m.run writer with
  | mk result after =>
    rw [hrun] at hquiet
    cases result with
    | error error =>
      rw [Effect.exec_bind_error hrun]
      exact steady_quiet hquiet
    | ok a =>
      rw [Effect.exec_bind_ok hrun]
      exact steady_trans (steady_quiet hquiet) (hf a after hrun hquiet)

theorem steady_attachView (h : writer.Invariant) (hcursor : writer.CursorFor sessionId cursor)
    (hnone : (writer.cursors.read cursor).view = none) {loaded : SessionConversation}
    (hloaded : LoadedFor sessionId loaded) :
    Steady writer (writer.attachView cursor loaded) := by
  have hview : writer.viewOf cursor = none := by
    rw [viewOf, hnone]
    rfl
  have hlisteners : { loaded with
      listeners := ((writer.viewOf cursor).elim [] (·.listeners) : List Listener) } = loaded := by
    rw [hview, Option.elim_none, ← hloaded.listeners]
  have hinv := invariant_loaded h hcursor hloaded
  rw [hlisteners] at hinv
  refine steady_silent hinv rfl rfl rfl rfl (listenersOf_attachView h ?_)
  rw [hview, hloaded.listeners]
  rfl

/-- `ensureView`, when it returns, leaves the cursor with the view that it returned. -/
theorem ensureView_steady (port : HistoryPort ε σ) (exactByteDigest : List UInt8 → String)
    (h : writer.Invariant) (hcursor : writer.CursorFor sessionId cursor) :
    (∃ error after, (ensureView port exactByteDigest sessionId cursor).run writer =
      (.error error, after) ∧ Steady writer after) ∨
    ∃ view after, (ensureView port exactByteDigest sessionId cursor).run writer =
      (.ok view, after) ∧ Steady writer after ∧ (after.cursors.read cursor).view = some view := by
  rcases ensureView_run port exactByteDigest h sessionId cursor with
    ⟨error, after, hrun, hquiet⟩ | ⟨view, hrun, hview⟩ | ⟨middle, loaded, hrun, hquiet, hnone, hload⟩
  · exact .inl ⟨error, after, hrun, steady_quiet hquiet⟩
  · exact .inr ⟨view, writer, hrun, steady_quiet (quiet_refl h), hview⟩
  · have hcursor' := cursorFor_quiet hquiet hcursor
    have hnone' : (middle.cursors.read cursor).view = none := by
      rw [hquiet.view _ hcursor.bound, hnone]
    refine .inr ⟨_, _, hrun, ?_, by rw [view_attachView, if_pos rfl]⟩
    exact steady_trans (steady_quiet hquiet)
      (steady_attachView hquiet.invariant' hcursor' hnone' hload)

section Port

variable (port : HistoryPort ε σ) (exactByteDigest : List UInt8 → String)
variable (collation : Collation)

theorem steady_openSession (h : writer.Invariant) (sessionId : SessionId) :
    Steady writer ((openSession sessionId : WriterEffect ε σ Unit).exec writer) := by
  refine steady_bind isQuiet_assertOpen h fun _ opened _ hopened => ?_
  refine steady_bind (isQuiet_ensureCursor _) hopened.invariant' fun _ ensured _ hensured => ?_
  exact steady_silent hensured.invariant' rfl rfl rfl rfl fun _ => rfl

theorem steady_restoreSessionCursor (h : writer.Invariant) (sessionId : SessionId)
    (cut storeRevision : Nat) :
    Steady writer
      ((restoreSessionCursor sessionId cut storeRevision : WriterEffect ε σ Unit).exec writer) := by
  refine steady_bind isQuiet_assertOpen h fun _ opened _ hopened => ?_
  split
  · exact steady_quiet (quiet_refl hopened.invariant')
  · refine steady_bind (isQuiet_ensureCursor _) hopened.invariant' fun cursor ensured _ hensured => ?_
    let f : SessionSaveCursor → SessionSaveCursor := fun cursor => { cursor with
      cut := max cursor.cut cut, storeRevision := max cursor.storeRevision storeRevision }
    refine steady_silent (invariant_cursorFields hensured.invariant' cursor f fun _ => rfl)
      rfl rfl rfl rfl fun other => ?_
    refine listenersOf_congr rfl fun held _ => ?_
    have hview : ((ensured.cursors.modify cursor f).read held).view =
        (ensured.cursors.read held).view := by
      rw [Heap.read_modify]
      split
      · next heq => rw [heq]
      · rfl
    show ((((ensured.cursors.modify cursor f).read held).view.map ensured.views.read).elim [] _ :
      List Listener) = _
    rw [hview]
    rfl

theorem steady_snapshotPage (h : writer.Invariant) (sessionId : SessionId)
    (cursorValue : Option Nat) (direction : PageDirection) :
    Steady writer
      ((snapshotPage port exactByteDigest collation sessionId cursorValue direction).exec writer) := by
  refine steady_bind isQuiet_assertOpen h fun _ opened _ hopened => ?_
  refine steady_bind (isQuiet_ensureCursor _) hopened.invariant' fun cursor ensured _ hensured => ?_
  refine steady_bind isQuiet_get hensured.invariant' fun _ _ _ hgot => ?_
  refine steady_bind (isQuiet_loadPage port exactByteDigest _ _ _ _) hgot.invariant'
    fun _ loaded _ hloaded => ?_
  refine steady_bind (isQuiet_raiseStoreRevision _ _) hloaded.invariant' fun _ raised _ hraised => ?_
  exact steady_quiet (quiet_refl hraised.invariant')

theorem steady_snapshotSession (h : writer.Invariant) (sessionId : SessionId) :
    Steady writer ((snapshotSession port exactByteDigest collation sessionId).exec writer) := by
  refine steady_bind isQuiet_assertOpen h fun _ opened _ hopened => ?_
  obtain ⟨cursor, ensured, hrun, hquiet, hget⟩ :=
    ensureCursor_run (ε := ε) sessionId hopened.invariant'
  rw [Effect.exec_bind_ok hrun]
  refine steady_trans (steady_quiet hquiet) ?_
  rcases ensureView_steady port exactByteDigest hquiet.invariant'
    (cursorFor_of_get hquiet.invariant' hget) with
    ⟨error, after, hrun, hsteady⟩ | ⟨view, viewed, hrun, hsteady, hview⟩
  · rw [Effect.exec_bind_error hrun]
    exact hsteady
  · rw [Effect.exec_bind_ok hrun]
    refine steady_trans hsteady ?_
    rw [Effect.exec_bind_ok (Effect.run_get viewed)]
    have hdrop := steady_dropIdleView (ε := ε) hsteady.invariant' sessionId hview
    cases hrun : (dropIdleView sessionId cursor view : WriterEffect ε σ Unit).run viewed with
    | mk result after =>
      rw [Effect.exec_of_run hrun] at hdrop
      cases result with
      | error error =>
        rw [Effect.exec_bind_error hrun]
        exact hdrop
      | ok _ =>
        rw [Effect.exec_bind_ok hrun]
        exact hdrop

theorem steady_closeSession (h : writer.Invariant) (sessionId : SessionId) :
    Steady writer ((closeSession sessionId : WriterEffect ε σ Unit).exec writer) := by
  refine steady_bind isQuiet_assertOpen h fun _ opened _ hopened => ?_
  refine steady_bind (isQuiet_ensureCursor _) hopened.invariant' fun cursor ensured _ hensured => ?_
  rw [Effect.exec_bind_ok (Effect.run_modify _ _), Effect.exec_bind_ok (Effect.run_get _)]
  have hclosed : Steady ensured
      { ensured with closedSessions := ensured.closedSessions.insert sessionId } :=
    steady_silent hensured.invariant' rfl rfl rfl rfl fun _ => rfl
  refine steady_trans hclosed ?_
  split
  · exact steady_quiet (quiet_refl hensured.invariant')
  · next view hview => exact steady_dropIdleView hclosed.invariant' sessionId hview

theorem steady_releaseExecution (h : writer.Invariant) (executionId : ExecutionId) :
    Steady writer ((releaseExecution executionId : WriterEffect ε σ Unit).exec writer) := by
  cases hget : writer.executionSessions.get? executionId with
  | none =>
    have hexec : (releaseExecution executionId : WriterEffect ε σ Unit).exec writer = writer := by
      simp only [releaseExecution, Effect.exec, Effect.run_modify, hget]
    rw [hexec]
    exact steady_quiet (quiet_refl h)
  | some sessionId =>
    have hexec : (releaseExecution executionId : WriterEffect ε σ Unit).exec writer = { writer with
        executionSessions := writer.executionSessions.erase executionId
        sessionExecutions :=
          forgetExecution writer.sessionExecutions executionId sessionId } := by
      simp only [releaseExecution, Effect.exec, Effect.run_modify, hget]
    rw [hexec]
    exact steady_silent h rfl rfl rfl rfl fun _ => rfl

end Port

/-! ## Watching -/

/-- A view with listeners added or removed keeps the invariant, if its cursor is held. -/
theorem invariant_setListeners (h : writer.Invariant) (view : ViewRef)
    (f : List Listener → List Listener)
    (hnodup : (f (writer.views.read view).listeners).Nodup)
    (hdetached : ∀ held, (writer.cursors.read held).view = some view →
      (∀ sessionId, writer.sessions.get? sessionId ≠ some held) →
        f (writer.views.read view).listeners = []) :
    (writer.setListeners view f).Invariant :=
  invariant_modifyView h view (fun conversation =>
    { conversation with listeners := f conversation.listeners }) rfl hdetached hnodup (h.keyed view)

/-- Add a listener to a set. -/
def addListener (listener : Listener) (listeners : List Listener) : List Listener :=
  listeners ++ if listener ∈ listeners then [] else [listener]

theorem nodup_addListener {listeners : List Listener} (listener : Listener)
    (h : listeners.Nodup) : (addListener listener listeners).Nodup := by
  unfold addListener
  split
  · rwa [List.append_nil]
  · next hnot =>
    refine List.nodup_append.mpr ⟨h, List.nodup_singleton _, fun a ha b hb => ?_⟩
    rw [List.mem_singleton.mp hb]
    rintro rfl
    exact hnot ha

/-- The state after a watch. -/
def watchedAt (writer : ConversationWriter σ) (sessionId : SessionId) (listener : Listener)
    (cursor : CursorRef) (view : ViewRef) : ConversationWriter σ :=
  { writer.setListeners view (addListener listener) with
    subscriptions := writer.subscriptions ++ [⟨true, sessionId, listener, cursor, view⟩] }

/-- A watch fails and registers nothing, or adds its listener to the session's view. -/
theorem watchSession_run (port : HistoryPort ε σ) (exactByteDigest : List UInt8 → String)
    (collation : Collation) (h : writer.Invariant) (sessionId : SessionId) (listener : Listener) :
    (∃ error after, (watchSession port exactByteDigest collation sessionId listener).run writer =
      (.error error, after) ∧ Steady writer after) ∨
    ∃ viewed cursor view,
      (watchSession port exactByteDigest collation sessionId listener).run writer =
        (.ok (snapshot collation sessionId (viewed.cursors.read cursor) (viewed.views.read view),
          viewed.subscriptions.length), watchedAt viewed sessionId listener cursor view) ∧
      Steady writer viewed ∧ viewed.sessions.get? sessionId = some cursor ∧
      (viewed.cursors.read cursor).view = some view := by
  unfold watchSession
  have hopen := isQuiet_assertOpen (ε := ε) writer h
  cases hassert : (assertOpen : WriterEffect ε σ Unit).run writer with
  | mk result opened =>
    rw [hassert] at hopen
    cases result with
    | error error => exact .inl ⟨error, opened, Effect.run_bind_error hassert, steady_quiet hopen⟩
    | ok _ =>
      rw [Effect.run_bind_ok hassert]
      obtain ⟨cursor, ensured, hrun, hquiet, hget⟩ :=
        ensureCursor_run (ε := ε) sessionId hopen.invariant'
      rw [Effect.run_bind_ok hrun]
      have hsteady := steady_trans (steady_quiet hopen) (steady_quiet hquiet)
      rcases ensureView_steady port exactByteDigest hquiet.invariant'
        (cursorFor_of_get hquiet.invariant' hget) with
        ⟨error, after, hrun, hafter⟩ | ⟨view, viewed, hrun, hafter, hview⟩
      · exact .inl ⟨error, after, Effect.run_bind_error hrun, steady_trans hsteady hafter⟩
      · refine .inr ⟨viewed, cursor, view, ?_, steady_trans hsteady hafter,
          hafter.sessions _ _ hget, hview⟩
        rw [Effect.run_bind_ok hrun]
        rfl

theorem invariant_watchedAt (h : writer.Invariant) {view : ViewRef}
    (hget : writer.sessions.get? sessionId = some cursor)
    (hview : (writer.cursors.read cursor).view = some view) (listener : Listener) :
    (watchedAt writer sessionId listener cursor view).Invariant := by
  have hinv : (writer.setListeners view (addListener listener)).Invariant := by
    refine invariant_setListeners h view _ (nodup_addListener _ (h.listenersNodup view)) ?_
    intro held hheld hdetached
    rw [h.viewOwner _ _ _ hheld hview] at hdetached
    exact absurd hget (hdetached sessionId)
  refine invariant_subscriptions hinv fun subscription hmem => ?_
  rcases List.mem_append.mp hmem with hmem | hmem
  · exact ⟨hinv.subscriptionBound _ hmem, hinv.subscriptionSession _ hmem,
      hinv.subscriptionView _ hmem⟩
  · rw [List.mem_singleton.mp hmem]
    exact ⟨⟨h.cursorBound _ _ hget, h.viewBound _ _ hview⟩,
      fun other hother => h.cursorOwner _ _ _ hother hget,
      fun held hheld => h.viewOwner _ _ _ hheld hview⟩

theorem bind_view_iff (h : writer.Invariant) {view : ViewRef} {other : SessionId}
    (hget : writer.sessions.get? sessionId = some cursor)
    (hview : (writer.cursors.read cursor).view = some view) :
    (writer.sessions.get? other).bind (fun held => (writer.cursors.read held).view) = some view ↔
      other = sessionId := by
  constructor
  · intro hbind
    obtain ⟨held, hother, hheld⟩ := Option.bind_eq_some_iff.mp hbind
    rw [h.viewOwner _ _ _ hheld hview] at hother
    exact h.cursorOwner _ _ _ hother hget
  · rintro rfl
    rw [hget, Option.bind_some, hview]

theorem listenersOf_watchedAt (h : writer.Invariant) {view : ViewRef}
    (hget : writer.sessions.get? sessionId = some cursor)
    (hview : (writer.cursors.read cursor).view = some view) (listener : Listener)
    (other : SessionId) :
    (watchedAt writer sessionId listener cursor view).listenersOf other =
      Function.update writer.listenersOf sessionId
        (addListener listener (writer.listenersOf sessionId)) other := by
  have hset : (writer.setListeners view (addListener listener)).listenersOf other = _ :=
    listenersOf_setListeners writer view _ other
  rw [Function.update_apply]
  refine hset.trans ?_
  by_cases heq : other = sessionId
  · rw [if_pos heq, if_pos ((bind_view_iff h hget hview).mpr heq), heq]
  · rw [if_neg heq, if_neg fun hbind => heq ((bind_view_iff h hget hview).mp hbind)]

/-! ## The law on each operation -/

variable {registry : WatchRegistry}

/-- Steady operations leave the registry as it is. -/
theorem registered_steady (h : (⟨before, registry⟩ : WatchedWriter σ).Registered)
    (hsteady : Steady before after) : (⟨after, registry⟩ : WatchedWriter σ).Registered := by
  refine ⟨hsteady.invariant', fun sessionId => (hsteady.listeners _).trans (h.listeners _),
    (congrArg List.length hsteady.subscriptions).trans h.length,
    fun index subscription watch hsub hwatch => ?_⟩
  replace hsub : before.subscriptions[index]? = some subscription := by
    rw [← hsteady.subscriptions]
    exact hsub
  obtain ⟨hactive, hsession, hlistener, hcurrent, hbound⟩ := h.watches index _ _ hsub hwatch
  refine ⟨hactive, hsession, hlistener, hcurrent.trans ⟨hsteady.sessions _ _, ?_⟩, hbound⟩
  exact hsteady.sessionsBack _ _
    (h.invariant.subscriptionBound _ (List.mem_of_getElem? hsub)).1

theorem registered_watchedAt (h : (⟨writer, registry⟩ : WatchedWriter σ).Registered)
    {view : ViewRef} (hget : writer.sessions.get? sessionId = some cursor)
    (hview : (writer.cursors.read cursor).view = some view) (listener : Listener) :
    (⟨watchedAt writer sessionId listener cursor view, registry.watch sessionId listener⟩ :
      WatchedWriter σ).Registered := by
  refine ⟨invariant_watchedAt h.invariant hget hview listener, fun other => ?_, ?_,
    fun index subscription watch hsub hwatch => ?_⟩
  · rw [listenersOf_watchedAt h.invariant hget hview, h.listeners sessionId]
    exact congrFun (congrArg (Function.update · sessionId _) (funext h.listeners)) other
  · show (writer.subscriptions ++ [_]).length = (registry.watches ++ [_]).length
    rw [List.length_append, List.length_append, h.length]
    rfl
  · replace hsub : (writer.subscriptions ++ [⟨true, sessionId, listener, cursor, view⟩])[index]? =
      some subscription := hsub
    replace hwatch : (registry.watches ++
      [⟨true, sessionId, listener, registry.epoch sessionId⟩])[index]? = some watch := hwatch
    rw [List.getElem?_append] at hsub hwatch
    rw [show writer.subscriptions.length = registry.watches.length from h.length] at hsub
    split at hsub
    · next hlt =>
      rw [if_pos hlt] at hwatch
      obtain ⟨hactive, hsession, hlistener, hcurrent, hbound⟩ := h.watches index _ _ hsub hwatch
      exact ⟨hactive, hsession, hlistener, hcurrent, hbound⟩
    · next hge =>
      rw [if_neg hge, List.getElem?_singleton] at hwatch
      rw [List.getElem?_singleton] at hsub
      split at hsub
      · next heq =>
        rw [if_pos heq] at hwatch
        cases hsub
        cases hwatch
        exact ⟨rfl, rfl, rfl, ⟨fun _ => hget, fun _ => rfl⟩, Nat.le_refl _⟩
      · cases hsub

/-! ## Unsubscribing -/

/-- The state after the listener is gone from the captured view. -/
def unsubscribedAt (writer : ConversationWriter σ) (index : Nat) (sessionId : SessionId)
    (listener : Listener) (cursor : CursorRef) (view : ViewRef) : ConversationWriter σ :=
  { writer.setListeners view (·.erase listener) with
    subscriptions := writer.subscriptions.set index ⟨false, sessionId, listener, cursor, view⟩ }

/-- The state after an unsubscribe. -/
def afterUnsubscribe (writer : ConversationWriter σ) (index : Nat) (sessionId : SessionId)
    (listener : Listener) (cursor : CursorRef) (view : ViewRef) : ConversationWriter σ :=
  if sessionId ∈ writer.closedSessions ∧ (writer.views.read view).listeners.erase listener = [] then
    (unsubscribedAt writer index sessionId listener cursor view).dropView cursor
  else unsubscribedAt writer index sessionId listener cursor view

theorem unsubscribe_exec {index : Nat} {listener : Listener} {view : ViewRef}
    (hsub : writer.subscriptions[index]? = some ⟨true, sessionId, listener, cursor, view⟩) :
    (unsubscribe index : WriterEffect ε σ Unit).exec writer =
      afterUnsubscribe writer index sessionId listener cursor view := by
  unfold unsubscribe
  rw [Effect.exec_bind_ok (Effect.run_get writer)]
  simp only [hsub]
  rw [Effect.exec_bind_ok (Effect.run_set _ _)]
  unfold dropIdleView afterUnsubscribe
  rw [Effect.exec_bind_ok (Effect.run_get _)]
  simp only [Heap.read_modify_self]
  split <;> rfl

theorem invariant_afterUnsubscribe (h : writer.Invariant) {index : Nat} {listener : Listener}
    {view : ViewRef}
    (hsub : writer.subscriptions[index]? = some ⟨true, sessionId, listener, cursor, view⟩) :
    (afterUnsubscribe writer index sessionId listener cursor view).Invariant := by
  have hmem := List.mem_of_getElem? hsub
  have hset : (writer.setListeners view (·.erase listener)).Invariant := by
    refine invariant_setListeners h view _ ((h.listenersNodup view).erase _) ?_
    intro held hheld hdetached
    rw [h.detached held view hdetached hheld]
    rfl
  have hinv : (unsubscribedAt writer index sessionId listener cursor view).Invariant := by
    refine invariant_subscriptions hset fun subscription hother => ?_
    rcases List.mem_or_eq_of_mem_set hother with hother | rfl
    · exact ⟨hset.subscriptionBound _ hother, hset.subscriptionSession _ hother,
        hset.subscriptionView _ hother⟩
    · have hbound := hset.subscriptionBound _ hmem
      have hsession := hset.subscriptionSession _ hmem
      have hview := hset.subscriptionView _ hmem
      exact ⟨hbound, hsession, hview⟩
  unfold afterUnsubscribe
  split
  · exact invariant_dropView hinv cursor
  · exact hinv

theorem listenersOf_unsubscribedAt (writer : ConversationWriter σ) (index : Nat)
    (sessionId : SessionId) (listener : Listener) (cursor : CursorRef) (view : ViewRef)
    (other : SessionId) :
    (unsubscribedAt writer index sessionId listener cursor view).listenersOf other =
      if (writer.sessions.get? other).bind (fun held => (writer.cursors.read held).view) =
        some view then (writer.listenersOf other).erase listener else writer.listenersOf other :=
  listenersOf_setListeners writer view (·.erase listener) other

/-- A safe unsubscribe removes its listener from the session that holds the captured cursor. -/
theorem listenersOf_afterUnsubscribe (h : writer.Invariant) {index : Nat} {listener : Listener}
    {view : ViewRef}
    (hsub : writer.subscriptions[index]? = some ⟨true, sessionId, listener, cursor, view⟩)
    (hsafe : SafeUnsubscribe writer index) (other : SessionId) :
    (afterUnsubscribe writer index sessionId listener cursor view).listenersOf other =
      if other = sessionId ∧ writer.sessions.get? sessionId = some cursor then
        (writer.listenersOf other).erase listener else writer.listenersOf other := by
  have hmem := List.mem_of_getElem? hsub
  have hsession : ∀ other, writer.sessions.get? other = some cursor → other = sessionId :=
    h.subscriptionSession _ hmem
  -- only the captured cursor can hold the captured view
  have hholder : ∀ other, (writer.sessions.get? other).bind
      (fun held => (writer.cursors.read held).view) = some view →
      other = sessionId ∧ writer.sessions.get? sessionId = some cursor ∧
        (writer.cursors.read cursor).view = some view := by
    intro other hbind
    obtain ⟨held, hother, hheld⟩ := Option.bind_eq_some_iff.mp hbind
    have hheldEq : held = cursor := h.subscriptionView _ hmem held hheld
    subst hheldEq
    obtain rfl := hsession other hother
    exact ⟨rfl, hother, hheld⟩
  have hdrop : ∀ after : ConversationWriter σ, after.sessions = writer.sessions →
      other ≠ sessionId ∨ writer.sessions.get? sessionId ≠ some cursor →
      (after.dropView cursor).listenersOf other = after.listenersOf other := by
    intro after hsessions hne
    rw [listenersOf_dropView, if_neg]
    intro hget
    rw [hsessions] at hget
    obtain rfl := hsession other hget
    exact hne.elim (fun hne => hne rfl) fun hne => hne hget
  by_cases hheld : other = sessionId ∧ writer.sessions.get? sessionId = some cursor
  · obtain ⟨rfl, hget⟩ := hheld
    rw [if_pos ⟨rfl, hget⟩]
    have hsafe := hsafe _ hsub rfl hget
    have hat := listenersOf_unsubscribedAt writer index other listener cursor view other
    rw [hget, Option.bind_some] at hat
    have hdropped : ((unsubscribedAt writer index other listener cursor view).dropView
        cursor).listenersOf other = [] :=
      (listenersOf_dropView cursor other).trans (if_pos hget)
    unfold afterUnsubscribe
    by_cases hview : (writer.cursors.read cursor).view = some view
    · rw [if_pos hview] at hat
      split
      · next hidle =>
        rw [hdropped, listenersOf_some hget, viewOf, hview]
        exact hidle.2.symm
      · exact hat
    · rw [if_neg hview] at hat
      have hsafe := hsafe.resolve_left hview
      split
      · next hidle =>
        rw [hdropped]
        rw [if_pos hidle] at hsafe
        exact hsafe.symm
      · next hidle =>
        rw [if_neg hidle] at hsafe
        rw [hat, List.erase_of_not_mem hsafe]
  · rw [if_neg hheld]
    have hne : other ≠ sessionId ∨ writer.sessions.get? sessionId ≠ some cursor :=
      not_and_or.mp hheld
    have hat : (unsubscribedAt writer index sessionId listener cursor view).listenersOf other =
        writer.listenersOf other := by
      rw [listenersOf_unsubscribedAt, if_neg]
      exact fun hbind => hheld ⟨(hholder other hbind).1, (hholder other hbind).2.1⟩
    unfold afterUnsubscribe
    split
    · exact (hdrop (unsubscribedAt writer index sessionId listener cursor view) rfl hne).trans hat
    · exact hat

theorem unsubscribe_nothing {index : Nat}
    (hnone : ∀ subscription, writer.subscriptions[index]? = some subscription →
      subscription.active = false) :
    (unsubscribe index : WriterEffect ε σ Unit).exec writer = writer := by
  unfold unsubscribe
  rw [Effect.exec_bind_ok (Effect.run_get writer)]
  split
  · next hsub => cases hnone _ hsub
  · rfl

theorem invariant_unsubscribe (h : writer.Invariant) (index : Nat) :
    ((unsubscribe index : WriterEffect ε σ Unit).exec writer).Invariant := by
  by_cases hactive : ∃ sessionId listener cursor view,
      writer.subscriptions[index]? = some ⟨true, sessionId, listener, cursor, view⟩
  · obtain ⟨sessionId, listener, cursor, view, hsub⟩ := hactive
    rw [unsubscribe_exec hsub]
    exact invariant_afterUnsubscribe h hsub
  · rw [unsubscribe_nothing]
    · exact h
    · rintro ⟨active, sessionId, listener, cursor, view⟩ hsub
      cases active with
      | false => rfl
      | true => exact absurd ⟨sessionId, listener, cursor, view, hsub⟩ hactive

theorem registered_unsubscribe (h : (⟨writer, registry⟩ : WatchedWriter σ).Registered) (index : Nat)
    (hsafe : SafeUnsubscribe writer index) :
    (⟨(unsubscribe index : WriterEffect ε σ Unit).exec writer, registry.unsubscribe index⟩ :
      WatchedWriter σ).Registered := by
  cases hsub : writer.subscriptions[index]? with
  | none =>
    have hwatch : registry.watches[index]? = none := by
      rw [List.getElem?_eq_none_iff] at hsub ⊢
      rw [← h.length]
      exact hsub
    rw [unsubscribe_nothing (fun _ hsome => by rw [hsub] at hsome; cases hsome), WatchRegistry.unsubscribe, hwatch]
    exact h
  | some subscription =>
    obtain ⟨active, sessionId, listener, cursor, view⟩ := subscription
    obtain ⟨watch, hwatch⟩ : ∃ watch, registry.watches[index]? = some watch := by
      have hlt : index < registry.watches.length := by
        rw [show registry.watches.length = writer.subscriptions.length from h.length.symm]
        exact (List.getElem?_eq_some_iff.mp hsub).1
      exact ⟨_, List.getElem?_eq_getElem hlt⟩
    obtain ⟨active', session', listener', epoch⟩ := watch
    obtain ⟨hactive, hsession, hlistener, hcurrent, hbound⟩ := h.watches index _ _ hsub hwatch
    cases hactive
    cases hsession
    cases hlistener
    cases active with
    | false =>
      rw [unsubscribe_nothing (fun _ hsome => by rw [hsub] at hsome; cases hsome; rfl),
        WatchRegistry.unsubscribe, hwatch]
      exact h
    | true =>
      rw [unsubscribe_exec hsub, WatchRegistry.unsubscribe, hwatch]
      have hfields : ∀ after : ConversationWriter σ,
          after = afterUnsubscribe writer index sessionId listener cursor view →
          after.sessions = writer.sessions ∧ after.subscriptions =
            writer.subscriptions.set index ⟨false, sessionId, listener, cursor, view⟩ := by
        rintro _ rfl
        unfold afterUnsubscribe
        split <;> exact ⟨rfl, rfl⟩
      obtain ⟨hsessions, hsubscriptions⟩ := hfields _ rfl
      refine ⟨invariant_afterUnsubscribe h.invariant hsub, fun other => ?_, ?_,
        fun other subscription watch hother hwatch' => ?_⟩
      · rw [listenersOf_afterUnsubscribe h.invariant hsub hsafe]
        show _ = (if epoch = registry.epoch sessionId then _ else registry.listeners) other
        have hlisteners : writer.listenersOf other = registry.listeners other := h.listeners other
        by_cases hheld : writer.sessions.get? sessionId = some cursor
        · rw [if_pos (hcurrent.mpr hheld), Function.update_apply, hlisteners]
          by_cases heq : other = sessionId
          · subst heq
            rw [if_pos ⟨rfl, hheld⟩, if_pos rfl]
          · rw [if_neg fun h => heq h.1, if_neg heq]
        · rw [if_neg fun heq => hheld (hcurrent.mp heq), if_neg fun h => hheld h.2, hlisteners]
      · rw [hsubscriptions]
        show (writer.subscriptions.set index _).length = (registry.watches.set index _).length
        rw [List.length_set, List.length_set, h.length]
      · rw [hsubscriptions] at hother
        replace hwatch' : (registry.watches.set index ⟨false, sessionId, listener, epoch⟩)[other]? =
          some watch := hwatch'
        rcases eq_or_ne index other with rfl | hne
        · rw [List.getElem?_set_self (List.getElem?_eq_some_iff.mp hsub).1] at hother
          rw [List.getElem?_set_self (List.getElem?_eq_some_iff.mp hwatch).1] at hwatch'
          cases hother
          cases hwatch'
          refine ⟨rfl, rfl, rfl, ?_, hbound⟩
          rw [hsessions]
          exact hcurrent
        · rw [List.getElem?_set_ne hne] at hother hwatch'
          obtain ⟨hactive, hsession, hlistener, hcurrent, hbound⟩ :=
            h.watches other _ _ hother hwatch'
          refine ⟨hactive, hsession, hlistener, ?_, hbound⟩
          rw [hsessions]
          exact hcurrent

/-! ## Releasing and closing -/

/-- Some views lost all their listeners; nothing else changed. -/
structure Cleared (before after : ConversationWriter σ) : Prop where
  invariant : after.Invariant
  cursors : after.cursors = before.cursors
  sessions : after.sessions = before.sessions
  subscriptions : after.subscriptions = before.subscriptions
  publications : after.publications = before.publications
  silent : ∀ view, (before.views.read view).listeners = [] →
    (after.views.read view).listeners = []
  others : ∀ view, (after.views.read view).listeners ≠ [] →
    (after.views.read view).listeners = (before.views.read view).listeners

theorem cleared_refl (h : writer.Invariant) : Cleared writer writer :=
  ⟨h, rfl, rfl, rfl, rfl, fun _ hview => hview, fun _ _ => rfl⟩

theorem cleared_trans (h : Cleared before middle) (h' : Cleared middle after) :
    Cleared before after := by
  refine ⟨h'.invariant, h'.cursors.trans h.cursors, h'.sessions.trans h.sessions,
    h'.subscriptions.trans h.subscriptions, h'.publications.trans h.publications,
    fun view hview => h'.silent view (h.silent view hview), fun view hne => ?_⟩
  rw [h'.others view hne]
  exact h.others view (by rw [← h'.others view hne]; exact hne)

/-- The view of the cursor is cleared, and no other view. -/
theorem cleared_clearListeners (h : writer.Invariant) (cursor : CursorRef) :
    Cleared writer (clearListeners writer cursor) ∧
      (∀ view, (writer.cursors.read cursor).view = some view →
        ((clearListeners writer cursor).views.read view).listeners = []) ∧
      ∀ view, (writer.cursors.read cursor).view ≠ some view →
        (clearListeners writer cursor).views.read view = writer.views.read view := by
  unfold clearListeners
  cases hview : (writer.cursors.read cursor).view with
  | none => exact ⟨cleared_refl h, fun _ heq => (by cases heq), fun _ _ => rfl⟩
  | some ref =>
    simp only
    refine ⟨⟨invariant_setListeners h ref (fun _ => []) List.nodup_nil fun _ _ _ => rfl, rfl, rfl, rfl, rfl,
      fun view hnone => ?_, fun view hne => ?_⟩, fun view heq => ?_, fun view hne => ?_⟩
    · rw [Heap.read_modify]
      split
      · rfl
      · exact hnone
    · rw [Heap.read_modify] at hne ⊢
      split at hne
      · exact absurd rfl hne
      · next hdiff => rw [if_neg hdiff]
    · cases heq
      rw [Heap.read_modify_self]
    · exact Heap.read_modify_ne _ _ fun heq => hne (congrArg some heq.symm)

/-- The state after a release, from one in which the view of the session is cleared. -/
def releasedFrom (writer cleared : ConversationWriter σ) (sessionId : SessionId) :
    ConversationWriter σ :=
  { cleared with
    sessions := writer.sessions.erase sessionId
    closedSessions := writer.closedSessions.erase sessionId
    executionSessions := ((writer.sessionExecutions.get? sessionId).getD []).foldl InsMap.erase
      writer.executionSessions
    sessionExecutions := writer.sessionExecutions.erase sessionId }

/-- A release clears the view of its session and leaves the views of the others. -/
theorem releaseSession_exec (h : writer.Invariant) (sessionId : SessionId) :
    ∃ cleared : ConversationWriter σ,
      (releaseSession sessionId : WriterEffect ε σ Unit).exec writer =
        releasedFrom writer cleared sessionId ∧ Cleared writer cleared ∧
      (∀ cursor view, writer.sessions.get? sessionId = some cursor →
        (writer.cursors.read cursor).view = some view →
          (cleared.views.read view).listeners = []) ∧
      ∀ other cursor view, other ≠ sessionId → writer.sessions.get? other = some cursor →
        (writer.cursors.read cursor).view = some view →
          cleared.views.read view = writer.views.read view := by
  refine ⟨(writer.sessions.get? sessionId).elim writer (clearListeners writer), rfl, ?_, ?_, ?_⟩
  · cases writer.sessions.get? sessionId with
    | none => exact cleared_refl h
    | some cursor => exact (cleared_clearListeners h cursor).1
  · intro cursor view hget hview
    rw [hget]
    exact (cleared_clearListeners h cursor).2.1 view hview
  · intro other cursor view hne hother hview
    cases hget : writer.sessions.get? sessionId with
    | none => rfl
    | some released =>
      refine (cleared_clearListeners h released).2.2 view fun hreleased => hne ?_
      rw [h.viewOwner _ _ _ hreleased hview] at hget
      exact h.cursorOwner _ _ _ hother hget

theorem invariant_releaseSession (h : writer.Invariant) (sessionId : SessionId) :
    ((releaseSession sessionId : WriterEffect ε σ Unit).exec writer).Invariant := by
  obtain ⟨cleared, hexec, hcleared, hsilent, _⟩ := releaseSession_exec (ε := ε) h sessionId
  have hinv := hcleared.invariant
  unfold Invariant at hinv
  rw [hcleared.sessions] at hinv
  rw [hexec]
  refine invariant_eraseSession hinv fun cursor view hget hview => ?_
  rw [hcleared.cursors] at hview
  exact hsilent cursor view hget hview

/-- A session that the release names has no listeners; the others keep theirs. -/
theorem registered_release (h : (⟨writer, registry⟩ : WatchedWriter σ).Registered)
    (sessionId : SessionId) :
    (⟨(releaseSession sessionId : WriterEffect ε σ Unit).exec writer,
      registry.release sessionId⟩ : WatchedWriter σ).Registered := by
  have hinv := invariant_releaseSession (ε := ε) h.invariant sessionId
  obtain ⟨cleared, hexec, hcleared, _, hkept⟩ := releaseSession_exec (ε := ε) h.invariant sessionId
  rw [hexec] at hinv ⊢
  refine ⟨hinv, fun other => ?_, ?_, fun index subscription watch hsub hwatch => ?_⟩
  · show _ = Function.update registry.listeners sessionId [] other
    rcases eq_or_ne other sessionId with rfl | hne
    · rw [Function.update_self, listenersOf_none ((InsMap.get?_erase _ _ _).trans (if_pos rfl))]
    · rw [Function.update_of_ne hne, ← h.listeners other]
      refine listenersOf_congr ?_ fun cursor hget => ?_
      · exact (InsMap.get?_erase _ _ _).trans (if_neg hne)
      · show (((cleared.cursors.read cursor).view.map cleared.views.read).elim [] _ :
          List Listener) = _
        rw [hcleared.cursors, viewOf]
        cases hview : (writer.cursors.read cursor).view with
        | none => rfl
        | some view => rw [Option.map_some, Option.map_some, hkept other cursor view hne hget hview]
  · exact (congrArg List.length hcleared.subscriptions).trans h.length
  · replace hsub : cleared.subscriptions[index]? = some subscription := hsub
    rw [hcleared.subscriptions] at hsub
    obtain ⟨hactive, hsession, hlistener, hcurrent, hbound⟩ := h.watches index _ _ hsub hwatch
    refine ⟨hactive, hsession, hlistener, ?_, ?_⟩
    · show watch.epoch = Function.update registry.epoch sessionId _ subscription.sessionId ↔
        (writer.sessions.erase sessionId).get? subscription.sessionId = some subscription.cursor
      rw [InsMap.get?_erase, Function.update_apply]
      split
      · next heq =>
        rw [heq] at hbound
        exact ⟨fun hepoch => absurd (hepoch ▸ hbound) (Nat.not_succ_le_self _), fun hget => by
          cases hget⟩
      · exact hcurrent
    · show watch.epoch ≤ Function.update registry.epoch sessionId _ subscription.sessionId
      rw [Function.update_apply]
      split
      · next heq =>
        rw [heq] at hbound
        exact Nat.le_succ_of_le hbound
      · exact hbound

/-- The views of all listed cursors are cleared. -/
theorem cleared_foldl (h : writer.Invariant) (cursors : List CursorRef) :
    Cleared writer (cursors.foldl clearListeners writer) ∧
      ∀ cursor ∈ cursors, ∀ view, (writer.cursors.read cursor).view = some view →
        ((cursors.foldl clearListeners writer).views.read view).listeners = [] := by
  induction cursors generalizing writer with
  | nil => exact ⟨cleared_refl h, fun _ hmem => absurd hmem List.not_mem_nil⟩
  | cons first cursors ih =>
    obtain ⟨hfirst, hsilent, _⟩ := cleared_clearListeners h first
    obtain ⟨hrest, hothers⟩ := ih hfirst.invariant
    refine ⟨cleared_trans hfirst hrest, fun cursor hmem view hview => ?_⟩
    rcases List.mem_cons.mp hmem with rfl | hmem
    · exact hrest.silent view (hsilent view hview)
    · refine hothers cursor hmem view ?_
      rw [hfirst.cursors]
      exact hview

/-- The state after a close, from one in which the views of all sessions are cleared. -/
theorem close_exec (h : writer.Invariant) (hopen : writer.closed = false) :
    ∃ cleared : ConversationWriter σ,
      (close : WriterEffect ε σ Unit).exec writer = { cleared with
        closed := true
        sessions := .empty
        closedSessions := []
        executionSessions := .empty
        sessionExecutions := .empty } ∧ Cleared writer cleared ∧
      ∀ sessionId cursor view, writer.sessions.get? sessionId = some cursor →
        (writer.cursors.read cursor).view = some view →
          (cleared.views.read view).listeners = [] := by
  obtain ⟨hcleared, hsilent⟩ := cleared_foldl h (writer.sessions.entries.map Prod.snd)
  refine ⟨_, ?_, hcleared, fun sessionId cursor view hget hview => ?_⟩
  · unfold close
    rw [Effect.exec_of_run (Effect.run_modify _ _), if_neg (by rw [hopen]; exact Bool.false_ne_true)]
  · exact hsilent cursor (List.mem_map.mpr ⟨_, InsMap.mem_entries.mpr hget, rfl⟩) view hview

theorem close_closed (hclosed : writer.closed = true) :
    (close : WriterEffect ε σ Unit).exec writer = writer := by
  unfold close
  rw [Effect.exec_of_run (Effect.run_modify _ _), if_pos hclosed]

theorem invariant_close (h : writer.Invariant) :
    ((close : WriterEffect ε σ Unit).exec writer).Invariant := by
  cases hclosed : writer.closed with
  | true =>
    rw [close_closed hclosed]
    exact h
  | false =>
    obtain ⟨cleared, hexec, hcleared, hsilent⟩ := close_exec (ε := ε) h hclosed
    have hinv := hcleared.invariant
    unfold Invariant at hinv
    rw [hexec]
    refine invariant_noSessions hinv fun sessionId cursor view hget hview => ?_
    rw [hcleared.sessions] at hget
    rw [hcleared.cursors] at hview
    exact hsilent sessionId cursor view hget hview

theorem registered_close (h : (⟨writer, registry⟩ : WatchedWriter σ).Registered) :
    (⟨(close : WriterEffect ε σ Unit).exec writer,
      if writer.closed then registry else registry.close⟩ : WatchedWriter σ).Registered := by
  have hinv := invariant_close (ε := ε) h.invariant
  cases hclosed : writer.closed with
  | true =>
    rw [close_closed hclosed]
    exact h
  | false =>
    obtain ⟨cleared, hexec, hcleared, _⟩ := close_exec (ε := ε) h.invariant hclosed
    rw [hexec] at hinv ⊢
    refine ⟨hinv, fun _ => rfl, ?_, fun index subscription watch hsub hwatch => ?_⟩
    · exact (congrArg List.length hcleared.subscriptions).trans h.length
    · replace hsub : cleared.subscriptions[index]? = some subscription := hsub
      rw [hcleared.subscriptions] at hsub
      obtain ⟨hactive, hsession, hlistener, hcurrent, hbound⟩ := h.watches index _ _ hsub hwatch
      refine ⟨hactive, hsession, hlistener, ⟨fun hepoch => ?_, fun hget => (by cases hget)⟩,
        Nat.le_succ_of_le hbound⟩
      exact absurd (hepoch ▸ hbound) (Nat.not_succ_le_self _)

/-! ## The law on runs -/

theorem registered_create (store : σ) : (WatchedWriter.create store).Registered where
  invariant := invariant_createConversationWriter store
  listeners _ := rfl
  length := rfl
  watches _ _ _ h := by cases h

/-- A step that publishes nothing. -/
theorem notifies_silent {watched : WatchedWriter σ} {port : HistoryPort ε σ}
    {exactByteDigest : List UInt8 → String} {collation : Collation} {op : WriterOp σ}
    (h : (watched.writer.step port exactByteDigest collation op).publications =
      watched.writer.publications) :
    watched.NotifiesRegistered port exactByteDigest collation op :=
  ⟨[], by rw [List.append_nil]; exact h, fun _ hmem => absurd hmem List.not_mem_nil⟩

section Port

variable (port : HistoryPort ε σ) (exactByteDigest : List UInt8 → String)
variable (collation : Collation)

/-- What a steady operation published went to the registered listeners. -/
theorem notifies_steady {op : WriterOp σ} (h : (⟨writer, registry⟩ : WatchedWriter σ).Registered)
    (hsteady : Steady writer middle)
    (hsame : (writer.step port exactByteDigest collation op).publications = middle.publications) :
    (⟨writer, registry⟩ : WatchedWriter σ).NotifiesRegistered port exactByteDigest collation op := by
  obtain ⟨published, hpublished, hnotified⟩ := hsteady.published
  refine ⟨published, hsame.trans hpublished, fun publication hmem => ?_⟩
  rw [hnotified publication hmem]
  refine ⟨h.listeners _, ?_⟩
  cases hget : writer.sessions.get? publication.delta.sessionId with
  | none =>
    rw [listenersOf_none hget]
    exact List.nodup_nil
  | some cursor =>
    rw [listenersOf_some hget, viewOf]
    cases hview : (writer.cursors.read cursor).view with
    | none => exact List.nodup_nil
    | some view => exact h.invariant.listenersNodup view

theorem lawful_steady {op : WriterOp σ} (h : (⟨writer, registry⟩ : WatchedWriter σ).Registered)
    (hregistry : registry.step port exactByteDigest collation writer op = registry)
    (hsteady : Steady writer (writer.step port exactByteDigest collation op)) :
    ((⟨writer, registry⟩ : WatchedWriter σ).step port exactByteDigest collation op).Registered ∧
      (⟨writer, registry⟩ : WatchedWriter σ).NotifiesRegistered port exactByteDigest collation
        op := by
  refine ⟨?_, notifies_steady port exactByteDigest collation h hsteady rfl⟩
  unfold WatchedWriter.step
  simp only [hregistry]
  exact registered_steady h hsteady

theorem lawful_watchSession (h : (⟨writer, registry⟩ : WatchedWriter σ).Registered)
    (sessionId : SessionId) (listener : Listener) :
    let op : WriterOp σ := .watchSession sessionId listener
    ((⟨writer, registry⟩ : WatchedWriter σ).step port exactByteDigest collation op).Registered ∧
      (⟨writer, registry⟩ : WatchedWriter σ).NotifiesRegistered port exactByteDigest collation
        op := by
  intro op
  have hbind : ∀ {result after},
      (watchSession port exactByteDigest collation sessionId listener).run writer =
        (result, after) → writer.step port exactByteDigest collation op = after := by
    intro result after hrun
    show Effect.exec (watchSession port exactByteDigest collation sessionId listener >>=
      fun _ => pure ()) writer = after
    cases result with
    | error error => exact Effect.exec_bind_error hrun
    | ok watch => exact Effect.exec_bind_ok hrun
  rcases watchSession_run port exactByteDigest collation h.invariant sessionId listener with
    ⟨error, after, hrun, hsteady⟩ | ⟨viewed, cursor, view, hrun, hsteady, hget, hview⟩
  · refine lawful_steady port exactByteDigest collation h ?_ (by rw [hbind hrun]; exact hsteady)
    show (match (watchSession port exactByteDigest collation sessionId listener).run writer with
      | (.ok _, _) => registry.watch sessionId listener
      | (.error _, _) => registry) = registry
    rw [hrun]
  · have hregistry : registry.step port exactByteDigest collation writer op =
        registry.watch sessionId listener := by
      show (match (watchSession port exactByteDigest collation sessionId listener).run writer with
        | (.ok _, _) => registry.watch sessionId listener
        | (.error _, _) => registry) = registry.watch sessionId listener
      rw [hrun]
    refine ⟨?_, notifies_steady port exactByteDigest collation h hsteady ?_⟩
    · unfold WatchedWriter.step
      simp only [hregistry, hbind hrun]
      exact registered_watchedAt (registered_steady h hsteady) hget hview listener
    · rw [hbind hrun]
      rfl

theorem steady_of_exec {α : Type} {m : WriterEffect ε σ α} (h : Steady writer (m.exec writer)) :
    Steady writer (Effect.exec (do let _ ← m) writer) := by
  cases hrun : m.run writer with
  | mk result after =>
    rw [Effect.exec_of_run hrun] at h
    cases result with
    | error error =>
      rw [Effect.exec_bind_error hrun]
      exact h
    | ok a =>
      rw [Effect.exec_bind_ok hrun]
      exact h

theorem unsubscribe_publications (index : Nat) :
    ((unsubscribe index : WriterEffect ε σ Unit).exec writer).publications =
      writer.publications := by
  unfold unsubscribe
  rw [Effect.exec_bind_ok (Effect.run_get writer)]
  split
  · rw [Effect.exec_bind_ok (Effect.run_set _ _)]
    unfold dropIdleView
    rw [Effect.exec_bind_ok (Effect.run_get _)]
    split <;> rfl
  · rfl

theorem releaseSession_publications (h : writer.Invariant) (sessionId : SessionId) :
    ((releaseSession sessionId : WriterEffect ε σ Unit).exec writer).publications =
      writer.publications := by
  obtain ⟨cleared, hexec, hcleared, _⟩ := releaseSession_exec (ε := ε) h sessionId
  rw [hexec]
  exact hcleared.publications

theorem close_publications (h : writer.Invariant) :
    ((close : WriterEffect ε σ Unit).exec writer).publications = writer.publications := by
  cases hclosed : writer.closed with
  | true => rw [close_closed hclosed]
  | false =>
    obtain ⟨cleared, hexec, hcleared, _⟩ := close_exec (ε := ε) h hclosed
    rw [hexec]
    exact hcleared.publications

/-- Every operation keeps the invariant, safe or not. -/
theorem invariant_step (h : writer.Invariant) (op : WriterOp σ) :
    (writer.step port exactByteDigest collation op).Invariant := by
  have hwrite : op.isWrite = true → (writer.step port exactByteDigest collation op).Invariant := by
    intro hop
    have hwrite : Write True writer _ :=
      writes_perform port exactByteDigest collation h hop (.inl trivial)
    exact invariant_write hwrite h
  cases op with
  | openSession sessionId => exact (steady_openSession h sessionId).invariant'
  | restoreSessionCursor sessionId cut storeRevision =>
    exact (steady_restoreSessionCursor h sessionId cut storeRevision).invariant'
  | snapshotSession sessionId =>
    exact (steady_of_exec
      (steady_snapshotSession port exactByteDigest collation h sessionId)).invariant'
  | snapshotPage sessionId cursorValue direction =>
    exact (steady_of_exec
      (steady_snapshotPage port exactByteDigest collation h sessionId cursorValue direction)).invariant'
  | watchSession sessionId listener =>
    show (Effect.exec (watchSession port exactByteDigest collation sessionId listener >>=
      fun _ => pure ()) writer).Invariant
    rcases watchSession_run port exactByteDigest collation h sessionId listener with
      ⟨error, after, hrun, hsteady⟩ | ⟨viewed, cursor, view, hrun, hsteady, hget, hview⟩
    · rw [Effect.exec_bind_error hrun]
      exact hsteady.invariant'
    · rw [Effect.exec_bind_ok hrun]
      exact invariant_watchedAt hsteady.invariant' hget hview listener
  | unsubscribe index => exact invariant_unsubscribe h index
  | closeSession sessionId => exact (steady_closeSession h sessionId).invariant'
  | releaseSession sessionId => exact invariant_releaseSession h sessionId
  | releaseExecution executionId => exact (steady_releaseExecution h executionId).invariant'
  | close => exact invariant_close h
  | _ => exact hwrite rfl

theorem invariant_steps (h : writer.Invariant) (ops : List (WriterOp σ)) :
    (writer.steps port exactByteDigest collation ops).Invariant := by
  induction ops generalizing writer with
  | nil => exact h
  | cons op ops ih => exact ih (invariant_step port exactByteDigest collation h op)

/-- Every safe step keeps the views at the registry, and what it publishes keeps the law. -/
theorem registered_step {watched : WatchedWriter σ} (h : watched.Registered) {op : WriterOp σ}
    (hsafe : SafeOp watched.writer op) :
    (watched.step port exactByteDigest collation op).Registered ∧
      watched.NotifiesRegistered port exactByteDigest collation op := by
  obtain ⟨writer, registry⟩ := watched
  have hwrite : op.isWrite = true →
      registry.step port exactByteDigest collation writer op = registry → FreshOp writer op →
      ((⟨writer, registry⟩ : WatchedWriter σ).step port exactByteDigest collation op).Registered ∧
        (⟨writer, registry⟩ : WatchedWriter σ).NotifiesRegistered port exactByteDigest collation
          op := by
    intro hop hregistry hfresh
    exact lawful_steady port exactByteDigest collation h hregistry
      (steady_write (writes_perform port exactByteDigest collation h.invariant hop (.inr hfresh))
        h.invariant)
  cases op with
  | resumeAdmission ticket => exact hwrite rfl rfl hsafe
  | openSession sessionId =>
    exact lawful_steady port exactByteDigest collation h rfl (steady_openSession h.invariant _)
  | restoreSessionCursor sessionId cut storeRevision =>
    exact lawful_steady port exactByteDigest collation h rfl
      (steady_restoreSessionCursor h.invariant _ _ _)
  | snapshotSession sessionId =>
    exact lawful_steady port exactByteDigest collation h rfl
      (steady_of_exec (steady_snapshotSession port exactByteDigest collation h.invariant _))
  | snapshotPage sessionId cursorValue direction =>
    exact lawful_steady port exactByteDigest collation h rfl
      (steady_of_exec (steady_snapshotPage port exactByteDigest collation h.invariant _ _ _))
  | watchSession sessionId listener =>
    exact lawful_watchSession port exactByteDigest collation h sessionId listener
  | unsubscribe index =>
    exact ⟨registered_unsubscribe h index hsafe, notifies_silent (unsubscribe_publications index)⟩
  | closeSession sessionId =>
    exact lawful_steady port exactByteDigest collation h rfl (steady_closeSession h.invariant _)
  | releaseSession sessionId =>
    exact ⟨registered_release h sessionId,
      notifies_silent (releaseSession_publications h.invariant sessionId)⟩
  | releaseExecution executionId =>
    exact lawful_steady port exactByteDigest collation h rfl
      (steady_releaseExecution h.invariant _)
  | close =>
    exact ⟨registered_close h, notifies_silent (close_publications h.invariant)⟩
  | _ => exact hwrite rfl rfl trivial

end Port

end WatchLemmas

/-! ## The law -/

section Law

variable (port : HistoryPort ε σ) (exactByteDigest : List UInt8 → String)
variable (collation : Collation)

/-- Every step of the run notifies the registered listeners, each once. -/
def LawfulRun (watched : WatchedWriter σ) : List (WriterOp σ) → Prop
  | [] => True
  | op :: ops => watched.NotifiesRegistered port exactByteDigest collation op ∧
      LawfulRun (watched.step port exactByteDigest collation op) ops

/-- A run whose steps are safe keeps the watch registration law. -/
theorem publications_notify_registered (store : σ) (ops : List (WriterOp σ))
    (hsafe : SafeRun port exactByteDigest collation (.create store) ops) :
    LawfulRun port exactByteDigest collation (.create store) ops := by
  have hrun : ∀ (ops : List (WriterOp σ)) (watched : WatchedWriter σ), watched.Registered →
      SafeRun port exactByteDigest collation watched ops →
      LawfulRun port exactByteDigest collation watched ops := by
    intro ops
    induction ops with
    | nil => exact fun _ _ _ => trivial
    | cons op ops ih =>
      intro watched h hsafe
      have hstep := WatchLemmas.registered_step port exactByteDigest collation h hsafe.1
      exact ⟨hstep.2, ih _ hstep.1 hsafe.2⟩
  exact hrun ops _ (WatchLemmas.registered_create store) hsafe

end Law

/-! ## Runs on one store -/

/-- A store that accepts every write and shows an empty page. -/
def acceptingStore : HistoryPort Unit Unit where
  beginExecution _ store := (.ok (), store)
  appendExecutionEventsWithSemanticIds _ store := (.ok [], store)
  appendPostSettlementSemanticEvent _ store := (.error (), store)
  appendExecutionControlEvents _ store := (.ok [], store)
  commitCanonicalTurn _ store := (.ok none, store)
  settleNonCanonicalExecution _ store := (.ok none, store)
  reconcileExecution input store := (.ok (some {
    executionId := input.executionId
    eventOrdinal := 2
    settledAt := ""
    terminalSemanticOccurrenceId := .semantic input.executionId 2
    outcome := .interrupted
    stopReason := none
    diagnostic := none
    adoption := .nonCanonical
    committedRevision := none }), store)
  readSessionConversationPageFacts _ _ _ store := (.ok ⟨emptyPage, []⟩, store)
  readExecutionMetadata _ store := (.ok "session", store)

def reconcile (executionId : ExecutionId) : WriterOp Unit :=
  .reconcileExecution ⟨executionId, none, .interrupted⟩

/-- A watch, the unsubscribe before any refresh, and a write. -/
def unsubscribeInTime : List (WriterOp Unit) :=
  [.watchSession "session" 7, .unsubscribe 0, reconcile "first"]

theorem unsubscribeInTime_lawful :
    SafeRun acceptingStore (fun _ => "") plainCollation (.create ()) unsubscribeInTime ∧
      LawfulRun acceptingStore (fun _ => "") plainCollation (.create ()) unsubscribeInTime := by
  have hsafe : SafeRun acceptingStore (fun _ => "") plainCollation (.create ())
      unsubscribeInTime := by
    refine ⟨trivial, fun subscription hsub _ _ => .inl ?_, trivial, trivial⟩
    cases hsub
    rfl
  exact ⟨hsafe, publications_notify_registered _ _ _ _ _ hsafe⟩

/-- A watch, a write that refreshes the page, the unsubscribe, and a further write. -/
def unsubscribeAfterRefresh : List (WriterOp Unit) :=
  [.watchSession "session" 7, reconcile "first", .unsubscribe 0, reconcile "second"]

def Publication.receivers (publication : Publication) : SessionId × List Listener :=
  (publication.delta.sessionId, publication.notified)

/-- The listener is unsubscribed and the last write still notifies it. -/
theorem unsubscribed_still_notified :
    ¬ LawfulRun acceptingStore (fun _ => "") plainCollation (.create ()) unsubscribeAfterRefresh := by
  rintro ⟨_, _, _, ⟨published, hpublished, hnotified⟩, _⟩
  have hafter : ((WatchedWriter.create ()).steps acceptingStore (fun _ => "") plainCollation
      unsubscribeAfterRefresh).writer.publications.map Publication.receivers =
        [("session", [7]), ("session", [7])] := by
    decide +kernel
  have hbefore : ((WatchedWriter.create ()).steps acceptingStore (fun _ => "") plainCollation
      (unsubscribeAfterRefresh.take 3)).writer.publications.map Publication.receivers =
        [("session", [7])] := by
    decide +kernel
  have hregistered : ((WatchedWriter.create ()).steps acceptingStore (fun _ => "") plainCollation
      (unsubscribeAfterRefresh.take 3)).registry.listeners "session" = [] := by
    decide +kernel
  -- the last publication goes to the listener that the registry no longer holds
  have hlast := (hafter.symm.trans (congrArg (List.map Publication.receivers) hpublished)).trans
    (List.map_append.trans (congrArg (· ++ published.map Publication.receivers) hbefore))
  have hmap : [("session", [7])] = published.map Publication.receivers := (List.cons.inj hlast).2
  obtain ⟨publication, hmem, hreceivers⟩ : ∃ publication ∈ published,
      publication.receivers = ("session", [7]) :=
    List.mem_map.mp (hmap ▸ List.mem_cons_self)
  obtain ⟨hsession, hlisteners⟩ := Prod.mk.inj hreceivers
  have hlaw := (hnotified publication hmem).1
  rw [hlisteners, hsession] at hlaw
  exact absurd (hlaw.trans hregistered) (List.cons_ne_nil _ _)

end Henji
