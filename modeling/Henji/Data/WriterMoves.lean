import Henji.Data.WriterQuiet

/-!
# The moves of the writer

A write is a sequence of four kinds of moves: quiet ones, a page refresh, a live change of a view,
and a publication. `Progress` carries the changes that each cursor has collected since its last
publication; a publication sends exactly these. A fifth kind of state change, a first view for a
cursor, belongs to snapshots and watches.

Results:
1. `publish_run`, `refreshLatestPage_run`, `ensureView_run`, `applyResult_run`: the runs.
2. `WriteMove` and, for each write, `Writes`: what a write does, said once.
-/

namespace Henji

open ConversationWriter

variable {ε σ : Type}

namespace ConversationWriter

/-- A cursor takes a new view. -/
def attachView (writer : ConversationWriter σ) (cursor : CursorRef)
    (loaded : SessionConversation) : ConversationWriter σ :=
  { writer with
    views := (writer.views.alloc loaded).2
    cursors := writer.cursors.modify cursor fun cursor =>
      { cursor with view := some writer.views.next } }

/-- The delta of a publication at a cursor whose cut is about to count up. -/
def deltaAt (writer : ConversationWriter σ) (sessionId : SessionId) (cursor : CursorRef)
    (changes : List ConversationChange) : ConversationDelta where
  sessionId := sessionId
  cut := (writer.cursors.read cursor).cut + 1
  storeRevision := (writer.cursors.read cursor).storeRevision
  changes := coalesceEntityUpdates changes
  page := (writer.viewOf cursor).map (·.page)

/-- The state after a publication. -/
def published (writer : ConversationWriter σ) (sessionId : SessionId) (cursor : CursorRef)
    (changes : List ConversationChange) : ConversationWriter σ :=
  { writer with
    cursors := writer.cursors.modify cursor fun cursor => { cursor with cut := cursor.cut + 1 }
    publications := writer.publications ++
      [⟨writer.deltaAt sessionId cursor changes, (writer.viewOf cursor).elim [] (·.listeners)⟩] }

/-- A view takes the state and the normalizer that the live changes lead to. -/
def writeLive (writer : ConversationWriter σ) (view : ViewRef) (state : ConversationState)
    (normalizer : ConversationNormalizer) : ConversationWriter σ :=
  { writer with views := writer.views.modify view fun conversation =>
      { conversation with state, normalizer } }

/-- A cursor gives up its view. -/
def dropView (writer : ConversationWriter σ) (cursor : CursorRef) : ConversationWriter σ :=
  { writer with cursors := writer.cursors.modify cursor fun cursor => { cursor with view := none } }

/-- The listeners of a view change. -/
def setListeners (writer : ConversationWriter σ) (view : ViewRef)
    (f : List Listener → List Listener) : ConversationWriter σ :=
  { writer with views := writer.views.modify view fun conversation =>
      { conversation with listeners := f conversation.listeners } }

/-- A cursor that the session holds, or that it held before it was released. -/
structure CursorFor (writer : ConversationWriter σ) (sessionId : SessionId) (cursor : CursorRef) :
    Prop where
  bound : cursor < writer.cursors.next
  owner : ∀ other, writer.sessions.get? other = some cursor → other = sessionId

end ConversationWriter

/-- What a loaded page satisfies. -/
structure LoadedFor (sessionId : SessionId) (loaded : SessionConversation) : Prop where
  sessionId : loaded.state.sessionId = sessionId
  listeners : loaded.listeners = []
  keyed : KeyedState loaded.state ∧ ToolIds loaded.normalizer

namespace WriterLemmas

variable {writer before after : ConversationWriter σ} {sessionId : SessionId} {cursor : CursorRef}

theorem cursorFor_of_get (h : writer.Invariant) (hget : writer.sessions.get? sessionId = some cursor) :
    writer.CursorFor sessionId cursor :=
  ⟨h.cursorBound _ _ hget, fun _ hother => h.cursorOwner _ _ _ hother hget⟩

theorem cursorFor_quiet (h : Quiet before after) (hcursor : before.CursorFor sessionId cursor) :
    after.CursorFor sessionId cursor :=
  ⟨Nat.lt_of_lt_of_le hcursor.bound h.cursorsNext, fun other hget =>
    hcursor.owner other (h.sessionsBack _ _ hcursor.bound hget)⟩

/-- The view of a cursor and its content survive quiet code. -/
theorem viewOf_quiet (h : Quiet before after) (hbound : cursor < before.cursors.next) :
    after.viewOf cursor = before.viewOf cursor := by
  rw [viewOf, viewOf, h.view cursor hbound]
  cases hview : (before.cursors.read cursor).view with
  | none => rfl
  | some view => exact congrArg some (h.content view (h.invariant.viewBound _ _ hview))

/-! ## Publishing -/

theorem publish_run (sessionId : SessionId) (cursor : CursorRef)
    (changes : List ConversationChange) :
    (publish sessionId cursor changes : WriterEffect ε σ Unit).run writer =
      (.ok (), writer.published sessionId cursor changes) := by
  simp only [publish, modifyCursor, Effect.run_bind, Effect.run_modify, Effect.run_get,
    Effect.run_set, Heap.read_modify_self, published, deltaAt, viewOf]

theorem invariant_published (h : writer.Invariant) (sessionId : SessionId) (cursor : CursorRef)
    (changes : List ConversationChange) : (writer.published sessionId cursor changes).Invariant :=
  invariant_cursorFields h cursor (fun cursor => { cursor with cut := cursor.cut + 1 })
    fun _ => rfl

theorem view_published (sessionId : SessionId) (cursor other : CursorRef)
    (changes : List ConversationChange) :
    ((writer.published sessionId cursor changes).cursors.read other).view =
      (writer.cursors.read other).view := by
  unfold published
  simp only [Heap.read_modify]
  split
  · next heq => rw [heq]
  · rfl

theorem viewOf_published (sessionId : SessionId) (cursor other : CursorRef)
    (changes : List ConversationChange) :
    (writer.published sessionId cursor changes).viewOf other = writer.viewOf other := by
  rw [viewOf, view_published]
  rfl

theorem listenersOf_published (sessionId other : SessionId) (cursor : CursorRef)
    (changes : List ConversationChange) :
    (writer.published sessionId cursor changes).listenersOf other = writer.listenersOf other :=
  listenersOf_congr rfl fun _ _ => by rw [viewOf_published]

/-! ## Attaching views -/

theorem view_attachView (cursor other : CursorRef) (loaded : SessionConversation) :
    ((writer.attachView cursor loaded).cursors.read other).view =
      if other = cursor then some writer.views.next else (writer.cursors.read other).view := by
  unfold attachView
  simp only [Heap.read_modify]
  split <;> rfl

theorem cut_attachView (cursor other : CursorRef) (loaded : SessionConversation) :
    ((writer.attachView cursor loaded).cursors.read other).cut =
      (writer.cursors.read other).cut := by
  unfold attachView
  simp only [Heap.read_modify]
  split
  · next heq => rw [heq]
  · rfl

theorem content_attachView (cursor : CursorRef) (loaded : SessionConversation) {view : ViewRef}
    (hlt : view < writer.views.next) :
    (writer.attachView cursor loaded).views.read view = writer.views.read view :=
  Heap.read_alloc_lt _ _ hlt

/-- The attached view, and every other view as before. -/
theorem viewOf_attachView (h : writer.Invariant) (cursor other : CursorRef)
    (loaded : SessionConversation) :
    (writer.attachView cursor loaded).viewOf other =
      if other = cursor then some loaded else writer.viewOf other := by
  rw [viewOf, view_attachView]
  split
  · show some ((writer.views.alloc loaded).2.read writer.views.next) = some loaded
    rw [Heap.read_alloc, if_pos rfl]
  · rw [viewOf]
    cases hview : (writer.cursors.read other).view with
    | none => rfl
    | some view => exact congrArg some (content_attachView _ _ (h.viewBound _ _ hview))

/-- A view with the same listeners takes the place of the old one. -/
theorem listenersOf_attachView (h : writer.Invariant) {loaded : SessionConversation}
    (hsame : loaded.listeners = ((writer.viewOf cursor).elim [] (·.listeners) : List Listener))
    (other : SessionId) :
    (writer.attachView cursor loaded).listenersOf other = writer.listenersOf other := by
  refine listenersOf_congr rfl fun held _ => ?_
  rw [viewOf_attachView h]
  split
  · next heq =>
    subst heq
    exact hsame
  · rfl

/-- A cursor of the session takes a loaded page, with the listeners of its old view. -/
theorem invariant_loaded (h : writer.Invariant) (hcursor : writer.CursorFor sessionId cursor)
    {loaded : SessionConversation} (hloaded : LoadedFor sessionId loaded) :
    (writer.attachView cursor { loaded with
      listeners := (writer.viewOf cursor).elim [] (·.listeners) }).Invariant := by
  refine invariant_attachView h hcursor.bound (fun other hget => ?_) (fun hdetached => ?_) ?_
    hloaded.keyed
  · rw [hcursor.owner other hget]
    exact hloaded.sessionId
  · rw [viewOf]
    cases hview : (writer.cursors.read cursor).view with
    | none => rfl
    | some view => exact h.detached _ _ hdetached hview
  · rw [viewOf]
    cases hview : (writer.cursors.read cursor).view with
    | none => exact List.nodup_nil
    | some view => exact h.listenersNodup view

/-! ## Live changes -/

theorem invariant_writeLive (h : writer.Invariant) (view : ViewRef) {state : ConversationState}
    {normalizer : ConversationNormalizer}
    (hsession : state.sessionId = (writer.views.read view).state.sessionId)
    (hkeyed : KeyedState state ∧ ToolIds normalizer) :
    (writer.writeLive view state normalizer).Invariant :=
  invariant_modifyView h view (fun conversation => { conversation with state, normalizer }) hsession
    (fun cursor hcursor hdetached => h.detached cursor view hdetached hcursor)
    (h.listenersNodup view) hkeyed

theorem listenersOf_writeLive (view : ViewRef) (state : ConversationState)
    (normalizer : ConversationNormalizer) (other : SessionId) :
    (writer.writeLive view state normalizer).listenersOf other = writer.listenersOf other := by
  refine listenersOf_congr rfl fun held _ => ?_
  unfold viewOf writeLive
  cases hview : (writer.cursors.read held).view with
  | none => rfl
  | some ref =>
    simp only [Option.map_some, Option.elim_some, Heap.read_modify]
    split
    · next heq => rw [heq]
    · rfl

theorem applyObservations_keyed {state : ConversationState} {normalizer : ConversationNormalizer}
    (hstate : KeyedState state) (hnormalizer : ToolIds normalizer)
    (observations : List Observation) :
    KeyedState (applyObservations state normalizer observations).2.1 ∧
      ToolIds (applyObservations state normalizer observations).2.2 ∧
      (applyObservations state normalizer observations).2.1.sessionId = state.sessionId := by
  induction observations generalizing state normalizer with
  | nil => exact ⟨hstate, hnormalizer, rfl⟩
  | cons observation observations ih =>
    have hfacts := KeyedStateLemmas.normalize_toolFacts hnormalizer observation
    have hnext := KeyedStateLemmas.applyFacts_keyed hstate
      (normalizeConversationObservation normalizer observation).1
    obtain ⟨h₁, h₂, h₃⟩ := ih hnext hfacts.2
    exact ⟨h₁, h₂, h₃.trans (KeyedStateLemmas.applyFacts_sessionId _ _)⟩

/-! ## Runs -/

section Port

variable (port : HistoryPort ε σ) (exactByteDigest : List UInt8 → String)

theorem loadPage_run (writer : ConversationWriter σ) (sessionId : SessionId) (cut : Nat) (cursorValue : Option Nat)
    (direction : PageDirection) :
    (∃ error after, (loadPage port exactByteDigest sessionId cut cursorValue direction).run writer =
      (.error error, after)) ∨
    ∃ loaded storeRevision after,
      (loadPage port exactByteDigest sessionId cut cursorValue direction).run writer =
        (.ok (loaded, storeRevision), after) ∧ LoadedFor sessionId loaded := by
  unfold loadPage
  rw [Effect.run_bind]
  cases hcall : (callStore (port.readSessionConversationPageFacts sessionId cursorValue direction) :
      WriterEffect ε σ _).run writer with
  | mk result after =>
    cases result with
    | error error => exact .inl ⟨error, after, rfl⟩
    | ok page =>
      obtain ⟨hkeyed, htools, hsession⟩ := applyObservations_keyed
        (KeyedStateLemmas.keyed_createConversationState sessionId)
        KeyedStateLemmas.toolIds_createConversationNormalizer
        (sessionObservations exactByteDigest sessionId cut false 0 page.executions)
      exact .inr ⟨_, _, after, rfl, ⟨hsession, rfl, hkeyed, htools⟩⟩

/-- A refresh fails before it writes, finds no view, or attaches the latest page. -/
theorem refreshLatestPage_run (h : writer.Invariant) (hcursor : writer.CursorFor sessionId cursor) :
    (∃ error after, (refreshLatestPage port exactByteDigest sessionId cursor).run writer =
      (.error error, after) ∧ Quiet writer after) ∨
    ((refreshLatestPage port exactByteDigest sessionId cursor).run writer = (.ok [], writer) ∧
      writer.viewOf cursor = none) ∨
    ∃ middle after old loaded,
      (refreshLatestPage port exactByteDigest sessionId cursor).run writer =
        (.ok (stateChanges old.state loaded.state), after) ∧
      Quiet writer middle ∧ writer.viewOf cursor = some old ∧ LoadedFor sessionId loaded ∧
      Quiet (middle.attachView cursor { loaded with listeners := old.listeners }) after := by
  unfold refreshLatestPage
  rw [Effect.run_bind, Effect.run_get]
  cases hview : (writer.cursors.read cursor).view with
  | none =>
    refine .inr (.inl ⟨?_, ?_⟩)
    · simp only [hview, Effect.run_pure]
    · rw [viewOf, hview]
      rfl
  | some old =>
    simp only [hview]
    rw [Effect.run_bind, Effect.run_get]
    simp only
    have hquiet := isQuiet_loadPage port exactByteDigest sessionId
      ((writer.cursors.read cursor).cut + 1) none .latest writer h
    rcases loadPage_run port exactByteDigest writer sessionId
      ((writer.cursors.read cursor).cut + 1) none .latest with
      ⟨error, middle, hrun⟩ | ⟨loaded, revision, middle, hrun, hload⟩
    · rw [hrun] at hquiet
      exact .inl ⟨error, middle, Effect.run_bind_error hrun, hquiet⟩
    · rw [hrun] at hquiet
      have hbefore : writer.viewOf cursor = some (writer.views.read old) := by
        rw [viewOf, hview]
        rfl
      have hsame : middle.viewOf cursor = some (writer.views.read old) :=
        (viewOf_quiet hquiet hcursor.bound).trans hbefore
      have hcontent : middle.views.read old = writer.views.read old :=
        hquiet.content old (h.viewBound _ _ hview)
      have hattached : (middle.attachView cursor { loaded with
          listeners := (writer.views.read old).listeners }).Invariant := by
        have := invariant_loaded hquiet.invariant' (cursorFor_quiet hquiet hcursor) hload
        rwa [hsame] at this
      refine .inr (.inr ⟨middle, _, writer.views.read old, loaded, ?_, hquiet, hbefore, hload,
        isQuiet_raiseStoreRevision (ε := ε) cursor revision _ hattached⟩)
      rw [Effect.run_bind_ok hrun]
      simp only [Effect.run_bind, Effect.run_get, Effect.run_set, modifyCursor, Effect.run_modify,
        raiseStoreRevision, hcontent, Effect.run_pure, attachView, Heap.alloc_fst]

/-- `ensureView` fails before it writes, finds the view, or attaches the latest page. -/
theorem ensureView_run (h : writer.Invariant) (sessionId : SessionId) (cursor : CursorRef) :
    (∃ error after, (ensureView port exactByteDigest sessionId cursor).run writer =
      (.error error, after) ∧ Quiet writer after) ∨
    (∃ view, (ensureView port exactByteDigest sessionId cursor).run writer = (.ok view, writer) ∧
      (writer.cursors.read cursor).view = some view) ∨
    ∃ middle loaded,
      (ensureView port exactByteDigest sessionId cursor).run writer =
        (.ok middle.views.next, middle.attachView cursor loaded) ∧
      Quiet writer middle ∧ (writer.cursors.read cursor).view = none ∧
      LoadedFor sessionId loaded := by
  unfold ensureView
  rw [Effect.run_bind, Effect.run_get]
  cases hview : (writer.cursors.read cursor).view with
  | some view =>
    simp only [hview]
    exact .inr (.inl ⟨view, rfl, rfl⟩)
  | none =>
    simp only [hview]
    rw [Effect.run_bind, Effect.run_get]
    simp only
    have hquiet := isQuiet_loadPage port exactByteDigest sessionId
      (writer.cursors.read cursor).cut none .latest writer h
    rcases loadPage_run port exactByteDigest writer sessionId
      (writer.cursors.read cursor).cut none .latest with
      ⟨error, middle, hrun⟩ | ⟨loaded, revision, middle, hrun, hload⟩
    · rw [hrun] at hquiet
      exact .inl ⟨error, middle, Effect.run_bind_error hrun, hquiet⟩
    · rw [hrun] at hquiet
      refine .inr (.inr ⟨_, loaded, ?_, quiet_trans hquiet
        (isQuiet_raiseStoreRevision (ε := ε) cursor revision middle hquiet.invariant'), trivial, hload⟩)
      rw [Effect.run_bind_ok hrun]
      simp only [Effect.run_bind, Effect.run_get, Effect.run_set, modifyCursor, Effect.run_modify,
        raiseStoreRevision, Effect.run_pure, attachView, Heap.alloc_fst]

end Port

end WriterLemmas

end Henji
