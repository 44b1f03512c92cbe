import Henji.Data.WriterMoves
import Mathlib.Logic.Relation

/-!
# Runs of the writer

The operations of a writer as data, and their runs. Every write is a sequence of four kinds of
moves: quiet ones, a page refresh, a live change of a view and a publication. `Progress` carries the
changes that each cursor has collected since its last publication; a publication sends these.

Results:
1. `writes_…`: one lemma for each write, and `writes_perform` for all of them.
2. `invariant_write`: they keep the invariant.
-/

namespace Henji

open ConversationWriter

/-! ## Operations -/

inductive WriterOp (σ : Type) where
  | beginExecution (input : BeginExecutionInput)
  | storeAdmission (ticket : Nat)
  | resumeAdmission (ticket : Nat)
  | appendExecutionEvents (inputs : List ExecutionEventInput)
  | appendPostSettlementSemanticEvent (input : HistoryPostSettlementSemanticEventInput)
  | appendExecutionControlEvents (inputs : List ExecutionEventInput)
  | commitCanonicalTurn (input : CanonicalTurnCommitInput)
  | settleNonCanonicalExecution (input : NonCanonicalExecutionInput)
  | reconcileExecution (input : ReconcileExecutionInput)
  | openSession (sessionId : SessionId)
  | restoreSessionCursor (sessionId : SessionId) (cut storeRevision : Nat)
  | snapshotSession (sessionId : SessionId)
  | snapshotPage (sessionId : SessionId) (cursorValue : Option Nat) (direction : PageDirection)
  | watchSession (sessionId : SessionId) (listener : Listener)
  | unsubscribe (index : Nat)
  | closeSession (sessionId : SessionId)
  | releaseSession (sessionId : SessionId)
  | releaseExecution (executionId : ExecutionId)
  | close
  /-- Another handle wrote to the database. -/
  | storeChanged (store : σ)

variable {ε σ : Type}

/-- The writes of executions and their events. -/
def WriterOp.isWrite : WriterOp σ → Bool
  | .beginExecution _ | .storeAdmission _ | .resumeAdmission _ | .appendExecutionEvents _
  | .appendPostSettlementSemanticEvent _ | .appendExecutionControlEvents _
  | .commitCanonicalTurn _ | .settleNonCanonicalExecution _ | .reconcileExecution _
  | .storeChanged _ => true
  | _ => false

namespace ConversationWriter

section Operations

variable (port : HistoryPort ε σ) (exactByteDigest : List UInt8 → String)
variable (collation : Collation)

def perform : WriterOp σ → WriterEffect ε σ Unit
  | .beginExecution input => beginExecution input
  | .storeAdmission ticket => storeAdmission port ticket
  | .resumeAdmission ticket => resumeAdmission port exactByteDigest ticket
  | .appendExecutionEvents inputs => appendExecutionEvents port exactByteDigest inputs
  | .appendPostSettlementSemanticEvent input =>
    appendPostSettlementSemanticEvent port exactByteDigest input
  | .appendExecutionControlEvents inputs => appendExecutionControlEvents port inputs
  | .commitCanonicalTurn input => commitCanonicalTurn port exactByteDigest input
  | .settleNonCanonicalExecution input => settleNonCanonicalExecution port exactByteDigest input
  | .reconcileExecution input => reconcileExecution port exactByteDigest input
  | .openSession sessionId => openSession sessionId
  | .restoreSessionCursor sessionId cut storeRevision =>
    restoreSessionCursor sessionId cut storeRevision
  | .snapshotSession sessionId => do
    let _ ← snapshotSession port exactByteDigest collation sessionId
  | .snapshotPage sessionId cursorValue direction => do
    let _ ← snapshotPage port exactByteDigest collation sessionId cursorValue direction
  | .watchSession sessionId listener => do
    let _ ← watchSession port exactByteDigest collation sessionId listener
  | .unsubscribe index => unsubscribe index
  | .closeSession sessionId => closeSession sessionId
  | .releaseSession sessionId => releaseSession sessionId
  | .releaseExecution executionId => releaseExecution executionId
  | .close => close
  | .storeChanged store => modify fun writer => { writer with store }

/-- The writer after an operation, whether it returned or threw. -/
def step (writer : ConversationWriter σ) (op : WriterOp σ) : ConversationWriter σ :=
  (perform port exactByteDigest collation op).exec writer

def steps (writer : ConversationWriter σ) (ops : List (WriterOp σ)) : ConversationWriter σ :=
  ops.foldl (step port exactByteDigest collation) writer

end Operations

end ConversationWriter

/-! ## Moves -/

/-- A writer in a write, with the changes that each cursor has not published yet and the cursors
that have published. -/
structure Progress (σ : Type) where
  writer : ConversationWriter σ
  pending : CursorRef → List ConversationChange
  done : List CursorRef

/-- Nothing has been changed or published. -/
def Progress.idle (writer : ConversationWriter σ) : Progress σ := ⟨writer, fun _ => [], []⟩

/-- What a write is made of; a cursor that has published stays as it is. `stale` allows a
publication at a cursor its session has lost. -/
inductive WriteMove (stale : Prop) : Progress σ → Progress σ → Prop where
  | quiet {before after : ConversationWriter σ} (pending : CursorRef → List ConversationChange)
      (done : List CursorRef) (h : Quiet before after) :
      WriteMove stale ⟨before, pending, done⟩ ⟨after, pending, done⟩
  | refresh {writer : ConversationWriter σ} {sessionId : SessionId} {cursor : CursorRef}
      {old loaded : SessionConversation} {pending : CursorRef → List ConversationChange}
      {done : List CursorRef} (h : writer.Invariant) (hcursor : writer.CursorFor sessionId cursor)
      (hold : writer.viewOf cursor = some old) (hloaded : LoadedFor sessionId loaded)
      (hnone : pending cursor = []) (hdone : cursor ∉ done) :
      WriteMove stale ⟨writer, pending, done⟩
        ⟨writer.attachView cursor { loaded with listeners := old.listeners },
          Function.update pending cursor (stateChanges old.state loaded.state), done⟩
  | live {writer : ConversationWriter σ} {sessionId : SessionId} {cursor : CursorRef}
      {view : ViewRef} {pending : CursorRef → List ConversationChange} {done : List CursorRef}
      {changes : List ConversationChange} {state : ConversationState}
      {normalizer : ConversationNormalizer} (observations : List Observation)
      (h : writer.Invariant) (hget : writer.sessions.get? sessionId = some cursor)
      (hview : (writer.cursors.read cursor).view = some view)
      (happly : applyObservations (writer.views.read view).state
        (writer.views.read view).normalizer observations = (changes, state, normalizer))
      (hdone : cursor ∉ done) :
      WriteMove stale ⟨writer, pending, done⟩ ⟨writer.writeLive view state normalizer,
        Function.update pending cursor (pending cursor ++ changes), done⟩
  | publish {writer : ConversationWriter σ} {sessionId : SessionId} {cursor : CursorRef}
      {pending : CursorRef → List ConversationChange} {done : List CursorRef}
      (h : writer.Invariant) (hcursor : writer.CursorFor sessionId cursor)
      (hcurrent : stale ∨ writer.sessions.get? sessionId = some cursor ∨
        writer.listenersOf sessionId = []) (hdone : cursor ∉ done) :
      WriteMove stale ⟨writer, pending, done⟩
        ⟨writer.published sessionId cursor (pending cursor), Function.update pending cursor [],
          cursor :: done⟩

/-- A sequence of moves. -/
def Writes (stale : Prop) : Progress σ → Progress σ → Prop :=
  Relation.ReflTransGen (WriteMove stale)

/-- A write: moves that leave nothing to publish. -/
def Write (stale : Prop) (before after : ConversationWriter σ) : Prop :=
  ∃ done, Writes stale (.idle before) ⟨after, fun _ => [], done⟩

/-- The cursor that a suspended write captured is the session's own, or nobody listens. -/
def FreshAdmission (writer : ConversationWriter σ) (ticket : Nat) : Prop :=
  ∀ admission, writer.admissions.get? ticket = some admission → admission.stored = true →
    writer.sessions.get? admission.input.sessionCorrelation = some admission.cursor ∨
      writer.listenersOf admission.input.sessionCorrelation = []

/-- A resumed admission is fresh. -/
def FreshOp (writer : ConversationWriter σ) : WriterOp σ → Prop
  | .resumeAdmission ticket => FreshAdmission writer ticket
  | _ => True

namespace WriterLemmas

variable {writer before middle after : ConversationWriter σ} {sessionId : SessionId}
variable {cursor : CursorRef} {stale : Prop} {pending : CursorRef → List ConversationChange}

theorem writes_quiet {done : List CursorRef} (h : Quiet before after) :
    Writes stale ⟨before, pending, done⟩ ⟨after, pending, done⟩ :=
  .single (.quiet pending done h)

theorem writes_trans {first second third : Progress σ} (h : Writes stale first second)
    (h' : Writes stale second third) : Writes stale first third := Relation.ReflTransGen.trans h h'

theorem write_quiet (h : Quiet before after) : Write stale before after := ⟨[], writes_quiet h⟩

theorem write_refl (writer : ConversationWriter σ) : Write stale writer writer := ⟨[], .refl⟩

/-- Moves before a write, as long as nothing is pending or published. -/
theorem write_trans (h : Writes stale (.idle before) (.idle middle)) (h' : Write stale middle after) :
    Write stale before after := by
  obtain ⟨done, h'⟩ := h'
  exact ⟨done, writes_trans h h'⟩

/-- Observations of append results keep a view well formed. -/
theorem invariant_live (h : writer.Invariant) {view : ViewRef}
    {observations : List Observation} {changes : List ConversationChange}
    {state : ConversationState} {normalizer : ConversationNormalizer}
    (happly : applyObservations (writer.views.read view).state
      (writer.views.read view).normalizer observations = (changes, state, normalizer)) :
    (writer.writeLive view state normalizer).Invariant := by
  obtain ⟨hkeyed, htools⟩ := h.keyed view
  obtain ⟨hkeyed, htools, hsession⟩ := applyObservations_keyed hkeyed htools observations
  rw [happly] at hkeyed htools hsession
  exact invariant_writeLive h view hsession ⟨hkeyed, htools⟩

theorem invariant_move {first second : Progress σ} (h : WriteMove stale first second) :
    second.writer.Invariant := by
  cases h with
  | quiet pending done h => exact h.invariant'
  | refresh h hcursor hold hloaded _ _ =>
    have hinv := invariant_loaded h hcursor hloaded
    rw [hold] at hinv
    exact hinv
  | live observations h hget hview happly _ => exact invariant_live h happly
  | publish h hcursor hcurrent _ => exact invariant_published h _ _ _

theorem invariant_write (h : Write stale before after) (hinv : before.Invariant) :
    after.Invariant := by
  obtain ⟨done, h⟩ := h
  cases h with
  | refl => exact hinv
  | tail _ hmove => exact invariant_move hmove

theorem writes_of_isQuiet {α : Type} {m : WriterEffect ε σ α} (hm : IsQuiet m)
    (h : writer.Invariant) : Write stale writer (m.exec writer) :=
  write_quiet (hm writer h)

/-- Quiet code before a write. -/
theorem writes_bind {α β : Type} {m : WriterEffect ε σ α} {f : α → WriterEffect ε σ β}
    (hm : IsQuiet m) (h : writer.Invariant)
    (hf : ∀ a after, m.run writer = (.ok a, after) → Quiet writer after →
      Write stale after ((f a).exec after)) :
    Write stale writer ((m >>= f).exec writer) := by
  have hquiet := hm writer h
  cases hrun : m.run writer with
  | mk result after =>
    rw [hrun] at hquiet
    cases result with
    | error error =>
      rw [Effect.exec_bind_error hrun]
      exact write_quiet hquiet
    | ok a =>
      rw [Effect.exec_bind_ok hrun]
      exact write_trans (writes_quiet hquiet) (hf a after hrun hquiet)

/-- Publishing all that is pending ends the write. -/
theorem write_publish (h : writer.Invariant) (hcursor : writer.CursorFor sessionId cursor)
    (hcurrent : stale ∨ writer.sessions.get? sessionId = some cursor ∨
      writer.listenersOf sessionId = []) {changes : List ConversationChange}
    (hwrites : Writes stale (.idle before)
      ⟨writer, Function.update (fun _ => []) cursor changes, []⟩) :
    Write stale before (writer.published sessionId cursor changes) := by
  have hmove : WriteMove stale ⟨writer, Function.update (fun _ => []) cursor changes, []⟩ _ :=
    .publish h hcursor hcurrent List.not_mem_nil
  rw [Function.update_self, Function.update_idem] at hmove
  have hidle : Function.update (fun _ => []) cursor ([] : List ConversationChange) = fun _ => [] :=
    Function.update_eq_self_iff.mpr rfl
  rw [hidle] at hmove
  exact ⟨[cursor], hwrites.tail hmove⟩

/-- A write that publishes that nothing changed. -/
theorem write_publish_nothing (h : writer.Invariant)
    (hcursor : writer.CursorFor sessionId cursor)
    (hcurrent : stale ∨ writer.sessions.get? sessionId = some cursor ∨
      writer.listenersOf sessionId = []) :
    Write stale writer (writer.published sessionId cursor []) := by
  refine write_publish h hcursor hcurrent ?_
  have hidle : Function.update (fun _ => []) cursor ([] : List ConversationChange) = fun _ => [] :=
    Function.update_eq_self_iff.mpr rfl
  rw [hidle]
  exact .refl

/-! ## The writes -/

section Port

variable (port : HistoryPort ε σ) (exactByteDigest : List UInt8 → String)

/-- The tail of a settled write: refresh the page and publish its difference. -/
theorem writes_refreshAndPublish (h : writer.Invariant)
    (hcursor : writer.CursorFor sessionId cursor)
    (hcurrent : stale ∨ writer.sessions.get? sessionId = some cursor ∨
      writer.listenersOf sessionId = []) :
    Write stale writer (Effect.exec (do
        let changes ← refreshLatestPage port exactByteDigest sessionId cursor
        publish sessionId cursor changes) writer) := by
  rcases refreshLatestPage_run port exactByteDigest h hcursor with
    ⟨error, after, hrun, hquiet⟩ | ⟨hrun, _⟩ | ⟨middle, after, old, loaded, hrun, hquiet, hold,
      hloaded, hquiet'⟩
  · rw [Effect.exec_bind_error hrun]
    exact write_quiet hquiet
  · rw [Effect.exec_bind_ok hrun, Effect.exec_of_run (publish_run _ _ _)]
    exact write_publish_nothing h hcursor hcurrent
  · rw [Effect.exec_bind_ok hrun, Effect.exec_of_run (publish_run _ _ _)]
    have hmiddle := cursorFor_quiet hquiet hcursor
    have hcursor' : after.CursorFor sessionId cursor :=
      cursorFor_quiet hquiet' ⟨hmiddle.bound, hmiddle.owner⟩
    have hcurrent' : stale ∨ after.sessions.get? sessionId = some cursor ∨
        after.listenersOf sessionId = [] := by
      refine hcurrent.imp_right fun hcurrent => hcurrent.imp (fun hget => ?_) fun hnone => ?_
      · exact hquiet'.sessions _ _ (hquiet.sessions _ _ hget)
      · have hold' : middle.viewOf cursor = some old := by
          rw [viewOf_quiet hquiet hcursor.bound, hold]
        rw [hquiet'.listeners, listenersOf_attachView hquiet.invariant' (by rw [hold']; rfl),
          hquiet.listeners, hnone]
    have hrefresh : WriteMove stale (.idle middle) _ := .refresh hquiet.invariant' hmiddle
      (by rw [viewOf_quiet hquiet hcursor.bound, hold]) hloaded rfl List.not_mem_nil
    refine write_publish hquiet'.invariant' hcursor' hcurrent' ?_
    exact writes_trans (writes_quiet hquiet)
      (writes_trans (.single hrefresh) (writes_quiet hquiet'))

theorem writes_terminalWrite (h : writer.Invariant) (sessionId : SessionId)
    (write : σ → Except ε (Option HistoryCommitDelta) × σ) :
    Write stale writer ((terminalWrite port exactByteDigest sessionId write).exec writer) := by
  obtain ⟨cursor, after, hrun, hquiet, hget⟩ := ensureCursor_run (ε := ε) sessionId h
  unfold terminalWrite
  rw [Effect.exec_bind_ok hrun]
  refine write_trans (writes_quiet hquiet) ?_
  refine writes_bind (isQuiet_callStore _) hquiet.invariant' fun delta stored _ hstored => ?_
  cases delta with
  | none => exact write_refl _
  | some delta =>
    refine writes_bind (isQuiet_raiseStoreRevision _ _) hstored.invariant' fun _ raised _ hraised => ?_
    have hget : raised.sessions.get? sessionId = some cursor :=
      hraised.sessions _ _ (hstored.sessions _ _ hget)
    exact writes_refreshAndPublish port exactByteDigest hraised.invariant'
      (cursorFor_of_get hraised.invariant' hget) (.inr (.inl hget))

theorem writes_commitCanonicalTurn (h : writer.Invariant) (input : CanonicalTurnCommitInput) :
    Write stale writer ((commitCanonicalTurn port exactByteDigest input).exec writer) := by
  refine writes_bind isQuiet_assertOpen h fun _ opened _ hopened => ?_
  refine writes_bind (isQuiet_sessionForTerminal port _ _) hopened.invariant' fun _ _ _ hfound => ?_
  exact writes_terminalWrite port exactByteDigest hfound.invariant' _ _

theorem writes_settleNonCanonicalExecution (h : writer.Invariant)
    (input : NonCanonicalExecutionInput) :
    Write stale writer ((settleNonCanonicalExecution port exactByteDigest input).exec writer) := by
  refine writes_bind isQuiet_assertOpen h fun _ opened _ hopened => ?_
  refine writes_bind (isQuiet_sessionForTerminal port _ _) hopened.invariant' fun _ _ _ hfound => ?_
  exact writes_terminalWrite port exactByteDigest hfound.invariant' _ _

theorem writes_reconcileExecution (h : writer.Invariant) (input : ReconcileExecutionInput) :
    Write stale writer ((reconcileExecution port exactByteDigest input).exec writer) := by
  refine writes_bind isQuiet_assertOpen h fun _ opened _ hopened => ?_
  refine writes_bind (isQuiet_sessionIdForExecution port _) hopened.invariant' fun _ _ _ hfound => ?_
  exact writes_terminalWrite port exactByteDigest hfound.invariant' _ _

theorem writes_appendPostSettlementSemanticEvent (h : writer.Invariant)
    (input : HistoryPostSettlementSemanticEventInput) :
    Write stale writer ((appendPostSettlementSemanticEvent port exactByteDigest input).exec writer) := by
  unfold appendPostSettlementSemanticEvent
  refine writes_bind isQuiet_assertOpen h fun _ opened _ hopened => ?_
  refine writes_bind (isQuiet_sessionIdForExecution port _) hopened.invariant'
    fun sessionId found _ hfound => ?_
  obtain ⟨cursor, ensured, hrun, hquiet, hget⟩ :=
    ensureCursor_run (ε := ε) sessionId hfound.invariant'
  rw [Effect.exec_bind_ok hrun]
  refine write_trans (writes_quiet hquiet) ?_
  refine writes_bind (isQuiet_callStore _) hquiet.invariant' fun result stored _ hstored => ?_
  have hget : stored.sessions.get? sessionId = some cursor := hstored.sessions _ _ hget
  have hinv : stored.Invariant := hstored.invariant'
  have hidle : Write stale stored (stored.published sessionId cursor []) :=
    write_publish_nothing hinv (cursorFor_of_get hinv hget) (.inr (.inl hget))
  rw [Effect.exec_bind_ok (Effect.run_get stored)]
  cases hview : (stored.cursors.read cursor).view with
  | none =>
    simp only
    rw [Effect.exec_of_run (publish_run _ _ _)]
    exact hidle
  | some view =>
    simp only
    split
    · rw [Effect.exec_of_run (publish_run _ _ _)]
      exact hidle
    · generalize happly : applyHistoryAppendResults exactByteDigest (stored.views.read view).state
        (stored.views.read view).normalizer [result] ((stored.cursors.read cursor).cut + 1) = applied
      obtain ⟨changes, state, normalizer⟩ := applied
      rw [Effect.exec_bind_ok (Effect.run_set _ _), Effect.exec_of_run (publish_run _ _ _)]
      have hlive : WriteMove stale (.idle stored) _ :=
        .live _ hinv hget hview happly List.not_mem_nil
      have hinv' := invariant_live hinv happly
      exact write_publish hinv' (cursorFor_of_get hinv' hget) (.inr (.inl hget)) (.single hlive)

/-! ## Appends -/

/-- The changes collected for the sessions are those pending at their cursors. -/
structure Linked (sessions : InsMap SessionId CursorRef)
    (changes : SessionId → List ConversationChange)
    (pending : CursorRef → List ConversationChange) : Prop where
  held : ∀ sessionId cursor, sessions.get? sessionId = some cursor →
    pending cursor = changes sessionId
  free : ∀ cursor, (∀ sessionId, sessions.get? sessionId ≠ some cursor) → pending cursor = []
  known : ∀ sessionId, sessions.get? sessionId = none → changes sessionId = []

theorem linked_idle (sessions : InsMap SessionId CursorRef) :
    Linked sessions (fun _ => []) fun _ => [] :=
  ⟨fun _ _ _ => rfl, fun _ _ => rfl, fun _ _ => rfl⟩

theorem idle_of_linked {sessions : InsMap SessionId CursorRef}
    (h : Linked sessions (fun _ => []) pending) : pending = fun _ => [] := by
  funext cursor
  by_cases hheld : ∃ sessionId, sessions.get? sessionId = some cursor
  · obtain ⟨sessionId, hget⟩ := hheld
    exact h.held sessionId cursor hget
  · exact h.free cursor fun sessionId hget => hheld ⟨sessionId, hget⟩

theorem linked_quiet {changes : SessionId → List ConversationChange} (hquiet : Quiet before after)
    (h : Linked before.sessions changes pending) : Linked after.sessions changes pending := by
  refine ⟨fun sessionId cursor hget => ?_, fun cursor hfree => ?_, fun sessionId hnone => ?_⟩
  · by_cases hlt : cursor < before.cursors.next
    · exact h.held _ _ (hquiet.sessionsBack _ _ hlt hget)
    · -- a new cursor: its session had none
      have hnone : before.sessions.get? sessionId = none := by
        cases hbefore : before.sessions.get? sessionId with
        | none => rfl
        | some old =>
          have hsame := Option.some.inj ((hquiet.sessions _ _ hbefore).symm.trans hget)
          exact absurd (hsame ▸ hquiet.invariant.cursorBound _ _ hbefore) hlt
      rw [h.known _ hnone]
      exact h.free cursor fun other hother => hlt (hquiet.invariant.cursorBound _ _ hother)
  · exact h.free cursor fun sessionId hget => hfree sessionId (hquiet.sessions _ _ hget)
  · cases hget : before.sessions.get? sessionId with
    | none => exact h.known sessionId hget
    | some cursor =>
      rw [hquiet.sessions _ _ hget] at hnone
      cases hnone

theorem linked_update {changes : SessionId → List ConversationChange} (hinv : writer.Invariant)
    (h : Linked writer.sessions changes pending) (hget : writer.sessions.get? sessionId = some cursor)
    (group : List ConversationChange) :
    Linked writer.sessions (Function.update changes sessionId group)
      (Function.update pending cursor group) := by
  refine ⟨fun other held hother => ?_, fun held hfree => ?_, fun other hother => ?_⟩
  · rcases eq_or_ne other sessionId with rfl | hne
    · have hsame : held = cursor := Option.some.inj (hother.symm.trans hget)
      rw [hsame, Function.update_self, Function.update_self]
    · have hdiff : held ≠ cursor := by
        rintro rfl
        exact hne (hinv.cursorOwner _ _ _ hother hget)
      rw [Function.update_of_ne hdiff, Function.update_of_ne hne]
      exact h.held other held hother
  · have hdiff : held ≠ cursor := by
      rintro rfl
      exact hfree sessionId hget
    rw [Function.update_of_ne hdiff]
    exact h.free held hfree
  · have hne : other ≠ sessionId := by
      rintro rfl
      rw [hget] at hother
      cases hother
    rw [Function.update_of_ne hne]
    exact h.known other hother

/-- The changes of a group that is not there yet are none. -/
def groupOf (changesBySession : InsMap SessionId (List ConversationChange))
    (sessionId : SessionId) : List ConversationChange :=
  (changesBySession.get? sessionId).getD []

theorem groupOf_set (changesBySession : InsMap SessionId (List ConversationChange))
    (sessionId : SessionId) (group : List ConversationChange) :
    groupOf (changesBySession.set sessionId group) =
      Function.update (groupOf changesBySession) sessionId group := by
  funext other
  unfold groupOf
  rw [InsMap.get?_set, Function.update_apply]
  split <;> rfl

/-- One append result is applied to the view of its session, or to none. -/
theorem applyResult_run (stale : Prop) (h : writer.Invariant)
    (sessions : InsMap ExecutionId SessionId)
    {changesBySession : InsMap SessionId (List ConversationChange)} (result : HistoryAppendResult)
    (hlinked : Linked writer.sessions (groupOf changesBySession) pending) :
    ∃ changes after pending',
      (applyResult exactByteDigest sessions changesBySession result :
        WriterEffect ε σ _).run writer = (.ok changes, after) ∧
      Writes stale ⟨writer, pending, []⟩ ⟨after, pending', []⟩ ∧ after.Invariant ∧
      Linked after.sessions (groupOf changes) pending' ∧
      ∀ sessionId, groupOf changes sessionId ≠ [] → groupOf changesBySession sessionId ≠ [] ∨
        sessions.get? result.event.executionId = some sessionId := by
  have hnothing : ∃ changes after pending',
      ((.ok changesBySession, writer) : Except (WriterError ε) _ × _) = (.ok changes, after) ∧
      Writes stale ⟨writer, pending, []⟩ ⟨after, pending', []⟩ ∧ after.Invariant ∧
      Linked after.sessions (groupOf changes) pending' ∧
      ∀ sessionId, groupOf changes sessionId ≠ [] → groupOf changesBySession sessionId ≠ [] ∨
        sessions.get? result.event.executionId = some sessionId :=
    ⟨_, _, pending, rfl, .refl, h, hlinked, fun _ hne => .inl hne⟩
  unfold applyResult
  rw [Effect.run_bind, Effect.run_get]
  simp only
  split
  · exact hnothing
  · next sessionId hsession =>
    split
    · exact hnothing
    · next saved hsaved =>
      obtain ⟨cursor, hget, rfl⟩ := Option.map_eq_some_iff.mp hsaved
      split
      · exact hnothing
      · next view hview =>
        split
        · exact hnothing
        · generalize happly : applyHistoryAppendResults exactByteDigest
            (writer.views.read view).state (writer.views.read view).normalizer [result]
            ((writer.cursors.read cursor).cut + 1) = applied
          obtain ⟨changes, state, normalizer⟩ := applied
          have hlive : WriteMove stale ⟨writer, pending, []⟩ _ :=
            .live _ h hget hview happly List.not_mem_nil
          refine ⟨_, _, _, rfl, .single hlive, invariant_live h happly, ?_, fun other hne => ?_⟩
          · rw [groupOf_set, hlinked.held _ _ hget]
            exact linked_update h hlinked hget _
          · rcases eq_or_ne other sessionId with rfl | hdiff
            · exact .inr hsession
            · rw [groupOf_set, Function.update_of_ne hdiff] at hne
              exact .inl hne

/-- The append results in turn. -/
theorem applyResults_run (stale : Prop) (h : writer.Invariant)
    (sessions : InsMap ExecutionId SessionId)
    (changesBySession : InsMap SessionId (List ConversationChange))
    (results : List HistoryAppendResult)
    (hlinked : Linked writer.sessions (groupOf changesBySession) pending) :
    ∃ changes after pending',
      (results.foldlM (applyResult exactByteDigest sessions) changesBySession :
        WriterEffect ε σ _).run writer = (.ok changes, after) ∧
      Writes stale ⟨writer, pending, []⟩ ⟨after, pending', []⟩ ∧ after.Invariant ∧
      Linked after.sessions (groupOf changes) pending' ∧
      ∀ sessionId, groupOf changes sessionId ≠ [] → groupOf changesBySession sessionId ≠ [] ∨
        sessionId ∈ results.filterMap fun result => sessions.get? result.event.executionId := by
  induction results generalizing writer changesBySession pending with
  | nil => exact ⟨_, _, pending, rfl, .refl, h, hlinked, fun _ hne => .inl hne⟩
  | cons result results ih =>
    obtain ⟨changes, middle, pending', hrun, hwrites, hmiddle, hlinked', hfirst⟩ :=
      applyResult_run (ε := ε) exactByteDigest stale h sessions result hlinked
    obtain ⟨final, after, pending'', hrun', hwrites', hafter, hlinked'', hrest⟩ :=
      ih hmiddle changes hlinked'
    refine ⟨final, after, pending'', ?_, writes_trans hwrites hwrites', hafter, hlinked'',
      fun sessionId hne => ?_⟩
    · rw [List.foldlM_cons, Effect.run_bind_ok hrun, hrun']
    · rw [List.mem_filterMap]
      rcases hrest sessionId hne with hne | hmem
      · rcases hfirst sessionId hne with hne | hget
        · exact .inl hne
        · exact .inr ⟨result, List.mem_cons_self, hget⟩
      · obtain ⟨other, hother, hget⟩ := List.mem_filterMap.mp hmem
        exact .inr ⟨other, List.mem_cons_of_mem _ hother, hget⟩

/-- The touched sessions publish what they collected, each once. -/
theorem writes_publishAll (stale : Prop) (h : writer.Invariant)
    (changes : SessionId → List ConversationChange)
    {touched : List SessionId} (hnodup : touched.Nodup) {done : List CursorRef}
    (hdone : ∀ cursor ∈ done, ∃ sessionId, writer.sessions.get? sessionId = some cursor ∧
      sessionId ∉ touched)
    (hlinked : Linked writer.sessions (fun id => if id ∈ touched then changes id else []) pending) :
    ∃ done', Writes stale ⟨writer, pending, done⟩
      ⟨Effect.exec (touched.forM fun sessionId => do
        publish sessionId (← ensureCursor sessionId) (changes sessionId) :
          WriterEffect ε σ PUnit) writer, fun _ => [], done'⟩ := by
  induction touched generalizing writer pending done with
  | nil =>
    have hidle : pending = fun _ => [] := idle_of_linked (by simpa using hlinked)
    rw [hidle]
    exact ⟨done, .refl⟩
  | cons sessionId rest ih =>
    obtain ⟨hnotin, hnodup⟩ := List.nodup_cons.mp hnodup
    obtain ⟨cursor, ensured, hrun, hquiet, hget⟩ := ensureCursor_run (ε := ε) sessionId h
    have hinv := hquiet.invariant'
    have hlinked' := linked_quiet hquiet hlinked
    have hpending : pending cursor = changes sessionId := by
      rw [hlinked'.held _ _ hget, if_pos List.mem_cons_self]
    have hfresh : cursor ∉ done := by
      intro hmem
      obtain ⟨other, hother, hnot⟩ := hdone cursor hmem
      have hsame := hinv.cursorOwner _ _ _ hget (hquiet.sessions _ _ hother)
      exact hnot (hsame ▸ List.mem_cons_self)
    have hfirst : (do publish sessionId (← ensureCursor sessionId) (changes sessionId) :
        WriterEffect ε σ Unit).run writer =
          (.ok (), ensured.published sessionId cursor (changes sessionId)) := by
      rw [Effect.run_bind_ok hrun, publish_run]
    have hloop := Effect.exec_bind_ok (f := fun _ => rest.forM fun sessionId => do
      publish sessionId (← ensureCursor sessionId) (changes sessionId)) hfirst
    have hpublish : WriteMove stale ⟨ensured, pending, done⟩ _ :=
      .publish hinv (cursorFor_of_get hinv hget) (.inr (.inl hget)) hfresh
    rw [hpending] at hpublish
    have hdone' : ∀ held ∈ cursor :: done,
        ∃ other, ensured.sessions.get? other = some held ∧ other ∉ rest := by
      intro held hmem
      rcases List.mem_cons.mp hmem with rfl | hmem
      · exact ⟨sessionId, hget, hnotin⟩
      · obtain ⟨other, hother, hnot⟩ := hdone held hmem
        exact ⟨other, hquiet.sessions _ _ hother, fun hin => hnot (List.mem_cons_of_mem _ hin)⟩
    have hchanges : Function.update (fun id => if id ∈ sessionId :: rest then changes id else [])
        sessionId [] = fun id => if id ∈ rest then changes id else [] := by
      funext other
      rw [Function.update_apply]
      rcases eq_or_ne other sessionId with rfl | hne
      · simp [hnotin]
      · simp [hne]
    have hnext := linked_update hinv hlinked' hget []
    rw [hchanges] at hnext
    obtain ⟨done', hrest⟩ := ih (invariant_published hinv sessionId cursor (changes sessionId))
      hnodup hdone' hnext
    refine ⟨done', cast (congrArg (fun after => Writes stale _ ⟨after, _, done'⟩) hloop.symm) ?_⟩
    exact writes_trans (writes_quiet hquiet) (writes_trans (.single hpublish) hrest)

theorem nodup_eraseDups {α : Type} [DecidableEq α] (xs : List α) : xs.eraseDups.Nodup := by
  match xs with
  | [] => exact List.nodup_nil
  | x :: rest =>
    rw [List.eraseDups_cons, List.nodup_cons]
    refine ⟨fun hmem => ?_, nodup_eraseDups _⟩
    rw [List.mem_eraseDups, List.mem_filter] at hmem
    simp at hmem
  termination_by xs.length
  decreasing_by exact Nat.lt_succ_of_le (List.length_filter_le _ _)

theorem writes_appendExecutionEvents (h : writer.Invariant) (inputs : List ExecutionEventInput) :
    Write stale writer ((appendExecutionEvents port exactByteDigest inputs).exec writer) := by
  unfold appendExecutionEvents
  refine writes_bind isQuiet_assertOpen h fun _ opened _ hopened => ?_
  split
  · exact write_refl _
  · refine writes_bind (isQuiet_sessionsByExecution port _) hopened.invariant'
      fun sessions found _ hfound => ?_
    refine writes_bind (isQuiet_callStore _) hfound.invariant' fun results stored _ hstored => ?_
    obtain ⟨changes, after, pending, hrun, hwrites, hafter, hlinked, htouched⟩ :=
      applyResults_run (ε := ε) exactByteDigest stale hstored.invariant' sessions .empty results
        (linked_idle stored.sessions)
    rw [Effect.exec_bind_ok hrun]
    have htouched' : groupOf changes = fun sessionId =>
        if sessionId ∈ (results.filterMap fun result =>
          sessions.get? result.event.executionId).eraseDups then groupOf changes sessionId else [] := by
      funext sessionId
      split
      · rfl
      · next hnot =>
        rw [List.mem_eraseDups] at hnot
        cases hgroup : groupOf changes sessionId with
        | nil => rfl
        | cons change rest =>
          rcases htouched sessionId (by rw [hgroup]; exact List.cons_ne_nil _ _) with hne | hmem
          · exact absurd rfl hne
          · exact absurd hmem hnot
    rw [htouched'] at hlinked
    obtain ⟨done, hpublished⟩ := writes_publishAll (ε := ε) stale hafter
      (groupOf changes) (nodup_eraseDups _) (fun _ hmem => absurd hmem List.not_mem_nil) hlinked
    exact ⟨done, writes_trans hwrites hpublished⟩

/-! ## Admissions -/

theorem isQuiet_beginExecution (input : BeginExecutionInput) :
    IsQuiet (beginExecution input : WriterEffect ε σ Unit) := by
  refine isQuiet_bind isQuiet_assertOpen fun _ writer h => ?_
  obtain ⟨cursor, ensured, hrun, hquiet, hget⟩ :=
    ensureCursor_run (ε := ε) input.sessionCorrelation h
  rw [Effect.run_bind_ok hrun, Effect.run_modify]
  refine quiet_trans hquiet (quiet_admissions hquiet.invariant' _ ?_)
  exact invariant_setAdmission hquiet.invariant' _ (hquiet.invariant'.cursorBound _ _ hget)
    fun sessionId hother => hquiet.invariant'.cursorOwner _ _ _ hother hget

theorem quiet_eraseAdmission (h : writer.Invariant) (ticket : Nat) :
    Quiet writer { writer with admissions := writer.admissions.erase ticket } :=
  quiet_admissions h _ (invariant_eraseAdmission h ticket)

theorem isQuiet_storeAdmission (ticket : Nat) : IsQuiet (storeAdmission port ticket) := by
  intro writer h
  unfold storeAdmission
  rw [Effect.run_bind, Effect.run_get]
  simp only
  split
  · next input cursor hget =>
    rw [Effect.run_bind, Effect.run_modify]
    simp only
    have herased := quiet_eraseAdmission h ticket
    have hstored := isQuiet_callStore (port.beginExecution input) _ herased.invariant'
    have hcursor : CursorFor writer input.sessionCorrelation cursor :=
      ⟨h.admissionBound _ _ hget, h.admissionSession _ _ hget⟩
    cases hrun : (callStore (port.beginExecution input) : WriterEffect ε σ Unit).run
        { writer with admissions := writer.admissions.erase ticket } with
    | mk result after =>
      rw [hrun] at hstored
      have hquiet := quiet_trans herased hstored
      cases result with
      | error error =>
        rw [Effect.run_bind_error hrun]
        exact hquiet
      | ok _ =>
        rw [Effect.run_bind_ok hrun, Effect.run_modify]
        have hcursor' := cursorFor_quiet hquiet hcursor
        refine quiet_trans hquiet (quiet_admissions hquiet.invariant' _ ?_)
        exact invariant_setAdmission hquiet.invariant' _ hcursor'.bound hcursor'.owner
  · exact quiet_refl h

theorem writes_resumeAdmission (h : writer.Invariant) (ticket : Nat)
    (hfresh : stale ∨ FreshAdmission writer ticket) :
    Write stale writer ((resumeAdmission port exactByteDigest ticket).exec writer) := by
  unfold resumeAdmission
  rw [Effect.exec_bind_ok (Effect.run_get writer)]
  split
  · next input cursor hget =>
    rw [Effect.exec_bind_ok (Effect.run_modify _ _)]
    have herased := quiet_eraseAdmission h ticket
    have hcursor : CursorFor writer input.sessionCorrelation cursor :=
      ⟨h.admissionBound _ _ hget, h.admissionSession _ _ hget⟩
    refine write_trans (writes_quiet herased) ?_
    refine writes_bind (isQuiet_rememberExecution _ _) herased.invariant'
      fun _ remembered _ hremembered => ?_
    refine writes_bind (isQuiet_raiseStoreRevision _ _) hremembered.invariant'
      fun _ raised _ hraised => ?_
    have hquiet := quiet_trans herased (quiet_trans hremembered hraised)
    refine writes_refreshAndPublish port exactByteDigest hraised.invariant'
      (cursorFor_quiet hquiet hcursor) (hfresh.imp_right fun hfresh => ?_)
    refine (hfresh _ hget rfl).imp (fun hcurrent => hquiet.sessions _ _ hcurrent) fun hnone => ?_
    rw [hquiet.listeners, hnone]
  · exact write_refl _

theorem isQuiet_appendExecutionControlEvents (inputs : List ExecutionEventInput) :
    IsQuiet (appendExecutionControlEvents port inputs) :=
  isQuiet_bind isQuiet_assertOpen fun _ =>
    isQuiet_bind (isQuiet_callStore _) fun _ => isQuiet_pure _

theorem isQuiet_storeChanged (store : σ) :
    IsQuiet (modify fun writer => { writer with store } : WriterEffect ε σ PUnit) :=
  isQuiet_modify fun _ h => quiet_fields h rfl rfl rfl rfl rfl rfl rfl

/-- What a write does. -/
theorem writes_perform (collation : Collation) (h : writer.Invariant) {op : WriterOp σ}
    (hop : op.isWrite = true) (hfresh : stale ∨ FreshOp writer op) :
    Write stale writer (step port exactByteDigest collation writer op) := by
  cases op with
  | beginExecution input => exact writes_of_isQuiet (isQuiet_beginExecution input) h
  | storeAdmission ticket => exact writes_of_isQuiet (isQuiet_storeAdmission port ticket) h
  | resumeAdmission ticket => exact writes_resumeAdmission port exactByteDigest h ticket hfresh
  | appendExecutionEvents inputs => exact writes_appendExecutionEvents port exactByteDigest h inputs
  | appendPostSettlementSemanticEvent input =>
    exact writes_appendPostSettlementSemanticEvent port exactByteDigest h input
  | appendExecutionControlEvents inputs =>
    exact writes_of_isQuiet (isQuiet_appendExecutionControlEvents port inputs) h
  | commitCanonicalTurn input => exact writes_commitCanonicalTurn port exactByteDigest h input
  | settleNonCanonicalExecution input =>
    exact writes_settleNonCanonicalExecution port exactByteDigest h input
  | reconcileExecution input => exact writes_reconcileExecution port exactByteDigest h input
  | storeChanged store => exact writes_of_isQuiet (isQuiet_storeChanged (ε := ε) store) h
  | _ => cases hop

end Port

end WriterLemmas

end Henji
