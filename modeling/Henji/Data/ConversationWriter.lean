import Henji.Conversation.HistoryAdapter
import Henji.Data.ConversationChanges
import Henji.Library.Effect
import Henji.Library.Heap

/-!
# The conversation writer

The Data-local owner of the saved conversations. A session has a save cursor, which may hold a
cached view of its latest page; a watcher is a listener in the view's set. Cursors and views are
mutable objects that closures keep: the object a `watchSession` or a `beginExecution` captured is a
cell here, and stays what it is when the session gets another cursor or another view.

`beginExecution` suspends twice, before and after the store's write, so it is three steps; what it
captured waits in `admissions`. A listener is the identity of a function, and a call of it is an
output, recorded with its publication.
-/

namespace Henji

abbrev Listener := Nat

abbrev CursorRef := Nat
abbrev ViewRef := Nat

structure SessionConversation where
  state : ConversationState
  normalizer : ConversationNormalizer
  listeners : List Listener
  executionIds : List ExecutionId
  page : PageMetadata
deriving DecidableEq

structure SessionSaveCursor where
  cut : Nat
  storeRevision : Nat
  view : Option ViewRef
deriving DecidableEq, Repr

/-- The unsubscribe closure of a watch, with what it captured. -/
structure Subscription where
  active : Bool
  sessionId : SessionId
  listener : Listener
  cursor : CursorRef
  view : ViewRef
deriving DecidableEq, Repr

/-- A suspended `beginExecution`. -/
structure Admission where
  input : BeginExecutionInput
  cursor : CursorRef
  stored : Bool
deriving DecidableEq

/-- One `#publish`: the delta and the listeners it was delivered to, in order. -/
structure Publication where
  delta : ConversationDelta
  notified : List Listener
deriving DecidableEq

inductive WriterError (ε : Type) where
  | closed
  | executionSessionMismatch
  | invalidCursor
  | store (error : ε)

structure ConversationWriter (σ : Type) where
  store : σ
  cursors : Heap SessionSaveCursor
  views : Heap SessionConversation
  sessions : InsMap SessionId CursorRef
  executionSessions : InsMap ExecutionId SessionId
  sessionExecutions : InsMap SessionId (List ExecutionId)
  closedSessions : List SessionId
  closed : Bool
  subscriptions : List Subscription
  admissions : InsMap Nat Admission
  nextAdmission : Nat
  publications : List Publication

def emptyPage : PageMetadata := ⟨.latest, none, none, none, false, false⟩

/-- The content of a view cell that was never handed out. -/
def emptyConversation : SessionConversation :=
  ⟨createConversationState "", createConversationNormalizer, [], [], emptyPage⟩

def createConversationWriter {σ : Type} (store : σ) : ConversationWriter σ where
  store := store
  cursors := .empty ⟨0, 0, none⟩
  views := .empty emptyConversation
  sessions := .empty
  executionSessions := .empty
  sessionExecutions := .empty
  closedSessions := []
  closed := false
  subscriptions := []
  admissions := .empty
  nextAdmission := 0
  publications := []

abbrev WriterEffect (ε σ : Type) := Effect (WriterError ε) (ConversationWriter σ)

namespace ConversationWriter

section Operations

variable {ε σ : Type} (port : HistoryPort ε σ) (exactByteDigest : List UInt8 → String)
variable (collation : Collation)

/-! ## Private methods -/

/-- A call of the store. -/
def callStore {α : Type} (call : σ → Except ε α × σ) : WriterEffect ε σ α := fun writer =>
  match call writer.store with
  | (.ok value, store) => (.ok value, { writer with store })
  | (.error error, store) => (.error (.store error), { writer with store })

def assertOpen : WriterEffect ε σ Unit := do
  if (← get).closed then throw .closed

def modifyCursor (ref : CursorRef) (f : SessionSaveCursor → SessionSaveCursor) :
    WriterEffect ε σ Unit :=
  modify fun writer => { writer with cursors := writer.cursors.modify ref f }

/-- `cursor.storeRevision = Math.max(cursor.storeRevision, revision)`. -/
def raiseStoreRevision (ref : CursorRef) (revision : Nat) : WriterEffect ε σ Unit :=
  modifyCursor ref fun cursor =>
    { cursor with storeRevision := max cursor.storeRevision revision }

def ensureCursor (sessionId : SessionId) : WriterEffect ε σ CursorRef := do
  let writer ← get
  match writer.sessions.get? sessionId with
  | some cursor => return cursor
  | none =>
    let (cursor, cursors) := writer.cursors.alloc ⟨0, 0, none⟩
    set { writer with cursors, sessions := writer.sessions.set sessionId cursor }
    return cursor

def sessionIdForExecution (executionId : ExecutionId) : WriterEffect ε σ SessionId := do
  match (← get).executionSessions.get? executionId with
  | some known => return known
  | none => callStore (port.readExecutionMetadata executionId)

def sessionForTerminal (executionId : ExecutionId) (expectedSessionId : SessionId) :
    WriterEffect ε σ SessionId := do
  let sessionId ← sessionIdForExecution port executionId
  if sessionId = expectedSessionId then return sessionId
  else throw .executionSessionMismatch

/-- Drop an execution from the executions of its session. -/
def forgetExecution (sessionExecutions : InsMap SessionId (List ExecutionId))
    (executionId : ExecutionId) (sessionId : SessionId) : InsMap SessionId (List ExecutionId) :=
  match sessionExecutions.get? sessionId with
  | none => sessionExecutions
  | some executions =>
    match executions.erase executionId with
    | [] => sessionExecutions.erase sessionId
    | rest => sessionExecutions.set sessionId rest

def rememberExecution (executionId : ExecutionId) (sessionId : SessionId) :
    WriterEffect ε σ Unit :=
  modify fun writer =>
    let previous := writer.executionSessions.get? executionId
    if previous = some sessionId then writer
    else
      let sessionExecutions := match previous with
        | none => writer.sessionExecutions
        | some previous => forgetExecution writer.sessionExecutions executionId previous
      { writer with
        executionSessions := writer.executionSessions.set executionId sessionId
        sessionExecutions := sessionExecutions.set sessionId
          (((sessionExecutions.get? sessionId).getD []).insert executionId) }

/-- The page of a session as a view nobody listens to, and the revision its rows show. -/
def loadPage (sessionId : SessionId) (cut : Nat) (cursor : Option Nat)
    (direction : PageDirection) : WriterEffect ε σ (SessionConversation × Nat) := do
  let page ← callStore (port.readSessionConversationPageFacts sessionId cursor direction)
  let storeRevision := page.executions.foldl (fun revision item =>
    max revision (item.execution.committedRevision.getD item.execution.baseRevision)) 0
  let (state, normalizer) :=
    replaySessionConversation exactByteDigest sessionId page.executions cut false
  return ({
    state, normalizer
    listeners := []
    executionIds := page.executions.map (·.execution.executionId)
    page := page.page }, storeRevision)

/-- Replace the cached view by the latest page and hand its listeners over. -/
def refreshLatestPage (sessionId : SessionId) (cursor : CursorRef) :
    WriterEffect ε σ (List ConversationChange) := do
  match ((← get).cursors.read cursor).view with
  | none => return []
  | some previous =>
    let cut := ((← get).cursors.read cursor).cut
    let (loaded, storeRevision) ← loadPage port exactByteDigest sessionId (cut + 1) none .latest
    let writer ← get
    let previousView := writer.views.read previous
    let (view, views) := writer.views.alloc { loaded with listeners := previousView.listeners }
    set { writer with views }
    modifyCursor cursor fun cursor => { cursor with view := some view }
    raiseStoreRevision cursor storeRevision
    return stateChanges previousView.state loaded.state

def ensureView (sessionId : SessionId) (cursor : CursorRef) : WriterEffect ε σ ViewRef := do
  match ((← get).cursors.read cursor).view with
  | some view => return view
  | none =>
    let cut := ((← get).cursors.read cursor).cut
    let (loaded, storeRevision) ← loadPage port exactByteDigest sessionId cut none .latest
    raiseStoreRevision cursor storeRevision
    let writer ← get
    let (view, views) := writer.views.alloc loaded
    set { writer with views }
    modifyCursor cursor fun cursor => { cursor with view := some view }
    return view

/-- `#snapshot`, before it is encoded. -/
def snapshot (sessionId : SessionId) (cursor : SessionSaveCursor) (view : SessionConversation) :
    ConversationSnapshot :=
  snapshotValue collation sessionId view.state cursor.cut cursor.storeRevision view.page

def publish (sessionId : SessionId) (cursor : CursorRef) (changes : List ConversationChange) :
    WriterEffect ε σ Unit := do
  modifyCursor cursor fun cursor => { cursor with cut := cursor.cut + 1 }
  let writer ← get
  let current := writer.cursors.read cursor
  let view := current.view.map writer.views.read
  let delta : ConversationDelta := {
    sessionId
    cut := current.cut
    storeRevision := current.storeRevision
    changes := coalesceEntityUpdates changes
    page := view.map (·.page) }
  let publication : Publication := ⟨delta, view.elim [] (·.listeners)⟩
  set { writer with publications := writer.publications ++ [publication] }

/-! ## Writes -/

/-- `beginExecution` up to its first suspension. -/
def beginExecution (input : BeginExecutionInput) : WriterEffect ε σ Unit := do
  assertOpen
  let cursor ← ensureCursor input.sessionCorrelation
  modify fun writer => { writer with
    admissions := writer.admissions.set writer.nextAdmission ⟨input, cursor, false⟩
    nextAdmission := writer.nextAdmission + 1 }

/-- The store writes a begun execution. -/
def storeAdmission (ticket : Nat) : WriterEffect ε σ Unit := do
  match (← get).admissions.get? ticket with
  | some ⟨input, cursor, false⟩ =>
    modify fun writer => { writer with admissions := writer.admissions.erase ticket }
    callStore (port.beginExecution input)
    modify fun writer =>
      let admission : Admission := ⟨input, cursor, true⟩
      { writer with admissions := writer.admissions.set ticket admission }
  | _ => return ()

/-- `beginExecution` after the store's write, with the cursor it captured. -/
def resumeAdmission (ticket : Nat) : WriterEffect ε σ Unit := do
  match (← get).admissions.get? ticket with
  | some ⟨input, cursor, true⟩ =>
    modify fun writer => { writer with admissions := writer.admissions.erase ticket }
    rememberExecution input.executionId input.sessionCorrelation
    raiseStoreRevision cursor input.baseStateRevision
    let changes ← refreshLatestPage port exactByteDigest input.sessionCorrelation cursor
    publish input.sessionCorrelation cursor changes
  | _ => return ()

/-- The sessions of the executions of an append, each with a cursor. -/
def sessionsByExecution (inputs : List ExecutionEventInput) :
    WriterEffect ε σ (InsMap ExecutionId SessionId) :=
  inputs.foldlM (fun sessions input => do
    if sessions.has input.executionId then return sessions
    else
      let sessionId ← sessionIdForExecution port input.executionId
      let _ ← ensureCursor sessionId
      return sessions.set input.executionId sessionId) .empty

/-- Apply one append result to the view of its session, if the view holds its execution. -/
def applyResult (sessions : InsMap ExecutionId SessionId)
    (changesBySession : InsMap SessionId (List ConversationChange))
    (result : HistoryAppendResult) :
    WriterEffect ε σ (InsMap SessionId (List ConversationChange)) := do
  let writer ← get
  match sessions.get? result.event.executionId with
  | none => return changesBySession
  | some sessionId =>
    match (writer.sessions.get? sessionId).map writer.cursors.read with
    | none => return changesBySession
    | some cursor =>
      match cursor.view with
      | none => return changesBySession
      | some ref =>
        let view := writer.views.read ref
        if result.event.executionId ∉ view.executionIds then return changesBySession
        else
          let (changes, state, normalizer) := applyHistoryAppendResults exactByteDigest view.state
            view.normalizer [result] (cursor.cut + 1)
          set { writer with views := writer.views.write ref { view with state, normalizer } }
          return changesBySession.set sessionId
            ((changesBySession.get? sessionId).getD [] ++ changes)

def appendExecutionEvents (inputs : List ExecutionEventInput) : WriterEffect ε σ Unit := do
  assertOpen
  if inputs = [] then return ()
  else
    let sessions ← sessionsByExecution port inputs
    let results ← callStore (port.appendExecutionEventsWithSemanticIds inputs)
    let changesBySession ← results.foldlM (applyResult exactByteDigest sessions) .empty
    let touched := (results.filterMap fun result =>
      sessions.get? result.event.executionId).eraseDups
    touched.forM fun sessionId => do
      publish sessionId (← ensureCursor sessionId) ((changesBySession.get? sessionId).getD [])

def appendPostSettlementSemanticEvent (input : HistoryPostSettlementSemanticEventInput) :
    WriterEffect ε σ Unit := do
  assertOpen
  let sessionId ← sessionIdForExecution port input.executionId
  let cursor ← ensureCursor sessionId
  let result ← callStore (port.appendPostSettlementSemanticEvent input)
  let writer ← get
  match (writer.cursors.read cursor).view with
  | none => publish sessionId cursor []
  | some ref =>
    let view := writer.views.read ref
    if input.executionId ∉ view.executionIds then publish sessionId cursor []
    else
      let (changes, state, normalizer) := applyHistoryAppendResults exactByteDigest view.state
        view.normalizer [result] ((writer.cursors.read cursor).cut + 1)
      set { writer with views := writer.views.write ref { view with state, normalizer } }
      publish sessionId cursor changes

def appendExecutionControlEvents (inputs : List ExecutionEventInput) : WriterEffect ε σ Unit := do
  assertOpen
  let _ ← callStore (port.appendExecutionControlEvents inputs)

/-- What the three terminal writes share: a write that committed publishes the refreshed page. -/
def terminalWrite (sessionId : SessionId)
    (write : σ → Except ε (Option HistoryCommitDelta) × σ) : WriterEffect ε σ Unit := do
  let cursor ← ensureCursor sessionId
  match ← callStore write with
  | none => return ()
  | some delta =>
    raiseStoreRevision cursor (delta.committedRevision.getD 0)
    let changes ← refreshLatestPage port exactByteDigest sessionId cursor
    publish sessionId cursor changes

def commitCanonicalTurn (input : CanonicalTurnCommitInput) : WriterEffect ε σ Unit := do
  assertOpen
  let sessionId ← sessionForTerminal port input.executionId input.sessionCorrelation
  terminalWrite port exactByteDigest sessionId (port.commitCanonicalTurn input)

def settleNonCanonicalExecution (input : NonCanonicalExecutionInput) : WriterEffect ε σ Unit := do
  assertOpen
  let sessionId ← sessionForTerminal port input.executionId input.sessionCorrelation
  terminalWrite port exactByteDigest sessionId (port.settleNonCanonicalExecution input)

def reconcileExecution (input : ReconcileExecutionInput) : WriterEffect ε σ Unit := do
  assertOpen
  let sessionId ← sessionIdForExecution port input.executionId
  terminalWrite port exactByteDigest sessionId (port.reconcileExecution input)

/-! ## Sessions and watches -/

def openSession (sessionId : SessionId) : WriterEffect ε σ Unit := do
  assertOpen
  let _ ← ensureCursor sessionId
  modify fun writer => { writer with closedSessions := writer.closedSessions.erase sessionId }

def restoreSessionCursor (sessionId : SessionId) (cut storeRevision : Nat) :
    WriterEffect ε σ Unit := do
  assertOpen
  if sessionId = "" then throw .invalidCursor
  else
    let cursor ← ensureCursor sessionId
    modifyCursor cursor fun cursor => { cursor with
      cut := max cursor.cut cut
      storeRevision := max cursor.storeRevision storeRevision }

/-- Drop the cursor's view when the session is closed and `view` has no listeners. -/
def dropIdleView (sessionId : SessionId) (cursor : CursorRef) (view : ViewRef) :
    WriterEffect ε σ Unit := do
  let writer ← get
  if sessionId ∈ writer.closedSessions ∧ (writer.views.read view).listeners = [] then
    modifyCursor cursor fun cursor => { cursor with view := none }

def snapshotSession (sessionId : SessionId) : WriterEffect ε σ ConversationSnapshot := do
  assertOpen
  let cursor ← ensureCursor sessionId
  let view ← ensureView port exactByteDigest sessionId cursor
  let writer ← get
  let result := snapshot collation sessionId (writer.cursors.read cursor) (writer.views.read view)
  dropIdleView sessionId cursor view
  return result

def snapshotPage (sessionId : SessionId) (cursorValue : Option Nat) (direction : PageDirection) :
    WriterEffect ε σ ConversationSnapshot := do
  assertOpen
  let cursor ← ensureCursor sessionId
  let cut := ((← get).cursors.read cursor).cut
  let (view, storeRevision) ← loadPage port exactByteDigest sessionId cut cursorValue direction
  raiseStoreRevision cursor storeRevision
  return snapshot collation sessionId ((← get).cursors.read cursor) view

/-- Register a listener; the subscription's index is the unsubscribe closure. -/
def watchSession (sessionId : SessionId) (listener : Listener) :
    WriterEffect ε σ (ConversationSnapshot × Nat) := do
  assertOpen
  let cursor ← ensureCursor sessionId
  let view ← ensureView port exactByteDigest sessionId cursor
  let writer ← get
  let result := snapshot collation sessionId (writer.cursors.read cursor) (writer.views.read view)
  let subscription : Subscription := ⟨true, sessionId, listener, cursor, view⟩
  set { writer with
    views := writer.views.modify view fun conversation =>
      { conversation with listeners := conversation.listeners ++
          if listener ∈ conversation.listeners then [] else [listener] }
    subscriptions := writer.subscriptions ++ [subscription] }
  return (result, writer.subscriptions.length)

/-- Call an unsubscribe closure. -/
def unsubscribe (index : Nat) : WriterEffect ε σ Unit := do
  let writer ← get
  match writer.subscriptions[index]? with
  | some ⟨true, sessionId, listener, cursor, view⟩ =>
    let inactive : Subscription := ⟨false, sessionId, listener, cursor, view⟩
    set { writer with
      subscriptions := writer.subscriptions.set index inactive
      views := writer.views.modify view fun conversation =>
        { conversation with listeners := conversation.listeners.erase listener } }
    dropIdleView sessionId cursor view
  | _ => return ()

def closeSession (sessionId : SessionId) : WriterEffect ε σ Unit := do
  assertOpen
  let cursor ← ensureCursor sessionId
  modify fun writer => { writer with closedSessions := writer.closedSessions.insert sessionId }
  match ((← get).cursors.read cursor).view with
  | none => return ()
  | some view => dropIdleView sessionId cursor view

/-- `view.listeners.clear()` on the view of a cursor. -/
def clearListeners (writer : ConversationWriter σ) (cursor : CursorRef) : ConversationWriter σ :=
  match (writer.cursors.read cursor).view with
  | none => writer
  | some view => { writer with
      views := writer.views.modify view fun conversation => { conversation with listeners := [] } }

def releaseSession (sessionId : SessionId) : WriterEffect ε σ Unit :=
  modify fun writer =>
    let cleared := (writer.sessions.get? sessionId).elim writer (clearListeners writer)
    let executions := (writer.sessionExecutions.get? sessionId).getD []
    { cleared with
      sessions := writer.sessions.erase sessionId
      closedSessions := writer.closedSessions.erase sessionId
      executionSessions := executions.foldl InsMap.erase writer.executionSessions
      sessionExecutions := writer.sessionExecutions.erase sessionId }

def releaseExecution (executionId : ExecutionId) : WriterEffect ε σ Unit :=
  modify fun writer =>
    match writer.executionSessions.get? executionId with
    | none => writer
    | some sessionId => { writer with
        executionSessions := writer.executionSessions.erase executionId
        sessionExecutions :=
          forgetExecution writer.sessionExecutions executionId sessionId }

def close : WriterEffect ε σ Unit :=
  modify fun writer =>
    if writer.closed then writer
    else
      let cleared := (writer.sessions.entries.map Prod.snd).foldl clearListeners writer
      { cleared with
        closed := true
        sessions := .empty
        closedSessions := []
        executionSessions := .empty
        sessionExecutions := .empty }

end Operations

end ConversationWriter

end Henji
