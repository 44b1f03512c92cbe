import Henji.Conversation.Order
import Henji.Library.InsMap
import Henji.Library.SortedSearch

/-!
# The session stream client

A client holds the snapshot it started from and applies each frame of the stream. The entities are
keyed; the order is a list kept sorted by a half-interval search over the entities' positions.
-/

namespace Henji

/-! ## Frames -/

structure CoreCursor where
  coreEpoch : String
  sessionId : SessionId
  revision : Nat
deriving DecidableEq, Repr

structure ConversationSnapshot where
  sessionId : SessionId
  cut : Nat
  storeRevision : Nat
  entities : InsMap EntityId Entity
  order : List EntityId
  page : PageMetadata
deriving DecidableEq

structure ConversationDelta where
  sessionId : SessionId
  cut : Nat
  storeRevision : Nat
  changes : List ConversationChange
  page : Option PageMetadata
deriving DecidableEq

/-- The session part of a snapshot, its other fields as they are sent. -/
structure SessionView where
  id : SessionId
  view : Json
deriving DecidableEq

structure SessionSnapshot where
  cursor : CoreCursor
  session : SessionView
  runtime : Json
  conversation : ConversationSnapshot
  pending : Json
  credentialAvailability : Json
  context : Json
deriving DecidableEq

inductive SessionChange where
  | session (session : SessionView)
  | runtime (runtime : Json)
  | pending (pending : Json)
  | credentialAvailability (credentialAvailability : Json)
  | context (context : Json)
deriving DecidableEq

inductive SessionStreamFrame where
  | snapshot (snapshot : SessionSnapshot)
  | update (cursor : CoreCursor) (previousRevision : Nat) (changes : List SessionChange)
      (conversationDelta : Option ConversationDelta)
deriving DecidableEq

structure SessionClientState where
  snapshot : SessionSnapshot
  dirtyEntityIds : List EntityId
  structureChanged : Bool
deriving DecidableEq

inductive StreamError where
  | updateBeforeSnapshot
  | cursorTargetMismatch
  | revisionGap
  | conversationCutGap
  | orderHasNoPosition
deriving DecidableEq, Repr

def StreamError.message : StreamError → String
  | .updateBeforeSnapshot => "session stream update arrived before snapshot"
  | .cursorTargetMismatch => "session stream cursor target mismatch"
  | .revisionGap => "session stream revision gap; reconnect from a snapshot"
  | .conversationCutGap => "conversation cut gap; reconnect from a snapshot"
  | .orderHasNoPosition => "conversation order has no position"

/-! ## Conversation changes -/

/-- The keyed entities and the sorted ids that a client owns. -/
structure KeyedConversation where
  entities : InsMap EntityId Entity
  order : List EntityId
deriving DecidableEq

section Collated

variable (collation : Collation)

/-- `compared < 0` in the search for the place of `id`: an ordered id without an entity counts as
smaller. -/
def standsBelow (entities : InsMap EntityId Entity) (id : EntityId) (position : Position)
    (candidate : EntityId) : Bool :=
  match entities.get? candidate with
  | none => true
  | some entity => Before collation (entity.id, entity.position) (id, position)

def applyConversationChange (keyed : KeyedConversation) :
    ConversationChange → Except StreamError KeyedConversation
  | .upsert entity => .ok { keyed with entities := keyed.entities.set entity.id entity }
  | .remove id => .ok { keyed with entities := keyed.entities.erase id }
  | .orderRemove id => .ok { keyed with order := keyed.order.erase id }
  | .orderInsert id position =>
    if id ∈ keyed.order then .ok keyed
    else
      match position.or ((keyed.entities.get? id).map (·.position)) with
      | none => .error .orderHasNoPosition
      | some position =>
        let low := lowerBound (standsBelow collation keyed.entities id position) keyed.order
        .ok { keyed with order := keyed.order.insertIdx low id }

def applyConversationChanges (keyed : KeyedConversation) :
    List ConversationChange → Except StreamError KeyedConversation
  | [] => .ok keyed
  | change :: changes =>
    match applyConversationChange collation keyed change with
    | .error error => .error error
    | .ok keyed => applyConversationChanges keyed changes

/-- The id that a change marks dirty. -/
def dirtiedBy : ConversationChange → Option EntityId
  | .upsert entity => some entity.id
  | .remove id => some id
  | .orderInsert _ _ | .orderRemove _ => none

/-- The change touches the order. -/
def changesStructure (keyed : KeyedConversation) : ConversationChange → Bool
  | .upsert _ | .remove _ => false
  | .orderRemove _ => true
  | .orderInsert id _ => id ∉ keyed.order

/-- Whether some change, applied in turn, touches the order. -/
def structureChangedBy (keyed : KeyedConversation) : List ConversationChange → Bool
  | [] => false
  | change :: changes => changesStructure keyed change ||
      match applyConversationChange collation keyed change with
      | .error _ => false
      | .ok keyed => structureChangedBy keyed changes

/-! ## Frames applied -/

def initialSessionClientState (snapshot : SessionSnapshot) : SessionClientState where
  snapshot := snapshot
  dirtyEntityIds := snapshot.conversation.entities.keys
  structureChanged := true

def applySessionChange (snapshot : SessionSnapshot) : SessionChange → SessionSnapshot
  | .session session => { snapshot with session }
  | .runtime runtime => { snapshot with runtime }
  | .pending pending => { snapshot with pending }
  | .credentialAvailability credentialAvailability => { snapshot with credentialAvailability }
  | .context context => { snapshot with context }

/-- The conversation part of an update frame. -/
def applyConversationDelta (snapshot : SessionSnapshot) (delta : ConversationDelta) :
    Except StreamError (ConversationSnapshot × List EntityId × Bool) :=
  let conversation := snapshot.conversation
  if delta.sessionId ≠ snapshot.session.id ∨ delta.cut ≠ conversation.cut + 1 then
    .error .conversationCutGap
  else
    let keyed : KeyedConversation := ⟨conversation.entities, conversation.order⟩
    match applyConversationChanges collation keyed delta.changes with
    | .error error => .error error
    | .ok next => .ok ({ conversation with
        entities := next.entities
        order := next.order
        cut := delta.cut
        storeRevision := delta.storeRevision
        page := delta.page.getD conversation.page },
      (delta.changes.filterMap dirtiedBy).eraseDups,
      structureChangedBy collation keyed delta.changes)

def reduceSessionStreamFrame (state : Option SessionClientState) :
    SessionStreamFrame → Except StreamError SessionClientState
  | .snapshot snapshot =>
    let next := initialSessionClientState snapshot
    let previousIds := state.elim [] (·.snapshot.conversation.entities.keys)
    .ok { next with dirtyEntityIds := (previousIds ++ next.dirtyEntityIds).eraseDups }
  | .update cursor previousRevision changes conversationDelta =>
    match state with
    | none => .error .updateBeforeSnapshot
    | some state =>
      let previous := state.snapshot
      if cursor.coreEpoch ≠ previous.cursor.coreEpoch ∨
          cursor.sessionId ≠ previous.cursor.sessionId then .error .cursorTargetMismatch
      else if cursor.revision ≤ previous.cursor.revision then .ok state
      else if previousRevision ≠ previous.cursor.revision ∨
          cursor.revision ≠ previousRevision + 1 then .error .revisionGap
      else
        let snapshot := changes.foldl applySessionChange previous
        match conversationDelta with
        | none => .ok {
            snapshot := { snapshot with cursor }
            dirtyEntityIds := []
            structureChanged := false }
        | some delta =>
          match applyConversationDelta collation snapshot delta with
          | .error error => .error error
          | .ok (conversation, dirtyEntityIds, structureChanged) => .ok {
              snapshot := { snapshot with cursor, conversation }
              dirtyEntityIds, structureChanged }

end Collated

end Henji
