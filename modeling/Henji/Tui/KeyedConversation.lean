import Henji.Library.InsMap

/-!
# Rows of the conversation on the terminal

The store keeps the rows of a conversation under their ids, the semantic order of the conversation's
entities and the order of display, in which local notices stand between them. A notice stands after
the last entity of an execution, after an anchor, or before everything.

`upsertNotice` and `removeNotice` splice one id into the order of display; `rebuildDisplayOrder`
computes it anew.
-/

namespace Henji

abbrev RowId := String

/-- A displayed row. `object` is the identity of the frozen value. -/
structure UiLogEntry where
  id : RowId
  executionId : Option String
  object : Nat
deriving DecidableEq, Repr

structure KeyedNoticePlacement where
  entry : UiLogEntry
  afterExecutionId : Option String
  anchor : Option RowId
deriving DecidableEq, Repr

structure KeyedNoticeUpdate where
  changed : Bool
  structureChanged : Bool
deriving DecidableEq, Repr

structure KeyedConversationStore where
  rows : InsMap RowId UiLogEntry
  semanticOrder : List RowId
  displayOrder : List RowId
  notices : InsMap RowId KeyedNoticePlacement
  indexById : InsMap RowId Nat
  semanticIndexById : InsMap RowId Nat
  lastByExecution : InsMap String RowId
  noticeOrdinalById : InsMap RowId Nat
  nextNoticeOrdinal : Nat
deriving DecidableEq

namespace KeyedConversationStore

def empty : KeyedConversationStore where
  rows := .empty
  semanticOrder := []
  displayOrder := []
  notices := .empty
  indexById := .empty
  semanticIndexById := .empty
  lastByExecution := .empty
  noticeOrdinalById := .empty
  nextNoticeOrdinal := 0

def set (store : KeyedConversationStore) (id : RowId) (entry : UiLogEntry) :
    KeyedConversationStore :=
  { store with rows := store.rows.set id entry }

def delete (store : KeyedConversationStore) (id : RowId) : KeyedConversationStore :=
  { store with rows := store.rows.erase id }

/-! ## Indexes -/

/-- Each id at its index, from `start` on. -/
def setIndexes (index : InsMap RowId Nat) (start : Nat) : List RowId → InsMap RowId Nat
  | [] => index
  | id :: ids => setIndexes (index.set id start) (start + 1) ids

def reindexFrom (store : KeyedConversationStore) (start : Nat) : KeyedConversationStore :=
  { store with indexById := setIndexes store.indexById start (store.displayOrder.drop start) }

/-- The last row of each execution. -/
def lastRows (rows : InsMap RowId UiLogEntry) (last : InsMap String RowId) :
    List RowId → InsMap String RowId
  | [] => last
  | id :: ids =>
    match (rows.get? id).bind UiLogEntry.executionId with
    | none => lastRows rows last ids
    | some executionId => lastRows rows (last.set executionId id) ids

def rebuildSemanticIndexes (store : KeyedConversationStore) : KeyedConversationStore :=
  { store with
    semanticIndexById := setIndexes .empty 0 store.semanticOrder
    lastByExecution := lastRows store.rows .empty store.semanticOrder }

/-! ## Placement -/

/-- The anchor of a notice, by its execution where it has one. -/
def anchorOf (store : KeyedConversationStore) (placement : KeyedNoticePlacement) : Option RowId :=
  match placement.afterExecutionId with
  | none => placement.anchor
  | some executionId => (store.lastByExecution.get? executionId).or placement.anchor

def resolvedAnchor (store : KeyedConversationStore) (placement : KeyedNoticePlacement) :
    Option RowId :=
  (store.anchorOf placement).filter store.semanticIndexById.has

/-- The notices that `rebuildDisplayOrder` puts after an anchor, or before everything. -/
def noticesAt (store : KeyedConversationStore) (anchor : Option RowId) : List RowId :=
  (store.notices.entries.filter fun notice =>
    decide ((store.anchorOf notice.2).filter (fun id => decide (id ∈ store.semanticOrder)) =
      anchor)).map Prod.fst

/-- The order of display that `rebuildDisplayOrder` computes. -/
def rebuiltOrder (store : KeyedConversationStore) : List RowId :=
  store.noticesAt none ++ store.semanticOrder.flatMap fun id => id :: store.noticesAt (some id)

def rebuildDisplayOrder (store : KeyedConversationStore) : KeyedConversationStore :=
  { store with
    displayOrder := store.rebuiltOrder
    indexById := setIndexes .empty 0 store.rebuiltOrder }

/-- The ordinal of a notice; an absent one is the greatest. -/
def ordinalOf (store : KeyedConversationStore) (id : RowId) : Nat :=
  (store.noticeOrdinalById.get? id).getD 9007199254740991

/-- The loop of `noticeInsertionIndex` over the ids before the end. -/
def scanNotices (store : KeyedConversationStore) (anchor : Option RowId) (ordinal : Nat) :
    List RowId → Nat → Nat
  | [], index => index
  | currentId :: ids, index =>
    match store.notices.get? currentId with
    | none => index
    | some placement =>
      if store.resolvedAnchor placement ≠ anchor then index
      else if ordinal < store.ordinalOf currentId then index
      else scanNotices store anchor ordinal ids (index + 1)

def noticeInsertionIndex (store : KeyedConversationStore) (id : RowId) : Nat :=
  match store.notices.get? id with
  | none => store.displayOrder.length
  | some placement =>
    match store.resolvedAnchor placement with
    | none =>
      let stop := match store.semanticOrder.head? with
        | none => store.displayOrder.length
        | some first => (store.indexById.get? first).getD store.displayOrder.length
      store.scanNotices none (store.ordinalOf id) (store.displayOrder.take stop) 0
    | some anchor =>
      match store.indexById.get? anchor with
      | none => store.displayOrder.length
      | some index =>
        store.scanNotices (some anchor) (store.ordinalOf id) (store.displayOrder.drop (index + 1))
          (index + 1)

/-! ## Operations -/

/-- The nearest id before the old place of an anchor that is still there. -/
def remainingAnchor (previous next : List RowId) (anchor : RowId) : Option RowId :=
  (previous.take (previous.findIdx (· == anchor))).reverse.find? fun id => decide (id ∈ next)

def moveAnchor (previous next : List RowId) (placement : KeyedNoticePlacement) :
    KeyedNoticePlacement :=
  match placement.afterExecutionId, placement.anchor with
  | none, some anchor =>
    if anchor ∈ next || anchor ∉ previous then placement
    else match remainingAnchor previous next anchor with
      | none => placement
      | some anchor => { placement with anchor := some anchor }
  | _, _ => placement

def replaceSemanticOrder (store : KeyedConversationStore) (order : List RowId) :
    KeyedConversationStore :=
  let previous := store.semanticOrder
  let next := order.filter store.rows.has
  let rows := (previous.filter fun id => decide (id ∉ next)).foldl InsMap.erase store.rows
  let store := { store with
    rows := rows
    semanticOrder := next }
  let store := store.rebuildSemanticIndexes
  let store := { store with notices := store.notices.mapValues (moveAnchor previous next) }
  store.rebuildDisplayOrder

/-- `splice(index, 1)` of the order of display, with its index. -/
def removeAt (store : KeyedConversationStore) (id : RowId) (index : Nat) : KeyedConversationStore :=
  reindexFrom { store with
    displayOrder := store.displayOrder.eraseIdx index
    indexById := store.indexById.erase id } index

/-- `splice(index, 0, id)` of the order of display, with its index. -/
def insertAt (store : KeyedConversationStore) (id : RowId) (index : Nat) : KeyedConversationStore :=
  reindexFrom { store with displayOrder := store.displayOrder.insertIdx index id } index

def upsertNotice (store : KeyedConversationStore) (placement : KeyedNoticePlacement) :
    KeyedNoticeUpdate × KeyedConversationStore :=
  let id := placement.entry.id
  let previous := store.notices.get? id
  let place (store : KeyedConversationStore) : KeyedConversationStore :=
    { store with
      notices := store.notices.set id placement
      rows := store.rows.set id placement.entry }
  if previous.any fun previous => previous.anchor == placement.anchor &&
      previous.afterExecutionId == placement.afterExecutionId then
    if previous.any fun previous => previous.entry == placement.entry then (⟨false, false⟩, store)
    else (⟨true, false⟩, place store)
  else
    let store := match previous with
      | some _ => match store.indexById.get? id with
        | none => store
        | some existingIndex => store.removeAt id existingIndex
      | none => { store with
          noticeOrdinalById := store.noticeOrdinalById.set id store.nextNoticeOrdinal
          nextNoticeOrdinal := store.nextNoticeOrdinal + 1 }
    let store := place store
    (⟨true, true⟩, store.insertAt id (store.noticeInsertionIndex id))

/-- The loop of `replaceNotices` over the new notices. -/
def addNotices (store : KeyedConversationStore) :
    List (RowId × KeyedNoticePlacement) → KeyedConversationStore
  | [] => store
  | (id, placement) :: notices => addNotices { store with
      notices := store.notices.set id placement
      rows := store.rows.set id placement.entry
      noticeOrdinalById := store.noticeOrdinalById.set id store.nextNoticeOrdinal
      nextNoticeOrdinal := store.nextNoticeOrdinal + 1 } notices

def replaceNotices (store : KeyedConversationStore) (placements : List KeyedNoticePlacement) :
    KeyedConversationStore :=
  let next := placements.foldl (fun next placement => next.set placement.entry.id placement)
    InsMap.empty
  let dropped := store.notices.keys.filter fun id => !next.has id
  let store := { store with
    rows := dropped.foldl InsMap.erase store.rows
    notices := .empty
    noticeOrdinalById := .empty
    nextNoticeOrdinal := 0 }
  (store.addNotices next.entries).rebuildDisplayOrder

def removeNotice (store : KeyedConversationStore) (id : RowId) :
    KeyedNoticeUpdate × KeyedConversationStore :=
  if !store.notices.has id then (⟨false, false⟩, store)
  else
    let store := { store with
      notices := store.notices.erase id
      noticeOrdinalById := store.noticeOrdinalById.erase id
      rows := store.rows.erase id }
    match store.indexById.get? id with
    | none => (⟨true, true⟩, store)
    | some index => (⟨true, true⟩, store.removeAt id index)

end KeyedConversationStore

/-! ## Runs -/

inductive KeyedOperation where
  | set (id : RowId) (entry : UiLogEntry)
  | delete (id : RowId)
  | replaceSemanticOrder (order : List RowId)
  | upsertNotice (placement : KeyedNoticePlacement)
  | removeNotice (id : RowId)
  | replaceNotices (placements : List KeyedNoticePlacement)
deriving DecidableEq

namespace KeyedConversationStore

def apply (store : KeyedConversationStore) : KeyedOperation → KeyedConversationStore
  | .set id entry => store.set id entry
  | .delete id => store.delete id
  | .replaceSemanticOrder order => store.replaceSemanticOrder order
  | .upsertNotice placement => (store.upsertNotice placement).2
  | .removeNotice id => (store.removeNotice id).2
  | .replaceNotices placements => store.replaceNotices placements

end KeyedConversationStore

end Henji
