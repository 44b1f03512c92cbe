import Henji.History.HistoryTables

/-!
# Deleting a session

One transaction deletes the rows that refer to the executions of the session, then these executions, the
deepest first, and the session. What else belongs to an execution cascades from it.
-/

namespace Henji

namespace HistoryTables

open Relational

/-! ## The executions of a session -/

/-- `canonical_session_id=? OR session_correlation=?` -/
def Correlated (id : String) : HistoryRow → Bool
  | .execution row => row.canonicalSessionId == some id || row.sessionCorrelation == id
  | _ => false

/-- `child.parent_execution_id=parent.execution_id` -/
def childOf : HistoryRow → HistoryRow → Bool
  | .execution parent, .execution child => child.parentExecutionId == some parent.executionId
  | _, _ => false

def executionId? : HistoryRow → Option String
  | .execution row => some row.executionId
  | _ => none

/-- `WITH RECURSIVE owned(execution_id)`: UNION keeps each row once. -/
def owned (db : HistoryDb) (id : String) : List String :=
  (Saturation.saturate childOf db (Correlated id)).filterMap executionId?

def roots (db : HistoryDb) (id : String) : List String :=
  (db.filter (Correlated id)).filterMap executionId?

def children (db : HistoryDb) (parent : String) : List String :=
  db.filterMap fun row =>
    match row with
    | .execution child => if child.parentExecutionId = some parent then some child.executionId else none
    | _ => none

/-- `WITH RECURSIVE owned(execution_id, depth)`: UNION ALL goes on level by level until one is empty. -/
def descend (db : HistoryDb) : Nat → List String → Option (List (List String))
  | _, [] => some []
  | 0, _ :: _ => none
  | fuel + 1, first :: rest =>
    let level := first :: rest
    (descend db fuel (level.flatMap (children db))).map (level :: ·)

/-- `GROUP BY execution_id ORDER BY MAX(depth) DESC` -/
def deepestFirst : List (List String) → List String
  | [] => []
  | level :: deeper =>
    let found := deepestFirst deeper
    found ++ (level.filter fun id => !found.contains id).eraseDups

/-! ## The transaction -/

section Rows

variable (id : String) (executions : List String)

def coreCursorOf : HistoryRow → Bool
  | .coreCursor _ sessionId _ => sessionId == id
  | _ => false

def readCursorOf : HistoryRow → Bool
  | .readCursor _ correlation latest _ => correlation == id || latest.any executions.contains
  | _ => false

def receiptOf : HistoryRow → Bool
  | .commandReceipt _ _ _ executionId _ => executionId.any executions.contains
  | _ => false

def followUpOf : HistoryRow → Bool
  | .followUp _ _ correlation parent _ started _ =>
    correlation == id || parent.any executions.contains || started.any executions.contains
  | _ => false

def conversationMessageOf : HistoryRow → Bool
  | .conversationMessage sessionId _ _ _ _ => sessionId == id
  | _ => false

def turnOf : HistoryRow → Bool
  | .turn sessionId _ _ _ => sessionId == id
  | _ => false

/-- `source_execution_id=? OR target_execution_id=?` -/
def recallOf : HistoryRow → Bool
  | .recallRelation source target _ => source == id || target == id
  | _ => false

def executionOf : HistoryRow → Bool
  | .execution row => row.executionId == id
  | _ => false

def sessionOf : HistoryRow → Bool
  | .session sessionId _ => sessionId == id
  | _ => false

end Rows

def deleteStatements (id : String) (executions : List String) : List (HistoryDb → Option HistoryDb) :=
  [schema.delete (coreCursorOf id),
    fun db => schema.delete (readCursorOf id (owned db id)) db,
    fun db => schema.delete (receiptOf (owned db id)) db,
    fun db => schema.delete (followUpOf id (owned db id)) db,
    schema.delete (conversationMessageOf id),
    schema.delete (turnOf id)] ++
  executions.map (fun executionId => schema.delete (recallOf executionId)) ++
  executions.map (fun executionId => schema.delete (executionOf executionId)) ++
  [schema.delete (sessionOf id)]

inductive SessionStoreError where
  | sessionInvalid
  | sessionBusy
  | sessionNotFound
  | sessionIoFailure
deriving DecidableEq, Repr

/-- `none` where the query of the executions does not end. Some statements may fail. -/
def delete (lockFree : Bool) (fails : Nat → Bool) (db : HistoryDb) (id : String) :
    Option (Except SessionStoreError Unit × HistoryDb) :=
  if isSessionId id = false then some (.error .sessionInvalid, db)
  else if lockFree = false then some (.error .sessionBusy, db)
  else if db.any (sessionOf id) = false then some (.error .sessionNotFound, db)
  else
    (descend db (db.length + 1) (roots db id)).map fun levels =>
      match transaction fails (deleteStatements id (deepestFirst levels)) db with
      | (true, written) => (.ok (), written)
      | (false, before) => (.error .sessionIoFailure, before)

/-- What the store can have become. -/
inductive Reachable : HistoryDb → Prop
  | empty : Reachable []
  | insert {db written : HistoryDb} {row : HistoryRow} : Reachable db → Insertable db row →
      schema.insert row db = some written → Reachable written
  | update {db written : HistoryDb} {old new : HistoryRow} : Reachable db → old ∈ db →
      Updated db old new → schema.update (replaceRow old new) db = some written → Reachable written
  | drop {db written : HistoryDb} {row : HistoryRow} : Reachable db → Droppable row →
      schema.delete (· == row) db = some written → Reachable written
  | delete {db written : HistoryDb} {lockFree : Bool} {fails : Nat → Bool} {id : String}
      {result : Except SessionStoreError Unit} : Reachable db →
      delete lockFree fails db id = some (result, written) → Reachable written

end HistoryTables

end Henji
