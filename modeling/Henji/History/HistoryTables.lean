import Henji.Library.Relational

/-!
# The tables of the history store

The rows of the history database with their keys and foreign keys. The columns that neither are keys nor
say which session or execution a row is about are kept as one text, `rest`.

The store writes rows under the checks of its functions. A sequence of such statements, with deletions of
sessions among them, is what the store can have done.
-/

namespace Henji

namespace HistoryTables

open Relational

/-! ## Rows -/

/-- The text `<executionId>:semantic:<ordinal>`, or a prefix with a fresh UUID. -/
inductive RecordId where
  | semantic (executionId : String) (ordinal : Nat)
  | fresh (text : String)
deriving DecidableEq, Repr

inductive CommandTarget where
  | core (coreEpoch : String)
  | session (sessionId : String)
  | execution (sessionId executionId : String)
deriving DecidableEq, Repr

structure ExecutionRow where
  executionId : String
  canonicalSessionId : Option String
  sessionCorrelation : String
  taskContentDigest : String
  parentExecutionId : Option String
  configurationId : Option String
  terminalRecordId : Option RecordId
  rest : String
deriving DecidableEq, Repr

inductive HistoryRow where
  | content (digest bytes : String)
  | session (sessionId rest : String)
  | configuration (configurationId snapshotDigest rest : String)
  | execution (row : ExecutionRow)
  | displayPosition (sessionCorrelation : String) (ordinal : Nat) (executionId : String)
  | message (executionId : String) (ordinal : Nat) (digest : String)
  | turn (sessionId : String) (turnOrdinal turnNumber : Nat) (executionId : String)
  | conversationMessage (sessionId : String) (ordinal turnNumber : Nat) (executionId : String)
      (executionOrdinal : Nat)
  | modelChange (sessionId : String) (ordinal : Nat) (rest : String)
  | record (recordId : RecordId) (executionId : String) (ordinal : Nat) (digest : Option String)
      (rest : String)
  | relation (recordId : RecordId) (ordinal : Nat) (target : RecordId) (rest : String)
  | textState (executionId lane : String) (modelStep requestOrdinal : Int) (rest : String)
  | context (executionId rest : String)
  | diagnostic (diagnosticId executionId digest : String)
  | recallRelation (source target : String) (recordId : RecordId)
  | commandReceipt (coreEpoch commandId : String) (target : CommandTarget) (executionId : Option String)
      (rest : String)
  | controlFact (executionId rest : String)
  | followUp (coreEpoch queueId sessionCorrelation : String) (parent : Option String) (digest : String)
      (started : Option String) (rest : String)
  | coreCursor (coreEpoch sessionId rest : String)
  | readCursor (dataInstanceId sessionCorrelation : String) (latest : Option String) (rest : String)
deriving DecidableEq, Repr

/-- A value of a primary key or of a unique key. -/
inductive HistoryKey where
  | content (digest : String)
  | session (sessionId : String)
  | configuration (configurationId : String)
  | execution (executionId : String)
  | displayPosition (sessionCorrelation : String) (ordinal : Nat)
  | positionOf (executionId : String)
  | message (executionId : String) (ordinal : Nat)
  | turn (sessionId : String) (turnOrdinal : Nat)
  | turnNumber (sessionId : String) (turnNumber : Nat)
  | turnOf (executionId : String)
  | conversationMessage (sessionId : String) (ordinal : Nat)
  | modelChange (sessionId : String) (ordinal : Nat)
  | record (recordId : RecordId)
  | recordAt (executionId : String) (ordinal : Nat)
  | relation (recordId : RecordId) (ordinal : Nat)
  | textState (executionId lane : String) (modelStep requestOrdinal : Int)
  | context (executionId : String)
  | diagnostic (diagnosticId : String)
  | recallRelation (source target : String)
  | recallRecord (recordId : RecordId)
  | commandReceipt (coreEpoch commandId : String)
  | controlFact (executionId : String)
  | followUp (coreEpoch queueId : String)
  | coreCursor (coreEpoch sessionId : String)
  | readCursor (dataInstanceId sessionCorrelation : String)
deriving DecidableEq, Repr

def HistoryRow.keys : HistoryRow → List HistoryKey
  | .content digest _ => [.content digest]
  | .session sessionId _ => [.session sessionId]
  | .configuration configurationId _ _ => [.configuration configurationId]
  | .execution row => [.execution row.executionId]
  | .displayPosition correlation ordinal executionId =>
    [.displayPosition correlation ordinal, .positionOf executionId]
  | .message executionId ordinal _ => [.message executionId ordinal]
  | .turn sessionId turnOrdinal turnNumber executionId =>
    [.turn sessionId turnOrdinal, .turnNumber sessionId turnNumber, .turnOf executionId]
  | .conversationMessage sessionId ordinal _ _ _ => [.conversationMessage sessionId ordinal]
  | .modelChange sessionId ordinal _ => [.modelChange sessionId ordinal]
  | .record recordId executionId ordinal _ _ => [.record recordId, .recordAt executionId ordinal]
  | .relation recordId ordinal _ _ => [.relation recordId ordinal]
  | .textState executionId lane modelStep requestOrdinal _ =>
    [.textState executionId lane modelStep requestOrdinal]
  | .context executionId _ => [.context executionId]
  | .diagnostic diagnosticId _ _ => [.diagnostic diagnosticId]
  | .recallRelation source target recordId => [.recallRelation source target, .recallRecord recordId]
  | .commandReceipt coreEpoch commandId _ _ _ => [.commandReceipt coreEpoch commandId]
  | .controlFact executionId _ => [.controlFact executionId]
  | .followUp coreEpoch queueId _ _ _ _ _ => [.followUp coreEpoch queueId]
  | .coreCursor coreEpoch sessionId _ => [.coreCursor coreEpoch sessionId]
  | .readCursor dataInstanceId correlation _ _ => [.readCursor dataInstanceId correlation]

/-- A foreign key that may be null. -/
def nullable {α : Type} (key : α → HistoryKey) (value : Option α) : List (HistoryKey × OnDelete) :=
  (value.map fun found => (key found, .noAction)).toList

theorem mem_nullable {α : Type} {key : α → HistoryKey} {value : Option α}
    {ref : HistoryKey × OnDelete} : ref ∈ nullable key value ↔
      ∃ found, value = some found ∧ ref = (key found, .noAction) := by
  cases value <;> simp [nullable]

/-- The foreign keys of `HISTORY_SCHEMA_SQL`. -/
def HistoryRow.refs : HistoryRow → List (HistoryKey × OnDelete)
  | .content _ _ => []
  | .session _ _ => []
  | .configuration _ snapshotDigest _ => [(.content snapshotDigest, .noAction)]
  | .execution row =>
    nullable .session row.canonicalSessionId ++ [(.content row.taskContentDigest, .noAction)] ++
      nullable .execution row.parentExecutionId ++ nullable .configuration row.configurationId ++
      nullable .record row.terminalRecordId
  | .displayPosition _ _ executionId => [(.execution executionId, .cascade)]
  | .message executionId _ digest => [(.execution executionId, .cascade), (.content digest, .noAction)]
  | .turn sessionId _ _ executionId =>
    [(.session sessionId, .cascade), (.execution executionId, .noAction)]
  | .conversationMessage sessionId _ turnNumber executionId executionOrdinal =>
    [(.session sessionId, .cascade), (.turnNumber sessionId turnNumber, .noAction),
      (.message executionId executionOrdinal, .noAction)]
  | .modelChange sessionId _ _ => [(.session sessionId, .cascade)]
  | .record _ executionId _ digest _ =>
    (.execution executionId, .cascade) :: nullable .content digest
  | .relation recordId _ _ _ => [(.record recordId, .cascade)]
  | .textState executionId _ _ _ _ => [(.execution executionId, .cascade)]
  | .context executionId _ => [(.execution executionId, .cascade)]
  | .diagnostic _ executionId digest =>
    [(.execution executionId, .cascade), (.content digest, .noAction)]
  | .recallRelation source target recordId =>
    [(.execution source, .cascade), (.execution target, .noAction), (.record recordId, .noAction)]
  | .commandReceipt _ _ _ _ _ => []
  | .controlFact executionId _ => [(.execution executionId, .cascade)]
  | .followUp _ _ _ _ digest _ _ => [(.content digest, .noAction)]
  | .coreCursor _ _ _ => []
  | .readCursor _ _ latest _ => nullable .execution latest

def schema : Schema HistoryRow HistoryKey := ⟨HistoryRow.keys, HistoryRow.refs⟩

abbrev HistoryDb := List HistoryRow

/-! ## Writes -/

/-- `/^[0-9a-f]{8}-[0-9a-f]{4}-4[0-9a-f]{3}-[89ab][0-9a-f]{3}-[0-9a-f]{12}$/` -/
def uuidV4 : List (Char → Bool) :=
  let hex : Char → Bool := fun c => c.isDigit || ('a' ≤ c && c ≤ 'f')
  List.replicate 8 hex ++ [(· == '-')] ++ List.replicate 4 hex ++ [(· == '-'), (· == '4')] ++
    List.replicate 3 hex ++ [(· == '-'), fun c => c == '8' || c == '9' || c == 'a' || c == 'b'] ++
    List.replicate 3 hex ++ [(· == '-')] ++ List.replicate 12 hex

def isSessionId (value : String) : Bool :=
  value.toList.length == uuidV4.length && (List.zipWith (fun p c => p c) uuidV4 value.toList).all id

/-- The Data session of a child run. -/
def childCorrelation (parentExecutionId runId : String) : String :=
  "parent:" ++ parentExecutionId ++ ":child:" ++ runId

/-- What `admit` begins. The canonical session is that of a durable owner, which has no parent: only a
child run names one, and its session is opened without persistence. The id of a run is fresh. -/
def Admitted (row : ExecutionRow) : Prop :=
  row.terminalRecordId = none ∧
    ((row.canonicalSessionId = some row.sessionCorrelation ∧ row.parentExecutionId = none) ∨
      (row.canonicalSessionId = none ∧ row.parentExecutionId = none) ∨
      (row.canonicalSessionId = none ∧ ∃ parent, row.parentExecutionId = some parent ∧
        parent ≠ row.executionId ∧
        row.sessionCorrelation = childCorrelation parent row.executionId))

/-- An execution of the session. -/
def Canonical (db : HistoryDb) (sessionId executionId : String) : Prop :=
  ∃ row, .execution row ∈ db ∧ row.executionId = executionId ∧ row.canonicalSessionId = some sessionId

/-- What the functions of the store check before they insert a row. -/
def Insertable (db : HistoryDb) : HistoryRow → Prop
  | .session sessionId _ => isSessionId sessionId = true
  | .execution row => Admitted row
  -- `beginExecutionWithAdmission`
  | .displayPosition correlation _ executionId =>
    ∃ row, .execution row ∈ db ∧ row.executionId = executionId ∧ row.sessionCorrelation = correlation
  -- `adoptCanonicalInTransaction`
  | .turn sessionId _ _ executionId => Canonical db sessionId executionId
  | .conversationMessage sessionId _ _ executionId _ => Canonical db sessionId executionId
  | .record recordId executionId ordinal _ _ =>
    recordId = .semantic executionId ordinal ∨ ∃ text, recordId = .fresh text
  -- `beginExecution`
  | .recallRelation _ target recordId => recordId = .semantic target 2
  | _ => True

/-- What an UPDATE, or an INSERT that meets a row with its key, makes of a row. -/
inductive Updated (db : HistoryDb) : HistoryRow → HistoryRow → Prop
  | session {sessionId rest rest' : String} :
      Updated db (.session sessionId rest) (.session sessionId rest')
  | execution {row : ExecutionRow} {rest : String} :
      Updated db (.execution row) (.execution { row with rest := rest })
  /-- The terminal record is one of the records that were appended. -/
  | terminal {row : ExecutionRow} {recordId : RecordId} {ordinal : Nat} {digest : Option String}
      {rest rest' : String} :
      .record recordId row.executionId ordinal digest rest' ∈ db →
      Updated db (.execution row) (.execution { row with terminalRecordId := some recordId, rest := rest })
  | relation {recordId target : RecordId} {ordinal : Nat} {rest rest' : String} :
      Updated db (.relation recordId ordinal target rest) (.relation recordId ordinal target rest')
  | textState {executionId lane rest rest' : String} {modelStep requestOrdinal : Int} :
      Updated db (.textState executionId lane modelStep requestOrdinal rest)
        (.textState executionId lane modelStep requestOrdinal rest')
  | context {executionId rest rest' : String} :
      Updated db (.context executionId rest) (.context executionId rest')
  | diagnostic {diagnosticId executionId executionId' digest digest' : String} :
      Updated db (.diagnostic diagnosticId executionId digest)
        (.diagnostic diagnosticId executionId' digest')
  | controlFact {executionId rest rest' : String} :
      Updated db (.controlFact executionId rest) (.controlFact executionId rest')
  | followUp {coreEpoch queueId correlation digest rest rest' : String} {parent : Option String}
      {started started' : Option String} :
      Updated db (.followUp coreEpoch queueId correlation parent digest started rest)
        (.followUp coreEpoch queueId correlation parent digest started' rest')
  | coreCursor {coreEpoch sessionId rest rest' : String} :
      Updated db (.coreCursor coreEpoch sessionId rest) (.coreCursor coreEpoch sessionId rest')
  | readCursor {dataInstanceId correlation rest rest' : String} {latest latest' : Option String} :
      Updated db (.readCursor dataInstanceId correlation latest rest)
        (.readCursor dataInstanceId correlation latest' rest')

/-- The rows that are deleted one by one. -/
def Droppable : HistoryRow → Prop
  | .textState _ _ _ _ _ => True
  | .diagnostic _ _ _ => True
  | _ => False

def replaceRow (old new row : HistoryRow) : HistoryRow := if row = old then new else row

end HistoryTables

end Henji
