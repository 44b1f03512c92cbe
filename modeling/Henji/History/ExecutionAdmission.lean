import Henji.Json
import Henji.Library.InsMap

/-!
# Admission of an execution

`beginExecution` writes an execution in four steps, each committed by itself: the session row and
the configuration, the execution row and its display position, the semantic records, and the recall
relation. Any statement may fail; a transaction in which one fails is rolled back.

`DataSessionOwner.admitExecution` calls it with the pending model changes of a session that has no
row yet and forgets them after it returned.
-/

namespace Henji.Admission

abbrev SessionId := String
abbrev ExecutionId := String

def maxSafeInteger : Int := 9007199254740991

/-- `Number.isSafeInteger(value)` of a value that is at least `least`. -/
def isSafeFrom (least value : Int) : Bool := decide (least ≤ value) && decide (value ≤ maxSafeInteger)

/-! ## Inputs -/

structure ModelSelection where
  provider : String
  modelId : String
  effort : String
  api : String
  authProfile : String
  registrationId : Option String
deriving DecidableEq, Repr

/-- The registration is no part of a stored selection's identity. -/
def sameStoredSessionSelection (left right : ModelSelection) : Bool :=
  left.provider == right.provider && left.modelId == right.modelId && left.effort == right.effort &&
    left.api == right.api && left.authProfile == right.authProfile

structure AgentConfigurationChoice where
  name : Option String
  file : Option String
deriving DecidableEq, Repr

structure SessionModelChange where
  effectiveFromTurn : Int
  changedAt : String
  selection : ModelSelection
deriving DecidableEq, Repr

structure WorkerSessionMetadataWrite where
  sessionId : SessionId
  workspaceRoot : String
  agentChoice : AgentConfigurationChoice
  createdAt : String
  updatedAt : String
  title : Option String
  stateRevision : Int
  nextTurn : Int
  activeModel : ModelSelection
  modelChangesToAppend : List SessionModelChange
deriving DecidableEq, Repr

/-- A configuration by its id and its JSON text. -/
structure WorkerConfigurationSnapshot where
  configurationId : String
  json : JsText
deriving DecidableEq, Repr

/-- A recalled context; `value` is `none` where it is not finite JSON. -/
structure RecalledExecutionContext where
  sourceExecutionId : ExecutionId
  value : Option Json
deriving DecidableEq

structure BeginExecutionInput where
  taskId : String
  executionId : ExecutionId
  createdAt : String
  sessionCorrelation : SessionId
  command : String
  canonicalSessionId : Option SessionId
  turn : Int
  task : JsText
  baseStateRevision : Int
  agent : String
  model : ModelSelection
  configurationId : String
  configuration : WorkerConfigurationSnapshot
  maxSteps : Nat
  instanceCorrelation : Option String
  workerGeneration : Option String
  recalledContext : Option RecalledExecutionContext
  parentExecutionId : Option ExecutionId
  spawnCallId : Option String
  runtimeMessageStart : Option Int
  initialSession : Option WorkerSessionMetadataWrite
deriving DecidableEq

/-! ## Tables -/

structure SessionRow where
  workspaceRoot : String
  agentChoice : AgentConfigurationChoice
  createdAt : String
  updatedAt : String
  title : Option String
  stateRevision : Int
  nextTurn : Int
  activeModel : ModelSelection
  messageCount : Int
  modelChangeCount : Nat
  turnCount : Nat
  privateStateFromTurn : Int
deriving DecidableEq, Repr

structure ExecutionRow where
  canonicalSessionId : Option SessionId
  sessionCorrelation : SessionId
  taskId : String
  taskContentDigest : String
  parentExecutionId : Option ExecutionId
  spawnCallId : Option String
  turnNumber : Int
  baseRevision : Int
  baseMessageCount : Int
  createdAt : String
  agentName : String
  configurationId : String
  model : ModelSelection
  maxSteps : Nat
  instanceCorrelation : Option String
  workerGeneration : Option String
  active : Bool
  terminalRecordId : Option String
  latestOrdinal : Nat
  occurrenceCount : Nat
  eventCount : Nat
deriving DecidableEq, Repr

inductive SemanticPayload where
  | admitted (taskId : String) (executionId : ExecutionId) (sessionCorrelation : SessionId)
      (turn : Int) (task : JsText) (command : String)
  | recall (sourceExecutionId targetExecutionId : ExecutionId) (context : Json)
deriving DecidableEq

inductive SemanticKind where
  | execution_admission
  | recall_projection
deriving DecidableEq, Repr

structure SemanticRow where
  executionId : ExecutionId
  ordinal : Nat
  kind : SemanticKind
  observedAt : String
  payload : SemanticPayload
deriving DecidableEq

structure Tables where
  contents : InsMap String (List UInt8)
  configurations : InsMap String String
  sessions : InsMap SessionId SessionRow
  sessionModelChanges : InsMap (SessionId × Nat) SessionModelChange
  executions : InsMap ExecutionId ExecutionRow
  executionDisplayPositions : InsMap (SessionId × Nat) ExecutionId
  semanticRecords : InsMap String SemanticRow
  recallRelations : InsMap (ExecutionId × ExecutionId) String
deriving DecidableEq

/-! ## Statements -/

inductive HistoryErrorCode where
  | history_invalid
  | history_io_failure
deriving DecidableEq, Repr

/-- The points at which admission can fail on its own, in order. -/
inductive Statement where
  | acquireLock
  | beginSession
  | selectSession
  | selectModelChange
  | insertSession
  | insertModelChange (index : Nat)
  | updateSession
  | selectBase
  | insertConfigurationContent
  | selectConfigurationContent
  | insertConfiguration
  | selectConfiguration
  | commitSession
  | beginAdmission
  | insertTaskContent
  | selectTaskContent
  | selectRevision
  | insertExecution
  | selectDisplayOrdinal
  | insertDisplayPosition
  | commitAdmission
  | beginAppend
  | selectExecution
  | insertRecord (ordinal : Nat)
  | selectRelations (ordinal : Nat)
  | resolveRelations (ordinal : Nat)
  | updateEventCount
  | updateLatestOrdinal
  | commitAppend
  | insertRecallRelation
deriving DecidableEq, Repr

/-- The checks of stored values that other modules declare. -/
structure Formats where
  isSessionId : String → Bool
  canonicalAbsolutePath : String → Bool
  validAgentChoice : AgentConfigurationChoice → Bool
  canonicalTimestamp : String → Bool
  parseDate : String → Int
  isSessionTitle : String → Bool
  isStoredModelSelection : ModelSelection → Bool

/-- A store of one workspace; `faults` are the statements that fail in a call. -/
structure SqliteHistoryStore where
  workspaceRoot : String
  formats : Formats
  exactByteDigest : List UInt8 → String
  faults : Statement → Bool

def require (accepted : Bool) (error : HistoryErrorCode) : Except HistoryErrorCode Unit :=
  if accepted then .ok () else .error error

namespace SqliteHistoryStore

variable (store : SqliteHistoryStore)

/-- A statement that may fail; the failure of the database is reported as an I/O failure. -/
def statement (statement : Statement) : Except HistoryErrorCode Unit :=
  require (!store.faults statement) .history_io_failure

/-- A statement of a branch. -/
def statementWhen (condition : Bool) (statement : Statement) : Except HistoryErrorCode Unit :=
  require (!(condition && store.faults statement)) .history_io_failure

/-- The contents with the bytes under their digest. -/
def addContent (bytes : List UInt8) (contents : InsMap String (List UInt8)) :
    InsMap String (List UInt8) :=
  if contents.has (store.exactByteDigest bytes) then contents
  else contents.set (store.exactByteDigest bytes) bytes

/-- The digest of the bytes does not stand for bytes of another length. -/
def contentFits (bytes : List UInt8) (contents : InsMap String (List UInt8)) : Bool :=
  ((store.addContent bytes contents).get? (store.exactByteDigest bytes)).any
    fun stored => stored.length == bytes.length

def writeContent (insert select : Statement) (bytes : List UInt8) (tables : Tables) :
    Except HistoryErrorCode Tables := do
  store.statement insert
  store.statement select
  require (store.contentFits bytes tables.contents) .history_io_failure
  return { tables with contents := store.addContent bytes tables.contents }

/-! ## The session row -/

def wellFormedUpdate (update : WorkerSessionMetadataWrite) : Bool :=
  store.formats.isSessionId update.sessionId && update.workspaceRoot == store.workspaceRoot &&
    store.formats.canonicalAbsolutePath update.workspaceRoot &&
    store.formats.validAgentChoice update.agentChoice &&
    store.formats.canonicalTimestamp update.createdAt &&
    store.formats.canonicalTimestamp update.updatedAt &&
    decide (store.formats.parseDate update.createdAt ≤ store.formats.parseDate update.updatedAt) &&
    update.title.all store.formats.isSessionTitle && isSafeFrom 1 update.stateRevision &&
    isSafeFrom 1 update.nextTurn && store.formats.isStoredModelSelection update.activeModel

/-- The last model change of a session. -/
def lastModelChange (tables : Tables) (sessionId : SessionId) : Option (Nat × SessionModelChange) :=
  tables.sessionModelChanges.entries.foldl (fun last entry =>
    if entry.1.1 = sessionId ∧ last.all (fun change => change.1 < entry.1.2) then
      some (entry.1.2, entry.2)
    else last) none

/-- A row that is there is one revision behind the update and has its last change. -/
def fitsRow (update : WorkerSessionMetadataWrite) (existing : Option SessionRow)
    (previousChange : Option (Nat × SessionModelChange)) : Bool :=
  match existing with
  | none => !update.modelChangesToAppend.isEmpty
  | some row =>
    decide (1 ≤ row.modelChangeCount) &&
      previousChange.any (fun change => change.1 + 1 == row.modelChangeCount) &&
      row.workspaceRoot == update.workspaceRoot && row.createdAt == update.createdAt &&
      row.agentChoice == update.agentChoice && row.stateRevision + 1 == update.stateRevision &&
      row.nextTurn == update.nextTurn

/-- The loop over the changes to append: the last selection and the turn from which private state
counts, or `none` where a change is not accepted. -/
def checkChanges (nextTurn : Int) : List SessionModelChange → Int → Option ModelSelection → Int →
    Option (Option ModelSelection × Int)
  | [], _, selection, privateStateFromTurn => some (selection, privateStateFromTurn)
  | change :: changes, effectiveTurn, selection, privateStateFromTurn =>
    if !isSafeFrom 1 change.effectiveFromTurn || change.effectiveFromTurn < effectiveTurn ||
        nextTurn < change.effectiveFromTurn ||
        !store.formats.canonicalTimestamp change.changedAt ||
        !store.formats.isStoredModelSelection change.selection then none
    else
      checkChanges nextTurn changes change.effectiveFromTurn (some change.selection)
        (if selection.any fun previous => previous.provider != change.selection.provider ||
            previous.modelId != change.selection.modelId then change.effectiveFromTurn
          else privateStateFromTurn)

/-- The checks of `saveSessionMetadataTx`: the turn from which private state counts. -/
def checkMetadata (update : WorkerSessionMetadataWrite) (existing : Option SessionRow)
    (previousChange : Option (Nat × SessionModelChange)) : Option Int :=
  if !fitsRow update existing previousChange then none
  else match store.checkChanges update.nextTurn update.modelChangesToAppend
      ((previousChange.map fun change => change.2.effectiveFromTurn).getD 0)
      (previousChange.map fun change => change.2.selection)
      ((existing.map SessionRow.privateStateFromTurn).getD 1) with
    | none => none
    | some (selection, privateStateFromTurn) =>
      if selection.any (sameStoredSessionSelection · update.activeModel) &&
          isSafeFrom 1 privateStateFromTurn && decide (privateStateFromTurn ≤ update.nextTurn) then
        some privateStateFromTurn
      else none

def newSessionRow (update : WorkerSessionMetadataWrite) : SessionRow where
  workspaceRoot := update.workspaceRoot
  agentChoice := update.agentChoice
  createdAt := update.createdAt
  updatedAt := update.updatedAt
  title := update.title
  stateRevision := update.stateRevision
  nextTurn := update.nextTurn
  activeModel := update.activeModel
  messageCount := 0
  modelChangeCount := 0
  turnCount := 0
  privateStateFromTurn := 1

/-- The inserts of the changes, from the index on; a key that is there fails. -/
def insertModelChanges (sessionId : SessionId) (changeCount : Nat) :
    List SessionModelChange → Nat → InsMap (SessionId × Nat) SessionModelChange →
      Except HistoryErrorCode (InsMap (SessionId × Nat) SessionModelChange)
  | [], _, table => return table
  | change :: changes, index, table => do
    store.statement (.insertModelChange index)
    require (!table.has (sessionId, changeCount + index)) .history_io_failure
    insertModelChanges sessionId changeCount changes (index + 1)
      (table.set (sessionId, changeCount + index) change)

/-- The session row of an update and what it replaces. -/
def existingSession (update : WorkerSessionMetadataWrite) (tables : Tables) :
    Option SessionRow × Option (Nat × SessionModelChange) :=
  let existing := tables.sessions.get? update.sessionId
  (existing, if (existing.map SessionRow.modelChangeCount).getD 0 = 0 then none
    else lastModelChange tables update.sessionId)

def saveSessionMetadataTx (update : WorkerSessionMetadataWrite) (tables : Tables) :
    Except HistoryErrorCode Tables := do
  require (store.wellFormedUpdate update) .history_io_failure
  store.statement .selectSession
  let (existing, previousChange) := existingSession update tables
  let changeCount := (existing.map SessionRow.modelChangeCount).getD 0
  store.statementWhen (changeCount != 0) .selectModelChange
  match store.checkMetadata update existing previousChange with
  | none => .error .history_io_failure
  | some privateStateFromTurn =>
    store.statementWhen existing.isNone .insertSession
    let row := existing.getD (newSessionRow update)
    let changes ← store.insertModelChanges update.sessionId changeCount
      update.modelChangesToAppend 0 tables.sessionModelChanges
    store.statement .updateSession
    return { tables with
      sessions := tables.sessions.set update.sessionId { row with
        updatedAt := update.updatedAt
        title := update.title
        stateRevision := update.stateRevision
        nextTurn := update.nextTurn
        activeModel := update.activeModel
        modelChangeCount := changeCount + update.modelChangesToAppend.length
        privateStateFromTurn := privateStateFromTurn }
      sessionModelChanges := changes }

/-! ## The four steps -/

def writeInitialSession (input : BeginExecutionInput) (tables : Tables) :
    Except HistoryErrorCode Tables :=
  match input.initialSession with
  | none => return tables
  | some update => do
    require (input.canonicalSessionId == some update.sessionId &&
      input.baseStateRevision == update.stateRevision) .history_invalid
    store.saveSessionMetadataTx update tables

/-- The message count that an execution starts from. -/
def readBase (input : BeginExecutionInput) (tables : Tables) : Except HistoryErrorCode Int :=
  match input.canonicalSessionId with
  | none => return input.runtimeMessageStart.getD 0
  | some sessionId => do
    store.statement .selectBase
    match tables.sessions.get? sessionId with
    | none => .error .history_invalid
    | some row =>
      require (row.stateRevision == input.baseStateRevision) .history_invalid
      return row.messageCount

def writeConfiguration (input : BeginExecutionInput) (tables : Tables) :
    Except HistoryErrorCode Tables := do
  let bytes := encodeUtf8 input.configuration.json
  let tables ← store.writeContent .insertConfigurationContent .selectConfigurationContent bytes
    tables
  store.statement .insertConfiguration
  let configurations :=
    if tables.configurations.has input.configurationId then tables.configurations
    else tables.configurations.set input.configurationId (store.exactByteDigest bytes)
  store.statement .selectConfiguration
  require (configurations.get? input.configurationId == some (store.exactByteDigest bytes))
    .history_invalid
  return { tables with configurations := configurations }

/-- The session row and the configuration, with the checks before them. -/
def sessionTransaction (input : BeginExecutionInput) (tables : Tables) :
    Except HistoryErrorCode (Int × Tables) := do
  require (input.configuration.configurationId == input.configurationId) .history_invalid
  store.statementWhen input.canonicalSessionId.isNone .acquireLock
  require (input.canonicalSessionId.isSome || isSafeFrom 0 (input.runtimeMessageStart.getD 0))
    .history_invalid
  store.statement .beginSession
  let tables ← store.writeInitialSession input tables
  let baseMessageCount ← store.readBase input tables
  let tables ← store.writeConfiguration input tables
  store.statement .commitSession
  return (baseMessageCount, tables)

/-- `coalesce(max(execution_ordinal), -1) + 1` of a session. -/
def nextDisplayOrdinal (tables : Tables) (sessionCorrelation : SessionId) : Nat :=
  tables.executionDisplayPositions.entries.foldl
    (fun next entry => if entry.1.1 = sessionCorrelation then max next (entry.1.2 + 1) else next) 0

def newExecutionRow (input : BeginExecutionInput) (taskDigest : String) (baseMessageCount : Int) :
    ExecutionRow where
  canonicalSessionId := input.canonicalSessionId
  sessionCorrelation := input.sessionCorrelation
  taskId := input.taskId
  taskContentDigest := taskDigest
  parentExecutionId := input.parentExecutionId
  spawnCallId := input.spawnCallId
  turnNumber := input.turn
  baseRevision := input.baseStateRevision
  baseMessageCount := baseMessageCount
  createdAt := input.createdAt
  agentName := input.agent
  configurationId := input.configurationId
  model := input.model
  maxSteps := input.maxSteps
  instanceCorrelation := input.instanceCorrelation
  workerGeneration := input.workerGeneration
  active := true
  terminalRecordId := none
  latestOrdinal := 0
  occurrenceCount := 0
  eventCount := 0

/-- The revision of the canonical session is checked once more. -/
def checkRevision (input : BeginExecutionInput) (tables : Tables) : Except HistoryErrorCode Unit :=
  match input.canonicalSessionId with
  | none => return ()
  | some sessionId => do
    store.statement .selectRevision
    require ((tables.sessions.get? sessionId).any fun row =>
      row.stateRevision == input.baseStateRevision) .history_io_failure

/-- `beginExecutionWithAdmission`: the execution row and its display position. -/
def beginExecutionWithAdmission (input : BeginExecutionInput) (baseMessageCount : Int)
    (tables : Tables) : Except HistoryErrorCode Tables := do
  require (input.canonicalSessionId.all (· == input.sessionCorrelation)) .history_io_failure
  require (isSafeFrom 0 input.baseStateRevision) .history_io_failure
  store.statement .beginAdmission
  let bytes := encodeUtf8 input.task
  let tables ← store.writeContent .insertTaskContent .selectTaskContent bytes tables
  store.checkRevision input tables
  store.statement .insertExecution
  -- The primary key and the reference to the parent; the other references were just written.
  require (!tables.executions.has input.executionId &&
    input.parentExecutionId.all fun parent =>
      parent == input.executionId || tables.executions.has parent) .history_io_failure
  let executions := tables.executions.set input.executionId
    (newExecutionRow input (store.exactByteDigest bytes) baseMessageCount)
  store.statement .selectDisplayOrdinal
  store.statement .insertDisplayPosition
  require (tables.executionDisplayPositions.entries.all fun entry => entry.2 != input.executionId)
    .history_io_failure
  store.statement .commitAdmission
  return { tables with
    executions := executions
    executionDisplayPositions := tables.executionDisplayPositions.set
      (input.sessionCorrelation, nextDisplayOrdinal tables input.sessionCorrelation)
      input.executionId }

def recordId (executionId : ExecutionId) (ordinal : Nat) : String :=
  executionId ++ ":semantic:" ++ toString ordinal

def admissionRow (input : BeginExecutionInput) : SemanticRow where
  executionId := input.executionId
  ordinal := 1
  kind := .execution_admission
  observedAt := input.createdAt
  payload := .admitted input.taskId input.executionId input.sessionCorrelation input.turn input.task
    input.command

def recallRow (input : BeginExecutionInput) (source : ExecutionId) (context : Json) :
    SemanticRow where
  executionId := input.executionId
  ordinal := 2
  kind := .recall_projection
  observedAt := input.createdAt
  payload := .recall source input.executionId context

/-- The occurrences of an admission; `none` where the recalled context is not finite JSON. -/
def occurrencesOf (input : BeginExecutionInput) : Option (List SemanticRow) :=
  match input.recalledContext with
  | none => some [admissionRow input]
  | some context => context.value.map fun value =>
    [admissionRow input, recallRow input context.sourceExecutionId value]

/-- `nonempty` of the occurrence id and the time. -/
def validOccurrence (input : BeginExecutionInput) : Bool :=
  !input.executionId.toList.contains (Char.ofNat 0) &&
    !input.createdAt.isEmpty && !input.createdAt.toList.contains (Char.ofNat 0)

/-- The inserts of the occurrences; a record id or an ordinal that is there fails. -/
def insertRecords : List SemanticRow → InsMap String SemanticRow →
    Except HistoryErrorCode (InsMap String SemanticRow)
  | [], table => return table
  | row :: rows, table => do
    store.statement (.insertRecord row.ordinal)
    require (!table.has (recordId row.executionId row.ordinal) &&
      table.entries.all fun entry => entry.2.executionId != row.executionId ||
        entry.2.ordinal != row.ordinal) .history_io_failure
    store.statement (.selectRelations row.ordinal)
    store.statement (.resolveRelations row.ordinal)
    insertRecords rows (table.set (recordId row.executionId row.ordinal) row)

/-- `appendBatch` of the occurrences behind ordinal zero. -/
def appendAdmission (input : BeginExecutionInput) (tables : Tables) :
    Except HistoryErrorCode Tables := do
  require (validOccurrence input) .history_io_failure
  match occurrencesOf input with
  | none => .error .history_io_failure
  | some rows =>
    store.statement .beginAppend
    store.statement .selectExecution
    match tables.executions.get? input.executionId with
    | none => .error .history_io_failure
    | some row =>
      require (row.active && row.latestOrdinal == 0 && row.terminalRecordId.isNone)
        .history_io_failure
      let records ← store.insertRecords rows tables.semanticRecords
      store.statement .updateEventCount
      store.statement .updateLatestOrdinal
      store.statement .commitAppend
      return { tables with
        semanticRecords := records
        executions := tables.executions.set input.executionId { row with
          eventCount := 1
          latestOrdinal := rows.length
          occurrenceCount := row.occurrenceCount + rows.length } }

/-- The recall relation, which is committed by its own insert. -/
def insertRecallRelation (input : BeginExecutionInput) (tables : Tables) :
    Except HistoryErrorCode Tables :=
  match input.recalledContext with
  | none => return tables
  | some context => do
    store.statement .insertRecallRelation
    require (tables.executions.has context.sourceExecutionId &&
      tables.executions.has input.executionId &&
      tables.semanticRecords.has (recordId input.executionId 2) &&
      !tables.recallRelations.has (context.sourceExecutionId, input.executionId) &&
      tables.recallRelations.entries.all fun entry => entry.2 != recordId input.executionId 2)
      .history_io_failure
    return { tables with
      recallRelations := tables.recallRelations.set (context.sourceExecutionId, input.executionId)
        (recordId input.executionId 2) }

/-- What a call answers, and the tables after it: each step that went through stays. -/
def beginExecution (input : BeginExecutionInput) (tables : Tables) :
    Except HistoryErrorCode Unit × Tables :=
  match store.sessionTransaction input tables with
  | .error error => (.error error, tables)
  | .ok (baseMessageCount, withSession) =>
    match store.beginExecutionWithAdmission input baseMessageCount withSession with
    | .error error => (.error error, withSession)
    | .ok withExecution =>
      match store.appendAdmission input withExecution with
      | .error error => (.error error, withExecution)
      | .ok withRecords =>
        match store.insertRecallRelation input withRecords with
        | .error error => (.error error, withRecords)
        | .ok tables => (.ok (), tables)

end SqliteHistoryStore

/-! ## The owner of a session -/

structure WorkerCorrelation where
  session : SessionId
  instanceCorrelation : String
  workerGeneration : String
  baseStateRevision : Int
  command : String
deriving DecidableEq, Repr

structure DataExecutionAdmissionInput where
  executionId : ExecutionId
  taskId : String
  task : JsText
  correlation : WorkerCorrelation
  createdAt : String
  agent : String
  configuration : WorkerConfigurationSnapshot
  maxSteps : Nat
  recalledContext : Option RecalledExecutionContext
  parentExecutionId : Option ExecutionId
  spawnCallId : Option String
deriving DecidableEq

/-- The authority of a session and its admitted executions. The pending model changes are those of
a session that has no row yet. -/
structure DataSessionOwner where
  sessionId : SessionId
  workspaceRoot : String
  agentChoice : AgentConfigurationChoice
  createdAt : String
  title : Option String
  stateRevision : Int
  nextTurn : Int
  canonicalMessageCount : Int
  modelSelection : ModelSelection
  pendingModelChanges : List SessionModelChange
  durableCanonicalHistory : Bool
  executions : List ExecutionId
  pendingRecall : Option RecalledExecutionContext
deriving DecidableEq

inductive AdmitError where
  | already_admitted
  | correlation_mismatch
  | history (code : HistoryErrorCode)
deriving DecidableEq, Repr

namespace DataSessionOwner

variable (owner : DataSessionOwner)

def initialMetadataWrite : Option WorkerSessionMetadataWrite :=
  if owner.pendingModelChanges.isEmpty then none
  else some {
    sessionId := owner.sessionId
    workspaceRoot := owner.workspaceRoot
    agentChoice := owner.agentChoice
    createdAt := owner.createdAt
    updatedAt := owner.createdAt
    title := owner.title
    stateRevision := owner.stateRevision
    nextTurn := owner.nextTurn
    activeModel := owner.modelSelection
    modelChangesToAppend := owner.pendingModelChanges }

def metadataWriteCommitted : DataSessionOwner := { owner with pendingModelChanges := [] }

/-- The input that `admit` builds for the store. -/
def beginInput (input : DataExecutionAdmissionInput) : BeginExecutionInput where
  taskId := input.taskId
  executionId := input.executionId
  createdAt := input.createdAt
  sessionCorrelation := owner.sessionId
  command := input.correlation.command
  canonicalSessionId := if owner.durableCanonicalHistory then some owner.sessionId else none
  turn := owner.nextTurn
  task := input.task
  baseStateRevision := input.correlation.baseStateRevision
  agent := input.agent
  model := owner.modelSelection
  configurationId := input.configuration.configurationId
  configuration := input.configuration
  maxSteps := input.maxSteps
  instanceCorrelation := some input.correlation.instanceCorrelation
  workerGeneration := some input.correlation.workerGeneration
  recalledContext := input.recalledContext.or owner.pendingRecall
  parentExecutionId := input.parentExecutionId
  spawnCallId := input.spawnCallId
  runtimeMessageStart := some owner.canonicalMessageCount
  initialSession := if owner.durableCanonicalHistory then owner.initialMetadataWrite else none

/-- `admit` of the source: what it answers, the owner and the tables after it. -/
def admitExecution (store : SqliteHistoryStore) (input : DataExecutionAdmissionInput)
    (tables : Tables) : Except AdmitError Unit × DataSessionOwner × Tables :=
  if input.executionId ∈ owner.executions then (.error .already_admitted, owner, tables)
  else if input.correlation.session ≠ owner.sessionId ∨
      input.correlation.baseStateRevision ≠ owner.stateRevision then
    (.error .correlation_mismatch, owner, tables)
  else
    let begin := owner.beginInput input
    match store.beginExecution begin tables with
    | (.error error, tables) => (.error (.history error), owner, tables)
    | (.ok (), tables) =>
      let owner := if begin.initialSession.isSome then owner.metadataWriteCommitted else owner
      (.ok (), { owner with
        executions := input.executionId :: owner.executions
        pendingRecall := if input.recalledContext.isNone then none else owner.pendingRecall },
        tables)

end DataSessionOwner

end Henji.Admission
