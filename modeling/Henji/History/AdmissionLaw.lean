import Henji.History.ExecutionAdmission

/-!
# Which failed admissions leave a row

A step of an admission goes through exactly when its inputs fit the tables before the call and none
of its statements fails (`sessionTransaction_ok`, `beginExecutionWithAdmission_ok`,
`appendAdmission_ok`, `insertRecallRelation_ok`). A failure behind the first commit leaves the
session row of a new session, and a failure behind the second one the execution row.

`admission_all_or_nothing`: a failed call leaves the six tables, and a later admission answers as it
would have without it, exactly when no step fails behind a commit that wrote to them.
-/

namespace Henji.Admission

/-! ## Results that return -/

section Results

variable {ε α β : Type} {x : Except ε α} {f : α → Except ε β} {b : β}

theorem bind_ok_iff : (x >>= f) = .ok b ↔ ∃ a, x = .ok a ∧ f a = .ok b := by
  cases x with
  | error e => simp [bind, Except.bind]
  | ok a => simp [bind, Except.bind]

theorem return_ok_iff {a b : α} : (return a : Except ε α) = .ok b ↔ a = b := Except.ok.injEq a b ▸ Iff.rfl

end Results

@[simp] theorem require_ok {accepted : Bool} {error : HistoryErrorCode} {u : Unit} :
    require accepted error = .ok u ↔ accepted = true := by
  cases accepted <;> simp [require]

namespace SqliteHistoryStore

variable {store : SqliteHistoryStore}

@[simp] theorem statement_ok {s : Statement} {u : Unit} :
    store.statement s = .ok u ↔ store.faults s = false := by
  simp [statement]

@[simp] theorem statementWhen_ok {condition : Bool} {s : Statement} {u : Unit} :
    store.statementWhen condition s = .ok u ↔ (condition = true → store.faults s = false) := by
  cases condition <;> simp [statementWhen]

theorem writeContent_ok {insert select : Statement} {bytes : List UInt8} {tables after : Tables} :
    store.writeContent insert select bytes tables = .ok after ↔
      store.faults insert = false ∧ store.faults select = false ∧
        store.contentFits bytes tables.contents = true ∧
          { tables with contents := store.addContent bytes tables.contents } = after := by
  simp only [writeContent, bind_ok_iff, statement_ok, require_ok, return_ok_iff, exists_const]

/-! ## The session row -/

/-- The inserts of model changes go through when no statement fails and no key is there. -/
theorem insertModelChanges_ok {sessionId : SessionId} {changeCount index : Nat}
    {changes : List SessionModelChange} {table : InsMap (SessionId × Nat) SessionModelChange} :
    (∃ after, store.insertModelChanges sessionId changeCount changes index table = .ok after) ↔
      ∀ i, index ≤ i → i < index + changes.length →
        store.faults (.insertModelChange i) = false ∧ table.has (sessionId, changeCount + i) = false := by
  induction changes generalizing index table with
  | nil =>
    refine ⟨fun _ i hle hlt => ?_, fun _ => ⟨table, rfl⟩⟩
    simp only [List.length_nil] at hlt
    omega
  | cons change changes ih =>
    simp only [insertModelChanges, bind_ok_iff, statement_ok, require_ok, Bool.not_eq_true']
    constructor
    · rintro ⟨after, -, hfault, -, hkey, hrest⟩ i hle hlt
      rcases Nat.eq_or_lt_of_le hle with rfl | hlt'
      · exact ⟨hfault, hkey⟩
      · simp only [List.length_cons] at hlt
        obtain ⟨hfault', hkey'⟩ := ih.mp ⟨after, hrest⟩ i hlt' (by omega)
        refine ⟨hfault', ?_⟩
        rw [InsMap.has, InsMap.get?_set] at hkey'
        split at hkey'
        · cases hkey'
        · exact hkey'
    · intro h
      obtain ⟨hfault, hkey⟩ := h index (Nat.le_refl _) (by simp)
      have hrest : ∀ i, index + 1 ≤ i → i < index + 1 + changes.length →
          store.faults (.insertModelChange i) = false ∧
            (table.set (sessionId, changeCount + index) change).has
              (sessionId, changeCount + i) = false := by
        intro i hle hlt
        obtain ⟨hfault', hkey'⟩ := h i (by omega) (by simp only [List.length_cons]; omega)
        refine ⟨hfault', ?_⟩
        have hne : (sessionId, changeCount + i) ≠ (sessionId, changeCount + index) := by
          intro heq
          have heq' := (Prod.mk.inj heq).2
          omega
        rw [InsMap.has, InsMap.get?_set_ne _ _ hne]
        exact hkey'
      obtain ⟨after, hafter⟩ := ih.mpr hrest
      exact ⟨after, (), hfault, (), hkey, hafter⟩

/-- The statements that write the metadata of a session. -/
def metadataStatements (update : WorkerSessionMetadataWrite) (existing : Option SessionRow) :
    List Statement :=
  .selectSession ::
    (if (existing.map SessionRow.modelChangeCount).getD 0 != 0 then [.selectModelChange] else []) ++
    (if existing.isNone then [.insertSession] else []) ++
    (List.range update.modelChangesToAppend.length).map .insertModelChange ++ [.updateSession]

/-- The metadata fits the row that is there, and no statement fails. -/
structure MetadataAccepted (store : SqliteHistoryStore) (update : WorkerSessionMetadataWrite)
    (tables : Tables) : Prop where
  wellFormed : store.wellFormedUpdate update = true
  checked : (store.checkMetadata update (existingSession update tables).1
    (existingSession update tables).2).isSome = true
  keys : ∀ i < update.modelChangesToAppend.length, tables.sessionModelChanges.has
    (update.sessionId, (((existingSession update tables).1.map SessionRow.modelChangeCount).getD 0)
      + i) = false
  runs : ∀ s ∈ metadataStatements update (existingSession update tables).1, store.faults s = false

theorem saveSessionMetadataTx_ok {update : WorkerSessionMetadataWrite} {tables : Tables} :
    (∃ after, store.saveSessionMetadataTx update tables = .ok after) ↔
      MetadataAccepted store update tables := by
  simp only [saveSessionMetadataTx, bind_ok_iff, require_ok, statement_ok]
  constructor
  · rintro ⟨after, _, hwell, _, hselect, _, hchange, h⟩
    rw [statementWhen_ok] at hchange
    cases hcheck : store.checkMetadata update (existingSession update tables).1
        (existingSession update tables).2 with
    | none =>
      rw [hcheck] at h
      cases h
    | some privateStateFromTurn =>
      rw [hcheck] at h
      simp only [bind_ok_iff] at h
      obtain ⟨_, hinsert, changes, hchanges, _, hupdate, -⟩ := h
      rw [statementWhen_ok] at hinsert
      have hall := insertModelChanges_ok.mp ⟨changes, hchanges⟩
      refine ⟨hwell, hcheck ▸ rfl, fun i hi => (hall i (Nat.zero_le i) (by omega)).2, ?_⟩
      intro s hs
      simp only [metadataStatements, List.mem_append, List.mem_cons, List.mem_map, List.mem_range,
        List.mem_ite_nil_right, List.not_mem_nil, or_false] at hs
      rcases hs with (((rfl | ⟨hne, rfl⟩) | ⟨hnone, rfl⟩) | ⟨i, hi, rfl⟩) | rfl
      · exact hselect
      · exact hchange hne
      · exact hinsert hnone
      · exact (hall i (Nat.zero_le i) (by omega)).1
      · exact statement_ok.mp hupdate
  · intro h
    obtain ⟨privateStateFromTurn, hcheck⟩ := Option.isSome_iff_exists.mp h.checked
    have hruns := h.runs
    simp only [metadataStatements, List.mem_append, List.mem_cons, List.mem_map, List.mem_range,
      List.mem_ite_nil_right, List.not_mem_nil, or_false] at hruns
    have hinserts : ∀ i, 0 ≤ i → i < 0 + update.modelChangesToAppend.length →
        store.faults (.insertModelChange i) = false ∧ tables.sessionModelChanges.has
          (update.sessionId, (((existingSession update tables).1.map
            SessionRow.modelChangeCount).getD 0) + i) = false := by
      intro i _ hi
      rw [Nat.zero_add] at hi
      exact ⟨hruns _ (.inl (.inr ⟨i, hi, rfl⟩)), h.keys i hi⟩
    obtain ⟨changes, hchanges⟩ := insertModelChanges_ok.mpr hinserts
    simp only [hcheck, bind_ok_iff, statementWhen_ok, statement_ok]
    exact ⟨_, (), h.wellFormed, (), hruns _ (.inl (.inl (.inl (.inl rfl)))), (),
      fun hne => hruns _ (.inl (.inl (.inl (.inr ⟨hne, rfl⟩)))), (),
      fun hnone => hruns _ (.inl (.inl (.inr ⟨hnone, rfl⟩))), changes, hchanges, (),
      hruns _ (.inr rfl), rfl⟩

/-- What writing the metadata leaves alone, and the revision that it stores. -/
theorem saveSessionMetadataTx_writes {update : WorkerSessionMetadataWrite} {tables after : Tables}
    (h : store.saveSessionMetadataTx update tables = .ok after) :
    after.executions = tables.executions ∧
      after.executionDisplayPositions = tables.executionDisplayPositions ∧
      after.semanticRecords = tables.semanticRecords ∧
      after.recallRelations = tables.recallRelations ∧ after.contents = tables.contents ∧
      after.configurations = tables.configurations ∧
      (∃ row, after.sessions.get? update.sessionId = some row ∧
        row.stateRevision = update.stateRevision) ∧
      ∀ row, tables.sessions.get? update.sessionId = some row →
        row.stateRevision + 1 = update.stateRevision := by
  simp only [saveSessionMetadataTx, bind_ok_iff, require_ok] at h
  obtain ⟨_, _, _, _, _, _, h⟩ := h
  cases hcheck : store.checkMetadata update (existingSession update tables).1
      (existingSession update tables).2 with
  | none =>
    rw [hcheck] at h
    cases h
  | some privateStateFromTurn =>
    rw [hcheck] at h
    simp only [bind_ok_iff] at h
    obtain ⟨_, _, changes, _, _, _, h⟩ := h
    cases h
    refine ⟨rfl, rfl, rfl, rfl, rfl, rfl, ⟨_, InsMap.get?_set_self _ _ _, rfl⟩, ?_⟩
    intro row hrow
    have hfits : fitsRow update (some row) (existingSession update tables).2 = true := by
      rw [checkMetadata] at hcheck
      split at hcheck
      · cases hcheck
      · next hfits =>
        have hexisting : (existingSession update tables).1 = some row := hrow
        rw [hexisting] at hfits
        simpa using hfits
    simp only [fitsRow, Bool.and_eq_true, beq_iff_eq] at hfits
    exact hfits.1.2

/-! ## The first step -/

theorem writeConfiguration_ok {input : BeginExecutionInput} {tables after : Tables} :
    store.writeConfiguration input tables = .ok after ↔
      store.faults .insertConfigurationContent = false ∧
      store.faults .selectConfigurationContent = false ∧
      store.faults .insertConfiguration = false ∧ store.faults .selectConfiguration = false ∧
      store.contentFits (encodeUtf8 input.configuration.json) tables.contents = true ∧
      (tables.configurations.get? input.configurationId).all
        (· == store.exactByteDigest (encodeUtf8 input.configuration.json)) = true ∧
      { tables with
        contents := store.addContent (encodeUtf8 input.configuration.json) tables.contents
        configurations := if tables.configurations.has input.configurationId then
            tables.configurations
          else tables.configurations.set input.configurationId
            (store.exactByteDigest (encodeUtf8 input.configuration.json)) } = after := by
  simp only [writeConfiguration, bind_ok_iff, writeContent_ok, statement_ok, require_ok,
    return_ok_iff]
  have hconfigured : ((if tables.configurations.has input.configurationId then
        tables.configurations
      else tables.configurations.set input.configurationId
        (store.exactByteDigest (encodeUtf8 input.configuration.json))).get?
          input.configurationId ==
        some (store.exactByteDigest (encodeUtf8 input.configuration.json))) =
      (tables.configurations.get? input.configurationId).all
        (· == store.exactByteDigest (encodeUtf8 input.configuration.json)) := by
    cases hget : tables.configurations.get? input.configurationId with
    | none => simp [InsMap.has, hget]
    | some digest => simp [InsMap.has, hget]
  constructor
  · rintro ⟨_, ⟨h₁, h₂, hfits, rfl⟩, _, h₃, _, h₄, _, hall, rfl⟩
    exact ⟨h₁, h₂, h₃, h₄, hfits, hconfigured ▸ hall, rfl⟩
  · rintro ⟨h₁, h₂, h₃, h₄, hfits, hall, rfl⟩
    exact ⟨_, ⟨h₁, h₂, hfits, rfl⟩, (), h₃, (), h₄, (), hconfigured.symm ▸ hall, rfl⟩

theorem writeInitialSession_ok {input : BeginExecutionInput} {tables after : Tables} :
    store.writeInitialSession input tables = .ok after ↔
      (input.initialSession = none ∧ after = tables) ∨
      ∃ update, input.initialSession = some update ∧
        input.canonicalSessionId = some update.sessionId ∧
        input.baseStateRevision = update.stateRevision ∧
        store.saveSessionMetadataTx update tables = .ok after := by
  rw [writeInitialSession]
  cases input.initialSession with
  | none =>
    rw [return_ok_iff]
    simp [eq_comm]
  | some update => simp [bind_ok_iff, and_assoc]

theorem readBase_ok {input : BeginExecutionInput} {tables : Tables} :
    (∃ count, store.readBase input tables = .ok count) ↔
      (input.canonicalSessionId.isSome = true → store.faults .selectBase = false) ∧
      ∀ sessionId, input.canonicalSessionId = some sessionId →
        ∃ row, tables.sessions.get? sessionId = some row ∧
          row.stateRevision = input.baseStateRevision := by
  rw [readBase]
  cases input.canonicalSessionId with
  | none => simp [return_ok_iff]
  | some sessionId =>
    cases hget : tables.sessions.get? sessionId with
    | none => simp [bind_ok_iff, hget]
    | some row =>
      simp only [bind_ok_iff, hget, require_ok, return_ok_iff]
      simp [hget]

def sessionStatements (input : BeginExecutionInput) : List Statement :=
  (if input.canonicalSessionId.isNone then [.acquireLock] else [.selectBase]) ++
    [.beginSession, .insertConfigurationContent, .selectConfigurationContent, .insertConfiguration,
      .selectConfiguration, .commitSession]

/-- The input fits the session and the configuration that are stored, and no statement of the first
step fails. -/
structure SessionAccepted (store : SqliteHistoryStore) (input : BeginExecutionInput)
    (tables : Tables) : Prop where
  configuration : input.configuration.configurationId = input.configurationId
  start : input.canonicalSessionId = none →
    isSafeFrom 0 (input.runtimeMessageStart.getD 0) = true
  initial : ∀ update, input.initialSession = some update →
    input.canonicalSessionId = some update.sessionId ∧
      input.baseStateRevision = update.stateRevision ∧ MetadataAccepted store update tables
  base : input.initialSession = none → ∀ sessionId, input.canonicalSessionId = some sessionId →
    ∃ row, tables.sessions.get? sessionId = some row ∧ row.stateRevision = input.baseStateRevision
  content : store.contentFits (encodeUtf8 input.configuration.json) tables.contents = true
  configured : (tables.configurations.get? input.configurationId).all
    (· == store.exactByteDigest (encodeUtf8 input.configuration.json)) = true
  runs : ∀ s ∈ sessionStatements input, store.faults s = false

/-- What the first step leaves and what it stores. -/
structure SessionWritten (store : SqliteHistoryStore) (input : BeginExecutionInput)
    (tables after : Tables) : Prop where
  executions : after.executions = tables.executions
  positions : after.executionDisplayPositions = tables.executionDisplayPositions
  records : after.semanticRecords = tables.semanticRecords
  relations : after.recallRelations = tables.recallRelations
  contents : after.contents =
    store.addContent (encodeUtf8 input.configuration.json) tables.contents
  kept : input.initialSession = none →
    after.sessions = tables.sessions ∧ after.sessionModelChanges = tables.sessionModelChanges
  stored : ∀ update, input.initialSession = some update →
    (∃ row, after.sessions.get? update.sessionId = some row ∧
      row.stateRevision = update.stateRevision) ∧
    ∀ row, tables.sessions.get? update.sessionId = some row →
      row.stateRevision + 1 = update.stateRevision
  revision : ∀ sessionId, input.canonicalSessionId = some sessionId →
    ∃ row, after.sessions.get? sessionId = some row ∧ row.stateRevision = input.baseStateRevision

/-- What a first step went through. -/
theorem exists_of_sessionTransaction {input : BeginExecutionInput} {tables after : Tables}
    {count : Int} (h : store.sessionTransaction input tables = .ok (count, after)) :
    input.configuration.configurationId = input.configurationId ∧
      (input.canonicalSessionId = none → store.faults .acquireLock = false) ∧
      (input.canonicalSessionId = none →
        isSafeFrom 0 (input.runtimeMessageStart.getD 0) = true) ∧
      store.faults .beginSession = false ∧ store.faults .commitSession = false ∧
      ∃ withSession, store.writeInitialSession input tables = .ok withSession ∧
        store.readBase input withSession = .ok count ∧
        store.writeConfiguration input withSession = .ok after := by
  simp only [sessionTransaction, bind_ok_iff, require_ok, statementWhen_ok, statement_ok,
    return_ok_iff] at h
  obtain ⟨_, hid, _, hlock, _, hstart, _, hbegin, withSession, hinitial, base, hbase, written,
    hwritten, _, hcommit, heq⟩ := h
  cases heq
  refine ⟨by simpa using hid, fun hnone => hlock (by simp [hnone]), fun hnone => ?_, hbegin,
    hcommit, withSession, hinitial, hbase, hwritten⟩
  simpa [hnone] using hstart

theorem sessionTransaction_ok {input : BeginExecutionInput} {tables : Tables} :
    (∃ result, store.sessionTransaction input tables = .ok result) ↔
      SessionAccepted store input tables := by
  constructor
  · rintro ⟨⟨count, after⟩, h⟩
    obtain ⟨hid, hlock, hstart, hbegin, hcommit, withSession, hinitial, hbase, hconfiguration⟩ :=
      exists_of_sessionTransaction h
    obtain ⟨h₁, h₂, h₃, h₄, hfits, hconfigured, -⟩ := writeConfiguration_ok.mp hconfiguration
    obtain ⟨hselect, hrow⟩ := readBase_ok.mp ⟨count, hbase⟩
    have hruns : ∀ s ∈ sessionStatements input, store.faults s = false := by
      intro s hs
      simp only [sessionStatements, List.mem_append, List.mem_cons, List.not_mem_nil,
        or_false] at hs
      rcases hs with hs | rfl | rfl | rfl | rfl | rfl | rfl
      · cases hcanonical : input.canonicalSessionId with
        | none =>
          simp only [hcanonical, Option.isNone_none, if_true, List.mem_singleton] at hs
          exact hs ▸ hlock hcanonical
        | some sessionId =>
          simp only [hcanonical, Option.isNone_some, Bool.false_eq_true, if_false,
            List.mem_singleton] at hs
          exact hs ▸ hselect (by simp [hcanonical])
      all_goals assumption
    rcases writeInitialSession_ok.mp hinitial with ⟨hnone, rfl⟩ | ⟨update, hsome, hcanonical,
      hrevision, hsave⟩
    · exact ⟨hid, hstart, fun update hupdate => (nomatch hnone.symm.trans hupdate), fun _ => hrow,
        hfits, hconfigured, hruns⟩
    · obtain ⟨-, -, -, -, hcontents, hconfigurations, -, -⟩ := saveSessionMetadataTx_writes hsave
      refine ⟨hid, hstart, fun update' hupdate => ?_, fun hnone => (nomatch hnone.symm.trans hsome),
        hcontents ▸ hfits, hconfigurations ▸ hconfigured, hruns⟩
      cases hsome.symm.trans hupdate
      exact ⟨hcanonical, hrevision, saveSessionMetadataTx_ok.mp ⟨_, hsave⟩⟩
  · intro h
    have hruns := h.runs
    simp only [sessionStatements, List.mem_append, List.mem_cons, List.not_mem_nil,
      or_false] at hruns
    have hlock : input.canonicalSessionId.isNone = true → store.faults .acquireLock = false :=
      fun hnone => hruns _ (.inl (by simp [hnone]))
    have hselect : input.canonicalSessionId.isSome = true → store.faults .selectBase = false := by
      intro hsome
      refine hruns _ (.inl ?_)
      obtain ⟨sessionId, hcanonical⟩ := Option.isSome_iff_exists.mp hsome
      simp [hcanonical]
    have hstart : (input.canonicalSessionId.isSome ||
        isSafeFrom 0 (input.runtimeMessageStart.getD 0)) = true := by
      cases hcanonical : input.canonicalSessionId with
      | none => simpa using h.start hcanonical
      | some sessionId => simp
    -- The session is there with the base revision, from before or just written.
    obtain ⟨withSession, hinitial, hrow, hcontents, hconfigurations⟩ : ∃ withSession,
        store.writeInitialSession input tables = .ok withSession ∧
        (∀ sessionId, input.canonicalSessionId = some sessionId →
          ∃ row, withSession.sessions.get? sessionId = some row ∧
            row.stateRevision = input.baseStateRevision) ∧
        withSession.contents = tables.contents ∧
        withSession.configurations = tables.configurations := by
      cases hinitial : input.initialSession with
      | none =>
        exact ⟨tables, writeInitialSession_ok.mpr (.inl ⟨hinitial, rfl⟩), h.base hinitial, rfl, rfl⟩
      | some update =>
        obtain ⟨hcanonical, hrevision, hmetadata⟩ := h.initial update hinitial
        obtain ⟨withSession, hsave⟩ := saveSessionMetadataTx_ok.mpr hmetadata
        obtain ⟨-, -, -, -, hcontents, hconfigurations, hstored, -⟩ :=
          saveSessionMetadataTx_writes hsave
        refine ⟨withSession, writeInitialSession_ok.mpr
          (.inr ⟨update, hinitial, hcanonical, hrevision, hsave⟩), ?_, hcontents, hconfigurations⟩
        intro sessionId hsessionId
        cases hcanonical.symm.trans hsessionId
        exact hrevision ▸ hstored
    obtain ⟨count, hbase⟩ := readBase_ok.mpr ⟨hselect, hrow⟩
    obtain ⟨after, hconfiguration⟩ : ∃ after,
        store.writeConfiguration input withSession = .ok after := ⟨_, writeConfiguration_ok.mpr ⟨hruns _ (.inr (by simp)),
      hruns _ (.inr (by simp)), hruns _ (.inr (by simp)), hruns _ (.inr (by simp)),
      hcontents.symm ▸ h.content, hconfigurations.symm ▸ h.configured, rfl⟩⟩
    refine ⟨(count, after), ?_⟩
    simp only [sessionTransaction, bind_ok_iff, require_ok, statementWhen_ok, statement_ok,
      return_ok_iff]
    exact ⟨(), by simpa using h.configuration, (), hlock, (), hstart, (), hruns _ (.inr (by simp)),
      withSession, hinitial, count, hbase, after, hconfiguration, (), hruns _ (.inr (by simp)), rfl⟩

theorem sessionTransaction_writes {input : BeginExecutionInput} {tables after : Tables}
    {count : Int} (h : store.sessionTransaction input tables = .ok (count, after)) :
    SessionWritten store input tables after := by
  obtain ⟨-, -, -, -, -, withSession, hinitial, hbase, hconfiguration⟩ :=
    exists_of_sessionTransaction h
  obtain ⟨-, hrow⟩ := readBase_ok.mp ⟨count, hbase⟩
  obtain ⟨-, -, -, -, -, -, rfl⟩ := writeConfiguration_ok.mp hconfiguration
  rcases writeInitialSession_ok.mp hinitial with ⟨hnone, rfl⟩ | ⟨update, hsome, hcanonical,
    hrevision, hsave⟩
  · exact ⟨rfl, rfl, rfl, rfl, rfl, fun _ => ⟨rfl, rfl⟩,
      fun update hupdate => (nomatch hnone.symm.trans hupdate), hrow⟩
  · obtain ⟨h₁, h₂, h₃, h₄, h₅, -, hstored, hbehind⟩ := saveSessionMetadataTx_writes hsave
    refine ⟨h₁, h₂, h₃, h₄, by rw [← h₅], fun hnone => (nomatch hnone.symm.trans hsome),
      fun update' hupdate => ?_, hrow⟩
    cases hsome.symm.trans hupdate
    exact ⟨hstored, hbehind⟩

/-! ## The second step -/

def admissionStatements (input : BeginExecutionInput) : List Statement :=
  (if input.canonicalSessionId.isSome then [.selectRevision] else []) ++
    [.beginAdmission, .insertTaskContent, .selectTaskContent, .insertExecution,
      .selectDisplayOrdinal, .insertDisplayPosition, .commitAdmission]

/-- The execution is new to the tables, its parent is there, and no statement of the second step
fails. -/
structure AdmissionAccepted (store : SqliteHistoryStore) (input : BeginExecutionInput)
    (tables : Tables) : Prop where
  correlation : ∀ sessionId, input.canonicalSessionId = some sessionId →
    sessionId = input.sessionCorrelation
  revision : isSafeFrom 0 input.baseStateRevision = true
  content : store.contentFits (encodeUtf8 input.task)
    (store.addContent (encodeUtf8 input.configuration.json) tables.contents) = true
  fresh : tables.executions.has input.executionId = false
  parent : ∀ parent, input.parentExecutionId = some parent →
    parent = input.executionId ∨ tables.executions.has parent = true
  position : ∀ entry ∈ tables.executionDisplayPositions.entries, entry.2 ≠ input.executionId
  runs : ∀ s ∈ admissionStatements input, store.faults s = false

theorem checkRevision_ok {input : BeginExecutionInput} {tables : Tables} {u : Unit}
    (hrevision : ∀ sessionId, input.canonicalSessionId = some sessionId →
      ∃ row, tables.sessions.get? sessionId = some row ∧
        row.stateRevision = input.baseStateRevision) :
    store.checkRevision input tables = .ok u ↔
      (input.canonicalSessionId.isSome = true → store.faults .selectRevision = false) := by
  rw [checkRevision]
  cases hcanonical : input.canonicalSessionId with
  | none =>
    rw [return_ok_iff]
    simp
  | some sessionId =>
    obtain ⟨row, hget, hrow⟩ := hrevision sessionId hcanonical
    simp [bind_ok_iff, hget, hrow]

/-- The second step writes one new execution row. -/
structure AdmissionWritten (input : BeginExecutionInput) (tables after : Tables) : Prop where
  executions : ∃ row : ExecutionRow, after.executions = tables.executions.set input.executionId row ∧
    row.active = true ∧ row.latestOrdinal = 0 ∧ row.terminalRecordId = none
  records : after.semanticRecords = tables.semanticRecords
  relations : after.recallRelations = tables.recallRelations

theorem beginExecutionWithAdmission_ok {input : BeginExecutionInput} {tables withSession : Tables}
    {count : Int} (hwritten : SessionWritten store input tables withSession) :
    (∃ after, store.beginExecutionWithAdmission input count withSession = .ok after) ↔
      AdmissionAccepted store input tables := by
  have hrows := hwritten.executions
  have hpositions := hwritten.positions
  have hcontents := hwritten.contents
  simp only [beginExecutionWithAdmission, bind_ok_iff, require_ok, statement_ok, return_ok_iff,
    writeContent_ok, Option.all_eq_true, beq_iff_eq, Bool.and_eq_true, Bool.not_eq_true',
    Bool.or_eq_true, List.all_eq_true, bne_iff_ne, ne_eq]
  constructor
  · rintro ⟨after, _, hcorrelation, _, hsafe, _, h₁, _, ⟨h₂, h₃, hfits, rfl⟩, _, hrevision, _, h₄, _,
      ⟨hfresh, hparent⟩, _, h₅, _, h₆, _, hposition, _, h₇, -⟩
    have hselect := (checkRevision_ok (by exact hwritten.revision)).mp hrevision
    refine ⟨hcorrelation, hsafe, hcontents ▸ hfits, hrows ▸ hfresh,
      fun parent hsome => hrows ▸ hparent parent hsome, hpositions ▸ hposition, ?_⟩
    intro s hs
    simp only [admissionStatements, List.mem_append, List.mem_ite_nil_right, List.mem_cons,
      List.not_mem_nil, or_false] at hs
    rcases hs with ⟨hsome, rfl⟩ | rfl | rfl | rfl | rfl | rfl | rfl | rfl
    · exact hselect hsome
    all_goals assumption
  · intro h
    have hruns := h.runs
    simp only [admissionStatements, List.mem_append, List.mem_ite_nil_right, List.mem_cons,
      List.not_mem_nil, or_false] at hruns
    refine ⟨_, (), h.correlation, (), h.revision, (), hruns _ (by simp), _, ⟨hruns _ (by simp),
      hruns _ (by simp), hcontents.symm ▸ h.content, rfl⟩, (), ?_, (), hruns _ (by simp), (),
      ⟨hrows.symm ▸ h.fresh, fun parent hsome => hrows.symm ▸ h.parent parent hsome⟩, (),
      hruns _ (by simp), (), hruns _ (by simp), (), hpositions.symm ▸ h.position, (),
      hruns _ (by simp), rfl⟩
    exact (checkRevision_ok (by exact hwritten.revision)).mpr fun hsome => hruns _ (.inl ⟨hsome, rfl⟩)

theorem beginExecutionWithAdmission_writes {input : BeginExecutionInput}
    {withSession after : Tables} {count : Int}
    (h : store.beginExecutionWithAdmission input count withSession = .ok after) :
    AdmissionWritten input withSession after := by
  simp only [beginExecutionWithAdmission, bind_ok_iff, return_ok_iff, writeContent_ok] at h
  obtain ⟨_, _, _, _, _, _, _, ⟨_, _, _, rfl⟩, _, _, _, _, _, _, _, _, _, _, _, _, _, _, rfl⟩ := h
  exact ⟨⟨_, rfl, rfl, rfl, rfl⟩, rfl, rfl⟩

/-! ## The third step -/

/-- The ordinals of the records of an admission. -/
def recordOrdinals (input : BeginExecutionInput) : List Nat :=
  if input.recalledContext.isSome then [1, 2] else [1]

theorem recordId_ne (executionId : ExecutionId) :
    recordId executionId 2 ≠ recordId executionId 1 := by
  intro heq
  have hlist := congrArg String.toList heq
  simp only [recordId, String.toList_append, List.append_assoc] at hlist
  have htail := List.append_cancel_left (List.append_cancel_left hlist)
  revert htail
  decide

/-- A record is new to the table, and its statements do not fail. -/
structure RecordAccepted (store : SqliteHistoryStore) (table : InsMap String SemanticRow)
    (executionId : ExecutionId) (ordinal : Nat) : Prop where
  id : table.has (recordId executionId ordinal) = false
  unused : ∀ entry ∈ table.entries, entry.2.executionId = executionId → entry.2.ordinal ≠ ordinal
  insert : store.faults (.insertRecord ordinal) = false
  select : store.faults (.selectRelations ordinal) = false
  resolve : store.faults (.resolveRelations ordinal) = false

theorem insertRecords_cons_ok {row : SemanticRow} {rows : List SemanticRow}
    {table after : InsMap String SemanticRow} :
    store.insertRecords (row :: rows) table = .ok after ↔
      RecordAccepted store table row.executionId row.ordinal ∧
      store.insertRecords rows (table.set (recordId row.executionId row.ordinal) row) =
        .ok after := by
  simp only [insertRecords, bind_ok_iff, statement_ok, require_ok, exists_const,
    Bool.and_eq_true, Bool.not_eq_true', List.all_eq_true, Bool.or_eq_true, bne_iff_ne, ne_eq,
    ← imp_iff_not_or]
  constructor
  · rintro ⟨hinsert, ⟨hid, hordinal⟩, hselect, hresolve, hrest⟩
    exact ⟨⟨hid, hordinal, hinsert, hselect, hresolve⟩, hrest⟩
  · rintro ⟨h, hrest⟩
    exact ⟨h.insert, ⟨h.id, h.unused⟩, h.select, h.resolve, hrest⟩

/-- A record with another id and ordinal is as new after an insert as before. -/
theorem recordAccepted_set {table : InsMap String SemanticRow} {row : SemanticRow} {ordinal : Nat}
    (hnew : table.has (recordId row.executionId row.ordinal) = false)
    (hid : recordId row.executionId ordinal ≠ recordId row.executionId row.ordinal)
    (hne : row.ordinal ≠ ordinal) :
    RecordAccepted store (table.set (recordId row.executionId row.ordinal) row) row.executionId
        ordinal ↔ RecordAccepted store table row.executionId ordinal := by
  have hkey : recordId row.executionId row.ordinal ∉ table.keys := by
    rw [InsMap.mem_keys]
    exact fun hmem => nomatch hnew.symm.trans hmem
  obtain ⟨before, rest, hset, herase, -⟩ :=
    InsMap.exists_entries_set table (recordId row.executionId row.ordinal) row
  rw [InsMap.erase_of_not_mem hkey] at herase
  have hhas : (table.set (recordId row.executionId row.ordinal) row).has
      (recordId row.executionId ordinal) = table.has (recordId row.executionId ordinal) := by
    rw [InsMap.has, InsMap.get?_set_ne _ _ hid, InsMap.has]
  constructor
  · intro h
    refine ⟨hhas ▸ h.id, fun entry hmem => h.unused entry ?_, h.insert, h.select, h.resolve⟩
    rw [herase, List.mem_append] at hmem
    rw [hset, List.mem_append, List.mem_cons]
    exact hmem.imp_right .inr
  · intro h
    refine ⟨hhas.symm ▸ h.id, fun entry hmem => ?_, h.insert, h.select, h.resolve⟩
    rw [hset, List.mem_append, List.mem_cons] at hmem
    rcases hmem with hmem | rfl | hmem
    · exact h.unused entry (herase ▸ List.mem_append_left _ hmem)
    · exact fun _ => hne
    · exact h.unused entry (herase ▸ List.mem_append_right _ hmem)

/-- The occurrences of an admission are its execution's, at its ordinals. -/
theorem insertRecords_ok {input : BeginExecutionInput} {rows : List SemanticRow}
    {table : InsMap String SemanticRow} (hrows : occurrencesOf input = some rows) :
    (∃ after, store.insertRecords rows table = .ok after) ↔
      ∀ ordinal ∈ recordOrdinals input, RecordAccepted store table input.executionId ordinal := by
  have hnil : ∀ table, store.insertRecords [] table = .ok table := fun _ => rfl
  rw [occurrencesOf] at hrows
  cases hrecalled : input.recalledContext with
  | none =>
    rw [hrecalled] at hrows
    cases hrows
    simp only [insertRecords_cons_ok, hnil, recordOrdinals, hrecalled]
    simp [admissionRow]
  | some context =>
    rw [hrecalled] at hrows
    obtain ⟨value, -, rfl⟩ := Option.map_eq_some_iff.mp hrows
    simp only [insertRecords_cons_ok, hnil, recordOrdinals, hrecalled]
    simp only [Option.isSome_some, if_true, List.forall_mem_cons, List.not_mem_nil,
      false_implies, implies_true, and_true, Except.ok.injEq, exists_and_left, exists_eq']
    refine and_congr_right fun hfirst => ?_
    have hne : (admissionRow input).ordinal ≠ 2 := by simp [admissionRow]
    exact recordAccepted_set hfirst.id (recordId_ne input.executionId) hne

def appendStatements : List Statement :=
  [.beginAppend, .selectExecution, .updateEventCount, .updateLatestOrdinal, .commitAppend]

/-- The records can be encoded and are new to the tables, and no statement of the third step
fails. -/
structure AppendAccepted (store : SqliteHistoryStore) (input : BeginExecutionInput)
    (tables : Tables) : Prop where
  occurrence : validOccurrence input = true
  finite : ∀ context, input.recalledContext = some context → context.value.isSome = true
  records : ∀ ordinal ∈ recordOrdinals input,
    RecordAccepted store tables.semanticRecords input.executionId ordinal
  runs : ∀ s ∈ appendStatements, store.faults s = false

theorem isSome_occurrencesOf {input : BeginExecutionInput} :
    (∃ rows, occurrencesOf input = some rows) ↔
      ∀ context, input.recalledContext = some context → context.value.isSome = true := by
  rw [occurrencesOf]
  cases input.recalledContext with
  | none => simp
  | some context => simp [Option.isSome_iff_exists]

/-- A batch of an active execution without records. -/
theorem appendAdmission_iff {input : BeginExecutionInput} {withExecution after : Tables}
    {row : ExecutionRow} (hrow : withExecution.executions.get? input.executionId = some row)
    (hactive : row.active = true) (hlatest : row.latestOrdinal = 0)
    (hterminal : row.terminalRecordId = none) :
    store.appendAdmission input withExecution = .ok after ↔
      validOccurrence input = true ∧ ∃ rows, occurrencesOf input = some rows ∧
        store.faults .beginAppend = false ∧ store.faults .selectExecution = false ∧
        ∃ records, store.insertRecords rows withExecution.semanticRecords = .ok records ∧
          store.faults .updateEventCount = false ∧ store.faults .updateLatestOrdinal = false ∧
          store.faults .commitAppend = false ∧
          { withExecution with
            semanticRecords := records
            executions := withExecution.executions.set input.executionId { row with
              eventCount := 1
              latestOrdinal := rows.length
              occurrenceCount := row.occurrenceCount + rows.length } } = after := by
  simp only [appendAdmission, bind_ok_iff, require_ok, exists_const]
  refine and_congr_right fun _ => ?_
  cases occurrencesOf input with
  | none => simp
  | some rows =>
    simp only [bind_ok_iff, statement_ok, require_ok, exists_const, hrow, hactive, hlatest,
      hterminal, return_ok_iff, Option.some.injEq, exists_eq_left', Bool.and_eq_true,
      Option.isNone_none, beq_self_eq_true, and_self, true_and]

theorem appendAdmission_ok {input : BeginExecutionInput} {tables withExecution : Tables}
    {row : ExecutionRow} (hrow : withExecution.executions.get? input.executionId = some row)
    (hactive : row.active = true) (hlatest : row.latestOrdinal = 0)
    (hterminal : row.terminalRecordId = none)
    (hrecords : withExecution.semanticRecords = tables.semanticRecords) :
    (∃ after, store.appendAdmission input withExecution = .ok after) ↔
      AppendAccepted store input tables := by
  simp only [appendAdmission_iff hrow hactive hlatest hterminal, hrecords]
  constructor
  · rintro ⟨_, hvalid, rows, hrows, h₁, h₂, records, hinserted, h₃, h₄, h₅, -⟩
    refine ⟨hvalid, isSome_occurrencesOf.mp ⟨rows, hrows⟩,
      (insertRecords_ok hrows).mp ⟨records, hinserted⟩, ?_⟩
    simp [appendStatements, h₁, h₂, h₃, h₄, h₅]
  · intro h
    have hruns := h.runs
    simp only [appendStatements, List.forall_mem_cons] at hruns
    obtain ⟨h₁, h₂, h₃, h₄, h₅, -⟩ := hruns
    obtain ⟨rows, hrows⟩ := isSome_occurrencesOf.mpr h.finite
    obtain ⟨records, hinserted⟩ := (insertRecords_ok hrows).mpr h.records
    exact ⟨_, h.occurrence, rows, hrows, h₁, h₂, records, hinserted, h₃, h₄, h₅, rfl⟩

/-- The records that a batch has written. -/
theorem insertRecords_writes {rows : List SemanticRow} {table after : InsMap String SemanticRow}
    (h : store.insertRecords rows table = .ok after) :
    (∀ id, table.has id = true → after.has id = true) ∧
      ∀ row ∈ rows, after.has (recordId row.executionId row.ordinal) = true := by
  induction rows generalizing table with
  | nil =>
    cases h
    exact ⟨fun _ hid => hid, fun _ hmem => nomatch hmem⟩
  | cons row rows ih =>
    obtain ⟨hkeeps, hhas⟩ := ih (insertRecords_cons_ok.mp h).2
    have hset : ∀ id, id = recordId row.executionId row.ordinal ∨ table.has id = true →
        (table.set (recordId row.executionId row.ordinal) row).has id = true := by
      intro id hid
      rw [InsMap.has, InsMap.get?_set]
      split
      · rfl
      · next hne => exact hid.resolve_left hne
    refine ⟨fun id hid => hkeeps id (hset id (.inr hid)), fun other hmem => ?_⟩
    rcases List.mem_cons.mp hmem with rfl | hmem
    · exact hkeeps _ (hset _ (.inl rfl))
    · exact hhas other hmem

/-- The third step writes the execution row again, and its records. -/
structure AppendWritten (input : BeginExecutionInput) (withExecution after : Tables) : Prop where
  executions : ∃ row, after.executions = withExecution.executions.set input.executionId row
  relations : after.recallRelations = withExecution.recallRelations
  recallRecord : input.recalledContext.isSome = true →
    after.semanticRecords.has (recordId input.executionId 2) = true

theorem appendAdmission_writes {input : BeginExecutionInput} {withExecution after : Tables}
    {row : ExecutionRow} (hrow : withExecution.executions.get? input.executionId = some row)
    (hactive : row.active = true) (hlatest : row.latestOrdinal = 0)
    (hterminal : row.terminalRecordId = none)
    (h : store.appendAdmission input withExecution = .ok after) :
    AppendWritten input withExecution after := by
  obtain ⟨-, rows, hrows, -, -, records, hinserted, -, -, -, rfl⟩ :=
    (appendAdmission_iff hrow hactive hlatest hterminal).mp h
  refine ⟨⟨_, rfl⟩, rfl, fun hrecalled => ?_⟩
  obtain ⟨context, hcontext⟩ := Option.isSome_iff_exists.mp hrecalled
  rw [occurrencesOf, hcontext] at hrows
  obtain ⟨value, -, rfl⟩ := Option.map_eq_some_iff.mp hrows
  exact (insertRecords_writes hinserted).2 (recallRow input context.sourceExecutionId value)
    (by simp)

/-! ## The fourth step -/

/-- The source of the recalled context is there, the relation is new, and its insert does not
fail. -/
structure RelationAccepted (store : SqliteHistoryStore) (input : BeginExecutionInput)
    (context : RecalledExecutionContext) (tables : Tables) : Prop where
  source : context.sourceExecutionId = input.executionId ∨
    tables.executions.has context.sourceExecutionId = true
  fresh : tables.recallRelations.has (context.sourceExecutionId, input.executionId) = false
  record : ∀ entry ∈ tables.recallRelations.entries, entry.2 ≠ recordId input.executionId 2
  runs : store.faults .insertRecallRelation = false

theorem has_set {κ α : Type} [DecidableEq κ] {table : InsMap κ α} {k x : κ} {v : α} :
    (table.set k v).has x = true ↔ x = k ∨ table.has x = true := by
  rw [InsMap.has, InsMap.get?_set, InsMap.has]
  split <;> simp_all

theorem insertRecallRelation_ok {input : BeginExecutionInput} {tables withRecords : Tables}
    {row : ExecutionRow} (hexecutions : withRecords.executions =
      tables.executions.set input.executionId row)
    (hrelations : withRecords.recallRelations = tables.recallRelations)
    (hrecord : input.recalledContext.isSome = true →
      withRecords.semanticRecords.has (recordId input.executionId 2) = true) :
    (∃ after, store.insertRecallRelation input withRecords = .ok after) ↔
      ∀ context, input.recalledContext = some context →
        RelationAccepted store input context tables := by
  rw [insertRecallRelation]
  cases hrecalled : input.recalledContext with
  | none => simp [return_ok_iff]
  | some context =>
    rw [hrecalled] at hrecord
    simp only [bind_ok_iff, statement_ok, require_ok, exists_const, return_ok_iff, hexecutions,
      hrelations, hrecord rfl, Bool.and_eq_true, has_set, Bool.not_eq_true', List.all_eq_true,
      bne_iff_ne, true_or, and_true, exists_and_left, exists_eq', Option.some.injEq,
      forall_eq']
    constructor
    · rintro ⟨hruns, ⟨hsource, hfresh⟩, hrecord⟩
      exact ⟨hsource, hfresh, hrecord, hruns⟩
    · intro h
      exact ⟨h.runs, ⟨h.source, h.fresh⟩, h.record⟩

/-! ## The call -/

/-- The six tables of an admission are as before. -/
structure SameTables (before after : Tables) : Prop where
  sessions : after.sessions = before.sessions
  sessionModelChanges : after.sessionModelChanges = before.sessionModelChanges
  executions : after.executions = before.executions
  executionDisplayPositions : after.executionDisplayPositions = before.executionDisplayPositions
  semanticRecords : after.semanticRecords = before.semanticRecords
  recallRelations : after.recallRelations = before.recallRelations

/-- A call that throws leaves the six tables. -/
def AllOrNothing (store : SqliteHistoryStore) (input : BeginExecutionInput) (tables : Tables) :
    Prop :=
  ∀ error after, store.beginExecution input tables = (.error error, after) →
    SameTables tables after

/-- After an owner of a new session failed to admit the input, it admits what it would have admitted
before. -/
def AdmitsLater (store : SqliteHistoryStore) (input : BeginExecutionInput) (tables : Tables) :
    Prop :=
  ∀ (owner : DataSessionOwner) (admission : DataExecutionAdmissionInput),
    owner.beginInput admission = input → input.initialSession.isSome = true →
    ∀ error owner' after, owner.admitExecution store admission tables = (.error error, owner', after) →
      ∀ (store' : SqliteHistoryStore) (later : DataExecutionAdmissionInput),
        (owner.admitExecution store' later tables).1 = .ok () → (owner'.admitExecution store' later after).1 = .ok ()

/-- No step fails behind a commit that wrote to the six tables. -/
def NoneLeft (store : SqliteHistoryStore) (input : BeginExecutionInput) (tables : Tables) : Prop :=
  ¬ SessionAccepted store input tables ∨
  (AdmissionAccepted store input tables ∧ AppendAccepted store input tables ∧
    ∀ context, input.recalledContext = some context →
      RelationAccepted store input context tables) ∨
  (¬ AdmissionAccepted store input tables ∧ input.initialSession = none)

variable {input : BeginExecutionInput} {tables : Tables}

theorem sameTables_refl : SameTables tables tables := ⟨rfl, rfl, rfl, rfl, rfl, rfl⟩

/-- The session row of a new session has another revision than before, or was not there. -/
theorem not_same_sessions {after : Tables} {update : WorkerSessionMetadataWrite}
    (h : SessionWritten store input tables after) (hinitial : input.initialSession = some update) :
    after.sessions ≠ tables.sessions := by
  intro hsame
  obtain ⟨⟨row, hget, hrevision⟩, hbehind⟩ := h.stored update hinitial
  have hless := hbehind row (hsame ▸ hget)
  omega

theorem not_same_executions {before after : Tables} {row : ExecutionRow}
    (hfresh : tables.executions.has input.executionId = false)
    (hafter : after.executions = before.executions.set input.executionId row) :
    after.executions ≠ tables.executions := by
  intro hsame
  have hhas : after.executions.has input.executionId = true := by
    rw [hafter]
    exact has_set.mpr (.inl rfl)
  rw [hsame, hfresh] at hhas
  cases hhas

/-- How a call ends: where its first step that is not accepted stands. -/
inductive Ending (store : SqliteHistoryStore) (input : BeginExecutionInput) (tables : Tables) :
    Except HistoryErrorCode Unit × Tables → Prop
  | rejected {error : HistoryErrorCode} : ¬ SessionAccepted store input tables →
      Ending store input tables (.error error, tables)
  | session {error : HistoryErrorCode} {after : Tables} :
      SessionAccepted store input tables → ¬ AdmissionAccepted store input tables →
      SessionWritten store input tables after → Ending store input tables (.error error, after)
  | execution {error : HistoryErrorCode} {after : Tables} :
      SessionAccepted store input tables → AdmissionAccepted store input tables →
      ¬ (AppendAccepted store input tables ∧ ∀ context, input.recalledContext = some context →
        RelationAccepted store input context tables) →
      after.executions ≠ tables.executions → Ending store input tables (.error error, after)
  | admitted {after : Tables} : AdmissionAccepted store input tables →
      AppendAccepted store input tables →
      (∀ context, input.recalledContext = some context →
        RelationAccepted store input context tables) →
      Ending store input tables (.ok (), after)

theorem ending_beginExecution : Ending store input tables (store.beginExecution input tables) := by
  rw [beginExecution]
  cases hsession : store.sessionTransaction input tables with
  | error error =>
    refine .rejected fun haccepted => ?_
    obtain ⟨result, hresult⟩ := sessionTransaction_ok.mpr haccepted
    cases hsession.symm.trans hresult
  | ok result =>
    obtain ⟨count, withSession⟩ := result
    have hsessionAccepted := sessionTransaction_ok.mp ⟨_, hsession⟩
    have hwritten := sessionTransaction_writes hsession
    cases hadmission : store.beginExecutionWithAdmission input count withSession with
    | error error =>
      simp only [hadmission]
      refine .session hsessionAccepted (fun haccepted => ?_) hwritten
      obtain ⟨after, hafter⟩ := (beginExecutionWithAdmission_ok hwritten).mpr haccepted
      cases hadmission.symm.trans hafter
    | ok withExecution =>
      have hadmissionAccepted := (beginExecutionWithAdmission_ok hwritten).mp ⟨_, hadmission⟩
      have hadmitted := beginExecutionWithAdmission_writes hadmission
      obtain ⟨row, hexecutions, hactive, hlatest, hterminal⟩ := hadmitted.executions
      have hrow : withExecution.executions.get? input.executionId = some row := by
        rw [hexecutions, InsMap.get?_set_self]
      have hrecords := hadmitted.records.trans hwritten.records
      cases happend : store.appendAdmission input withExecution with
      | error error =>
        simp only [hadmission, happend]
        refine .execution hsessionAccepted hadmissionAccepted (fun haccepted => ?_)
          (not_same_executions hadmissionAccepted.fresh hexecutions)
        obtain ⟨after, hafter⟩ :=
          (appendAdmission_ok hrow hactive hlatest hterminal hrecords).mpr haccepted.1
        cases happend.symm.trans hafter
      | ok withRecords =>
        have happendAccepted :=
          (appendAdmission_ok hrow hactive hlatest hterminal hrecords).mp ⟨_, happend⟩
        have happended := appendAdmission_writes hrow hactive hlatest hterminal happend
        obtain ⟨row', hexecutions'⟩ := happended.executions
        have hexecutions'' : withRecords.executions =
            tables.executions.set input.executionId row' := by
          rw [hexecutions', hexecutions, InsMap.set_set_self, hwritten.executions]
        have hrelations := (happended.relations.trans hadmitted.relations).trans hwritten.relations
        have hrelation := @insertRecallRelation_ok store _ _ _ _ hexecutions'' hrelations
          happended.recallRecord
        cases hrecall : store.insertRecallRelation input withRecords with
        | error error =>
          simp only [hadmission, happend, hrecall]
          refine .execution hsessionAccepted hadmissionAccepted (fun haccepted => ?_)
            (not_same_executions hadmissionAccepted.fresh hexecutions'')
          obtain ⟨after, hafter⟩ := hrelation.mpr haccepted.2
          cases hrecall.symm.trans hafter
        | ok after =>
          simp only [hadmission, happend, hrecall]
          exact .admitted hadmissionAccepted happendAccepted (hrelation.mp ⟨_, hrecall⟩)

theorem allOrNothing_iff : AllOrNothing store input tables ↔ NoneLeft store input tables := by
  have hending := @ending_beginExecution store input tables
  rw [AllOrNothing]
  generalize store.beginExecution input tables = result at hending
  cases hending with
  | rejected hrejected =>
    refine ⟨fun _ => .inl hrejected, fun _ error after heq => ?_⟩
    cases heq
    exact sameTables_refl
  | session haccepted hrejected hwritten =>
    constructor
    · intro h
      refine .inr (.inr ⟨hrejected, ?_⟩)
      cases hinitial : input.initialSession with
      | none => rfl
      | some update =>
        exact absurd (h _ _ rfl).sessions (not_same_sessions hwritten hinitial)
    · rintro (hnot | ⟨hadmission, -⟩ | ⟨-, hnone⟩) error after heq
      · exact absurd haccepted hnot
      · exact absurd hadmission hrejected
      · cases heq
        obtain ⟨hsessions, hchanges⟩ := hwritten.kept hnone
        exact ⟨hsessions, hchanges, hwritten.executions, hwritten.positions, hwritten.records,
          hwritten.relations⟩
  | execution haccepted hadmission hrejected hleft =>
    constructor
    · intro h
      exact absurd (h _ _ rfl).executions hleft
    · rintro (hnot | ⟨-, hrest⟩ | ⟨hnot, -⟩)
      · exact absurd haccepted hnot
      · exact absurd hrest hrejected
      · exact absurd hadmission hnot
  | admitted hadmission happend hrelation =>
    exact ⟨fun _ => .inr (.inl ⟨hadmission, happend, hrelation⟩), fun _ _ _ heq => nomatch heq⟩

/-- A new session whose first step is rejected is as before, and so is its owner. -/
theorem admitsLater (h : NoneLeft store input tables) : AdmitsLater store input tables := by
  rintro owner admission rfl hnew error owner' after hadmit store' later hlater
  have hkept : owner' = owner ∧ after = tables := by
    rw [DataSessionOwner.admitExecution] at hadmit
    split at hadmit
    · cases hadmit
      exact ⟨rfl, rfl⟩
    · split at hadmit
      · cases hadmit
        exact ⟨rfl, rfl⟩
      · have hending := @ending_beginExecution store (owner.beginInput admission) tables
        simp only at hadmit
        split at hadmit
        · next hbegin =>
          rw [hbegin] at hending
          cases hadmit
          refine ⟨rfl, ?_⟩
          cases hending with
          | rejected hrejected => rfl
          | session haccepted hrejected hwritten =>
            rcases h with hnot | ⟨hadmission, -⟩ | ⟨-, hnone⟩
            · exact absurd haccepted hnot
            · exact absurd hadmission hrejected
            · simp [hnone] at hnew
          | execution haccepted hadmission hrejected hleft =>
            rcases h with hnot | ⟨-, hrest⟩ | ⟨hnot, -⟩
            · exact absurd haccepted hnot
            · exact absurd hrest hrejected
            · exact absurd hadmission hnot
        · cases hadmit
  rw [hkept.1, hkept.2]
  exact hlater

end SqliteHistoryStore

open SqliteHistoryStore in
/-- A failed admission leaves nothing behind, and does not stand in the way of a later one, exactly
when no step fails behind a commit that wrote to the tables. -/
theorem admission_all_or_nothing (store : SqliteHistoryStore) (input : BeginExecutionInput)
    (tables : Tables) :
    AllOrNothing store input tables ∧ AdmitsLater store input tables ↔
      NoneLeft store input tables :=
  ⟨fun h => allOrNothing_iff.mp h.1, fun h => ⟨allOrNothing_iff.mpr h, admitsLater h⟩⟩

namespace SqliteHistoryStore

def emptyTables : Tables where
  contents := .empty
  configurations := .empty
  sessions := .empty
  sessionModelChanges := .empty
  executions := .empty
  executionDisplayPositions := .empty
  semanticRecords := .empty
  recallRelations := .empty

/-- A store whose statements fail as given. -/
def storeWith (faults : Statement → Bool) : SqliteHistoryStore where
  workspaceRoot := "/w"
  formats := {
    isSessionId := fun _ => true
    canonicalAbsolutePath := fun _ => true
    validAgentChoice := fun _ => true
    canonicalTimestamp := fun _ => true
    parseDate := fun _ => 0
    isSessionTitle := fun _ => true
    isStoredModelSelection := fun _ => true }
  exactByteDigest bytes := String.ofList (bytes.map fun byte => Char.ofNat byte.toNat)
  faults := faults

def newSelection : ModelSelection where
  provider := "p"
  modelId := "m"
  effort := "auto"
  api := "a"
  authProfile := "k"
  registrationId := none

/-- The owner of a session that has no row yet. -/
def newOwner : DataSessionOwner where
  sessionId := "s"
  workspaceRoot := "/w"
  agentChoice := { name := none, file := none }
  createdAt := "t"
  title := none
  stateRevision := 1
  nextTurn := 1
  canonicalMessageCount := 0
  modelSelection := newSelection
  pendingModelChanges := [{ effectiveFromTurn := 1, changedAt := "t", selection := newSelection }]
  durableCanonicalHistory := true
  executions := []
  pendingRecall := none

def admissionOf (executionId : ExecutionId) : DataExecutionAdmissionInput where
  executionId := executionId
  taskId := "k"
  task := js "do"
  correlation := {
    session := "s"
    instanceCorrelation := "i"
    workerGeneration := "g"
    baseStateRevision := 1
    command := "c" }
  createdAt := "t"
  agent := "a"
  configuration := { configurationId := "c", json := js "x" }
  maxSteps := 8
  recalledContext := none
  parentExecutionId := none
  spawnCallId := none

/-- The second transaction finds the database busy. -/
def busyStore : SqliteHistoryStore := storeWith fun s => s == .beginAdmission

def reliableStore : SqliteHistoryStore := storeWith fun _ => false

/-- An admission with a recalled context of an execution that is not there. -/
def recallOfNone : DataExecutionAdmissionInput :=
  { admissionOf "e" with recalledContext := some ⟨"gone", some .null⟩ }

/-- The session row stays behind and the session cannot be admitted any more, and the row of an
execution without its recalled context stays behind. -/
theorem failed_admission_left :
    ((newOwner.admitExecution busyStore (admissionOf "e") emptyTables).1 =
        .error (.history .history_io_failure) ∧
      (newOwner.admitExecution busyStore (admissionOf "e") emptyTables).2.2.sessions.has "s" = true ∧
      (newOwner.admitExecution reliableStore (admissionOf "f") emptyTables).1 = .ok () ∧
      (newOwner.admitExecution reliableStore (admissionOf "f")
          (newOwner.admitExecution busyStore (admissionOf "e") emptyTables).2.2).1 =
        .error (.history .history_io_failure)) ∧
    ((newOwner.admitExecution reliableStore recallOfNone emptyTables).1 =
        .error (.history .history_io_failure) ∧
      (newOwner.admitExecution reliableStore recallOfNone emptyTables).2.2.executions.has "e" = true) ∧
    ¬ (AllOrNothing busyStore (newOwner.beginInput (admissionOf "e")) emptyTables ∧
      AdmitsLater busyStore (newOwner.beginInput (admissionOf "e")) emptyTables) := by
  refine ⟨⟨rfl, by decide +kernel, rfl, rfl⟩, ⟨rfl, by decide +kernel⟩, fun h => ?_⟩
  have hlater : (newOwner.admitExecution reliableStore (admissionOf "f")
      (newOwner.admitExecution busyStore (admissionOf "e") emptyTables).2.2).1 = .ok () :=
    h.2 newOwner (admissionOf "e") rfl rfl _ _ _ rfl reliableStore (admissionOf "f") rfl
  cases hlater

end SqliteHistoryStore

end Henji.Admission
