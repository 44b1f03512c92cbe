import Henji.History.HistoryTables

/-!
# What holds of the rows of the history store

A turn is of the session that its execution names, a record of the execution in its id, and a terminal
record of the execution that ends with it. A child is younger than its parent.
-/

namespace Henji

namespace HistoryTables

open Relational

structure TableLaw (db : HistoryDb) : Prop where
  consistent : schema.Consistent db
  sessions : ∀ sessionId rest, .session sessionId rest ∈ db → isSessionId sessionId = true
  canonical : ∀ row, .execution row ∈ db → ∀ sessionId, row.canonicalSessionId = some sessionId →
    row.sessionCorrelation = sessionId ∧ row.parentExecutionId = none
  child : ∀ row, .execution row ∈ db → ∀ parent, row.parentExecutionId = some parent →
    parent ≠ row.executionId ∧ row.sessionCorrelation = childCorrelation parent row.executionId
  /-- No later row is the parent of an earlier one. -/
  older : db.Pairwise fun a b => ∀ x y, a = .execution x → b = .execution y →
    x.parentExecutionId ≠ some y.executionId
  positions : ∀ correlation ordinal executionId, .displayPosition correlation ordinal executionId ∈ db →
    ∀ row, .execution row ∈ db → row.executionId = executionId → row.sessionCorrelation = correlation
  turns : ∀ sessionId turnOrdinal turnNumber executionId,
    .turn sessionId turnOrdinal turnNumber executionId ∈ db →
    ∀ row, .execution row ∈ db → row.executionId = executionId → row.canonicalSessionId = some sessionId
  messages : ∀ sessionId ordinal turnNumber executionId executionOrdinal,
    .conversationMessage sessionId ordinal turnNumber executionId executionOrdinal ∈ db →
    ∀ row, .execution row ∈ db → row.executionId = executionId → row.canonicalSessionId = some sessionId
  terminal : ∀ row, .execution row ∈ db → ∀ recordId, row.terminalRecordId = some recordId →
    ∀ executionId ordinal digest rest, .record recordId executionId ordinal digest rest ∈ db →
      executionId = row.executionId
  semantic : ∀ named number executionId ordinal digest rest,
    .record (.semantic named number) executionId ordinal digest rest ∈ db → executionId = named
  recalls : ∀ source target recordId, .recallRelation source target recordId ∈ db →
    recordId = .semantic target 2

theorem TableLaw.empty : TableLaw [] := by
  refine ⟨⟨List.Pairwise.nil, ?_⟩, ?_, ?_, ?_, List.Pairwise.nil, ?_, ?_, ?_, ?_, ?_, ?_⟩ <;>
    simp [Schema.Resolves]

section Rows

variable {db db' : HistoryDb}

theorem TableLaw.sublist (h : TableLaw db) (hsub : db'.Sublist db) (hconsistent : schema.Consistent db') :
    TableLaw db' where
  consistent := hconsistent
  sessions := fun sessionId rest hmem => h.sessions sessionId rest (hsub.subset hmem)
  canonical := fun row hmem => h.canonical row (hsub.subset hmem)
  child := fun row hmem => h.child row (hsub.subset hmem)
  older := h.older.sublist hsub
  positions := fun _ _ _ hposition row hmem =>
    h.positions _ _ _ (hsub.subset hposition) row (hsub.subset hmem)
  turns := fun _ _ _ _ hturn row hmem => h.turns _ _ _ _ (hsub.subset hturn) row (hsub.subset hmem)
  messages := fun _ _ _ _ _ hmessage row hmem =>
    h.messages _ _ _ _ _ (hsub.subset hmessage) row (hsub.subset hmem)
  terminal := fun row hmem _ hterminal _ _ _ _ hrecord =>
    h.terminal row (hsub.subset hmem) _ hterminal _ _ _ _ (hsub.subset hrecord)
  semantic := fun _ _ _ _ _ _ hrecord => h.semantic _ _ _ _ _ _ (hsub.subset hrecord)
  recalls := fun _ _ _ hrecall => h.recalls _ _ _ (hsub.subset hrecall)

theorem TableLaw.execution_eq (h : TableLaw db) {x y : ExecutionRow} (hx : .execution x ∈ db)
    (hy : .execution y ∈ db) (hid : x.executionId = y.executionId) : x = y := by
  have hkeyX : HistoryKey.execution x.executionId ∈ schema.keys (.execution x) :=
    List.mem_singleton_self _
  have hkeyY : HistoryKey.execution x.executionId ∈ schema.keys (.execution y) :=
    hid ▸ List.mem_singleton_self _
  exact HistoryRow.execution.inj (h.consistent.unique.eq_of_key hx hy hkeyX hkeyY)

/-- What is referred to is there, so it cannot come as a new row. -/
theorem TableLaw.not_referred (h : TableLaw db) {new : HistoryRow}
    (hnew : schema.Consistent (db ++ [new])) {row : HistoryRow} (hrow : row ∈ db) {key : HistoryKey}
    {action : OnDelete} (href : (key, action) ∈ row.refs) : key ∉ new.keys := by
  obtain ⟨parent, hparent, hkey⟩ := h.consistent.resolves row hrow (key, action) href
  exact hnew.unique.fresh hparent hkey

end Rows

/-! ## Who has a key -/

theorem execution_of_key {row : HistoryRow} {executionId : String}
    (h : HistoryKey.execution executionId ∈ row.keys) :
    ∃ found, row = .execution found ∧ found.executionId = executionId := by
  cases row with
  | execution found => exact ⟨found, rfl, by simpa [HistoryRow.keys, eq_comm] using h⟩
  | _ => simp [HistoryRow.keys] at h

theorem message_of_key {row : HistoryRow} {executionId : String} {ordinal : Nat}
    (h : HistoryKey.message executionId ordinal ∈ row.keys) :
    ∃ digest, row = .message executionId ordinal digest := by
  cases row with
  | message found number digest =>
    simp only [HistoryRow.keys, List.mem_singleton, HistoryKey.message.injEq] at h
    exact ⟨digest, by rw [h.1, h.2]⟩
  | _ => simp [HistoryRow.keys] at h

theorem record_of_key {row : HistoryRow} {recordId : RecordId}
    (h : HistoryKey.record recordId ∈ row.keys) :
    ∃ executionId ordinal digest rest, row = .record recordId executionId ordinal digest rest := by
  cases row with
  | record found executionId ordinal digest rest =>
    simp only [HistoryRow.keys, List.mem_cons, HistoryKey.record.injEq, List.not_mem_nil, or_false,
      reduceCtorEq] at h
    exact ⟨executionId, ordinal, digest, rest, by rw [h]⟩
  | _ => simp [HistoryRow.keys] at h

theorem session_of_key {row : HistoryRow} {sessionId : String}
    (h : HistoryKey.session sessionId ∈ row.keys) : ∃ rest, row = .session sessionId rest := by
  cases row with
  | session found rest =>
    simp only [HistoryRow.keys, List.mem_singleton, HistoryKey.session.injEq] at h
    exact ⟨rest, by rw [h]⟩
  | _ => simp [HistoryRow.keys] at h

/-! ## Inserted rows -/

section Insert

variable {db db' : HistoryDb} {new : HistoryRow}

/-- The execution of a stored message is stored. -/
theorem TableLaw.message_execution (h : TableLaw db) {sessionId executionId : String}
    {ordinal turnNumber executionOrdinal : Nat}
    (hmem : .conversationMessage sessionId ordinal turnNumber executionId executionOrdinal ∈ db) :
    ∃ digest, .message executionId executionOrdinal digest ∈ db := by
  obtain ⟨parent, hparent, hkey⟩ := h.consistent.resolves _ hmem
    (.message executionId executionOrdinal, .noAction) (by simp [schema, HistoryRow.refs])
  obtain ⟨digest, rfl⟩ := message_of_key hkey
  exact ⟨digest, hparent⟩

theorem TableLaw.insert (h : TableLaw db) (hnew : Insertable db new)
    (hinsert : schema.insert new db = some db') : TableLaw db' := by
  obtain ⟨rfl, hconsistent⟩ := Schema.consistent_of_check hinsert
  have hmem : ∀ row, row ∈ db ++ [new] → row ∈ db ∨ row = new := by
    intro row hrow
    simpa using hrow
  -- the execution that a row refers to is older than a new one
  have holder : ∀ row ∈ db, ∀ executionId action, (.execution executionId, action) ∈ row.refs →
      ∀ found, new = .execution found → found.executionId ≠ executionId := by
    intro row hrow executionId action href found hfound hid
    refine h.not_referred hconsistent hrow href ?_
    rw [hfound, ← hid]
    exact List.mem_singleton_self _
  exact {
    consistent := hconsistent
    sessions := by
      intro sessionId rest hrow
      rcases hmem _ hrow with hold | rfl
      · exact h.sessions sessionId rest hold
      · exact hnew
    canonical := by
      intro row hrow sessionId hcanonical
      rcases hmem _ hrow with hold | rfl
      · exact h.canonical row hold sessionId hcanonical
      · obtain ⟨_, ⟨howner, hparent⟩ | ⟨hnone, _⟩ | ⟨hnone, _⟩⟩ := hnew
        · exact ⟨Option.some.inj (howner.symm.trans hcanonical), hparent⟩
        · exact absurd (hnone.symm.trans hcanonical) (by simp)
        · exact absurd (hnone.symm.trans hcanonical) (by simp)
    child := by
      intro row hrow parent hparent
      rcases hmem _ hrow with hold | rfl
      · exact h.child row hold parent hparent
      · obtain ⟨_, ⟨_, hnone⟩ | ⟨_, hnone⟩ | ⟨_, found, hfound, hother, hcorrelation⟩⟩ := hnew
        · exact absurd (hnone.symm.trans hparent) (by simp)
        · exact absurd (hnone.symm.trans hparent) (by simp)
        · cases Option.some.inj (hfound.symm.trans hparent)
          exact ⟨hother, hcorrelation⟩
    older := by
      refine List.pairwise_append.mpr ⟨h.older, List.pairwise_singleton _ _, ?_⟩
      intro a ha b hb x y hx hy hparent
      rw [List.mem_singleton] at hb
      subst hx
      refine holder _ ha y.executionId .noAction ?_ y (hb ▸ hy) rfl
      simp only [HistoryRow.refs, hparent]
      simp [nullable]
    positions := by
      intro correlation ordinal executionId hposition row hrow hid
      rcases hmem _ hrow with hold | hrow
      · rcases hmem _ hposition with hposition | rfl
        · exact h.positions _ _ _ hposition row hold hid
        · obtain ⟨found, hfound, hfoundId, hcorrelation⟩ := hnew
          rw [h.execution_eq hold hfound (hid.trans hfoundId.symm)]
          exact hcorrelation
      · rcases hmem _ hposition with hposition | hposition
        · exact absurd hid
            (holder _ hposition executionId .cascade (by simp [HistoryRow.refs]) row hrow.symm)
        · cases hposition.trans hrow.symm
    turns := by
      intro sessionId turnOrdinal turnNumber executionId hturn row hrow hid
      rcases hmem _ hrow with hold | hrow
      · rcases hmem _ hturn with hturn | rfl
        · exact h.turns _ _ _ _ hturn row hold hid
        · obtain ⟨found, hfound, hfoundId, hcanonical⟩ := hnew
          rw [h.execution_eq hold hfound (hid.trans hfoundId.symm)]
          exact hcanonical
      · rcases hmem _ hturn with hturn | hturn
        · exact absurd hid (holder _ hturn executionId .noAction (by simp [HistoryRow.refs]) row hrow.symm)
        · cases hturn.trans hrow.symm
    messages := by
      intro sessionId ordinal turnNumber executionId executionOrdinal hmessage row hrow hid
      rcases hmem _ hrow with hold | hrow
      · rcases hmem _ hmessage with hmessage | rfl
        · exact h.messages _ _ _ _ _ hmessage row hold hid
        · obtain ⟨found, hfound, hfoundId, hcanonical⟩ := hnew
          rw [h.execution_eq hold hfound (hid.trans hfoundId.symm)]
          exact hcanonical
      · rcases hmem _ hmessage with hmessage | hmessage
        · obtain ⟨digest, hstored⟩ := h.message_execution hmessage
          exact absurd hid (holder _ hstored executionId .cascade (by simp [HistoryRow.refs]) row hrow.symm)
        · cases hmessage.trans hrow.symm
    terminal := by
      intro row hrow recordId hterminal executionId ordinal digest rest hrecord
      rcases hmem _ hrow with hold | rfl
      · rcases hmem _ hrecord with hrecord | hrecord
        · exact h.terminal row hold recordId hterminal _ _ _ _ hrecord
        · -- a terminal record is stored before it is named
          have href : (HistoryKey.record recordId, OnDelete.noAction) ∈ (HistoryRow.execution row).refs := by
            simp only [HistoryRow.refs, hterminal]
            simp [nullable]
          exact absurd (by simp [← hrecord, HistoryRow.keys]) (h.not_referred hconsistent hold href)
      · exact absurd (hnew.1.symm.trans hterminal) (by simp)
    semantic := by
      intro named number executionId ordinal digest rest hrecord
      rcases hmem _ hrecord with hold | rfl
      · exact h.semantic _ _ _ _ _ _ hold
      · rcases hnew with hsemantic | ⟨text, hfresh⟩
        · exact (RecordId.semantic.inj hsemantic).1.symm
        · cases hfresh
    recalls := by
      intro source target recordId hrecall
      rcases hmem _ hrecall with hold | rfl
      · exact h.recalls _ _ _ hold
      · exact hnew }

end Insert

/-! ## Changed rows -/

section Update

variable {db db' : HistoryDb} {old new : HistoryRow}

/-- An execution keeps its identity, and its terminal record is one of its own. -/
theorem Updated.execution_of (h : Updated db old new) {found : ExecutionRow}
    (hfound : new = .execution found) :
    ∃ row, old = .execution row ∧ found.executionId = row.executionId ∧
      found.canonicalSessionId = row.canonicalSessionId ∧
      found.sessionCorrelation = row.sessionCorrelation ∧
      found.parentExecutionId = row.parentExecutionId ∧
      (found.terminalRecordId = row.terminalRecordId ∨ ∃ recordId ordinal digest rest,
        found.terminalRecordId = some recordId ∧
        .record recordId row.executionId ordinal digest rest ∈ db) := by
  cases h with
  | execution =>
    cases hfound
    exact ⟨_, rfl, rfl, rfl, rfl, rfl, .inl rfl⟩
  | terminal hrecord =>
    cases hfound
    exact ⟨_, rfl, rfl, rfl, rfl, rfl, .inr ⟨_, _, _, _, rfl, hrecord⟩⟩
  | _ => cases hfound

theorem Updated.session_of (h : Updated db old new) {sessionId rest : String}
    (hfound : new = .session sessionId rest) : ∃ before, old = .session sessionId before := by
  cases h with
  | session =>
    cases hfound
    exact ⟨_, rfl⟩
  | _ => cases hfound

/-- The rows that are never changed. -/
def Fixed : HistoryRow → Prop
  | .displayPosition _ _ _ => True
  | .turn _ _ _ _ => True
  | .conversationMessage _ _ _ _ _ => True
  | .record _ _ _ _ _ => True
  | .recallRelation _ _ _ => True
  | _ => False

theorem Updated.not_fixed (h : Updated db old new) : ¬ Fixed new := by
  cases h <;> exact fun hfixed => hfixed

theorem mem_replace {row : HistoryRow} (h : row ∈ db.map (replaceRow old new)) :
    row ∈ db ∨ row = new := by
  obtain ⟨before, hbefore, rfl⟩ := List.mem_map.mp h
  rw [replaceRow]
  split
  · exact .inr rfl
  · exact .inl hbefore

theorem fixed_of_mem_replace (h : Updated db old new) {row : HistoryRow} (hfixed : Fixed row)
    (hmem : row ∈ db.map (replaceRow old new)) : row ∈ db := by
  rcases mem_replace hmem with hold | rfl
  · exact hold
  · exact absurd hfixed h.not_fixed

/-- An execution of the changed table stands for one of the old. -/
theorem execution_of_mem_replace (h : Updated db old new) (hold : old ∈ db) {found : ExecutionRow}
    (hmem : .execution found ∈ db.map (replaceRow old new)) :
    ∃ row, .execution row ∈ db ∧ found.executionId = row.executionId ∧
      found.canonicalSessionId = row.canonicalSessionId ∧
      found.sessionCorrelation = row.sessionCorrelation ∧
      found.parentExecutionId = row.parentExecutionId ∧
      (found.terminalRecordId = row.terminalRecordId ∨ ∃ recordId ordinal digest rest,
        found.terminalRecordId = some recordId ∧
        .record recordId row.executionId ordinal digest rest ∈ db) := by
  rcases mem_replace hmem with hkept | hnew
  · exact ⟨found, hkept, rfl, rfl, rfl, rfl, .inl rfl⟩
  · obtain ⟨row, hrow, hsame⟩ := h.execution_of hnew.symm
    exact ⟨row, hrow ▸ hold, hsame⟩

theorem TableLaw.update (h : TableLaw db) (hold : old ∈ db) (hupdated : Updated db old new)
    (hupdate : schema.update (replaceRow old new) db = some db') : TableLaw db' := by
  obtain ⟨rfl, hconsistent⟩ := Schema.consistent_of_check hupdate
  exact {
    consistent := hconsistent
    sessions := by
      intro sessionId rest hmem
      rcases mem_replace hmem with hkept | hnew
      · exact h.sessions sessionId rest hkept
      · obtain ⟨before, hbefore⟩ := hupdated.session_of hnew.symm
        exact h.sessions sessionId before (hbefore ▸ hold)
    canonical := by
      intro found hmem sessionId hcanonical
      obtain ⟨row, hrow, _, hsession, hcorrelation, hparent, _⟩ :=
        execution_of_mem_replace hupdated hold hmem
      rw [hcorrelation, hparent]
      exact h.canonical row hrow sessionId (hsession ▸ hcanonical)
    child := by
      intro found hmem parent hfound
      obtain ⟨row, hrow, hid, _, hcorrelation, hparent, _⟩ :=
        execution_of_mem_replace hupdated hold hmem
      rw [hcorrelation, hid]
      exact h.child row hrow parent (hparent ▸ hfound)
    older := by
      refine List.pairwise_map.mpr (h.older.imp ?_)
      intro a b hab x y hx hy
      -- both rows stand for executions with the same id and the same parent
      have hbefore : ∀ row found, replaceRow old new row = .execution found →
          ∃ before, row = .execution before ∧ found.executionId = before.executionId ∧
            found.parentExecutionId = before.parentExecutionId := by
        intro row found hfound
        rw [replaceRow] at hfound
        split at hfound
        · next hsame =>
          obtain ⟨before, hbefore, hid, _, _, hparent, _⟩ := hupdated.execution_of hfound
          exact ⟨before, hsame.trans hbefore, hid, hparent⟩
        · exact ⟨found, hfound, rfl, rfl⟩
      obtain ⟨x', hx', _, hparent⟩ := hbefore a x hx
      obtain ⟨y', hy', hid, _⟩ := hbefore b y hy
      rw [hparent, hid]
      exact hab x' y' hx' hy'
    positions := by
      intro correlation ordinal executionId hposition found hmem hid
      obtain ⟨row, hrow, hsame, _, hcorrelation, _⟩ := execution_of_mem_replace hupdated hold hmem
      rw [hcorrelation]
      exact h.positions _ _ _ (fixed_of_mem_replace hupdated trivial hposition) row hrow (hsame ▸ hid)
    turns := by
      intro sessionId turnOrdinal turnNumber executionId hturn found hmem hid
      obtain ⟨row, hrow, hsame, hsession, _⟩ := execution_of_mem_replace hupdated hold hmem
      rw [hsession]
      exact h.turns _ _ _ _ (fixed_of_mem_replace hupdated trivial hturn) row hrow (hsame ▸ hid)
    messages := by
      intro sessionId ordinal turnNumber executionId executionOrdinal hmessage found hmem hid
      obtain ⟨row, hrow, hsame, hsession, _⟩ := execution_of_mem_replace hupdated hold hmem
      rw [hsession]
      exact h.messages _ _ _ _ _ (fixed_of_mem_replace hupdated trivial hmessage) row hrow (hsame ▸ hid)
    terminal := by
      intro found hmem recordId hterminal executionId ordinal digest rest hrecord
      obtain ⟨row, hrow, hid, _, _, _, hkept | ⟨named, number, content, text, hnamed, hstored⟩⟩ :=
        execution_of_mem_replace hupdated hold hmem
      · rw [hid]
        exact h.terminal row hrow recordId (hkept ▸ hterminal) _ _ _ _
          (fixed_of_mem_replace hupdated trivial hrecord)
      · have hsameId : named = recordId := Option.some.inj (hnamed.symm.trans hterminal)
        subst hsameId
        have hkept : .record named executionId ordinal digest rest ∈ db :=
          fixed_of_mem_replace hupdated trivial hrecord
        have hkey : ∀ executionId ordinal digest rest, HistoryKey.record named ∈
            schema.keys (.record named executionId ordinal digest rest) :=
          fun _ _ _ _ => List.mem_cons_self
        have hsame := h.consistent.unique.eq_of_key hkept hstored (hkey _ _ _ _) (hkey _ _ _ _)
        rw [hid]
        exact (HistoryRow.record.inj hsame).2.1
    semantic := fun _ _ _ _ _ _ hrecord =>
      h.semantic _ _ _ _ _ _ (fixed_of_mem_replace hupdated trivial hrecord)
    recalls := fun _ _ _ hrecall => h.recalls _ _ _ (fixed_of_mem_replace hupdated trivial hrecall) }

end Update

/-- A deletion leaves some of the rows. -/
theorem TableLaw.delete {db db' : HistoryDb} (h : TableLaw db) {p : HistoryRow → Bool}
    (hdelete : schema.delete p db = some db') : TableLaw db' := by
  obtain ⟨rfl, hconsistent⟩ := Schema.consistent_of_check hdelete
  exact h.sublist List.filter_sublist hconsistent

end HistoryTables

end Henji
