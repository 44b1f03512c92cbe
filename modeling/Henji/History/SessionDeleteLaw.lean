import Henji.History.DeleteLaw
import Mathlib.Data.List.Perm.Subperm

/-!
# Deleting a session deletes its subtree

In every store that can be reached the transaction succeeds, unless a statement fails for a reason of its
own. It takes the rows that name the session or an execution of its subtree and no other.
-/

namespace Henji

namespace HistoryTables

open Relational

/-- The columns that hold a session. -/
def HistoryRow.sessions : HistoryRow → List String
  | .session sessionId _ => [sessionId]
  | .execution row => row.canonicalSessionId.toList ++ [row.sessionCorrelation]
  | .displayPosition correlation _ _ => [correlation]
  | .turn sessionId _ _ _ => [sessionId]
  | .conversationMessage sessionId _ _ _ _ => [sessionId]
  | .modelChange sessionId _ _ => [sessionId]
  | .followUp _ _ correlation _ _ _ _ => [correlation]
  | .coreCursor _ sessionId _ => [sessionId]
  | .readCursor _ correlation _ _ => [correlation]
  | _ => []

/-- The columns that hold an execution, and the execution of the record that a relation is from. -/
def HistoryRow.executions (db : HistoryDb) : HistoryRow → List String
  | .execution row => [row.executionId]
  | .displayPosition _ _ executionId => [executionId]
  | .message executionId _ _ => [executionId]
  | .turn _ _ _ executionId => [executionId]
  | .conversationMessage _ _ _ executionId _ => [executionId]
  | .record _ executionId _ _ _ => [executionId]
  | .relation recordId _ _ _ => db.filterMap fun row =>
    match row with
    | .record found executionId _ _ _ => if found = recordId then some executionId else none
    | _ => none
  | .textState executionId _ _ _ _ => [executionId]
  | .context executionId _ => [executionId]
  | .diagnostic _ executionId _ => [executionId]
  | .recallRelation source target _ => [source, target]
  | .commandReceipt _ _ _ executionId _ => executionId.toList
  | .controlFact executionId _ => [executionId]
  | .followUp _ _ _ parent _ started _ => parent.toList ++ started.toList
  | .readCursor _ _ latest _ => latest.toList
  | _ => []

/-- The row names the session or an execution of its subtree. -/
def Touches (db : HistoryDb) (id : String) (row : HistoryRow) : Prop :=
  id ∈ row.sessions ∨ ∃ executionId ∈ row.executions db, InSubtree db id executionId

/-- A session has itself, its turns and messages, and its executions with all that belongs to them. -/
def inHistory (db : HistoryDb) (id : String) (executions : List String) : HistoryRow → Bool
  | .session sessionId _ => sessionId == id
  | .modelChange sessionId _ _ => sessionId == id
  | .turn sessionId _ _ _ => sessionId == id
  | .conversationMessage sessionId _ _ _ _ => sessionId == id
  | .recallRelation _ _ _ => false
  | .commandReceipt _ _ _ _ _ => false
  | .followUp _ _ _ _ _ _ _ => false
  | .readCursor _ _ _ _ => false
  | row => (row.executions db).any executions.contains

/-- What is read back of a session. -/
def historyOf (db : HistoryDb) (id : String) : List HistoryRow :=
  db.filter (inHistory db id (owned db id))

/-! ## The statements before the executions -/

/-- The rows that are deleted before the executions. -/
def Cleared (db : HistoryDb) (id : String) : HistoryRow → Prop
  | .coreCursor _ sessionId _ => sessionId = id
  | .readCursor _ correlation latest _ =>
    correlation = id ∨ ∃ executionId ∈ latest, InSubtree db id executionId
  | .commandReceipt _ _ _ executionId _ => ∃ found ∈ executionId, InSubtree db id found
  | .followUp _ _ correlation parent _ started _ =>
    correlation = id ∨ (∃ found ∈ parent, InSubtree db id found) ∨ ∃ found ∈ started, InSubtree db id found
  | .conversationMessage sessionId _ _ _ _ => sessionId = id
  | .turn sessionId _ _ _ => sessionId = id
  | .recallRelation source target _ => InSubtree db id source ∨ InSubtree db id target
  | _ => False

section Clear

variable {db rest : HistoryDb} {gone : HistoryRow → Prop} {id : String}

/-- While the executions are there the queries find the same of them. -/
theorem Remains.mem_owned (h : Remains db gone rest) (hexecutions : ∀ row, ¬ gone (.execution row))
    {executionId : String} : executionId ∈ owned rest id ↔ InSubtree db id executionId := by
  rw [HistoryTables.mem_owned]
  constructor
  · exact InSubtree.mono fun row hrow => h.sublist.subset hrow
  · exact InSubtree.mono fun row hrow => (h.mem_iff _).mpr ⟨hrow, hexecutions row⟩

theorem any_contains {executions : List String} {value : Option String} :
    value.any executions.contains = true ↔ ∃ found ∈ value, found ∈ executions := by
  cases value <;> simp

/-- The turns of a session go once its messages are gone. -/
theorem Remains.delete_turns (h : Remains db gone rest)
    (hmessages : ∀ row, conversationMessageOf id row = true → gone row) :
    ∃ left, schema.delete (turnOf id) rest = some left ∧
      Remains db (fun row => gone row ∨ turnOf id row = true) left := by
  refine h.delete (fun _ _ hrow => hrow) ?_ (fun _ hmem hrow => .seed hmem hrow)
  intro parent _ child hchild hturn hrefers
  exfalso
  obtain ⟨⟨key, action⟩, href, hkey⟩ := Schema.refers_iff.mp hrefers
  have htarget : isTarget key = true := isTarget_of_ref href
  cases parent with
  | turn sessionId turnOrdinal turnNumber executionId =>
    have hsession : sessionId = id := by simpa [turnOf] using hturn
    change key ∈ [_, _, _] at hkey
    simp only [List.mem_cons, List.not_mem_nil, or_false] at hkey
    rcases hkey with rfl | rfl | rfl
    · cases htarget
    · -- only a message of the turn names its number
      have hmessage : conversationMessageOf id child = true := by
        cases child with
        | conversationMessage found _ _ _ _ =>
          simp [schema, HistoryRow.refs] at href
          simp [conversationMessageOf, ← href.1.1, hsession]
        | _ => simp [schema, HistoryRow.refs, mem_nullable] at href
      exact ((h.mem_iff child).mp hchild).2 (hmessages child hmessage)
    · cases htarget
  | _ => cases hturn

/-- The rows without a key that is referred to. -/
def Leaf : HistoryRow → Prop
  | .coreCursor _ _ _ => True
  | .readCursor _ _ _ _ => True
  | .commandReceipt _ _ _ _ _ => True
  | .followUp _ _ _ _ _ _ _ => True
  | .conversationMessage _ _ _ _ _ => True
  | .recallRelation _ _ _ => True
  | _ => False

theorem Leaf.unreferenced {row : HistoryRow} (h : Leaf row) : Unreferenced row := by
  cases row with
  | coreCursor _ _ _ => simp [Unreferenced, HistoryRow.keys, isTarget]
  | readCursor _ _ _ _ => simp [Unreferenced, HistoryRow.keys, isTarget]
  | commandReceipt _ _ _ _ _ => simp [Unreferenced, HistoryRow.keys, isTarget]
  | followUp _ _ _ _ _ _ _ => simp [Unreferenced, HistoryRow.keys, isTarget]
  | conversationMessage _ _ _ _ _ => simp [Unreferenced, HistoryRow.keys, isTarget]
  | recallRelation _ _ _ => simp [Unreferenced, HistoryRow.keys, isTarget]
  | _ => exact h.elim

theorem leaf_of_recall {row : HistoryRow} (h : recallOf id row = true) : Leaf row := by
  cases row <;> trivial

theorem TableLaw.clear (law : TableLaw db) {executions : List String}
    (hexecutions : ∀ executionId, executionId ∈ executions ↔ InSubtree db id executionId) :
    ∃ left, compose ([schema.delete (coreCursorOf id),
        fun db => schema.delete (readCursorOf id (owned db id)) db,
        fun db => schema.delete (receiptOf (owned db id)) db,
        fun db => schema.delete (followUpOf id (owned db id)) db,
        schema.delete (conversationMessageOf id),
        schema.delete (turnOf id)] ++
        executions.map fun executionId => schema.delete (recallOf executionId)) db = some left ∧
      Remains db (Cleared db id) left := by
  obtain ⟨db₁, h₁, hcore⟩ := (Remains.start law).delete_alone (p := coreCursorOf id) fun row h =>
    Leaf.unreferenced (by cases row <;> trivial)
  have howned₁ : ∀ e, e ∈ owned db₁ id ↔ InSubtree db id e := fun e =>
    hcore.mem_owned (by simp [coreCursorOf])
  obtain ⟨db₂, h₂, hread⟩ := hcore.delete_alone (p := readCursorOf id (owned db₁ id)) fun row h =>
    Leaf.unreferenced (by cases row <;> trivial)
  have howned₂ : ∀ e, e ∈ owned db₂ id ↔ InSubtree db id e := fun e =>
    hread.mem_owned (by simp [coreCursorOf, readCursorOf])
  obtain ⟨db₃, h₃, hreceipts⟩ := hread.delete_alone (p := receiptOf (owned db₂ id)) fun row h =>
    Leaf.unreferenced (by cases row <;> trivial)
  have howned₃ : ∀ e, e ∈ owned db₃ id ↔ InSubtree db id e := fun e =>
    hreceipts.mem_owned (by simp [coreCursorOf, readCursorOf, receiptOf])
  obtain ⟨db₄, h₄, hfollowUps⟩ := hreceipts.delete_alone (p := followUpOf id (owned db₃ id)) fun row h =>
    Leaf.unreferenced (by cases row <;> trivial)
  obtain ⟨db₅, h₅, hmessages⟩ := hfollowUps.delete_alone (p := conversationMessageOf id) fun row h =>
    Leaf.unreferenced (by cases row <;> trivial)
  obtain ⟨db₆, h₆, hturns⟩ := hmessages.delete_turns fun row h => .inr h
  obtain ⟨left, h₇, hrecalls⟩ := hturns.delete_each
    (fun executionId row h => (leaf_of_recall h).unreferenced) executions
  refine ⟨left, ?_, hrecalls.congr fun row _ => ?_⟩
  · refine (compose_append ?_).trans h₇
    simp only [compose, h₁, h₂, h₃, h₄, h₅, h₆, Option.bind_some]
  · cases row with
    | recallRelation source target recordId =>
      simp only [Cleared, coreCursorOf, readCursorOf, receiptOf, followUpOf, conversationMessageOf, turnOf,
        recallOf, hexecutions, Bool.or_eq_true, beq_iff_eq, Bool.false_eq_true, false_or]
      constructor
      · rintro ⟨executionId, hsubtree, rfl | rfl⟩
        · exact .inl hsubtree
        · exact .inr hsubtree
      · rintro (hsource | htarget)
        · exact ⟨source, hsource, .inl rfl⟩
        · exact ⟨target, htarget, .inr rfl⟩
    | _ =>
      simp [Cleared, coreCursorOf, readCursorOf, receiptOf, followUpOf, conversationMessageOf, turnOf,
        recallOf, any_contains, howned₁, howned₂, howned₃, or_assoc]

end Clear

/-! ## The session -/

section Session

variable {db rest : HistoryDb} {gone : HistoryRow → Prop} {id : String}

/-- The session with what cascades from it. -/
def SessionRow (id : String) : HistoryRow → Prop
  | .session sessionId _ => sessionId = id
  | .modelChange sessionId _ _ => sessionId = id
  | _ => False

/-- The rows whose foreign key is the session. -/
def InSession (id : String) : HistoryRow → Prop
  | .execution row => row.canonicalSessionId = some id
  | .turn sessionId _ _ _ => sessionId = id
  | .conversationMessage sessionId _ _ _ _ => sessionId = id
  | .modelChange sessionId _ _ => sessionId = id
  | _ => False

theorem inSession_of_ref {child : HistoryRow} {action : OnDelete}
    (href : (HistoryKey.session id, action) ∈ child.refs) : InSession id child := by
  cases child with
  | execution row =>
    simp only [HistoryRow.refs, List.mem_append, List.mem_singleton, mem_nullable, Prod.mk.injEq,
      reduceCtorEq, false_and, and_false, exists_false, or_false] at href
    obtain ⟨found, hcanonical, hsame, _⟩ := href
    exact hcanonical.trans (congrArg some (HistoryKey.session.inj hsame).symm)
  | turn sessionId _ _ _ =>
    simp only [HistoryRow.refs, List.mem_cons, Prod.mk.injEq, reduceCtorEq, HistoryKey.session.injEq,
      List.not_mem_nil, false_and, or_false] at href
    exact href.1.symm
  | conversationMessage sessionId _ _ _ _ =>
    simp only [HistoryRow.refs, List.mem_cons, Prod.mk.injEq, reduceCtorEq, HistoryKey.session.injEq,
      List.not_mem_nil, false_and, or_false] at href
    exact href.1.symm
  | modelChange sessionId _ _ =>
    simp only [HistoryRow.refs, List.mem_singleton, Prod.mk.injEq, HistoryKey.session.injEq] at href
    exact href.1.symm
  | _ => simp [HistoryRow.refs, mem_nullable] at href

/-- The session goes once only its model changes name it. -/
theorem Remains.delete_session (h : Remains db gone rest)
    (hnames : ∀ row ∈ rest, InSession id row → SessionRow id row) :
    ∃ left, schema.delete (sessionOf id) rest = some left ∧
      Remains db (fun row => gone row ∨ SessionRow id row) left := by
  refine h.delete ?_ ?_ ?_
  · intro row _ hrow
    cases row with
    | session sessionId text =>
      have hid : sessionId = id := by simpa [sessionOf] using hrow
      exact hid
    | _ => cases hrow
  · intro parent _ child hchild hparent hrefers
    obtain ⟨⟨key, action⟩, href, hkey⟩ := Schema.refers_iff.mp hrefers
    have htarget : isTarget key = true := isTarget_of_ref href
    change (key, action) ∈ child.refs at href
    cases parent with
    | session sessionId text =>
      have hid : sessionId = id := hparent
      change key ∈ [_] at hkey
      rw [List.mem_singleton.mp hkey, hid] at href
      exact hnames child hchild (inSession_of_ref href)
    | modelChange sessionId ordinal text =>
      change key ∈ [_] at hkey
      rw [List.mem_singleton.mp hkey] at htarget
      cases htarget
    | _ => exact hparent.elim
  · intro row hrow hown
    cases row with
    | session sessionId text =>
      refine .seed hrow ?_
      simp [sessionOf, show sessionId = id from hown]
    | modelChange sessionId ordinal text =>
      have hid : sessionId = id := hown
      have href : (HistoryKey.session sessionId, OnDelete.cascade) ∈
          (HistoryRow.modelChange sessionId ordinal text).refs := List.mem_singleton_self _
      obtain ⟨parent, hparent, hkey⟩ := h.consistent.resolves _ hrow _ href
      obtain ⟨content, rfl⟩ := session_of_key hkey
      refine .step (.seed hparent ?_) hrow (Schema.cascades_iff.mpr ⟨_, href, rfl, hkey⟩)
      simp [sessionOf, hid]
    | _ => exact hown.elim

/-- What the statements take is what names the session or its subtree. -/
theorem TableLaw.taken_iff (law : TableLaw db) {row : HistoryRow} (hrow : row ∈ db) :
    ((Cleared db id row ∨ ∃ executionId, InSubtree db id executionId ∧ BelongsTo db executionId row) ∨
      SessionRow id row) ↔ Touches db id row := by
  cases row with
  | execution found =>
    simp only [Cleared, BelongsTo, SessionRow, Touches, HistoryRow.sessions, HistoryRow.executions,
      exists_eq_right', false_or, or_false, List.mem_singleton, exists_eq_left, List.mem_append,
      Option.mem_toList]
    constructor
    · exact .inr
    · rintro ((hcanonical | hcorrelation) | hsubtree)
      · exact .correlated hrow (.inl hcanonical)
      · exact .correlated hrow (.inr hcorrelation.symm)
      · exact hsubtree
  | displayPosition correlation ordinal executionId =>
    simp only [Cleared, BelongsTo, SessionRow, Touches, HistoryRow.sessions, HistoryRow.executions,
      exists_eq_right', false_or, or_false, List.mem_singleton, exists_eq_left]
    constructor
    · exact .inr
    · rintro (rfl | hsubtree)
      · -- the position is correlated as its execution is
        obtain ⟨parent, hparent, hkey⟩ := law.consistent.resolves _ hrow
          (.execution executionId, .cascade) (List.mem_singleton_self _)
        obtain ⟨found, rfl, hid⟩ := execution_of_key hkey
        have hcorrelation := law.positions _ _ _ hrow found hparent hid
        exact hid ▸ .correlated hparent (.inr hcorrelation)
      · exact hsubtree
  | turn sessionId turnOrdinal turnNumber executionId =>
    simp only [Cleared, BelongsTo, SessionRow, Touches, HistoryRow.sessions, HistoryRow.executions,
      and_false, exists_false, or_false, List.mem_singleton, exists_eq_left]
    constructor
    · intro hsession
      exact .inl hsession.symm
    · rintro (hsession | hsubtree)
      · exact hsession.symm
      · obtain ⟨found, hfound, hid⟩ := hsubtree.exists_row
        exact law.canonical_of_subtree hsubtree hfound hid (law.turns _ _ _ _ hrow found hfound hid)
  | conversationMessage sessionId ordinal turnNumber executionId executionOrdinal =>
    simp only [Cleared, BelongsTo, SessionRow, Touches, HistoryRow.sessions, HistoryRow.executions,
      and_false, exists_false, or_false, List.mem_singleton, exists_eq_left]
    constructor
    · intro hsession
      exact .inl hsession.symm
    · rintro (hsession | hsubtree)
      · exact hsession.symm
      · obtain ⟨found, hfound, hid⟩ := hsubtree.exists_row
        exact law.canonical_of_subtree hsubtree hfound hid (law.messages _ _ _ _ _ hrow found hfound hid)
  | relation recordId ordinal target text =>
    simp only [Cleared, BelongsTo, SessionRow, Touches, HistoryRow.sessions, HistoryRow.executions,
      false_or, or_false, List.not_mem_nil, List.mem_filterMap]
    constructor
    · rintro ⟨executionId, hsubtree, number, digest, content, hstored⟩
      exact ⟨executionId, ⟨_, hstored, if_pos rfl⟩, hsubtree⟩
    · rintro ⟨executionId, ⟨found, hfound, hnamed⟩, hsubtree⟩
      cases found with
      | record named owner number digest content =>
        obtain ⟨rfl, howner⟩ := Option.ite_none_right_eq_some.mp hnamed
        exact ⟨executionId, hsubtree, number, digest, content, Option.some.inj howner ▸ hfound⟩
      | _ => cases hnamed
  | _ =>
    simp [Cleared, BelongsTo, SessionRow, Touches, HistoryRow.sessions, HistoryRow.executions, eq_comm,
      or_and_right, exists_or]

/-- All statements together take what names the session or its subtree. -/
theorem TableLaw.delete_statements (law : TableLaw db) {fuel : Nat} {levels : List (List String)}
    (hlevels : descend db fuel (roots db id) = some levels) :
    ∃ written, compose (deleteStatements id (deepestFirst levels)) db = some written ∧
      Remains db (Touches db id) written := by
  have horder : ∀ executionId, executionId ∈ deepestFirst levels ↔ InSubtree db id executionId :=
    fun _ => mem_order hlevels
  obtain ⟨cleared, hclear, hcleared⟩ := law.clear horder
  -- who names an execution without cascading from it is cleared, or is a child
  have hnames : ∀ executionId ∈ deepestFirst levels, ∀ row ∈ db, Names executionId row →
      Cleared db id row ∨ ∃ found, row = .execution found := by
    intro executionId hexecution row hrow hnamed
    have hsubtree := (horder executionId).mp hexecution
    obtain ⟨found, hfound, hid⟩ := hsubtree.exists_row
    cases row with
    | execution child => exact .inr ⟨child, rfl⟩
    | turn sessionId _ _ named =>
      have hsame : named = executionId := hnamed
      exact .inl (law.canonical_of_subtree hsubtree hfound hid
        (law.turns _ _ _ _ hrow found hfound (hid.trans hsame.symm)))
    | conversationMessage sessionId _ _ named _ =>
      have hsame : named = executionId := hnamed
      exact .inl (law.canonical_of_subtree hsubtree hfound hid
        (law.messages _ _ _ _ _ hrow found hfound (hid.trans hsame.symm)))
    | recallRelation source target _ =>
      rcases hnamed with rfl | rfl
      · exact .inl (.inl hsubtree)
      · exact .inl (.inr hsubtree)
    | readCursor _ _ latest _ => exact .inl (.inr ⟨executionId, hnamed, hsubtree⟩)
    | _ => exact hnamed.elim
  have hstart : Remains db (fun row => Cleared db id row ∨
      ∃ executionId ∈ ([] : List String), BelongsTo db executionId row) cleared :=
    hcleared.congr fun row _ => by simp
  obtain ⟨executed, hexecute, hexecuted⟩ := hstart.delete_executions law hnames
    (fun pre post executionId hsplit => children_first hlevels hsplit) (List.nil_append _).symm
  have hsession : ∀ row ∈ executed, InSession id row → SessionRow id row := by
    intro row hrow hnamed
    obtain ⟨hmem, hkept⟩ := (hexecuted.mem_iff row).mp hrow
    cases row with
    | execution found =>
      have hsubtree : InSubtree db id found.executionId := .correlated hmem (.inl hnamed)
      exact absurd (.inr ⟨found.executionId, (horder _).mpr hsubtree, rfl⟩) hkept
    | turn sessionId _ _ _ => exact absurd (.inl hnamed) hkept
    | conversationMessage sessionId _ _ _ _ => exact absurd (.inl hnamed) hkept
    | modelChange sessionId _ _ => exact hnamed
    | _ => exact hnamed.elim
  obtain ⟨written, hwrite, hwritten⟩ := hexecuted.delete_session hsession
  refine ⟨written, ?_, hwritten.congr fun row hrow => ?_⟩
  · rw [deleteStatements, List.append_assoc _ _ [schema.delete (sessionOf id)]]
    refine (compose_append hclear).trans ((compose_append hexecute).trans ?_)
    rw [compose, hwrite, Option.bind_some, compose]
  · rw [← law.taken_iff hrow]
    simp only [horder]

/-- A deletion changes nothing, or takes the subtree of the session. -/
theorem TableLaw.delete_cases (law : TableLaw db) {lockFree : Bool} {fails : Nat → Bool}
    {result : Except SessionStoreError Unit} {after : HistoryDb}
    (h : HistoryTables.delete lockFree fails db id = some (result, after)) :
    after = db ∨ (result = .ok () ∧ Remains db (Touches db id) after) := by
  have hsame : ∀ error, some (Except.error error, db) = some (result, after) → after = db := by
    intro error hsome
    exact (Prod.mk.inj (Option.some.inj hsome)).2.symm
  rw [HistoryTables.delete] at h
  split at h
  · exact .inl (hsame _ h)
  · split at h
    · exact .inl (hsame _ h)
    · split at h
      · exact .inl (hsame _ h)
      · obtain ⟨levels, hlevels, hresult⟩ := Option.map_eq_some_iff.mp h
        obtain ⟨written, hcomposed, hwritten⟩ := law.delete_statements hlevels
        rcases transaction_cases hcomposed with hrolled | hcommitted
        · rw [hrolled] at hresult
          exact .inl (Prod.mk.inj hresult).2.symm
        · rw [hcommitted] at hresult
          obtain ⟨rfl, rfl⟩ := Prod.mk.inj hresult
          exact .inr ⟨rfl, hwritten⟩

theorem Reachable.law (h : Reachable db) : TableLaw db := by
  induction h with
  | empty => exact .empty
  | insert _ hnew hinsert ih => exact ih.insert hnew hinsert
  | update _ hold hupdated hupdate ih => exact ih.update hold hupdated hupdate
  | drop _ _ hdrop ih => exact ih.delete hdrop
  | delete _ hdelete ih =>
    rcases ih.delete_cases hdelete with rfl | ⟨_, hleft⟩
    · exact ih
    · exact ih.sublist hleft.sublist hleft.consistent

end Session

/-! ## The other sessions -/

section Others

variable {db written : HistoryDb} {id other : String}

theorem childCorrelation_not_sessionId (parent run : String) :
    isSessionId (childCorrelation parent run) = false := by
  have hletters : (childCorrelation parent run).toList =
      'p' :: ("arent:".toList ++ parent.toList ++ ":child:".toList ++ run.toList) := by
    simp [childCorrelation, String.toList_append]
  have hpattern : ∃ p rest, uuidV4 = p :: rest ∧ p 'p' = false := ⟨_, _, rfl, by decide⟩
  obtain ⟨p, rest, hrest, hp⟩ := hpattern
  rw [isSessionId, hletters, hrest, List.zipWith_cons_cons, List.all_cons, id, hp, Bool.false_and,
    Bool.and_false]

/-- No execution is of two sessions. -/
theorem TableLaw.subtree_disjoint (law : TableLaw db) (hid : isSessionId id = true)
    (hother : isSessionId other = true) {executionId : String} (h : InSubtree db id executionId)
    (hfound : InSubtree db other executionId) : other = id := by
  have hroot : ∀ session row, isSessionId session = true → .execution row ∈ db →
      row.canonicalSessionId = some session ∨ row.sessionCorrelation = session →
      row.sessionCorrelation = session ∧ row.parentExecutionId = none := by
    intro session row hsession hrow hcorrelated
    rcases hcorrelated with hcanonical | hcorrelation
    · exact law.canonical row hrow session hcanonical
    · refine ⟨hcorrelation, ?_⟩
      cases hparent : row.parentExecutionId with
      | none => rfl
      | some parent =>
        -- the session of a child has no UUID for its id
        have hchild := (law.child row hrow parent hparent).2
        rw [← hcorrelation, hchild, childCorrelation_not_sessionId] at hsession
        cases hsession
  induction h with
  | @correlated row hrow hcorrelated =>
    obtain ⟨hcorrelation, hnone⟩ := hroot id row hid hrow hcorrelated
    generalize hexecution : row.executionId = executionId at hfound
    cases hfound with
    | @correlated same hsame hcorrelated' =>
      cases law.execution_eq hrow hsame hexecution
      exact (hroot other _ hother hrow hcorrelated').1.symm.trans hcorrelation
    | @child same parent _ hsame hparent =>
      cases law.execution_eq hrow hsame hexecution
      exact absurd (hnone.symm.trans hparent) (by simp)
  | @child row parent _ hrow hparent ih =>
    generalize hexecution : row.executionId = executionId at hfound
    cases hfound with
    | @correlated same hsame hcorrelated =>
      cases law.execution_eq hrow hsame hexecution
      exact absurd ((hroot other _ hother hrow hcorrelated).2.symm.trans hparent) (by simp)
    | @child same above habove hsame hsameParent =>
      cases law.execution_eq hrow hsame hexecution
      exact ih (Option.some.inj (hparent.symm.trans hsameParent) ▸ habove)

/-- A row of another session does not name this one. -/
theorem TableLaw.not_touches (law : TableLaw db) (hid : isSessionId id = true)
    (hother : isSessionId other = true) (hne : other ≠ id) {row : HistoryRow} (hrow : row ∈ db)
    (hhistory : inHistory db other (owned db other) row = true) : ¬ Touches db id row := by
  have hdisjoint : ∀ executionId, executionId ∈ owned db other → ¬ InSubtree db id executionId :=
    fun _ howned hsubtree => hne (law.subtree_disjoint hid hother hsubtree (mem_owned.mp howned))
  have hcolumn : ∀ executionId, (owned db other).contains executionId = true →
      ¬ InSubtree db id executionId := by
    intro executionId hcontains
    exact hdisjoint executionId (List.contains_iff_mem.mp hcontains)
  rw [← law.taken_iff hrow]
  cases row with
  | session sessionId _ =>
    have hsession : sessionId = other := by simpa [inHistory] using hhistory
    simp [Cleared, BelongsTo, SessionRow, hsession, hne]
  | modelChange sessionId _ _ =>
    have hsession : sessionId = other := by simpa [inHistory] using hhistory
    simp [Cleared, BelongsTo, SessionRow, hsession, hne]
  | turn sessionId _ _ _ =>
    have hsession : sessionId = other := by simpa [inHistory] using hhistory
    simp [Cleared, BelongsTo, SessionRow, hsession, hne]
  | conversationMessage sessionId _ _ _ _ =>
    have hsession : sessionId = other := by simpa [inHistory] using hhistory
    simp [Cleared, BelongsTo, SessionRow, hsession, hne]
  | relation recordId ordinal target text =>
    simp only [inHistory, HistoryRow.executions, List.any_eq_true, List.mem_filterMap] at hhistory
    obtain ⟨executionId, ⟨found, hfound, hnamed⟩, howned⟩ := hhistory
    cases found with
    | record named owner number digest content =>
      obtain ⟨rfl, howner⟩ := Option.ite_none_right_eq_some.mp hnamed
      rintro ((hcleared | ⟨belongs, hsubtree, place, other, body, hstored⟩) | hsession)
      · exact hcleared
      · -- both are the execution of the record
        have hsame : owner = belongs := law.record_eq hfound hstored
        exact hcolumn executionId howned (Option.some.inj howner ▸ hsame ▸ hsubtree)
      · exact hsession
    | _ => cases hnamed
  | _ =>
    first
    | (simp [inHistory, HistoryRow.executions] at hhistory; done)
    | (have howned := hhistory
       simp only [inHistory, HistoryRow.executions, List.any_cons, List.any_nil, Bool.or_false] at howned
       rintro ((hcleared | ⟨belongs, hsubtree, hsame⟩) | hsession)
       · exact hcleared
       · exact hcolumn _ howned (hsame ▸ hsubtree)
       · exact hsession)

/-- The executions of another session are all left. -/
theorem Remains.owned_iff (law : TableLaw db) (h : Remains db (Touches db id) written)
    (hid : isSessionId id = true) (hother : isSessionId other = true) (hne : other ≠ id)
    {executionId : String} : executionId ∈ owned written other ↔ executionId ∈ owned db other := by
  rw [HistoryTables.mem_owned, HistoryTables.mem_owned]
  constructor
  · exact InSubtree.mono fun row hrow => h.sublist.subset hrow
  · intro hsubtree
    have hkept : ∀ row, .execution row ∈ db → InSubtree db other row.executionId →
        .execution row ∈ written := by
      intro row hrow hfound
      refine (h.mem_iff _).mpr ⟨hrow, law.not_touches hid hother hne hrow ?_⟩
      simp [inHistory, HistoryRow.executions, HistoryTables.mem_owned, hfound]
    induction hsubtree with
    | correlated hrow hcorrelated =>
      exact .correlated (hkept _ hrow (.correlated hrow hcorrelated)) hcorrelated
    | child hparent hrow hnamed ih => exact .child ih (hkept _ hrow (.child hparent hrow hnamed)) hnamed

theorem TableLaw.nodup (law : TableLaw db) : db.Nodup := by
  refine law.consistent.unique.imp ?_
  rintro a b hkeys rfl
  cases a <;> exact hkeys _ List.mem_cons_self List.mem_cons_self

/-- What is read back of another session is what it was. -/
theorem Remains.historyOf_eq (law : TableLaw db) (h : Remains db (Touches db id) written)
    (hid : isSessionId id = true) (hother : isSessionId other = true) (hne : other ≠ id) :
    historyOf written other = historyOf db other := by
  have howned : ∀ executionId, executionId ∈ owned written other ↔ executionId ∈ owned db other :=
    fun _ => h.owned_iff law hid hother hne
  have hsame : ∀ row ∈ written, inHistory written other (owned written other) row =
      inHistory db other (owned db other) row := by
    intro row hrow
    cases row with
    | relation recordId ordinal target text =>
      rw [Bool.eq_iff_iff]
      simp only [inHistory, HistoryRow.executions, List.any_eq_true, List.mem_filterMap,
        List.contains_iff_mem, howned]
      constructor
      · rintro ⟨executionId, ⟨found, hfound, hnamed⟩, hexecution⟩
        exact ⟨executionId, ⟨found, h.sublist.subset hfound, hnamed⟩, hexecution⟩
      · rintro ⟨executionId, ⟨found, hfound, hnamed⟩, hexecution⟩
        -- the record is left with its relation
        obtain ⟨parent, hparent, hkey⟩ := h.consistent.resolves _ hrow
          (.record recordId, .cascade) (List.mem_singleton_self _)
        obtain ⟨owner, number, digest, content, rfl⟩ := record_of_key hkey
        cases found with
        | record named before place other body =>
          obtain ⟨rfl, hbefore⟩ := Option.ite_none_right_eq_some.mp hnamed
          have howner : owner = before := law.record_eq (h.sublist.subset hparent) hfound
          exact ⟨executionId, ⟨_, hparent, (if_pos rfl).trans (howner ▸ hbefore)⟩, hexecution⟩
        | _ => cases hnamed
    | _ => simp [inHistory, HistoryRow.executions, howned]
  have hfilter : historyOf written other = written.filter (inHistory db other (owned db other)) :=
    List.filter_congr hsame
  rw [hfilter]
  -- the same rows in the same order
  refine (h.sublist.filter _).eq_of_length_le (List.Nodup.subperm (law.nodup.filter _) ?_).length_le
  intro row hrow
  obtain ⟨hmem, hhistory⟩ := List.mem_filter.mp hrow
  exact List.mem_filter.mpr
    ⟨(h.mem_iff row).mpr ⟨hmem, law.not_touches hid hother hne hmem hhistory⟩, hhistory⟩

end Others

/-- In every store that can be reached, for every session of it whose lock is free, the statements of the
deletion leave the rows that name neither the session nor an execution of its subtree, with every foreign
key resolved and the histories of the other sessions as they were. If no statement fails by itself, that
is what the deletion does; otherwise it does that or nothing. -/
theorem delete_removes_subtree {db : HistoryDb} (hreach : Reachable db) {id text : String}
    (hsession : .session id text ∈ db) :
    ∃ written : HistoryDb, written.Sublist db ∧
      (∀ row, row ∈ written ↔ row ∈ db ∧ ¬ Touches db id row) ∧ schema.Resolves written ∧
      (∀ other content, .session other content ∈ db → other ≠ id →
        historyOf written other = historyOf db other) ∧
      (∀ fails : Nat → Bool, (∀ index, fails index = false) →
        delete true fails db id = some (.ok (), written)) ∧
      (∀ fails : Nat → Bool, delete true fails db id = some (.ok (), written) ∨
        delete true fails db id = some (.error .sessionIoFailure, db)) := by
  have law := hreach.law
  obtain ⟨levels, hlevels⟩ := law.exists_levels id
  obtain ⟨written, hcomposed, hwritten⟩ := law.delete_statements hlevels
  have hid := law.sessions id text hsession
  have hthere : db.any (sessionOf id) = true :=
    List.any_eq_true.mpr ⟨_, hsession, by simp [sessionOf]⟩
  -- the checks pass and the query ends, so the transaction decides
  have hcommits : ∀ fails after,
      transaction fails (deleteStatements id (deepestFirst levels)) db = (true, after) →
      delete true fails db id = some (.ok (), after) := by
    intro fails after htransaction
    simp [delete, hid, hthere, hlevels, htransaction]
  have hrollsBack : ∀ fails after,
      transaction fails (deleteStatements id (deepestFirst levels)) db = (false, after) →
      delete true fails db id = some (.error .sessionIoFailure, after) := by
    intro fails after htransaction
    simp [delete, hid, hthere, hlevels, htransaction]
  refine ⟨written, hwritten.sublist, hwritten.mem_iff, hwritten.consistent.resolves, ?_, ?_, ?_⟩
  · intro other content hother hne
    exact hwritten.historyOf_eq law hid (law.sessions other content hother) hne
  · intro fails hfails
    exact hcommits fails written (transaction_committed hfails hcomposed)
  · intro fails
    rcases transaction_cases hcomposed with hrolled | hcommitted
    · exact .inr (hrollsBack fails db hrolled)
    · exact .inl (hcommits fails written hcommitted)

/-! ## A session with a child execution -/

def exampleSession : String := "00000000-0000-4000-8000-000000000000"

def exampleExecution (id : String) (session parent : Option String) (correlation : String) :
    ExecutionRow where
  executionId := id
  canonicalSessionId := session
  sessionCorrelation := correlation
  taskContentDigest := "task"
  parentExecutionId := parent
  configurationId := none
  terminalRecordId := none
  rest := ""

/-- The session was renamed by a command, which has no execution. -/
def exampleDb : HistoryDb :=
  [.content "task" "", .session exampleSession "",
    .execution (exampleExecution "root" (some exampleSession) none exampleSession),
    .execution (exampleExecution "run" none (some "root") (childCorrelation "root" "run")),
    .commandReceipt "core" "rename" (.session exampleSession) none ""]

theorem reachable_exampleDb : Reachable exampleDb := by
  have hcontent : Reachable [.content "task" ""] :=
    .insert .empty (show Insertable [] (.content "task" "") from trivial) (by decide +kernel)
  have hsession : Reachable [.content "task" "", .session exampleSession ""] :=
    .insert hcontent
      (show Insertable [.content "task" ""] (.session exampleSession "") by
        simp only [Insertable]
        decide +kernel) (by decide +kernel)
  have hroot : Reachable [.content "task" "", .session exampleSession "",
      .execution (exampleExecution "root" (some exampleSession) none exampleSession)] :=
    .insert hsession
      (show Insertable _ (.execution (exampleExecution "root" (some exampleSession) none exampleSession)) from
        ⟨rfl, .inl ⟨rfl, rfl⟩⟩) (by decide +kernel)
  have hrun : Reachable [.content "task" "", .session exampleSession "",
      .execution (exampleExecution "root" (some exampleSession) none exampleSession),
      .execution (exampleExecution "run" none (some "root") (childCorrelation "root" "run"))] :=
    .insert hroot
      (show Insertable _ (.execution (exampleExecution "run" none (some "root")
        (childCorrelation "root" "run"))) from
        ⟨rfl, .inr (.inr ⟨rfl, "root", rfl, by decide, rfl⟩)⟩) (by decide +kernel)
  exact .insert hrun
    (show Insertable _ (.commandReceipt "core" "rename" (.session exampleSession) none "") from trivial)
    (by decide +kernel)

theorem delete_of_exampleDb :
    ∃ written : HistoryDb, written.Sublist exampleDb ∧ schema.Resolves written ∧
      delete true (fun _ => false) exampleDb exampleSession = some (.ok (), written) := by
  obtain ⟨written, hsublist, _, hresolves, _, hdelete, _⟩ :=
    delete_removes_subtree reachable_exampleDb
      (show .session exampleSession "" ∈ exampleDb from List.mem_cons_of_mem _ List.mem_cons_self)
  exact ⟨written, hsublist, hresolves, hdelete _ fun _ => rfl⟩

/-- A receipt that names the session as the target of its command stays. -/
theorem receipt_after_delete : Reachable exampleDb ∧
    delete true (fun _ => false) exampleDb exampleSession =
      some (.ok (), [.content "task" "", .commandReceipt "core" "rename" (.session exampleSession) none ""]) :=
  ⟨reachable_exampleDb, by decide +kernel⟩

end HistoryTables

end Henji
