import Henji.History.SubtreeLaw

/-!
# What the deletion of a session leaves

Every statement of the transaction finds its rows without a reference from a row that stays. The rows of an
execution refer to each other only, once its children, its turn and its recalls are gone.
-/

namespace Henji

namespace HistoryTables

open Relational

/-! ## Statements over what is left -/

/-- What is left of the rows when the rows `gone` are deleted. -/
structure Remains (db : HistoryDb) (gone : HistoryRow → Prop) (rest : HistoryDb) : Prop where
  sublist : rest.Sublist db
  mem_iff : ∀ row, row ∈ rest ↔ row ∈ db ∧ ¬ gone row
  consistent : schema.Consistent rest

/-- The keys that some foreign key refers to. -/
def isTarget : HistoryKey → Bool
  | .content _ => true
  | .session _ => true
  | .configuration _ => true
  | .execution _ => true
  | .message _ _ => true
  | .turnNumber _ _ => true
  | .record _ => true
  | _ => false

theorem isTarget_of_nullable {α : Type} {key : α → HistoryKey} (hkey : ∀ value, isTarget (key value) = true)
    {value : Option α} {ref : HistoryKey × OnDelete} (href : ref ∈ nullable key value) :
    isTarget ref.1 = true := by
  obtain ⟨found, _, rfl⟩ := mem_nullable.mp href
  exact hkey found

theorem isTarget_of_ref {row : HistoryRow} {ref : HistoryKey × OnDelete} (href : ref ∈ row.refs) :
    isTarget ref.1 = true := by
  cases row with
  | execution found =>
    simp only [HistoryRow.refs, List.mem_append, List.mem_singleton] at href
    rcases href with (((hsession | rfl) | hparent) | hconfiguration) | hrecord
    · exact isTarget_of_nullable (fun _ => rfl) hsession
    · rfl
    · exact isTarget_of_nullable (fun _ => rfl) hparent
    · exact isTarget_of_nullable (fun _ => rfl) hconfiguration
    · exact isTarget_of_nullable (fun _ => rfl) hrecord
  | record recordId executionId ordinal digest rest =>
    rcases List.mem_cons.mp href with rfl | hdigest
    · rfl
    · exact isTarget_of_nullable (fun _ => rfl) hdigest
  | readCursor dataInstanceId correlation latest rest => exact isTarget_of_nullable (fun _ => rfl) href
  | _ =>
    simp only [HistoryRow.refs, List.mem_cons, List.not_mem_nil, or_false] at href <;>
      rcases href with rfl | rfl | rfl <;> rfl

/-- A row that no foreign key can name. -/
def Unreferenced (row : HistoryRow) : Prop := ∀ key ∈ row.keys, isTarget key = false

theorem Unreferenced.not_refers {parent child : HistoryRow} (h : Unreferenced parent) :
    schema.refers parent child = false := by
  cases hrefers : schema.refers parent child with
  | false => rfl
  | true =>
    obtain ⟨ref, href, hkey⟩ := Schema.refers_iff.mp hrefers
    exact absurd ((isTarget_of_ref href).symm.trans (h ref.1 hkey)) (by decide)

section Left

variable {db rest : HistoryDb} {gone : HistoryRow → Prop}

theorem Remains.start (law : TableLaw db) : Remains db (fun _ => False) db where
  sublist := List.Sublist.refl _
  mem_iff := by simp
  consistent := law.consistent

theorem Remains.congr {other : HistoryRow → Prop} (h : Remains db gone rest)
    (hsame : ∀ row ∈ db, (gone row ↔ other row)) : Remains db other rest where
  sublist := h.sublist
  mem_iff := by
    intro row
    rw [h.mem_iff]
    constructor
    · rintro ⟨hmem, hkept⟩
      exact ⟨hmem, fun hother => hkept ((hsame row hmem).mpr hother)⟩
    · rintro ⟨hmem, hkept⟩
      exact ⟨hmem, fun hgone => hkept ((hsame row hmem).mp hgone)⟩
  consistent := h.consistent

open Classical in
/-- A statement deletes the rows `taken`: its own with what cascades from them. -/
theorem Remains.delete {p : HistoryRow → Bool} {taken : HistoryRow → Prop} (h : Remains db gone rest)
    (hown : ∀ row ∈ rest, p row = true → taken row)
    (hclosed : ∀ parent ∈ rest, ∀ child ∈ rest, taken parent → schema.refers parent child = true →
      taken child)
    (hreached : ∀ row ∈ rest, taken row → Saturation.Reached schema.cascades rest p row) :
    ∃ left, schema.delete p rest = some left ∧ Remains db (fun row => gone row ∨ taken row) left := by
  have hdelete := Schema.delete_eq (S := schema) (q := fun row => decide (taken row)) h.consistent
    (by simpa using hown) (by simpa using hclosed) (by simpa using hreached)
  obtain ⟨hleft, hconsistent⟩ := Schema.consistent_of_check hdelete
  refine ⟨_, hdelete, List.filter_sublist.trans h.sublist, ?_, hleft ▸ hconsistent⟩
  intro row
  rw [List.mem_filter, h.mem_iff]
  simp only [Bool.not_eq_true', decide_eq_false_iff_not, not_or, and_assoc]

/-- Rows that nothing names go alone. -/
theorem Remains.delete_alone {p : HistoryRow → Bool} (h : Remains db gone rest)
    (hfree : ∀ row, p row = true → Unreferenced row) :
    ∃ left, schema.delete p rest = some left ∧ Remains db (fun row => gone row ∨ p row = true) left := by
  refine h.delete (fun _ _ hrow => hrow) ?_ (fun _ hmem hrow => .seed hmem hrow)
  intro parent _ child _ hparent hrefers
  exact absurd (hrefers.symm.trans (hfree parent hparent).not_refers) (by decide)

/-- The same statement for each of the executions. -/
theorem Remains.delete_each {p : String → HistoryRow → Bool} (h : Remains db gone rest)
    (hfree : ∀ id row, p id row = true → Unreferenced row) (executions : List String) :
    ∃ left, compose (executions.map fun id => schema.delete (p id)) rest = some left ∧
      Remains db (fun row => gone row ∨ ∃ id ∈ executions, p id row = true) left := by
  induction executions generalizing gone rest with
  | nil => exact ⟨rest, rfl, h.congr fun row _ => by simp⟩
  | cons id others ih =>
    obtain ⟨next, hnext, hremains⟩ := h.delete_alone (hfree id)
    obtain ⟨left, hleft, hrest⟩ := ih hremains
    refine ⟨left, ?_, hrest.congr fun row _ => ?_⟩
    · rw [List.map_cons, compose, hnext, Option.bind_some]
      exact hleft
    · simp only [List.mem_cons, exists_eq_or_imp, or_assoc]

end Left

/-! ## The rows of an execution -/

section Execution

variable {db rest : HistoryDb}

/-- What cascades from an execution. -/
def BelongsTo (db : HistoryDb) (id : String) : HistoryRow → Prop
  | .execution row => row.executionId = id
  | .displayPosition _ _ executionId => executionId = id
  | .message executionId _ _ => executionId = id
  | .record _ executionId _ _ _ => executionId = id
  | .relation recordId _ _ _ => ∃ ordinal digest text, .record recordId id ordinal digest text ∈ db
  | .textState executionId _ _ _ _ => executionId = id
  | .context executionId _ => executionId = id
  | .diagnostic _ executionId _ => executionId = id
  | .controlFact executionId _ => executionId = id
  | _ => False

/-- What names an execution without cascading from it, or names a message of it. -/
def Names (id : String) : HistoryRow → Prop
  | .execution row => row.parentExecutionId = some id
  | .turn _ _ _ executionId => executionId = id
  | .conversationMessage _ _ _ executionId _ => executionId = id
  | .recallRelation source target _ => source = id ∨ target = id
  | .readCursor _ _ latest _ => latest = some id
  | _ => False

theorem TableLaw.record_eq (law : TableLaw db) {recordId : RecordId} {a b : String} {n m : Nat}
    {c d : Option String} {s t : String} (ha : .record recordId a n c s ∈ db)
    (hb : .record recordId b m d t ∈ db) : a = b := by
  have hkey : ∀ a n c s, HistoryKey.record recordId ∈ schema.keys (.record recordId a n c s) :=
    fun _ _ _ _ => List.mem_cons_self
  exact (HistoryRow.record.inj (law.consistent.unique.eq_of_key ha hb (hkey _ _ _ _) (hkey _ _ _ _))).2.1

theorem belongs_of_execution_ref {id : String} {child : HistoryRow} {action : OnDelete}
    (href : (HistoryKey.execution id, action) ∈ child.refs) :
    BelongsTo db id child ∨ Names id child := by
  cases child with
  | execution row =>
    simp only [HistoryRow.refs, List.mem_append, List.mem_singleton, mem_nullable, Prod.mk.injEq,
      reduceCtorEq, false_and, and_false, exists_false, false_or, or_false] at href
    obtain ⟨found, hparent, hsame, _⟩ := href
    exact .inr (hparent.trans (congrArg some (HistoryKey.execution.inj hsame).symm))
  | readCursor dataInstanceId correlation latest text =>
    obtain ⟨found, hlatest, hsame⟩ := mem_nullable.mp href
    simp only [Prod.mk.injEq, HistoryKey.execution.injEq] at hsame
    exact .inr (hlatest.trans (congrArg some hsame.1.symm))
  | turn sessionId turnOrdinal turnNumber executionId =>
    simp only [HistoryRow.refs, List.mem_cons, Prod.mk.injEq, reduceCtorEq, HistoryKey.execution.injEq,
      List.not_mem_nil, false_and, false_or, or_false] at href
    exact .inr href.1.symm
  | recallRelation source target recordId =>
    simp only [HistoryRow.refs, List.mem_cons, Prod.mk.injEq, reduceCtorEq, HistoryKey.execution.injEq,
      List.not_mem_nil, false_and, or_false] at href
    rcases href with ⟨hsource, _⟩ | ⟨htarget, _⟩
    · exact .inr (.inl hsource.symm)
    · exact .inr (.inr htarget.symm)
  | _ =>
    simp [HistoryRow.refs, mem_nullable] at href <;> exact .inl href.1.symm

theorem names_of_message_ref {id : String} {ordinal : Nat} {child : HistoryRow} {action : OnDelete}
    (href : (HistoryKey.message id ordinal, action) ∈ child.refs) : Names id child := by
  cases child with
  | conversationMessage sessionId number turnNumber executionId executionOrdinal =>
    simp only [HistoryRow.refs, List.mem_cons, Prod.mk.injEq, reduceCtorEq, HistoryKey.message.injEq,
      List.not_mem_nil, false_and, false_or, or_false] at href
    exact href.1.1.symm
  | _ => simp [HistoryRow.refs, mem_nullable] at href

theorem TableLaw.belongs_of_record_ref (law : TableLaw db) {id : String} {recordId : RecordId}
    {ordinal : Nat} {digest : Option String} {text : String}
    (hrecord : .record recordId id ordinal digest text ∈ db) {child : HistoryRow} (hchild : child ∈ db)
    {action : OnDelete} (href : (HistoryKey.record recordId, action) ∈ child.refs) :
    BelongsTo db id child ∨ Names id child := by
  cases child with
  | execution row =>
    simp only [HistoryRow.refs, List.mem_append, List.mem_singleton, mem_nullable, Prod.mk.injEq,
      reduceCtorEq, false_and, and_false, exists_false, false_or] at href
    obtain ⟨found, hterminal, hsame, _⟩ := href
    cases hsame
    exact .inl (law.terminal row hchild recordId hterminal id ordinal digest text hrecord).symm
  | relation named number target other =>
    simp only [HistoryRow.refs, List.mem_singleton, Prod.mk.injEq, HistoryKey.record.injEq] at href
    exact .inl ⟨ordinal, digest, text, href.1 ▸ hrecord⟩
  | recallRelation source target named =>
    simp only [HistoryRow.refs, List.mem_cons, Prod.mk.injEq, reduceCtorEq, HistoryKey.record.injEq,
      List.not_mem_nil, false_and, false_or, or_false] at href
    -- a recall names the second record of its target
    obtain ⟨rfl, _⟩ := href
    have hsecond := law.recalls source target recordId hchild
    subst hsecond
    exact .inr (.inr (law.semantic _ _ _ _ _ _ hrecord).symm)
  | _ => simp [HistoryRow.refs, mem_nullable] at href

/-- Whoever names a row of an execution belongs to it, or names the execution. -/
theorem TableLaw.belongs_of_refers (law : TableLaw db) {id : String} {parent child : HistoryRow}
    (hparent : parent ∈ db) (hchild : child ∈ db) (hbelongs : BelongsTo db id parent)
    (hrefers : schema.refers parent child = true) : BelongsTo db id child ∨ Names id child := by
  obtain ⟨⟨key, action⟩, href, hkey⟩ := Schema.refers_iff.mp hrefers
  have htarget : isTarget key = true := isTarget_of_ref href
  change key ∈ parent.keys at hkey
  change (key, action) ∈ child.refs at href
  cases parent with
  | execution row =>
    rw [List.mem_singleton.mp hkey, show row.executionId = id from hbelongs] at href
    exact belongs_of_execution_ref href
  | message executionId ordinal digest =>
    rw [List.mem_singleton.mp hkey, show executionId = id from hbelongs] at href
    exact .inr (names_of_message_ref href)
  | record recordId executionId ordinal digest text =>
    have hid : executionId = id := hbelongs
    subst hid
    rcases List.mem_cons.mp hkey with hsame | hsame
    · exact law.belongs_of_record_ref hparent hchild (hsame ▸ href)
    · rw [List.mem_singleton.mp hsame] at htarget
      cases htarget
  | _ =>
    -- the other keys are not referred to
    simp only [HistoryRow.keys, List.mem_cons, List.not_mem_nil, or_false] at hkey
    first
    | exact hbelongs.elim
    | (rcases hkey with rfl | rfl | rfl <;> cases htarget)

variable {gone : HistoryRow → Prop}

/-- The rows of an execution that is there cascade from it. -/
theorem Remains.reached (law : TableLaw db) (h : Remains db gone rest) {id : String} {row : HistoryRow}
    (hrow : row ∈ rest) (hbelongs : BelongsTo db id row) :
    Saturation.Reached schema.cascades rest (executionOf id) row := by
  have hdirect : ∀ child ∈ rest, (HistoryKey.execution id, OnDelete.cascade) ∈ child.refs →
      Saturation.Reached schema.cascades rest (executionOf id) child := by
    intro child hchild href
    obtain ⟨parent, hparent, hkey⟩ := h.consistent.resolves child hchild _ href
    obtain ⟨found, rfl, hid⟩ := execution_of_key hkey
    refine .step (.seed hparent ?_) hchild (Schema.cascades_iff.mpr ⟨_, href, rfl, hkey⟩)
    simp [executionOf, hid]
  cases row with
  | execution found =>
    refine .seed hrow ?_
    simp [executionOf, show found.executionId = id from hbelongs]
  | relation recordId ordinal target text =>
    -- a relation goes with its record
    obtain ⟨number, digest, content, hstored⟩ := hbelongs
    have href : (HistoryKey.record recordId, OnDelete.cascade) ∈
        (HistoryRow.relation recordId ordinal target text).refs := List.mem_singleton_self _
    obtain ⟨parent, hparent, hkey⟩ := h.consistent.resolves _ hrow _ href
    obtain ⟨executionId, place, other, body, rfl⟩ := record_of_key hkey
    have hid : executionId = id := law.record_eq (h.sublist.subset hparent) hstored
    have hrecord := hdirect _ hparent (hid ▸ List.mem_cons_self)
    exact .step hrecord hrow (Schema.cascades_iff.mpr ⟨_, href, rfl, hkey⟩)
  | turn _ _ _ _ => exact hbelongs.elim
  | conversationMessage _ _ _ _ _ => exact hbelongs.elim
  | recallRelation _ _ _ => exact hbelongs.elim
  | readCursor _ _ _ _ => exact hbelongs.elim
  | content _ _ => exact hbelongs.elim
  | session _ _ => exact hbelongs.elim
  | configuration _ _ _ => exact hbelongs.elim
  | modelChange _ _ _ => exact hbelongs.elim
  | commandReceipt _ _ _ _ _ => exact hbelongs.elim
  | followUp _ _ _ _ _ _ _ => exact hbelongs.elim
  | coreCursor _ _ _ => exact hbelongs.elim
  | displayPosition _ _ executionId =>
    exact hdirect _ hrow (by simp [HistoryRow.refs, show executionId = id from hbelongs])
  | message executionId _ _ =>
    exact hdirect _ hrow (by simp [HistoryRow.refs, show executionId = id from hbelongs])
  | record _ executionId _ _ _ =>
    exact hdirect _ hrow (by simp [HistoryRow.refs, show executionId = id from hbelongs])
  | textState executionId _ _ _ _ =>
    exact hdirect _ hrow (by simp [HistoryRow.refs, show executionId = id from hbelongs])
  | context executionId _ =>
    exact hdirect _ hrow (by simp [HistoryRow.refs, show executionId = id from hbelongs])
  | diagnostic _ executionId _ =>
    exact hdirect _ hrow (by simp [HistoryRow.refs, show executionId = id from hbelongs])
  | controlFact executionId _ =>
    exact hdirect _ hrow (by simp [HistoryRow.refs, show executionId = id from hbelongs])

/-- An execution that nothing names any more goes with what cascades from it. -/
theorem Remains.delete_execution (law : TableLaw db) (h : Remains db gone rest) {id : String}
    (hnames : ∀ row ∈ rest, ¬ Names id row) :
    ∃ left, schema.delete (executionOf id) rest = some left ∧
      Remains db (fun row => gone row ∨ BelongsTo db id row) left := by
  refine h.delete ?_ ?_ (fun row hrow hbelongs => h.reached law hrow hbelongs)
  · intro row _ hrow
    cases row with
    | execution found =>
      have hid : found.executionId = id := by simpa [executionOf] using hrow
      exact hid
    | _ => cases hrow
  · intro parent hparent child hchild hbelongs hrefers
    rcases law.belongs_of_refers (h.sublist.subset hparent) (h.sublist.subset hchild) hbelongs hrefers
      with hown | hnamed
    · exact hown
    · exact absurd hnamed (hnames child hchild)

/-- The executions go one after the other, children before their parent. -/
theorem Remains.delete_executions (law : TableLaw db) {base : HistoryRow → Prop} {executions : List String}
    (hnames : ∀ id ∈ executions, ∀ row ∈ db, Names id row → base row ∨ ∃ found, row = .execution found)
    (hfirst : ∀ pre post id, executions = pre ++ id :: post → ∀ child ∈ children db id, child ∈ pre)
    {pre todo : List String} (hsplit : executions = pre ++ todo)
    (h : Remains db (fun row => base row ∨ ∃ id ∈ pre, BelongsTo db id row) rest) :
    ∃ left, compose (todo.map fun id => schema.delete (executionOf id)) rest = some left ∧
      Remains db (fun row => base row ∨ ∃ id ∈ executions, BelongsTo db id row) left := by
  induction todo generalizing pre rest with
  | nil => exact ⟨rest, rfl, by rwa [hsplit, List.append_nil]⟩
  | cons id others ih =>
    have hfree : ∀ row ∈ rest, ¬ Names id row := by
      intro row hrow hnamed
      obtain ⟨hmem, hkept⟩ := (h.mem_iff row).mp hrow
      have hid : id ∈ executions := hsplit ▸ List.mem_append_right _ List.mem_cons_self
      rcases hnames id hid row hmem hnamed with hbase | ⟨found, rfl⟩
      · exact hkept (.inl hbase)
      · have hchild := hfirst pre others id hsplit found.executionId
          (mem_children.mpr ⟨found, hmem, rfl, hnamed⟩)
        exact hkept (.inr ⟨found.executionId, hchild, rfl⟩)
    obtain ⟨next, hnext, hremains⟩ := h.delete_execution law hfree
    have hsplit' : executions = (pre ++ [id]) ++ others := by simp [hsplit]
    obtain ⟨left, hleft, hrest⟩ := ih hsplit' (hremains.congr fun row _ => by
      simp only [List.mem_append, List.mem_singleton, or_and_right, exists_or, exists_eq_left, or_assoc])
    refine ⟨left, ?_, hrest⟩
    rw [List.map_cons, compose, hnext, Option.bind_some]
    exact hleft

end Execution

end HistoryTables

end Henji
