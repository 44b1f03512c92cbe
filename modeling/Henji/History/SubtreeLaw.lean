import Henji.History.SessionDelete
import Henji.History.TableLaw

/-!
# The subtree of a session

The two queries of `delete` find the same executions, those of the session and their descendants. The
query with depths ends, for a child is younger than its parent, and its order puts children first.
-/

namespace Henji

namespace HistoryTables

open Relational

/-- The executions of the session: correlated to it, or reached through parents. -/
inductive InSubtree (db : HistoryDb) (id : String) : String → Prop
  | correlated {row : ExecutionRow} : .execution row ∈ db →
      row.canonicalSessionId = some id ∨ row.sessionCorrelation = id → InSubtree db id row.executionId
  | child {row : ExecutionRow} {parent : String} : InSubtree db id parent → .execution row ∈ db →
      row.parentExecutionId = some parent → InSubtree db id row.executionId

section Queries

variable {db : HistoryDb} {id : String}

theorem correlated_iff {row : ExecutionRow} : Correlated id (.execution row) = true ↔
    row.canonicalSessionId = some id ∨ row.sessionCorrelation = id := by
  simp [Correlated]

theorem InSubtree.of_reached {row : HistoryRow}
    (h : Saturation.Reached childOf db (Correlated id) row) :
    ∃ found, row = .execution found ∧ InSubtree db id found.executionId := by
  induction h with
  | @seed row hmem hseed =>
    cases row with
    | execution found => exact ⟨found, rfl, .correlated hmem (correlated_iff.mp hseed)⟩
    | _ => cases hseed
  | @step parent row _ hmem hstep ih =>
    obtain ⟨found, rfl, hparent⟩ := ih
    cases row with
    | execution child => exact ⟨child, rfl, .child hparent hmem (by simpa [childOf] using hstep)⟩
    | _ => cases hstep

theorem InSubtree.reached {executionId : String} (h : InSubtree db id executionId) :
    ∃ row, row.executionId = executionId ∧
      Saturation.Reached childOf db (Correlated id) (.execution row) := by
  induction h with
  | correlated hmem hcorrelated => exact ⟨_, rfl, .seed hmem (correlated_iff.mpr hcorrelated)⟩
  | child _ hmem hparent ih =>
    obtain ⟨parent, rfl, hreached⟩ := ih
    exact ⟨_, rfl, .step hreached hmem (by simp [childOf, hparent])⟩

theorem mem_owned {executionId : String} :
    executionId ∈ owned db id ↔ InSubtree db id executionId := by
  rw [owned, List.mem_filterMap]
  constructor
  · rintro ⟨row, hrow, hid⟩
    obtain ⟨found, rfl, hfound⟩ := InSubtree.of_reached (Saturation.mem_saturate.mp hrow)
    exact Option.some.inj hid ▸ hfound
  · intro h
    obtain ⟨row, rfl, hreached⟩ := h.reached
    exact ⟨.execution row, Saturation.mem_saturate.mpr hreached, rfl⟩

theorem InSubtree.exists_row {executionId : String} (h : InSubtree db id executionId) :
    ∃ row, .execution row ∈ db ∧ row.executionId = executionId := by
  cases h with
  | correlated hmem _ => exact ⟨_, hmem, rfl⟩
  | child _ hmem _ => exact ⟨_, hmem, rfl⟩

/-- Only the rows of the executions count. -/
theorem InSubtree.mono {other : HistoryDb} {executionId : String}
    (hrows : ∀ row, .execution row ∈ db → .execution row ∈ other) (h : InSubtree db id executionId) :
    InSubtree other id executionId := by
  induction h with
  | correlated hmem hcorrelated => exact .correlated (hrows _ hmem) hcorrelated
  | child _ hmem hparent ih => exact .child ih (hrows _ hmem) hparent

/-- A canonical execution of the subtree is one of the session itself. -/
theorem TableLaw.canonical_of_subtree (law : TableLaw db) {executionId : String}
    (h : InSubtree db id executionId) {row : ExecutionRow} (hrow : .execution row ∈ db)
    (hid : row.executionId = executionId) {sessionId : String}
    (hcanonical : row.canonicalSessionId = some sessionId) : sessionId = id := by
  obtain ⟨hcorrelation, hnone⟩ := law.canonical row hrow sessionId hcanonical
  cases h with
  | correlated hmem hcorrelated =>
    cases law.execution_eq hrow hmem hid
    rcases hcorrelated with hsame | hsame
    · exact Option.some.inj (hcanonical.symm.trans hsame)
    · exact hcorrelation.symm.trans hsame
  | child _ hmem hparent =>
    cases law.execution_eq hrow hmem hid
    exact absurd (hnone.symm.trans hparent) (by simp)

/-! ## The query with depths -/

theorem mem_roots {executionId : String} : executionId ∈ roots db id ↔
    ∃ row, .execution row ∈ db ∧ row.executionId = executionId ∧
      (row.canonicalSessionId = some id ∨ row.sessionCorrelation = id) := by
  rw [roots, List.mem_filterMap]
  constructor
  · rintro ⟨row, hrow, hid⟩
    obtain ⟨hmem, hcorrelated⟩ := List.mem_filter.mp hrow
    cases row with
    | execution found => exact ⟨found, hmem, Option.some.inj hid, correlated_iff.mp hcorrelated⟩
    | _ => cases hid
  · rintro ⟨row, hmem, rfl, hcorrelated⟩
    exact ⟨.execution row, List.mem_filter.mpr ⟨hmem, correlated_iff.mpr hcorrelated⟩, rfl⟩

theorem mem_children {parent executionId : String} : executionId ∈ children db parent ↔
    ∃ row, .execution row ∈ db ∧ row.executionId = executionId ∧
      row.parentExecutionId = some parent := by
  rw [children, List.mem_filterMap]
  constructor
  · rintro ⟨row, hrow, hid⟩
    cases row with
    | execution found =>
      obtain ⟨hparent, hfound⟩ := Option.ite_none_right_eq_some.mp hid
      exact ⟨found, hrow, Option.some.inj hfound, hparent⟩
    | _ => cases hid
  · rintro ⟨row, hmem, rfl, hparent⟩
    exact ⟨.execution row, hmem, if_pos hparent⟩

/-- The rows of one level stand at least as far down the table as the level is deep, for a child stands
below its parent. -/
theorem TableLaw.descend_ends (law : TableLaw db) {fuel depth : Nat} {level : List String}
    (hlevel : ∀ executionId ∈ level, ∃ index row, depth ≤ index ∧
      db[index]? = some (.execution row) ∧ row.executionId = executionId)
    (hfuel : db.length ≤ fuel + depth) : ∃ levels, descend db fuel level = some levels := by
  induction fuel generalizing depth level with
  | zero =>
    cases level with
    | nil => exact ⟨[], rfl⟩
    | cons first rest =>
      obtain ⟨index, row, hdepth, hrow, _⟩ := hlevel first List.mem_cons_self
      have hindex : index < db.length := (List.getElem?_eq_some_iff.mp hrow).1
      omega
  | succ fuel ih =>
    cases level with
    | nil => exact ⟨[], rfl⟩
    | cons first rest =>
      have hnext : ∀ executionId ∈ (first :: rest).flatMap (children db), ∃ index row,
          depth + 1 ≤ index ∧ db[index]? = some (.execution row) ∧ row.executionId = executionId := by
        intro executionId hchild
        obtain ⟨parent, hparent, hchild⟩ := List.mem_flatMap.mp hchild
        obtain ⟨above, parentRow, hdepth, hparentRow, hparentId⟩ := hlevel parent hparent
        obtain ⟨row, hrow, hid, hrowParent⟩ := mem_children.mp hchild
        obtain ⟨index, hindex⟩ := List.mem_iff_getElem?.mp hrow
        refine ⟨index, row, ?_, hindex, hid⟩
        -- the child stands neither above its parent nor in its place
        obtain ⟨hindexBound, hindexRow⟩ := List.getElem?_eq_some_iff.mp hindex
        obtain ⟨haboveBound, haboveRow⟩ := List.getElem?_eq_some_iff.mp hparentRow
        rcases Nat.lt_trichotomy index above with hbefore | hsame | hafter
        · have hyounger := List.pairwise_iff_getElem.mp law.older index above hindexBound haboveBound
            hbefore row parentRow hindexRow haboveRow
          exact absurd (hparentId ▸ hrowParent) hyounger
        · subst hsame
          have hself : row = parentRow := HistoryRow.execution.inj (hindexRow.symm.trans haboveRow)
          exact absurd (hparentId.symm.trans (by rw [hself])) (law.child row hrow parent hrowParent).1
        · omega
      obtain ⟨levels, hlevels⟩ := ih hnext (by omega)
      exact ⟨(first :: rest) :: levels, by rw [descend, hlevels, Option.map_some]⟩

theorem TableLaw.exists_levels (law : TableLaw db) (id : String) :
    ∃ levels, descend db (db.length + 1) (roots db id) = some levels := by
  have hroots : ∀ executionId ∈ roots db id, ∃ index row, 0 ≤ index ∧
      db[index]? = some (.execution row) ∧ row.executionId = executionId := by
    intro executionId hroot
    obtain ⟨row, hrow, hid, _⟩ := mem_roots.mp hroot
    obtain ⟨index, hindex⟩ := List.mem_iff_getElem?.mp hrow
    exact ⟨index, row, Nat.zero_le _, hindex, hid⟩
  exact law.descend_ends hroots (Nat.le_succ _)

theorem mem_deepestFirst {levels : List (List String)} {executionId : String} :
    executionId ∈ deepestFirst levels ↔ ∃ level ∈ levels, executionId ∈ level := by
  induction levels with
  | nil => simp [deepestFirst]
  | cons level deeper ih =>
    simp only [deepestFirst, List.mem_append, List.mem_eraseDups, List.mem_filter, List.mem_cons,
      exists_eq_or_imp, ih]
    by_cases hdeeper : executionId ∈ deepestFirst deeper
    · simp [hdeeper, ih.mp hdeeper]
    · have hnone : ¬ ∃ found ∈ deeper, executionId ∈ found := fun h => hdeeper (ih.mpr h)
      simp [hdeeper, hnone]

/-- The first level is among the levels. -/
theorem mem_of_descend {fuel : Nat} {level : List String} {levels : List (List String)}
    (h : descend db fuel level = some levels) {executionId : String} (hmem : executionId ∈ level) :
    executionId ∈ deepestFirst levels := by
  cases level with
  | nil => cases hmem
  | cons first rest =>
    cases fuel with
    | zero => cases h
    | succ fuel =>
      obtain ⟨deeper, _, hlevels⟩ := Option.map_eq_some_iff.mp h
      exact mem_deepestFirst.mpr ⟨_, hlevels ▸ List.mem_cons_self, hmem⟩

/-- What holds of the first level and goes over to children holds of what is found. -/
theorem descend_keeps {P : String → Prop} (hchild : ∀ parent executionId, P parent →
      executionId ∈ children db parent → P executionId)
    {fuel : Nat} {level : List String} {levels : List (List String)}
    (h : descend db fuel level = some levels) (hlevel : ∀ executionId ∈ level, P executionId) :
    ∀ executionId ∈ deepestFirst levels, P executionId := by
  induction fuel generalizing level levels with
  | zero =>
    cases level with
    | nil =>
      cases h
      intro _ hmem
      cases hmem
    | cons first rest => cases h
  | succ fuel ih =>
    cases level with
    | nil =>
      cases h
      intro _ hmem
      cases hmem
    | cons first rest =>
      obtain ⟨deeper, hdeeper, rfl⟩ := Option.map_eq_some_iff.mp h
      have hnext := ih hdeeper (by
        intro executionId hmem
        obtain ⟨parent, hparent, hmem⟩ := List.mem_flatMap.mp hmem
        exact hchild parent executionId (hlevel parent hparent) hmem)
      intro executionId hmem
      obtain ⟨found, hfound, hmem⟩ := mem_deepestFirst.mp hmem
      rcases List.mem_cons.mp hfound with rfl | hfound
      · exact hlevel executionId hmem
      · exact hnext executionId (mem_deepestFirst.mpr ⟨found, hfound, hmem⟩)

/-- Children come before their parent. -/
theorem children_first {fuel : Nat} {level : List String} {levels : List (List String)}
    (h : descend db fuel level = some levels) {pre post : List String} {parent : String}
    (hsplit : deepestFirst levels = pre ++ parent :: post) :
    ∀ executionId ∈ children db parent, executionId ∈ pre := by
  induction fuel generalizing level levels pre post with
  | zero =>
    cases level with
    | nil =>
      cases h
      simp [deepestFirst] at hsplit
    | cons first rest => cases h
  | succ fuel ih =>
    cases level with
    | nil =>
      cases h
      simp [deepestFirst] at hsplit
    | cons first rest =>
      obtain ⟨deeper, hdeeper, rfl⟩ := Option.map_eq_some_iff.mp h
      simp only [deepestFirst] at hsplit
      rcases List.append_eq_append_iff.mp hsplit with ⟨middle, hpre, hnew⟩ | ⟨middle, hfound, hpost⟩
      · -- the parent is of this level, its children of the next
        have hparent : parent ∈ first :: rest := by
          have hmem : parent ∈ ((first :: rest).filter fun id =>
              !(deepestFirst deeper).contains id).eraseDups := hnew ▸ by simp
          exact (List.mem_filter.mp (List.mem_eraseDups.mp hmem)).1
        intro executionId hchild
        rw [hpre]
        exact List.mem_append_left _ (mem_of_descend hdeeper (List.mem_flatMap.mpr ⟨parent, hparent, hchild⟩))
      · cases middle with
        | nil =>
          have hparent : parent ∈ first :: rest := by
            have hmem : parent ∈ ((first :: rest).filter fun id =>
                !(deepestFirst deeper).contains id).eraseDups := by
              rw [List.nil_append] at hpost
              exact hpost ▸ List.mem_cons_self
            exact (List.mem_filter.mp (List.mem_eraseDups.mp hmem)).1
          intro executionId hchild
          rw [List.append_nil] at hfound
          exact hfound ▸ mem_of_descend hdeeper (List.mem_flatMap.mpr ⟨parent, hparent, hchild⟩)
        | cons head tail =>
          obtain ⟨rfl, _⟩ := List.cons.inj hpost
          exact ih hdeeper hfound

/-- The executions that are deleted are those of the subtree. -/
theorem mem_order {fuel : Nat} {levels : List (List String)}
    (h : descend db fuel (roots db id) = some levels) {executionId : String} :
    executionId ∈ deepestFirst levels ↔ InSubtree db id executionId := by
  constructor
  · refine descend_keeps ?_ h ?_ executionId
    · intro parent executionId hparent hchild
      obtain ⟨row, hrow, rfl, hrowParent⟩ := mem_children.mp hchild
      exact .child hparent hrow hrowParent
    · intro executionId hroot
      obtain ⟨row, hrow, rfl, hcorrelated⟩ := mem_roots.mp hroot
      exact .correlated hrow hcorrelated
  · intro hsubtree
    induction hsubtree with
    | correlated hmem hcorrelated =>
      exact mem_of_descend h (mem_roots.mpr ⟨_, hmem, rfl, hcorrelated⟩)
    | child _ hmem hparent ih =>
      obtain ⟨pre, post, hsplit⟩ := List.append_of_mem ih
      have hchild := children_first h hsplit _ (mem_children.mpr ⟨_, hmem, rfl, hparent⟩)
      rw [hsplit]
      exact List.mem_append_left _ hchild

end Queries

end HistoryTables

end Henji
