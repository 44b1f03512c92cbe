import Henji.Conversation.Model
import Mathlib.Algebra.Ring.Nat
import Mathlib.Data.List.Sort

/-!
# Pages of a session's executions

A page holds at most 50 executions and about two MiB of their content, one execution at least. The
latest page takes the active execution first and then the settled ones from the newest on, so it has
a gap where settled executions above the active one do not fit beside it.

Results:
1. `addRows_spec`: a page takes the longest front of its rows that fits.
2. `older_covers`, `newer_covers`: reading on takes up all executions below, and above, a page.
3. `pages_cover`: the pages cover the session exactly if the settled executions above the active one
   fit in the latest page.
4. `settled_between_lost`: an execution that no page shows.
-/

namespace Henji

/-- A display position with its execution; `bodyBytes` is the estimate of its content. -/
structure PageRow where
  executionOrder : Nat
  executionId : ExecutionId
  active : Bool
  bodyBytes : Nat
deriving DecidableEq, Repr

/-- `StoredSessionConversationPage`. -/
structure ConversationPage where
  page : PageMetadata
  executions : List PageRow
deriving DecidableEq, Repr

/-! ## A page -/

structure PageSelection where
  selected : List PageRow
  usedBytes : Nat

def maxSafeOrder : Nat := 9007199254740991

/-- The checks of a row. -/
def PageRow.valid (row : PageRow) : Bool :=
  decide (row.executionOrder ≤ maxSafeOrder) && !row.executionId.isEmpty &&
    decide (row.bodyBytes ≤ maxSafeOrder)

def maxPageBytes : Nat := 2 * 1024 * 1024

/-- Whether the row was added; `none` is `history_invalid`. -/
def addRow (selection : PageSelection) (row : PageRow) (force : Bool) (maxRows : Nat) :
    Option (Bool × PageSelection) :=
  if !row.valid then none
  else if !force && !selection.selected.isEmpty &&
      (decide (maxRows ≤ selection.selected.length) ||
        decide (maxPageBytes < selection.usedBytes + row.bodyBytes)) then
    some (false, selection)
  else some (true, ⟨selection.selected ++ [row], selection.usedBytes + row.bodyBytes⟩)

def addRows (maxRows : Nat) : List PageRow → PageSelection → Option PageSelection
  | [], selection => some selection
  | row :: rows, selection =>
    match addRow selection row false maxRows with
    | none => none
    | some (false, selection) => some selection
    | some (true, selection) => addRows maxRows rows selection

def addForced : List PageRow → PageSelection → Option PageSelection
  | [], selection => some selection
  | row :: rows, selection => (addRow selection row true 50).bind fun added => addForced rows added.2

/-- `LIMIT 50` of the rows of a query. -/
def estimatedRows (rows : List PageRow) : List PageRow := rows.take 50

/-- The rows of a page; the rows of a session come in the order of their ordinals. -/
def selectRows (rows : List PageRow) (direction : PageDirection) (cursor : Nat) :
    Option PageSelection :=
  match direction with
  | .latest => do
    let activeRows := estimatedRows (rows.filter fun row => row.active).reverse
    let selection ← addForced (activeRows.take 1) ⟨[], 0⟩
    -- the query gives no more than the 50 settled rows that the loop counts
    addRows 51 (estimatedRows (rows.filter fun row => !row.active).reverse) selection
  | .older =>
    addRows 50 (estimatedRows (rows.filter fun row => decide (row.executionOrder < cursor)).reverse)
      ⟨[], 0⟩
  | .newer =>
    addRows 50 (estimatedRows (rows.filter fun row => decide (cursor < row.executionOrder))) ⟨[], 0⟩

def sortRows (rows : List PageRow) : List PageRow :=
  rows.insertionSort fun left right => left.executionOrder ≤ right.executionOrder

/-- The page of the selected rows. -/
def pageOf (rows : List PageRow) (direction : PageDirection) (cursor : Option Nat)
    (selected : List PageRow) : ConversationPage :=
  let lower := selected.head?.map PageRow.executionOrder
  let upper := selected.getLast?.map PageRow.executionOrder
  let existsBelow (bound : Nat) := rows.any fun row => decide (row.executionOrder < bound)
  let existsAbove (bound : Nat) := rows.any fun row => decide (bound < row.executionOrder)
  { page := {
      direction
      cursor
      lowerExecutionOrder := lower
      upperExecutionOrder := upper
      hasOlder := match lower with
        | none => direction == .older && existsBelow (cursor.getD 0)
        | some lower => existsBelow lower
      hasNewer := match upper with
        | none => direction == .newer && existsAbove (cursor.getD 0)
        | some upper => existsAbove upper }
    executions := selected }

/-- `readSessionConversationPageFacts` of the positions of one session; `none` is
`history_invalid`. -/
def readPage (rows : List PageRow) (direction : PageDirection) (cursor : Option Nat) :
    Option ConversationPage :=
  if (direction ≠ .latest && cursor.isNone) || cursor.any (fun cursor => maxSafeOrder < cursor) then
    none
  else (selectRows rows direction (cursor.getD 0)).map fun selection =>
    pageOf rows direction cursor (sortRows selection.selected)

/-! ## Reading on -/

namespace ConversationPage

/-- There is more in a direction. -/
def more (page : ConversationPage) : PageDirection → Bool
  | .newer => page.page.hasNewer
  | _ => page.page.hasOlder

/-- The cursor for reading on. -/
def edge (page : ConversationPage) : PageDirection → Option Nat
  | .newer => page.page.upperExecutionOrder
  | _ => page.page.lowerExecutionOrder

/-- The pages that follow a page, each read at the edge of the one before, to the last. -/
def Continues (rows : List PageRow) (direction : PageDirection) :
    ConversationPage → List ConversationPage → Prop
  | page, [] => page.more direction = false
  | page, next :: pages => page.more direction = true ∧ (page.edge direction).isSome = true ∧
    readPage rows direction (page.edge direction) = some next ∧ Continues rows direction next pages

end ConversationPage

/-- The display positions of a session: distinct ordinals, at most one active execution, and rows
that pass their checks. -/
structure SessionRows (rows : List PageRow) : Prop where
  ascending : rows.Pairwise fun left right => left.executionOrder < right.executionOrder
  oneActive : ∀ left ∈ rows, ∀ right ∈ rows, left.active = true → right.active = true → left = right
  valid : ∀ row ∈ rows, row.valid = true

/-- The pages cover a session. -/
structure PagesCover (rows : List PageRow) : Prop where
  /-- Reading older pages from the latest one takes up all executions, each once and in order. -/
  older : ∃ page pages, readPage rows .latest none = some page ∧
    page.Continues rows .older pages ∧
    ((page :: pages).reverse.map ConversationPage.executions).flatten = rows
  /-- Reading newer pages takes up all executions above a page. -/
  newer : ∀ direction cursor page upper, readPage rows direction cursor = some page →
    page.page.upperExecutionOrder = some upper →
    ∃ pages, page.Continues rows .newer pages ∧
      (pages.map ConversationPage.executions).flatten =
        rows.filter fun row => decide (upper < row.executionOrder)
  /-- The flags tell whether there is an execution below, and above, a page. -/
  flags : ∀ direction cursor page, readPage rows direction cursor = some page →
    page.executions ≠ [] →
    (page.page.hasOlder = true ↔ ∃ row ∈ rows, ∀ shown ∈ page.executions,
      row.executionOrder < shown.executionOrder) ∧
    (page.page.hasNewer = true ↔ ∃ row ∈ rows, ∀ shown ∈ page.executions,
      shown.executionOrder < row.executionOrder)

/-- The settled executions above an ordinal. -/
def settledAbove (rows : List PageRow) (order : Nat) : List PageRow :=
  rows.filter fun row => !row.active && decide (order < row.executionOrder)

/-- The settled executions above the active one fit beside it in the latest page. -/
def LatestFits (rows : List PageRow) : Prop :=
  ∀ row ∈ rows, row.active = true → settledAbove rows row.executionOrder = [] ∨
    (settledAbove rows row.executionOrder).length ≤ 50 ∧
      row.bodyBytes + ((settledAbove rows row.executionOrder).map PageRow.bodyBytes).sum ≤
        maxPageBytes

/-! ## What a page takes -/

def bytesOf (rows : List PageRow) : Nat := (rows.map PageRow.bodyBytes).sum

/-- The front of its rows that a page takes. -/
structure Takes (maxRows : Nat) (rows : List PageRow) (selection : PageSelection)
    (taken : List PageRow) : Prop where
  front : taken <+: rows
  first : selection.selected = [] → rows ≠ [] → taken ≠ []
  fits : selection.selected ≠ [] → taken ≠ [] →
    selection.usedBytes + bytesOf taken ≤ maxPageBytes
  longest : ∀ other, other <+: rows → selection.selected.length + other.length ≤ maxRows →
    selection.usedBytes + bytesOf other ≤ maxPageBytes → other <+: taken

theorem addRows_spec (maxRows : Nat) {rows : List PageRow} (selection : PageSelection)
    (hvalid : ∀ row ∈ rows, row.valid = true) :
    ∃ taken, addRows maxRows rows selection =
        some ⟨selection.selected ++ taken, selection.usedBytes + bytesOf taken⟩ ∧
      Takes maxRows rows selection taken := by
  induction rows generalizing selection with
  | nil =>
    refine ⟨[], by rw [addRows, List.append_nil]; rfl, List.prefix_rfl, fun _ h => absurd rfl h,
      fun _ h => absurd rfl h, fun other hother _ _ => hother⟩
  | cons row rows ih =>
    have hrow := hvalid row List.mem_cons_self
    have hbytes : ∀ others, bytesOf (row :: others) = row.bodyBytes + bytesOf others :=
      fun others => by rw [bytesOf, List.map_cons, List.sum_cons, bytesOf]
    by_cases hfull : (!selection.selected.isEmpty && (decide (maxRows ≤ selection.selected.length) ||
        decide (maxPageBytes < selection.usedBytes + row.bodyBytes))) = true
    · have hadd : addRow selection row false maxRows = some (false, selection) := by
        unfold addRow
        rw [hrow, if_neg (by decide), Bool.not_false, Bool.true_and, if_pos hfull]
      rw [Bool.and_eq_true, Bool.not_eq_true', List.isEmpty_eq_false_iff, Bool.or_eq_true,
        decide_eq_true_iff, decide_eq_true_iff] at hfull
      refine ⟨[], by rw [addRows, hadd, List.append_nil]; rfl, List.nil_prefix,
        fun h => absurd h hfull.1, fun _ h => absurd rfl h, fun other hother hrows hsmall => ?_⟩
      -- a longer front would have to hold this row
      cases other with
      | nil => exact List.prefix_rfl
      | cons first other =>
        obtain ⟨rfl, -⟩ := List.cons_prefix_cons.mp hother
        rw [List.length_cons] at hrows
        rw [hbytes] at hsmall
        omega
    · have hadd : addRow selection row false maxRows =
          some (true, ⟨selection.selected ++ [row], selection.usedBytes + row.bodyBytes⟩) := by
        unfold addRow
        rw [hrow, if_neg (by decide), Bool.not_false, Bool.true_and, if_neg hfull]
      rw [Bool.and_eq_true, Bool.not_eq_true', List.isEmpty_eq_false_iff, Bool.or_eq_true,
        decide_eq_true_iff, decide_eq_true_iff, not_and, not_or] at hfull
      obtain ⟨taken, hrun, htakes⟩ := ih
        ⟨selection.selected ++ [row], selection.usedBytes + row.bodyBytes⟩ fun other hmem =>
          hvalid other (List.mem_cons_of_mem _ hmem)
      refine ⟨row :: taken, ?_, List.cons_prefix_cons.mpr ⟨rfl, htakes.front⟩,
        fun _ _ => List.cons_ne_nil _ _, fun hne _ => ?_, fun other hother hrows hsmall => ?_⟩
      · rw [addRows, hadd]
        dsimp only
        rw [hrun, List.append_assoc, hbytes, Nat.add_assoc]
        rfl
      · rw [hbytes, ← Nat.add_assoc]
        by_cases htaken : taken = []
        · subst htaken
          exact Nat.le_of_not_lt (hfull hne).2
        · exact htakes.fits (List.append_ne_nil_of_right_ne_nil _ (List.cons_ne_nil _ _)) htaken
      · cases other with
        | nil => exact List.nil_prefix
        | cons first other =>
          obtain ⟨rfl, hrest⟩ := List.cons_prefix_cons.mp hother
          rw [hbytes] at hsmall
          rw [List.length_cons] at hrows
          refine List.cons_prefix_cons.mpr ⟨rfl, htakes.longest other hrest ?_ ?_⟩
          · rw [List.length_append, List.length_singleton]
            omega
          · rw [Nat.add_assoc]
            exact hsmall

/-! ## Order -/

abbrev Ascending (rows : List PageRow) : Prop :=
  rows.Pairwise fun left right => left.executionOrder < right.executionOrder

section Order

variable {rows selected : List PageRow}

theorem Ascending.eq_of_order (h : Ascending rows) {left right : PageRow} (hleft : left ∈ rows)
    (hright : right ∈ rows) (horder : left.executionOrder = right.executionOrder) :
    left = right := by
  induction rows with
  | nil => cases hleft
  | cons row rows ih =>
    obtain ⟨hrow, hrows⟩ := List.pairwise_cons.mp h
    obtain rfl | hleft' := List.mem_cons.mp hleft
    · obtain rfl | hright' := List.mem_cons.mp hright
      · rfl
      · have := hrow right hright'
        omega
    · obtain rfl | hright' := List.mem_cons.mp hright
      · have := hrow left hleft'
        omega
      · exact ih hrows hleft' hright'

theorem Ascending.nodup (h : Ascending rows) : rows.Nodup :=
  List.Pairwise.imp (fun hlt heq => Nat.ne_of_lt hlt (congrArg PageRow.executionOrder heq)) h

theorem sortRows_perm (selected : List PageRow) : (sortRows selected).Perm selected :=
  List.perm_insertionSort _ selected

theorem sortRows_sorted (selected : List PageRow) : (sortRows selected).Pairwise
    fun left right => left.executionOrder ≤ right.executionOrder := by
  have htotal : Std.Total fun left right : PageRow => left.executionOrder ≤ right.executionOrder :=
    ⟨fun left right => Nat.le_total _ _⟩
  have htrans : IsTrans PageRow fun left right => left.executionOrder ≤ right.executionOrder :=
    ⟨fun _ _ _ => Nat.le_trans⟩
  exact List.pairwise_insertionSort _ selected

/-- A sorted selection stands as it does among the rows. -/
theorem sortRows_eq_filter (h : Ascending rows) (hnodup : selected.Nodup)
    (hsubset : selected ⊆ rows) :
    sortRows selected = rows.filter fun row => decide (row ∈ selected) := by
  have hmem : ∀ row ∈ sortRows selected, row ∈ rows := fun row hrow =>
    hsubset ((sortRows_perm selected).subset hrow)
  have hfilter : (rows.filter fun row => decide (row ∈ selected)).Pairwise
      fun left right => left.executionOrder ≤ right.executionOrder :=
    (h.imp Nat.le_of_lt).filter _
  refine List.Perm.eq_of_pairwise (fun left right hleft hright hle hge => ?_)
    (sortRows_sorted selected) hfilter ((sortRows_perm selected).trans ?_)
  · exact h.eq_of_order (hmem left hleft) (List.mem_of_mem_filter hright) (Nat.le_antisymm hle hge)
  · refine (List.perm_ext_iff_of_nodup hnodup (h.nodup.filter _)).mpr fun row => ?_
    rw [List.mem_filter, decide_eq_true_iff]
    exact ⟨fun hrow => ⟨hsubset hrow, hrow⟩, And.right⟩

theorem filter_append_filter (h : Ascending rows) {p : PageRow → Bool}
    (hclosed : ∀ left ∈ rows, ∀ right ∈ rows, p left = true →
      left.executionOrder < right.executionOrder → p right = true) :
    (rows.filter fun row => !p row) ++ rows.filter p = rows := by
  induction rows with
  | nil => rfl
  | cons row rows ih =>
    obtain ⟨hrow, hrows⟩ := List.pairwise_cons.mp h
    have hrest := ih hrows fun left hleft right hright =>
      hclosed left (List.mem_cons_of_mem _ hleft) right (List.mem_cons_of_mem _ hright)
    cases hp : p row with
    | false =>
      rw [List.filter_cons_of_pos (by rw [hp]; rfl), List.filter_cons_of_neg (by rw [hp]; decide),
        List.cons_append, hrest]
    | true =>
      -- every later row is taken as well
      have hall : ∀ other ∈ rows, p other = true := fun other hother =>
        hclosed row List.mem_cons_self other (List.mem_cons_of_mem _ hother) hp (hrow other hother)
      have hnone : rows.filter (fun row => !p row) = [] :=
        List.filter_eq_nil_iff.mpr fun other hother => by rw [hall other hother]; decide
      rw [List.filter_cons_of_neg (by rw [hp]; decide), hnone, List.nil_append,
        List.filter_cons_of_pos hp, List.filter_eq_self.mpr hall]

theorem filter_below_head {rest shown : List PageRow} {row : PageRow}
    (h : Ascending (rest ++ row :: shown)) :
    ((rest ++ row :: shown).filter fun other =>
      decide (other.executionOrder < row.executionOrder)) = rest := by
  obtain ⟨-, hshown, hcross⟩ := List.pairwise_append.mp h
  obtain ⟨hrow, -⟩ := List.pairwise_cons.mp hshown
  rw [List.filter_append, List.filter_eq_self.mpr fun other hother =>
    decide_eq_true (hcross other hother row List.mem_cons_self),
    List.filter_eq_nil_iff.mpr, List.append_nil]
  intro other hother
  rw [decide_eq_true_iff]
  obtain rfl | hother := List.mem_cons.mp hother
  · exact Nat.lt_irrefl _
  · exact Nat.not_lt_of_lt (hrow other hother)

theorem filter_above_last {rest shown : List PageRow} {row : PageRow}
    (h : Ascending ((shown ++ [row]) ++ rest)) :
    (((shown ++ [row]) ++ rest).filter fun other =>
      decide (row.executionOrder < other.executionOrder)) = rest := by
  obtain ⟨hshown, -, hcross⟩ := List.pairwise_append.mp h
  obtain ⟨-, -, hlast⟩ := List.pairwise_append.mp hshown
  rw [List.filter_append, List.filter_eq_nil_iff.mpr, List.nil_append,
    List.filter_eq_self.mpr fun other hother => decide_eq_true
      (hcross row (List.mem_append_right _ List.mem_cons_self) other hother)]
  intro other hother
  rw [decide_eq_true_iff]
  obtain hother | hother := List.mem_append.mp hother
  · exact Nat.not_lt_of_lt (hlast other hother row List.mem_cons_self)
  · rw [List.mem_singleton.mp hother]
    exact Nat.lt_irrefl _

/-- A front of the rows from the newest on has every row above one of its own. -/
theorem mem_of_newest {taken : List PageRow} (h : Ascending rows) (htaken : taken <+: rows.reverse)
    {left right : PageRow} (hleft : left ∈ taken) (hright : right ∈ rows)
    (horder : left.executionOrder < right.executionOrder) : right ∈ taken := by
  obtain ⟨rest, hrest⟩ := htaken
  have hmem : right ∈ taken ++ rest := hrest ▸ List.mem_reverse.mpr hright
  obtain hmem | hmem := List.mem_append.mp hmem
  · exact hmem
  · have hdescending := List.pairwise_reverse.mpr h
    rw [← hrest] at hdescending
    have := (List.pairwise_append.mp hdescending).2.2 left hleft right hmem
    omega

end Order

/-! ## Older and newer pages -/

section Pages

variable {rows : List PageRow}

theorem SessionRows.safe (h : SessionRows rows) {row : PageRow} (hrow : row ∈ rows) :
    row.executionOrder ≤ maxSafeOrder := by
  have hvalid := h.valid row hrow
  unfold PageRow.valid at hvalid
  rw [Bool.and_eq_true, Bool.and_eq_true, decide_eq_true_iff] at hvalid
  exact hvalid.1.1

theorem readPage_cursor {direction : PageDirection} {cursor : Nat} (hcursor : cursor ≤ maxSafeOrder) :
    readPage rows direction (some cursor) = (selectRows rows direction cursor).map fun selection =>
      pageOf rows direction (some cursor) (sortRows selection.selected) := by
  unfold readPage
  rw [if_neg]
  · rfl
  · rw [Option.isNone_some, Bool.and_false, Bool.false_or, Option.any_some, decide_eq_true_iff]
    exact Nat.not_lt_of_le hcursor

theorem older_page (h : SessionRows rows) {cursor : Nat} (hcursor : cursor ≤ maxSafeOrder) :
    ∃ rest shown, readPage rows .older (some cursor) =
        some (pageOf rows .older (some cursor) shown) ∧
      (rows.filter fun row => decide (row.executionOrder < cursor)) = rest ++ shown ∧
      ((rows.filter fun row => decide (row.executionOrder < cursor)) ≠ [] → shown ≠ []) := by
  generalize hfront : (rows.filter fun row => decide (row.executionOrder < cursor)) = front
  have hascending : Ascending front := hfront ▸ h.ascending.filter _
  have hrows : ∀ row ∈ front, row ∈ rows := fun row hrow =>
    List.mem_of_mem_filter (hfront ▸ hrow)
  obtain ⟨taken, hrun, htakes⟩ := addRows_spec 50 ⟨[], 0⟩ fun row hrow =>
    h.valid row (hrows row (List.mem_reverse.mp (List.mem_of_mem_take hrow)))
  have hnewest : taken <+: front.reverse := htakes.front.trans (List.take_prefix 50 _)
  have hsubset : taken ⊆ front := fun row hrow => List.mem_reverse.mp (hnewest.subset hrow)
  have hnodup : taken.Nodup := (List.nodup_reverse.mpr hascending.nodup).sublist hnewest.sublist
  have hread : readPage rows .older (some cursor) =
      some (pageOf rows .older (some cursor) (sortRows taken)) := by
    rw [readPage_cursor hcursor, selectRows, hfront]
    unfold estimatedRows
    rw [hrun]
    rfl
  have hup : ∀ left ∈ front, ∀ right ∈ front, decide (left ∈ taken) = true →
      left.executionOrder < right.executionOrder → decide (right ∈ taken) = true :=
    fun left _ right hright hleft horder => decide_eq_true
      (mem_of_newest hascending hnewest (of_decide_eq_true hleft) hright horder)
  have hclosed := filter_append_filter hascending hup
  rw [← sortRows_eq_filter hascending hnodup hsubset] at hclosed
  refine ⟨_, _, hread, hclosed.symm, fun hne hnil => ?_⟩
  have hnewestRows : estimatedRows front.reverse ≠ [] := by
    intro hnone
    rw [estimatedRows, List.take_eq_nil_iff] at hnone
    exact hne (List.reverse_eq_nil_iff.mp (hnone.resolve_left (by decide)))
  refine htakes.first rfl hnewestRows (List.perm_nil.mp ?_)
  exact hnil ▸ (sortRows_perm taken).symm

theorem newer_page (h : SessionRows rows) {cursor : Nat} (hcursor : cursor ≤ maxSafeOrder) :
    ∃ shown rest, readPage rows .newer (some cursor) =
        some (pageOf rows .newer (some cursor) shown) ∧
      (rows.filter fun row => decide (cursor < row.executionOrder)) = shown ++ rest ∧
      ((rows.filter fun row => decide (cursor < row.executionOrder)) ≠ [] → shown ≠ []) := by
  generalize hback : (rows.filter fun row => decide (cursor < row.executionOrder)) = back
  have hascending : Ascending back := hback ▸ h.ascending.filter _
  have hrows : ∀ row ∈ back, row ∈ rows := fun row hrow =>
    List.mem_of_mem_filter (hback ▸ hrow)
  obtain ⟨taken, hrun, htakes⟩ := addRows_spec 50 ⟨[], 0⟩ fun row hrow =>
    h.valid row (hrows row (List.mem_of_mem_take hrow))
  obtain ⟨rest, hrest⟩ := htakes.front.trans (List.take_prefix 50 back)
  have hsorted : sortRows taken = taken := by
    have htaken : Ascending taken := (List.pairwise_append.mp (hrest ▸ hascending)).1
    exact (htaken.imp Nat.le_of_lt).insertionSort_eq
  refine ⟨taken, rest, ?_, hrest.symm, fun hne => htakes.first rfl fun hnone => ?_⟩
  · rw [readPage_cursor hcursor, selectRows, hback]
    unfold estimatedRows
    rw [hrun, Option.map_some, List.nil_append, hsorted]
  · rw [List.take_eq_nil_iff] at hnone
    exact hne (hnone.resolve_left (by decide))

theorem any_eq_true_iff_filter (p : PageRow → Bool) : rows.any p = true ↔ rows.filter p ≠ [] := by
  rw [List.any_eq_true, Ne, List.filter_eq_nil_iff]
  exact ⟨fun ⟨row, hrow, hp⟩ hnone => hnone row hrow hp, fun hsome => by
    by_contra hnone
    exact hsome fun row hrow hp => hnone ⟨row, hrow, hp⟩⟩

/-- Reading older pages takes up all executions below a page. -/
theorem older_covers (h : SessionRows rows) {page : ConversationPage} {lower : Nat}
    (hlower : page.page.lowerExecutionOrder = some lower)
    (hmore : page.page.hasOlder = rows.any fun row => decide (row.executionOrder < lower))
    (hsafe : lower ≤ maxSafeOrder) :
    ∃ pages, page.Continues rows .older pages ∧
      (pages.reverse.map ConversationPage.executions).flatten =
        rows.filter fun row => decide (row.executionOrder < lower) := by
  generalize hcount : (rows.filter fun row => decide (row.executionOrder < lower)).length = count
  induction count using Nat.strong_induction_on generalizing page lower with
  | _ count ih =>
    by_cases hnone : (rows.filter fun row => decide (row.executionOrder < lower)) = []
    · refine ⟨[], ?_, hnone.symm⟩
      show page.page.hasOlder = false
      rw [hmore, Bool.eq_false_iff, Ne, any_eq_true_iff_filter, not_not]
      exact hnone
    · obtain ⟨rest, shown, hread, hsplit, hshown⟩ := older_page h hsafe
      obtain ⟨row, shown, rfl⟩ := List.exists_cons_of_ne_nil (hshown hnone)
      have hmem : row ∈ rows.filter fun row => decide (row.executionOrder < lower) :=
        hsplit ▸ List.mem_append_right _ List.mem_cons_self
      have hbelow : rows.filter (fun other => decide (other.executionOrder < row.executionOrder)) =
          rest := by
        have hascending : Ascending (rest ++ row :: shown) := hsplit ▸ h.ascending.filter _
        have hhead := filter_below_head hascending
        rw [← hsplit, List.filter_filter] at hhead
        rw [← hhead]
        refine List.filter_congr fun other _ => ?_
        have hrow : row.executionOrder < lower := of_decide_eq_true (List.mem_filter.mp hmem).2
        rw [Bool.eq_iff_iff, Bool.and_eq_true, decide_eq_true_iff, decide_eq_true_iff]
        omega
      have hless : (rows.filter fun other =>
          decide (other.executionOrder < row.executionOrder)).length < count := by
        rw [hbelow, ← hcount, hsplit, List.length_append, List.length_cons]
        omega
      have hnextLower : (pageOf rows .older (some lower) (row :: shown)).page.lowerExecutionOrder =
          some row.executionOrder := rfl
      obtain ⟨pages, hpages, hflat⟩ := ih _ hless hnextLower rfl
        (h.safe (List.mem_of_mem_filter hmem)) rfl
      refine ⟨_ :: pages, ⟨?_, ?_, ?_, hpages⟩, ?_⟩
      · show page.page.hasOlder = true
        rw [hmore, any_eq_true_iff_filter]
        exact hnone
      · show page.page.lowerExecutionOrder.isSome = true
        rw [hlower]
        rfl
      · show readPage rows .older page.page.lowerExecutionOrder = _
        rw [hlower, hread]
      · rw [List.reverse_cons, List.map_append, List.flatten_append, hflat, hbelow, hsplit]
        exact congrArg (rest ++ ·) (List.flatten_singleton)

/-- Reading newer pages takes up all executions above a page. -/
theorem newer_covers (h : SessionRows rows) {page : ConversationPage} {upper : Nat}
    (hupper : page.page.upperExecutionOrder = some upper)
    (hmore : page.page.hasNewer = rows.any fun row => decide (upper < row.executionOrder))
    (hsafe : upper ≤ maxSafeOrder) :
    ∃ pages, page.Continues rows .newer pages ∧
      (pages.map ConversationPage.executions).flatten =
        rows.filter fun row => decide (upper < row.executionOrder) := by
  generalize hcount : (rows.filter fun row => decide (upper < row.executionOrder)).length = count
  induction count using Nat.strong_induction_on generalizing page upper with
  | _ count ih =>
    by_cases hnone : (rows.filter fun row => decide (upper < row.executionOrder)) = []
    · refine ⟨[], ?_, hnone.symm⟩
      show page.page.hasNewer = false
      rw [hmore, Bool.eq_false_iff, Ne, any_eq_true_iff_filter, not_not]
      exact hnone
    · obtain ⟨shown, rest, hread, hsplit, hshown⟩ := newer_page h hsafe
      obtain ⟨row, hlast⟩ := List.getLast?_isSome.mpr (hshown hnone) |> Option.isSome_iff_exists.mp
      obtain ⟨shown, rfl⟩ := List.getLast?_eq_some_iff.mp hlast
      have hmem : row ∈ rows.filter fun row => decide (upper < row.executionOrder) :=
        hsplit ▸ List.mem_append_left _ (List.mem_append_right _ List.mem_cons_self)
      have habove : rows.filter (fun other => decide (row.executionOrder < other.executionOrder)) =
          rest := by
        have hascending : Ascending ((shown ++ [row]) ++ rest) := hsplit ▸ h.ascending.filter _
        have hhead := filter_above_last hascending
        rw [← hsplit, List.filter_filter] at hhead
        rw [← hhead]
        refine List.filter_congr fun other _ => ?_
        have hrow : upper < row.executionOrder := of_decide_eq_true (List.mem_filter.mp hmem).2
        rw [Bool.eq_iff_iff, Bool.and_eq_true, decide_eq_true_iff, decide_eq_true_iff]
        omega
      have hless : (rows.filter fun other =>
          decide (row.executionOrder < other.executionOrder)).length < count := by
        rw [habove, ← hcount, hsplit, List.length_append, List.length_append, List.length_singleton]
        omega
      have hnextUpper : (pageOf rows .newer (some upper) (shown ++ [row])).page.upperExecutionOrder =
          some row.executionOrder := by
        show (shown ++ [row]).getLast?.map PageRow.executionOrder = _
        rw [hlast]
        rfl
      have hnextMore : (pageOf rows .newer (some upper) (shown ++ [row])).page.hasNewer =
          rows.any fun other => decide (row.executionOrder < other.executionOrder) := by
        unfold pageOf
        dsimp only
        rw [hlast]
        rfl
      obtain ⟨pages, hpages, hflat⟩ := ih _ hless hnextUpper hnextMore
        (h.safe (List.mem_of_mem_filter hmem)) rfl
      refine ⟨_ :: pages, ⟨?_, ?_, ?_, hpages⟩, ?_⟩
      · show page.page.hasNewer = true
        rw [hmore, any_eq_true_iff_filter]
        exact hnone
      · show page.page.upperExecutionOrder.isSome = true
        rw [hupper]
        rfl
      · show readPage rows .newer page.page.upperExecutionOrder = _
        rw [hupper, hread]
      · rw [List.map_cons, List.flatten_cons, hflat, habove, hsplit]
        rfl

/-! ## The latest page -/

/-- The settled rows. -/
abbrev settledRows (rows : List PageRow) : List PageRow := rows.filter fun row => !row.active

/-- The active row, if there is one. -/
abbrev activeRows (rows : List PageRow) : List PageRow := rows.filter fun row => row.active

theorem activeRows_cases (h : SessionRows rows) :
    activeRows rows = [] ∨ ∃ row ∈ rows, row.active = true ∧ activeRows rows = [row] := by
  have hmem : ∀ row ∈ activeRows rows, row ∈ rows ∧ row.active = true := fun row hrow =>
    List.mem_filter.mp hrow
  have hnodup : (activeRows rows).Nodup := h.ascending.nodup.filter _
  cases hactive : activeRows rows with
  | nil => exact .inl rfl
  | cons row others =>
    rw [hactive] at hmem hnodup
    obtain ⟨hrow, hrowActive⟩ := hmem row List.mem_cons_self
    refine .inr ⟨row, hrow, hrowActive, ?_⟩
    cases others with
    | nil => rfl
    | cons other others =>
      obtain ⟨hother, hotherActive⟩ := hmem other (List.mem_cons_of_mem _ List.mem_cons_self)
      have heq := h.oneActive row hrow other hother hrowActive hotherActive
      exact absurd (heq ▸ List.mem_cons_self) (List.nodup_cons.mp hnodup).1

theorem selectRows_latest (h : SessionRows rows) (cursor : Nat) :
    ∃ taken bytes, selectRows rows .latest cursor = some ⟨activeRows rows ++ taken, bytes⟩ ∧
      Takes 51 (estimatedRows (settledRows rows).reverse)
        ⟨activeRows rows, bytesOf (activeRows rows)⟩ taken := by
  have hvalid : ∀ row ∈ estimatedRows (settledRows rows).reverse, row.valid = true :=
    fun row hrow => h.valid row (List.mem_of_mem_filter
      (List.mem_reverse.mp (List.mem_of_mem_take hrow)))
  obtain ⟨taken, hrun, htakes⟩ :=
    addRows_spec 51 ⟨activeRows rows, bytesOf (activeRows rows)⟩ hvalid
  have hforced : addForced ((estimatedRows (activeRows rows).reverse).take 1) ⟨[], 0⟩ =
      some ⟨activeRows rows, bytesOf (activeRows rows)⟩ := by
    obtain hnone | ⟨row, hrow, -, hone⟩ := activeRows_cases h
    · rw [hnone]
      rfl
    · rw [hone]
      show (addRow ⟨[], 0⟩ row true 50).bind _ = _
      unfold addRow
      rw [h.valid row hrow, bytesOf, List.map_singleton, List.sum_singleton]
      show some (PageSelection.mk [row] (0 + row.bodyBytes)) = _
      rw [Nat.zero_add]
  refine ⟨taken, bytesOf (activeRows rows) + bytesOf taken, ?_, htakes⟩
  show (addForced _ _).bind (fun selection => addRows 51 _ selection) = _
  rw [hforced, Option.bind_some, hrun]

theorem latest_page (h : SessionRows rows) :
    ∃ taken, readPage rows .latest none =
        some (pageOf rows .latest none (sortRows (activeRows rows ++ taken))) ∧
      Takes 51 (estimatedRows (settledRows rows).reverse)
        ⟨activeRows rows, bytesOf (activeRows rows)⟩ taken := by
  obtain ⟨taken, bytes, hselect, htakes⟩ := selectRows_latest h 0
  refine ⟨taken, ?_, htakes⟩
  unfold readPage
  rw [if_neg (by decide)]
  show (selectRows rows .latest 0).map _ = _
  rw [hselect]
  rfl

/-- The settled rows above an ordinal are the newest of them. -/
theorem settledAbove_newest (h : SessionRows rows) (order : Nat) :
    (settledAbove rows order).reverse <+: (settledRows rows).reverse := by
  have hsplit := filter_append_filter (h.ascending.filter fun row => !row.active)
    (p := fun row => decide (order < row.executionOrder)) fun left _ right _ hleft horder => by
      rw [decide_eq_true_iff] at hleft ⊢
      omega
  have habove : (settledRows rows).filter (fun row => decide (order < row.executionOrder)) =
      settledAbove rows order := by
    rw [List.filter_filter]
    exact List.filter_congr fun row _ => Bool.and_comm _ _
  rw [habove] at hsplit
  refine ⟨((settledRows rows).filter fun row => !decide (order < row.executionOrder)).reverse, ?_⟩
  rw [← List.reverse_append]
  exact congrArg List.reverse hsplit

theorem bytesOf_reverse (rows : List PageRow) : bytesOf rows.reverse = bytesOf rows := by
  unfold bytesOf
  rw [List.map_reverse, List.sum_reverse]

theorem bytesOf_le_of_front {front rows : List PageRow} (h : front <+: rows) :
    bytesOf front ≤ bytesOf rows := by
  obtain ⟨rest, rfl⟩ := h
  unfold bytesOf
  rw [List.map_append, List.sum_append]
  exact Nat.le_add_right _ _

/-- The latest page shows the newest executions where the settled ones above the active one fit. -/
theorem latest_contiguous (h : SessionRows rows) (hfits : LatestFits rows) {taken : List PageRow}
    (htakes : Takes 51 (estimatedRows (settledRows rows).reverse)
      ⟨activeRows rows, bytesOf (activeRows rows)⟩ taken) :
    ∃ rest, rows = rest ++ sortRows (activeRows rows ++ taken) ∧
      (rows ≠ [] → activeRows rows ++ taken ≠ []) := by
  have hsettled : Ascending (settledRows rows) := h.ascending.filter _
  have hnewest : taken <+: (settledRows rows).reverse :=
    htakes.front.trans (List.take_prefix 50 _)
  have htaken : ∀ row ∈ taken, row ∈ settledRows rows := fun row hrow =>
    List.mem_reverse.mp (hnewest.subset hrow)
  have hsubset : activeRows rows ++ taken ⊆ rows := by
    intro row hrow
    obtain hrow | hrow := List.mem_append.mp hrow
    · exact List.mem_of_mem_filter hrow
    · exact List.mem_of_mem_filter (htaken row hrow)
  have hnodup : (activeRows rows ++ taken).Nodup := by
    refine List.nodup_append.mpr ⟨h.ascending.nodup.filter _,
      (List.nodup_reverse.mpr hsettled.nodup).sublist hnewest.sublist, ?_⟩
    rintro row hactive other hother rfl
    have hsettled := (List.mem_filter.mp (htaken row hother)).2
    rw [(List.mem_filter.mp hactive).2] at hsettled
    cases hsettled
  have hclosed := filter_append_filter h.ascending
    (p := fun row => decide (row ∈ activeRows rows ++ taken)) fun left _ right hright hleft horder =>
      decide_eq_true ?_
  · rw [← sortRows_eq_filter h.ascending hnodup hsubset] at hclosed
    refine ⟨_, hclosed.symm, fun hne => ?_⟩
    by_cases hactive : activeRows rows = []
    · rw [hactive, List.nil_append]
      refine htakes.first hactive fun hnone => hne ?_
      rw [estimatedRows, List.take_eq_nil_iff, List.reverse_eq_nil_iff] at hnone
      have hall := List.filter_eq_nil_iff.mp (hnone.resolve_left (by decide))
      have hnot := List.filter_eq_nil_iff.mp hactive
      refine List.eq_nil_iff_forall_not_mem.mpr fun row hrow => hall row hrow ?_
      rw [Bool.eq_false_iff.mpr (hnot row hrow)]
      rfl
    · exact List.append_ne_nil_of_left_ne_nil hactive _
  · -- a row above one of the page
    cases hactive : right.active with
    | true => exact List.mem_append_left _ (List.mem_filter.mpr ⟨hright, hactive⟩)
    | false =>
      have hmem : right ∈ settledRows rows := List.mem_filter.mpr ⟨hright, by rw [hactive]; rfl⟩
      obtain hleft | hleft := List.mem_append.mp (of_decide_eq_true hleft)
      · obtain ⟨hrow, hleftActive⟩ := List.mem_filter.mp hleft
        have habove : right ∈ settledAbove rows left.executionOrder :=
          List.mem_filter.mpr ⟨hright, by rw [hactive, decide_eq_true horder]; rfl⟩
        obtain hnone | ⟨hrows, hbytes⟩ := hfits left hrow hleftActive
        · rw [hnone] at habove
          cases habove
        · have hone : activeRows rows = [left] := by
            obtain hnone | ⟨row, hrow', hrowActive, hone⟩ := activeRows_cases h
            · rw [hnone] at hleft
              cases hleft
            · rw [hone, h.oneActive left hrow row hrow' hleftActive hrowActive]
          have hfront : (settledAbove rows left.executionOrder).reverse <+: taken := by
            refine htakes.longest _ ?_ ?_ ?_
            · exact List.prefix_take_iff.mpr ⟨settledAbove_newest h _,
                by rw [List.length_reverse]; exact hrows⟩
            · rw [hone, List.length_singleton, List.length_reverse]
              omega
            · rw [hone, bytesOf_reverse, bytesOf, List.map_singleton, List.sum_singleton]
              exact hbytes
          exact List.mem_append_right _ (hfront.subset (List.mem_reverse.mpr habove))
      · exact List.mem_append_right _ (mem_of_newest hsettled hnewest hleft hmem horder)

/-! ## Coverage -/

/-- A page that was read shows rows of the session in order. -/
theorem page_of_read (h : SessionRows rows) {direction : PageDirection} {cursor : Option Nat}
    {page : ConversationPage} (hread : readPage rows direction cursor = some page) :
    ∃ shown, page = pageOf rows direction cursor shown ∧ (∀ row ∈ shown, row ∈ rows) ∧
      shown.Pairwise fun left right => left.executionOrder ≤ right.executionOrder := by
  unfold readPage at hread
  split at hread
  · cases hread
  obtain ⟨selection, hselect, rfl⟩ := Option.map_eq_some_iff.mp hread
  refine ⟨_, rfl, fun row hrow => ?_, sortRows_sorted _⟩
  have hmem := (sortRows_perm selection.selected).subset hrow
  have hadded : ∀ candidates : List PageRow, (∀ row ∈ candidates, row ∈ rows) →
      addRows 50 candidates ⟨[], 0⟩ = some selection → row ∈ rows := by
    intro candidates hcandidates hrun
    obtain ⟨taken, hrun', htakes⟩ := addRows_spec 50 ⟨[], 0⟩ fun row hrow =>
      h.valid row (hcandidates row hrow)
    rw [hrun] at hrun'
    cases hrun'
    exact hcandidates row (htakes.front.subset hmem)
  cases direction with
  | latest =>
    obtain ⟨taken, bytes, hselect', htakes⟩ := selectRows_latest h (cursor.getD 0)
    rw [hselect] at hselect'
    cases hselect'
    obtain hactive | htaken := List.mem_append.mp hmem
    · exact List.mem_of_mem_filter hactive
    · exact List.mem_of_mem_filter (List.mem_reverse.mp
        (List.mem_of_mem_take (htakes.front.subset htaken)))
  | older =>
    exact hadded _ (fun row hrow => List.mem_of_mem_filter
      (List.mem_reverse.mp (List.mem_of_mem_take hrow))) hselect
  | newer =>
    exact hadded _ (fun row hrow => List.mem_of_mem_filter (List.mem_of_mem_take hrow)) hselect

theorem older_rows (h : SessionRows rows) {cursor : Nat} {page : ConversationPage}
    (hread : readPage rows .older (some cursor) = some page) :
    ∀ row ∈ page.executions, row.executionOrder < cursor := by
  by_cases hcursor : cursor ≤ maxSafeOrder
  · obtain ⟨rest, shown, hread', hsplit, -⟩ := older_page h hcursor
    rw [hread] at hread'
    cases hread'
    intro row hrow
    have hmem : row ∈ rows.filter fun row => decide (row.executionOrder < cursor) :=
      hsplit ▸ List.mem_append_right _ hrow
    exact of_decide_eq_true (List.mem_filter.mp hmem).2
  · unfold readPage at hread
    rw [if_pos] at hread
    · cases hread
    · rw [Option.any_some, decide_eq_true (Nat.lt_of_not_le hcursor), Bool.or_true]

/-- The pages that follow one show executions below it only. -/
theorem continues_below (h : SessionRows rows) {page : ConversationPage}
    {pages : List ConversationPage} {lower : Nat} (hcontinues : page.Continues rows .older pages)
    (hlower : page.page.lowerExecutionOrder = some lower) :
    ∀ other ∈ pages, ∀ row ∈ other.executions, row.executionOrder < lower := by
  induction pages generalizing page lower with
  | nil => exact fun _ hmem => absurd hmem List.not_mem_nil
  | cons next pages ih =>
    obtain ⟨-, -, hread, hrest⟩ := hcontinues
    have hread' : readPage rows .older (some lower) = some next := hlower ▸ hread
    have hnext := older_rows h hread'
    rw [List.forall_mem_cons]
    refine ⟨hnext, fun other hother row hrow => ?_⟩
    cases pages with
    | nil => cases hother
    | cons second pages =>
      -- there are further pages, so this one shows a row
      obtain ⟨edge, hedge⟩ := Option.isSome_iff_exists.mp hrest.2.1
      obtain ⟨shown, rfl, -, -⟩ := page_of_read h hread'
      have hedge' : shown.head?.map PageRow.executionOrder = some edge := hedge
      obtain ⟨first, hfirst, rfl⟩ := Option.map_eq_some_iff.mp hedge'
      have hfirstMem : first ∈ (pageOf rows .older (some lower) shown).executions :=
        List.mem_of_mem_head? hfirst
      exact Nat.lt_trans (ih hrest hedge other hother row hrow) (hnext first hfirstMem)

theorem latestFits_of_covers (h : SessionRows rows) {page : ConversationPage}
    {pages : List ConversationPage} (hread : readPage rows .latest none = some page)
    (hcontinues : page.Continues rows .older pages)
    (hflat : ((page :: pages).reverse.map ConversationPage.executions).flatten = rows) :
    LatestFits rows := by
  intro active hrow hactive
  by_cases hnone : settledAbove rows active.executionOrder = []
  · exact .inl hnone
  obtain ⟨taken, hread', htakes⟩ := latest_page h
  rw [hread] at hread'
  cases hread'
  have hactiveMem : active ∈ activeRows rows := List.mem_filter.mpr ⟨hrow, hactive⟩
  have hshown : active ∈ sortRows (activeRows rows ++ taken) :=
    (sortRows_perm _).symm.subset (List.mem_append_left _ hactiveMem)
  -- no other page shows a row above the active one
  have hsubset : settledAbove rows active.executionOrder ⊆ taken := by
    intro row hmem
    obtain ⟨hmemRows, habove⟩ := List.mem_filter.mp hmem
    rw [Bool.and_eq_true, Bool.not_eq_true', decide_eq_true_iff] at habove
    rw [← hflat] at hmemRows
    obtain ⟨executions, hexecutions, hmemExecutions⟩ := List.mem_flatten.mp hmemRows
    obtain ⟨other, hother, rfl⟩ := List.mem_map.mp hexecutions
    obtain rfl | hother := List.mem_cons.mp (List.mem_reverse.mp hother)
    · obtain hmem | hmem := List.mem_append.mp ((sortRows_perm _).subset hmemExecutions)
      · rw [(List.mem_filter.mp hmem).2] at habove
        exact absurd habove.1 (by decide)
      · exact hmem
    · obtain ⟨first, others, hsorted⟩ := List.exists_cons_of_ne_nil (List.ne_nil_of_mem hshown)
      have hlower : (pageOf rows .latest none
          (sortRows (activeRows rows ++ taken))).page.lowerExecutionOrder =
            some first.executionOrder := by
        rw [hsorted]
        rfl
      have hbelow := continues_below h hcontinues hlower other hother row hmemExecutions
      have hfirst : first.executionOrder ≤ active.executionOrder := by
        have horder := sortRows_sorted (activeRows rows ++ taken)
        rw [hsorted] at hshown horder
        obtain rfl | hlater := List.mem_cons.mp hshown
        · exact Nat.le_refl _
        · exact (List.pairwise_cons.mp horder).1 active hlater
      omega
  have hnodup : (settledAbove rows active.executionOrder).Nodup := h.ascending.nodup.filter _
  have hlength := (List.subperm_of_subset hnodup hsubset).length_le
  have hfront : (settledAbove rows active.executionOrder).reverse <+: taken :=
    List.prefix_of_prefix_length_le (settledAbove_newest h _)
      (htakes.front.trans (List.take_prefix 50 _)) (by rw [List.length_reverse]; exact hlength)
  have hcount := htakes.front.length_le
  rw [estimatedRows, List.length_take] at hcount
  refine .inr ⟨by omega, ?_⟩
  have htaken : taken ≠ [] := fun hnil => hnone (List.subset_nil.mp (hnil ▸ hsubset))
  have hbytes := htakes.fits (List.ne_nil_of_mem hactiveMem) htaken
  have hsum := bytesOf_le_of_front hfront
  rw [bytesOf_reverse] at hsum
  have hone : active.bodyBytes ≤ bytesOf (activeRows rows) := by
    obtain hnil | ⟨row, -, -, hrow'⟩ := activeRows_cases h
    · rw [hnil] at hactiveMem
      cases hactiveMem
    · rw [hrow'] at hactiveMem ⊢
      rw [List.mem_singleton.mp hactiveMem, bytesOf, List.map_singleton, List.sum_singleton]
  exact Nat.le_trans (Nat.add_le_add hone hsum) hbytes

/-- The pages of a session cover it exactly if the settled executions above the active one fit
beside it in the latest page. -/
theorem pages_cover (rows : List PageRow) (h : SessionRows rows) :
    PagesCover rows ↔ LatestFits rows := by
  constructor
  · rintro ⟨⟨page, pages, hread, hcontinues, hflat⟩, -, -⟩
    exact latestFits_of_covers h hread hcontinues hflat
  · intro hfits
    refine ⟨?_, fun direction cursor page upper hread hupper => ?_,
      fun direction cursor page hread hshown => ?_⟩
    · obtain ⟨taken, hread, htakes⟩ := latest_page h
      obtain ⟨rest, hsplit, hshown⟩ := latest_contiguous h hfits htakes
      cases hsorted : sortRows (activeRows rows ++ taken) with
      | nil =>
        have hempty : rows = [] := by
          by_contra hne
          exact hshown hne (List.perm_nil.mp (hsorted ▸ (sortRows_perm _).symm))
        subst hempty
        rw [hsorted] at hread
        exact ⟨_, [], hread, rfl, rfl⟩
      | cons first shown =>
        rw [hsorted] at hread hsplit
        have hfirst : first ∈ rows := hsplit ▸ List.mem_append_right _ List.mem_cons_self
        have hlower : (pageOf rows .latest none (first :: shown)).page.lowerExecutionOrder =
            some first.executionOrder := rfl
        obtain ⟨pages, hpages, hflat⟩ := older_covers h hlower rfl (h.safe hfirst)
        refine ⟨_, pages, hread, hpages, ?_⟩
        have hbelow : (rows.filter fun row =>
            decide (row.executionOrder < first.executionOrder)) = rest := by
          have hascending : Ascending (rest ++ first :: shown) := hsplit ▸ h.ascending
          have hhead := filter_below_head hascending
          rwa [← hsplit] at hhead
        rw [List.reverse_cons, List.map_append, List.flatten_append, hflat, hbelow]
        refine Eq.trans (congrArg (rest ++ ·) ?_) hsplit.symm
        exact List.flatten_singleton
    · obtain ⟨shown, rfl, hrows, -⟩ := page_of_read h hread
      have hlast : shown.getLast?.map PageRow.executionOrder = some upper := hupper
      obtain ⟨last, hlast', rfl⟩ := Option.map_eq_some_iff.mp hlast
      refine newer_covers h hupper ?_ (h.safe (hrows last (List.mem_of_getLast? hlast')))
      unfold pageOf
      dsimp only
      rw [hlast']
      rfl
    · obtain ⟨shown, rfl, -, hsorted⟩ := page_of_read h hread
      obtain ⟨first, others, rfl⟩ := List.exists_cons_of_ne_nil hshown
      have hne : first :: others ≠ [] := hshown
      obtain ⟨last, hlast⟩ := Option.isSome_iff_exists.mp (List.getLast?_isSome.mpr hne)
      obtain ⟨front, hfront⟩ := List.getLast?_eq_some_iff.mp hlast
      constructor
      · show rows.any _ = true ↔ _
        rw [List.any_eq_true]
        refine exists_congr fun row => and_congr_right fun _ => ?_
        rw [decide_eq_true_iff]
        refine ⟨fun hlt shown hmem => ?_, fun hall => hall first List.mem_cons_self⟩
        obtain rfl | hmem := List.mem_cons.mp hmem
        · exact hlt
        · exact Nat.lt_of_lt_of_le hlt ((List.pairwise_cons.mp hsorted).1 shown hmem)
      · have hnewer : (pageOf rows direction cursor (first :: others)).page.hasNewer =
            rows.any fun row => decide (last.executionOrder < row.executionOrder) := by
          unfold pageOf
          dsimp only
          rw [hlast]
          rfl
        rw [hnewer, List.any_eq_true]
        refine exists_congr fun row => and_congr_right fun _ => ?_
        rw [decide_eq_true_iff]
        refine ⟨fun hlt shown hmem => ?_, fun hall => hall last (List.mem_of_getLast? hlast)⟩
        have hmem' : shown ∈ front ++ [last] := hfront ▸ hmem
        obtain hmem | hmem := List.mem_append.mp hmem'
        · have hle := (List.pairwise_append.mp (hfront ▸ hsorted)).2.2 shown hmem last
            List.mem_cons_self
          exact Nat.lt_of_le_of_lt hle hlt
        · rw [List.mem_singleton.mp hmem]
          exact hlt

end Pages

/-! ## Two sessions -/

/-- A session of `count` executions of which one is active. -/
def sessionRows (count active : Nat) : List PageRow :=
  (List.range count).map fun order => ⟨order, toString order, order == active, 1000⟩

theorem pages_cover_newest : PagesCover (sessionRows 120 119) :=
  (pages_cover (sessionRows 120 119) ⟨by decide +kernel, by decide +kernel, by decide +kernel⟩).mpr
    (by unfold LatestFits; decide +kernel)

/-- With the oldest of 60 executions active the latest page shows it and the 50 newest, and nothing
is older. -/
theorem settled_between_lost :
    ¬ PagesCover (sessionRows 60 0) := by
  intro hcover
  obtain ⟨page, pages, hread, hcontinues, hflat⟩ := hcover.older
  have hrows : SessionRows (sessionRows 60 0) :=
    ⟨by decide +kernel, by decide +kernel, by decide +kernel⟩
  exact absurd (latestFits_of_covers hrows hread hcontinues hflat)
    (by unfold LatestFits; decide +kernel)

end Henji
