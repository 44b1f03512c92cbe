import Henji.Tui.LayoutLaw
import Henji.Tui.InputEditor
import Mathlib.Order.Bounds.Basic

/-!
# Where the cursor is shown and where it moves

The loop of the layout shows the lines of `wrap`, with the cursor placed in them. A vertical move lands
in the row that it aims for, in the last cell up to the column that a cursor of the row can be in.
-/

namespace Henji

variable {unicode : Segmentation}

/-! ## The loop of the layout -/

/-- The variables of the loop behind some graphemes. -/
structure LayoutState.Shows (s : LayoutState) (unicode : Segmentation) (cursor : Nat)
    (lines : List Line × Line) : Prop where
  rows : s.rows = lines.1.map Line.row
  text : s.text = lines.2.graphemes.flatMap escapeTerminalText
  used : s.used = cellsOf unicode lines.2.graphemes
  scalarStart : s.scalarStart = lines.2.start
  scalarEnd : s.scalarEnd = lines.2.finish
  filled : ∀ grapheme ∈ lines.2.graphemes, grapheme ≠ []
  unset : s.cursorSet = false → lines.2.finish ≤ cursor
  set : s.cursorSet = true → cursor < lines.2.finish ∧
    Placed unicode (linesOf lines) cursor s.cursorRow s.cursorCell

/-- A cursor in the last line. -/
theorem Placed.last (lines : List Line) {line : Line} {cursor : Nat} {front rest : List (List Char)}
    (hsplit : line.graphemes = front ++ rest) (hstands : line.stands cursor front rest) :
    Placed unicode (lines ++ [line]) cursor lines.length (cellsOf unicode front) := by
  refine ⟨line, front, rest, List.getElem?_concat_length, hsplit, rfl, hstands, ?_⟩
  intro _ next hnext
  rw [List.getElem?_eq_none (by simp)] at hnext
  exact absurd hnext (by simp)

/-- A line behind the one of the cursor. -/
theorem Placed.concat {before : List Line} {current : Line} {cursor row cell : Nat}
    (h : Placed unicode (before ++ [current]) cursor row cell) (hlt : cursor < current.finish)
    (next : Line) : Placed unicode (before ++ [current] ++ [next]) cursor row cell := by
  have hmore := h.extend hlt [] [next]
  rw [List.append_nil] at hmore
  rw [List.append_assoc]
  exact hmore

namespace LayoutState

variable {s : LayoutState} {cursor : Nat} {before : List Line} {current : Line}

theorem Shows.text_ne_nil {lines : List Line × Line} (h : s.Shows unicode cursor lines) :
    s.text ≠ [] ↔ lines.2.graphemes ≠ [] := by
  rw [h.text]
  constructor
  · rintro htext hnil
    rw [hnil] at htext
    exact htext rfl
  · intro hne
    obtain ⟨grapheme, rest, hcons⟩ := List.exists_cons_of_ne_nil hne
    rw [hcons, List.flatMap_cons]
    refine List.append_ne_nil_of_left_ne_nil (escapeTerminalText_ne_nil ?_) _
    exact h.filled grapheme (by rw [hcons]; exact List.mem_cons_self)

theorem Shows.row_eq {lines : List Line × Line} (h : s.Shows unicode cursor lines) :
    (⟨s.text, s.scalarStart, s.scalarEnd⟩ : EditorRow) = lines.2.row := by
  rw [h.text, h.scalarStart, h.scalarEnd]
  rfl

/-- A cursor that is not set yet stands in the segment when it is before its end. -/
theorem setCursor_cases (s : LayoutState) (cursor : Nat) (segment : TerminalTextSegment)
    (hunset : s.cursorSet = false → segment.scalarStart ≤ cursor) :
    (s.setCursor cursor segment = s ∧ (s.cursorSet = false → segment.scalarEnd ≤ cursor)) ∨
    (s.cursorSet = false ∧ segment.scalarStart ≤ cursor ∧ cursor < segment.scalarEnd ∧
      s.setCursor cursor segment =
        { s with cursorRow := s.rows.length, cursorCell := s.used, cursorSet := true }) := by
  rw [setCursor]
  by_cases hset : s.cursorSet = false ∧ segment.scalarStart ≤ cursor ∧ cursor < segment.scalarEnd
  · exact .inr ⟨hset.1, hset.2.1, hset.2.2, if_pos hset⟩
  · refine .inl ⟨if_neg hset, fun hopen => ?_⟩
    rw [← Nat.not_lt]
    exact fun hlt => hset ⟨hopen, hunset hopen, hlt⟩

/-- The current line is complete: the next one has no grapheme yet. -/
theorem Shows.push (h : s.Shows unicode cursor (before, current)) :
    s.push.Shows unicode cursor (before ++ [current], ⟨current.finish, []⟩) where
  rows := by
    show s.rows ++ [_] = _
    rw [h.row_eq, h.rows, List.map_append]
    rfl
  text := rfl
  used := rfl
  scalarStart := h.scalarEnd
  scalarEnd := h.scalarEnd
  filled := fun _ hmem => absurd hmem List.not_mem_nil
  unset := h.unset
  set := by
    intro hset
    obtain ⟨hlt, hplaced⟩ := h.set hset
    exact ⟨hlt, hplaced.concat hlt _⟩

/-- A segment that the current line takes. -/
theorem Shows.append (h : s.Shows unicode cursor (before, current)) (segment : TerminalTextSegment)
    (hne : segment.text ≠ []) (hstart : segment.scalarStart = current.finish)
    (hend : segment.scalarEnd = current.finish + segment.text.length) :
    LayoutState.Shows
      { s.setCursor cursor segment with
        text := (s.setCursor cursor segment).text ++ escapeTerminalText segment.text
        used := (s.setCursor cursor segment).used + displayCells unicode segment.text
        scalarEnd := segment.scalarEnd } unicode cursor
      (before, { current with graphemes := current.graphemes ++ [segment.text] }) := by
  have hfinish := Line.finish_concat current segment.text
  have hkept : (s.setCursor cursor segment).rows = s.rows ∧
      (s.setCursor cursor segment).text = s.text ∧ (s.setCursor cursor segment).used = s.used ∧
      (s.setCursor cursor segment).scalarStart = s.scalarStart := by
    rcases setCursor_cases s cursor segment (fun hopen => hstart ▸ h.unset hopen) with
      ⟨hsame, -⟩ | ⟨-, -, -, hset⟩
    · rw [hsame]
      exact ⟨rfl, rfl, rfl, rfl⟩
    · rw [hset]
      exact ⟨rfl, rfl, rfl, rfl⟩
  obtain ⟨hrows, htext, hused, hscalar⟩ := hkept
  refine ⟨hrows.trans h.rows, ?_, ?_, hscalar.trans h.scalarStart, hend.trans hfinish.symm, ?_, ?_, ?_⟩
  · show (s.setCursor cursor segment).text ++ _ = _
    rw [htext, h.text, List.flatMap_append, List.flatMap_singleton]
  · show (s.setCursor cursor segment).used + _ = _
    rw [hused, h.used, cellsOf_append, cellsOf_singleton]
  · intro grapheme hmem
    rcases List.mem_append.mp hmem with hold | hnew
    · exact h.filled grapheme hold
    · rw [List.mem_singleton.mp hnew]
      exact hne
  · intro hopen
    show Line.finish _ ≤ cursor
    rw [hfinish, ← hend]
    rcases setCursor_cases s cursor segment (fun hopen => hstart ▸ h.unset hopen) with
      ⟨hsame, hle⟩ | ⟨-, -, -, hset⟩
    · refine hle ?_
      rw [← hsame]
      exact hopen
    · rw [hset] at hopen
      exact absurd hopen (by simp)
  · intro hclosed
    show cursor < Line.finish _ ∧ _
    rw [hfinish, ← hend]
    rcases setCursor_cases s cursor segment (fun hopen => hstart ▸ h.unset hopen) with
      ⟨hsame, -⟩ | ⟨hopen, hle, hlt, hset⟩
    · -- Set before: the place stays when the line grows.
      rw [hsame] at hclosed ⊢
      obtain ⟨hbefore, hplaced⟩ := h.set hclosed
      rw [hend]
      exact ⟨Nat.lt_add_right _ hbefore, hplaced.extend hbefore [segment.text] []⟩
    · rw [hset]
      refine ⟨hlt, ?_⟩
      have hstands : Line.stands { current with graphemes := current.graphemes ++ [segment.text] }
          cursor current.graphemes [segment.text] := by
        rw [hstart] at hle
        rw [hend] at hlt
        exact ⟨hle, hlt⟩
      show Placed unicode _ cursor s.rows.length s.used
      rw [h.rows, h.used, List.length_map]
      exact Placed.last before rfl hstands

/-- A line feed completes the current line. -/
theorem Shows.lineFeed (h : s.Shows unicode cursor (before, current)) {segment : TerminalTextSegment}
    (hstart : segment.scalarStart = current.finish) (hend : segment.scalarEnd = current.finish + 1) :
    LayoutState.Shows
      { (s.setCursor cursor segment).push with
        scalarStart := segment.scalarEnd
        scalarEnd := segment.scalarEnd } unicode cursor
      (before ++ [current], ⟨current.finish + 1, []⟩) := by
  have hrow : (s.setCursor cursor segment).push.rows = (before ++ [current]).map Line.row := by
    rw [List.map_append, List.map_singleton, ← h.row_eq, ← h.rows]
    rcases setCursor_cases s cursor segment (fun hopen => hstart ▸ h.unset hopen) with
      ⟨hsame, -⟩ | ⟨-, -, -, hset⟩
    · rw [hsame]
      rfl
    · rw [hset]
      rfl
  refine ⟨hrow, rfl, rfl, hend, hend, fun _ hmem => absurd hmem List.not_mem_nil, ?_, ?_⟩
  · intro hopen
    show current.finish + 1 ≤ cursor
    rw [← hend]
    rcases setCursor_cases s cursor segment (fun hopen => hstart ▸ h.unset hopen) with
      ⟨hsame, hle⟩ | ⟨-, -, -, hset⟩
    · refine hle ?_
      rw [← hsame]
      exact hopen
    · rw [hset] at hopen
      exact Bool.noConfusion hopen
  · intro hclosed
    show cursor < current.finish + 1 ∧ _
    rcases setCursor_cases s cursor segment (fun hopen => hstart ▸ h.unset hopen) with
      ⟨hsame, -⟩ | ⟨hopen, hle, hlt, hset⟩
    · rw [hsame] at hclosed ⊢
      obtain ⟨hbefore, hplaced⟩ := h.set hclosed
      exact ⟨Nat.lt_succ_of_lt hbefore, hplaced.concat hbefore _⟩
    · -- The cursor is on the line feed, at the end of the row.
      rw [hset]
      have hat : cursor = current.finish := by omega
      refine ⟨by omega, current, current.graphemes, [], ?_, (List.append_nil _).symm, h.used, hat, ?_⟩
      · show (before ++ [current] ++ _)[s.rows.length]? = _
        rw [h.rows, List.length_map, List.append_assoc,
          List.getElem?_append_right (Nat.le_refl _), Nat.sub_self]
        rfl
      · intro _ next hnext
        have hindex : s.rows.length + 1 = (before ++ [current]).length := by
          rw [h.rows, List.length_map, List.length_append]
          rfl
        have hlast : (before ++ [current] ++ [⟨current.finish + 1, []⟩])[s.rows.length + 1]? =
            some next := hnext
        rw [hindex, List.getElem?_concat_length] at hlast
        rw [← Option.some.inj hlast, hat]

/-- One segment in the loop is one grapheme in `wrap`. -/
theorem Shows.step (columns : Nat) {lines : List Line × Line} (h : s.Shows unicode cursor lines)
    (segment : TerminalTextSegment) (hne : segment.text ≠ [])
    (hstart : segment.scalarStart = lines.2.finish)
    (hend : segment.scalarEnd = lines.2.finish + segment.text.length) :
    (s.layoutSegment unicode columns cursor segment).Shows unicode cursor
      (wrapStep unicode columns lines segment.text) := by
  obtain ⟨before, current⟩ := lines
  rw [layoutSegment, wrapStep]
  by_cases hfeed : segment.text = ['\n']
  · rw [if_pos hfeed, if_pos hfeed]
    refine h.lineFeed hstart ?_
    rw [hend, hfeed]
    rfl
  · rw [if_neg hfeed, if_neg hfeed]
    dsimp only
    by_cases hfull : current.graphemes ≠ [] ∧
        columns < cellsOf unicode current.graphemes + displayCells unicode segment.text
    · have hwrap : s.text ≠ [] ∧
          columns < s.used + cellWidth unicode (escapeTerminalText segment.text) :=
        ⟨h.text_ne_nil.mpr hfull.1, by rw [h.used]; exact hfull.2⟩
      rw [if_pos hwrap, if_pos hfull]
      have hpushed := h.push.append segment hne hstart hend
      exact hpushed
    · have hfits : ¬(s.text ≠ [] ∧
          columns < s.used + cellWidth unicode (escapeTerminalText segment.text)) := by
        rintro ⟨htext, hcells⟩
        rw [h.used] at hcells
        exact hfull ⟨h.text_ne_nil.mp htext, hcells⟩
      rw [if_neg hfits, if_neg hfull]
      exact h.append segment hne hstart hend

/-- The loop over segments follows `wrap` over their graphemes. -/
theorem Shows.fold (columns : Nat) (width : List Char → Nat) (graphemes : List (List Char))
    (hne : ∀ grapheme ∈ graphemes, grapheme ≠ []) {lines : List Line × Line}
    (h : s.Shows unicode cursor lines) :
    ((segmentsFrom width lines.2.finish graphemes).foldl
      (layoutSegment unicode columns cursor) s).Shows unicode cursor
        (graphemes.foldl (wrapStep unicode columns) lines) := by
  induction graphemes generalizing s lines with
  | nil => exact h
  | cons grapheme graphemes ih =>
    rw [List.foldl_cons, segmentsFrom, List.foldl_cons]
    have hstep := h.step columns
      ⟨grapheme, width grapheme, lines.2.finish, lines.2.finish + grapheme.length⟩
      (hne grapheme List.mem_cons_self) rfl rfl
    have hfinish : (wrapStep unicode columns lines grapheme).2.finish =
        lines.2.finish + grapheme.length := by
      rcases wrapStep_cases unicode columns lines grapheme with
        ⟨rfl, hwrap⟩ | ⟨-, -, hwrap⟩ | ⟨-, -, hwrap⟩
      · rw [hwrap]
        rfl
      · rw [hwrap]
        simp [Line.finish]
      · rw [hwrap]
        exact Line.finish_concat _ _
    rw [← hfinish] at hstep ⊢
    exact ih (fun grapheme hmem => hne grapheme (List.mem_cons_of_mem _ hmem)) hstep

end LayoutState

/-- The lines of a text. -/
def textLines (unicode : Segmentation) (text : List Char) (columns : Nat) : List Line :=
  linesOf (wrap unicode columns (unicode.segment text))

/-- The rows of the layout are the lines of the text, and its cursor is placed in them. -/
theorem layoutEditorText_lines (unicode : Segmentation) (text : List Char) (cursor columns : Nat) :
    (layoutEditorText unicode text cursor columns).rows =
      (textLines unicode text columns).map Line.row ∧
    (cursor ≤ text.length → Placed unicode (textLines unicode text columns) cursor
      (layoutEditorText unicode text cursor columns).cursorRow
      (layoutEditorText unicode text cursor columns).cursorCell) := by
  obtain ⟨width, hsegments⟩ := exists_segmentTerminalText unicode text
  have hstart : LayoutState.start.Shows unicode cursor ([], ⟨0, []⟩) :=
    ⟨rfl, rfl, rfl, rfl, rfl, fun _ hmem => absurd hmem List.not_mem_nil, fun _ => Nat.zero_le _,
      fun hset => absurd hset Bool.false_ne_true⟩
  have hshown := hstart.fold columns width (unicode.segment text)
    (unicode.segment_ne_nil text)
  have hfold : (segmentsFrom width 0 (unicode.segment text)).foldl
      (LayoutState.layoutSegment unicode columns cursor) LayoutState.start =
      (segmentTerminalText unicode text).foldl
        (LayoutState.layoutSegment unicode columns cursor) LayoutState.start := by rw [hsegments]
  rw [show Line.finish (⟨0, []⟩ : Line) = 0 from rfl, hfold, ← wrap] at hshown
  rw [layoutEditorText, textLines]
  generalize (segmentTerminalText unicode text).foldl
    (LayoutState.layoutSegment unicode columns cursor) LayoutState.start = s at hshown
  have htotal := (wrapped_wrap unicode columns (unicode.segment text)).finish
  rw [unicode.flatten_segment] at htotal
  refine ⟨hshown.push.rows, fun hcursor => ?_⟩
  dsimp only
  cases hset : s.cursorSet with
  | true =>
    rw [if_pos rfl, if_pos rfl]
    exact (hshown.set hset).2
  | false =>
    rw [if_neg Bool.false_ne_true, if_neg Bool.false_ne_true, hshown.rows, hshown.used,
      List.length_map]
    have hend : cursor = (wrap unicode columns (unicode.segment text)).2.finish :=
      Nat.le_antisymm (htotal ▸ hcursor) (hshown.unset hset)
    exact Placed.last _ (List.append_nil _).symm hend

/-! ## Rows -/

/-- The graphemes that a row of a text shows. -/
def EditorRow.graphemes (unicode : Segmentation) (text : List Char) (row : EditorRow) :
    List (List Char) := unicode.segment (row.scalars text)

/-- The row of a line has the scalars of its graphemes. -/
theorem scalars_row {text : List Char} {columns : Nat} {line : Line}
    (hline : line ∈ textLines unicode text columns) :
    line.row.scalars text = line.graphemes.flatten ∧
      line.row.graphemes unicode text = line.graphemes := by
  obtain ⟨before, behind, hsplit, hstart⟩ :=
    (wrapped_wrap unicode columns (unicode.segment text)).inside line hline
  have hscalars : line.row.scalars text = line.graphemes.flatten := by
    have htext : text = before.flatten ++ (line.graphemes.flatten ++ behind.flatten) := by
      rw [← unicode.flatten_segment text, hsplit, List.flatten_append, List.flatten_append,
        List.append_assoc]
    have hlength : line.row.scalarEnd - line.row.scalarStart = line.graphemes.flatten.length :=
      Nat.add_sub_cancel_left _ _
    rw [EditorRow.scalars, hlength, htext,
      List.drop_left' (show before.flatten.length = line.row.scalarStart from hstart),
      List.take_left]
  refine ⟨hscalars, ?_⟩
  rw [EditorRow.graphemes, hscalars]
  exact unicode.segment_inside text before line.graphemes behind hsplit

theorem graphemes_ne_nil {text : List Char} {columns : Nat} {line : Line}
    (hline : line ∈ textLines unicode text columns) :
    ∀ grapheme ∈ line.graphemes, grapheme ≠ [] := by
  obtain ⟨before, behind, hsplit, -⟩ :=
    (wrapped_wrap unicode columns (unicode.segment text)).inside line hline
  intro grapheme hmem
  refine unicode.segment_ne_nil text grapheme ?_
  rw [hsplit]
  exact List.mem_append_left _ (List.mem_append_right _ hmem)

/-! ## Moves -/

/-- The segments that fit are the longest front of the row up to the column. -/
theorem fitSegments_spec (unicode : Segmentation) (width : List Char → Nat) (column rowStart : Nat)
    (graphemes : List (List Char)) (offset used lastStart : Nat) (hused : used ≤ column) :
    ∃ front rest, graphemes = front ++ rest ∧
      (fitSegments unicode column rowStart (segmentsFrom width offset graphemes) used
        (rowStart + offset) lastStart).1 = rowStart + offset + front.flatten.length ∧
      used + cellsOf unicode front ≤ column ∧
      (∀ grapheme behind, rest = grapheme :: behind →
        column < used + cellsOf unicode (front ++ [grapheme])) ∧
      (front = [] → (fitSegments unicode column rowStart (segmentsFrom width offset graphemes) used
        (rowStart + offset) lastStart).2 = lastStart) ∧
      (∀ init last, front = init ++ [last] →
        (fitSegments unicode column rowStart (segmentsFrom width offset graphemes) used
          (rowStart + offset) lastStart).2 = rowStart + offset + init.flatten.length) := by
  induction graphemes generalizing offset used lastStart with
  | nil =>
    refine ⟨[], [], rfl, rfl, hused, fun _ _ hrest => absurd hrest (by simp), fun _ => rfl,
      fun init last hnil => ?_⟩
    exact absurd hnil.symm (by simp)
  | cons grapheme graphemes ih =>
    rw [segmentsFrom, fitSegments]
    dsimp only
    by_cases hover : column < used + displayCells unicode grapheme
    · rw [if_pos hover]
      refine ⟨[], grapheme :: graphemes, rfl, rfl, hused, fun next behind hrest => ?_, fun _ => rfl,
        fun init last hnil => absurd hnil.symm (by simp)⟩
      rw [List.nil_append, cellsOf_singleton, ← (List.cons.inj hrest).1]
      exact hover
    · rw [if_neg hover]
      obtain ⟨front, rest, hsplit, hcursor, hfits, hnext, hnone, hlast⟩ :=
        ih (offset + grapheme.length) (used + displayCells unicode grapheme) (rowStart + offset)
          (Nat.not_lt.mp hover)
      have hcells : ∀ more, cellsOf unicode (grapheme :: more) =
          displayCells unicode grapheme + cellsOf unicode more := fun more => by
        rw [← List.singleton_append, cellsOf_append, cellsOf_singleton]
      refine ⟨grapheme :: front, rest, by rw [hsplit, List.cons_append], ?_, ?_, ?_,
        fun hnil => absurd hnil (by simp), ?_⟩
      · rw [hcursor, List.flatten_cons, List.length_append]
        omega
      · rw [hcells, ← Nat.add_assoc]
        exact hfits
      · intro next behind hrest
        rw [List.cons_append, hcells, ← Nat.add_assoc]
        exact hnext next behind hrest
      · intro init last hfront
        cases init with
        | nil =>
          -- Only this grapheme fits: the cursor was at its start.
          exact hnone (List.cons.inj hfront).2
        | cons first init =>
          obtain ⟨rfl, hinit⟩ := List.cons.inj hfront
          rw [hlast init last hinit, List.flatten_cons, List.length_append]
          omega

/-- The cells of a row where a cursor of the row can stand: where a grapheme starts, or at the end of a
row that the next one does not continue. -/
def EditorLayout.Stop (layout : EditorLayout) (unicode : Segmentation) (text : List Char)
    (index cell : Nat) : Prop :=
  ∃ row front rest, layout.rows[index]? = some row ∧ row.graphemes unicode text = front ++ rest ∧
    cell = cellsOf unicode front ∧
    (rest = [] → ∀ next, layout.rows[index + 1]? = some next → next.scalarStart ≠ row.scalarEnd)

/-- The same in lines. -/
def StopLine (unicode : Segmentation) (lines : List Line) (index cell : Nat) : Prop :=
  ∃ line front rest, lines[index]? = some line ∧ line.graphemes = front ++ rest ∧
    cell = cellsOf unicode front ∧
    (rest = [] → ∀ next, lines[index + 1]? = some next → next.start ≠ line.finish)

theorem stop_iff (text : List Char) (cursor columns index cell : Nat) :
    (layoutEditorText unicode text cursor columns).Stop unicode text index cell ↔
      StopLine unicode (textLines unicode text columns) index cell := by
  have hrows := (layoutEditorText_lines unicode text cursor columns).1
  rw [EditorLayout.Stop, hrows]
  constructor
  · rintro ⟨row, front, rest, hrow, hsplit, hcell, hend⟩
    rw [List.getElem?_map] at hrow
    obtain ⟨line, hline, rfl⟩ := Option.map_eq_some_iff.mp hrow
    rw [(scalars_row (List.mem_of_getElem? hline)).2] at hsplit
    refine ⟨line, front, rest, hline, hsplit, hcell, fun hnil next hnext => ?_⟩
    exact hend hnil next.row (by rw [List.getElem?_map, hnext]; rfl)
  · rintro ⟨line, front, rest, hline, hsplit, hcell, hend⟩
    refine ⟨line.row, front, rest, by rw [List.getElem?_map, hline]; rfl, ?_, hcell,
      fun hnil next hnext => ?_⟩
    · rw [(scalars_row (List.mem_of_getElem? hline)).2, hsplit]
    · rw [List.getElem?_map] at hnext
      obtain ⟨nextLine, hfollow, rfl⟩ := Option.map_eq_some_iff.mp hnext
      exact hend hnil nextLine hfollow

theorem cellsOf_le {front rest : List (List Char)} :
    cellsOf unicode front ≤ cellsOf unicode (front ++ rest) := by
  rw [cellsOf_append]
  exact Nat.le_add_right _ _

theorem placed_le {text : List Char} {columns cursor index cell : Nat}
    (h : Placed unicode (textLines unicode text columns) cursor index cell) :
    cursor ≤ text.length := by
  obtain ⟨line, front, rest, hline, hsplit, -, hstands, -⟩ := h
  have hwrapped := wrapped_wrap unicode columns (unicode.segment text)
  have hfinish := hwrapped.finish
  rw [unicode.flatten_segment] at hfinish
  exact Nat.le_trans (hstands.bounds hsplit).2.1
    (hfinish ▸ hwrapped.finish_le (List.mem_of_getElem? hline))

section Landing

variable {text : List Char} {columns index column : Nat} {line : Line}

/-- A row that the next one continues: its last grapheme is where the cursor stays. -/
theorem landed_continued (hline : (textLines unicode text columns)[index]? = some line)
    (hfits : cellsOf unicode line.graphemes ≤ column) {next : Line}
    (hnext : (textLines unicode text columns)[index + 1]? = some next)
    (hstart : next.start = line.finish) :
    ∃ init last, line.graphemes = init ++ [last] ∧
      Placed unicode (textLines unicode text columns) (line.start + init.flatten.length) index
        (cellsOf unicode init) ∧
      IsGreatest {cell | StopLine unicode (textLines unicode text columns) index cell ∧
        cell ≤ column} (cellsOf unicode init) := by
  have hfilled : line.graphemes ≠ [] := by
    rcases (wrapped_wrap unicode columns (unicode.segment text)).next index line next hline hnext with
      ⟨-, hfilled⟩ | ⟨hbreak, -⟩
    · exact hfilled
    · omega
  obtain ⟨init, last, hsplit⟩ := List.eq_nil_or_concat line.graphemes |>.resolve_left hfilled
  rw [List.concat_eq_append] at hsplit
  have hlast : last ≠ [] := graphemes_ne_nil (List.mem_of_getElem? hline) last (by simp [hsplit])
  refine ⟨init, last, hsplit, ⟨line, init, [last], hline, hsplit, rfl, ⟨Nat.le_refl _, ?_⟩,
    fun hnil => absurd hnil (by simp)⟩, ⟨⟨line, init, [last], hline, hsplit, rfl,
      fun hnil => absurd hnil (by simp)⟩, ?_⟩, ?_⟩
  · exact Nat.lt_add_of_pos_right (List.length_pos_of_ne_nil hlast)
  · rw [hsplit] at hfits
    exact Nat.le_trans cellsOf_le hfits
  · rintro cell ⟨⟨other, front, rest, hother, hcut, rfl, hend⟩, -⟩
    obtain rfl : line = other := Option.some.inj (hline.symm.trans hother)
    -- The end of the row belongs to the next one, so something of the row is behind the cell.
    have hrest : rest ≠ [] := fun hnil => hend hnil next hnext hstart
    obtain ⟨behind, final, hrest⟩ := (List.eq_nil_or_concat rest).resolve_left hrest
    rw [List.concat_eq_append] at hrest
    rw [hsplit, hrest, ← List.append_assoc] at hcut
    rw [(List.append_inj' hcut rfl).1]
    exact cellsOf_le

/-- Any other row: the cursor stands behind what fits. -/
theorem landed_here (hline : (textLines unicode text columns)[index]? = some line)
    {front rest : List (List Char)} (hsplit : line.graphemes = front ++ rest)
    (hfits : cellsOf unicode front ≤ column)
    (hmore : ∀ grapheme behind, rest = grapheme :: behind →
      column < cellsOf unicode (front ++ [grapheme]))
    (hend : rest = [] → ∀ next, (textLines unicode text columns)[index + 1]? = some next →
      next.start ≠ line.finish) :
    Placed unicode (textLines unicode text columns) (line.start + front.flatten.length) index
        (cellsOf unicode front) ∧
      IsGreatest {cell | StopLine unicode (textLines unicode text columns) index cell ∧
        cell ≤ column} (cellsOf unicode front) := by
  refine ⟨⟨line, front, rest, hline, hsplit, rfl, ?_, fun hnil next hnext => ?_⟩,
    ⟨⟨line, front, rest, hline, hsplit, rfl, hend⟩, hfits⟩, ?_⟩
  · cases rest with
    | nil =>
      rw [List.append_nil] at hsplit
      show _ = line.finish
      rw [← hsplit]
      rfl
    | cons grapheme behind =>
      have hne : grapheme ≠ [] :=
        graphemes_ne_nil (List.mem_of_getElem? hline) grapheme (by simp [hsplit])
      exact ⟨Nat.le_refl _, Nat.lt_add_of_pos_right (List.length_pos_of_ne_nil hne)⟩
  · rw [hnil, List.append_nil] at hsplit
    rcases (wrapped_wrap unicode columns (unicode.segment text)).next index line next hline hnext with
      ⟨hstart, -⟩ | ⟨hstart, -⟩
    · exact absurd hstart (hend hnil next hnext)
    · rw [hstart, ← hsplit]
      rfl
  · rintro cell ⟨⟨other, front', rest', hother, hcut, rfl, -⟩, hle⟩
    obtain rfl : line = other := Option.some.inj (hline.symm.trans hother)
    rcases List.append_eq_append_iff.mp (hcut.symm.trans hsplit) with
      ⟨more, rfl, -⟩ | ⟨more, rfl, hrest⟩
    · exact cellsOf_le
    · cases more with
      | nil => rw [List.append_nil]
      | cons grapheme more =>
        -- The next grapheme is already too far.
        have hfar := hmore grapheme (more ++ rest') (by rw [hrest, List.cons_append])
        rw [← List.singleton_append, ← List.append_assoc] at hle
        have hgrow : cellsOf unicode (front ++ [grapheme]) ≤
            cellsOf unicode (front ++ [grapheme] ++ more) := cellsOf_le
        omega

end Landing

/-- What one move does: the cursor is placed in the row that it aims for, in the greatest cell. -/
theorem moved_spec {text : List Char} {cursor columns : Nat} {direction : Direction}
    {preferred : Option Nat} {moved : MovedCursor}
    (h : moveEditorCursorVertically unicode text cursor columns direction preferred = some moved) :
    ∃ index cell, direction.target (layoutEditorText unicode text cursor columns).cursorRow =
        some index ∧
      moved.preferredColumn =
        preferred.getD (layoutEditorText unicode text cursor columns).cursorCell ∧
      moved.cursor ≤ text.length ∧
      Placed unicode (textLines unicode text columns) moved.cursor index cell ∧
      IsGreatest {cell | StopLine unicode (textLines unicode text columns) index cell ∧
        cell ≤ moved.preferredColumn} cell := by
  rw [moveEditorCursorVertically] at h
  obtain ⟨index, htarget, h⟩ := Option.bind_eq_some_iff.mp h
  obtain ⟨row, hrow, h⟩ := Option.bind_eq_some_iff.mp h
  have hrows := (layoutEditorText_lines unicode text cursor columns).1
  rw [hrows, List.getElem?_map] at hrow
  obtain ⟨line, hline, rfl⟩ := Option.map_eq_some_iff.mp hrow
  have hmem : line ∈ textLines unicode text columns := List.mem_of_getElem? hline
  obtain rfl := Option.some.inj h
  dsimp only
  -- The row is cut into the graphemes of its line.
  obtain ⟨width, hsegments⟩ := exists_segmentTerminalText unicode (line.row.scalars text)
  rw [show unicode.segment (line.row.scalars text) = line.graphemes from (scalars_row hmem).2]
    at hsegments
  generalize hcolumn : preferred.getD
    (layoutEditorText unicode text cursor columns).cursorCell = column
  obtain ⟨front, rest, hsplit, hcursor, hfits, hmore, -, hlast⟩ :=
    fitSegments_spec unicode width column line.start line.graphemes 0 0 line.start
      (Nat.zero_le _)
  rw [hrows, hsegments]
  simp only [Nat.add_zero, Nat.zero_add] at hcursor hfits hmore hlast
  rw [show line.row.scalarStart = line.start from rfl, show line.row.scalarEnd = line.finish from rfl]
  generalize fitSegments unicode column line.start (segmentsFrom width 0 line.graphemes) 0 line.start
    line.start = fitted at hcursor hlast
  have hend : fitted.1 = line.finish ↔ rest = [] := by
    rw [hcursor, Line.finish_eq hsplit]
    cases rest with
    | nil => simp
    | cons grapheme behind =>
      have hne : grapheme ≠ [] := graphemes_ne_nil hmem grapheme (by simp [hsplit])
      have hpos := List.length_pos_of_ne_nil hne
      simp only [List.flatten_cons, List.length_append, reduceCtorEq, iff_false]
      omega
  have hany : ∀ cursor, (((textLines unicode text columns).map Line.row)[index + 1]?.any
      fun next => next.scalarStart == cursor) = true ↔
      ∃ next, (textLines unicode text columns)[index + 1]? = some next ∧ next.start = cursor := by
    intro cursor
    rw [List.getElem?_map, Option.any_map, Option.any_eq_true]
    exact exists_congr fun next => and_congr_right fun _ => beq_iff_eq
  simp only [hany]
  by_cases hcontinued : fitted.1 = line.finish ∧
      ∃ next, (textLines unicode text columns)[index + 1]? = some next ∧ next.start = fitted.1
  · rw [if_pos hcontinued]
    obtain ⟨hall, next, hnext, hstart⟩ := hcontinued
    have hnil := hend.mp hall
    rw [hnil, List.append_nil] at hsplit
    obtain ⟨init, last, hline', hlanded⟩ := landed_continued hline (hsplit ▸ hfits) hnext
      (hstart.trans hall)
    rw [← hlast init last (hsplit.symm.trans hline')] at hlanded
    exact ⟨index, _, htarget, trivial, placed_le hlanded.1, hlanded⟩
  · rw [if_neg hcontinued]
    have hlanded := landed_here hline hsplit hfits hmore fun hnil next hnext hstart => by
      exact hcontinued ⟨hend.mpr hnil, next, hnext, hstart.trans (hend.mpr hnil).symm⟩
    rw [← hcursor] at hlanded
    exact ⟨index, _, htarget, trivial, placed_le hlanded.1, hlanded⟩

/-! ## What the user sees -/

/-- The layout of a text with its cursor. -/
structure LaidOut (unicode : Segmentation) (text : List Char) (cursor columns : Nat)
    (layout : EditorLayout) : Prop where
  ordered : layout.rows.Pairwise fun row next => row.scalarEnd ≤ next.scalarStart
  partition : layout.rows.flatMap (EditorRow.scalars text) = text.filter (· ≠ '\n')
  displayed : ∀ row ∈ layout.rows, row.text = escapeTerminalText (row.scalars text)
  unbroken : ∀ row ∈ layout.rows, '\n' ∉ row.text
  narrow : ∀ row ∈ layout.rows, cellsOf unicode (row.graphemes unicode text) ≤ columns ∨
    (row.graphemes unicode text).length = 1
  /-- The cursor is shown where its grapheme starts: a line feed at the end of its row. -/
  shown : ∃ row front rest, layout.rows[layout.cursorRow]? = some row ∧
    row.graphemes unicode text = front ++ rest ∧ layout.cursorCell = cellsOf unicode front ∧
    match rest with
    | grapheme :: _ => row.scalarStart + front.flatten.length ≤ cursor ∧
      cursor < row.scalarStart + front.flatten.length + grapheme.length
    | [] => cursor = row.scalarEnd ∧
      (text[cursor]? = some '\n' ∨ cursor = text.length ∧ layout.cursorRow + 1 = layout.rows.length)

/-- Where vertical moves lead: to the row that they count to, in the last cell up to the column that
they keep. -/
structure Lands (unicode : Segmentation) (columns : Nat) (directions : List Direction)
    (editor moved : TuiEditor) : Prop where
  value : moved.value = editor.value
  row : directions.foldlM Direction.target (editor.layout unicode columns).cursorRow =
    some (moved.layout unicode columns).cursorRow
  column : directions ≠ [] → moved.preferredColumn =
    some (editor.preferredColumn.getD (editor.layout unicode columns).cursorCell)
  cell : directions ≠ [] → IsGreatest
    {cell | (moved.layout unicode columns).Stop unicode moved.value
      (moved.layout unicode columns).cursorRow cell ∧
      cell ≤ editor.preferredColumn.getD (editor.layout unicode columns).cursorCell}
    (moved.layout unicode columns).cursorCell
  inside : moved.cursor ≤ moved.value.length

/-- One move is shown where it lands. -/
theorem moveVertical_lands {columns : Nat} {direction : Direction} {editor moved : TuiEditor}
    (h : editor.moveVertical unicode columns direction = some moved) :
    moved.value = editor.value ∧ moved.cursor ≤ moved.value.length ∧
    moved.preferredColumn =
      some (editor.preferredColumn.getD (editor.layout unicode columns).cursorCell) ∧
    direction.target (editor.layout unicode columns).cursorRow =
      some (moved.layout unicode columns).cursorRow ∧
    IsGreatest {cell | (moved.layout unicode columns).Stop unicode moved.value
      (moved.layout unicode columns).cursorRow cell ∧
      cell ≤ editor.preferredColumn.getD (editor.layout unicode columns).cursorCell}
      (moved.layout unicode columns).cursorCell := by
  rw [TuiEditor.moveVertical] at h
  obtain ⟨result, hmove, rfl⟩ := Option.map_eq_some_iff.mp h
  obtain ⟨index, cell, htarget, hcolumn, hinside, hplaced, hgreatest⟩ := moved_spec hmove
  -- The new layout shows the cursor where the old lines place it.
  obtain ⟨hrow, hcell⟩ := Placed.unique
    (wrapped_wrap unicode columns (unicode.segment editor.value)).ordered
    ((layoutEditorText_lines unicode editor.value result.cursor columns).2 hinside) hplaced
  refine ⟨rfl, hinside, congrArg some hcolumn, ?_, ?_⟩
  · show _ = some (layoutEditorText unicode editor.value result.cursor columns).cursorRow
    rw [hrow]
    exact htarget
  · show IsGreatest {cell | (layoutEditorText unicode editor.value result.cursor columns).Stop unicode
      editor.value (layoutEditorText unicode editor.value result.cursor columns).cursorRow cell ∧ _}
      (layoutEditorText unicode editor.value result.cursor columns).cursorCell
    simp only [stop_iff, hrow, hcell]
    rw [hcolumn] at hgreatest
    exact hgreatest

theorem moveRepeatedly_lands {columns : Nat} {directions : List Direction} {editor moved : TuiEditor}
    (hcursor : editor.cursor ≤ editor.value.length)
    (h : editor.moveRepeatedly unicode columns directions = some moved) :
    Lands unicode columns directions editor moved := by
  induction directions generalizing editor with
  | nil =>
    obtain rfl := Option.some.inj h
    exact ⟨rfl, rfl, fun hne => absurd rfl hne, fun hne => absurd rfl hne, hcursor⟩
  | cons direction directions ih =>
    rw [TuiEditor.moveRepeatedly, List.foldlM_cons] at h
    obtain ⟨next, hnext, hrest⟩ := Option.bind_eq_some_iff.mp h
    obtain ⟨hvalue, hinside, hcolumn, htarget, hgreatest⟩ := moveVertical_lands hnext
    have hlands := ih hinside hrest
    have hkept : next.preferredColumn.getD (next.layout unicode columns).cursorCell =
        editor.preferredColumn.getD (editor.layout unicode columns).cursorCell := by
      rw [hcolumn]
      rfl
    refine ⟨hlands.value.trans hvalue, ?_, fun _ => ?_, fun _ => ?_, hlands.inside⟩
    · rw [List.foldlM_cons, htarget]
      exact hlands.row
    · cases directions with
      | nil =>
        obtain rfl := Option.some.inj hrest
        exact hcolumn
      | cons second directions =>
        rw [← hkept]
        exact hlands.column (by simp)
    · cases directions with
      | nil =>
        obtain rfl := Option.some.inj hrest
        exact hgreatest
      | cons second directions =>
        rw [← hkept]
        exact hlands.cell (by simp)

/-- Without a CR LF, a line feed is a grapheme of its own. -/
theorem lineFeed_alone {text : List Char} (h : ¬['\r', '\n'] <:+: text) {grapheme : List Char}
    (hmem : grapheme ∈ unicode.segment text) (hfeed : '\n' ∈ grapheme) : grapheme = ['\n'] := by
  refine (unicode.lineFeed text grapheme hmem hfeed).resolve_right fun hpair => h ?_
  rw [← unicode.flatten_segment text, ← hpair]
  exact List.infix_of_mem_flatten hmem

theorem flatten_filter_graphemes {graphemes : List (List Char)}
    (h : ∀ grapheme ∈ graphemes, '\n' ∈ grapheme → grapheme = ['\n']) :
    (graphemes.filter (· ≠ ['\n'])).flatten = graphemes.flatten.filter (· ≠ '\n') := by
  induction graphemes with
  | nil => rfl
  | cons grapheme graphemes ih =>
    have ih := ih fun other hmem => h other (List.mem_cons_of_mem _ hmem)
    rw [List.flatten_cons, List.filter_append, ← ih]
    by_cases hfeed : grapheme = ['\n']
    · rw [List.filter_cons_of_neg (by simp [hfeed]), hfeed]
      rfl
    · rw [List.filter_cons_of_pos (by simp [hfeed]), List.flatten_cons]
      congr 1
      refine (List.filter_eq_self.mpr fun character hmem => ?_).symm
      have hother : character ≠ '\n' := fun heq => hfeed (h grapheme List.mem_cons_self (heq ▸ hmem))
      simp [hother]

theorem mem_rows {text : List Char} {cursor columns : Nat} {row : EditorRow} :
    row ∈ (layoutEditorText unicode text cursor columns).rows ↔
      ∃ line ∈ textLines unicode text columns, line.row = row := by
  rw [(layoutEditorText_lines unicode text cursor columns).1, List.mem_map]

/-- Where the layout shows the cursor. -/
theorem layout_shown {text : List Char} {cursor columns : Nat} (hcursor : cursor ≤ text.length) :
    ∃ row front rest, (layoutEditorText unicode text cursor columns).rows[
        (layoutEditorText unicode text cursor columns).cursorRow]? = some row ∧
      row.graphemes unicode text = front ++ rest ∧
      (layoutEditorText unicode text cursor columns).cursorCell = cellsOf unicode front ∧
      match rest with
      | grapheme :: _ => row.scalarStart + front.flatten.length ≤ cursor ∧
        cursor < row.scalarStart + front.flatten.length + grapheme.length
      | [] => cursor = row.scalarEnd ∧ (text[cursor]? = some '\n' ∨ cursor = text.length ∧
        (layoutEditorText unicode text cursor columns).cursorRow + 1 =
          (layoutEditorText unicode text cursor columns).rows.length) := by
  obtain ⟨hrows, hplaced⟩ := layoutEditorText_lines unicode text cursor columns
  obtain ⟨line, front, rest, hline, hsplit, hcell, hstands, hlast⟩ := hplaced hcursor
  have hwrapped := wrapped_wrap unicode columns (unicode.segment text)
  have hflat := unicode.flatten_segment text
  refine ⟨line.row, front, rest, ?_, ?_, hcell, ?_⟩
  · rw [hrows, List.getElem?_map, hline]
    rfl
  · rw [(scalars_row (List.mem_of_getElem? hline)).2, hsplit]
  · cases rest with
    | cons grapheme behind => exact hstands
    | nil =>
      have hend : cursor = line.finish := hstands
      refine ⟨hend, ?_⟩
      generalize hindex : (layoutEditorText unicode text cursor columns).cursorRow = index at *
      cases hnext : (textLines unicode text columns)[index + 1]? with
      | some next =>
        have hstart := hlast rfl next hnext
        rcases hwrapped.next index line next hline hnext with ⟨hsame, -⟩ | ⟨-, hbreak⟩
        · omega
        · left
          rw [hflat, ← hend] at hbreak
          exact hbreak
      | none =>
        right
        have hbound := (List.getElem?_eq_some_iff.mp hline).1
        have hlength : index + 1 = (textLines unicode text columns).length :=
          Nat.le_antisymm hbound (List.getElem?_eq_none_iff.mp hnext)
        rw [hrows, List.length_map]
        refine ⟨?_, hlength⟩
        -- The last line ends where the text does.
        have hindex : index = (wrap unicode columns (unicode.segment text)).1.length := by
          rw [textLines, linesOf, List.length_append] at hlength
          exact Nat.succ.inj hlength
        rw [textLines, linesOf, hindex, List.getElem?_concat_length] at hline
        rw [hend, ← Option.some.inj hline, hwrapped.finish, hflat]

theorem laidOut_iff {text : List Char} {cursor : Nat} (columns : Nat)
    (hcursor : cursor ≤ text.length) :
    LaidOut unicode text cursor columns (layoutEditorText unicode text cursor columns) ↔
      ¬['\r', '\n'] <:+: text := by
  have hwrapped := wrapped_wrap unicode columns (unicode.segment text)
  have hpartition : (textLines unicode text columns).flatMap Line.graphemes =
      (unicode.segment text).filter (· ≠ ['\n']) := hwrapped.partition
  have hdisplayed : ∀ line ∈ textLines unicode text columns,
      line.row.text = escapeTerminalText (line.row.scalars text) := by
    intro line hline
    rw [(scalars_row hline).1, escapeTerminalText, ← List.flatMap_id,
      List.flatMap_assoc]
    rfl
  constructor
  · intro h hbreak
    have hmem : ['\r', '\n'] ∈ (textLines unicode text columns).flatMap Line.graphemes := by
      rw [hpartition]
      exact List.mem_filter.mpr ⟨unicode.crLf text hbreak, by decide⟩
    obtain ⟨line, hline, hpair⟩ := List.mem_flatMap.mp hmem
    refine h.unbroken line.row (mem_rows.mpr ⟨line, hline, rfl⟩) ?_
    rw [hdisplayed line hline, lineFeed_mem_escape, (scalars_row hline).1]
    exact List.mem_flatten_of_mem hpair (by decide)
  · intro hbreak
    have hrows := (layoutEditorText_lines unicode text cursor columns).1
    have halone : ∀ grapheme ∈ unicode.segment text, '\n' ∈ grapheme → grapheme = ['\n'] :=
      fun grapheme => lineFeed_alone hbreak
    have hunits : (textLines unicode text columns).flatMap (fun line => line.graphemes.flatten) =
        text.filter (· ≠ '\n') := by
      have hflat := congrArg List.flatten hpartition
      rw [flatten_filter_graphemes halone, unicode.flatten_segment, ← List.flatMap_id,
        List.flatMap_assoc] at hflat
      rw [← hflat]
      exact List.flatMap_congr fun line _ => List.flatMap_id.symm
    constructor
    · rw [hrows]
      exact List.pairwise_map.mpr hwrapped.ordered
    · rw [hrows, List.flatMap_map, ← hunits]
      exact List.flatMap_congr fun line hline => (scalars_row hline).1
    · intro row hrow
      obtain ⟨line, hline, rfl⟩ := mem_rows.mp hrow
      exact hdisplayed line hline
    · intro row hrow hfeed
      obtain ⟨line, hline, rfl⟩ := mem_rows.mp hrow
      rw [hdisplayed line hline, lineFeed_mem_escape, (scalars_row hline).1] at hfeed
      have hinside : '\n' ∈ text.filter (· ≠ '\n') := by
        rw [← hunits]
        exact List.mem_flatMap.mpr ⟨line, hline, hfeed⟩
      exact absurd (List.mem_filter.mp hinside).2 (by decide)
    · intro row hrow
      obtain ⟨line, hline, rfl⟩ := mem_rows.mp hrow
      rw [(scalars_row hline).2]
      exact hwrapped.narrow line hline
    · exact layout_shown hcursor

/-- The layout shows the text and the cursor, and vertical moves land where they aim, exactly when the
text has no CR LF. -/
theorem layout_shows_text (unicode : Segmentation) (editor : TuiEditor) (columns : Nat)
    (hcursor : editor.cursor ≤ editor.value.length) :
    (LaidOut unicode editor.value editor.cursor columns (editor.layout unicode columns) ∧
      ∀ directions moved, editor.moveRepeatedly unicode columns directions = some moved →
        Lands unicode columns directions editor moved) ↔
      ¬['\r', '\n'] <:+: editor.value := by
  constructor
  · exact fun h => (laidOut_iff columns hcursor).mp h.1
  · intro hbreak
    refine ⟨(laidOut_iff columns hcursor).mpr hbreak, ?_⟩
    exact fun directions moved h => moveRepeatedly_lands hcursor h

/-- Two rows of two, from the end of the second one up. -/
theorem layout_shows_text_two_rows :
    Lands plainSegmentation 2 [.up] ⟨['a', 'b', 'c', '\n', 'd'], 5, none⟩
      ⟨['a', 'b', 'c', '\n', 'd'], 3, some 1⟩ :=
  ((layout_shows_text plainSegmentation ⟨['a', 'b', 'c', '\n', 'd'], 5, none⟩ 2 (by decide)).mpr
    (by decide)).2 [.up] _ (by decide +kernel)

/-- A pasted CR LF is shown inside a row. -/
theorem carriage_return_breaks_row : ∃ editor, TuiEditor.empty.paste ['a', '\r', '\n', 'b'] = some editor ∧
    ¬LaidOut plainSegmentation editor.value editor.cursor 80 (editor.layout plainSegmentation 80) := by
  refine ⟨⟨['a', '\r', '\n', 'b'], 4, none⟩, by decide +kernel, fun h => ?_⟩
  have hrow := h.unbroken ⟨['a'] ++ escapeTerminalText ['\r', '\n'] ++ ['b'], 0, 4⟩
    (by decide +kernel)
  exact hrow (by decide +kernel)

end Henji
