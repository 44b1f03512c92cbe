import Henji.Tui.TerminalText

/-!
# The layout of the editor

The text of the editor is laid out in rows of at most `columns` cells, one grapheme after the other. A
line feed ends its row; a grapheme that does not fit starts the next one. The cursor is shown where
its grapheme starts.

`wrap` is the layout without the cursor, as lines of graphemes. The rows of `layoutEditorText` are its
lines, and `Placed` says where a cursor stands in them, in one place only.
-/

namespace Henji

variable (unicode : Segmentation)

/-! ## Layout -/

structure EditorRow where
  text : List Char
  scalarStart : Nat
  scalarEnd : Nat
deriving DecidableEq, Repr

structure EditorLayout where
  rows : List EditorRow
  cursorRow : Nat
  cursorCell : Nat
deriving DecidableEq, Repr

/-- The variables of the loop of `layoutEditorText`. -/
structure LayoutState where
  rows : List EditorRow
  text : List Char
  used : Nat
  scalarStart : Nat
  scalarEnd : Nat
  cursorRow : Nat
  cursorCell : Nat
  cursorSet : Bool
deriving DecidableEq, Repr

namespace LayoutState

def start : LayoutState where
  rows := []
  text := []
  used := 0
  scalarStart := 0
  scalarEnd := 0
  cursorRow := 0
  cursorCell := 0
  cursorSet := false

def push (s : LayoutState) : LayoutState :=
  { s with
    rows := s.rows ++ [⟨s.text, s.scalarStart, s.scalarEnd⟩]
    text := []
    used := 0
    scalarStart := s.scalarEnd }

def setCursor (cursor : Nat) (segment : TerminalTextSegment) (s : LayoutState) : LayoutState :=
  if s.cursorSet = false ∧ segment.scalarStart ≤ cursor ∧ cursor < segment.scalarEnd then
    { s with
      cursorRow := s.rows.length
      cursorCell := s.used
      cursorSet := true }
  else s

def layoutSegment (columns cursor : Nat) (s : LayoutState) (segment : TerminalTextSegment) :
    LayoutState :=
  if segment.text = ['\n'] then
    let s := (s.setCursor cursor segment).push
    { s with
      scalarStart := segment.scalarEnd
      scalarEnd := segment.scalarEnd }
  else
    let display := escapeTerminalText segment.text
    let cells := cellWidth unicode display
    let s := if s.text ≠ [] ∧ columns < s.used + cells then s.push else s
    let s := s.setCursor cursor segment
    { s with
      text := s.text ++ display
      used := s.used + cells
      scalarEnd := segment.scalarEnd }

end LayoutState

def layoutEditorText (text : List Char) (cursor columns : Nat) : EditorLayout :=
  let s := (segmentTerminalText unicode text).foldl
    (LayoutState.layoutSegment unicode columns cursor) LayoutState.start
  { rows := s.push.rows
    cursorRow := if s.cursorSet then s.cursorRow else s.rows.length
    cursorCell := if s.cursorSet then s.cursorCell else s.used }

inductive Direction where
  | up
  | down
deriving DecidableEq, Repr

/-- `cursorRow + direction`; `none` where it is negative. -/
def Direction.target (row : Nat) : Direction → Option Nat
  | up => if row = 0 then none else some (row - 1)
  | down => some (row + 1)

/-- The scalars of the text that a row shows. -/
def EditorRow.scalars (text : List Char) (row : EditorRow) : List Char :=
  (text.drop row.scalarStart).take (row.scalarEnd - row.scalarStart)

/-- The loop of `moveEditorCursorVertically`: the cursor behind the segments that fit, and the start of
the last of them. -/
def fitSegments (column rowStart : Nat) : List TerminalTextSegment → Nat → Nat → Nat → Nat × Nat
  | [], _, cursor, lastStart => (cursor, lastStart)
  | segment :: segments, used, cursor, lastStart =>
    let cells := displayCells unicode segment.text
    if column < used + cells then (cursor, lastStart)
    else fitSegments column rowStart segments (used + cells) (rowStart + segment.scalarEnd)
      (rowStart + segment.scalarStart)

structure MovedCursor where
  cursor : Nat
  preferredColumn : Nat
deriving DecidableEq, Repr

def moveEditorCursorVertically (text : List Char) (cursor columns : Nat) (direction : Direction)
    (preferredColumn : Option Nat) : Option MovedCursor := do
  let layout := layoutEditorText unicode text cursor columns
  let index ← direction.target layout.cursorRow
  let row ← layout.rows[index]?
  let column := preferredColumn.getD layout.cursorCell
  let fitted := fitSegments unicode column row.scalarStart
    (segmentTerminalText unicode (row.scalars text)) 0 row.scalarStart row.scalarStart
  -- A wrap boundary belongs to the next displayed row.
  let continued := fitted.1 = row.scalarEnd ∧
    (layout.rows[index + 1]?).any (fun next => next.scalarStart == fitted.1)
  return {
    cursor := if continued then fitted.2 else fitted.1
    preferredColumn := column }

/-! ## Lines of graphemes -/

def cellsOf (graphemes : List (List Char)) : Nat := (graphemes.map (displayCells unicode)).sum

/-- The graphemes of a row, from a scalar on. -/
structure Line where
  start : Nat
  graphemes : List (List Char)
deriving DecidableEq, Repr

namespace Line

def finish (line : Line) : Nat := line.start + line.graphemes.flatten.length

def row (line : Line) : EditorRow where
  text := line.graphemes.flatMap escapeTerminalText
  scalarStart := line.start
  scalarEnd := line.finish

end Line

/-- The layout of one more grapheme: the lines that are complete, and the current one. -/
def wrapStep (columns : Nat) (lines : List Line × Line) (grapheme : List Char) : List Line × Line :=
  if grapheme = ['\n'] then (lines.1 ++ [lines.2], ⟨lines.2.finish + 1, []⟩)
  else if lines.2.graphemes ≠ [] ∧
      columns < cellsOf unicode lines.2.graphemes + displayCells unicode grapheme then
    (lines.1 ++ [lines.2], ⟨lines.2.finish, [grapheme]⟩)
  else (lines.1, { lines.2 with graphemes := lines.2.graphemes ++ [grapheme] })

def wrap (columns : Nat) (graphemes : List (List Char)) : List Line × Line :=
  graphemes.foldl (wrapStep unicode columns) ([], ⟨0, []⟩)

theorem wrap_concat (columns : Nat) (graphemes : List (List Char)) (grapheme : List Char) :
    wrap unicode columns (graphemes ++ [grapheme]) =
      wrapStep unicode columns (wrap unicode columns graphemes) grapheme := by
  rw [wrap, List.foldl_append]
  rfl

/-- The lines of a text. -/
def linesOf (lines : List Line × Line) : List Line := lines.1 ++ [lines.2]

/-- What one more grapheme does: a line feed ends the line, a full line is wrapped, or the line grows. -/
theorem wrapStep_cases (columns : Nat) (lines : List Line × Line) (grapheme : List Char) :
    (grapheme = ['\n'] ∧ wrapStep unicode columns lines grapheme =
      (lines.1 ++ [lines.2], ⟨lines.2.finish + 1, []⟩)) ∨
    (grapheme ≠ ['\n'] ∧ lines.2.graphemes ≠ [] ∧
      wrapStep unicode columns lines grapheme =
        (lines.1 ++ [lines.2], ⟨lines.2.finish, [grapheme]⟩)) ∨
    (grapheme ≠ ['\n'] ∧ (lines.2.graphemes = [] ∨
        cellsOf unicode lines.2.graphemes + displayCells unicode grapheme ≤ columns) ∧
      wrapStep unicode columns lines grapheme =
        (lines.1, { lines.2 with graphemes := lines.2.graphemes ++ [grapheme] })) := by
  rw [wrapStep]
  by_cases hfeed : grapheme = ['\n']
  · exact .inl ⟨hfeed, if_pos hfeed⟩
  · rw [if_neg hfeed]
    by_cases hfull : lines.2.graphemes ≠ [] ∧
        columns < cellsOf unicode lines.2.graphemes + displayCells unicode grapheme
    · exact .inr (.inl ⟨hfeed, hfull.1, if_pos hfull⟩)
    · refine .inr (.inr ⟨hfeed, ?_, if_neg hfull⟩)
      rw [not_and_or, not_not, Nat.not_lt] at hfull
      exact hfull

end Henji
