import Henji.Tui.ScrollbackWriter
import Mathlib.Data.List.Induction

/-!
# What the writer leaves on the terminal

Behind every write the terminal shows what was above, every committed row, the live band and nothing
else, with the cursor in the band. The lines of the band are on the screen, so that the next write can
go to its head.
-/

namespace Henji

variable {unicode : Segmentation}

/-! ## Rows -/

/-- How the terminal cuts a text into graphemes. -/
def rowGraphemes (unicode : Segmentation) (text : List Char) : List (Cell × Nat) :=
  (segmentTerminalText unicode text).map fun segment => (segment.text, segment.cellWidth)

/-- A row shows its text without styles. -/
def shownRow (unicode : Segmentation) (columns : Nat) (row : List Char) : ScreenLine :=
  lineShowing columns (rowGraphemes unicode (stripSgr row))

/-- A row is text with styles, at most as wide as the terminal. -/
structure RowFits (unicode : Segmentation) (columns : Nat) (row : List Char) : Prop where
  text : ∀ character ∈ stripSgr row, isControl character = false
  width : cellWidth unicode (stripSgr row) ≤ columns

instance (columns : Nat) (row : List Char) : Decidable (RowFits unicode columns row) :=
  decidable_of_iff
    ((stripSgr row).all (fun character => !isControl character) = true ∧
      cellWidth unicode (stripSgr row) ≤ columns)
    ⟨fun ⟨text, width⟩ => ⟨by simpa using text, width⟩, fun h => ⟨by simpa using h.text, h.width⟩⟩

theorem totalWidth_rowGraphemes (text : List Char) :
    totalWidth (rowGraphemes unicode text) = cellWidth unicode text := by
  have hmap : totalWidth (rowGraphemes unicode text) =
      ((segmentTerminalText unicode text).map TerminalTextSegment.cellWidth).sum := by
    rw [totalWidth, rowGraphemes, List.map_map]
    rfl
  rw [hmap, cellWidth]
  split
  · next hascii =>
    rw [segmentTerminalText, if_pos hascii]
    suffices hone : ∀ start (text : List Char),
        ((segmentsFrom (fun _ => 1) start (text.map fun c => [c])).map
          TerminalTextSegment.cellWidth).sum = text.length from hone 0 text
    intro start text
    induction text generalizing start with
    | nil => rfl
    | cons character text ih =>
      rw [List.map_cons, segmentsFrom, List.map_cons, List.sum_cons, ih]
      exact Nat.add_comm 1 text.length
  · rfl

/-- What the dropped characters of a match are. -/
theorem sgrLength_spec {text : List Char} {length : Nat} (h : sgrLength text = some length) :
    ∃ parameters rest, text = '[' :: (parameters ++ ['m']) ++ rest ∧
      length = parameters.length + 2 ∧ ∀ character ∈ parameters, character.toNat < 0x40 := by
  unfold sgrLength at h
  split at h
  · next rest =>
    split at h
    · next hfinal =>
      obtain ⟨behind, hbehind⟩ := List.head?_eq_some_iff.mp hfinal
      refine ⟨rest.takeWhile isSgrParameter, behind, ?_, (Option.some.inj h).symm, ?_⟩
      · have hsplit := List.takeWhile_append_dropWhile (p := isSgrParameter) (l := rest)
        rw [hbehind] at hsplit
        simp [hsplit]
      · intro character hmem
        have hparameter := List.mem_takeWhile_imp hmem
        rw [isSgrParameter, Bool.or_eq_true, beq_iff_eq] at hparameter
        rcases hparameter with hdigit | rfl
        · exact Vt.isDigit_lt hdigit
        · decide
    · exact absurd h (by simp)
  · exact absurd h (by simp)

theorem stripSgrFrom_append (front behind : List Char) :
    stripSgrFrom front.length (front ++ behind) = stripSgrFrom 0 behind := by
  induction front with
  | nil => rfl
  | cons character front ih => exact ih

/-- The terminal takes the text of a row and leaves out its styles. -/
theorem feed_row {graphemes : List Char → List (Cell × Nat)} {vt : Vt} (hground : vt.mode = .ground)
    {row : List Char} (htext : ∀ character ∈ stripSgr row, isControl character = false) :
    vt.feed graphemes row = { vt with text := vt.text ++ stripSgr row } := by
  induction hlength : row.length using Nat.strongRecOn generalizing vt row with
  | ind length ih =>
    cases row with
    | nil =>
      rw [show stripSgr [] = [] from rfl, List.append_nil]
      rfl
    | cons character row =>
      rw [stripSgr, stripSgrFrom] at htext ⊢
      by_cases hescape : character = ESC
      · rw [if_pos hescape] at htext ⊢
        cases hsgr : sgrLength row with
        | none =>
          -- An escape character that starts no style is a control character of the row.
          rw [hsgr] at htext
          exact absurd (htext character List.mem_cons_self) (by rw [hescape]; decide)
        | some count =>
          rw [hsgr] at htext
          obtain ⟨parameters, rest, rfl, rfl, hparameters⟩ := sgrLength_spec hsgr
          have hskip : stripSgrFrom (parameters.length + 2) ('[' :: (parameters ++ ['m']) ++ rest) =
              stripSgr rest := by
            rw [show parameters.length + 2 = ('[' :: (parameters ++ ['m'])).length by simp,
              stripSgrFrom_append]
            rfl
          dsimp only at htext ⊢
          rw [hskip] at htext ⊢
          rw [hescape, ← List.cons_append, Vt.feed_append, Vt.feed_style hground hparameters]
          exact ih rest.length (by rw [← hlength]; simp; omega) hground htext rfl
      · rw [if_neg hescape] at htext ⊢
        have hplain := htext character List.mem_cons_self
        have hone : vt.feed graphemes [character] = { vt with text := vt.text ++ [character] } :=
          Vt.feed_text hground (by simpa using hplain)
        have hground' : ({ vt with text := vt.text ++ [character] } : Vt).mode = .ground := hground
        have hrest := ih row.length (by rw [← hlength]; simp) hground'
          (fun other hmem => htext other (List.mem_cons_of_mem _ hmem)) rfl
        show Vt.feed graphemes (vt.feed graphemes [character]) row = _
        rw [hone, hrest]
        exact congrArg (fun text => { vt with text }) (List.append_assoc _ _ _)

/-! ## Lines -/

section Lines

variable {columns height : Nat} {vt : Vt} {above : List ScreenLine} {below : Nat}

/-- The terminal of a size, with no text that has not ended. -/
structure Vt.Quiet (vt : Vt) (columns height : Nat) : Prop where
  mode : vt.mode = .ground
  text : vt.text = []
  size : vt.screen.columns = columns
  rows : vt.screen.height = height

/-- It shows lines and blank ones behind them, with the cursor somewhere in a row. -/
structure Vt.Shows (vt : Vt) (columns height : Nat) (lines : List ScreenLine) (below row cell : Nat) :
    Prop extends vt.Quiet columns height where
  lines : vt.screen.lines = lines ++ List.replicate below (List.replicate columns blankCell)
  row : vt.screen.row = row
  cell : vt.screen.cell = cell
  wrapPending : vt.screen.wrapPending = false

theorem Vt.Shows.ready (h : vt.Shows columns height above (below + 1) above.length 0) :
    vt.screen.ReadyAt above below where
  lines := by
    rw [h.lines, Screen.blankLine, h.size]
  row := h.row
  cell := h.cell
  wrapPending := h.wrapPending

theorem rowGraphemes_nil : rowGraphemes unicode [] = [] := rfl

/-- What a terminal without a pending text does at a control function. -/
theorem Vt.Quiet.apply (h : vt.Quiet columns height) (function : Screen → Screen) :
    vt.apply (rowGraphemes unicode) function = { vt with screen := function vt.screen } := by
  rw [Vt.apply, h.text, rowGraphemes_nil, ← h.mode]
  rfl

/-- A row on a blank line. -/
theorem feed_row_printed (h : vt.Shows columns height above (below + 1) above.length 0)
    {row : List Char} (hrow : RowFits unicode columns row) (function : Screen → Screen) :
    ∃ screen : Screen, (vt.feed (rowGraphemes unicode) row).apply (rowGraphemes unicode) function =
        { vt with screen := function screen } ∧ screen.height = height ∧
      screen.Printed columns above (rowGraphemes unicode (stripSgr row))
        (List.replicate below (List.replicate columns blankCell)) := by
  refine ⟨vt.screen.print (rowGraphemes unicode (stripSgr row)), ?_, ?_, ?_⟩
  · rw [feed_row h.mode hrow.text, Vt.apply, h.text, List.nil_append, ← h.mode, ← h.text]
  · rw [(Screen.print_size _).2, h.rows]
  · have hwidth : totalWidth (rowGraphemes unicode (stripSgr row)) ≤ vt.screen.columns := by
      rw [totalWidth_rowGraphemes, h.size]
      exact hrow.width
    have hprinted := Screen.print_spec h.ready hwidth
    rw [Screen.blankLine, h.size] at hprinted
    exact hprinted

/-- A row that ends: the cursor is at the head of the next line. -/
theorem feed_lineEnd (h : vt.Shows columns height above (below + 1) above.length 0)
    {row : List Char} (hrow : RowFits unicode columns row) :
    (vt.feed (rowGraphemes unicode) (row ++ LINE_END)).Shows columns height
      (above ++ [shownRow unicode columns row]) (below - 1 + 1) (above.length + 1) 0 := by
  obtain ⟨screen, hfed, hheight, hprinted⟩ := feed_row_printed h hrow Screen.carriageReturn
  have hquiet : ({ vt with screen := screen.carriageReturn } : Vt).Quiet columns height :=
    ⟨h.mode, h.text, hprinted.size, hheight⟩
  have hground : (vt.feed (rowGraphemes unicode) row).mode = .ground := by
    rw [feed_row h.mode hrow.text]
    exact h.mode
  have hend : vt.feed (rowGraphemes unicode) (row ++ LINE_END) =
      { vt with screen := screen.carriageReturn.lineFeed } := by
    show vt.feed _ (row ++ (['\r'] ++ ['\n'])) = _
    rw [Vt.feed_append, Vt.feed_append, Vt.feed_carriageReturn hground, hfed,
      Vt.feed_lineFeed hquiet.mode, hquiet.apply]
  have hblank : screen.blankLine = List.replicate columns blankCell := by
    rw [Screen.blankLine, hprinted.size]
  have hready := Screen.lineEnd_spec (hblank ▸ hprinted)
  rw [hend]
  refine ⟨⟨h.mode, h.text, hprinted.size, hheight⟩, ?_, ?_, hready.cell, hready.wrapPending⟩
  · have hsame : screen.carriageReturn.lineFeed.blankLine = screen.blankLine := rfl
    rw [hready.lines, hsame, hblank]
    rfl
  · rw [hready.row, List.length_append]
    rfl

/-- Rows that end. -/
theorem feed_rows (h : vt.Shows columns height above (below + 1) above.length 0)
    {rows : List (List Char)} (hrows : ∀ row ∈ rows, RowFits unicode columns row) :
    (vt.feed (rowGraphemes unicode) (rows.flatMap (· ++ LINE_END))).Shows columns height
      (above ++ rows.map (shownRow unicode columns)) (below - rows.length + 1)
      (above.length + rows.length) 0 := by
  induction rows generalizing vt above below with
  | nil =>
    rw [List.map_nil, List.append_nil]
    exact h
  | cons row rows ih =>
    have hone := feed_lineEnd h (hrows row List.mem_cons_self)
    rw [show above.length + 1 = (above ++ [shownRow unicode columns row]).length by simp] at hone
    have hrest := ih hone fun other hmem => hrows other (List.mem_cons_of_mem _ hmem)
    rw [List.flatMap_cons, Vt.feed_append, List.map_cons, List.append_cons, List.length_cons]
    rw [Nat.sub_sub, Nat.add_comm 1] at hrest
    rw [show above.length + (rows.length + 1) =
      (above ++ [shownRow unicode columns row]).length + rows.length by simp; omega]
    exact hrest

/-- The live rows: the last one has no line end, and the cursor goes to its head. -/
theorem feed_liveRows (h : vt.Shows columns height above (below + 1) above.length 0)
    {rows : List (List Char)} (hrows : ∀ row ∈ rows, RowFits unicode columns row) (hne : rows ≠ []) :
    (vt.feed (rowGraphemes unicode) (writeLiveRows rows ++ ['\r'])).Shows columns height
      (above ++ rows.map (shownRow unicode columns)) (below - (rows.length - 1))
      (above.length + (rows.length - 1)) 0 := by
  induction rows generalizing vt above below with
  | nil => exact absurd rfl hne
  | cons row rows ih =>
    have hfits := hrows row List.mem_cons_self
    cases rows with
    | nil =>
      obtain ⟨screen, hfed, hheight, hprinted⟩ := feed_row_printed h hfits Screen.carriageReturn
      have hground : (vt.feed (rowGraphemes unicode) row).mode = .ground := by
        rw [feed_row h.mode hfits.text]
        exact h.mode
      rw [writeLiveRows, Vt.feed_append, Vt.feed_carriageReturn hground, hfed]
      refine ⟨⟨h.mode, h.text, hprinted.size, hheight⟩, ?_, hprinted.row, rfl, rfl⟩
      show screen.lines = _
      rw [hprinted.lines, List.append_assoc]
      rfl
    | cons next rows =>
      have hone := feed_lineEnd h hfits
      rw [show above.length + 1 = (above ++ [shownRow unicode columns row]).length by simp] at hone
      have hrest := ih hone (fun other hmem => hrows other (List.mem_cons_of_mem _ hmem)) (by simp)
      rw [writeLiveRows, List.append_assoc, Vt.feed_append, List.map_cons, List.append_cons above]
      have hbelow : below - 1 - ((next :: rows).length - 1) =
          below - ((row :: next :: rows).length - 1) := by
        simp only [List.length_cons]
        omega
      have hlast : (above ++ [shownRow unicode columns row]).length + ((next :: rows).length - 1) =
          above.length + ((row :: next :: rows).length - 1) := by
        simp only [List.length_append, List.length_cons, List.length_nil]
        omega
      rw [hbelow, hlast] at hrest
      exact hrest

/-! ## Motions -/

variable {lines : List ScreenLine} {row cell : Nat} (unicode)

theorem feed_up (h : vt.Shows columns height lines below row cell) (rows : Nat)
    (htop : lines.length + below ≤ row - rows + height) :
    (vt.feed (rowGraphemes unicode) (moveUp rows)).Shows columns height lines below (row - rows)
      cell := by
  rw [moveUp, motion]
  by_cases hzero : 0 < rows
  · rw [if_pos hzero, Vt.feed_moveUp h.mode hzero, h.toQuiet.apply]
    refine ⟨⟨h.mode, h.text, h.size, h.rows⟩, h.lines, ?_, h.cell, rfl⟩
    show max (vt.screen.lines.length - vt.screen.height) (vt.screen.row - rows) = _
    rw [h.lines, h.rows, h.row, List.length_append, List.length_replicate]
    omega
  · rw [if_neg hzero, Nat.eq_zero_of_not_pos hzero]
    exact h

theorem feed_right (h : vt.Shows columns height lines below row 0) {cells : Nat}
    (hcells : cells < columns) :
    (vt.feed (rowGraphemes unicode) (moveRight cells)).Shows columns height lines below row cells := by
  rw [moveRight, motion]
  by_cases hzero : 0 < cells
  · rw [if_pos hzero, Vt.feed_moveRight h.mode hzero, h.toQuiet.apply]
    refine ⟨⟨h.mode, h.text, h.size, h.rows⟩, h.lines, h.row, ?_, rfl⟩
    show min (vt.screen.columns - 1) (vt.screen.cell + cells) = _
    rw [h.size, h.cell]
    omega
  · rw [if_neg hzero, Nat.eq_zero_of_not_pos hzero]
    exact h

theorem feed_return (h : vt.Shows columns height lines below row cell) :
    (vt.feed (rowGraphemes unicode) ['\r']).Shows columns height lines below row 0 := by
  rw [Vt.feed_carriageReturn h.mode, h.toQuiet.apply]
  exact ⟨⟨h.mode, h.text, h.size, h.rows⟩, h.lines, h.row, rfl, rfl⟩

/-! ## The band is cleared -/

variable {unicode}

/-- The loop over the rows of the band. -/
theorem feed_eraseRows (hquiet : vt.Quiet columns height) (visibleRows : Nat) {count start : Nat}
    (hcount : visibleRows = start + count) :
    vt.feed (rowGraphemes unicode) ((List.range' start count).flatMap fun row =>
      ERASE_LINE ++ if row + 1 < visibleRows then moveDown 1 else []) =
      { vt with screen := Screen.eraseBand count vt.screen } := by
  induction count generalizing vt start with
  | zero => rfl
  | succ count ih =>
    have herase : vt.feed (rowGraphemes unicode) ERASE_LINE =
        { vt with screen := vt.screen.eraseLine } := by
      rw [ERASE_LINE, Vt.feed_eraseLine hquiet.mode, hquiet.apply]
    rw [List.range'_succ, List.flatMap_cons, Vt.feed_append, Vt.feed_append, herase]
    cases count with
    | zero =>
      rw [if_neg (by omega)]
      rfl
    | succ count =>
      have herased : ({ vt with screen := vt.screen.eraseLine } : Vt).Quiet columns height :=
        ⟨hquiet.mode, hquiet.text, hquiet.size, hquiet.rows⟩
      rw [if_pos (by omega), moveDown, motion, if_pos Nat.one_pos,
        Vt.feed_moveDown herased.mode Nat.one_pos, herased.apply]
      have hmoved : ({ vt with screen := vt.screen.eraseLine.moveDown 1 } : Vt).Quiet columns height :=
        ⟨hquiet.mode, hquiet.text, hquiet.size, hquiet.rows⟩
      exact ih hmoved (by omega)

/-- The band is blank behind, with the cursor at its head. -/
theorem feed_clearLiveBand (unicode : Segmentation) {band : List ScreenLine} {offset : Nat}
    (h : vt.Shows columns height (above ++ band) below (above.length + offset) cell)
    (htop : above.length + band.length + below ≤ above.length + height) :
    (vt.feed (rowGraphemes unicode) (clearLiveBand offset band.length)).Shows columns height above
      (band.length + below) above.length 0 := by
  have hup := feed_return unicode (feed_up unicode h offset (by rw [List.length_append]; omega))
  rw [Nat.add_sub_cancel] at hup
  rw [clearLiveBand]
  simp only [Vt.feed_append]
  generalize (vt.feed (rowGraphemes unicode) (moveUp offset)).feed (rowGraphemes unicode) ['\r'] =
    start at hup
  have hlength : start.screen.lines.length = above.length + band.length + below := by
    rw [hup.lines, List.length_append, List.length_append, List.length_replicate]
  rw [SAVE_CURSOR, Vt.feed_saveCursor hup.mode, hup.toQuiet.apply, List.range_eq_range']
  have hsaved : ({ start with screen := start.screen.saveCursor } : Vt).Quiet columns height :=
    ⟨hup.mode, hup.text, hup.size, hup.rows⟩
  rw [feed_eraseRows hsaved band.length (Nat.zero_add _).symm]
  obtain ⟨hlines, hcolumns, hheight, hkept⟩ := Screen.eraseBand_spec
    (s := start.screen.saveCursor) hup.lines rfl hup.row
  dsimp only
  generalize Screen.eraseBand band.length start.screen.saveCursor = erased at *
  have herased : ({ start with screen := erased } : Vt).Quiet columns height :=
    ⟨hup.mode, hup.text, hcolumns.trans hup.size, hheight.trans hup.rows⟩
  have hblank : start.screen.saveCursor.blankLine = List.replicate columns blankCell :=
    congrArg (fun columns => List.replicate columns blankCell) hup.size
  have hband : erased.lines =
      above ++ List.replicate (band.length + below) (List.replicate columns blankCell) := by
    rw [hlines, hblank, List.append_assoc, List.replicate_append_replicate]
  have htop : erased.top = start.screen.top := by
    rw [Screen.top, Screen.top, hheight, hband, hlength, List.length_append, List.length_replicate,
      Nat.add_assoc]
    rfl
  have hrow : erased.top + (start.screen.row - start.screen.top) = above.length := by
    have hbound : start.screen.top ≤ above.length := by
      rw [Screen.top, hlength, hup.rows]
      omega
    rw [htop, hup.row]
    omega
  have hrestored : erased.restoreCursor =
      { erased with row := above.length, cell := 0, wrapPending := false } := by
    rw [Screen.restoreCursor_of_saved hkept]
    show { erased with
      row := erased.top + (start.screen.row - start.screen.top)
      cell := start.screen.cell
      wrapPending := start.screen.wrapPending } = _
    rw [hrow, hup.cell, hup.wrapPending]
  rw [RESTORE_CURSOR, Vt.feed_restoreCursor herased.mode, herased.apply, hrestored]
  have hback : Vt.Shows { start with
      screen := { erased with row := above.length, cell := 0, wrapPending := false } } columns height
      above (band.length + below) above.length 0 :=
    ⟨⟨hup.mode, hup.text, herased.size, herased.rows⟩, hband, rfl, rfl, rfl⟩
  exact feed_return unicode hback

/-! ## A band is written -/

/-- Rows that end, the live rows behind them, and the cursor to its place. -/
theorem feed_band (h : vt.Shows columns height above (below + 1) above.length 0)
    (hroom : below + 1 ≤ height) (committed rows : List (List Char)) (cursor : FrameCursor)
    (hcommitted : ∀ row ∈ committed, RowFits unicode columns row)
    (hrows : ∀ row ∈ rows, RowFits unicode columns row) (hheight : rows.length ≤ height)
    (hrow : cursor.row < max 1 rows.length) (hcell : cursor.cell < columns) :
    (vt.feed (rowGraphemes unicode) (committed.flatMap (· ++ LINE_END) ++ writeLiveRows rows ++
      ['\r'] ++ moveUp (rows.length - 1 - cursor.row) ++ moveRight cursor.cell)).Shows columns height
      (above ++ committed.map (shownRow unicode columns) ++ rows.map (shownRow unicode columns))
      (below - committed.length + 1 - rows.length) (above.length + committed.length + cursor.row)
      cursor.cell := by
  have hends := feed_rows h hcommitted
  rw [show above.length + committed.length =
    (above ++ committed.map (shownRow unicode columns)).length by simp] at hends ⊢
  generalize above ++ committed.map (shownRow unicode columns) = front at hends ⊢
  rw [Vt.feed_append, Vt.feed_append, List.append_assoc, Vt.feed_append]
  refine feed_right unicode ?_ hcell
  cases hempty : rows with
  | nil =>
    -- The cursor is alone in the band.
    rw [hempty] at hrow
    have hzero : cursor.row = 0 := Nat.lt_one_iff.mp hrow
    rw [hzero, List.map_nil, List.append_nil]
    exact feed_return unicode hends
  | cons row rest =>
    rw [← hempty]
    have hlive := feed_liveRows hends hrows (by rw [hempty]; exact List.cons_ne_nil row rest)
    have hlength : 0 < rows.length := by
      rw [hempty]
      exact Nat.succ_pos rest.length
    have hmoved := feed_up unicode hlive (rows.length - 1 - cursor.row) (by
      rw [List.length_append, List.length_map]
      omega)
    rw [show below - committed.length + 1 - rows.length =
      below - committed.length - (rows.length - 1) by omega]
    rw [show front.length + (rows.length - 1) - (rows.length - 1 - cursor.row) =
      front.length + cursor.row by omega] at hmoved
    exact hmoved

end Lines

/-! ## The writer and its terminal -/

def ScrollbackFrame.band (frame : ScrollbackFrame) : PreviousFrame where
  liveRows := frame.liveRows
  cursor := frame.cursor
  size := frame.size

/-- One call of `write`, with the terminal that gets its bytes. -/
def writeTo (unicode : Segmentation) (state : Option PreviousFrame × Vt) (frame : ScrollbackFrame) :
    Option PreviousFrame × Vt :=
  match writeFrame unicode state.1 frame with
  | (none, remembered) => (some remembered, state.2)
  | (some bytes, remembered) => (some remembered, state.2.execute (rowGraphemes unicode) bytes)

/-- The calls of `write` on a terminal, from the first one on. -/
def writeAll (unicode : Segmentation) (vt : Vt) (frames : List ScrollbackFrame) :
    Option PreviousFrame × Vt :=
  frames.foldl (writeTo unicode) (none, vt)

section Band

variable {columns height : Nat}

/-- A live band that fits on the terminal, with the cursor in it. -/
structure BandFits (unicode : Segmentation) (columns height : Nat) (band : PreviousFrame) : Prop where
  size : band.size = ⟨columns, height⟩
  rows : ∀ row ∈ band.liveRows, RowFits unicode columns row
  height : band.liveRows.length ≤ height
  row : band.cursor.row < max 1 band.liveRows.length
  cell : band.cursor.cell < columns

/-- A frame for a terminal of the size. -/
structure FrameFits (unicode : Segmentation) (columns height : Nat) (frame : ScrollbackFrame) :
    Prop where
  committed : ∀ row ∈ frame.committedRows, RowFits unicode columns row
  band : BandFits unicode columns height frame.band

instance (band : PreviousFrame) : Decidable (BandFits unicode columns height band) :=
  decidable_of_iff
    (band.size = ⟨columns, height⟩ ∧ (∀ row ∈ band.liveRows, RowFits unicode columns row) ∧
      band.liveRows.length ≤ height ∧ band.cursor.row < max 1 band.liveRows.length ∧
      band.cursor.cell < columns)
    ⟨fun ⟨size, rows, height, row, cell⟩ => ⟨size, rows, height, row, cell⟩,
      fun h => ⟨h.size, h.rows, h.height, h.row, h.cell⟩⟩

instance (frame : ScrollbackFrame) : Decidable (FrameFits unicode columns height frame) :=
  decidable_of_iff
    ((∀ row ∈ frame.committedRows, RowFits unicode columns row) ∧
      BandFits unicode columns height frame.band)
    ⟨fun ⟨committed, band⟩ => ⟨committed, band⟩, fun h => ⟨h.committed, h.band⟩⟩

/-- Rows that fit are not reflowed. -/
theorem reflowHeight_fits {rows : List (List Char)}
    (hrows : ∀ row ∈ rows, RowFits unicode columns row) (hcolumns : 0 < columns) :
    reflowHeight unicode rows columns = rows.length := by
  induction rows with
  | nil => rfl
  | cons row rows ih =>
    have hrest := ih fun other hmem => hrows other (List.mem_cons_of_mem _ hmem)
    have hwidth := (hrows row List.mem_cons_self).width
    have hone : (cellWidth unicode (stripSgr row) + columns - 1) / columns ≤ 1 := by
      refine Nat.lt_succ_iff.mp (Nat.div_lt_of_lt_mul ?_)
      omega
    rw [reflowHeight] at hrest ⊢
    rw [List.map_cons, List.sum_cons, hrest, Nat.max_eq_left hone, List.length_cons, Nat.add_comm]

/-- The retained rows are above both cursors and at the head of both bands. -/
theorem retainedRows_spec (previous : PreviousFrame) (frame : ScrollbackFrame) :
    retainedRows previous frame ≤ previous.cursor.row ∧
      retainedRows previous frame ≤ frame.cursor.row ∧
      previous.liveRows.take (retainedRows previous frame) =
        frame.liveRows.take (retainedRows previous frame) := by
  rw [retainedRows]
  generalize hlimit : min previous.cursor.row frame.cursor.row = limit
  generalize hkept : (List.range limit).takeWhile (fun row =>
    previous.liveRows[row]? == frame.liveRows[row]?) = kept
  have hfront : kept <+: List.range limit := hkept ▸ List.takeWhile_prefix _
  have hle : kept.length ≤ limit := by simpa using hfront.length_le
  refine ⟨by omega, by omega, List.ext_getElem? fun row => ?_⟩
  by_cases hrow : row < kept.length
  · have hmem : row ∈ kept := by
      have hitem : kept[row] = row := by
        rw [hfront.getElem hrow, List.getElem_range]
      exact hitem ▸ List.getElem_mem hrow
    rw [← hkept] at hmem
    have hsame := List.mem_takeWhile_imp hmem
    rw [List.getElem?_take_of_lt hrow, List.getElem?_take_of_lt hrow]
    exact beq_iff_eq.mp hsame
  · rw [List.getElem?_take_eq_none (Nat.le_of_not_lt hrow),
      List.getElem?_take_eq_none (Nat.le_of_not_lt hrow)]

/-! ## The invariant of the writer -/

/-- The terminal shows the band that the writer remembers, below everything else, with the cursor
where the writer takes it to be. The band and the blank lines behind it are on the screen. -/
structure WriterShows (unicode : Segmentation) (columns height : Nat) (above : List ScreenLine)
    (below : Nat) (band : PreviousFrame) (vt : Vt) : Prop where
  fits : BandFits unicode columns height band
  shows : vt.Shows columns height (above ++ band.liveRows.map (shownRow unicode columns)) below
    (above.length + band.cursor.row) band.cursor.cell
  nonempty : 0 < band.liveRows.length + below
  room : band.liveRows.length + below ≤ height

variable {above : List ScreenLine} {below : Nat} {vt : Vt}

/-- The rows of a frame behind lines, its live rows without the retained ones, and the cursor. -/
def frameText (frame : ScrollbackFrame) (kept : Nat) : List Char :=
  frame.committedRows.flatMap (· ++ LINE_END) ++ writeLiveRows (frame.liveRows.drop kept) ++ ['\r'] ++
    moveUp ((frame.liveRows.drop kept).length - 1 - (frame.cursor.row - kept)) ++
    moveRight frame.cursor.cell

/-- The rows of a frame from a cleared band on, behind rows that are retained. -/
theorem WriterShows.of_cleared {frame : ScrollbackFrame}
    (hframe : FrameFits unicode columns height frame) {kept : Nat} (hkept : kept ≤ frame.cursor.row)
    (hcommitted : frame.committedRows = [] ∨ kept = 0)
    (h : vt.Shows columns height
      (above ++ (frame.liveRows.take kept).map (shownRow unicode columns)) (below + 1)
      (above.length + kept) 0)
    (hroom : kept + (below + 1) ≤ height) :
    ∃ below, WriterShows unicode columns height
      (above ++ frame.committedRows.map (shownRow unicode columns)) below frame.band
      (vt.feed (rowGraphemes unicode) (frameText frame kept)) := by
  have hband := hframe.band
  have hrow : frame.cursor.row < max 1 frame.liveRows.length := hband.row
  have hlive : frame.liveRows.length ≤ height := hband.height
  have hlength : (frame.liveRows.take kept).length = kept := by
    rw [List.length_take]
    omega
  have hfront : (above ++ (frame.liveRows.take kept).map (shownRow unicode columns)).length =
      above.length + kept := by
    rw [List.length_append, List.length_map, hlength]
  rw [← hfront] at h
  have hdrop : (frame.liveRows.drop kept).length = frame.liveRows.length - kept := List.length_drop
  have hcursor : frame.cursor.row - kept < max 1 (frame.liveRows.drop kept).length := by omega
  have hfed := feed_band h (by omega) frame.committedRows (frame.liveRows.drop kept)
    ⟨frame.cursor.row - kept, frame.cursor.cell⟩ hframe.committed
    (fun row hmem => hband.rows row (List.mem_of_mem_drop hmem)) (by omega) hcursor hband.cell
  rw [hfront] at hfed
  have hlines : above ++ (frame.liveRows.take kept).map (shownRow unicode columns) ++
      frame.committedRows.map (shownRow unicode columns) ++
        (frame.liveRows.drop kept).map (shownRow unicode columns) =
      above ++ frame.committedRows.map (shownRow unicode columns) ++
        frame.liveRows.map (shownRow unicode columns) := by
    rcases hcommitted with hnone | rfl
    · rw [hnone, List.map_nil, List.append_nil, List.append_nil, List.append_assoc, ← List.map_append,
        List.take_append_drop]
    · rw [List.take_zero, List.map_nil, List.append_nil, List.drop_zero]
  rw [hlines] at hfed
  have hcommittedRow : above.length + kept + frame.committedRows.length + (frame.cursor.row - kept) =
      (above ++ frame.committedRows.map (shownRow unicode columns)).length + frame.cursor.row := by
    rw [List.length_append, List.length_map]
    omega
  rw [hcommittedRow] at hfed
  refine ⟨_, hband, hfed, ?_, ?_⟩
  · show 0 < frame.liveRows.length + _
    omega
  · show frame.liveRows.length + _ ≤ height
    rcases hcommitted with hnone | rfl
    · rw [hnone, List.length_nil]
      omega
    · omega

/-- The first call of `write`. -/
theorem writeTo_first (frame : ScrollbackFrame) :
    writeTo unicode (none, vt) frame =
      (some frame.band, (vt.feed (rowGraphemes unicode) ('\r' :: ERASE_LINE)).feed
        (rowGraphemes unicode) (frameText frame 0)) := by
  have hbytes : writeFrame unicode none frame =
      (some (Vt.encodeText ('\r' :: ERASE_LINE ++ frameText frame 0)), frame.band) := by
    rw [writeFrame.eq_def, if_neg (by simp)]
    simp only [frameText, List.append_assoc]
    rfl
  rw [writeTo, hbytes]
  dsimp only
  rw [Vt.execute_encodeText, Vt.feed_append]

theorem writeTo_remembers (state : Option PreviousFrame × Vt) (frame : ScrollbackFrame) :
    (writeTo unicode state frame).1 = some frame.band := by
  have hremembers : (writeFrame unicode state.1 frame).2 = frame.band := by
    rw [writeFrame.eq_def]
    by_cases hsame : frame.committedRows = [] ∧ state.1 = some frame.band
    · exact congrArg Prod.snd (if_pos hsame)
    · exact congrArg Prod.snd (if_neg hsame)
  rw [writeTo]
  split
  · next hwrite =>
    rw [hwrite] at hremembers
    exact congrArg some hremembers
  · next hwrite =>
    rw [hwrite] at hremembers
    exact congrArg some hremembers

/-- The rows at the head of the band that a frame does not write again. -/
def keptRows (previous : PreviousFrame) (frame : ScrollbackFrame) : Nat :=
  if frame.committedRows = [] ∧ previous.size = frame.size then retainedRows previous frame else 0

theorem keptRows_spec {previous : PreviousFrame} (frame : ScrollbackFrame)
    (hsize : previous.size = frame.size) :
    keptRows previous frame ≤ previous.cursor.row ∧ keptRows previous frame ≤ frame.cursor.row ∧
      previous.liveRows.take (keptRows previous frame) =
        frame.liveRows.take (keptRows previous frame) ∧
      (frame.committedRows = [] ∨ keptRows previous frame = 0) := by
  rw [keptRows]
  by_cases hnone : frame.committedRows = []
  · rw [if_pos ⟨hnone, hsize⟩]
    obtain ⟨hprevious, hnext, hrows⟩ := retainedRows_spec previous frame
    exact ⟨hprevious, hnext, hrows, .inl hnone⟩
  · rw [if_neg fun hboth => hnone hboth.1]
    exact ⟨Nat.zero_le _, Nat.zero_le _, rfl, .inr rfl⟩

/-- A later call that writes. -/
theorem writeTo_next {previous : PreviousFrame} {frame : ScrollbackFrame}
    (hwrites : ¬(frame.committedRows = [] ∧ some previous = some frame.band)) {kept : Nat}
    (hkept : keptRows previous frame = kept) :
    writeTo unicode (some previous, vt) frame =
      (some frame.band, (vt.feed (rowGraphemes unicode) (clearLiveBand
        (reflowHeight unicode ((previous.liveRows.drop kept).take (previous.cursor.row - kept))
          frame.size.columns + previous.cursor.cell / frame.size.columns)
        (min (reflowHeight unicode (previous.liveRows.drop kept) frame.size.columns)
          frame.size.rows))).feed (rowGraphemes unicode) (frameText frame kept)) := by
  have hbytes : writeFrame unicode (some previous) frame =
      (some (Vt.encodeText (clearLiveBand
        (reflowHeight unicode ((previous.liveRows.drop kept).take (previous.cursor.row - kept))
          frame.size.columns + previous.cursor.cell / frame.size.columns)
        (min (reflowHeight unicode (previous.liveRows.drop kept) frame.size.columns)
          frame.size.rows) ++ frameText frame kept)), frame.band) := by
    rw [writeFrame.eq_def]
    refine (if_neg hwrites).trans ?_
    rw [← hkept]
    simp only [frameText, List.append_assoc]
    rfl
  rw [writeTo, hbytes]
  dsimp only
  rw [Vt.execute_encodeText, Vt.feed_append]

/-- The first frame replaces the line of the cursor. -/
theorem WriterShows.start {frame : ScrollbackFrame} (hframe : FrameFits unicode columns height frame)
    (hquiet : vt.Quiet columns height) {line : ScreenLine}
    (hlines : vt.screen.lines = above ++ line :: List.replicate below (List.replicate columns blankCell))
    (hrow : vt.screen.row = above.length) (hroom : below + 1 ≤ height) :
    ∃ below, WriterShows unicode columns height
      (above ++ frame.committedRows.map (shownRow unicode columns)) below frame.band
      (writeTo unicode (none, vt) frame).2 := by
  rw [writeTo_first]
  refine WriterShows.of_cleared hframe (Nat.zero_le _) (.inr rfl) ?_
    ((Nat.zero_add (below + 1)).trans_le hroom)
  rw [List.take_zero, List.map_nil, List.append_nil]
  have hreturn : vt.feed (rowGraphemes unicode) ['\r'] =
      { vt with screen := vt.screen.carriageReturn } := by
    rw [Vt.feed_carriageReturn hquiet.mode, hquiet.apply]
  have hreturned : ({ vt with screen := vt.screen.carriageReturn } : Vt).Quiet columns height :=
    ⟨hquiet.mode, hquiet.text, hquiet.size, hquiet.rows⟩
  show ((vt.feed (rowGraphemes unicode) ['\r']).feed (rowGraphemes unicode) ERASE_LINE).Shows _ _ _ _ _ _
  rw [hreturn, ERASE_LINE, Vt.feed_eraseLine hreturned.mode, hreturned.apply]
  refine ⟨⟨hquiet.mode, hquiet.text, hquiet.size, hquiet.rows⟩, ?_, hrow, rfl, rfl⟩
  show vt.screen.lines.set vt.screen.row vt.screen.blankLine = _
  rw [hlines, hrow, List.set_append_right _ _ (Nat.le_refl _), Nat.sub_self, Screen.blankLine,
    hquiet.size]
  rfl

/-- A frame behind another one. -/
theorem WriterShows.write {previous : PreviousFrame}
    (h : WriterShows unicode columns height above below previous vt) {frame : ScrollbackFrame}
    (hframe : FrameFits unicode columns height frame) :
    ∃ below, WriterShows unicode columns height
      (above ++ frame.committedRows.map (shownRow unicode columns)) below frame.band
      (writeTo unicode (some previous, vt) frame).2 := by
  by_cases hsame : frame.committedRows = [] ∧ some previous = some frame.band
  · -- Nothing is written.
    have hnothing : writeFrame unicode (some previous) frame = (none, frame.band) := by
      rw [writeFrame.eq_def]
      exact if_pos hsame
    refine ⟨below, ?_⟩
    rw [writeTo, hnothing, hsame.1, List.map_nil, List.append_nil, ← Option.some.inj hsame.2]
    exact h
  · have hcolumns : 0 < columns := Nat.lt_of_le_of_lt (Nat.zero_le _) h.fits.cell
    have hsize : frame.size = ⟨columns, height⟩ := hframe.band.size
    obtain ⟨hprevious, hnext, hrows, hcommitted⟩ :=
      keptRows_spec frame (h.fits.size.trans hsize.symm)
    rw [writeTo_next hsame rfl]
    generalize keptRows previous frame = kept at *
    have hlive := h.fits.row
    have hheight := h.fits.height
    have hnonempty := h.nonempty
    have hroom := h.room
    have hfits : ∀ row ∈ previous.liveRows.drop kept, RowFits unicode columns row :=
      fun row hmem => h.fits.rows row (List.mem_of_mem_drop hmem)
    -- The writer finds the head of what it did not retain, and erases that.
    have hoffset : reflowHeight unicode
          ((previous.liveRows.drop kept).take (previous.cursor.row - kept)) frame.size.columns +
        previous.cursor.cell / frame.size.columns = previous.cursor.row - kept := by
      rw [hsize, reflowHeight_fits (fun row hmem => hfits row (List.mem_of_mem_take hmem)) hcolumns,
        Nat.div_eq_of_lt h.fits.cell, List.length_take, List.length_drop]
      omega
    have hvisible : min (reflowHeight unicode (previous.liveRows.drop kept) frame.size.columns)
        frame.size.rows = ((previous.liveRows.drop kept).map (shownRow unicode columns)).length := by
      rw [hsize, reflowHeight_fits hfits hcolumns, List.length_map, List.length_drop]
      show min _ height = _
      omega
    have htake : (previous.liveRows.take kept).length = kept := by
      rw [List.length_take]
      omega
    have hfront : (above ++ (previous.liveRows.take kept).map (shownRow unicode columns)).length =
        above.length + kept := by
      rw [List.length_append, List.length_map, htake]
    have hshows := h.shows
    rw [← List.take_append_drop kept previous.liveRows, List.map_append, ← List.append_assoc,
      show above.length + previous.cursor.row = (above ++ (previous.liveRows.take kept).map
        (shownRow unicode columns)).length + (previous.cursor.row - kept) by omega] at hshows
    have hdrop : ((previous.liveRows.drop kept).map (shownRow unicode columns)).length =
        previous.liveRows.length - kept := by
      rw [List.length_map, List.length_drop]
    have hcleared := feed_clearLiveBand unicode hshows (by omega)
    rw [hoffset, hvisible]
    obtain ⟨behind, hbehind⟩ : ∃ behind, ((previous.liveRows.drop kept).map
        (shownRow unicode columns)).length + below = behind + 1 :=
      Nat.exists_eq_add_one.mpr (by omega)
    rw [hbehind, hfront, hrows] at hcleared
    exact WriterShows.of_cleared hframe hnext hcommitted hcleared (by omega)

/-! ## Whole runs -/

/-- A terminal before the first frame: nothing is shown below the line of the cursor. -/
structure Vt.StartsAt (vt : Vt) (columns height : Nat) (base : List ScreenLine) (line : ScreenLine)
    (below : Nat) : Prop extends vt.Quiet columns height where
  lines : vt.screen.lines = base ++ line :: List.replicate below (List.replicate columns blankCell)
  row : vt.screen.row = base.length
  onScreen : below + 1 ≤ height

/-- Rows that are committed, live rows as the last ones that are not blank, and the cursor in them. -/
structure Vt.ShowsRows (unicode : Segmentation) (vt : Vt) (columns : Nat) (base : List ScreenLine)
    (committed live : List (List Char)) (cursor : FrameCursor) : Prop where
  lines : ∃ below, vt.screen.lines = base ++ committed.map (shownRow unicode columns) ++
    live.map (shownRow unicode columns) ++ List.replicate below (List.replicate columns blankCell)
  onScreen : vt.screen.top ≤ base.length + committed.length
  row : vt.screen.row = base.length + committed.length + cursor.row
  cell : vt.screen.cell = cursor.cell

theorem WriterShows.showsRows {base : List ScreenLine} {committed : List (List Char)}
    {band : PreviousFrame}
    (h : WriterShows unicode columns height (base ++ committed.map (shownRow unicode columns)) below
      band vt) :
    vt.ShowsRows unicode columns base committed band.liveRows band.cursor where
  lines := ⟨below, h.shows.lines⟩
  onScreen := by
    have hroom := h.room
    rw [Screen.top, h.shows.lines, h.shows.rows]
    simp only [List.length_append, List.length_map, List.length_replicate]
    omega
  row := by
    rw [h.shows.row, List.length_append, List.length_map]
  cell := h.shows.cell

/-- The invariant holds behind every frame. -/
theorem writeAll_keeps {base : List ScreenLine} {line : ScreenLine}
    (hstart : vt.StartsAt columns height base line below) (front : List ScrollbackFrame)
    (last : ScrollbackFrame) (hfits : ∀ frame ∈ front ++ [last], FrameFits unicode columns height frame) :
    (writeAll unicode vt (front ++ [last])).1 = some last.band ∧
      ∃ below, WriterShows unicode columns height (base ++
        ((front ++ [last]).flatMap ScrollbackFrame.committedRows).map (shownRow unicode columns)) below
        last.band (writeAll unicode vt (front ++ [last])).2 := by
  induction front using List.reverseRecOn generalizing last with
  | nil =>
    have hshown := WriterShows.start (hfits last (by simp)) hstart.toQuiet hstart.lines hstart.row
      hstart.onScreen
    refine ⟨?_, ?_⟩
    · show (writeTo unicode (none, vt) last).1 = _
      rw [writeTo_first]
    · simpa [writeAll] using hshown
  | append_singleton front middle ih =>
    obtain ⟨hremembered, below, hshown⟩ := ih middle fun frame hmem =>
      hfits frame (List.mem_append_left [last] hmem)
    have hone : writeAll unicode vt (front ++ [middle] ++ [last]) =
        writeTo unicode (some middle.band, (writeAll unicode vt (front ++ [middle])).2) last := by
      rw [writeAll, List.foldl_append, ← writeAll, ← hremembered]
      rfl
    rw [hone, List.flatMap_append, List.map_append, ← List.append_assoc]
    have hlast := hfits last (List.mem_append_right _ List.mem_cons_self)
    refine ⟨writeTo_remembers _ last, ?_⟩
    simpa using hshown.write hlast

/-- After every frame the terminal shows, behind what was above the first line, the rows committed so
far and then the live rows of the frame, with the cursor where the frame asks for it. The rows
committed so far are there after all later frames too. -/
theorem writeAll_showsRows {base : List ScreenLine} {line : ScreenLine}
    (hstart : vt.StartsAt columns height base line below) {frames : List ScrollbackFrame}
    (hfits : ∀ frame ∈ frames, FrameFits unicode columns height frame)
    {front behind : List ScrollbackFrame} {last : ScrollbackFrame}
    (hframes : frames = front ++ last :: behind) :
    (writeAll unicode vt (front ++ [last])).2.ShowsRows unicode columns base
        ((front ++ [last]).flatMap ScrollbackFrame.committedRows) last.liveRows last.cursor ∧
      base ++ ((front ++ [last]).flatMap ScrollbackFrame.committedRows).map (shownRow unicode columns) <+:
        (writeAll unicode vt frames).2.screen.lines := by
  have hsplit : frames = front ++ [last] ++ behind := by
    rw [hframes, List.append_assoc, List.singleton_append]
  rw [hsplit] at hfits ⊢
  have hfront : ∀ frame ∈ front ++ [last], FrameFits unicode columns height frame :=
    fun frame hmem => hfits frame (List.mem_append_left behind hmem)
  obtain ⟨-, behindRows, hshown⟩ := writeAll_keeps hstart front last hfront
  refine ⟨hshown.showsRows, ?_⟩
  rcases List.eq_nil_or_concat behind with rfl | ⟨later, final, rfl⟩
  · rw [List.append_nil, hshown.shows.lines, List.append_assoc]
    exact List.prefix_append _ _
  · rw [List.concat_eq_append, ← List.append_assoc] at hfits ⊢
    obtain ⟨-, finalRows, hfinal⟩ := writeAll_keeps hstart (front ++ [last] ++ later) final hfits
    have hcommitted : (front ++ [last] ++ later ++ [final]).flatMap ScrollbackFrame.committedRows =
        (front ++ [last]).flatMap ScrollbackFrame.committedRows ++
          (later ++ [final]).flatMap ScrollbackFrame.committedRows := by
      rw [List.append_assoc (front ++ [last]), List.flatMap_append]
    rw [hfinal.shows.lines, hcommitted, List.map_append, ← List.append_assoc, List.append_assoc,
      List.append_assoc]
    exact List.prefix_append _ _

end Band

/-- A terminal of four columns and three lines with the cursor on the second line. -/
def smallTerminal (lines : List String) : Vt where
  mode := .ground
  text := []
  screen := {
    columns := 4
    height := 3
    lines := lines.map fun line => line.toList.map fun character => [character]
    row := 1
    cell := 2
    wrapPending := false
    saved := none }

def smallFrame (committed live : List String) (row cell : Nat) : ScrollbackFrame where
  committedRows := committed.map String.toList
  liveRows := live.map String.toList
  cursor := ⟨row, cell⟩
  size := ⟨4, 3⟩

/-- A band that grows, and that shrinks with a commit. -/
def smallFront : List ScrollbackFrame :=
  [smallFrame [] ["a", "full"] 1 3, smallFrame ["a", "bcde"] ["x"] 0 1]

/-- A frame that keeps the head of the band, with a style in its last row. -/
def smallLast : ScrollbackFrame := smallFrame [] ["x", "\x1b[1my\x1b[0m"] 1 0

def smallFrames : List ScrollbackFrame := smallFront ++ smallLast :: [smallFrame ["x"] [] 0 0]

theorem smallTerminal_starts :
    (smallTerminal ["$ ls", "old ", "    "]).StartsAt 4 3 [["$", " ", "l", "s"].map String.toList]
      (["o", "l", "d", " "].map String.toList) 1 where
  mode := rfl
  text := rfl
  size := rfl
  rows := rfl
  lines := by decide
  row := rfl
  onScreen := by decide

theorem small_frames_shown :
    (writeAll plainSegmentation (smallTerminal ["$ ls", "old ", "    "])
        (smallFront ++ [smallLast])).2.ShowsRows plainSegmentation 4
        [["$", " ", "l", "s"].map String.toList]
        ((smallFront ++ [smallLast]).flatMap ScrollbackFrame.committedRows) smallLast.liveRows
        smallLast.cursor ∧
      [["$", " ", "l", "s"].map String.toList] ++
          ((smallFront ++ [smallLast]).flatMap ScrollbackFrame.committedRows).map
            (shownRow plainSegmentation 4) <+:
        (writeAll plainSegmentation (smallTerminal ["$ ls", "old ", "    "]) smallFrames).2.screen.lines := by
  have hfits : ∀ frame ∈ smallFrames, FrameFits plainSegmentation 4 3 frame := by decide +kernel
  exact writeAll_showsRows smallTerminal_starts hfits rfl

/-- The first frame replaces the line of the cursor and leaves the lines below. -/
theorem first_frame_leaves_below :
    (smallTerminal ["$ ls", "old ", "else"]).Quiet 4 3 ∧
      FrameFits plainSegmentation 4 3 (smallFrame [] ["a"] 0 1) ∧
      ¬(writeAll plainSegmentation (smallTerminal ["$ ls", "old ", "else"])
        [smallFrame [] ["a"] 0 1]).2.ShowsRows plainSegmentation 4
        [["$", " ", "l", "s"].map String.toList] [] (smallFrame [] ["a"] 0 1).liveRows ⟨0, 1⟩ := by
  refine ⟨⟨rfl, rfl, rfl, rfl⟩, by decide +kernel, fun hshows => ?_⟩
  obtain ⟨below, hlines⟩ := hshows.lines
  have hscreen : (writeAll plainSegmentation (smallTerminal ["$ ls", "old ", "else"])
      [smallFrame [] ["a"] 0 1]).2.screen.lines =
      [["$", " ", "l", "s"].map String.toList, ["a", " ", " ", " "].map String.toList,
        ["e", "l", "s", "e"].map String.toList] := by decide +kernel
  rw [hscreen] at hlines
  -- The last line would be a blank one.
  have hbelow : below = 1 := by
    simpa [smallFrame, Nat.add_comm 1] using (congrArg List.length hlines).symm
  rw [hbelow] at hlines
  exact absurd hlines (by decide +kernel)

end Henji
