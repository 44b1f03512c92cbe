import Henji.Json
import Henji.Library.Utf8
import Mathlib.Algebra.Ring.Nat
import Mathlib.Data.List.Basic
import Mathlib.Data.List.TakeWhile

/-!
# An ideal terminal

A screen of fixed size with its scrollback: a line feed at the bottom scrolls, a full line wraps with
the next grapheme only, motions stay on the screen. Bytes are UTF-8; text between control sequences is
printed grapheme by grapheme, and a sequence that sets a style does not end it.

Results:
1. `Screen.print_spec`: what a text leaves on a blank line that it fits in.
2. `Screen.lineEnd_spec`, `Screen.eraseBand_spec`: a line that ends, and lines that are cleared.
3. `Vt.feed_sequence`: a control sequence does what its final character says.
-/

namespace Henji

/-! ## The screen -/

/-- What a cell shows. The cells behind the first one of a wide grapheme show nothing of their own. -/
abbrev Cell : Type := List Char

abbrev ScreenLine : Type := List Cell

def blankCell : Cell := [' ']

/-- The lines are the scrollback and behind it the screen; rows are counted from the first of all. -/
structure Screen where
  columns : Nat
  height : Nat
  lines : List ScreenLine
  row : Nat
  cell : Nat
  wrapPending : Bool
  saved : Option (Nat × Nat × Bool)
deriving DecidableEq, Repr

namespace Screen

def blankLine (s : Screen) : ScreenLine := List.replicate s.columns blankCell

/-- The row of the first line on the screen. -/
def top (s : Screen) : Nat := s.lines.length - s.height

def carriageReturn (s : Screen) : Screen := { s with cell := 0, wrapPending := false }

def lineFeed (s : Screen) : Screen :=
  { s with
    lines := if s.row + 1 < s.lines.length then s.lines else s.lines ++ [s.blankLine]
    row := s.row + 1
    wrapPending := false }

def moveUp (s : Screen) (rows : Nat) : Screen :=
  { s with row := max s.top (s.row - rows), wrapPending := false }

def moveDown (s : Screen) (rows : Nat) : Screen :=
  { s with row := min (s.lines.length - 1) (s.row + rows), wrapPending := false }

def moveRight (s : Screen) (cells : Nat) : Screen :=
  { s with cell := min (s.columns - 1) (s.cell + cells), wrapPending := false }

def eraseLine (s : Screen) : Screen :=
  { s with lines := s.lines.set s.row s.blankLine, wrapPending := false }

def saveCursor (s : Screen) : Screen :=
  { s with saved := some (s.row - s.top, s.cell, s.wrapPending) }

def restoreCursor (s : Screen) : Screen :=
  match s.saved with
  | none => s
  | some (row, cell, wrapPending) => { s with row := s.top + row, cell, wrapPending }

/-- A grapheme in the cells of a line. -/
def writeCells (line : ScreenLine) (cell : Nat) (grapheme : Cell) (width : Nat) : ScreenLine :=
  line.take cell ++ grapheme :: List.replicate (width - 1) [] ++ line.drop (cell + width)

/-- A grapheme without a width is not shown in a cell of its own. -/
def printGrapheme (s : Screen) (grapheme : Cell × Nat) : Screen :=
  if grapheme.2 = 0 then s
  else
    let s := if s.wrapPending ∨ s.columns < s.cell + grapheme.2 then s.lineFeed.carriageReturn else s
    { s with
      lines := s.lines.modify s.row fun line => writeCells line s.cell grapheme.1 grapheme.2
      cell := min (s.columns - 1) (s.cell + grapheme.2)
      wrapPending := decide (s.columns ≤ s.cell + grapheme.2) }

def print (s : Screen) (graphemes : List (Cell × Nat)) : Screen := graphemes.foldl printGrapheme s

end Screen

/-! ## The control sequences -/

def ESC : Char := Char.ofNat 0x1b

def isControl (character : Char) : Bool :=
  decide (character.toNat < 0x20) || decide (0x7f ≤ character.toNat ∧ character.toNat ≤ 0x9f)

inductive VtMode where
  | ground
  | escape
  | sequence (parameters : List Char)
deriving DecidableEq, Repr

/-- The terminal: a text that has not ended is printed with what ends it. The graphemes of a text and
their widths are those of the host. -/
structure Vt where
  mode : VtMode
  text : List Char
  screen : Screen
deriving DecidableEq, Repr

namespace Vt

variable (graphemes : List Char → List (Cell × Nat))

/-- A control function behind the text before it. -/
def apply (vt : Vt) (function : Screen → Screen) : Vt where
  mode := .ground
  text := []
  screen := function (vt.screen.print (graphemes vt.text))

/-- The first parameter; none or zero stands for one. -/
def amount (parameters : List Char) : Nat :=
  max 1 (Nat.ofDigitChars 10 (parameters.takeWhile Char.isDigit) 0)

/-- A control sequence that is complete. Styles, and what the terminal does not know, do nothing. -/
def dispatch (vt : Vt) (parameters : List Char) (final : Char) : Vt :=
  if final = 'A' then vt.apply graphemes fun s => s.moveUp (amount parameters)
  else if final = 'B' then vt.apply graphemes fun s => s.moveDown (amount parameters)
  else if final = 'C' then vt.apply graphemes fun s => s.moveRight (amount parameters)
  else if final = 'K' ∧ parameters = ['2'] then vt.apply graphemes Screen.eraseLine
  else { vt with mode := .ground }

def feedCharacter (vt : Vt) (character : Char) : Vt :=
  match vt.mode with
  | .ground =>
    if character = ESC then { vt with mode := .escape }
    else if character = '\r' then vt.apply graphemes Screen.carriageReturn
    else if character = '\n' then vt.apply graphemes Screen.lineFeed
    else if isControl character then vt
    else { vt with text := vt.text ++ [character] }
  | .escape =>
    if character = '[' then { vt with mode := .sequence [] }
    else if character = '7' then vt.apply graphemes Screen.saveCursor
    else if character = '8' then vt.apply graphemes Screen.restoreCursor
    else { vt with mode := .ground }
  | .sequence parameters =>
    if 0x40 ≤ character.toNat ∧ character.toNat ≤ 0x7e then vt.dispatch graphemes parameters character
    else { vt with mode := .sequence (parameters ++ [character]) }

def feed (vt : Vt) (text : List Char) : Vt := text.foldl (feedCharacter graphemes) vt

end Vt

/-! ## Lines -/

/-- The cells of graphemes. -/
def graphemeCells (graphemes : List (Cell × Nat)) : ScreenLine :=
  graphemes.flatMap fun grapheme =>
    if grapheme.2 = 0 then [] else grapheme.1 :: List.replicate (grapheme.2 - 1) []

def totalWidth (graphemes : List (Cell × Nat)) : Nat := (graphemes.map Prod.snd).sum

/-- The line that shows graphemes and nothing else. -/
def lineShowing (columns : Nat) (graphemes : List (Cell × Nat)) : ScreenLine :=
  graphemeCells graphemes ++ List.replicate (columns - totalWidth graphemes) blankCell

theorem length_graphemeCells (graphemes : List (Cell × Nat)) :
    (graphemeCells graphemes).length = totalWidth graphemes := by
  induction graphemes with
  | nil => rfl
  | cons grapheme graphemes ih =>
    rw [graphemeCells, List.flatMap_cons, List.length_append, ← graphemeCells, ih, totalWidth,
      totalWidth, List.map_cons, List.sum_cons]
    congr 1
    split
    · next hzero => exact hzero.symm
    · next hzero =>
      rw [List.length_cons, List.length_replicate]
      exact Nat.sub_add_cancel (Nat.pos_of_ne_zero hzero)

theorem totalWidth_concat (graphemes : List (Cell × Nat)) (grapheme : Cell × Nat) :
    totalWidth (graphemes ++ [grapheme]) = totalWidth graphemes + grapheme.2 := by
  simp [totalWidth]

/-- A grapheme behind others in a line. -/
theorem writeCells_lineShowing {columns : Nat} {graphemes : List (Cell × Nat)}
    {grapheme : Cell × Nat} (hwidth : grapheme.2 ≠ 0) :
    Screen.writeCells (lineShowing columns graphemes) (totalWidth graphemes) grapheme.1 grapheme.2 =
      lineShowing columns (graphemes ++ [grapheme]) := by
  have hlength := length_graphemeCells graphemes
  have hcells : graphemeCells (graphemes ++ [grapheme]) =
      graphemeCells graphemes ++ grapheme.1 :: List.replicate (grapheme.2 - 1) [] := by
    simp [graphemeCells, hwidth]
  rw [Screen.writeCells, lineShowing, lineShowing, hcells, totalWidth_concat, ← hlength,
    List.take_left, List.append_assoc, List.append_assoc, ← List.drop_drop, List.drop_left,
    List.drop_replicate, Nat.sub_sub]

theorem modify_middle {α : Type} (front : List α) (item : α) (behind : List α) (f : α → α) :
    (front ++ item :: behind).modify front.length f = front ++ f item :: behind := by
  rw [List.modify_eq_take_cons_drop (by simp)]
  simp

namespace Screen

variable {s : Screen}

/-- The cursor is at the head of a blank line, with blank lines behind it. -/
structure ReadyAt (s : Screen) (above : List ScreenLine) (below : Nat) : Prop where
  lines : s.lines = above ++ List.replicate (below + 1) s.blankLine
  row : s.row = above.length
  cell : s.cell = 0
  wrapPending : s.wrapPending = false

/-- Some graphemes are on the line of the cursor. -/
structure Printed (s : Screen) (columns : Nat) (above : List ScreenLine)
    (graphemes : List (Cell × Nat)) (below : List ScreenLine) : Prop where
  size : s.columns = columns
  lines : s.lines = above ++ lineShowing columns graphemes :: below
  row : s.row = above.length
  cell : s.wrapPending = false ∧ s.cell = totalWidth graphemes ∨ columns = totalWidth graphemes

theorem Printed.printGrapheme {columns : Nat} {above below : List ScreenLine}
    {graphemes : List (Cell × Nat)} (h : s.Printed columns above graphemes below)
    {grapheme : Cell × Nat} (hfits : totalWidth (graphemes ++ [grapheme]) ≤ columns) :
    (s.printGrapheme grapheme).Printed columns above (graphemes ++ [grapheme]) below := by
  rw [totalWidth_concat] at hfits
  rw [Screen.printGrapheme]
  by_cases hzero : grapheme.2 = 0
  · rw [if_pos hzero]
    have hline : lineShowing columns (graphemes ++ [grapheme]) = lineShowing columns graphemes := by
      simp [lineShowing, graphemeCells, totalWidth, hzero]
    refine ⟨h.size, by rw [hline]; exact h.lines, h.row, ?_⟩
    rw [totalWidth_concat, hzero, Nat.add_zero]
    exact h.cell
  · rw [if_neg hzero]
    -- There is room, so the line has not wrapped.
    obtain ⟨hpending, hcell⟩ := h.cell.resolve_right (by omega)
    have hstay : ¬(s.wrapPending = true ∨ s.columns < s.cell + grapheme.2) := by
      rw [hpending, hcell, h.size]
      simp only [Bool.false_eq_true, false_or, Nat.not_lt]
      exact hfits
    rw [if_neg hstay]
    refine ⟨h.size, ?_, h.row, ?_⟩
    · show s.lines.modify s.row _ = _
      rw [h.lines, h.row, hcell, modify_middle, writeCells_lineShowing hzero]
    · rw [totalWidth_concat]
      show decide (s.columns ≤ s.cell + grapheme.2) = false ∧
        min (s.columns - 1) (s.cell + grapheme.2) = _ ∨ _
      rw [h.size, hcell, decide_eq_false_iff_not]
      rcases Nat.lt_or_eq_of_le hfits with hroom | hfull
      · exact .inl ⟨by omega, by omega⟩
      · exact .inr hfull.symm

/-- What a text leaves on a blank line that it fits in. -/
theorem print_spec {above : List ScreenLine} {below : Nat} (h : s.ReadyAt above below)
    {graphemes : List (Cell × Nat)} (hfits : totalWidth graphemes ≤ s.columns) :
    (s.print graphemes).Printed s.columns above graphemes (List.replicate below s.blankLine) := by
  suffices hall : ∀ (rest front : List (Cell × Nat)) (t : Screen),
      t.Printed s.columns above front (List.replicate below s.blankLine) →
      totalWidth (front ++ rest) ≤ s.columns →
      (t.print rest).Printed s.columns above (front ++ rest) (List.replicate below s.blankLine) from
    hall graphemes [] s ⟨rfl, by rw [h.lines, List.replicate_succ]; rfl, h.row,
      .inl ⟨h.wrapPending, h.cell⟩⟩ hfits
  intro rest
  induction rest with
  | nil =>
    intro front t ht _
    rw [List.append_nil]
    exact ht
  | cons grapheme rest ih =>
    intro front t ht hfits
    rw [List.append_cons] at hfits ⊢
    refine ih (front ++ [grapheme]) (t.printGrapheme grapheme) (ht.printGrapheme ?_) hfits
    refine Nat.le_trans ?_ hfits
    simp [totalWidth]

/-- Printing leaves the size of the screen. -/
theorem print_size (graphemes : List (Cell × Nat)) :
    (s.print graphemes).columns = s.columns ∧ (s.print graphemes).height = s.height := by
  induction graphemes generalizing s with
  | nil => exact ⟨rfl, rfl⟩
  | cons grapheme graphemes ih =>
    have hone : (s.printGrapheme grapheme).columns = s.columns ∧
        (s.printGrapheme grapheme).height = s.height := by
      rw [printGrapheme]
      split
      · exact ⟨rfl, rfl⟩
      · dsimp only
        split <;> exact ⟨rfl, rfl⟩
    obtain ⟨hcolumns, hheight⟩ := ih (s := s.printGrapheme grapheme)
    exact ⟨hcolumns.trans hone.1, hheight.trans hone.2⟩

/-- The end of a line: the cursor is ready on the next one, which scrolls in at the bottom. -/
theorem lineEnd_spec {columns : Nat} {above : List ScreenLine} {graphemes : List (Cell × Nat)}
    {below : Nat} (h : s.Printed columns above graphemes (List.replicate below s.blankLine)) :
    s.carriageReturn.lineFeed.ReadyAt (above ++ [lineShowing columns graphemes]) (below - 1) where
  lines := by
    show (if s.row + 1 < s.lines.length then s.lines else s.lines ++ [s.blankLine]) =
      _ ++ List.replicate (below - 1 + 1) s.blankLine
    have hlength : s.lines.length = above.length + 1 + below := by
      rw [h.lines, List.length_append, List.length_cons, List.length_replicate]
      omega
    rw [hlength, h.row, h.lines]
    cases below with
    | zero =>
      rw [if_neg (by omega)]
      simp
    | succ below =>
      rw [if_pos (by omega), List.append_cons]
      rfl
  row := by
    show s.row + 1 = _
    rw [h.row, List.length_append]
    rfl
  cell := rfl
  wrapPending := rfl

theorem restoreCursor_of_saved {row cell : Nat} {wrapPending : Bool}
    (h : s.saved = some (row, cell, wrapPending)) :
    s.restoreCursor = { s with row := s.top + row, cell, wrapPending } := by
  cases s
  cases h
  rfl

/-- Lines are erased from the one of the cursor on. -/
def eraseBand : Nat → Screen → Screen
  | 0, s => s
  | 1, s => s.eraseLine
  | count + 2, s => eraseBand (count + 1) (s.eraseLine.moveDown 1)

theorem eraseBand_spec {count : Nat} {above band behind : List ScreenLine}
    (hlines : s.lines = above ++ band ++ behind) (hband : band.length = count)
    (hrow : s.row = above.length) :
    (eraseBand count s).lines = above ++ List.replicate count s.blankLine ++ behind ∧
      (eraseBand count s).columns = s.columns ∧ (eraseBand count s).height = s.height ∧
      (eraseBand count s).saved = s.saved := by
  induction count generalizing s above band with
  | zero =>
    rw [List.length_eq_zero_iff.mp hband] at hlines
    exact ⟨hlines, rfl, rfl, rfl⟩
  | succ count ih =>
    obtain ⟨line, band, rfl⟩ := List.exists_cons_of_length_eq_add_one hband
    have herased : s.eraseLine.lines = above ++ s.blankLine :: (band ++ behind) := by
      show s.lines.set s.row s.blankLine = _
      rw [hlines, hrow, List.append_assoc, List.set_append_right _ _ (Nat.le_refl _), Nat.sub_self]
      rfl
    have hcount : band.length = count := Nat.succ.inj hband
    cases count with
    | zero =>
      rw [List.length_eq_zero_iff.mp hcount] at herased
      refine ⟨?_, rfl, rfl, rfl⟩
      rw [eraseBand, herased]
      simp
    | succ count =>
      -- The cursor goes down to the next line, which is on the screen.
      have hdown : (s.eraseLine.moveDown 1).row = (above ++ [s.blankLine]).length := by
        show min (s.eraseLine.lines.length - 1) (s.row + 1) = _
        rw [herased, hrow]
        simp only [List.length_append, List.length_cons, List.length_nil, hcount]
        omega
      have hnext : (s.eraseLine.moveDown 1).lines =
          above ++ [s.blankLine] ++ band ++ behind := by
        show s.eraseLine.lines = _
        rw [herased]
        simp
      obtain ⟨hresult, hrest⟩ := ih hnext hcount hdown
      refine ⟨?_, hrest⟩
      rw [eraseBand, hresult, List.append_assoc above, List.singleton_append]
      rfl

end Screen

/-! ## Characters -/

namespace Vt

variable {graphemes : List Char → List (Cell × Nat)} {vt : Vt}

theorem feed_append (first second : List Char) :
    vt.feed graphemes (first ++ second) = (vt.feed graphemes first).feed graphemes second := by
  rw [feed, List.foldl_append]
  rfl

/-- A text goes on where one has not ended. -/
theorem feed_text (hground : vt.mode = .ground) {text : List Char}
    (htext : ∀ character ∈ text, isControl character = false) :
    vt.feed graphemes text = { vt with text := vt.text ++ text } := by
  induction text generalizing vt with
  | nil =>
    rw [List.append_nil]
    rfl
  | cons character text ih =>
    have hplain := htext character List.mem_cons_self
    have hne : ∀ control, isControl control = true → character ≠ control := by
      rintro control hcontrol rfl
      exact absurd (hplain.symm.trans hcontrol) (by simp)
    have hone : vt.feedCharacter graphemes character =
        { vt with text := vt.text ++ [character] } := by
      rw [feedCharacter, hground]
      dsimp only
      rw [if_neg (hne ESC (by decide)), if_neg (hne _ (by decide)), if_neg (hne _ (by decide)),
        if_neg (by simp [hplain])]
    have hground' : ({ vt with text := vt.text ++ [character] } : Vt).mode = .ground := hground
    have hrest := ih hground' fun other hmem => htext other (List.mem_cons_of_mem _ hmem)
    show Vt.feed graphemes (vt.feedCharacter graphemes character) text = _
    rw [hone, hrest]
    exact congrArg (fun text => { vt with text }) (List.append_assoc _ _ _)

/-- The parameters of a control sequence, up to its final character. -/
theorem feed_parameters {front : List Char} (hmode : vt.mode = .sequence front)
    {parameters : List Char} (hparameters : ∀ character ∈ parameters, character.toNat < 0x40) :
    vt.feed graphemes parameters = { vt with mode := .sequence (front ++ parameters) } := by
  induction parameters generalizing vt front with
  | nil =>
    rw [List.append_nil, ← hmode]
    rfl
  | cons character parameters ih =>
    have hsmall := hparameters character List.mem_cons_self
    have hone : vt.feedCharacter graphemes character =
        { vt with mode := .sequence (front ++ [character]) } := by
      rw [feedCharacter, hmode]
      exact if_neg fun hfinal => Nat.not_lt.mpr hfinal.1 hsmall
    have hmode' : ({ vt with mode := .sequence (front ++ [character]) } : Vt).mode =
        .sequence (front ++ [character]) := rfl
    have hrest := ih hmode' fun other hmem => hparameters other (List.mem_cons_of_mem _ hmem)
    show Vt.feed graphemes (vt.feedCharacter graphemes character) parameters = _
    rw [hone, hrest, List.append_assoc]
    rfl

/-- A control sequence does what its final character says. -/
theorem feed_sequence (hground : vt.mode = .ground) {parameters : List Char}
    (hparameters : ∀ character ∈ parameters, character.toNat < 0x40) {final : Char}
    (hfinal : 0x40 ≤ final.toNat ∧ final.toNat ≤ 0x7e) :
    vt.feed graphemes (ESC :: '[' :: (parameters ++ [final])) =
      Vt.dispatch graphemes { vt with mode := .sequence parameters } parameters final := by
  have hescape : vt.feedCharacter graphemes ESC = { vt with mode := .escape } := by
    rw [feedCharacter, hground]
    rfl
  show ((vt.feedCharacter graphemes ESC).feedCharacter graphemes '[').feed graphemes
    (parameters ++ [final]) = _
  rw [hescape, feed_append]
  show (Vt.feed graphemes { vt with mode := .sequence [] } parameters).feed graphemes [final] = _
  rw [feed_parameters rfl hparameters, List.nil_append]
  exact if_pos hfinal

/-- A style leaves the terminal as it is. -/
theorem feed_style (hground : vt.mode = .ground) {parameters : List Char}
    (hparameters : ∀ character ∈ parameters, character.toNat < 0x40) :
    vt.feed graphemes (ESC :: '[' :: (parameters ++ ['m'])) = vt := by
  rw [feed_sequence hground hparameters (by decide)]
  cases vt
  simp only at hground
  rw [hground]
  rfl

/-- The number of a control sequence in decimal digits. -/
def decimal (number : Nat) : List Char := Nat.toDigits 10 number

theorem amount_decimal {number : Nat} (hpositive : 0 < number) : amount (decimal number) = number := by
  have hdigits : (decimal number).takeWhile Char.isDigit = decimal number :=
    List.takeWhile_eq_self_iff.mpr fun character hmem =>
      Nat.isDigit_of_mem_toDigits (by decide) (by decide) hmem
  rw [amount, hdigits, decimal, Nat.ofDigitChars_toDigits (by decide) (by decide)]
  exact Nat.max_eq_right hpositive

theorem isDigit_lt {character : Char} (h : character.isDigit = true) : character.toNat < 0x40 := by
  obtain ⟨-, hnine⟩ := Bool.and_eq_true_iff.mp h
  have hle : character.toNat ≤ 57 := UInt32.le_iff_toNat_le.mp (of_decide_eq_true hnine)
  omega

theorem decimal_lt (number : Nat) : ∀ character ∈ decimal number, character.toNat < 0x40 :=
  fun _ hmem => isDigit_lt (Nat.isDigit_of_mem_toDigits (by decide) (by decide) hmem)

theorem feed_moveUp (hground : vt.mode = .ground) {rows : Nat} (hpositive : 0 < rows) :
    vt.feed graphemes (ESC :: '[' :: (decimal rows ++ ['A'])) =
      vt.apply graphemes fun s => s.moveUp rows := by
  rw [feed_sequence hground (decimal_lt rows) (by decide), dispatch, if_pos rfl,
    amount_decimal hpositive]
  rfl

theorem feed_moveDown (hground : vt.mode = .ground) {rows : Nat} (hpositive : 0 < rows) :
    vt.feed graphemes (ESC :: '[' :: (decimal rows ++ ['B'])) =
      vt.apply graphemes fun s => s.moveDown rows := by
  rw [feed_sequence hground (decimal_lt rows) (by decide), dispatch, if_neg (by decide), if_pos rfl,
    amount_decimal hpositive]
  rfl

theorem feed_moveRight (hground : vt.mode = .ground) {cells : Nat} (hpositive : 0 < cells) :
    vt.feed graphemes (ESC :: '[' :: (decimal cells ++ ['C'])) =
      vt.apply graphemes fun s => s.moveRight cells := by
  rw [feed_sequence hground (decimal_lt cells) (by decide), dispatch, if_neg (by decide),
    if_neg (by decide), if_pos rfl, amount_decimal hpositive]
  rfl

theorem feed_eraseLine (hground : vt.mode = .ground) :
    vt.feed graphemes [ESC, '[', '2', 'K'] = vt.apply graphemes Screen.eraseLine := by
  have hsequence : vt.feed graphemes (ESC :: '[' :: (['2'] ++ ['K'])) = _ :=
    feed_sequence hground (List.forall_mem_singleton.mpr (by decide)) (by decide)
  exact hsequence

theorem feed_saveCursor (hground : vt.mode = .ground) :
    vt.feed graphemes [ESC, '7'] = vt.apply graphemes Screen.saveCursor := by
  obtain ⟨mode, text, screen⟩ := vt
  obtain rfl : mode = .ground := hground
  rfl

theorem feed_restoreCursor (hground : vt.mode = .ground) :
    vt.feed graphemes [ESC, '8'] = vt.apply graphemes Screen.restoreCursor := by
  obtain ⟨mode, text, screen⟩ := vt
  obtain rfl : mode = .ground := hground
  rfl

theorem feed_carriageReturn (hground : vt.mode = .ground) :
    vt.feed graphemes ['\r'] = vt.apply graphemes Screen.carriageReturn := by
  obtain ⟨mode, text, screen⟩ := vt
  obtain rfl : mode = .ground := hground
  rfl

theorem feed_lineFeed (hground : vt.mode = .ground) :
    vt.feed graphemes ['\n'] = vt.apply graphemes Screen.lineFeed := by
  obtain ⟨mode, text, screen⟩ := vt
  obtain rfl : mode = .ground := hground
  rfl

/-! ## Bytes -/

def encodeText (text : List Char) : List UInt8 :=
  (text.map Char.toNat).flatMap encodePoint

/-- Bytes that are not UTF-8 show nothing. -/
def execute (graphemes : List Char → List (Cell × Nat)) (vt : Vt) (bytes : List UInt8) : Vt :=
  vt.feed graphemes (((decodePoints bytes).getD []).map Char.ofNat)

theorem execute_encodeText (text : List Char) :
    vt.execute graphemes (encodeText text) = vt.feed graphemes text := by
  have hscalars : ∀ n ∈ text.map Char.toNat, isScalar n := by
    intro n hmem
    obtain ⟨character, -, rfl⟩ := List.mem_map.mp hmem
    exact character.valid
  have hsame : (text.map Char.toNat).map Char.ofNat = text := by
    rw [List.map_map]
    exact (List.map_congr_left fun character _ => Char.ofNat_toNat character).trans (List.map_id text)
  rw [execute, encodeText, decodePoints_encodePoints hscalars, Option.getD_some, hsame]

end Vt

end Henji
