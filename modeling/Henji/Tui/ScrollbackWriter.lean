import Henji.Library.Terminal
import Henji.Tui.TerminalText

/-!
# The scrollback writer

Committed rows are written once, and the live band behind them is redrawn. The writer knows the rows
and the cursor of the band that it wrote last; it goes to the head of that band, erases its rows and
writes on from there. Rows at the head of the band that stay the same above the cursor are not
written again.
-/

namespace Henji

structure FrameCursor where
  row : Nat
  cell : Nat
deriving DecidableEq, Repr

structure FrameSize where
  columns : Nat
  rows : Nat
deriving DecidableEq, Repr

/-- A normal-screen append plus the rows that may still be updated. -/
structure ScrollbackFrame where
  committedRows : List (List Char)
  liveRows : List (List Char)
  cursor : FrameCursor
  size : FrameSize
deriving DecidableEq, Repr

def LINE_END : List Char := ['\r', '\n']

def ERASE_LINE : List Char := [ESC, '[', '2', 'K']

def SAVE_CURSOR : List Char := [ESC, '7']

def RESTORE_CURSOR : List Char := [ESC, '8']

/-- A control sequence with a number, where the number is not zero. -/
def motion (final : Char) (count : Nat) : List Char :=
  if 0 < count then ESC :: '[' :: (Vt.decimal count ++ [final]) else []

def moveUp (rows : Nat) : List Char := motion 'A' rows

def moveDown (rows : Nat) : List Char := motion 'B' rows

def moveRight (cells : Nat) : List Char := motion 'C' cells

def isSgrParameter (character : Char) : Bool := character.isDigit || character == ';'

/-- How long the match of `\[[0-9;]*m` behind an escape character is. -/
def sgrLength : List Char → Option Nat
  | '[' :: rest =>
    if (rest.dropWhile isSgrParameter).head? = some 'm' then
      some ((rest.takeWhile isSgrParameter).length + 2)
    else none
  | _ => none

/-- The text behind the characters of a match that are still to be dropped. -/
def stripSgrFrom : Nat → List Char → List Char
  | _, [] => []
  | skip + 1, _ :: text => stripSgrFrom skip text
  | 0, character :: text =>
    if character = ESC then
      match sgrLength text with
      | some length => stripSgrFrom length text
      | none => character :: stripSgrFrom 0 text
    else character :: stripSgrFrom 0 text

def stripSgr (text : List Char) : List Char := stripSgrFrom 0 text

section Writer

variable (unicode : Segmentation)

/-- The sum of `Math.max(1, Math.ceil(cellWidth(stripSgr(row)) / columns))`. -/
def reflowHeight (rows : List (List Char)) (columns : Nat) : Nat :=
  (rows.map fun row =>
    max 1 ((cellWidth unicode (stripSgr row) + columns - 1) / columns)).sum

def clearLiveBand (cursorOffset visibleRows : Nat) : List Char :=
  moveUp cursorOffset ++ ['\r'] ++ SAVE_CURSOR ++
    (List.range visibleRows).flatMap (fun row =>
      ERASE_LINE ++ if row + 1 < visibleRows then moveDown 1 else []) ++
    RESTORE_CURSOR ++ ['\r']

/-- What the writer remembers of the frame that it wrote last. -/
structure PreviousFrame where
  liveRows : List (List Char)
  cursor : FrameCursor
  size : FrameSize
deriving DecidableEq, Repr

/-- The rows at the head of both bands that are the same. -/
def retainedRows (previous : PreviousFrame) (frame : ScrollbackFrame) : Nat :=
  let prefixLimit := min previous.cursor.row frame.cursor.row
  ((List.range prefixLimit).takeWhile fun row =>
    previous.liveRows[row]? == frame.liveRows[row]?).length

def writeLiveRows : List (List Char) → List Char
  | [] => []
  | [row] => row
  | row :: next :: rows => row ++ LINE_END ++ writeLiveRows (next :: rows)

/-- The bytes of one call of `write`, when it writes, and what it remembers. -/
def writeFrame (previous : Option PreviousFrame) (frame : ScrollbackFrame) :
    Option (List UInt8) × PreviousFrame :=
  let remembered : PreviousFrame := ⟨frame.liveRows, frame.cursor, frame.size⟩
  if frame.committedRows = [] ∧ previous = some remembered then (none, remembered)
  else
    let retainedPrefix :=
      match previous with
      | some previous =>
        if frame.committedRows = [] ∧ previous.size = frame.size then retainedRows previous frame
        else 0
      | none => 0
    let nextLiveRows := frame.liveRows.drop retainedPrefix
    let nextCursorRow := frame.cursor.row - retainedPrefix
    let clear :=
      match previous with
      | none => '\r' :: ERASE_LINE
      | some previous =>
        let previousRows := previous.liveRows.drop retainedPrefix
        let previousCursorRow := previous.cursor.row - retainedPrefix
        let cursorOffset :=
          reflowHeight unicode (previousRows.take previousCursorRow) frame.size.columns +
            previous.cursor.cell / frame.size.columns
        let visibleRows := min (reflowHeight unicode previousRows frame.size.columns) frame.size.rows
        clearLiveBand cursorOffset visibleRows
    let output := clear ++ frame.committedRows.flatMap (· ++ LINE_END) ++
      writeLiveRows nextLiveRows ++ ['\r'] ++ moveUp (nextLiveRows.length - 1 - nextCursorRow) ++
      moveRight frame.cursor.cell
    (some (Vt.encodeText output), remembered)

end Writer

end Henji
