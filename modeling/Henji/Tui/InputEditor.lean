import Henji.Json
import Henji.Tui.InputLayout

/-!
# The editor

The text, where the cursor stands in its scalars, and the column that vertical moves keep. Text comes in
through `insert` and `setSnapshot`, and is refused where the editor would hold more than
`MAX_EDITOR_BYTES`.
-/

namespace Henji

def MAX_EDITOR_BYTES : Nat := 64 * 1024

def byteLength (text : List Char) : Nat := (text.map Char.utf8Size).sum

structure TuiEditor where
  value : List Char
  cursor : Nat
  preferredColumn : Option Nat
deriving DecidableEq, Repr

namespace TuiEditor

/-- A new editor. -/
def empty : TuiEditor where
  value := []
  cursor := 0
  preferredColumn := none

def acceptable (text : List Char) : Bool :=
  !text.contains (Char.ofNat 0) && decide (byteLength text ≤ MAX_EDITOR_BYTES)

def clear (_ : TuiEditor) : TuiEditor := empty

/-! Each of the following is `none` where it returns `false` and changes nothing. -/

def setSnapshot (_ : TuiEditor) (text : List Char) (cursorScalar : Nat) : Option TuiEditor :=
  if acceptable text = false ∨ text.length < cursorScalar then none
  else some { value := text, cursor := cursorScalar, preferredColumn := none }

def insert (editor : TuiEditor) (text : List Char) : Option TuiEditor :=
  if acceptable text = false ∨ MAX_EDITOR_BYTES < byteLength editor.value + byteLength text then none
  else some {
    value := editor.value.take editor.cursor ++ text ++ editor.value.drop editor.cursor
    cursor := editor.cursor + text.length
    preferredColumn := none }

def paste (editor : TuiEditor) (text : List Char) : Option TuiEditor := editor.insert text

def backspace (editor : TuiEditor) : Option TuiEditor :=
  if editor.cursor = 0 then none
  else some {
    value := editor.value.eraseIdx (editor.cursor - 1)
    cursor := editor.cursor - 1
    preferredColumn := none }

def moveLeft (editor : TuiEditor) : Option TuiEditor :=
  if editor.cursor = 0 then none
  else some { editor with cursor := editor.cursor - 1, preferredColumn := none }

def moveRight (editor : TuiEditor) : Option TuiEditor :=
  if editor.value.length ≤ editor.cursor then none
  else some { editor with cursor := editor.cursor + 1, preferredColumn := none }

/-- How far the scalars go on without a line feed. -/
def lineReach (points : List Char) : Nat := (points.takeWhile (· ≠ '\n')).length

/-- `home` also drops the column where it returns `false`. -/
def home (editor : TuiEditor) : TuiEditor :=
  { editor with
    cursor := editor.cursor - lineReach (editor.value.take editor.cursor).reverse
    preferredColumn := none }

/-- `end`, which also drops the column where it returns `false`. -/
def finish (editor : TuiEditor) : TuiEditor :=
  { editor with
    cursor := editor.cursor + lineReach (editor.value.drop editor.cursor)
    preferredColumn := none }

def moveVertical (unicode : Segmentation) (columns : Nat) (editor : TuiEditor)
    (direction : Direction) : Option TuiEditor :=
  (moveEditorCursorVertically unicode editor.value editor.cursor columns direction
    editor.preferredColumn).map fun moved =>
      { editor with cursor := moved.cursor, preferredColumn := some moved.preferredColumn }

/-- The text to send, when it is not blank. -/
def submit (editor : TuiEditor) : Option (List Char) :=
  if editor.value.all fun character => isTrimmed character.toNat then none else some editor.value

/-- Vertical moves in a row. -/
def moveRepeatedly (unicode : Segmentation) (columns : Nat) (directions : List Direction)
    (editor : TuiEditor) : Option TuiEditor :=
  directions.foldlM (moveVertical unicode columns) editor

/-- The rows and the cursor that are displayed. -/
def layout (unicode : Segmentation) (columns : Nat) (editor : TuiEditor) : EditorLayout :=
  layoutEditorText unicode editor.value editor.cursor columns

end TuiEditor

end Henji
