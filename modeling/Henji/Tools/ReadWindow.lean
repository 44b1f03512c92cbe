import Henji.Library.Utf8Stream

/-!
# Reading a file by windows of lines

`readWindow` streams a file, selects complete lines from an offset on while they fit a result, goes
on counting lines, and then gives lines back until the marker that tells the next offset fits too.

A text is a list of code points. The path check and failures of the file system are left out: a call
is given by the chunks that the reads return.
-/

namespace Henji.ReadTool

abbrev Text := List Nat

def MAX_TEXT_BYTES : Nat := 65536

def byteLength (text : Text) : Nat := (text.flatMap encodePoint).length

inductive ReadError where
  /-- `file is not valid UTF-8 text`. -/
  | notText
  /-- `line ${lineNumber} exceeds 64 KiB read result limit`. -/
  | lineTooLong (lineNumber : Nat)
deriving DecidableEq, Repr

structure ReadState where
  selected : List Text
  selectedBytes : Nat
  totalLines : Nat
  line : Text
  lineBytes : Nat
  linePresent : Bool
  selectionClosed : Bool

def ReadState.start : ReadState := ⟨[], 0, 0, [], 0, false, false⟩

section Stream

variable (offset : Nat) (limit : Option Nat)

def finishLine (s : ReadState) : Except ReadError ReadState :=
  let lineNumber := s.totalLines + 1
  let next := { s with totalLines := lineNumber, line := [], lineBytes := 0, linePresent := false }
  if s.selectionClosed = false ∧ offset ≤ lineNumber ∧ ∀ n ∈ limit, s.selected.length < n then
    if MAX_TEXT_BYTES < s.lineBytes then .error (.lineTooLong lineNumber)
    else if s.selectedBytes + s.lineBytes ≤ MAX_TEXT_BYTES then
      .ok { next with
        selected := s.selected ++ [s.line]
        selectedBytes := s.selectedBytes + s.lineBytes }
    else .ok { next with selectionClosed := true }
  else .ok next

/-- A line that is too long to be selected is no longer collected. -/
def consumeCharacter (s : ReadState) (character : Nat) : Except ReadError ReadState :=
  if character = 0 then .error .notText
  else
    let lineBytes := s.lineBytes + (encodePoint character).length
    let s := { s with
      linePresent := true
      lineBytes := lineBytes
      line := if lineBytes ≤ MAX_TEXT_BYTES + 1 then s.line ++ [character] else s.line }
    if character = 0x0a then finishLine offset limit s else .ok s

def consume (text : Text) (s : ReadState) : Except ReadError ReadState :=
  text.foldlM (consumeCharacter offset limit) s

/-- What the fatal decoder returns; malformed bytes make it throw. -/
def accepted (outputs : List (Option Nat)) : Except ReadError Text :=
  if outputs.all Option.isSome then .ok (outputs.filterMap id) else .error .notText

def readChunks : List (List UInt8) → PendingPoint → ReadState → Except ReadError ReadState
  | [], pending, s => do
    let text ← accepted pending.flush
    let s ← consume offset limit text s
    if s.linePresent then finishLine offset limit s else .ok s
  | chunk :: chunks, pending, s => do
    let text ← accepted (Mealy.run PendingPoint.step chunk pending).1
    let s ← consume offset limit text s
    readChunks chunks (Mealy.run PendingPoint.step chunk pending).2 s

end Stream

/-! ## The result -/

def ascii (text : String) : Text := text.toList.map Char.toNat

def marker (offset last total next : Nat) : Text :=
  ascii "[Showing lines " ++ ascii (toString offset) ++ ascii "-" ++ ascii (toString last) ++
    ascii " of " ++ ascii (toString total) ++ ascii ". Use offset=" ++ ascii (toString next) ++
    ascii " to continue.]"

/-- Some lines, and the number of all lines where more remain. -/
structure Window where
  lines : List Text
  total : Option Nat
deriving DecidableEq

namespace Window

/-- The offset that the marker tells. -/
def next (offset : Nat) (window : Window) : Nat := offset + window.lines.length

def text (offset : Nat) (window : Window) : Text :=
  let text := window.lines.flatten
  match window.total with
  | none => text
  | some total =>
    let separator := if text.getLast? = some 0x0a then [0x0a] else [0x0a, 0x0a]
    text ++ separator ++ marker offset (window.next offset - 1) total (window.next offset)

end Window

/-- Lines are given back, the last first, until the marker fits. -/
def fitMarker (offset totalLines : Nat) : List Text → Except ReadError Window
  | [] =>
    if offset ≤ totalLines then .error (.lineTooLong offset) else .ok ⟨[], none⟩
  | last :: earlier =>
    let selected := (last :: earlier).reverse
    if offset + selected.length ≤ totalLines then
      let window : Window := ⟨selected, some totalLines⟩
      if byteLength (window.text offset) ≤ MAX_TEXT_BYTES then .ok window
      else fitMarker offset totalLines earlier
    else .ok ⟨selected, none⟩

def readWindow (chunks : List (List UInt8)) (offset : Nat) (limit : Option Nat) :
    Except ReadError Window := do
  let s ← readChunks offset limit chunks .ready .start
  fitMarker offset s.totalLines s.selected.reverse

/-! ## Reading on -/

inductive Outcome where
  | finished
  | failed (error : ReadError)
  | running
deriving DecidableEq, Repr

/-- What a caller gets that reads on at the offset of each marker, for some calls. -/
def follow (chunks : Nat → List (List UInt8)) (limits : Nat → Option Nat) :
    Nat → Nat → Nat → List Window × Outcome
  | 0, _, _ => ([], .running)
  | calls + 1, index, offset =>
    match readWindow (chunks index) offset (limits index) with
    | .error error => ([], .failed error)
    | .ok window =>
      match window.total with
      | none => ([window], .finished)
      | some _ =>
        let (windows, outcome) := follow chunks limits calls (index + 1) (window.next offset)
        (window :: windows, outcome)

end Henji.ReadTool
