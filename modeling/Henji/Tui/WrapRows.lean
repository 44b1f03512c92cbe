import Henji.Json
import Henji.Tui.TerminalText

/-!
# The rows of a source line

A range of a line is measured grapheme by grapheme and cut into rows, at any grapheme or at white
space. Rows are laid out when they are asked for, and kept. A scalar that joins nothing is measured
without the segmentation of the host. Offsets count scalars.
-/

namespace Henji

/-- `code.toString(16).length`. -/
def hexLength (code : Nat) : Nat := (Nat.toDigits 16 code).length

def escapedScalarWidth (character : Char) : Nat :=
  let code := character.toNat
  if code = 0x09 then 1
  else if decide (code < 0x20) || code == 0x7f || decide (0x80 ≤ code ∧ code ≤ 0x9f) ||
      ESCAPED_BIDI code then max 4 (hexLength code) + 4
  else scalarCellWidth character

def potentiallyJoined (code : Nat) : Bool :=
  code == 0x200d || decide (0xfe00 ≤ code ∧ code ≤ 0xfe0f) ||
    decide (0xe0100 ≤ code ∧ code ≤ 0xe01ef) || decide (0x1f1e6 ≤ code ∧ code ≤ 0x1f1ff) ||
    decide (0x1100 ≤ code ∧ code ≤ 0x11ff) || decide (0xa960 ≤ code ∧ code ≤ 0xa97f) ||
    decide (0xd7b0 ≤ code ∧ code ≤ 0xd7ff) || decide (0x0600 ≤ code ∧ code ≤ 0x0605) ||
    code == 0x06dd || code == 0x070f || decide (0x0890 ≤ code ∧ code ≤ 0x0891) || code == 0x08e2

section Rows

variable (unicode : Segmentation)

/-- The scalars that are not measured alone. -/
def mayJoin (character : Char) : Bool :=
  potentiallyJoined character.toNat || unicode.isMark character || isEmojiModifier character ||
    isEmojiTag character

structure ProjectedSegment where
  end_ : Nat
  width : Nat
deriving DecidableEq, Repr

/-- Measures one grapheme. There is no scalar at the offset behind the text only. -/
def projectedSegmentAt (text : List Char) (offset end_ : Nat) : ProjectedSegment :=
  match text[offset]? with
  | none => ⟨end_, 0⟩
  | some character =>
    let nextOffset := offset + 1
    let needsSegmenter := mayJoin unicode character ||
      (decide (nextOffset < end_) && text[nextOffset]?.any (mayJoin unicode))
    if needsSegmenter = false then ⟨nextOffset, escapedScalarWidth character⟩
    else
      match unicode.segment ((text.drop offset).take (end_ - offset)) with
      | [] => ⟨end_, 0⟩
      | first :: _ => ⟨offset + first.length, displayCells unicode first⟩

theorem projectedSegmentAt_progress (text : List Char) {offset end_ : Nat} (h : offset < end_) :
    offset < (projectedSegmentAt unicode text offset end_).end_ := by
  rw [projectedSegmentAt]
  split
  · exact h
  · dsimp only
    split
    · exact Nat.lt_succ_self offset
    · split
      · exact h
      · next first rest hsegment =>
        have hne := unicode.segment_ne_nil _ first (hsegment ▸ List.mem_cons_self)
        exact Nat.lt_add_of_pos_right (List.length_pos_iff.mpr hne)

/-! ## Hard rows -/

/-- The loop of `nextHardBoundary`. -/
def hardBoundaryFrom (source : List Char) (lineStart absoluteEnd width used end_ position : Nat) :
    Nat :=
  if h : position < absoluteEnd then
    let part := projectedSegmentAt unicode source position absoluteEnd
    if 0 < used ∧ width < used + part.width then position - lineStart
    else
      have := projectedSegmentAt_progress unicode source h
      hardBoundaryFrom source lineStart absoluteEnd width (used + part.width) (part.end_ - lineStart)
        part.end_
  else end_
termination_by absoluteEnd - position

def nextHardBoundary (source : List Char) (sourceStart sourceEnd lineStart width : Nat) : Nat :=
  if sourceEnd ≤ sourceStart then sourceEnd
  else hardBoundaryFrom unicode source lineStart (lineStart + sourceEnd) width 0 sourceStart
    (lineStart + sourceStart)

/-! ## Words -/

structure WrapSlice where
  start : Nat
  end_ : Nat
  next : Nat
deriving DecidableEq, Repr

structure RunMeasurement where
  end_ : Nat
  width : Nat
  complete : Bool
deriving DecidableEq, Repr

/-- `/^\s+$/u` of the text between two offsets. -/
def isWhitespaceBetween (source : List Char) (position end_ : Nat) : Bool :=
  let text := (source.drop position).take (end_ - position)
  !text.isEmpty && text.all fun character => isTrimmed character.toNat

/-- A width that has no limit is `none`. -/
def exceeds (maxWidth : Option Nat) (width : Nat) : Bool := maxWidth.any (· < width)

/-- The loop of `scanRun`. -/
def scanRunFrom (source : List Char) (lineStart absoluteEnd : Nat) (whitespace : Bool)
    (maxWidth : Option Nat) (end_ used position : Nat) : RunMeasurement :=
  if h : position < absoluteEnd then
    let part := projectedSegmentAt unicode source position absoluteEnd
    if isWhitespaceBetween source position part.end_ ≠ whitespace then ⟨end_, used, true⟩
    else if exceeds maxWidth (used + part.width) then ⟨end_, used, false⟩
    else
      have := projectedSegmentAt_progress unicode source h
      scanRunFrom source lineStart absoluteEnd whitespace maxWidth (part.end_ - lineStart)
        (used + part.width) part.end_
  else ⟨end_, used, true⟩
termination_by absoluteEnd - position

def scanRun (source : List Char) (lineStart runStart sourceEnd : Nat) (whitespace : Bool)
    (maxWidth : Option Nat) : RunMeasurement :=
  scanRunFrom unicode source lineStart (lineStart + sourceEnd) whitespace maxWidth runStart 0
    (lineStart + runStart)

theorem scanRunFrom_end_le (source : List Char) (lineStart absoluteEnd : Nat) (whitespace : Bool)
    (maxWidth : Option Nat) {end_ used position : Nat} (h : lineStart + end_ = position) :
    end_ ≤ (scanRunFrom unicode source lineStart absoluteEnd whitespace maxWidth end_ used
      position).end_ := by
  fun_induction scanRunFrom unicode source lineStart absoluteEnd whitespace maxWidth end_ used
    position with
  | case1 => exact Nat.le_refl _
  | case2 => exact Nat.le_refl _
  | case3 end_ used position hinside part hkind hroom hprogress ih =>
    have hafter : position < part.end_ := hprogress
    have hmove : lineStart + (part.end_ - lineStart) = part.end_ := by omega
    have hend : end_ ≤ part.end_ - lineStart := by omega
    exact Nat.le_trans hend (ih hmove)
  | case4 => exact Nat.le_refl _

theorem scanRun_end_le (source : List Char) (lineStart runStart sourceEnd : Nat) (whitespace : Bool)
    (maxWidth : Option Nat) :
    runStart ≤
      (scanRun unicode source lineStart runStart sourceEnd whitespace maxWidth).end_ :=
  scanRunFrom_end_le unicode source lineStart _ whitespace maxWidth rfl

/-- The loop of `nextWordSlice` behind the first word of a row. -/
def wordsFrom (source : List Char) (sourceEnd lineStart width rowStart used position : Nat) :
    WrapSlice :=
  if position < sourceEnd then
    let whitespace := scanRun unicode source lineStart position sourceEnd true none
    if hnone : whitespace.end_ = position then ⟨rowStart, position, position⟩
    else if sourceEnd ≤ whitespace.end_ then
      if used + whitespace.width ≤ width then ⟨rowStart, whitespace.end_, whitespace.end_⟩
      else ⟨rowStart, position, whitespace.end_⟩
    else
      let nextToken := scanRun unicode source lineStart whitespace.end_ sourceEnd false
        (some (width - used - whitespace.width))
      if nextToken.complete = false then ⟨rowStart, position, whitespace.end_⟩
      else if nextToken.end_ = whitespace.end_ then ⟨rowStart, position, whitespace.end_⟩
      else
        have hspaces : position ≤ whitespace.end_ := scanRun_end_le unicode source lineStart _ _ _ _
        have hword : whitespace.end_ ≤ nextToken.end_ :=
          scanRun_end_le unicode source lineStart _ _ _ _
        have : position < nextToken.end_ :=
          Nat.lt_of_lt_of_le (Nat.lt_of_le_of_ne hspaces (Ne.symm hnone)) hword
        wordsFrom source sourceEnd lineStart width rowStart
          (used + (whitespace.width + nextToken.width)) nextToken.end_
  else ⟨rowStart, position, position⟩
termination_by sourceEnd - position
decreasing_by exact Nat.sub_lt_sub_left ‹position < sourceEnd› ‹_›

def nextWordSlice (source : List Char) (nextSource sourceEnd lineStart width : Nat) : WrapSlice :=
  if sourceEnd ≤ nextSource then ⟨sourceEnd, sourceEnd, sourceEnd⟩
  else
    let leading := scanRun unicode source lineStart nextSource sourceEnd true none
    let rowStart := if nextSource < leading.end_ then leading.end_ else nextSource
    if sourceEnd ≤ rowStart then ⟨sourceEnd, sourceEnd, sourceEnd⟩
    else
      let firstToken := scanRun unicode source lineStart rowStart sourceEnd false (some width)
      -- A grapheme wider than the available body cells still advances alone.
      let alone :=
        (projectedSegmentAt unicode source (lineStart + rowStart) (lineStart + sourceEnd)).end_ -
          lineStart
      if firstToken.complete = false then
        if rowStart < firstToken.end_ then ⟨rowStart, firstToken.end_, firstToken.end_⟩
        else ⟨rowStart, alone, alone⟩
      else if firstToken.end_ = rowStart then ⟨rowStart, alone, alone⟩
      else wordsFrom unicode source sourceEnd lineStart width rowStart firstToken.width firstToken.end_

/-! ## Layouts -/

/-- The rows of a range that have been measured. -/
structure WrapLayout where
  boundaries : List Nat
  ends : List Nat
  nextSource : Nat
  complete : Bool
deriving DecidableEq, Repr

/-- The layout that `getWrapLayout` starts. -/
def newWrapLayout (sourceStart : Nat) : WrapLayout where
  boundaries := []
  ends := []
  nextSource := sourceStart
  complete := false

/-- A line of the source, from an offset on, and the part of it that is wrapped. -/
structure WrapRange where
  lineStart : Nat
  sourceStart : Nat
  sourceEnd : Nat
deriving DecidableEq, Repr

def nextSlice (source : List Char) (range : WrapRange) (limit : Nat) (wordAware : Bool)
    (start : Nat) : WrapSlice :=
  if wordAware then nextWordSlice unicode source start range.sourceEnd range.lineStart limit
  else
    let end_ := nextHardBoundary unicode source start range.sourceEnd range.lineStart limit
    ⟨start, end_, end_⟩

/-- The body of the loop of `ensureWrapRow`: one more row. -/
def nextWrapRow (source : List Char) (range : WrapRange) (limit : Nat) (wordAware : Bool)
    (layout : WrapLayout) : WrapLayout :=
  let start := layout.nextSource
  if range.sourceStart = range.sourceEnd then
    { layout with
      boundaries := layout.boundaries ++ [range.sourceStart]
      ends := layout.ends ++ [range.sourceEnd]
      complete := true }
  else
    let slice := nextSlice unicode source range limit wordAware start
    if slice.next ≤ start then
      { boundaries := layout.boundaries ++ [start]
        ends := layout.ends ++ [range.sourceEnd]
        nextSource := range.sourceEnd
        complete := true }
    else
      { boundaries := layout.boundaries ++ [slice.start]
        ends := layout.ends ++ [slice.end_]
        nextSource := slice.next
        complete := layout.complete || decide (range.sourceEnd ≤ slice.next) }

theorem length_ends_nextWrapRow (source : List Char) (range : WrapRange) (limit : Nat)
    (wordAware : Bool) (layout : WrapLayout) :
    (nextWrapRow unicode source range limit wordAware layout).ends.length = layout.ends.length + 1 := by
  rw [nextWrapRow]
  dsimp only
  split
  · exact List.length_append
  · split <;> exact List.length_append

/-- Rows are measured until there is the row asked for. -/
def ensureWrapRow (source : List Char) (range : WrapRange) (width : Nat) (wordAware : Bool)
    (row : Nat) (layout : WrapLayout) : WrapLayout :=
  if layout.complete = false ∧ layout.ends.length ≤ row then
    have := length_ends_nextWrapRow unicode source range (max 1 width) wordAware layout
    ensureWrapRow source range width wordAware row
      (nextWrapRow unicode source range (max 1 width) wordAware layout)
  else layout
termination_by row + 1 - layout.ends.length

/-- One more row measures one. -/
theorem ensureWrapRow_next (source : List Char) (range : WrapRange) (width : Nat) (wordAware : Bool)
    {layout : WrapLayout} (h : layout.complete = false) :
    ensureWrapRow unicode source range width wordAware layout.ends.length layout =
      nextWrapRow unicode source range (max 1 width) wordAware layout := by
  rw [ensureWrapRow, if_pos ⟨h, Nat.le_refl _⟩, ensureWrapRow, if_neg]
  rw [length_ends_nextWrapRow]
  exact fun hmore => Nat.not_succ_le_self _ hmore.2

/-- What is left to measure. -/
def WrapLayout.left (layout : WrapLayout) (sourceEnd : Nat) : Nat :=
  if layout.complete then 0 else sourceEnd - layout.nextSource + 1

theorem nextWrapRow_left (source : List Char) (range : WrapRange) (limit : Nat) (wordAware : Bool)
    {layout : WrapLayout} (h : layout.complete = false) :
    (nextWrapRow unicode source range limit wordAware layout).left range.sourceEnd <
      layout.left range.sourceEnd := by
  have hpositive : layout.left range.sourceEnd = range.sourceEnd - layout.nextSource + 1 := by
    rw [WrapLayout.left, h]
    rfl
  rw [hpositive, nextWrapRow]
  dsimp only
  split
  · exact Nat.succ_pos _
  · split
    · exact Nat.succ_pos _
    · next hprogress =>
      generalize nextSlice unicode source range limit wordAware layout.nextSource = slice at *
      rw [WrapLayout.left, h, Bool.false_or]
      by_cases hall : range.sourceEnd ≤ slice.next
      · rw [if_pos (decide_eq_true hall)]
        exact Nat.succ_pos _
      · rw [if_neg (by simpa using hall)]
        dsimp only
        omega

def ensureAllWrapRows (source : List Char) (range : WrapRange) (width : Nat) (wordAware : Bool)
    (layout : WrapLayout) : WrapLayout :=
  if h : layout.complete = false then
    have := ensureWrapRow_next unicode source range width wordAware h ▸
      nextWrapRow_left unicode source range (max 1 width) wordAware h
    ensureAllWrapRows source range width wordAware
      (ensureWrapRow unicode source range width wordAware layout.ends.length layout)
  else layout
termination_by layout.left range.sourceEnd

end Rows

end Henji
