import Henji.Tui.WrapRows

/-!
# What wrapping shows

The loops of the wrapping walk over the measured parts of a range. One more row cuts a row off these
parts, with white space before and behind it; a whole layout cuts them all. Where the measure agrees
with the terminal, rows begin and end at graphemes and are as wide as they were measured.
-/

namespace Henji

variable (unicode : Segmentation)

/-! ## Measured parts -/

/-- A measured part of a text. -/
structure Part where
  text : List Char
  width : Nat
deriving DecidableEq, Repr

def Part.isSpace (part : Part) : Bool :=
  !part.text.isEmpty && part.text.all fun character => isTrimmed character.toNat

/-- What is measured at the head of a text. -/
def firstPart : List Char → Part
  | [] => ⟨[], 0⟩
  | character :: rest =>
    if (mayJoin unicode character || rest.head?.any (mayJoin unicode)) = false then
      ⟨[character], escapedScalarWidth character⟩
    else
      match unicode.segment (character :: rest) with
      | [] => ⟨character :: rest, 0⟩
      | first :: _ => ⟨first, displayCells unicode first⟩

theorem firstPart_spec {text : List Char} (h : text ≠ []) :
    (firstPart unicode text).text ≠ [] ∧ (firstPart unicode text).text <+: text := by
  obtain ⟨character, rest, rfl⟩ := List.exists_cons_of_ne_nil h
  rw [firstPart]
  split
  · exact ⟨List.cons_ne_nil _ _, rest, rfl⟩
  · split
    · exact ⟨h, List.prefix_rfl⟩
    · next first others hsegment =>
      refine ⟨unicode.segment_ne_nil _ first (hsegment ▸ List.mem_cons_self), ?_⟩
      have hflatten := unicode.flatten_segment (character :: rest)
      rw [hsegment, List.flatten_cons] at hflatten
      exact ⟨others.flatten, hflatten⟩

theorem firstPart_rest {text : List Char} (h : text ≠ []) :
    (firstPart unicode text).text ++ text.drop (firstPart unicode text).text.length = text := by
  obtain ⟨rest, hrest⟩ := (firstPart_spec unicode h).2
  generalize (firstPart unicode text).text = first at hrest ⊢
  subst hrest
  rw [List.drop_left]

/-- The parts of a text, one behind the other. -/
def parts (text : List Char) : List Part :=
  if h : text = [] then []
  else
    have := List.length_pos_iff.mpr (firstPart_spec unicode h).1
    have := List.length_pos_iff.mpr h
    firstPart unicode text :: parts (text.drop (firstPart unicode text).text.length)
termination_by text.length
decreasing_by
  rw [List.length_drop]
  omega

def partsText (parts : List Part) : List Char := parts.flatMap Part.text

def totalCells (parts : List Part) : Nat := (parts.map Part.width).sum

@[simp] theorem partsText_nil : partsText [] = [] := rfl

@[simp] theorem partsText_cons (part : Part) (parts : List Part) :
    partsText (part :: parts) = part.text ++ partsText parts := rfl

@[simp] theorem partsText_append (front behind : List Part) :
    partsText (front ++ behind) = partsText front ++ partsText behind := List.flatMap_append

@[simp] theorem totalCells_nil : totalCells [] = 0 := rfl

@[simp] theorem totalCells_cons (part : Part) (parts : List Part) :
    totalCells (part :: parts) = part.width + totalCells parts := by
  rw [totalCells, List.map_cons, List.sum_cons, totalCells]

@[simp] theorem totalCells_append (front behind : List Part) :
    totalCells (front ++ behind) = totalCells front + totalCells behind := by
  rw [totalCells, List.map_append, List.sum_append, totalCells, totalCells]

theorem parts_of_ne_nil {text : List Char} (h : text ≠ []) :
    parts unicode text =
      firstPart unicode text :: parts unicode (text.drop (firstPart unicode text).text.length) := by
  rw [parts, dif_neg h]

/-- Nothing of a text is left out. -/
theorem partsText_parts (text : List Char) : partsText (parts unicode text) = text := by
  fun_induction parts unicode text with
  | case1 => rfl
  | case2 text h hfirst htext ih => rw [partsText_cons, ih, firstPart_rest unicode h]

theorem parts_eq_nil {text : List Char} (h : parts unicode text = []) : text = [] := by
  rw [← partsText_parts unicode text, h, partsText_nil]

/-- The parts behind a part are those of the text behind it. -/
theorem parts_behind {text : List Char} {front behind : List Part}
    (h : parts unicode text = front ++ behind) : parts unicode (partsText behind) = behind := by
  induction front generalizing text with
  | nil => rw [← List.nil_append behind, ← h, partsText_parts]
  | cons part front ih =>
    have hne : text ≠ [] := by
      rintro rfl
      rw [parts, dif_pos rfl] at h
      exact absurd h (by simp)
    rw [parts_of_ne_nil unicode hne] at h
    exact ih (List.cons.inj h).2

theorem part_ne_nil {text : List Char} {part : Part} (h : part ∈ parts unicode text) :
    part.text ≠ [] := by
  fun_induction parts unicode text with
  | case1 => exact absurd h List.not_mem_nil
  | case2 text htext hfirst hlength ih =>
    rcases List.mem_cons.mp h with rfl | hrest
    · exact (firstPart_spec unicode htext).1
    · exact ih hrest

/-! ## Offsets -/

/-- The part of the source between two offsets. -/
def between (source : List Char) (start end_ : Nat) : List Char :=
  (source.drop start).take (end_ - start)

/-- What lies between an offset and the end of a range, in parts. -/
structure Ahead (source : List Char) (position absoluteEnd : Nat) (rest : List Part) : Prop where
  inside : absoluteEnd ≤ source.length
  length : position + (partsText rest).length = absoluteEnd
  text : between source position absoluteEnd = partsText rest
  parts : parts unicode (partsText rest) = rest

section Ahead

variable {unicode} {source : List Char} {position absoluteEnd : Nat} {rest : List Part}

theorem Ahead.of_range {start end_ : Nat} (horder : start ≤ end_) (hinside : end_ ≤ source.length) :
    Ahead unicode source start end_ (Henji.parts unicode (between source start end_)) where
  inside := hinside
  length := by
    rw [partsText_parts, between, List.length_take, List.length_drop]
    omega
  text := (partsText_parts unicode _).symm
  parts := by rw [partsText_parts]

theorem Ahead.le (h : Ahead unicode source position absoluteEnd rest) : position ≤ absoluteEnd := by
  have hlength := h.length
  omega

/-- Behind some parts of a range. -/
theorem Ahead.append {front : List Part} (h : Ahead unicode source position absoluteEnd (front ++ rest)) :
    Ahead unicode source (position + (partsText front).length) absoluteEnd rest where
  inside := h.inside
  length := by
    have hlength := h.length
    rw [partsText_append, List.length_append] at hlength
    omega
  text := by
    have htext := congrArg (List.drop (partsText front).length) h.text
    rw [between, List.drop_take, List.drop_drop, partsText_append, List.drop_left] at htext
    rw [between, ← htext, Nat.sub_sub]
  parts := parts_behind unicode h.parts

/-- The text of some parts at the head of a range. -/
theorem Ahead.front {front : List Part} (h : Ahead unicode source position absoluteEnd (front ++ rest)) :
    between source position (position + (partsText front).length) = partsText front := by
  have hlength := h.length
  rw [partsText_append, List.length_append] at hlength
  have hfits : (partsText front).length ≤ absoluteEnd - position := by omega
  have htext := congrArg (List.take (partsText front).length) h.text
  rw [between, List.take_take, partsText_append, List.take_left, Nat.min_eq_left hfits] at htext
  rw [between, Nat.add_sub_cancel_left]
  exact htext

theorem Ahead.nil (h : Ahead unicode source position absoluteEnd []) : absoluteEnd = position :=
  h.length.symm

/-- The measure of the source at an offset is the first part of the rest. -/
theorem Ahead.cons {part : Part} (h : Ahead unicode source position absoluteEnd (part :: rest)) :
    position < absoluteEnd ∧
      projectedSegmentAt unicode source position absoluteEnd =
        ⟨position + part.text.length, part.width⟩ ∧
      Ahead unicode source (position + part.text.length) absoluteEnd rest ∧
      isWhitespaceBetween source position (position + part.text.length) = part.isSpace := by
  have hne : part.text ≠ [] := part_ne_nil unicode (h.parts ▸ List.mem_cons_self)
  have hlength := h.length
  rw [partsText_cons, List.length_append] at hlength
  have hpositive := List.length_pos_iff.mpr hne
  have hone : Ahead unicode source position absoluteEnd ([part] ++ rest) := h
  have hbehind : Ahead unicode source (position + (partsText [part]).length) absoluteEnd rest :=
    hone.append
  have hfront : between source position (position + (partsText [part]).length) = partsText [part] :=
    hone.front
  have htextOne : partsText [part] = part.text := by
    rw [partsText_cons, partsText_nil, List.append_nil]
  rw [htextOne] at hbehind hfront
  refine ⟨by omega, ?_, hbehind, ?_⟩
  · have htext := h.text
    have hnonempty : partsText (part :: rest) ≠ [] := by
      rw [partsText_cons]
      exact List.append_ne_nil_of_left_ne_nil hne _
    have hpart : firstPart unicode (partsText (part :: rest)) = part := by
      have hparts := h.parts
      rw [parts_of_ne_nil unicode hnonempty] at hparts
      exact (List.cons.inj hparts).1
    rw [← htext] at hpart hnonempty
    have hinside : position < source.length := by
      have hend := h.inside
      omega
    have hslice : between source position absoluteEnd = source[position] ::
        between source (position + 1) absoluteEnd := by
      rw [between, List.drop_eq_getElem_cons hinside, between,
        show absoluteEnd - position = absoluteEnd - (position + 1) + 1 by omega, List.take_succ_cons]
    have hnext : (between source (position + 1) absoluteEnd).head?.any (mayJoin unicode) =
        (decide (position + 1 < absoluteEnd) && source[position + 1]?.any (mayJoin unicode)) := by
      rw [between, List.head?_eq_getElem?, List.getElem?_take]
      by_cases hmore : position + 1 < absoluteEnd
      · rw [if_pos (by omega), List.getElem?_drop, decide_eq_true hmore]
        rfl
      · rw [if_neg (by omega), decide_eq_false hmore]
        rfl
    rw [projectedSegmentAt, List.getElem?_eq_getElem hinside]
    dsimp only
    rw [hslice, firstPart, hnext, ← hslice] at hpart
    rw [← hpart]
    split
    · rfl
    · rw [← between]
      cases hsegment : unicode.segment (between source position absoluteEnd) with
      | nil =>
        have hflatten := unicode.flatten_segment (between source position absoluteEnd)
        rw [hsegment] at hflatten
        exact absurd hflatten.symm hnonempty
      | cons first others => rfl
  · rw [isWhitespaceBetween, ← between, hfront]
    rfl

/-! ## Hard rows -/

/-- What a row takes that is not wider than it may be, or only for its last part. -/
def RowCells (width used : Nat) (row : List Part) : Prop :=
  used + totalCells row ≤ width ∨
    (used = 0 ∧ ∃ zeros part, row = zeros ++ [part] ∧ totalCells zeros = 0 ∧ width < part.width) ∨
    (width < used ∧ row = [])

theorem hardBoundaryFrom_spec (width used : Nat) {lineStart end_ : Nat} (hposition : lineStart + end_ = position)
    (h : Ahead unicode source position absoluteEnd rest) :
    ∃ row after, rest = row ++ after ∧
      hardBoundaryFrom unicode source lineStart absoluteEnd width used end_ position =
        end_ + (partsText row).length ∧
      RowCells width used row ∧ ∀ part ∈ after.head?, 0 < used + totalCells row ∧
        width < used + totalCells row + part.width := by
  induction rest generalizing used end_ position with
  | nil =>
    refine ⟨[], [], rfl, ?_, ?_, by simp⟩
    · rw [hardBoundaryFrom, dif_neg (by rw [h.nil]; exact Nat.lt_irrefl _)]
      rfl
    · rcases Nat.lt_or_ge width used with hwide | hroom
      · exact .inr (.inr ⟨hwide, rfl⟩)
      · exact .inl hroom
  | cons part rest ih =>
    obtain ⟨hinside, hmeasured, hbehind, -⟩ := h.cons
    rw [hardBoundaryFrom, dif_pos hinside]
    dsimp only
    rw [hmeasured]
    dsimp only
    by_cases hbreak : 0 < used ∧ width < used + part.width
    · refine ⟨[], part :: rest, rfl, ?_, ?_, fun next hnext => ?_⟩
      · rw [if_pos hbreak, partsText_nil, List.length_nil]
        omega
      · rcases Nat.lt_or_ge width used with hwide | hroom
        · exact .inr (.inr ⟨hwide, rfl⟩)
        · exact .inl hroom
      · obtain rfl : part = next := Option.some.inj hnext
        exact hbreak
    · rw [if_neg hbreak]
      have hmoved : lineStart + (position + part.text.length - lineStart) =
          position + part.text.length := by omega
      obtain ⟨row, after, hsplit, hend, hcells, hmore⟩ := ih _ hmoved hbehind
      refine ⟨part :: row, after, by rw [hsplit, List.cons_append], ?_, ?_, ?_⟩
      · rw [hend, partsText_cons, List.length_append]
        omega
      · rcases hcells with hroom | ⟨hzero, zeros, last, hrow, hzeros, hwide⟩ | ⟨hwide, hrow⟩
        · refine .inl ?_
          rw [totalCells_cons]
          omega
        · refine .inr (.inl ⟨by omega, part :: zeros, last, by rw [hrow, List.cons_append], ?_, hwide⟩)
          rw [totalCells_cons]
          omega
        · -- The part alone is wider than the row.
          have hused : used = 0 := by omega
          rw [hrow]
          exact .inr (.inl ⟨hused, [], part, rfl, rfl, by omega⟩)
      · rw [totalCells_cons, ← Nat.add_assoc]
        exact hmore

theorem nextHardBoundary_spec (width : Nat) {sourceStart sourceEnd lineStart : Nat}
    (h : Ahead unicode source (lineStart + sourceStart) (lineStart + sourceEnd) rest)
    (hne : rest ≠ []) :
    ∃ row after, rest = row ++ after ∧
      nextHardBoundary unicode source sourceStart sourceEnd lineStart width =
        sourceStart + (partsText row).length ∧ RowCells width 0 row ∧
      ∀ part ∈ after.head?, 0 < totalCells row ∧ width < totalCells row + part.width := by
  obtain ⟨part, others, rfl⟩ := List.exists_cons_of_ne_nil hne
  have hinside := h.cons.1
  obtain ⟨row, after, hsplit, hend, hcells, hmore⟩ :=
    hardBoundaryFrom_spec width 0 rfl h
  rw [Nat.zero_add] at hmore
  refine ⟨row, after, hsplit, ?_, hcells, hmore⟩
  rw [nextHardBoundary, if_neg (by omega)]
  exact hend

/-! ## Runs -/

/-- A run of one kind of parts, up to a width. -/
structure RunOf (whitespace : Bool) (maxWidth : Option Nat) (used : Nat) (rest : List Part)
    (finished : Bool) (run after : List Part) : Prop where
  split : rest = run ++ after
  kind : ∀ part ∈ run, part.isSpace = whitespace
  width : run = [] ∨ exceeds maxWidth (used + totalCells run) = false
  complete : finished = true → ∀ part ∈ after.head?, part.isSpace ≠ whitespace
  more : finished = false → ∃ part ∈ after.head?, part.isSpace = whitespace ∧
    exceeds maxWidth (used + totalCells run + part.width) = true

theorem scanRunFrom_spec {lineStart end_ : Nat} (whitespace : Bool) (maxWidth : Option Nat)
    (used : Nat) (hposition : lineStart + end_ = position)
    (h : Ahead unicode source position absoluteEnd rest) :
    ∃ run after complete, RunOf whitespace maxWidth used rest complete run after ∧
      scanRunFrom unicode source lineStart absoluteEnd whitespace maxWidth end_ used position =
        ⟨end_ + (partsText run).length, used + totalCells run, complete⟩ := by
  induction rest generalizing used end_ position with
  | nil =>
    refine ⟨[], [], true, ⟨rfl, by simp, .inl rfl, by simp, by simp⟩, ?_⟩
    rw [scanRunFrom, dif_neg (by rw [h.nil]; exact Nat.lt_irrefl _)]
    rfl
  | cons part rest ih =>
    obtain ⟨hinside, hmeasured, hbehind, hspace⟩ := h.cons
    rw [scanRunFrom, dif_pos hinside]
    dsimp only
    rw [hmeasured]
    dsimp only
    rw [hspace]
    by_cases hkind : part.isSpace = whitespace
    · rw [if_neg (not_not_intro hkind)]
      by_cases hwide : exceeds maxWidth (used + part.width) = true
      · rw [if_pos hwide]
        exact ⟨[], part :: rest, false, ⟨rfl, by simp, .inl rfl, by simp,
          fun _ => ⟨part, rfl, hkind, hwide⟩⟩, rfl⟩
      · rw [if_neg hwide]
        have hmoved : lineStart + (position + part.text.length - lineStart) =
            position + part.text.length := by omega
        obtain ⟨run, after, complete, hrun, hscan⟩ := ih (used + part.width) hmoved hbehind
        refine ⟨part :: run, after, complete, ⟨?_, ?_, .inr ?_, hrun.complete, ?_⟩, ?_⟩
        · rw [hrun.split, List.cons_append]
        · exact List.forall_mem_cons.mpr ⟨hkind, hrun.kind⟩
        · rw [totalCells_cons, ← Nat.add_assoc]
          rcases hrun.width with rfl | hfits
          · simpa using hwide
          · exact hfits
        · rw [totalCells_cons, ← Nat.add_assoc]
          exact hrun.more
        · rw [hscan, partsText_cons, List.length_append, totalCells_cons]
          congr 1
          · omega
          · omega
    · rw [if_pos hkind]
      exact ⟨[], part :: rest, true, ⟨rfl, by simp, .inl rfl,
        fun _ other hother => by rw [← Option.some.inj hother]; exact hkind, by simp⟩, rfl⟩

theorem scanRun_spec {lineStart runStart sourceEnd : Nat} (whitespace : Bool) (maxWidth : Option Nat)
    (h : Ahead unicode source (lineStart + runStart) (lineStart + sourceEnd) rest) :
    ∃ run after complete, RunOf whitespace maxWidth 0 rest complete run after ∧
      scanRun unicode source lineStart runStart sourceEnd whitespace maxWidth =
        ⟨runStart + (partsText run).length, totalCells run, complete⟩ := by
  obtain ⟨run, after, complete, hrun, hscan⟩ := scanRunFrom_spec whitespace maxWidth 0 rfl h
  refine ⟨run, after, complete, hrun, ?_⟩
  rw [scanRun, hscan, Nat.zero_add]

/-! ## Rows of words -/

/-- A word stands at both ends. -/
structure WordEnds (front : List Part) : Prop where
  first : ∃ part ∈ front.head?, part.isSpace = false
  last : ∃ part ∈ front.getLast?, part.isSpace = false

/-- No part without cells stands where it makes a row too wide: directly before a wide one, or behind
white space that there is no room for. -/
structure Steady (all : List Part) : Prop where
  zero : ∀ before part next after, all = before ++ part :: next :: after → part.width = 0 →
    next.width ≤ 1
  space : ∀ before front spaces part after, all = before ++ (front ++ spaces ++ part :: after) →
    WordEnds front → spaces ≠ [] → (∀ space ∈ spaces, space.isSpace = true) →
    part.isSpace = false → part.width = 0 →
    totalCells front + totalCells spaces ≤ max 1 (totalCells front)

theorem Steady.behind {front all : List Part} (h : Steady (front ++ all)) : Steady all where
  zero before part next after hall :=
    h.zero (front ++ before) part next after (by rw [hall, List.append_assoc])
  space before middle spaces part after hall :=
    h.space (front ++ before) middle spaces part after (by rw [hall, List.append_assoc front])

/-- More words of a row, and the white space behind them that is not shown. -/
structure MoreWords (width used : Nat) (rest row trail after : List Part) : Prop where
  split : rest = row ++ trail ++ after
  spaces : ∀ part ∈ trail, part.isSpace = true
  cells : ∀ front, totalCells front = used → WordEnds front → Steady (front ++ rest) →
    used ≤ width → 0 < width → used + totalCells row ≤ width

theorem MoreWords.stop {width used : Nat} {trail after : List Part} (hsplit : rest = trail ++ after)
    (hspaces : ∀ part ∈ trail, part.isSpace = true) : MoreWords width used rest [] trail after where
  split := hsplit
  spaces := hspaces
  cells _ _ _ _ hroom _ := hroom

/-- Another word that there is room for. -/
theorem MoreWords.word {width used : Nat} {spaces word afterSpaces row trail afterWord after : List Part}
    {finished : Bool} (hspaces : RunOf true none 0 rest finished spaces afterSpaces) (hne : spaces ≠ [])
    (hword : RunOf false (some (width - used - totalCells spaces)) 0 afterSpaces true word afterWord)
    (hwordne : word ≠ [])
    (h : MoreWords width (used + (totalCells spaces + totalCells word)) afterWord row trail after) :
    MoreWords width used rest (spaces ++ word ++ row) trail after where
  split := by
    rw [hspaces.split, hword.split, h.split]
    simp only [List.append_assoc]
  spaces := h.spaces
  cells front hfront hends hsteady hroom hwidth := by
    have hfits : totalCells word ≤ width - used - totalCells spaces := by
      have hnot := hword.width.resolve_left hwordne
      rw [Nat.zero_add] at hnot
      exact Nat.le_of_not_lt (of_decide_eq_false hnot)
    obtain ⟨first, others, hfirst⟩ := List.exists_cons_of_ne_nil hwordne
    have hkind : first.isSpace = false := hword.kind first (hfirst ▸ List.mem_cons_self)
    -- A word without cells would be taken although there is no room for the white space.
    have hspace : used + totalCells spaces ≤ width := by
      by_contra hwide
      have hnothing : totalCells word = 0 := by omega
      have hzero : first.width = 0 := by
        rw [hfirst, totalCells_cons] at hnothing
        exact Nat.eq_zero_of_add_eq_zero_right hnothing
      have hbound := hsteady.space [] front spaces first (others ++ afterWord)
        (by rw [hspaces.split, hword.split, hfirst]; simp) hends hne hspaces.kind hkind hzero
      rw [hfront] at hbound
      omega
    have hrest : front ++ rest = (front ++ spaces ++ word) ++ afterWord := by
      rw [hspaces.split, hword.split]
      simp only [List.append_assoc]
    obtain ⟨last, hlast⟩ : ∃ last, word.getLast? = some last :=
      ⟨word.getLast hwordne, List.getLast?_eq_some_getLast hwordne⟩
    have hends' : WordEnds (front ++ spaces ++ word) := by
      refine ⟨?_, last, ?_, hword.kind last (List.mem_of_getLast? hlast)⟩
      · obtain ⟨part, hpart, hword⟩ := hends.first
        refine ⟨part, ?_, hword⟩
        rw [List.append_assoc, List.head?_append, hpart]
        rfl
      · rw [List.getLast?_append, hlast]
        rfl
    have htotal := h.cells (front ++ spaces ++ word)
      (by rw [totalCells_append, totalCells_append, hfront]; omega) hends' (hrest ▸ hsteady)
      (by omega) hwidth
    rw [totalCells_append, totalCells_append]
    omega

theorem partsText_pos (h : Ahead unicode source position absoluteEnd rest) {run after : List Part}
    (hrest : rest = run ++ after) (hne : run ≠ []) : 0 < (partsText run).length := by
  obtain ⟨part, others, rfl⟩ := List.exists_cons_of_ne_nil hne
  have hmem : part ∈ parts unicode (partsText rest) := by
    rw [h.parts, hrest]
    exact List.mem_cons_self
  have hpart : part.text ≠ [] := part_ne_nil unicode hmem
  rw [partsText_cons, List.length_append]
  exact Nat.add_pos_left (List.length_pos_iff.mpr hpart) _

/-- What is read behind the words of a row. -/
theorem wordsFrom_spec {lineStart sourceEnd width rowStart used position : Nat}
    (h : Ahead unicode source (lineStart + position) (lineStart + sourceEnd) rest) :
    ∃ row trail after, MoreWords width used rest row trail after ∧
      wordsFrom unicode source sourceEnd lineStart width rowStart used position =
        ⟨rowStart, position + (partsText row).length,
          position + (partsText row).length + (partsText trail).length⟩ := by
  induction hlength : rest.length using Nat.strongRecOn generalizing rest used position with
  | ind length ih =>
    rw [wordsFrom]
    by_cases hinside : position < sourceEnd
    · rw [if_pos hinside]
      dsimp only
      obtain ⟨spaces, afterSpaces, finished, hspaces, hscan⟩ := scanRun_spec true none h
      rw [hscan]
      dsimp only
      have hbreak : MoreWords width used rest [] spaces afterSpaces :=
        .stop hspaces.split hspaces.kind
      by_cases hnone : position + (partsText spaces).length = position
      · rw [dif_pos hnone]
        exact ⟨[], [], rest, .stop rfl (by simp), rfl⟩
      · rw [dif_neg hnone]
        by_cases hall : sourceEnd ≤ position + (partsText spaces).length
        · rw [if_pos hall]
          by_cases hroom : used + totalCells spaces ≤ width
          · rw [if_pos hroom]
            exact ⟨spaces, [], afterSpaces, ⟨by rw [hspaces.split, List.append_nil], by simp,
              fun _ _ _ _ _ _ => hroom⟩, rfl⟩
          · rw [if_neg hroom]
            exact ⟨[], spaces, afterSpaces, hbreak, rfl⟩
        · rw [if_neg hall]
          have hbehind : Ahead unicode source (lineStart + (position + (partsText spaces).length))
              (lineStart + sourceEnd) afterSpaces := by
            rw [← Nat.add_assoc]
            exact Ahead.append (hspaces.split ▸ h)
          obtain ⟨word, afterWord, whole, hword, hwordScan⟩ :=
            scanRun_spec false (some (width - used - totalCells spaces)) hbehind
          rw [hwordScan]
          dsimp only
          by_cases hwhole : whole = false
          · rw [if_pos hwhole]
            exact ⟨[], spaces, afterSpaces, hbreak, rfl⟩
          · rw [if_neg hwhole]
            by_cases hempty : position + (partsText spaces).length + (partsText word).length =
                position + (partsText spaces).length
            · rw [if_pos hempty]
              exact ⟨[], spaces, afterSpaces, hbreak, rfl⟩
            · rw [if_neg hempty]
              have hafter : Ahead unicode source (lineStart + (position +
                  (partsText spaces).length + (partsText word).length)) (lineStart + sourceEnd)
                  afterWord := by
                rw [← Nat.add_assoc]
                exact Ahead.append (hword.split ▸ hbehind)
              have hspacesne : spaces ≠ [] := by
                rintro rfl
                exact hnone rfl
              have hwordne : word ≠ [] := by
                rintro rfl
                exact hempty rfl
              have hshorter : afterWord.length < length := by
                have hpositive := List.length_pos_iff.mpr hwordne
                rw [← hlength, hspaces.split, hword.split, List.length_append, List.length_append]
                omega
              obtain ⟨row, trail, after, hmore, hslice⟩ := ih _ hshorter hafter rfl
              rw [Bool.not_eq_false] at hwhole
              refine ⟨spaces ++ word ++ row, trail, after,
                MoreWords.word hspaces hspacesne (hwhole ▸ hword) hwordne hmore, ?_⟩
              rw [hslice]
              simp only [partsText_append, List.length_append, Nat.add_assoc]
    · rw [if_neg hinside]
      exact ⟨[], [], rest, .stop rfl (by simp), rfl⟩

/-! ## One more row -/

/-- What one more row takes of the rest: the row, and the white space around it that is not shown. -/
structure Cut where
  lead : List Part
  row : List Part
  trail : List Part

def Cut.all (cut : Cut) : List Part := cut.lead ++ cut.row ++ cut.trail

structure CutOf (wordAware : Bool) (width : Nat) (rest : List Part) (cut : Cut) (after : List Part) :
    Prop where
  split : rest = cut.all ++ after
  spaces : ∀ part ∈ cut.lead ++ cut.trail, part.isSpace = true
  hard : wordAware = false → cut.lead = [] ∧ cut.trail = []
  progress : cut.all ≠ []
  cells : Steady rest → 0 < width → totalCells cut.row ≤ width ∨ ∃ part, cut.row = [part]

/-- Where a cut lies. -/
def Cut.slice (cut : Cut) (start : Nat) : WrapSlice where
  start := start + (partsText cut.lead).length
  end_ := start + (partsText cut.lead).length + (partsText cut.row).length
  next := start + (partsText cut.lead).length + (partsText cut.row).length +
    (partsText cut.trail).length

theorem hardCut (width : Nat) {start sourceEnd lineStart : Nat}
    (h : Ahead unicode source (lineStart + start) (lineStart + sourceEnd) rest) (hne : rest ≠ []) :
    ∃ row after, CutOf false width rest ⟨[], row, []⟩ after ∧
      nextHardBoundary unicode source start sourceEnd lineStart width =
        start + (partsText row).length ∧
      ∀ part ∈ after.head?, 0 < totalCells row ∧ width < totalCells row + part.width := by
  obtain ⟨row, after, hsplit, hend, hcells, hmore⟩ := nextHardBoundary_spec width h hne
  refine ⟨row, after, ⟨by simpa [Cut.all] using hsplit, by simp, fun _ => ⟨rfl, rfl⟩, ?_, ?_⟩, hend,
    hmore⟩
  · rintro hnone
    obtain rfl : row = [] := by simpa [Cut.all] using hnone
    obtain ⟨part, others, rfl⟩ := List.exists_cons_of_ne_nil hne
    have hpositive := (hmore part (by rw [← hsplit.trans (List.nil_append after)]; rfl)).1
    exact Nat.lt_irrefl 0 hpositive
  · intro hsteady hwidth
    rcases hcells with hroom | ⟨-, zeros, part, hrow, hzeros, hwide⟩ | ⟨hover, -⟩
    · rw [Nat.zero_add] at hroom
      exact .inl hroom
    · rcases List.eq_nil_or_concat zeros with rfl | ⟨others, zero, rfl⟩
      · exact .inr ⟨part, hrow⟩
      · -- A part without cells would stand before a wide one.
        rw [List.concat_eq_append, totalCells_append, totalCells_cons, totalCells_nil] at hzeros
        have hbound := hsteady.zero others zero part after
          (by rw [hsplit, hrow]; simp) (by omega)
        omega
    · exact absurd hover (Nat.not_lt_zero _)

theorem wordCut (width : Nat) {start sourceEnd lineStart : Nat}
    (h : Ahead unicode source (lineStart + start) (lineStart + sourceEnd) rest) (hne : rest ≠ []) :
    ∃ cut after, CutOf true width rest cut after ∧
      nextWordSlice unicode source start sourceEnd lineStart width = cut.slice start := by
  have hinside : start < sourceEnd := by
    obtain ⟨part, others, rfl⟩ := List.exists_cons_of_ne_nil hne
    have hlt := h.cons.1
    omega
  obtain ⟨lead, afterLead, finished, hlead, hscan⟩ := scanRun_spec true none h
  have hbehind : Ahead unicode source (lineStart + (start + (partsText lead).length))
      (lineStart + sourceEnd) afterLead := by
    rw [← Nat.add_assoc]
    exact Ahead.append (hlead.split ▸ h)
  have hrowStart : (if start < start + (partsText lead).length then start + (partsText lead).length
      else start) = start + (partsText lead).length := by
    split
    · rfl
    · omega
  rw [nextWordSlice, if_neg (by omega), hscan]
  dsimp only
  rw [hrowStart]
  by_cases hblank : sourceEnd ≤ start + (partsText lead).length
  · rw [if_pos hblank]
    have hall : start + (partsText lead).length = sourceEnd := by
      have hle := hbehind.le
      omega
    refine ⟨⟨lead, [], []⟩, afterLead, ⟨by simpa [Cut.all] using hlead.split,
      by simpa using hlead.kind, by simp, ?_, fun _ _ => .inl (Nat.zero_le _)⟩, ?_⟩
    · rintro hnone
      obtain rfl : lead = [] := by simpa [Cut.all] using hnone
      rw [partsText_nil, List.length_nil] at hall
      omega
    · rw [Cut.slice]
      simp only [partsText_nil, List.length_nil, Nat.add_zero]
      rw [hall]
  · rw [if_neg hblank]
    have hmore : afterLead ≠ [] := by
      rintro rfl
      have hend := hbehind.nil
      omega
    obtain ⟨part, others, hpart⟩ := List.exists_cons_of_ne_nil hmore
    have hmeasured := (Ahead.cons (hpart ▸ hbehind)).2.1
    rw [hmeasured]
    dsimp only
    have halone : ∃ cut after, CutOf true width rest cut after ∧
        (⟨start + (partsText lead).length,
          lineStart + (start + (partsText lead).length) + part.text.length - lineStart,
          lineStart + (start + (partsText lead).length) + part.text.length - lineStart⟩ : WrapSlice) =
          cut.slice start := by
      refine ⟨⟨lead, [part], []⟩, others, ⟨by simp [Cut.all, hlead.split, hpart],
        by simpa using hlead.kind, by simp, by simp [Cut.all], fun _ _ => .inr ⟨part, rfl⟩⟩, ?_⟩
      rw [Cut.slice]
      simp only [partsText_cons, partsText_nil, List.append_nil, List.length_nil, Nat.add_zero]
      congr 1 <;> omega
    obtain ⟨word, afterWord, whole, hword, hwordScan⟩ := scanRun_spec false (some width) hbehind
    rw [hwordScan]
    dsimp only
    have hfits : word ≠ [] → totalCells word ≤ width := by
      intro hwordne
      have hnot := hword.width.resolve_left hwordne
      rw [Nat.zero_add] at hnot
      exact Nat.le_of_not_lt (of_decide_eq_false hnot)
    by_cases hwhole : whole = false
    · rw [if_pos hwhole]
      by_cases hsome : start + (partsText lead).length <
          start + (partsText lead).length + (partsText word).length
      · rw [if_pos hsome]
        have hwordne : word ≠ [] := by
          rintro rfl
          exact Nat.lt_irrefl _ hsome
        refine ⟨⟨lead, word, []⟩, afterWord, ⟨by simp [Cut.all, hlead.split, hword.split],
          by simpa using hlead.kind, by simp, by simp [Cut.all, hwordne],
          fun _ _ => .inl (hfits hwordne)⟩, ?_⟩
        rw [Cut.slice]
        simp only [partsText_nil, List.length_nil, Nat.add_zero]
      · rw [if_neg hsome]
        exact halone
    · rw [if_neg hwhole]
      by_cases hempty : start + (partsText lead).length + (partsText word).length =
          start + (partsText lead).length
      · rw [if_pos hempty]
        exact halone
      · rw [if_neg hempty]
        have hwordne : word ≠ [] := by
          rintro rfl
          exact hempty rfl
        have hafter : Ahead unicode source (lineStart + (start + (partsText lead).length +
            (partsText word).length)) (lineStart + sourceEnd) afterWord := by
          rw [← Nat.add_assoc]
          exact Ahead.append (hword.split ▸ hbehind)
        obtain ⟨row, trail, after, hmoreWords, hslice⟩ := wordsFrom_spec hafter
        rw [hslice]
        refine ⟨⟨lead, word ++ row, trail⟩, after, ⟨?_, ?_, by simp, ?_, ?_⟩, ?_⟩
        · rw [hlead.split, hword.split, hmoreWords.split]
          simp only [Cut.all, List.append_assoc]
        · exact List.forall_mem_append.mpr ⟨hlead.kind, hmoreWords.spaces⟩
        · simp [Cut.all, hwordne]
        · intro hsteady hwidth
          refine .inl ?_
          rw [totalCells_append]
          rw [hlead.split, hword.split] at hsteady
          refine hmoreWords.cells word rfl ?_ hsteady.behind (hfits hwordne) hwidth
          obtain ⟨first, others, hfirst⟩ := List.exists_cons_of_ne_nil hwordne
          have hlast := List.getLast?_eq_some_getLast hwordne
          exact ⟨⟨first, by rw [hfirst]; rfl, hword.kind first (hfirst ▸ List.mem_cons_self)⟩,
            _, hlast, hword.kind _ (List.mem_of_getLast? hlast)⟩
        · rw [Cut.slice]
          simp only [partsText_append, List.length_append, Nat.add_assoc]

theorem nextSlice_spec {range : WrapRange} (wordAware : Bool) (limit : Nat) {start : Nat}
    (h : Ahead unicode source (range.lineStart + start) (range.lineStart + range.sourceEnd) rest)
    (hne : rest ≠ []) :
    ∃ cut after, CutOf wordAware limit rest cut after ∧
      nextSlice unicode source range limit wordAware start = cut.slice start := by
  cases wordAware with
  | false =>
    obtain ⟨row, after, hcut, hend, -⟩ := hardCut limit h hne
    refine ⟨⟨[], row, []⟩, after, hcut, ?_⟩
    rw [nextSlice, if_neg (by simp), hend, Cut.slice]
    rfl
  | true =>
    obtain ⟨cut, after, hcut, hslice⟩ := wordCut limit h hne
    refine ⟨cut, after, hcut, ?_⟩
    rw [nextSlice, if_pos rfl, hslice]

end Ahead

/-! ## Layouts -/

section Layouts

variable {source : List Char} {range : WrapRange} {width : Nat} {wordAware : Bool}
  {layout : WrapLayout} {unicode}

/-- The text of a range. -/
def WrapRange.text (source : List Char) (range : WrapRange) : List Char :=
  between source (range.lineStart + range.sourceStart) (range.lineStart + range.sourceEnd)

/-- A range of the source. -/
structure WrapRange.Inside (source : List Char) (range : WrapRange) : Prop where
  order : range.sourceStart ≤ range.sourceEnd
  inside : range.lineStart + range.sourceEnd ≤ source.length

/-- The parts of all cuts. -/
def cutsParts (cuts : List Cut) : List Part := cuts.flatMap Cut.all

/-- The rows of cuts. -/
def spans (start : Nat) : List Cut → List (Nat × Nat)
  | [] => []
  | cut :: cuts => ((cut.slice start).start, (cut.slice start).end_) :: spans (cut.slice start).next cuts

theorem Cut.slice_next (cut : Cut) (start : Nat) :
    (cut.slice start).next = start + (partsText cut.all).length := by
  simp only [Cut.slice, Cut.all, partsText_append, List.length_append, Nat.add_assoc]

theorem spans_append (start : Nat) (front behind : List Cut) :
    spans start (front ++ behind) =
      spans start front ++ spans (start + (partsText (cutsParts front)).length) behind := by
  induction front generalizing start with
  | nil => rfl
  | cons cut front ih =>
    rw [List.cons_append, spans, spans, ih, Cut.slice_next]
    simp only [cutsParts, List.flatMap_cons, partsText_append, List.length_append, Nat.add_assoc,
      List.cons_append]

/-- What holds of every row of a layout. -/
structure CutFits (wordAware : Bool) (limit : Nat) (all : List Part) (cut : Cut) : Prop where
  spaces : ∀ part ∈ cut.lead ++ cut.trail, part.isSpace = true
  hard : wordAware = false → cut.lead = [] ∧ cut.trail = []
  cells : Steady all → 0 < limit → totalCells cut.row ≤ limit ∨ ∃ part, cut.row = [part]

/-- The rows that are measured cut the front of the range. -/
structure RowsLaid (unicode : Segmentation) (source : List Char) (range : WrapRange) (limit : Nat)
    (wordAware : Bool) (cuts : List Cut) (after : List Part) (layout : WrapLayout) : Prop where
  split : parts unicode (range.text source) = cutsParts cuts ++ after
  fits : ∀ cut ∈ cuts, CutFits wordAware limit (parts unicode (range.text source)) cut
  boundaries : layout.boundaries = (spans range.sourceStart cuts).map Prod.fst
  ends : layout.ends = (spans range.sourceStart cuts).map Prod.snd
  next : layout.nextSource = range.sourceStart + (partsText (cutsParts cuts)).length
  done : layout.complete = true → after = [] ∧ cuts ≠ []
  more : layout.complete = false → after = [] → cuts = [] ∧ range.sourceStart = range.sourceEnd

theorem RowsLaid.start (unicode : Segmentation) (hrange : range.Inside source) (limit : Nat)
    (wordAware : Bool) :
    RowsLaid unicode source range limit wordAware [] (parts unicode (range.text source))
      (newWrapLayout range.sourceStart) where
  split := rfl
  fits := by simp
  boundaries := rfl
  ends := rfl
  next := rfl
  done := by simp [newWrapLayout]
  more _ hnone := by
    have hlength := congrArg List.length (parts_eq_nil unicode hnone)
    have horder := hrange.order
    have hinside := hrange.inside
    rw [WrapRange.text, between, List.length_take, List.length_drop, List.length_nil] at hlength
    exact ⟨rfl, by omega⟩

variable {cuts : List Cut} {after : List Part} {limit : Nat}

/-- What is left of the range. -/
theorem RowsLaid.ahead (h : RowsLaid unicode source range limit wordAware cuts after layout)
    (hrange : range.Inside source) :
    Ahead unicode source (range.lineStart + layout.nextSource) (range.lineStart + range.sourceEnd)
      after := by
  have hall : Ahead unicode source _ _ _ :=
    Ahead.of_range (Nat.add_le_add_left hrange.order range.lineStart) hrange.inside
  rw [← WrapRange.text, h.split] at hall
  rw [h.next, ← Nat.add_assoc]
  exact hall.append

theorem RowsLaid.step (h : RowsLaid unicode source range limit wordAware cuts after layout)
    (hrange : range.Inside source) (hmore : layout.complete = false) :
    ∃ cut behind, RowsLaid unicode source range limit wordAware (cuts ++ [cut]) behind
      (nextWrapRow unicode source range limit wordAware layout) := by
  have hone : ∀ cut, cutsParts (cuts ++ [cut]) = cutsParts cuts ++ cut.all := fun cut => by
    simp [cutsParts]
  have hspan : ∀ cut : Cut, spans range.sourceStart (cuts ++ [cut]) =
      spans range.sourceStart cuts ++
        [((cut.slice layout.nextSource).start, (cut.slice layout.nextSource).end_)] := fun cut => by
    rw [spans_append, ← h.next]
    rfl
  by_cases hempty : range.sourceStart = range.sourceEnd
  · -- An empty range has one empty row.
    have hnothing : after = [] := by
      by_contra hne
      obtain ⟨part, others, rfl⟩ := List.exists_cons_of_ne_nil hne
      have hinside := (h.ahead hrange).cons.1
      rw [h.next] at hinside
      omega
    have hfirst := (h.more hmore hnothing).1
    have hnext : layout.nextSource = range.sourceStart := by
      rw [h.next, hfirst]
      rfl
    refine ⟨⟨[], [], []⟩, [], ?_, ?_, ?_, ?_, ?_, ?_, ?_⟩
    · rw [hone, h.split, hnothing]
      simp [Cut.all]
    · intro cut hmem
      rcases List.mem_append.mp hmem with hbefore | hlast
      · exact h.fits cut hbefore
      · rw [List.mem_singleton.mp hlast]
        exact ⟨by simp, fun _ => ⟨rfl, rfl⟩, fun _ _ => .inl (Nat.zero_le _)⟩
    · rw [hspan, List.map_append, ← h.boundaries, nextWrapRow, if_pos hempty, ← hnext]
      rfl
    · rw [hspan, List.map_append, ← h.ends, nextWrapRow, if_pos hempty, ← hempty, ← hnext]
      rfl
    · rw [nextWrapRow, if_pos hempty, hone, partsText_append, List.length_append, ← Nat.add_assoc,
        ← h.next]
      rfl
    · exact fun _ => ⟨rfl, by simp⟩
    · intro hnot
      rw [nextWrapRow, if_pos hempty] at hnot
      exact absurd hnot (by simp)
  · have hne : after ≠ [] := fun hnothing => hempty (h.more hmore hnothing).2
    obtain ⟨cut, behind, hcut, hslice⟩ := nextSlice_spec wordAware limit (h.ahead hrange) hne
    have hprogress : ¬(cut.slice layout.nextSource).next ≤ layout.nextSource := by
      have hpositive := partsText_pos (h.ahead hrange) hcut.split hcut.progress
      rw [Cut.slice_next]
      omega
    have hstep : nextWrapRow unicode source range limit wordAware layout =
        { boundaries := layout.boundaries ++ [(cut.slice layout.nextSource).start]
          ends := layout.ends ++ [(cut.slice layout.nextSource).end_]
          nextSource := (cut.slice layout.nextSource).next
          complete := decide (range.sourceEnd ≤ (cut.slice layout.nextSource).next) } := by
      rw [nextWrapRow, if_neg hempty, hslice, if_neg hprogress, hmore, Bool.false_or]
    have hbehind : Ahead unicode source
        (range.lineStart + (cut.slice layout.nextSource).next)
        (range.lineStart + range.sourceEnd) behind := by
      rw [Cut.slice_next, ← Nat.add_assoc]
      exact Ahead.append (hcut.split ▸ h.ahead hrange)
    have hsplit : parts unicode (range.text source) = cutsParts (cuts ++ [cut]) ++ behind := by
      rw [h.split, hone, hcut.split, List.append_assoc]
    rw [hstep]
    refine ⟨cut, behind, hsplit, ?_, ?_, ?_, ?_, ?_, ?_⟩
    · intro other hmem
      rcases List.mem_append.mp hmem with hbefore | hlast
      · exact h.fits other hbefore
      · rw [List.mem_singleton.mp hlast]
        refine ⟨hcut.spaces, hcut.hard, fun hsteady => hcut.cells ?_⟩
        rw [h.split] at hsteady
        exact hsteady.behind
    · rw [hspan, List.map_append, ← h.boundaries]
      rfl
    · rw [hspan, List.map_append, ← h.ends]
      rfl
    · rw [hone, partsText_append, List.length_append, ← Nat.add_assoc, ← h.next, ← Cut.slice_next]
    · intro hall
      refine ⟨?_, by simp⟩
      by_contra hrest
      obtain ⟨part, others, rfl⟩ := List.exists_cons_of_ne_nil hrest
      have hinside := hbehind.cons.1
      have hle : range.sourceEnd ≤ (cut.slice layout.nextSource).next := of_decide_eq_true hall
      omega
    · intro hnot hnothing
      rw [hnothing] at hbehind
      have hend := hbehind.nil
      have hlt : ¬range.sourceEnd ≤ (cut.slice layout.nextSource).next := of_decide_eq_false hnot
      omega

/-! ## All rows, and rows as they are asked for -/

theorem ensureAllWrapRows_step (hmore : layout.complete = false) :
    ensureAllWrapRows unicode source range width wordAware layout =
      ensureAllWrapRows unicode source range width wordAware
        (nextWrapRow unicode source range (max 1 width) wordAware layout) := by
  rw [ensureAllWrapRows, dif_pos hmore]
  dsimp only
  rw [ensureWrapRow_next unicode source range width wordAware hmore]

theorem ensureAllWrapRows_complete (hdone : layout.complete = true) :
    ensureAllWrapRows unicode source range width wordAware layout = layout := by
  rw [ensureAllWrapRows, dif_neg (by simp [hdone])]

/-- The wrapping ends, and its rows cut the whole range. -/
theorem RowsLaid.all (h : RowsLaid unicode source range (max 1 width) wordAware cuts after layout)
    (hrange : range.Inside source) :
    (ensureAllWrapRows unicode source range width wordAware layout).complete = true ∧
      ∃ cuts, RowsLaid unicode source range (max 1 width) wordAware cuts []
        (ensureAllWrapRows unicode source range width wordAware layout) := by
  induction hleft : layout.left range.sourceEnd using Nat.strongRecOn generalizing layout cuts after with
  | ind left ih =>
    cases hmore : layout.complete with
    | true =>
      rw [ensureAllWrapRows_complete hmore]
      exact ⟨hmore, cuts, (h.done hmore).1 ▸ h⟩
    | false =>
      rw [ensureAllWrapRows_step hmore]
      obtain ⟨cut, behind, hnext⟩ := h.step hrange hmore
      have hless := nextWrapRow_left unicode source range (max 1 width) wordAware hmore
      exact ih _ (hleft ▸ hless) hnext rfl

/-- Rows that are measured stay as they are. -/
structure WrapLayout.Extends (before after : WrapLayout) : Prop where
  boundaries : before.boundaries <+: after.boundaries
  ends : before.ends <+: after.ends
  lengths : before.boundaries.length = before.ends.length → after.boundaries.length = after.ends.length

theorem WrapLayout.Extends.rfl : layout.Extends layout := ⟨List.prefix_rfl, List.prefix_rfl, id⟩

theorem WrapLayout.Extends.trans {first second third : WrapLayout} (h : first.Extends second)
    (h' : second.Extends third) : first.Extends third :=
  ⟨h.boundaries.trans h'.boundaries, h.ends.trans h'.ends, fun hlengths => h'.lengths (h.lengths hlengths)⟩

theorem nextWrapRow_extends : layout.Extends (nextWrapRow unicode source range limit wordAware layout) := by
  rw [nextWrapRow]
  dsimp only
  split
  · exact ⟨List.prefix_append _ _, List.prefix_append _ _, fun h => by simp [h]⟩
  · split <;> exact ⟨List.prefix_append _ _, List.prefix_append _ _, fun h => by simp [h]⟩

theorem ensureAllWrapRows_extends :
    layout.Extends (ensureAllWrapRows unicode source range width wordAware layout) := by
  induction hleft : layout.left range.sourceEnd using Nat.strongRecOn generalizing layout with
  | ind left ih =>
    cases hmore : layout.complete with
    | true =>
      rw [ensureAllWrapRows_complete hmore]
      exact .rfl
    | false =>
      rw [ensureAllWrapRows_step hmore]
      have hless := nextWrapRow_left unicode source range (max 1 width) wordAware hmore
      exact nextWrapRow_extends.trans (ih _ (hleft ▸ hless) rfl)

/-- A row that is asked for leaves what all rows will be, and is there unless there are fewer rows. -/
theorem ensureWrapRow_spec (unicode : Segmentation) (source : List Char) (range : WrapRange)
    (width : Nat) (wordAware : Bool) (row : Nat) (layout : WrapLayout) :
    ensureAllWrapRows unicode source range width wordAware
        (ensureWrapRow unicode source range width wordAware row layout) =
      ensureAllWrapRows unicode source range width wordAware layout ∧
    layout.Extends (ensureWrapRow unicode source range width wordAware row layout) ∧
    ((ensureWrapRow unicode source range width wordAware row layout).complete = true ∨
      row < (ensureWrapRow unicode source range width wordAware row layout).ends.length) := by
  fun_induction ensureWrapRow unicode source range width wordAware row layout with
  | case1 layout hmore hlength ih =>
    obtain ⟨hall, hextends, hrow⟩ := ih
    exact ⟨hall.trans (ensureAllWrapRows_step hmore.1).symm, nextWrapRow_extends.trans hextends, hrow⟩
  | case2 layout hnot =>
    refine ⟨rfl, .rfl, ?_⟩
    by_cases hdone : layout.complete = true
    · exact .inl hdone
    · refine .inr ?_
      by_contra hrow
      exact hnot ⟨by simpa using hdone, Nat.le_of_not_lt hrow⟩

theorem getElem?_of_front {α : Type} {front all : List α} (h : front <+: all) {index : Nat}
    (hindex : index < front.length) : front[index]? = all[index]? := by
  obtain ⟨behind, rfl⟩ := h
  rw [List.getElem?_append_left hindex]

/-- Rows that are asked for one at a time, in any order, are those of the whole range. -/
theorem ensureWrapRow_any (unicode : Segmentation) (source : List Char) (range : WrapRange)
    (width : Nat) (wordAware : Bool) (layout : WrapLayout)
    (hlengths : layout.boundaries.length = layout.ends.length) (requests : List Nat) (row : Nat) :
    let all := ensureAllWrapRows unicode source range width wordAware layout
    let asked := requests.foldl (fun layout row =>
      ensureWrapRow unicode source range width wordAware row layout) layout
    let answer := ensureWrapRow unicode source range width wordAware row asked
    answer.boundaries[row]? = all.boundaries[row]? ∧ answer.ends[row]? = all.ends[row]? ∧
      ensureAllWrapRows unicode source range width wordAware answer = all := by
  dsimp only
  induction requests generalizing layout with
  | nil =>
    rw [List.foldl_nil]
    obtain ⟨hall, hextends, hrow⟩ := ensureWrapRow_spec unicode source range width wordAware row layout
    generalize ensureWrapRow unicode source range width wordAware row layout = answer at *
    rcases hrow with hdone | hmeasured
    · rw [ensureAllWrapRows_complete hdone] at hall
      rw [← hall]
      exact ⟨rfl, rfl, ensureAllWrapRows_complete hdone⟩
    · have hlater : answer.Extends (ensureAllWrapRows unicode source range width wordAware answer) :=
        ensureAllWrapRows_extends
      rw [hall] at hlater
      have hsame := hextends.lengths hlengths
      exact ⟨getElem?_of_front hlater.boundaries (hsame ▸ hmeasured),
        getElem?_of_front hlater.ends hmeasured, hall⟩
  | cons request requests ih =>
    rw [List.foldl_cons]
    obtain ⟨hall, hextends, -⟩ :=
      ensureWrapRow_spec unicode source range width wordAware request layout
    have hrest := ih _ (hextends.lengths hlengths)
    rw [hall] at hrest
    exact hrest

end Layouts

end Henji
