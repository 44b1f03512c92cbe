import Henji.Tui.WrapLaw

/-!
# When the rows show what was measured

The rows of every range of a line are right exactly where the measure agrees with the terminal: no
scalar that is measured alone joins another one, and it is shown in as many cells as were measured;
graphemes do not join when they are escaped; and a grapheme without cells stands nowhere where the
wrapping takes it into a row that is full.
-/

namespace Henji

variable {unicode : Segmentation}

/-! ## The rows of a range -/

variable (unicode) in
/-- The widths that are scanned between two offsets. -/
def scannedWidth (source : List Char) (absoluteEnd stop position : Nat) : Nat :=
  if h : position < stop ∧ position < absoluteEnd then
    let part := projectedSegmentAt unicode source position absoluteEnd
    have := projectedSegmentAt_progress unicode source h.2
    part.width + scannedWidth source absoluteEnd stop part.end_
  else 0
termination_by absoluteEnd - position

variable (unicode) in
/-- A grapheme of a text ends at an offset, or the text begins there. -/
def IsBoundary (text : List Char) (offset : Nat) : Prop :=
  ∃ before behind, unicode.segment text = before ++ behind ∧ before.flatten.length = offset

/-- All rows of a range, from offset to offset. -/
def WrapLayout.rows (layout : WrapLayout) : List (Nat × Nat) := layout.boundaries.zip layout.ends

def WrapRange.rowText (source : List Char) (range : WrapRange) (row : Nat × Nat) : List Char :=
  between source (range.lineStart + row.1) (range.lineStart + row.2)

variable (unicode) in
/-- What the wrapping of a range is for. -/
structure WrapsWell (source : List Char) (range : WrapRange) (width : Nat) (wordAware : Bool)
    (all : WrapLayout) : Prop where
  complete : all.complete = true
  lengths : all.boundaries.length = all.ends.length
  inside : ∀ row ∈ all.rows,
    range.sourceStart ≤ row.1 ∧ row.1 ≤ row.2 ∧ row.2 ≤ range.sourceEnd
  ordered : all.rows.Pairwise fun row next => row.2 ≤ next.1
  boundaries : ∀ row ∈ all.rows, IsBoundary unicode (range.text source) (row.1 - range.sourceStart) ∧
    IsBoundary unicode (range.text source) (row.2 - range.sourceStart)
  shown : ∀ offset, range.sourceStart ≤ offset → offset < range.sourceEnd →
    (∃ row ∈ all.rows, row.1 ≤ offset ∧ offset < row.2) ∨
      wordAware = true ∧ ∃ character ∈ source[range.lineStart + offset]?,
        isTrimmed character.toNat = true
  fits : ∀ row ∈ all.rows, displayCells unicode (range.rowText source row) ≤ width ∨
    unicode.segment (range.rowText source row) = [range.rowText source row]
  scanned : ∀ row ∈ all.rows,
    scannedWidth unicode source (range.lineStart + range.sourceEnd) (range.lineStart + row.2)
      (range.lineStart + row.1) = displayCells unicode (range.rowText source row)
  lazily : ∀ (requests : List Nat) (row : Nat),
    let answer := ensureWrapRow unicode source range width wordAware row
      (requests.foldl (fun layout row => ensureWrapRow unicode source range width wordAware row layout)
        (newWrapLayout range.sourceStart))
    answer.boundaries[row]? = all.boundaries[row]? ∧ answer.ends[row]? = all.ends[row]?

/-! ## Spans -/

theorem zip_spans (spans : List (Nat × Nat)) : (spans.map Prod.fst).zip (spans.map Prod.snd) = spans := by
  induction spans with
  | nil => rfl
  | cons span spans ih => rw [List.map_cons, List.map_cons, List.zip_cons_cons, ih]

theorem mem_spans {start : Nat} {cuts : List Cut} {row : Nat × Nat} (h : row ∈ spans start cuts) :
    ∃ before cut behind, cuts = before ++ cut :: behind ∧
      row.1 = start + (partsText (cutsParts before ++ cut.lead)).length ∧
      row.2 = row.1 + (partsText cut.row).length := by
  induction cuts generalizing start with
  | nil => exact absurd h List.not_mem_nil
  | cons cut cuts ih =>
    rcases List.mem_cons.mp h with rfl | hrest
    · exact ⟨[], cut, cuts, rfl, rfl, rfl⟩
    · obtain ⟨before, other, behind, rfl, hfirst, hlast⟩ := ih hrest
      refine ⟨cut :: before, other, behind, rfl, ?_, hlast⟩
      rw [hfirst, Cut.slice_next]
      simp only [cutsParts, List.flatMap_cons, partsText_append, List.length_append, Nat.add_assoc]

theorem spans_ordered (start : Nat) (cuts : List Cut) :
    (spans start cuts).Pairwise (fun row next => row.2 ≤ next.1) ∧
      ∀ row ∈ spans start cuts, start ≤ row.1 := by
  induction cuts generalizing start with
  | nil => exact ⟨.nil, fun row hmem => absurd hmem List.not_mem_nil⟩
  | cons cut cuts ih =>
    obtain ⟨hordered, hfrom⟩ := ih (cut.slice start).next
    have hnext : (cut.slice start).end_ ≤ (cut.slice start).next := Nat.le_add_right _ _
    have hstart : start ≤ (cut.slice start).next := by
      rw [Cut.slice_next]
      exact Nat.le_add_right _ _
    refine ⟨.cons (fun row hmem => Nat.le_trans hnext (hfrom row hmem)) hordered, ?_⟩
    intro row hmem
    rcases List.mem_cons.mp hmem with rfl | hrest
    · exact Nat.le_add_right _ _
    · exact Nat.le_trans hstart (hfrom row hrest)

/-- A character that is in no row is white space. -/
theorem mem_spans_or_space (start : Nat) {cuts : List Cut} {index : Nat}
    (hspaces : ∀ cut ∈ cuts, ∀ part ∈ cut.lead ++ cut.trail, part.isSpace = true) {character : Char}
    (hcharacter : (partsText (cutsParts cuts))[index]? = some character) :
    (∃ row ∈ spans start cuts, row.1 ≤ start + index ∧ start + index < row.2) ∨
      isTrimmed character.toNat = true ∧ ∃ cut ∈ cuts, cut.lead ++ cut.trail ≠ [] := by
  have hspace : ∀ {parts : List Part} {index : Nat}, (∀ part ∈ parts, part.isSpace = true) →
      (partsText parts)[index]? = some character → isTrimmed character.toNat = true ∧ parts ≠ [] := by
    intro parts index hparts hfound
    obtain ⟨part, hpart, hmem⟩ := List.mem_flatMap.mp (List.mem_of_getElem? hfound)
    have hkind := hparts part hpart
    rw [Part.isSpace, Bool.and_eq_true] at hkind
    exact ⟨List.all_eq_true.mp hkind.2 character hmem, List.ne_nil_of_mem hpart⟩
  induction cuts generalizing start index with
  | nil => exact absurd hcharacter (by simp [cutsParts])
  | cons cut cuts ih =>
    have hall : partsText (cutsParts (cut :: cuts)) = partsText cut.lead ++ (partsText cut.row ++
        (partsText cut.trail ++ partsText (cutsParts cuts))) := by
      simp [cutsParts, Cut.all]
    rw [hall] at hcharacter
    have hhere := hspaces cut List.mem_cons_self
    by_cases hlead : index < (partsText cut.lead).length
    · rw [List.getElem?_append_left hlead] at hcharacter
      obtain ⟨htrimmed, hne⟩ := hspace (fun part hmem => hhere part (List.mem_append_left _ hmem)) hcharacter
      exact .inr ⟨htrimmed, cut, List.mem_cons_self, by simp [hne]⟩
    · rw [List.getElem?_append_right (Nat.le_of_not_lt hlead)] at hcharacter
      by_cases hrow : index - (partsText cut.lead).length < (partsText cut.row).length
      · refine .inl ⟨_, List.mem_cons_self, ?_, ?_⟩
        · show start + _ ≤ _
          omega
        · show _ < start + _ + _
          omega
      · rw [List.getElem?_append_right (Nat.le_of_not_lt hrow)] at hcharacter
        by_cases htrail : index - (partsText cut.lead).length - (partsText cut.row).length <
            (partsText cut.trail).length
        · rw [List.getElem?_append_left htrail] at hcharacter
          obtain ⟨htrimmed, hne⟩ :=
            hspace (fun part hmem => hhere part (List.mem_append_right _ hmem)) hcharacter
          exact .inr ⟨htrimmed, cut, List.mem_cons_self, by simp [hne]⟩
        · rw [List.getElem?_append_right (Nat.le_of_not_lt htrail)] at hcharacter
          rcases ih (cut.slice start).next
            (fun other hmem => hspaces other (List.mem_cons_of_mem _ hmem)) hcharacter with
            ⟨row, hmem, hfrom, hto⟩ | ⟨htrimmed, other, hmem, hne⟩
          · have hindex : (cut.slice start).next + (index - (partsText cut.lead).length -
                (partsText cut.row).length - (partsText cut.trail).length) = start + index := by
              show start + _ + _ + _ + _ = _
              omega
            rw [hindex] at hfrom hto
            exact .inl ⟨row, List.mem_cons_of_mem _ hmem, hfrom, hto⟩
          · exact .inr ⟨htrimmed, other, List.mem_cons_of_mem _ hmem, hne⟩

/-! ## Graphemes -/

theorem segment_nil : unicode.segment [] = [] := by
  rw [List.eq_nil_iff_forall_not_mem]
  intro grapheme hmem
  have hflatten := unicode.flatten_segment []
  exact unicode.segment_ne_nil [] grapheme hmem (List.flatten_eq_nil_iff.mp hflatten grapheme hmem)

theorem segment_singleton (character : Char) : unicode.segment [character] = [[character]] := by
  have hflatten := unicode.flatten_segment [character]
  cases hsegment : unicode.segment [character] with
  | nil =>
    rw [hsegment] at hflatten
    exact absurd hflatten (by simp)
  | cons first others =>
    rw [hsegment, List.flatten_cons] at hflatten
    have hne := unicode.segment_ne_nil _ first (hsegment ▸ List.mem_cons_self)
    obtain ⟨other, rest, rfl⟩ := List.exists_cons_of_ne_nil hne
    obtain ⟨rfl, hnothing⟩ := List.cons.inj hflatten
    obtain ⟨rfl, hothers⟩ := List.append_eq_nil_iff.mp hnothing
    cases others with
    | nil => rfl
    | cons next more =>
      have hnext := unicode.segment_ne_nil _ next (by rw [hsegment]; simp)
      exact absurd (List.flatten_eq_nil_iff.mp hothers next List.mem_cons_self) hnext

/-- The graphemes behind some others. -/
theorem segment_behind {text : List Char} {before behind : List (List Char)}
    (h : unicode.segment text = before ++ behind) : unicode.segment behind.flatten = behind :=
  unicode.segment_inside text before behind [] (by rw [List.append_nil]; exact h)

variable (unicode) in
/-- What the terminal shows of a grapheme. -/
def graphemePart (grapheme : List Char) : Part where
  text := grapheme
  width := displayCells unicode grapheme

theorem partsText_graphemes (graphemes : List (List Char)) :
    partsText (graphemes.map (graphemePart unicode)) = graphemes.flatten := by
  induction graphemes with
  | nil => rfl
  | cons grapheme graphemes ih => rw [List.map_cons, partsText_cons, ih, List.flatten_cons]; rfl

def isSpaceText (text : List Char) : Bool :=
  !text.isEmpty && text.all fun character => isTrimmed character.toNat

variable (unicode) in
def totalDisplayCells (graphemes : List (List Char)) : Nat :=
  (graphemes.map (displayCells unicode)).sum

theorem totalCells_graphemes (graphemes : List (List Char)) :
    totalCells (graphemes.map (graphemePart unicode)) = totalDisplayCells unicode graphemes := by
  rw [totalCells, totalDisplayCells, List.map_map]
  rfl

variable (unicode) in
/-- Where the quick measure and the wrapping agree with the terminal, over a line. -/
structure MeasuresRight (line : List Char) : Prop where
  /-- A scalar that is measured alone is a grapheme. -/
  alone : ∀ character rest, character :: rest <:+: line →
    (mayJoin unicode character || rest.head?.any (mayJoin unicode)) = false →
    (unicode.segment (character :: rest)).head? = some [character]
  /-- It is shown in as many cells as it was measured. -/
  width : ∀ character ∈ line, mayJoin unicode character = false →
    displayCells unicode [character] = escapedScalarWidth character
  /-- Graphemes do not join when they are escaped. -/
  sum : ∀ range, range <:+: line →
    displayCells unicode range = totalDisplayCells unicode (unicode.segment range)
  /-- No grapheme without cells is before a wide one. -/
  zero : ∀ range grapheme next, range <:+: line → unicode.segment range = [grapheme, next] →
    displayCells unicode grapheme = 0 → displayCells unicode next ≤ 1
  /-- A grapheme without cells is behind white space only where this takes no further cell. -/
  space : ∀ range front spaces grapheme, range <:+: line →
    unicode.segment range = front ++ spaces ++ [grapheme] →
    (∃ first ∈ front.head?, isSpaceText first = false) →
    (∃ last ∈ front.getLast?, isSpaceText last = false) →
    spaces ≠ [] → (∀ space ∈ spaces, isSpaceText space = true) → isSpaceText grapheme = false →
    displayCells unicode grapheme = 0 →
    totalDisplayCells unicode front + totalDisplayCells unicode spaces ≤
      max 1 (totalDisplayCells unicode front)

variable {line : List Char}

/-- The measured parts of a range are its graphemes. -/
theorem parts_eq_graphemes
    (halone : ∀ character rest, character :: rest <:+: line →
      (mayJoin unicode character || rest.head?.any (mayJoin unicode)) = false →
      (unicode.segment (character :: rest)).head? = some [character])
    (hwidth : ∀ character ∈ line, mayJoin unicode character = false →
      displayCells unicode [character] = escapedScalarWidth character)
    {range : List Char} (hrange : range <:+: line) :
    parts unicode range = (unicode.segment range).map (graphemePart unicode) := by
  induction hlength : range.length using Nat.strongRecOn generalizing range with
  | ind length ih =>
    cases hcases : range with
    | nil =>
      rw [segment_nil, parts, dif_pos rfl]
      rfl
    | cons character rest =>
      have hfirst : ∃ others, unicode.segment (character :: rest) =
          (firstPart unicode (character :: rest)).text :: others ∧
          firstPart unicode (character :: rest) =
            graphemePart unicode (firstPart unicode (character :: rest)).text := by
        rw [firstPart]
        by_cases hquick : (mayJoin unicode character || rest.head?.any (mayJoin unicode)) = false
        · rw [if_pos hquick]
          have hhead := halone character rest (hcases ▸ hrange) hquick
          obtain ⟨others, hothers⟩ := List.head?_eq_some_iff.mp hhead
          refine ⟨others, hothers, ?_⟩
          have hmem : character ∈ line := hrange.subset (hcases ▸ List.mem_cons_self)
          have hsame := hwidth character hmem (Bool.or_eq_false_iff.mp hquick).1
          rw [graphemePart, hsame]
        · rw [if_neg hquick]
          cases hsegment : unicode.segment (character :: rest) with
          | nil =>
            have hflatten := unicode.flatten_segment (character :: rest)
            rw [hsegment] at hflatten
            exact absurd hflatten (by simp)
          | cons first others => exact ⟨others, rfl, rfl⟩
      obtain ⟨others, hsegment, hpart⟩ := hfirst
      have hne : character :: rest ≠ [] := List.cons_ne_nil _ _
      have hflatten := unicode.flatten_segment (character :: rest)
      have hrest := firstPart_rest unicode hne
      have hfirstne := (firstPart_spec unicode hne).1
      rw [hsegment, List.flatten_cons] at hflatten
      have hbehind : (character :: rest).drop (firstPart unicode (character :: rest)).text.length =
          others.flatten := List.append_cancel_left (hrest.trans hflatten.symm)
      have hshorter : others.flatten.length < length := by
        have hpositive := List.length_pos_iff.mpr hfirstne
        rw [← hlength, hcases, ← hflatten, List.length_append]
        omega
      have hwithin : others.flatten <:+: line := by
        rw [hcases, ← hflatten] at hrange
        exact (List.suffix_append _ _).isInfix.trans hrange
      have hsplit : unicode.segment (character :: rest) =
          [(firstPart unicode (character :: rest)).text] ++ others := hsegment
      rw [parts_of_ne_nil unicode hne, hsegment, List.map_cons, hbehind, ← hpart,
        ih _ hshorter hwithin rfl, segment_behind hsplit]

theorem MeasuresRight.parts (h : MeasuresRight unicode line) {range : List Char}
    (hrange : range <:+: line) :
    Henji.parts unicode range = (unicode.segment range).map (graphemePart unicode) :=
  parts_eq_graphemes h.alone h.width hrange

/-- Graphemes of a text are the graphemes of a range of it. -/
theorem segment_middle {text : List Char} {before inside behind : List (List Char)}
    (h : unicode.segment text = before ++ inside ++ behind) :
    inside.flatten <:+: text ∧ unicode.segment inside.flatten = inside := by
  refine ⟨⟨before.flatten, behind.flatten, ?_⟩, unicode.segment_inside text before inside behind h⟩
  rw [← unicode.flatten_segment text, h, List.flatten_append, List.flatten_append]

theorem MeasuresRight.steady (h : MeasuresRight unicode line) {range : List Char}
    (hrange : range <:+: line) : Steady (Henji.parts unicode range) := by
  rw [h.parts hrange]
  constructor
  · intro before part next after hall hzero
    obtain ⟨front, rest, hsplit, -, hrest⟩ := List.map_eq_append_iff.mp hall
    obtain ⟨grapheme, others, rfl, rfl, hothers⟩ := List.map_eq_cons_iff.mp hrest
    obtain ⟨following, behind, rfl, rfl, -⟩ := List.map_eq_cons_iff.mp hothers
    have hmiddle : unicode.segment range = front ++ [grapheme, following] ++ behind := by
      rw [hsplit, List.append_assoc]
      rfl
    obtain ⟨hwithin, hsegment⟩ := segment_middle hmiddle
    exact h.zero _ grapheme following (hwithin.trans hrange) hsegment hzero
  · intro before front spaces part after hall hends hne hspaces hkind hzero
    obtain ⟨outside, rest, hsplit, -, hrest⟩ := List.map_eq_append_iff.mp hall
    obtain ⟨rest, last, rfl, hrest, hlast⟩ := List.map_eq_append_iff.mp hrest
    obtain ⟨words, blanks, rfl, rfl, rfl⟩ := List.map_eq_append_iff.mp hrest
    obtain ⟨grapheme, behind, rfl, rfl, -⟩ := List.map_eq_cons_iff.mp hlast
    have hmiddle : unicode.segment range = outside ++ (words ++ blanks ++ [grapheme]) ++ behind := by
      rw [hsplit]
      simp
    obtain ⟨hwithin, hsegment⟩ := segment_middle hmiddle
    rw [totalCells_graphemes, totalCells_graphemes]
    refine h.space _ words blanks grapheme (hwithin.trans hrange) hsegment ?_ ?_ ?_ ?_ hkind hzero
    · obtain ⟨first, hfirst, hword⟩ := hends.first
      rw [List.head?_map] at hfirst
      obtain ⟨text, htext, rfl⟩ := Option.map_eq_some_iff.mp hfirst
      exact ⟨text, htext, hword⟩
    · obtain ⟨final, hfinal, hword⟩ := hends.last
      rw [List.getLast?_map] at hfinal
      obtain ⟨text, htext, rfl⟩ := Option.map_eq_some_iff.mp hfinal
      exact ⟨text, htext, hword⟩
    · rintro rfl
      exact hne rfl
    · exact fun space hmem => hspaces _ (List.mem_map_of_mem hmem)

/-! ## The rows are right -/

theorem between_infix (source : List Char) {start end_ first last : Nat} (hfirst : start ≤ first)
    (hlast : last ≤ end_) : between source first last <:+: between source start end_ := by
  have hsame : between source first last =
      ((between source start end_).drop (first - start)).take (last - first) := by
    rw [between, between, List.drop_take, List.drop_drop, List.take_take,
      show start + (first - start) = first by omega]
    congr 1
    omega
  rw [hsame]
  exact (List.take_prefix _ _).isInfix.trans (List.drop_suffix _ _).isInfix

section Right

variable {source : List Char} {position absoluteEnd : Nat} {rest : List Part}

theorem scannedWidth_parts {row after : List Part}
    (h : Ahead unicode source position absoluteEnd (row ++ after)) :
    scannedWidth unicode source absoluteEnd (position + (partsText row).length) position =
      totalCells row := by
  induction row generalizing position with
  | nil =>
    rw [scannedWidth, dif_neg (by simp)]
    rfl
  | cons part row ih =>
    obtain ⟨hinside, hmeasured, hbehind, -⟩ := h.cons
    have hmove : position < (projectedSegmentAt unicode source position absoluteEnd).end_ :=
      projectedSegmentAt_progress unicode source hinside
    rw [hmeasured] at hmove
    have hmore : position < position + (partsText (part :: row)).length := by
      rw [partsText_cons, List.length_append]
      dsimp only at hmove
      omega
    rw [scannedWidth, dif_pos ⟨hmore, hinside⟩]
    dsimp only
    rw [hmeasured]
    dsimp only
    rw [partsText_cons, List.length_append, ← Nat.add_assoc, ih hbehind, totalCells_cons]

/-- The rows of every range of a line where the measure agrees with the terminal. -/
theorem MeasuresRight.wraps {range : WrapRange} {lineEnd width : Nat} {wordAware : Bool}
    (h : MeasuresRight unicode (between source range.lineStart lineEnd))
    (hrange : range.Inside source) (hline : range.lineStart + range.sourceEnd ≤ lineEnd)
    (hwidth : 0 < width) :
    WrapsWell unicode source range width wordAware
      (ensureAllWrapRows unicode source range width wordAware (newWrapLayout range.sourceStart)) := by
  have htext : range.text source <:+: between source range.lineStart lineEnd :=
    between_infix source (Nat.le_add_right _ _) hline
  obtain ⟨hcomplete, cuts, hlaid⟩ :=
    (RowsLaid.start unicode hrange (max 1 width) wordAware).all hrange
  have hlimit : max 1 width = width := Nat.max_eq_right hwidth
  have hsteady := h.steady htext
  have hgraphemes := h.parts htext
  have hlazily := fun requests row => ensureWrapRow_any unicode source range width wordAware
    (newWrapLayout range.sourceStart) rfl requests row
  generalize ensureAllWrapRows unicode source range width wordAware
    (newWrapLayout range.sourceStart) = all at *
  have hrows : all.rows = spans range.sourceStart cuts := by
    rw [WrapLayout.rows, hlaid.boundaries, hlaid.ends, zip_spans]
  have hsplit := hlaid.split
  rw [List.append_nil] at hsplit
  have hahead : Ahead unicode source _ _ _ :=
    Ahead.of_range (Nat.add_le_add_left hrange.order range.lineStart) hrange.inside
  rw [← WrapRange.text, hsplit] at hahead
  have hlength := hahead.length
  -- What is known of a row.
  have hrow : ∀ row ∈ all.rows, ∃ before cut behind, cuts = before ++ cut :: behind ∧
      row.1 = range.sourceStart + (partsText (cutsParts before ++ cut.lead)).length ∧
      row.2 = row.1 + (partsText cut.row).length ∧
      Henji.parts unicode (range.text source) =
        cutsParts before ++ cut.lead ++ (cut.row ++ (cut.trail ++ cutsParts behind)) := by
    intro row hmem
    rw [hrows] at hmem
    obtain ⟨before, cut, behind, hcuts, hfirst, hlast⟩ := mem_spans hmem
    refine ⟨before, cut, behind, hcuts, hfirst, hlast, ?_⟩
    rw [hsplit, hcuts]
    simp [cutsParts, Cut.all]
  have hshown : ∀ row ∈ all.rows, ∃ cut ∈ cuts,
      range.rowText source row = partsText cut.row ∧
      scannedWidth unicode source (range.lineStart + range.sourceEnd) (range.lineStart + row.2)
        (range.lineStart + row.1) = totalCells cut.row ∧
      displayCells unicode (range.rowText source row) = totalCells cut.row ∧
      unicode.segment (range.rowText source row) = cut.row.map Part.text := by
    intro row hmem
    obtain ⟨before, cut, behind, hcuts, hfirst, hlast, hparts⟩ := hrow row hmem
    rw [← hsplit, hparts] at hahead
    have hhere := hahead.append
    rw [Nat.add_assoc, ← hfirst] at hhere
    have hrowText : range.rowText source row = partsText cut.row := by
      rw [WrapRange.rowText, hlast, ← Nat.add_assoc]
      exact hhere.front
    have hscanned := scannedWidth_parts hhere
    rw [Nat.add_assoc, ← hlast] at hscanned
    rw [hgraphemes] at hparts
    obtain ⟨outside, others, hall, -, hothers⟩ := List.map_eq_append_iff.mp hparts
    obtain ⟨graphemes, behindGraphemes, rfl, hgrapheme, -⟩ := List.map_eq_append_iff.mp hothers
    rw [← List.append_assoc] at hall
    obtain ⟨hwithin, hsegment⟩ := segment_middle hall
    have hflatten : partsText cut.row = graphemes.flatten := by
      rw [← hgrapheme, partsText_graphemes]
    refine ⟨cut, by rw [hcuts]; simp, hrowText, hscanned, ?_, ?_⟩
    · rw [hrowText, hflatten, h.sum _ (hwithin.trans htext), hsegment, ← hgrapheme,
        totalCells_graphemes]
    · rw [hrowText, hflatten, hsegment, ← hgrapheme, List.map_map]
      exact (List.map_id graphemes).symm
  have hboundary : ∀ front behind,
      Henji.parts unicode (range.text source) = front ++ behind →
      IsBoundary unicode (range.text source) (partsText front).length := by
    intro front behind hparts
    rw [hgraphemes] at hparts
    obtain ⟨before, after, hall, rfl, -⟩ := List.map_eq_append_iff.mp hparts
    exact ⟨before, after, hall, by rw [partsText_graphemes]⟩
  refine ⟨hcomplete, ?_, ?_, ?_, ?_, ?_, ?_, ?_, ?_⟩
  · rw [hlaid.boundaries, hlaid.ends, List.length_map, List.length_map]
  · intro row hmem
    obtain ⟨before, cut, behind, hcuts, hfirst, hlast, hparts⟩ := hrow row hmem
    rw [← hsplit, hparts] at hlength
    simp only [partsText_append, List.length_append] at hlength hfirst
    refine ⟨?_, ?_, ?_⟩ <;> omega
  · rw [hrows]
    exact (spans_ordered range.sourceStart cuts).1
  · intro row hmem
    obtain ⟨before, cut, behind, hcuts, hfirst, hlast, hparts⟩ := hrow row hmem
    refine ⟨?_, ?_⟩
    · rw [hfirst, Nat.add_sub_cancel_left]
      exact hboundary _ _ hparts
    · rw [hlast, hfirst, Nat.add_assoc, Nat.add_sub_cancel_left, ← List.length_append,
        ← partsText_append]
      rw [← List.append_assoc] at hparts
      exact hboundary _ _ hparts
  · intro offset hfrom hto
    have hinside : range.lineStart + offset < source.length := by
      have hend := hrange.inside
      omega
    have hcharacter : (partsText (cutsParts cuts))[offset - range.sourceStart]? =
        some source[range.lineStart + offset] := by
      rw [← hahead.text, between, List.getElem?_take_of_lt (by omega), List.getElem?_drop,
        show range.lineStart + range.sourceStart + (offset - range.sourceStart) =
          range.lineStart + offset by omega, List.getElem?_eq_getElem hinside]
    have hspaces : ∀ cut ∈ cuts, ∀ part ∈ cut.lead ++ cut.trail, part.isSpace = true :=
      fun cut hmem => (hlaid.fits cut hmem).spaces
    rw [hrows]
    rcases mem_spans_or_space range.sourceStart hspaces hcharacter with hin | ⟨htrimmed, cut, hcut, hne⟩
    · rw [Nat.add_sub_cancel' hfrom] at hin
      exact .inl hin
    · refine .inr ⟨?_, _, List.getElem?_eq_getElem hinside, htrimmed⟩
      by_contra hhard
      obtain ⟨hlead, htrail⟩ := (hlaid.fits cut hcut).hard (by simpa using hhard)
      exact hne (by rw [hlead, htrail]; rfl)
  · intro row hmem
    obtain ⟨cut, hcut, hrowText, -, hcells, hsegment⟩ := hshown row hmem
    rcases (hlaid.fits cut hcut).cells hsteady (Nat.lt_of_lt_of_le Nat.one_pos (Nat.le_max_left 1 width)) with hfits | ⟨part, hpart⟩
    · rw [hcells, ← hlimit]
      exact .inl hfits
    · refine .inr ?_
      rw [hsegment, hrowText, hpart]
      simp
  · intro row hmem
    obtain ⟨cut, -, -, hscanned, hcells, -⟩ := hshown row hmem
    rw [hscanned, hcells]
  · exact fun requests row => ⟨(hlazily requests row).1, (hlazily requests row).2.1⟩

/-! ## Rows that are taken whole -/

theorem exceeds_mono {maxWidth : Option Nat} {width wider : Nat} (hle : width ≤ wider)
    (h : exceeds maxWidth wider = false) : exceeds maxWidth width = false := by
  cases maxWidth with
  | none => rfl
  | some limit =>
    have hwider : ¬limit < wider := of_decide_eq_false h
    exact decide_eq_false (by omega)

/-- A run ends where another kind of part is. -/
theorem run_unique {kind : Bool} {run tail found after : List Part}
    (h : run ++ tail = found ++ after) (hrun : ∀ part ∈ run, part.isSpace = kind)
    (htail : ∀ part ∈ tail.head?, part.isSpace ≠ kind) (hfound : ∀ part ∈ found, part.isSpace = kind) :
    ∃ more, run = found ++ more ∧ after = more ++ tail := by
  induction found generalizing run with
  | nil => exact ⟨run, rfl, h.symm⟩
  | cons part found ih =>
    cases run with
    | nil =>
      rw [List.nil_append] at h
      exact absurd (hfound part List.mem_cons_self) (htail part (by rw [h]; rfl))
    | cons first run =>
      obtain ⟨rfl, hrest⟩ := List.cons.inj h
      obtain ⟨more, rfl, hafter⟩ := ih hrest
        (fun other hmem => hrun other (List.mem_cons_of_mem _ hmem))
        (fun other hmem => hfound other (List.mem_cons_of_mem _ hmem))
      exact ⟨more, rfl, hafter⟩

theorem scanRun_whole (kind : Bool) (maxWidth : Option Nat) {lineStart runStart sourceEnd : Nat}
    {run tail : List Part}
    (h : Ahead unicode source (lineStart + runStart) (lineStart + sourceEnd) (run ++ tail))
    (hrun : ∀ part ∈ run, part.isSpace = kind) (htail : ∀ part ∈ tail.head?, part.isSpace ≠ kind)
    (hroom : exceeds maxWidth (totalCells run) = false) :
    scanRun unicode source lineStart runStart sourceEnd kind maxWidth =
      ⟨runStart + (partsText run).length, totalCells run, true⟩ := by
  obtain ⟨found, after, finished, hfound, hscan⟩ := scanRun_spec kind maxWidth h
  obtain ⟨more, hmore, hafter⟩ := run_unique hfound.split hrun htail hfound.kind
  have hnothing : more = [] := by
    cases more with
    | nil => rfl
    | cons part more =>
      have hkind : part.isSpace = kind := hrun part (by rw [hmore]; simp)
      cases finished with
      | true => exact absurd hkind (hfound.complete rfl part (by rw [hafter]; rfl))
      | false =>
        obtain ⟨other, hother, -, hwide⟩ := hfound.more rfl
        obtain rfl : part = other := by
          rw [hafter] at hother
          exact Option.some.inj hother
        rw [Nat.zero_add] at hwide
        have hle : totalCells found + part.width ≤ totalCells run := by
          rw [hmore, totalCells_append, totalCells_cons]
          omega
        exact absurd (exceeds_mono hle hroom) (by simp [hwide])
  rw [hnothing, List.append_nil] at hmore
  rw [hnothing, List.nil_append] at hafter
  have hfinished : finished = true := by
    by_contra hnot
    obtain ⟨part, hpart, hkind, -⟩ := hfound.more (by simpa using hnot)
    rw [hafter] at hpart
    exact htail part hpart hkind
  rw [hscan, hmore, hfinished]

/-- One more word that there is room for. -/
theorem wordsFrom_word (width rowStart used : Nat) {lineStart sourceEnd position : Nat}
    {run word tail : List Part}
    (h : Ahead unicode source (lineStart + position) (lineStart + sourceEnd) (run ++ (word ++ tail)))
    (hrun : ∀ part ∈ run, part.isSpace = true) (hrunne : run ≠ [])
    (hword : ∀ part ∈ word, part.isSpace = false) (hwordne : word ≠ [])
    (htail : ∀ part ∈ tail.head?, part.isSpace = true)
    (hroom : totalCells word ≤ width - used - totalCells run) :
    wordsFrom unicode source sourceEnd lineStart width rowStart used position =
      wordsFrom unicode source sourceEnd lineStart width rowStart
        (used + (totalCells run + totalCells word))
        (position + (partsText (run ++ word)).length) := by
  obtain ⟨first, others, hfirst⟩ := List.exists_cons_of_ne_nil hwordne
  have hbehind : Ahead unicode source (lineStart + (position + (partsText run).length))
      (lineStart + sourceEnd) (word ++ tail) := by
    rw [← Nat.add_assoc]
    exact h.append
  have hmore : position + (partsText run).length < sourceEnd := by
    rw [hfirst] at hbehind
    have hinside := (Ahead.cons hbehind).1
    omega
  have hspaces := scanRun_whole true none h hrun (by
    rw [hfirst]
    intro part hpart
    rw [← Option.some.inj hpart, hword first (hfirst ▸ List.mem_cons_self)]
    decide) rfl
  have hletters := scanRun_whole false (some (width - used - totalCells run)) hbehind hword
    (fun part hpart => by rw [htail part hpart]; decide) (decide_eq_false (Nat.not_lt.mpr hroom))
  have hrunpos := partsText_pos h rfl hrunne
  have hwordpos := partsText_pos hbehind rfl hwordne
  rw [wordsFrom, if_pos (by omega)]
  dsimp only
  rw [hspaces]
  dsimp only
  rw [dif_neg (by omega), if_neg (by omega), hletters]
  dsimp only
  rw [if_neg (by decide), if_neg (by omega)]
  simp only [partsText_append, List.length_append, Nat.add_assoc]

theorem exists_run (kind : Bool) (all : List Part) : ∃ run more, all = run ++ more ∧
    (∀ part ∈ run, part.isSpace = kind) ∧ ∀ part ∈ more.head?, part.isSpace ≠ kind := by
  induction all with
  | nil => exact ⟨[], [], rfl, by simp, by simp⟩
  | cons part all ih =>
    by_cases hkind : part.isSpace = kind
    · obtain ⟨run, more, hsplit, hrun, hmore⟩ := ih
      exact ⟨part :: run, more, by rw [hsplit, List.cons_append],
        List.forall_mem_cons.mpr ⟨hkind, hrun⟩, hmore⟩
    · refine ⟨[], part :: all, rfl, by simp, fun other hother => ?_⟩
      rw [← Option.some.inj hother]
      exact hkind

/-- The words of a row, while there is room for all. -/
theorem wordsFrom_words {lineStart sourceEnd width rowStart used position : Nat}
    {middle tail : List Part}
    (h : Ahead unicode source (lineStart + position) (lineStart + sourceEnd) (middle ++ tail))
    (hfirst : ∀ part ∈ middle.head?, part.isSpace = true)
    (hlast : ∀ part ∈ middle.getLast?, part.isSpace = false)
    (htail : ∀ part ∈ tail.head?, part.isSpace = true)
    (hroom : used + totalCells middle ≤ width) :
    wordsFrom unicode source sourceEnd lineStart width rowStart used position =
      wordsFrom unicode source sourceEnd lineStart width rowStart (used + totalCells middle)
        (position + (partsText middle).length) := by
  induction hlength : middle.length using Nat.strongRecOn generalizing middle used position with
  | ind length ih =>
    obtain ⟨run, behind, hsplit, hrun, hbehind⟩ := exists_run true middle
    obtain ⟨word, more, hsplitBehind, hword, hmore⟩ := exists_run false behind
    by_cases hempty : middle = []
    · rw [hempty]
      rfl
    · have hrunne : run ≠ [] := by
        rintro rfl
        obtain ⟨part, others, hpart⟩ := List.exists_cons_of_ne_nil hempty
        have hspace := hfirst part (by rw [hpart]; rfl)
        rw [List.nil_append] at hsplit
        exact hbehind part (by rw [← hsplit, hpart]; rfl) hspace
      have hbehindne : behind ≠ [] := by
        rintro rfl
        rw [List.append_nil] at hsplit
        obtain ⟨final, hfinal⟩ : ∃ final, middle.getLast? = some final :=
          ⟨_, List.getLast?_eq_some_getLast hempty⟩
        have hspace := hrun final (hsplit ▸ List.mem_of_getLast? hfinal)
        rw [hlast final hfinal] at hspace
        exact absurd hspace (by decide)
      have hwordne : word ≠ [] := by
        rintro rfl
        rw [List.nil_append] at hsplitBehind
        obtain ⟨part, others, hpart⟩ := List.exists_cons_of_ne_nil hbehindne
        have hnot := hbehind part (by rw [hpart]; rfl)
        have hword := hmore part (by rw [← hsplitBehind, hpart]; rfl)
        exact hword (by simpa using hnot)
      have hmiddle : middle = run ++ word ++ more := by
        rw [hsplit, hsplitBehind, List.append_assoc]
      have hspaceAhead : ∀ part ∈ (more ++ tail).head?, part.isSpace = true := by
        intro part hpart
        rw [List.head?_append] at hpart
        cases hhead : more.head? with
        | none =>
          rw [hhead] at hpart
          exact htail part hpart
        | some other =>
          rw [hhead] at hpart
          obtain rfl : other = part := Option.some.inj hpart
          have hnot := hmore other hhead
          simpa using hnot
      have hlastMore : ∀ part ∈ more.getLast?, part.isSpace = false := by
        intro part hpart
        refine hlast part ?_
        rw [hmiddle, List.getLast?_append, hpart]
        rfl
      have hfirstMore : ∀ part ∈ more.head?, part.isSpace = true := by
        intro part hpart
        refine hspaceAhead part ?_
        rw [List.head?_append, hpart]
        rfl
      have htotal : totalCells middle = totalCells run + totalCells word + totalCells more := by
        rw [hmiddle, totalCells_append, totalCells_append]
      have hall : Ahead unicode source (lineStart + position) (lineStart + sourceEnd)
          (run ++ (word ++ (more ++ tail))) := by
        rw [hmiddle] at h
        simpa only [List.append_assoc] using h
      have hone := wordsFrom_word width rowStart used hall hrun hrunne
        hword hwordne hspaceAhead (by omega)
      have hrest : Ahead unicode source (lineStart + (position + (partsText (run ++ word)).length))
          (lineStart + sourceEnd) (more ++ tail) := by
        rw [← Nat.add_assoc]
        rw [← List.append_assoc] at hall
        exact hall.append
      have hshorter : more.length < length := by
        have hpositive := List.length_pos_iff.mpr hrunne
        rw [← hlength, hmiddle, List.length_append, List.length_append]
        omega
      rw [hone, ih _ hshorter hrest hfirstMore hlastMore (by omega) rfl, htotal, hmiddle]
      simp only [partsText_append, List.length_append, Nat.add_assoc]

/-- A row takes a grapheme without cells behind white space, even where it is full. -/
theorem nextWordSlice_overfull (width : Nat) {nextSource sourceEnd lineStart : Nat}
    {front spaces : List Part} {part : Part}
    (h : Ahead unicode source (lineStart + nextSource) (lineStart + sourceEnd)
      (front ++ spaces ++ [part]))
    (hends : WordEnds front) (hspacesne : spaces ≠ [])
    (hspaces : ∀ space ∈ spaces, space.isSpace = true) (hkind : part.isSpace = false)
    (hzero : part.width = 0) (hroom : totalCells front ≤ width) :
    nextWordSlice unicode source nextSource sourceEnd lineStart width =
      ⟨nextSource, sourceEnd, sourceEnd⟩ := by
  obtain ⟨first, hfirst, hfirstKind⟩ := hends.first
  obtain ⟨word, middle, hsplit, hword, hmiddle⟩ := exists_run false front
  have hfrontne : front ≠ [] := by
    rintro rfl
    exact absurd hfirst (by simp)
  have hwordne : word ≠ [] := by
    rintro rfl
    rw [List.nil_append] at hsplit
    exact hmiddle first (hsplit ▸ hfirst) hfirstKind
  have hspaceAhead : ∀ next ∈ (middle ++ (spaces ++ [part])).head?, next.isSpace = true := by
    intro other hother
    rw [List.head?_append] at hother
    cases hhead : middle.head? with
    | none =>
      rw [hhead, Option.none_or, List.head?_append] at hother
      obtain ⟨space, more, hspace⟩ := List.exists_cons_of_ne_nil hspacesne
      rw [hspace] at hother
      obtain rfl : space = other := Option.some.inj hother
      exact hspaces space (hspace ▸ List.mem_cons_self)
    | some next =>
      rw [hhead] at hother
      obtain rfl : next = other := Option.some.inj hother
      simpa using hmiddle next hhead
  have hlastMiddle : ∀ part ∈ middle.getLast?, part.isSpace = false := by
    intro other hother
    obtain ⟨last, hlast, hlastKind⟩ := hends.last
    rw [hsplit, List.getLast?_append, hother] at hlast
    obtain rfl : other = last := Option.some.inj hlast
    exact hlastKind
  have hfirstMiddle : ∀ part ∈ middle.head?, part.isSpace = true := by
    intro other hother
    refine hspaceAhead other ?_
    rw [List.head?_append, hother]
    rfl
  have htotal : totalCells front = totalCells word + totalCells middle := by
    rw [hsplit, totalCells_append]
  have hall : Ahead unicode source (lineStart + nextSource) (lineStart + sourceEnd)
      (word ++ (middle ++ (spaces ++ [part]))) := by
    rw [hsplit] at h
    simpa only [List.append_assoc] using h
  have hwordpos := partsText_pos hall rfl hwordne
  have hlength := hall.length
  rw [partsText_append, List.length_append] at hlength
  have hnone : Ahead unicode source (lineStart + nextSource) (lineStart + sourceEnd)
      ([] ++ (word ++ (middle ++ (spaces ++ [part])))) := hall
  have hlead := scanRun_whole true none hnone (by simp) (by
    intro other hother
    obtain ⟨head, others, hhead⟩ := List.exists_cons_of_ne_nil hwordne
    rw [hhead] at hother
    obtain rfl : head = other := Option.some.inj hother
    rw [hword head (hhead ▸ List.mem_cons_self)]
    decide) rfl
  have hletters := scanRun_whole false (some width) hall hword
    (fun other hother => by rw [hspaceAhead other hother]; decide)
    (decide_eq_false (by omega))
  rw [nextWordSlice, if_neg (by omega), hlead]
  dsimp only
  rw [partsText_nil, List.length_nil, Nat.add_zero, if_neg (Nat.lt_irrefl _), if_neg (by omega), hletters]
  dsimp only
  rw [if_neg (by decide), if_neg (by omega)]
  have hbehind : Ahead unicode source (lineStart + (nextSource + (partsText word).length))
      (lineStart + sourceEnd) (middle ++ (spaces ++ [part])) := by
    rw [← Nat.add_assoc]
    exact hall.append
  have hspaceTail : ∀ next ∈ (spaces ++ [part]).head?, next.isSpace = true := by
    intro other hother
    obtain ⟨space, more, hspace⟩ := List.exists_cons_of_ne_nil hspacesne
    rw [hspace] at hother
    obtain rfl : space = other := Option.some.inj hother
    exact hspaces space (hspace ▸ List.mem_cons_self)
  rw [wordsFrom_words hbehind hfirstMiddle hlastMiddle hspaceTail (by omega)]
  have hend : Ahead unicode source (lineStart + (nextSource + (partsText word).length +
      (partsText middle).length)) (lineStart + sourceEnd) (spaces ++ ([part] ++ [])) := by
    rw [← Nat.add_assoc]
    exact hbehind.append
  -- There is no room for the white space, but none is needed for the grapheme.
  rw [wordsFrom_word _ _ _ hend hspaces hspacesne (by simpa using hkind) (by simp) (by simp)
    (by rw [totalCells_cons, totalCells_nil, hzero]; exact Nat.zero_le _)]
  have hdone : nextSource + (partsText word).length + (partsText middle).length +
      (partsText (spaces ++ [part])).length = sourceEnd := by
    rw [partsText_append, List.length_append] at hlength
    omega
  rw [hdone, wordsFrom, if_neg (Nat.lt_irrefl _)]

/-! ## Rows that are wrong -/

/-- A range of a line. -/
theorem exists_range {lineStart lineEnd : Nat} (horder : lineStart ≤ lineEnd)
    (hend : lineEnd ≤ source.length) {text : List Char}
    (h : text <:+: between source lineStart lineEnd) :
    ∃ range : WrapRange, range.lineStart = lineStart ∧ range.Inside source ∧
      range.lineStart + range.sourceEnd ≤ lineEnd ∧ range.text source = text ∧
      range.sourceEnd = range.sourceStart + text.length := by
  obtain ⟨before, behind, hline⟩ := h
  have hlength : (between source lineStart lineEnd).length = lineEnd - lineStart := by
    rw [between, List.length_take, List.length_drop]
    omega
  rw [← hline, List.length_append, List.length_append] at hlength
  refine ⟨⟨lineStart, before.length, before.length + text.length⟩, rfl, ⟨Nat.le_add_right _ _, ?_⟩, ?_,
    ?_, rfl⟩
  · show lineStart + (before.length + text.length) ≤ _
    omega
  · show lineStart + (before.length + text.length) ≤ _
    omega
  · have hsame := congrArg (fun line => (line.drop before.length).take text.length) hline
    rw [List.append_assoc, List.drop_left, List.take_left, between, List.drop_take, List.drop_drop,
      List.take_take, Nat.min_eq_left (by omega)] at hsame
    rw [WrapRange.text, between, show lineStart + (before.length + text.length) -
      (lineStart + before.length) = text.length by omega]
    exact hsame.symm

variable {range : WrapRange} {width : Nat} {wordAware : Bool}

/-- The first row is what is cut first. -/
theorem first_row_mem (source : List Char) (range : WrapRange) (width : Nat) (wordAware : Bool)
    (hnonempty : range.sourceStart ≠ range.sourceEnd)
    (hprogress : range.sourceStart <
      (nextSlice unicode source range (max 1 width) wordAware range.sourceStart).next) :
    ((nextSlice unicode source range (max 1 width) wordAware range.sourceStart).start,
        (nextSlice unicode source range (max 1 width) wordAware range.sourceStart).end_) ∈
      (ensureAllWrapRows unicode source range width wordAware
        (newWrapLayout range.sourceStart)).rows := by
  rw [ensureAllWrapRows_step rfl]
  have hlater : (nextWrapRow unicode source range (max 1 width) wordAware
      (newWrapLayout range.sourceStart)).Extends
      (ensureAllWrapRows unicode source range width wordAware (nextWrapRow unicode source range
        (max 1 width) wordAware (newWrapLayout range.sourceStart))) := ensureAllWrapRows_extends
  have hfirst : nextWrapRow unicode source range (max 1 width) wordAware
      (newWrapLayout range.sourceStart) =
      { boundaries := [(nextSlice unicode source range (max 1 width) wordAware range.sourceStart).start]
        ends := [(nextSlice unicode source range (max 1 width) wordAware range.sourceStart).end_]
        nextSource := (nextSlice unicode source range (max 1 width) wordAware range.sourceStart).next
        complete := decide (range.sourceEnd ≤
          (nextSlice unicode source range (max 1 width) wordAware range.sourceStart).next) } := by
    rw [nextWrapRow, if_neg hnonempty]
    exact if_neg (Nat.not_le.mpr hprogress)
  rw [hfirst] at hlater ⊢
  obtain ⟨starts, hstarts⟩ := hlater.boundaries
  obtain ⟨stops, hstops⟩ := hlater.ends
  rw [WrapLayout.rows, ← hstarts, ← hstops]
  exact List.mem_cons_self

/-- The first hard row. -/
theorem hard_row {rest : List Part} (hrange : range.Inside source) (hwidth : 0 < width)
    (hparts : parts unicode (range.text source) = rest) (hne : rest ≠ []) :
    ∃ row after, rest = row ++ after ∧ RowCells width 0 row ∧
      (∀ part ∈ after.head?, 0 < totalCells row ∧ width < totalCells row + part.width) ∧
      (range.sourceStart, range.sourceStart + (partsText row).length) ∈
        (ensureAllWrapRows unicode source range width false (newWrapLayout range.sourceStart)).rows ∧
      range.rowText source (range.sourceStart, range.sourceStart + (partsText row).length) =
        partsText row ∧
      scannedWidth unicode source (range.lineStart + range.sourceEnd)
        (range.lineStart + (range.sourceStart + (partsText row).length))
        (range.lineStart + range.sourceStart) = totalCells row := by
  have hahead : Ahead unicode source _ _ _ :=
    Ahead.of_range (Nat.add_le_add_left hrange.order range.lineStart) hrange.inside
  rw [← WrapRange.text, hparts] at hahead
  obtain ⟨row, after, hsplit, hend, hcells, hmore⟩ := nextHardBoundary_spec width hahead hne
  have hrowne : row ≠ [] := by
    rintro rfl
    obtain ⟨part, others, hpart⟩ := List.exists_cons_of_ne_nil hne
    rw [List.nil_append] at hsplit
    exact Nat.lt_irrefl 0 (hmore part (by rw [← hsplit, hpart]; rfl)).1
  have hpositive := partsText_pos hahead hsplit hrowne
  have hslice : nextSlice unicode source range (max 1 width) false range.sourceStart =
      ⟨range.sourceStart, range.sourceStart + (partsText row).length,
        range.sourceStart + (partsText row).length⟩ := by
    rw [nextSlice, if_neg (by decide), Nat.max_eq_right hwidth, hend]
  have hlength := hahead.length
  rw [hsplit, partsText_append, List.length_append] at hlength
  have hprogress : range.sourceStart <
      (nextSlice unicode source range (max 1 width) false range.sourceStart).next := by
    rw [hslice]
    exact Nat.lt_add_of_pos_right hpositive
  have hmem := first_row_mem source range width false (by omega) hprogress
  rw [hslice] at hmem
  rw [hsplit] at hahead
  refine ⟨row, after, hsplit, hcells, hmore, hmem, ?_, ?_⟩
  · rw [WrapRange.rowText, ← Nat.add_assoc]
    exact hahead.front
  · rw [← Nat.add_assoc]
    exact scannedWidth_parts hahead

end Right

/-! ## Characters that are shown -/

/-- What an escape begins with is no mark. -/
def Segmentation.PlainEscapes (unicode : Segmentation) : Prop :=
  unicode.isMark '\\' = false ∧ unicode.isMark '⇥' = false

theorem scalarCellWidth_pos (character : Char) : 0 < scalarCellWidth character := by
  rw [scalarCellWidth]
  split <;> decide

theorem escapedScalarWidth_pos (character : Char) : 0 < escapedScalarWidth character := by
  rw [escapedScalarWidth]
  split
  · decide
  · split
    · exact Nat.succ_pos _
    · exact scalarCellWidth_pos character

variable (unicode) in
/-- A character that takes no cell of its own. -/
def takesNoCell (character : Char) : Bool :=
  character.toNat == 0x200d || unicode.isMark character || isEmojiModifier character ||
    isEmojiTag character

theorem takesNoCell_of_alone {character : Char} (h : mayJoin unicode character = false) :
    takesNoCell unicode character = false := by
  rw [mayJoin] at h
  rw [takesNoCell]
  simp only [Bool.or_eq_false_iff] at h ⊢
  obtain ⟨⟨⟨hjoined, hmark⟩, hmodifier⟩, htag⟩ := h
  refine ⟨⟨⟨?_, hmark⟩, hmodifier⟩, htag⟩
  rw [potentiallyJoined] at hjoined
  simp only [Bool.or_eq_false_iff] at hjoined
  exact hjoined.1.1.1.1.1.1.1.1.1.1.1

theorem graphemeCellWidth_pos {text : List Char} {character : Char} (hmem : character ∈ text)
    (hcell : takesNoCell unicode character = false) : 0 < graphemeCellWidth unicode text := by
  rw [graphemeCellWidth]
  split
  · decide
  · next hother =>
    suffices hfold : ∀ width, character ∈ text ∨ 0 < width → 0 < text.foldl (fun width character =>
        if character.toNat == 0x200d || unicode.isMark character || isEmojiModifier character ||
          isEmojiTag character then width else max width (scalarCellWidth character)) width from
      hfold 0 (.inl hmem)
    clear hmem hother
    induction text with
    | nil => exact fun width h => h.resolve_left List.not_mem_nil
    | cons first text ih =>
      intro width h
      rw [List.foldl_cons]
      refine ih _ ?_
      rcases h with hmem | hpositive
      · rcases List.mem_cons.mp hmem with rfl | hrest
        · refine .inr ?_
          rw [takesNoCell] at hcell
          rw [if_neg (by simp [hcell])]
          exact Nat.lt_of_lt_of_le (scalarCellWidth_pos character) (Nat.le_max_right _ _)
        · exact .inl hrest
      · refine .inr ?_
        split
        · exact hpositive
        · exact Nat.lt_of_lt_of_le hpositive (Nat.le_max_left _ _)

theorem cellWidth_pos {text : List Char} {character : Char} (hmem : character ∈ text)
    (hcell : takesNoCell unicode character = false) : 0 < cellWidth unicode text := by
  rw [cellWidth]
  by_cases hascii : isPrintableAscii text = true
  · rw [if_pos hascii]
    exact List.length_pos_of_mem hmem
  · rw [if_neg hascii, segmentTerminalText, if_neg hascii]
    -- The grapheme of the character takes a cell.
    have hflatten := unicode.flatten_segment text
    rw [← hflatten] at hmem
    obtain ⟨grapheme, hgrapheme, hinside⟩ := List.mem_flatten.mp hmem
    have hsegment : graphemeCellWidth unicode grapheme ∈
        (segmentsFrom (graphemeCellWidth unicode) 0 (unicode.segment text)).map
          TerminalTextSegment.cellWidth := by
      generalize 0 = start
      generalize unicode.segment text = graphemes at hgrapheme
      induction graphemes generalizing start with
      | nil => exact absurd hgrapheme List.not_mem_nil
      | cons first graphemes ih =>
        rw [segmentsFrom, List.map_cons]
        rcases List.mem_cons.mp hgrapheme with rfl | hrest
        · exact List.mem_cons_self
        · exact List.mem_cons_of_mem _ (ih _ hrest)
    exact List.sum_pos_iff_exists_pos_nat.mpr ⟨_, hsegment, graphemeCellWidth_pos hinside hcell⟩

/-- A grapheme that begins with a scalar that joins nothing takes a cell. -/
theorem displayCells_pos (hplain : unicode.PlainEscapes) {first : Char} {rest : List Char}
    (h : mayJoin unicode first = false) : 0 < displayCells unicode (first :: rest) := by
  have hshown : ∃ shown ∈ escapeCharacter first, takesNoCell unicode shown = false := by
    rw [escapeCharacter]
    split
    · next hfeed =>
      have hsame : first = '\n' := Char.toNat_inj.mp hfeed
      exact ⟨'\n', List.mem_cons_self, hsame ▸ takesNoCell_of_alone h⟩
    · split
      · refine ⟨'⇥', List.mem_cons_self, ?_⟩
        rw [takesNoCell, hplain.2]
        decide
      · split
        · refine ⟨'\\', by simp [escapedCodePoint], ?_⟩
          rw [takesNoCell, hplain.1]
          decide
        · exact ⟨first, List.mem_cons_self, takesNoCell_of_alone h⟩
  obtain ⟨shown, hmem, hcell⟩ := hshown
  have hinside : shown ∈ escapeTerminalText (first :: rest) := by
    rw [escapeTerminalText, List.flatMap_cons]
    exact List.mem_append_left _ hmem
  exact cellWidth_pos hinside hcell

theorem firstPart_pos (hplain : unicode.PlainEscapes) {first : Char} (rest : List Char)
    (h : mayJoin unicode first = false) : 0 < (firstPart unicode (first :: rest)).width := by
  rw [firstPart]
  split
  · exact escapedScalarWidth_pos first
  · cases hsegment : unicode.segment (first :: rest) with
    | nil =>
      have hflatten := unicode.flatten_segment (first :: rest)
      rw [hsegment] at hflatten
      exact absurd hflatten (by simp)
    | cons grapheme others =>
      have hflatten := unicode.flatten_segment (first :: rest)
      have hne := unicode.segment_ne_nil _ grapheme (hsegment ▸ List.mem_cons_self)
      obtain ⟨head, more, rfl⟩ := List.exists_cons_of_ne_nil hne
      rw [hsegment, List.flatten_cons] at hflatten
      obtain rfl : head = first := (List.cons.inj hflatten).1
      exact displayCells_pos hplain h

/-! ## Lines -/

variable (unicode) in
/-- Every range of a line is wrapped as it should be, at every width and in both ways. -/
def LineWraps (source : List Char) (lineStart lineEnd : Nat) : Prop :=
  ∀ range : WrapRange, range.lineStart = lineStart → range.Inside source →
    range.lineStart + range.sourceEnd ≤ lineEnd → ∀ width, 1 ≤ width → ∀ wordAware,
      WrapsWell unicode source range width wordAware
        (ensureAllWrapRows unicode source range width wordAware (newWrapLayout range.sourceStart))

section Line

variable {source : List Char} {lineStart lineEnd : Nat}

/-- What the first hard row of a text is, in a line that wraps well. -/
theorem LineWraps.hardRow (h : LineWraps unicode source lineStart lineEnd)
    (horder : lineStart ≤ lineEnd) (hend : lineEnd ≤ source.length) {text : List Char}
    (htext : text <:+: between source lineStart lineEnd) (hne : text ≠ []) {width : Nat}
    (hwidth : 1 ≤ width) :
    ∃ row after, parts unicode text = row ++ after ∧ RowCells width 0 row ∧
      (∀ part ∈ after.head?, 0 < totalCells row ∧ width < totalCells row + part.width) ∧
      IsBoundary unicode text (partsText row).length ∧
      (displayCells unicode (partsText row) ≤ width ∨
        unicode.segment (partsText row) = [partsText row]) ∧
      totalCells row = displayCells unicode (partsText row) := by
  obtain ⟨range, hstart, hrange, hline, rfl, -⟩ := exists_range horder hend htext
  have hpartsne : parts unicode (range.text source) ≠ [] := fun hnone => hne (parts_eq_nil unicode hnone)
  obtain ⟨row, after, hsplit, hcells, hmore, hmem, hrowText, hscanned⟩ :=
    hard_row hrange hwidth rfl hpartsne
  have hwell := h range hstart hrange hline width hwidth false
  have hboundary := (hwell.boundaries _ hmem).2
  rw [Nat.add_sub_cancel_left] at hboundary
  have hfits := hwell.fits _ hmem
  have hsame := hwell.scanned _ hmem
  rw [hrowText] at hfits hsame
  exact ⟨row, after, hsplit, hcells, hmore, hboundary, hfits, hscanned.symm.trans hsame⟩

theorem LineWraps.width (h : LineWraps unicode source lineStart lineEnd)
    (horder : lineStart ≤ lineEnd) (hend : lineEnd ≤ source.length) :
    ∀ character ∈ between source lineStart lineEnd, mayJoin unicode character = false →
      displayCells unicode [character] = escapedScalarWidth character := by
  intro character hmem halone
  obtain ⟨before, behind, hline⟩ := List.append_of_mem hmem
  have hwithin : [character] <:+: between source lineStart lineEnd :=
    ⟨before, behind, by rw [hline]; simp⟩
  obtain ⟨row, after, hsplit, -, hmore, -, -, hcells⟩ :=
    h.hardRow horder hend hwithin (List.cons_ne_nil _ _) (Nat.le_refl 1)
  have hparts : parts unicode [character] = [⟨[character], escapedScalarWidth character⟩] := by
    rw [parts_of_ne_nil unicode (List.cons_ne_nil _ _), firstPart,
      if_pos (by rw [halone]; rfl)]
    dsimp only
    rw [List.length_singleton, List.drop_succ_cons, List.drop_zero, parts, dif_pos rfl]
  rw [hparts] at hsplit
  cases row with
  | nil => exact absurd (hmore _ (by rw [← List.nil_append after, ← hsplit]; rfl)).1 (Nat.lt_irrefl 0)
  | cons part row =>
    obtain ⟨rfl, hnothing⟩ := List.cons.inj hsplit
    obtain ⟨rfl, -⟩ := List.append_eq_nil_iff.mp hnothing.symm
    rw [totalCells_cons, totalCells_nil, Nat.add_zero, partsText_cons, partsText_nil,
      List.append_nil] at hcells
    exact hcells.symm

theorem LineWraps.alone (hplain : unicode.PlainEscapes)
    (h : LineWraps unicode source lineStart lineEnd) (horder : lineStart ≤ lineEnd)
    (hend : lineEnd ≤ source.length) :
    ∀ character rest, character :: rest <:+: between source lineStart lineEnd →
      (mayJoin unicode character || rest.head?.any (mayJoin unicode)) = false →
      (unicode.segment (character :: rest)).head? = some [character] := by
  intro character rest hwithin hquick
  cases rest with
  | nil =>
    rw [segment_singleton]
    rfl
  | cons next rest =>
    have hnext : mayJoin unicode next = false := (Bool.or_eq_false_iff.mp hquick).2
    obtain ⟨row, after, hsplit, hcells, hmore, hboundary, -, -⟩ :=
      h.hardRow horder hend hwithin (List.cons_ne_nil _ _) (escapedScalarWidth_pos character)
    have hparts : parts unicode (character :: next :: rest) =
        ⟨[character], escapedScalarWidth character⟩ :: parts unicode (next :: rest) := by
      rw [parts_of_ne_nil unicode (List.cons_ne_nil _ _), firstPart, if_pos hquick]
      rfl
    have hbehind := parts_of_ne_nil unicode (List.cons_ne_nil next rest)
    have hwide := firstPart_pos hplain rest hnext
    have hpositive := escapedScalarWidth_pos character
    rw [hparts, hbehind] at hsplit
    -- The next part takes a cell, so the row ends before it.
    have hrow : row = [⟨[character], escapedScalarWidth character⟩] := by
      cases row with
      | nil => exact absurd (hmore _ (by rw [← List.nil_append after, ← hsplit]; rfl)).1 (Nat.lt_irrefl 0)
      | cons part row =>
        obtain ⟨rfl, hothers⟩ := List.cons.inj hsplit
        cases row with
        | nil => rfl
        | cons following row =>
          obtain ⟨rfl, -⟩ := List.cons.inj hothers
          rcases hcells with hroom | ⟨-, zeros, last, hsame, hzeros, -⟩ | ⟨-, hnone⟩
          · rw [totalCells_cons, totalCells_cons] at hroom
            dsimp only at hroom
            omega
          · cases zeros with
            | nil => exact absurd (congrArg List.length hsame) (by simp)
            | cons zero zeros =>
              obtain ⟨rfl, -⟩ := List.cons.inj hsame
              rw [totalCells_cons] at hzeros
              dsimp only at hzeros
              omega
          · exact absurd hnone (List.cons_ne_nil _ _)
    rw [hrow, partsText_cons, partsText_nil, List.append_nil] at hboundary
    obtain ⟨before, behind, hsegment, hlength⟩ := hboundary
    have hflatten := unicode.flatten_segment (character :: next :: rest)
    rw [hsegment, List.flatten_append] at hflatten
    have hbefore : before.flatten = [character] := by
      cases hfront : before.flatten with
      | nil =>
        rw [hfront] at hlength
        exact absurd hlength (by simp)
      | cons first others =>
        rw [hfront] at hlength hflatten
        obtain ⟨rfl, -⟩ := List.cons.inj hflatten
        rw [List.length_eq_zero_iff.mp (Nat.succ.inj hlength)]
    have hone : unicode.segment before.flatten = before := by
      rw [← List.nil_append before, List.append_assoc] at hsegment
      exact unicode.segment_inside _ [] before behind (by rw [hsegment]; simp)
    rw [hbefore, segment_singleton] at hone
    rw [hsegment, ← hone]
    rfl

theorem LineWraps.parts (hplain : unicode.PlainEscapes)
    (h : LineWraps unicode source lineStart lineEnd) (horder : lineStart ≤ lineEnd)
    (hend : lineEnd ≤ source.length) {text : List Char}
    (htext : text <:+: between source lineStart lineEnd) :
    Henji.parts unicode text = (unicode.segment text).map (graphemePart unicode) :=
  parts_eq_graphemes (h.alone hplain horder hend) (h.width horder hend) htext

theorem LineWraps.sum (hplain : unicode.PlainEscapes)
    (h : LineWraps unicode source lineStart lineEnd) (horder : lineStart ≤ lineEnd)
    (hend : lineEnd ≤ source.length) :
    ∀ text, text <:+: between source lineStart lineEnd →
      displayCells unicode text = totalDisplayCells unicode (unicode.segment text) := by
  intro text htext
  by_cases hempty : text = []
  · rw [hempty, segment_nil]
    rfl
  · obtain ⟨row, after, hsplit, -, hmore, -, -, hcells⟩ := h.hardRow horder hend htext hempty
      (Nat.le_max_left 1 (totalCells (Henji.parts unicode text)))
    -- There is room for the whole text.
    have hnone : after = [] := by
      cases after with
      | nil => rfl
      | cons part after =>
        have hwide := (hmore part rfl).2
        rw [hsplit, totalCells_append, totalCells_cons] at hwide
        omega
    rw [hnone, List.append_nil] at hsplit
    have htextRow : partsText row = text := by rw [← hsplit, partsText_parts]
    rw [htextRow, ← hsplit, h.parts hplain horder hend htext, totalCells_graphemes] at hcells
    exact hcells.symm

theorem LineWraps.zero (hplain : unicode.PlainEscapes)
    (h : LineWraps unicode source lineStart lineEnd) (horder : lineStart ≤ lineEnd)
    (hend : lineEnd ≤ source.length) :
    ∀ text grapheme next, text <:+: between source lineStart lineEnd →
      unicode.segment text = [grapheme, next] → displayCells unicode grapheme = 0 →
      displayCells unicode next ≤ 1 := by
  intro text grapheme next htext hsegment hzero
  by_contra hwide
  have hne : text ≠ [] := by
    rintro rfl
    rw [segment_nil] at hsegment
    exact absurd hsegment (by simp)
  obtain ⟨row, after, hsplit, -, hmore, -, hfits, hcells⟩ :=
    h.hardRow horder hend htext hne (Nat.le_refl 1)
  rw [h.parts hplain horder hend htext, hsegment] at hsplit
  have hrow : row = [grapheme, next].map (graphemePart unicode) := by
    cases row with
    | nil => exact absurd (hmore _ (by rw [← List.nil_append after, ← hsplit]; rfl)).1 (Nat.lt_irrefl 0)
    | cons part row =>
      obtain ⟨rfl, hrest⟩ := List.cons.inj hsplit
      cases row with
      | nil =>
        -- A row of no cells goes on.
        have hafter : [graphemePart unicode next] = after := hrest
        have hsome := (hmore (graphemePart unicode next) (by rw [← hafter]; rfl)).1
        rw [totalCells_cons, totalCells_nil, graphemePart, hzero] at hsome
        exact absurd hsome (Nat.lt_irrefl 0)
      | cons following row =>
        obtain ⟨rfl, hnothing⟩ := List.cons.inj hrest
        rw [(List.append_eq_nil_iff.mp hnothing.symm).1]
        rfl
  have hflatten := unicode.flatten_segment text
  rw [hsegment] at hflatten
  rw [hrow, partsText_graphemes, hflatten] at hfits hcells
  rw [totalCells_graphemes, totalDisplayCells, List.map_cons, List.map_cons, List.sum_cons,
    List.sum_cons, hzero] at hcells
  rcases hfits with hnarrow | hone
  · rw [← hcells] at hnarrow
    simp only [List.map_nil, List.sum_nil] at hnarrow
    omega
  · rw [hsegment] at hone
    exact absurd (congrArg List.length hone) (by simp)

theorem LineWraps.space (hplain : unicode.PlainEscapes)
    (h : LineWraps unicode source lineStart lineEnd) (horder : lineStart ≤ lineEnd)
    (hend : lineEnd ≤ source.length) :
    ∀ text front spaces grapheme, text <:+: between source lineStart lineEnd →
      unicode.segment text = front ++ spaces ++ [grapheme] →
      (∃ first ∈ front.head?, isSpaceText first = false) →
      (∃ last ∈ front.getLast?, isSpaceText last = false) →
      spaces ≠ [] → (∀ space ∈ spaces, isSpaceText space = true) → isSpaceText grapheme = false →
      displayCells unicode grapheme = 0 →
      totalDisplayCells unicode front + totalDisplayCells unicode spaces ≤
        max 1 (totalDisplayCells unicode front) := by
  intro text front spaces grapheme htext hsegment hfirst hlast hne hspaces hkind hzero
  by_contra hwide
  obtain ⟨range, hstart, hrange, hline, rfl, hlength⟩ := exists_range horder hend htext
  let width := max 1 (totalDisplayCells unicode front)
  have hwell := h range hstart hrange hline width (Nat.le_max_left 1 _) true
  have hparts : Henji.parts unicode (range.text source) =
      front.map (graphemePart unicode) ++ spaces.map (graphemePart unicode) ++
        [graphemePart unicode grapheme] := by
    rw [h.parts hplain horder hend htext, hsegment, List.map_append, List.map_append]
    rfl
  have hahead : Ahead unicode source _ _ _ :=
    Ahead.of_range (Nat.add_le_add_left hrange.order range.lineStart) hrange.inside
  rw [← WrapRange.text, hparts] at hahead
  have hends : WordEnds (front.map (graphemePart unicode)) := by
    obtain ⟨first, hfirst, hfirstKind⟩ := hfirst
    obtain ⟨last, hlast, hlastKind⟩ := hlast
    refine ⟨⟨graphemePart unicode first, ?_, hfirstKind⟩, graphemePart unicode last, ?_, hlastKind⟩
    · rw [List.head?_map, hfirst]
      rfl
    · rw [List.getLast?_map, hlast]
      rfl
  have hslice := nextWordSlice_overfull width hahead hends (by simpa using hne)
    (fun space hmem => by
      obtain ⟨text, htext, rfl⟩ := List.mem_map.mp hmem
      exact hspaces text htext) hkind hzero
    (by rw [totalCells_graphemes]; exact Nat.le_max_right 1 _)
  have hnext : nextSlice unicode source range (max 1 width) true range.sourceStart =
      ⟨range.sourceStart, range.sourceEnd, range.sourceEnd⟩ := by
    rw [nextSlice, if_pos rfl, Nat.max_eq_right (Nat.le_max_left 1 _)]
    exact hslice
  have hinside : range.sourceStart < range.sourceEnd := by
    have htextne : range.text source ≠ [] := by
      intro hnone
      rw [hnone, segment_nil] at hsegment
      exact absurd hsegment (by simp)
    have hpositive := List.length_pos_iff.mpr htextne
    omega
  have hmem := first_row_mem source range width true (Nat.ne_of_lt hinside) (by rw [hnext]; exact hinside)
  rw [hnext] at hmem
  -- The one row is the whole range, and it is wider than it may be.
  have hcells : displayCells unicode (range.text source) =
      totalDisplayCells unicode front + totalDisplayCells unicode spaces := by
    rw [h.sum hplain horder hend _ htext, hsegment]
    simp only [totalDisplayCells, List.map_append, List.sum_append, List.map_cons, List.map_nil,
      List.sum_cons, List.sum_nil, hzero, Nat.add_zero]
  rcases hwell.fits _ hmem with hnarrow | hone
  · have hbound : displayCells unicode (range.text source) ≤ width := hnarrow
    rw [hcells] at hbound
    exact hwide hbound
  · have hsame : unicode.segment (range.text source) = [range.text source] := hone
    rw [hsegment] at hsame
    have hcount := congrArg List.length hsame
    have hsome := List.length_pos_iff.mpr hne
    simp only [List.length_append, List.length_singleton] at hcount
    omega

/-- Every range of a line is wrapped as it should be exactly where the measure agrees with the
terminal. -/
theorem lineWraps_iff (hplain : unicode.PlainEscapes) (horder : lineStart ≤ lineEnd)
    (hend : lineEnd ≤ source.length) :
    LineWraps unicode source lineStart lineEnd ↔
      MeasuresRight unicode (between source lineStart lineEnd) := by
  constructor
  · exact fun h => ⟨h.alone hplain horder hend, h.width horder hend, h.sum hplain horder hend,
      h.zero hplain horder hend, h.space hplain horder hend⟩
  · intro h range hstart hrange hline width hwidth wordAware
    subst hstart
    exact h.wraps hrange hline hwidth

end Line

/-! ## An emoji that is one scalar -/

/-- White heavy check mark is an emoji of the basic plane. -/
def checkMarkSegmentation : Segmentation :=
  { plainSegmentation with isRgiEmoji := fun text => text == ['✅'] }

theorem checkMark_not_fits :
    (ensureAllWrapRows checkMarkSegmentation ['✅', '✅'] ⟨0, 0, 2⟩ 2 false (newWrapLayout 0)).rows =
        [(0, 2)] ∧
      displayCells checkMarkSegmentation ['✅', '✅'] = 4 ∧
      ¬LineWraps checkMarkSegmentation ['✅', '✅'] 0 2 := by
  have hrows : (ensureAllWrapRows checkMarkSegmentation ['✅', '✅'] ⟨0, 0, 2⟩ 2 false
      (newWrapLayout 0)).rows = [(0, 2)] := by decide +kernel
  have hcells : displayCells checkMarkSegmentation ['✅', '✅'] = 4 := by decide +kernel
  refine ⟨hrows, hcells, fun h => ?_⟩
  have hwell := h ⟨0, 0, 2⟩ rfl ⟨by decide, by decide⟩ (by decide) 2 (by decide) false
  have hfits := hwell.fits (0, 2) (by rw [hrows]; exact List.mem_cons_self)
  have htext : WrapRange.rowText ['✅', '✅'] ⟨0, 0, 2⟩ (0, 2) = ['✅', '✅'] := by decide
  rw [htext, hcells] at hfits
  rcases hfits with hnarrow | hone
  · exact absurd hnarrow (by decide)
  · exact absurd hone (by decide +kernel)

theorem checkMark_lineWraps_iff :
    LineWraps checkMarkSegmentation ['✅', '✅', 'a'] 0 3 ↔
      MeasuresRight checkMarkSegmentation (between ['✅', '✅', 'a'] 0 3) :=
  lineWraps_iff ⟨rfl, rfl⟩ (by decide) (by decide)

end Henji
