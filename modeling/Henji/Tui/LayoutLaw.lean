import Henji.Tui.InputLayout
import Mathlib.Data.List.Induction

/-!
# Editor rows and the cursor

What the lines of `wrap` are, that the layout shows the cursor in the one place that it has in them,
and that a vertical move lands in the row it aims for. A CR LF is one grapheme and no line feed, so it
is displayed inside a row: the layout is right for exactly the texts without one.
-/

namespace Henji

variable {unicode : Segmentation}

/-! ## Lines -/

theorem cellsOf_append (first second : List (List Char)) :
    cellsOf unicode (first ++ second) = cellsOf unicode first + cellsOf unicode second := by
  rw [cellsOf, List.map_append, List.sum_append]
  rfl

theorem cellsOf_singleton (grapheme : List Char) :
    cellsOf unicode [grapheme] = displayCells unicode grapheme := Nat.add_zero _

theorem Line.finish_concat (line : Line) (grapheme : List Char) :
    Line.finish { line with graphemes := line.graphemes ++ [grapheme] } =
      line.finish + grapheme.length := by
  simp [Line.finish, Nat.add_assoc]

/-- Graphemes in lines: what `wrap` keeps. -/
structure Wrapped (unicode : Segmentation) (columns : Nat) (graphemes : List (List Char)) (lines : List Line × Line) :
    Prop where
  finish : lines.2.finish = graphemes.flatten.length
  ordered : (linesOf lines).Pairwise fun line next => line.finish ≤ next.start
  partition : (linesOf lines).flatMap Line.graphemes = graphemes.filter (· ≠ ['\n'])
  inside : ∀ line ∈ linesOf lines, ∃ before behind, graphemes = before ++ line.graphemes ++ behind ∧
    before.flatten.length = line.start
  current : ∃ before, graphemes = before ++ lines.2.graphemes ∧
    before.flatten.length = lines.2.start
  narrow : ∀ line ∈ linesOf lines,
    cellsOf unicode line.graphemes ≤ columns ∨ line.graphemes.length = 1
  next : ∀ index line next, (linesOf lines)[index]? = some line →
    (linesOf lines)[index + 1]? = some next →
      next.start = line.finish ∧ line.graphemes ≠ [] ∨
        next.start = line.finish + 1 ∧ graphemes.flatten[line.finish]? = some '\n'

theorem getElem?_flatten_concat {graphemes : List (List Char)} {index : Nat} {character : Char}
    (h : graphemes.flatten[index]? = some character) (grapheme : List Char) :
    (graphemes ++ [grapheme]).flatten[index]? = some character := by
  obtain ⟨hbound, -⟩ := List.getElem?_eq_some_iff.mp h
  rw [List.flatten_append, List.getElem?_append_left hbound]
  exact h

theorem mem_linesOf {lines : List Line × Line} {line : Line} :
    line ∈ linesOf lines ↔ line ∈ lines.1 ∨ line = lines.2 := by
  simp [linesOf]

/-- Consecutive lines behind one more line. -/
theorem next_concat {lines : List Line} {last : Line} {P : Line → Line → Prop}
    (hlast : ∀ line, lines.getLast? = some line → P line last)
    (h : ∀ index line next, lines[index]? = some line → lines[index + 1]? = some next → P line next) :
    ∀ index line next, (lines ++ [last])[index]? = some line →
      (lines ++ [last])[index + 1]? = some next → P line next := by
  intro index line next hline hnext
  obtain ⟨hbound, -⟩ := List.getElem?_eq_some_iff.mp hnext
  rw [List.length_append, List.length_singleton] at hbound
  rw [List.getElem?_append_left (by omega)] at hline
  by_cases hinside : index + 1 < lines.length
  · rw [List.getElem?_append_left hinside] at hnext
    exact h index line next hline hnext
  · have hindex : index + 1 = lines.length := by omega
    rw [List.getElem?_append_right (by omega), hindex, Nat.sub_self] at hnext
    obtain rfl := Option.some.inj hnext
    refine hlast line ?_
    rw [List.getLast?_eq_getElem?, ← hindex, Nat.add_sub_cancel]
    exact hline

namespace Wrapped

variable {columns : Nat} {graphemes : List (List Char)} {before : List Line} {current : Line}

theorem finish_le (h : Wrapped unicode columns graphemes (before, current)) {line : Line}
    (hline : line ∈ linesOf (before, current)) : line.finish ≤ current.finish := by
  rcases mem_linesOf.mp hline with hbefore | rfl
  · have hstart := (List.pairwise_append.mp h.ordered).2.2 line hbefore current
      (List.mem_singleton_self current)
    exact Nat.le_trans hstart (Nat.le_add_right _ _)
  · exact Nat.le_refl _

/-- A new line with what is left of a grapheme that ended the current one. -/
theorem push (h : Wrapped unicode columns graphemes (before, current))
    {grapheme : List Char} {last : Line}
    (hfinish : last.finish = current.finish + grapheme.length) (hstart : current.finish ≤ last.start)
    (hgraphemes : last.graphemes = [grapheme].filter (· ≠ ['\n']))
    (hnext : last.start = current.finish ∧ current.graphemes ≠ [] ∨
      last.start = current.finish + 1 ∧ grapheme = ['\n']) :
    Wrapped unicode columns (graphemes ++ [grapheme]) (before ++ [current], last) where
  finish := by
    rw [hfinish, h.finish]
    simp
  ordered := by
    refine List.pairwise_append.mpr ⟨h.ordered, List.pairwise_singleton _ _, ?_⟩
    intro line hline next hnext
    rw [List.mem_singleton.mp hnext]
    exact Nat.le_trans (h.finish_le hline) hstart
  partition := by
    rw [linesOf, List.flatMap_append, List.filter_append, ← h.partition, ← hgraphemes]
    simp [linesOf]
  inside := by
    intro line hline
    rcases mem_linesOf.mp hline with hold | rfl
    · obtain ⟨front, behind, hsplit, hlength⟩ := h.inside line hold
      exact ⟨front, behind ++ [grapheme], by rw [hsplit]; simp, hlength⟩
    · by_cases hfeed : grapheme = ['\n']
      · refine ⟨graphemes ++ [grapheme], [], by simp [hgraphemes, hfeed], ?_⟩
        have hempty : line.graphemes = [] := by simp [hgraphemes, hfeed]
        have hsame : line.finish = line.start := by simp [Line.finish, hempty]
        rw [← hsame, hfinish, h.finish]
        simp
      · have hone : line.graphemes = [grapheme] := by simp [hgraphemes, hfeed]
        refine ⟨graphemes, [], by simp [hone], ?_⟩
        have hsame : line.finish = line.start + grapheme.length := by simp [Line.finish, hone]
        have htotal : current.finish = graphemes.flatten.length := h.finish
        omega
  current := by
    have htotal : current.finish = graphemes.flatten.length := h.finish
    by_cases hfeed : grapheme = ['\n']
    · refine ⟨graphemes ++ [grapheme], by simp [hgraphemes, hfeed], ?_⟩
      have hsame : last.finish = last.start := by simp [Line.finish, hgraphemes, hfeed]
      rw [← hsame, hfinish, htotal]
      simp
    · refine ⟨graphemes, by simp [hgraphemes, hfeed], ?_⟩
      have hsame : last.finish = last.start + grapheme.length := by
        simp [Line.finish, hgraphemes, hfeed]
      show graphemes.flatten.length = last.start
      omega
  narrow := by
    intro line hline
    rcases mem_linesOf.mp hline with hold | rfl
    · exact h.narrow line hold
    · by_cases hfeed : grapheme = ['\n']
      · left
        simp [hgraphemes, hfeed, cellsOf]
      · right
        simp [hgraphemes, hfeed]
  next := by
    refine next_concat ?_ fun index line next hline hfollow =>
      (h.next index line next hline hfollow).imp_right fun ⟨hstart, hbreak⟩ =>
        ⟨hstart, getElem?_flatten_concat hbreak grapheme⟩
    intro line hline
    rw [List.getLast?_concat] at hline
    obtain rfl := Option.some.inj hline
    refine hnext.imp_right fun ⟨hstart, hfeed⟩ => ⟨hstart, ?_⟩
    have htotal : current.finish = graphemes.flatten.length := h.finish
    rw [htotal, hfeed, List.flatten_append]
    exact List.getElem?_concat_length

/-- The current line grows. -/
theorem append (h : Wrapped unicode columns graphemes (before, current))
    {grapheme : List Char} (hfeed : grapheme ≠ ['\n'])
    (hfits : current.graphemes = [] ∨
      cellsOf unicode current.graphemes + displayCells unicode grapheme ≤ columns) :
    Wrapped unicode columns (graphemes ++ [grapheme])
      (before, { current with graphemes := current.graphemes ++ [grapheme] }) where
  finish := by
    rw [Line.finish_concat, h.finish]
    simp
  ordered := by
    obtain ⟨hbefore, -, hlast⟩ := List.pairwise_append.mp h.ordered
    refine List.pairwise_append.mpr ⟨hbefore, List.pairwise_singleton _ _, ?_⟩
    intro line hline next hnext
    rw [List.mem_singleton.mp hnext]
    exact hlast line hline current (List.mem_singleton_self current)
  partition := by
    have hpartition := h.partition
    simp only [linesOf, List.flatMap_append, List.flatMap_singleton] at hpartition ⊢
    rw [List.filter_append, ← hpartition, List.append_assoc]
    simp [hfeed]
  inside := by
    intro line hline
    rcases mem_linesOf.mp hline with hold | rfl
    · obtain ⟨front, behind, hsplit, hlength⟩ := h.inside line (mem_linesOf.mpr (.inl hold))
      exact ⟨front, behind ++ [grapheme], by rw [hsplit]; simp, hlength⟩
    · obtain ⟨front, hsplit, hlength⟩ := h.current
      exact ⟨front, [], by rw [hsplit]; simp, hlength⟩
  current := by
    obtain ⟨front, hsplit, hlength⟩ := h.current
    exact ⟨front, by rw [hsplit]; simp, hlength⟩
  narrow := by
    intro line hline
    rcases mem_linesOf.mp hline with hold | rfl
    · exact h.narrow line (mem_linesOf.mpr (.inl hold))
    · rcases hfits with hempty | hfits
      · right
        simp [hempty]
      · left
        rw [cellsOf_append, cellsOf_singleton]
        exact hfits
  next := by
    intro index line next hline hnext
    have hbound : index + 1 ≤ before.length := by
      obtain ⟨hbound, -⟩ := List.getElem?_eq_some_iff.mp hnext
      rw [linesOf, List.length_append, List.length_singleton] at hbound
      exact Nat.le_of_lt_succ hbound
    rw [linesOf, List.getElem?_append_left hbound] at hline
    have hold : (linesOf (before, current))[index]? = some line := by
      rw [linesOf, List.getElem?_append_left hbound]
      exact hline
    have hkept : ∀ start, start = line.finish ∧ line.graphemes ≠ [] ∨
        start = line.finish + 1 ∧ graphemes.flatten[line.finish]? = some '\n' →
        start = line.finish ∧ line.graphemes ≠ [] ∨
        start = line.finish + 1 ∧ (graphemes ++ [grapheme]).flatten[line.finish]? = some '\n' :=
      fun start => Or.imp_right fun ⟨hstart, hbreak⟩ =>
        ⟨hstart, getElem?_flatten_concat hbreak grapheme⟩
    rcases Nat.lt_or_eq_of_le hbound with hinside | hlast
    · rw [linesOf, List.getElem?_append_left hinside] at hnext
      refine hkept _ (h.next index line next hold ?_)
      rw [linesOf, List.getElem?_append_left hinside]
      exact hnext
    · -- The line behind it is the current one, whose start stays.
      rw [linesOf, hlast, List.getElem?_concat_length] at hnext
      obtain rfl := Option.some.inj hnext
      refine hkept _ (h.next index line current hold ?_)
      rw [linesOf, hlast, List.getElem?_concat_length]

end Wrapped

theorem wrapped_wrap (unicode : Segmentation) (columns : Nat) (graphemes : List (List Char)) :
    Wrapped unicode columns graphemes (wrap unicode columns graphemes) := by
  induction graphemes using List.reverseRecOn with
  | nil =>
    refine ⟨rfl, List.pairwise_singleton _ _, rfl, ?_, ⟨[], rfl, rfl⟩, ?_, ?_⟩
    · intro line hline
      obtain rfl := List.mem_singleton.mp hline
      exact ⟨[], [], rfl, rfl⟩
    · intro line hline
      obtain rfl := List.mem_singleton.mp hline
      exact .inl (Nat.zero_le _)
    · intro index line next _ hnext
      simp [linesOf, wrap] at hnext
  | append_singleton graphemes grapheme ih =>
    rw [wrap_concat]
    rcases wrapStep_cases unicode columns (wrap unicode columns graphemes) grapheme with
      ⟨rfl, hstep⟩ | ⟨hfeed, hne, hstep⟩ | ⟨hfeed, hfits, hstep⟩
    · rw [hstep]
      exact ih.push rfl (Nat.le_succ _) (by simp) (.inr ⟨rfl, rfl⟩)
    · rw [hstep]
      have hone : ∀ start, Line.finish ⟨start, [grapheme]⟩ = start + grapheme.length := by
        simp [Line.finish]
      exact ih.push (hone _) (Nat.le_refl _) (by simp [hfeed]) (.inl ⟨rfl, hne⟩)
    · rw [hstep]
      exact ih.append hfeed hfits

/-! ## Where a cursor stands -/

/-- The cursor is in the grapheme behind `front`, or at the end of the line. -/
def Line.stands (line : Line) (cursor : Nat) (front : List (List Char)) : List (List Char) → Prop
  | grapheme :: _ => line.start + front.flatten.length ≤ cursor ∧
      cursor < line.start + front.flatten.length + grapheme.length
  | [] => cursor = line.finish

/-- The cursor is shown in a cell of a row: where its grapheme starts, or at the end of the row, which
is the last one or ends with a line feed. -/
def Placed (unicode : Segmentation) (lines : List Line) (cursor row cell : Nat) : Prop :=
  ∃ line front rest, lines[row]? = some line ∧ line.graphemes = front ++ rest ∧
    cell = cellsOf unicode front ∧ line.stands cursor front rest ∧
    (rest = [] → ∀ next, lines[row + 1]? = some next → next.start = cursor + 1)

namespace Line

variable {line : Line} {cursor : Nat} {front rest : List (List Char)}

theorem finish_eq (hsplit : line.graphemes = front ++ rest) :
    line.finish = line.start + front.flatten.length + rest.flatten.length := by
  rw [finish, hsplit, List.flatten_append, List.length_append, Nat.add_assoc]

/-- A cursor stands between the start of its grapheme and the end of its line. -/
theorem stands.bounds (h : line.stands cursor front rest)
    (hsplit : line.graphemes = front ++ rest) :
    line.start + front.flatten.length ≤ cursor ∧ cursor ≤ line.finish ∧
      (cursor = line.finish → rest = []) := by
  have hfinish := finish_eq hsplit
  cases rest with
  | nil =>
    obtain rfl : cursor = line.finish := h
    refine ⟨?_, Nat.le_refl _, fun _ => rfl⟩
    rw [hfinish]
    exact Nat.le_add_right _ _
  | cons grapheme rest =>
    rw [List.flatten_cons, List.length_append] at hfinish
    obtain ⟨hle, hlt⟩ := h
    refine ⟨hle, by omega, fun heq => ?_⟩
    omega

/-- Nothing behind the grapheme of a cursor has started before it. -/
theorem stands.more (h : line.stands cursor front rest) {more behind : List (List Char)}
    (hrest : rest = more ++ behind) (hsplit : line.graphemes = front ++ rest)
    (hle : line.start + (front ++ more).flatten.length ≤ cursor) : more = [] := by
  rw [List.flatten_append, List.length_append] at hle
  have hfinish := finish_eq hsplit
  cases more with
  | nil => rfl
  | cons grapheme more =>
    subst hrest
    obtain ⟨-, hlt⟩ := h
    rw [List.flatten_cons, List.length_append] at hle
    omega

/-- In one line a cursor has one grapheme. -/
theorem stands.unique (h : line.stands cursor front rest) (hsplit : line.graphemes = front ++ rest)
    {front' rest' : List (List Char)} (h' : line.stands cursor front' rest')
    (hsplit' : line.graphemes = front' ++ rest') : front = front' := by
  rcases List.append_eq_append_iff.mp (hsplit.symm.trans hsplit') with
    ⟨more, rfl, hrest⟩ | ⟨more, rfl, hrest⟩
  · rw [h.more hrest hsplit (h'.bounds hsplit').1, List.append_nil]
  · rw [h'.more hrest hsplit' (h.bounds hsplit).1, List.append_nil]

end Line

/-- A cursor is in no earlier line than the one that shows it. -/
theorem Placed.row_le {lines : List Line}
    (hordered : lines.Pairwise fun line next => line.finish ≤ next.start) {cursor row cell : Nat}
    (h : Placed unicode lines cursor row cell) {row' cell' : Nat}
    (h' : Placed unicode lines cursor row' cell') : row' ≤ row := by
  obtain ⟨line, front, rest, hline, hsplit, -, hstands, hlast⟩ := h
  obtain ⟨line', front', rest', hline', hsplit', -, hstands', -⟩ := h'
  by_contra hlt
  rw [Nat.not_le] at hlt
  obtain ⟨hrow, rfl⟩ := List.getElem?_eq_some_iff.mp hline
  obtain ⟨hrow', rfl⟩ := List.getElem?_eq_some_iff.mp hline'
  obtain ⟨-, hle, hend⟩ := hstands.bounds hsplit
  obtain ⟨hge, -, -⟩ := hstands'.bounds hsplit'
  have horder := List.pairwise_iff_getElem.mp hordered
  have hbetween := horder row row' hrow hrow' hlt
  -- The cursor is at the end of the earlier line, whose next one starts behind it.
  have hnil : rest = [] := hend (by omega)
  have hnext : row + 1 < lines.length := Nat.lt_of_le_of_lt hlt hrow'
  have hbehind := hlast hnil lines[row + 1] (List.getElem?_eq_getElem hnext)
  rcases Nat.lt_or_eq_of_le (Nat.succ_le_of_lt hlt) with hfar | hnear
  · have hfollow := horder (row + 1) row' hnext hrow' hfar
    have hstart : lines[row + 1].start ≤ lines[row + 1].finish := Nat.le_add_right _ _
    omega
  · have hsame : row + 1 = row' := hnear
    subst hsame
    omega

/-- A cursor is shown in one place. -/
theorem Placed.unique {lines : List Line}
    (hordered : lines.Pairwise fun line next => line.finish ≤ next.start)
    {cursor row cell row' cell' : Nat} (h : Placed unicode lines cursor row cell)
    (h' : Placed unicode lines cursor row' cell') : row = row' ∧ cell = cell' := by
  obtain rfl : row = row' := Nat.le_antisymm (h'.row_le hordered h) (h.row_le hordered h')
  obtain ⟨line, front, rest, hline, hsplit, rfl, hstands, -⟩ := h
  obtain ⟨line', front', rest', hline', hsplit', rfl, hstands', -⟩ := h'
  obtain rfl : line = line' := Option.some.inj (hline.symm.trans hline')
  rw [hstands.unique hsplit hstands' hsplit']
  exact ⟨rfl, rfl⟩

/-- A line that grows, and lines behind it, leave the cursors before its end where they are. -/
theorem Placed.extend {before : List Line} {current : Line} {cursor row cell : Nat}
    (h : Placed unicode (before ++ [current]) cursor row cell) (hlt : cursor < current.finish)
    (extra : List (List Char)) (more : List Line) :
    Placed unicode (before ++ { current with graphemes := current.graphemes ++ extra } :: more)
      cursor row cell := by
  obtain ⟨line, front, rest, hline, hsplit, hcell, hstands, hlast⟩ := h
  obtain ⟨hbound, -⟩ := List.getElem?_eq_some_iff.mp hline
  rw [List.length_append, List.length_singleton] at hbound
  rcases Nat.lt_or_eq_of_le (Nat.le_of_lt_succ hbound) with hinside | rfl
  · rw [List.getElem?_append_left hinside] at hline
    refine ⟨line, front, rest, by rw [List.getElem?_append_left hinside, hline], hsplit, hcell,
      hstands, fun hnil next hnext => ?_⟩
    rcases Nat.lt_or_eq_of_le (Nat.succ_le_of_lt hinside) with hnear | hnear
    · refine hlast hnil next ?_
      rw [List.getElem?_append_left hnear] at hnext ⊢
      exact hnext
    · have hend : row + 1 = before.length := hnear
      rw [hend, List.getElem?_append_right (Nat.le_refl _), Nat.sub_self] at hnext
      obtain rfl := Option.some.inj hnext
      refine hlast hnil current ?_
      rw [hend, List.getElem?_concat_length]
  · rw [List.getElem?_concat_length] at hline
    obtain rfl := Option.some.inj hline
    cases rest with
    | nil =>
      have hend : cursor = current.finish := hstands
      omega
    | cons grapheme rest =>
      refine ⟨{ current with graphemes := current.graphemes ++ extra }, front,
        grapheme :: (rest ++ extra), ?_, ?_, hcell, hstands, fun hnil => nomatch hnil⟩
      · rw [List.getElem?_append_right (Nat.le_refl _), Nat.sub_self]
        rfl
      · show current.graphemes ++ extra = _
        rw [hsplit, List.append_assoc]
        rfl

end Henji
