import Henji.Tools.ReadLines
import Mathlib.Data.List.Induction

/-!
# Paging through a file

The selected lines are a front of the lines from the offset on. The marker is shorter than the room
that a line leaves, so at least one line is shown and the next offset is a later one.

Results:
1. `selected_of_run`: what is selected of a file, and the line that may be refused.
2. `readWindow_spec`: a result shows lines, or an error names a line that does not fit.
3. `paging_reads_file`: reading on from offset to offset shows the file.
-/

namespace Henji.ReadTool

/-! ## The selection -/

section Selection

variable {offset : Nat} {limit : Option Nat}

/-- The state behind some lines. -/
structure Selected (offset : Nat) (limit : Option Nat) (lines : List Text) (s : ReadState) :
    Prop where
  total : s.totalLines = lines.length
  front : s.selected <+: lines.drop (offset - 1)
  bytes : s.selectedBytes = byteLength s.selected.flatten
  fits : s.selectedBytes ≤ MAX_TEXT_BYTES
  whole : s.selectionClosed = false → (∀ n ∈ limit, s.selected.length < n) →
    s.selected = lines.drop (offset - 1)
  closed : s.selectionClosed = true → s.selected ≠ []

theorem selected_start : Selected offset limit [] .start where
  total := rfl
  front := List.nil_prefix
  bytes := rfl
  fits := Nat.zero_le _
  whole _ _ := (List.drop_nil).symm
  closed h := by cases h

theorem drop_concat (lines : List Text) (line : Text) (h : offset ≤ lines.length + 1) :
    (lines ++ [line]).drop (offset - 1) = lines.drop (offset - 1) ++ [line] :=
  List.drop_append_of_le_length (by omega)

theorem drop_before (lines : List Text) (line : Text) (h : ¬ offset ≤ lines.length + 1) :
    (lines ++ [line]).drop (offset - 1) = [] ∧ lines.drop (offset - 1) = [] := by
  refine ⟨List.drop_of_length_le ?_, List.drop_of_length_le (by omega)⟩
  rw [List.length_append, List.length_singleton]
  omega

/-- One more line keeps the selection a front, or is refused as too long. -/
theorem selected_stepLine {lines : List Text} {line : Text} {s : ReadState}
    (h : Selected offset limit lines s) :
    (∃ s', stepLine offset limit s line = .ok s' ∧ Selected offset limit (lines ++ [line]) s') ∨
    (stepLine offset limit s line = .error (.lineTooLong (lines.length + 1)) ∧
      offset ≤ lines.length + 1 ∧ MAX_TEXT_BYTES < byteLength line) := by
  unfold stepLine finishLine
  dsimp only
  rw [h.total]
  split
  · next hopen =>
    obtain ⟨hclosed, hoffset, hlimit⟩ := hopen
    have hselected := h.whole hclosed hlimit
    have hdrop := drop_concat lines line hoffset
    split
    · next hlong => exact .inr ⟨rfl, hoffset, hlong⟩
    · next hshort =>
      refine .inl ?_
      split
      · next hfits =>
        refine ⟨_, rfl, ?_⟩
        constructor
        · rw [List.length_append]
          rfl
        · have hall : s.selected ++ [line] = (lines ++ [line]).drop (offset - 1) := by
            rw [hselected, hdrop]
          exact hall ▸ List.prefix_rfl
        · rw [h.bytes, List.flatten_append, List.flatten_singleton, byteLength_append]
        · exact hfits
        · intro _ _
          rw [hselected, hdrop]
        · intro hnow
          rw [hclosed] at hnow
          cases hnow
      · next hfull =>
        refine ⟨_, rfl, ?_⟩
        constructor
        · rw [List.length_append]
          rfl
        · rw [hdrop]
          exact h.front.trans (List.prefix_append _ _)
        · exact h.bytes
        · exact h.fits
        · intro hnow _
          cases hnow
        · rintro - hnil
          have hbytes := h.bytes
          rw [hnil] at hbytes
          rw [hbytes] at hfull
          simp only [List.flatten_nil, byteLength_nil] at hfull
          omega
  · next hskip =>
    refine .inl ⟨_, rfl, ?_⟩
    constructor
    · rw [List.length_append]
      rfl
    · by_cases hoffset : offset ≤ lines.length + 1
      · rw [drop_concat lines line hoffset]
        exact h.front.trans (List.prefix_append _ _)
      · rw [(drop_before lines line hoffset).1]
        exact (drop_before lines line hoffset).2 ▸ h.front
    · exact h.bytes
    · exact h.fits
    · intro hclosed hlimit
      have hoffset : ¬ offset ≤ lines.length + 1 := fun hoffset =>
        hskip ⟨hclosed, hoffset, hlimit⟩
      rw [(drop_before lines line hoffset).1]
      exact (drop_before lines line hoffset).2 ▸ h.whole hclosed hlimit
    · exact h.closed

/-- What is selected of a file, and the line that may be refused. -/
theorem selected_of_run (lines : List Text) :
    (∃ s, lines.foldlM (stepLine offset limit) .start = .ok s ∧ Selected offset limit lines s) ∨
    (∃ k line, lines.foldlM (stepLine offset limit) .start = .error (.lineTooLong (k + 1)) ∧
      lines[k]? = some line ∧ offset ≤ k + 1 ∧ MAX_TEXT_BYTES < byteLength line) := by
  induction lines using List.reverseRecOn with
  | nil => exact .inl ⟨.start, rfl, selected_start⟩
  | append_singleton lines line ih =>
    rw [List.foldlM_append]
    rcases ih with ⟨s, hrun, hselected⟩ | ⟨k, refused, hrun, hrefused, hoffset, hlong⟩
    · rw [hrun]
      have hone : [line].foldlM (stepLine offset limit) s = stepLine offset limit s line := by
        rw [List.foldlM_cons]
        cases stepLine offset limit s line <;> rfl
      rcases @selected_stepLine offset limit lines line s hselected with ⟨s', hstep, hselected'⟩ | hrefused
      · exact .inl ⟨s', hone.trans hstep, hselected'⟩
      · obtain ⟨hstep, hoffset, hlong⟩ := hrefused
        refine .inr ⟨lines.length, line, hone.trans hstep, ?_, hoffset, hlong⟩
        rw [List.getElem?_append_right (Nat.le_refl _), Nat.sub_self]
        rfl
    · refine .inr ⟨k, refused, ?_, ?_, hoffset, hlong⟩
      · rw [hrun]
        rfl
      · rw [List.getElem?_append_left (List.getElem?_eq_some_iff.mp hrefused).1, hrefused]

end Selection

/-! ## The result -/

/-- What a window shows of the lines of a file. -/
structure Shows (lines : List Text) (offset : Nat) (window : Window) : Prop where
  front : window.lines <+: lines.drop (offset - 1)
  fits : byteLength (window.text offset) ≤ MAX_TEXT_BYTES
  whole : window.total = none → window.lines = lines.drop (offset - 1)
  more : ∀ total, window.total = some total → total = lines.length ∧ window.lines ≠ [] ∧
    window.next offset ≤ total

/-- A line that a result from the offset on cannot hold: it is too long by itself, or it is the first
one and leaves no room for the marker. -/
def DoesNotFit (lines : List Text) (offset number : Nat) : Prop :=
  ∃ line, offset ≤ number ∧ lines[number - 1]? = some line ∧ (MAX_TEXT_BYTES < byteLength line ∨
    number = offset ∧
      MAX_TEXT_BYTES < byteLength (Window.text offset ⟨[line], some lines.length⟩))

theorem fitMarker_spec (offset total : Nat) (reversed : List Text) :
    (∃ window, fitMarker offset total reversed = .ok window ∧
      window.lines <+: reversed.reverse ∧
      ((window.total = none ∧ window.lines = reversed.reverse ∧ total < offset + reversed.length) ∨
        (window.total = some total ∧ window.lines ≠ [] ∧ window.next offset ≤ total ∧
          byteLength (window.text offset) ≤ MAX_TEXT_BYTES))) ∨
    (fitMarker offset total reversed = .error (.lineTooLong offset) ∧ offset ≤ total ∧
      ∀ first, reversed.reverse.head? = some first →
        MAX_TEXT_BYTES < byteLength (Window.text offset ⟨[first], some total⟩)) := by
  induction reversed with
  | nil =>
    unfold fitMarker
    split
    · next hmore => exact .inr ⟨rfl, hmore, fun first h => by cases h⟩
    · next hend => exact .inl ⟨_, rfl, List.prefix_rfl, .inl ⟨rfl, rfl, Nat.lt_of_not_le hend⟩⟩
  | cons last earlier ih =>
    unfold fitMarker
    dsimp only
    split
    · next hmore =>
      split
      · next hfits =>
        refine .inl ⟨_, rfl, List.prefix_rfl, .inr ⟨rfl, ?_, hmore, hfits⟩⟩
        rw [List.reverse_cons]
        exact List.append_ne_nil_of_right_ne_nil _ (List.cons_ne_nil _ _)
      · next hlarge =>
        have hfront : earlier.reverse <+: (last :: earlier).reverse := by
          rw [List.reverse_cons]
          exact List.prefix_append _ _
        rcases ih with ⟨window, hwindow, hlines, hend | hmarked⟩ | ⟨hfail, hoffset, hfirst⟩
        · rw [List.length_reverse, List.length_cons] at hmore
          omega
        · exact .inl ⟨window, hwindow, hlines.trans hfront, .inr hmarked⟩
        · refine .inr ⟨hfail, hoffset, fun first hhead => ?_⟩
          cases hearlier : earlier.reverse with
          | nil =>
            rw [List.reverse_cons, hearlier] at hhead hlarge
            obtain rfl := Option.some.inj hhead
            exact Nat.lt_of_not_le hlarge
          | cons second others =>
            rw [List.reverse_cons, hearlier] at hhead
            exact hfirst first (hearlier ▸ hhead)
    · next hend =>
      refine .inl ⟨_, rfl, List.prefix_rfl, .inl ⟨rfl, rfl, ?_⟩⟩
      rw [List.length_reverse] at hend
      exact Nat.lt_of_not_le hend

/-- A result shows lines, or an error names a line that does not fit. -/
theorem readWindow_spec {chunks : List (List UInt8)} {text : Text}
    (hfile : PendingPoint.readAll chunks.flatten = text.map some) (hnul : 0 ∉ text) {offset : Nat}
    (hoffset : 1 ≤ offset) {limit : Option Nat} (hlimit : ∀ n ∈ limit, 1 ≤ n) :
    (∃ window, readWindow chunks offset limit = .ok window ∧ Shows (linesOf text) offset window) ∨
    ∃ number, readWindow chunks offset limit = .error (.lineTooLong number) ∧
      DoesNotFit (linesOf text) offset number := by
  have hread := @readChunks_lines offset limit chunks text hfile hnul
  unfold readWindow
  rw [hread]
  rcases @selected_of_run offset limit (linesOf text) with
    ⟨s, hrun, hselected⟩ | ⟨k, line, hrun, hline, hle, hlong⟩
  · rw [hrun]
    show (∃ window, fitMarker offset s.totalLines s.selected.reverse = .ok window ∧ _) ∨
      ∃ number, fitMarker offset s.totalLines s.selected.reverse = .error _ ∧ _
    rw [hselected.total]
    have hlength : ((linesOf text).drop (offset - 1)).length = (linesOf text).length - (offset - 1) :=
      List.length_drop
    rcases fitMarker_spec offset (linesOf text).length s.selected.reverse with
      ⟨window, hwindow, hfront, hend | hmarked⟩ | ⟨hfail, hmore, hfirst⟩
    · rw [List.reverse_reverse] at hfront hend
      obtain ⟨htotal, hlines, hend⟩ := hend
      rw [List.length_reverse] at hend
      have hwhole : s.selected = (linesOf text).drop (offset - 1) :=
        hselected.front.eq_of_length_le (by omega)
      refine .inl ⟨window, hwindow, ?_, ?_, fun _ => hlines.trans hwhole, fun total h => ?_⟩
      · rw [hlines]
        exact hselected.front
      · have htext : window.text offset = s.selected.flatten := by
          unfold Window.text
          rw [htotal, hlines]
        rw [htext, ← hselected.bytes]
        exact hselected.fits
      · rw [htotal] at h
        cases h
    · rw [List.reverse_reverse] at hfront
      obtain ⟨htotal, hne, hnext, hfits⟩ := hmarked
      refine .inl ⟨window, hwindow, hfront.trans hselected.front, hfits, fun h => ?_, fun total h => ?_⟩
      · rw [htotal] at h
        cases h
      · obtain rfl := Option.some.inj (htotal.symm.trans h)
        exact ⟨rfl, hne, hnext⟩
    · rw [List.reverse_reverse] at hfirst
      refine .inr ⟨offset, hfail, ?_⟩
      have hne : s.selected ≠ [] := by
        intro hnil
        cases hclosed : s.selectionClosed with
        | true => exact hselected.closed hclosed hnil
        | false =>
          have hwhole := hselected.whole hclosed fun n hn => by
            rw [hnil]
            exact hlimit n hn
          rw [hnil] at hwhole
          rw [← hwhole, List.length_nil] at hlength
          omega
      cases hselect : s.selected with
      | nil => exact absurd hselect hne
      | cons first others =>
        obtain ⟨rest, hrest⟩ := hselected.front
        rw [hselect] at hrest hfirst
        refine ⟨first, Nat.le_refl _, ?_, .inr ⟨rfl, hfirst first rfl⟩⟩
        have hhead := congrArg List.head? hrest
        rw [List.head?_drop] at hhead
        exact hhead.symm
  · rw [hrun]
    exact .inr ⟨k + 1, rfl, line, hle, hline, .inl hlong⟩

theorem nonzero_of_consume {offset : Nat} {limit : Option Nat} {text : Text} {s s' : ReadState}
    (h : consume offset limit text s = .ok s') : 0 ∉ text := by
  induction text generalizing s with
  | nil => exact List.not_mem_nil
  | cons n text ih =>
    have hcons : (consumeCharacter offset limit s n).bind (consume offset limit text) = .ok s' := h
    have hn : n ≠ 0 := by
      rintro rfl
      cases hcons
    cases hcharacter : consumeCharacter offset limit s n with
    | error error =>
      rw [hcharacter] at hcons
      cases hcons
    | ok s₁ =>
      rw [hcharacter] at hcons
      rw [List.mem_cons, not_or]
      exact ⟨Ne.symm hn, ih hcons⟩

theorem front_of_consume {offset : Nat} {limit : Option Nat} {text : Text} {s : ReadState}
    {error : ReadError} (h : consume offset limit text s = .error error) : error = .notText ∨
    ∃ front, front <+: text ∧ 0 ∉ front ∧ consume offset limit front s = .error error := by
  induction text generalizing s with
  | nil => cases h
  | cons n text ih =>
    have hcons : (consumeCharacter offset limit s n).bind (consume offset limit text) =
      .error error := h
    by_cases hn : n = 0
    · subst hn
      exact .inl (Except.error.inj hcons).symm
    · cases hcharacter : consumeCharacter offset limit s n with
      | error refused =>
        rw [hcharacter] at hcons
        refine .inr ⟨[n], List.prefix_append [n] text, ?_, ?_⟩
        · rw [List.mem_singleton]
          exact Ne.symm hn
        · show (consumeCharacter offset limit s n).bind (consume offset limit []) = _
          rw [hcharacter]
          exact hcons
      | ok s₁ =>
        rw [hcharacter] at hcons
        rcases ih hcons with hnul | ⟨front, hfront, hnul, hrun⟩
        · exact .inl hnul
        · refine .inr ⟨n :: front, List.prefix_cons_inj n |>.mpr hfront, ?_, ?_⟩
          · rw [List.mem_cons, not_or]
            exact ⟨Ne.symm hn, hnul⟩
          · show (consumeCharacter offset limit s n).bind (consume offset limit front) = _
            rw [hcharacter]
            exact hrun

theorem accepted_error {outputs : List (Option Nat)} {error : ReadError}
    (h : accepted outputs = .error error) : error = .notText := by
  unfold accepted at h
  split at h
  · cases h
  · exact (Except.error.inj h).symm

/-- An error is about the text that the decoder has told before. -/
theorem consumed_of_readChunks {offset : Nat} {limit : Option Nat} {chunks : List (List UInt8)}
    {pending : PendingPoint} {s : ReadState} {error : ReadError}
    (h : readChunks offset limit chunks pending s = .error error) : error = .notText ∨
    ∃ text : Text, text.map some <+: (Mealy.run PendingPoint.step chunks.flatten pending).1 ++
        (Mealy.run PendingPoint.step chunks.flatten pending).2.flush ∧
      (consume offset limit text s).bind (finishFile offset limit) = .error error := by
  induction chunks generalizing pending s with
  | nil =>
    unfold readChunks at h
    cases hflush : accepted pending.flush with
    | error refused =>
      rw [hflush] at h
      exact .inl ((Except.error.inj h).symm.trans (accepted_error hflush))
    | ok text =>
      rw [hflush] at h
      exact .inr ⟨text, accepted_ok hflush ▸ List.prefix_rfl, h⟩
  | cons chunk chunks ih =>
    unfold readChunks at h
    rw [List.flatten_cons, Mealy.run_append]
    cases hchunk : accepted (Mealy.run PendingPoint.step chunk pending).1 with
    | error refused =>
      rw [hchunk] at h
      exact .inl ((Except.error.inj h).symm.trans (accepted_error hchunk))
    | ok first =>
      rw [hchunk] at h
      have hfirst : (Mealy.run PendingPoint.step chunk pending).1 = first.map some :=
        accepted_ok hchunk
      cases hconsume : consume offset limit first s with
      | error refused =>
        have hfail : (consume offset limit first s).bind _ = .error error := h
        rw [hconsume] at hfail
        refine .inr ⟨first, ?_, ?_⟩
        · rw [hfirst, List.append_assoc]
          exact List.prefix_append _ _
        · rw [hconsume]
          exact hfail
      | ok s' =>
        have hrest : (consume offset limit first s).bind _ = .error error := h
        rw [hconsume] at hrest
        rcases ih hrest with hnul | ⟨second, hsecond, hrun⟩
        · exact .inl hnul
        · refine .inr ⟨first ++ second, ?_, ?_⟩
          · rw [List.map_append, hfirst, List.append_assoc]
            exact (List.prefix_append_right_inj _).mpr hsecond
          · rw [consume_append, hconsume]
            exact hrun

/-- A line of the text before the first malformed byte or NUL that is too long by itself. -/
def LongBefore (outputs : List (Option Nat)) (offset number : Nat) : Prop :=
  ∃ front : Text, ∃ line, front.map some <+: outputs ∧ 0 ∉ front ∧ offset ≤ number ∧
    (linesOf front)[number - 1]? = some line ∧ MAX_TEXT_BYTES < byteLength line

/-- An error of a file that is no text. -/
theorem readWindow_refused {chunks : List (List UInt8)}
    (hfile : ¬ ∃ text : Text, PendingPoint.readAll chunks.flatten = text.map some ∧ 0 ∉ text)
    (offset : Nat) (limit : Option Nat) :
    readWindow chunks offset limit = .error .notText ∨
    ∃ number, readWindow chunks offset limit = .error (.lineTooLong number) ∧
      LongBefore (PendingPoint.readAll chunks.flatten) offset number := by
  cases hread : readChunks offset limit chunks .ready .start with
  | ok s =>
    obtain ⟨text, htext⟩ := readChunks_ok hread
    rw [readChunks_text htext] at hread
    cases hconsume : consume offset limit text .start with
    | error error =>
      rw [hconsume] at hread
      cases hread
    | ok s₁ => exact absurd ⟨text, htext, nonzero_of_consume hconsume⟩ hfile
  | error error =>
    have hwindow : readWindow chunks offset limit = .error error := by
      unfold readWindow
      rw [hread]
      rfl
    rw [hwindow]
    rcases consumed_of_readChunks hread with rfl | ⟨text, htext, hrun⟩
    · exact .inl rfl
    · have hfront : error = .notText ∨ ∃ front, front <+: text ∧ 0 ∉ front ∧
          (consume offset limit front .start).bind (finishFile offset limit) = .error error := by
        cases hconsume : consume offset limit text .start with
        | error refused =>
          rw [hconsume] at hrun
          obtain rfl := Except.error.inj hrun
          rcases front_of_consume hconsume with hnul | ⟨front, hle, hnul, hfront⟩
          · exact .inl hnul
          · refine .inr ⟨front, hle, hnul, ?_⟩
            rw [hfront]
            rfl
        | ok s₁ => exact .inr ⟨text, List.prefix_rfl, nonzero_of_consume hconsume, hrun⟩
      rcases hfront with rfl | ⟨front, hle, hnul, hfail⟩
      · exact .inl rfl
      · rw [consume_lines hnul List.not_mem_nil between_start (begun_nil between_start),
          List.nil_append] at hfail
        rcases selected_of_run (linesOf front) with ⟨s, hok, -⟩ | ⟨k, line, hlong, hline, hk, hsize⟩
        · rw [hok] at hfail
          cases hfail
        · rw [hlong] at hfail
          obtain rfl := Except.error.inj hfail
          exact .inr ⟨k + 1, rfl, front, line, (hle.map some).trans htext,
            hnul, hk, hline, hsize⟩

end Henji.ReadTool
