import Henji.Tui.CursorMoves
import Henji.Tui.RemoteDraft

/-!
# What the editor holds

The inputs keep an editor valid: its text is one that it would take, and its cursor stands in it.
-/

namespace Henji

variable {unicode : Segmentation}

namespace TuiEditor

theorem acceptable_iff {text : List Char} : acceptable text = true ↔
    Char.ofNat 0 ∉ text ∧ byteLength text ≤ MAX_EDITOR_BYTES := by
  simp [acceptable]

theorem byteLength_append (first second : List Char) :
    byteLength (first ++ second) = byteLength first + byteLength second := by
  simp [byteLength]

theorem byteLength_le_of_sublist {part text : List Char} (h : part.Sublist text) :
    byteLength part ≤ byteLength text := by
  induction h with
  | slnil => exact Nat.le_refl _
  | cons character _ ih =>
    rw [← List.singleton_append, byteLength_append]
    exact Nat.le_add_left_of_le ih
  | cons_cons character _ ih =>
    exact Nat.add_le_add_left ih character.utf8Size

/-- An editor holds a text that it would take, with the cursor in it. -/
structure Valid (editor : TuiEditor) : Prop where
  text : acceptable editor.value = true
  cursor : editor.cursor ≤ editor.value.length

theorem valid_empty : empty.Valid := ⟨by decide, Nat.le_refl _⟩

theorem Valid.setSnapshot {editor next : TuiEditor} {text : List Char} {cursor : Nat}
    (h : editor.setSnapshot text cursor = some next) : next.Valid := by
  rw [TuiEditor.setSnapshot] at h
  split at h
  · exact absurd h (by simp)
  · next hfine =>
    rw [not_or, Bool.not_eq_false, Nat.not_lt] at hfine
    obtain rfl := Option.some.inj h
    exact ⟨hfine.1, hfine.2⟩

theorem Valid.insert {editor next : TuiEditor} (hvalid : editor.Valid) {text : List Char}
    (h : editor.insert text = some next) : next.Valid := by
  rw [TuiEditor.insert] at h
  split at h
  · exact absurd h (by simp)
  · next hfine =>
    rw [not_or, Bool.not_eq_false, Nat.not_lt] at hfine
    obtain ⟨hnul, -⟩ := acceptable_iff.mp hfine.1
    obtain ⟨hold, -⟩ := acceptable_iff.mp hvalid.text
    obtain rfl := Option.some.inj h
    refine ⟨acceptable_iff.mpr ⟨?_, ?_⟩, ?_⟩
    · simp only [List.mem_append, not_or]
      exact ⟨⟨fun hmem => hold (List.mem_of_mem_take hmem), hnul⟩,
        fun hmem => hold (List.mem_of_mem_drop hmem)⟩
    · have hsplit : byteLength editor.value = byteLength (editor.value.take editor.cursor) +
          byteLength (editor.value.drop editor.cursor) := by
        rw [← byteLength_append, List.take_append_drop]
      simp only [byteLength_append]
      omega
    · have hcursor := hvalid.cursor
      simp only [List.length_append, List.length_take, List.length_drop]
      omega

theorem Valid.backspace {editor next : TuiEditor} (hvalid : editor.Valid)
    (h : editor.backspace = some next) : next.Valid := by
  rw [TuiEditor.backspace] at h
  split at h
  · exact absurd h (by simp)
  · next hcursor =>
    obtain ⟨hold, hlength⟩ := acceptable_iff.mp hvalid.text
    have hbound := hvalid.cursor
    obtain rfl := Option.some.inj h
    refine ⟨acceptable_iff.mpr ⟨fun hmem => hold (List.mem_of_mem_eraseIdx hmem), ?_⟩, ?_⟩
    · have hpart : byteLength (editor.value.eraseIdx (editor.cursor - 1)) ≤
          byteLength editor.value := byteLength_le_of_sublist (List.eraseIdx_sublist _ _)
      exact Nat.le_trans hpart hlength
    · show editor.cursor - 1 ≤ _
      rw [List.length_eraseIdx]
      split <;> omega

theorem lineReach_le (points : List Char) : lineReach points ≤ points.length :=
  (List.takeWhile_sublist _).length_le

/-- The inputs of the draft. -/
theorem Valid.applyEditorEvent {editor : TuiEditor} (hvalid : editor.Valid) (columns : Nat)
    (event : DraftInput) : (Henji.applyEditorEvent unicode editor columns event).Valid := by
  have hinsert : ∀ text, ((editor.insert text).getD editor).Valid := by
    intro text
    cases h : editor.insert text with
    | none => exact hvalid
    | some next => exact hvalid.insert h
  have hmove : ∀ direction, ((editor.moveVertical unicode columns direction).getD editor).Valid := by
    intro direction
    cases h : editor.moveVertical unicode columns direction with
    | none => exact hvalid
    | some next =>
      obtain ⟨hvalue, hcursor, -⟩ := moveVertical_lands h
      exact ⟨hvalue ▸ hvalid.text, hcursor⟩
  have hcursor := hvalid.cursor
  cases event with
  | printable text => exact hinsert text
  | paste text => exact hinsert text
  | newline => exact hinsert _
  | altEnter => exact hinsert _
  | up => exact hmove .up
  | down => exact hmove .down
  | backspace =>
    show (editor.backspace.getD editor).Valid
    cases h : editor.backspace with
    | none => exact hvalid
    | some next => exact hvalid.backspace h
  | left =>
    show (editor.moveLeft.getD editor).Valid
    rw [moveLeft]
    split
    · exact hvalid
    · exact ⟨hvalid.text, Nat.le_trans (Nat.sub_le _ _) hcursor⟩
  | right =>
    show (editor.moveRight.getD editor).Valid
    rw [moveRight]
    split
    · exact hvalid
    · next hinside => exact ⟨hvalid.text, Nat.not_le.mp hinside⟩
  | home => exact ⟨hvalid.text, Nat.le_trans (Nat.sub_le _ _) hcursor⟩
  | finish =>
    refine ⟨hvalid.text, ?_⟩
    have hreach := lineReach_le (editor.value.drop editor.cursor)
    rw [List.length_drop] at hreach
    show editor.cursor + lineReach (editor.value.drop editor.cursor) ≤ editor.value.length
    omega

theorem Valid.replaced {editor : TuiEditor} (hvalid : editor.Valid) (text : List Char) :
    (editor.replaced text).Valid := by
  rw [TuiEditor.replaced]
  cases h : editor.setSnapshot text text.length with
  | none => exact hvalid
  | some next => exact Valid.setSnapshot h

/-- A text that is acceptable replaces the old one. -/
theorem replaced_of_acceptable {text : List Char} (h : acceptable text = true) (editor : TuiEditor) :
    editor.replaced text = { value := text, cursor := text.length, preferredColumn := none } := by
  rw [TuiEditor.replaced, setSnapshot, if_neg (by simp [h])]
  rfl

@[simp] theorem replaced_nil (editor : TuiEditor) : editor.replaced [] = .empty :=
  replaced_of_acceptable (by decide) editor

/-- In an empty editor there is nowhere to move. -/
theorem applyEditorEvent_empty (columns : Nat) {event : DraftInput}
    (hmove : isEditorTextMutation event = false) :
    Henji.applyEditorEvent unicode .empty columns event = .empty := by
  cases event with
  | printable | paste | newline | altEnter | backspace => exact absurd hmove (by simp [isEditorTextMutation])
  | left | right | up | down | home | finish => rfl

/-- A move leaves the text. -/
theorem value_applyEditorEvent (editor : TuiEditor) (columns : Nat) {event : DraftInput}
    (hmove : isEditorTextMutation event = false) :
    (Henji.applyEditorEvent unicode editor columns event).value = editor.value := by
  have hvertical : ∀ direction,
      ((editor.moveVertical unicode columns direction).getD editor).value = editor.value := by
    intro direction
    cases h : editor.moveVertical unicode columns direction with
    | none => rfl
    | some next => exact (moveVertical_lands h).1
  cases event with
  | printable | paste | newline | altEnter | backspace => exact absurd hmove (by simp [isEditorTextMutation])
  | up => exact hvertical .up
  | down => exact hvertical .down
  | home => rfl
  | finish => rfl
  | left =>
    show (editor.moveLeft.getD editor).value = _
    rw [moveLeft]
    split <;> rfl
  | right =>
    show (editor.moveRight.getD editor).value = _
    rw [moveRight]
    split <;> rfl

end TuiEditor

end Henji
