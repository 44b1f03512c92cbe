import Henji.Tools.ReadPages
import Mathlib.Data.Nat.Digits.Defs

/-!
# Reading a file to its end

Where no line is longer than 256 bytes less than a result, the marker always fits behind a line, so
each result shows at least one more line until the file has ended.

Results:
1. `byteLength_marker`: the size of a marker.
2. `reading_on`: reading on from offset to offset shows the file.
3. `window_or_refusal`: what reading any file gives.
-/

namespace Henji.ReadTool

/-! ## The size of a marker -/

def MAX_SAFE_INTEGER : Nat := 9007199254740991

theorem byteLength_ascii {text : String} (h : ∀ c ∈ text.toList, c.toNat < 0x80) :
    byteLength (ascii text) = text.length := by
  have hone : ∀ chars : List Char, (∀ c ∈ chars, c.toNat < 0x80) →
      byteLength (chars.map Char.toNat) = chars.length := by
    intro chars hchars
    induction chars with
    | nil => rfl
    | cons c chars ih =>
      rw [List.forall_mem_cons] at hchars
      have hc : byteLength [c.toNat] = 1 := by
        rw [byteLength_singleton, encodePoint, if_pos hchars.1]
        rfl
      rw [List.map_cons, ← List.singleton_append, byteLength_append, hc, ih hchars.2,
        List.length_cons]
      omega
  exact (hone text.toList h).trans String.length_toList

theorem byteLength_decimal {n : Nat} (h : n ≤ MAX_SAFE_INTEGER + 1) :
    byteLength (ascii (toString n)) ≤ 16 := by
  have hdigits : ∀ c ∈ (toString n).toList, c.toNat < 0x80 := by
    intro c hc
    have hmem : c ∈ Nat.toDigits 10 n := Nat.toList_repr (n := n) ▸ hc
    have hdigit := Nat.isDigit_of_mem_toDigits (by decide) (by decide) hmem
    unfold Char.isDigit at hdigit
    simp only [Bool.and_eq_true, decide_eq_true_eq] at hdigit
    have hle : c.toNat ≤ '9'.toNat := hdigit.2
    exact Nat.lt_of_le_of_lt hle (by decide)
  rw [byteLength_ascii hdigits]
  refine (Nat.length_repr_le_iff (by decide)).mpr (Nat.lt_of_le_of_lt h (by decide))

theorem byteLength_marker {offset last total next : Nat} (hoffset : offset ≤ MAX_SAFE_INTEGER + 1)
    (hlast : last ≤ MAX_SAFE_INTEGER + 1) (htotal : total ≤ MAX_SAFE_INTEGER + 1)
    (hnext : next ≤ MAX_SAFE_INTEGER + 1) :
    byteLength (marker offset last total next) ≤ 254 := by
  have hfirst : byteLength (ascii "[Showing lines ") = 15 := by decide
  have hdash : byteLength (ascii "-") = 1 := by decide
  have hof : byteLength (ascii " of ") = 4 := by decide
  have huse : byteLength (ascii ". Use offset=") = 13 := by decide
  have hend : byteLength (ascii " to continue.]") = 14 := by decide
  have h₁ := byteLength_decimal hoffset
  have h₂ := byteLength_decimal hlast
  have h₃ := byteLength_decimal htotal
  have h₄ := byteLength_decimal hnext
  unfold marker
  simp only [byteLength_append]
  omega

theorem marker_fits {line : Text} (hline : byteLength line ≤ MAX_TEXT_BYTES - 256)
    (offset : Nat) {total : Nat} (hoffset : offset ≤ total) (htotal : total ≤ MAX_SAFE_INTEGER) :
    byteLength (Window.text offset ⟨[line], some total⟩) ≤ MAX_TEXT_BYTES := by
  have hnext : Window.next offset ⟨[line], some total⟩ = offset + 1 := rfl
  have hmarker : byteLength (marker offset (offset + 1 - 1) total (offset + 1)) ≤ 254 :=
    byteLength_marker (by omega) (by omega) (by omega) (by omega)
  have hseparator : ∀ last : Option Nat,
      byteLength (if last = some 0x0a then [0x0a] else [0x0a, 0x0a]) ≤ 2 := by
    intro last
    split <;> decide
  have hbreak := hseparator [line].flatten.getLast?
  show byteLength ([line].flatten ++ _ ++ _) ≤ MAX_TEXT_BYTES
  rw [byteLength_append, byteLength_append, List.flatten_singleton, hnext]
  rw [List.flatten_singleton] at hbreak
  have hmax : MAX_TEXT_BYTES = 65536 := rfl
  omega

/-! ## Reading on -/

/-- Every line leaves room for a marker. -/
def ShortLines (text : Text) : Prop :=
  ∀ line ∈ linesOf text, byteLength line ≤ MAX_TEXT_BYTES - 256

instance (text : Text) : Decidable (ShortLines text) := by
  unfold ShortLines
  infer_instance

/-- Results from an offset on: each but the last tells the offset of the next one. -/
inductive Pages (lines : List Text) : Nat → List Window → Prop where
  | last {offset : Nat} {window : Window} : Shows lines offset window → window.total = none →
      Pages lines offset [window]
  | more {offset : Nat} {window : Window} {windows : List Window} : Shows lines offset window →
      window.total = some lines.length → offset < window.next offset →
      Pages lines (window.next offset) windows → Pages lines offset (window :: windows)

theorem no_refusal {text : Text} (hshort : ShortLines text)
    (hcount : (linesOf text).length ≤ MAX_SAFE_INTEGER) {offset number : Nat} (hoffset : 1 ≤ offset) :
    ¬ DoesNotFit (linesOf text) offset number := by
  rintro ⟨line, hle, hline, hlong | ⟨rfl, hmarker⟩⟩
  · have hsize := hshort line (List.mem_of_getElem? hline)
    have hmax : MAX_TEXT_BYTES = 65536 := rfl
    omega
  · have hnumber := (List.getElem?_eq_some_iff.mp hline).1
    have hfits := marker_fits (hshort line (List.mem_of_getElem? hline)) number
      (Nat.le_of_pred_lt hnumber) hcount
    omega

/-- Reading on shows the lines from the offset on. -/
theorem reading_on {text : Text} (hnul : 0 ∉ text) (hshort : ShortLines text)
    (hcount : (linesOf text).length ≤ MAX_SAFE_INTEGER) {chunks : Nat → List (List UInt8)}
    (hfile : ∀ i, PendingPoint.readAll (chunks i).flatten = text.map some)
    {limits : Nat → Option Nat} (hlimits : ∀ i, ∀ n ∈ limits i, 1 ≤ n) (remaining : Nat)
    (index offset : Nat) (hoffset : 1 ≤ offset)
    (hremaining : (linesOf text).length + 1 - offset ≤ remaining) :
    ∃ windows, follow chunks limits (remaining + 1) index offset = (windows, .finished) ∧
      Pages (linesOf text) offset windows ∧
      windows.flatMap Window.lines = (linesOf text).drop (offset - 1) := by
  induction remaining generalizing index offset with
  | zero =>
    rcases readWindow_spec (hfile index) hnul hoffset (hlimits index) with
      ⟨window, hwindow, hshows⟩ | ⟨number, -, hrefused⟩
    · have htotal : window.total = none := by
        cases htotal : window.total with
        | none => rfl
        | some total =>
          obtain ⟨rfl, hne, hnext⟩ := hshows.more total htotal
          unfold Window.next at hnext
          omega
      refine ⟨[window], ?_, .last hshows htotal, ?_⟩
      · unfold follow
        rw [hwindow]
        dsimp only
        rw [htotal]
      · rw [List.flatMap_singleton]
        exact hshows.whole htotal
    · exact absurd hrefused (no_refusal hshort hcount hoffset)
  | succ remaining ih =>
    rcases readWindow_spec (hfile index) hnul hoffset (hlimits index) with
      ⟨window, hwindow, hshows⟩ | ⟨number, -, hrefused⟩
    · cases htotal : window.total with
      | none =>
        refine ⟨[window], ?_, .last hshows htotal, ?_⟩
        · unfold follow
          rw [hwindow]
          dsimp only
          rw [htotal]
        · rw [List.flatMap_singleton]
          exact hshows.whole htotal
      | some total =>
        obtain ⟨rfl, hne, hnext⟩ := hshows.more total htotal
        have hlength := List.length_pos_of_ne_nil hne
        have hlater : offset < window.next offset := by
          unfold Window.next
          omega
        obtain ⟨windows, hfollow, hpages, hlines⟩ := ih (index + 1) (window.next offset)
          (by omega) (by omega)
        refine ⟨window :: windows, ?_, .more hshows htotal hlater hpages, ?_⟩
        · unfold follow
          rw [hwindow]
          dsimp only
          rw [htotal]
          dsimp only
          rw [hfollow]
        · obtain ⟨rest, hrest⟩ := hshows.front
          have hdrop : window.next offset - 1 = offset - 1 + window.lines.length := by
            unfold Window.next
            omega
          rw [List.flatMap_cons, hlines, hdrop, ← List.drop_drop, ← hrest, List.drop_left]
    · exact absurd hrefused (no_refusal hshort hcount hoffset)

/-! ## Any file -/

/-- The decoder takes the bytes as a text that has no NUL. -/
def IsText (bytes : List UInt8) (text : Text) : Prop :=
  PendingPoint.readAll bytes = text.map some ∧ 0 ∉ text

/-- Reading a text from its first line ends and shows it, where every line leaves room for a marker.
Any file gives lines, or an error about a line that does not fit, or it is no text. -/
theorem windowed_reading :
    (∀ (text : Text) (bytes : List UInt8) (chunks : Nat → List (List UInt8))
      (limits : Nat → Option Nat), IsText bytes text → ShortLines text →
      (linesOf text).length ≤ MAX_SAFE_INTEGER → (∀ i, (chunks i).flatten = bytes) →
      (∀ i, ∀ n ∈ limits i, 1 ≤ n) →
      ∃ calls windows, follow chunks limits calls 0 1 = (windows, .finished) ∧
        Pages (linesOf text) 1 windows ∧ (windows.flatMap Window.lines).flatten = text) ∧
    ∀ (chunks : List (List UInt8)) (offset : Nat) (limit : Option Nat), 1 ≤ offset →
      (∀ n ∈ limit, 1 ≤ n) →
      (∀ text, IsText chunks.flatten text →
        (∃ window, readWindow chunks offset limit = .ok window ∧
          Shows (linesOf text) offset window) ∨
        ∃ number, readWindow chunks offset limit = .error (.lineTooLong number) ∧
          DoesNotFit (linesOf text) offset number) ∧
      ((¬ ∃ text, IsText chunks.flatten text) →
        readWindow chunks offset limit = .error .notText ∨
        ∃ number, readWindow chunks offset limit = .error (.lineTooLong number) ∧
          LongBefore (PendingPoint.readAll chunks.flatten) offset number) := by
  constructor
  · intro text bytes chunks limits hfile hshort hcount hchunks hlimits
    obtain ⟨windows, hfollow, hpages, hlines⟩ := reading_on hfile.2 hshort hcount
      (fun i => (hchunks i).symm ▸ hfile.1) hlimits _ 0 1 (Nat.le_refl 1) (Nat.le_refl _)
    refine ⟨_, windows, hfollow, hpages, ?_⟩
    rw [hlines]
    exact flatten_linesOf text
  · intro chunks offset limit hoffset hlimit
    exact ⟨fun text hfile => readWindow_spec hfile.1 hfile.2 hoffset hlimit,
      fun hfile => readWindow_refused hfile offset limit⟩

/-- Two lines, read one by one, and bytes that are no text. -/
theorem windowed_reading_two_lines :
    (∃ calls windows, follow (fun i => if i = 0 then [[0x61], [0x0a, 0x62]] else [[0x61, 0x0a, 0x62]])
        (fun _ => some 1) calls 0 1 = (windows, .finished) ∧
      Pages (linesOf [0x61, 0x0a, 0x62]) 1 windows ∧
      (windows.flatMap Window.lines).flatten = [0x61, 0x0a, 0x62]) ∧
    (readWindow [[0x61, 0xff]] 1 none = .error .notText ∨
      ∃ number, readWindow [[0x61, 0xff]] 1 none = .error (.lineTooLong number) ∧
        LongBefore (PendingPoint.readAll [0x61, 0xff]) 1 number) := by
  constructor
  · refine windowed_reading.1 [0x61, 0x0a, 0x62] [0x61, 0x0a, 0x62] _ _ ⟨by decide, by decide⟩
      (by decide) (by decide) (fun i => ?_) (fun _ n hn => ?_)
    · split <;> rfl
    · obtain rfl := Option.some.inj hn
      exact Nat.le_refl 1
  · refine (windowed_reading.2 [[0x61, 0xff]] 1 none (Nat.le_refl 1) (fun n hn => by cases hn)).2 ?_
    rintro ⟨text, htext, -⟩
    have hdecoded : PendingPoint.readAll [0x61, 0xff] = [some 0x61, none] := by decide
    have hsome : none ∈ text.map some := htext ▸ hdecoded ▸ by decide
    simp at hsome

/-- A byte that is no text is neither shown nor reported as a line. -/
theorem refusal_names_no_line : readWindow [[0xff]] 1 none = .error .notText := by
  decide

end Henji.ReadTool
