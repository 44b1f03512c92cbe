import Mathlib.Algebra.Ring.Nat
import Mathlib.Data.List.Basic

/-!
# Text on the terminal

Well-formed text as its scalars, cut into graphemes. The tables of Unicode are those of the host:
`Segmentation` has what the layout of text relies on. Escaping makes control characters and the marks
of bidirectional text visible; a line feed stays a line feed.
-/

namespace Henji

/-! ## Graphemes -/

def isPrintableAscii (text : List Char) : Bool :=
  text.all fun character => decide (0x20 ≤ character.toNat ∧ character.toNat ≤ 0x7e)

/-- Grapheme clusters and the two properties of characters that their widths depend on. Clusters are
found from any boundary on, and a line feed is one of its own or ends CR LF. -/
structure Segmentation where
  segment : List Char → List (List Char)
  isRgiEmoji : List Char → Bool
  isMark : Char → Bool
  flatten_segment : ∀ text, (segment text).flatten = text
  segment_ne_nil : ∀ text, ∀ grapheme ∈ segment text, grapheme ≠ []
  segment_inside : ∀ text before inside behind, segment text = before ++ inside ++ behind →
    segment inside.flatten = inside
  segment_ascii : ∀ text, isPrintableAscii text = true → segment text = text.map fun c => [c]
  lineFeed : ∀ text, ∀ grapheme ∈ segment text, '\n' ∈ grapheme →
    grapheme = ['\n'] ∨ grapheme = ['\r', '\n']
  crLf : ∀ text, ['\r', '\n'] <:+: text → ['\r', '\n'] ∈ segment text

/-! Where no scalar joins another but CR LF, a scalar is a grapheme. -/

def plainClusters : List Char → List (List Char)
  | [] => []
  | '\r' :: '\n' :: text => ['\r', '\n'] :: plainClusters text
  | character :: text => [character] :: plainClusters text

theorem flatten_plainClusters (text : List Char) : (plainClusters text).flatten = text := by
  fun_induction plainClusters text with
  | case1 => rfl
  | case2 text ih => rw [List.flatten_cons, ih]; rfl
  | case3 character text hother ih => rw [List.flatten_cons, ih]; rfl

/-- A boundary does not depend on what is behind the next one. -/
theorem plainClusters_front {text : List Char} {inside behind : List (List Char)}
    (h : plainClusters text = inside ++ behind) : plainClusters inside.flatten = inside := by
  induction inside generalizing text with
  | nil => rfl
  | cons cluster inside ih =>
    cases text using plainClusters.fun_cases_unfolding with
    | case1 => exact absurd h (by simp [plainClusters])
    | case2 text =>
      obtain ⟨rfl, hrest⟩ := List.cons.inj h
      rw [List.flatten_cons]
      show ['\r', '\n'] :: plainClusters inside.flatten = _
      rw [ih hrest]
    | case3 character text hother =>
      rw [plainClusters.eq_3 _ _ hother] at h
      obtain ⟨rfl, hrest⟩ := List.cons.inj h
      have htext : text = inside.flatten ++ behind.flatten := by
        rw [← flatten_plainClusters text, hrest]
        exact List.flatten_append
      rw [List.flatten_cons, List.singleton_append, plainClusters, ih hrest]
      intro rest hreturn hfront
      exact hother (rest ++ behind.flatten) hreturn (by rw [htext, hfront, List.cons_append])

theorem plainClusters_behind {text : List Char} {before inside : List (List Char)}
    (h : plainClusters text = before ++ inside) : plainClusters inside.flatten = inside := by
  induction before generalizing text with
  | nil => rw [← List.nil_append inside, ← h, flatten_plainClusters]
  | cons cluster before ih =>
    cases text using plainClusters.fun_cases_unfolding with
    | case1 => exact absurd h (by simp [plainClusters])
    | case2 text => exact ih (List.cons.inj h).2
    | case3 character text hother =>
      rw [plainClusters.eq_3 _ _ hother] at h
      exact ih (List.cons.inj h).2

theorem mem_plainClusters {text cluster : List Char} (h : cluster ∈ plainClusters text) :
    cluster = ['\r', '\n'] ∨ ∃ character, cluster = [character] := by
  fun_induction plainClusters text with
  | case1 => exact absurd h List.not_mem_nil
  | case2 text ih =>
    rcases List.mem_cons.mp h with rfl | hrest
    · exact .inl rfl
    · exact ih hrest
  | case3 character text hother ih =>
    rcases List.mem_cons.mp h with rfl | hrest
    · exact .inr ⟨character, rfl⟩
    · exact ih hrest

theorem plainClusters_crLf {text : List Char} (h : ['\r', '\n'] <:+: text) :
    ['\r', '\n'] ∈ plainClusters text := by
  fun_induction plainClusters text with
  | case1 => exact absurd (List.infix_nil.mp h) (by simp)
  | case2 text ih => exact List.mem_cons_self
  | case3 character text hother ih =>
    rcases List.infix_cons_iff.mp h with ⟨rest, hfront⟩ | hrest
    · obtain ⟨rfl, rfl⟩ := List.cons.inj hfront
      exact absurd rfl (hother rest rfl)
    · exact List.mem_cons_of_mem _ (ih hrest)

theorem plainClusters_ascii {text : List Char} (h : isPrintableAscii text = true) :
    plainClusters text = text.map fun c => [c] := by
  fun_induction plainClusters text with
  | case1 => rfl
  | case2 text ih => exact absurd h (by simp [isPrintableAscii])
  | case3 character text hother ih =>
    rw [List.map_cons, ih]
    exact (Bool.and_eq_true_iff.mp h).2

def plainSegmentation : Segmentation where
  segment := plainClusters
  isRgiEmoji := fun _ => false
  isMark := fun _ => false
  flatten_segment := flatten_plainClusters
  segment_ne_nil := fun text grapheme hmem => by
    rcases mem_plainClusters hmem with rfl | ⟨character, rfl⟩ <;> simp
  segment_inside := fun text before inside behind h => by
    rw [List.append_assoc] at h
    exact plainClusters_front (plainClusters_behind h)
  segment_ascii := fun text => plainClusters_ascii
  lineFeed := fun text grapheme hmem hfeed => by
    rcases mem_plainClusters hmem with rfl | ⟨character, rfl⟩
    · exact .inr rfl
    · rw [List.mem_singleton.mp hfeed]
      exact .inl rfl
  crLf := fun text => plainClusters_crLf

variable (unicode : Segmentation)

/-! ## Widths -/

def isFullwidthForm (code : Nat) : Bool :=
  decide (0xff01 ≤ code ∧ code ≤ 0xff60) || decide (0xffe0 ≤ code ∧ code ≤ 0xffe6)

def scalarCellWidth (character : Char) : Nat :=
  let code := character.toNat
  if decide (0x1100 ≤ code ∧ code ≤ 0x115f) || decide (0x2329 ≤ code ∧ code ≤ 0x232a) ||
      decide (0x2e80 ≤ code ∧ code ≤ 0xa4cf) || decide (0xac00 ≤ code ∧ code ≤ 0xd7a3) ||
      decide (0xf900 ≤ code ∧ code ≤ 0xfaff) || decide (0xfe10 ≤ code ∧ code ≤ 0xfe6f) ||
      decide (0x1f300 ≤ code ∧ code ≤ 0x1faff) || isFullwidthForm code then 2
  else 1

def isEmojiModifier (character : Char) : Bool :=
  decide (0x1f3fb ≤ character.toNat ∧ character.toNat ≤ 0x1f3ff)

def isEmojiTag (character : Char) : Bool :=
  decide (0xe0020 ≤ character.toNat ∧ character.toNat ≤ 0xe007f)

def graphemeCellWidth (text : List Char) : Nat :=
  if unicode.isRgiEmoji text then 2
  else text.foldl (fun width character =>
    if character.toNat == 0x200d || unicode.isMark character || isEmojiModifier character ||
        isEmojiTag character then width
    else max width (scalarCellWidth character)) 0

structure TerminalTextSegment where
  text : List Char
  cellWidth : Nat
  scalarStart : Nat
  scalarEnd : Nat
deriving DecidableEq, Repr

/-- The segments of graphemes, from a scalar on. -/
def segmentsFrom (width : List Char → Nat) (scalarStart : Nat) :
    List (List Char) → List TerminalTextSegment
  | [] => []
  | grapheme :: graphemes =>
    ⟨grapheme, width grapheme, scalarStart, scalarStart + grapheme.length⟩ ::
      segmentsFrom width (scalarStart + grapheme.length) graphemes

def segmentTerminalText (text : List Char) : List TerminalTextSegment :=
  if isPrintableAscii text then segmentsFrom (fun _ => 1) 0 (text.map fun c => [c])
  else segmentsFrom (graphemeCellWidth unicode) 0 (unicode.segment text)

def cellWidth (text : List Char) : Nat :=
  if isPrintableAscii text then text.length
  else ((segmentTerminalText unicode text).map TerminalTextSegment.cellWidth).sum

/-- The short way for ASCII gives the same graphemes. -/
theorem exists_segmentTerminalText (text : List Char) : ∃ width,
    segmentTerminalText unicode text = segmentsFrom width 0 (unicode.segment text) := by
  rw [segmentTerminalText]
  by_cases hascii : isPrintableAscii text = true
  · exact ⟨fun _ => 1, by rw [if_pos hascii, unicode.segment_ascii text hascii]⟩
  · exact ⟨graphemeCellWidth unicode, if_neg hascii⟩

/-! ## Escaping -/

def ESCAPED_BIDI (code : Nat) : Bool :=
  code == 0x061c || decide (0x200e ≤ code ∧ code ≤ 0x200f) ||
    decide (0x202a ≤ code ∧ code ≤ 0x202e) || decide (0x2066 ≤ code ∧ code ≤ 0x2069)

/-- `code.toString(16).toUpperCase()`, with zeros up to four digits. -/
def escapedCodePoint (code : Nat) : List Char :=
  let digits := (Nat.toDigits 16 code).map Char.toUpper
  ['\\', 'u', '\x7b'] ++ List.replicate (4 - digits.length) '0' ++ digits ++ ['\x7d']

def escapeCharacter (character : Char) : List Char :=
  let code := character.toNat
  if code = 0x0a then ['\n']
  else if code = 0x09 then ['⇥']
  else if decide (code < 0x20) || code == 0x7f || decide (0x80 ≤ code ∧ code ≤ 0x9f) ||
      ESCAPED_BIDI code then escapedCodePoint code
  else [character]

def escapeTerminalText (text : List Char) : List Char := text.flatMap escapeCharacter

/-- What a grapheme takes on the terminal. -/
def displayCells (grapheme : List Char) : Nat := cellWidth unicode (escapeTerminalText grapheme)

theorem escapeCharacter_ne_nil (character : Char) : escapeCharacter character ≠ [] := by
  unfold escapeCharacter
  dsimp only
  repeat' split
  all_goals simp [escapedCodePoint]

theorem escapeTerminalText_ne_nil {text : List Char} (h : text ≠ []) :
    escapeTerminalText text ≠ [] := by
  obtain ⟨character, rest, rfl⟩ := List.exists_cons_of_ne_nil h
  rw [escapeTerminalText, List.flatMap_cons]
  exact List.append_ne_nil_of_left_ne_nil (escapeCharacter_ne_nil character) _

theorem toUpper_digitChar_ne (digit : Nat) : (Nat.digitChar digit).toUpper ≠ '\n' := by
  by_cases hsmall : digit < 16
  · have hall : ∀ digit : Fin 16, (Nat.digitChar digit.1).toUpper ≠ '\n' := by decide
    exact hall ⟨digit, hsmall⟩
  · have hother : Nat.digitChar digit = '*' := by
      unfold Nat.digitChar
      repeat rw [if_neg (by omega)]
    rw [hother]
    decide

theorem exists_digit_of_mem_toDigits {number : Nat} {character : Char}
    (h : character ∈ Nat.toDigits 16 number) : ∃ digit, character = Nat.digitChar digit := by
  induction number using Nat.strongRecOn with
  | ind number ih =>
    rw [Nat.toDigits_eq_if (by decide)] at h
    split at h
    · exact ⟨number, List.mem_singleton.mp h⟩
    · next hlarge =>
      rcases List.mem_append.mp h with hfront | hlast
      · exact ih (number / 16) (Nat.div_lt_self (by omega) (by decide)) hfront
      · exact ⟨number % 16, List.mem_singleton.mp hlast⟩

theorem lineFeed_not_mem_escapedCodePoint (code : Nat) : '\n' ∉ escapedCodePoint code := by
  have hdigits : '\n' ∉ (Nat.toDigits 16 code).map Char.toUpper := by
    intro hmem
    obtain ⟨character, hcharacter, hupper⟩ := List.mem_map.mp hmem
    obtain ⟨digit, rfl⟩ := exists_digit_of_mem_toDigits hcharacter
    exact toUpper_digitChar_ne digit hupper
  simp only [escapedCodePoint, List.mem_append, not_or]
  refine ⟨⟨⟨by decide, fun hzero => ?_⟩, hdigits⟩, by decide⟩
  exact absurd (List.eq_of_mem_replicate hzero) (by decide)

/-- Only a line feed is displayed as one. -/
theorem lineFeed_mem_escapeCharacter {character : Char} :
    '\n' ∈ escapeCharacter character ↔ character = '\n' := by
  have hcode : character.toNat = 0x0a ↔ character = '\n' := by
    rw [show (0x0a : Nat) = '\n'.toNat from rfl]
    exact ⟨fun h => Char.toNat_inj.mp h, congrArg Char.toNat⟩
  unfold escapeCharacter
  dsimp only
  by_cases hfeed : character = '\n'
  · rw [if_pos (hcode.mpr hfeed)]
    simp [hfeed]
  · rw [if_neg (mt hcode.mp hfeed)]
    refine iff_of_false ?_ hfeed
    split
    · decide
    · split
      · exact lineFeed_not_mem_escapedCodePoint _
      · exact fun hmem => hfeed (List.mem_singleton.mp hmem).symm

theorem lineFeed_mem_escape {text : List Char} : '\n' ∈ escapeTerminalText text ↔ '\n' ∈ text := by
  rw [escapeTerminalText, List.mem_flatMap]
  constructor
  · rintro ⟨character, hmem, hfeed⟩
    rwa [← lineFeed_mem_escapeCharacter.mp hfeed]
  · exact fun hmem => ⟨'\n', hmem, lineFeed_mem_escapeCharacter.mpr rfl⟩

end Henji
