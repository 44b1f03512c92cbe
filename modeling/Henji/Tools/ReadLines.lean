import Henji.Tools.ReadWindow

/-!
# The lines that a window selects

The bytes may be cut anywhere: only the decoded text counts, and of it only its lines. The selection
is a front of the lines from the offset on, and it is all of them unless the limit or the size of the
result closes it.

Results:
1. `readChunks_lines`: reading is a run over the lines of the text.
2. `readChunks_ok`: a file whose bytes the decoder refuses is not read.
-/

namespace Henji.ReadTool

/-! ## Lines -/

/-- The lines of a text, each with its line break. -/
def linesOf : Text → List Text
  | [] => []
  | n :: text =>
    if n = 0x0a then [n] :: linesOf text
    else match linesOf text with
      | [] => [[n]]
      | line :: lines => (n :: line) :: lines

theorem flatten_linesOf (text : Text) : (linesOf text).flatten = text := by
  induction text with
  | nil => rfl
  | cons n text ih =>
    unfold linesOf
    split
    · rw [List.flatten_cons, ih]
      rfl
    · split
      · next hnil =>
        rw [hnil] at ih
        rw [← ih]
        rfl
      · next line lines hlines =>
        rw [hlines] at ih
        rw [← ih]
        rfl

theorem linesOf_break {line : Text} (h : 0x0a ∉ line) (text : Text) :
    linesOf (line ++ 0x0a :: text) = (line ++ [0x0a]) :: linesOf text := by
  induction line with
  | nil => exact if_pos rfl
  | cons n line ih =>
    rw [List.mem_cons, not_or] at h
    rw [List.cons_append, linesOf, if_neg (Ne.symm h.1), ih h.2]
    rfl

theorem linesOf_last {line : Text} (h : 0x0a ∉ line) (hne : line ≠ []) : linesOf line = [line] := by
  induction line with
  | nil => exact absurd rfl hne
  | cons n line ih =>
    rw [List.mem_cons, not_or] at h
    rw [linesOf, if_neg (Ne.symm h.1)]
    cases line with
    | nil => rfl
    | cons m line => rw [ih h.2 (List.cons_ne_nil m line)]

@[simp] theorem byteLength_nil : byteLength [] = 0 := rfl

@[simp] theorem byteLength_append (first second : Text) :
    byteLength (first ++ second) = byteLength first + byteLength second := by
  unfold byteLength
  rw [List.flatMap_append, List.length_append]

theorem byteLength_singleton (n : Nat) : byteLength [n] = (encodePoint n).length := by
  unfold byteLength
  rw [List.flatMap_singleton]

/-! ## Reading chunks -/

section Stream

variable {offset : Nat} {limit : Option Nat}

/-- The end of the file ends a line that has begun. -/
def finishFile (offset : Nat) (limit : Option Nat) (s : ReadState) : Except ReadError ReadState :=
  if s.linePresent then finishLine offset limit s else .ok s

theorem accepted_some (text : Text) : accepted (text.map some) = .ok text := by
  have hall : ((text.map some).all Option.isSome) = true := by
    rw [List.all_map]
    exact List.all_eq_true.mpr fun _ _ => rfl
  unfold accepted
  rw [if_pos hall, List.filterMap_map]
  exact congrArg _ List.filterMap_some

theorem accepted_ok {outputs : List (Option Nat)} {text : Text} (h : accepted outputs = .ok text) :
    outputs = text.map some := by
  unfold accepted at h
  split at h
  · next hall =>
    obtain rfl := Except.ok.inj h
    clear h
    induction outputs with
    | nil => rfl
    | cons output outputs ih =>
      rw [List.all_cons, Bool.and_eq_true] at hall
      cases output with
      | none => cases hall.1
      | some n => exact congrArg _ (ih hall.2)
  · cases h

theorem consume_append (first second : Text) (s : ReadState) :
    consume offset limit (first ++ second) s =
      (consume offset limit first s).bind (consume offset limit second) :=
  List.foldlM_append

/-- The cuts between chunks do not matter. -/
theorem readChunks_text {chunks : List (List UInt8)} {pending : PendingPoint} {text : Text}
    (h : (Mealy.run PendingPoint.step chunks.flatten pending).1 ++
      (Mealy.run PendingPoint.step chunks.flatten pending).2.flush = text.map some)
    (s : ReadState) : readChunks offset limit chunks pending s =
      (consume offset limit text s).bind (finishFile offset limit) := by
  induction chunks generalizing pending text s with
  | nil =>
    have hflush : pending.flush = text.map some := h
    unfold readChunks
    rw [hflush, accepted_some]
    rfl
  | cons chunk chunks ih =>
    rw [List.flatten_cons, Mealy.run_append, List.append_assoc] at h
    obtain ⟨first, second, rfl, hfirst, hsecond⟩ := List.append_eq_map_iff.mp h
    unfold readChunks
    rw [← hfirst, accepted_some, consume_append]
    cases hconsume : consume offset limit first s with
    | error error =>
      show (consume offset limit first s).bind _ = _
      rw [hconsume]
      rfl
    | ok s' =>
      show (consume offset limit first s).bind _ = _
      rw [hconsume]
      exact ih hsecond.symm s'

/-- A file whose bytes the decoder refuses is not read. -/
theorem readChunks_ok {chunks : List (List UInt8)} {pending : PendingPoint} {s result : ReadState}
    (h : readChunks offset limit chunks pending s = .ok result) : ∃ text : Text,
      (Mealy.run PendingPoint.step chunks.flatten pending).1 ++
        (Mealy.run PendingPoint.step chunks.flatten pending).2.flush = text.map some := by
  induction chunks generalizing pending s with
  | nil =>
    unfold readChunks at h
    cases hflush : accepted pending.flush with
    | error error =>
      rw [hflush] at h
      cases h
    | ok text => exact ⟨text, accepted_ok hflush⟩
  | cons chunk chunks ih =>
    unfold readChunks at h
    cases hchunk : accepted (Mealy.run PendingPoint.step chunk pending).1 with
    | error error =>
      rw [hchunk] at h
      cases h
    | ok first =>
      rw [hchunk] at h
      cases hconsume : consume offset limit first s with
      | error error =>
        have hfail : (consume offset limit first s).bind _ = .ok result := h
        rw [hconsume] at hfail
        cases hfail
      | ok s' =>
        have hrest : (consume offset limit first s).bind _ = .ok result := h
        rw [hconsume] at hrest
        obtain ⟨second, hsecond⟩ := ih hrest
        refine ⟨first ++ second, ?_⟩
        rw [List.flatten_cons, Mealy.run_append, List.append_assoc, hsecond, accepted_ok hchunk,
          List.map_append]

/-! ## Consuming lines -/

/-- No line has begun. -/
structure Between (s : ReadState) : Prop where
  line : s.line = []
  lineBytes : s.lineBytes = 0
  linePresent : s.linePresent = false

/-- A whole line at once. -/
def stepLine (offset : Nat) (limit : Option Nat) (s : ReadState) (line : Text) :
    Except ReadError ReadState :=
  finishLine offset limit { s with line := line, lineBytes := byteLength line }

/-- `t` is `s` with a line begun; the line is not collected where it is too long. -/
structure Begun (s : ReadState) (line : Text) (t : ReadState) : Prop where
  eq : t = { s with line := t.line, lineBytes := byteLength line, linePresent := decide (line ≠ []) }
  line : byteLength line ≤ MAX_TEXT_BYTES + 1 → t.line = line

theorem begun_nil {s : ReadState} (h : Between s) : Begun s [] s := by
  refine ⟨?_, fun _ => h.line⟩
  obtain ⟨selected, selectedBytes, totalLines, line, lineBytes, linePresent, closed⟩ := s
  obtain ⟨rfl, rfl, rfl⟩ := h
  rfl

theorem finishLine_begun {s t : ReadState} {line : Text} (h : Begun s line t) :
    finishLine offset limit t = stepLine offset limit s line := by
  unfold stepLine finishLine
  rw [h.eq]
  dsimp only
  split
  · split
    · rfl
    · next hfits =>
      rw [h.line (Nat.le_succ_of_le (Nat.le_of_not_lt hfits))]
  · rfl

theorem between_finishLine {s s' : ReadState} (h : finishLine offset limit s = .ok s') :
    Between s' := by
  unfold finishLine at h
  dsimp only at h
  split at h
  · split at h
    · cases h
    · split at h <;>
      · cases h
        exact ⟨rfl, rfl, rfl⟩
  · cases h
    exact ⟨rfl, rfl, rfl⟩

theorem begun_character {s t : ReadState} {line : Text} (h : Begun s line t) (n : Nat) :
    Begun s (line ++ [n]) { t with
      linePresent := true
      lineBytes := t.lineBytes + (encodePoint n).length
      line := if t.lineBytes + (encodePoint n).length ≤ MAX_TEXT_BYTES + 1 then t.line ++ [n]
        else t.line } := by
  have hbytes : t.lineBytes = byteLength line := by rw [h.eq]
  rw [hbytes, ← byteLength_singleton, ← byteLength_append]
  refine ⟨?_, fun hfits => ?_⟩
  · rw [h.eq, decide_eq_true (List.append_ne_nil_of_right_ne_nil line (List.cons_ne_nil n []))]
  · have hshort : byteLength line ≤ MAX_TEXT_BYTES + 1 := by
      rw [byteLength_append] at hfits
      omega
    dsimp only
    rw [if_pos hfits, h.line hshort]

/-- The text counts only by its lines. -/
theorem consume_lines {text line : Text} {s t : ReadState} (hnul : 0 ∉ text) (hline : 0x0a ∉ line)
    (hs : Between s) (ht : Begun s line t) :
    (consume offset limit text t).bind (finishFile offset limit) =
      (linesOf (line ++ text)).foldlM (stepLine offset limit) s := by
  induction text generalizing line s t with
  | nil =>
    have hpresent : t.linePresent = decide (line ≠ []) := by rw [ht.eq]
    show finishFile offset limit t = _
    unfold finishFile
    rw [hpresent, List.append_nil]
    cases line with
    | nil =>
      have hsame : t = s := by
        rw [ht.eq, ht.line (Nat.zero_le _)]
        obtain ⟨selected, selectedBytes, totalLines, line, lineBytes, linePresent, closed⟩ := s
        obtain ⟨rfl, rfl, rfl⟩ := hs
        rfl
      rw [hsame]
      rfl
    | cons n line =>
      rw [if_pos (decide_eq_true (List.cons_ne_nil n line)), finishLine_begun ht,
        linesOf_last hline (List.cons_ne_nil n line), List.foldlM_cons]
      cases stepLine offset limit s (n :: line) <;> rfl
  | cons n text ih =>
    rw [List.mem_cons, not_or] at hnul
    have hbegun := begun_character ht n
    have hcharacter : consume offset limit (n :: text) t =
        (consumeCharacter offset limit t n).bind (consume offset limit text) := rfl
    rw [hcharacter]
    unfold consumeCharacter
    rw [if_neg (Ne.symm hnul.1)]
    dsimp only
    split
    · next hbreak =>
      rw [finishLine_begun hbegun]
      subst hbreak
      rw [linesOf_break hline, List.foldlM_cons]
      cases hstep : stepLine offset limit s (line ++ [0x0a]) with
      | error error => rfl
      | ok s' =>
        have hs' : Between s' := between_finishLine hstep
        exact ih hnul.2 List.not_mem_nil hs' (begun_nil hs')
    · next hbreak =>
      have hline' : 0x0a ∉ line ++ [n] := by
        rw [List.mem_append, List.mem_singleton, not_or]
        exact ⟨hline, fun h => hbreak h.symm⟩
      have hrest := ih hnul.2 hline' hs hbegun
      rw [List.append_assoc] at hrest
      exact hrest

theorem between_start : Between .start := ⟨rfl, rfl, rfl⟩

/-- Reading is a run over the lines of the text. -/
theorem readChunks_lines {chunks : List (List UInt8)} {text : Text}
    (h : PendingPoint.readAll chunks.flatten = text.map some) (hnul : 0 ∉ text) :
    readChunks offset limit chunks .ready .start =
      (linesOf text).foldlM (stepLine offset limit) .start := by
  rw [readChunks_text h]
  exact consume_lines hnul List.not_mem_nil between_start (begun_nil between_start)

end Stream

end Henji.ReadTool
