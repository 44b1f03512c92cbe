import Henji.Tools.EditTool

/-!
# Edits are a simultaneous replacement

A text that occurs once has one position, so the spans do not depend on the order of the operations,
and neither does their sorted list when they do not overlap. Spans of well-formed texts split no
character, so the replacement of text is a replacement of bytes.

Results:
1. `findSpans_eq`: the spans are found if and only if each text occurs once.
2. `overlaps_sortSpans`: the sorted spans overlap if and only if two of the spans do.
3. `replaced_bytes`: the bytes outside the spans stay.
4. `edit_is_simultaneous`: acceptance, result and independence of the order.
-/

namespace Henji.EditTool

/-! ## Positions -/

/-- `pattern` occurs in `text` at `position`. -/
def OccursAt (text pattern : JsText) (position : Nat) : Prop := pattern <+: text.drop position

/-- Where `indexFrom` finds a pattern, it is the first position. -/
theorem indexFrom_spec {pattern : JsText} (hne : pattern ≠ []) (position : Nat) (text : JsText) :
    (∀ i, indexFrom pattern position text = some i → position ≤ i ∧
      OccursAt text pattern (i - position) ∧
      ∀ j, OccursAt text pattern j → i ≤ position + j) ∧
    (indexFrom pattern position text = none → ∀ j, ¬ OccursAt text pattern j) := by
  induction text generalizing position with
  | nil =>
    refine ⟨fun i h => (by cases h), fun _ j h => hne ?_⟩
    unfold OccursAt at h
    rw [List.drop_nil] at h
    exact List.prefix_nil.mp h
  | cons u text ih =>
    obtain ⟨hsome, hnone⟩ := ih (position + 1)
    unfold indexFrom
    split
    · next hfront =>
      refine ⟨fun i h => ?_, fun h => by cases h⟩
      obtain rfl := Option.some.inj h
      refine ⟨Nat.le_refl _, ?_, fun j _ => Nat.le_add_right _ _⟩
      unfold OccursAt
      rw [Nat.sub_self, List.drop_zero]
      exact List.isPrefixOf_iff_prefix.mp hfront
    · next hfront =>
      rw [List.isPrefixOf_iff_prefix] at hfront
      refine ⟨fun i h => ?_, fun h j hj => ?_⟩
      · obtain ⟨hle, hoccurs, hfirst⟩ := hsome i h
        refine ⟨Nat.le_of_succ_le hle, ?_, fun j hj => ?_⟩
        · unfold OccursAt
          rw [show i - position = (i - (position + 1)) + 1 from by omega, List.drop_succ_cons]
          exact hoccurs
        · cases j with
          | zero => exact absurd hj hfront
          | succ j =>
            have hj' := hfirst j hj
            omega
      · cases j with
        | zero => exact hfront hj
        | succ j => exact hnone h j hj

theorem indexOf_spec {text pattern : JsText} (hne : pattern ≠ []) (start : Nat) :
    (∀ i, indexOf text pattern start = some i → start ≤ i ∧ OccursAt text pattern i ∧
      ∀ j, start ≤ j → OccursAt text pattern j → i ≤ j) ∧
    (indexOf text pattern start = none → ∀ j, start ≤ j → ¬ OccursAt text pattern j) := by
  obtain ⟨hsome, hnone⟩ := indexFrom_spec hne start (text.drop start)
  have hdrop : ∀ j, OccursAt (text.drop start) pattern j ↔ OccursAt text pattern (start + j) := by
    intro j
    unfold OccursAt
    rw [List.drop_drop]
  refine ⟨fun i h => ?_, fun h j hj hoccurs => ?_⟩
  · obtain ⟨hle, hoccurs, hfirst⟩ := hsome i h
    rw [hdrop, Nat.add_sub_cancel' hle] at hoccurs
    refine ⟨hle, hoccurs, fun j hj hj' => ?_⟩
    have hleast := hfirst (j - start) ((hdrop _).mpr (by rwa [Nat.add_sub_cancel' hj]))
    omega
  · exact hnone h (j - start) ((hdrop _).mpr (by rwa [Nat.add_sub_cancel' hj]))

/-- The pattern occurs at exactly one position. -/
def OccursOnce (text pattern : JsText) : Prop := ∃! position, OccursAt text pattern position

/-- The one position of a pattern. -/
def position (text pattern : JsText) : Nat := (indexOf text pattern 0).getD 0

theorem position_spec {text pattern : JsText} (hne : pattern ≠ []) (h : OccursOnce text pattern) :
    indexOf text pattern 0 = some (position text pattern) ∧
      OccursAt text pattern (position text pattern) ∧
      ∀ j, OccursAt text pattern j → j = position text pattern := by
  obtain ⟨i, hi, hunique⟩ := h
  obtain ⟨hsome, hnone⟩ := @indexOf_spec text pattern hne 0
  unfold position
  cases hindex : indexOf text pattern 0 with
  | none => exact absurd hi (hnone hindex i (Nat.zero_le i))
  | some first =>
    have hfirst := (hsome first hindex).2.1
    rw [Option.getD_some]
    exact ⟨rfl, hfirst, fun j hj => (hunique j hj).trans (hunique first hfirst).symm⟩

/-- The tool takes a text as unique exactly if it is. -/
theorem occursOnce_iff {text pattern : JsText} (hne : pattern ≠ []) {first : Nat}
    (hfirst : indexOf text pattern 0 = some first) :
    indexOf text pattern (first + 1) = none ↔ OccursOnce text pattern := by
  obtain ⟨-, hoccurs, hleast⟩ := (indexOf_spec hne 0).1 first hfirst
  obtain ⟨hsome, hnone⟩ := @indexOf_spec text pattern hne (first + 1)
  constructor
  · intro h
    refine ⟨first, hoccurs, fun j hj => ?_⟩
    have hle := hleast j (Nat.zero_le j) hj
    rcases Nat.eq_or_lt_of_le hle with heq | hlt
    · exact heq.symm
    · exact absurd hj (hnone h j hlt)
  · rintro ⟨i, hi, hunique⟩
    cases hagain : indexOf text pattern (first + 1) with
    | none => rfl
    | some second =>
      obtain ⟨hlt, hsecond, -⟩ := hsome second hagain
      have heq := (hunique second hsecond).trans (hunique first hoccurs).symm
      omega

/-! ## Spans -/

def spanOf (text : JsText) (operation : EditOperation) : Span :=
  ⟨position text operation.oldText, position text operation.oldText + operation.oldText.length,
    operation⟩

/-- The spans are found if and only if each text occurs once. -/
theorem findSpans_eq {text : JsText} {operations : List EditOperation}
    (hne : ∀ operation ∈ operations, operation.oldText ≠ []) (number : Nat) (spans : List Span) :
    findSpans text number operations = .ok spans ↔
      (∀ operation ∈ operations, OccursOnce text operation.oldText) ∧
        spans = operations.map (spanOf text) := by
  induction operations generalizing number spans with
  | nil =>
    unfold findSpans
    rw [Except.ok.injEq, List.map_nil]
    exact ⟨fun h => ⟨fun _ hmem => (by cases hmem), h.symm⟩, fun h => h.2.symm⟩
  | cons operation operations ih =>
    have hold := hne operation List.mem_cons_self
    have ih' := ih (fun other hother => hne other (List.mem_cons_of_mem _ hother)) (number + 1)
    unfold findSpans
    rw [List.forall_mem_cons, List.map_cons]
    cases hindex : indexOf text operation.oldText 0 with
    | none =>
      refine ⟨fun h => (by cases h), fun h => ?_⟩
      have hsome := (position_spec hold h.1.1).1
      rw [hindex] at hsome
      cases hsome
    | some first =>
      dsimp only
      cases hagain : indexOf text operation.oldText (first + 1) with
      | some second =>
        rw [if_pos (show (some second).isSome = true from rfl)]
        refine ⟨fun h => (by cases h), fun h => ?_⟩
        have hnone := (occursOnce_iff hold hindex).mpr h.1.1
        rw [hagain] at hnone
        cases hnone
      | none =>
        have honce := (occursOnce_iff hold hindex).mp hagain
        have hposition : first = position text operation.oldText :=
          Option.some.inj (hindex.symm.trans (position_spec hold honce).1)
        rw [if_neg (by decide)]
        constructor
        · intro h
          cases hrest : findSpans text (number + 1) operations with
          | error error =>
            rw [hrest] at h
            cases h
          | ok rest =>
            rw [hrest] at h
            obtain ⟨hall, rfl⟩ := (ih' rest).mp hrest
            refine ⟨⟨honce, hall⟩, ?_⟩
            rw [← Except.ok.inj h, hposition]
            rfl
        · rintro ⟨⟨-, hall⟩, rfl⟩
          rw [(ih' _).mpr ⟨hall, rfl⟩, hposition]
          rfl

/-- Two spans that share no unit. -/
def Apart (left right : Span) : Prop := left.stop ≤ right.start ∨ right.stop ≤ left.start

theorem overlaps_eq_false {spans : List Span} (hspans : ∀ span ∈ spans, span.start < span.stop) :
    overlaps spans = false ↔ spans.Pairwise fun left right => left.stop ≤ right.start := by
  induction spans with
  | nil => exact ⟨fun _ => .nil, fun _ => rfl⟩
  | cons left spans ih =>
    have ih' := ih fun span hspan => hspans span (List.mem_cons_of_mem _ hspan)
    cases spans with
    | nil => exact ⟨fun _ => List.pairwise_singleton _ _, fun _ => rfl⟩
    | cons right spans =>
      have hright := hspans right (List.mem_cons_of_mem _ List.mem_cons_self)
      unfold overlaps
      rw [Bool.or_eq_false_iff, ih', decide_eq_false_iff_not, Nat.not_lt,
        List.pairwise_cons (a := left)]
      constructor
      · rintro ⟨hfirst, hrest⟩
        refine ⟨List.forall_mem_cons.mpr ⟨hfirst, fun span hspan => ?_⟩, hrest⟩
        have hbehind := (List.pairwise_cons.mp hrest).1 span hspan
        omega
      · rintro ⟨hfirst, hrest⟩
        exact ⟨hfirst right List.mem_cons_self, hrest⟩

theorem sorted_sortSpans (spans : List Span) :
    (sortSpans spans).Pairwise fun left right => left.start ≤ right.start := by
  have hsorted : (spans.mergeSort startsBefore).Pairwise fun left right =>
      startsBefore left right = true := by
    refine List.pairwise_mergeSort (fun a b c hab hbc => ?_) (fun a b => ?_) spans
    · exact decide_eq_true (Nat.le_trans (of_decide_eq_true hab) (of_decide_eq_true hbc))
    · unfold startsBefore
      rw [Bool.or_eq_true, decide_eq_true_iff, decide_eq_true_iff]
      exact Nat.le_total _ _
  exact hsorted.imp fun h => of_decide_eq_true h

theorem sortSpans_perm (spans : List Span) : (sortSpans spans).Perm spans :=
  List.mergeSort_perm spans _

/-- The sorted spans overlap if and only if two of the spans do. -/
theorem overlaps_sortSpans {spans : List Span} (hspans : ∀ span ∈ spans, span.start < span.stop) :
    overlaps (sortSpans spans) = false ↔ spans.Pairwise Apart := by
  have hspans' : ∀ span ∈ sortSpans spans, span.start < span.stop := fun span hspan =>
    hspans span ((sortSpans_perm spans).mem_iff.mp hspan)
  have hsymm : ∀ {left right : Span}, Apart left right → Apart right left := fun h => h.symm
  rw [overlaps_eq_false hspans', ← (sortSpans_perm spans).pairwise_iff hsymm]
  constructor
  · exact fun h => h.imp .inl
  · intro h
    have hboth := (sorted_sortSpans spans).and h
    refine List.Pairwise.imp_of_mem (fun {left right} hleft hright hpair => ?_) hboth
    rcases hpair.2 with hle | hle
    · exact hle
    · have hlt := hspans' right hright
      omega

/-- Spans that do not overlap sort to one list, whatever their order. -/
theorem sortSpans_of_perm {spans others : List Span} (h : spans.Perm others)
    (hspans : ∀ span ∈ spans, span.start < span.stop) (hapart : spans.Pairwise Apart) :
    sortSpans spans = sortSpans others := by
  have hothers : ∀ span ∈ others, span.start < span.stop := fun span hspan =>
    hspans span (h.mem_iff.mpr hspan)
  have hsymm : ∀ {left right : Span}, Apart left right → Apart right left := fun h => h.symm
  have hapart' : others.Pairwise Apart := (h.pairwise_iff hsymm).mp hapart
  have hfirst := (overlaps_sortSpans hspans).mpr hapart
  have hsecond := (overlaps_sortSpans hothers).mpr hapart'
  have hmem : ∀ span ∈ sortSpans spans, span.start < span.stop := fun span hspan =>
    hspans span ((sortSpans_perm spans).mem_iff.mp hspan)
  have hmem' : ∀ span ∈ sortSpans others, span.start < span.stop := fun span hspan =>
    hothers span ((sortSpans_perm others).mem_iff.mp hspan)
  refine List.Perm.eq_of_pairwise ?_ ((overlaps_eq_false hmem).mp hfirst)
    ((overlaps_eq_false hmem').mp hsecond)
    ((sortSpans_perm spans).trans (h.trans (sortSpans_perm others).symm))
  intro left right hleft hright hle hle'
  have hlt := hmem left hleft
  have hlt' := hmem' right hright
  omega

/-! ## The file -/

/-- An operation that the arguments may hold. -/
structure Valid (operation : EditOperation) : Prop where
  oldText : validTextArgument operation.oldText MAX_TEXT_BYTES = true
  newText : validTextArgument operation.newText MAX_TEXT_BYTES = true
  nonempty : operation.oldText ≠ []
  changes : operation.oldText ≠ operation.newText

theorem checkOperations_iff (number : Nat) (operations : List EditOperation) :
    checkOperations number operations = .ok () ↔ ∀ operation ∈ operations, Valid operation := by
  induction operations generalizing number with
  | nil => exact ⟨fun _ _ hmem => (by cases hmem), fun _ => rfl⟩
  | cons operation operations ih =>
    unfold checkOperations
    rw [List.forall_mem_cons, ← ih (number + 1)]
    split
    · next htexts =>
      refine ⟨fun h => (by cases h), fun h => ?_⟩
      rw [h.1.oldText, h.1.newText] at htexts
      cases htexts
    · next htexts =>
      rw [Bool.or_eq_true, not_or, Bool.not_eq_true', Bool.not_eq_true', Bool.not_eq_false,
        Bool.not_eq_false] at htexts
      split
      · next hempty =>
        exact ⟨fun h => (by cases h), fun h =>
          absurd (List.eq_nil_of_length_eq_zero hempty) h.1.nonempty⟩
      · next hempty =>
        split
        · next hsame => exact ⟨fun h => (by cases h), fun h => absurd hsame h.1.changes⟩
        · next hsame =>
          refine ⟨fun h => ⟨⟨htexts.1, htexts.2, fun hnil => hempty (hnil ▸ rfl), hsame⟩, h⟩,
            fun h => h.2⟩

theorem wellFormed_of_valid {text : JsText} {maxBytes : Nat}
    (h : validTextArgument text maxBytes = true) : hasWellFormedUnicode text = true := by
  unfold validTextArgument at h
  rw [Bool.and_eq_true, Bool.and_eq_true] at h
  exact h.1.1

/-- The text of a file has the bytes of the file, a byte order mark included. -/
theorem decodeText_spec {bytes : List UInt8} {text : JsText} (h : decodeText bytes = .ok text) :
    hasWellFormedUnicode text = true ∧ encodeUtf8 text = bytes := by
  unfold decodeText at h
  split at h
  · cases h
  · split at h
    · cases h
    · next points hpoints =>
      dsimp only at h
      split at h
      · cases h
      · obtain rfl := Except.ok.inj h
        obtain ⟨hscalar, hbytes⟩ := encode_of_decodePoints hpoints
        exact ⟨(codePoints_units hscalar).2, (encodeUtf8_units hscalar).trans hbytes⟩

/-- Gaps and texts in turn, and then the tail. -/
def joinPieces : List (List UInt8) → List JsText → List UInt8 → List UInt8
  | gap :: gaps, text :: texts, tail => gap ++ (encodeUtf8 text ++ joinPieces gaps texts tail)
  | _, _, tail => tail

/-- A span that covers its operation's old text. -/
structure Covers (text : JsText) (span : Span) : Prop where
  stop : span.stop = span.start + span.operation.oldText.length
  occurs : OccursAt text span.operation.oldText span.start
  valid : Valid span.operation

theorem Covers.start_lt {text : JsText} {span : Span} (h : Covers text span) :
    span.start < span.stop := by
  have hpos := List.length_pos_iff.mpr h.valid.nonempty
  rw [h.stop]
  omega

/-- The bytes outside the spans stay. -/
theorem replaced_bytes {text : JsText} {spans : List Span} (hcovers : ∀ span ∈ spans, Covers text span)
    (hsorted : spans.Pairwise fun left right => left.stop ≤ right.start) {cursor : Nat}
    (hcursor : ∀ span ∈ spans, cursor ≤ span.start)
    (hunicode : hasWellFormedUnicode (text.drop cursor) = true) :
    ∃ gaps tail, gaps.length = spans.length ∧
      encodeUtf8 (text.drop cursor) = joinPieces gaps (spans.map (·.operation.oldText)) tail ∧
      encodeUtf8 (replaceFrom text cursor spans) =
        joinPieces gaps (spans.map (·.operation.newText)) tail := by
  induction spans generalizing cursor with
  | nil => exact ⟨[], encodeUtf8 (text.drop cursor), rfl, rfl, rfl⟩
  | cons span spans ih =>
    have hspan := hcovers span List.mem_cons_self
    have hstart := hcursor span List.mem_cons_self
    obtain ⟨back, hback⟩ := hspan.occurs
    have hbehind : text.drop span.stop = back := by
      rw [hspan.stop, ← List.drop_drop, ← hback, List.drop_left]
    have hsplit : text.drop cursor = (text.drop cursor).take (span.start - cursor) ++
        (span.operation.oldText ++ text.drop span.stop) := by
      rw [hbehind, hback]
      conv_lhs => rw [← List.take_append_drop (span.start - cursor) (text.drop cursor)]
      rw [List.drop_drop, Nat.add_sub_cancel' hstart]
    have hold := wellFormed_of_valid hspan.valid.oldText
    have hnew := wellFormed_of_valid hspan.valid.newText
    obtain ⟨hgap, hrest⟩ := wellFormed_split hspan.valid.nonempty hold (hsplit ▸ hunicode)
    obtain ⟨hbefore, hsorted⟩ := List.pairwise_cons.mp hsorted
    obtain ⟨gaps, tail, hlength, holdBytes, hnewBytes⟩ :=
      ih (fun other hother => hcovers other (List.mem_cons_of_mem _ hother)) hsorted hbefore hrest
    refine ⟨encodeUtf8 ((text.drop cursor).take (span.start - cursor)) :: gaps, tail,
      congrArg Nat.succ hlength, ?_, ?_⟩
    · rw [List.map_cons, joinPieces, ← holdBytes, ← encodeUtf8_append hold,
        ← encodeUtf8_append hgap, ← hsplit]
    · rw [List.map_cons, joinPieces, ← hnewBytes, ← encodeUtf8_append hnew,
        ← encodeUtf8_append hgap, replaceFrom, List.append_assoc]

/-! ## The result -/

/-- Each text occurs at exactly one position, and the places do not overlap. -/
structure Applicable (text : JsText) (operations : List EditOperation) : Prop where
  once : ∀ operation ∈ operations, OccursOnce text operation.oldText
  apart : operations.Pairwise fun left right => ∀ i j, OccursAt text left.oldText i →
    OccursAt text right.oldText j → i + left.oldText.length ≤ j ∨ j + right.oldText.length ≤ i

/-- The text in which every place is replaced. -/
def replacement (text : JsText) (operations : List EditOperation) : JsText :=
  replaceFrom text 0 (sortSpans (operations.map (spanOf text)))

section Execute

variable {operations : List EditOperation} {text : JsText}

theorem covers_spanOf (hvalid : ∀ operation ∈ operations, Valid operation)
    (honce : ∀ operation ∈ operations, OccursOnce text operation.oldText) :
    ∀ span ∈ operations.map (spanOf text), Covers text span := by
  intro span hspan
  obtain ⟨operation, hmem, rfl⟩ := List.mem_map.mp hspan
  exact ⟨rfl, (position_spec (hvalid operation hmem).nonempty (honce operation hmem)).2.1,
    hvalid operation hmem⟩

theorem apart_iff (hvalid : ∀ operation ∈ operations, Valid operation)
    (honce : ∀ operation ∈ operations, OccursOnce text operation.oldText) :
    (operations.map (spanOf text)).Pairwise Apart ↔ Applicable text operations := by
  have hplace := fun operation hmem =>
    position_spec (hvalid operation hmem).nonempty (honce operation hmem)
  rw [List.pairwise_map]
  constructor
  · intro h
    refine ⟨honce, List.Pairwise.imp_of_mem (fun {left right} hleft hright hpair i j hi hj => ?_) h⟩
    rw [(hplace left hleft).2.2 i hi, (hplace right hright).2.2 j hj]
    exact hpair
  · intro h
    refine List.Pairwise.imp_of_mem (fun {left right} hleft hright hpair => ?_) h.apart
    exact hpair _ _ (hplace left hleft).2.1 (hplace right hright).2.1

/-- When the tool accepts, and what it writes. -/
theorem execute_iff (hcount : 1 ≤ operations.length ∧ operations.length ≤ 32)
    (hvalid : ∀ operation ∈ operations, Valid operation) {bytes : List UInt8}
    (hfile : decodeText bytes = .ok text) (latest out : List UInt8) :
    execute operations bytes latest = .ok out ↔ Applicable text operations ∧
      (encodeUtf8 (replacement text operations)).length ≤ MAX_EDIT_FILE_BYTES ∧
      latest = bytes ∧ out = encodeUtf8 (replacement text operations) := by
  have hne : ∀ operation ∈ operations, operation.oldText ≠ [] := fun operation hmem =>
    (hvalid operation hmem).nonempty
  have hrun : execute operations bytes latest = (findSpans text 1 operations).bind
      fun spans => writeBack text (sortSpans spans) bytes latest := by
    unfold execute
    rw [if_neg (by omega), (checkOperations_iff 1 operations).mpr hvalid, hfile]
    rfl
  rw [hrun]
  cases hspans : findSpans text 1 operations with
  | error error =>
    refine ⟨fun h => (by cases h), fun h => ?_⟩
    have hfound := (findSpans_eq hne 1 _).mpr ⟨h.1.once, rfl⟩
    rw [hspans] at hfound
    cases hfound
  | ok spans =>
    obtain ⟨honce, rfl⟩ := (findSpans_eq hne 1 spans).mp hspans
    have hlonger : ∀ span ∈ operations.map (spanOf text), span.start < span.stop := fun span hspan =>
      (covers_spanOf hvalid honce span hspan).start_lt
    rw [← apart_iff hvalid honce, ← overlaps_sortSpans hlonger]
    show writeBack text _ bytes latest = .ok out ↔ _
    unfold writeBack replacement
    dsimp only
    split
    · next hoverlap =>
      exact ⟨fun h => (by cases h), fun h => absurd (hoverlap.symm.trans h.1) (by decide)⟩
    · next hoverlap =>
      split
      · next hlarge => exact ⟨fun h => (by cases h), fun h => absurd h.2.1 (Nat.not_le.mpr hlarge)⟩
      · next hlarge =>
        split
        · next hchanged => exact ⟨fun h => (by cases h), fun h => absurd h.2.2.1.symm hchanged⟩
        · next hchanged =>
          rw [Except.ok.injEq]
          exact ⟨fun h => ⟨Bool.not_eq_true _ ▸ hoverlap, Nat.le_of_not_lt hlarge,
            (Decidable.not_not.mp hchanged).symm, h.symm⟩, fun h => h.2.2.2.symm⟩

theorem applicable_of_perm {others : List EditOperation} (h : operations.Perm others) :
    Applicable text operations → Applicable text others := by
  rintro ⟨honce, hapart⟩
  refine ⟨fun operation hmem => honce operation (h.mem_iff.mpr hmem), (h.pairwise_iff ?_).mp hapart⟩
  intro left right hpair i j hi hj
  exact (hpair j i hj hi).symm

theorem replacement_of_perm (hvalid : ∀ operation ∈ operations, Valid operation)
    {others : List EditOperation} (h : operations.Perm others) (happly : Applicable text operations) :
    replacement text operations = replacement text others := by
  unfold replacement
  rw [sortSpans_of_perm (h.map (spanOf text))
    (fun span hspan => (covers_spanOf hvalid happly.once span hspan).start_lt)
    ((apart_iff hvalid happly.once).mpr happly)]

end Execute

/-- `out` is `bytes` with the old text of each operation replaced by its new text, where `ordered` are
the operations in the order of their places. -/
structure Replaced (operations : List EditOperation) (bytes out : List UInt8)
    (ordered : List EditOperation) (gaps : List (List UInt8)) (tail : List UInt8) : Prop where
  perm : ordered.Perm operations
  length : gaps.length = ordered.length
  old : bytes = joinPieces gaps (ordered.map (·.oldText)) tail
  new : out = joinPieces gaps (ordered.map (·.newText)) tail

/-- An edit is a simultaneous replacement of texts that occur once. -/
theorem edit_is_simultaneous (operations : List EditOperation) (bytes : List UInt8) (text : JsText)
    (hcount : 1 ≤ operations.length ∧ operations.length ≤ 32)
    (hoperations : checkOperations 1 operations = .ok ()) (hfile : decodeText bytes = .ok text) :
    ((∃ out, execute operations bytes bytes = .ok out) ↔ Applicable text operations ∧
      (encodeUtf8 (replacement text operations)).length ≤ MAX_EDIT_FILE_BYTES) ∧
    (∀ latest out, execute operations bytes latest = .ok out → latest = bytes ∧
      out = encodeUtf8 (replacement text operations) ∧
      ∃ ordered gaps tail, Replaced operations bytes out ordered gaps tail) ∧
    (∀ others, operations.Perm others → ∀ latest out,
      execute others bytes latest = .ok out ↔ execute operations bytes latest = .ok out) := by
  have hvalid := (checkOperations_iff 1 operations).mp hoperations
  have hrun := execute_iff hcount hvalid hfile
  refine ⟨?_, fun latest out h => ?_, fun others hperm latest out => ?_⟩
  · constructor
    · rintro ⟨out, h⟩
      obtain ⟨happly, hsize, -, -⟩ := (hrun bytes out).mp h
      exact ⟨happly, hsize⟩
    · rintro ⟨happly, hsize⟩
      exact ⟨_, (hrun bytes _).mpr ⟨happly, hsize, rfl, rfl⟩⟩
  · obtain ⟨happly, -, hlatest, hout⟩ := (hrun latest out).mp h
    refine ⟨hlatest, hout, ?_⟩
    obtain ⟨hunicode, hbytes⟩ := decodeText_spec hfile
    have hcovers := covers_spanOf hvalid happly.once
    have hcovers' : ∀ span ∈ sortSpans (operations.map (spanOf text)), Covers text span :=
      fun span hspan => hcovers span ((sortSpans_perm _).mem_iff.mp hspan)
    have hsorted := (overlaps_eq_false fun span hspan => (hcovers' span hspan).start_lt).mp
      ((overlaps_sortSpans fun span hspan => (hcovers span hspan).start_lt).mpr
        ((apart_iff hvalid happly.once).mpr happly))
    obtain ⟨gaps, tail, hlength, hold, hnew⟩ := replaced_bytes hcovers' hsorted
      (fun span _ => Nat.zero_le _) (show hasWellFormedUnicode (text.drop 0) = true from hunicode)
    refine ⟨(sortSpans (operations.map (spanOf text))).map (·.operation), gaps, tail, ?_, ?_, ?_, ?_⟩
    · have hmap := (sortSpans_perm (operations.map (spanOf text))).map (·.operation)
      rw [List.map_map] at hmap
      exact hmap.trans (List.Perm.of_eq (List.map_id _))
    · rw [hlength, List.length_map]
    · rw [List.map_map, ← hbytes]
      exact hold
    · rw [List.map_map, hout]
      exact hnew
  · have hvalid' : ∀ operation ∈ others, Valid operation := fun operation hmem =>
      hvalid operation (hperm.mem_iff.mpr hmem)
    rw [hrun, execute_iff (hperm.length_eq ▸ hcount) hvalid' hfile]
    constructor
    · rintro ⟨happly, hsize, hlatest, hout⟩
      have happly' := applicable_of_perm hperm.symm happly
      rw [← replacement_of_perm hvalid hperm happly'] at hsize hout
      exact ⟨happly', hsize, hlatest, hout⟩
    · rintro ⟨happly, hsize, hlatest, hout⟩
      rw [replacement_of_perm hvalid hperm happly] at hsize hout
      exact ⟨applicable_of_perm hperm happly, hsize, hlatest, hout⟩

def exampleEdits : List EditOperation := [⟨js "b", js "x"⟩, ⟨js "a", js "bb"⟩]

theorem edit_of_example :
    ((∃ out, execute exampleEdits [0x61, 0x62] [0x61, 0x62] = .ok out) ↔
      Applicable (js "ab") exampleEdits ∧
        (encodeUtf8 (replacement (js "ab") exampleEdits)).length ≤ MAX_EDIT_FILE_BYTES) ∧
    (∀ latest out, execute exampleEdits [0x61, 0x62] latest = .ok out → latest = [0x61, 0x62] ∧
      out = encodeUtf8 (replacement (js "ab") exampleEdits) ∧
      ∃ ordered gaps tail, Replaced exampleEdits [0x61, 0x62] out ordered gaps tail) ∧
    (∀ others, exampleEdits.Perm others → ∀ latest out,
      execute others [0x61, 0x62] latest = .ok out ↔
        execute exampleEdits [0x61, 0x62] latest = .ok out) :=
  edit_is_simultaneous exampleEdits [0x61, 0x62] (js "ab") (by decide) (by decide +kernel)
    (by decide +kernel)

end Henji.EditTool
