import Henji.Core.FailureDetails
import Henji.Library.Surrogates

/-!
# What redaction and truncation leave

Results:
1. `cutText_spec`: a cut text is a front of whole characters within the limit.
2. `redact_clean`: no form of a secret occurs in a redacted text.
3. `redact_wellFormed`: redaction splits no surrogate pair.
4. `redact_eq_self`: a text without secrets and authorization patterns stays as it is.
-/

namespace Henji.FailureCapture

/-! ## Truncation -/

theorem prefixEnd_boundary (bytes : List UInt8) (limit : Nat) {b : UInt8}
    (hb : bytes[prefixEnd bytes limit]? = some b) (hend : prefixEnd bytes limit ≠ 0) :
    isContinuation b = false := by
  induction limit with
  | zero => exact absurd rfl hend
  | succ n ih =>
    unfold prefixEnd at hb hend
    split at hb
    · next c hc =>
      split at hb
      · next hcontinues =>
        simp only [hc, hcontinues, if_true] at hend
        exact ih hb hend
      · next hstarts =>
        rw [hc] at hb
        cases hb
        exact Bool.not_eq_true _ ▸ hstarts
    · next hnone =>
      rw [hnone] at hb
      cases hb

theorem prefixEnd_le (bytes : List UInt8) (limit : Nat) : prefixEnd bytes limit ≤ limit := by
  induction limit with
  | zero => exact Nat.le_refl 0
  | succ n ih =>
    unfold prefixEnd
    split
    · split
      · exact Nat.le_succ_of_le ih
      · exact Nat.le_refl _
    · exact Nat.le_refl _

/-- A cut text is a front of whole characters within the limit, less a leading mark. -/
theorem cutText_spec (text : JsText) (limit : Nat) : ∃ front back,
    codePoints text = front ++ back ∧ (front.flatMap encodePoint).length ≤ limit ∧
      cutText text limit = (dropMark front).flatMap pointUnits := by
  have hpoints := isScalar_codePoints text
  have hboundary : ∀ b, (encodeUtf8 text)[prefixEnd (encodeUtf8 text) limit]? = some b →
      isContinuation b = false := by
    intro b hb
    by_cases hend : prefixEnd (encodeUtf8 text) limit = 0
    · rw [hend] at hb
      exact isContinuation_encode hpoints (List.head?_eq_getElem? ▸ hb)
    · exact prefixEnd_boundary _ _ hb hend
  obtain ⟨front, back, hsplit, htake⟩ := cut_encode hpoints hboundary
  refine ⟨front, back, hsplit, ?_, ?_⟩
  · rw [← htake, List.length_take]
    exact Nat.le_trans (Nat.min_le_left _ _) (prefixEnd_le _ _)
  · have hfront : ∀ n ∈ front, isScalar n := fun n hn =>
      hpoints n (hsplit ▸ List.mem_append_left back hn)
    unfold cutText
    rw [show (encodeUtf8 text).take _ = front.flatMap encodePoint from htake,
      decodeUtf8_encode hfront]
    rfl

theorem mem_dropMark {n : Nat} {points : List Nat} (h : n ∈ dropMark points) : n ∈ points :=
  (dropMark_suffix points).mem h

theorem length_cutText (text : JsText) (limit : Nat) :
    (encodeUtf8 (cutText text limit)).length ≤ limit := by
  obtain ⟨front, back, hsplit, hlength, hcut⟩ := cutText_spec text limit
  have hfront : ∀ n ∈ dropMark front, isScalar n := fun n hn =>
    isScalar_codePoints text n (hsplit ▸ List.mem_append_left back (mem_dropMark hn))
  rw [hcut, encodeUtf8_units hfront]
  exact Nat.le_trans (length_encode_dropMark_le front) hlength

theorem cutText_wellFormed (text : JsText) (limit : Nat) :
    hasWellFormedUnicode (cutText text limit) = true := by
  obtain ⟨front, back, hsplit, -, hcut⟩ := cutText_spec text limit
  rw [hcut]
  exact (codePoints_units fun n hn =>
    isScalar_codePoints text n (hsplit ▸ List.mem_append_left back (mem_dropMark hn))).2

/-- A cut text is a piece of the text as a decoder sees it. -/
theorem cutText_occurs (text : JsText) (limit : Nat) : cutText text limit <:+: decoded text := by
  obtain ⟨front, back, hsplit, -, hcut⟩ := cutText_spec text limit
  obtain ⟨mark, hmark⟩ := dropMark_suffix front
  refine ⟨mark.flatMap pointUnits, back.flatMap pointUnits, ?_⟩
  unfold decoded
  rw [hcut, ← List.flatMap_append, hmark, ← List.flatMap_append, hsplit]

/-! ## Removing the forms of secrets -/

/-- What keeps a form apart from the markers. -/
structure Removable (form : JsText) : Prop where
  nonempty : form ≠ []
  opening : 0x5b ∉ form
  closing : 0x5d ∉ form
  apart : ¬ form <:+: js "redacted authorization"

theorem Removable.apart_redacted {form : JsText} (h : Removable form) :
    ¬ form <:+: js "redacted" := fun hoccurs =>
  h.apart (hoccurs.trans ⟨[], js " authorization", by decide⟩)

theorem redactedMarker_eq : redactedMarker = 0x5b :: (js "redacted" ++ [0x5d]) := by decide

theorem authorizationMarker_eq :
    authorizationMarker = 0x5b :: (js "redacted authorization" ++ [0x5d]) := by decide

theorem removeForms_clean {forms : List JsText} {form text : JsText} (hform : Removable form)
    (hforms : ∀ other ∈ forms, Removable other) (h : form ∈ forms ∨ ¬ form <:+: text) :
    ¬ form <:+: removeForms forms text := by
  induction forms generalizing text with
  | nil =>
    rcases h with hmem | hclean
    · cases hmem
    · exact hclean
  | cons other forms ih =>
    refine ih (fun other hother => hforms other (List.mem_cons_of_mem _ hother)) ?_
    rw [redactedMarker_eq]
    rcases h with hmem | hclean
    · rcases List.mem_cons.mp hmem with rfl | hmem
      · exact .inr (needle_not_in_replace hform.nonempty hform.opening hform.closing
          hform.apart_redacted none text)
      · exact .inl hmem
    · exact .inr fun hoccurs =>
        hclean (infix_of_replace hform.opening hform.closing hform.apart_redacted hoccurs)

/-- No form of a secret occurs in a redacted text. -/
theorem redact_clean {forms : List JsText} {form : JsText} (hforms : ∀ form ∈ forms, Removable form)
    (hmem : form ∈ forms) (text : JsText) : ¬ form <:+: redact forms text := by
  have hform := hforms form hmem
  unfold redact
  rw [authorizationMarker_eq]
  intro hoccurs
  have hfirst := infix_of_replace hform.opening hform.closing hform.apart hoccurs
  have hforms' := infix_of_replace hform.opening hform.closing hform.apart hfirst
  exact removeForms_clean hform hforms (.inl hmem) hforms'

/-! ## Texts that stay -/

/-- A text in which nothing is to be removed. -/
structure Harmless (forms : List JsText) (text : JsText) : Prop where
  secrets : ∀ form ∈ forms, ¬ form <:+: text
  headers : NoMatch (findPattern afterHeader) none text
  schemes : NoMatch (findPattern afterScheme) none text

theorem removeForms_eq_self {forms : List JsText} {text : JsText}
    (hne : ∀ form ∈ forms, form ≠ []) (h : ∀ form ∈ forms, ¬ form <:+: text) :
    removeForms forms text = text := by
  induction forms with
  | nil => rfl
  | cons form forms ih =>
    have hstep : replaceMatches (findNeedle form) redactedMarker 0 none text = text :=
      replace_eq_self (noMatch_of_absent (hne form List.mem_cons_self)
        (h form List.mem_cons_self))
    unfold removeForms
    rw [List.foldl_cons, hstep]
    exact ih (fun form hform => hne form (List.mem_cons_of_mem _ hform))
      (fun form hform => h form (List.mem_cons_of_mem _ hform))

/-- A text without secrets and authorization patterns stays as it is. -/
theorem redact_eq_self {forms : List JsText} {text : JsText} (hne : ∀ form ∈ forms, form ≠ [])
    (h : Harmless forms text) : redact forms text = text := by
  unfold redact
  rw [removeForms_eq_self hne h.secrets, replace_eq_self h.headers, replace_eq_self h.schemes]

/-! ## Redaction and surrogate pairs -/

/-- No match of the finder starts or ends inside a surrogate pair. -/
def KeepsPairs (find : Finder UInt16) : Prop :=
  ∀ previous text before n, Paired before text → find previous text = n + 1 →
    StartsWhole text ∧ StartsWhole (text.drop (n + 1))

def isPlain (u : UInt16) : Prop := isHighSurrogate u = false ∧ isLowSurrogate u = false

instance (u : UInt16) : Decidable (isPlain u) := inferInstanceAs (Decidable (_ ∧ _))

theorem paired_plain {plain out : JsText} (hplain : ∀ u ∈ plain, isPlain u)
    (hout : ∀ last, isHighSurrogate last = false → Paired last out) {before : UInt16}
    (hbefore : isHighSurrogate before = false) : Paired before (plain ++ out) := by
  induction plain generalizing before with
  | nil => exact hout before hbefore
  | cons u plain ih =>
    have hu := hplain u List.mem_cons_self
    exact ⟨hbefore.trans hu.2.symm,
      ih (fun v hv => hplain v (List.mem_cons_of_mem _ hv)) hu.1⟩

theorem replace_paired {find : Finder UInt16} {marker text : JsText} (hfind : KeepsPairs find)
    (hmarker : ∀ u ∈ marker, isPlain u) {before : UInt16} (h : Paired before text) :
    Paired before (replaceMatches find marker 0 none text) := by
  refine replace_induction find marker
    (P := fun _ text out => ∀ before, Paired before text → Paired before out)
    (fun _ _ h => h) (fun _ u _ _ _ ih _ h => ⟨h.1, ih u h.2⟩) ?_ none text before h
  intro previous last u text out n hmatch ih before h
  obtain ⟨hstart, hrest⟩ := hfind previous (u :: text) before n h hmatch
  rw [List.drop_succ_cons] at hrest
  obtain ⟨l, hl⟩ := Paired.of_suffix ((List.drop_suffix n text).trans (List.suffix_cons u text)) h
  exact paired_plain hmarker (fun m hm => ih m (hl.behind hrest hm)) (h.1.trans hstart)

theorem findNeedle_keepsPairs {needle : JsText} (hne : needle ≠ [])
    (h : hasWellFormedUnicode needle = true) : KeepsPairs (findNeedle needle) := by
  intro previous text before n hpaired hfind
  have hneedle : Paired 0 needle := paired_of_wellFormed h (by decide)
  unfold findNeedle at hfind
  split at hfind
  · next hfront =>
    obtain ⟨rest, rfl⟩ := List.isPrefixOf_iff_prefix.mp hfront
    rw [← hfind, List.drop_left]
    refine ⟨?_, startsWhole_behind hne hneedle hpaired⟩
    cases needle with
    | nil => exact absurd rfl hne
    | cons u needle => exact hneedle.1.symm
  · cases hfind

/-- A matcher leaves a suffix that starts whole. -/
def LeavesWhole (after : JsText → Option JsText) : Prop :=
  ∀ text rest, after text = some rest → rest <:+ text ∧
    ∀ before, Paired before text → StartsWhole rest

theorem findPattern_keepsPairs {after : JsText → Option JsText} (h : LeavesWhole after)
    (hstart : ∀ text rest, after text = some rest → StartsWhole text) :
    KeepsPairs (findPattern after) := by
  intro previous text before n hpaired hfind
  unfold findPattern at hfind
  split at hfind
  · cases hfind
  · next u tail =>
    split at hfind
    · split at hfind
      · next rest hrest =>
        obtain ⟨hsuffix, hwhole⟩ := h _ _ hrest
        refine ⟨hstart _ _ hrest, ?_⟩
        rw [← hfind, ← List.suffix_iff_eq_drop.mp hsuffix]
        exact hwhole before hpaired
      · cases hfind
    · cases hfind

/-! ## The authorization patterns -/

theorem isPlain_of_lt {u : UInt16} (h : u.toNat < 0xd800) : isPlain u := by
  unfold isPlain
  rw [Bool.eq_false_iff, Bool.eq_false_iff, Ne, Ne, isHighSurrogate_iff, isLowSurrogate_iff]
  omega

theorem isPlain_of_fold {u : UInt16} (h : (foldUnit u).toNat < 0x80) : isPlain u := by
  unfold foldUnit at h
  split at h
  · next hletter =>
    have hle := UInt16.le_iff_toNat_le.mp hletter.2
    exact isPlain_of_lt (Nat.lt_of_le_of_lt hle (by decide))
  · split at h
    · next heq => exact heq ▸ by decide
    · split at h
      · next heq => exact heq ▸ by decide
      · exact isPlain_of_lt (Nat.lt_trans h (by decide))

theorem afterLiteral_suffix {word text rest : JsText} (h : afterLiteral word text = some rest) :
    rest <:+ text := by
  induction word generalizing text with
  | nil =>
    cases h
    exact List.suffix_rfl
  | cons w word ih =>
    cases text with
    | nil => cases h
    | cons u text =>
      obtain ⟨-, hrest⟩ := Option.ite_none_right_eq_some.mp h
      exact (ih hrest).trans (List.suffix_cons u text)

theorem startsWhole_literal {w : UInt16} {word text rest : JsText} (hw : w.toNat < 0x80)
    (h : afterLiteral (w :: word) text = some rest) : StartsWhole text := by
  cases text with
  | nil => trivial
  | cons u text =>
    obtain ⟨hfold, -⟩ := Option.ite_none_right_eq_some.mp h
    exact (isPlain_of_fold (hfold ▸ hw)).2

theorem LeavesWhole.of_suffix {next : JsText → Option JsText} (h : LeavesWhole next)
    {text tail rest : JsText} (htail : tail <:+ text) (hrest : next tail = some rest) :
    rest <:+ text ∧ ∀ before, Paired before text → StartsWhole rest := by
  obtain ⟨hsuffix, hwhole⟩ := h tail rest hrest
  refine ⟨hsuffix.trans htail, fun before hpaired => ?_⟩
  obtain ⟨last, hlast⟩ := hpaired.of_suffix htail
  exact hwhole last hlast

theorem afterSpaces_leavesWhole {next : JsText → Option JsText} (h : LeavesWhole next) :
    LeavesWhole (afterSpaces next) := by
  intro text rest hrest
  induction text with
  | nil => exact h [] rest hrest
  | cons u text ih =>
    unfold afterSpaces at hrest
    split at hrest
    · cases hspaces : afterSpaces next text with
      | some tail =>
        rw [hspaces] at hrest
        obtain ⟨hsuffix, hwhole⟩ := ih (hspaces.trans hrest)
        exact ⟨hsuffix.trans (List.suffix_cons u text), fun before hpaired => hwhole u hpaired.2⟩
      | none =>
        rw [hspaces] at hrest
        exact h _ _ hrest
    · exact h _ _ hrest

theorem startsWhole_dropWhile {inClass : UInt16 → Bool}
    (hclass : (∀ u, inClass u = false → isPlain u) ∨ ∀ u, inClass u = true → isPlain u)
    {last : UInt16} {text : JsText} (hlast : inClass last = true) (h : Paired last text) :
    StartsWhole (text.dropWhile inClass) := by
  induction text generalizing last with
  | nil => trivial
  | cons u text ih =>
    rw [List.dropWhile_cons]
    split
    · next hu => exact ih hu h.2
    · next hu =>
      rcases hclass with houtside | hinside
      · exact (houtside u (Bool.not_eq_true _ ▸ hu)).2
      · exact h.1.symm.trans (hinside last hlast).1

theorem afterRun_leavesWhole {inClass : UInt16 → Bool}
    (hclass : (∀ u, inClass u = false → isPlain u) ∨ ∀ u, inClass u = true → isPlain u) :
    LeavesWhole (afterRun inClass) := by
  intro text rest h
  cases text with
  | nil => cases h
  | cons u text =>
    obtain ⟨hu, hrest⟩ := Option.ite_none_right_eq_some.mp h
    cases hrest
    exact ⟨(List.dropWhile_suffix _).trans (List.suffix_cons u text),
      fun before hpaired => startsWhole_dropWhile hclass hu hpaired.2⟩

theorem isPlain_of_not_headerValue (u : UInt16) (h : isHeaderValue u = false) : isPlain u := by
  simp only [isHeaderValue, decide_eq_false_iff_not, not_and_or, ne_eq, not_not] at h
  rcases h with rfl | rfl | rfl | rfl <;> decide

theorem isPlain_of_credential (u : UInt16) (h : isCredential u = true) : isPlain u := by
  simp only [isCredential, Bool.or_eq_true, List.contains_iff_mem] at h
  rcases h with (hletter | hdigit) | hmark
  · refine isPlain_of_fold ?_
    simp only [isAsciiLetter, Bool.or_eq_true, Bool.and_eq_true, decide_eq_true_iff] at hletter
    omega
  · refine isPlain_of_lt ?_
    simp only [isAsciiDigit, Bool.and_eq_true, decide_eq_true_iff] at hdigit
    omega
  · simp only [List.mem_cons, List.not_mem_nil, or_false] at hmark
    rcases hmark with rfl | rfl | rfl | rfl | rfl | rfl | rfl <;> decide

theorem afterHeaderValue_leavesWhole : LeavesWhole afterHeaderValue := by
  intro text rest h
  obtain ⟨tail, hseparator, hrest⟩ := Option.bind_eq_some_iff.mp h
  refine (afterSpaces_leavesWhole (afterRun_leavesWhole
    (.inl isPlain_of_not_headerValue))).of_suffix ?_ hrest
  cases text with
  | nil => cases hseparator
  | cons u text =>
    obtain ⟨-, htail⟩ := Option.ite_none_right_eq_some.mp hseparator
    exact Option.some.inj htail ▸ List.suffix_cons u text

theorem afterSchemeValue_leavesWhole : LeavesWhole afterSchemeValue := by
  intro text rest h
  cases text with
  | nil => cases h
  | cons u text =>
    obtain ⟨-, hrest⟩ := Option.ite_none_right_eq_some.mp h
    exact (afterSpaces_leavesWhole (afterRun_leavesWhole
      (.inr isPlain_of_credential))).of_suffix (List.suffix_cons u text) hrest

/-- One of some names, and then a value. -/
theorem named_spec (names : List String) {value : JsText → Option JsText}
    (hvalue : LeavesWhole value)
    (hnames : ∀ name ∈ names, ∃ w word, js name = w :: word ∧ w.toNat < 0x80)
    (text rest : JsText) (h : (names.findSome? fun name =>
      (afterLiteral (js name) text).bind value) = some rest) :
    StartsWhole text ∧ rest <:+ text ∧ ∀ before, Paired before text → StartsWhole rest := by
  obtain ⟨name, hname, hafter⟩ := List.exists_of_findSome?_eq_some h
  obtain ⟨tail, hliteral, hrest⟩ := Option.bind_eq_some_iff.mp hafter
  obtain ⟨w, word, hword, hw⟩ := hnames name hname
  exact ⟨startsWhole_literal hw (hword ▸ hliteral),
    hvalue.of_suffix (afterLiteral_suffix hliteral) hrest⟩

theorem afterHeader_keepsPairs : KeepsPairs (findPattern afterHeader) := by
  have hspec := named_spec ["authorization", "proxy-authorization", "x-api-key", "api-key"]
    (afterSpaces_leavesWhole afterHeaderValue_leavesWhole) (by
      simp only [List.forall_mem_cons, List.not_mem_nil, false_implies, implies_true, and_true]
      exact ⟨⟨_, _, rfl, by decide⟩, ⟨_, _, rfl, by decide⟩, ⟨_, _, rfl, by decide⟩,
        ⟨_, _, rfl, by decide⟩⟩)
  exact findPattern_keepsPairs (fun _ _ h => (hspec _ _ h).2) (fun _ _ h => (hspec _ _ h).1)

theorem afterScheme_keepsPairs : KeepsPairs (findPattern afterScheme) := by
  have hspec := named_spec ["bearer", "basic"] afterSchemeValue_leavesWhole (by
    simp only [List.forall_mem_cons, List.not_mem_nil, false_implies, implies_true, and_true]
    exact ⟨⟨_, _, rfl, by decide⟩, ⟨_, _, rfl, by decide⟩⟩)
  exact findPattern_keepsPairs (fun _ _ h => (hspec _ _ h).2) (fun _ _ h => (hspec _ _ h).1)

theorem plain_of_all {marker : JsText} (h : (marker.all fun u => decide (isPlain u)) = true) :
    ∀ u ∈ marker, isPlain u := fun u hu =>
  of_decide_eq_true (List.all_eq_true.mp h u hu)

theorem redactedMarker_plain : ∀ u ∈ redactedMarker, isPlain u :=
  plain_of_all (by decide)

theorem authorizationMarker_plain : ∀ u ∈ authorizationMarker, isPlain u :=
  plain_of_all (by decide)

/-- Redaction splits no surrogate pair. -/
theorem redact_wellFormed {forms : List JsText}
    (hforms : ∀ form ∈ forms, form ≠ [] ∧ hasWellFormedUnicode form = true) {text : JsText}
    (h : hasWellFormedUnicode text = true) : hasWellFormedUnicode (redact forms text) = true := by
  have hforms' : ∀ {text : JsText}, Paired 0 text → Paired 0 (removeForms forms text) := by
    intro text htext
    unfold removeForms
    induction forms generalizing text with
    | nil => exact htext
    | cons form forms ih =>
      have hform := hforms form List.mem_cons_self
      exact ih (fun other hother => hforms other (List.mem_cons_of_mem _ hother))
        (replace_paired (findNeedle_keepsPairs hform.1 hform.2) redactedMarker_plain htext)
  have hpaired : Paired 0 (redact forms text) :=
    replace_paired afterScheme_keepsPairs authorizationMarker_plain
      (replace_paired afterHeader_keepsPairs authorizationMarker_plain
        (hforms' (paired_of_wellFormed h (by decide))))
  exact wellFormed_of_paired hpaired (by decide)

end Henji.FailureCapture
