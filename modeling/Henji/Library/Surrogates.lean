import Henji.Library.Utf8Windows

/-!
# Pairs of surrogates

Whether every surrogate of a text belongs to a pair is a condition on neighbours, so a text may be
cut and joined wherever no pair is split. A decoder that meets an unpaired surrogate puts U+FFFD in
its place and moves nothing else.

Result: `infix_of_decoded`: a word without U+FFFD in the decoded text occurs in the text.
-/

namespace Henji

/-- Every surrogate of the text belongs to a pair, where `before` precedes the text. -/
def Paired : UInt16 → JsText → Prop
  | before, [] => isHighSurrogate before = false
  | before, u :: text => isHighSurrogate before = isLowSurrogate u ∧ Paired u text

/-- The text does not start inside a pair. -/
def StartsWhole : JsText → Prop
  | [] => True
  | u :: _ => isLowSurrogate u = false

theorem high_of_low {u : UInt16} (h : isLowSurrogate u = true) : isHighSurrogate u = false := by
  have hlow := (isLowSurrogate_iff u).mp h
  rw [Bool.eq_false_iff, Ne, isHighSurrogate_iff]
  omega

theorem paired_congr {a b : UInt16} (h : isHighSurrogate a = isHighSurrogate b) {text : JsText} :
    Paired a text ↔ Paired b text := by
  cases text with
  | nil => unfold Paired; rw [h]
  | cons u text => unfold Paired; rw [h]

theorem paired_of_wellFormed {text : JsText} (h : hasWellFormedUnicode text = true)
    {before : UInt16} (hbefore : isHighSurrogate before = false) : Paired before text := by
  induction text using hasWellFormedUnicode.induct generalizing before with
  | case1 => exact hbefore
  | case2 u =>
    simp only [hasWellFormedUnicode, Bool.not_eq_true', Bool.or_eq_false_iff] at h
    exact ⟨hbefore.trans h.2.symm, h.1⟩
  | case3 u v rest hu ih =>
    rw [hasWellFormedUnicode, if_pos hu, Bool.and_eq_true] at h
    have hu' : isLowSurrogate u = false := by
      cases hlow : isLowSurrogate u with
      | false => rfl
      | true => exact absurd (high_of_low hlow) (by rw [hu]; decide)
    exact ⟨hbefore.trans hu'.symm, hu.trans h.1.symm, ih h.2 (high_of_low h.1)⟩
  | case4 u v rest hu ih =>
    rw [hasWellFormedUnicode, if_neg hu, Bool.and_eq_true, Bool.not_eq_true'] at h
    exact ⟨hbefore.trans h.1.symm, ih h.2 (Bool.not_eq_true _ ▸ hu)⟩

theorem wellFormed_of_paired {text : JsText} {before : UInt16} (h : Paired before text)
    (hbefore : isHighSurrogate before = false) : hasWellFormedUnicode text = true := by
  induction text using hasWellFormedUnicode.induct generalizing before with
  | case1 => rfl
  | case2 u =>
    obtain ⟨hlow, hhigh⟩ := h
    simp only [hasWellFormedUnicode, Bool.not_eq_true', Bool.or_eq_false_iff]
    exact ⟨hhigh, hlow.symm.trans hbefore⟩
  | case3 u v rest hu ih =>
    obtain ⟨-, hlow, hrest⟩ := h
    have hv : isLowSurrogate v = true := hlow.symm.trans hu
    rw [hasWellFormedUnicode, if_pos hu, Bool.and_eq_true]
    exact ⟨hv, ih hrest (high_of_low hv)⟩
  | case4 u v rest hu ih =>
    obtain ⟨hlow, hrest⟩ := h
    rw [hasWellFormedUnicode, if_neg hu, Bool.and_eq_true, Bool.not_eq_true']
    exact ⟨hlow.symm.trans hbefore, ih hrest (Bool.not_eq_true _ ▸ hu)⟩

theorem Paired.of_suffix {text rest : JsText} (h : rest <:+ text) {before : UInt16}
    (hpaired : Paired before text) : ∃ last, Paired last rest := by
  induction text generalizing before with
  | nil => exact ⟨before, List.suffix_nil.mp h ▸ hpaired⟩
  | cons u text ih =>
    rcases List.suffix_cons_iff.mp h with rfl | hrest
    · exact ⟨before, hpaired⟩
    · exact ih hrest hpaired.2

/-- A text that starts whole may stand behind anything that ends whole. -/
theorem Paired.behind {text : JsText} {a b : UInt16} (h : Paired a text) (hwhole : StartsWhole text)
    (hb : isHighSurrogate b = false) : Paired b text := by
  cases text with
  | nil => exact hb
  | cons u text => exact ⟨hb.trans hwhole.symm, h.2⟩

/-- What follows a word that ends whole starts whole. -/
theorem startsWhole_behind {word rest : JsText} (hne : word ≠ []) {a b : UInt16}
    (hword : Paired a word) (h : Paired b (word ++ rest)) : StartsWhole rest := by
  induction word generalizing a b with
  | nil => exact absurd rfl hne
  | cons u word ih =>
    cases word with
    | nil =>
      cases rest with
      | nil => trivial
      | cons v rest => exact h.2.1.symm.trans hword.2
    | cons v word => exact ih (List.cons_ne_nil v word) hword.2 h.2

theorem Paired.front {front back : JsText} {a : UInt16} (h : Paired a (front ++ back))
    (hwhole : StartsWhole back) : Paired a front := by
  induction front generalizing a with
  | nil =>
    cases back with
    | nil => exact h
    | cons u back => exact h.1.trans hwhole
  | cons u front ih => exact ⟨h.1, ih h.2⟩

/-- A well-formed word splits a well-formed text into well-formed parts. -/
theorem wellFormed_split {front word back : JsText} (hne : word ≠ [])
    (hword : hasWellFormedUnicode word = true)
    (h : hasWellFormedUnicode (front ++ (word ++ back)) = true) :
    hasWellFormedUnicode front = true ∧ hasWellFormedUnicode back = true := by
  have hzero : isHighSurrogate 0 = false := by decide
  have hwhole : Paired 0 (front ++ (word ++ back)) := paired_of_wellFormed h hzero
  have hword' : Paired 0 word := paired_of_wellFormed hword hzero
  have hstarts : StartsWhole (word ++ back) := by
    cases word with
    | nil => exact absurd rfl hne
    | cons u word => exact hword'.1.symm
  obtain ⟨last, hlast⟩ := hwhole.of_suffix (List.suffix_append front (word ++ back))
  have hback := startsWhole_behind hne hword' hlast
  obtain ⟨before, hbefore⟩ := hlast.of_suffix (List.suffix_append word back)
  exact ⟨wellFormed_of_paired (hwhole.front hstarts) hzero,
    wellFormed_of_paired (hbefore.behind hback hzero) hzero⟩

/-! ## What a decoder makes of a text -/

/-- The text with U+FFFD for each unpaired surrogate. -/
def decoded (text : JsText) : JsText := (codePoints text).flatMap pointUnits

theorem decoded_replaces (text : JsText) :
    List.Forall₂ (fun b a => b = a ∨ b = 0xfffd) (decoded text) text := by
  have hmark : pointUnits 0xfffd = [0xfffd] := by decide
  unfold decoded
  induction text using codePoints.induct with
  | case1 => exact .nil
  | case2 u h =>
    rw [codePoints, if_pos h, List.flatMap_singleton, hmark]
    exact .cons (.inr rfl) .nil
  | case3 u h =>
    rw [codePoints, if_neg h, List.flatMap_singleton, pointUnits_unit]
    exact .cons (.inl rfl) .nil
  | case4 u v rest h ih =>
    rw [codePoints, if_pos h, List.flatMap_cons]
    rw [Bool.and_eq_true] at h
    rw [pointUnits_pairPoint h.1 h.2]
    exact .cons (.inl rfl) (.cons (.inl rfl) ih)
  | case5 u v rest h h' ih =>
    rw [codePoints, if_neg h, if_pos h', List.flatMap_cons, hmark]
    exact .cons (.inr rfl) ih
  | case6 u v rest h h' ih =>
    rw [codePoints, if_neg h, if_neg h', List.flatMap_cons, pointUnits_unit]
    exact .cons (.inl rfl) ih

/-- A word without U+FFFD in the decoded text occurs in the text. -/
theorem infix_of_decoded {word text : JsText} (hword : 0xfffd ∉ word)
    (h : word <:+: decoded text) : word <:+: text := by
  have hreplaces := decoded_replaces text
  have hfront : ∀ {word out text : JsText}, 0xfffd ∉ word →
      List.Forall₂ (fun b a => b = a ∨ b = 0xfffd) out text → word <+: out → word <+: text := by
    intro word out text hword hout
    induction hout generalizing word with
    | nil => exact id
    | cons hunit _ ih =>
      intro h
      cases word with
      | nil => exact List.nil_prefix
      | cons w word =>
        obtain ⟨rfl, hrest⟩ := List.cons_prefix_cons.mp h
        simp only [List.mem_cons, not_or] at hword
        rcases hunit with rfl | rfl
        · exact List.cons_prefix_cons.mpr ⟨rfl, ih hword.2 hrest⟩
        · exact absurd rfl hword.1
  revert h
  generalize decoded text = out at hreplaces
  induction hreplaces with
  | nil => exact id
  | cons hunit hrest ih =>
    intro h
    rcases List.infix_cons_iff.mp h with hprefix | hoccurs
    · exact (hfront hword (.cons hunit hrest) hprefix).isInfix
    · exact List.infix_cons (ih hoccurs)

theorem decoded_of_wellFormed {text : JsText} (h : hasWellFormedUnicode text = true) :
    decoded text = text :=
  units_codePoints h

end Henji
