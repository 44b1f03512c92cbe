import Henji.Core.RedactionLaw

/-!
# The forms of a secret

A secret is removed as it stands, as `encodeURIComponent` writes it and as it stands inside a JSON
string.

Results:
1. `removable_of_form`: each form of a secret that avoids the markers avoids them too.
2. `secretForms_spec`: the forms that are removed, for secrets without an unpaired surrogate.
3. `secretForms_throws`: a secret with an unpaired surrogate has no forms.
-/

namespace Henji.FailureCapture

/-- An escape writes plain characters, none of them a bracket. -/
def isEscape (u : UInt16) : Prop := u.toNat < 0x80 ∧ u ≠ 0x5b ∧ u ≠ 0x5d

instance (u : UInt16) : Decidable (isEscape u) := inferInstanceAs (Decidable (_ ∧ _))

theorem isEscape_upperHexDigit : ∀ n : Fin 16, isEscape (upperHexDigit n) := by decide

theorem isEscape_hexDigit : ∀ n : Fin 16, isEscape (hexDigit n) := by decide

/-! ## URI encoding -/

def uriText (text : JsText) : JsText := (codePoints text).flatMap uriPoint

theorem isUriMark_lt {n : Nat} (h : isUriMark n = true) : n < 0x80 ∧ n ≠ 0x5b ∧ n ≠ 0x5d := by
  simp only [isUriMark, isAsciiLetter, isAsciiDigit, Bool.or_eq_true, Bool.and_eq_true,
    decide_eq_true_iff, List.contains_iff_mem, List.mem_cons, List.not_mem_nil, or_false] at h
  omega

theorem isEscape_uriPoint {n : Nat} {u : UInt16} (h : u ∈ uriPoint n) : isEscape u := by
  unfold uriPoint at h
  split at h
  · next hmark =>
    obtain ⟨hlt, hopening, hclosing⟩ := isUriMark_lt hmark
    unfold pointUnits at h
    rw [if_pos (Nat.lt_trans hlt (by decide)), List.mem_singleton] at h
    have hnat : u.toNat = n := by
      rw [h]
      exact toNat_ofNat16 (Nat.lt_trans hlt (by decide))
    refine ⟨hnat ▸ hlt, ?_, ?_⟩
    · rintro rfl
      exact hopening hnat.symm
    · rintro rfl
      exact hclosing hnat.symm
  · obtain ⟨b, -, hb⟩ := List.mem_flatMap.mp h
    have hlt := b.toNat_lt
    simp only [percentByte, List.mem_cons, List.not_mem_nil, or_false] at hb
    rcases hb with rfl | rfl | rfl
    · decide
    · exact isEscape_upperHexDigit ⟨b.toNat / 0x10, by omega⟩
    · exact isEscape_upperHexDigit ⟨b.toNat % 0x10, by omega⟩

theorem isEscape_uriText {text : JsText} {u : UInt16} (h : u ∈ uriText text) : isEscape u := by
  obtain ⟨n, -, hn⟩ := List.mem_flatMap.mp h
  exact isEscape_uriPoint hn

theorem uriPoint_ne_nil (n : Nat) : uriPoint n ≠ [] := by
  unfold uriPoint
  split
  · unfold pointUnits
    split <;> exact List.cons_ne_nil _ _
  · have hpos := length_encodePoint_pos n
    cases hbytes : encodePoint n with
    | nil => rw [hbytes] at hpos; cases hpos
    | cons b bytes => exact List.cons_ne_nil _ _

theorem uriText_ne_nil {text : JsText} (h : text ≠ []) : uriText text ≠ [] := by
  unfold uriText
  cases hpoints : codePoints text with
  | nil => exact absurd hpoints (codePoints_ne_nil h)
  | cons n points =>
    rw [List.flatMap_cons]
    exact List.append_ne_nil_of_left_ne_nil (uriPoint_ne_nil n) _

/-- Without a percent sign the encoding is the text. -/
theorem uriText_eq_self {text : JsText} (htext : hasWellFormedUnicode text = true)
    (h : 0x25 ∉ uriText text) : uriText text = text := by
  refine Eq.trans ?_ (units_codePoints htext)
  refine List.flatMap_congr fun n hn => ?_
  unfold uriPoint
  split
  · rfl
  · next hmark =>
    refine absurd (List.mem_flatMap.mpr ⟨n, hn, ?_⟩) h
    unfold uriPoint
    rw [if_neg hmark]
    obtain ⟨b, bytes, hbytes, -⟩ := isContinuation_first n
    rw [hbytes]
    exact List.mem_cons_self

/-! ## JSON escapes -/

theorem jsonForm_eq (secret : JsText) : jsonForm secret = quoteUnits secret := by
  unfold jsonForm quote
  rw [List.cons_append, List.drop_succ_cons, List.drop_zero, List.dropLast_concat]

theorem mem_unicodeEscape {u w : UInt16} (h : w ∈ unicodeEscape u) : isEscape w := by
  have hlt := u.toNat_lt
  simp only [unicodeEscape, List.mem_append, List.mem_cons, List.not_mem_nil, or_false] at h
  rcases h with hslash | rfl | rfl | rfl | rfl
  · rcases List.mem_pair.mp hslash with rfl | rfl <;> decide
  · exact isEscape_hexDigit ⟨u.toNat / 0x1000, by omega⟩
  · exact isEscape_hexDigit ⟨u.toNat / 0x100 % 0x10, by omega⟩
  · exact isEscape_hexDigit ⟨u.toNat / 0x10 % 0x10, by omega⟩
  · exact isEscape_hexDigit ⟨u.toNat % 0x10, by omega⟩

/-- A unit stands for itself, or a backslash starts its escape. -/
theorem quoteUnit_cases (u : UInt16) : (quoteUnit u = [u] ∧ ¬ u.toNat < 0x20) ∨
    (∃ rest, quoteUnit u = 0x5c :: rest) ∧ ∀ w ∈ quoteUnit u, isEscape w := by
  have hshort : ∀ v : UInt16, isEscape v → ∀ w ∈ [0x5c, v], isEscape w := by
    intro v hv w hw
    rcases List.mem_pair.mp hw with rfl | rfl
    · decide
    · exact hv
  unfold quoteUnit
  split
  · exact .inr ⟨⟨_, rfl⟩, hshort 0x22 (by decide)⟩
  split
  · exact .inr ⟨⟨_, rfl⟩, hshort 0x5c (by decide)⟩
  split
  · exact .inr ⟨⟨_, rfl⟩, hshort 0x62 (by decide)⟩
  split
  · exact .inr ⟨⟨_, rfl⟩, hshort 0x74 (by decide)⟩
  split
  · exact .inr ⟨⟨_, rfl⟩, hshort 0x6e (by decide)⟩
  split
  · exact .inr ⟨⟨_, rfl⟩, hshort 0x66 (by decide)⟩
  split
  · exact .inr ⟨⟨_, rfl⟩, hshort 0x72 (by decide)⟩
  split
  · exact .inr ⟨⟨_, rfl⟩, fun w hw => mem_unicodeEscape hw⟩
  · next h =>
    exact .inl ⟨rfl, fun hlt => h (.inl (UInt16.lt_iff_toNat_lt.mpr hlt))⟩

theorem mem_quoteUnits {text : JsText} {w : UInt16} (h : w ∈ quoteUnits text) :
    w ∈ text ∨ isEscape w := by
  have hunit : ∀ {u : UInt16}, w ∈ quoteUnit u → w = u ∨ isEscape w := by
    intro u hw
    rcases quoteUnit_cases u with ⟨heq, -⟩ | ⟨-, hescape⟩
    · exact .inl (List.mem_singleton.mp (heq ▸ hw))
    · exact .inr (hescape w hw)
  induction text using quoteUnits.induct with
  | case1 => cases h
  | case2 u =>
    rcases hunit h with rfl | hescape
    · exact .inl List.mem_cons_self
    · exact .inr hescape
  | case3 u v rest hpair ih =>
    rw [quoteUnits, if_pos hpair] at h
    simp only [List.mem_cons] at h ⊢
    rcases h with rfl | rfl | hrest
    · exact .inl (.inl rfl)
    · exact .inl (.inr (.inl rfl))
    · exact (ih hrest).imp (fun hmem => .inr (.inr hmem)) id
  | case4 u v rest hpair ih =>
    rw [quoteUnits, if_neg hpair, List.mem_append] at h
    rcases h with hfirst | hrest
    · rcases hunit hfirst with rfl | hescape
      · exact .inl List.mem_cons_self
      · exact .inr hescape
    · exact (ih hrest).imp (List.mem_cons_of_mem _) id

theorem quoteUnits_ne_nil {text : JsText} (h : text ≠ []) : quoteUnits text ≠ [] := by
  have hunit : ∀ u, quoteUnit u ≠ [] := by
    intro u
    rcases quoteUnit_cases u with ⟨heq, -⟩ | ⟨⟨rest, heq⟩, -⟩ <;>
    · rw [heq]
      exact List.cons_ne_nil _ _
  cases text with
  | nil => exact absurd rfl h
  | cons u text =>
    cases text with
    | nil => exact hunit u
    | cons v rest =>
      unfold quoteUnits
      split
      · exact List.cons_ne_nil _ _
      · exact List.append_ne_nil_of_left_ne_nil (hunit u) _

/-- Without a backslash the escaped text is the text. -/
theorem quoteUnits_eq_self {text : JsText} (h : 0x5c ∉ quoteUnits text) :
    quoteUnits text = text := by
  have hunit : ∀ {u : UInt16}, 0x5c ∉ quoteUnit u → quoteUnit u = [u] := by
    intro u hu
    rcases quoteUnit_cases u with ⟨heq, -⟩ | ⟨⟨rest, heq⟩, -⟩
    · exact heq
    · exact absurd (heq ▸ List.mem_cons_self) hu
  induction text using quoteUnits.induct with
  | case1 => rfl
  | case2 u => exact hunit h
  | case3 u v rest hpair ih =>
    rw [quoteUnits, if_pos hpair] at h ⊢
    rw [ih fun hmem => h (List.mem_cons_of_mem _ (List.mem_cons_of_mem _ hmem))]
  | case4 u v rest hpair ih =>
    rw [quoteUnits, if_neg hpair] at h ⊢
    rw [List.mem_append, not_or] at h
    rw [hunit h.1, ih h.2]
    rfl

theorem quoteUnits_paired {text : JsText} {before : UInt16}
    (hbefore : isHighSurrogate before = false) (h : Paired before text) :
    Paired before (quoteUnits text) := by
  have hunit : ∀ {u : UInt16}, isPlain u → ∀ w ∈ quoteUnit u, isPlain w := by
    intro u hu w hw
    rcases quoteUnit_cases u with ⟨heq, -⟩ | ⟨-, hescape⟩
    · exact List.mem_singleton.mp (heq ▸ hw) ▸ hu
    · exact isPlain_of_lt (Nat.lt_trans (hescape w hw).1 (by decide))
  induction text using quoteUnits.induct generalizing before with
  | case1 => exact h
  | case2 u =>
    have hplain : Paired before (quoteUnit u ++ []) :=
      paired_plain (hunit ⟨h.2, h.1.symm.trans hbefore⟩)
        (fun last hlast => show Paired last [] from hlast) hbefore
    rwa [List.append_nil] at hplain
  | case3 u v rest hpair ih =>
    rw [quoteUnits, if_pos hpair]
    rw [Bool.and_eq_true] at hpair
    exact ⟨h.1, h.2.1, ih (high_of_low hpair.2) h.2.2⟩
  | case4 u v rest hpair ih =>
    rw [quoteUnits, if_neg hpair]
    have hu : isHighSurrogate u = false := by
      rw [← h.2.1, Bool.and_self, Bool.not_eq_true] at hpair
      exact hpair
    refine paired_plain (hunit ⟨hu, h.1.symm.trans hbefore⟩) (fun last hlast => ?_) hbefore
    exact ih hlast ((paired_congr (hu.trans hlast.symm)).mp h.2)

/-! ## The forms of one secret -/

/-- A secret that avoids the redaction markers. -/
structure AvoidsMarkers (secret : JsText) : Prop where
  opening : 0x5b ∉ secret
  closing : 0x5d ∉ secret
  apart : secret ≠ [] → ¬ secret <:+: js "redacted authorization"

/-- The three texts that are removed for a secret. -/
def forms (secret : JsText) : List JsText := [secret, uriText secret, jsonForm secret]

theorem removable_of_form {secret : JsText} (hne : secret ≠ []) (hsecret : AvoidsMarkers secret)
    (hunicode : hasWellFormedUnicode secret = true) :
    ∀ form ∈ forms secret, Removable form := by
  have hapart := hsecret.apart hne
  simp only [forms, List.forall_mem_cons, List.not_mem_nil, false_implies, implies_true, and_true]
  refine ⟨⟨hne, hsecret.opening, hsecret.closing, hapart⟩, ?_, ?_⟩
  · refine ⟨uriText_ne_nil hne, fun hmem => (isEscape_uriText hmem).2.1 rfl,
      fun hmem => (isEscape_uriText hmem).2.2 rfl, fun hoccurs => ?_⟩
    have hpercent : 0x25 ∉ uriText secret := fun hmem =>
      absurd (hoccurs.subset hmem) (by decide)
    exact hapart (uriText_eq_self hunicode hpercent ▸ hoccurs)
  · rw [jsonForm_eq]
    refine ⟨quoteUnits_ne_nil hne, fun hmem => ?_, fun hmem => ?_, fun hoccurs => ?_⟩
    · exact (mem_quoteUnits hmem).elim hsecret.opening fun h => h.2.1 rfl
    · exact (mem_quoteUnits hmem).elim hsecret.closing fun h => h.2.2 rfl
    · have hslash : 0x5c ∉ quoteUnits secret := fun hmem =>
        absurd (hoccurs.subset hmem) (by decide)
      exact hapart (quoteUnits_eq_self hslash ▸ hoccurs)

theorem wellFormed_of_form {secret : JsText} (hunicode : hasWellFormedUnicode secret = true) :
    ∀ form ∈ forms secret, hasWellFormedUnicode form = true := by
  simp only [forms, List.forall_mem_cons, List.not_mem_nil, false_implies, implies_true, and_true]
  refine ⟨hunicode, ?_, ?_⟩
  · have hpaired : Paired 0 (uriText secret ++ []) :=
      paired_plain (fun u hu => isPlain_of_lt (Nat.lt_trans (isEscape_uriText hu).1 (by decide)))
        (fun last hlast => show Paired last [] from hlast) (by decide)
    rw [List.append_nil] at hpaired
    exact wellFormed_of_paired hpaired (by decide)
  · rw [jsonForm_eq]
    have hpaired : Paired 0 secret := paired_of_wellFormed hunicode (by decide)
    exact wellFormed_of_paired (quoteUnits_paired (by decide) hpaired) (by decide)

/-- A form holds U+FFFD only where the secret does. -/
theorem mark_not_in_form {secret : JsText} (h : 0xfffd ∉ secret) :
    ∀ form ∈ forms secret, 0xfffd ∉ form := by
  simp only [forms, List.forall_mem_cons, List.not_mem_nil, false_implies, implies_true, and_true]
  refine ⟨h, fun hmem => absurd (isEscape_uriText hmem).1 (by decide), fun hmem => ?_⟩
  rw [jsonForm_eq] at hmem
  exact (mem_quoteUnits hmem).elim h fun hescape => absurd hescape.1 (by decide)

/-! ## The forms of all secrets -/

theorem mapM_eq_some {α β : Type} {f : α → Option β} {g : α → β} {items : List α}
    (h : ∀ item ∈ items, f item = some (g item)) : items.mapM f = some (items.map g) := by
  induction items with
  | nil => rfl
  | cons item items ih =>
    rw [List.mapM_cons, h item List.mem_cons_self,
      ih fun other hother => h other (List.mem_cons_of_mem _ hother)]
    rfl

theorem mapM_eq_none {α β : Type} {f : α → Option β} {items : List α}
    (h : ∃ item ∈ items, f item = none) : items.mapM f = none := by
  induction items with
  | nil =>
    obtain ⟨_, hmem, -⟩ := h
    cases hmem
  | cons item items ih =>
    rw [List.mapM_cons]
    obtain ⟨bad, hbad, hnone⟩ := h
    rcases List.mem_cons.mp hbad with rfl | hrest
    · rw [hnone]
      rfl
    · rw [ih ⟨bad, hrest, hnone⟩]
      cases f item <;> rfl

/-- The forms that are removed, for secrets without an unpaired surrogate. -/
theorem secretForms_spec {secrets : List JsText}
    (h : ∀ secret ∈ secrets, hasWellFormedUnicode secret = true) : secretForms secrets =
      some ((secrets.filter fun secret => 0 < secret.length).flatMap forms) := by
  have hforms : ∀ secret ∈ secrets.filter fun secret => 0 < secret.length,
      formsOf secret = some (forms secret) := by
    intro secret hsecret
    unfold formsOf encodeURIComponent
    rw [if_pos (h secret (List.mem_filter.mp hsecret).1)]
    rfl
  unfold secretForms
  rw [mapM_eq_some hforms]
  rfl

/-- A secret with an unpaired surrogate has no forms. -/
theorem secretForms_throws {secrets : List JsText} {secret : JsText} (hmem : secret ∈ secrets)
    (h : hasWellFormedUnicode secret = false) : secretForms secrets = none := by
  unfold secretForms
  rw [mapM_eq_none ⟨secret, List.mem_filter.mpr ⟨hmem, ?_⟩, ?_⟩]
  · rfl
  · cases secret with
    | nil => cases h
    | cons u secret => exact decide_eq_true (Nat.succ_pos _)
  · unfold formsOf encodeURIComponent
    rw [if_neg (by rw [h]; exact Bool.false_ne_true)]
    rfl

end Henji.FailureCapture
