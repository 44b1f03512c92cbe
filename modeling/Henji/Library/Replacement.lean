import Mathlib.Data.List.Basic

/-!
# Replacing the matches of a pattern

A finder tells how long the match is at the front of a text; `replaceMatches` scans the text once
from the left and puts a marker in the place of each match.

Results:
1. `infix_of_replace`: a word that avoids the marker occurs after the replacement only where it
   occurred before.
2. `needle_not_in_replace`: the word looked for does not occur afterwards.
3. `replace_eq_self`: a text without a match stays as it is.
-/

namespace Henji

variable {α : Type}

/-- The length of the match at the front of a text, given the element before it; `0` for none. -/
abbrev Finder (α : Type) := Option α → List α → Nat

/-- `text.replaceAll(pattern, marker)`; the number counts the elements of a match still to skip. -/
def replaceMatches (find : Finder α) (marker : List α) : Nat → Option α → List α → List α
  | _, _, [] => []
  | n + 1, _, u :: text => replaceMatches find marker n (some u) text
  | 0, previous, u :: text =>
    match find previous (u :: text) with
    | 0 => u :: replaceMatches find marker 0 (some u) text
    | n + 1 => marker ++ replaceMatches find marker n (some u) text

/-- No match starts anywhere in the text. -/
def NoMatch (find : Finder α) : Option α → List α → Prop
  | _, [] => True
  | previous, u :: text => find previous (u :: text) = 0 ∧ NoMatch find (some u) text

/-- The element before what is left after `n` elements. -/
def lastAfter (previous : Option α) (text : List α) : Nat → Option α
  | 0 => previous
  | n + 1 => match text with
    | [] => previous
    | u :: text => lastAfter (some u) text n

section Scan

variable {find : Finder α} {marker : List α}

theorem replace_skip (n : Nat) (previous : Option α) (text : List α) :
    replaceMatches find marker n previous text =
      replaceMatches find marker 0 (lastAfter previous text n) (text.drop n) := by
  induction n generalizing previous text with
  | zero => rw [lastAfter, List.drop_zero]
  | succ n ih =>
    cases text with
    | nil => rfl
    | cons u text => exact ih (some u) text

variable (find marker) in
/-- What a scan does: it ends, keeps an element, or puts the marker for a match. -/
theorem replace_induction {P : Option α → List α → List α → Prop}
    (hend : ∀ previous, P previous [] [])
    (hkeep : ∀ previous u text out, find previous (u :: text) = 0 → P (some u) text out →
      P previous (u :: text) (u :: out))
    (hswap : ∀ previous last u text out n, find previous (u :: text) = n + 1 →
      P last (text.drop n) out → P previous (u :: text) (marker ++ out))
    (previous : Option α) (text : List α) :
    P previous text (replaceMatches find marker 0 previous text) := by
  induction hlength : text.length using Nat.strongRecOn generalizing previous text with
  | ind length ih =>
    cases text with
    | nil => exact hend previous
    | cons u text =>
      have hshort : ∀ n last, P last (text.drop n) (replaceMatches find marker 0 last (text.drop n)) :=
        fun n last => ih _ (by rw [List.length_drop, ← hlength, List.length_cons]; omega) _ _ rfl
      unfold replaceMatches
      split
      · next hfind => exact hkeep _ _ _ _ hfind (hshort 0 (some u))
      · next n hfind =>
        rw [replace_skip]
        exact hswap _ _ _ _ _ n hfind (hshort n _)

theorem replace_eq_self {previous : Option α} {text : List α} (h : NoMatch find previous text) :
    replaceMatches find marker 0 previous text = text := by
  induction text generalizing previous with
  | nil => rfl
  | cons u text ih =>
    unfold replaceMatches
    rw [h.1]
    exact congrArg _ (ih h.2)

end Scan

/-! ## Words that avoid the marker -/

/-- A word without `c` that occurs across `c` occurs on one side of it. -/
theorem infix_of_avoids {word front back : List α} {c : α} (hc : c ∉ word)
    (h : word <:+: front ++ c :: back) : word <:+: front ∨ word <:+: back := by
  induction front with
  | nil =>
    rcases List.infix_cons_iff.mp h with hprefix | hoccurs
    · cases word with
      | nil => exact .inl List.nil_infix
      | cons w word =>
        obtain ⟨rfl, -⟩ := List.cons_prefix_cons.mp hprefix
        exact absurd List.mem_cons_self hc
    · exact .inr hoccurs
  | cons u front ih =>
    rcases List.infix_cons_iff.mp h with hprefix | hoccurs
    · refine .inl (List.IsPrefix.isInfix ?_)
      replace hprefix : word <+: (u :: front) ++ c :: back := hprefix
      rcases Nat.lt_or_ge (u :: front).length word.length with hlt | hle
      · have hmem : c ∈ word := by
          rw [List.prefix_iff_eq_take.mp hprefix, List.take_append, List.mem_append]
          refine .inr ?_
          obtain ⟨k, hk⟩ := Nat.exists_eq_add_of_lt hlt
          rw [hk, show (u :: front).length + k + 1 - (u :: front).length = k + 1 from by omega]
          exact List.mem_cons_self
        exact absurd hmem hc
      · exact List.prefix_of_prefix_length_le hprefix (List.prefix_append (u :: front) (c :: back))
          hle
    · rcases ih hoccurs with hfront | hback
      · exact .inl (List.infix_cons hfront)
      · exact .inr hback

section Marker

variable {find : Finder α} {opening closing : α} {inner word : List α}

/-- Words without `opening` at the front of `out` stand at the front of `text`. -/
def FrontsKept (opening : α) (text out : List α) : Prop :=
  ∀ word, opening ∉ word → word <+: out → word <+: text

theorem FrontsKept.cons {u : α} {text out : List α} (h : FrontsKept opening text out) :
    FrontsKept opening (u :: text) (u :: out) := by
  intro word hopening hword
  cases word with
  | nil => exact List.nil_prefix
  | cons w word =>
    obtain ⟨rfl, hrest⟩ := List.cons_prefix_cons.mp hword
    exact List.cons_prefix_cons.mpr
      ⟨rfl, h word (fun hmem => hopening (List.mem_cons_of_mem _ hmem)) hrest⟩

theorem FrontsKept.marker (text out : List α) : FrontsKept opening text (opening :: out) := by
  intro word hopening hword
  cases word with
  | nil => exact List.nil_prefix
  | cons w word =>
    obtain ⟨rfl, -⟩ := List.cons_prefix_cons.mp hword
    exact absurd List.mem_cons_self hopening

/-- Behind a marker that the word avoids, the word occurs in the rest. -/
theorem infix_behind_marker (hopening : opening ∉ word) (hclosing : closing ∉ word)
    (hinner : ¬ word <:+: inner) {out : List α}
    (h : word <:+: opening :: (inner ++ [closing]) ++ out) : word <:+: out := by
  rw [List.cons_append, List.append_assoc] at h
  rcases infix_of_avoids hopening (show word <:+: [] ++ opening :: _ from h) with hnil | hrest
  · exact absurd (List.infix_nil.mp hnil ▸ List.nil_infix) hinner
  · exact (infix_of_avoids hclosing hrest).resolve_left hinner

/-- A word that avoids the marker occurs afterwards only where it occurred before. -/
theorem infix_of_replace (hopening : opening ∉ word) (hclosing : closing ∉ word)
    (hinner : ¬ word <:+: inner) {previous : Option α} {text : List α}
    (h : word <:+: replaceMatches find (opening :: (inner ++ [closing])) 0 previous text) :
    word <:+: text := by
  have hscan := replace_induction find (opening :: (inner ++ [closing]))
    (P := fun _ text out => FrontsKept opening text out ∧ (word <:+: out → word <:+: text))
    (fun _ => ⟨fun _ _ h => h, id⟩)
    (fun _ u text out _ ih => by
      refine ⟨ih.1.cons, fun h => ?_⟩
      rcases List.infix_cons_iff.mp h with hfront | hrest
      · exact (ih.1.cons word hopening hfront).isInfix
      · exact List.infix_cons (ih.2 hrest))
    (fun _ _ u text out n _ ih => by
      refine ⟨FrontsKept.marker _ _, fun h => ?_⟩
      have hrest := ih.2 (infix_behind_marker hopening hclosing hinner h)
      exact List.infix_cons (hrest.trans (List.drop_suffix n text).isInfix))
    previous text
  exact hscan.2 h

end Marker

/-! ## Looking for a word -/

section Needle

variable [DecidableEq α] {opening closing : α} {inner needle : List α}

/-- The finder of `text.replaceAll(needle, …)`. -/
def findNeedle (needle : List α) : Finder α := fun _ text =>
  if needle.isPrefixOf text then needle.length else 0

theorem findNeedle_eq_zero (hne : needle ≠ []) {previous : Option α} {text : List α} :
    findNeedle needle previous text = 0 ↔ ¬ needle <+: text := by
  unfold findNeedle
  rw [← List.isPrefixOf_iff_prefix]
  split
  · next h => simp [h, hne]
  · next h => simp [h]

/-- The word looked for does not occur afterwards. -/
theorem needle_not_in_replace (hne : needle ≠ []) (hopening : opening ∉ needle)
    (hclosing : closing ∉ needle) (hinner : ¬ needle <:+: inner) (previous : Option α)
    (text : List α) : ¬ needle <:+:
      replaceMatches (findNeedle needle) (opening :: (inner ++ [closing])) 0 previous text := by
  have hscan := replace_induction (findNeedle needle) (opening :: (inner ++ [closing]))
    (P := fun _ text out => FrontsKept opening text out ∧ ¬ needle <:+: out)
    (fun _ => ⟨fun _ _ h => h, fun h => hne (List.infix_nil.mp h)⟩)
    (fun _ u text out hfind ih => by
      refine ⟨ih.1.cons, fun h => ?_⟩
      rcases List.infix_cons_iff.mp h with hfront | hrest
      · exact (findNeedle_eq_zero hne).mp hfind (ih.1.cons needle hopening hfront)
      · exact ih.2 hrest)
    (fun _ _ u text out n _ ih =>
      ⟨FrontsKept.marker _ _, fun h => ih.2 (infix_behind_marker hopening hclosing hinner h)⟩)
    previous text
  exact hscan.2

theorem noMatch_of_absent (hne : needle ≠ []) {previous : Option α} {text : List α}
    (h : ¬ needle <:+: text) : NoMatch (findNeedle needle) previous text := by
  induction text generalizing previous with
  | nil => trivial
  | cons u text ih =>
    refine ⟨(findNeedle_eq_zero hne).mpr fun hfront => h hfront.isInfix, ih fun hrest => ?_⟩
    exact h (List.infix_cons hrest)

end Needle

end Henji
