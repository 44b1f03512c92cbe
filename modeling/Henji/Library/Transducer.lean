/-!
# Transducers

A transducer reads a list item by item and gives items of another kind; it may refuse an item. What
it gives for a list is what it gives for the parts of the list in order, so a reader that feeds it
chunk by chunk does not depend on where the list is cut, as long as nothing is refused.

Results:
1. `feed_append`: feeding two lists one after the other.
2. `exists_front`: a refused list has a front that is fed whole, and what is refused comes next.
-/

namespace Henji

/-- The step of a transducer: the state and the items after one item, `none` where it is refused. -/
abbrev Transducer (σ α β : Type) : Type := σ → α → Option (σ × List β)

namespace Transducer

variable {σ α β : Type} (step : Transducer σ α β)

def feed (s : σ) : List α → Option (σ × List β)
  | [] => some (s, [])
  | a :: rest => match step s a with
    | none => none
    | some (s, items) => (feed s rest).map fun fed => (fed.1, items ++ fed.2)

/-- What the items before the first refused one give. -/
def front (s : σ) : List α → List β
  | [] => []
  | a :: rest => match step s a with
    | none => []
    | some (s, items) => items ++ front s rest

theorem feed_append (s : σ) (first second : List α) :
    feed step s (first ++ second) = (feed step s first).bind fun fed =>
      (feed step fed.1 second).map fun fed' => (fed'.1, fed.2 ++ fed'.2) := by
  induction first generalizing s with
  | nil =>
    rw [List.nil_append, feed, Option.bind_some]
    cases feed step s second <;> rfl
  | cons a first ih =>
    rw [List.cons_append, feed, feed]
    cases step s a with
    | none => rfl
    | some next =>
      simp only [ih]
      cases feed step next.1 first with
      | none => rfl
      | some fed =>
        simp only [Option.bind_some, Option.map_some]
        cases feed step fed.1 second with
        | none => rfl
        | some fed' => simp only [Option.map_some, List.append_assoc]

theorem front_append {s t : σ} {first : List α} {items : List β}
    (h : feed step s first = some (t, items)) (second : List α) :
    front step s (first ++ second) = items ++ front step t second := by
  induction first generalizing s items with
  | nil =>
    cases h
    rfl
  | cons a first ih =>
    rw [feed] at h
    rw [List.cons_append, front]
    cases hstep : step s a with
    | none =>
      rw [hstep] at h
      cases h
    | some next =>
      rw [hstep] at h
      obtain ⟨fed, hfed, heq⟩ := Option.map_eq_some_iff.mp h
      cases heq
      simp only [ih hfed, List.append_assoc]

/-- A refused list is cut before the refused item. -/
theorem exists_front {s : σ} {items : List α} (h : feed step s items = none) :
    ∃ first rest t, items = first ++ rest ∧ feed step s first = some (t, front step s items) ∧
      feed step t rest = none := by
  induction items generalizing s with
  | nil => cases h
  | cons a items ih =>
    cases hstep : step s a with
    | none =>
      refine ⟨[], a :: items, s, rfl, ?_, h⟩
      rw [front, hstep]
      rfl
    | some next =>
      rw [feed, hstep] at h
      obtain ⟨first, rest, t, rfl, hfirst, hrest⟩ := ih (Option.map_eq_none_iff.mp h)
      refine ⟨a :: first, rest, t, rfl, ?_, hrest⟩
      rw [feed, front, hstep]
      simp only [hfirst, Option.map_some]

end Transducer

end Henji
