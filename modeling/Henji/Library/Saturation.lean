import Mathlib.Data.List.Basic

/-!
# Saturation of a finite list

What the seeds reach within a list along a relation, computed in rounds. A round that finds nothing new
is the last that can, so as many rounds as the list is long are enough.
-/

namespace Henji

namespace Saturation

variable {α : Type} [DecidableEq α]

/-- What the seeds reach along `r` within `xs`. -/
inductive Reached (r : α → α → Bool) (xs : List α) (seed : α → Bool) : α → Prop
  | seed {x : α} : x ∈ xs → seed x = true → Reached r xs seed x
  | step {x y : α} : Reached r xs seed x → y ∈ xs → r x y = true → Reached r xs seed y

/-- One round. -/
def grow (r : α → α → Bool) (xs found : List α) : List α :=
  xs.filter fun y => found.contains y || found.any fun x => r x y

def rounds (r : α → α → Bool) (xs : List α) : Nat → List α → List α
  | 0, found => found
  | count + 1, found => rounds r xs count (grow r xs found)

def saturate (r : α → α → Bool) (xs : List α) (seed : α → Bool) : List α :=
  rounds r xs xs.length (xs.filter seed)

variable {r : α → α → Bool} {xs : List α} {seed : α → Bool}

omit [DecidableEq α] in
theorem Reached.mem {x : α} (h : Reached r xs seed x) : x ∈ xs := by
  cases h with
  | seed hmem _ => exact hmem
  | step _ hmem _ => exact hmem

theorem mem_grow {found : List α} {y : α} :
    y ∈ grow r xs found ↔ y ∈ xs ∧ (y ∈ found ∨ ∃ x ∈ found, r x y = true) := by
  simp [grow]

/-- What is found stays found. -/
theorem subset_rounds {count : Nat} {found : List α} (hfound : ∀ x ∈ found, x ∈ xs) {x : α}
    (hx : x ∈ found) : x ∈ rounds r xs count found := by
  induction count generalizing found with
  | zero => exact hx
  | succ count ih =>
    refine ih ?_ (mem_grow.mpr ⟨hfound x hx, .inl hx⟩)
    intro y hy
    exact (mem_grow.mp hy).1

/-- The rounds find only what is reached. -/
theorem reached_of_mem_rounds {count : Nat} {found : List α}
    (hfound : ∀ x ∈ found, Reached r xs seed x) {y : α} (hy : y ∈ rounds r xs count found) :
    Reached r xs seed y := by
  induction count generalizing found with
  | zero => exact hfound y hy
  | succ count ih =>
    refine ih ?_ hy
    intro z hz
    obtain ⟨hmem, hold | ⟨x, hx, hstep⟩⟩ := mem_grow.mp hz
    · exact hfound z hold
    · exact .step (hfound x hx) hmem hstep

theorem rounds_fixed {found : List α} (hfixed : grow r xs found = found) (count : Nat) :
    rounds r xs count found = found := by
  induction count with
  | zero => rfl
  | succ count ih => rw [rounds, hfixed, ih]

/-- A round changes nothing, or it finds more. -/
theorem grow_fixed_or_longer (r : α → α → Bool) (xs : List α) (p : α → Bool) :
    grow r xs (xs.filter p) = xs.filter p ∨
      (xs.filter p).length < (grow r xs (xs.filter p)).length := by
  have hkept : (grow r xs (xs.filter p)).filter p = xs.filter p := by
    rw [grow, List.filter_filter]
    refine List.filter_congr ?_
    intro y hy
    cases hp : p y with
    | false => rfl
    | true => simp [hy, hp]
  have hsub : (xs.filter p).Sublist (grow r xs (xs.filter p)) := by
    have hfilter : ((grow r xs (xs.filter p)).filter p).Sublist (grow r xs (xs.filter p)) :=
      List.filter_sublist
    rwa [hkept] at hfilter
  rcases Nat.lt_or_ge (xs.filter p).length (grow r xs (xs.filter p)).length with hlonger | hsame
  · exact .inr hlonger
  · exact .inl (hsub.eq_of_length_le hsame).symm

/-- With as many rounds as there are elements left the last round finds nothing. -/
theorem rounds_stable {count : Nat} {p : α → Bool} (hcount : xs.length ≤ (xs.filter p).length + count) :
    grow r xs (rounds r xs count (xs.filter p)) = rounds r xs count (xs.filter p) := by
  induction count generalizing p with
  | zero =>
    rcases grow_fixed_or_longer r xs p with hfixed | hlonger
    · exact hfixed
    · have hbound : (grow r xs (xs.filter p)).length ≤ xs.length := List.length_filter_le _ _
      omega
  | succ count ih =>
    rcases grow_fixed_or_longer r xs p with hfixed | hlonger
    · rw [rounds_fixed hfixed, hfixed]
    · rw [rounds, grow]
      refine ih ?_
      rw [grow] at hlonger
      omega

/-- The saturation of the seeds is what they reach. -/
theorem mem_saturate {y : α} : y ∈ saturate r xs seed ↔ Reached r xs seed y := by
  have hseeds : ∀ x ∈ xs.filter seed, x ∈ xs ∧ seed x = true := fun x hx => List.mem_filter.mp hx
  constructor
  · intro hy
    exact reached_of_mem_rounds (fun x hx => .seed (hseeds x hx).1 (hseeds x hx).2) hy
  · intro hreached
    induction hreached with
    | seed hmem hseed =>
      exact subset_rounds (fun x hx => (hseeds x hx).1) (List.mem_filter.mpr ⟨hmem, hseed⟩)
    | step _ hmem hstep ih =>
      have hstable : grow r xs (saturate r xs seed) = saturate r xs seed :=
        rounds_stable (Nat.le_add_left _ _)
      rw [← hstable]
      exact mem_grow.mpr ⟨hmem, .inr ⟨_, ih, hstep⟩⟩

end Saturation

end Henji
