import Mathlib.Data.List.Sort
import Mathlib.Data.List.InsertIdx

/-!
# Binary search and strictly sorted lists

`lowerBound below l` is the usual half-interval search for the first element of `l` that is not
`below`. Nothing is assumed of `below` in its definition; the results hold when the elements that
are `below` form an initial segment of the list.

Results:
1. `lowerBound_split`: the search splits the list into the elements below and the others.
2. `pairwise_insertIdx_lowerBound`: inserting at the found place keeps a list strictly sorted.
3. `eq_of_sorted_of_mem_iff`: a strictly sorted list is determined by its members.
-/

namespace Henji

variable {α : Type}

/-! ## The search -/

/-- One half-interval search between `low` and `high`. -/
def lowerBoundBetween (below : α → Bool) (l : List α) (low high : Nat) : Nat :=
  if low < high then
    let mid := (low + high) / 2
    match l[mid]? with
    | some a =>
      if below a then lowerBoundBetween below l (mid + 1) high
      else lowerBoundBetween below l low mid
    | none => lowerBoundBetween below l (mid + 1) high
  else low
termination_by high - low
decreasing_by all_goals omega

/-- The place of the first element that is not `below`. -/
def lowerBound (below : α → Bool) (l : List α) : Nat := lowerBoundBetween below l 0 l.length

/-- What the search keeps: everything before `low` is below, nothing from `high` on is. -/
def Between (below : α → Bool) (l : List α) (low high : Nat) : Prop :=
  (∀ i a, i < low → l[i]? = some a → below a = true) ∧
  (∀ i a, high ≤ i → l[i]? = some a → below a = false)

theorem lowerBoundBetween_spec {below : α → Bool} {l : List α}
    (hl : l.Pairwise fun a b => below b = true → below a = true) (low high : Nat)
    (hle : low ≤ high) (hlen : high ≤ l.length) (h : Between below l low high) :
    lowerBoundBetween below l low high ≤ l.length ∧
      Between below l (lowerBoundBetween below l low high)
        (lowerBoundBetween below l low high) := by
  fun_induction lowerBoundBetween below l low high with
  | case1 low high hlt mid a hget hbelow ih =>
    refine ih (by omega) hlen ⟨fun i b hi hb => ?_, h.2⟩
    rcases Nat.lt_or_ge i mid with him | him
    · have hmid : mid < l.length := by omega
      have hile : i < l.length := by omega
      rw [List.getElem?_eq_getElem hile, Option.some.injEq] at hb
      rw [List.getElem?_eq_getElem hmid, Option.some.injEq] at hget
      subst hb hget
      exact List.pairwise_iff_getElem.mp hl i mid hile hmid him hbelow
    · obtain rfl : i = mid := by omega
      rw [hb] at hget
      cases hget
      exact hbelow
  | case2 low high hlt mid a hget hbelow ih =>
    refine ih (by omega) (by omega) ⟨h.1, fun i b hi hb => ?_⟩
    rcases Nat.lt_or_ge mid i with him | him
    · have hmid : mid < l.length := by omega
      have hile : i < l.length := by
        by_contra hge
        rw [List.getElem?_eq_none (by omega)] at hb
        cases hb
      rw [List.getElem?_eq_getElem hile, Option.some.injEq] at hb
      rw [List.getElem?_eq_getElem hmid, Option.some.injEq] at hget
      subst hb hget
      cases hbi : below l[i] with
      | false => rfl
      | true =>
        exact absurd (List.pairwise_iff_getElem.mp hl mid i hmid hile him hbi) hbelow
    · obtain rfl : i = mid := by omega
      rw [hb] at hget
      cases hget
      simpa using hbelow
  | case3 low high hlt mid hget _ =>
    rw [List.getElem?_eq_getElem (by omega)] at hget
    cases hget
  | case4 low high hlt =>
    obtain rfl : low = high := by omega
    exact ⟨hlen, h⟩

/-- The search splits the list: everything before the found place is below, nothing after it. -/
theorem lowerBound_split {below : α → Bool} {l : List α}
    (hl : l.Pairwise fun a b => below b = true → below a = true) :
    lowerBound below l ≤ l.length ∧
      (∀ a ∈ l.take (lowerBound below l), below a = true) ∧
      (∀ a ∈ l.drop (lowerBound below l), below a = false) := by
  have h0 : Between below l 0 l.length :=
    ⟨fun i a hi _ => absurd hi (Nat.not_lt_zero i), fun i a hi ha => by
      rw [List.getElem?_eq_none hi] at ha
      cases ha⟩
  obtain ⟨hlen, hbefore, hafter⟩ := lowerBoundBetween_spec hl 0 l.length (Nat.zero_le _) le_rfl h0
  refine ⟨hlen, fun a ha => ?_, fun a ha => ?_⟩
  · obtain ⟨i, hi, rfl⟩ := List.mem_iff_getElem.mp ha
    have hi' : i < lowerBound below l := Nat.lt_of_lt_of_le hi (List.length_take_le _ _)
    refine hbefore i _ hi' ?_
    rw [List.getElem_take, List.getElem?_eq_getElem]
  · obtain ⟨i, hi, rfl⟩ := List.mem_iff_getElem.mp ha
    refine hafter (lowerBound below l + i) _ (Nat.le_add_right _ _) ?_
    rw [List.length_drop] at hi
    rw [List.getElem_drop, List.getElem?_eq_getElem]

/-! ## Strictly sorted lists -/

theorem insertIdx_eq_take_append {l : List α} {i : Nat} {x : α} (h : i ≤ l.length) :
    l.insertIdx i x = l.take i ++ x :: l.drop i := by
  induction l generalizing i with
  | nil =>
    obtain rfl : i = 0 := by simpa using h
    rfl
  | cons a l ih =>
    cases i with
    | zero => rfl
    | succ i => simp [ih (by simpa using h)]

/-- Inserting at the found place keeps the list sorted by a transitive relation, when the search
compares the new element by that relation. -/
theorem pairwise_insertIdx_lowerBound {r : α → α → Prop} {below : α → Bool} {l : List α} {x : α}
    (hl : l.Pairwise r) (hbelow : ∀ a ∈ l, below a = true ↔ r a x)
    (hnot : ∀ a ∈ l, below a = false → r x a)
    (htrans : ∀ a ∈ l, ∀ b ∈ l, r a b → r b x → r a x) :
    (l.insertIdx (lowerBound below l) x).Pairwise r := by
  have hpart : l.Pairwise fun a b => below b = true → below a = true := by
    refine hl.imp_of_mem fun {a b} ha hb hab h => ?_
    exact (hbelow a ha).mpr (htrans a ha b hb hab ((hbelow b hb).mp h))
  obtain ⟨hlen, hbefore, hafter⟩ := lowerBound_split hpart
  rw [insertIdx_eq_take_append hlen]
  have hsplit : (l.take (lowerBound below l) ++ l.drop (lowerBound below l)).Pairwise r := by
    rwa [List.take_append_drop]
  rw [List.pairwise_append] at hsplit ⊢
  refine ⟨hsplit.1, List.pairwise_cons.mpr ⟨fun b hb => ?_, hsplit.2.1⟩, fun a ha b hb => ?_⟩
  · exact hnot b (List.mem_of_mem_drop hb) (hafter b hb)
  · rcases List.mem_cons.mp hb with rfl | hb
    · exact (hbelow a (List.mem_of_mem_take ha)).mp (hbefore a ha)
    · exact hsplit.2.2 a ha b hb

theorem mem_insertIdx_lowerBound {below : α → Bool} {l : List α} {x a : α}
    (hl : lowerBound below l ≤ l.length) :
    a ∈ l.insertIdx (lowerBound below l) x ↔ a = x ∨ a ∈ l :=
  List.mem_insertIdx hl

/-- Two lists sorted by one asymmetric relation with the same members are equal. -/
theorem eq_of_sorted_of_mem_iff {r : α → α → Prop} {l₁ l₂ : List α}
    (hasymm : ∀ a ∈ l₁, ∀ b ∈ l₁, r a b → ¬ r b a) (hirr : ∀ a ∈ l₁, ¬ r a a)
    (h₁ : l₁.Pairwise r) (h₂ : l₂.Pairwise r) (hmem : ∀ a, a ∈ l₁ ↔ a ∈ l₂) : l₁ = l₂ := by
  have hnodup₁ : l₁.Nodup :=
    h₁.imp_of_mem fun {a b} ha _ hab => by
      rintro rfl
      exact hirr a ha hab
  have hnodup₂ : l₂.Nodup :=
    h₂.imp_of_mem fun {a b} ha _ hab => by
      rintro rfl
      exact hirr a ((hmem a).mpr ha) hab
  have hperm : l₁.Perm l₂ := (List.perm_ext_iff_of_nodup hnodup₁ hnodup₂).mpr hmem
  have hantisymm : ∀ a b, a ∈ l₁ → b ∈ l₂ → r a b → r b a → a = b := by
    intro a b ha hb hab hba
    exact absurd hba (hasymm a ha b ((hmem b).mpr hb) hab)
  exact hperm.eq_of_pairwise hantisymm h₁ h₂

end Henji
