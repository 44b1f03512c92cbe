import Mathlib.Data.List.Nodup
import Mathlib.Data.List.InsertIdx

/-!
# Lists in blocks behind heads

`blocks heads members` is a list in which every head is followed by its members, after the members
of no head. Results:
1. `nodup_blocks`, `mem_blocks`: every head and every member stands there once.
2. `filter_blocks`: taking out members takes them out of their blocks.
3. `exists_around`: the block of a head stands between two parts that do not depend on it.
4. `getElem?_eq_some_iff_idxOf?`: places of a list without repetitions.
-/

namespace Henji

namespace Blocks

variable {α : Type} {heads : List α} {members : Option α → List α}

def blocks (heads : List α) (members : Option α → List α) : List α :=
  members none ++ heads.flatMap fun head => head :: members (some head)

/-- Members stand in one block each, none twice, and no head is a member. -/
structure Separate (heads : List α) (members : Option α → List α) : Prop where
  nodup_heads : heads.Nodup
  nodup : ∀ head, (members head).Nodup
  once : ∀ {x head head'}, x ∈ members head → x ∈ members head' → head = head'
  apart : ∀ {x head}, x ∈ members head → x ∉ heads

theorem mem_blocks {x : α} :
    x ∈ blocks heads members ↔
      x ∈ heads ∨ x ∈ members none ∨ ∃ head ∈ heads, x ∈ members (some head) := by
  simp only [blocks, List.mem_append, List.mem_flatMap, List.mem_cons]
  constructor
  · rintro (h | ⟨head, hmem, rfl | h⟩)
    · exact .inr (.inl h)
    · exact .inl hmem
    · exact .inr (.inr ⟨head, hmem, h⟩)
  · rintro (h | h | ⟨head, hmem, h⟩)
    · exact .inr ⟨x, h, .inl rfl⟩
    · exact .inl h
    · exact .inr ⟨head, hmem, .inr h⟩

theorem nodup_blocks (h : Separate heads members) : (blocks heads members).Nodup := by
  refine List.nodup_append.mpr ⟨h.nodup none, List.nodup_flatMap.mpr ⟨?_, ?_⟩, ?_⟩
  · intro head hmem
    exact List.nodup_cons.mpr ⟨fun hx => h.apart hx hmem, h.nodup _⟩
  · refine h.nodup_heads.imp_of_mem ?_
    intro first second hfirst hsecond hne
    -- Two heads differ, a head is no member, and a member stands behind one head.
    simp only [Function.onFun, List.disjoint_cons_left, List.disjoint_cons_right, List.mem_cons]
    refine ⟨not_or.mpr ⟨hne.symm, fun hx => h.apart hx hsecond⟩, fun hx => h.apart hx hfirst, ?_⟩
    intro x hx hx'
    exact hne (Option.some.inj (h.once hx hx'))
  · intro x hx y hy hxy
    subst hxy
    obtain ⟨head, hmem, hin⟩ := List.mem_flatMap.mp hy
    rcases List.mem_cons.mp hin with rfl | hin
    · exact h.apart hx hmem
    · cases h.once hx hin

theorem filter_blocks {keep : α → Bool} (h : ∀ head ∈ heads, keep head = true) :
    (blocks heads members).filter keep = blocks heads fun head => (members head).filter keep := by
  simp only [blocks, List.filter_append, List.filter_flatMap]
  congr 1
  refine List.flatMap_congr fun head hmem => ?_
  rw [List.filter_cons_of_pos (h head hmem)]

/-- The members of no head stand before everything. -/
theorem exists_after_first (heads : List α) (members : Option α → List α) :
    ∃ rest, rest.head? = heads.head? ∧ ∀ members' : Option α → List α,
      (∀ head, head ≠ none → members' head = members head) →
        blocks heads members' = members' none ++ rest := by
  refine ⟨heads.flatMap fun head => head :: members (some head), ?_, ?_⟩
  · cases heads <;> rfl
  · intro members' h
    rw [blocks]
    congr 1
    exact List.flatMap_congr fun head _ => by rw [h (some head) (Option.some_ne_none head)]

/-- The members of a head stand right behind it, before the next head. -/
theorem exists_around {anchor : α} (h : heads.Nodup) (hanchor : anchor ∈ heads)
    (members : Option α → List α) :
    ∃ front rest, (∀ next ∈ rest.head?, next ∈ heads) ∧ ∀ members' : Option α → List α,
      (∀ head, head ≠ some anchor → members' head = members head) →
        blocks heads members' = front ++ anchor :: (members' (some anchor) ++ rest) := by
  obtain ⟨before, after, rfl⟩ := List.append_of_mem hanchor
  obtain ⟨-, hafter, hdisjoint⟩ := List.nodup_append.mp h
  refine ⟨members none ++ before.flatMap fun head => head :: members (some head),
    after.flatMap fun head => head :: members (some head), ?_, ?_⟩
  · intro next hnext
    cases after with
    | nil => cases hnext
    | cons head after =>
      simp only [List.flatMap_cons, List.cons_append, List.head?_cons, Option.mem_some] at hnext
      exact hnext ▸ by simp
  · intro members' hsame
    have hbefore : before.flatMap (fun head => head :: members' (some head)) =
        before.flatMap fun head => head :: members (some head) := by
      refine List.flatMap_congr fun head hmem => ?_
      rw [hsame (some head) fun heq =>
        hdisjoint head hmem anchor List.mem_cons_self (Option.some.inj heq)]
    have hrest : after.flatMap (fun head => head :: members' (some head)) =
        after.flatMap fun head => head :: members (some head) := by
      refine List.flatMap_congr fun head hmem => ?_
      rw [hsame (some head) fun heq =>
        (List.nodup_cons.mp hafter).1 (Option.some.inj heq ▸ hmem)]
    rw [blocks, hsame none (by simp), List.flatMap_append, List.flatMap_cons, hbefore, hrest]
    simp

theorem insertIdx_append (front rest : List α) (x : α) :
    (front ++ rest).insertIdx front.length x = front ++ x :: rest := by
  induction front with
  | nil => rfl
  | cons head front ih => simpa using ih

end Blocks

namespace Places

variable {α : Type} [DecidableEq α]

theorem idxOf?_append {front rest : List α} {x : α} :
    (front ++ rest).idxOf? x = (front.idxOf? x).or ((rest.idxOf? x).map (· + front.length)) :=
  List.findIdx?_append

/-- In a list without repetitions the place of an id is the one where it stands. -/
theorem idxOf?_eq_some_iff {order : List α} (h : order.Nodup) {x : α} {i : Nat} :
    order.idxOf? x = some i ↔ order[i]? = some x := by
  rw [List.idxOf?_eq_some_iff, List.getElem?_eq_some_iff]
  constructor
  · rintro ⟨hi, hx, -⟩
    exact ⟨hi, hx⟩
  · rintro ⟨hi, rfl⟩
    refine ⟨hi, rfl, fun j hj heq => ?_⟩
    exact Nat.ne_of_lt hj ((List.Nodup.getElem_inj_iff h).mp heq)

end Places

end Henji
