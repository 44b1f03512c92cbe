import Mathlib.Data.List.Nodup
import Mathlib.Data.List.Perm.Basic
import Mathlib.Logic.Function.Basic

/-!
# Insertion-ordered maps

`InsMap κ α` is a finite map that remembers the order in which its keys were first set. Setting a
key that is present replaces the value and keeps the key's place; setting a new key appends it.
The list of entries and the proof that no key occurs twice travel together, so a map with a
repeated key cannot be built.

Results:
1. `get?_set`, `get?_erase`, `get?_empty`: the map read back after each operation.
2. `mem_keys`: the keys are the places where `get?` is defined.
3. `set_set_comm`: writes to two present keys commute, order of keys included.
-/

namespace Henji

/-- A finite map whose keys stand in order of first insertion. -/
structure InsMap (κ α : Type) where
  entries : List (κ × α)
  nodup : (entries.map Prod.fst).Nodup
deriving DecidableEq

namespace InsMap

variable {κ α : Type} [DecidableEq κ]

/-! ## Operations -/

/-- Replace the value of `k` where it stands, or append the pair. -/
def setEntry (k : κ) (v : α) : List (κ × α) → List (κ × α)
  | [] => [(k, v)]
  | (k', v') :: rest => if k' = k then (k, v) :: rest else (k', v') :: setEntry k v rest

theorem mem_map_fst_setEntry {k x : κ} {v : α} {l : List (κ × α)} :
    x ∈ (setEntry k v l).map Prod.fst ↔ x = k ∨ x ∈ l.map Prod.fst := by
  induction l with
  | nil => simp [setEntry]
  | cons p rest ih =>
    obtain ⟨k', v'⟩ := p
    by_cases hk : k' = k
    · simp [setEntry, hk]
    · simp only [setEntry, hk, if_false, List.map_cons, List.mem_cons, ih]
      tauto

theorem nodup_setEntry {k : κ} {v : α} {l : List (κ × α)} (h : (l.map Prod.fst).Nodup) :
    ((setEntry k v l).map Prod.fst).Nodup := by
  induction l with
  | nil => simp [setEntry]
  | cons p rest ih =>
    obtain ⟨k', v'⟩ := p
    simp only [List.map_cons, List.nodup_cons] at h
    by_cases hk : k' = k
    · subst hk
      simpa [setEntry] using h
    · simp only [setEntry, hk, if_false, List.map_cons, List.nodup_cons]
      refine ⟨?_, ih h.2⟩
      rw [mem_map_fst_setEntry]
      rintro (h' | h')
      · exact hk h'
      · exact h.1 h'

/-- The empty map. -/
def empty : InsMap κ α := ⟨[], List.nodup_nil⟩

/-- The value of a key. -/
def get? (m : InsMap κ α) (k : κ) : Option α := m.entries.lookup k

/-- Whether a key is present. -/
def has (m : InsMap κ α) (k : κ) : Bool := (m.get? k).isSome

/-- The keys, in order of first insertion. -/
def keys (m : InsMap κ α) : List κ := m.entries.map Prod.fst

/-- Write a key. -/
def set (m : InsMap κ α) (k : κ) (v : α) : InsMap κ α :=
  ⟨setEntry k v m.entries, nodup_setEntry m.nodup⟩

/-- Drop a key. -/
def erase (m : InsMap κ α) (k : κ) : InsMap κ α :=
  ⟨m.entries.filter fun p => p.1 ≠ k, m.nodup.sublist (List.filter_sublist.map _)⟩

/-! ## Reading back -/

omit [DecidableEq κ] in
@[ext] theorem ext_entries {m n : InsMap κ α} (h : m.entries = n.entries) : m = n := by
  obtain ⟨_, _⟩ := m
  obtain ⟨_, _⟩ := n
  cases h
  rfl

@[simp] theorem get?_empty (k : κ) : (empty : InsMap κ α).get? k = none := rfl

theorem lookup_cons_ite {k x : κ} {v : α} {l : List (κ × α)} :
    ((k, v) :: l).lookup x = if x = k then some v else l.lookup x := by
  by_cases hx : x = k
  · simp [hx]
  · simp [List.lookup_cons, beq_eq_false_iff_ne.mpr hx, hx]

theorem lookup_setEntry {k x : κ} {v : α} {l : List (κ × α)} :
    (setEntry k v l).lookup x = if x = k then some v else l.lookup x := by
  induction l with
  | nil => simp [setEntry, lookup_cons_ite]
  | cons p rest ih =>
    obtain ⟨k', v'⟩ := p
    by_cases hk : k' = k
    · subst hk
      by_cases hx : x = k' <;> simp [setEntry, lookup_cons_ite, hx]
    · by_cases hx : x = k'
      · simp [setEntry, hx, hk]
      · simp [setEntry, lookup_cons_ite, hk, hx, ih]

@[simp] theorem get?_set (m : InsMap κ α) (k x : κ) (v : α) :
    (m.set k v).get? x = if x = k then some v else m.get? x :=
  lookup_setEntry

theorem get?_set_self (m : InsMap κ α) (k : κ) (v : α) : (m.set k v).get? k = some v := by
  simp

theorem get?_set_ne (m : InsMap κ α) {k x : κ} (v : α) (h : x ≠ k) :
    (m.set k v).get? x = m.get? x := by
  simp [h]

theorem lookup_filter_ne {k x : κ} {l : List (κ × α)} :
    (l.filter fun p => p.1 ≠ k).lookup x = if x = k then none else l.lookup x := by
  induction l with
  | nil => simp
  | cons p rest ih =>
    obtain ⟨k', v'⟩ := p
    by_cases hk : k' = k
    · subst hk
      by_cases hx : x = k'
      · simpa [hx] using ih
      · simpa [lookup_cons_ite, hx] using ih
    · by_cases hx : x = k'
      · simp [hk, hx]
      · simpa [hk, lookup_cons_ite, hx] using ih

@[simp] theorem get?_erase (m : InsMap κ α) (k x : κ) :
    (m.erase k).get? x = if x = k then none else m.get? x :=
  lookup_filter_ne

theorem get?_set_eq_update (m : InsMap κ α) (k : κ) (v : α) :
    (m.set k v).get? = Function.update m.get? k (some v) := by
  funext x
  rw [get?_set, Function.update_apply]

theorem get?_erase_eq_update (m : InsMap κ α) (k : κ) :
    (m.erase k).get? = Function.update m.get? k none := by
  funext x
  rw [get?_erase, Function.update_apply]

theorem has_iff {m : InsMap κ α} {k : κ} : m.has k = true ↔ ∃ v, m.get? k = some v := by
  simp [has, Option.isSome_iff_exists]

theorem lookup_isSome_iff {k : κ} {l : List (κ × α)} :
    (l.lookup k).isSome ↔ k ∈ l.map Prod.fst := by
  induction l with
  | nil => simp
  | cons p rest ih =>
    obtain ⟨k', v'⟩ := p
    by_cases hk : k = k'
    · simp [hk]
    · simp [lookup_cons_ite, hk, ih]

theorem mem_keys {m : InsMap κ α} {k : κ} : k ∈ m.keys ↔ (m.get? k).isSome :=
  lookup_isSome_iff.symm

omit [DecidableEq κ] in
theorem nodup_keys (m : InsMap κ α) : m.keys.Nodup := m.nodup

theorem lookup_eq_some_iff {k : κ} {v : α} {l : List (κ × α)} (h : (l.map Prod.fst).Nodup) :
    l.lookup k = some v ↔ (k, v) ∈ l := by
  induction l with
  | nil => simp
  | cons p rest ih =>
    obtain ⟨k', v'⟩ := p
    simp only [List.map_cons, List.nodup_cons] at h
    by_cases hk : k = k'
    · subst hk
      have hout : (k, v) ∉ rest := fun hm => h.1 (List.mem_map_of_mem hm)
      simp [hout, eq_comm]
    · simp [lookup_cons_ite, hk, ih h.2]

/-- The entries are exactly the defined places of `get?`. -/
theorem mem_entries {m : InsMap κ α} {k : κ} {v : α} : (k, v) ∈ m.entries ↔ m.get? k = some v :=
  (lookup_eq_some_iff m.nodup).symm

/-! ## Values under a function -/

section MapValues

variable {β : Type}

omit [DecidableEq κ] in
theorem keys_mapValues (f : α → β) (l : List (κ × α)) :
    (l.map fun p => (p.1, f p.2)).map Prod.fst = l.map Prod.fst := by
  rw [List.map_map]
  rfl

/-- The map with every value replaced by its image. -/
def mapValues (f : α → β) (m : InsMap κ α) : InsMap κ β :=
  ⟨m.entries.map fun p => (p.1, f p.2), by rw [keys_mapValues]; exact m.nodup⟩

theorem lookup_mapValues (f : α → β) (k : κ) (l : List (κ × α)) :
    (l.map fun p => (p.1, f p.2)).lookup k = (l.lookup k).map f := by
  induction l with
  | nil => rfl
  | cons p rest ih =>
    obtain ⟨k', v'⟩ := p
    simp only [List.map_cons, lookup_cons_ite, ih]
    split <;> rfl

@[simp] theorem get?_mapValues (f : α → β) (m : InsMap κ α) (k : κ) :
    (m.mapValues f).get? k = (m.get? k).map f := lookup_mapValues f k m.entries

theorem setEntry_mapValues (f : α → β) (k : κ) (v : α) (l : List (κ × α)) :
    (setEntry k v l).map (fun p => (p.1, f p.2)) =
      setEntry k (f v) (l.map fun p => (p.1, f p.2)) := by
  induction l with
  | nil => rfl
  | cons p rest ih =>
    obtain ⟨k', v'⟩ := p
    simp only [setEntry, List.map_cons]
    split
    · rfl
    · simp only [List.map_cons, ih]

theorem mapValues_set (f : α → β) (m : InsMap κ α) (k : κ) (v : α) :
    (m.set k v).mapValues f = (m.mapValues f).set k (f v) :=
  ext_entries (setEntry_mapValues f k v m.entries)

omit [DecidableEq κ] in
@[simp] theorem length_mapValues (f : α → β) (m : InsMap κ α) :
    (m.mapValues f).entries.length = m.entries.length := List.length_map _

end MapValues

theorem length_setEntry (k : κ) (v : α) (l : List (κ × α)) :
    (setEntry k v l).length = if (l.lookup k).isSome then l.length else l.length + 1 := by
  induction l with
  | nil => rfl
  | cons p rest ih =>
    obtain ⟨k', v'⟩ := p
    by_cases hk : k' = k
    · simp [setEntry, hk]
    · have hk' : k ≠ k' := fun h => hk h.symm
      simp only [setEntry, if_neg hk, List.length_cons, ih, lookup_cons_ite, if_neg hk']
      split <;> rfl

theorem length_set (m : InsMap κ α) (k : κ) (v : α) :
    (m.set k v).entries.length = if m.has k then m.entries.length else m.entries.length + 1 :=
  length_setEntry k v m.entries

/-- Setting an entry to the value that is there changes nothing. -/
theorem setEntry_of_lookup {k : κ} {v : α} {l : List (κ × α)} (h : l.lookup k = some v) :
    setEntry k v l = l := by
  induction l with
  | nil => cases h
  | cons p rest ih =>
    obtain ⟨k', v'⟩ := p
    rw [lookup_cons_ite] at h
    by_cases hk : k = k'
    · rw [if_pos hk] at h
      cases h
      simp [setEntry, hk]
    · have hk' : ¬ k' = k := fun h => hk h.symm
      rw [if_neg hk] at h
      simp [setEntry, hk', ih h]

theorem set_of_get? {m : InsMap κ α} {k : κ} {v : α} (h : m.get? k = some v) : m.set k v = m :=
  ext_entries (setEntry_of_lookup h)

/-! ## Writes that keep the key order -/

theorem setEntry_comm {k₁ k₂ : κ} {v₁ v₂ : α} {l : List (κ × α)} (hne : k₁ ≠ k₂)
    (h₁ : k₁ ∈ l.map Prod.fst) :
    setEntry k₂ v₂ (setEntry k₁ v₁ l) = setEntry k₁ v₁ (setEntry k₂ v₂ l) := by
  induction l with
  | nil => simp at h₁
  | cons p rest ih =>
    obtain ⟨k', v'⟩ := p
    by_cases hk₁ : k' = k₁
    · subst hk₁
      simp [setEntry, hne]
    · by_cases hk₂ : k' = k₂
      · subst hk₂
        simp [setEntry, hk₁]
      · have h' : k₁ ∈ rest.map Prod.fst := by
          simp only [List.map_cons, List.mem_cons] at h₁
          exact h₁.resolve_left fun h => hk₁ h.symm
        simp [setEntry, hk₁, hk₂, ih h']

/-- A write to a present key commutes with a write to any other key. -/
theorem set_set_comm {m : InsMap κ α} {k₁ k₂ : κ} {v₁ v₂ : α} (hne : k₁ ≠ k₂)
    (h₁ : (m.get? k₁).isSome) :
    (m.set k₁ v₁).set k₂ v₂ = (m.set k₂ v₂).set k₁ v₁ :=
  ext_entries (setEntry_comm hne (lookup_isSome_iff.mp h₁))

theorem setEntry_idem {k : κ} {v w : α} {l : List (κ × α)} :
    setEntry k w (setEntry k v l) = setEntry k w l := by
  induction l with
  | nil => simp [setEntry]
  | cons p rest ih =>
    obtain ⟨k', v'⟩ := p
    by_cases hk : k' = k
    · simp [setEntry, hk]
    · simp [setEntry, hk, ih]

/-- The later of two writes to one key wins. -/
@[simp] theorem set_set_self (m : InsMap κ α) (k : κ) (v w : α) :
    (m.set k v).set k w = m.set k w :=
  ext_entries setEntry_idem

theorem filter_setEntry_of_ne {k x : κ} {v : α} {l : List (κ × α)} (h : k ≠ x) :
    (setEntry k v l).filter (fun p => p.1 ≠ x) = setEntry k v (l.filter fun p => p.1 ≠ x) := by
  induction l with
  | nil => simp [setEntry, h]
  | cons p rest ih =>
    obtain ⟨k', v'⟩ := p
    by_cases hk : k' = k
    · subst hk
      simp [setEntry, h]
    · by_cases hx : k' = x
      · subst hx
        simpa [setEntry, hk] using ih
      · simpa [setEntry, hk, hx, List.filter_cons] using ih

/-- A write commutes with dropping another key. -/
theorem erase_set_of_ne {m : InsMap κ α} {k x : κ} {v : α} (h : k ≠ x) :
    (m.set k v).erase x = (m.erase x).set k v :=
  ext_entries (filter_setEntry_of_ne h)

/-! ## Places of keys -/

theorem setEntry_split (k : κ) (v : α) {l : List (κ × α)} (h : (l.map Prod.fst).Nodup) :
    ∃ before after, setEntry k v l = before ++ (k, v) :: after ∧
      l.filter (fun p => p.1 ≠ k) = before ++ after ∧ (k ∉ l.map Prod.fst → after = []) := by
  induction l with
  | nil => exact ⟨[], [], by simp [setEntry]⟩
  | cons p rest ih =>
    obtain ⟨k', v'⟩ := p
    obtain ⟨hout, hrest⟩ := List.nodup_cons.mp h
    by_cases hk : k' = k
    · subst hk
      refine ⟨[], rest, by simp [setEntry], ?_, fun hnot => absurd List.mem_cons_self hnot⟩
      have hkeep : ∀ p ∈ rest, decide (p.1 ≠ k') = true := fun p hp =>
        decide_eq_true fun heq => hout (List.mem_map.mpr ⟨p, hp, heq⟩)
      rw [List.filter_cons_of_neg (by simp), List.filter_eq_self.mpr hkeep, List.nil_append]
    · obtain ⟨before, after, hset, hfilter, hlast⟩ := ih hrest
      refine ⟨(k', v') :: before, after, by simp [setEntry, hk, hset], ?_, fun hnot => ?_⟩
      · rw [List.filter_cons_of_pos (by simpa using hk), hfilter, List.cons_append]
      · exact hlast fun hmem => hnot (List.mem_cons_of_mem _ hmem)

/-- A write puts the key where it stood, or at the end. -/
theorem exists_entries_set (m : InsMap κ α) (k : κ) (v : α) :
    ∃ before after, (m.set k v).entries = before ++ (k, v) :: after ∧
      (m.erase k).entries = before ++ after ∧ (m.get? k = none → after = []) := by
  obtain ⟨before, after, hset, herase, hlast⟩ := setEntry_split k v m.nodup
  refine ⟨before, after, hset, herase, fun hnone => hlast fun hmem => ?_⟩
  rw [get?, ← Option.not_isSome_iff_eq_none, lookup_isSome_iff] at hnone
  exact hnone hmem

theorem mem_keys_set {m : InsMap κ α} {k x : κ} {v : α} :
    x ∈ (m.set k v).keys ↔ x = k ∨ x ∈ m.keys := mem_map_fst_setEntry

theorem mem_keys_erase {m : InsMap κ α} {k x : κ} : x ∈ (m.erase k).keys ↔ x ≠ k ∧ x ∈ m.keys := by
  rw [mem_keys, mem_keys, get?_erase]
  split <;> simp_all

theorem keys_setEntry (k : κ) (v : α) (l : List (κ × α)) :
    (setEntry k v l).map Prod.fst =
      if k ∈ l.map Prod.fst then l.map Prod.fst else l.map Prod.fst ++ [k] := by
  induction l with
  | nil => rfl
  | cons p rest ih =>
    obtain ⟨k', v'⟩ := p
    by_cases hk : k' = k
    · simp [setEntry, hk]
    · simp only [setEntry, if_neg hk, List.map_cons, ih, List.mem_cons]
      by_cases hmem : k ∈ rest.map Prod.fst
      · simp only [if_pos hmem, if_pos (Or.inr hmem : k = k' ∨ _)]
      · rw [if_neg hmem, if_neg (not_or.mpr ⟨Ne.symm hk, hmem⟩), List.cons_append]

theorem keys_set_of_mem {m : InsMap κ α} {k : κ} {v : α} (h : k ∈ m.keys) :
    (m.set k v).keys = m.keys :=
  (keys_setEntry k v m.entries).trans (if_pos h)

theorem keys_set_of_not_mem {m : InsMap κ α} {k : κ} {v : α} (h : k ∉ m.keys) :
    (m.set k v).keys = m.keys ++ [k] :=
  (keys_setEntry k v m.entries).trans (if_neg h)

theorem erase_set_self (m : InsMap κ α) (k : κ) (v : α) : (m.set k v).erase k = m.erase k := by
  obtain ⟨before, after, hset, herase, -⟩ := exists_entries_set m k v
  refine ext_entries ?_
  rw [herase]
  have hnodup := (m.set k v).nodup
  rw [hset, List.map_append, List.map_cons] at hnodup
  obtain ⟨-, hafter, hdisjoint⟩ := List.nodup_append.mp hnodup
  simp only [erase, hset, List.filter_append]
  rw [List.filter_cons_of_neg (by simp)]
  congr 1
  · exact List.filter_eq_self.mpr fun p hp =>
      decide_eq_true (hdisjoint p.1 (List.mem_map_of_mem hp) k List.mem_cons_self)
  · exact List.filter_eq_self.mpr fun p hp => decide_eq_true fun heq =>
      (List.nodup_cons.mp hafter).1 (List.mem_map.mpr ⟨p, hp, heq⟩)

theorem erase_of_not_mem {m : InsMap κ α} {k : κ} (h : k ∉ m.keys) : m.erase k = m :=
  ext_entries (List.filter_eq_self.mpr fun p hp => decide_eq_true fun heq =>
    h (List.mem_map.mpr ⟨p, hp, heq⟩))

/-! ## Maps from entries -/

theorem setEntry_of_not_mem {k : κ} {v : α} {l : List (κ × α)} (h : k ∉ l.map Prod.fst) :
    setEntry k v l = l ++ [(k, v)] := by
  induction l with
  | nil => rfl
  | cons p rest ih =>
    rw [List.map_cons, List.mem_cons, not_or] at h
    rw [setEntry, if_neg (Ne.symm h.1), ih h.2, List.cons_append]

/-- The map of some entries; a later entry replaces the value of an earlier one. -/
def ofEntries (l : List (κ × α)) : InsMap κ α := l.foldl (fun m p => m.set p.1 p.2) empty

theorem entries_foldl_set (l : List (κ × α)) (m : InsMap κ α)
    (h : ((m.entries ++ l).map Prod.fst).Nodup) :
    (l.foldl (fun m p => m.set p.1 p.2) m).entries = m.entries ++ l := by
  induction l generalizing m with
  | nil => simp
  | cons p rest ih =>
    have hnew : p.1 ∉ m.entries.map Prod.fst := by
      rw [List.map_append, List.map_cons, List.nodup_append] at h
      exact fun hmem => h.2.2 p.1 hmem p.1 List.mem_cons_self rfl
    have hset : (m.set p.1 p.2).entries = m.entries ++ [p] := setEntry_of_not_mem hnew
    rw [List.foldl_cons, ih (m.set p.1 p.2) (by rw [hset, List.append_assoc]; exact h), hset,
      List.append_assoc]
    rfl

/-- A map is the one of its entries. -/
theorem ofEntries_entries (m : InsMap κ α) : ofEntries m.entries = m :=
  ext_entries (entries_foldl_set m.entries empty m.nodup)

end InsMap

end Henji
