import Mathlib.Data.List.Nodup
import Mathlib.Data.List.Perm.Basic
import Mathlib.Data.List.Range

/-!
# Promises that are settled through a register

A party makes promises under keys and settles them through a register of the ones that still wait: a
settlement takes its promises out of the register. `Settled` says that each promise waits or is
settled, exactly once. Every operation keeps it.
-/

namespace Henji

/-- The promises made, by number, with the register of the waiting ones and the settlements so
far. -/
structure Promises (κ ρ : Type) where
  keys : List κ
  waiting : List Nat
  settlements : List (Nat × ρ)
deriving DecidableEq, Repr

namespace Promises

variable {κ ρ : Type}

def empty : Promises κ ρ := ⟨[], [], []⟩

/-! ## Operations -/

/-- A new promise enters the register. -/
def make (promises : Promises κ ρ) (key : κ) : Promises κ ρ where
  keys := promises.keys ++ [key]
  waiting := promises.waiting ++ [promises.keys.length]
  settlements := promises.settlements

/-- A new promise that is settled at once. -/
def makeSettled (promises : Promises κ ρ) (key : κ) (outcome : ρ) : Promises κ ρ where
  keys := promises.keys ++ [key]
  waiting := promises.waiting
  settlements := promises.settlements ++ [(promises.keys.length, outcome)]

/-- Whether the key of a promise meets a condition. -/
def keyMeets (promises : Promises κ ρ) (condition : κ → Bool) (number : Nat) : Bool :=
  (promises.keys[number]?).any condition

/-- Settle the waiting promises whose keys meet a condition. -/
def settleWhere (promises : Promises κ ρ) (condition : κ → Bool) (outcome : κ → ρ) :
    Promises κ ρ where
  keys := promises.keys
  waiting := promises.waiting.filter fun number => !promises.keyMeets condition number
  settlements := promises.settlements ++
    (promises.waiting.filter (promises.keyMeets condition)).filterMap fun number =>
      (promises.keys[number]?).map fun key => (number, outcome key)

/-- The key of the first waiting promise that meets a condition. -/
def find? (promises : Promises κ ρ) (condition : κ → Bool) : Option κ :=
  (promises.waiting.filterMap fun number => promises.keys[number]?).find? condition

/-- A promise under this key waits. -/
def Waits (promises : Promises κ ρ) (key : κ) : Prop :=
  ∃ number ∈ promises.waiting, promises.keys[number]? = some key

/-! ## Each promise once -/

/-- Each promise waits or is settled, exactly once. -/
def Settled (promises : Promises κ ρ) : Prop :=
  (promises.waiting ++ promises.settlements.map Prod.fst).Perm (List.range promises.keys.length)

/-- How the promises were settled. -/
def SettledBy (promises : Promises κ ρ) (reason : κ → ρ → Prop) : Prop :=
  ∀ number outcome, (number, outcome) ∈ promises.settlements →
    ∃ key, promises.keys[number]? = some key ∧ reason key outcome

variable {promises : Promises κ ρ}

theorem settled_empty : (empty : Promises κ ρ).Settled := List.Perm.refl _

theorem Settled.make (h : promises.Settled) (key : κ) : (promises.make key).Settled := by
  simp only [Settled, Promises.make, List.length_append, List.length_singleton, List.range_succ]
  refine List.Perm.trans ?_ (h.append_right [promises.keys.length])
  rw [List.append_assoc, List.append_assoc]
  exact List.perm_append_comm.append_left promises.waiting

theorem Settled.makeSettled (h : promises.Settled) (key : κ) (outcome : ρ) :
    (promises.makeSettled key outcome).Settled := by
  simp only [Settled, Promises.makeSettled, List.length_append, List.length_singleton,
    List.range_succ, List.map_append, List.map_cons, List.map_nil, ← List.append_assoc]
  exact h.append_right [promises.keys.length]

theorem Settled.lt (h : promises.Settled) {number : Nat} (hmem : number ∈ promises.waiting) :
    number < promises.keys.length :=
  List.mem_range.mp (h.subset (List.mem_append_left _ hmem))

/-- The numbers that one settlement takes out of the register. -/
theorem map_fst_settled (condition : κ → Bool) (outcome : κ → ρ) :
    ((promises.waiting.filter (promises.keyMeets condition)).filterMap fun number =>
      (promises.keys[number]?).map fun key => (number, outcome key)).map Prod.fst =
        promises.waiting.filter (promises.keyMeets condition) := by
  induction promises.waiting with
  | nil => rfl
  | cons number rest ih =>
    by_cases hmeets : promises.keyMeets condition number = true
    · cases hkey : promises.keys[number]? with
      | none => simp [keyMeets, hkey] at hmeets
      | some key => simp [hmeets, hkey, ih]
    · simp [hmeets, ih]

theorem Settled.settleWhere (h : promises.Settled) (condition : κ → Bool) (outcome : κ → ρ) :
    (promises.settleWhere condition outcome).Settled := by
  simp only [Settled, Promises.settleWhere, List.map_append, map_fst_settled]
  refine List.Perm.trans ?_ h
  rw [← List.append_assoc]
  refine (List.perm_append_comm.trans ?_).trans
    ((List.filter_append_perm (promises.keyMeets condition) promises.waiting).append_right _)
  rw [List.append_assoc]

variable {reason : κ → ρ → Prop}

theorem settledBy_empty : (empty : Promises κ ρ).SettledBy reason := by
  intro number outcome hmem
  cases hmem

theorem getElem?_keys_append {key : κ} {more : List κ} {number : Nat}
    (h : promises.keys[number]? = some key) : (promises.keys ++ more)[number]? = some key := by
  rw [List.getElem?_append_left (List.getElem?_eq_some_iff.mp h).1]
  exact h

theorem SettledBy.make (h : promises.SettledBy reason) (key : κ) :
    (promises.make key).SettledBy reason := by
  intro number outcome hmem
  obtain ⟨old, hold, hreason⟩ := h number outcome hmem
  exact ⟨old, getElem?_keys_append hold, hreason⟩

theorem SettledBy.makeSettled (h : promises.SettledBy reason) {key : κ} {outcome : ρ}
    (hnew : reason key outcome) : (promises.makeSettled key outcome).SettledBy reason := by
  intro number other hmem
  rcases List.mem_append.mp hmem with hmem | hmem
  · obtain ⟨old, hold, hreason⟩ := h number other hmem
    exact ⟨old, getElem?_keys_append hold, hreason⟩
  · cases List.mem_singleton.mp hmem
    exact ⟨key, List.getElem?_concat_length, hnew⟩

/-- A settlement gives every promise that it takes a reason. -/
theorem SettledBy.settleWhere (h : promises.SettledBy reason) {condition : κ → Bool}
    {outcome : κ → ρ}
    (hnew : ∀ key, promises.Waits key → condition key = true → reason key (outcome key)) :
    (promises.settleWhere condition outcome).SettledBy reason := by
  intro number other hmem
  rcases List.mem_append.mp hmem with hmem | hmem
  · exact h number other hmem
  · obtain ⟨place, hplace, hother⟩ := List.mem_filterMap.mp hmem
    obtain ⟨key, hkey, heq⟩ := Option.map_eq_some_iff.mp hother
    cases heq
    obtain ⟨hwaits, hmeets⟩ := List.mem_filter.mp hplace
    have hcondition : condition key = true := by simpa [keyMeets, hkey] using hmeets
    exact ⟨key, hkey, hnew key ⟨_, hwaits, hkey⟩ hcondition⟩

/-! ## The register -/

theorem waits_make {key other : κ} (h : promises.Settled) :
    (promises.make key).Waits other ↔ promises.Waits other ∨ other = key := by
  constructor
  · rintro ⟨number, hmem, hkey⟩
    rcases List.mem_append.mp hmem with hmem | hmem
    · rw [Promises.make, List.getElem?_append_left (h.lt hmem)] at hkey
      exact .inl ⟨number, hmem, hkey⟩
    · rw [List.mem_singleton.mp hmem, Promises.make, List.getElem?_concat_length] at hkey
      exact .inr (Option.some.inj hkey).symm
  · rintro (⟨number, hmem, hkey⟩ | rfl)
    · exact ⟨number, List.mem_append_left _ hmem, getElem?_keys_append hkey⟩
    · exact ⟨promises.keys.length, by simp [Promises.make], List.getElem?_concat_length⟩

theorem waits_makeSettled {key other : κ} {outcome : ρ} (h : promises.Settled) :
    (promises.makeSettled key outcome).Waits other ↔ promises.Waits other := by
  constructor
  · rintro ⟨number, hmem, hkey⟩
    rw [Promises.makeSettled, List.getElem?_append_left (h.lt hmem)] at hkey
    exact ⟨number, hmem, hkey⟩
  · rintro ⟨number, hmem, hkey⟩
    exact ⟨number, hmem, getElem?_keys_append hkey⟩

theorem waits_settleWhere {condition : κ → Bool} {outcome : κ → ρ} {key : κ} :
    (promises.settleWhere condition outcome).Waits key ↔
      promises.Waits key ∧ condition key = false := by
  constructor
  · rintro ⟨number, hmem, hkey⟩
    obtain ⟨hwaits, hmeets⟩ := List.mem_filter.mp hmem
    refine ⟨⟨number, hwaits, hkey⟩, ?_⟩
    have hkey' : promises.keys[number]? = some key := hkey
    simpa [keyMeets, hkey'] using hmeets
  · rintro ⟨⟨number, hmem, hkey⟩, hcondition⟩
    refine ⟨number, List.mem_filter.mpr ⟨hmem, ?_⟩, hkey⟩
    simp [keyMeets, hkey, hcondition]

end Promises

end Henji
