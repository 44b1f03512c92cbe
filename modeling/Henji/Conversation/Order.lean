import Henji.Conversation.Model

/-!
# The order of a conversation

Entries are ordered by position, and entries of one position by the collation of their ids. The
collation of the platform is a total order on distinct ids, which the structure carries.
-/

namespace Henji

/-- `localeCompare` on entity ids. -/
structure Collation where
  localeCompare : EntityId → EntityId → Ordering
  trans : Std.TransCmp localeCompare
  lawful : Std.LawfulEqCmp localeCompare

instance (collation : Collation) : Std.TransCmp collation.localeCompare := collation.trans
instance (collation : Collation) : Std.LawfulEqCmp collation.localeCompare := collation.lawful

instance : Std.TransCmp comparePositions := by unfold comparePositions; infer_instance

instance : Std.LawfulEqCmp comparePositions where
  compare_self := by simp [comparePositions, compareLex, compareOn, Std.ReflCmp.compare_self]
  eq_of_compare {a b} h := by
    simp only [comparePositions, compareLex_eq_eq, compareOn, Std.LawfulEqCmp.compare_eq_iff_eq] at h
    obtain ⟨h₁, h₂, h₃, h₄, h₅⟩ := h
    cases a
    cases b
    simp_all

/-- An ordered id with its position. -/
abbrev OrderEntry := EntityId × Position

/-- `compareConversationPositions(left, right) || left.localeCompare(right)`. -/
def compareEntries (collation : Collation) (left right : OrderEntry) : Ordering :=
  (comparePositions left.2 right.2).then (collation.localeCompare left.1 right.1)

/-- The entry stands strictly before the other one. -/
def Before (collation : Collation) (left right : OrderEntry) : Prop :=
  compareEntries collation left right = .lt

instance (collation : Collation) : DecidableRel (Before collation) :=
  fun left right => inferInstanceAs (Decidable (compareEntries collation left right = .lt))

namespace OrderLemmas

variable {collation : Collation} {a b c : OrderEntry}

theorem before_iff : Before collation a b ↔ comparePositions a.2 b.2 = .lt ∨
    comparePositions a.2 b.2 = .eq ∧ collation.localeCompare a.1 b.1 = .lt := by
  unfold Before compareEntries
  exact Ordering.then_eq_lt

theorem before_irrefl (a : OrderEntry) : ¬ Before collation a a := by
  have hpos : comparePositions a.2 a.2 = .eq := Std.ReflCmp.compare_self
  have hid : collation.localeCompare a.1 a.1 = .eq := Std.ReflCmp.compare_self
  rw [before_iff, hpos, hid]
  rintro (h | ⟨_, h⟩) <;> cases h

theorem before_trans (hab : Before collation a b) (hbc : Before collation b c) :
    Before collation a c := by
  rw [before_iff] at hab hbc ⊢
  rcases hab with hab | ⟨hab, hab'⟩ <;> rcases hbc with hbc | ⟨hbc, hbc'⟩
  · exact .inl (Std.TransCmp.lt_trans hab hbc)
  · exact .inl (Std.TransCmp.lt_of_lt_of_eq hab hbc)
  · exact .inl (Std.TransCmp.lt_of_eq_of_lt hab hbc)
  · exact .inr ⟨Std.TransCmp.eq_trans hab hbc, Std.TransCmp.lt_trans hab' hbc'⟩

theorem before_asymm (hab : Before collation a b) : ¬ Before collation b a :=
  fun hba => before_irrefl a (before_trans hab hba)

/-- Two entries of different ids are comparable. -/
theorem before_of_not_before (hne : a.1 ≠ b.1) (h : ¬ Before collation a b) :
    Before collation b a := by
  rw [before_iff] at h ⊢
  rw [not_or, not_and] at h
  obtain ⟨hpos, hid⟩ := h
  cases hc : comparePositions a.2 b.2 with
  | lt => exact absurd hc hpos
  | gt => exact .inl (Std.OrientedCmp.lt_of_gt hc)
  | eq =>
    refine .inr ⟨Std.OrientedCmp.eq_symm hc, ?_⟩
    cases hl : collation.localeCompare a.1 b.1 with
    | lt => exact absurd hl (hid hc)
    | eq => exact absurd (Std.LawfulEqCmp.eq_of_compare hl) hne
    | gt => exact Std.OrientedCmp.lt_of_gt hl

end OrderLemmas

/-! ## A collation that can be evaluated -/

def laneNumber : Option Lane → Nat
  | none => 0
  | some .parent => 1
  | some .planner => 2

def ordinalNumber : Option Nat → Nat
  | none => 0
  | some ordinal => ordinal + 1

def RequestKey.numbers (key : RequestKey) : List Nat :=
  [laneNumber key.lane, key.modelStep, ordinalNumber key.requestOrdinal]

def RecordId.text : RecordId → String
  | .semantic executionId _ => executionId
  | .control uuid => uuid
  | .metadata uuid => uuid

def RecordId.numbers : RecordId → List Nat
  | .semantic _ ordinal => [0, ordinal]
  | .control _ => [1]
  | .metadata _ => [2]

def EntityId.text : EntityId → String
  | .execution executionId => executionId
  | .taskMessage executionId => executionId
  | .request key => key.executionId
  | .assistant key => key.executionId
  | .thinking key _ => key.executionId
  | .declaredTool occurrence _ => occurrence.text
  | .tool occurrence => occurrence.text
  | .steering executionId _ => executionId
  | .applied occurrence => occurrence.text

def EntityId.numbers : EntityId → List Nat
  | .execution _ => [0]
  | .taskMessage _ => [1]
  | .request key => 2 :: key.numbers
  | .assistant key => 3 :: key.numbers
  | .thinking key .text => 4 :: key.numbers
  | .thinking key .summary => 5 :: key.numbers
  | .declaredTool occurrence index => 6 :: index :: occurrence.numbers
  | .tool occurrence => 7 :: occurrence.numbers
  | .steering _ eventOrdinal => [8, eventOrdinal]
  | .applied occurrence => 9 :: occurrence.numbers

theorem laneNumber_injective {a b : Option Lane} (h : laneNumber a = laneNumber b) : a = b := by
  rcases a with _ | _ | _ <;> rcases b with _ | _ | _ <;> first | rfl | cases h

theorem ordinalNumber_injective {a b : Option Nat} (h : ordinalNumber a = ordinalNumber b) :
    a = b := by
  cases a <;> cases b <;> simp_all [ordinalNumber]

theorem RequestKey.ext_numbers {a b : RequestKey} (htext : a.executionId = b.executionId)
    (h : a.numbers = b.numbers) : a = b := by
  obtain ⟨_, _, _, _⟩ := a
  obtain ⟨_, _, _, _⟩ := b
  simp only [RequestKey.numbers, List.cons.injEq] at h
  obtain ⟨hlane, hstep, hordinal, _⟩ := h
  cases laneNumber_injective hlane
  cases ordinalNumber_injective hordinal
  cases htext
  cases hstep
  rfl

theorem RecordId.ext_numbers {a b : RecordId} (htext : a.text = b.text)
    (h : a.numbers = b.numbers) : a = b := by
  cases a <;> cases b <;> simp_all [RecordId.text, RecordId.numbers]

theorem EntityId.ext_numbers {a b : EntityId} (htext : a.text = b.text)
    (h : a.numbers = b.numbers) : a = b := by
  cases a with
  | thinking key kind =>
    cases kind <;> cases b with
    | thinking other kind =>
      cases kind <;> first
        | exact absurd (List.cons.inj h).1 (by decide)
        | exact congrArg (EntityId.thinking · _) (RequestKey.ext_numbers htext (List.cons.inj h).2)
    | _ => cases h
  | request key | assistant key =>
    cases b with
    | thinking other kind => cases kind <;> cases h
    | request other | assistant other =>
      first
        | cases h
        | exact congrArg _ (RequestKey.ext_numbers htext (List.cons.inj h).2)
    | _ => cases h
  | declaredTool occurrence index =>
    cases b with
    | thinking other kind => cases kind <;> cases h
    | declaredTool other _ =>
      obtain ⟨hindex, hnumbers⟩ := List.cons.inj (List.cons.inj h).2
      rw [hindex, RecordId.ext_numbers htext hnumbers]
    | _ => cases h
  | tool occurrence | applied occurrence =>
    cases b with
    | thinking other kind => cases kind <;> cases h
    | tool other | applied other =>
      first
        | exact congrArg _ (RecordId.ext_numbers htext (List.cons.inj h).2)
        | cases h
    | _ => cases h
  | execution executionId | taskMessage executionId | steering executionId _ =>
    cases b with
    | thinking other kind => cases kind <;> cases h
    | execution other | taskMessage other | steering other _ =>
      cases h <;> cases htext <;> rfl
    | _ => cases h

/-- An order that a platform may have: by the texts, then by the numbers of the ids. -/
def plainCollation : Collation where
  localeCompare := compareLex (compareOn EntityId.text) (compareOn EntityId.numbers)
  trans := inferInstance
  lawful := {
    compare_self := by simp [compareLex, compareOn, Std.ReflCmp.compare_self]
    eq_of_compare := fun h => by
      simp only [compareLex_eq_eq, compareOn, Std.LawfulEqCmp.compare_eq_iff_eq] at h
      exact EntityId.ext_numbers h.1 h.2 }

end Henji
