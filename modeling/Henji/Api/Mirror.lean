import Henji.Api.Reducer
import Mathlib.Logic.Function.Basic

/-!
# A client that mirrors a published map

`Mirrors keyed published` says that a client holds exactly the published entities, up to the cut of
their locators, and its order list is sorted by position and id. Changes come in blocks: a new
entity with its place, a new version in place, a move, a removal. Each block, applied by the
reducer, leaves a client that mirrors the updated map; between the parts of a block the list may be
out of step with the entities.

Results:
1. `mirrors_insert`, `mirrors_update`, `mirrors_move`, `mirrors_remove`: the four blocks.
2. `mirrors_order_unique`: two clients that mirror one map hold one order list.
-/

namespace Henji

/-- The entity without the cuts of its locators. -/
def Entity.sansCut (entity : Entity) : Entity :=
  { entity with details := entity.details.map fun details => details.map ContentLocator.sansCut }

@[simp] theorem Entity.sansCut_id (entity : Entity) : entity.sansCut.id = entity.id := rfl

@[simp] theorem Entity.sansCut_position (entity : Entity) :
    entity.sansCut.position = entity.position := rfl

/-- The ids stand in the order of their entities. -/
def Precedes (collation : Collation) (entities : InsMap EntityId Entity) (a b : EntityId) : Prop :=
  ∃ first second, entities.get? a = some first ∧ entities.get? b = some second ∧
    Before collation (a, first.position) (b, second.position)

/-- What a client's conversation satisfies between frames. -/
structure KeyedConversation.WellFormed (collation : Collation) (keyed : KeyedConversation) :
    Prop where
  ids : ∀ id entity, keyed.entities.get? id = some entity → entity.id = id
  mem : ∀ id, id ∈ keyed.order ↔ (keyed.entities.get? id).isSome
  sorted : keyed.order.Pairwise (Precedes collation keyed.entities)

/-- The client holds the published entities, up to cuts. -/
structure Mirrors (collation : Collation) (keyed : KeyedConversation)
    (published : EntityId → Option Entity) : Prop where
  wellFormed : keyed.WellFormed collation
  same : ∀ id, (keyed.entities.get? id).map Entity.sansCut = (published id).map Entity.sansCut

namespace MirrorLemmas

variable {collation : Collation} {entities entities' : InsMap EntityId Entity}
variable {keyed : KeyedConversation} {published : EntityId → Option Entity}

/-! ## The order relation -/

theorem precedes_irrefl (a : EntityId) : ¬ Precedes collation entities a a := by
  rintro ⟨first, second, h₁, h₂, h⟩
  rw [h₁] at h₂
  cases h₂
  exact OrderLemmas.before_irrefl _ h

theorem precedes_asymm {a b : EntityId} (h : Precedes collation entities a b) :
    ¬ Precedes collation entities b a := by
  obtain ⟨first, second, h₁, h₂, h⟩ := h
  rintro ⟨second', first', h₂', h₁', h'⟩
  rw [h₁] at h₁'
  rw [h₂] at h₂'
  cases h₁'
  cases h₂'
  exact OrderLemmas.before_asymm h h'

theorem precedes_trans {a b c : EntityId} (hab : Precedes collation entities a b)
    (hbc : Precedes collation entities b c) : Precedes collation entities a c := by
  obtain ⟨first, second, h₁, h₂, h⟩ := hab
  obtain ⟨second', third, h₂', h₃, h'⟩ := hbc
  rw [h₂] at h₂'
  cases h₂'
  exact ⟨first, third, h₁, h₃, OrderLemmas.before_trans h h'⟩

/-- The relation reads only positions. -/
theorem precedes_congr {a b : EntityId}
    (ha : (entities.get? a).map (·.position) = (entities'.get? a).map (·.position))
    (hb : (entities.get? b).map (·.position) = (entities'.get? b).map (·.position))
    (h : Precedes collation entities a b) : Precedes collation entities' a b := by
  obtain ⟨first, second, h₁, h₂, h⟩ := h
  rw [h₁, Option.map_some, eq_comm, Option.map_eq_some_iff] at ha
  rw [h₂, Option.map_some, eq_comm, Option.map_eq_some_iff] at hb
  obtain ⟨first', h₁', hp₁⟩ := ha
  obtain ⟨second', h₂', hp₂⟩ := hb
  exact ⟨first', second', h₁', h₂', by rw [hp₁, hp₂]; exact h⟩

theorem nodup_of_sorted {order : List EntityId}
    (h : order.Pairwise (Precedes collation entities)) : order.Nodup := by
  refine h.imp fun {a b} hab => ?_
  rintro rfl
  exact precedes_irrefl a hab

/-! ## Inserting an id -/

/-- Inserting an absent id by the search keeps the list sorted, once its entity is there. -/
theorem sorted_insertIdx {order : List EntityId} {id : EntityId} {entity : Entity}
    (hids : ∀ a ∈ order, ∃ candidate, entities.get? a = some candidate ∧ candidate.id = a)
    (hentity : entities.get? id = some entity) (habsent : id ∉ order)
    (hsorted : order.Pairwise (Precedes collation entities)) :
    let low := lowerBound (standsBelow collation entities id entity.position) order
    (order.insertIdx low id).Pairwise (Precedes collation entities) := by
  have hbelow : ∀ a ∈ order, standsBelow collation entities id entity.position a = true ↔
      Precedes collation entities a id := by
    intro a ha
    obtain ⟨candidate, hget, hid⟩ := hids a ha
    simp only [standsBelow, hget, decide_eq_true_eq, hid]
    refine ⟨fun h => ⟨candidate, entity, hget, hentity, h⟩, ?_⟩
    rintro ⟨first, second, h₁, h₂, h⟩
    rw [hget] at h₁
    rw [hentity] at h₂
    cases h₁
    cases h₂
    exact h
  refine pairwise_insertIdx_lowerBound hsorted hbelow ?_ ?_
  · intro a ha hfalse
    obtain ⟨candidate, hget, hid⟩ := hids a ha
    have hne : a ≠ id := by
      rintro rfl
      exact habsent ha
    simp only [standsBelow, hget, decide_eq_false_iff_not, hid] at hfalse
    exact ⟨entity, candidate, hentity, hget, OrderLemmas.before_of_not_before hne hfalse⟩
  · exact fun a _ b _ hab hb => precedes_trans hab hb

theorem mem_insertIdx {order : List EntityId} {id a : EntityId} {position : Position}
    (hids : ∀ b ∈ order, ∃ candidate, entities.get? b = some candidate ∧ candidate.id = b)
    (hsorted : order.Pairwise (Precedes collation entities)) :
    a ∈ order.insertIdx (lowerBound (standsBelow collation entities id position) order) id ↔
      a = id ∨ a ∈ order := by
  refine mem_insertIdx_lowerBound (lowerBound_split ?_).1
  refine hsorted.imp_of_mem fun {b c} hb hc hbc h => ?_
  obtain ⟨first, second, h₁, h₂, hbefore⟩ := hbc
  obtain ⟨candidate, hget, hid⟩ := hids b hb
  obtain ⟨candidate', hget', hid'⟩ := hids c hc
  rw [h₁] at hget
  rw [h₂] at hget'
  cases hget
  cases hget'
  simp only [standsBelow, h₁, h₂, hid, hid', decide_eq_true_eq] at h ⊢
  exact OrderLemmas.before_trans hbefore h

/-- Place the id of a present entity in a list that holds exactly the other ids. -/
theorem place_wellFormed {order : List EntityId} {id : EntityId} {entity : Entity}
    (hids : ∀ a candidate, entities.get? a = some candidate → candidate.id = a)
    (hentity : entities.get? id = some entity)
    (hmem : ∀ a, a ∈ order ↔ a ≠ id ∧ (entities.get? a).isSome)
    (hsorted : order.Pairwise (Precedes collation entities)) :
    KeyedConversation.WellFormed collation ⟨entities,
      order.insertIdx (lowerBound (standsBelow collation entities id entity.position) order) id⟩ :=
    by
  have hheld : ∀ a ∈ order, ∃ candidate, entities.get? a = some candidate ∧ candidate.id = a := by
    intro a ha
    obtain ⟨candidate, hget⟩ := Option.isSome_iff_exists.mp ((hmem a).mp ha).2
    exact ⟨candidate, hget, hids a candidate hget⟩
  have habsent : id ∉ order := fun h => ((hmem id).mp h).1 rfl
  refine ⟨hids, fun a => ?_, sorted_insertIdx hheld hentity habsent hsorted⟩
  rw [mem_insertIdx hheld hsorted, hmem]
  constructor
  · rintro (rfl | ⟨_, h⟩)
    · rw [hentity]
      rfl
    · exact h
  · intro h
    rcases eq_or_ne a id with rfl | hne
    · exact .inl rfl
    · exact .inr ⟨hne, h⟩

/-! ## Entity writes under an unchanged order -/

theorem ids_set {entity : Entity}
    (h : ∀ a candidate, entities.get? a = some candidate → candidate.id = a) :
    ∀ a candidate, (entities.set entity.id entity).get? a = some candidate → candidate.id = a := by
  intro a candidate hget
  rw [InsMap.get?_set] at hget
  split at hget
  · next heq =>
    cases hget
    exact heq.symm
  · exact h a candidate hget

theorem sorted_congr {order : List EntityId}
    (hpos : ∀ a ∈ order, (entities.get? a).map (·.position) =
      (entities'.get? a).map (·.position))
    (h : order.Pairwise (Precedes collation entities)) :
    order.Pairwise (Precedes collation entities') :=
  h.imp_of_mem fun {a b} ha hb hab => precedes_congr (hpos a ha) (hpos b hb) hab

theorem same_set {entity : Entity}
    (h : ∀ id, (entities.get? id).map Entity.sansCut = (published id).map Entity.sansCut) :
    ∀ id, ((entities.set entity.id entity).get? id).map Entity.sansCut =
      (Function.update published entity.id (some entity) id).map Entity.sansCut := by
  intro id
  rw [InsMap.get?_set, Function.update_apply]
  split
  · rfl
  · exact h id

theorem Mirrors.position {id : EntityId} (h : Mirrors collation keyed published) :
    (keyed.entities.get? id).map (·.position) = (published id).map (·.position) := by
  have := congrArg (Option.map Entity.position) (h.same id)
  rw [Option.map_map, Option.map_map] at this
  exact this

theorem Mirrors.isSome {id : EntityId} (h : Mirrors collation keyed published) :
    (keyed.entities.get? id).isSome = (published id).isSome := by
  have := congrArg Option.isSome (h.same id)
  rwa [Option.isSome_map, Option.isSome_map] at this

/-! ## The blocks -/

/-- A new version in place. -/
theorem mirrors_update {entity : Entity} (h : Mirrors collation keyed published)
    (hpos : (published entity.id).map (·.position) = some entity.position) :
    ∃ next, applyConversationChanges collation keyed [.upsert entity] = .ok next ∧
      Mirrors collation next (Function.update published entity.id (some entity)) := by
  obtain ⟨⟨hids, hmem, hsorted⟩, hsame⟩ := h
  have hheld : (keyed.entities.get? entity.id).map (·.position) = some entity.position := by
    rw [Mirrors.position ⟨⟨hids, hmem, hsorted⟩, hsame⟩, hpos]
  refine ⟨{ keyed with entities := keyed.entities.set entity.id entity }, rfl,
    ⟨ids_set hids, fun a => ?_, sorted_congr (fun a _ => ?_) hsorted⟩, same_set hsame⟩
  · rw [hmem, InsMap.get?_set]
    split
    · next heq =>
      subst heq
      rw [Option.map_eq_some_iff] at hheld
      obtain ⟨prior, hprior, _⟩ := hheld
      rw [hprior]
      rfl
    · rfl
  · rw [InsMap.get?_set]
    split
    · next heq =>
      subst heq
      exact hheld
    · rfl

/-- A new entity with its place. -/
theorem mirrors_insert {entity : Entity} (h : Mirrors collation keyed published)
    (habsent : published entity.id = none) :
    ∃ next, applyConversationChanges collation keyed
        [.upsert entity, .orderInsert entity.id (some entity.position)] = .ok next ∧
      Mirrors collation next (Function.update published entity.id (some entity)) := by
  have hnone : (keyed.entities.get? entity.id).isSome = false := by
    rw [Mirrors.isSome h, habsent]
    rfl
  obtain ⟨⟨hids, hmem, hsorted⟩, hsame⟩ := h
  have hout : entity.id ∉ keyed.order := by
    rw [hmem, hnone]
    exact Bool.false_ne_true
  have hmem' : ∀ a, a ∈ keyed.order ↔
      a ≠ entity.id ∧ ((keyed.entities.set entity.id entity).get? a).isSome := by
    intro a
    rw [InsMap.get?_set, hmem]
    split
    · next heq =>
      subst heq
      simp [hnone]
    · next hne => simp [hne]
  have hpos : ∀ a ∈ keyed.order, (keyed.entities.get? a).map (·.position) =
      ((keyed.entities.set entity.id entity).get? a).map (·.position) := by
    intro a ha
    rw [InsMap.get?_set, if_neg ((hmem' a).mp ha).1]
  refine ⟨_, ?_, place_wellFormed (ids_set hids) (InsMap.get?_set_self _ _ _) hmem'
    (sorted_congr hpos hsorted), same_set hsame⟩
  simp [applyConversationChanges, applyConversationChange, hout]

theorem mem_erase_of_sorted {order : List EntityId} {a id : EntityId}
    (h : order.Pairwise (Precedes collation entities)) : a ∈ order.erase id ↔ a ≠ id ∧ a ∈ order :=
  (nodup_of_sorted h).mem_erase_iff

/-- A new version at another position: the id leaves its place and is placed again. -/
theorem mirrors_move {entity : Entity} (h : Mirrors collation keyed published) :
    ∃ next, applyConversationChanges collation keyed
        [.upsert entity, .orderRemove entity.id, .orderInsert entity.id (some entity.position)] =
          .ok next ∧
      Mirrors collation next (Function.update published entity.id (some entity)) := by
  obtain ⟨⟨hids, hmem, hsorted⟩, hsame⟩ := h
  have hmem' : ∀ a, a ∈ keyed.order.erase entity.id ↔
      a ≠ entity.id ∧ ((keyed.entities.set entity.id entity).get? a).isSome := by
    intro a
    rw [mem_erase_of_sorted hsorted, hmem, InsMap.get?_set]
    refine and_congr_right fun hne => ?_
    rw [if_neg hne]
  have hpos : ∀ a ∈ keyed.order.erase entity.id, (keyed.entities.get? a).map (·.position) =
      ((keyed.entities.set entity.id entity).get? a).map (·.position) := by
    intro a ha
    rw [InsMap.get?_set, if_neg ((hmem' a).mp ha).1]
  have hout : entity.id ∉ keyed.order.erase entity.id := fun h => ((hmem' _).mp h).1 rfl
  refine ⟨_, ?_, place_wellFormed (ids_set hids) (InsMap.get?_set_self _ _ _) hmem'
    (sorted_congr hpos (hsorted.sublist List.erase_sublist)), same_set hsame⟩
  simp [applyConversationChanges, applyConversationChange, hout]

/-- Dropping an entity and its place leaves the rest. -/
theorem mirrors_erase {id : EntityId} (h : Mirrors collation keyed published) :
    Mirrors collation ⟨keyed.entities.erase id, keyed.order.erase id⟩
      (Function.update published id none) := by
  obtain ⟨⟨hids, hmem, hsorted⟩, hsame⟩ := h
  refine ⟨⟨fun a candidate hget => ?_, fun a => ?_, ?_⟩, fun a => ?_⟩
  · rw [InsMap.get?_erase] at hget
    split at hget
    · cases hget
    · exact hids a candidate hget
  · show a ∈ keyed.order.erase id ↔ _
    rw [mem_erase_of_sorted hsorted, hmem, InsMap.get?_erase]
    split
    · next heq => simp [heq]
    · next hne => simp [hne]
  · refine sorted_congr (fun a ha => ?_) (hsorted.sublist List.erase_sublist)
    rw [InsMap.get?_erase, if_neg ((mem_erase_of_sorted hsorted).mp ha).1]
  · show ((keyed.entities.erase id).get? a).map Entity.sansCut = _
    rw [InsMap.get?_erase, Function.update_apply]
    split
    · rfl
    · exact hsame a

/-- A removal, as the live path and as the page difference publish it. -/
theorem mirrors_remove {id : EntityId} (h : Mirrors collation keyed published) :
    (∃ next, applyConversationChanges collation keyed [.remove id, .orderRemove id] = .ok next ∧
      Mirrors collation next (Function.update published id none)) ∧
    ∃ next, applyConversationChanges collation keyed [.orderRemove id, .remove id] = .ok next ∧
      Mirrors collation next (Function.update published id none) :=
  ⟨⟨_, rfl, mirrors_erase h⟩, ⟨_, rfl, mirrors_erase h⟩⟩

/-- The mirrored map decides the order list. -/
theorem mirrors_order_unique {other : KeyedConversation} (h : Mirrors collation keyed published)
    (h' : Mirrors collation other published) : keyed.order = other.order := by
  have hpos : ∀ a, (keyed.entities.get? a).map (·.position) =
      (other.entities.get? a).map (·.position) := fun a => by
    rw [Mirrors.position h, Mirrors.position h']
  have hasymm : ∀ a ∈ keyed.order, ∀ b ∈ keyed.order, Precedes collation keyed.entities a b →
      ¬ Precedes collation keyed.entities b a := fun _ _ _ _ hab => precedes_asymm hab
  refine eq_of_sorted_of_mem_iff hasymm (fun a _ => precedes_irrefl a) h.wellFormed.sorted
    (sorted_congr (fun a _ => (hpos a).symm) h'.wellFormed.sorted) fun a => ?_
  rw [h.wellFormed.mem, h'.wellFormed.mem, Mirrors.isSome h, Mirrors.isSome h']

/-- Changes applied in two parts. -/
theorem applyConversationChanges_append_eq (first second : List ConversationChange) :
    applyConversationChanges collation keyed (first ++ second) =
      match applyConversationChanges collation keyed first with
      | .error error => .error error
      | .ok middle => applyConversationChanges collation middle second := by
  induction first generalizing keyed with
  | nil => rfl
  | cons change changes ih =>
    simp only [List.cons_append, applyConversationChanges]
    cases applyConversationChange collation keyed change with
    | error error => rfl
    | ok next => exact ih

theorem applyConversationChanges_append {first second : List ConversationChange}
    {middle : KeyedConversation}
    (h : applyConversationChanges collation keyed first = .ok middle) :
    applyConversationChanges collation keyed (first ++ second) =
      applyConversationChanges collation middle second := by
  rw [applyConversationChanges_append_eq, h]

end MirrorLemmas

end Henji
