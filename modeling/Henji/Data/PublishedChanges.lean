import Henji.Conversation.HistoryAdapter
import Henji.Data.ConversationChanges

/-!
# Both producers carry a client

The changes of a live append carry a client along `applyFact`, block by block; the changes of a page
difference carry it from the previous page to the next one. Both are stable, so they may be
coalesced.

Results:
1. `applyFacts_carries`, `applyFacts_stable`: live changes.
2. `stateChanges_carries`, `stateChanges_stable`: page differences.
3. `snapshot_mirrors`, `snapshotOrder_of_mirrors`: a snapshot mirrors its state, and a client that
   mirrors a state holds the order of its snapshot.
-/

namespace Henji

/-- The tracked positions are places of the state. -/
def TracksState (known : EntityId → Option Position) (state : ConversationState) : Prop :=
  ∀ id position, known id = some position → state.order.get? id = some position

namespace ChangeLemmas

open KeyedStateLemmas

variable {collation : Collation} {published published' : EntityId → Option Entity}
variable {state previous next : ConversationState}

theorem carries_congr {changes : List ConversationChange} {target : EntityId → Option Entity}
    (h : Carries collation changes published target)
    (hsame : ∀ id, (target id).map Entity.sansCut = (published' id).map Entity.sansCut) :
    Carries collation changes published published' := by
  intro keyed hkeyed
  obtain ⟨next, happly, hnext⟩ := h keyed hkeyed
  exact ⟨next, happly, mirrors_congr hnext hsame⟩

/-! ## The blocks, as carried maps -/

theorem carries_update {entity : Entity}
    (hpos : (published entity.id).map (·.position) = some entity.position) :
    Carries collation [.upsert entity] published
      (Function.update published entity.id (some entity)) :=
  fun _ h => MirrorLemmas.mirrors_update h hpos

theorem carries_insert {entity : Entity} (habsent : published entity.id = none) :
    Carries collation [.upsert entity, .orderInsert entity.id (some entity.position)] published
      (Function.update published entity.id (some entity)) :=
  fun _ h => MirrorLemmas.mirrors_insert h habsent

theorem carries_move (entity : Entity) :
    Carries collation
      [.upsert entity, .orderRemove entity.id, .orderInsert entity.id (some entity.position)]
      published (Function.update published entity.id (some entity)) :=
  fun _ h => MirrorLemmas.mirrors_move h

/-! ## Live changes -/

/-- The assistant message of a related tool is another entity than the tool. -/
theorem relateTool_carries (collation : Collation) (h : KeyedState state) (entity : Entity)
    (htool : ∀ tool, entity.body = .tool tool → entity.id.isTool = true) :
    Carries collation ((relateTool state entity).1.map ConversationChange.upsert).toList
      (Function.update state.entities.get? entity.id (some entity))
      (Function.update (relateTool state entity).2.entities.get? entity.id (some entity)) := by
  rcases relateTool_cases state entity with ⟨_, hr⟩ | ⟨tool, assistant, body, _, hbody, hget, hr⟩
  · rw [hr]
    exact carries_nil
  · have hid : assistant.id = .assistant tool.requestKey := h.ids _ _ hget
    have hne : EntityId.assistant tool.requestKey ≠ entity.id := by
      intro heq
      have := htool tool hbody
      rw [← heq] at this
      cases this
    rw [hr, InsMap.get?_set_eq_update, ← hid, Function.update_comm (by rw [hid]; exact hne)]
    refine carries_update ?_
    rw [Function.update_of_ne (by rw [hid]; exact hne), hid, hget]
    rfl

theorem applyUpsert_carries (h : KeyedState state) {proposed : Entity}
    (htool : ∀ tool, proposed.body = .tool tool → proposed.id.isTool = true) :
    Carries collation (applyUpsert state proposed).1 state.entities.get?
      (applyUpsert state proposed).2.entities.get? := by
  have hproposed : ∀ tool, (proposedEntity state proposed).body = .tool tool →
      (proposedEntity state proposed).id.isTool = true := by
    intro tool hbody
    obtain ⟨tool', hbody'⟩ := proposedEntity_isTool hbody
    rw [proposedEntity_id]
    exact htool tool' hbody'
  unfold applyUpsert
  simp only
  generalize proposedEntity state proposed = entity at hproposed
  cases hget : state.entities.get? entity.id with
  | some current =>
    simp only
    split
    · exact carries_nil
    · rw [InsMap.get?_set_eq_update]
      have hplace : (state.entities.get? entity.id).map (·.position) = some current.position := by
        rw [hget]
        rfl
      have hentity : Carries collation [.upsert { entity with position := current.position }]
          state.entities.get? _ := carries_update hplace
      have hrelated := relateTool_carries collation h
        { entity with position := current.position } hproposed
      exact carries_append hentity hrelated
  | none =>
    simp only
    rw [InsMap.get?_set_eq_update]
    have hentity : Carries collation [.upsert entity, .orderInsert entity.id (some entity.position)]
        state.entities.get? _ := carries_insert hget
    exact carries_append hentity (relateTool_carries collation h entity hproposed)

/-- The changes of one fact carry a client along the state. -/
theorem applyFact_carries (h : KeyedState state) {fact : ConversationFact} (hfact : fact.NamesTool) :
    Carries collation (applyFact state fact).1 state.entities.get?
      (applyFact state fact).2.entities.get? := by
  cases fact with
  | upsert proposed => exact applyUpsert_carries h hfact
  | remove id =>
    unfold applyFact
    simp only
    split
    · rw [InsMap.get?_erase_eq_update]
      exact fun keyed hkeyed => (MirrorLemmas.mirrors_remove hkeyed).1
    · exact carries_nil
  | contextNotice executionId | settleExecution executionId =>
    unfold applyFact
    simp only
    split
    · exact carries_nil
    · next current hget =>
      split
      · split
        · exact carries_nil
        · have hid := h.ids _ _ hget
          rw [InsMap.get?_set_eq_update, ← hid]
          refine carries_update ?_
          show (state.entities.get? current.id).map _ = _
          rw [hid, hget]
          rfl
      · exact carries_nil

theorem applyFacts_carries (h : KeyedState state) {facts : List ConversationFact}
    (hfacts : ∀ fact ∈ facts, fact.NamesTool) :
    Carries collation (applyFacts state facts).1 state.entities.get?
      (applyFacts state facts).2.entities.get? := by
  induction facts generalizing state with
  | nil => exact carries_nil
  | cons fact facts ih =>
    exact carries_append (applyFact_carries h (hfacts fact List.mem_cons_self))
      (ih (applyFact_keyed h fact) fun other hother => hfacts other (List.mem_cons_of_mem _ hother))

/-! ## Live changes are stable -/

variable {known : EntityId → Option Position}

theorem tracks_none (state : ConversationState) : TracksState (fun _ => none) state :=
  fun _ _ h => by cases h

theorem tracks_of_order (h : TracksState known previous) (horder : next.order = previous.order) :
    TracksState known next := fun id position hknown => by rw [horder, h id position hknown]

/-- A version that stands at its place of the state. -/
theorem stable_upsert (h : TracksState known state) (entity : Entity)
    (hpos : state.order.get? entity.id = some entity.position) :
    Stable known [.upsert entity] ∧ TracksState (trackPosition known (.upsert entity)) state := by
  refine ⟨⟨fun other position heq hknown => ?_, trivial⟩, fun id position hknown => ?_⟩
  · cases heq
    exact Option.some.inj ((h _ _ hknown).symm.trans hpos)
  · rcases eq_or_ne id entity.id with rfl | hne
    · rw [trackPosition, Function.update_self] at hknown
      rw [hpos, hknown]
    · rw [trackPosition, Function.update_of_ne hne] at hknown
      exact h id position hknown

/-- The related assistant message stands at its place, in any state that keeps that place. -/
theorem relateTool_stable (h : KeyedState state) {placed : ConversationState}
    (htracks : TracksState known placed)
    (hplaced : ∀ id entity, state.entities.get? id = some entity →
      placed.order.get? id = some entity.position) (entity : Entity) :
    let changes := ((relateTool state entity).1.map ConversationChange.upsert).toList
    Stable known changes ∧ TracksState (changes.foldl trackPosition known) placed := by
  rcases relateTool_cases state entity with ⟨_, hr⟩ | ⟨tool, assistant, body, _, _, hget, hr⟩
  · rw [hr]
    exact ⟨trivial, htracks⟩
  · rw [hr]
    refine stable_upsert htracks _ ?_
    show placed.order.get? assistant.id = some assistant.position
    rw [h.ids _ _ hget]
    exact hplaced _ _ hget

/-- The changes of one fact publish entities at their places of the state. -/
theorem applyFact_stable (h : KeyedState state) (htracks : TracksState known state)
    (fact : ConversationFact) :
    Stable known (applyFact state fact).1 ∧
      TracksState ((applyFact state fact).1.foldl trackPosition known) (applyFact state fact).2 := by
  cases fact with
  | upsert proposed =>
    unfold applyFact applyUpsert
    simp only
    generalize proposedEntity state proposed = entity
    cases hget : state.entities.get? entity.id with
    | some current =>
      simp only
      split
      · exact ⟨trivial, htracks⟩
      · have hplace : state.order.get? entity.id = some current.position := order_of_entity h hget
        have hentity := stable_upsert htracks { entity with position := current.position } hplace
        have hrelated := relateTool_stable h hentity.2 (fun _ _ => order_of_entity h)
          { entity with position := current.position }
        exact ⟨⟨hentity.1.1, hrelated.1⟩, tracks_of_order hrelated.2 (relateTool_order _ _)⟩
    | none =>
      simp only
      have hplace : state.order.get? entity.id = none := by rw [h.order, hget]; rfl
      have hunknown : known entity.id = none := by
        cases hknown : known entity.id with
        | none => rfl
        | some position =>
          have := htracks _ _ hknown
          rw [hplace] at this
          cases this
      -- the new place is tracked, the others are places of the state as before
      have htracked : TracksState (trackPosition known (.upsert entity))
          { state with order := state.order.set entity.id entity.position } := by
        intro id position hknown
        show (state.order.set _ _).get? id = _
        rw [InsMap.get?_set]
        rcases eq_or_ne id entity.id with rfl | hne
        · rw [trackPosition, Function.update_self] at hknown
          rw [if_pos rfl, hknown]
        · rw [trackPosition, Function.update_of_ne hne] at hknown
          rw [if_neg hne, htracks id position hknown]
      have hplaced : ∀ id other, state.entities.get? id = some other →
          (state.order.set entity.id entity.position).get? id = some other.position := by
        intro id other hother
        rw [InsMap.get?_set, if_neg]
        · exact order_of_entity h hother
        · rintro rfl
          rw [hget] at hother
          cases hother
      have hrelated := relateTool_stable h htracked hplaced entity
      refine ⟨⟨fun other position heq hknown => ?_, fun _ _ heq => (by cases heq), hrelated.1⟩, ?_⟩
      · cases heq
        rw [hunknown] at hknown
        cases hknown
      · exact tracks_of_order hrelated.2 (by rw [relateTool_order])
  | remove id =>
    unfold applyFact
    simp only
    split
    · refine ⟨⟨fun _ _ heq => (by cases heq), fun _ _ heq => (by cases heq), trivial⟩, ?_⟩
      intro other position hknown
      show (state.order.erase id).get? other = _
      rw [InsMap.get?_erase]
      rcases eq_or_ne other id with rfl | hne
      · simp [trackPosition] at hknown
      · simp only [List.foldl_cons, List.foldl_nil, trackPosition, Function.update_of_ne hne]
          at hknown
        rw [if_neg hne, htracks other position hknown]
    · exact ⟨trivial, htracks⟩
  | contextNotice executionId | settleExecution executionId =>
    unfold applyFact
    simp only
    split
    · exact ⟨trivial, htracks⟩
    · next current hget =>
      split
      · split
        · exact ⟨trivial, htracks⟩
        · refine stable_upsert htracks _ ?_
          show state.order.get? current.id = some current.position
          rw [h.ids _ _ hget]
          exact order_of_entity h hget
      · exact ⟨trivial, htracks⟩

theorem applyFacts_stable (h : KeyedState state) (htracks : TracksState known state)
    (facts : List ConversationFact) :
    Stable known (applyFacts state facts).1 ∧
      TracksState ((applyFacts state facts).1.foldl trackPosition known)
        (applyFacts state facts).2 := by
  induction facts generalizing state known with
  | nil => exact ⟨trivial, htracks⟩
  | cons fact facts ih =>
    have hfact := applyFact_stable h htracks fact
    have hrest := ih (applyFact_keyed h fact) hfact.2
    refine ⟨stable_append.mpr ⟨hfact.1, hrest.1⟩, ?_⟩
    show TracksState (((applyFact state fact).1 ++ _).foldl trackPosition known) _
    rw [List.foldl_append]
    exact hrest.2

/-- Observations, as facts in turn, carry a client along the state and publish it in place. -/
theorem applyObservations_carries (collation : Collation) {normalizer : ConversationNormalizer}
    (h : KeyedState state)
    (htools : ToolIds normalizer) (htracks : TracksState known state)
    (observations : List Observation) :
    let applied := applyObservations state normalizer observations
    Carries collation applied.1 state.entities.get? applied.2.1.entities.get? ∧
      Stable known applied.1 ∧ TracksState (applied.1.foldl trackPosition known) applied.2.1 := by
  induction observations generalizing state normalizer known with
  | nil => exact ⟨carries_nil, trivial, htracks⟩
  | cons observation observations ih =>
    obtain ⟨hfacts, htools⟩ := normalize_toolFacts htools observation
    have hcarries : Carries collation _ _ _ := applyFacts_carries h hfacts
    have hstable := applyFacts_stable h htracks
      (normalizeConversationObservation normalizer observation).1
    have hrest := ih (applyFacts_keyed h _) htools hstable.2
    refine ⟨carries_append hcarries hrest.1, stable_append.mpr ⟨hstable.1, hrest.2.1⟩, ?_⟩
    show TracksState (((applyFacts state _).1 ++ _).foldl trackPosition known) _
    rw [List.foldl_append]
    exact hrest.2.2

/-! ## Page differences -/

/-- The removals drop exactly the ids that the next page does not hold. -/
theorem removals_carry (collation : Collation) (next : ConversationState)
    (published : EntityId → Option Entity) (ids : List EntityId) :
    Carries collation
      (ids.flatMap fun id => if next.order.has id then [] else [.orderRemove id, .remove id])
      published fun id => if id ∈ ids ∧ next.order.has id = false then none else published id := by
  induction ids generalizing published with
  | nil => simpa using carries_nil
  | cons id ids ih =>
    rw [List.flatMap_cons]
    by_cases hid : next.order.has id = true
    · rw [if_pos hid]
      refine carries_congr (ih published) fun other => ?_
      simp only [List.mem_cons]
      split
      · next hother => rw [if_pos ⟨.inr hother.1, hother.2⟩]
      · next hother =>
        rw [if_neg]
        rintro ⟨rfl | hmem, hhas⟩
        · rw [hid] at hhas
          cases hhas
        · exact hother ⟨hmem, hhas⟩
    · rw [if_neg hid]
      have hremove : Carries collation [.orderRemove id, .remove id] published
          (Function.update published id none) :=
        fun keyed hkeyed => (MirrorLemmas.mirrors_remove hkeyed).2
      refine carries_congr (carries_append hremove (ih _)) fun other => ?_
      simp only [List.mem_cons, Function.update_apply]
      rcases eq_or_ne other id with rfl | hne
      · simp [hid]
      · simp [hne]

/-- The changes for one entity publish it where the previous page is published. -/
theorem entityChanges_carries (collation : Collation) (hprevious : KeyedState previous) (hnext : KeyedState next)
    {id : EntityId} {entity : Entity} (hget : next.entities.get? id = some entity)
    (hsame : published id = previous.entities.get? id) :
    Carries collation (entityChanges previous next id entity) published
      (Function.update published id (some entity)) := by
  have hid : entity.id = id := hnext.ids _ _ hget
  have hplace : next.order.get? id = some entity.position := order_of_entity hnext hget
  subst hid
  unfold entityChanges
  simp only [hplace]
  cases hprior : previous.entities.get? entity.id with
  | none =>
    have hnone : previous.order.get? entity.id = none := by rw [hprevious.order, hprior]; rfl
    simp only [hnone]
    exact carries_insert (hsame.trans hprior)
  | some prior =>
    have hold : previous.order.get? entity.id = some prior.position :=
      order_of_entity hprevious hprior
    have hheld : published entity.id = some prior := hsame.trans hprior
    simp only [hold]
    by_cases heq : samePublishedEntity prior entity = true
    · -- nothing is published: the entities differ in cuts only, so they stand at one position
      have hsans : prior.sansCut = entity.sansCut := of_decide_eq_true heq
      have hpos : prior.position = entity.position := by
        rw [← Entity.sansCut_position prior, hsans, Entity.sansCut_position]
      rw [if_pos heq, hpos, if_pos Std.ReflCmp.compare_self]
      refine carries_congr carries_nil fun other => ?_
      rcases eq_or_ne other entity.id with rfl | hne
      · rw [hheld, Function.update_self, Option.map_some, Option.map_some, hsans]
      · rw [Function.update_of_ne hne]
    · rw [if_neg heq]
      by_cases hcompare : comparePositions prior.position entity.position = .eq
      · rw [if_pos hcompare]
        refine carries_update ?_
        rw [hheld, Option.map_some, Std.LawfulEqCmp.eq_of_compare hcompare]
      · rw [if_neg hcompare]
        exact carries_move entity

/-- The entities of the next page, published in turn over the pruned previous page. -/
theorem entries_carry (collation : Collation) (hprevious : KeyedState previous)
    (hnext : KeyedState next) (published : EntityId → Option Entity) {entries : List (EntityId × Entity)} (hnodup : (entries.map Prod.fst).Nodup)
    (hentries : ∀ id entity, (id, entity) ∈ entries → next.entities.get? id = some entity)
    (hsame : ∀ id, id ∈ entries.map Prod.fst → published id = previous.entities.get? id) :
    Carries collation (entries.flatMap fun (id, entity) => entityChanges previous next id entity)
      published fun id => (entries.lookup id).or (published id) := by
  induction entries generalizing published with
  | nil => exact carries_nil
  | cons entry entries ih =>
    obtain ⟨id, entity⟩ := entry
    obtain ⟨hnotin, hnodup⟩ := List.nodup_cons.mp hnodup
    have hentity := entityChanges_carries collation hprevious hnext
      (hentries id entity List.mem_cons_self) (hsame id List.mem_cons_self)
    have hrest := ih (Function.update published id (some entity)) hnodup
      (fun other value hother => hentries other value (List.mem_cons_of_mem _ hother))
      fun other hother => by
        have hne : other ≠ id := by
          rintro rfl
          exact hnotin hother
        rw [Function.update_of_ne hne]
        exact hsame other (List.mem_cons_of_mem _ hother)
    rw [List.flatMap_cons]
    refine carries_congr (carries_append hentity hrest) fun other => ?_
    rw [InsMap.lookup_cons_ite]
    rcases eq_or_ne other id with rfl | hne
    · have hnone : entries.lookup other = none := by
        rw [← Option.not_isSome_iff_eq_none, InsMap.lookup_isSome_iff]
        exact hnotin
      simp [hnone]
    · simp [hne]

/-- The changes from one page to the next carry a client from the one to the other. -/
theorem stateChanges_carries (hprevious : KeyedState previous) (hnext : KeyedState next) :
    Carries collation (stateChanges previous next) previous.entities.get? next.entities.get? := by
  have hremoved := removals_carry collation next previous.entities.get? previous.order.keys
  have hpresent : ∀ id entity, next.entities.get? id = some entity → next.order.has id = true :=
    fun id entity hget => InsMap.has_iff.mpr ⟨_, order_of_entity hnext hget⟩
  have hentries := entries_carry collation hprevious hnext
    (fun id => if id ∈ previous.order.keys ∧ next.order.has id = false then none
      else previous.entities.get? id)
    next.entities.nodup (fun id entity hmem => InsMap.mem_entries.mp hmem) fun id hmem => by
      obtain ⟨entity, hget⟩ := Option.isSome_iff_exists.mp (InsMap.mem_keys.mp hmem)
      rw [if_neg]
      rintro ⟨_, hhas⟩
      rw [hpresent id entity hget] at hhas
      cases hhas
  refine carries_congr (carries_append hremoved hentries) fun id => ?_
  show Option.map _ ((next.entities.get? id).or _) = _
  cases hget : next.entities.get? id with
  | some entity => rfl
  | none =>
    have hhas : next.order.has id = false := by
      rw [InsMap.has, hnext.order, hget]
      rfl
    rw [Option.none_or]
    split
    · rfl
    · next hkeys =>
      have hnone : previous.order.get? id = none := by
        rw [← Option.not_isSome_iff_eq_none, ← InsMap.mem_keys]
        exact fun hmem => hkeys ⟨hmem, hhas⟩
      rw [hprevious.order, Option.map_eq_none_iff] at hnone
      rw [hnone]

/-- A page difference publishes every entity at most once, at its place of the next page. -/
theorem entityChanges_stable (previous : ConversationState) {id : EntityId} {entity : Entity}
    (hid : entity.id = id)
    (hplace : next.order.get? id = some entity.position) (hunknown : known id = none)
    (htracks : TracksState known next) :
    Stable known (entityChanges previous next id entity) ∧
      (∀ other, other ≠ id →
        (entityChanges previous next id entity).foldl trackPosition known other = known other) ∧
      TracksState ((entityChanges previous next id entity).foldl trackPosition known) next := by
  subst hid
  have hupsert : ∀ (other : Entity) (position : Position), entity = other →
      known other.id = some position → position = other.position := by
    rintro _ position rfl hknown
    rw [hunknown] at hknown
    cases hknown
  have hothers : ∀ other, other ≠ entity.id →
      (entityChanges previous next entity.id entity).foldl trackPosition known other =
        known other := by
    intro other hne
    unfold entityChanges
    simp only
    repeat' split
    all_goals simp [trackPosition, hne]
  refine ⟨?_, hothers, fun other position hknown => ?_⟩
  · unfold entityChanges
    simp only
    repeat' split
    all_goals simp [Stable, trackPosition]
    all_goals exact hupsert
  · rcases eq_or_ne other entity.id with rfl | hne
    · rw [hplace]
      revert hknown
      unfold entityChanges
      simp only
      repeat' split
      all_goals simp [trackPosition, hunknown]
    · rw [hothers other hne] at hknown
      exact htracks other position hknown

theorem stateChanges_stable (previous : ConversationState) (hnext : KeyedState next) :
    Stable (fun _ => none) (stateChanges previous next) ∧
      TracksState ((stateChanges previous next).foldl trackPosition fun _ => none) next := by
  have hremovals : ∀ ids : List EntityId,
      let changes : List ConversationChange := ids.flatMap fun id =>
        if next.order.has id then [] else [.orderRemove id, .remove id]
      Stable (fun _ => none) changes ∧ changes.foldl trackPosition (fun _ => none) =
        fun _ => none := by
    intro ids
    induction ids with
    | nil => exact ⟨trivial, rfl⟩
    | cons id ids ih =>
      simp only [List.flatMap_cons, stable_append, List.foldl_append]
      split
      · exact ⟨⟨trivial, ih.1⟩, ih.2⟩
      · simp [Stable, trackPosition, ih.1, ih.2]
  have hentries : ∀ (entries : List (EntityId × Entity)) (known : EntityId → Option Position),
      (entries.map Prod.fst).Nodup → TracksState known next →
      (∀ id entity, (id, entity) ∈ entries →
        next.entities.get? id = some entity ∧ known id = none) →
      let changes := entries.flatMap fun (id, entity) => entityChanges previous next id entity
      Stable known changes ∧ TracksState (changes.foldl trackPosition known) next := by
    intro entries
    induction entries with
    | nil => exact fun _ _ htracks _ => ⟨trivial, htracks⟩
    | cons entry entries ih =>
      obtain ⟨id, entity⟩ := entry
      intro known hnodup htracks h
      obtain ⟨hnotin, hnodup⟩ := List.nodup_cons.mp hnodup
      obtain ⟨hget, hunknown⟩ := h id entity List.mem_cons_self
      obtain ⟨hentity, hkept, htracks⟩ := entityChanges_stable previous
        (hnext.ids _ _ hget) (order_of_entity hnext hget) hunknown htracks
      have hrest := ih _ hnodup htracks fun other value hother => by
        obtain ⟨hother', hknown⟩ := h other value (List.mem_cons_of_mem _ hother)
        have hne : other ≠ id := by
          rintro rfl
          exact hnotin (List.mem_map.mpr ⟨_, hother, rfl⟩)
        exact ⟨hother', by rw [hkept other hne, hknown]⟩
      simp only [List.flatMap_cons, stable_append, List.foldl_append]
      exact ⟨⟨hentity, hrest.1⟩, hrest.2⟩
  have hall := hentries next.entities.entries (fun _ => none) next.entities.nodup (tracks_none next)
    fun id entity hmem => ⟨InsMap.mem_entries.mp hmem, rfl⟩
  unfold stateChanges
  rw [stable_append, List.foldl_append, (hremovals previous.order.keys).2]
  exact ⟨⟨(hremovals previous.order.keys).1, hall.1⟩, hall.2⟩

/-! ## Snapshots -/

theorem compareEntries_isLE_trans (a b c : OrderEntry)
    (hab : (compareEntries collation a b).isLE) (hbc : (compareEntries collation b c).isLE) :
    (compareEntries collation a c).isLE := by
  unfold compareEntries at *
  rw [Ordering.isLE_then_iff_and] at *
  refine ⟨Std.TransCmp.isLE_trans hab.1 hbc.1, ?_⟩
  rcases hab.2 with hlt | hle
  · exact .inl (Std.TransCmp.lt_of_lt_of_isLE hlt hbc.1)
  · rcases hbc.2 with hlt | hle'
    · exact .inl (Std.TransCmp.lt_of_isLE_of_lt hab.1 hlt)
    · exact .inr (Std.TransCmp.isLE_trans hle hle')

theorem before_of_isLE {a b : OrderEntry} (hne : a.1 ≠ b.1)
    (h : (compareEntries collation a b).isLE) : Before collation a b := by
  unfold Before
  cases hc : compareEntries collation a b with
  | lt => rfl
  | gt =>
    rw [hc] at h
    cases h
  | eq =>
    rw [compareEntries, Ordering.then_eq_eq] at hc
    exact absurd (Std.LawfulEqCmp.eq_of_compare hc.2) hne

theorem compareEntries_total (a b : OrderEntry) :
    ((compareEntries collation a b).isLE || (compareEntries collation b a).isLE) = true := by
  rcases eq_or_ne a.1 b.1 with heq | hne
  · unfold compareEntries
    have hid : collation.localeCompare a.1 b.1 = .eq := by rw [heq]; exact Std.ReflCmp.compare_self
    have hid' : collation.localeCompare b.1 a.1 = .eq := by rw [heq]; exact Std.ReflCmp.compare_self
    have hswap : comparePositions a.2 b.2 = (comparePositions b.2 a.2).swap :=
      Std.OrientedCmp.eq_swap
    rw [hid, hid', Ordering.then_eq, Ordering.then_eq, hswap]
    cases comparePositions b.2 a.2 <;> rfl
  · by_cases hbefore : Before collation a b
    · rw [show compareEntries collation a b = .lt from hbefore]
      rfl
    · rw [show compareEntries collation b a = .lt from
        OrderLemmas.before_of_not_before hne hbefore, Bool.or_comm]
      rfl

/-- A snapshot mirrors the state it was taken from. -/
theorem snapshot_mirrors (h : KeyedState state) :
    Mirrors collation ⟨state.entities, snapshotOrder collation state⟩ state.entities.get? := by
  have hsorted : (state.order.entries.mergeSort fun left right =>
        (compareEntries collation left right).isLE).Pairwise fun left right =>
      (compareEntries collation left right).isLE = true :=
    List.pairwise_mergeSort compareEntries_isLE_trans compareEntries_total _
  have hperm := List.mergeSort_perm state.order.entries
    fun left right => (compareEntries collation left right).isLE
  have hheld : ∀ entry ∈ state.order.entries, ∃ entity,
      state.entities.get? entry.1 = some entity ∧ entity.position = entry.2 := by
    intro entry hentry
    have hget := InsMap.mem_entries.mp hentry
    rw [h.order, Option.map_eq_some_iff] at hget
    exact hget
  refine ⟨⟨h.ids, fun id => ?_, ?_⟩, fun _ => rfl⟩
  · show id ∈ (List.mergeSort _ _).map Prod.fst ↔ _
    rw [(hperm.map Prod.fst).mem_iff]
    show id ∈ state.order.keys ↔ _
    rw [InsMap.mem_keys, h.order, Option.isSome_map]
  · have hnodup : ((state.order.entries.mergeSort fun left right =>
        (compareEntries collation left right).isLE).map Prod.fst).Nodup :=
      (hperm.map Prod.fst).nodup_iff.mpr state.order.nodup
    show (List.map Prod.fst _).Pairwise _
    rw [List.pairwise_map]
    refine (hsorted.and (List.pairwise_map.mp hnodup)).imp_of_mem fun {a b} ha hb hab => ?_
    obtain ⟨first, hfirst, hfirstPos⟩ := hheld a (hperm.mem_iff.mp ha)
    obtain ⟨second, hsecond, hsecondPos⟩ := hheld b (hperm.mem_iff.mp hb)
    refine ⟨first, second, hfirst, hsecond, ?_⟩
    rw [hfirstPos, hsecondPos]
    exact before_of_isLE hab.2 hab.1

/-- A client that mirrors a state holds the order of the state's snapshot. -/
theorem snapshotOrder_of_mirrors (h : KeyedState state) {keyed : KeyedConversation}
    (hkeyed : Mirrors collation keyed state.entities.get?) :
    keyed.order = snapshotOrder collation state :=
  MirrorLemmas.mirrors_order_unique hkeyed (snapshot_mirrors h)

end ChangeLemmas

end Henji
