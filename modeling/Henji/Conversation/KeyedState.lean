import Henji.Conversation.Normalizer

/-!
# The keyed state of a conversation

`KeyedState state` says that every entity stands under its own id and that the order map holds
exactly the positions of the entities. `ToolIds normalizer` says that the tool indexes of the
normalizer name tool entities only, so that a fact with a tool body never names a message.

Results:
1. `applyFacts_keyed`: facts keep the state keyed.
2. `normalize_toolFacts`: the facts of an observation are tool facts under `ToolIds`, which every
   observation keeps.
-/

namespace Henji

/-- Every entity stands under its id, and the order map holds the entities' positions. -/
structure KeyedState (state : ConversationState) : Prop where
  ids : ∀ id entity, state.entities.get? id = some entity → entity.id = id
  order : ∀ id, state.order.get? id = (state.entities.get? id).map (·.position)

/-- The id of a declared or started tool call. -/
def EntityId.isTool : EntityId → Bool
  | .declaredTool _ _ | .tool _ => true
  | _ => false

/-- A fact whose entity has a tool body names a tool. -/
def ConversationFact.NamesTool : ConversationFact → Prop
  | .upsert entity => ∀ tool, entity.body = .tool tool → entity.id.isTool = true
  | _ => True

/-- All values listed in the index satisfy `p`. -/
def Lists {κ α : Type} [DecidableEq κ] (p : α → Prop) (index : InsMap κ (List α)) : Prop :=
  ∀ key values, index.get? key = some values → ∀ value ∈ values, p value

structure ToolIds (normalizer : ConversationNormalizer) : Prop where
  openRequestCall : Lists (·.isTool = true) normalizer.openToolsByRequestCall
  openLogicalCall : Lists (·.isTool = true) normalizer.openToolsByLogicalCall
  openRequestIndex : Lists (·.isTool = true) normalizer.openToolsByRequestIndex
  openLogicalIndex : Lists (·.isTool = true) normalizer.openToolsByLogicalIndex
  declaredRequestCall : Lists (·.id.isTool = true) normalizer.declaredToolsByRequestCall
  declaredLogicalCall : Lists (·.id.isTool = true) normalizer.declaredToolsByLogicalCall
  declaredRequestIndex : Lists (·.id.isTool = true) normalizer.declaredToolsByRequestIndex
  declaredLogicalIndex : Lists (·.id.isTool = true) normalizer.declaredToolsByLogicalIndex

namespace KeyedStateLemmas

/-! ## The state -/

variable {state : ConversationState}

theorem keyed_createConversationState (sessionId : SessionId) :
    KeyedState (createConversationState sessionId) :=
  ⟨fun _ _ h => absurd h (by simp [createConversationState]), fun _ => rfl⟩

/-- Writing an entity at its present position. -/
theorem keyed_setEntity (h : KeyedState state) {id : EntityId} {entity : Entity}
    (hid : entity.id = id) (hpos : state.order.get? id = some entity.position) :
    KeyedState { state with entities := state.entities.set id entity } := by
  refine ⟨fun other candidate hget => ?_, fun other => ?_⟩
  · rw [InsMap.get?_set] at hget
    split at hget
    · next heq =>
      cases hget
      exact hid.trans heq.symm
    · exact h.ids other candidate hget
  · rw [InsMap.get?_set]
    split
    · next heq =>
      rw [heq]
      exact hpos
    · exact h.order other

theorem keyed_relations (h : KeyedState state)
    (toolsByRequest : InsMap RequestKey (List EntityId)) :
    KeyedState { state with toolsByRequest } := ⟨h.ids, h.order⟩

theorem order_of_entity (h : KeyedState state) {id : EntityId} {entity : Entity}
    (hget : state.entities.get? id = some entity) :
    state.order.get? id = some entity.position := by
  rw [h.order, hget]
  rfl

/-- Rewriting a present entity under its id and position. -/
theorem keyed_rewrite (h : KeyedState state) {id : EntityId} {current entity : Entity}
    (hget : state.entities.get? id = some current) (hid : entity.id = current.id)
    (hpos : entity.position = current.position) :
    KeyedState { state with entities := state.entities.set id entity } :=
  keyed_setEntity h (hid.trans (h.ids id current hget)) (by rw [hpos, order_of_entity h hget])

/-- What relating a tool does: it may rewrite the body of the assistant message of the request. -/
theorem relateTool_cases (state : ConversationState) (entity : Entity) :
    (∃ toolsByRequest, relateTool state entity = (none, { state with toolsByRequest })) ∨
    ∃ tool assistant body toolsByRequest, entity.body = .tool tool ∧
      state.entities.get? (.assistant tool.requestKey) = some assistant ∧
      relateTool state entity = (some { assistant with body }, { state with
        toolsByRequest
        entities := state.entities.set (.assistant tool.requestKey) { assistant with body } }) := by
  unfold relateTool
  split
  · next tool hbody =>
    simp only
    split
    · exact .inl ⟨_, rfl⟩
    · next assistant hget =>
      split
      · next message _ =>
        split
        · exact .inl ⟨_, rfl⟩
        · split
          · exact .inl ⟨_, rfl⟩
          · next message _ => exact .inr ⟨tool, assistant, .message message, _, hbody, hget, rfl⟩
      · exact .inl ⟨_, rfl⟩
  · exact .inl ⟨state.toolsByRequest, rfl⟩

@[simp] theorem relateTool_order (state : ConversationState) (entity : Entity) :
    (relateTool state entity).2.order = state.order := by
  rcases relateTool_cases state entity with ⟨_, h⟩ | ⟨_, _, _, _, _, _, h⟩ <;> rw [h]

@[simp] theorem relateTool_sessionId (state : ConversationState) (entity : Entity) :
    (relateTool state entity).2.sessionId = state.sessionId := by
  rcases relateTool_cases state entity with ⟨_, h⟩ | ⟨_, _, _, _, _, _, h⟩ <;> rw [h]

theorem keyed_relateTool (h : KeyedState state) (entity : Entity) :
    KeyedState (relateTool state entity).2 := by
  rcases relateTool_cases state entity with ⟨_, hr⟩ | ⟨tool, assistant, body, tools, _, hget, hr⟩
  · rw [hr]
    exact keyed_relations h _
  · rw [hr]
    have hset : KeyedState { state with
        entities := state.entities.set (.assistant tool.requestKey) { assistant with body } } :=
      keyed_rewrite h hget rfl rfl
    exact keyed_relations hset tools

@[simp] theorem proposedEntity_id (state : ConversationState) (proposed : Entity) :
    (proposedEntity state proposed).id = proposed.id := by
  unfold proposedEntity withToolRelations
  repeat' split
  all_goals rfl

theorem proposedEntity_isTool {proposed : Entity} {tool : ToolBody}
    (h : (proposedEntity state proposed).body = .tool tool) :
    ∃ tool, proposed.body = .tool tool := by
  cases hbody : proposed.body with
  | tool tool => exact ⟨tool, rfl⟩
  | message message =>
    unfold proposedEntity withToolRelations at h
    simp only [hbody] at h
    repeat' split at h
    all_goals simp_all
  | _ =>
    unfold proposedEntity withToolRelations at h
    simp [hbody] at h

theorem keyed_applyUpsert (h : KeyedState state) (proposed : Entity) :
    KeyedState (applyUpsert state proposed).2 := by
  unfold applyUpsert
  simp only
  split
  · next current hget =>
    split
    · exact h
    · have hpos := order_of_entity h hget
      refine keyed_setEntity (keyed_relateTool h _) rfl ?_
      rw [relateTool_order]
      exact hpos
  · next hget =>
    refine ⟨fun id entity hentity => ?_, fun id => ?_⟩
    · have hk := keyed_relateTool h (proposedEntity state proposed)
      rw [InsMap.get?_set] at hentity
      split at hentity
      · next heq =>
        cases hentity
        exact heq.symm
      · exact hk.ids id entity hentity
    · have hk := keyed_relateTool h (proposedEntity state proposed)
      show ((relateTool state (proposedEntity state proposed)).2.order.set _ _).get? id = _
      rw [InsMap.get?_set, InsMap.get?_set]
      split
      · rfl
      · exact hk.order id

/-- One fact keeps the state keyed. -/
theorem applyFact_keyed (h : KeyedState state) (fact : ConversationFact) :
    KeyedState (applyFact state fact).2 := by
  cases fact with
  | upsert proposed => exact keyed_applyUpsert h proposed
  | remove id =>
    unfold applyFact
    simp only
    split
    · refine ⟨fun a entity hget => ?_, fun a => ?_⟩
      · rw [InsMap.get?_erase] at hget
        split at hget
        · cases hget
        · exact h.ids a entity hget
      · rw [InsMap.get?_erase, InsMap.get?_erase]
        split
        · rfl
        · exact h.order a
    · exact h
  | contextNotice executionId eventOrdinal notice text =>
    unfold applyFact
    simp only
    split
    · exact h
    · next current hget =>
      split
      · split
        · exact h
        · exact keyed_rewrite h hget rfl rfl
      · exact h
  | settleExecution =>
    unfold applyFact
    simp only
    split
    · exact h
    · next current hget =>
      split
      · split
        · exact h
        · exact keyed_rewrite h hget rfl rfl
      · exact h

theorem applyFact_sessionId (state : ConversationState) (fact : ConversationFact) :
    (applyFact state fact).2.sessionId = state.sessionId := by
  unfold applyFact applyUpsert
  simp only
  repeat' split
  all_goals simp

theorem applyFacts_sessionId (state : ConversationState) (facts : List ConversationFact) :
    (applyFacts state facts).2.sessionId = state.sessionId := by
  induction facts generalizing state with
  | nil => rfl
  | cons fact facts ih => exact (ih _).trans (applyFact_sessionId state fact)

theorem applyFacts_keyed (h : KeyedState state) (facts : List ConversationFact) :
    KeyedState (applyFacts state facts).2 := by
  induction facts generalizing state with
  | nil => exact h
  | cons fact facts ih => exact ih (applyFact_keyed h fact)

/-! ## The tool indexes -/

section Lists

variable {κ α : Type} [DecidableEq κ] {p : α → Prop}

theorem lists_empty : Lists p (InsMap.empty : InsMap κ (List α)) :=
  fun _ _ h => absurd h (by simp)

theorem lists_set {index : InsMap κ (List α)} (h : Lists p index) {key : κ} {values : List α}
    (hv : ∀ value ∈ values, p value) : Lists p (index.set key values) := by
  intro other found hget
  rw [InsMap.get?_set] at hget
  split at hget
  · cases hget
    exact hv
  · exact h other found hget

theorem lists_pushAt {index : InsMap κ (List α)} (h : Lists p index) {key : κ} {value : α}
    (hv : p value) : Lists p (pushAt index key value) := by
  refine lists_set h fun other hother => ?_
  rcases List.mem_append.mp hother with hother | hother
  · cases hget : index.get? key with
    | none => simp [hget] at hother
    | some values =>
      rw [hget] at hother
      exact h key values hget other hother
  · rw [List.mem_singleton.mp hother]
    exact hv

theorem lists_lastAt {index : InsMap κ (List α)} (h : Lists p index) {key : κ} {value : α}
    (hlast : lastAt index key = some value) : p value := by
  obtain ⟨values, hget, hvalue⟩ := Option.bind_eq_some_iff.mp hlast
  exact h key values hget value (List.mem_of_getLast? hvalue)

theorem lists_removeLast {p : EntityId → Prop} {index : InsMap κ (List EntityId)}
    (h : Lists p index) (key : κ) (value : EntityId) : Lists p (removeLast index key value) := by
  unfold removeLast
  split
  · exact h
  · next values hget =>
    refine lists_set h fun other hother => h key values hget other ?_
    exact List.mem_reverse.mp (List.mem_of_mem_erase (List.mem_reverse.mp hother))

theorem lists_removeDeclaration {p : DeclaredToolReference → Prop}
    {index : InsMap κ (List DeclaredToolReference)} (h : Lists p index) (key : κ) (id : EntityId) :
    Lists p (removeDeclaration index key id) := by
  unfold removeDeclaration
  split
  · exact h
  · next values hget =>
    exact lists_set h fun other hother => h key values hget other (List.mem_of_mem_eraseP hother)

theorem lists_takeDeclaration {p : DeclaredToolReference → Prop}
    {index : InsMap κ (List DeclaredToolReference)} (h : Lists p index) (key : κ) :
    Lists p (takeDeclaration index key).2 ∧
      ∀ declaration, (takeDeclaration index key).1 = some declaration → p declaration := by
  unfold takeDeclaration
  split
  · next declaration rest hget =>
    refine ⟨lists_set h fun other hother => ?_, fun other hother => ?_⟩
    · exact h key _ hget other (List.mem_cons_of_mem _ hother)
    · cases hother
      exact h key _ hget declaration List.mem_cons_self
  · exact ⟨h, fun _ hnone => by cases hnone⟩

end Lists

variable {normalizer : ConversationNormalizer}

theorem toolIds_createConversationNormalizer : ToolIds createConversationNormalizer :=
  ⟨lists_empty, lists_empty, lists_empty, lists_empty, lists_empty, lists_empty, lists_empty,
    lists_empty⟩

theorem toolIds_declareTool (h : ToolIds normalizer) {declaration : DeclaredToolReference}
    (hid : declaration.id.isTool = true) : ToolIds (declareTool normalizer declaration) where
  openRequestCall := h.openRequestCall
  openLogicalCall := h.openLogicalCall
  openRequestIndex := h.openRequestIndex
  openLogicalIndex := h.openLogicalIndex
  declaredRequestCall := lists_pushAt h.declaredRequestCall hid
  declaredLogicalCall := lists_pushAt h.declaredLogicalCall hid
  declaredRequestIndex := lists_pushAt h.declaredRequestIndex hid
  declaredLogicalIndex := lists_pushAt h.declaredLogicalIndex hid

theorem toolIds_removeDeclaredTool (h : ToolIds normalizer)
    (declaration : DeclaredToolReference) : ToolIds (removeDeclaredTool normalizer declaration) where
  openRequestCall := h.openRequestCall
  openLogicalCall := h.openLogicalCall
  openRequestIndex := h.openRequestIndex
  openLogicalIndex := h.openLogicalIndex
  declaredRequestCall := lists_removeDeclaration h.declaredRequestCall _ _
  declaredLogicalCall := lists_removeDeclaration h.declaredLogicalCall _ _
  declaredRequestIndex := lists_removeDeclaration h.declaredRequestIndex _ _
  declaredLogicalIndex := lists_removeDeclaration h.declaredLogicalIndex _ _

theorem toolIds_takeDeclaredTool (h : ToolIds normalizer) (key : RequestKey) (callId : String)
    (callIndex : Option Nat) :
    ToolIds (takeDeclaredTool normalizer key callId callIndex).2 ∧
      ∀ declaration, (takeDeclaredTool normalizer key callId callIndex).1 = some declaration →
        declaration.id.isTool = true := by
  obtain ⟨h₁, h₂, h₃, h₄, h₅, h₆, h₇, h₈⟩ := h
  unfold takeDeclaredTool
  split
  · have hcall := lists_takeDeclaration h₅ ⟨key, callId⟩
    split
    · next declaration index heq =>
      rw [heq] at hcall
      exact ⟨⟨h₁, h₂, h₃, h₄, hcall.1, h₆, h₇, h₈⟩, hcall.2⟩
    · have hlogical := lists_takeDeclaration h₆ (logicalCallIdentity key callId)
      exact ⟨⟨h₁, h₂, h₃, h₄, h₅, hlogical.1, h₇, h₈⟩, hlogical.2⟩
  · next callIndex =>
    have hindex := lists_takeDeclaration h₇ ⟨key, callIndex⟩
    split
    · next declaration index heq =>
      rw [heq] at hindex
      exact ⟨⟨h₁, h₂, h₃, h₄, h₅, h₆, hindex.1, h₈⟩, hindex.2⟩
    · have hlogical := lists_takeDeclaration h₈
        (requestLogicalIndexIdentity key callId callIndex)
      exact ⟨⟨h₁, h₂, h₃, h₄, h₅, h₆, h₇, hlogical.1⟩, hlogical.2⟩

theorem toolIds_openTool (h : ToolIds normalizer) {id : EntityId} (hid : id.isTool = true)
    (origin : ToolOrigin) : ToolIds (openTool normalizer id origin) := by
  obtain ⟨h₁, h₂, h₃, h₄, h₅, h₆, h₇, h₈⟩ := h
  unfold openTool
  simp only
  split
  · exact ⟨lists_pushAt h₁ hid, lists_pushAt h₂ hid, h₃, h₄, h₅, h₆, h₇, h₈⟩
  · exact ⟨lists_pushAt h₁ hid, lists_pushAt h₂ hid, lists_pushAt h₃ hid, lists_pushAt h₄ hid, h₅,
      h₆, h₇, h₈⟩

theorem toolIds_closeTool (h : ToolIds normalizer) (id : EntityId) (origin : ToolOrigin) :
    ToolIds (closeTool normalizer id origin) := by
  obtain ⟨h₁, h₂, h₃, h₄, h₅, h₆, h₇, h₈⟩ := h
  unfold closeTool
  simp only
  split
  · exact ⟨lists_removeLast h₁ _ _, lists_removeLast h₂ _ _, h₃, h₄, h₅, h₆, h₇, h₈⟩
  · exact ⟨lists_removeLast h₁ _ _, lists_removeLast h₂ _ _, lists_removeLast h₃ _ _,
      lists_removeLast h₄ _ _, h₅, h₆, h₇, h₈⟩

/-- A call that is resolved to an open tool names a tool entity. -/
theorem resolveTool_isTool (h : ToolIds normalizer) {request : RequestKey} {callId : String}
    {callIndex : Option Nat} {id : EntityId}
    (hid : resolveTool normalizer request callId callIndex = some id) : id.isTool = true := by
  unfold resolveTool at hid
  split at hid <;> rcases Option.or_eq_some_iff.mp hid with hid | ⟨_, hid⟩
  · exact lists_lastAt h.openRequestCall hid
  · exact lists_lastAt h.openLogicalCall hid
  · exact lists_lastAt h.openRequestIndex hid
  · exact lists_lastAt h.openLogicalIndex hid

/-- Maps of the normalizer that are not tool indexes may change freely. -/
theorem toolIds_of_indexes {other : ConversationNormalizer} (h : ToolIds normalizer)
    (h₁ : other.openToolsByRequestCall = normalizer.openToolsByRequestCall)
    (h₂ : other.openToolsByLogicalCall = normalizer.openToolsByLogicalCall)
    (h₃ : other.openToolsByRequestIndex = normalizer.openToolsByRequestIndex)
    (h₄ : other.openToolsByLogicalIndex = normalizer.openToolsByLogicalIndex)
    (h₅ : other.declaredToolsByRequestCall = normalizer.declaredToolsByRequestCall)
    (h₆ : other.declaredToolsByLogicalCall = normalizer.declaredToolsByLogicalCall)
    (h₇ : other.declaredToolsByRequestIndex = normalizer.declaredToolsByRequestIndex)
    (h₈ : other.declaredToolsByLogicalIndex = normalizer.declaredToolsByLogicalIndex) :
    ToolIds other := by
  obtain ⟨k₁, k₂, k₃, k₄, k₅, k₆, k₇, k₈⟩ := h
  exact ⟨h₁ ▸ k₁, h₂ ▸ k₂, h₃ ▸ k₃, h₄ ▸ k₄, h₅ ▸ k₅, h₆ ▸ k₆, h₇ ▸ k₇, h₈ ▸ k₈⟩

theorem toolIds_declareCalls (h : ToolIds normalizer) (executionId : ExecutionId)
    (turn eventOrdinal : Nat) (key : RequestKey) (occurrence : RecordId) (index : Nat)
    (calls : List DeclaredCall) :
    let declared := declareCalls executionId turn eventOrdinal key occurrence index calls normalizer
    (∀ fact ∈ declared.1, fact.NamesTool) ∧ ToolIds declared.2 := by
  induction calls generalizing index normalizer with
  | nil => exact ⟨fun fact hfact => (by cases hfact), h⟩
  | cons call calls ih =>
    have hcall : ToolIds (declareCall normalizer executionId turn eventOrdinal key occurrence
        index call).2 :=
      toolIds_of_indexes (toolIds_declareTool h rfl) rfl rfl rfl rfl rfl rfl rfl rfl
    obtain ⟨hfacts, hids⟩ := ih hcall (index + 1)
    refine ⟨fun fact hfact => ?_, hids⟩
    rcases List.mem_cons.mp hfact with rfl | hfact
    · exact fun _ _ => rfl
    · exact hfacts fact hfact

theorem mapTool_id (f : ToolBody → ToolBody) (entity : Entity) :
    (entity.mapTool f).id = entity.id := by
  unfold Entity.mapTool
  split <;> rfl

/-- The facts of an observation name tools where they carry tool bodies. -/
theorem normalize_toolFacts (h : ToolIds normalizer) (observation : Observation) :
    (∀ fact ∈ (normalizeConversationObservation normalizer observation).1, fact.NamesTool) ∧
      ToolIds (normalizeConversationObservation normalizer observation).2 := by
  cases observation with
  | execution =>
    refine ⟨fun fact hfact => ?_, toolIds_of_indexes h rfl rfl rfl rfl rfl rfl rfl rfl⟩
    simp only [normalizeConversationObservation, List.mem_cons, List.not_mem_nil, or_false] at hfact
    rcases hfact with rfl | rfl <;> exact fun _ htool => by cases htool
  | requestStart =>
    refine ⟨fun fact hfact => ?_, toolIds_of_indexes h rfl rfl rfl rfl rfl rfl rfl rfl⟩
    rw [List.mem_singleton.mp hfact]
    exact fun _ htool => by cases htool
  | assistantProgress | thinking | steeringOperation | steeringApplied =>
    refine ⟨fun fact hfact => ?_, h⟩
    rw [List.mem_singleton.mp hfact]
    exact fun _ htool => by cases htool
  | executionSettled | contextNotice =>
    refine ⟨fun fact hfact => ?_, h⟩
    rw [List.mem_singleton.mp hfact]
    trivial
  | modelResult executionId turn eventOrdinal firstEventOrdinal request text occurrence details
      declaredCalls =>
    unfold normalizeConversationObservation
    simp only
    cases occurrence with
    | none =>
      refine ⟨fun fact hfact => ?_, h⟩
      rw [List.mem_singleton.mp hfact]
      cases text with
      | none => trivial
      | some text => exact fun _ htool => by cases htool
    | some occurrence =>
      obtain ⟨hfacts, hids⟩ := toolIds_declareCalls h executionId turn eventOrdinal
        (resolveRequest normalizer executionId request false) occurrence 0 (declaredCalls.getD [])
      refine ⟨fun fact hfact => ?_, hids⟩
      rcases List.mem_cons.mp hfact with hfact | hfact
      · rw [hfact]
        cases text with
        | none => trivial
        | some text => exact fun _ htool => by cases htool
      · exact hfacts fact hfact
  | toolCall executionId turn eventOrdinal occurrence callIndex request callId name arguments
      details =>
    unfold normalizeConversationObservation
    simp only
    generalize resolveRequest normalizer executionId request false = key
    obtain ⟨htaken, hdeclared⟩ := toolIds_takeDeclaredTool h key callId callIndex
    cases hd : (takeDeclaredTool normalizer key callId callIndex).1 with
    | none =>
      refine ⟨fun fact hfact => ?_, toolIds_openTool ?_ rfl _⟩
      · rw [List.mem_singleton.mp hfact]
        intro _ _
        rw [mapTool_id]
        rfl
      · exact toolIds_of_indexes htaken rfl rfl rfl rfl rfl rfl rfl rfl
    | some declaration =>
      have hid := hdeclared declaration hd
      refine ⟨fun fact hfact => ?_, toolIds_openTool ?_ hid _⟩
      · rw [List.mem_singleton.mp hfact]
        intro _ _
        rw [mapTool_id]
        exact hid
      · exact toolIds_of_indexes (toolIds_removeDeclaredTool htaken declaration) rfl rfl rfl rfl rfl
          rfl rfl rfl
  | toolProgress executionId turn eventOrdinal request callIndex callId text =>
    unfold normalizeConversationObservation
    simp only
    split
    · exact ⟨fun fact hfact => (by cases hfact), h⟩
    · next id hid =>
      refine ⟨fun fact hfact => ?_, h⟩
      rw [List.mem_singleton.mp hfact]
      intro _ _
      rw [mapTool_id]
      exact resolveTool_isTool h hid
  | toolResult executionId turn eventOrdinal request callIndex callId name result details =>
    unfold normalizeConversationObservation
    simp only
    split
    · exact ⟨fun fact hfact => (by cases hfact), h⟩
    · next id hid =>
      refine ⟨fun fact hfact => ?_, toolIds_closeTool h _ _⟩
      rw [List.mem_singleton.mp hfact]
      intro _ _
      rw [mapTool_id]
      exact resolveTool_isTool h hid

end KeyedStateLemmas

end Henji
