import Henji.Provider.StreamAssembly
import Mathlib.Data.List.Dedup

/-!
# What a streamed response is assembled to

The reference response of a stream groups its deltas: the content of all of them, and for each index
the fragments of its tool call.

Results:
1. `accepted_tool`, `accepted_choice`: what an accepted fragment and an accepted frame add.
2. `stream_assembles`: the response of an accepted stream is the reference response, progress grows
   along its text, and a frame that breaks the rules is refused.
3. `finish_repeated`: the usage frame may repeat the finish.
-/

namespace Henji

/-! ## The reference -/

def fragmentIndex (fragment : Json) : Option Nat := safeIndex (fragment.field? "index")

def fragmentId (fragment : Json) : Option JsText := fragment.textField? "id"

def fragmentName (fragment : Json) : Option JsText :=
  (fragment.field? "function").bind (Json.textField? "name")

def fragmentArguments (fragment : Json) : JsText :=
  ((fragment.field? "function").bind (Json.textField? "arguments")).getD []

/-- The fragments of one tool call. -/
def groupOf (fragments : List Json) (index : Nat) : List Json :=
  fragments.filter fun fragment => fragmentIndex fragment == some index

def referenceIndexes (fragments : List Json) : List Nat :=
  (fragments.filterMap fragmentIndex).dedup.insertionSort (· ≤ ·)

/-- The tool call of an index: the id and the name that were given, and all its arguments. -/
def referenceCall (parse : JsText → Option Json) (fragments : List Json) (index : Nat) :
    Option StreamToolCall :=
  let group := groupOf fragments index
  match group.findSome? fragmentId, group.findSome? fragmentName,
    parse (group.flatMap fragmentArguments) with
  | some callId, some name, some arguments => some ⟨callId, name, arguments⟩
  | _, _, _ => none

def deltaDetails (delta : Json) : List Json := arrayItems (delta.field? "reasoning_details")

def referenceState (options : StreamOptions) (deltas : List Json) :
    Option OpenRouterProviderState :=
  let details := deltas.flatMap deltaDetails
  let parts := deltas.filterMap plainReasoning
  if details.isEmpty && parts.isEmpty then none
  else some {
    provider := options.providerId
    model := options.modelId
    reasoning := parts.head?.map fun first => (first.1, (parts.map Prod.snd).flatten)
    reasoningDetails := if details.isEmpty then none else some details }

def referenceText (deltas : List Json) : JsText := deltas.flatMap deltaContent

def referenceFragments (deltas : List Json) : List Json := deltas.flatMap deltaToolCalls

/-- The response that the deltas of a stream amount to. -/
def referenceResult (options : StreamOptions) (reason : FinishReason) (deltas : List Json) :
    Option StreamResult :=
  let text := referenceText deltas
  match reason with
  | .stop => some (.final text (referenceState options deltas))
  | .toolCalls =>
    ((referenceIndexes (referenceFragments deltas)).mapM
      (referenceCall options.parse (referenceFragments deltas))).map fun calls =>
        .toolCalls calls (if text.isEmpty then none else some text) (referenceState options deltas)

/-! ## Tool calls -/

namespace StreamAssembly

variable {assembly : StreamAssembly} {fragments : List Json}

/-- The fragments of a call put together. -/
def groupTool (group : List Json) : StreamToolAssembly where
  id := group.findSome? fragmentId
  typed := group.any fun fragment => fragment.field? "type" == some (.str (js "function"))
  name := group.findSome? fragmentName
  arguments := group.flatMap fragmentArguments

/-- The tools are the groups of the fragments. -/
structure Grouped (tools : InsMap Nat StreamToolAssembly) (fragments : List Json) : Prop where
  present : ∀ index, (tools.get? index).isSome = true ↔
    ∃ fragment ∈ fragments, fragmentIndex fragment = some index
  tool : ∀ index tool, tools.get? index = some tool → tool = groupTool (groupOf fragments index)

/-- No two fragments of a call give different ids or names. -/
structure SingleGiven (fragments : List Json) : Prop where
  id : ∀ index, ∀ fragment ∈ groupOf fragments index, ∀ id, fragmentId fragment = some id →
    (groupOf fragments index).findSome? fragmentId = some id
  name : ∀ index, ∀ fragment ∈ groupOf fragments index, ∀ name, fragmentName fragment = some name →
    (groupOf fragments index).findSome? fragmentName = some name

end StreamAssembly

/-- What one fragment does to the assembly of its call. -/
def mergeFragment (fragment : Json) (target : StreamToolAssembly) : StreamToolAssembly where
  id := target.id.or (fragmentId fragment)
  typed := target.typed || fragment.field? "type" == some (.str (js "function"))
  name := target.name.or (fragmentName fragment)
  arguments := target.arguments ++ fragmentArguments fragment

/-- The id and the name of the fragment are those of the call, if it has them. -/
def Fits (fragment : Json) (target : StreamToolAssembly) : Prop :=
  (∀ id, fragmentId fragment = some id → target.id.or (some id) = some id) ∧
    ∀ name, fragmentName fragment = some name → target.name.or (some name) = some name

section Accepted

variable {options : StreamOptions} {state after : StreamState} {fragment : Json} {index : Nat}

def withTool (state : StreamState) (index : Nat) (target : StreamToolAssembly) : StreamState :=
  { state with
    assembly := { state.assembly with tools := state.assembly.tools.set index target } }

@[simp] theorem tool_withTool (state : StreamState) (index : Nat) (target : StreamToolAssembly) :
    (withTool state index target).assembly.tool index = target := by
  unfold withTool StreamAssembly.tool
  dsimp only
  rw [InsMap.get?_set_self]
  rfl

@[simp] theorem withTool_withTool (state : StreamState) (index : Nat)
    (target target' : StreamToolAssembly) :
    withTool (withTool state index target) index target' = withTool state index target' := by
  unfold withTool
  dsimp only
  rw [InsMap.set_set_self]

theorem run_setTool (index : Nat) (f : StreamToolAssembly → StreamToolAssembly)
    (state : StreamState) : Effect.run (setTool index f) state =
      (.ok (), withTool state index (f (state.assembly.tool index))) := rfl

def textOf : Option Json → Option JsText
  | some (.str text) => some text
  | _ => none

theorem textOf_of_null {value : Option Json} (h : jsonNull value = true) : textOf value = none := by
  cases value with
  | none => rfl
  | some value => cases value <;> first | rfl | cases h

theorem textOf_of_nonBlank {value : Option Json} {text : JsText}
    (h : nonBlankText value = some text) : textOf value = some text := by
  cases value with
  | none => cases h
  | some value =>
    cases value with
    | str other =>
      unfold nonBlankText at h
      dsimp only at h
      split at h
      · cases h
      · exact h
    | _ => cases h

theorem or_of_not_any {known : Option JsText} {text : JsText}
    (h : ¬ known.any (fun other => decide (other ≠ text)) = true) :
    known.or (some text) = some text := by
  cases known with
  | none => rfl
  | some other =>
    rw [Option.any_some, decide_eq_true_iff, not_not] at h
    rw [h]
    rfl

theorem accepted_toolText {target : StreamToolAssembly} {invalid : String}
    {known : StreamToolAssembly → Option JsText}
    {give : JsText → StreamToolAssembly → StreamToolAssembly} {value : Option Json}
    (h : Effect.run (updateToolText invalid known give index value) (withTool state index target) =
      (.ok (), after)) :
    (textOf value = none ∧ after = withTool state index target) ∨
      ∃ text, textOf value = some text ∧ (known target).or (some text) = some text ∧
        after = withTool state index (give text target) := by
  unfold updateToolText at h
  split at h
  · next hnull => exact .inl ⟨textOf_of_null hnull, (Effect.of_run_pure h).2⟩
  split at h
  · exact Effect.of_run_throw h
  · next text htext =>
    rw [Effect.run_bind_ok (Effect.run_get _), tool_withTool] at h
    split at h
    · exact Effect.of_run_throw h
    · next hfits =>
      rw [run_setTool, tool_withTool, withTool_withTool] at h
      cases h
      exact .inr ⟨text, textOf_of_nonBlank htext, or_of_not_any hfits, rfl⟩

theorem accepted_toolId {target : StreamToolAssembly} {id : Option Json}
    (h : Effect.run (updateToolId index id) (withTool state index target) = (.ok (), after)) :
    after = withTool state index { target with id := target.id.or (textOf id) } ∧
      ∀ text, textOf id = some text → target.id.or (some text) = some text := by
  obtain ⟨htext, rfl⟩ | ⟨text, htext, hor, rfl⟩ := accepted_toolText h
  · rw [htext, Option.or_none]
    exact ⟨rfl, fun _ hnone => by cases hnone⟩
  · rw [htext, hor]
    exact ⟨rfl, fun other hother => Option.some.inj hother ▸ hor⟩

theorem accepted_toolName {target : StreamToolAssembly} {name : Option Json}
    (h : Effect.run (updateToolName index name) (withTool state index target) = (.ok (), after)) :
    after = withTool state index { target with name := target.name.or (textOf name) } ∧
      ∀ text, textOf name = some text → target.name.or (some text) = some text := by
  obtain ⟨htext, rfl⟩ | ⟨text, htext, hor, rfl⟩ := accepted_toolText h
  · rw [htext, Option.or_none]
    exact ⟨rfl, fun _ hnone => by cases hnone⟩
  · rw [htext, hor]
    exact ⟨rfl, fun other hother => Option.some.inj hother ▸ hor⟩

theorem accepted_toolType {target : StreamToolAssembly} {type : Option Json}
    (h : Effect.run (updateToolType index type) (withTool state index target) = (.ok (), after)) :
    after = withTool state index
      { target with typed := target.typed || type == some (.str (js "function")) } := by
  unfold updateToolType at h
  split at h
  · next hnull =>
    have hnot : (type == some (.str (js "function"))) = false := by
      rw [beq_eq_false_iff_ne]
      rintro rfl
      cases hnull
    rw [hnot, Bool.or_false]
    exact (Effect.of_run_pure h).2
  split at h
  · next htype =>
    rw [run_setTool, tool_withTool, withTool_withTool] at h
    cases h
    rw [htype, beq_self_eq_true, Bool.or_true]
  · exact Effect.of_run_throw h

theorem accepted_toolArguments {target : StreamToolAssembly} {path : String}
    {arguments : Option Json}
    (h : Effect.run (updateToolArguments path index arguments) (withTool state index target) =
      (.ok (), after)) :
    after = withTool state index
      { target with arguments := target.arguments ++ (textOf arguments).getD [] } := by
  unfold updateToolArguments at h
  split at h
  · next hnull =>
    rw [textOf_of_null hnull, Option.getD_none, List.append_nil]
    exact (Effect.of_run_pure h).2
  split at h
  · rw [run_setTool, tool_withTool, withTool_withTool] at h
    cases h
    rfl
  · exact Effect.of_run_throw h

theorem accepted_toolFunction {target : StreamToolAssembly} {path : String}
    {function : Option Json}
    (h : Effect.run (updateToolFunction path index function) (withTool state index target) =
      (.ok (), after)) :
    after = withTool state index { target with
        name := target.name.or (function.bind (Json.textField? "name"))
        arguments := target.arguments ++ (function.bind (Json.textField? "arguments")).getD [] } ∧
      ∀ text, function.bind (Json.textField? "name") = some text →
        target.name.or (some text) = some text := by
  have hnone : (∀ key, function.bind (Json.textField? key) = none) → after = withTool state index
      target → after = withTool state index { target with
        name := target.name.or (function.bind (Json.textField? "name"))
        arguments := target.arguments ++ (function.bind (Json.textField? "arguments")).getD [] } ∧
      ∀ text, function.bind (Json.textField? "name") = some text →
        target.name.or (some text) = some text := by
    intro hkeys hafter
    rw [hkeys, hkeys, Option.or_none, Option.getD_none, List.append_nil]
    exact ⟨hafter, fun _ htext => by cases htext⟩
  unfold updateToolFunction at h
  split at h
  · next hnull =>
    refine hnone (fun key => ?_) (Effect.of_run_pure h).2
    cases function with
    | none => rfl
    | some value => cases value <;> first | rfl | cases hnull
  split at h
  · obtain ⟨⟨⟩, middle, hname, harguments⟩ := Effect.exists_of_run_bind h
    obtain ⟨rfl, hfits⟩ := accepted_toolName hname
    exact ⟨accepted_toolArguments harguments, hfits⟩
  · exact hnone (fun _ => rfl) (Effect.of_run_pure h).2
  · exact Effect.of_run_throw h

/-- What an accepted fragment adds to its call. -/
theorem accepted_tool {position : Nat}
    (h : Effect.run (updateStreamTool fragment position) state = (.ok (), after)) :
    ∃ index, fragmentIndex fragment = some index ∧ Fits fragment (state.assembly.tool index) ∧
      after = withTool state index (mergeFragment fragment (state.assembly.tool index)) := by
  unfold updateStreamTool at h
  dsimp only at h
  split at h
  · exact Effect.of_run_throw h
  split at h
  · exact Effect.of_run_throw h
  · next index hindex =>
    obtain ⟨⟨⟩, first, hset, h⟩ := Effect.exists_of_run_bind h
    rw [run_setTool] at hset
    cases hset
    obtain ⟨⟨⟩, second, hid, h⟩ := Effect.exists_of_run_bind h
    obtain ⟨rfl, hfitsId⟩ := accepted_toolId hid
    obtain ⟨⟨⟩, third, htype, h⟩ := Effect.exists_of_run_bind h
    obtain rfl := accepted_toolType htype
    obtain ⟨rfl, hfitsName⟩ := accepted_toolFunction h
    exact ⟨index, hindex, ⟨hfitsId, hfitsName⟩, rfl⟩

/-! ## Groups -/

open StreamAssembly (Grouped SingleGiven groupTool)

variable {fragments : List Json} {assembly : StreamAssembly}

theorem mem_groupOf {index : Nat} : fragment ∈ groupOf fragments index ↔
    fragment ∈ fragments ∧ fragmentIndex fragment = some index := by
  unfold groupOf
  rw [List.mem_filter, beq_iff_eq]

theorem groupOf_append (fragments : List Json) (fragment : Json) (index : Nat) :
    groupOf (fragments ++ [fragment]) index = groupOf fragments index ++
      if fragmentIndex fragment = some index then [fragment] else [] := by
  unfold groupOf
  rw [List.filter_append, List.filter_cons, List.filter_nil]
  simp only [beq_iff_eq]

theorem groupTool_append (group : List Json) (fragment : Json) :
    groupTool (group ++ [fragment]) = mergeFragment fragment (groupTool group) := by
  unfold groupTool mergeFragment
  rw [List.findSome?_append, List.findSome?_append, List.any_append, List.flatMap_append,
    List.flatMap_singleton, List.any_cons, List.any_nil, Bool.or_false, List.findSome?_singleton,
    List.findSome?_singleton]

/-- The assembly of a call is its group, also where there is none. -/
theorem tool_of_grouped (h : Grouped assembly.tools fragments) (index : Nat) :
    assembly.tool index = groupTool (groupOf fragments index) := by
  unfold StreamAssembly.tool
  cases hget : assembly.tools.get? index with
  | some tool => exact h.tool index tool hget
  | none =>
    have hnone : groupOf fragments index = [] := by
      refine List.eq_nil_iff_forall_not_mem.mpr fun fragment hmem => ?_
      have hsome := (h.present index).mpr ⟨fragment, mem_groupOf.mp hmem⟩
      rw [hget] at hsome
      cases hsome
    rw [hnone]
    rfl

theorem grouped_append (h : Grouped assembly.tools fragments)
    (hindex : fragmentIndex fragment = some index) :
    Grouped (assembly.tools.set index (mergeFragment fragment (assembly.tool index)))
      (fragments ++ [fragment]) where
  present other := by
    rw [InsMap.get?_set]
    simp only [List.mem_append, List.mem_singleton, or_and_right, exists_or, exists_eq_left, hindex]
    split
    · next heq => simp [heq]
    · next hne =>
      rw [h.present other]
      simp [Ne.symm hne]
  tool other tool hget := by
    rw [InsMap.get?_set] at hget
    rw [groupOf_append, hindex]
    split at hget
    · next heq =>
      cases hget
      rw [if_pos (congrArg some heq.symm), groupTool_append, ← heq, tool_of_grouped h]
    · next hne =>
      rw [if_neg fun h => hne (Option.some.inj h).symm, List.append_nil]
      exact h.tool other tool hget

theorem agrees_append (h : SingleGiven fragments) (hindex : fragmentIndex fragment = some index)
    (hfits : Fits fragment (groupTool (groupOf fragments index))) :
    SingleGiven (fragments ++ [fragment]) := by
  -- a text given by the group or by the new fragment is the text of the new group
  have hgiven : ∀ {text : Json → Option JsText}
      (hold : ∀ other, ∀ given ∈ groupOf fragments other, ∀ a, text given = some a →
        (groupOf fragments other).findSome? text = some a)
      (hnew : ∀ a, text fragment = some a →
        ((groupOf fragments index).findSome? text).or (some a) = some a) (other : Nat),
      ∀ given ∈ groupOf (fragments ++ [fragment]) other, ∀ a, text given = some a →
        (groupOf (fragments ++ [fragment]) other).findSome? text = some a := by
    intro text hold hnew other given hmem a ha
    rw [groupOf_append, hindex] at hmem ⊢
    rw [List.findSome?_append]
    obtain hmem | hmem := List.mem_append.mp hmem
    · rw [hold other given hmem a ha]
      rfl
    · split at hmem
      · next heq =>
        obtain rfl := List.mem_singleton.mp hmem
        rw [if_pos heq, List.findSome?_singleton, ha]
        exact Option.some.inj heq ▸ hnew a ha
      · cases hmem
  exact ⟨hgiven h.id hfits.1, hgiven h.name hfits.2⟩

theorem insertionSort_of_perm {xs ys : List Nat} (h : xs.Perm ys) :
    xs.insertionSort (· ≤ ·) = ys.insertionSort (· ≤ ·) :=
  List.Perm.eq_of_pairwise (fun _ _ _ _ => Nat.le_antisymm)
    (List.pairwise_insertionSort _ xs) (List.pairwise_insertionSort _ ys)
    ((List.perm_insertionSort _ xs).trans (h.trans (List.perm_insertionSort _ ys).symm))

/-- The indexes of the calls, sorted. -/
theorem sorted_keys (h : Grouped assembly.tools fragments) :
    assembly.tools.keys.insertionSort (· ≤ ·) = referenceIndexes fragments := by
  have hmem : ∀ index, index ∈ assembly.tools.keys ↔
      index ∈ (fragments.filterMap fragmentIndex).dedup := fun index => by
    rw [InsMap.mem_keys, List.mem_dedup, List.mem_filterMap]
    exact h.present index
  have hperm : assembly.tools.keys.Perm (fragments.filterMap fragmentIndex).dedup :=
    (List.perm_ext_iff_of_nodup (InsMap.nodup_keys _) (List.nodup_dedup _)).mpr hmem
  exact insertionSort_of_perm hperm

theorem known_of_nonBlank {known : Option JsText} {text : JsText}
    (h : nonBlankText (known.map .str) = some text) : known = some text := by
  cases known with
  | none => cases h
  | some other => exact textOf_of_nonBlank h

theorem completed_call {parse : JsText → Option Json} {call : StreamToolCall}
    (h : completeStreamTool parse index (groupTool (groupOf fragments index)) = .ok call) :
    referenceCall parse fragments index = some call := by
  unfold completeStreamTool at h
  split at h
  · next callId name hid hname =>
    have hid : (groupOf fragments index).findSome? fragmentId = some callId := known_of_nonBlank hid
    have hname : (groupOf fragments index).findSome? fragmentName = some name :=
      known_of_nonBlank hname
    dsimp only at h
    split at h
    · cases h
    · next parsed hparsed =>
      have hparsed : parse ((groupOf fragments index).flatMap fragmentArguments) = some parsed :=
        hparsed
      split at h
      · cases h
        unfold referenceCall
        dsimp only
        rw [hid, hname, hparsed]
      · cases h
  · cases h

theorem mapM_some {α β ε : Type} {f : α → Except ε β} {g : α → Option β} {xs : List α}
    {ys : List β} (h : ∀ x y, f x = .ok y → g x = some y) (hok : xs.mapM f = .ok ys) :
    xs.mapM g = some ys := by
  induction xs generalizing ys with
  | nil =>
    cases hok
    rfl
  | cons x xs ih =>
    rw [List.mapM_cons] at hok ⊢
    cases hx : f x with
    | error e =>
      rw [hx] at hok
      cases hok
    | ok y =>
      rw [hx] at hok
      cases hxs : xs.mapM f with
      | error e =>
        have hok : (xs.mapM f >>= fun ys => pure (y :: ys)) = .ok ys := hok
        rw [hxs] at hok
        cases hok
      | ok rest =>
        have hok : (xs.mapM f >>= fun ys => pure (y :: ys)) = .ok ys := hok
        rw [hxs] at hok
        cases hok
        rw [h x y hx, ih hxs]
        rfl

/-- The completed calls are the reference calls. -/
theorem completed_calls {parse : JsText → Option Json} {calls : List StreamToolCall}
    (hgrouped : Grouped assembly.tools fragments)
    (h : completeStreamTools parse assembly = .ok calls) :
    (referenceIndexes fragments).mapM (referenceCall parse fragments) = some calls := by
  unfold completeStreamTools at h
  rw [sorted_keys hgrouped] at h
  refine mapM_some (fun index call hcall => ?_) h
  rw [tool_of_grouped hgrouped] at hcall
  exact completed_call hcall

/-! ## Text and progress -/

theorem flatten_characters (text : JsText) : (characters text).flatten = text := by
  induction text using characters.induct with
  | case1 => rfl
  | case2 u => rfl
  | case3 u v rest h ih =>
    rw [characters, if_pos h, List.flatten_cons, ih]
    rfl
  | case4 u v rest h ih =>
    rw [characters, if_neg h, List.flatten_cons, ih]
    rfl

/-- The assembly without what content changes. -/
def StreamAssembly.withoutText (assembly : StreamAssembly) : StreamAssembly :=
  { assembly with
    textParts := []
    textBytes := 0
    sawText := false
    liveFrozen := false
    progressText := []
    progressBytes := 0
    lastReported := none }

/-- Each value that was reported is longer than the one before, and all are fronts of the progress
text, which is a front of the text. -/
structure Progressing (options : StreamOptions) (text : JsText) (state : StreamState) : Prop where
  grown : state.assembly.progressText <+: text
  exact : options.reports = true → state.assembly.liveFrozen = false →
    state.assembly.progressText = text
  reported : ∀ value ∈ state.progress, value <+: state.assembly.progressText
  last : state.assembly.lastReported = state.progress.getLast?
  growing : state.progress.Pairwise fun earlier later =>
    earlier <+: later ∧ earlier.length < later.length

/-- The characters that fit are added. -/
theorem addProgressCharacters_spec (added : List JsText) (assembly : StreamAssembly) :
    (addProgressCharacters added assembly).withoutText = assembly.withoutText ∧
      (addProgressCharacters added assembly).lastReported = assembly.lastReported ∧
      (addProgressCharacters added assembly).textParts = assembly.textParts ∧
      (addProgressCharacters added assembly).sawText = assembly.sawText ∧
      assembly.progressText <+: (addProgressCharacters added assembly).progressText ∧
      (addProgressCharacters added assembly).progressText <+:
        assembly.progressText ++ added.flatten ∧
      (assembly.liveFrozen = false → (addProgressCharacters added assembly).liveFrozen = false →
        (addProgressCharacters added assembly).progressText =
          assembly.progressText ++ added.flatten) := by
  induction added generalizing assembly with
  | nil =>
    unfold addProgressCharacters
    rw [List.flatten_nil, List.append_nil]
    exact ⟨rfl, rfl, rfl, rfl, List.prefix_rfl, List.prefix_rfl, fun _ _ => rfl⟩
  | cons character rest ih =>
    unfold addProgressCharacters
    dsimp only
    split
    · exact ⟨rfl, rfl, rfl, rfl, List.prefix_rfl, List.prefix_append _ _,
        fun _ hfrozen => by cases hfrozen⟩
    · obtain ⟨hframe, hlast, hparts, hsaw, hgrows, hfront, hall⟩ := ih { assembly with
        progressText := assembly.progressText ++ character
        progressBytes := assembly.progressBytes + (encodeUtf8 character).length }
      rw [List.flatten_cons, ← List.append_assoc]
      exact ⟨hframe, hlast, hparts, hsaw, (List.prefix_append _ _).trans hgrows, hfront, hall⟩

/-- Among growing fronts of a value, only the last one may be as long as the value. -/
theorem last_of_length {values : List JsText} {value earlier : JsText}
    (hgrowing : values.Pairwise fun earlier later => earlier <+: later ∧
      earlier.length < later.length)
    (hfront : ∀ other ∈ values, other <+: value) (hmem : earlier ∈ values)
    (hlength : earlier.length = value.length) : values.getLast? = some value := by
  obtain rfl | ⟨front, last, rfl⟩ := List.eq_nil_or_concat values
  · cases hmem
  · rw [List.concat_eq_append] at hgrowing hfront hmem ⊢
    have hlast := hfront last (List.mem_append_right _ List.mem_cons_self)
    obtain hmem | hmem := List.mem_append.mp hmem
    · have hlt := ((List.pairwise_append.mp hgrowing).2.2 earlier hmem last List.mem_cons_self).2
      have := hlast.length_le
      omega
    · obtain rfl := List.mem_singleton.mp hmem
      rw [List.getLast?_concat, hlast.eq_of_length hlength]

/-- A value is reported where it is longer than the last one. -/
theorem progressing_report {text : JsText} (h : Progressing options text state)
    {value : JsText} (hvalue : state.assembly.progressText = value)
    (hlast : state.assembly.lastReported ≠ some value) :
    Progressing options text { state with
      assembly := { state.assembly with lastReported := some value }
      progress := state.progress ++ [value] } where
  grown := h.grown
  exact := h.exact
  reported other hmem := by
    obtain hmem | hmem := List.mem_append.mp hmem
    · exact h.reported other hmem
    · obtain rfl := List.mem_singleton.mp hmem
      exact hvalue ▸ List.prefix_rfl
  last := List.getLast?_concat.symm
  growing := by
    refine List.pairwise_append.mpr ⟨h.growing, List.pairwise_singleton _ _, ?_⟩
    intro earlier hmem later hlater
    obtain rfl := List.mem_singleton.mp hlater
    have hfront : earlier <+: later := hvalue ▸ h.reported earlier hmem
    refine ⟨hfront, Nat.lt_of_le_of_ne hfront.length_le fun hlength => hlast ?_⟩
    rw [h.last]
    exact last_of_length h.growing (fun other hother => hvalue ▸ h.reported other hother) hmem
      hlength

/-- Progress goes on from the whole text before. -/
theorem accepted_report {text content : JsText} (h : Progressing options text state)
    (hexact : state.assembly.progressText = text) (hfrozen : state.assembly.liveFrozen = false)
    (hrun : Effect.run (reportProgress content) state = (.ok (), after)) :
    Progressing options (text ++ content) after ∧
      after.assembly.textParts = state.assembly.textParts ∧
      after.assembly.sawText = state.assembly.sawText ∧
      after.assembly.withoutText = state.assembly.withoutText := by
  obtain ⟨hframe, hlast, hparts, hsaw, hgrows, hfront, hall⟩ :=
    addProgressCharacters_spec (characters content) state.assembly
  rw [flatten_characters, hexact] at hfront hall
  have hadded : Progressing options (text ++ content) { state with
      assembly := addProgressCharacters (characters content) state.assembly } := {
    grown := hfront
    exact := fun _ hlive => hall hfrozen hlive
    reported := fun value hmem => (h.reported value hmem).trans hgrows
    last := hlast.trans h.last
    growing := h.growing }
  -- freezing asks for less
  have hfreeze : ∀ {middle : StreamState}, Progressing options (text ++ content) middle →
      Progressing options (text ++ content) { middle with
        assembly := { middle.assembly with
          liveFrozen := middle.assembly.liveFrozen ||
            decide (maxConversationTextBytes < middle.assembly.textBytes) } } :=
    fun hmiddle => ⟨hmiddle.grown, fun hreports hlive =>
      hmiddle.exact hreports (Bool.or_eq_false_iff.mp hlive).1, hmiddle.reported, hmiddle.last,
      hmiddle.growing⟩
  unfold reportProgress at hrun
  obtain ⟨⟨⟩, middle, hmiddle, hrun⟩ := Effect.exists_of_run_bind hrun
  cases hmiddle
  rw [Effect.run_bind_ok (Effect.run_get _)] at hrun
  dsimp only at hrun
  split at hrun
  · next hnew =>
    rw [Bool.and_eq_true, decide_eq_true_iff] at hnew
    cases hrun
    exact ⟨hfreeze (progressing_report hadded rfl hnew.2), hparts, hsaw, hframe⟩
  · cases hrun
    exact ⟨hfreeze hadded, hparts, hsaw, hframe⟩

/-- Content that arrives is behind the text, and progress follows it. -/
theorem accepted_content {text content : JsText} (h : Progressing options text state)
    (hrun : Effect.run (addContent options content) state = (.ok (), after)) :
    Progressing options (text ++ content) after ∧
      after.assembly.textParts.flatten = state.assembly.textParts.flatten ++ content ∧
      after.assembly.sawText = (state.assembly.sawText || !content.isEmpty) ∧
      after.assembly.withoutText = state.assembly.withoutText := by
  unfold addContent at hrun
  split at hrun
  · next hempty =>
    obtain rfl := (Effect.of_run_pure hrun).2
    obtain rfl := List.isEmpty_iff.mp hempty
    rw [List.append_nil, List.append_nil]
    exact ⟨h, rfl, (Bool.or_false _).symm, rfl⟩
  · next hsome =>
    obtain ⟨⟨⟩, middle, hmiddle, hrun⟩ := Effect.exists_of_run_bind hrun
    cases hmiddle
    rw [Effect.run_bind_ok (Effect.run_get _)] at hrun
    have hflatten : (state.assembly.textParts ++ [content]).flatten =
        state.assembly.textParts.flatten ++ content := by
      rw [List.flatten_append, List.flatten_singleton]
    have hsaw : true = (state.assembly.sawText || !content.isEmpty) := by
      rw [Bool.eq_false_iff.mpr hsome, Bool.not_false, Bool.or_true]
    dsimp only at hrun
    split at hrun
    · exact Effect.of_run_throw hrun
    split at hrun
    · next hlive =>
      rw [Bool.and_eq_true, Bool.not_eq_true'] at hlive
      have hmiddle : Progressing options text { state with
          assembly := { state.assembly with
            sawText := true
            textParts := state.assembly.textParts ++ [content]
            textBytes := state.assembly.textBytes + (encodeUtf8 content).length } } :=
        ⟨h.grown, h.exact, h.reported, h.last, h.growing⟩
      obtain ⟨hprogress, hparts, hsaw', hframe⟩ :=
        accepted_report hmiddle (h.exact hlive.1 hlive.2) hlive.2 hrun
      exact ⟨hprogress, (congrArg List.flatten hparts).trans hflatten, hsaw'.trans hsaw, hframe⟩
    · next hlive =>
      cases hrun
      refine ⟨⟨h.grown.trans (List.prefix_append _ _), fun hreports hfrozen => ?_, h.reported,
        h.last, h.growing⟩, hflatten, hsaw, rfl⟩
      exact absurd (by rw [Bool.and_eq_true, Bool.not_eq_true']; exact ⟨hreports, hfrozen⟩) hlive

/-- The assembly without its tool calls. -/
def StreamAssembly.withoutTools (assembly : StreamAssembly) : StreamAssembly :=
  { assembly with
    tools := .empty
    sawTools := false }

theorem accepted_tools {added : List Json} {position : Nat}
    (hrun : Effect.run (updateStreamTools added position) state = (.ok (), after))
    (hgrouped : Grouped state.assembly.tools fragments) (hagrees : SingleGiven fragments) :
    Grouped after.assembly.tools (fragments ++ added) ∧ SingleGiven (fragments ++ added) ∧
      after.assembly.sawTools = state.assembly.sawTools ∧
      after.assembly.withoutTools = state.assembly.withoutTools ∧
      after.progress = state.progress := by
  induction added generalizing state position fragments with
  | nil =>
    obtain rfl := (Effect.of_run_pure hrun).2
    rw [List.append_nil]
    exact ⟨hgrouped, hagrees, rfl, rfl, rfl⟩
  | cons fragment added ih =>
    unfold updateStreamTools at hrun
    obtain ⟨⟨⟩, middle, hfirst, hrun⟩ := Effect.exists_of_run_bind hrun
    obtain ⟨index, hindex, hfits, rfl⟩ := accepted_tool hfirst
    rw [tool_of_grouped hgrouped] at hfits
    have hrest := ih hrun (grouped_append hgrouped hindex) (agrees_append hagrees hindex hfits)
    rw [List.append_assoc, List.singleton_append] at hrest
    exact hrest

theorem accepted_toolCalls {added : List Json}
    (hrun : Effect.run (addToolCalls added) state = (.ok (), after))
    (hgrouped : Grouped state.assembly.tools fragments) (hagrees : SingleGiven fragments) :
    Grouped after.assembly.tools (fragments ++ added) ∧ SingleGiven (fragments ++ added) ∧
      after.assembly.sawTools = (state.assembly.sawTools || !added.isEmpty) ∧
      after.assembly.withoutTools = state.assembly.withoutTools ∧
      after.progress = state.progress := by
  unfold addToolCalls at hrun
  split at hrun
  · next hempty =>
    obtain rfl := (Effect.of_run_pure hrun).2
    obtain rfl := List.isEmpty_iff.mp hempty
    rw [List.append_nil]
    exact ⟨hgrouped, hagrees, (Bool.or_false _).symm, rfl, rfl⟩
  · next hsome =>
    obtain ⟨⟨⟩, middle, hmiddle, hrun⟩ := Effect.exists_of_run_bind hrun
    cases hmiddle
    obtain ⟨hgrouped', hagrees', hsaw, hframe, hprogress⟩ := accepted_tools hrun hgrouped hagrees
    refine ⟨hgrouped', hagrees', hsaw.trans ?_, hframe, hprogress⟩
    rw [Bool.eq_false_iff.mpr hsome, Bool.not_false, Bool.or_true]

/-! ## Reasoning -/

theorem accepted_details {delta : Json}
    (hrun : Effect.run (addReasoningDetails delta) state = (.ok (), after)) :
    after = { state with
      assembly := { state.assembly with
        reasoningDetails := state.assembly.reasoningDetails ++ deltaDetails delta } } := by
  unfold addReasoningDetails at hrun
  unfold deltaDetails
  split at hrun
  · next hnone =>
    have hitems : arrayItems (delta.field? "reasoning_details") = [] := hnone ▸ rfl
    rw [hitems, List.append_nil]
    exact (Effect.of_run_pure hrun).2
  · next hnull =>
    have hitems : arrayItems (delta.field? "reasoning_details") = [] := hnull ▸ rfl
    rw [hitems, List.append_nil]
    exact (Effect.of_run_pure hrun).2
  · next items hitems =>
    split at hrun
    · cases hrun
      rw [hitems]
      rfl
    · exact Effect.of_run_throw hrun
  · exact Effect.of_run_throw hrun

theorem accepted_reasoning {delta : Json}
    (hrun : Effect.run (addReasoning delta) state = (.ok (), after)) :
    ∃ thinking, after = { state with
      assembly := { state.assembly with
        reasoningField := state.assembly.reasoningField.or ((plainReasoning delta).map Prod.fst)
        reasoningParts := state.assembly.reasoningParts ++
          ((plainReasoning delta).map Prod.snd).toList }
      thinking } := by
  unfold addReasoning at hrun
  split at hrun
  · next field part hplain =>
    cases hrun
    rw [hplain]
    exact ⟨_, rfl⟩
  · next hplain =>
    cases hrun
    rw [hplain, Option.map_none, Option.map_none, Option.or_none, Option.toList_none,
      List.append_nil]
    exact ⟨_, rfl⟩

/-! ## A frame -/

def frameChoice (frame : Json) : Json :=
  match frame.field? "choices" with
  | some (.arr [choice]) => choice
  | _ => .null

def frameDelta (frame : Json) : Json := ((frameChoice frame).field? "delta").getD (.obj [])

def frameFinish (frame : Json) : Option FinishReason :=
  match finishReasonOf (frameChoice frame) with
  | .ok reason => reason
  | .error _ => none

theorem frameChoice_of_choiceOf {object choice : Json} (h : choiceOf object = .ok choice) :
    frameChoice object = choice := by
  unfold choiceOf at h
  unfold frameChoice
  split at h
  · next fields hchoices =>
    split at h
    · cases h
      rw [hchoices]
    · cases h
  · cases h

theorem delta_of_deltaOf {choice delta : Json} (h : deltaOf choice = .ok delta) :
    (choice.field? "delta").getD (.obj []) = delta := by
  unfold deltaOf at h
  split at h
  · next hnone =>
    cases h
    rw [hnone]
    rfl
  · next fields hfields =>
    cases h
    rw [hfields]
    rfl
  · cases h

/-- The assembly has the deltas. -/
structure Collected (options : StreamOptions) (deltas : List Json) (state : StreamState) :
    Prop where
  text : state.assembly.textParts.flatten = referenceText deltas
  sawText : state.assembly.sawText = !(referenceText deltas).isEmpty
  grouped : Grouped state.assembly.tools (referenceFragments deltas)
  agrees : SingleGiven (referenceFragments deltas)
  sawTools : state.assembly.sawTools = !(referenceFragments deltas).isEmpty
  details : state.assembly.reasoningDetails = deltas.flatMap deltaDetails
  parts : state.assembly.reasoningParts = (deltas.filterMap plainReasoning).map Prod.snd
  field : state.assembly.reasoningField = (deltas.filterMap plainReasoning).head?.map Prod.fst
  progress : Progressing options (referenceText deltas) state

theorem providerStateOf_collected {deltas : List Json} (h : Collected options deltas state) :
    providerStateOf options state.assembly = referenceState options deltas := by
  unfold providerStateOf referenceState
  rw [h.details, h.parts, h.field, List.isEmpty_map]
  cases hparts : deltas.filterMap plainReasoning with
  | nil => rfl
  | cons part parts => rfl

/-- What a frame leaves as it is. -/
structure SameFrame (state after : StreamState) : Prop where
  completionId : after.assembly.completionId = state.assembly.completionId
  seen : after.assembly.postTerminalUsageSeen = state.assembly.postTerminalUsageSeen

/-- The finish has the reference response. -/
theorem accepted_finish {deltas : List Json} {reason : FinishReason}
    (h : Collected options deltas state)
    (hrun : Effect.run (finishStream options reason) state = (.ok (), after)) :
    after.assembly.terminal = some reason ∧
      after.assembly.result = referenceResult options reason deltas ∧
      Progressing options (referenceText deltas) after ∧ SameFrame state after := by
  have hstate := providerStateOf_collected h
  have hprogress := h.progress
  cases reason with
  | stop =>
    unfold finishStream at hrun
    rw [Effect.run_bind_ok (Effect.run_get _)] at hrun
    dsimp only at hrun
    split at hrun
    · exact Effect.of_run_throw hrun
    · cases hrun
      refine ⟨rfl, ?_, ⟨hprogress.grown, hprogress.exact, hprogress.reported, hprogress.last,
        hprogress.growing⟩, rfl, rfl⟩
      show some (StreamResult.final state.assembly.textParts.flatten
        (providerStateOf options state.assembly)) = _
      rw [h.text, hstate]
      rfl
  | toolCalls =>
    unfold finishStream at hrun
    rw [Effect.run_bind_ok (Effect.run_get _)] at hrun
    split at hrun
    · exact Effect.of_run_throw hrun
    · obtain ⟨⟨⟩, middle, hmiddle, hrun⟩ := Effect.exists_of_run_bind hrun
      cases hmiddle
      rw [Effect.run_bind_ok (Effect.run_get _)] at hrun
      obtain ⟨calls, middle, hcalls, hrun⟩ := Effect.exists_of_run_bind hrun
      obtain ⟨hcompleted, rfl⟩ := Effect.of_run_ofExcept hcalls
      cases hrun
      have hcompleted : completeStreamTools options.parse { state.assembly with
          terminal := some .toolCalls } = .ok calls := hcompleted
      have hreference := completed_calls h.grouped hcompleted
      refine ⟨rfl, ?_, ⟨hprogress.grown, hprogress.exact, hprogress.reported, hprogress.last,
        hprogress.growing⟩, rfl, rfl⟩
      show some (StreamResult.toolCalls calls (if state.assembly.sawText = true then
        some state.assembly.textParts.flatten else none) (providerStateOf options state.assembly)) = _
      unfold referenceResult
      dsimp only
      rw [hreference, h.text, h.sawText, hstate]
      cases (referenceText deltas).isEmpty <;> rfl

/-- The state with the reasoning of a delta. -/
def withReasoning (state : StreamState) (delta : Json) (thinking : List ReadableThinking) :
    StreamState :=
  { state with
    assembly := { state.assembly with
      reasoningDetails := state.assembly.reasoningDetails ++ deltaDetails delta
      reasoningField := state.assembly.reasoningField.or ((plainReasoning delta).map Prod.fst)
      reasoningParts := state.assembly.reasoningParts ++ ((plainReasoning delta).map Prod.snd).toList }
    thinking }

theorem terminal_withReasoning {delta : Json} {thinking : List ReadableThinking} :
    (withReasoning state delta thinking).assembly.terminal = state.assembly.terminal := rfl

/-- An accepted frame adds its reasoning, and then its text and its tool calls. -/
theorem accepted_choice {object : Json}
    (hrun : Effect.run (processChoice options object) state = (.ok (), after)) :
    ∃ thinking, (∀ terminal, state.assembly.terminal = some terminal →
        Effect.run (processPostTerminal terminal object (frameFinish object) (frameDelta object))
          (withReasoning state (frameDelta object) thinking) = (.ok (), after)) ∧
      (state.assembly.terminal = none → ∃ first second,
        Effect.run (addContent options (deltaContent (frameDelta object)))
          (withReasoning state (frameDelta object) thinking) = (.ok (), first) ∧
        Effect.run (addToolCalls (deltaToolCalls (frameDelta object))) first = (.ok (), second) ∧
        ((frameFinish object = none ∧ after = second) ∨ ∃ reason, frameFinish object = some reason ∧
          Effect.run (finishStream options reason) second = (.ok (), after))) := by
  unfold processChoice at hrun
  obtain ⟨choice, hchoice, hrun1⟩ := Effect.of_run_bind_ofExcept hrun
  obtain ⟨finish, hreason, hrun2⟩ := Effect.of_run_bind_ofExcept hrun1
  obtain ⟨delta, hgiven, hrun3⟩ := Effect.of_run_bind_ofExcept hrun2
  obtain rfl := frameChoice_of_choiceOf hchoice
  have hfinish : frameFinish object = finish := by
    unfold frameFinish
    rw [hreason]
  have hdelta : frameDelta object = delta := delta_of_deltaOf hgiven
  obtain ⟨⟨⟩, detailed, hdetails, hrun4⟩ := Effect.exists_of_run_bind hrun3
  obtain ⟨⟨⟩, reasoned, hreasoning, hrun5⟩ := Effect.exists_of_run_bind hrun4
  obtain ⟨⟨⟩, -, hrun6⟩ := Effect.of_run_bind_ofExcept hrun5
  obtain rfl := accepted_details hdetails
  obtain ⟨thinking, hreasoned⟩ := accepted_reasoning hreasoning
  have hreasoned : reasoned = withReasoning state delta thinking := hreasoned
  rw [Effect.run_bind_ok (Effect.run_get _), hreasoned, terminal_withReasoning] at hrun6
  rw [hfinish, hdelta]
  refine ⟨thinking, fun terminal hterminal => ?_, fun hterminal => ?_⟩
  · rw [hterminal] at hrun6
    exact hrun6
  · rw [hterminal] at hrun6
    dsimp only at hrun6
    split at hrun6
    · exact Effect.of_run_throw hrun6
    · obtain ⟨⟨⟩, first, hcontent, hrun7⟩ := Effect.exists_of_run_bind hrun6
      obtain ⟨⟨⟩, second, htools, hrun8⟩ := Effect.exists_of_run_bind hrun7
      refine ⟨first, second, hcontent, htools, ?_⟩
      cases finish with
      | none => exact .inl ⟨rfl, (Effect.of_run_pure hrun8).2⟩
      | some reason => exact .inr ⟨reason, rfl, hrun8⟩

theorem not_isEmpty_append {α : Type} (xs ys : List α) :
    (!(xs ++ ys).isEmpty) = (!xs.isEmpty || !ys.isEmpty) := by
  cases xs <;> rfl

/-- Before the finish, a frame adds its delta. -/
theorem collected_choice {object : Json} {deltas : List Json} (h : Collected options deltas state)
    (hopen : state.assembly.terminal = none)
    (hrun : Effect.run (processChoice options object) state = (.ok (), after)) :
    SingleGiven (referenceFragments (deltas ++ [frameDelta object])) ∧
      Progressing options (referenceText (deltas ++ [frameDelta object])) after ∧
      SameFrame state after ∧
      ((frameFinish object = none ∧ Collected options (deltas ++ [frameDelta object]) after ∧
          after.assembly.terminal = none) ∨
        ∃ reason, frameFinish object = some reason ∧ after.assembly.terminal = some reason ∧
          after.assembly.result =
            referenceResult options reason (deltas ++ [frameDelta object])) := by
  obtain ⟨thinking, -, hchoice⟩ := accepted_choice hrun
  obtain ⟨first, second, hcontent, htools, hend⟩ := hchoice hopen
  have htext : referenceText (deltas ++ [frameDelta object]) =
      referenceText deltas ++ deltaContent (frameDelta object) := by
    rw [referenceText, List.flatMap_append, List.flatMap_singleton, referenceText]
  have hfragments : referenceFragments (deltas ++ [frameDelta object]) =
      referenceFragments deltas ++ deltaToolCalls (frameDelta object) := by
    rw [referenceFragments, List.flatMap_append, List.flatMap_singleton, referenceFragments]
  have hreasoned : Progressing options (referenceText deltas)
      (withReasoning state (frameDelta object) thinking) :=
    ⟨h.progress.grown, h.progress.exact, h.progress.reported, h.progress.last, h.progress.growing⟩
  obtain ⟨hprogress, hparts, hsawText, hframe⟩ := accepted_content hreasoned hcontent
  have htoolsFirst : first.assembly.tools = state.assembly.tools :=
    congrArg (fun assembly => assembly.tools) hframe
  obtain ⟨hgrouped, hagrees, hsawTools, hframe', hreported⟩ :=
    accepted_toolCalls htools (htoolsFirst ▸ h.grouped) h.agrees
  rw [← hfragments] at hgrouped hagrees
  have hsecond : ∀ {α : Type} (f : StreamAssembly → α),
      (∀ assembly, f assembly.withoutTools = f assembly) →
      f second.assembly = f first.assembly := fun f hf => by
    rw [← hf second.assembly, hframe', hf]
  have hfirst : ∀ {α : Type} (f : StreamAssembly → α),
      (∀ assembly, f assembly.withoutText = f assembly) →
      f first.assembly = f (withReasoning state (frameDelta object) thinking).assembly :=
    fun f hf => by rw [← hf first.assembly, hframe, hf]
  have hlastDelta : (deltas ++ [frameDelta object]).filterMap plainReasoning =
      deltas.filterMap plainReasoning ++ (plainReasoning (frameDelta object)).toList := by
    rw [List.filterMap_append, List.filterMap_cons, List.filterMap_nil]
    cases plainReasoning (frameDelta object) <;> rfl
  have hboth : ∀ {α : Type} (f : StreamAssembly → α),
      (∀ assembly, f assembly.withoutTools = f assembly) →
      (∀ assembly, f assembly.withoutText = f assembly) →
      f second.assembly = f (withReasoning state (frameDelta object) thinking).assembly :=
    fun f hf hf' => (hsecond f hf).trans (hfirst f hf')
  have hprogress' : Progressing options (referenceText (deltas ++ [frameDelta object])) second := by
    rw [htext]
    have hprogressText := hsecond (fun assembly => assembly.progressText) fun _ => rfl
    refine ⟨hprogressText ▸ hprogress.grown, fun hreports hlive => ?_, fun value hmem => ?_, ?_,
      hreported ▸ hprogress.growing⟩
    · rw [hprogressText]
      exact hprogress.exact hreports ((hsecond (fun assembly => assembly.liveFrozen) fun _ => rfl) ▸
        hlive)
    · rw [hprogressText]
      exact hprogress.reported value (hreported ▸ hmem)
    · rw [hsecond (fun assembly => assembly.lastReported) fun _ => rfl, hreported]
      exact hprogress.last
  have hcollected : Collected options (deltas ++ [frameDelta object]) second := {
    text := by
      rw [hsecond (fun assembly => assembly.textParts) fun _ => rfl, hparts, htext, ← h.text]
      rfl
    sawText := by
      rw [hsecond (fun assembly => assembly.sawText) fun _ => rfl, hsawText, htext,
        not_isEmpty_append, ← h.sawText]
      rfl
    grouped := hgrouped
    agrees := hagrees
    sawTools := by
      rw [hsawTools, hfragments, not_isEmpty_append, ← h.sawTools,
        hfirst (fun assembly => assembly.sawTools) fun _ => rfl]
      rfl
    details := by
      rw [hboth (fun assembly => assembly.reasoningDetails) (fun _ => rfl) fun _ => rfl,
        List.flatMap_append, List.flatMap_singleton, ← h.details]
      rfl
    parts := by
      rw [hboth (fun assembly => assembly.reasoningParts) (fun _ => rfl) fun _ => rfl, hlastDelta,
        List.map_append, ← h.parts]
      cases hplain : plainReasoning (frameDelta object) <;>
        simp [withReasoning, hplain]
    field := by
      rw [hboth (fun assembly => assembly.reasoningField) (fun _ => rfl) fun _ => rfl, hlastDelta,
        List.head?_append, Option.map_or, ← h.field]
      cases hplain : plainReasoning (frameDelta object) <;>
        simp [withReasoning, hplain]
    progress := hprogress' }
  have hsame : SameFrame state second :=
    ⟨hboth (fun assembly => assembly.completionId) (fun _ => rfl) fun _ => rfl,
      hboth (fun assembly => assembly.postTerminalUsageSeen) (fun _ => rfl) fun _ => rfl⟩
  obtain ⟨hnone, rfl⟩ | ⟨reason, hreason, hfinish⟩ := hend
  · exact ⟨hagrees, hprogress', hsame, .inl ⟨hnone, hcollected,
      (hboth (fun assembly => assembly.terminal) (fun _ => rfl) fun _ => rfl).trans hopen⟩⟩
  · obtain ⟨hterminal, hresult, hprogress'', hsame'⟩ := accepted_finish hcollected hfinish
    exact ⟨hagrees, hprogress'', ⟨hsame'.completionId.trans hsame.completionId,
      hsame'.seen.trans hsame.seen⟩, .inr ⟨reason, hreason, hterminal, hresult⟩⟩

/-- The frame with usage that may follow the finish. -/
def UsageFrame (reason : FinishReason) (frame : Json) : Prop :=
  isStreamUsage (frame.field? "usage") = true ∧ (frame.field? "choices" = some (.arr []) ∨
    (frameFinish frame = some reason ∧ deltaContent (frameDelta frame) = [] ∧
      deltaToolCalls (frameDelta frame) = []))

/-- After the finish, a frame with usage is noted once. -/
theorem accepted_usage {object : Json} {reason : FinishReason}
    (hterminal : state.assembly.terminal = some reason)
    (hrun : Effect.run (if !jsonNull (object.field? "usage") &&
        object.field? "choices" = some (.arr []) then processUsageOnly object
      else processChoice options object) state = (.ok (), after)) :
    UsageFrame reason object ∧ state.assembly.postTerminalUsageSeen = false ∧
      after.assembly.postTerminalUsageSeen = true ∧
      after.assembly.terminal = state.assembly.terminal ∧
      after.assembly.result = state.assembly.result ∧
      after.assembly.completionId = state.assembly.completionId ∧
      (∀ text, Progressing options text state → Progressing options text after) := by
  split at hrun
  · next honly =>
    rw [Bool.and_eq_true, decide_eq_true_iff] at honly
    unfold processUsageOnly at hrun
    rw [Effect.run_bind_ok (Effect.run_get _), hterminal] at hrun
    split at hrun
    · exact Effect.of_run_throw hrun
    split at hrun
    · exact Effect.of_run_throw hrun
    · next hfirst =>
      rw [Bool.or_eq_true, not_or, Bool.not_eq_true, Bool.not_eq_true', Bool.not_eq_false] at hfirst
      cases hrun
      exact ⟨⟨hfirst.2, .inl honly.2⟩, hfirst.1, rfl, rfl, rfl, rfl, fun text h =>
        ⟨h.grown, h.exact, h.reported, h.last, h.growing⟩⟩
  · obtain ⟨thinking, hpost, -⟩ := accepted_choice hrun
    have hrun' := hpost reason hterminal
    unfold processPostTerminal at hrun'
    rw [Effect.run_bind_ok (Effect.run_get _)] at hrun'
    dsimp only at hrun'
    split at hrun'
    · exact Effect.of_run_throw hrun'
    · next hfirst =>
      simp only [Bool.or_eq_true, not_or, Bool.not_eq_true, decide_eq_true_iff, ne_eq, not_not,
        Bool.not_eq_false', List.isEmpty_iff] at hfirst
      cases hrun'
      exact ⟨⟨hfirst.1.1.1.1.2, .inr ⟨hfirst.1.1.1.2, hfirst.1.1.2, hfirst.1.2⟩⟩,
        hfirst.1.1.1.1.1.1, rfl, rfl, rfl, rfl, fun text h =>
        ⟨h.grown, h.exact, h.reported, h.last, h.growing⟩⟩

/-- An accepted frame has the id of the stream. -/
theorem accepted_completionId {object : Json}
    (hrun : Effect.run (checkCompletionId object) state = (.ok (), after)) :
    ∃ id, nonBlankText (object.field? "id") = some id ∧
      state.assembly.completionId.or (some id) = some id ∧
      after = { state with assembly := { state.assembly with completionId := some id } } := by
  unfold checkCompletionId at hrun
  split at hrun
  · exact Effect.of_run_throw hrun
  · next id hid =>
    rw [Effect.run_bind_ok (Effect.run_get _)] at hrun
    split at hrun
    · next hnone =>
      cases hrun
      exact ⟨id, hid, by rw [hnone]; rfl, rfl⟩
    · next known hknown =>
      split at hrun
      · next heq =>
        obtain rfl := (Effect.of_run_pure hrun).2
        refine ⟨id, hid, by rw [hknown, heq]; rfl, ?_⟩
        rw [← heq, ← hknown]
      · exact Effect.of_run_throw hrun

/-! ## Streams -/

/-- The frames of payloads. -/
def framesOf (options : StreamOptions) (payloads : List JsText) : List Json :=
  payloads.filterMap fun payload => if payload = endOfStream then none else options.parse payload

/-- The frames to the first one that finishes. -/
def uptoFinish : List Json → List Json
  | [] => []
  | frame :: frames => if (frameFinish frame).isSome then [frame] else frame :: uptoFinish frames

def streamDeltas (frames : List Json) : List Json := (uptoFinish frames).map frameDelta

/-- The payloads are accepted one after another. -/
def Accepted (options : StreamOptions) (payloads : List JsText) (state : StreamState) : Prop :=
  Effect.run (payloads.forM (processSsePayload options)) .start = (.ok ⟨⟩, state)

theorem uptoFinish_open {frames : List Json} (h : ∀ frame ∈ frames, frameFinish frame = none)
    (rest : List Json) : uptoFinish (frames ++ rest) = frames ++ uptoFinish rest := by
  induction frames with
  | nil => rfl
  | cons frame frames ih =>
    rw [List.cons_append, uptoFinish, h frame List.mem_cons_self, if_neg (by decide),
      ih fun other hmem => h other (List.mem_cons_of_mem _ hmem)]
    rfl

theorem uptoFinish_finish {frame : Json} {reason : FinishReason} (h : frameFinish frame = some reason)
    (rest : List Json) : uptoFinish (frame :: rest) = [frame] := by
  rw [uptoFinish, h]
  rfl

/-- How far a stream has come. -/
inductive Phase (options : StreamOptions) (frames : List Json) (state : StreamState) : Prop
  | «open» (hterminal : state.assembly.terminal = none)
    (hseen : state.assembly.postTerminalUsageSeen = false)
    (hframes : ∀ frame ∈ frames, frameFinish frame = none)
    (hcollected : Collected options (frames.map frameDelta) state)
  | finished (reason : FinishReason) (before rest : List Json) (finish : Json)
    (hframes : frames = before ++ finish :: rest)
    (hbefore : ∀ frame ∈ before, frameFinish frame = none)
    (hfinish : frameFinish finish = some reason)
    (hterminal : state.assembly.terminal = some reason)
    (hresult : state.assembly.result =
      referenceResult options reason ((before ++ [finish]).map frameDelta))
    (hrest : (rest = [] ∧ state.assembly.postTerminalUsageSeen = false) ∨
      ∃ usage, rest = [usage] ∧ UsageFrame reason usage ∧
        state.assembly.postTerminalUsageSeen = true)

structure StreamInvariant (options : StreamOptions) (frames : List Json) (state : StreamState) :
    Prop where
  identity : ∀ frame ∈ frames, ∃ id, nonBlankText (frame.field? "id") = some id ∧
    state.assembly.completionId = some id
  agrees : SingleGiven (referenceFragments (streamDeltas frames))
  progress : Progressing options (referenceText (streamDeltas frames)) state
  phase : Phase options frames state

theorem streamInvariant_start : StreamInvariant options [] .start where
  identity _ hmem := absurd hmem List.not_mem_nil
  agrees := ⟨fun _ _ hmem => absurd hmem List.not_mem_nil,
    fun _ _ hmem => absurd hmem List.not_mem_nil⟩
  progress := ⟨List.prefix_rfl, fun _ _ => rfl, fun _ hmem => absurd hmem List.not_mem_nil, rfl, .nil⟩
  phase := .open rfl rfl (fun _ hmem => absurd hmem List.not_mem_nil) {
    text := rfl
    sawText := rfl
    grouped := ⟨fun index => ⟨fun h => (by cases h), fun ⟨_, hmem, _⟩ =>
      absurd hmem List.not_mem_nil⟩, fun _ _ h => (by cases h)⟩
    agrees := ⟨fun _ _ hmem => absurd hmem List.not_mem_nil,
      fun _ _ hmem => absurd hmem List.not_mem_nil⟩
    sawTools := rfl
    details := rfl
    parts := rfl
    field := rfl
    progress := ⟨List.prefix_rfl, fun _ _ => rfl, fun _ hmem => absurd hmem List.not_mem_nil, rfl,
      .nil⟩ }

theorem streamDeltas_open {frames : List Json} (h : ∀ frame ∈ frames, frameFinish frame = none)
    (frame : Json) :
    streamDeltas (frames ++ [frame]) = frames.map frameDelta ++ [frameDelta frame] := by
  have hone : uptoFinish [frame] = [frame] := by
    rw [uptoFinish]
    split <;> rfl
  rw [streamDeltas, uptoFinish_open h, hone, List.map_append, List.map_singleton]

theorem streamDeltas_finished {before rest : List Json} {finish : Json} {reason : FinishReason}
    (hbefore : ∀ frame ∈ before, frameFinish frame = none)
    (hfinish : frameFinish finish = some reason) :
    streamDeltas (before ++ finish :: rest) = (before ++ [finish]).map frameDelta := by
  rw [streamDeltas, uptoFinish_open hbefore, uptoFinish_finish hfinish]

/-- One accepted frame. -/
theorem streamInvariant_frame {frames : List Json} {object : Json}
    (h : StreamInvariant options frames state)
    (hrun : Effect.run (processFrame options object) state = (.ok (), after)) :
    StreamInvariant options (frames ++ [object]) after := by
  unfold processFrame at hrun
  split at hrun
  · exact Effect.of_run_throw hrun
  obtain ⟨⟨⟩, middle, hcompletion, hrun1⟩ := Effect.exists_of_run_bind hrun
  obtain ⟨id, hid, hor, hmiddle⟩ := accepted_completionId hcompletion
  have hidentity : ∀ frame ∈ frames ++ [object], nonBlankText (frame.field? "id") = some id := by
    intro frame hmem
    obtain hmem | hmem := List.mem_append.mp hmem
    · obtain ⟨known, hgiven, hknown⟩ := h.identity frame hmem
      rw [hknown] at hor
      exact hgiven.trans hor
    · rw [List.mem_singleton.mp hmem]
      exact hid
  have hknown : middle.assembly.completionId = some id := by rw [hmiddle]
  have hprogress : ∀ {text}, Progressing options text state → Progressing options text middle := by
    rintro text ⟨hgrown, hexact, hreported, hlast, hgrowing⟩
    rw [hmiddle]
    exact ⟨hgrown, hexact, hreported, hlast, hgrowing⟩
  have hassembly : ∀ {α : Type} (f : StreamAssembly → α),
      (∀ assembly, f { assembly with completionId := some id } = f assembly) →
      f middle.assembly = f state.assembly := fun f hf => by rw [hmiddle, hf]
  have hterminal := hassembly (fun assembly => assembly.terminal) fun _ => rfl
  have hseen := hassembly (fun assembly => assembly.postTerminalUsageSeen) fun _ => rfl
  cases h.phase with
  | «open» hopen hunseen hframes hcollected =>
    have hdeltas := streamDeltas_open hframes object
    have hopen' := hterminal.trans hopen
    have hcollected' : Collected options (frames.map frameDelta) middle := by
      rw [hmiddle] at hprogress ⊢
      exact ⟨hcollected.text, hcollected.sawText, hcollected.grouped, hcollected.agrees,
        hcollected.sawTools, hcollected.details, hcollected.parts, hcollected.field,
        hprogress hcollected.progress⟩
    split at hrun1
    · unfold processUsageOnly at hrun1
      rw [Effect.run_bind_ok (Effect.run_get _), hopen', if_pos (by rfl)] at hrun1
      exact Effect.of_run_throw hrun1
    · obtain ⟨hagrees, hprogress', hsame, hend⟩ := collected_choice hcollected' hopen' hrun1
      have hcompletionId := hsame.completionId.trans hknown
      have hunseen' := hsame.seen.trans (hseen.trans hunseen)
      refine ⟨fun frame hmem => ⟨id, hidentity frame hmem, hcompletionId⟩, hdeltas ▸ hagrees,
        hdeltas ▸ hprogress', ?_⟩
      obtain ⟨hnone, hcollected'', hopen''⟩ | ⟨reason, hreason, hterminal', hresult⟩ := hend
      · refine .open hopen'' hunseen' (fun frame hmem => ?_) ?_
        · obtain hmem | hmem := List.mem_append.mp hmem
          · exact hframes frame hmem
          · exact List.mem_singleton.mp hmem ▸ hnone
        · rw [List.map_append, List.map_singleton]
          exact hcollected''
      · refine .finished reason frames [] object rfl hframes hreason hterminal' ?_
          (.inl ⟨rfl, hunseen'⟩)
        rw [List.map_append, List.map_singleton]
        exact hresult
  | finished reason before rest finish hframes hbefore hfinish hended hresult hrest =>
    obtain ⟨husage, hfirst, hnoted, hterminal', hresult', hcompletionId, hprogress'⟩ :=
      accepted_usage (hterminal.trans hended) hrun1
    have hrest : rest = [] := by
      obtain ⟨hnil, -⟩ | ⟨_, -, -, hseen'⟩ := hrest
      · exact hnil
      · exact absurd ((hseen.symm.trans hfirst).symm.trans hseen') Bool.false_ne_true
    subst hrest
    have hsplit : frames ++ [object] = before ++ finish :: [object] := by
      rw [hframes, List.append_assoc]
      rfl
    have hdeltas : streamDeltas (frames ++ [object]) = streamDeltas frames := by
      rw [hsplit, hframes, streamDeltas_finished hbefore hfinish,
        streamDeltas_finished hbefore hfinish]
    refine ⟨fun frame hmem => ⟨id, hidentity frame hmem, hcompletionId.trans hknown⟩,
      hdeltas ▸ h.agrees, hdeltas ▸ hprogress' _ (hprogress h.progress), ?_⟩
    exact .finished reason before [object] finish hsplit hbefore hfinish
      (hterminal'.trans (hterminal.trans hended))
      (hresult'.trans ((hassembly (fun assembly => assembly.result) fun _ => rfl).trans hresult))
      (.inr ⟨object, rfl, husage, hnoted⟩)

/-- One accepted payload. -/
theorem streamInvariant_payload {frames : List Json} {payload : JsText}
    (h : StreamInvariant options frames state)
    (hrun : Effect.run (processSsePayload options payload) state = (.ok (), after)) :
    StreamInvariant options (frames ++ framesOf options [payload]) after := by
  unfold processSsePayload at hrun
  unfold framesOf
  rw [List.filterMap_cons, List.filterMap_nil]
  split at hrun
  · next hdone =>
    rw [Effect.run_bind_ok (Effect.run_get _)] at hrun
    split at hrun
    · exact Effect.of_run_throw hrun
    · obtain rfl := (Effect.of_run_pure hrun).2
      rw [if_pos hdone, List.append_nil]
      exact h
  · next hpayload =>
    rw [if_neg hpayload]
    split at hrun
    · exact Effect.of_run_throw hrun
    · next fields hparse =>
      rw [hparse]
      exact streamInvariant_frame h hrun
    · exact Effect.of_run_throw hrun

theorem streamInvariant_payloads {frames : List Json} {payloads : List JsText}
    (h : StreamInvariant options frames state)
    (hrun : Effect.run (payloads.forM (processSsePayload options)) state = (.ok ⟨⟩, after)) :
    StreamInvariant options (frames ++ framesOf options payloads) after := by
  induction payloads generalizing frames state with
  | nil =>
    obtain rfl := (Effect.of_run_pure hrun).2
    rw [framesOf, List.filterMap_nil, List.append_nil]
    exact h
  | cons payload payloads ih =>
    obtain ⟨⟨⟩, middle, hfirst, hrest⟩ := Effect.exists_of_run_bind hrun
    have hframes : framesOf options (payload :: payloads) =
        framesOf options [payload] ++ framesOf options payloads := by
      rw [framesOf, framesOf, framesOf, ← List.filterMap_append]
      rfl
    rw [hframes, ← List.append_assoc]
    exact ih (streamInvariant_payload h hfirst) hrest

theorem streamInvariant_accepted {payloads : List JsText} (h : Accepted options payloads state) :
    StreamInvariant options (framesOf options payloads) state :=
  streamInvariant_payloads streamInvariant_start h

/-- The response of an accepted stream. -/
structure Assembles (options : StreamOptions) (frames : List Json) (state : StreamState) :
    Prop where
  /-- The finish gives the reference response of the deltas up to it. -/
  result : ∀ reason, state.assembly.terminal = some reason →
    state.assembly.result = referenceResult options reason (streamDeltas frames)
  /-- Nothing but one frame with usage follows the finish. -/
  usage : ∀ before finish rest reason, frames = before ++ finish :: rest →
    frameFinish finish = some reason → rest = [] ∨ ∃ usage, rest = [usage] ∧ UsageFrame reason usage
  front : ∀ value ∈ state.progress, value <+: referenceText (streamDeltas frames)
  growing : state.progress.Pairwise fun earlier later =>
    earlier <+: later ∧ earlier.length < later.length

theorem assembles_of_invariant {frames : List Json} (h : StreamInvariant options frames state) :
    Assembles options frames state where
  result reason hreason := by
    cases h.phase with
    | «open» hopen =>
      rw [hopen] at hreason
      cases hreason
    | finished reason' before rest finish hframes hbefore hfinish hended hresult =>
      rw [hended] at hreason
      cases hreason
      rw [hresult, hframes, streamDeltas_finished hbefore hfinish]
  usage before finish rest reason hframes hfinish := by
    cases h.phase with
    | «open» _ _ hopen =>
      have hnone := hopen finish (hframes ▸ List.mem_append_right _ List.mem_cons_self)
      rw [hfinish] at hnone
      cases hnone
    | finished reason' before' rest' finish' hframes' hbefore' hfinish' _ _ hrest' =>
      have hsplit : before' ++ finish' :: rest' = before ++ finish :: rest :=
        hframes'.symm.trans hframes
      obtain ⟨between, hbefore, hrest⟩ | ⟨between, hbefore, hrest⟩ :=
        List.append_eq_append_iff.mp hsplit
      · cases between with
        | nil =>
          cases hrest
          rw [hfinish] at hfinish'
          cases hfinish'
          exact hrest'.imp And.left fun ⟨usage, hnil, husage, _⟩ => ⟨usage, hnil, husage⟩
        | cons first between =>
          -- the frame is the one with usage, and nothing follows it
          obtain ⟨-, hrest⟩ := List.cons.inj hrest
          obtain ⟨hnil, -⟩ | ⟨usage, hone, -⟩ := hrest'
          · rw [hnil] at hrest
            exact absurd hrest.symm (List.append_ne_nil_of_right_ne_nil _ (List.cons_ne_nil _ _))
          · have hjoined : [usage] = between ++ finish :: rest := hone.symm.trans hrest
            have hlength := congrArg List.length hjoined
            rw [List.length_append, List.length_cons, List.length_cons, List.length_nil] at hlength
            exact .inl (List.length_eq_zero_iff.mp (by omega))
      · cases between with
        | nil =>
          cases hrest
          rw [hfinish] at hfinish'
          cases hfinish'
          exact hrest'.imp And.left fun ⟨usage, hnil, husage, _⟩ => ⟨usage, hnil, husage⟩
        | cons first between =>
          obtain ⟨rfl, -⟩ := List.cons.inj hrest
          have hnone := hbefore' finish (hbefore ▸ List.mem_append_right _ List.mem_cons_self)
          rw [hfinish] at hnone
          cases hnone
  front value hmem := (h.progress.reported value hmem).trans h.progress.grown
  growing := h.progress.growing

/-- The same content, the same fragments of each call and the same reasoning, in whatever order
content and the fragments of different calls came. -/
structure SameDeltas (deltas deltas' : List Json) : Prop where
  text : referenceText deltas' = referenceText deltas
  groups : ∀ index, groupOf (referenceFragments deltas') index =
    groupOf (referenceFragments deltas) index
  details : deltas'.flatMap deltaDetails = deltas.flatMap deltaDetails
  reasoning : deltas'.filterMap plainReasoning = deltas.filterMap plainReasoning

theorem referenceIndexes_congr {fragments fragments' : List Json}
    (h : ∀ index, groupOf fragments' index = groupOf fragments index) :
    referenceIndexes fragments' = referenceIndexes fragments := by
  have hmem : ∀ (fragments : List Json) (index : Nat),
      index ∈ (fragments.filterMap fragmentIndex).dedup ↔ groupOf fragments index ≠ [] := by
    intro fragments index
    rw [List.mem_dedup, List.mem_filterMap, Ne, List.eq_nil_iff_forall_not_mem, not_forall]
    simp only [mem_groupOf, not_not]
  have hperm : (fragments'.filterMap fragmentIndex).dedup.Perm
      (fragments.filterMap fragmentIndex).dedup :=
    (List.perm_ext_iff_of_nodup (List.nodup_dedup _) (List.nodup_dedup _)).mpr fun index => by
      rw [hmem, hmem, h]
  exact insertionSort_of_perm hperm

/-- The reference response does not depend on the interleaving. -/
theorem referenceResult_congr {deltas deltas' : List Json} (h : SameDeltas deltas deltas')
    (reason : FinishReason) :
    referenceResult options reason deltas' = referenceResult options reason deltas := by
  have hcall : referenceCall options.parse (referenceFragments deltas') =
      referenceCall options.parse (referenceFragments deltas) := by
    funext index
    unfold referenceCall
    rw [h.groups]
  unfold referenceResult referenceState
  rw [h.text, h.details, h.reasoning, hcall, referenceIndexes_congr h.groups]

/-- A frame that breaks the rules after the frames that came before. -/
inductive Breaks (frames : List Json) (frame : Json) : Prop
  | completionId (earlier : Json) (hearlier : earlier ∈ frames)
    (hchanged : frame.field? "id" ≠ earlier.field? "id")
  | toolId (index : Nat) (earlier given changed : Json) (id id' : JsText)
    (hearlier : earlier ∈ frames)
    (hgiven : given ∈ deltaToolCalls (frameDelta earlier))
    (hchanged : changed ∈ deltaToolCalls (frameDelta frame))
    (hindex : fragmentIndex given = some index) (hindex' : fragmentIndex changed = some index)
    (hid : fragmentId given = some id) (hid' : fragmentId changed = some id') (hne : id' ≠ id)
  | toolName (index : Nat) (earlier given changed : Json) (name name' : JsText)
    (hearlier : earlier ∈ frames)
    (hgiven : given ∈ deltaToolCalls (frameDelta earlier))
    (hchanged : changed ∈ deltaToolCalls (frameDelta frame))
    (hindex : fragmentIndex given = some index) (hindex' : fragmentIndex changed = some index)
    (hname : fragmentName given = some name) (hname' : fragmentName changed = some name')
    (hne : name' ≠ name)
  | afterFinish (finish : Json) (reason : FinishReason) (hmem : finish ∈ frames)
    (hfinish : frameFinish finish = some reason)
    (hlate : deltaContent (frameDelta frame) ≠ [] ∨ deltaToolCalls (frameDelta frame) ≠ [] ∨
      isStreamUsage (frame.field? "usage") = false)

theorem field?_of_nonBlank {value : Option Json} {text : JsText}
    (h : nonBlankText value = some text) : value = some (.str text) := by
  have htext := textOf_of_nonBlank h
  cases value with
  | none => cases h
  | some value =>
    cases value with
    | str value =>
      cases htext
      rfl
    | _ => cases htext

/-- A frame that breaks the rules does not go on an invariant stream. -/
theorem not_breaks {frames : List Json} {frame : Json}
    (h : StreamInvariant options (frames ++ [frame]) state) : ¬ Breaks frames frame := by
  have hlate : ∀ finish ∈ frames, ∀ reason, frameFinish finish = some reason →
      UsageFrame reason frame := by
    intro finish hmem reason hfinish
    obtain ⟨before, rest, rfl⟩ := List.append_of_mem hmem
    obtain hnil | ⟨usage, hone, husage⟩ := (assembles_of_invariant h).usage before finish
      (rest ++ [frame]) reason (by rw [List.append_assoc]; rfl) hfinish
    · exact absurd hnil (List.append_ne_nil_of_right_ne_nil _ (List.cons_ne_nil _ _))
    · have hlast := congrArg List.getLast? hone
      rw [List.getLast?_concat] at hlast
      cases hlast
      exact husage
  have hempty : frame.field? "choices" = some (.arr []) → deltaContent (frameDelta frame) = [] ∧
      deltaToolCalls (frameDelta frame) = [] := by
    intro hchoices
    have hchoice : frameChoice frame = .null := by
      unfold frameChoice
      rw [hchoices]
    unfold frameDelta
    rw [hchoice]
    exact ⟨rfl, rfl⟩
  -- a frame with tool calls comes before any finish
  have hfragments : ∀ earlier ∈ frames, ∀ given ∈ deltaToolCalls (frameDelta earlier),
      ∀ changed ∈ deltaToolCalls (frameDelta frame),
      given ∈ referenceFragments (streamDeltas (frames ++ [frame])) ∧
        changed ∈ referenceFragments (streamDeltas (frames ++ [frame])) := by
    intro earlier hearlier given hgiven changed hchanged
    have hopen : ∀ other ∈ frames, frameFinish other = none := by
      intro other hother
      cases hfinish : frameFinish other with
      | none => rfl
      | some reason =>
        obtain ⟨-, hchoices | ⟨-, -, hnone⟩⟩ := hlate other hother reason hfinish
        · rw [(hempty hchoices).2] at hchanged
          cases hchanged
        · rw [hnone] at hchanged
          cases hchanged
    rw [streamDeltas_open hopen]
    refine ⟨List.mem_flatMap.mpr ⟨_, List.mem_append_left _ (List.mem_map_of_mem hearlier), hgiven⟩,
      List.mem_flatMap.mpr ⟨_, List.mem_append_right _ List.mem_cons_self, hchanged⟩⟩
  intro hbreaks
  cases hbreaks with
  | completionId earlier hearlier hchanged =>
    obtain ⟨id, hid, hknown⟩ := h.identity frame (List.mem_append_right _ List.mem_cons_self)
    obtain ⟨id', hid', hknown'⟩ := h.identity earlier (List.mem_append_left _ hearlier)
    rw [hknown] at hknown'
    cases hknown'
    exact hchanged ((field?_of_nonBlank hid).trans (field?_of_nonBlank hid').symm)
  | toolId index earlier given changed id id' hearlier hgiven hchanged hindex hindex' hid hid' hne =>
    obtain ⟨hmem, hmem'⟩ := hfragments earlier hearlier given hgiven changed hchanged
    have hfirst := h.agrees.id index given (mem_groupOf.mpr ⟨hmem, hindex⟩) id hid
    have hsecond := h.agrees.id index changed (mem_groupOf.mpr ⟨hmem', hindex'⟩) id' hid'
    exact hne (Option.some.inj (hsecond.symm.trans hfirst))
  | toolName index earlier given changed name name' hearlier hgiven hchanged hindex hindex' hname
      hname' hne =>
    obtain ⟨hmem, hmem'⟩ := hfragments earlier hearlier given hgiven changed hchanged
    have hfirst := h.agrees.name index given (mem_groupOf.mpr ⟨hmem, hindex⟩) name hname
    have hsecond := h.agrees.name index changed (mem_groupOf.mpr ⟨hmem', hindex'⟩) name' hname'
    exact hne (Option.some.inj (hsecond.symm.trans hfirst))
  | afterFinish finish reason hmem hfinish hlate' =>
    obtain ⟨husage, hdelta⟩ := hlate finish hmem reason hfinish
    have hnone : deltaContent (frameDelta frame) = [] ∧ deltaToolCalls (frameDelta frame) = [] :=
      hdelta.elim hempty And.right
    obtain hcontent | htools | hnot := hlate'
    · exact hcontent hnone.1
    · exact htools hnone.2
    · exact Bool.false_ne_true (hnot.symm.trans husage)

/-- The response of an accepted stream is the reference response of its deltas, whatever order
content and the fragments of different calls come in; only a frame with usage follows the finish;
progress grows along the text; and a payload that breaks the rules is refused. -/
theorem stream_assembles {payloads : List JsText} (h : Accepted options payloads state) :
    Assembles options (framesOf options payloads) state ∧
    (∀ payloads' state', Accepted options payloads' state' →
      SameDeltas (streamDeltas (framesOf options payloads))
        (streamDeltas (framesOf options payloads')) →
      ∀ reason, state.assembly.terminal = some reason → state'.assembly.terminal = some reason →
      state'.assembly.result = state.assembly.result) ∧
    ∀ payload frame, payload ≠ endOfStream → options.parse payload = some frame →
      Breaks (framesOf options payloads) frame →
      ∀ after, Effect.run (processSsePayload options payload) state ≠ (.ok (), after) := by
  have hinvariant := streamInvariant_accepted h
  have hassembles := assembles_of_invariant hinvariant
  refine ⟨hassembles, fun payloads' state' h' hsame reason hreason hreason' => ?_,
    fun payload frame hpayload hparse hbreaks after hrun => ?_⟩
  · have hassembles' := assembles_of_invariant (streamInvariant_accepted h')
    rw [hassembles.result reason hreason, hassembles'.result reason hreason',
      referenceResult_congr hsame]
  · have hnext := streamInvariant_payload hinvariant hrun
    have hone : framesOf options [payload] = [frame] := by
      rw [framesOf, List.filterMap_cons, if_neg hpayload, hparse]
      rfl
    rw [hone] at hnext
    exact not_breaks hnext hbreaks

end Accepted

/-! ## Two streams -/

namespace StreamRun

def field (key : String) (value : Json) : JsText × Json := (js key, value)

def fragment (index : String) (rest : List (JsText × Json)) : Json :=
  .obj (field "index" (.num (js index)) :: rest)

def function (fields : List (JsText × Json)) : JsText × Json := field "function" (.obj fields)

def frame (delta : List (JsText × Json)) (finish : Json) (rest : List (JsText × Json)) : Json :=
  .obj ([field "id" (.str (js "c")),
    field "choices" (.arr [.obj [field "index" (.num (js "0")), field "delta" (.obj delta),
      field "finish_reason" finish]])] ++ rest)

def content (text : String) : JsText × Json := field "content" (.str (js text))

def toolDelta (fragments : List Json) : List (JsText × Json) :=
  [field "tool_calls" (.arr fragments)]

def usage : JsText × Json :=
  field "usage" (.obj (usageRequiredKeys.map fun key => field key (.num (js "1"))))

/-- A text and two calls, whose fragments come in turns. -/
def interleaved : List Json :=
  [frame [content "Look"] .null [],
    frame (toolDelta [fragment "1" [field "id" (.str (js "b")),
      function [field "name" (.str (js "read")), field "arguments" (.str (js "\x7b"))]]]) .null [],
    frame (content "ing" :: toolDelta [fragment "0" [field "id" (.str (js "a")),
      function [field "name" (.str (js "edit")), field "arguments" (.str (js "tr"))]]]) .null [],
    frame (toolDelta [fragment "1" [function [field "arguments" (.str (js "\x7d"))]],
      fragment "0" [function [field "arguments" (.str (js "ue"))]]]) .null [],
    frame [] (.str (js "tool_calls")) [],
    .obj [field "id" (.str (js "c")), field "choices" (.arr []), usage]]

/-- The same deltas, call after call. -/
def grouped : List Json :=
  [frame (toolDelta [fragment "0" [field "id" (.str (js "a")),
      function [field "name" (.str (js "edit")), field "arguments" (.str (js "tr"))]]]) .null [],
    frame (toolDelta [fragment "0" [function [field "arguments" (.str (js "ue"))]]]) .null [],
    frame (toolDelta [fragment "1" [field "id" (.str (js "b")),
      function [field "name" (.str (js "read")), field "arguments" (.str (js "\x7b"))]],
      fragment "1" [function [field "arguments" (.str (js "\x7d"))]]]) .null [],
    frame [content "Look"] .null [],
    frame [content "ing"] (.str (js "tool_calls")) []]

/-- A frame that gives call 0 another id. -/
def renamed : Json := frame (toolDelta [fragment "0" [field "id" (.str (js "x"))]]) .null []

/-- A stop whose usage comes with the stop again and with reasoning. -/
def stopRepeated : List Json :=
  [frame [content "Done"] (.str (js "stop")) [],
    frame [field "reasoning" (.str (js "hm"))] (.str (js "stop")) [usage]]

/-- `JSON.parse` on the texts of these streams. -/
def streamOptions : StreamOptions where
  parse text := (interleaved ++ grouped ++ [renamed] ++ stopRepeated ++
    [Json.obj [], Json.bool true]).find? fun value => stringify value == text
  reports := true
  providerId := js "openrouter"
  modelId := js "m"

def payloadsOf (frames : List Json) : List JsText := frames.map stringify ++ [endOfStream]

/-- The state after a stream. -/
def streamState (frames : List Json) : StreamState :=
  (Effect.run ((payloadsOf frames).forM (processSsePayload streamOptions)) .start).2

theorem accepted_of_ok {frames : List Json}
    (h : (Effect.run ((payloadsOf frames).forM (processSsePayload streamOptions)) .start).1.isOk) :
    Accepted streamOptions (payloadsOf frames) (streamState frames) := by
  unfold Accepted streamState
  generalize Effect.run ((payloadsOf frames).forM (processSsePayload streamOptions)) .start = ran at h
  obtain ⟨_ | ⟨⟨⟩⟩, state⟩ := ran
  · cases h
  · rfl

theorem sameDeltas_grouped :
    SameDeltas (streamDeltas (framesOf streamOptions (payloadsOf interleaved)))
      (streamDeltas (framesOf streamOptions (payloadsOf grouped))) where
  text := by decide +kernel
  groups index := by
    have hindexes : ∀ frames ∈ [interleaved, grouped],
        ∀ fragment ∈ referenceFragments (streamDeltas (framesOf streamOptions (payloadsOf frames))),
        fragmentIndex fragment = some 0 ∨ fragmentIndex fragment = some 1 := by
      decide +kernel
    have hnone : ∀ frames ∈ [interleaved, grouped], 1 < index →
        groupOf (referenceFragments (streamDeltas (framesOf streamOptions (payloadsOf frames))))
          index = [] := by
      intro frames hframes hindex
      refine List.filter_eq_nil_iff.mpr fun fragment hmem => ?_
      obtain h | h := hindexes frames hframes fragment hmem
      all_goals
        rw [h, beq_iff_eq, Option.some.injEq]
        omega
    match index with
    | 0 => decide +kernel
    | 1 => decide +kernel
    | index + 2 =>
      rw [hnone interleaved (by decide) (by omega), hnone grouped (by decide) (by omega)]
  details := by decide +kernel
  reasoning := by decide +kernel

/-- The two orders give one response, and the call keeps the id that it has. -/
theorem interleaved_assembles :
    (streamState interleaved).assembly.result = some (.toolCalls
      [⟨js "a", js "edit", .bool true⟩, ⟨js "b", js "read", .obj []⟩] (some (js "Looking")) none) ∧
    (streamState grouped).assembly.result = (streamState interleaved).assembly.result ∧
    Assembles streamOptions (framesOf streamOptions (payloadsOf interleaved))
      (streamState interleaved) ∧
    ∀ after, Effect.run (processSsePayload streamOptions (stringify renamed))
      (streamState (interleaved.take 5)) ≠ (.ok (), after) := by
  have haccepted : Accepted streamOptions (payloadsOf interleaved) (streamState interleaved) :=
    accepted_of_ok (by decide +kernel)
  have hgrouped : Accepted streamOptions (payloadsOf grouped) (streamState grouped) :=
    accepted_of_ok (by decide +kernel)
  have hearly : Accepted streamOptions (payloadsOf (interleaved.take 5))
      (streamState (interleaved.take 5)) :=
    accepted_of_ok (by decide +kernel)
  obtain ⟨hassembles, hsame, -⟩ := stream_assembles haccepted
  obtain ⟨-, -, hbreaks⟩ := stream_assembles hearly
  refine ⟨by decide +kernel, hsame _ _ hgrouped sameDeltas_grouped .toolCalls (by decide +kernel)
    (by decide +kernel), hassembles, hbreaks _ renamed (by decide +kernel) (by decide +kernel) ?_⟩
  exact .afterFinish (frame [] (.str (js "tool_calls")) []) .toolCalls (by decide +kernel)
    (by decide +kernel) (.inr (.inl (by decide +kernel)))

/-- A second finish after the first, with reasoning, is accepted. -/
theorem finish_repeated :
    ∃ payloads state, Accepted streamOptions payloads state ∧
      ((framesOf streamOptions payloads).filterMap frameFinish).length = 2 ∧
      (framesOf streamOptions payloads).map (fun frame => (plainReasoning (frameDelta frame)).isSome) =
        [false, true] :=
  ⟨payloadsOf stopRepeated, streamState stopRepeated, accepted_of_ok (by decide +kernel),
    by decide +kernel, by decide +kernel⟩

end StreamRun

end Henji
