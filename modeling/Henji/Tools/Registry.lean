import Henji.Core.TurnState

/-!
# The tool registry and its dispatch

A `Registry` holds tools with distinct names that are not blank. `dispatch` runs one call and
turns whatever the tool does into the content of a tool result; only a cancelled turn and a failed
cleanup leave it as errors.

Results:
1. `dispatch_spec`: a result carries the identity and the name of its call, it is marked terminal
   exactly when the dispatch reports a terminal result, and then the tool is a terminal tool. What
   is stable, and kept by the progress reporter, survives the dispatch.
-/

namespace Henji

/-- The code units of an identifier. -/
def nameUnits (name : String) : JsText := name.toList.flatMap fun c => pointUnits c.toNat

/-! ## Tools -/

/-- What a tool's execution returns. The last three are values outside its declared type: a
`continue` without a text, a value that is no object, and any other object. -/
inductive ToolReply where
  | text (text : JsText)
  | execution (result : ToolExecutionResult)
  | continueWithoutText
  | noObject
  | unrecognised

/-- The context of one tool call. The signal and the owner are part of the shared state. -/
structure ToolContext where
  modelStep : Nat
  callId : String
  reportsProgress : Bool

structure Tool (ω : Type) where
  name : String
  description : JsText
  inputSchema : Json
  terminal : Bool
  execute : Reporting ω (Json × ToolContext) JsText ToolReply

structure ToolDefinition where
  name : String
  description : JsText
  inputSchema : Json
deriving DecidableEq

/-- `RegistryDispatchResult['terminal']`. -/
structure TerminalResult where
  kind : TerminalKind
  finalText : JsText
deriving DecidableEq, Repr

structure RegistryDispatchResult where
  content : ToolResultContent
  terminal : Option TerminalResult
deriving DecidableEq

/-- What `captureFailureDetails` captures: an error or a text. -/
inductive Cause where
  | thrown (error : Thrown)
  | text (text : JsText)

/-- The bounded failure details of a cause, an operation and further facts. -/
abbrev FailureCapture : Type := Cause → String → List (String × String) → Json

/-- The tools of a turn, in the order in which they were registered. -/
structure Registry (ω : Type) where
  tools : List (Tool ω)
  named : ∀ tool ∈ tools, isBlankName tool.name = false
  distinct : (tools.map (·.name)).Nodup

namespace Registry

variable {ω : Type}

def empty : Registry ω := ⟨[], nofun, List.nodup_nil⟩

/-- One round of the constructor's loop. -/
def add (registry : Registry ω) (tool : Tool ω) : Except String (Registry ω) :=
  if hblank : isBlankName tool.name then .error "tool name must not be empty"
  else if hdup : tool.name ∈ registry.tools.map (·.name) then
    .error ("duplicate tool name: " ++ tool.name)
  else .ok {
    tools := registry.tools ++ [tool]
    named := by
      intro other h
      rcases List.mem_append.mp h with h | h
      · exact registry.named other h
      · rw [List.mem_singleton.mp h]
        exact Bool.eq_false_iff.mpr hblank
    distinct := by
      rw [List.map_append, List.nodup_append]
      refine ⟨registry.distinct, List.nodup_singleton _, ?_⟩
      rintro a ha b hb rfl
      rw [List.map_singleton, List.mem_singleton] at hb
      exact hdup (hb ▸ ha) }

/-- The constructor. -/
def create (tools : List (Tool ω)) : Except String (Registry ω) := tools.foldlM add empty

def resolve (registry : Registry ω) (name : String) : Option (Tool ω) :=
  registry.tools.find? fun tool => tool.name == name

/-- The definitions by name, in code unit order. -/
def definitions (registry : Registry ω) : List ToolDefinition :=
  (registry.tools.mergeSort fun a b => textLE (nameUnits a.name) (nameUnits b.name)).map
    fun tool => ⟨tool.name, tool.description, tool.inputSchema⟩

end Registry

/-! ## Dispatch -/

section Dispatch

variable {ω : Type}

/-- A result without a terminal mark. -/
def continuing (call : ToolCall) (text : JsText) (outcome : ToolResultOutcome)
    (failure : Option Json) : RegistryDispatchResult :=
  ⟨⟨call.callId, call.name, text, outcome, none, failure⟩, none⟩

def continuingError (call : ToolCall) (message : JsText) : RegistryDispatchResult :=
  continuing call (js "tool execution error: " ++ message) .error none

/-- The result of a tool that returned. -/
def replyResult (call : ToolCall) (terminal : Bool) : ToolReply → RegistryDispatchResult
  | .text text =>
    if terminal then
      continuingError call (js "tool returned a continuing result from a terminal tool")
    else continuing call text .success none
  | .noObject => continuingError call (js "tool returned an invalid execution result")
  | .execution (.continue text) =>
    if terminal then
      continuingError call (js "tool returned a continuing result from a terminal tool")
    else continuing call text .success none
  | .continueWithoutText =>
    continuingError call (js (if terminal then
      "tool returned a continuing result from a terminal tool"
      else "tool returned an invalid execution result"))
  | .execution (.terminate text finalText terminalKind) =>
    if terminal then
      ⟨⟨call.callId, call.name, text, .success, some terminalKind, none⟩,
        some ⟨terminalKind, finalText⟩⟩
    else continuingError call (js "tool returned a terminal result from a non-terminal tool")
  | .unrecognised =>
    continuingError call (js (if terminal then "tool returned an invalid terminal result"
      else "tool returned a terminal result from a non-terminal tool"))

/-- The result of a tool that threw, or the errors that leave the dispatch. -/
def thrownResult (capture : FailureCapture) (call : ToolCall) :
    Thrown → Except Thrown RegistryDispatchResult
  | .turnCancelled => .error .turnCancelled
  | .cancellationCleanup => .error .cancellationCleanup
  | .toolInput message =>
    .ok (continuing call (js "invalid arguments: " ++ message) .error
      (some (capture (.thrown (.toolInput message)) "tool_execute" [])))
  | error =>
    .ok (continuing call (js "tool execution error: " ++ errorText error) .error
      (some (capture (.thrown error) "tool_execute" [])))

/-- `Registry.dispatch`. -/
def dispatch (capture : FailureCapture) (registry : Registry ω) (call : ToolCall)
    (context : ToolContext) (onProgress : JsText → TurnEffect ω Unit) :
    TurnEffect ω RegistryDispatchResult := do
  if ← aborted then
    throw .turnCancelled
  else match registry.resolve call.name with
    | none =>
      return continuing call (js "unknown tool: " ++ nameUnits call.name) .error none
    | some tool =>
      match ← Effect.attempt (callReporting tool.execute onProgress (call.arguments, context)) with
      | .ok reply => return replyResult call tool.terminal reply
      | .error error => Effect.ofExcept (thrownResult capture call error)

/-! ## What a dispatch gives -/

/-- What the loop relies on in a dispatched result. -/
structure DispatchedFor (registry : Registry ω) (call : ToolCall)
    (result : RegistryDispatchResult) : Prop where
  callId : result.content.callId = call.callId
  name : result.content.name = call.name
  terminal : result.content.terminal.isSome = result.terminal.isSome
  terminalTool : result.terminal.isSome = true →
    (registry.resolve call.name).any (·.terminal) = true

namespace RegistryLemmas

variable {registry : Registry ω} {call : ToolCall}

theorem dispatchedFor_continuing (text : JsText) (outcome : ToolResultOutcome)
    (failure : Option Json) :
    DispatchedFor registry call (continuing call text outcome failure) :=
  ⟨rfl, rfl, rfl, nofun⟩

theorem dispatchedFor_replyResult {tool : Tool ω} (h : registry.resolve call.name = some tool)
    (reply : ToolReply) : DispatchedFor registry call (replyResult call tool.terminal reply) := by
  cases reply with
  | execution result =>
    cases result with
    | «continue» text =>
      dsimp only [replyResult]
      split <;> exact dispatchedFor_continuing _ _ _
    | terminate text finalText kind =>
      dsimp only [replyResult]
      split
      · next ht => exact ⟨rfl, rfl, rfl, fun _ => by rw [h]; exact ht⟩
      · exact dispatchedFor_continuing _ _ _
  | text text =>
    dsimp only [replyResult]
    split <;> exact dispatchedFor_continuing _ _ _
  | continueWithoutText | noObject | unrecognised => exact dispatchedFor_continuing _ _ _

theorem dispatchedFor_thrownResult {capture : FailureCapture} {error : Thrown}
    {result : RegistryDispatchResult} (h : thrownResult capture call error = .ok result) :
    DispatchedFor registry call result := by
  cases error <;> cases h <;> exact dispatchedFor_continuing _ _ _

end RegistryLemmas

open RegistryLemmas

/-- Whatever the tool does, the result is one of its call, and a terminal one only of a terminal
tool. -/
theorem dispatch_spec {I : TurnState ω → Prop} (hI : TurnStable I) (capture : FailureCapture)
    (registry : Registry ω) (call : ToolCall) (context : ToolContext)
    {onProgress : JsText → TurnEffect ω Unit} (hp : ∀ text, Effect.Keeps I (onProgress text)) :
    Effect.Triple I (dispatch capture registry call context onProgress)
      (fun result s => DispatchedFor registry call result ∧ I s) (fun _ s => I s) := by
  unfold dispatch
  refine Effect.triple_bind (Q := fun _ => I) aborted_keeps fun stopped => ?_
  cases stopped with
  | true => exact Effect.triple_throw _ fun _ hs => hs
  | false =>
    rw [if_neg Bool.false_ne_true]
    cases hr : registry.resolve call.name with
    | none => exact Effect.triple_pure _ fun _ hs => ⟨dispatchedFor_continuing _ _ _, hs⟩
    | some tool =>
      refine Effect.triple_bind (Q := fun _ => I)
        (Effect.keeps_attempt (callReporting_keeps hI tool.execute hp _)) fun ended => ?_
      cases ended with
      | ok reply => exact Effect.triple_pure _ fun _ hs => ⟨dispatchedFor_replyResult hr _, hs⟩
      | error error =>
        exact Effect.triple_ofExcept _
          (fun _ _ ht hs => ⟨dispatchedFor_thrownResult ht, hs⟩) (fun _ _ _ hs => hs)

end Dispatch

end Henji
