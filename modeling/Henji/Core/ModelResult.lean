import Henji.Core.TurnState

/-!
# What a model returns

A model's result comes in as an unknown value. `checkedResult` is the loop's check of it;
`readableThinkingFromState` selects the readable reasoning of a provider state.
-/

namespace Henji

/-- `value[key]` of a JSON object. -/
def Json.field? (key : String) : Json → Option Json
  | .obj fields => fields.lookup (js key)
  | _ => none

/-- A text at a key of a JSON object. -/
def Json.textField? (key : String) (value : Json) : Option JsText :=
  match value.field? key with
  | some (.str text) => some text
  | _ => none

/-! ## The check of a result -/

/-- Maximum UTF-8 bytes of one conversation text. -/
def maxConversationTextBytes : Nat := 1048576

/-- `value === undefined || typeof value === 'string' && value.length > 0`. -/
def absentOrNonemptyText : Option Json → Bool
  | none => true
  | some (.str text) => !text.isEmpty
  | some _ => false

def isNonemptyArray : Json → Bool
  | .arr items => !items.isEmpty
  | _ => false

/-- `state.reasoning` of a provider state without replay items. -/
def isReasoning (reasoning : Json) : Bool :=
  (reasoning.textField? "field" == some (js "reasoning") ||
      reasoning.textField? "field" == some (js "reasoning_content")) &&
    (reasoning.textField? "text").any fun text => !text.isEmpty

def isProviderState (state : Json) : Bool :=
  ((state.textField? "provider").any fun text => !text.isEmpty) &&
    absentOrNonemptyText (state.field? "model") &&
    match state.field? "replayItems" with
    | some items => isNonemptyArray items
    | none =>
      (state.field? "reasoning").all isReasoning &&
        (state.field? "reasoningDetails").all isNonemptyArray &&
        ((state.field? "reasoning").isSome || (state.field? "reasoningDetails").isSome)

def isToolCall (call : ToolCall) : Bool :=
  !isBlankName call.callId && !isBlankName call.name

def ModelResult.providerState : ModelResult → Option Json
  | .final _ state => state
  | .toolCalls _ _ state => state

def isModelResult (result : ModelResult) : Bool :=
  result.providerState.all isProviderState &&
    match result with
    | .final text _ => (encodeUtf8 text).length ≤ maxConversationTextBytes
    | .toolCalls calls text _ =>
      !calls.isEmpty && calls.all isToolCall &&
        text.all fun text => !text.isEmpty && (encodeUtf8 text).length ≤ maxConversationTextBytes

/-- A model's result: a value of the declared type, or another value, by its shape (`null`,
`array` or a `typeof`). -/
inductive ModelReply where
  | result (result : ModelResult)
  | other (shape : String)

/-- The result, when it passes the check. -/
def checkedResult : ModelReply → Option ModelResult
  | .result result => if isModelResult result then some result else none
  | .other _ => none

/-- The shape of a value that fails the check. -/
def actualShape : ModelReply → String
  | .result _ => "object"
  | .other shape => shape

/-! ## Progress snapshots -/

def maxToolProgressTextBytes : Nat := 8192

/-- A live snapshot is a well-formed text of at most `limit` UTF-8 bytes and not empty. -/
def isValidSnapshot (limit : Nat) (text : JsText) : Bool :=
  !text.isEmpty && hasWellFormedUnicode text && (encodeUtf8 text).length ≤ limit

def isValidAssistantProgressSnapshot : JsText → Bool := isValidSnapshot maxConversationTextBytes
def isValidToolProgressSnapshot : JsText → Bool := isValidSnapshot maxToolProgressTextBytes

/-! ## Readable thinking -/

/-- `parts.filter(nonempty).join('\n\n')`. -/
def joined (parts : List JsText) : JsText :=
  ((parts.filter fun part => !part.isEmpty).intersperse [0xa, 0xa]).flatten

/-- The full text goes before the summary; neither is shown empty. -/
def selectThinking (text summary : JsText) : Option ReadableThinking :=
  if !text.isEmpty then some ⟨.text, text⟩
  else if !summary.isEmpty then some ⟨.summary, summary⟩
  else none

/-- The texts at `key` of the items whose `type` is `kind`. -/
def textsOfType (kind key : String) (items : List Json) : List JsText :=
  items.filterMap fun item =>
    if item.textField? "type" = some (js kind) then item.textField? key else none

def arrayItems : Option Json → List Json
  | some (.arr items) => items
  | _ => []

def readableThinkingFromDetails (details : Option Json) : Option ReadableThinking :=
  selectThinking (joined (textsOfType "reasoning.text" "text" (arrayItems details)))
    (joined (textsOfType "reasoning.summary" "summary" (arrayItems details)))

def readableThinkingFromState (state : Option Json) : Option ReadableThinking :=
  match state with
  | none => none
  | some state => match state.field? "replayItems" with
    | some replayItems =>
      let items := (arrayItems (some replayItems)).filter fun item =>
        item.textField? "type" = some (js "reasoning")
      selectThinking
        (joined (items.flatMap fun item =>
          textsOfType "reasoning_text" "text" (arrayItems (item.field? "content"))))
        (joined (items.flatMap fun item =>
          textsOfType "summary_text" "text" (arrayItems (item.field? "summary"))))
    | none =>
      match (state.field? "reasoning").bind (Json.textField? "text") with
      | some (u :: rest) => some ⟨.text, u :: rest⟩
      | _ => readableThinkingFromDetails (state.field? "reasoningDetails")

end Henji
