import Henji.Core.ModelResult
import Henji.Library.Effect
import Henji.Library.InsMap
import Mathlib.Data.List.Sort

/-!
# Assembling a streamed response

A streamed response comes as payloads of server-sent events. Each is a JSON text with a delta of the
response, up to a frame with a finish reason; one frame with usage may follow it, and then
`[DONE]`. `processSsePayload` adds a payload to the assembly or refuses it.

A number of a JSON value is the text of `String(n)`.
-/

namespace Henji

/-! ## Values -/

def jsonNull : Option Json → Bool
  | none => true
  | some .null => true
  | some _ => false

def maxSafeInteger : Nat := 9007199254740991

def isDigit (u : UInt16) : Bool := 0x30 ≤ u && u ≤ 0x39

def digitsValue (text : JsText) : Nat := text.foldl (fun n u => n * 10 + (u.toNat - 0x30)) 0

/-- `Number.isSafeInteger(value) && value >= 0`, and the number. -/
def safeIndex : Option Json → Option Nat
  | some (.num text) =>
    if !text.isEmpty && text.all isDigit && digitsValue text ≤ maxSafeInteger then
      some (digitsValue text)
    else none
  | _ => none

mutual
/-- A number that overflows is read as an infinity, which is no JSON value. -/
def isJsonValue : Json → Bool
  | .num text => !(text == js "Infinity" || text == js "-Infinity")
  | .arr items => areJsonValues items
  | .obj fields => areJsonFields fields
  | _ => true

def areJsonValues : List Json → Bool
  | [] => true
  | item :: items => isJsonValue item && areJsonValues items

def areJsonFields : List (JsText × Json) → Bool
  | [] => true
  | (_, value) :: fields => isJsonValue value && areJsonFields fields
end

def nonBlankText : Option Json → Option JsText
  | some (.str text) => if isBlank text then none else some text
  | _ => none

def valueShape : Option Json → String
  | none => "absent"
  | some .null => "null"
  | some (.arr items) => s!"array(length={items.length})"
  | some (.bool _) => "boolean"
  | some (.num _) => "number"
  | some (.str _) => "string"
  | some (.obj _) => "object"

/-- The substrings that iterating over a text gives: surrogate pairs and single units. -/
def characters : JsText → List JsText
  | [] => []
  | [u] => [[u]]
  | u :: v :: rest =>
    if isHighSurrogate u && isLowSurrogate v then [u, v] :: characters rest
    else [u] :: characters (v :: rest)

/-! ## Failures -/

inductive ParseReason where
  | unsupportedDeltaShape
  | incompleteToolCall
  | invalidToolArguments
  | streamEndedBeforeDone
  | invalidSseJson
  | unsupportedResponseShape
  | providerReportedError
  | invalidCompletionIdentity
  | invalidUsageFrame
  | dataAfterTerminal
  | unsupportedChoiceShape
  | unsupportedFinishReason
  | emptyTerminalResult
  | responseBodyTooLarge
  | invalidUtf8
  | invalidSseFraming
deriving DecidableEq, Repr

inductive OpenRouterErrorCode where
  | responseError
  | limitExceeded
deriving DecidableEq, Repr

structure ShapeFact where
  field : String
  expectedShape : String
  actualShape : String
deriving DecidableEq, Repr

structure SseError where
  code : OpenRouterErrorCode
  message : String
  parseReason : ParseReason
  shape : Option ShapeFact
deriving DecidableEq, Repr

/-- `sseResponseError` without a shape. -/
def sseResponseError (message : String) (parseReason : ParseReason) : SseError :=
  ⟨.responseError, message, parseReason, none⟩

/-- `sseResponseError` with a shape. -/
def sseShapeError (message : String) (parseReason : ParseReason) (shape : ShapeFact) : SseError :=
  ⟨.responseError, message, parseReason, some shape⟩

/-! ## The assembly -/

inductive FinishReason where
  | stop
  | toolCalls
deriving DecidableEq, Repr

inductive ReasoningField where
  | reasoning
  | reasoningContent
deriving DecidableEq, Repr

structure StreamToolAssembly where
  id : Option JsText
  typed : Bool
  name : Option JsText
  arguments : JsText
deriving DecidableEq

structure StreamToolCall where
  callId : JsText
  name : JsText
  arguments : Json
deriving DecidableEq

/-- `reasoning` are the field and the text of the plain reasoning. -/
structure OpenRouterProviderState where
  provider : JsText
  model : JsText
  reasoning : Option (ReasoningField × JsText)
  reasoningDetails : Option (List Json)
deriving DecidableEq

inductive StreamResult where
  | final (text : JsText) (providerState : Option OpenRouterProviderState)
  | toolCalls (calls : List StreamToolCall) (text : Option JsText)
    (providerState : Option OpenRouterProviderState)
deriving DecidableEq

structure StreamAssembly where
  completionId : Option JsText
  textParts : List JsText
  textBytes : Nat
  sawText : Bool
  sawTools : Bool
  tools : InsMap Nat StreamToolAssembly
  reasoningDetails : List Json
  reasoningParts : List JsText
  reasoningField : Option ReasoningField
  liveFrozen : Bool
  progressText : JsText
  progressBytes : Nat
  lastReported : Option JsText
  terminal : Option FinishReason
  postTerminalUsageSeen : Bool
  result : Option StreamResult
deriving DecidableEq

/-- The assembly and what was reported of it. -/
structure StreamState where
  assembly : StreamAssembly
  progress : List JsText
  thinking : List ReadableThinking
deriving DecidableEq

def StreamState.start : StreamState where
  assembly := {
    completionId := none
    textParts := []
    textBytes := 0
    sawText := false
    sawTools := false
    tools := .empty
    reasoningDetails := []
    reasoningParts := []
    reasoningField := none
    liveFrozen := false
    progressText := []
    progressBytes := 0
    lastReported := none
    terminal := none
    postTerminalUsageSeen := false
    result := none }
  progress := []
  thinking := []

/-- What a request gives the reader of its stream. `parse` is `JSON.parse`, `none` where it throws;
`reports` says whether there is a listener to progress. -/
structure StreamOptions where
  parse : JsText → Option Json
  reports : Bool
  providerId : JsText
  modelId : JsText

abbrev StreamCode (α : Type) : Type := Effect SseError StreamState α

def modifyAssembly (f : StreamAssembly → StreamAssembly) : StreamCode Unit :=
  modify fun state => { state with assembly := f state.assembly }

/-! ## Tool calls -/

def conflicted : SseError :=
  sseResponseError "provider tool-call metadata conflicted" .incompleteToolCall

def emptyTool : StreamToolAssembly := ⟨none, false, none, []⟩

/-- The assembly of the tool call at an index; a new one is there already. -/
def StreamAssembly.tool (assembly : StreamAssembly) (index : Nat) : StreamToolAssembly :=
  (assembly.tools.get? index).getD emptyTool

def setTool (index : Nat) (f : StreamToolAssembly → StreamToolAssembly) : StreamCode Unit :=
  modifyAssembly fun assembly =>
    { assembly with tools := assembly.tools.set index (f (assembly.tool index)) }

/-- A text of a call, which the first fragment that has it gives. -/
def updateToolText (invalid : String) (known : StreamToolAssembly → Option JsText)
    (give : JsText → StreamToolAssembly → StreamToolAssembly) (index : Nat) (value : Option Json) :
    StreamCode Unit := do
  if jsonNull value then pure ()
  else match nonBlankText value with
    | none => throw (sseResponseError invalid .incompleteToolCall)
    | some text => do
      let state ← get
      if (known (state.assembly.tool index)).any (· ≠ text) then throw conflicted
      else setTool index (give text)

def updateToolId : Nat → Option Json → StreamCode Unit :=
  updateToolText "provider tool-call id was invalid" (fun target => target.id)
    fun id target => { target with id := some id }

def updateToolName : Nat → Option Json → StreamCode Unit :=
  updateToolText "provider tool-call name was invalid" (fun target => target.name)
    fun name target => { target with name := some name }

def updateToolType (index : Nat) (type : Option Json) : StreamCode Unit := do
  if jsonNull type then pure ()
  else if type = some (.str (js "function")) then
    setTool index fun target => { target with typed := true }
  else throw (sseResponseError "provider tool-call type was invalid" .incompleteToolCall)

def updateToolArguments (path : String) (index : Nat) (arguments : Option Json) :
    StreamCode Unit := do
  if jsonNull arguments then pure ()
  else match arguments with
    | some (.str text) =>
      setTool index fun target => { target with arguments := target.arguments ++ text }
    | _ => throw (sseShapeError "provider tool-call arguments were invalid" .invalidToolArguments
        ⟨s!"{path}.function.arguments", "string", valueShape arguments⟩)

def updateToolFunction (path : String) (index : Nat) (function : Option Json) :
    StreamCode Unit := do
  if jsonNull function then pure ()
  else match function with
    | some (.obj fields) => do
      updateToolName index ((Json.obj fields).field? "name")
      updateToolArguments path index ((Json.obj fields).field? "arguments")
    -- an array has neither field
    | some (.arr _) => pure ()
    | _ => throw (sseResponseError "provider tool-call function was invalid" .incompleteToolCall)

def isObjectOrArray : Json → Bool
  | .obj _ => true
  | .arr _ => true
  | _ => false

def updateStreamTool (raw : Json) (position : Nat) : StreamCode Unit := do
  let path := s!"choices[0].delta.tool_calls[{position}]"
  if !isObjectOrArray raw then
    throw (sseShapeError "provider tool call shape was unsupported" .unsupportedDeltaShape
      ⟨path, "object", valueShape (some raw)⟩)
  else match safeIndex (raw.field? "index") with
    | none =>
      throw (sseResponseError "provider tool-call index was invalid" .incompleteToolCall)
    | some index => do
      setTool index id
      updateToolId index (raw.field? "id")
      updateToolType index (raw.field? "type")
      updateToolFunction path index (raw.field? "function")

def updateStreamTools : List Json → Nat → StreamCode Unit
  | [], _ => pure ()
  | raw :: rest, position => do
    updateStreamTool raw position
    updateStreamTools rest (position + 1)

/-- One call of `completeStreamTools`. -/
def completeStreamTool (parse : JsText → Option Json) (index : Nat) (tool : StreamToolAssembly) :
    Except SseError StreamToolCall :=
  match nonBlankText (tool.id.map .str), nonBlankText (tool.name.map .str) with
  | some callId, some name =>
    let field := s!"choices[0].delta.tool_calls[{index}].function.arguments"
    match parse tool.arguments with
    | none => .error (sseShapeError "provider tool-call arguments were invalid"
        .invalidToolArguments ⟨field, "valid JSON string",
          s!"string(length={tool.arguments.length},invalid_json)"⟩)
    | some parsed =>
      if isJsonValue parsed then .ok ⟨callId, name, parsed⟩
      else .error (sseShapeError "provider tool-call arguments were invalid"
        .invalidToolArguments ⟨field, "JSON value", valueShape (some parsed)⟩)
  | _, _ =>
    .error (sseResponseError "provider tool-call metadata was incomplete" .incompleteToolCall)

def completeStreamTools (parse : JsText → Option Json) (assembly : StreamAssembly) :
    Except SseError (List StreamToolCall) :=
  (assembly.tools.keys.insertionSort (· ≤ ·)).mapM fun index =>
    completeStreamTool parse index (assembly.tool index)

/-! ## A frame -/

def usageRequiredKeys : List String := ["completion_tokens", "prompt_tokens", "total_tokens"]

def isStreamUsage (usage : Option Json) : Bool :=
  match usage with
  | some (.obj fields) =>
    usageRequiredKeys.all fun key => (safeIndex ((Json.obj fields).field? key)).isSome
  | _ => false

def finishReasonOf (choice : Json) : Except SseError (Option FinishReason) :=
  match choice.field? "finish_reason" with
  | none => .ok none
  | some .null => .ok none
  | some reason =>
    if reason = .str (js "stop") then .ok (some .stop)
    else if reason = .str (js "tool_calls") then .ok (some .toolCalls)
    else .error (sseResponseError "provider response finish reason was unsupported"
      .unsupportedFinishReason)

def choiceOf (object : Json) : Except SseError Json :=
  match object.field? "choices" with
  | some (.arr [.obj fields]) =>
    if (Json.obj fields).field? "index" = some (.num (js "0")) then .ok (.obj fields)
    else .error (sseResponseError "provider response choice index was invalid"
      .unsupportedChoiceShape)
  | _ => .error (sseResponseError "provider response choice shape was unsupported"
      .unsupportedChoiceShape)

def deltaOf (choice : Json) : Except SseError Json :=
  match choice.field? "delta" with
  | none => .ok (.obj [])
  | some (.obj fields) => .ok (.obj fields)
  | delta => .error (sseShapeError "provider response delta shape was unsupported"
      .unsupportedDeltaShape ⟨"choices[0].delta", "object", valueShape delta⟩)

def reasoningDetailsError (details : Option Json) : SseError :=
  let shape : ShapeFact := match details with
    | some (.arr items) =>
      let invalidIndex := items.findIdx fun item => !isJsonValue item
      ⟨s!"choices[0].delta.reasoning_details[{invalidIndex}]", "JSON value",
        valueShape items[invalidIndex]?⟩
    | details => ⟨"choices[0].delta.reasoning_details", "JSON array", valueShape details⟩
  sseShapeError "provider reasoning details were unsupported" .unsupportedDeltaShape shape

def addReasoningDetails (delta : Json) : StreamCode Unit :=
  match delta.field? "reasoning_details" with
  | none => pure ()
  | some .null => pure ()
  | some (.arr items) =>
    if items.all isJsonValue then
      modifyAssembly fun assembly =>
        { assembly with reasoningDetails := assembly.reasoningDetails ++ items }
    else throw (reasoningDetailsError (some (.arr items)))
  | details => throw (reasoningDetailsError details)

/-- The plain reasoning of a delta and its field. -/
def plainReasoning (delta : Json) : Option (ReasoningField × JsText) :=
  match delta.textField? "reasoning_content", delta.textField? "reasoning" with
  | some (u :: text), _ => some (.reasoningContent, u :: text)
  | _, some (u :: text) => some (.reasoning, u :: text)
  | _, _ => none

def addReasoning (delta : Json) : StreamCode Unit :=
  match plainReasoning delta with
  | some (field, part) =>
    modify fun state =>
      { state with
        assembly := { state.assembly with
          reasoningField := state.assembly.reasoningField.or (some field)
          reasoningParts := state.assembly.reasoningParts ++ [part] }
        thinking := state.thinking ++ [⟨.text, part⟩] }
  | none =>
    modify fun state =>
      { state with
        thinking := state.thinking ++
          (readableThinkingFromDetails (delta.field? "reasoning_details")).toList }

/-- The checks of a delta's content, role and tool calls. -/
def checkDelta (delta : Json) : Except SseError Unit :=
  let content := delta.field? "content"
  let role := delta.field? "role"
  let toolCalls := delta.field? "tool_calls"
  let unsupported (message field expected : String) (value : Option Json) :
      Except SseError Unit :=
    .error (sseShapeError message .unsupportedDeltaShape ⟨field, expected, valueShape value⟩)
  if !jsonNull content && (delta.textField? "content").isNone then
    unsupported "provider response content was unsupported" "choices[0].delta.content"
      "string or null" content
  else if !jsonNull role && role ≠ some (.str (js "assistant")) then
    unsupported "provider response role was invalid" "choices[0].delta.role"
      "assistant or null" role
  else match toolCalls with
    | none => .ok ()
    | some .null => .ok ()
    | some (.arr _) => .ok ()
    | _ => unsupported "provider response tool calls were unsupported"
        "choices[0].delta.tool_calls" "array or null" toolCalls

/-- `deltaObject.content`, where it is a text and not empty. -/
def deltaContent (delta : Json) : JsText := (delta.textField? "content").getD []

def deltaToolCalls (delta : Json) : List Json := arrayItems (delta.field? "tool_calls")

def dataAfterTerminal : SseError :=
  sseResponseError "provider response contained data after terminal" .dataAfterTerminal

/-- A frame after the finish: one with usage and without content. -/
def processPostTerminal (terminal : FinishReason) (object : Json) (finishReason : Option FinishReason)
    (delta : Json) : StreamCode Unit := do
  let state ← get
  let usage := object.field? "usage"
  if state.assembly.postTerminalUsageSeen || jsonNull usage || !isStreamUsage usage ||
      finishReason ≠ some terminal || !(deltaContent delta).isEmpty ||
      !(deltaToolCalls delta).isEmpty || (delta.field? "content").any (· ≠ .str []) then
    throw dataAfterTerminal
  else modifyAssembly fun assembly => { assembly with postTerminalUsageSeen := true }

/-- The loop over the characters of a content that adds to the progress. -/
def addProgressCharacters : List JsText → StreamAssembly → StreamAssembly
  | [], assembly => assembly
  | character :: rest, assembly =>
    let size := (encodeUtf8 character).length
    if maxConversationTextBytes < assembly.progressBytes + size then
      { assembly with liveFrozen := true }
    else addProgressCharacters rest { assembly with
      progressText := assembly.progressText ++ character
      progressBytes := assembly.progressBytes + size }

def reportProgress (content : JsText) : StreamCode Unit := do
  modifyAssembly (addProgressCharacters (characters content))
  let state ← get
  let text := state.assembly.progressText
  if !text.isEmpty && state.assembly.lastReported ≠ some text then
    modify fun state =>
      { state with
        assembly := { state.assembly with lastReported := some text }
        progress := state.progress ++ [text] }
  modifyAssembly fun assembly =>
    { assembly with
      liveFrozen := assembly.liveFrozen || decide (maxConversationTextBytes < assembly.textBytes) }

def addContent (options : StreamOptions) (content : JsText) : StreamCode Unit := do
  if content.isEmpty then pure ()
  else
    modifyAssembly fun assembly =>
      { assembly with
        sawText := true
        textParts := assembly.textParts ++ [content]
        textBytes := assembly.textBytes + (encodeUtf8 content).length }
    let state ← get
    if maxConversationTextBytes < state.assembly.textBytes then
      throw ⟨.limitExceeded, "assistant response exceeds 1 MiB", .responseBodyTooLarge, none⟩
    else if options.reports && !state.assembly.liveFrozen then reportProgress content
    else pure ()

def addToolCalls (fragments : List Json) : StreamCode Unit := do
  if fragments.isEmpty then pure ()
  else
    modifyAssembly fun assembly => { assembly with sawTools := true }
    updateStreamTools fragments 0

def providerStateOf (options : StreamOptions) (assembly : StreamAssembly) :
    Option OpenRouterProviderState :=
  if assembly.reasoningDetails.isEmpty && assembly.reasoningParts.isEmpty then none
  else some {
    provider := options.providerId
    model := options.modelId
    reasoning := if assembly.reasoningParts.isEmpty then none
      else assembly.reasoningField.map fun field => (field, assembly.reasoningParts.flatten)
    reasoningDetails := if assembly.reasoningDetails.isEmpty then none
      else some assembly.reasoningDetails }

/-- The frame with a finish reason. -/
def finishStream (options : StreamOptions) : FinishReason → StreamCode Unit
  | .stop => do
    let state ← get
    let assembly := state.assembly
    if !assembly.sawText || assembly.sawTools || assembly.textBytes == 0 then
      throw (sseResponseError "provider stop result was empty or unsupported" .emptyTerminalResult)
    else modifyAssembly fun assembly =>
      { assembly with
        terminal := some .stop
        result := some (.final assembly.textParts.flatten (providerStateOf options assembly)) }
  | .toolCalls => do
    let state ← get
    if !state.assembly.sawTools then
      throw (sseResponseError "provider tool result was empty or unsupported" .emptyTerminalResult)
    else
      modifyAssembly fun assembly => { assembly with terminal := some .toolCalls }
      let state ← get
      let calls ← Effect.ofExcept (completeStreamTools options.parse state.assembly)
      modifyAssembly fun assembly =>
        { assembly with
          result := some (.toolCalls calls
            (if assembly.sawText then some assembly.textParts.flatten else none)
            (providerStateOf options assembly)) }

/-- `choices: []` with usage. -/
def processUsageOnly (object : Json) : StreamCode Unit := do
  let state ← get
  if state.assembly.terminal.isNone then
    throw (sseResponseError "provider usage frame arrived before terminal" .invalidUsageFrame)
  else if state.assembly.postTerminalUsageSeen || !isStreamUsage (object.field? "usage") then
    throw dataAfterTerminal
  else modifyAssembly fun assembly => { assembly with postTerminalUsageSeen := true }

def checkCompletionId (object : Json) : StreamCode Unit := do
  match nonBlankText (object.field? "id") with
  | none =>
    throw (sseResponseError "provider completion id was invalid" .invalidCompletionIdentity)
  | some id => do
    let state ← get
    match state.assembly.completionId with
    | none => modifyAssembly fun assembly => { assembly with completionId := some id }
    | some known =>
      if known = id then pure ()
      else throw (sseResponseError "provider completion id changed" .invalidCompletionIdentity)

def processChoice (options : StreamOptions) (object : Json) : StreamCode Unit := do
  let choice ← Effect.ofExcept (choiceOf object)
  let finishReason ← Effect.ofExcept (finishReasonOf choice)
  let delta ← Effect.ofExcept (deltaOf choice)
  addReasoningDetails delta
  addReasoning delta
  Effect.ofExcept (checkDelta delta)
  let state ← get
  match state.assembly.terminal with
  | some terminal => processPostTerminal terminal object finishReason delta
  | none =>
    if !jsonNull (object.field? "usage") && finishReason.isNone then
      throw (sseResponseError "provider usage frame arrived before terminal" .invalidUsageFrame)
    else
      addContent options (deltaContent delta)
      addToolCalls (deltaToolCalls delta)
      match finishReason with
      | none => pure ()
      | some reason => finishStream options reason

def processFrame (options : StreamOptions) (object : Json) : StreamCode Unit := do
  if !jsonNull (object.field? "error") then
    throw (sseResponseError "provider response reported an error" .providerReportedError)
  else
    checkCompletionId object
    if !jsonNull (object.field? "usage") && object.field? "choices" = some (.arr []) then
      processUsageOnly object
    else processChoice options object

def endOfStream : JsText := js "[DONE]"

def processSsePayload (options : StreamOptions) (payload : JsText) : StreamCode Unit := do
  if payload = endOfStream then
    let state ← get
    if state.assembly.terminal.isNone || state.assembly.result.isNone then
      throw (sseResponseError "provider stream ended before a terminal result"
        .streamEndedBeforeDone)
    else pure ()
  else match options.parse payload with
    | none => throw (sseResponseError "provider response contained invalid JSON" .invalidSseJson)
    | some (.obj fields) => processFrame options (.obj fields)
    | some _ =>
      throw (sseResponseError "provider response shape was unsupported" .unsupportedResponseShape)

end Henji
