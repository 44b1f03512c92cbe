import Henji.Json

/-!
# Messages, tool calls and model results

The provider-neutral values that the loop, the history and the conversation exchange.
-/

namespace Henji

structure ToolCall where
  callId : String
  name : String
  arguments : Json
deriving DecidableEq

inductive ToolResultOutcome where
  | success
  | error
deriving DecidableEq, Repr

inductive TerminalKind where
  | jsonResult
deriving DecidableEq, Repr

structure ToolResultContent where
  callId : String
  name : String
  text : JsText
  outcome : ToolResultOutcome
  terminal : Option TerminalKind
  failure : Option Json
deriving DecidableEq

inductive ToolExecutionResult where
  | «continue» (text : JsText)
  | terminate (text finalText : JsText) (terminalKind : TerminalKind)
deriving DecidableEq, Repr

inductive AssistantContent where
  | text (text : JsText)
  | calls (calls : List ToolCall)
deriving DecidableEq

/-- A transcript message. A steering message is a user message inside a running turn. -/
inductive Message where
  | user (text : JsText) (steering : Bool)
  | assistant (content : AssistantContent) (text : Option JsText) (providerState : Option Json)
  | tool (content : List ToolResultContent)
deriving DecidableEq

inductive ModelResult where
  | final (text : JsText) (providerState : Option Json)
  | toolCalls (calls : List ToolCall) (text : Option JsText) (providerState : Option Json)
deriving DecidableEq

/-- `result.text`: absent only for tool calls without visible text. -/
def ModelResult.visibleText : ModelResult → Option JsText
  | .final text _ => some text
  | .toolCalls _ text _ => text

/-- The calls of a result of kind `tool_calls`, when there are any. -/
def ModelResult.declaredCalls : ModelResult → Option (List ToolCall)
  | .final _ _ | .toolCalls [] _ _ => none
  | .toolCalls calls _ _ => some calls

inductive LoopStopReason where
  | final
  | toolTerminal
  | maxSteps
  | contractFailure
  | cancelled
  | interrupted
deriving DecidableEq, Repr

end Henji
