import Henji.Conversation.HistoryAdapter
import Henji.Library.Replacement

/-!
# Failure details

The few facts that are kept of an exception. `captureFailureDetails` reads them from the thrown
value, removes known credentials, cuts each text to its limit and then halves the longest text while
the whole is too long. `validateFailureDetails` is the check a reader makes.

A thrown value is seen through its property reads; a read has no effect and gives the same value
each time.
-/

namespace Henji

/-! ## Values of the language -/

/-- A number: an integer, or any other number by its printed text. -/
inductive JsNumber where
  | integer (value : Int)
  | other (text : JsText)
deriving DecidableEq, Repr

/-- A value as `unknown`. An object lists its own enumerable keys and reads any property. -/
inductive JsValue where
  | undefined
  | null
  | boolean (value : Bool)
  | number (value : JsNumber)
  | string (text : JsText)
  | function (name : JsValue)
  | object (isArray : Bool) (keys : List JsText) (get : JsText → JsValue)
  /-- A symbol or a big integer. -/
  | other

namespace JsValue

/-- `item?.key` for `item = record(value)`. -/
def field (value : JsValue) (key : String) : JsValue :=
  match value with
  | .object _ _ get => get (js key)
  | _ => .undefined

/-- `value ?? fallback`. -/
def orElse (value fallback : JsValue) : JsValue :=
  match value with
  | .undefined | .null => fallback
  | value => value

/-- An own enumerable property, as a spread copies it. -/
def own (value : JsValue) (key : JsText) : Option JsValue :=
  match value with
  | .object _ keys get => if key ∈ keys then some (get key) else none
  | _ => none

end JsValue

namespace FailureCapture

def maxSafeInteger : Int := 9007199254740991

/-- `String(number)`. -/
def printNumber : JsNumber → JsText
  | .integer n => if n < 0 then 0x2d :: decimal n.natAbs else decimal n.natAbs
  | .other text => text

/-- A number inside JSON, where a number that is not finite is `null`. -/
def jsonNumber : JsNumber → Json
  | .integer n => .num (printNumber (.integer n))
  | .other text =>
    if text ∈ [js "NaN", js "Infinity", js "-Infinity"] then .null else .num text

/-- `Number.isSafeInteger(value) && value >= 0`. -/
def isSafeCount : JsNumber → Bool
  | .integer n => n.natAbs ≤ maxSafeInteger ∧ 0 ≤ n
  | .other _ => false

/-! ## The shape of the details -/

def MAX_FAILURE_DETAILS_BYTES : Nat := 4096
def MAX_FAILURE_MESSAGE_BYTES : Nat := 512
def MAX_FAILURE_VALUE_BYTES : Nat := 128

inductive StringKey where
  | operation
  | exceptionType
  | message
  | errorCode
  | errorType
  | param
  | causeType
  | causeCode
  | requestId
  | responseId
  | field
  | expectedShape
  | actualShape
  | lastStreamEvent
deriving DecidableEq, Repr

def stringKeys : List StringKey :=
  [.operation, .exceptionType, .message, .errorCode, .errorType, .param, .causeType, .causeCode,
    .requestId, .responseId, .field, .expectedShape, .actualShape, .lastStreamEvent]

namespace StringKey

def name : StringKey → String
  | operation => "operation"
  | exceptionType => "exceptionType"
  | message => "message"
  | errorCode => "errorCode"
  | errorType => "errorType"
  | param => "param"
  | causeType => "causeType"
  | causeCode => "causeCode"
  | requestId => "requestId"
  | responseId => "responseId"
  | field => "field"
  | expectedShape => "expectedShape"
  | actualShape => "actualShape"
  | lastStreamEvent => "lastStreamEvent"

def limit (key : StringKey) : Nat :=
  if key = message then MAX_FAILURE_MESSAGE_BYTES else MAX_FAILURE_VALUE_BYTES

theorem mem_stringKeys (key : StringKey) : key ∈ stringKeys := by
  cases key <;> decide

end StringKey

structure FailureDetails where
  text : StringKey → Option JsText
  streamEventCount : Option JsNumber
  completedReceived : Option Bool
  truncated : Bool

namespace FailureDetails

/-- The fields in the order in which they were assigned. -/
def entries (details : FailureDetails) : List (JsText × Json) :=
  (stringKeys.filterMap fun key => (details.text key).map fun text => (js key.name, .str text)) ++
    (details.streamEventCount.map fun n => (js "streamEventCount", jsonNumber n)).toList ++
    (details.completedReceived.map fun b => (js "completedReceived", .bool b)).toList ++
    (if details.truncated then [(js "truncated", .bool true)] else [])

/-- `encoder.encode(JSON.stringify(result)).length`. -/
def jsonBytes (details : FailureDetails) : Nat :=
  (encodeUtf8 (stringify (.obj details.entries))).length

/-- The property reads of the details. -/
def get (details : FailureDetails) (key : JsText) : JsValue :=
  match stringKeys.find? fun member => js member.name = key with
  | some member => (details.text member).elim .undefined .string
  | none =>
    if key = js "streamEventCount" then details.streamEventCount.elim .undefined .number
    else if key = js "completedReceived" then details.completedReceived.elim .undefined .boolean
    else if key = js "truncated" ∧ details.truncated then .boolean true
    else .undefined

/-- The details as the plain object that a reader checks. -/
def asValue (details : FailureDetails) : JsValue :=
  .object false (details.entries.map Prod.fst) details.get

end FailureDetails

/-! ## The check -/

def allowed : List JsText :=
  stringKeys.map (fun key => js key.name) ++
    [js "streamEventCount", js "completedReceived", js "truncated"]

/-- What `JSON.stringify` prints of a checked field; the check leaves no other kind. -/
def printed : JsValue → Option Json
  | .null => some .null
  | .boolean b => some (.bool b)
  | .number n => some (jsonNumber n)
  | .string text => some (.str text)
  | _ => none

def textAllowed (limit : Nat) : JsValue → Bool
  | .undefined => true
  | .string text => (encodeUtf8 text).length ≤ limit
  | _ => false

def countAllowed : JsValue → Bool
  | .undefined => true
  | .number n => isSafeCount n
  | _ => false

def flagAllowed : JsValue → Bool
  | .undefined | .boolean _ => true
  | _ => false

def truncatedAllowed : JsValue → Bool
  | .undefined | .boolean true => true
  | _ => false

def validateFailureDetails : JsValue → Bool
  | .object false keys get =>
    keys.all (fun key => key ∈ allowed) &&
      stringKeys.all (fun key => textAllowed key.limit (get (js key.name))) &&
      countAllowed (get (js "streamEventCount")) &&
      flagAllowed (get (js "completedReceived")) &&
      truncatedAllowed (get (js "truncated")) &&
      (encodeUtf8 (stringify (.obj (keys.filterMap fun key =>
        (printed (get key)).map fun value => (key, value))))).length ≤ MAX_FAILURE_DETAILS_BYTES
  | _ => false

/-! ## Reading the thrown value -/

structure Options where
  operation : Option JsText
  secrets : List JsText
  facts : JsValue

/-- SDK subclasses may inherit `Error.name`; plain error objects carry an explicit name. -/
def exceptionType (value : JsValue) : JsValue :=
  match value.field "constructor" with
  | .function .undefined => value.field "name"
  | .function (.string name) =>
    if name ≠ js "Error" ∧ name ≠ js "Object" then .string name else value.field "name"
  | .function name => name
  | _ => value.field "name"

/-- Details that an inner boundary captured, where they pass the check. -/
def saved (error : JsValue) : JsValue :=
  let inherited := ((error.field "failureFact").field "details").orElse
    (error.field "failureDetails")
  if validateFailureDetails inherited then inherited else .undefined

def readMember (error : JsValue) (options : Options) : StringKey → JsValue
  | .operation => match options.operation with
    | some operation => .string operation
    | none => .undefined
  | .exceptionType => exceptionType error
  | .message => (error.field "message").orElse
      (match error with | .string text => .string text | _ => .undefined)
  | .errorCode => (error.field "code").orElse ((error.field "error").field "code")
  | .errorType => (error.field "type").orElse ((error.field "error").field "type")
  | .param => (error.field "param").orElse ((error.field "error").field "param")
  | .causeType => exceptionType (error.field "cause")
  | .causeCode => (error.field "cause").field "code"
  | .requestId => error.field "requestID"
  | .field => (error.field "failureFact").field "field"
  | .expectedShape => (error.field "failureFact").field "expectedShape"
  | .actualShape => (error.field "failureFact").field "actualShape"
  | .responseId | .lastStreamEvent => .undefined

/-- A later spread wins over an earlier one, and both over the members read. -/
def spread (error : JsValue) (options : Options) (key : JsText) (base : JsValue) : JsValue :=
  ((saved error).own key).getD ((options.facts.own key).getD base)

def candidate (error : JsValue) (options : Options) (key : StringKey) : JsValue :=
  spread error options (js key.name) (readMember error options key)

/-- `String(value)` where the value is a string or a number. -/
def candidateText (error : JsValue) (options : Options) (key : StringKey) : Option JsText :=
  match candidate error options key with
  | .string text => some text
  | .number n => some (printNumber n)
  | _ => none

/-! ## The forms of a secret -/

def upperHexDigit (n : Nat) : UInt16 := UInt16.ofNat (if n < 10 then 0x30 + n else 0x37 + n)

def percentByte (b : UInt8) : JsText :=
  [0x25, upperHexDigit (b.toNat / 0x10), upperHexDigit (b.toNat % 0x10)]

def isAsciiLetter (n : Nat) : Bool := (0x41 ≤ n && n ≤ 0x5a) || (0x61 ≤ n && n ≤ 0x7a)
def isAsciiDigit (n : Nat) : Bool := 0x30 ≤ n && n ≤ 0x39

/-- The code points that `encodeURIComponent` keeps. -/
def isUriMark (n : Nat) : Bool :=
  isAsciiLetter n || isAsciiDigit n ||
    [0x2d, 0x5f, 0x2e, 0x21, 0x7e, 0x2a, 0x27, 0x28, 0x29].contains n

def uriPoint (n : Nat) : JsText :=
  if isUriMark n then pointUnits n else (encodePoint n).flatMap percentByte

/-- `encodeURIComponent`; an unpaired surrogate is a `URIError`. -/
def encodeURIComponent (text : JsText) : Option JsText :=
  if hasWellFormedUnicode text then some ((codePoints text).flatMap uriPoint) else none

/-- `JSON.stringify(secret).slice(1, -1)`. -/
def jsonForm (secret : JsText) : JsText := ((quote secret).drop 1).dropLast

def formsOf (secret : JsText) : Option (List JsText) :=
  (encodeURIComponent secret).map fun uri => [secret, uri, jsonForm secret]

/-- The texts to remove, in order; `none` where encoding one throws. -/
def secretForms (secrets : List JsText) : Option (List JsText) :=
  ((secrets.filter fun secret => 0 < secret.length).mapM formsOf).map List.flatten

/-! ## Authorization patterns

Both patterns run with the flags `giu`, where the long s and the Kelvin sign fold to letters. -/

def isSpace (u : UInt16) : Bool := isTrimmed u.toNat

def foldUnit (u : UInt16) : UInt16 :=
  if 0x41 ≤ u ∧ u ≤ 0x5a then u + 0x20
  else if u = 0x17f then 0x73
  else if u = 0x212a then 0x6b
  else u

/-- `\w`. -/
def isWord (u : UInt16) : Bool :=
  isAsciiLetter (foldUnit u).toNat || isAsciiDigit u.toNat || u == 0x5f

/-- `\b` between an element and the one before it. -/
def isBoundary (previous : Option UInt16) (u : UInt16) : Bool :=
  previous.any isWord != isWord u

/-- What follows a literal at the front of a text. -/
def afterLiteral : JsText → JsText → Option JsText
  | [], text => some text
  | w :: word, u :: text => if foldUnit u = w then afterLiteral word text else none
  | _ :: _, [] => none

/-- `\s*` is greedy and gives back while what follows does not match. -/
def afterSpaces (next : JsText → Option JsText) : JsText → Option JsText
  | [] => next []
  | u :: text =>
    if isSpace u then (afterSpaces next text).orElse fun _ => next (u :: text)
    else next (u :: text)

/-- `[class]+`. -/
def afterRun (inClass : UInt16 → Bool) : JsText → Option JsText
  | [] => none
  | u :: text => if inClass u then some (text.dropWhile inClass) else none

/-- `[:=]`. -/
def afterSeparator : JsText → Option JsText
  | [] => none
  | u :: text => if u = 0x3a ∨ u = 0x3d then some text else none

/-- `[^\r\n,;]`. -/
def isHeaderValue (u : UInt16) : Bool := u ≠ 0x0d ∧ u ≠ 0x0a ∧ u ≠ 0x2c ∧ u ≠ 0x3b

/-- `[A-Za-z0-9._~+/=-]`. -/
def isCredential (u : UInt16) : Bool :=
  isAsciiLetter (foldUnit u).toNat || isAsciiDigit u.toNat ||
    [0x2e, 0x5f, 0x7e, 0x2b, 0x2f, 0x3d, 0x2d].contains u

/-- `[:=]\s*[^\r\n,;]+`. -/
def afterHeaderValue (text : JsText) : Option JsText := do
  let text ← afterSeparator text
  afterSpaces (afterRun isHeaderValue) text

/-- `\s+[A-Za-z0-9._~+/=-]+`. -/
def afterSchemeValue : JsText → Option JsText
  | [] => none
  | u :: text => if isSpace u then afterSpaces (afterRun isCredential) text else none

def afterHeader (text : JsText) : Option JsText :=
  ["authorization", "proxy-authorization", "x-api-key", "api-key"].findSome? fun name => do
    let text ← afterLiteral (js name) text
    afterSpaces afterHeaderValue text

def afterScheme (text : JsText) : Option JsText :=
  ["bearer", "basic"].findSome? fun name => do
    let text ← afterLiteral (js name) text
    afterSchemeValue text

/-- A pattern that starts at a word boundary. -/
def findPattern (after : JsText → Option JsText) : Finder UInt16 := fun previous text =>
  match text with
  | [] => 0
  | u :: _ =>
    if isBoundary previous u then
      match after text with
      | some rest => text.length - rest.length
      | none => 0
    else 0

/-! ## Redaction and truncation -/

def redactedMarker : JsText := js "[redacted]"
def authorizationMarker : JsText := js "[redacted authorization]"

def removeForms (forms : List JsText) (text : JsText) : JsText :=
  forms.foldl (fun cleaned form => replaceMatches (findNeedle form) redactedMarker 0 none cleaned)
    text

def redact (forms : List JsText) (text : JsText) : JsText :=
  replaceMatches (findPattern afterScheme) authorizationMarker 0 none
    (replaceMatches (findPattern afterHeader) authorizationMarker 0 none (removeForms forms text))

/-- The complete UTF-8 prefix, without a split final code point. -/
def cutText (text : JsText) (limit : Nat) : JsText :=
  (decodeUtf8 ((encodeUtf8 text).take (prefixEnd (encodeUtf8 text) limit))).getD []

/-- The text that is kept, and whether it was cut. -/
def shorten (forms : List JsText) (value : JsText) (limit : Nat) : JsText × Bool :=
  let cleaned := redact forms value
  if (encodeUtf8 cleaned).length ≤ limit then (cleaned, false) else (cutText cleaned limit, true)

/-! ## Capture -/

def isCut (forms : List JsText) (error : JsValue) (options : Options) (key : StringKey) : Bool :=
  (candidateText error options key).any fun text => (shorten forms text key.limit).2

/-- The details before the whole is bounded. -/
def draftDetails (forms : List JsText) (error : JsValue) (options : Options) : FailureDetails where
  text key := (candidateText error options key).map fun text => (shorten forms text key.limit).1
  streamEventCount :=
    match spread error options (js "streamEventCount") .undefined with
    | .number n => some n
    | _ => none
  completedReceived :=
    match spread error options (js "completedReceived") .undefined with
    | .boolean b => some b
    | _ => none
  truncated :=
    (match (saved error).field "truncated" with | .boolean true => true | _ => false) ||
      stringKeys.any (isCut forms error options)

/-- `String(result[key] ?? '').length`. -/
def FailureDetails.size (details : FailureDetails) (key : StringKey) : Nat :=
  ((details.text key).getD []).length

def longestKey (details : FailureDetails) : StringKey :=
  stringKeys.foldl (fun longest key =>
    if details.size longest < details.size key then key else longest) .message

/-- One round of the size loop. -/
def halveLongest (forms : List JsText) (details : FailureDetails) : FailureDetails :=
  let key := longestKey details
  let text := (details.text key).getD (js "undefined")
  let limit := max 1 ((encodeUtf8 text).length / 2)
  { details with
    text := Function.update details.text key (some (shorten forms text limit).1)
    truncated := true }

/-- The size loop; `none` where the rounds do not suffice. -/
def boundDetails (forms : List JsText) : Nat → FailureDetails → Option FailureDetails
  | 0, details => if details.jsonBytes ≤ MAX_FAILURE_DETAILS_BYTES then some details else none
  | rounds + 1, details =>
    if details.jsonBytes ≤ MAX_FAILURE_DETAILS_BYTES then some details
    else boundDetails forms rounds (halveLongest forms details)

inductive Failure where
  | uriError
  /-- The size loop is still running. -/
  | unfinished
deriving DecidableEq, Repr

def captureFailureDetails (rounds : Nat) (error : JsValue) (options : Options) :
    Except Failure FailureDetails :=
  match secretForms options.secrets with
  | none => .error .uriError
  | some forms =>
    match boundDetails forms rounds (draftDetails forms error options) with
    | some details => .ok details
    | none => .error .unfinished

end FailureCapture

end Henji
