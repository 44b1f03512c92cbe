import Henji.Library.Transducer
import Henji.Provider.StreamAssembly

/-!
# Reading a stream of server-sent events

`SseFramer` turns the chunks of a response body into the payloads of its events: it decodes UTF-8,
splits lines at CR LF, CR and LF, and gives the `data` lines of an event to a handler at the next
empty line. `readSseResponse` reads chunk by chunk until the handler has accepted `[DONE]`.

What the turn's cancellation, its deadline, the end of the body and the cancellation of the reader
do is the same throughout a read.
-/

namespace Henji

/-! ## The decoder -/

/-- `TextDecoder` with `fatal`: `needed` bytes of `point` are missing, and the next of them lies
between `lower` and `upper`. -/
structure Utf8Decoder where
  point : Nat
  needed : Nat
  lower : Nat
  upper : Nat
  bomSeen : Bool
deriving DecidableEq

namespace Utf8Decoder

def start : Utf8Decoder := ⟨0, 0, 0x80, 0xbf, false⟩

/-- A complete point; a byte order mark is dropped at the start. -/
def emit (decoder : Utf8Decoder) (point : Nat) : Utf8Decoder × List Nat :=
  (⟨0, 0, 0x80, 0xbf, true⟩, if !decoder.bomSeen && point == 0xfeff then [] else [point])

def lead (decoder : Utf8Decoder) (point needed lower upper : Nat) : Utf8Decoder × List Nat :=
  (⟨point, needed, lower, upper, decoder.bomSeen⟩, [])

def decodeByte : Transducer Utf8Decoder UInt8 Nat := fun decoder byte =>
  let n := byte.toNat
  if decoder.needed = 0 then
    if n < 0x80 then some (decoder.emit n)
    else if 0xc2 ≤ n ∧ n ≤ 0xdf then some (decoder.lead (n - 0xc0) 1 0x80 0xbf)
    else if 0xe0 ≤ n ∧ n ≤ 0xef then
      some (decoder.lead (n - 0xe0) 2 (if n = 0xe0 then 0xa0 else 0x80)
        (if n = 0xed then 0x9f else 0xbf))
    else if 0xf0 ≤ n ∧ n ≤ 0xf4 then
      some (decoder.lead (n - 0xf0) 3 (if n = 0xf0 then 0x90 else 0x80)
        (if n = 0xf4 then 0x8f else 0xbf))
    else none
  else if decoder.lower ≤ n ∧ n ≤ decoder.upper then
    let point := decoder.point * 0x40 + (n - 0x80)
    if decoder.needed = 1 then some (decoder.emit point)
    else some (decoder.lead point (decoder.needed - 1) 0x80 0xbf)
  else none

/-- `decode(bytes, { stream: true })`: the points of the text, `none` where it throws. -/
def decode : Utf8Decoder → List UInt8 → Option (Utf8Decoder × List Nat) :=
  Transducer.feed decodeByte

end Utf8Decoder

/-! ## The framer -/

/-- What a payload handler throws. -/
inductive HandlerError where
  | response (error : SseError)
  | eventDelivery
  | other
deriving DecidableEq

/-- `payloads` are those that the handler was called with, and `handler` is its state. -/
structure SseFramer (σ : Type) where
  line : JsText
  pendingCr : Bool
  dataLines : List JsText
  bomHandled : Bool
  done : Bool
  payloads : List JsText
  handler : σ

abbrev FramerCode (σ α : Type) : Type := Effect HandlerError (SseFramer σ) α

namespace SseFramer

variable {σ : Type}

def start (handler : σ) : SseFramer σ := ⟨[], false, [], false, false, [], handler⟩

/-- The value of a `data` line. -/
def dataOf (line : JsText) : Option JsText :=
  if line.head? = some 0x3a then none
  else
    let field := line.takeWhile (· ≠ 0x3a)
    if field ≠ js "data" then none
    else
      let value := (line.drop field.length).drop 1
      some (if value.head? = some 0x20 then value.drop 1 else value)

def emptyData : SseError :=
  sseResponseError "provider response contained empty data" .emptyTerminalResult

def invalidUtf8 : SseError :=
  sseResponseError "provider response contained invalid UTF-8" .invalidUtf8

section Handler

variable (onPayload : JsText → Effect HandlerError σ Unit)

def callHandler (payload : JsText) : FramerCode σ Unit := fun framer =>
  let ran := Effect.run (onPayload payload) framer.handler
  (ran.1, { framer with
    payloads := framer.payloads ++ [payload]
    handler := ran.2 })

def dispatchEvent : FramerCode σ Unit := do
  let framer ← get
  if framer.dataLines.isEmpty then pure ()
  else
    let payload := [0x0a].intercalate framer.dataLines
    modify fun framer => { framer with dataLines := [] }
    if payload.isEmpty then throw (.response emptyData)
    else
      callHandler onPayload payload
      if payload = endOfStream then modify fun framer => { framer with done := true }
      else pure ()

def finishLine : FramerCode σ Unit := do
  let framer ← get
  modify fun framer => { framer with line := [] }
  if framer.line.isEmpty then dispatchEvent onPayload
  else match dataOf framer.line with
    | none => pure ()
    | some value => modify fun framer => { framer with dataLines := framer.dataLines ++ [value] }

/-- The end of the loop body of `consume`. -/
def consumeLine (character : Nat) : FramerCode σ Unit := do
  if character = 0x0d then
    modify fun framer => { framer with pendingCr := true }
    finishLine onPayload
  else if character = 0x0a then finishLine onPayload
  else modify fun framer => { framer with line := framer.line ++ pointUnits character }

def consumeCharacter (character : Nat) : FramerCode σ Unit := do
  let framer ← get
  modify fun framer => { framer with bomHandled := true }
  if !framer.bomHandled && character == 0xfeff then pure ()
  else
    modify fun framer => { framer with pendingCr := false }
    if framer.pendingCr && character == 0x0a then pure ()
    else consumeLine onPayload character

/-- A decoded text is the list of its characters. -/
def consume : List Nat → FramerCode σ Unit
  | [] => pure ()
  | character :: rest => do
    let framer ← get
    if framer.done then pure ()
    else
      consumeCharacter onPayload character
      consume rest

/-- The decoder after the call is the value. -/
def push (decoder : Utf8Decoder) (bytes : List UInt8) : FramerCode σ Utf8Decoder := do
  let framer ← get
  if framer.done then pure decoder
  else match decoder.decode bytes with
    | none => throw (.response invalidUtf8)
    | some (decoder, decoded) => do
      consume onPayload decoded
      pure decoder

def finish (decoder : Utf8Decoder) : FramerCode σ Unit := do
  let framer ← get
  if framer.done then pure ()
  else if decoder.needed ≠ 0 then throw (.response invalidUtf8)
  else
    -- decoding the end gives no character
    if framer.pendingCr then
      modify fun framer => { framer with pendingCr := false }
      finishLine onPayload
    let framer ← get
    if !framer.line.isEmpty || !framer.dataLines.isEmpty then
      throw (.response (sseResponseError "provider response stream ended with an incomplete event"
        .invalidSseFraming))
    else
      throw (.response (sseResponseError "provider response stream ended before [DONE]"
        .streamEndedBeforeDone))

end Handler

end SseFramer

/-! ## Reading -/

/-- What holds throughout a read: the turn is cancelled, its time is over, cancelling the reader
succeeds, and the body ends with an error. -/
structure ReadConditions where
  isTurnCancelled : Bool
  isTimedOut : Bool
  cancelSettles : Bool
  readFails : Bool
deriving DecidableEq

/-- The errors of `readSseResponse`; `stream` is `responseStreamError`. -/
inductive ReadFailure where
  | response (error : SseError)
  | eventDelivery
  | cancellationCleanup
  | turnCancelled
  | timeout
  | stream
deriving DecidableEq

def classifySettledFailure (conditions : ReadConditions) : HandlerError → ReadFailure
  | .eventDelivery => .eventDelivery
  | error =>
    if conditions.isTurnCancelled then .turnCancelled
    else if conditions.isTimedOut then .timeout
    else match error with
      | .response error => .response error
      | _ => .stream

/-- The failure when cancelling the reader failed. -/
def unsettledFailure (conditions : ReadConditions) (delivery : Bool) : ReadFailure :=
  if delivery || conditions.isTurnCancelled then .cancellationCleanup
  else if conditions.isTimedOut then .timeout
  else .stream

def settleActiveReaderFailure (conditions : ReadConditions) (error : HandlerError) : ReadFailure :=
  if conditions.cancelSettles then classifySettledFailure conditions error
  else unsettledFailure conditions (error == .eventDelivery)

section Read

variable {σ ρ : Type} (onPayload : JsText → Effect HandlerError σ Unit)
  (conditions : ReadConditions)

/-- The body has no more chunks. -/
def readEnd (decoder : Utf8Decoder) (framer : SseFramer σ) : Except ReadFailure Unit × SseFramer σ :=
  if conditions.readFails then (.error (classifySettledFailure conditions .other), framer)
  else match Effect.run (SseFramer.finish onPayload decoder) framer with
    | (.error error, framer) => (.error (settleActiveReaderFailure conditions error), framer)
    | (.ok (), framer) => (.error .stream, framer)

/-- The handler has accepted `[DONE]`. -/
def readDone (framer : SseFramer σ) : Except ReadFailure Unit × SseFramer σ :=
  if conditions.cancelSettles then (.ok (), framer)
  else (.error (unsettledFailure conditions false), framer)

def readChunks (decoder : Utf8Decoder) (framer : SseFramer σ) :
    List (List UInt8) → Except ReadFailure Unit × SseFramer σ
  | [] =>
    if conditions.isTimedOut then (.error (settleActiveReaderFailure conditions .other), framer)
    else readEnd onPayload conditions decoder framer
  | chunk :: chunks =>
    if conditions.isTimedOut then (.error (settleActiveReaderFailure conditions .other), framer)
    else match Effect.run (SseFramer.push onPayload decoder chunk) framer with
      | (.error error, framer) => (.error (settleActiveReaderFailure conditions error), framer)
      | (.ok decoder, framer) =>
        if framer.done then readDone conditions framer
        else readChunks decoder framer chunks

/-- What a read comes to: its result, the payloads and what the handler made of them. -/
structure ReadResult (σ ρ : Type) where
  result : Except ReadFailure ρ
  payloads : List JsText
  handler : σ

/-- `resultOf` is the result that the handler has assembled. -/
def readSseResponse (resultOf : σ → Option ρ) (handler : σ) (chunks : List (List UInt8)) :
    ReadResult σ ρ :=
  let read := readChunks onPayload conditions .start (.start handler) chunks
  { result := match read.1, resultOf read.2.handler with
      | .error failure, _ => .error failure
      | .ok (), some result => .ok result
      | .ok (), none => .error .stream
    payloads := read.2.payloads
    handler := read.2.handler }

end Read

/-- The handler of a request: the assembly of the response. -/
def assemblePayload (options : StreamOptions) (payload : JsText) :
    Effect HandlerError StreamState Unit := fun state =>
  match Effect.run (processSsePayload options payload) state with
  | (.ok (), state) => (.ok (), state)
  | (.error error, state) => (.error (.response error), state)

/-- The read of a response over the chunks of its body. -/
def readResponse (options : StreamOptions) (conditions : ReadConditions)
    (chunks : List (List UInt8)) : ReadResult StreamState StreamResult :=
  readSseResponse (assemblePayload options) conditions (fun state => state.assembly.result) .start
    chunks

end Henji
