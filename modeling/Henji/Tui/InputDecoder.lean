import Henji.Json
import Henji.Library.Mealy
import Mathlib.Data.List.Basic

/-!
# The decoder of terminal input

Bytes come in feeds with a time. The decoder is a state machine over single bytes; a feed or a poll at
or behind the deadline of a started escape first ends it as the Escape key. A started CSI or SS3
sequence is then absorbed when its other bytes come.

`consume` calls itself in three places of the source: behind an invalid UTF-8 run, behind an escape
that starts no sequence, and for the replay of the timed Alt+Enter form. The functions below are
layered so that each of them calls only earlier ones. An invalid UTF-8 run reads the clock again:
`dateNow` is that reading.
-/

namespace Henji

def MAX_PASTE_BYTES : Nat := 64 * 1024
def ESC_TIMEOUT_MS : Int := 50
def PASTE_BEGIN : List UInt8 := [0x1b, 0x5b, 0x32, 0x30, 0x30, 0x7e]
def PASTE_END : List UInt8 := [0x1b, 0x5b, 0x32, 0x30, 0x31, 0x7e]
def ALT_ENTER_XTERM : List UInt8 := [0x1b, 0x5b, 0x32, 0x37, 0x3b, 0x33, 0x3b, 0x31, 0x33, 0x7e]

inductive InputEvent where
  | printable (text : JsText) (codePoint : Option Nat)
  | enter
  | alt_enter
  | backspace
  | ctrl_c
  | ctrl_d
  | ctrl_q
  | ctrl_u
  | newline
  | tab
  | left
  | right
  | up
  | down
  | home
  | end_
  | page_up
  | page_down
  | f1
  | f2
  | f3
  | f4
  | escape
  | unknown
  | invalid_utf8
  | paste (text : JsText)
  | paste_rejected
deriving DecidableEq, Repr

def utf8Width (byte : UInt8) : Nat :=
  if byte ≤ 0x7f then 1
  else if 0xc2 ≤ byte ∧ byte ≤ 0xdf then 2
  else if 0xe0 ≤ byte ∧ byte ≤ 0xef then 3
  else if 0xf0 ≤ byte ∧ byte ≤ 0xf4 then 4
  else 0

def printableEvent (text : JsText) : InputEvent := .printable text (codePoints text).head?

structure InputDecoder where
  utf8 : List UInt8
  utf8Expected : Nat
  escape : Option (List UInt8)
  expiredXterm : Option (List UInt8)
  paste : Bool
  pasteBytes : List UInt8
  pasteTerminator : List UInt8
  pasteRejected : Bool
  pendingCr : Bool
  escapeStartedAt : Int
  expiredCsi : Option (List UInt8)
  ss3Pending : Bool
  expiredSs3 : Bool
  ss3StartedAt : Int
deriving DecidableEq, Repr

namespace InputDecoder

def start : InputDecoder where
  utf8 := []
  utf8Expected := 0
  escape := none
  expiredXterm := none
  paste := false
  pasteBytes := []
  pasteTerminator := []
  pasteRejected := false
  pendingCr := false
  escapeStartedAt := 0
  expiredCsi := none
  ss3Pending := false
  expiredSs3 := false
  ss3StartedAt := 0

/-! ## Paste -/

def appendPasteBytes (bytes : List UInt8) (decoder : InputDecoder) : InputDecoder :=
  if decoder.pasteRejected then decoder
  else
    let pasteBytes := decoder.pasteBytes ++
      bytes.take (MAX_PASTE_BYTES + 1 - decoder.pasteBytes.length)
    { decoder with
      pasteBytes := pasteBytes
      pasteRejected := decide (MAX_PASTE_BYTES < pasteBytes.length) }

/-- The event of a paste whose terminator is complete. -/
def pasteEvent (decoder : InputDecoder) : InputEvent :=
  if decoder.pasteRejected || decide (MAX_PASTE_BYTES < decoder.pasteBytes.length) then
    .paste_rejected
  else match decodeUtf8 decoder.pasteBytes with
    | some text => .paste text
    | none => .paste_rejected

def consumePaste (byte : UInt8) (decoder : InputDecoder) : List InputEvent × InputDecoder :=
  if !decoder.pasteTerminator.isEmpty || byte == 0x1b then
    let terminator := decoder.pasteTerminator ++ [byte]
    if terminator.isPrefixOf PASTE_END then
      if terminator.length = PASTE_END.length then
        ([decoder.pasteEvent], { decoder with
          paste := false
          pasteTerminator := []
          pasteBytes := []
          pasteRejected := false })
      else ([], { decoder with pasteTerminator := terminator })
    else
      -- The bytes that looked like a terminator are payload, the last one too.
      ([], { decoder.appendPasteBytes terminator with pasteTerminator := [] })
  else ([], decoder.appendPasteBytes [byte])

/-! ## Text -/

/-- A byte that starts no sequence; the named control bytes of the source that give `unknown` give
the same as the other ones. -/
def controlEvent (byte : UInt8) : Option InputEvent :=
  if byte = 0x0a then some .enter
  else if byte = 0x08 ∨ byte = 0x7f then some .backspace
  else if byte = 0x03 then some .ctrl_c
  else if byte = 0x04 then some .ctrl_d
  else if byte = 0x11 then some .ctrl_q
  else if byte = 0x15 then some .ctrl_u
  else if byte = 0x09 then some .tab
  else none

/-- `consume` where nothing is pending. -/
def consumeGround (byte : UInt8) (now : Int) (decoder : InputDecoder) :
    List InputEvent × InputDecoder :=
  if byte = 0x1b then
    ([], { decoder with
      escape := some [byte]
      escapeStartedAt := now })
  else if byte = 0x0d then ([.enter], { decoder with pendingCr := true })
  else match controlEvent byte with
    | some event => ([event], decoder)
    | none =>
      match utf8Width byte with
      | 1 =>
        if 0x20 ≤ byte ∧ byte ≠ 0x7f then ([printableEvent [byte.toUInt16]], decoder)
        else ([.unknown], decoder)
      | 0 => ([.invalid_utf8], decoder)
      | width => ([], { decoder with
          utf8 := [byte]
          utf8Expected := width })

/-- The second byte of a run is limited by the first. -/
def validSecond (first byte : UInt8) (position : Nat) : Bool :=
  decide (position ≠ 1) ||
    (first != 0xe0 && first != 0xed && first != 0xf0 && first != 0xf4) ||
    (first == 0xe0 && decide (0xa0 ≤ byte)) || (first == 0xed && decide (byte ≤ 0x9f)) ||
    (first == 0xf0 && decide (0x90 ≤ byte)) || (first == 0xf4 && decide (byte ≤ 0x8f))

def consumeUtf8Continuation (byte : UInt8) (dateNow : Int) (decoder : InputDecoder) :
    List InputEvent × InputDecoder :=
  let cleared := { decoder with
    utf8 := []
    utf8Expected := 0 }
  if !isContinuation byte ||
      !validSecond (decoder.utf8.head?.getD 0) byte decoder.utf8.length then
    let (events, decoder) := cleared.consumeGround byte dateNow
    (.invalid_utf8 :: events, decoder)
  else
    let utf8 := decoder.utf8 ++ [byte]
    if utf8.length ≠ decoder.utf8Expected then ([], { decoder with utf8 := utf8 })
    else match decodeUtf8 utf8 with
      | some value => ([printableEvent value], cleared)
      | none => ([.invalid_utf8], cleared)

/-- `consume` where no paste and no sequence is pending. -/
def consumeText (byte : UInt8) (now dateNow : Int) (decoder : InputDecoder) :
    List InputEvent × InputDecoder :=
  if decoder.pendingCr && byte == 0x0a then ([], { decoder with pendingCr := false })
  else
    let decoder := { decoder with pendingCr := false }
    if decoder.utf8.isEmpty then decoder.consumeGround byte now
    else decoder.consumeUtf8Continuation byte dateNow

/-! ## Sequences -/

def isFinal (byte : UInt8) : Bool := decide (0x40 ≤ byte ∧ byte ≤ 0x7e)

/-- The key of a sequence of one byte behind its introducer. -/
def cursorKey (key : UInt8) : Option InputEvent :=
  if key = 0x44 then some .left
  else if key = 0x43 then some .right
  else if key = 0x41 then some .up
  else if key = 0x42 then some .down
  else if key = 0x48 then some .home
  else if key = 0x46 then some .end_
  else none

/-- The sequences that are a key of their own. -/
def keySequences : List (List UInt8 × InputEvent) := [
  ([0x1b, 0x5b, 0x31, 0x7e], .home),
  ([0x1b, 0x5b, 0x34, 0x7e], .end_),
  ([0x1b, 0x5b, 0x35, 0x7e], .page_up),
  ([0x1b, 0x5b, 0x36, 0x7e], .page_down),
  ([0x1b, 0x5b, 0x31, 0x31, 0x7e], .f1),
  ([0x1b, 0x5b, 0x31, 0x32, 0x7e], .f2),
  ([0x1b, 0x5b, 0x31, 0x33, 0x7e], .f3),
  ([0x1b, 0x5b, 0x31, 0x34, 0x7e], .f4),
  ([0x1b, 0x5b, 0x31, 0x33, 0x3b, 0x32, 0x75], .newline),
  ([0x1b, 0x5b, 0x31, 0x33, 0x3b, 0x33, 0x75], .newline),
  ([0x1b, 0x5b, 0x31, 0x33, 0x3b, 0x35, 0x75], .newline),
  ([0x1b, 0x5b, 0x32, 0x37, 0x3b, 0x32, 0x3b, 0x31, 0x33, 0x7e], .newline),
  ([0x1b, 0x5b, 0x32, 0x37, 0x3b, 0x35, 0x3b, 0x31, 0x33, 0x7e], .newline)]

/-- The event of a complete CSI sequence. -/
def sequenceEvent (sequence : List UInt8) : InputEvent :=
  match (if sequence.length = 3 then (sequence[2]?).bind cursorKey else none) with
  | some event => event
  | none => (keySequences.lookup sequence).getD .unknown

/-- A byte behind `sequence`, which starts with ESC. -/
def consumeEscape (sequence : List UInt8) (byte : UInt8) (now dateNow : Int)
    (decoder : InputDecoder) : List InputEvent × InputDecoder :=
  let escape := sequence ++ [byte]
  let ended := { decoder with escape := none }
  if escape.length = 2 ∧ byte ≠ 0x5b then
    if [0x62, 0x42, 0x66, 0x46, 0x64, 0x44].contains byte then ([.unknown], ended)
    else if byte = 0x4f then
      ([], { ended with
        ss3Pending := true
        ss3StartedAt := decoder.escapeStartedAt })
    else if byte = 0x0d ∨ byte = 0x0a then
      ([.alt_enter], { ended with pendingCr := decoder.pendingCr || byte == 0x0d })
    else
      let (events, decoder) := ended.consumeText byte now dateNow
      (.escape :: events, decoder)
  else if escape.length ≤ 2 then ([], { decoder with escape := some escape })
  else if escape = ALT_ENTER_XTERM then ([.alt_enter], ended)
  else if escape = PASTE_BEGIN then
    ([], { ended with
      paste := true
      pasteBytes := []
      pasteTerminator := []
      pasteRejected := false })
  else if !isFinal byte then ([], { decoder with escape := some escape })
  else ([sequenceEvent escape], ended)

def ss3Event (byte : UInt8) : InputEvent :=
  if byte = 0x50 then .f1
  else if byte = 0x51 then .f2
  else if byte = 0x52 then .f3
  else if byte = 0x53 then .f4
  else .unknown

/-- `consume` behind the test for the timed Alt+Enter form: a timed CSI sequence, an escape or
text. -/
def consumeSequence (byte : UInt8) (now dateNow : Int) (decoder : InputDecoder) :
    List InputEvent × InputDecoder :=
  match decoder.expiredCsi with
  | some sequence =>
    if isFinal byte then ([.unknown], { decoder with expiredCsi := none })
    else ([], { decoder with expiredCsi := some (sequence ++ [byte]) })
  | none =>
    match decoder.escape with
    | some sequence => decoder.consumeEscape sequence byte now dateNow
    | none => decoder.consumeText byte now dateNow

/-- The branches of `consume` before the timed Alt+Enter form, and `rest` behind them. -/
def consumeBefore (rest : InputDecoder → List InputEvent × InputDecoder) (byte : UInt8)
    (decoder : InputDecoder) : List InputEvent × InputDecoder :=
  if decoder.paste then decoder.consumePaste byte
  else if decoder.ss3Pending || decoder.expiredSs3 then
    ([ss3Event byte], { decoder with
      ss3Pending := false
      expiredSs3 := false })
  else rest decoder

/-- `consume` of replayed bytes, where no timed Alt+Enter form is pending. -/
def consumeReplay (now dateNow : Int) : Mealy InputDecoder UInt8 InputEvent := fun byte =>
  consumeBefore (consumeSequence byte now dateNow) byte

/-- A byte behind a timed prefix: it goes on as the Alt+Enter form, or the sequence is absorbed. -/
def consumeExpired (sequence : List UInt8) (byte : UInt8) (now dateNow : Int)
    (decoder : InputDecoder) : List InputEvent × InputDecoder :=
  if ALT_ENTER_XTERM[sequence.length]? = some byte then
    let sequence := sequence ++ [byte]
    if sequence.length = ALT_ENTER_XTERM.length then
      Mealy.run (consumeReplay now dateNow) sequence.tail { decoder with expiredXterm := none }
    else ([], { decoder with expiredXterm := some sequence })
  else if isFinal byte then
    ([.unknown], { decoder with
      expiredXterm := none
      expiredCsi := none })
  else ([], { decoder with
    expiredXterm := none
    expiredCsi := some (sequence ++ [byte]) })

def consume (byte : UInt8) (now dateNow : Int) (decoder : InputDecoder) :
    List InputEvent × InputDecoder :=
  decoder.consumeBefore (fun decoder =>
    match decoder.expiredXterm with
    | some sequence => decoder.consumeExpired sequence byte now dateNow
    | none => decoder.consumeSequence byte now dateNow) byte

/-! ## Time -/

def expireEscape (decoder : InputDecoder) : List InputEvent × InputDecoder :=
  let expired := { decoder with
    escape := none
    expiredXterm := decoder.escape.filter fun escaped => escaped[1]? == some 0x5b
    expiredCsi := none }
  if decoder.escape.any fun escaped => escaped.length == 2 && escaped[1]? == some 0x4f then
    ([.escape], { expired with
      expiredSs3 := true
      ss3StartedAt := decoder.escapeStartedAt })
  else ([.escape], expired)

def expireSs3 (decoder : InputDecoder) : List InputEvent × InputDecoder :=
  ([.escape], { decoder with
    ss3Pending := false
    expiredSs3 := true })

def escapeExpires (now : Int) (decoder : InputDecoder) : Bool :=
  decoder.escape.isSome && decide (ESC_TIMEOUT_MS ≤ now - decoder.escapeStartedAt)

def ss3Expires (now : Int) (decoder : InputDecoder) : Bool :=
  decoder.ss3Pending && decide (ESC_TIMEOUT_MS ≤ now - decoder.ss3StartedAt)

/-- What a byte of a feed does. -/
def feedByte (now dateNow : Int) (byte : UInt8) (decoder : InputDecoder) :
    List InputEvent × InputDecoder :=
  let (escaped, decoder) := if decoder.escapeExpires now then decoder.expireEscape else ([], decoder)
  let (ss3, decoder) := if decoder.ss3Expires now then decoder.expireSs3 else ([], decoder)
  let (events, decoder) := decoder.consume byte now dateNow
  (escaped ++ ss3 ++ events, decoder)

def feed (now dateNow : Int) : List UInt8 → InputDecoder → List InputEvent × InputDecoder :=
  Mealy.run (feedByte now dateNow)

def poll (now : Int) (decoder : InputDecoder) : List InputEvent × InputDecoder :=
  if decoder.escapeExpires now then decoder.expireEscape
  else if decoder.ss3Expires now then decoder.expireSs3
  else ([], decoder)

/-- A call of the decoder. -/
inductive Call where
  | feed (bytes : List UInt8) (now dateNow : Int)
  | poll (now : Int)
deriving DecidableEq, Repr

def Call.bytes : Call → List UInt8
  | .feed bytes _ _ => bytes
  | .poll _ => []

def Call.now : Call → Int
  | .feed _ now _ => now
  | .poll now => now

def call : Mealy InputDecoder Call InputEvent
  | .feed bytes now dateNow => feed now dateNow bytes
  | .poll now => poll now

/-- A byte with the times of its feed, or a poll. -/
inductive Stamp where
  | byte (byte : UInt8) (now dateNow : Int)
  | poll (now : Int)
deriving DecidableEq, Repr

def Stamp.now : Stamp → Int
  | .byte _ now _ => now
  | .poll now => now

def Stamp.bytes : Stamp → List UInt8
  | .byte value _ _ => [value]
  | .poll _ => []

def Call.stamps : Call → List Stamp
  | .feed bytes now dateNow => bytes.map fun byte => .byte byte now dateNow
  | .poll now => [.poll now]

def stamp : Mealy InputDecoder Stamp InputEvent
  | .byte byte now dateNow => feedByte now dateNow byte
  | .poll now => poll now

/-- A feed is its bytes one by one, so only their times count and not where they are cut. -/
theorem run_call (calls : List Call) (decoder : InputDecoder) :
    Mealy.run call calls decoder = Mealy.run stamp (calls.flatMap Call.stamps) decoder := by
  refine Mealy.run_flatMap stamp (fun item decoder => ?_) calls decoder
  cases item with
  | feed bytes now dateNow =>
    simp only [call, feed, Call.stamps]
    induction bytes generalizing decoder with
    | nil => rfl
    | cons byte bytes ih =>
      rw [List.map_cons, Mealy.run_cons, Mealy.run_cons, ih]
      rfl
  | poll now =>
    rw [Call.stamps, Mealy.run_singleton]
    rfl

end InputDecoder

end Henji
