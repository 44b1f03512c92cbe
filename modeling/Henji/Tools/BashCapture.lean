import Henji.Library.TextDecoder
import Henji.Tools.BashReadbackLaw

/-!
# Capturing the output of a command

A drain reads one of the two streams of a command. It keeps the first bytes for the result, watches
the text for progress, and keeps the decoded text aside until the stream turns out long; from then
on everything goes to the output store.

The drain waits for each of its appends before it reads on, so an append is a step of its own, and
the other drain and other commands go on meanwhile. When both drains are done, the command is
finished in the store and its result is put together.
-/

namespace Henji

def MAX_CAPTURE_BYTES : Nat := 4096
def MAX_PROGRESS_STREAM_BYTES : Nat := 4000
def BASH_OUTPUT_DEFAULT_WINDOW_BYTES : Nat := 49152

/-- What is shown of a stream while the command runs. -/
structure BashProgress where
  progressPrefix : JsText
  progressBytes : Nat
  progressFrozen : Bool
  progressDisabled : Bool
  progressDecoder : TextDecoder

namespace BashProgress

def start : BashProgress := ⟨[], 0, false, false, .start⟩

/-- The loop of `observe` over the characters; the flag is `changed`. -/
def observeCharacters : List Nat → BashProgress → Bool → BashProgress × Bool
  | [], progress, changed => (progress, changed)
  | character :: characters, progress, changed =>
    let size := (encodePoint character).length
    if MAX_PROGRESS_STREAM_BYTES < progress.progressBytes + size then
      ({ progress with progressFrozen := true }, changed)
    else
      observeCharacters characters
        { progress with
          progressPrefix := progress.progressPrefix ++ pointUnits character
          progressBytes := progress.progressBytes + size } true

def observe (bytes : List UInt8) (progress : BashProgress) : BashProgress × Bool :=
  if progress.progressDisabled || progress.progressFrozen || bytes.isEmpty then (progress, false)
  else
    match progress.progressDecoder.decodeFatal bytes with
    | none => ({ progress with progressDisabled := true }, false)
    | some (decoded, progressDecoder) =>
      observeCharacters (codePoints decoded) { progress with progressDecoder } false

/-- The end of the stream; a decoder that holds bytes throws there. -/
def finish (progress : BashProgress) : BashProgress :=
  if progress.progressDisabled || progress.progressFrozen then progress
  else { progress with progressDisabled := progress.progressDecoder.pending.needed != 0 }

end BashProgress

inductive BashDrainPhase where
  | reading
  | appending (text : JsText)
  /-- The text is the last one. -/
  | appendingLast (text : JsText)
  | ended
deriving DecidableEq

/-- `captured` are the bytes of `chunks`, of which there are `total`. `received` is all that the
drain has read, which the program does not keep. -/
structure BashDrain where
  captured : List UInt8
  truncated : Bool
  progress : BashProgress
  outputDecoder : TextDecoder
  pendingOutput : JsText
  spooling : Bool
  storageStopped : Bool
  phase : BashDrainPhase
  received : List UInt8

inductive BashOutputStop where
  | limit (limit : BashOutputLimitSnapshot)
  | persistence
deriving DecidableEq

/-- Why an append stops the output, if it does. -/
def stopOf : Except BashOutputError BashOutputAppendResult → Option BashOutputStop
  | .ok result => result.limit.map .limit
  | .error _ => some .persistence

namespace BashDrain

def start : BashDrain where
  captured := []
  truncated := false
  progress := .start
  outputDecoder := .start
  pendingOutput := []
  spooling := false
  storageStopped := false
  phase := .reading
  received := []

variable (drain : BashDrain)

/-- What a chunk does to the text that goes to the store. -/
def spool (decoded : JsText) : BashDrain :=
  if drain.spooling then
    if !drain.storageStopped && !decoded.isEmpty then { drain with phase := .appending decoded }
    else drain
  else
    let drain := { drain with pendingOutput := drain.pendingOutput ++ decoded }
    if drain.truncated then
      if drain.pendingOutput.isEmpty then { drain with spooling := true }
      else
        { drain with
          spooling := true
          phase := .appending drain.pendingOutput }
    else drain

/-- A chunk; the flag says that progress is reported. -/
def read (value : List UInt8) : BashDrain × Bool :=
  let remaining := MAX_CAPTURE_BYTES - drain.captured.length
  let (progress, changed) := drain.progress.observe value
  let (decoded, outputDecoder) := drain.outputDecoder.decode value
  let drain := { drain with
    captured := drain.captured ++ value.take remaining
    truncated := drain.truncated || decide (remaining < value.length)
    progress
    outputDecoder
    received := drain.received ++ value }
  (drain.spool decoded, changed)

def settle : BashDrain :=
  { drain with
    progress := drain.progress.finish
    phase := .ended }

/-- The end of the stream. -/
def close : BashDrain :=
  let finalText := drain.outputDecoder.finish
  if drain.spooling && !drain.storageStopped && !finalText.isEmpty then
    { drain with phase := .appendingLast finalText }
  else drain.settle

/-- The text that the drain waits to have appended. -/
def appending : JsText :=
  match drain.phase with
  | .appending text => text
  | .appendingLast text => text
  | _ => []

/-- An append that came back. -/
def appended (stops : Bool) : BashDrain :=
  match drain.phase with
  | .appendingLast _ => drain.settle
  | _ => { drain with
    pendingOutput := []
    storageStopped := drain.storageStopped || stops
    phase := .reading }

end BashDrain

structure BashReadbackStream where
  stream : BashOutputStream
  totalBytes : Nat
  offset : Nat
  limit : Nat
deriving DecidableEq

structure BashResult where
  stdout : JsText
  stderr : JsText
  exitCode : Option Int
  signal : Option JsText
  timedOut : Bool
  stdoutTruncated : Bool
  stderrTruncated : Bool
  outputId : Option Nat
  savedStreams : Option (List (BashOutputStream × Nat))
  outputComplete : Option Bool
  readback : Option (Nat × List BashReadbackStream)
  outputLimitExceeded : Bool
  outputLimit : Option BashOutputLimitSnapshot
deriving DecidableEq

/-- `settling` is a `finish` that threw: the result then fails with `error`. -/
inductive BashCapturePhase where
  | capturing
  | settling
  | returned (result : BashResult)
  | failed (result : BashResult) (error : JsText)

structure ProcessStatus where
  exitCode : Option Int
  signal : Option JsText

/-- A command that exited by itself, with its capture in the store. `reports` are the texts of both
streams in the progress that was reported. -/
structure BashCapture where
  output : BashOutputRun
  ref : Nat
  status : ProcessStatus
  drains : BashOutputStream → BashDrain
  outputStopEvent : Option BashOutputStop
  reports : List (BashOutputStream → JsText)
  phase : BashCapturePhase

inductive BashCaptureEvent where
  /-- A call of the store about another command. -/
  | store (event : BashOutputEvent)
  | read (stream : BashOutputStream) (value : List UInt8)
  | close (stream : BashOutputStream)
  | append (stream : BashOutputStream) (calls : List FileCall)
  | markFailed
  | finish (calls : List FileCall)
  | summary

namespace BashCapture

/-- A command that begins. -/
def start (output : BashOutputRun) (status : ProcessStatus) : Option BashCapture :=
  (output.step .beginCommand).map fun next =>
    { output := next
      ref := output.store.records.next
      status
      drains := fun _ => .start
      outputStopEvent := none
      reports := []
      phase := .capturing }

variable (capture : BashCapture)

def setDrain (stream : BashOutputStream) (drain : BashDrain) : BashCapture :=
  { capture with drains := Function.update capture.drains stream drain }

/-- The texts of a progress report. -/
def report : BashCapture :=
  { capture with
    reports := capture.reports ++ [fun stream => (capture.drains stream).progress.progressPrefix] }

/-- The first stop counts. -/
def noteOutputStop (event : Option BashOutputStop) : BashCapture :=
  { capture with outputStopEvent := capture.outputStopEvent <|> event }

def resultOf (summary : BashOutputCommandSummary) : BashResult :=
  let outputId := if summary.available then summary.outputId else none
  { stdout := TextDecoder.decodeAll (capture.drains .stdout).captured
    stderr := TextDecoder.decodeAll (capture.drains .stderr).captured
    exitCode := capture.status.exitCode
    signal := capture.status.signal
    timedOut := false
    stdoutTruncated := (capture.drains .stdout).truncated
    stderrTruncated := (capture.drains .stderr).truncated
    outputId
    savedStreams := outputId.map fun _ => summary.streams
    outputComplete := if summary.limit.isSome then some false else outputId.map fun _ => true
    readback := outputId.map fun outputId => (outputId, summary.streams.map fun (stream, totalBytes) =>
      ⟨stream, totalBytes, 0, BASH_OUTPUT_DEFAULT_WINDOW_BYTES⟩)
    outputLimitExceeded := summary.limit.isSome
    outputLimit := summary.limit }

/-- The end of the tool call. -/
def conclude (summary : BashOutputCommandSummary) : BashCapture :=
  let result := capture.resultOf summary
  { capture with
    phase := if capture.outputStopEvent = some .persistence then
        .failed { result with outputComplete := some false } (js "bash output persistence failed")
      else .returned result }

def drained (stream : BashOutputStream) : Bool := (capture.drains stream).phase == .ended

/-- `none` where the event cannot happen. -/
def step : BashCaptureEvent → Option BashCapture
  | .store event =>
    if BashOutputRun.about event = some capture.ref then none
    else (capture.output.step event).map fun output => { capture with output }
  | .read stream value =>
    let drain := capture.drains stream
    if drain.phase = .reading then
      let (drain, changed) := drain.read value
      let next := capture.setDrain stream drain
      some (if changed then next.report else next)
    else none
  | .close stream =>
    let drain := capture.drains stream
    if drain.phase = .reading then some (capture.setDrain stream drain.close) else none
  | .append stream calls =>
    let drain := capture.drains stream
    let text := drain.appending
    if text.isEmpty then none
    else
      let result := (Effect.run (BashOutputStore.appendLocked capture.ref stream text)
        (capture.output.locked calls)).1
      (capture.output.step (.append capture.ref stream text calls)).map fun output =>
        ({ capture with output }.setDrain stream
          (drain.appended (stopOf result).isSome)).noteOutputStop (stopOf result)
  | .markFailed =>
    (capture.output.step (.markFailed capture.ref)).map fun output => { capture with output }
  | .finish calls =>
    match capture.phase with
    | .capturing =>
      if capture.drained .stdout && capture.drained .stderr then
        let result := (Effect.run (BashOutputStore.finishLocked capture.ref)
          (capture.output.locked calls)).1
        (capture.output.step (.finish capture.ref calls)).map fun output =>
          match result with
          | .ok summary => { capture with output }.conclude summary
          | .error _ => { capture with
            output
            outputStopEvent := some .persistence
            phase := .settling }
      else none
    | _ => none
  | .summary =>
    match capture.phase with
    | .settling =>
      if capture.ref ∈ capture.output.marking then none
      else some (capture.conclude (capture.output.store.summaryLocked capture.ref))
    | _ => none

end BashCapture

end Henji
