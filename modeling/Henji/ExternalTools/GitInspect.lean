import Henji.Library.Utf8Stream

/-!
# Inspecting a repository page by page

`git_inspect` runs one read-only command, keeps a bounded front of what it prints and returns a
window of its lines. A caller reads on at `nextOffset` while `hasMore` is set.

The commands themselves, the selection of paths and the stopping of the process are left out: a call
is given by what its process prints.
-/

namespace Henji.GitInspect

inductive Operation where
  | status
  | diff
  | log
  | «show»
deriving DecidableEq, Repr

def DEFAULT_LINE_LIMIT : Nat := 200
def MAX_LINE_LIMIT : Nat := 2000
def DEFAULT_LOG_COMMITS : Nat := 20
def MAX_LOG_COMMITS : Nat := 200
def MAX_OFFSET : Nat := 1000000

/-- Bound one call's captured output. -/
def MAX_CAPTURE_BYTES : Nat := 8 * 1024 * 1024

def MAX_STDERR_BYTES : Nat := 64 * 1024

structure InspectArguments where
  op : Operation
  offset : Nat
  limit : Nat

structure InspectPayload where
  op : Operation
  exitCode : Option Int
  offset : Nat
  limit : Nat
  totalLines : Nat
  hasMore : Bool
  nextOffset : Option Nat
  truncated : Bool
  stderr : Option JsText
  text : JsText

/-! ## Arguments -/

/-- `${name} must be an integer from ${minimum} to ${maximum}`. -/
def integerError (name : String) (minimum maximum : Nat) : String :=
  name ++ " must be an integer from " ++ toString minimum ++ " to " ++ toString maximum

def integer (value : Int) (name : String) (minimum maximum : Nat) : Except String Nat :=
  if value < minimum ∨ maximum < value then .error (integerError name minimum maximum)
  else .ok value.toNat

/-- The window of `parseArguments`. -/
def parseArguments (op : Operation) (offset limit : Option Int) :
    Except String InspectArguments := do
  let offset ← match offset with
    | none => .ok 0
    | some value => integer value "offset" 0 MAX_OFFSET
  let limit ← match op, limit with
    | .log, none => .ok DEFAULT_LOG_COMMITS
    | .log, some value => integer value "limit" 1 MAX_LOG_COMMITS
    | _, none => .ok DEFAULT_LINE_LIMIT
    | _, some value => integer value "limit" 1 MAX_LINE_LIMIT
  return ⟨op, offset, limit⟩

/-! ## The capture -/

structure Capture where
  bytes : List UInt8
  truncated : Bool

/-- One chunk; a chunk that does not fit is kept up to the bound. -/
def readChunk (maxBytes : Nat) (capture : Capture) (chunk : List UInt8) : Capture :=
  let remaining := maxBytes - capture.bytes.length
  if remaining < chunk.length then ⟨capture.bytes ++ chunk.take remaining, true⟩
  else ⟨capture.bytes ++ chunk, capture.truncated⟩

def readBounded (stream : List (List UInt8)) (maxBytes : Nat) : Capture :=
  stream.foldl (readChunk maxBytes) ⟨[], false⟩

structure ProcessResult where
  stdout : Capture
  stderr : Capture
  exitCode : Option Int

/-- What the process of one call prints and how it exits. -/
structure Process where
  stdout : List (List UInt8)
  stderr : List (List UInt8)
  exitCode : Option Int

def runGit (process : Process) : ProcessResult where
  stdout := readBounded process.stdout MAX_CAPTURE_BYTES
  stderr := readBounded process.stderr MAX_STDERR_BYTES
  exitCode := process.exitCode

/-! ## The payload -/

/-- `decoder.decode(bytes)`. -/
def decode (bytes : List UInt8) : JsText :=
  (dropMark (replaced (PendingPoint.readAll bytes))).flatMap pointUnits

def splitLines (text : JsText) : List JsText :=
  if text.length = 0 then []
  else
    let lines := text.splitOn 0x0a
    if lines.getLast? = some [] then lines.dropLast else lines

/-- `lines.join('\n')`. -/
def joinLines (lines : List JsText) : JsText := (lines.intersperse [0x0a]).flatten

def payloadFor (args : InspectArguments) (result : ProcessResult) : InspectPayload :=
  let stdout := decode result.stdout.bytes
  let stderr := decode result.stderr.bytes
  let lines := splitLines stdout
  let stderr := if stderr.length = 0 then none else some stderr
  if args.op = .log then
    { op := args.op, exitCode := result.exitCode, offset := args.offset, limit := args.limit
      totalLines := lines.length, hasMore := false, nextOffset := none
      truncated := result.stdout.truncated, stderr := stderr, text := joinLines lines }
  else
    let start := min args.offset lines.length
    let selected := (lines.drop start).take args.limit
    let next := start + selected.length
    let hasMore := next < lines.length ∨ result.stdout.truncated
    { op := args.op, exitCode := result.exitCode, offset := args.offset, limit := args.limit
      totalLines := lines.length, hasMore := hasMore
      nextOffset := if hasMore then some next else none
      truncated := result.stdout.truncated, stderr := stderr, text := joinLines selected }

/-- One call of the tool. -/
def execute (op : Operation) (offset limit : Int) (process : Process) :
    Except String InspectPayload := do
  let args ← parseArguments op (some offset) (some limit)
  return payloadFor args (runGit process)

/-! ## Following the pages -/

inductive Outcome where
  | finished
  | refused (error : String)
  | running
deriving DecidableEq, Repr

/-- What a caller gets that reads on at `nextOffset` while `hasMore` is set, for some calls. -/
def follow (op : Operation) (process : Nat → Process) (limits : Nat → Nat) :
    Nat → Nat → Nat → List InspectPayload × Outcome
  | 0, _, _ => ([], .running)
  | calls + 1, index, offset =>
    match execute op offset (limits index) (process index) with
    | .error error => ([], .refused error)
    | .ok page =>
      match page.hasMore, page.nextOffset with
      | true, some next =>
        let (pages, outcome) := follow op process limits calls (index + 1) next
        (page :: pages, outcome)
      | _, _ => ([page], .finished)

end Henji.GitInspect
