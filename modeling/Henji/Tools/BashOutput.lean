import Henji.Json
import Henji.Library.ByteFile
import Henji.Library.Effect
import Henji.Library.Heap
import Henji.Library.InsMap
import Henji.Library.Runs
import Mathlib.Data.List.Sort

/-!
# The store of command output

A store keeps what bash commands print. The text of a stream goes to a buffer, and in segments to
one file that all commands share; an extent says where a segment lies. Abandoning a command gives
its part of the file back by moving the other extents down.

The store's lock makes `append`, `finish`, `abandon`, `read` and `summary` steps. A call that throws
in `append` or `finish` marks its command as failed under the lock once more, in a step of its own.
Each call on the file succeeds or fails as the environment decides.
-/

namespace Henji

inductive BashOutputStream where
  | stdout
  | stderr
deriving DecidableEq, Repr

inductive BashOutputLimitReason where
  | commandBytes
  | registryBytes
  | retainedStreams
deriving DecidableEq, Repr

/-- The constructor of the store refuses limits that are not positive. -/
structure BashOutputStoreLimits where
  commandBytes : Nat
  registryBytes : Nat
  retainedStreams : Nat
  segmentBytes : Nat
  commandBytes_pos : 0 < commandBytes
  registryBytes_pos : 0 < registryBytes
  retainedStreams_pos : 0 < retainedStreams
  segmentBytes_pos : 0 < segmentBytes

structure BashOutputLimitSnapshot where
  reason : BashOutputLimitReason
  commandBytes : Nat
  commandLimitBytes : Nat
  registryBytes : Int
  registryLimitBytes : Nat
  retainedStreams : Int
  retainedStreamLimit : Nat
deriving DecidableEq

structure BashOutputExtent where
  logicalOffset : Nat
  fileOffset : Nat
  length : Nat
deriving DecidableEq

/-- `extents` are references to cells of the store. -/
structure BashOutputStreamRecord where
  extents : List Nat
  buffer : List UInt8
  totalBytes : Nat
  persistedBytes : Nat
deriving DecidableEq

structure BashOutputCommandRecord where
  streams : InsMap BashOutputStream BashOutputStreamRecord
  commandBytes : Nat
  finalized : Bool
  failed : Bool
  limit : Option BashOutputLimitSnapshot

/-- How a call on the file ends. A failed call leaves the bytes of an open file as it will. -/
inductive FileCall where
  | succeeded
  | failed (file : List UInt8)
deriving DecidableEq

/-- `outputId` is the reference of the command's record. `commands` is the registry, in the order
of its `Map`; `calls` says how the next calls on the file end, and later ones succeed. -/
structure BashOutputStore where
  limits : BashOutputStoreLimits
  commands : List Nat
  records : Heap BashOutputCommandRecord
  extents : Heap BashOutputExtent
  file : Option (List UInt8)
  fileOffset : Nat
  registryBytes : Int
  retainedStreams : Int
  closed : Bool
  calls : List FileCall

inductive BashOutputError where
  | persistence
  | unavailable
  | notRetained
  | outOfRange
  | notBoundary
deriving DecidableEq, Repr

structure BashOutputAppendResult where
  storedBytes : Nat
  limit : Option BashOutputLimitSnapshot
deriving DecidableEq

structure BashOutputCommandSummary where
  outputId : Option Nat
  streams : List (BashOutputStream × Nat)
  commandBytes : Nat
  registryBytes : Int
  retainedStreams : Int
  limit : Option BashOutputLimitSnapshot
  available : Bool
deriving DecidableEq

structure BashOutputWindow where
  outputId : Nat
  stream : BashOutputStream
  offset : Nat
  text : JsText
  nextOffset : Option Nat
  complete : Bool
  totalBytes : Nat
deriving DecidableEq

/-! ## Helpers -/

/-- The loop of `scalarBoundaryPrefix` over `end`. -/
def boundaryBefore (bytes : List UInt8) : Nat → Nat
  | 0 => 0
  | last + 1 =>
    if (bytes[last + 1]?).any isContinuation then boundaryBefore bytes last else last + 1

def scalarBoundaryPrefix (bytes : List UInt8) (maximum : Nat) : List UInt8 :=
  if bytes.length ≤ maximum then bytes else bytes.take (boundaryBefore bytes maximum)

theorem boundaryBefore_le (bytes : List UInt8) (last : Nat) : boundaryBefore bytes last ≤ last := by
  induction last with
  | zero => exact Nat.le_refl 0
  | succ last ih =>
    unfold boundaryBefore
    split
    · exact Nat.le_succ_of_le ih
    · exact Nat.le_refl _

theorem length_scalarBoundaryPrefix_le (bytes : List UInt8) (maximum : Nat) :
    (scalarBoundaryPrefix bytes maximum).length ≤ maximum := by
  unfold scalarBoundaryPrefix
  split
  · assumption
  · rw [List.length_take]
    exact Nat.le_trans (Nat.min_le_left _ _) (boundaryBefore_le bytes maximum)

theorem scalarBoundaryPrefix_isFront (bytes : List UInt8) (maximum : Nat) :
    scalarBoundaryPrefix bytes maximum <+: bytes := by
  unfold scalarBoundaryPrefix
  split
  · exact List.prefix_refl _
  · exact List.take_prefix _ _

/-- Where bytes are left out, there were more than fit. -/
theorem lt_length_of_scalarBoundaryPrefix {bytes : List UInt8} {maximum : Nat}
    (h : (scalarBoundaryPrefix bytes maximum).length < bytes.length) : maximum < bytes.length := by
  by_contra hnot
  rw [scalarBoundaryPrefix, if_pos (Nat.le_of_not_lt hnot)] at h
  exact Nat.lt_irrefl _ h

/-- The loop of `read` that drops bytes until the window decodes. The empty window does. -/
def decodablePrefix (bytes : List UInt8) : Nat → List UInt8
  | 0 => []
  | length + 1 =>
    if (decodeUtf8 (bytes.take (length + 1))).isSome then bytes.take (length + 1)
    else decodablePrefix bytes length

namespace BashOutputStore

/-- Code of the store. -/
abbrev Code (α : Type) : Type := Effect BashOutputError BashOutputStore α

open ByteFile (slice splice resize)

def emptyRecord : BashOutputCommandRecord where
  streams := .empty
  commandBytes := 0
  finalized := false
  failed := false
  limit := none

def emptyStream : BashOutputStreamRecord where
  extents := []
  buffer := []
  totalBytes := 0
  persistedBytes := 0

/-- A new store. -/
def start (limits : BashOutputStoreLimits) : BashOutputStore where
  limits
  commands := []
  records := .empty emptyRecord
  extents := .empty ⟨0, 0, 0⟩
  file := none
  fileOffset := 0
  registryBytes := 0
  retainedStreams := 0
  closed := false
  calls := []

variable (store : BashOutputStore)

def updateRecord (ref : Nat) (f : BashOutputCommandRecord → BashOutputCommandRecord) :
    BashOutputStore :=
  { store with records := store.records.modify ref f }

/-- The record of a stream; the empty one where there is none. -/
def streamOf (ref : Nat) (stream : BashOutputStream) : BashOutputStreamRecord :=
  ((store.records.read ref).streams.get? stream).getD emptyStream

def updateStream (ref : Nat) (stream : BashOutputStream)
    (f : BashOutputStreamRecord → BashOutputStreamRecord) : BashOutputStore :=
  store.updateRecord ref fun record =>
    { record with streams := record.streams.set stream (f (store.streamOf ref stream)) }

/-! ## The file -/

/-- A call that changes the file to `file`, unless it fails. -/
def fileCall (file : List UInt8) : Code Unit := fun store =>
  match store.calls with
  | [] => (.ok (), { store with file := some file })
  | .succeeded :: calls => (.ok (), { store with file := some file, calls })
  | .failed file :: calls => (.error .persistence, { store with file := some file, calls })

/-- A call that fails leaves the store without a file. -/
def ensureFile : Code (List UInt8) := fun store =>
  match store.file, store.calls with
  | some file, _ => (.ok file, store)
  | none, [] => (.ok [], { store with file := some [] })
  | none, .succeeded :: calls => (.ok [], { store with file := some [], calls })
  | none, .failed _ :: calls => (.error .persistence, { store with calls })

def persist (ref : Nat) (stream : BashOutputStream) (bytes : List UInt8) : Code Unit := do
  let file ← ensureFile
  let store ← get
  fileCall (splice 0 file store.fileOffset bytes)
  modify fun store =>
    let (extent, extents) := store.extents.alloc
      ⟨(store.streamOf ref stream).persistedBytes, store.fileOffset, bytes.length⟩
    { store.updateStream ref stream fun record =>
        { record with
          extents := record.extents ++ [extent]
          persistedBytes := record.persistedBytes + bytes.length } with
      extents
      fileOffset := store.fileOffset + bytes.length }

/-- The loop of `appendRecord`: one segment of the buffer after another. -/
def persistSegments (ref : Nat) (stream : BashOutputStream) : Nat → Code Unit
  | 0 => pure ()
  | fuel + 1 => do
    let store ← get
    let buffer := (store.streamOf ref stream).buffer
    let size := store.limits.segmentBytes
    if size ≤ buffer.length then
      modify fun store => store.updateStream ref stream fun record =>
        { record with buffer := buffer.drop size }
      persist ref stream (buffer.take size)
      persistSegments ref stream fuel
    else pure ()

def appendRecord (ref : Nat) (stream : BashOutputStream) (bytes : List UInt8) : Code Unit := do
  modify fun store => store.updateStream ref stream fun record =>
    { record with buffer := record.buffer ++ bytes }
  let store ← get
  persistSegments ref stream (store.streamOf ref stream).buffer.length

def flush (ref : Nat) (stream : BashOutputStream) : Code Unit := do
  let store ← get
  let segment := (store.streamOf ref stream).buffer
  if segment.isEmpty then pure ()
  else
    modify fun store => store.updateStream ref stream fun record => { record with buffer := [] }
    persist ref stream segment

def setFileOffset (extent fileOffset : Nat) : BashOutputStore :=
  { store with
    extents := store.extents.modify extent fun value => { value with fileOffset } }

/-- The loop of `compactFile` over the extents, in the order of their places. -/
def moveExtents : List Nat → Nat → Code Nat
  | [], targetOffset => pure targetOffset
  | ref :: refs, targetOffset => do
    let store ← get
    let extent := store.extents.read ref
    let file := store.file.getD []
    if extent.fileOffset < targetOffset then throw .persistence
    else
      if targetOffset ≠ extent.fileOffset then
        if file.length < extent.fileOffset + extent.length then throw .persistence
        fileCall (splice 0 file targetOffset (slice file extent.fileOffset extent.length))
        modify fun store => store.setFileOffset ref targetOffset
      moveExtents refs (targetOffset + extent.length)

/-- The extents of the commands of the registry. -/
def registeredExtents : List Nat :=
  (store.commands.flatMap fun ref =>
    (store.records.read ref).streams.entries.map Prod.snd).flatMap fun record => record.extents

def compactFile : Code Unit := do
  let store ← get
  match store.file with
  | none => modify fun store => { store with fileOffset := 0 }
  | some _ =>
    let targetOffset ← moveExtents (store.registeredExtents.insertionSort fun left right =>
      (store.extents.read left).fileOffset ≤ (store.extents.read right).fileOffset) 0
    let store ← get
    fileCall (resize 0 (store.file.getD []) targetOffset)
    modify fun store => { store with fileOffset := targetOffset }

/-- A call that reads a range of the file. -/
def readFile (offset length : Nat) : Code (List UInt8) := fun store =>
  match store.file, store.calls with
  | none, _ => (.error .persistence, store)
  | some _, .failed _ :: calls => (.error .persistence, { store with calls })
  | some file, .succeeded :: calls =>
    if file.length < offset + length then (.error .persistence, { store with calls })
    else (.ok (slice file offset length), { store with calls })
  | some file, [] =>
    if file.length < offset + length then (.error .persistence, store)
    else (.ok (slice file offset length), store)

/-- The loop of `readRecordRange`; `written` are the bytes of `result` that were read. -/
def readExtents (offset length : Nat) : List Nat → List UInt8 → Code (List UInt8)
  | [], written => if written.length = length then pure written else throw .persistence
  | ref :: refs, written => do
    let store ← get
    let extent := store.extents.read ref
    let first := max offset extent.logicalOffset
    let stop := min (offset + length) (extent.logicalOffset + extent.length)
    if stop ≤ first then readExtents offset length refs written
    else
      let bytes ← readFile (extent.fileOffset + first - extent.logicalOffset) (stop - first)
      if (written ++ bytes).length = length then pure (written ++ bytes)
      else readExtents offset length refs (written ++ bytes)

def readRecordRange (record : BashOutputStreamRecord) (offset length : Nat) :
    Code (List UInt8) := do
  let store ← get
  if length = 0 then pure []
  else if store.file.isNone then throw .persistence
  else readExtents offset length record.extents []

/-! ## The calls -/

def limitSnapshot (ref : Nat) (reason : BashOutputLimitReason) : BashOutputLimitSnapshot where
  reason
  commandBytes := (store.records.read ref).commandBytes
  commandLimitBytes := store.limits.commandBytes
  registryBytes := store.registryBytes
  registryLimitBytes := store.limits.registryBytes
  retainedStreams := store.retainedStreams
  retainedStreamLimit := store.limits.retainedStreams

def setLimit (ref : Nat) (reason : BashOutputLimitReason) : BashOutputStore :=
  store.updateRecord ref fun record =>
    { record with limit := some (store.limitSnapshot ref reason) }

/-- The counters and the stream of a command that takes bytes; a new stream is counted. -/
def accept (ref : Nat) (stream : BashOutputStream) (bytes : Nat) : BashOutputStore :=
  let retained := (store.records.read ref).streams.has stream
  { store.updateRecord ref fun record =>
      { record with
        streams := record.streams.set stream
          { store.streamOf ref stream with
            totalBytes := (store.streamOf ref stream).totalBytes + bytes }
        commandBytes := record.commandBytes + bytes } with
    registryBytes := store.registryBytes + bytes
    retainedStreams := if retained then store.retainedStreams else store.retainedStreams + 1 }

def commandRemaining (ref : Nat) : Int :=
  store.limits.commandBytes - (store.records.read ref).commandBytes

def registryRemaining : Int := store.limits.registryBytes - store.registryBytes

def available (ref : Nat) : Int := min (store.commandRemaining ref) store.registryRemaining

/-- The limit that has less room. -/
def limitReason (ref : Nat) : BashOutputLimitReason :=
  if store.commandRemaining ref ≤ store.registryRemaining then .commandBytes else .registryBytes

/-- The end of `append`, after it stored some of the bytes. -/
def endAppend (ref storedBytes length : Nat) (reason : BashOutputLimitReason) :
    Code BashOutputAppendResult := do
  if storedBytes < length then
    modify fun store => store.setLimit ref reason
  let store ← get
  return ⟨storedBytes, (store.records.read ref).limit⟩

/-- The part of `append` in which the command takes `accepted` of `length` bytes. -/
def storeAccepted (ref : Nat) (stream : BashOutputStream) (accepted : List UInt8) (length : Nat)
    (reason : BashOutputLimitReason) : Code BashOutputAppendResult := do
  if 0 < accepted.length then
    modify fun store => store.accept ref stream accepted.length
    appendRecord ref stream accepted
  endAppend ref accepted.length length reason

/-- The part of `append` that runs under the lock. -/
def appendLocked (ref : Nat) (stream : BashOutputStream) (text : JsText) :
    Code BashOutputAppendResult := do
  let store ← get
  let command := store.records.read ref
  if store.closed || command.failed || command.finalized then throw .persistence
  if command.limit.isSome || text.isEmpty then return ⟨0, command.limit⟩
  let bytes := encodeUtf8 text
  if store.available ref ≤ 0 then
    modify fun store => store.setLimit ref (store.limitReason ref)
    return ⟨0, some (store.limitSnapshot ref (store.limitReason ref))⟩
  if !command.streams.has stream && decide (store.limits.retainedStreams ≤ store.retainedStreams) then
    modify fun store => store.setLimit ref .retainedStreams
    return ⟨0, some (store.limitSnapshot ref .retainedStreams)⟩
  storeAccepted ref stream (scalarBoundaryPrefix bytes (store.available ref).toNat) bytes.length
    (store.limitReason ref)

def summaryLocked (ref : Nat) : BashOutputCommandSummary :=
  let command := store.records.read ref
  let available := !command.failed && command.finalized && !command.streams.entries.isEmpty
  { outputId := if available then some ref else none
    streams := if command.failed then []
      else command.streams.entries.map fun (stream, record) => (stream, record.totalBytes)
    commandBytes := command.commandBytes
    registryBytes := store.registryBytes
    retainedStreams := store.retainedStreams
    limit := command.limit
    available }

/-- The end of `finish`: a command without output leaves the registry. -/
def endFinish (ref : Nat) : Code BashOutputCommandSummary := do
  let store ← get
  if (store.records.read ref).streams.entries.isEmpty then
    modify fun store => { store with commands := store.commands.filter fun other => other != ref }
  return store.summaryLocked ref

/-- The part of `finish` that runs under the lock. -/
def finishLocked (ref : Nat) : Code BashOutputCommandSummary := do
  let store ← get
  let command := store.records.read ref
  if store.closed || command.failed then throw .persistence
  if !command.finalized then
    command.streams.keys.forM fun stream => flush ref stream
    modify fun store => store.updateRecord ref fun record => { record with finalized := true }
  endFinish ref

def markFailed (ref : Nat) : BashOutputStore :=
  store.updateRecord ref fun record =>
    { record with
      failed := true
      finalized := true
      streams := .empty }

def abandonLocked (ref : Nat) : Code Unit := do
  let store ← get
  let command := store.records.read ref
  if store.commands.contains ref then
    if store.closed || command.failed then throw .persistence
    modify fun store =>
      { store with
        commands := store.commands.filter fun other => other != ref
        registryBytes := store.registryBytes - command.commandBytes
        retainedStreams := store.retainedStreams - command.streams.entries.length }
    compactFile
    modify fun store => store.markFailed ref
  else pure ()

/-- The checks of `read` on the offset. -/
def checkOffset (record : BashOutputStreamRecord) (offset : Nat) : Code Unit := do
  if record.totalBytes < offset then throw .outOfRange
  else if offset < record.totalBytes then
    let first ← readRecordRange record offset 1
    if first.any isContinuation then throw .notBoundary else pure ()
  else pure ()

/-- The window of `read`, trimmed until it decodes unless it goes to the end. -/
def readWindow (outputId : Nat) (stream : BashOutputStream) (record : BashOutputStreamRecord)
    (offset limit : Nat) : Code BashOutputWindow := do
  let selected ← readRecordRange record offset (min limit (record.totalBytes - offset))
  let selected := if offset + selected.length < record.totalBytes then
    decodablePrefix selected selected.length else selected
  match decodeUtf8 selected with
  | none => throw .persistence
  | some text =>
    let next := offset + selected.length
    let complete := next == record.totalBytes
    pure {
      outputId
      stream
      offset
      text
      nextOffset := if complete then none else some next
      complete
      totalBytes := record.totalBytes }

def read (outputId : Nat) (stream : BashOutputStream) (offset limit : Nat) :
    Code BashOutputWindow := do
  let store ← get
  let command := store.records.read outputId
  if !store.commands.contains outputId || command.failed || !command.finalized then
    throw .unavailable
  else match command.streams.get? stream with
    | none => throw .notRetained
    | some record =>
      checkOffset record offset
      readWindow outputId stream record offset limit

def beginCommand : Except BashOutputError Nat × BashOutputStore :=
  if store.closed then (.error .persistence, store)
  else
    let (ref, records) := store.records.alloc emptyRecord
    (.ok ref, { store with
      records
      commands := store.commands ++ [ref] })

def close : BashOutputStore :=
  if store.closed then store
  else
    { store with
      closed := true
      file := none }

end BashOutputStore

/-! ## Runs -/

inductive BashOutputEvent where
  | beginCommand
  | append (ref : Nat) (stream : BashOutputStream) (text : JsText) (calls : List FileCall)
  | finish (ref : Nat) (calls : List FileCall)
  | abandon (ref : Nat) (calls : List FileCall)
  | summary (ref : Nat)
  | read (outputId : Nat) (stream : BashOutputStream) (offset limit : Nat) (calls : List FileCall)
  /-- A call that threw marks its command. -/
  | markFailed (ref : Nat)
  | close

/-- An `append` that returned. -/
structure BashOutputAppend where
  ref : Nat
  stream : BashOutputStream
  text : JsText
  storedBytes : Nat
deriving DecidableEq

/-- The store between the calls: `marking` are the commands whose calls threw and that are not
marked yet, `appends` what the calls of `append` stored. -/
structure BashOutputRun where
  store : BashOutputStore
  marking : List Nat
  appends : List BashOutputAppend

namespace BashOutputRun

def start (limits : BashOutputStoreLimits) : BashOutputRun := ⟨.start limits, [], []⟩

variable (run : BashOutputRun)

/-- The store before a call whose calls on the file end so. -/
def locked (calls : List FileCall) : BashOutputStore := { run.store with calls }

/-- `none` where the event cannot happen: no capture has that command, or it is not to be marked. -/
def step : BashOutputEvent → Option BashOutputRun
  | .beginCommand => some { run with store := run.store.beginCommand.2 }
  | .append ref stream text calls =>
    if ref < run.store.records.next then
      match (BashOutputStore.appendLocked ref stream text).run (run.locked calls) with
      | (.ok result, store) => some { run with
          store
          appends := run.appends ++ [⟨ref, stream, text, result.storedBytes⟩] }
      | (.error _, store) => some { run with
          store
          marking := run.marking ++ [ref] }
    else none
  | .finish ref calls =>
    if ref < run.store.records.next then
      match (BashOutputStore.finishLocked ref).run (run.locked calls) with
      | (.ok _, store) => some { run with store }
      | (.error _, store) => some { run with
          store
          marking := run.marking ++ [ref] }
    else none
  | .abandon ref calls =>
    if ref < run.store.records.next then
      some { run with store := (BashOutputStore.abandonLocked ref).exec (run.locked calls) }
    else none
  | .summary ref => if ref < run.store.records.next then some run else none
  | .read outputId stream offset limit calls => some { run with
      store := (BashOutputStore.read outputId stream offset limit).exec (run.locked calls) }
  | .markFailed ref =>
    if ref ∈ run.marking then some { run with
      store := run.store.markFailed ref
      marking := run.marking.erase ref }
    else none
  | .close => some { run with store := run.store.close }

end BashOutputRun

end Henji
