import Henji.Library.JsonBytes

/-!
# The result of a search

The lines that a search backend reports are counted to the end, and some of them are kept: matches up
to a limit and as long as the result has room, and the contexts around them as long as no match needs
their room.

Text is written in code units; the path policy and the path that is shown are functions of the
absolute path.
-/

namespace Henji.GrepTool

inductive Backend where
  | rg
  | grep
deriving DecidableEq, Repr

inductive OutputMode where
  | lines
  | files
deriving DecidableEq, Repr

/-- `'match' | 'context'`. -/
inductive RecordKind where
  | matched
  | context
deriving DecidableEq, Repr

structure LineRecord where
  path : JsText
  line : Nat
  text : JsText
  kind : RecordKind
deriving DecidableEq

/-- A record of the result; its kind is that of the line, or `file`. -/
inductive KeptRecord where
  | line (record : LineRecord)
  | file (path : JsText)
deriving DecidableEq

structure PendingLine where
  absolutePath : JsText
  record : LineRecord

/-- What a `ResultAccumulator` is constructed with. -/
structure GrepSearch where
  output : OutputMode
  context : Nat
  limit : Nat
  backend : Backend
  ignoreApplied : Bool
  maximumBytes : Nat
  allows : JsText → Bool
  workspaceRelative : JsText → JsText

/-- Room for the result envelope and exact totals. -/
def RESULT_ENVELOPE_BYTES : Nat := 2048

/-- `Number.MAX_SAFE_INTEGER`. -/
def MAX_SAFE_INTEGER : Nat := 9007199254740991

/-! ## JSON -/

def Backend.toJson : Backend → Json
  | .rg => .str (js "rg")
  | .grep => .str (js "grep")

def OutputMode.toJson : OutputMode → Json
  | .lines => .str (js "lines")
  | .files => .str (js "files")

def RecordKind.toJson : RecordKind → Json
  | .matched => .str (js "match")
  | .context => .str (js "context")

namespace KeptRecord

def value : KeptRecord → Json
  | .line record =>
    .obj [(js "path", .str record.path), (js "line", natural record.line),
      (js "text", .str record.text), (js "kind", record.kind.toJson)]
  | .file path => .obj [(js "path", .str path)]

def size (record : KeptRecord) : Nat := jsonBytes record.value

def isContext : KeptRecord → Bool
  | .line record => record.kind == .context
  | .file _ => false

end KeptRecord

/-! ## Keeping records -/

/-- The records of the result and their sums. -/
structure KeptRecords where
  records : List KeptRecord := []
  recordBytes : Nat := 0
  returnedMatches : Nat := 0
  returnedContexts : Nat := 0
  omittedContexts : Nat := 0

/-- The set `files` is a list: only its members are asked for. -/
structure ResultAccumulator where
  kept : KeptRecords := {}
  files : List JsText := []
  pendingContexts : List PendingLine := []
  currentPath : Option JsText := none
  lastKeptMatch : Option LineRecord := none
  total : Nat := 0
  selected : Nat := 0

namespace GrepSearch

variable (search : GrepSearch)

/-- `fits()` for records of `recordBytes` bytes. -/
def fits (recordBytes : Nat) (noRecords : Bool) (size reservedBytes : Nat) : Bool :=
  recordBytes + (if noRecords then 0 else 1) + size + reservedBytes + RESULT_ENVELOPE_BYTES ≤
    search.maximumBytes

/-- The loop that looks for contexts to evict, from the first record on. It says what is left, its
bytes and how many were evicted. -/
def evict (size reservedBytes : Nat) :
    List KeptRecord → Nat → Nat → Option (List KeptRecord × Nat × Nat)
  | [], _, _ => none
  | record :: records, projectedBytes, projectedCount =>
    if !record.isContext then
      (evict size reservedBytes records projectedBytes projectedCount).map
        fun (left, bytes, evictions) => (record :: left, bytes, evictions)
    else
      let projectedBytes := projectedBytes - (record.size + if 1 < projectedCount then 1 else 0)
      let projectedCount := projectedCount - 1
      if search.fits projectedBytes (projectedCount == 0) size reservedBytes then
        some (records, projectedBytes, 1)
      else
        (evict size reservedBytes records projectedBytes projectedCount).map
          fun (left, bytes, evictions) => (left, bytes, evictions + 1)

end GrepSearch

namespace KeptRecords

variable (search : GrepSearch)

/-- The first half of `append`: contexts are evicted where a match has no room. -/
def makeRoom (record : KeptRecord) (reservedBytes : Nat) (kept : KeptRecords) : KeptRecords :=
  if !search.fits kept.recordBytes kept.records.isEmpty record.size reservedBytes &&
      !record.isContext then
    match search.evict record.size reservedBytes kept.records kept.recordBytes
      kept.records.length with
    | none => kept
    | some (left, projectedBytes, evictions) =>
      { kept with
        records := left
        recordBytes := projectedBytes
        returnedContexts := kept.returnedContexts - evictions
        omittedContexts := kept.omittedContexts + evictions }
  else kept

/-- Whether the record was kept. -/
def append (record : KeptRecord) (reservedBytes : Nat) (kept : KeptRecords) : Bool × KeptRecords :=
  let kept := kept.makeRoom search record reservedBytes
  if !search.fits kept.recordBytes kept.records.isEmpty record.size reservedBytes then (false, kept)
  else
    (true, { kept with
      records := kept.records ++ [record]
      recordBytes := kept.recordBytes + ((if kept.records.isEmpty then 0 else 1) + record.size) })

/-- What both kinds of matches do with `append`. -/
def appendMatch (record : KeptRecord) (kept : KeptRecords) : Bool × KeptRecords :=
  match kept.append search record 0 with
  | (true, kept) => (true, { kept with returnedMatches := kept.returnedMatches + 1 })
  | (false, kept) => (false, kept)

/-- The contexts after the last kept match are those on the lines that it is shown with. -/
def isTrailing (last : Option LineRecord) (item : PendingLine) : Bool :=
  last.any fun last =>
    item.record.path == last.path && decide (item.record.line ≤ last.line + search.context)

def flushContext (last : Option LineRecord) (trailingOnly : Bool) (reservedBytes : Nat)
    (kept : KeptRecords) (item : PendingLine) : KeptRecords :=
  if trailingOnly && !isTrailing search last item then
    { kept with omittedContexts := kept.omittedContexts + 1 }
  else if search.allows item.absolutePath then
    match kept.append search (.line item.record) reservedBytes with
    | (true, kept) => { kept with returnedContexts := kept.returnedContexts + 1 }
    | (false, kept) => { kept with omittedContexts := kept.omittedContexts + 1 }
  else kept

end KeptRecords

namespace ResultAccumulator

variable (search : GrepSearch)

def flushContexts (trailingOnly : Bool) (reservedBytes : Nat) (acc : ResultAccumulator) :
    ResultAccumulator :=
  { acc with
    kept := acc.pendingContexts.foldl
      (KeptRecords.flushContext search acc.lastKeptMatch trailingOnly reservedBytes) acc.kept
    pendingContexts := [] }

def matchedFile (absolutePath : JsText) (acc : ResultAccumulator) : ResultAccumulator :=
  if !search.allows absolutePath then acc
  else
    let path := search.workspaceRelative absolutePath
    if acc.files.contains path then acc
    else
      let acc := { acc with files := path :: acc.files, total := acc.total + 1 }
      if search.limit < acc.total then acc
      else
        { acc with
          selected := acc.selected + 1
          kept := (acc.kept.appendMatch search (.file path)).2 }

/-- A line of another file ends the contexts of the last one. -/
def enterPath (path : JsText) (acc : ResultAccumulator) : ResultAccumulator :=
  if acc.currentPath == some path then acc
  else
    { acc.flushContexts search true 0 with
      pendingContexts := []
      currentPath := some path
      lastKeptMatch := none }

/-- The branch of `matchedLine` for a context: before the first kept match of a file only the last
few are remembered, and past the limit only those after a kept match. -/
def contextLine (absolutePath : JsText) (record : LineRecord) (acc : ResultAccumulator) :
    ResultAccumulator :=
  let pending := acc.pendingContexts ++ [⟨absolutePath, record⟩]
  if acc.selected < search.limit then
    match acc.lastKeptMatch with
    | none => { acc with pendingContexts := pending.drop (pending.length - search.context) }
    | some _ => { acc with pendingContexts := pending }
  else if acc.lastKeptMatch.any fun last => decide (record.line ≤ last.line + search.context) then
    { acc with pendingContexts := pending }
  else acc

/-- The branch of `matchedLine` for a match. -/
def matchLine (record : LineRecord) (acc : ResultAccumulator) : ResultAccumulator :=
  let acc := { acc with total := acc.total + 1 }
  if acc.total ≤ search.limit then
    let acc := { acc with selected := acc.selected + 1 }
    let acc := acc.flushContexts search false ((KeptRecord.line record).size + 1)
    let (isKept, kept) := acc.kept.appendMatch search (.line record)
    { acc with kept, lastKeptMatch := if isKept then some record else acc.lastKeptMatch }
  else acc.flushContexts search true 0

def matchedLine (absolutePath : JsText) (line : Nat) (text : JsText) (kind : RecordKind)
    (acc : ResultAccumulator) : ResultAccumulator :=
  if !search.allows absolutePath then acc
  else if search.output = .files then
    if kind = .matched then acc.matchedFile search absolutePath else acc
  else
    let path := search.workspaceRelative absolutePath
    let acc := acc.enterPath search path
    let record : LineRecord := ⟨path, line, text, kind⟩
    if kind = .context then acc.contextLine search absolutePath record
    else acc.matchLine search record

/-! ## The result -/

def payload (acc : ResultAccumulator) : Json :=
  .obj [(js "backend", search.backend.toJson), (js "ignoreApplied", .bool search.ignoreApplied),
    (js "searchCompleted", .bool true), (js "output", search.output.toJson),
    (js "total", natural acc.total), (js "returned", natural acc.kept.returnedMatches),
    (js "omitted", .obj [(js "matches", natural (acc.total - acc.kept.returnedMatches)),
      (js "byLimit", natural (acc.total - search.limit)),
      (js "byResultBytes", natural (acc.selected - acc.kept.returnedMatches)),
      (js "contexts", natural acc.kept.omittedContexts)]),
    (js "contextReturned", natural acc.kept.returnedContexts),
    (js "records", .arr (acc.kept.records.map KeptRecord.value))]

/-- The loop of `finish` takes records from the end while the result is too large; `left` is their
number. -/
def shrink : Nat → ResultAccumulator → ResultAccumulator
  | 0, acc => acc
  | left + 1, acc =>
    if jsonBytes (acc.payload search) ≤ search.maximumBytes then acc
    else
      match acc.kept.records.getLast? with
      | none => acc
      | some removed =>
        let records := acc.kept.records.dropLast
        let kept := { acc.kept with
          records
          recordBytes := acc.kept.recordBytes - (removed.size + if records.isEmpty then 0 else 1) }
        if removed.isContext then
          shrink left { acc with kept := { kept with
            returnedContexts := kept.returnedContexts - 1
            omittedContexts := kept.omittedContexts + 1 } }
        else
          shrink left { acc with kept := { kept with returnedMatches := kept.returnedMatches - 1 } }

/-- `finish` up to the printing. -/
def close (acc : ResultAccumulator) : ResultAccumulator :=
  let acc := acc.flushContexts search true 0
  acc.shrink search acc.kept.records.length

def finish (acc : ResultAccumulator) : JsText := stringify ((acc.close search).payload search)

end ResultAccumulator

/-- What a reader of a backend's output reports. -/
inductive GrepEvent where
  | file (absolutePath : JsText)
  | line (absolutePath : JsText) (line : Nat) (text : JsText) (kind : RecordKind)

namespace GrepSearch

variable (search : GrepSearch)

def accept (acc : ResultAccumulator) : GrepEvent → ResultAccumulator
  | .file absolutePath => acc.matchedFile search absolutePath
  | .line absolutePath line text kind => acc.matchedLine search absolutePath line text kind

def accumulate (events : List GrepEvent) : ResultAccumulator := events.foldl search.accept {}

end GrepSearch

end Henji.GrepTool
