import Henji.Library.JsonBytes
import Mathlib.Data.List.Sort

/-!
# Listing directories

`ls` returns the entries of a directory, or a tree of them, as JSON. It stops at a number of entries
or when the result has no room, and says so: in a summary, and at the directory whose children it
was listing.

The size of the result is kept by addition while the tree grows. A file system is a finite tree
here: `visibleEntries` sees of a directory what the path policy allows and `lstat` finds.
-/

namespace Henji.LsTool

def RESULT_BYTES : Nat := 1024 * 1024
def RESULT_RESERVE_BYTES : Nat := 128

inductive EntryType where
  | file
  | directory
  | symlink
  | other
deriving DecidableEq, Repr

inductive OmissionReason where
  | depth
  | limit
  | bytes
deriving DecidableEq, Repr

/-- What the file system has under a name. `allowed` is the answer of the path policy and `found`
that of `lstat`; only a directory has children. -/
inductive FileTree where
  | entry (name path : JsText) (type : EntryType) (allowed found : Bool) (children : List FileTree)

/-- A directory has a list of children in tree mode only; the others are leaves. -/
inductive EntryNode where
  | leaf (name path : JsText) (type : EntryType)
  | directory (name path : JsText) (type : EntryType) (children : List EntryNode)
    (childrenOmitted : Option OmissionReason)

structure OmittedSummary where
  depth : Nat
  limit : Bool
  bytes : Bool
deriving DecidableEq

/-- `path` is the directory relative to the workspace. -/
structure LsArguments where
  path : JsText
  tree : Bool
  depth : Nat
  limit : Nat

structure LsPayload where
  path : JsText
  tree : Bool
  depth : Nat
  limit : Nat
  count : Nat
  entries : List EntryNode
  omitted : OmittedSummary
  childrenOmitted : Option OmissionReason

/-! ## JSON -/

def EntryType.toJson : EntryType → Json
  | .file => .str (js "file")
  | .directory => .str (js "directory")
  | .symlink => .str (js "symlink")
  | .other => .str (js "other")

def OmissionReason.toJson : OmissionReason → Json
  | .depth => .str (js "depth")
  | .limit => .str (js "limit")
  | .bytes => .str (js "bytes")

/-- The field that a marked directory has at its end. -/
def omittedField : Option OmissionReason → List (JsText × Json)
  | none => []
  | some reason => [(js "childrenOmitted", reason.toJson)]

mutual
def EntryNode.toJson : EntryNode → Json
  | .leaf name path type =>
    .obj [(js "name", .str name), (js "path", .str path), (js "type", type.toJson)]
  | .directory name path type children childrenOmitted =>
    .obj ([(js "name", .str name), (js "path", .str path), (js "type", type.toJson),
      (js "children", .arr (entriesJson children))] ++ omittedField childrenOmitted)

def entriesJson : List EntryNode → List Json
  | [] => []
  | node :: nodes => node.toJson :: entriesJson nodes
end

def OmittedSummary.toJson (omitted : OmittedSummary) : Json :=
  .obj [(js "depth", natural omitted.depth), (js "limit", .bool omitted.limit),
    (js "bytes", .bool omitted.bytes)]

def LsPayload.toJson (payload : LsPayload) : Json :=
  .obj ([(js "path", .str payload.path), (js "tree", .bool payload.tree),
    (js "depth", natural payload.depth), (js "limit", natural payload.limit),
    (js "count", natural payload.count), (js "entries", .arr (entriesJson payload.entries)),
    (js "omitted", payload.omitted.toJson)] ++ omittedField payload.childrenOmitted)

/-! ## The walk -/

namespace FileTree

def name : FileTree → JsText
  | .entry name _ _ _ _ _ => name

def path : FileTree → JsText
  | .entry _ path _ _ _ _ => path

def type : FileTree → EntryType
  | .entry _ _ type _ _ _ => type

def isVisible : FileTree → Bool
  | .entry _ _ _ allowed found _ => allowed && found

def children : FileTree → List FileTree
  | .entry _ _ _ _ _ children => children

end FileTree

/-- The entries of a directory that are listed, by name. -/
def visibleEntries (directory : List FileTree) : List FileTree :=
  (directory.filter FileTree.isVisible).insertionSort fun left right =>
    textLE left.name right.name = true

/-- What the walk keeps besides the tree: `serializedBytes` is the size of the payload so far. -/
structure LsState where
  serializedBytes : Int
  count : Nat
  stopped : Bool
  omitted : OmittedSummary

/-- The bytes of `,"childrenOmitted":"reason"`. -/
def omittedFieldBytes (reason : OmissionReason) : Nat :=
  (encodeUtf8 (js ",\"childrenOmitted\":" ++ stringify reason.toJson)).length

namespace LsState

variable (state : LsState)

def setSummaryFlag (reason : OmissionReason) : LsState :=
  match reason with
  | .limit =>
    { state with
      omitted := { state.omitted with limit := true }
      serializedBytes := state.serializedBytes +
        (jsonBytes (.bool true) - jsonBytes (.bool state.omitted.limit) : Int) }
  | _ =>
    { state with
      omitted := { state.omitted with bytes := true }
      serializedBytes := state.serializedBytes +
        (jsonBytes (.bool true) - jsonBytes (.bool state.omitted.bytes) : Int) }

/-- `markChildrenOmitted` of a parent without a mark: its field is added. -/
def markChildrenOmitted (reason : OmissionReason) : LsState :=
  { state with serializedBytes := state.serializedBytes + omittedFieldBytes reason }

/-- The counter of `markDepthOmitted`. -/
def countDepth : LsState :=
  { state with
    omitted := { state.omitted with depth := state.omitted.depth + 1 }
    serializedBytes := state.serializedBytes +
      (jsonBytes (natural (state.omitted.depth + 1)) - jsonBytes (natural state.omitted.depth) : Int) }

/-- The end of the walk: the parent is marked. -/
def stop (reason : OmissionReason) : LsState :=
  { (state.markChildrenOmitted reason).setSummaryFlag reason with stopped := true }

end LsState

/-- A node as it is inserted. -/
def entryNode (args : LsArguments) (entry : FileTree) : EntryNode :=
  if args.tree && entry.type == .directory then .directory entry.name entry.path entry.type [] none
  else .leaf entry.name entry.path entry.type

/-- The loop of `appendEntries`: the entries of `destination` come first, and the reason is what
its parent is marked with. `fill` lists the children of a directory that was inserted. -/
def appendLoop (args : LsArguments) (fill : FileTree → LsState → EntryNode × LsState) :
    List FileTree → List EntryNode → LsState → List EntryNode × Option OmissionReason × LsState
  | [], destination, state => (destination, none, state)
  | entry :: entries, destination, state =>
    if state.stopped then (destination, none, state)
    else if args.limit ≤ state.count then (destination, some .limit, state.stop .limit)
    else
      let node := entryNode args entry
      let insertionBytes := jsonBytes node.toJson + if destination.isEmpty then 0 else 1
      if (RESULT_BYTES : Int) < state.serializedBytes + insertionBytes + RESULT_RESERVE_BYTES then
        (destination, some .bytes, state.stop .bytes)
      else
        let state := { state with
          serializedBytes := state.serializedBytes + insertionBytes
          count := state.count + 1 }
        if args.tree && entry.type == .directory then
          let (node, state) := fill entry state
          appendLoop args fill entries (destination ++ [node]) state
        else appendLoop args fill entries (destination ++ [node]) state

/-- The children of a directory with `below` levels of the tree under them. -/
def fillChildren (args : LsArguments) : Nat → FileTree → LsState → EntryNode × LsState
  | 0, entry, state =>
    if (visibleEntries entry.children).isEmpty then
      (.directory entry.name entry.path entry.type [] none, state)
    else
      (.directory entry.name entry.path entry.type [] (some .depth),
        (state.markChildrenOmitted .depth).countDepth)
  | below + 1, entry, state =>
    let (children, childrenOmitted, state) :=
      appendLoop args (fillChildren args below) (visibleEntries entry.children) [] state
    (.directory entry.name entry.path entry.type children childrenOmitted, state)

/-- The payload before the walk; the count reserves its final width. -/
def initialPayload (args : LsArguments) : LsPayload where
  path := args.path
  tree := args.tree
  depth := if args.tree then args.depth else 1
  limit := args.limit
  count := args.limit
  entries := []
  omitted := ⟨0, false, false⟩
  childrenOmitted := none

/-- The walk over a directory; the payload still has the reserved count. -/
def walkDirectory (args : LsArguments) (directory : List FileTree) : LsPayload × LsState :=
  let payload := initialPayload args
  let state : LsState := ⟨jsonBytes payload.toJson, 0, false, payload.omitted⟩
  let topEntries := visibleEntries directory
  if args.tree && args.depth == 0 then
    let state := if topEntries.isEmpty then state else state.countDepth
    ({ payload with omitted := state.omitted }, state)
  else
    let (entries, childrenOmitted, state) :=
      appendLoop args (fillChildren args (args.depth - 1)) topEntries [] state
    ({ payload with
      entries
      omitted := state.omitted
      childrenOmitted }, state)

/-- `execute` on a directory; an error is the text of the one that is thrown. -/
def listDirectory (args : LsArguments) (directory : List FileTree) : Except JsText LsPayload :=
  let (payload, state) := walkDirectory args directory
  let payload := { payload with count := state.count }
  if RESULT_BYTES < jsonBytes payload.toJson then
    .error (js "ls result exceeded its byte budget")
  else .ok payload

end Henji.LsTool
