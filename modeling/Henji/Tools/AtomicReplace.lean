import Henji.Library.Effect

/-!
# Replacing a file

`atomicReplace` writes a temporary file next to the target, checks the target again and renames the
temporary over it. Every file operation and every seam takes its fate from a list: it may fail, and
the turn may be cancelled while it runs. Nobody else writes.

Paths are lists of names. Left out: the access times and owners of files, and the texts of errors.
-/

namespace Henji.AtomicReplace

abbrev Path := List String

inductive Node where
  | file (bytes : List UInt8) (mode : Nat)
  | directory
  | symlink
  | other
deriving DecidableEq, Repr

abbrev Tree := Path → Option Node

inductive Operation where
  | lstat
  | mkdir
  | open
  | write
  | sync
  | chmod
  | close
  | beforeRename
  | read
  | rename
  | afterRename
  | cleanupTemporary
  | remove
deriving DecidableEq, Repr

inductive FileError where
  | alreadyExists
  | notFound
  | failed
deriving DecidableEq, Repr

inductive ReplaceError where
  | cancelled
  | cancellationCleanup
  | invalidPath
  | invalidSymlink
  | notDirectory
  | noTemporary
  | writeFailed
  | targetChanged
  | file (error : FileError)
deriving DecidableEq, Repr

/-- What becomes of one operation; `count` is what a write or a read moves. -/
structure Fate where
  fails : Option FileError
  cancelled : Bool
  count : Nat

/-- The file tree with the variables of the code. `renamed` and `failed` only record what happened. -/
structure State where
  tree : Tree
  aborted : Bool
  fates : List Fate
  temporary : Option Path
  file : Bool
  renamed : Bool
  failed : List Operation

abbrev Code := Effect ReplaceError State

def throwIfCancelled : Code Unit := do
  let s ← get
  if s.aborted then throw .cancelled else pure ()

/-- The next fate; an operation without one succeeds and moves all it can. -/
def nextFate : Code (Option Fate) := do
  let s ← get
  match s.fates with
  | [] => pure none
  | fate :: fates => do
    set { s with fates := fates, aborted := s.aborted || fate.cancelled }
    pure (some fate)

/-- An operation with its fate. -/
def outcome {α : Type} (fate : Option Fate)
    (act : Option Nat → State → Except FileError (α × State)) (s : State) :
    Except FileError (α × State) :=
  match fate.bind Fate.fails with
  | some error => .error error
  | none => act (fate.map Fate.count) s

/-- An operation that may fail by its fate or by itself. -/
def perform {α : Type} (operation : Operation)
    (act : Option Nat → State → Except FileError (α × State)) : Code α := do
  let fate ← nextFate
  let s ← get
  match outcome fate act s with
  | .ok (value, s') => do
    set s'
    pure value
  | .error error => do
    set { s with failed := operation :: s.failed }
    throw (.file error)

/-- An operation that changes nothing. -/
def quietly (operation : Operation) : Code Unit := perform operation fun _ s => .ok ((), s)

def updateTree (s : State) (path : Path) (node : Option Node) : State :=
  { s with tree := fun other => if other = path then node else s.tree other }

/-- `Deno.lstat`. -/
def lstat (path : Path) : Code Node :=
  perform .lstat fun _ s => match s.tree path with
    | some node => .ok (node, s)
    | none => .error .notFound

def mkdir (path : Path) : Code Unit :=
  perform .mkdir fun _ s => match s.tree path with
    | some _ => .error .alreadyExists
    | none => .ok ((), updateTree s path (some .directory))

/-! ## Parents -/

section Parents

variable (root : Path) (pathPolicy : Bool)

def checkDirectory (path : Path) : Code Unit := do
  let info ← lstat path
  throwIfCancelled
  match info with
  | .symlink => throw .invalidSymlink
  | .directory => pure ()
  | _ => throw .notDirectory

def ensureDirectory (create : Bool) (path : Path) : Code Unit := do
  match ← Effect.attempt (checkDirectory path) with
  | .ok _ => pure ()
  | .error (.file .notFound) =>
    if create then do
      mkdir path
      throwIfCancelled
    else throw (.file .notFound)
  | .error error => throw error

/-- The paths from below a boundary down to a path. -/
def steps (boundary path : Path) : List Path :=
  (List.range (path.length - boundary.length)).map fun n => path.take (boundary.length + n + 1)

def ensureParent (path : Path) (create : Bool) : Code Unit := do
  throwIfCancelled
  if pathPolicy = false ∧ ¬ root <+: path then throw .invalidPath
  else
    let boundary := if pathPolicy then [] else root
    (steps boundary path).forM (ensureDirectory create)
    (steps boundary path).forM checkDirectory

end Parents

/-! ## The replacement -/

def TEMP_ATTEMPTS : Nat := 8
def MAX_EDIT_FILE_BYTES : Nat := 1048576

def parentOf (absolute : Path) : Path := absolute.dropLast

def base (absolute : Path) : String := absolute.getLast?.getD "target"

def candidate (absolute : Path) (attempt : Nat) : Path :=
  parentOf absolute ++ ["." ++ base absolute ++ ".henji-" ++ toString attempt]

/-- `Deno.open` with `createNew`; on success the variables hold the new file. -/
def openNew (path : Path) : Code Unit :=
  perform .open fun _ s => match s.tree path with
    | some _ => .error .alreadyExists
    | none => .ok ((), { updateTree s path (some (.file [] 0o600)) with
        temporary := some path
        file := true })

def openTemporary (absolute : Path) : Nat → Nat → Code Unit
  | 0, _ => throw .noTemporary
  | attempts + 1, attempt => do
    match ← Effect.attempt (openNew (candidate absolute attempt)) with
    | .ok _ => pure ()
    | .error (.file .alreadyExists) => openTemporary absolute attempts (attempt + 1)
    | .error error => throw error

/-- The temporary file, changed. -/
def changeTemporary (s : State) (change : List UInt8 → Nat → Node) : Except FileError State :=
  match s.temporary with
  | none => .error .notFound
  | some temporary =>
    match s.tree temporary with
    | some (.file bytes mode) => .ok (updateTree s temporary (some (change bytes mode)))
    | _ => .error .notFound

/-- `file.write`: a front of the bytes goes behind those that were written. -/
def write (bytes : List UInt8) : Code Nat :=
  perform .write fun count s =>
    let front := bytes.take (count.getD bytes.length)
    (changeTemporary s fun written mode => .file (written ++ front) mode).map (front.length, ·)

def writeAll (bytes : List UInt8) : Code Unit := do
  if _hdone : bytes = [] then pure ()
  else
    let written ← write bytes
    if _hwritten : written = 0 then throw .writeFailed
    else
      throwIfCancelled
      writeAll (bytes.drop written)
termination_by bytes.length
decreasing_by
  have hlength := List.length_pos_iff.mpr _hdone
  rw [List.length_drop]
  omega

def chmod (mode : Nat) : Code Unit :=
  perform .chmod fun _ s => (changeTemporary s fun bytes _ => .file bytes mode).map ((), ·)

def close : Code Unit := perform .close fun _ s => .ok ((), { s with file := false })

/-- `file.read`: one part of the bytes from an offset on; a read that gives no bytes is repeated. -/
def read (path : Path) (offset limit : Nat) : Code (List UInt8) :=
  perform .read fun count s => match s.tree path with
    | some (.file bytes _) =>
      .ok ((bytes.drop offset).take (min limit (max 1 (count.getD 8192))), s)
    | _ => .error .notFound

/-- The reads of `readBytesBounded`, behind the bytes that it has. -/
def readOn (path : Path) (earlier : List UInt8) : Nat → Code (List UInt8)
  | 0 => pure earlier
  | fuel + 1 => do
    let remaining := MAX_EDIT_FILE_BYTES + 1 - earlier.length
    if remaining = 0 then pure earlier
    else
      let chunk ← read path earlier.length (min 8192 remaining)
      if chunk = [] then pure earlier else readOn path (earlier ++ chunk) fuel

/-- Each read gives at least one of the bytes that are read at most. -/
def readBytesBounded (path : Path) : Code (List UInt8) := do
  quietly .open
  let result ← Effect.attempt (readOn path [] (MAX_EDIT_FILE_BYTES + 2))
  quietly .close
  Effect.ofExcept result

def bytesEqual (left right : List UInt8) : Bool := left == right

/-- `Deno.lstat(…).catch(…)`: nothing where the target is missing. -/
def current (path : Path) : Code (Option Node) := do
  match ← Effect.attempt (lstat path) with
  | .ok node => pure (some node)
  | .error (.file .notFound) => pure none
  | .error error => throw error

/-- `Deno.rename` of the temporary file, which is not owned any more. -/
def rename (absolute : Path) : Code Unit :=
  perform .rename fun _ s => match s.temporary with
    | none => .error .notFound
    | some temporary =>
      match s.tree temporary with
      | none => .error .notFound
      | some node =>
        if s.tree absolute = some .directory then .error .failed
        else .ok ((), { updateTree (updateTree s absolute (some node)) temporary none with
          temporary := none
          renamed := true })

section Replace

variable (root : Path) (pathPolicy : Bool) (absolute : Path) (bytes : List UInt8) (mode : Nat)
  (expectedBytes : Option (List UInt8))

def checkTarget : Code Unit := do
  let node ← current absolute
  match node with
  | none => if expectedBytes.isSome then throw .targetChanged else pure ()
  | some (.file _ _) =>
    match expectedBytes with
    | none => pure ()
    | some expected => do
      let latest ← readBytesBounded absolute
      throwIfCancelled
      if bytesEqual expected latest then pure () else throw .targetChanged
  | some _ => throw .targetChanged

/-- The `try` block. -/
def replaceFile : Code Unit := do
  openTemporary absolute TEMP_ATTEMPTS 0
  throwIfCancelled
  writeAll bytes
  quietly .sync
  throwIfCancelled
  chmod mode
  throwIfCancelled
  close
  quietly .beforeRename
  throwIfCancelled
  ensureParent root pathPolicy (parentOf absolute) true
  ensureParent root pathPolicy (parentOf absolute) false
  checkTarget absolute expectedBytes
  throwIfCancelled
  rename absolute
  quietly .afterRename
  throwIfCancelled

def removeTemporary (temporary : Path) : Code Unit := do
  quietly .cleanupTemporary
  perform .remove fun _ s => match s.tree temporary with
    | none => .error .notFound
    | some _ => .ok ((), updateTree s temporary none)

/-- Whether a part of the cleanup failed while the turn was cancelled. -/
def cleanupPart (part : Code Unit) : Code Bool := do
  match ← Effect.attempt part with
  | .ok _ => pure false
  | .error _ => do
    let s ← get
    pure s.aborted

/-- `file?.close()`. -/
def closeFile (file : Bool) : Code Bool := if file then cleanupPart close else pure false

/-- The `finally` block; the variable `temporary` keeps its value. -/
def cleanup : Code Bool := do
  let s ← get
  let closing ← closeFile s.file
  match s.temporary with
  | none => pure closing
  | some temporary => do
    let removing ← cleanupPart (removeTemporary temporary)
    pure (closing || removing)

def atomicReplace : Code Unit := do
  throwIfCancelled
  ensureParent root pathPolicy (parentOf absolute) true
  let result ← Effect.attempt (replaceFile root pathPolicy absolute bytes mode expectedBytes)
  let cleanupError ← cleanup
  if cleanupError then throw .cancellationCleanup
  else Effect.ofExcept result

end Replace

end Henji.AtomicReplace
