import Henji.Api.Reducer
import Henji.Library.Heap
import Henji.Library.InsMap
import Henji.Library.Runs

/-!
# The commands of the core service

A command id is held in three tiers: the commands that are under way, a bounded cache of receipts,
and the receipts that the Data service stores. `registerCommand` looks in the first two at once. The
third is read by the registration itself, one registration after the other, before its work starts.

A registration is a cell of `registrations`, and its phase is the await at which it is suspended.
Each caller keeps what it was answered: at once, or by the promise of the registration that it
joined.
-/

namespace Henji

/-! ## Values -/

inductive CommandTarget where
  | core (coreEpoch : JsText)
  | session (sessionId : JsText)
  | execution (sessionId executionId : JsText)
deriving DecidableEq

inductive CoreRejection where
  | busy
  | idle
  | unavailable
  | alreadyAccepted
  | invalid
  | notFound
  | failed
  | configurationRejected
  | admissionFailed
  | ambiguous
deriving DecidableEq

inductive CommandResult where
  | accepted (commandId : JsText) (target : CommandTarget) (cursor : Option CoreCursor)
      (value : Json)
  | rejected (commandId : JsText) (target : CommandTarget) (reason : CoreRejection)
      (cursor : Option CoreCursor)
deriving DecidableEq

def CommandResult.commandId : CommandResult → JsText
  | .accepted commandId _ _ _ | .rejected commandId _ _ _ => commandId

structure DataCommandReceipt where
  coreEpoch : JsText
  commandId : JsText
  operation : Option Json
  signatureDigest : JsText
  result : CommandResult
  completedAt : JsText
deriving DecidableEq

/-! ## Their JSON -/

def CommandTarget.toJson : CommandTarget → Json
  | .core coreEpoch => .obj [(js "kind", .str (js "core")), (js "coreEpoch", .str coreEpoch)]
  | .session sessionId => .obj [(js "kind", .str (js "session")), (js "sessionId", .str sessionId)]
  | .execution sessionId executionId =>
    .obj [(js "kind", .str (js "execution")), (js "sessionId", .str sessionId),
      (js "executionId", .str executionId)]

def CoreRejection.text : CoreRejection → String
  | .busy => "busy"
  | .idle => "idle"
  | .unavailable => "unavailable"
  | .alreadyAccepted => "alreadyAccepted"
  | .invalid => "invalid"
  | .notFound => "notFound"
  | .failed => "failed"
  | .configurationRejected => "configurationRejected"
  | .admissionFailed => "admissionFailed"
  | .ambiguous => "ambiguous"

def CoreCursor.toJson (cursor : CoreCursor) : Json :=
  .obj [(js "coreEpoch", .str (js cursor.coreEpoch)), (js "sessionId", .str (js cursor.sessionId)),
    (js "revision", .num (js (toString cursor.revision)))]

/-- `...(cursor === undefined ? {} : { cursor })`. -/
def cursorFields (cursor : Option CoreCursor) : List (JsText × Json) :=
  cursor.toList.map fun cursor => (js "cursor", cursor.toJson)

def CommandResult.toJson : CommandResult → Json
  | .accepted commandId target cursor value =>
    .obj ([(js "kind", .str (js "accepted")), (js "commandId", .str commandId),
      (js "target", target.toJson)] ++ cursorFields cursor ++ [(js "value", value)])
  | .rejected commandId target reason cursor =>
    .obj ([(js "kind", .str (js "rejected")), (js "commandId", .str commandId),
      (js "target", target.toJson), (js "reason", .str (js reason.text))] ++ cursorFields cursor)

def DataCommandReceipt.toJson (receipt : DataCommandReceipt) : Json :=
  .obj ([(js "coreEpoch", .str receipt.coreEpoch), (js "commandId", .str receipt.commandId)] ++
    (receipt.operation.toList.map fun operation => (js "operation", operation)) ++
    [(js "signatureDigest", .str receipt.signatureDigest), (js "result", receipt.result.toJson),
      (js "completedAt", .str receipt.completedAt)])

/-- `receiptBytes`. -/
def receiptBytes (receipt : DataCommandReceipt) : Nat :=
  (encodeUtf8 (stringify receipt.toJson)).length

/-- A field of an object. -/
def Json.field (key : JsText) : Json → Option Json
  | .obj fields => fields.lookup key
  | _ => none

/-- The operation of a receipt. A signature is the value that `JSON.parse` gives of its text. -/
def operationOf (signature : Json) : Option Json :=
  if signature.field (js "kind") = some (.str (js "recall")) then
    if signature.field (js "action") = some (.str (js "clear")) then
      some (.str (js "recall.clear"))
    else some (.str (js "recall.prepare"))
  else signature.field (js "kind")

/-! ## State -/

inductive CommandError where
  /-- `command_id_conflict`. -/
  | conflict
  /-- A failed call of the Data service. -/
  | data (code : String)
  | typeError
deriving DecidableEq, Repr

inductive CommandOutcome where
  | resolved (result : CommandResult)
  | rejected (error : CommandError)
deriving DecidableEq

inductive RegistrationPhase where
  /-- It waits for its predecessor. -/
  | waiting
  /-- It waits for the digest and for `commandReceiptRead`. -/
  | reading
  /-- The work has started. -/
  | working
  /-- It waits for `commandReceiptSave`. -/
  | saving (receipt : DataCommandReceipt)
  /-- It is over, and still owns its id, or not. -/
  | retained
  | over
deriving DecidableEq

/-- `release` was called: the next registration may go on. -/
def RegistrationPhase.released : RegistrationPhase → Bool
  | .waiting | .reading => false
  | .working | .saving _ | .retained | .over => true

/-- `TrackedCommand`, with the state of its registration. -/
structure Registration where
  commandId : JsText
  signature : Json
  target : CommandTarget
  phase : RegistrationPhase
  settled : Option CommandOutcome
deriving DecidableEq

inductive CallAnswer where
  | joined (ref : Nat)
  | direct (outcome : CommandOutcome)
  /-- The id is not known, and no command is admitted any more. -/
  | unavailable (result : CommandResult)
deriving DecidableEq

structure CommandCall where
  commandId : JsText
  signature : Json
  answer : CallAnswer
deriving DecidableEq

/-- The commands of one Core epoch, with the receipts that Data stores. `works` are the registrations
whose work was started, in that order; `calls` has the latest call first. -/
structure CoreCommands where
  coreEpoch : JsText
  slot : Option (SessionId × CoreCursor)
  admissionClosed : Bool
  commands : InsMap JsText Nat
  completedCommands : InsMap JsText DataCommandReceipt
  completedCommandBytes : Int
  registrations : Heap Registration
  works : List Nat
  calls : List CommandCall
  receipts : InsMap JsText DataCommandReceipt

namespace CoreCommands

def start (coreEpoch : JsText) : CoreCommands where
  coreEpoch
  slot := none
  admissionClosed := false
  commands := .empty
  completedCommands := .empty
  completedCommandBytes := 0
  registrations := .empty ⟨[], .null, .core [], .over, some (.rejected .typeError)⟩
  works := []
  calls := []
  receipts := .empty

/-- `rejected`. -/
def rejectedResult (commands : CoreCommands) (commandId : JsText) (target : CommandTarget)
    (reason : CoreRejection) : CommandResult :=
  .rejected commandId target reason <| match target, commands.slot with
    | .core _, _ | _, none => none
    | .session sessionId, some (slotSessionId, cursor)
    | .execution sessionId _, some (slotSessionId, cursor) =>
      if js slotSessionId = sessionId then some cursor else none

/-! ## The cache of receipts -/

def maxReceipts : Nat := 32
def maxReceiptBytes : Nat := 2 * 1024 * 1024

/-- The loop that makes room: the oldest receipt is dropped while there are too many, or too many
bytes. `none` where it takes the first entry of an empty map. -/
def evict (size : Nat) : (entries : List (JsText × DataCommandReceipt)) →
    (entries.map Prod.fst).Nodup → Int → Option (InsMap JsText DataCommandReceipt × Int)
  | [], nodup, bytes =>
    if maxReceipts ≤ 0 ∨ bytes + size > maxReceiptBytes then none else some (⟨[], nodup⟩, bytes)
  | first :: rest, nodup, bytes =>
    if maxReceipts ≤ rest.length + 1 ∨ bytes + size > maxReceiptBytes then
      evict size rest (List.nodup_cons.mp nodup).2 (bytes - receiptBytes first.2)
    else some (⟨first :: rest, nodup⟩, bytes)

/-- `cacheReceipt`; `none` where it throws. -/
def cacheReceipt (commands : CoreCommands) (receipt : DataCommandReceipt) : Option CoreCommands :=
  let size := receiptBytes receipt
  if size > maxReceiptBytes then some commands
  else
    let cache := commands.completedCommands
    (evict size cache.entries cache.nodup commands.completedCommandBytes).map fun kept =>
      { commands with
        completedCommands := kept.1.set receipt.commandId receipt
        completedCommandBytes := kept.2 + size }

/-! ## The stored receipts -/

/-- `writeCommandReceipt`; `none` where it throws. -/
def writeCommandReceipt (receipts : InsMap JsText DataCommandReceipt)
    (receipt : DataCommandReceipt) : Option (InsMap JsText DataCommandReceipt) :=
  if receipt.coreEpoch = [] ∨ receipt.commandId = [] ∨ receipt.signatureDigest = [] ∨
      receipt.result.commandId ≠ receipt.commandId then none
  else match receipts.get? receipt.commandId with
    | some existing =>
      if existing.operation ≠ receipt.operation ∨
          existing.signatureDigest ≠ receipt.signatureDigest then none
      else some receipts
    | none => some (receipts.set receipt.commandId receipt)

/-! ## `registerCommand` -/

/-- `byte.toString(16).padStart(2, '0')`. -/
def hexByte (byte : UInt8) : JsText := [hexDigit (byte.toNat / 0x10), hexDigit (byte.toNat % 0x10)]

variable (sha256 : List UInt8 → List UInt8)

def signatureDigest (signature : JsText) : JsText :=
  (sha256 (encodeUtf8 signature)).flatMap hexByte

def recordCall (commands : CoreCommands) (commandId : JsText) (signature : Json)
    (answer : CallAnswer) : CoreCommands :=
  { commands with calls := ⟨commandId, signature, answer⟩ :: commands.calls }

/-- A call of `registerCommand`, up to the first await of a new registration. `onRegistered` of a
shutdown closes the admission. -/
def registerCommand (commands : CoreCommands) (commandId : JsText) (signature : Json)
    (target : CommandTarget) (shutdown : Bool) : CoreCommands :=
  match commands.commands.get? commandId with
  | some existing =>
    commands.recordCall commandId signature
      (if stringify (commands.registrations.read existing).signature ≠ stringify signature then
        .direct (.rejected .conflict) else .joined existing)
  | none => match commands.completedCommands.get? commandId with
    | some cached =>
      commands.recordCall commandId signature (.direct
        (if cached.signatureDigest ≠ signatureDigest sha256 (stringify signature) then
          .rejected .conflict else .resolved cached.result))
    | none =>
      if commands.admissionClosed then
        commands.recordCall commandId signature
          (.unavailable (commands.rejectedResult commandId target .unavailable))
      else
        let ref := commands.registrations.next
        { commands with
          commands := commands.commands.set commandId ref
          registrations :=
            (commands.registrations.alloc ⟨commandId, signature, target, .waiting, none⟩).2
          admissionClosed := commands.admissionClosed || shutdown }.recordCall
            commandId signature (.joined ref)

def setPhase (commands : CoreCommands) (ref : Nat) (phase : RegistrationPhase) : CoreCommands :=
  { commands with
    registrations := commands.registrations.modify ref fun registration =>
      { registration with phase } }

/-- `commands.delete(commandId)`, and the promise of the registration is settled. -/
def finish (commands : CoreCommands) (ref : Nat) (outcome : CommandOutcome) : CoreCommands :=
  { commands with
    commands := commands.commands.erase (commands.registrations.read ref).commandId
    registrations := commands.registrations.modify ref fun registration =>
      { registration with phase := .over, settled := some outcome } }

/-- The promise is rejected, and the registration still owns the id. -/
def retain (commands : CoreCommands) (ref : Nat) (error : CommandError) : CoreCommands :=
  { commands with
    registrations := commands.registrations.modify ref fun registration =>
      { registration with phase := .retained, settled := some (.rejected error) } }

/-- The value of the work is there: its receipt is saved next. -/
def workDone (commands : CoreCommands) (ref : Nat) (value : CommandResult) (completedAt : JsText) :
    CoreCommands :=
  let registration := commands.registrations.read ref
  commands.setPhase ref (.saving {
    coreEpoch := commands.coreEpoch
    commandId := registration.commandId
    operation := operationOf registration.signature
    signatureDigest := signatureDigest sha256 (stringify registration.signature)
    result := value
    completedAt })

/-- The work was not started, or it threw. -/
def workFailed (commands : CoreCommands) (ref : Nat) (completedAt : JsText) : CoreCommands :=
  let registration := commands.registrations.read ref
  commands.workDone sha256 ref
    (commands.rejectedResult registration.commandId registration.target .failed) completedAt

/-- `commandReceiptRead` resolved. Where no receipt is stored the work is started: it is an
asynchronous function, so that the call itself does not throw. -/
def receiptRead (commands : CoreCommands) (ref : Nat) (completedAt : JsText) : CoreCommands :=
  let registration := commands.registrations.read ref
  match commands.receipts.get? registration.commandId with
  | some receipt =>
    if receipt.signatureDigest ≠ signatureDigest sha256 (stringify registration.signature) then
      commands.finish ref (.rejected .conflict)
    else match commands.cacheReceipt receipt with
      | some cached => cached.finish ref (.resolved receipt.result)
      | none => commands.workFailed sha256 ref completedAt
  | none => { commands with works := commands.works ++ [ref] }.setPhase ref .working

/-- `commandReceiptSave` of the receipt ran. -/
def receiptSaved (commands : CoreCommands) (ref : Nat) (receipt : DataCommandReceipt) :
    CoreCommands :=
  match writeCommandReceipt commands.receipts receipt with
  | none => commands.retain ref (.data "history_invalid")
  | some receipts =>
    let saved := { commands with receipts }
    match saved.cacheReceipt receipt with
    | some cached => cached.finish ref (.resolved receipt.result)
    | none => saved.retain ref .typeError

/-- `commandReceiptSave` threw, before or after the receipt was stored. -/
def receiptSaveFailed (commands : CoreCommands) (ref : Nat) (receipt : DataCommandReceipt)
    (stored : Bool) (code : String) : CoreCommands :=
  let receipts := match stored, writeCommandReceipt commands.receipts receipt with
    | true, some receipts => receipts
    | _, _ => commands.receipts
  { commands with receipts }.retain ref (.data code)

/-! ## Events -/

inductive CommandEvent where
  | slotChanged (slot : Option (SessionId × CoreCursor))
  /-- `beginShutdown`, other than by a shutdown command. -/
  | admissionClosed
  | register (commandId : JsText) (signature : Json) (target : CommandTarget) (shutdown : Bool)
  /-- The predecessor of a registration was released. -/
  | preflight (ref : Nat)
  /-- `commandReceiptRead` resolves, or throws. -/
  | receiptRead (ref : Nat) (completedAt : JsText)
  | receiptReadFailed (ref : Nat) (completedAt : JsText)
  /-- The work resolves, or rejects. -/
  | workResolved (ref : Nat) (value : CommandResult) (completedAt : JsText)
  | workRejected (ref : Nat) (completedAt : JsText)
  | receiptSaved (ref : Nat)
  | receiptSaveFailed (ref : Nat) (stored : Bool) (code : String)
  /-- A session is deleted with the receipts of its executions. -/
  | receiptDeleted (commandId : JsText)

/-- One event; `none` where it cannot happen. -/
def step (commands : CoreCommands) : CommandEvent → Option CoreCommands
  | .slotChanged slot => some { commands with slot }
  | .admissionClosed => some { commands with admissionClosed := true }
  | .register commandId signature target shutdown =>
    some (commands.registerCommand sha256 commandId signature target shutdown)
  | .preflight ref =>
    if (commands.registrations.read ref).phase = .waiting ∧
        (ref = 0 ∨ (commands.registrations.read (ref - 1)).phase.released = true) then
      some (commands.setPhase ref .reading)
    else none
  | .receiptRead ref completedAt =>
    match (commands.registrations.read ref).phase with
    | .reading => some (commands.receiptRead sha256 ref completedAt)
    | _ => none
  | .receiptReadFailed ref completedAt =>
    match (commands.registrations.read ref).phase with
    | .reading => some (commands.workFailed sha256 ref completedAt)
    | _ => none
  | .workResolved ref value completedAt =>
    match (commands.registrations.read ref).phase with
    | .working => some (commands.workDone sha256 ref value completedAt)
    | _ => none
  | .workRejected ref completedAt =>
    match (commands.registrations.read ref).phase with
    | .working => some (commands.workFailed sha256 ref completedAt)
    | _ => none
  | .receiptSaved ref =>
    match (commands.registrations.read ref).phase with
    | .saving receipt => some (commands.receiptSaved ref receipt)
    | _ => none
  | .receiptSaveFailed ref stored code =>
    match (commands.registrations.read ref).phase with
    | .saving receipt => some (commands.receiptSaveFailed ref receipt stored code)
    | _ => none
  | .receiptDeleted commandId => some { commands with receipts := commands.receipts.erase commandId }

end CoreCommands

end Henji
