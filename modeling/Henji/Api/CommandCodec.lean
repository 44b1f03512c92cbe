import Henji.Host.CommandRegistry
import Henji.Library.Utf8

/-!
# Command results on the wire

A command's result goes to its caller through the decoder of its own operation, and to a later
`commandRead` through one decoder for the values of every operation, which tells them apart by their
fields. A result is read back from the commands under way, from the cache or from the stored receipt.

JSON values stand for their texts: what is printed is parsed back.
-/

namespace Henji

namespace CommandCodec

/-! ## Values on the wire -/

def isRecord : Json → Bool
  | .obj _ => true
  | _ => false

/-- `isText(value[key])`, with the text. -/
def text (key : String) (value : Json) : Option JsText :=
  match value.field (js key) with
  | some (.str text) => some text
  | _ => none

/-- `value[key] === text`. -/
def isText (key text : String) (value : Json) : Bool :=
  value.field (js key) == some (.str (js text))

/-- `key in value`. -/
def has (key : String) (value : Json) : Bool := (value.field (js key)).isSome

/-- `String(value)`, where it can be one of the words that a decoder looks for. -/
def word : Json → Option JsText
  | .str text => some text
  | .arr [item] => word item
  | _ => none

/-- `words.includes(String(value[key]))`. -/
def includes (words : List String) (key : String) (value : Json) : Bool :=
  match (value.field (js key)).bind word with
  | some text => words.any fun word => js word == text
  | none => false

def MAX_SAFE_INTEGER : Nat := 9007199254740991

/-- The count that a number's text is. -/
def countOf (text : JsText) : Option Nat :=
  let digits := text.map fun unit => Char.ofNat unit.toNat
  if digits ≠ [] ∧ digits.all Char.isDigit then some (Nat.ofDigitChars 10 digits 0) else none

def isCount : Option Json → Bool
  | some (.num text) => (countOf text).any fun n => decide (n ≤ MAX_SAFE_INTEGER)
  | _ => false

/-! ## The decoders -/

def isCommandTarget : Option Json → Bool
  | some value =>
    isText "kind" "core" value && (text "coreEpoch" value).isSome ||
    isText "kind" "session" value && (text "sessionId" value).isSome ||
    isText "kind" "execution" value && (text "sessionId" value).isSome &&
      (text "executionId" value).isSome
  | none => false

def isCursor : Option Json → Bool
  | some value => (text "coreEpoch" value).isSome && (text "sessionId" value).isSome &&
      isCount (value.field (js "revision"))
  | none => true

def coreRejections : List String := ["busy", "idle", "unavailable", "alreadyAccepted", "invalid",
  "notFound", "failed", "configurationRejected", "admissionFailed", "ambiguous"]

/-- `none` where the decoder throws. -/
def decodeCommandResult (decodeValue : Json → Option Json) : Json → Option Json
  | .obj fields =>
    let value := Json.obj fields
    if (text "commandId" value).isNone || !isCommandTarget (value.field (js "target")) ||
        !isCursor (value.field (js "cursor")) then none
    else if isText "kind" "accepted" value then
      ((value.field (js "value")).bind decodeValue).map fun decoded =>
        .obj (InsMap.setEntry (js "value") decoded fields)
    else if isText "kind" "rejected" value && includes coreRejections "reason" value then some value
    else none
  | _ => none

def decodeCommandState (decodeValue : Json → Option Json) (value : Json) : Option Json :=
  if isText "kind" "processing" value && (text "commandId" value).isSome then some value
  else decodeCommandResult decodeValue value

def decodeCoreShutdownValue (value : Json) : Option Json :=
  if isText "result" "requested" value then some (.obj [(js "result", .str (js "requested"))])
  else none

def decodeSessionOpenValue (value : Json) : Option Json :=
  (text "sessionId" value).map fun sessionId => .obj [(js "sessionId", .str sessionId)]

def decodeSessionDeleteValue (value : Json) : Option Json :=
  (text "deleted" value).map fun deleted => .obj [(js "deleted", .str deleted)]

def decodeSessionRenameValue (value : Json) : Option Json :=
  if isText "result" "renamed" value || isText "result" "unchanged" value then some value else none

def isApiSelection : Option Json → Bool
  | some value => (text "provider" value).isSome && (text "modelId" value).isSome &&
      (text "effort" value).isSome
  | none => false

def decodeSelectionChangeValue (value : Json) : Option Json :=
  if (isText "result" "selected" value || isText "result" "unchanged" value) &&
      isApiSelection (value.field (js "selection")) then some value
  else none

def decodeRecallValue (value : Json) : Option Json :=
  if isText "action" "prepare" value && (text "sourceExecutionId" value).isSome &&
      (isText "evidence" "available" value || isText "evidence" "unavailable" value) then some value
  else match value.field (js "cleared") with
    | some (.bool _) => if isText "action" "clear" value then some value else none
    | _ => none

/-- The decoder of `taskSubmit` and of `steeringSubmit`. -/
def decodeExecutionValue (value : Json) : Option Json :=
  (text "executionId" value).map fun executionId => .obj [(js "executionId", .str executionId)]

def cancelResults : List String := ["requested", "already_requested", "idle"]

def decodeExecutionCancelValue (value : Json) : Option Json :=
  match text "executionId" value, value.field (js "result") with
  | some executionId, some result =>
    if includes cancelResults "result" value then
      some (.obj [(js "executionId", .str executionId), (js "result", result)])
    else none
  | _, _ => none

def decodeFollowUpQueueValue (value : Json) : Option Json :=
  (text "queueId" value).map fun queueId => .obj [(js "queueId", .str queueId)]

/-- The one decoder of `commandRead`: the first test that a value passes says what it is. -/
def decodeCoreCommandValue (value : Json) : Option Json :=
  if !isRecord value then none
  else if has "deleted" value then decodeSessionDeleteValue value
  else if isText "result" "requested" value then decodeCoreShutdownValue value
  else if has "sessionId" value && !has "executionId" value then decodeSessionOpenValue value
  else if has "selection" value then decodeSelectionChangeValue value
  else if isText "result" "renamed" value then some (.obj [(js "result", .str (js "renamed"))])
  else if isText "result" "unchanged" value then some (.obj [(js "result", .str (js "unchanged"))])
  else
    let prepared := match text "sourceExecutionId" value, value.field (js "evidence") with
      | some sourceExecutionId, some evidence =>
        if isText "action" "prepare" value &&
            includes ["available", "unavailable"] "evidence" value then
          some (Json.obj [(js "action", .str (js "prepare")),
            (js "sourceExecutionId", .str sourceExecutionId), (js "evidence", evidence)])
        else none
      | _, _ => none
    let cleared := match value.field (js "cleared") with
      | some (.bool cleared) =>
        if isText "action" "clear" value then
          some (Json.obj [(js "action", .str (js "clear")), (js "cleared", .bool cleared)])
        else none
      | _ => none
    prepared.or (cleared.or (
      match decodeFollowUpQueueValue value with
      | some queued => some queued
      | none =>
        if has "result" value then decodeExecutionCancelValue value
        else decodeExecutionValue value))

/-! ## Results of the operations -/

inductive CommandOperation where
  | coreShutdown
  | sessionOpen
  | sessionRename
  | sessionDelete
  | selectionChange
  | recall_
  | taskSubmit
  | executionCancel
  | steeringSubmit
  | followUpQueue
deriving DecidableEq

/-- The decoder of the operation's caller. -/
def CommandOperation.decodeValue : CommandOperation → Json → Option Json
  | coreShutdown => decodeCoreShutdownValue
  | sessionOpen => decodeSessionOpenValue
  | sessionRename => decodeSessionRenameValue
  | sessionDelete => decodeSessionDeleteValue
  | selectionChange => decodeSelectionChangeValue
  | recall_ => decodeRecallValue
  | taskSubmit => decodeExecutionValue
  | executionCancel => decodeExecutionCancelValue
  | steeringSubmit => decodeExecutionValue
  | followUpQueue => decodeFollowUpQueueValue

structure ApiSelection where
  provider : JsText
  modelId : JsText
  effort : JsText
deriving DecidableEq

inductive CancelResult where
  | requested
  | already_requested
  | idle
deriving DecidableEq

def CancelResult.word : CancelResult → String
  | requested => "requested"
  | already_requested => "already_requested"
  | idle => "idle"

inductive CoreCommandValue where
  | shutdown
  | opened (sessionId : JsText)
  | renamed (changed : Bool)
  | deleted (sessionId : JsText)
  | selected (changed : Bool) (selection : ApiSelection)
  | prepared (sourceExecutionId : JsText) (available : Bool)
  | cleared (found : Bool)
  | submitted (executionId : JsText)
  | cancelled (executionId : JsText) (result : CancelResult)
  | steered (executionId : JsText)
  | queued (queueId : JsText)
deriving DecidableEq

namespace CoreCommandValue

def operation : CoreCommandValue → CommandOperation
  | shutdown => .coreShutdown
  | opened _ => .sessionOpen
  | renamed _ => .sessionRename
  | deleted _ => .sessionDelete
  | selected .. => .selectionChange
  | prepared .. | cleared _ => .recall_
  | submitted _ => .taskSubmit
  | cancelled .. => .executionCancel
  | steered _ => .steeringSubmit
  | queued _ => .followUpQueue

def toJson : CoreCommandValue → Json
  | shutdown => .obj [(js "result", .str (js "requested"))]
  | opened sessionId => .obj [(js "sessionId", .str sessionId)]
  | renamed changed => .obj [(js "result", .str (js (if changed then "renamed" else "unchanged")))]
  | deleted sessionId => .obj [(js "deleted", .str sessionId)]
  | selected changed selection =>
    .obj [(js "result", .str (js (if changed then "selected" else "unchanged"))),
      (js "selection", .obj [(js "provider", .str selection.provider),
        (js "modelId", .str selection.modelId), (js "effort", .str selection.effort)])]
  | prepared sourceExecutionId available =>
    .obj [(js "action", .str (js "prepare")), (js "sourceExecutionId", .str sourceExecutionId),
      (js "evidence", .str (js (if available then "available" else "unavailable")))]
  | cleared found => .obj [(js "action", .str (js "clear")), (js "cleared", .bool found)]
  | submitted executionId => .obj [(js "executionId", .str executionId)]
  | cancelled executionId result =>
    .obj [(js "executionId", .str executionId), (js "result", .str (js result.word))]
  | steered executionId => .obj [(js "executionId", .str executionId)]
  | queued queueId => .obj [(js "queueId", .str queueId)]

/-- The caller of the operation gets the value as it is. -/
theorem decodeValue_toJson (value : CoreCommandValue) :
    value.operation.decodeValue value.toJson = some value.toJson := by
  cases value with
  | shutdown => rfl
  | opened sessionId => rfl
  | renamed changed => cases changed <;> rfl
  | deleted sessionId => rfl
  | selected changed selection => cases changed <;> rfl
  | prepared sourceExecutionId available => cases available <;> rfl
  | cleared found => rfl
  | submitted executionId => rfl
  | cancelled executionId result => cases result <;> rfl
  | steered executionId => rfl
  | queued queueId => rfl

end CoreCommandValue

/-- An accepted cancellation that was requested has the result of a shutdown. -/
def CoreCommandValue.confused : CoreCommandValue → Bool
  | .cancelled _ .requested => true
  | _ => false

theorem decodeCoreCommandValue_toJson {value : CoreCommandValue} (h : value.confused = false) :
    decodeCoreCommandValue value.toJson = some value.toJson := by
  cases value with
  | shutdown => rfl
  | opened sessionId => rfl
  | renamed changed => cases changed <;> rfl
  | deleted sessionId => rfl
  | selected changed selection => cases changed <;> rfl
  | prepared sourceExecutionId available => cases available <;> rfl
  | cleared found => rfl
  | submitted executionId => rfl
  | cancelled executionId result =>
    cases result with
    | requested => cases h
    | already_requested => rfl
    | idle => rfl
  | steered executionId => rfl
  | queued queueId => rfl

theorem confused_iff {value : CoreCommandValue} :
    value.confused = true ↔ ∃ executionId, value = .cancelled executionId .requested := by
  cases value with
  | cancelled executionId result => cases result <;> simp [CoreCommandValue.confused]
  | _ => simp [CoreCommandValue.confused]

/-- The decoder takes the cancellation for a shutdown. -/
theorem decodeCoreCommandValue_confused (executionId : JsText) :
    decodeCoreCommandValue (CoreCommandValue.cancelled executionId .requested).toJson =
      some CoreCommandValue.shutdown.toJson := rfl

/-- What a command has settled with. -/
inductive Outcome where
  | accepted (value : CoreCommandValue)
  | rejected (operation : CommandOperation) (reason : CoreRejection)
deriving DecidableEq

def Outcome.operation : Outcome → CommandOperation
  | accepted value => value.operation
  | rejected operation _ => operation

def Outcome.confused : Outcome → Bool
  | accepted value => value.confused
  | rejected _ _ => false

def Outcome.result (commandId : JsText) (target : CommandTarget) (cursor : Option CoreCursor) :
    Outcome → CommandResult
  | accepted value => .accepted commandId target cursor value.toJson
  | rejected _ reason => .rejected commandId target reason cursor

/-! ## The stored receipt -/

/-- The columns of a receipt that its result fills. -/
structure CommandReceiptRow where
  resultJson : Json
  targetJson : Json
  executionId : Option JsText
deriving DecidableEq

def resultExecutionId (result : Json) : Option JsText :=
  if isText "kind" "accepted" result then (result.field (js "value")).bind (text "executionId")
  else none

def writeRow (result : CommandResult) : CommandReceiptRow where
  resultJson := result.toJson
  targetJson := match result with
    | .accepted _ target _ _ | .rejected _ target _ _ => target.toJson
  executionId := resultExecutionId result.toJson

/-- `none` where `readCommandReceipt` throws. -/
def readRow (commandId : JsText) (row : CommandReceiptRow) : Option Json :=
  if text "commandId" row.resultJson ≠ some commandId ∨
      (row.resultJson.field (js "target")).map stringify ≠ some (stringify row.targetJson) ∨
      resultExecutionId row.resultJson ≠ row.executionId then none
  else some row.resultJson

theorem readRow_writeRow (result : CommandResult) :
    readRow result.commandId (writeRow result) = some result.toJson := by
  rw [readRow, if_neg]
  · rfl
  · simp only [not_or, not_not]
    cases result with
    | accepted commandId target cursor value => exact ⟨rfl, rfl, rfl⟩
    | rejected commandId target reason cursor => exact ⟨rfl, rfl, rfl⟩

/-- Where `commandRead` finds the result. -/
inductive Tier where
  | underWay
  | cached
  | stored
deriving DecidableEq

/-- The answer of the service to `commandRead`. -/
def Tier.answer (result : CommandResult) : Tier → Option Json
  | underWay | cached => some result.toJson
  | stored => readRow result.commandId (writeRow result)

theorem Tier.answer_eq (result : CommandResult) (tier : Tier) :
    tier.answer result = some result.toJson := by
  cases tier with
  | underWay => rfl
  | cached => rfl
  | stored => exact readRow_writeRow result

/-! ## Both decoders on one result -/

theorem map_js_digits {digits : List Char} (h : ∀ c ∈ digits, c.isDigit = true) :
    (digits.map fun c => UInt16.ofNat c.toNat).map (fun unit => Char.ofNat unit.toNat) = digits := by
  rw [List.map_map]
  refine (List.map_congr_left fun c hmem => ?_).trans (List.map_id digits)
  have hdigit := h c hmem
  rw [Char.isDigit, Bool.and_eq_true, decide_eq_true_eq, decide_eq_true_eq] at hdigit
  have hle : c.toNat ≤ 57 := UInt32.le_iff_toNat_le.mp hdigit.2
  have hsmall : c.toNat < 65536 := Nat.lt_of_le_of_lt hle (by decide)
  show Char.ofNat (UInt16.ofNat c.toNat).toNat = c
  rw [toNat_ofNat16 hsmall, Char.ofNat_toNat]

theorem countOf_toString (n : Nat) : countOf (js (toString n)) = some n := by
  have hdigits : ∀ c ∈ Nat.toDigits 10 n, c.isDigit = true := fun c hmem =>
    Nat.isDigit_of_mem_toDigits (by decide) (by decide) hmem
  have htext : (js (toString n)).map (fun unit => Char.ofNat unit.toNat) = Nat.toDigits 10 n := by
    rw [js, Nat.toString_eq_ofList_toDigits, String.toList_ofList]
    exact map_js_digits hdigits
  rw [countOf, htext, if_pos ⟨Nat.toDigits_ne_nil, List.all_eq_true.mpr hdigits⟩,
    Nat.ofDigitChars_toDigits (by decide) (by decide)]

/-- The revision of the cursor can be read. -/
def cursorSafe (cursor : Option CoreCursor) : Bool :=
  cursor.all fun cursor => decide (cursor.revision ≤ MAX_SAFE_INTEGER)

theorem isCursor_toJson (cursor : Option CoreCursor) :
    isCursor (cursor.map CoreCursor.toJson) = cursorSafe cursor := by
  cases cursor with
  | none => rfl
  | some cursor =>
    have hcount : isCount (some (.num (js (toString cursor.revision)))) =
        decide (cursor.revision ≤ MAX_SAFE_INTEGER) := by
      rw [isCount, countOf_toString]
      rfl
    exact hcount

theorem isCommandTarget_toJson (target : CommandTarget) :
    isCommandTarget (some target.toJson) = true := by
  cases target <;> rfl

theorem includes_rejection (reason : CoreRejection) (commandId : JsText) (target : CommandTarget)
    (cursor : Option CoreCursor) : includes coreRejections "reason"
      (CommandResult.rejected commandId target reason cursor).toJson = true := by
  cases reason <;> rfl

variable (decodeValue : Json → Option Json) (commandId : JsText) (target : CommandTarget)
  (cursor : Option CoreCursor)

theorem field_value (value : Json) :
    (CommandResult.accepted commandId target cursor value).toJson.field (js "value") =
      some value := by
  cases cursor <;> rfl

theorem decodeCommandResult_accepted (value : Json) :
    decodeCommandResult decodeValue (CommandResult.accepted commandId target cursor value).toJson =
      if cursorSafe cursor then
        (decodeValue value).map fun decoded =>
          (CommandResult.accepted commandId target cursor decoded).toJson
      else none := by
  obtain ⟨fields, hfields⟩ : ∃ fields,
      (CommandResult.accepted commandId target cursor value).toJson = .obj fields := ⟨_, rfl⟩
  have hcommand : text "commandId" (.obj fields) = some commandId := by
    rw [← hfields]
    rfl
  have htarget : (Json.obj fields).field (js "target") = some target.toJson := by
    rw [← hfields]
    rfl
  have hcursor : (Json.obj fields).field (js "cursor") = cursor.map CoreCursor.toJson := by
    rw [← hfields]
    cases cursor <;> rfl
  have hkind : isText "kind" "accepted" (.obj fields) = true := by
    rw [← hfields]
    rfl
  have hvalue : (Json.obj fields).field (js "value") = some value := by
    rw [← hfields]
    exact field_value commandId target cursor value
  have hset : ∀ decoded, Json.obj (InsMap.setEntry (js "value") decoded fields) =
      (CommandResult.accepted commandId target cursor decoded).toJson := by
    intro decoded
    rw [← Json.obj.inj hfields]
    cases cursor <;> rfl
  rw [hfields, decodeCommandResult]
  simp only [hcommand, htarget, hcursor, hkind, hvalue, hset, isCommandTarget_toJson,
    isCursor_toJson]
  cases cursorSafe cursor <;> rfl

theorem decodeCommandResult_rejected (reason : CoreRejection) :
    decodeCommandResult decodeValue (CommandResult.rejected commandId target reason cursor).toJson =
      if cursorSafe cursor then
        some (CommandResult.rejected commandId target reason cursor).toJson
      else none := by
  have hreason := includes_rejection reason commandId target cursor
  obtain ⟨fields, hfields⟩ : ∃ fields,
      (CommandResult.rejected commandId target reason cursor).toJson = .obj fields := ⟨_, rfl⟩
  have hcommand : text "commandId" (.obj fields) = some commandId := by
    rw [← hfields]
    rfl
  have htarget : (Json.obj fields).field (js "target") = some target.toJson := by
    rw [← hfields]
    rfl
  have hcursor : (Json.obj fields).field (js "cursor") = cursor.map CoreCursor.toJson := by
    rw [← hfields]
    cases cursor <;> rfl
  have haccepted : isText "kind" "accepted" (.obj fields) = false := by
    rw [← hfields]
    rfl
  have hkind : isText "kind" "rejected" (.obj fields) = true := by
    rw [← hfields]
    rfl
  rw [hfields] at hreason ⊢
  rw [decodeCommandResult]
  simp only [hcommand, htarget, hcursor, haccepted, hkind, hreason, isCommandTarget_toJson,
    isCursor_toJson]
  cases cursorSafe cursor <;> rfl

theorem decodeCommandState_toJson (result : CommandResult) :
    decodeCommandState decodeValue result.toJson = decodeCommandResult decodeValue result.toJson := by
  cases result <;> rfl

/-! ## Reading a result back -/

/-- What the caller of the operation gets. -/
def direct (outcome : Outcome) : Option Json :=
  decodeCommandResult outcome.operation.decodeValue
    (outcome.result commandId target cursor).toJson

/-- What a later `commandRead` gets. -/
def readBack (outcome : Outcome) (tier : Tier) : Option Json :=
  (tier.answer (outcome.result commandId target cursor)).bind
    (decodeCommandState decodeCoreCommandValue)

theorem direct_eq (outcome : Outcome) : direct commandId target cursor outcome =
    if cursorSafe cursor then some (outcome.result commandId target cursor).toJson else none := by
  cases outcome with
  | accepted value =>
    have hdirect := decodeCommandResult_accepted value.operation.decodeValue commandId target cursor
      value.toJson
    rw [value.decodeValue_toJson] at hdirect
    exact hdirect
  | rejected operation reason => exact decodeCommandResult_rejected _ commandId target cursor reason

theorem readBack_eq (outcome : Outcome) (tier : Tier) :
    readBack commandId target cursor outcome tier =
      decodeCommandResult decodeCoreCommandValue (outcome.result commandId target cursor).toJson := by
  rw [readBack, Tier.answer_eq]
  exact decodeCommandState_toJson _ _

/-- A result is read back as its caller got it, and not refused, exactly where it is no accepted
cancellation that was requested; the revision of a cursor is a safe integer. -/
theorem result_read_back (outcome : Outcome) (tier : Tier) :
    (∃ state, direct commandId target cursor outcome = some state ∧
      readBack commandId target cursor outcome tier = some state) ↔
    outcome.confused = false ∧ cursorSafe cursor = true := by
  rw [direct_eq, readBack_eq]
  cases hsafe : cursorSafe cursor with
  | false => simp
  | true =>
    cases outcome with
    | rejected operation reason =>
      have hread := decodeCommandResult_rejected decodeCoreCommandValue commandId target cursor reason
      rw [hsafe] at hread
      simpa [Outcome.confused, Outcome.result] using hread
    | accepted value =>
      have hread := decodeCommandResult_accepted decodeCoreCommandValue commandId target cursor
        value.toJson
      rw [hsafe, if_pos rfl] at hread
      cases hconfused : value.confused with
      | false =>
        rw [decodeCoreCommandValue_toJson hconfused] at hread
        simpa [Outcome.confused, Outcome.result, hconfused] using hread
      | true =>
        obtain ⟨executionId, rfl⟩ := confused_iff.mp hconfused
        rw [decodeCoreCommandValue_confused] at hread
        refine iff_of_false ?_ (fun h => absurd h.1 (by simp [Outcome.confused, hconfused]))
        rintro ⟨state, hdirect, hback⟩
        -- The field of the execution is gone.
        obtain rfl := Option.some.inj hdirect
        have hstate := Option.some.inj (hread.symm.trans hback)
        have hvalue := congrArg (Json.field (js "value")) hstate
        rw [Outcome.result, field_value, field_value] at hvalue
        have hexecution : has "executionId" CoreCommandValue.shutdown.toJson = true :=
          congrArg (has "executionId") (Option.some.inj hvalue)
        exact absurd hexecution (by decide)

/-- A requested cancellation is read back as a shutdown, without its execution. -/
theorem cancellation_confused :
    direct (js "command") (.execution (js "session") (js "execution")) none
        (.accepted (.cancelled (js "execution") .requested)) =
      some (CommandResult.accepted (js "command") (.execution (js "session") (js "execution")) none
        (CoreCommandValue.cancelled (js "execution") .requested).toJson).toJson ∧
    readBack (js "command") (.execution (js "session") (js "execution")) none
        (.accepted (.cancelled (js "execution") .requested)) .underWay =
      some (CommandResult.accepted (js "command") (.execution (js "session") (js "execution")) none
        CoreCommandValue.shutdown.toJson).toJson ∧
    (CoreCommandValue.cancelled (js "execution") .requested).toJson ≠
      CoreCommandValue.shutdown.toJson := by
  decide +kernel

end CommandCodec

end Henji
