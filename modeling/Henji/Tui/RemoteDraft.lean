import Henji.Json
import Henji.Api.Reducer
import Henji.Tui.InputEditor

/-!
# The draft of the remote TUI

What the user types, and the submission that waits for an answer of the Core. The editor keeps the
submitted text until the first edit behind it separates the two; a rejected or unconfirmed submission
is merged back. An input here is one that reaches the draft: what a picker, a panel, browsing or a
pending shutdown takes is not among the events.
-/

namespace Henji

variable (unicode : Segmentation)

/-! ## Slash commands -/

structure SlashCommandDefinition where
  text : List Char
  command : String
  usage : List Char
deriving DecidableEq, Repr

def SLASH_COMMANDS : List SlashCommandDefinition :=
  [⟨"/help".toList, "help", "/help".toList⟩,
    ⟨"/login".toList, "login", "/login".toList⟩,
    ⟨"/new".toList, "new", "/new".toList⟩,
    ⟨"/sessions".toList, "sessions", "/sessions".toList⟩,
    ⟨"/view".toList, "view", "/view [ID]".toList⟩,
    ⟨"/resume".toList, "resume", "/resume [ID|latest]".toList⟩,
    ⟨"/context".toList, "context", "/context".toList⟩,
    ⟨"/rename".toList, "rename", "/rename TEXT".toList⟩,
    ⟨"/provider".toList, "provider", "/provider".toList⟩,
    ⟨"/model".toList, "model", "/model".toList⟩,
    ⟨"/effort".toList, "effort", "/effort".toList⟩,
    ⟨"/recall".toList, "recall", "/recall [ID|latest|clear]".toList⟩,
    ⟨"/detach".toList, "detach", "/detach".toList⟩,
    ⟨"/quit".toList, "quit", "/quit".toList⟩]

/-- What `trim` removes and `\s` matches. -/
def isSpace (character : Char) : Bool := isTrimmed character.toNat

def trim (text : List Char) : List Char :=
  ((text.dropWhile isSpace).reverse.dropWhile isSpace).reverse

/-- The match of `/^\/[^\s]*/u`. -/
def slashToken : List Char → Option (List Char)
  | '/' :: text => some ('/' :: text.takeWhile fun character => !isSpace character)
  | _ => none

def slashPickerCandidates (text : List Char) (cursorScalar : Nat) :
    Option (List SlashCommandDefinition) := do
  let token ← slashToken text
  if token.length < cursorScalar then none
  else return SLASH_COMMANDS.filter fun definition => token.isPrefixOf definition.text

def slashCommandCandidates (text : List Char) : List SlashCommandDefinition :=
  if text.head? ≠ some '/' ∨ text.length < 2 then []
  else SLASH_COMMANDS.filter fun definition => text.isPrefixOf definition.text

/-- The command that `runSlashCommand` runs, when the name behind the slash is one. -/
def knownSlashCommand (input : List Char) : Option String :=
  (slashToken (trim input)).bind fun token =>
    (SLASH_COMMANDS.find? fun definition => definition.command.toList = token.tail).map
      SlashCommandDefinition.command

/-- `setSnapshot` with the cursor behind the text, whose answer is not looked at. -/
def TuiEditor.replaced (editor : TuiEditor) (text : List Char) : TuiEditor :=
  (editor.setSnapshot text text.length).getD editor

/-! ## Submissions -/

inductive SubmitKind where
  | task
  | steering
  | followUp
deriving DecidableEq, Repr

/-- `crypto.randomUUID()` gives names that were not given before: they are counted here. -/
abbrev CommandId : Type := Nat

structure PendingSubmission where
  kind : SubmitKind
  sessionId : SessionId
  executionId : Option String
  commandId : CommandId
  text : List Char
  draftRevision : Nat
  separated : Bool
  processing : Bool
deriving DecidableEq, Repr

structure AcceptedSubmission where
  commandId : CommandId
  cursor : Option CoreCursor
deriving DecidableEq, Repr

/-- What the functions below read of the snapshot. -/
structure DraftView where
  cursor : CoreCursor
  sessionId : SessionId
  targetsActiveSession : Bool
  operations : List String
  /-- `activeExecution()?.executionId` -/
  activeExecution : Option String
  /-- `runtime.execution?.submittedByCommandId` -/
  submittedByCommandId : Option CommandId
  /-- The commands of the reservation, the pending steering and the follow-ups. -/
  pendingCommands : List CommandId
deriving DecidableEq, Repr

inductive CommandState where
  | processing
  | rejected
  | completed (commandId : CommandId) (cursor : Option CoreCursor) (queueId executionId result : Bool)
deriving DecidableEq, Repr

/-- A promise or a timer that has not settled. -/
inductive Waiting where
  | operation (submission : CommandId)
  | commandPoll (submission : CommandId)
  | commandRead (submission : CommandId)
  | sessionRead (sessionId : SessionId) (submission : CommandId)
deriving DecidableEq, Repr

/-- A call of the Core about a submission. -/
inductive CoreCall where
  | submit (kind : SubmitKind) (sessionId : SessionId) (executionId : Option String)
    (commandId : CommandId) (text : List Char)
  | commandRead (commandId : CommandId)
deriving DecidableEq, Repr

structure RemoteTui where
  editor : TuiEditor
  draftRevision : Nat
  pendingSubmission : Option PendingSubmission
  acceptedSubmission : Option AcceptedSubmission
  unconfirmedSubmissions : InsMap SessionId AcceptedSubmission
  pendingCancellation : Bool
  navigationPending : Bool
  commandMutationPending : Bool
  connected : Bool
  exitRequested : Bool
  view : DraftView
  nextCommandId : CommandId
  waiting : List Waiting
  calls : List CoreCall
deriving DecidableEq

namespace RemoteTui

def start (view : DraftView) : RemoteTui where
  editor := .empty
  draftRevision := 0
  pendingSubmission := none
  acceptedSubmission := none
  unconfirmedSubmissions := .empty
  pendingCancellation := false
  navigationPending := false
  commandMutationPending := false
  connected := true
  exitRequested := false
  view := view
  nextCommandId := 0
  waiting := []
  calls := []

def replaceEditorText (s : RemoteTui) (text : List Char) : RemoteTui :=
  { s with
    editor := s.editor.replaced text
    draftRevision := s.draftRevision + 1 }

def separateSubmittedDraft (s : RemoteTui) : RemoteTui :=
  match s.pendingSubmission with
  | none => s
  | some submission =>
    if submission.separated then s
    else
      let s := { s with pendingSubmission := some { submission with separated := true } }
      if s.editor.value = submission.text then s.replaceEditorText [] else s

def finishDraft (s : RemoteTui) (submission : PendingSubmission) (accepted : Bool) : RemoteTui :=
  if accepted then
    if submission.separated = false ∧ s.editor.value = submission.text ∧
        s.draftRevision = submission.draftRevision then s.replaceEditorText []
    else s
  else if submission.separated = false then s
  else
    let current := s.editor.value
    s.replaceEditorText
      (if current = [] then submission.text else submission.text ++ '\n' :: current)

def receiptIsObserved (view : DraftView) (receipt : AcceptedSubmission) : Bool :=
  (match receipt.cursor with
    | some cursor => cursor.coreEpoch == view.cursor.coreEpoch &&
      cursor.sessionId == view.cursor.sessionId && decide (cursor.revision ≤ view.cursor.revision)
    | none => false) ||
  view.submittedByCommandId == some receipt.commandId ||
  view.pendingCommands.contains receipt.commandId

def syncCoreObservations (s : RemoteTui) : RemoteTui :=
  let sessionId := s.view.sessionId
  { s with
    acceptedSubmission := s.acceptedSubmission.filter fun receipt => !receiptIsObserved s.view receipt
    unconfirmedSubmissions :=
      match s.unconfirmedSubmissions.get? sessionId with
      | none => s.unconfirmedSubmissions
      | some unconfirmed =>
        if s.view.submittedByCommandId = some unconfirmed.commandId ∨
            (unconfirmed.cursor ≠ none ∧ receiptIsObserved s.view unconfirmed = true) then
          s.unconfirmedSubmissions.erase sessionId
        else s.unconfirmedSubmissions }

def markUnconfirmedSubmission (s : RemoteTui) (submission : PendingSubmission) : RemoteTui :=
  { s with
    unconfirmedSubmissions := s.unconfirmedSubmissions.set submission.sessionId
      ⟨submission.commandId, none⟩
    waiting := s.waiting ++ [.sessionRead submission.sessionId submission.commandId] }

/-- The value that the kind of a submission answers with. -/
def isReceipt (kind : SubmitKind) (queueId executionId result : Bool) : Bool :=
  match kind with
  | .followUp => queueId
  | _ => executionId && !result

def finalizeTaskCommand (command : CommandState) (submission : PendingSubmission) (s : RemoteTui) :
    RemoteTui :=
  match command with
  | .processing =>
    { s with
      pendingSubmission := some { submission with processing := true }
      waiting := s.waiting ++ [.commandPoll submission.commandId] }
  | .rejected => ({ s with pendingSubmission := none } : RemoteTui).finishDraft submission false
  | .completed commandId cursor queueId executionId result =>
    if isReceipt submission.kind queueId executionId result then
      let s := { s with
        pendingSubmission := none
        acceptedSubmission := some ⟨commandId, cursor⟩ }
      (s.finishDraft submission true).syncCoreObservations
    else
      let s : RemoteTui := { s with pendingSubmission := none }
      (s.finishDraft submission false).markUnconfirmedSubmission submission

/-- The call of `commandRead` in `readTaskCommand`. -/
def readTaskCommand (submission : CommandId) (s : RemoteTui) : RemoteTui :=
  { s with
    waiting := s.waiting ++ [.commandRead submission]
    calls := s.calls ++ [.commandRead submission] }

def canSubmit (s : RemoteTui) : Bool :=
  s.connected && s.view.targetsActiveSession && !s.unconfirmedSubmissions.has s.view.sessionId &&
    s.view.operations.contains "task.submit"

/-- Whether the operation of a kind is available. -/
def available (s : RemoteTui) : SubmitKind → Bool
  | .task => s.canSubmit
  | .steering => s.connected && s.view.activeExecution.isSome &&
    s.view.operations.contains "execution.steer"
  | .followUp => s.connected && s.view.activeExecution.isSome &&
    s.view.operations.contains "followUp.queue"

/-- What keeps the draft where it is. -/
def submitBlocked (s : RemoteTui) : Bool :=
  s.navigationPending || s.commandMutationPending || s.pendingSubmission.isSome ||
    s.acceptedSubmission.isSome || s.unconfirmedSubmissions.has s.view.sessionId

def submitDraft (kind : SubmitKind) (s : RemoteTui) : RemoteTui :=
  if s.submitBlocked then s
  else
    match s.editor.submit with
    | none => s
    | some text =>
      if s.available kind = false then s
      else
        let submission : PendingSubmission := {
          kind := kind
          sessionId := s.view.sessionId
          executionId := s.view.activeExecution
          commandId := s.nextCommandId
          text := text
          draftRevision := s.draftRevision
          separated := false
          processing := false }
        { s with
          pendingSubmission := some submission
          nextCommandId := s.nextCommandId + 1
          waiting := s.waiting ++ [.operation submission.commandId]
          calls := s.calls ++ [.submit kind submission.sessionId submission.executionId
            submission.commandId submission.text] }

def hasPendingLocalCommand (s : RemoteTui) : Bool :=
  s.pendingSubmission.isSome || s.acceptedSubmission.isSome || s.pendingCancellation ||
    s.commandMutationPending

/-! ## Input -/

end RemoteTui

/-- The inputs that `editDraft` takes. -/
inductive DraftInput where
  | printable (text : List Char)
  | paste (text : List Char)
  | newline
  | altEnter
  | backspace
  | left
  | right
  | up
  | down
  | home
  | finish
deriving DecidableEq, Repr

def isEditorTextMutation : DraftInput → Bool
  | .printable _ | .paste _ | .backspace | .newline | .altEnter => true
  | _ => false

/-- The editor behind an input. -/
def applyEditorEvent (editor : TuiEditor) (columns : Nat) : DraftInput → TuiEditor
  | .printable text => (editor.insert text).getD editor
  | .paste text => (editor.paste text).getD editor
  | .newline | .altEnter => (editor.insert ['\n']).getD editor
  | .backspace => editor.backspace.getD editor
  | .home => editor.home
  | .finish => editor.finish
  | .left => editor.moveLeft.getD editor
  | .right => editor.moveRight.getD editor
  | .up => (editor.moveVertical unicode columns .up).getD editor
  | .down => (editor.moveVertical unicode columns .down).getD editor

namespace RemoteTui

/-- A text that changed has answered `true`. -/
def editDraft (s : RemoteTui) (columns : Nat) (event : DraftInput) : RemoteTui :=
  let s := if isEditorTextMutation event then s.separateSubmittedDraft else s
  let before := s.editor.value
  let editor := applyEditorEvent unicode s.editor columns event
  { s with
    editor := editor
    draftRevision := if editor.value ≠ before then s.draftRevision + 1 else s.draftRevision }

/-- The text of a completed command. -/
def completedText (text : List Char) (definition : SlashCommandDefinition) : List Char :=
  let argumentsText := text.drop ((slashToken text).getD []).length
  definition.text ++
    (if argumentsText ≠ [] then argumentsText
    else if definition.usage = definition.text then [] else [' '])

def completeSlashCommand (s : RemoteTui) (definition : SlashCommandDefinition) : RemoteTui :=
  s.replaceEditorText (completedText s.editor.value definition)

/-- What Tab completes. -/
def completionAtCursor (editor : TuiEditor) : Option SlashCommandDefinition :=
  if editor.value.head? ≠ some '/' ∨ editor.cursor ≠ editor.value.length then none
  else
    match slashCommandCandidates editor.value with
    | [definition] => some definition
    | _ => none

/-- Enter in the editor. -/
def enter (s : RemoteTui) : RemoteTui :=
  let command := trim s.editor.value
  if command = "/detach".toList then { s with exitRequested := true }
  else if command.head? = some '/' then
    match knownSlashCommand command with
    | none => s
    | some name =>
      let s := s.replaceEditorText []
      { s with exitRequested := decide (name = "detach") }
  else if s.view.activeExecution = none then s.submitDraft .task
  else s

end RemoteTui

inductive RemoteTuiEvent where
  | edit (columns : Nat) (event : DraftInput)
  | ctrlC
  | enter
  | tab
  /-- Enter or Tab in the picker of slash commands. -/
  | pickCommand (definition : SlashCommandDefinition)
  | f2
  | f3
  /-- The promise of a call settles: `none` where it is rejected. -/
  | operationSettled (submission : CommandId) (command : Option CommandState)
  | commandPoll (submission : CommandId)
  | commandReadSettled (submission : CommandId) (command : Option CommandState)
  | sessionReadSettled (sessionId : SessionId) (submission : CommandId) (saved : Option CoreCursor)
  | frame (view : DraftView)
  | resync (view : DraftView)
  | streamError
  | switchDisplayedSession (view : DraftView)
  /-- The operations that are not submissions start and end. -/
  | localOperations (navigation mutation cancellation : Bool)
  | exit
deriving DecidableEq, Repr

namespace RemoteTui

/-- The pending submission, when it is the one that a promise belongs to. -/
def pendingIs (s : RemoteTui) (submission : CommandId) : Option PendingSubmission :=
  s.pendingSubmission.filter fun pending => pending.commandId == submission

/-- A promise settles once. -/
def settle (s : RemoteTui) (promise : Waiting) : Option RemoteTui :=
  if promise ∈ s.waiting then some { s with waiting := s.waiting.erase promise } else none

def operationSettled (s : RemoteTui) (submission : CommandId) :
    Option CommandState → RemoteTui
  | some command =>
    match s.pendingIs submission with
    | none => s
    | some pending => s.finalizeTaskCommand command pending
  | none =>
    match s.pendingIs submission with
    | none => s
    | some pending =>
      let s := { s with pendingSubmission := some { pending with processing := true } }
      s.readTaskCommand submission

def commandReadSettled (s : RemoteTui) (submission : CommandId) :
    Option CommandState → RemoteTui
  | some command =>
    match s.pendingIs submission with
    | none => s
    | some pending => s.finalizeTaskCommand command pending
  | none =>
    match s.pendingIs submission with
    | none => s
    | some pending =>
      let s : RemoteTui := { s with pendingSubmission := none }
      (s.finishDraft pending false).markUnconfirmedSubmission pending

def sessionReadSettled (s : RemoteTui) (sessionId : SessionId) (submission : CommandId) :
    Option CoreCursor → RemoteTui
  | none => s
  | some saved =>
    if s.unconfirmedSubmissions.get? sessionId = some ⟨submission, none⟩ ∧
        saved.sessionId = sessionId then
      let s := { s with
        unconfirmedSubmissions := s.unconfirmedSubmissions.set sessionId ⟨submission, some saved⟩ }
      s.syncCoreObservations
    else s

/-- One event of the loop of `runRemoteTui`, or of a promise; `none` where it cannot happen. -/
def step (s : RemoteTui) (event : RemoteTuiEvent) : Option RemoteTui :=
  if s.exitRequested then none
  else
    match event with
    | .edit columns event => some (s.editDraft unicode columns event)
    | .ctrlC =>
      let s := s.separateSubmittedDraft
      some (if s.editor.value ≠ [] then s.replaceEditorText [] else s)
    | .enter => some s.enter
    | .tab => some (((completionAtCursor s.editor).map s.completeSlashCommand).getD s)
    | .pickCommand definition =>
      if ((slashPickerCandidates s.editor.value s.editor.cursor).getD []).contains definition then
        some (s.completeSlashCommand definition)
      else none
    | .f2 => some (s.submitDraft .followUp)
    | .f3 => some (s.submitDraft .steering)
    | .operationSettled submission command =>
      (s.settle (.operation submission)).map fun s => s.operationSettled submission command
    | .commandPoll submission =>
      (s.settle (.commandPoll submission)).map (readTaskCommand submission)
    | .commandReadSettled submission command =>
      (s.settle (.commandRead submission)).map fun s => s.commandReadSettled submission command
    | .sessionReadSettled sessionId submission saved =>
      (s.settle (.sessionRead sessionId submission)).map fun s =>
        s.sessionReadSettled sessionId submission saved
    | .frame view => some ({ s with view := view } : RemoteTui).syncCoreObservations
    | .resync view =>
      some ({ s with view := view, connected := true } : RemoteTui).syncCoreObservations
    | .streamError => some { s with connected := false }
    | .switchDisplayedSession view =>
      if s.hasPendingLocalCommand then none
      else
        some ({ s with
          view := view
          unconfirmedSubmissions := s.unconfirmedSubmissions.erase view.sessionId
          connected := true
          navigationPending := false } : RemoteTui).syncCoreObservations
    | .localOperations navigation mutation cancellation =>
      some { s with
        navigationPending := navigation
        commandMutationPending := mutation
        pendingCancellation := cancellation }
    | .exit => some { s with exitRequested := true }

end RemoteTui

end Henji
