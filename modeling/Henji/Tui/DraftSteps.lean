import Henji.Tui.EditorLaw

/-!
# What a step does to the draft

A fresh editor that takes every input since a submission was sent says what the user entered since.
`DraftChange` is everything that one event can do to the draft, the pending submission and the calls.
-/

namespace Henji

variable {unicode : Segmentation}

/-! ## What the user entered -/

/-- Whether Enter runs the text as a slash command. -/
def slashRuns (text : List Char) : Bool :=
  trim text ≠ "/detach".toList && (trim text).head? == some '/' &&
    (knownSlashCommand (trim text)).isSome

namespace RemoteTuiEvent

/-- What an event does to the editor as an input of the user. -/
def applyTo (unicode : Segmentation) (event : RemoteTuiEvent) (editor : TuiEditor) : TuiEditor :=
  match event with
  | .edit columns event => applyEditorEvent unicode editor columns event
  | .ctrlC => if editor.value ≠ [] then editor.replaced [] else editor
  | .enter => if slashRuns editor.value then editor.replaced [] else editor
  | .tab => ((RemoteTui.completionAtCursor editor).map fun definition =>
      editor.replaced (RemoteTui.completedText editor.value definition)).getD editor
  | .pickCommand definition => editor.replaced (RemoteTui.completedText editor.value definition)
  | _ => editor

/-- A slash command that runs or is completed in the editor. -/
def rewritesCommand (event : RemoteTuiEvent) (editor : TuiEditor) : Bool :=
  match event with
  | .enter => slashRuns editor.value
  | .tab => (RemoteTui.completionAtCursor editor).isSome
  | .pickCommand _ => true
  | _ => false

end RemoteTuiEvent

/-- How a submission ends. -/
inductive Answer where
  | accepted
  | rejected
  | unconfirmed
deriving DecidableEq, Repr

def CommandState.answer (kind : SubmitKind) : CommandState → Option Answer
  | .processing => none
  | .rejected => some .rejected
  | .completed _ _ queueId executionId result =>
    some (if RemoteTui.isReceipt kind queueId executionId result then .accepted else .unconfirmed)

/-- The answer that an event brings to a submission. -/
def answerOf (submission : PendingSubmission) : RemoteTuiEvent → Option Answer
  | .operationSettled commandId (some command) =>
    if commandId = submission.commandId then command.answer submission.kind else none
  | .commandReadSettled commandId (some command) =>
    if commandId = submission.commandId then command.answer submission.kind else none
  | .commandReadSettled commandId none =>
    if commandId = submission.commandId then some .unconfirmed else none
  | _ => none

/-- The text of a submission that came back, and behind it what was entered since. -/
def mergedDraft (text entered : List Char) : List Char :=
  if entered = [] then text else text ++ '\n' :: entered

/-- What an answer leaves in the editor. -/
def Answer.draft (text entered : List Char) : Answer → List Char
  | .accepted => entered
  | .rejected | .unconfirmed => mergedDraft text entered

/-- The TUI, and a fresh editor that took every input since the last submission was sent. -/
structure Observed where
  tui : RemoteTui
  entered : TuiEditor
deriving DecidableEq

namespace Observed

def start (view : DraftView) : Observed where
  tui := .start view
  entered := .empty

def step (unicode : Segmentation) (o : Observed) (event : RemoteTuiEvent) : Option Observed :=
  (o.tui.step unicode event).map fun tui =>
    { tui
      entered :=
        if o.tui.pendingSubmission = none ∧ tui.pendingSubmission ≠ none then .empty
        else event.applyTo unicode o.entered }

end Observed

/-- The calls that send a submission. -/
def submits (calls : List CoreCall) : List CommandId :=
  calls.filterMap fun
    | .submit _ _ _ commandId _ => some commandId
    | .commandRead _ => none

/-! ## What a step can do -/

namespace RemoteTuiEvent

/-- The inputs that separate a submitted text from the draft. -/
def separates : RemoteTuiEvent → Bool
  | .edit _ event => isEditorTextMutation event
  | .ctrlC => true
  | _ => false

def isInput : RemoteTuiEvent → Bool
  | .edit _ _ | .ctrlC | .enter | .tab | .pickCommand _ => true
  | _ => false

theorem applyTo_of_not_input {event : RemoteTuiEvent} (h : event.isInput = false)
    (editor : TuiEditor) : event.applyTo unicode editor = editor := by
  cases event with
  | edit | ctrlC | enter | tab | pickCommand => exact absurd h (by simp [isInput])
  | _ => rfl

theorem answerOf_input {event : RemoteTuiEvent} (h : event.isInput = true)
    (submission : PendingSubmission) : answerOf submission event = none := by
  cases event with
  | edit | ctrlC | enter | tab | pickCommand => rfl
  | _ => exact absurd h (by simp [isInput])

/-- An input that neither edits nor runs or completes a command leaves both editors. -/
theorem applyTo_kept (unicode : Segmentation) {event : RemoteTuiEvent} {editor : TuiEditor} (hedit : event.separates = false)
    (hcommand : event.rewritesCommand editor = false) :
    event.applyTo unicode .empty = .empty ∧ (event.applyTo unicode editor).value = editor.value := by
  cases event with
  | edit columns input =>
    exact ⟨TuiEditor.applyEditorEvent_empty columns hedit,
      TuiEditor.value_applyEditorEvent editor columns hedit⟩
  | ctrlC => exact absurd hedit (by simp [separates])
  | enter =>
    have hslash : slashRuns editor.value = false := hcommand
    refine ⟨rfl, ?_⟩
    simp [applyTo, hslash]
  | tab =>
    have hnone : RemoteTui.completionAtCursor editor = none := Option.isSome_eq_false_iff.mp hcommand |>
      Option.isNone_iff_eq_none.mp
    refine ⟨rfl, ?_⟩
    simp [applyTo, hnone]
  | pickCommand => exact absurd hcommand (by simp [rewritesCommand])
  | _ => exact ⟨rfl, rfl⟩

theorem valid_applyTo {editor : TuiEditor} (h : editor.Valid) (event : RemoteTuiEvent) :
    (event.applyTo unicode editor).Valid := by
  cases event with
  | edit columns input => exact h.applyEditorEvent columns input
  | ctrlC =>
    rw [applyTo]
    split
    · exact h.replaced []
    · exact h
  | enter =>
    rw [applyTo]
    split
    · exact h.replaced []
    · exact h
  | tab =>
    rw [applyTo]
    cases RemoteTui.completionAtCursor editor with
    | none => exact h
    | some definition => exact h.replaced _
  | pickCommand definition => exact h.replaced _
  | _ => exact h

end RemoteTuiEvent

/-- What one event does to the draft. -/
inductive DraftChange (unicode : Segmentation) (s : RemoteTui) (event : RemoteTuiEvent)
    (s' : RemoteTui) : Prop where
  | quiet (hevent : event.isInput = false) (heditor : s'.editor = s.editor)
      (hrevision : s'.draftRevision = s.draftRevision)
      (hpending : s'.pendingSubmission = s.pendingSubmission ∨ ∃ submission,
        s.pendingSubmission = some submission ∧
        s'.pendingSubmission = some { submission with processing := true })
      (hanswer : ∀ submission, s.pendingSubmission = some submission →
        answerOf submission event = none)
      (hcalls : submits s'.calls = submits s.calls) (hnext : s'.nextCommandId = s.nextCommandId)
  | input (hevent : event.isInput = true)
      (hpending : s'.pendingSubmission = s.pendingSubmission.map fun submission =>
        { submission with separated := submission.separated || event.separates })
      (heditor : s'.editor = event.applyTo unicode
        (if event.separates then s.separateSubmittedDraft.editor else s.editor))
      (hrevision : event.separates = false → event.rewritesCommand s.editor = false →
        s'.draftRevision = s.draftRevision)
      (hcalls : submits s'.calls = submits s.calls) (hnext : s'.nextCommandId = s.nextCommandId)
  | sent (submission : PendingSubmission) (hold : s.pendingSubmission = none)
      (hpending : s'.pendingSubmission = some submission) (htext : submission.text = s.editor.value)
      (hid : submission.commandId = s.nextCommandId) (hseparated : submission.separated = false)
      (hrevision : submission.draftRevision = s'.draftRevision) (heditor : s'.editor = s.editor)
      (hcalls : s'.calls = s.calls ++ [.submit submission.kind submission.sessionId
        submission.executionId submission.commandId submission.text])
      (hnext : s'.nextCommandId = s.nextCommandId + 1)
  | answered (submission : PendingSubmission) (answer : Answer) (hevent : event.isInput = false)
      (hold : s.pendingSubmission = some submission)
      (hanswer : answerOf submission event = some answer) (hpending : s'.pendingSubmission = none)
      (heditor : s'.editor = (s.finishDraft submission (answer = .accepted)).editor)
      (hcalls : submits s'.calls = submits s.calls) (hnext : s'.nextCommandId = s.nextCommandId)

namespace RemoteTui

variable {s s' : RemoteTui}

theorem pendingIs_eq_some {commandId : CommandId} {submission : PendingSubmission} :
    s.pendingIs commandId = some submission ↔
      s.pendingSubmission = some submission ∧ submission.commandId = commandId := by
  simp [pendingIs, Option.filter_eq_some_iff]

theorem pendingIs_eq_none {commandId : CommandId} (h : s.pendingIs commandId = none)
    {submission : PendingSubmission} (hpending : s.pendingSubmission = some submission) :
    commandId ≠ submission.commandId := by
  intro heq
  have hsome := pendingIs_eq_some.mpr ⟨hpending, heq.symm⟩
  rw [h] at hsome
  exact absurd hsome (by simp)

/-- The other fields do not decide what becomes of the draft. -/
theorem editor_finishDraft (submission : PendingSubmission) (accepted : Bool)
    (heditor : s'.editor = s.editor) (hrevision : s'.draftRevision = s.draftRevision) :
    (s'.finishDraft submission accepted).editor = (s.finishDraft submission accepted).editor := by
  simp only [finishDraft, heditor, hrevision]
  cases accepted with
  | true =>
    rw [if_pos rfl, if_pos rfl]
    split <;> simp [replaceEditorText, heditor]
  | false =>
    rw [if_neg Bool.false_ne_true, if_neg Bool.false_ne_true]
    split <;> simp [replaceEditorText, heditor]

theorem finishDraft_kept (submission : PendingSubmission) (accepted : Bool) :
    (s.finishDraft submission accepted).pendingSubmission = s.pendingSubmission ∧
      (s.finishDraft submission accepted).calls = s.calls ∧
      (s.finishDraft submission accepted).nextCommandId = s.nextCommandId := by
  unfold finishDraft
  split
  · split <;> exact ⟨rfl, rfl, rfl⟩
  · split <;> exact ⟨rfl, rfl, rfl⟩

theorem settle_eq {promise : Waiting} (h : s.settle promise = some s') :
    s' = { s with waiting := s.waiting.erase promise } := by
  rw [settle] at h
  split at h
  · exact (Option.some.inj h).symm
  · exact absurd h (by simp)

theorem submits_read (calls : List CoreCall) (commandId : CommandId) :
    submits (calls ++ [.commandRead commandId]) = submits calls := by
  simp [submits]

/-- A command state that belongs to the pending submission. -/
theorem finalizeTaskCommand_change {event : RemoteTuiEvent} {submission : PendingSubmission}
    {command : CommandState} {waiting : List Waiting} (hevent : event.isInput = false)
    (hpending : s.pendingSubmission = some submission)
    (hanswer : answerOf submission event = command.answer submission.kind) :
    DraftChange unicode s event
      (finalizeTaskCommand command submission { s with waiting := waiting }) := by
  have hdraft : ∀ (accepted : Bool) (later : RemoteTui), later.editor = s.editor →
      later.draftRevision = s.draftRevision → later.calls = s.calls →
      later.nextCommandId = s.nextCommandId → later.pendingSubmission = none →
      (later.finishDraft submission accepted).editor = (s.finishDraft submission accepted).editor ∧
      submits (later.finishDraft submission accepted).calls = submits s.calls ∧
      (later.finishDraft submission accepted).nextCommandId = s.nextCommandId ∧
      (later.finishDraft submission accepted).pendingSubmission = none := by
    intro accepted later heditor hrevision hcalls hnext hnone
    obtain ⟨hkept, hlog, hcount⟩ := finishDraft_kept (s := later) submission accepted
    exact ⟨editor_finishDraft submission accepted heditor hrevision,
      congrArg submits (hlog.trans hcalls), hcount.trans hnext, hkept.trans hnone⟩
  cases command with
  | processing =>
    refine .quiet hevent rfl rfl (.inr ⟨submission, hpending, rfl⟩) ?_ rfl rfl
    intro other hother
    obtain rfl := Option.some.inj (hpending.symm.trans hother)
    exact hanswer
  | rejected =>
    obtain ⟨heditor, hcalls, hnext, hnone⟩ := hdraft false
      { s with waiting := waiting, pendingSubmission := none } rfl rfl rfl rfl rfl
    exact .answered submission .rejected hevent hpending hanswer hnone heditor hcalls hnext
  | completed commandId cursor queueId executionId result =>
    rw [finalizeTaskCommand]
    rw [CommandState.answer] at hanswer
    by_cases hreceipt : isReceipt submission.kind queueId executionId result = true
    · rw [if_pos hreceipt]
      rw [if_pos hreceipt] at hanswer
      obtain ⟨heditor, hcalls, hnext, hnone⟩ := hdraft true
        { s with
          waiting := waiting
          pendingSubmission := none
          acceptedSubmission := some ⟨commandId, cursor⟩ } rfl rfl rfl rfl rfl
      exact .answered submission .accepted hevent hpending hanswer hnone heditor hcalls hnext
    · rw [if_neg hreceipt]
      rw [if_neg hreceipt] at hanswer
      obtain ⟨heditor, hcalls, hnext, hnone⟩ := hdraft false
        { s with waiting := waiting, pendingSubmission := none } rfl rfl rfl rfl rfl
      exact .answered submission .unconfirmed hevent hpending hanswer hnone heditor hcalls hnext

/-- Only an event that names the pending submission answers it. -/
theorem quiet_of_other {event : RemoteTuiEvent} {commandId : CommandId} {waiting : List Waiting}
    (hevent : event.isInput = false) (hother : s.pendingIs commandId = none)
    (hanswer : ∀ submission : PendingSubmission, commandId ≠ submission.commandId →
      answerOf submission event = none) :
    DraftChange unicode s event { s with waiting := waiting } :=
  .quiet hevent rfl rfl (.inl rfl)
    (fun submission hpending => hanswer submission (pendingIs_eq_none hother hpending)) rfl rfl

theorem submitDraft_change {event : RemoteTuiEvent} (kind : SubmitKind)
    (hquiet : s.submitDraft kind = s → DraftChange unicode s event s) :
    DraftChange unicode s event (s.submitDraft kind) := by
  have hsame := hquiet
  rw [submitDraft] at hsame ⊢
  by_cases hblocked : s.submitBlocked = true
  · rw [if_pos hblocked] at hsame ⊢
    exact hsame rfl
  · rw [if_neg hblocked] at hsame ⊢
    have hnone : s.pendingSubmission = none := by
      cases h : s.pendingSubmission with
      | none => rfl
      | some submission => exact absurd (by simp [submitBlocked, h]) hblocked
    cases htext : s.editor.submit with
    | none =>
      rw [htext] at hsame
      exact hsame rfl
    | some text =>
      rw [htext] at hsame
      dsimp only at hsame ⊢
      by_cases havailable : s.available kind = false
      · rw [if_pos havailable] at hsame ⊢
        exact hsame rfl
      · rw [if_neg havailable]
        have hvalue : text = s.editor.value := by
          rw [TuiEditor.submit] at htext
          split at htext
          · exact absurd htext (by simp)
          · exact (Option.some.inj htext).symm
        exact .sent _ hnone rfl hvalue rfl rfl rfl rfl rfl rfl

theorem separateSubmittedDraft_kept (s : RemoteTui) :
    s.separateSubmittedDraft.pendingSubmission =
        (s.pendingSubmission.map fun submission => { submission with separated := true }) ∧
      s.separateSubmittedDraft.calls = s.calls ∧
      s.separateSubmittedDraft.nextCommandId = s.nextCommandId := by
  unfold separateSubmittedDraft
  cases hpending : s.pendingSubmission with
  | none => exact ⟨hpending, rfl, rfl⟩
  | some submission =>
    dsimp only
    by_cases hseparated : submission.separated = true
    · rw [if_pos hseparated]
      refine ⟨?_, rfl, rfl⟩
      rw [hpending, Option.map_some, ← hseparated]
    · rw [if_neg hseparated]
      split <;> exact ⟨rfl, rfl, rfl⟩

theorem valid_separateSubmittedDraft (h : s.editor.Valid) : s.separateSubmittedDraft.editor.Valid := by
  unfold separateSubmittedDraft
  split
  · exact h
  · split
    · exact h
    · dsimp only
      split
      · exact h.replaced []
      · exact h

/-- An input that does not separate leaves the pending submission. -/
theorem pending_of_not_separates {event : RemoteTuiEvent} (h : event.separates = false)
    (pending : Option PendingSubmission) : pending = pending.map fun submission =>
      { submission with separated := submission.separated || event.separates } := by
  cases pending with
  | none => rfl
  | some submission => simp [h]

theorem pending_of_separates {event : RemoteTuiEvent} (h : event.separates = true)
    (pending : Option PendingSubmission) :
    (pending.map fun submission => { submission with separated := true }) =
      pending.map fun submission =>
        { submission with separated := submission.separated || event.separates } := by
  simp [h]

theorem editDraft_change (columns : Nat) (event : DraftInput) :
    DraftChange unicode s (.edit columns event) (s.editDraft unicode columns event) := by
  obtain ⟨hpending, hcalls, hnext⟩ := separateSubmittedDraft_kept s
  rw [editDraft]
  by_cases hmutation : isEditorTextMutation event = true
  · have hseparates : RemoteTuiEvent.separates (.edit columns event) = true := hmutation
    rw [if_pos hmutation]
    refine .input rfl (hpending.trans (pending_of_separates hseparates _)) ?_ ?_
      (congrArg submits hcalls) hnext
    · rw [if_pos hseparates]
      rfl
    · exact fun hnot => absurd (hseparates.symm.trans hnot) (by simp)
  · have hseparates : RemoteTuiEvent.separates (.edit columns event) = false :=
      Bool.eq_false_iff.mpr hmutation
    rw [if_neg hmutation]
    have hvalue : (applyEditorEvent unicode s.editor columns event).value = s.editor.value :=
      TuiEditor.value_applyEditorEvent s.editor columns hseparates
    refine .input rfl (pending_of_not_separates hseparates _) ?_ (fun _ _ => ?_) rfl rfl
    · rw [hseparates]
      rfl
    · exact if_neg (not_not_intro hvalue)

theorem slashRuns_detach {text : List Char} (h : trim text = "/detach".toList) :
    slashRuns text = false := by
  rw [slashRuns, decide_eq_false (not_not_intro h), Bool.false_and, Bool.false_and]

theorem slashRuns_other {text : List Char} (h : trim text ≠ "/detach".toList) :
    slashRuns text = true ↔
      (trim text).head? = some '/' ∧ (knownSlashCommand (trim text)).isSome = true := by
  rw [slashRuns, decide_eq_true h, Bool.true_and, Bool.and_eq_true, beq_iff_eq]

theorem enter_change : DraftChange unicode s .enter s.enter := by
  have hquiet : slashRuns s.editor.value = false → DraftChange unicode s .enter s := by
    intro hslash
    refine .input rfl (pending_of_not_separates rfl _) ?_ (fun _ _ => rfl) rfl rfl
    show s.editor = if slashRuns s.editor.value then _ else _
    rw [hslash]
    rfl
  rw [enter]
  by_cases hdetach : trim s.editor.value = "/detach".toList
  · have hslash := slashRuns_detach hdetach
    rw [if_pos hdetach]
    refine .input rfl (pending_of_not_separates rfl _) ?_ (fun _ _ => rfl) rfl rfl
    show s.editor = if slashRuns s.editor.value then _ else _
    rw [hslash]
    rfl
  · rw [if_neg hdetach]
    by_cases hhead : (trim s.editor.value).head? = some '/'
    · rw [if_pos hhead]
      cases hname : knownSlashCommand (trim s.editor.value) with
      | none =>
        refine hquiet (Bool.eq_false_iff.mpr fun hslash => ?_)
        rw [slashRuns_other hdetach, hname] at hslash
        exact absurd hslash.2 Bool.false_ne_true
      | some name =>
        have hslash : slashRuns s.editor.value = true :=
          (slashRuns_other hdetach).mpr ⟨hhead, by rw [hname]; rfl⟩
        refine .input rfl (pending_of_not_separates rfl _) ?_ (fun _ hcommand => ?_) rfl rfl
        · show s.editor.replaced [] = if slashRuns s.editor.value then _ else _
          rw [hslash]
          rfl
        · exact absurd (hslash.symm.trans hcommand) (by simp)
    · have hslash : slashRuns s.editor.value = false :=
        Bool.eq_false_iff.mpr fun hslash => hhead ((slashRuns_other hdetach).mp hslash).1
      rw [if_neg hhead]
      split
      · exact submitDraft_change .task fun _ => hquiet hslash
      · exact hquiet hslash

/-- A command that is completed in the editor. -/
theorem completeSlashCommand_change {event : RemoteTuiEvent} {definition : SlashCommandDefinition}
    (hevent : event.isInput = true) (hseparates : event.separates = false)
    (heditor : event.applyTo unicode s.editor =
      s.editor.replaced (completedText s.editor.value definition))
    (hcommand : event.rewritesCommand s.editor = true) :
    DraftChange unicode s event (s.completeSlashCommand definition) := by
  refine .input hevent (pending_of_not_separates hseparates _) ?_ (fun _ hnot => ?_) rfl rfl
  · rw [if_neg (by simp [hseparates]), heditor]
    rfl
  · exact absurd (hcommand.symm.trans hnot) (by simp)

theorem operationSettled_change {waiting : List Waiting} (commandId : CommandId)
    (command : Option CommandState) :
    DraftChange unicode s (.operationSettled commandId command)
      (RemoteTui.operationSettled { s with waiting := waiting } commandId command) := by
  have hanswer : ∀ submission : PendingSubmission, commandId ≠ submission.commandId →
      answerOf submission (.operationSettled commandId command) = none := by
    intro submission hne
    cases command with
    | none => rfl
    | some command => exact if_neg hne
  have hsame : ({ s with waiting := waiting } : RemoteTui).pendingIs commandId =
      s.pendingIs commandId := rfl
  unfold operationSettled
  cases hpending : s.pendingIs commandId with
  | none =>
    cases command <;> simp only [hsame, hpending] <;> exact quiet_of_other rfl hpending hanswer
  | some submission =>
    obtain ⟨hold, rfl⟩ := pendingIs_eq_some.mp hpending
    cases command with
    | none =>
      simp only [hsame, hpending]
      exact .quiet rfl rfl rfl (.inr ⟨submission, hold, rfl⟩) (fun _ _ => rfl) (submits_read _ _) rfl
    | some command =>
      simp only [hsame, hpending]
      exact finalizeTaskCommand_change rfl hold (if_pos rfl)

theorem commandReadSettled_change {waiting : List Waiting} (commandId : CommandId)
    (command : Option CommandState) :
    DraftChange unicode s (.commandReadSettled commandId command)
      (RemoteTui.commandReadSettled { s with waiting := waiting } commandId command) := by
  have hanswer : ∀ submission : PendingSubmission, commandId ≠ submission.commandId →
      answerOf submission (.commandReadSettled commandId command) = none := by
    intro submission hne
    cases command <;> exact if_neg hne
  have hsame : ({ s with waiting := waiting } : RemoteTui).pendingIs commandId =
      s.pendingIs commandId := rfl
  unfold commandReadSettled
  cases hpending : s.pendingIs commandId with
  | none =>
    cases command <;> simp only [hsame, hpending] <;> exact quiet_of_other rfl hpending hanswer
  | some submission =>
    obtain ⟨hold, rfl⟩ := pendingIs_eq_some.mp hpending
    cases command with
    | none =>
      simp only [hsame, hpending]
      obtain ⟨hkept, hcalls, hnext⟩ := finishDraft_kept
        (s := { s with waiting := waiting, pendingSubmission := none }) submission false
      exact .answered submission .unconfirmed rfl hold (if_pos rfl) hkept
        (editor_finishDraft submission false rfl rfl) (congrArg submits hcalls) hnext
    | some command =>
      simp only [hsame, hpending]
      exact finalizeTaskCommand_change rfl hold (if_pos rfl)

/-- Everything that a step can do to the draft. -/
theorem step_change {event : RemoteTuiEvent} (h : s.step unicode event = some s') :
    DraftChange unicode s event s' := by
  rw [step.eq_def] at h
  by_cases hexit : s.exitRequested = true
  · rw [if_pos hexit] at h
    exact absurd h (by simp)
  rw [if_neg hexit] at h
  cases event with
  | edit columns event =>
    obtain rfl := Option.some.inj h
    exact editDraft_change columns event
  | ctrlC =>
    obtain rfl := Option.some.inj h
    obtain ⟨hpending, hcalls, hnext⟩ := separateSubmittedDraft_kept s
    refine .input rfl ?_ ?_ (fun hnot => absurd hnot (by simp [RemoteTuiEvent.separates])) ?_ ?_
    · split <;> exact hpending.trans (pending_of_separates rfl _)
    · show _ = if s.separateSubmittedDraft.editor.value ≠ [] then _ else _
      split <;> rfl
    · split <;> exact congrArg submits hcalls
    · split <;> exact hnext
  | enter =>
    obtain rfl := Option.some.inj h
    exact enter_change
  | tab =>
    obtain rfl := Option.some.inj h
    cases hdefinition : completionAtCursor s.editor with
    | none =>
      refine .input rfl (pending_of_not_separates rfl _) ?_ (fun _ _ => rfl) rfl rfl
      show s.editor = ((completionAtCursor s.editor).map _).getD s.editor
      rw [hdefinition]
      rfl
    | some definition =>
      refine completeSlashCommand_change rfl rfl ?_ ?_
      · simp [RemoteTuiEvent.applyTo, hdefinition]
      · simp [RemoteTuiEvent.rewritesCommand, hdefinition]
  | pickCommand definition =>
    dsimp only at h
    split at h
    · obtain rfl := Option.some.inj h
      exact completeSlashCommand_change rfl rfl rfl rfl
    · exact absurd h (by simp)
  | f2 =>
    obtain rfl := Option.some.inj h
    exact submitDraft_change .followUp fun _ =>
      .quiet rfl rfl rfl (.inl rfl) (fun _ _ => rfl) rfl rfl
  | f3 =>
    obtain rfl := Option.some.inj h
    exact submitDraft_change .steering fun _ =>
      .quiet rfl rfl rfl (.inl rfl) (fun _ _ => rfl) rfl rfl
  | operationSettled commandId command =>
    obtain ⟨settled, hsettle, rfl⟩ := Option.map_eq_some_iff.mp h
    rw [settle_eq hsettle]
    exact operationSettled_change commandId command
  | commandPoll commandId =>
    obtain ⟨settled, hsettle, rfl⟩ := Option.map_eq_some_iff.mp h
    rw [settle_eq hsettle]
    exact .quiet rfl rfl rfl (.inl rfl) (fun _ _ => rfl) (submits_read _ _) rfl
  | commandReadSettled commandId command =>
    obtain ⟨settled, hsettle, rfl⟩ := Option.map_eq_some_iff.mp h
    rw [settle_eq hsettle]
    exact commandReadSettled_change commandId command
  | sessionReadSettled sessionId commandId saved =>
    obtain ⟨settled, hsettle, rfl⟩ := Option.map_eq_some_iff.mp h
    rw [settle_eq hsettle]
    cases saved with
    | none => exact .quiet rfl rfl rfl (.inl rfl) (fun _ _ => rfl) rfl rfl
    | some saved =>
      rw [sessionReadSettled]
      split <;> exact .quiet rfl rfl rfl (.inl rfl) (fun _ _ => rfl) rfl rfl
  | switchDisplayedSession view =>
    dsimp only at h
    split at h
    · exact absurd h (by simp)
    · obtain rfl := Option.some.inj h
      exact .quiet rfl rfl rfl (.inl rfl) (fun _ _ => rfl) rfl rfl
  | frame | resync | streamError | localOperations | exit =>
    obtain rfl := Option.some.inj h
    exact .quiet rfl rfl rfl (.inl rfl) (fun _ _ => rfl) rfl rfl

end RemoteTui

end Henji
