import Henji.Library.Runs
import Henji.Tui.DraftSteps

/-!
# No draft is lost

While a submission waits, the editor holds what the user entered since, or still the submitted text; an
answer leaves what it must. This fails where the merged text is too long for the editor, which refuses
it, and where a slash command replaces a submitted text that was not edited yet.
-/

namespace Henji

variable {unicode : Segmentation}

/-! ## What a draft needs -/

/-- A step that keeps the draft. -/
structure DraftKept (unicode : Segmentation) (o : Observed) (event : RemoteTuiEvent) (o' : Observed) :
    Prop where
  /-- Nothing waits: the editor takes what the user enters. -/
  idle : o.tui.pendingSubmission = none → o'.tui.pendingSubmission = none →
    o'.tui.editor = event.applyTo unicode o.tui.editor ∧ submits o'.tui.calls = submits o.tui.calls
  /-- A submission takes the text of the editor, under a command id of its own. -/
  sent : o.tui.pendingSubmission = none → ∀ submission, o'.tui.pendingSubmission = some submission →
    submission.text = o.tui.editor.value ∧ o'.tui.editor = o.tui.editor ∧
      o'.tui.calls = o.tui.calls ++ [.submit submission.kind submission.sessionId
        submission.executionId submission.commandId submission.text] ∧
      submission.commandId ∉ submits o.tui.calls
  /-- It waits with its text, and the editor has what was entered since, or still that text. -/
  waits : ∀ submission, o.tui.pendingSubmission = some submission → answerOf submission event = none →
    ∃ later, o'.tui.pendingSubmission = some later ∧ later.text = submission.text ∧
      later.commandId = submission.commandId ∧ submits o'.tui.calls = submits o.tui.calls ∧
      (o'.tui.editor = o'.entered ∨ o'.entered.value = [] ∧ o'.tui.editor.value = submission.text)
  /-- It ends, and the editor has what was entered since, behind the text where it was not accepted. -/
  ended : ∀ submission answer, o.tui.pendingSubmission = some submission →
    answerOf submission event = some answer →
    o'.tui.pendingSubmission = none ∧ submits o'.tui.calls = submits o.tui.calls ∧
      o'.tui.editor.value = answer.draft submission.text o'.entered.value

/-- Before a step: an edited draft fits in the editor behind a text that comes back, and no slash
command replaces a submitted text that was not edited yet. -/
def RemoteTui.keepsDraft (s : RemoteTui) (event : RemoteTuiEvent) : Bool :=
  match s.pendingSubmission with
  | none => true
  | some submission =>
    if submission.separated then
      match answerOf submission event with
      | some .rejected | some .unconfirmed =>
        decide (byteLength (mergedDraft submission.text s.editor.value) ≤ MAX_EDITOR_BYTES)
      | _ => true
    else !event.rewritesCommand s.editor

/-- What holds of a state and the observed editor. -/
structure DraftHeld (o : Observed) : Prop where
  valid : o.tui.editor.Valid
  text : ∀ submission, o.tui.pendingSubmission = some submission →
    TuiEditor.acceptable submission.text = true
  separated : ∀ submission, o.tui.pendingSubmission = some submission →
    submission.separated = true → o.tui.editor = o.entered
  together : ∀ submission, o.tui.pendingSubmission = some submission →
    submission.separated = false → o.entered = .empty ∧ o.tui.editor.value = submission.text ∧
      o.tui.draftRevision = submission.draftRevision
  counted : ∀ commandId ∈ submits o.tui.calls, commandId < o.tui.nextCommandId
  once : (submits o.tui.calls).Nodup

/-! ## What every step keeps -/

theorem mergedDraft_nil (text : List Char) : mergedDraft text [] = text := if_pos rfl

theorem acceptable_mergedDraft {text entered : List Char} (htext : TuiEditor.acceptable text = true)
    (hentered : TuiEditor.acceptable entered = true)
    (hlength : byteLength (mergedDraft text entered) ≤ MAX_EDITOR_BYTES) :
    TuiEditor.acceptable (mergedDraft text entered) = true := by
  refine TuiEditor.acceptable_iff.mpr ⟨?_, hlength⟩
  obtain ⟨hfirst, -⟩ := TuiEditor.acceptable_iff.mp htext
  obtain ⟨hsecond, -⟩ := TuiEditor.acceptable_iff.mp hentered
  rw [mergedDraft]
  split
  · exact hfirst
  · rw [List.mem_append, List.mem_cons, not_or, not_or]
    exact ⟨hfirst, by decide, hsecond⟩

section Steps

variable {s s' : RemoteTui} {entered : TuiEditor} {event : RemoteTuiEvent}

theorem DraftHeld.quiet (h : DraftHeld ⟨s, entered⟩) (hevent : event.isInput = false)
    (heditor : s'.editor = s.editor) (hrevision : s'.draftRevision = s.draftRevision)
    (hpending : s'.pendingSubmission = s.pendingSubmission ∨ ∃ submission,
      s.pendingSubmission = some submission ∧
      s'.pendingSubmission = some { submission with processing := true })
    (hanswer : ∀ submission, s.pendingSubmission = some submission → answerOf submission event = none)
    (hcalls : submits s'.calls = submits s.calls) (hnext : s'.nextCommandId = s.nextCommandId) :
    DraftHeld ⟨s', entered⟩ ∧ DraftKept unicode ⟨s, entered⟩ event ⟨s', entered⟩ := by
  -- The submission is the one before, in all that is asked of it.
  have hsubmission : ∀ later, s'.pendingSubmission = some later → ∃ submission,
      s.pendingSubmission = some submission ∧ later.text = submission.text ∧
      later.commandId = submission.commandId ∧ later.separated = submission.separated ∧
      later.draftRevision = submission.draftRevision := by
    intro later hlater
    rcases hpending with hsame | ⟨submission, hold, hnew⟩
    · exact ⟨later, hsame.symm.trans hlater, rfl, rfl, rfl, rfl⟩
    · obtain rfl := Option.some.inj (hnew.symm.trans hlater)
      exact ⟨submission, hold, rfl, rfl, rfl, rfl⟩
  have hkept : ∀ submission, s.pendingSubmission = some submission →
      ∃ later, s'.pendingSubmission = some later ∧ later.text = submission.text ∧
        later.commandId = submission.commandId := by
    intro submission hold
    rcases hpending with hsame | ⟨other, hother, hnew⟩
    · exact ⟨submission, hsame.trans hold, rfl, rfl⟩
    · obtain rfl := Option.some.inj (hother.symm.trans hold)
      exact ⟨_, hnew, rfl, rfl⟩
  refine ⟨⟨?_, ?_, ?_, ?_, ?_, ?_⟩, ⟨?_, ?_, ?_, ?_⟩⟩
  · show s'.editor.Valid
    rw [heditor]
    exact h.valid
  · intro later hlater
    obtain ⟨submission, hold, htext, -⟩ := hsubmission later hlater
    rw [htext]
    exact h.text submission hold
  · intro later hlater hseparated
    obtain ⟨submission, hold, -, -, hflag, -⟩ := hsubmission later hlater
    exact heditor.trans (h.separated submission hold (hflag.symm.trans hseparated))
  · intro later hlater hseparated
    obtain ⟨submission, hold, htext, -, hflag, hcount⟩ := hsubmission later hlater
    obtain ⟨hentered, hvalue, hsame⟩ := h.together submission hold (hflag.symm.trans hseparated)
    refine ⟨hentered, ?_, ?_⟩
    · show s'.editor.value = _
      rw [heditor, htext]
      exact hvalue
    · exact (hrevision.trans hsame).trans hcount.symm
  · intro commandId hmem
    show commandId < s'.nextCommandId
    rw [hnext]
    exact h.counted commandId (hcalls ▸ hmem)
  · exact hcalls ▸ h.once
  · intro _ _
    exact ⟨heditor.trans (RemoteTuiEvent.applyTo_of_not_input hevent _).symm, hcalls⟩
  · intro hnone later hlater
    obtain ⟨submission, hold, -⟩ := hsubmission later hlater
    exact absurd (hnone.symm.trans hold) (by simp)
  · intro submission hold _
    obtain ⟨later, hlater, htext, hid⟩ := hkept submission hold
    refine ⟨later, hlater, htext, hid, hcalls, ?_⟩
    cases hseparated : submission.separated with
    | true => exact .inl (heditor.trans (h.separated submission hold hseparated))
    | false =>
      obtain ⟨hentered, hvalue, -⟩ := h.together submission hold hseparated
      refine .inr ⟨congrArg TuiEditor.value hentered, ?_⟩
      show s'.editor.value = _
      rw [heditor]
      exact hvalue
  · intro submission answer hold hended
    exact absurd ((hanswer submission hold).symm.trans hended) (by simp)

theorem DraftHeld.sent (h : DraftHeld ⟨s, entered⟩) {submission : PendingSubmission}
    (hold : s.pendingSubmission = none) (hpending : s'.pendingSubmission = some submission)
    (htext : submission.text = s.editor.value) (hid : submission.commandId = s.nextCommandId)
    (hseparated : submission.separated = false)
    (hrevision : submission.draftRevision = s'.draftRevision) (heditor : s'.editor = s.editor)
    (hcalls : s'.calls = s.calls ++ [.submit submission.kind submission.sessionId
      submission.executionId submission.commandId submission.text])
    (hnext : s'.nextCommandId = s.nextCommandId + 1) :
    DraftHeld ⟨s', .empty⟩ ∧ DraftKept unicode ⟨s, entered⟩ event ⟨s', .empty⟩ := by
  have hsubmits : submits s'.calls = submits s.calls ++ [submission.commandId] := by
    rw [hcalls]
    simp [submits]
  have hvalue : s'.editor.value = submission.text := by rw [heditor, htext]
  have honly : ∀ later, s'.pendingSubmission = some later → later = submission :=
    fun later hlater => Option.some.inj (hlater.symm.trans hpending)
  have hfresh : submission.commandId ∉ submits s.calls := by
    intro hmem
    rw [hid] at hmem
    exact Nat.lt_irrefl _ (h.counted _ hmem)
  refine ⟨⟨?_, ?_, ?_, ?_, ?_, ?_⟩, ⟨?_, ?_, ?_, ?_⟩⟩
  · show s'.editor.Valid
    rw [heditor]
    exact h.valid
  · intro later hlater
    rw [honly later hlater, htext]
    exact h.valid.text
  · intro later hlater hflag
    rw [honly later hlater, hseparated] at hflag
    exact absurd hflag Bool.false_ne_true
  · intro later hlater _
    rw [honly later hlater]
    exact ⟨rfl, hvalue, hrevision.symm⟩
  · intro commandId hmem
    show commandId < s'.nextCommandId
    rw [hnext]
    rcases List.mem_append.mp (hsubmits ▸ hmem) with hbefore | hnew
    · exact Nat.lt_succ_of_lt (h.counted commandId hbefore)
    · rw [List.mem_singleton.mp hnew, hid]
      exact Nat.lt_succ_self _
  · show (submits s'.calls).Nodup
    rw [hsubmits]
    exact List.nodup_append.mpr ⟨h.once, List.nodup_singleton _, fun commandId hbefore other hnew heq =>
      hfresh (by rw [← List.mem_singleton.mp hnew, ← heq]; exact hbefore)⟩
  · intro _ hnone
    exact absurd (hpending.symm.trans hnone) (by simp)
  · intro _ later hlater
    rw [honly later hlater]
    exact ⟨htext, heditor, hcalls, hfresh⟩
  · intro other hother
    exact absurd (hold.symm.trans hother) (by simp)
  · intro other answer hother
    exact absurd (hold.symm.trans hother) (by simp)

/-- What `finishDraft` leaves, when the merged text fits. -/
theorem DraftHeld.finished (h : DraftHeld ⟨s, entered⟩) {submission : PendingSubmission}
    {answer : Answer} (hold : s.pendingSubmission = some submission)
    (hanswer : answerOf submission event = some answer) (hkeeps : s.keepsDraft event = true) :
    (s.finishDraft submission (answer = .accepted)).editor.Valid ∧
      (s.finishDraft submission (answer = .accepted)).editor.value =
        answer.draft submission.text entered.value := by
  rw [RemoteTui.keepsDraft, hold] at hkeeps
  dsimp only at hkeeps
  have hback : answer ≠ .accepted →
      (s.finishDraft submission false).editor.Valid ∧
      (s.finishDraft submission false).editor.value =
        mergedDraft submission.text entered.value := by
    intro hne
    cases hseparated : submission.separated with
    | true =>
      have hentered : s.editor = entered := h.separated submission hold hseparated
      rw [if_pos hseparated, hanswer] at hkeeps
      have hlength : byteLength (mergedDraft submission.text s.editor.value) ≤ MAX_EDITOR_BYTES := by
        cases answer with
        | accepted => exact absurd rfl hne
        | rejected => exact of_decide_eq_true hkeeps
        | unconfirmed => exact of_decide_eq_true hkeeps
      have hmerged : TuiEditor.acceptable (mergedDraft submission.text s.editor.value) = true :=
        acceptable_mergedDraft (h.text submission hold) h.valid.text hlength
      have hresult : (s.finishDraft submission false).editor =
          s.editor.replaced (mergedDraft submission.text s.editor.value) := by
        rw [RemoteTui.finishDraft, if_neg Bool.false_ne_true, if_neg (by simp [hseparated])]
        rfl
      rw [hresult]
      refine ⟨h.valid.replaced _, ?_⟩
      rw [TuiEditor.replaced_of_acceptable hmerged, ← hentered]
    | false =>
      obtain ⟨hentered, hvalue, -⟩ := h.together submission hold hseparated
      have hempty : entered.value = [] := congrArg TuiEditor.value hentered
      have hresult : (s.finishDraft submission false).editor = s.editor := by
        rw [RemoteTui.finishDraft, if_neg Bool.false_ne_true, if_pos hseparated]
      rw [hresult, hempty, mergedDraft_nil]
      exact ⟨h.valid, hvalue⟩
  cases answer with
  | rejected => exact hback (by decide)
  | unconfirmed => exact hback (by decide)
  | accepted =>
    rw [decide_eq_true rfl]
    cases hseparated : submission.separated with
    | true =>
      have hresult : (s.finishDraft submission true).editor = s.editor := by
        rw [RemoteTui.finishDraft, if_pos rfl, if_neg (by simp [hseparated])]
      rw [hresult]
      exact ⟨h.valid, congrArg TuiEditor.value (h.separated submission hold hseparated)⟩
    | false =>
      obtain ⟨hentered, hvalue, hrevision⟩ := h.together submission hold hseparated
      have hempty : entered = .empty := hentered
      have hresult : (s.finishDraft submission true).editor = .empty := by
        rw [RemoteTui.finishDraft, if_pos rfl, if_pos ⟨hseparated, hvalue, hrevision⟩]
        exact TuiEditor.replaced_nil s.editor
      rw [hresult, hempty]
      exact ⟨TuiEditor.valid_empty, rfl⟩

theorem DraftHeld.answered (h : DraftHeld ⟨s, entered⟩) {submission : PendingSubmission}
    {answer : Answer} (hkeeps : s.keepsDraft event = true)
    (hold : s.pendingSubmission = some submission)
    (hanswer : answerOf submission event = some answer) (hpending : s'.pendingSubmission = none)
    (heditor : s'.editor = (s.finishDraft submission (answer = .accepted)).editor)
    (hcalls : submits s'.calls = submits s.calls) (hnext : s'.nextCommandId = s.nextCommandId) :
    DraftHeld ⟨s', entered⟩ ∧ DraftKept unicode ⟨s, entered⟩ event ⟨s', entered⟩ := by
  obtain ⟨hvalid, hvalue⟩ := h.finished hold hanswer hkeeps
  have hnone : ∀ later, s'.pendingSubmission ≠ some later := by simp [hpending]
  have honly : ∀ other, s.pendingSubmission = some other → other = submission :=
    fun other hother => Option.some.inj (hother.symm.trans hold)
  refine ⟨⟨heditor ▸ hvalid, fun later hlater => absurd hlater (hnone later),
    fun later hlater => absurd hlater (hnone later),
    fun later hlater => absurd hlater (hnone later), ?_, hcalls ▸ h.once⟩, ⟨?_, ?_, ?_, ?_⟩⟩
  · intro commandId hmem
    show commandId < s'.nextCommandId
    rw [hnext]
    exact h.counted commandId (hcalls ▸ hmem)
  · intro hempty
    exact absurd (hempty.symm.trans hold) (by simp)
  · intro hempty
    exact absurd (hempty.symm.trans hold) (by simp)
  · intro other hother hwaits
    rw [honly other hother, hanswer] at hwaits
    exact absurd hwaits (by simp)
  · intro other given hother hgiven
    rw [honly other hother] at hgiven ⊢
    obtain rfl := Option.some.inj (hanswer.symm.trans hgiven)
    exact ⟨hpending, hcalls, heditor ▸ hvalue⟩

theorem DraftHeld.input (h : DraftHeld ⟨s, entered⟩) (hkeeps : s.keepsDraft event = true)
    (hevent : event.isInput = true)
    (hpending : s'.pendingSubmission = s.pendingSubmission.map fun submission =>
      { submission with separated := submission.separated || event.separates })
    (heditor : s'.editor = event.applyTo unicode
      (if event.separates then s.separateSubmittedDraft.editor else s.editor))
    (hrevision : event.separates = false → event.rewritesCommand s.editor = false →
      s'.draftRevision = s.draftRevision)
    (hcalls : submits s'.calls = submits s.calls) (hnext : s'.nextCommandId = s.nextCommandId) :
    DraftHeld ⟨s', event.applyTo unicode entered⟩ ∧
      DraftKept unicode ⟨s, entered⟩ event ⟨s', event.applyTo unicode entered⟩ := by
  have hanswer := RemoteTuiEvent.answerOf_input hevent
  cases hold : s.pendingSubmission with
  | none =>
    have hnone : s'.pendingSubmission = none := by rw [hpending, hold]; rfl
    have halone : s.separateSubmittedDraft = s := by rw [RemoteTui.separateSubmittedDraft, hold]
    have hresult : s'.editor = event.applyTo unicode s.editor := by
      rw [heditor, halone, ite_self]
    refine ⟨⟨?_, by simp [hnone], by simp [hnone], by simp [hnone], ?_, hcalls ▸ h.once⟩,
      ⟨fun _ _ => ⟨hresult, hcalls⟩, by simp [hnone], by simp [hold], by simp [hold]⟩⟩
    · show s'.editor.Valid
      rw [hresult]
      exact RemoteTuiEvent.valid_applyTo h.valid event
    · intro commandId hmem
      show commandId < s'.nextCommandId
      rw [hnext]
      exact h.counted commandId (hcalls ▸ hmem)
  | some submission =>
    rw [hold, Option.map_some] at hpending
    -- Behind the first edit both editors have the same; before it, none has changed its text.
    have heditors : ((submission.separated || event.separates) = true →
          s'.editor = event.applyTo unicode entered) ∧
        ((submission.separated || event.separates) = false →
          event.applyTo unicode entered = .empty ∧ s'.editor.value = submission.text ∧
            s'.draftRevision = submission.draftRevision) := by
      cases hseparated : submission.separated with
      | true =>
        have hentered : s.editor = entered := h.separated submission hold hseparated
        have hsame : s.separateSubmittedDraft = s := by
          rw [RemoteTui.separateSubmittedDraft, hold]
          exact if_pos hseparated
        refine ⟨fun _ => ?_, fun hnot => absurd hnot (by simp)⟩
        rw [heditor, hsame, ite_self, hentered]
      | false =>
        obtain ⟨hentered, hvalue, hsame⟩ := h.together submission hold hseparated
        have hempty : entered = .empty := hentered
        have htext : s.editor.value = submission.text := hvalue
        rw [Bool.false_or, hempty]
        cases hedit : event.separates with
        | true =>
          have hfresh : s.separateSubmittedDraft.editor = .empty := by
            rw [RemoteTui.separateSubmittedDraft, hold]
            dsimp only
            rw [if_neg (by simp [hseparated]), if_pos htext]
            exact TuiEditor.replaced_nil s.editor
          refine ⟨fun _ => ?_, fun hnot => absurd hnot (by simp)⟩
          rw [heditor, if_pos hedit, hfresh]
        | false =>
          have hcommand : event.rewritesCommand s.editor = false := by
            rw [RemoteTui.keepsDraft, hold] at hkeeps
            dsimp only at hkeeps
            rw [if_neg (by simp [hseparated])] at hkeeps
            simpa using hkeeps
          obtain ⟨hkept, htextKept⟩ :=
            RemoteTuiEvent.applyTo_kept unicode hedit hcommand
          refine ⟨fun hnot => absurd hnot (by simp), fun _ => ⟨hkept, ?_, ?_⟩⟩
          · rw [heditor, hedit, if_neg Bool.false_ne_true, htextKept, htext]
          · exact (hrevision hedit hcommand).trans hsame
    have hvalid : s'.editor.Valid := by
      rw [heditor]
      split
      · exact RemoteTuiEvent.valid_applyTo (RemoteTui.valid_separateSubmittedDraft h.valid) event
      · exact RemoteTuiEvent.valid_applyTo h.valid event
    refine ⟨⟨hvalid, ?_, ?_, ?_, ?_, hcalls ▸ h.once⟩, ⟨?_, by simp [hold], ?_, ?_⟩⟩
    · intro later hlater
      obtain rfl := Option.some.inj (hpending.symm.trans hlater)
      exact h.text submission hold
    · intro later hlater hflag
      obtain rfl := Option.some.inj (hpending.symm.trans hlater)
      exact heditors.1 hflag
    · intro later hlater hflag
      obtain rfl := Option.some.inj (hpending.symm.trans hlater)
      exact heditors.2 hflag
    · intro commandId hmem
      show commandId < s'.nextCommandId
      rw [hnext]
      exact h.counted commandId (hcalls ▸ hmem)
    · exact fun hnone => absurd (hnone.symm.trans hold) (by simp)
    · intro other hother _
      obtain rfl := Option.some.inj (hold.symm.trans hother)
      refine ⟨_, hpending, rfl, rfl, hcalls, ?_⟩
      cases hflag : submission.separated || event.separates with
      | true => exact .inl (heditors.1 hflag)
      | false =>
        obtain ⟨hempty, hvalue, -⟩ := heditors.2 hflag
        exact .inr ⟨congrArg TuiEditor.value hempty, hvalue⟩
    · intro other answer _ hended
      exact absurd ((hanswer other).symm.trans hended) (by simp)

/-- One step: the invariant is kept, and so is the draft. -/
theorem DraftHeld.step {o o' : Observed} (h : DraftHeld o) (hkeeps : o.tui.keepsDraft event = true)
    (hstep : o.step unicode event = some o') : DraftHeld o' ∧ DraftKept unicode o event o' := by
  obtain ⟨s, entered⟩ := o
  obtain ⟨s', htui, rfl⟩ := Option.map_eq_some_iff.mp hstep
  cases RemoteTui.step_change htui with
  | quiet hevent heditor hrevision hpending hanswer hcalls hnext =>
    have hsame : ¬(s.pendingSubmission = none ∧ s'.pendingSubmission ≠ none) := by
      rintro ⟨hnone, hsome⟩
      rcases hpending with hsame | ⟨submission, hold, -⟩
      · exact hsome (hsame.trans hnone)
      · exact absurd (hnone.symm.trans hold) (by simp)
    dsimp only
    rw [if_neg hsame, RemoteTuiEvent.applyTo_of_not_input hevent]
    exact h.quiet hevent heditor hrevision hpending hanswer hcalls hnext
  | input hevent hpending heditor hrevision hcalls hnext =>
    have hsame : ¬(s.pendingSubmission = none ∧ s'.pendingSubmission ≠ none) := by
      rintro ⟨hnone, hsome⟩
      rw [hpending, hnone] at hsome
      exact hsome rfl
    dsimp only
    rw [if_neg hsame]
    exact h.input hkeeps hevent hpending heditor hrevision hcalls hnext
  | sent submission hold hpending htext hid hseparated hrevision heditor hcalls hnext =>
    have hnew : s.pendingSubmission = none ∧ s'.pendingSubmission ≠ none :=
      ⟨hold, by rw [hpending]; simp⟩
    dsimp only
    rw [if_pos hnew]
    exact h.sent hold hpending htext hid hseparated hrevision heditor hcalls hnext
  | answered submission answer hevent hold hanswer hpending heditor hcalls hnext =>
    have hsame : ¬(s.pendingSubmission = none ∧ s'.pendingSubmission ≠ none) :=
      fun hnew => hnew.2 hpending
    dsimp only
    rw [if_neg hsame, RemoteTuiEvent.applyTo_of_not_input hevent]
    exact h.answered hkeeps hold hanswer hpending heditor hcalls hnext

end Steps

theorem draftHeld_start (view : DraftView) : DraftHeld (.start view) where
  valid := TuiEditor.valid_empty
  text := fun _ hpending => absurd hpending (by simp [Observed.start, RemoteTui.start])
  separated := fun _ hpending => absurd hpending (by simp [Observed.start, RemoteTui.start])
  together := fun _ hpending => absurd hpending (by simp [Observed.start, RemoteTui.start])
  counted := fun _ hmem => absurd hmem List.not_mem_nil
  once := List.nodup_nil

/-- In every run whose steps fit, every step keeps the draft, and every submission is sent once. -/
theorem drafts_kept (unicode : Segmentation) (view : DraftView) {events : List RemoteTuiEvent}
    {event : RemoteTuiEvent} {o o' : Observed}
    (hkeeps : Runs.Throughout (Observed.step unicode) (fun o event => o.tui.keepsDraft event = true)
      (.start view) (events ++ [event]))
    (hrun : Runs.run (Observed.step unicode) (.start view) events = some o)
    (hstep : o.step unicode event = some o') :
    DraftKept unicode o event o' ∧ (submits o'.tui.calls).Nodup := by
  have hlast := Runs.throughout_append hkeeps hrun
  have hfront : Runs.Throughout (Observed.step unicode)
      (fun o event => o.tui.keepsDraft event = true) (.start view) events :=
    Runs.throughout_front hkeeps
  have hheld : DraftHeld o := Runs.run_keeps_throughout
    (fun h hkeeps hstep => (h.step hkeeps hstep).1) (draftHeld_start view) hfront hrun
  obtain ⟨hnext, hkept⟩ := hheld.step hlast.1 hstep
  exact ⟨hkept, hnext.once⟩

/-- A Session whose execution can be steered. -/
def steeredView : DraftView where
  cursor := ⟨"epoch", "session", 0⟩
  sessionId := "session"
  targetsActiveSession := true
  operations := ["execution.steer"]
  activeExecution := some "execution"
  submittedByCommandId := none
  pendingCommands := []

/-- A prompt, an input behind it, and a rejection: the prompt comes back. -/
theorem drafts_kept_rejected : ∃ o o' : Observed,
    DraftKept plainSegmentation o (.operationSettled 0 (some .rejected)) o' ∧
      o'.tui.editor.value = ['a', '\n', 'b'] := by
  obtain ⟨o, hrun, o', hstep, hvalue⟩ : ∃ o,
      Runs.run (Observed.step plainSegmentation) (.start steeredView)
        [.edit 80 (.paste ['a']), .f3, .edit 80 (.printable ['b'])] = some o ∧
      ∃ o', o.step plainSegmentation (.operationSettled 0 (some .rejected)) = some o' ∧
        o'.tui.editor.value = ['a', '\n', 'b'] := by
    refine ⟨_, rfl, _, rfl, by decide +kernel⟩
  exact ⟨o, o', (drafts_kept plainSegmentation steeredView (by decide +kernel) hrun hstep).1, hvalue⟩

/-! ## Where a prompt is lost -/

theorem TuiEditor.insert_empty {text : List Char} (h : acceptable text = true) :
    empty.insert text = some { value := text, cursor := text.length, preferredColumn := none } := by
  have hlength := (acceptable_iff.mp h).2
  rw [insert, if_neg]
  · simp [empty]
  · rw [not_or, Bool.not_eq_false, Nat.not_lt]
    refine ⟨h, ?_⟩
    show byteLength [] + byteLength text ≤ _
    rw [show byteLength [] = 0 from rfl, Nat.zero_add]
    exact hlength

section Lost

variable {first second : List Char}

theorem applyEditorEvent_paste (unicode : Segmentation) (columns : Nat) {text : List Char}
    (h : TuiEditor.acceptable text = true) :
    applyEditorEvent unicode .empty columns (.paste text) = ⟨text, text.length, none⟩ := by
  rw [applyEditorEvent, TuiEditor.paste, TuiEditor.insert_empty h]
  rfl

/-- A paste behind which the editor has only the pasted text. -/
theorem editDraft_paste {s s' : RemoteTui} {text : List Char} (columns : Nat)
    (hseparated : s.separateSubmittedDraft = s') (hempty : s'.editor = .empty)
    (htext : TuiEditor.acceptable text = true) (hne : text ≠ []) :
    s.editDraft unicode columns (.paste text) =
      { s' with
        editor := ⟨text, text.length, none⟩
        draftRevision := s'.draftRevision + 1 } := by
  have hpaste := applyEditorEvent_paste unicode columns htext
  have hchanged : text ≠ s'.editor.value := by
    rw [hempty]
    exact hne
  simp only [RemoteTui.editDraft, isEditorTextMutation, if_true, hseparated]
  rw [hempty] at hchanged ⊢
  rw [hpaste, if_pos hchanged]

/-- The TUI with a text in its editor. -/
def typedTui (first : List Char) : RemoteTui :=
  { RemoteTui.start steeredView with
    editor := ⟨first, first.length, none⟩
    draftRevision := 1 }

/-- The submission of that text. -/
def sentSubmission (first : List Char) (separated : Bool) : PendingSubmission where
  kind := .steering
  sessionId := "session"
  executionId := some "execution"
  commandId := 0
  text := first
  draftRevision := 1
  separated := separated
  processing := false

def sentTui (first : List Char) : RemoteTui :=
  { typedTui first with
    pendingSubmission := some (sentSubmission first false)
    nextCommandId := 1
    waiting := [.operation 0]
    calls := [.submit .steering "session" (some "execution") 0 first] }

/-- The TUI with another text behind the submission. -/
def separatedTui (first second : List Char) : RemoteTui :=
  { sentTui first with
    editor := ⟨second, second.length, none⟩
    draftRevision := 3
    pendingSubmission := some (sentSubmission first true) }

theorem step_typed (hfirst : TuiEditor.acceptable first = true) (hne : first ≠ []) :
    (RemoteTui.start steeredView).step unicode (.edit 80 (.paste first)) = some (typedTui first) :=
  congrArg some (editDraft_paste 80 (show _ = RemoteTui.start steeredView from rfl) rfl hfirst hne)

theorem step_sent (hblank : (first.all fun character => isTrimmed character.toNat) = false) :
    (typedTui first).step unicode .f3 = some (sentTui first) := by
  have htext : (typedTui first).editor.submit = some first := by
    show (if _ then _ else _) = _
    rw [if_neg (by simp [typedTui, hblank])]
    rfl
  have hopen : (typedTui first).submitBlocked = false := rfl
  have havailable : (typedTui first).available .steering = true := rfl
  show some (RemoteTui.submitDraft .steering _) = _
  rw [RemoteTui.submitDraft, hopen, if_neg Bool.false_ne_true, htext]
  dsimp only
  rw [if_neg (by simp [havailable])]
  rfl

theorem step_separated (hsecond : TuiEditor.acceptable second = true) (hne : second ≠ []) :
    (sentTui first).step unicode (.edit 80 (.paste second)) = some (separatedTui first second) := by
  have hseparated : (sentTui first).separateSubmittedDraft =
      { sentTui first with
        editor := .empty
        draftRevision := 2
        pendingSubmission := some (sentSubmission first true) } := by
    simp [RemoteTui.separateSubmittedDraft, sentTui, typedTui, sentSubmission,
      RemoteTui.replaceEditorText]
  exact congrArg some (editDraft_paste 80 hseparated rfl hsecond hne)

/-- The merged text is refused: what comes back is what was there. -/
theorem step_lost (unicode : Segmentation) (hlong : MAX_EDITOR_BYTES < byteLength (mergedDraft first second)) :
    ∃ s', (separatedTui first second).step unicode (.operationSettled 0 (some .rejected)) = some s' ∧
      s'.editor.value = second := by
  have hrefused : (separatedTui first second).editor.replaced (mergedDraft first second) =
      (separatedTui first second).editor := by
    rw [TuiEditor.replaced, TuiEditor.setSnapshot, if_pos]
    · rfl
    · refine .inl (Bool.eq_false_iff.mpr fun hfits => ?_)
      exact Nat.not_lt.mpr (TuiEditor.acceptable_iff.mp hfits).2 hlong
  refine ⟨_, rfl, ?_⟩
  show ((separatedTui first second).editor.replaced (mergedDraft first second)).value = _
  rw [hrefused]
  rfl

/-- A prompt that was edited behind comes back to an editor that refuses the merged text. -/
theorem prompt_lost (unicode : Segmentation) (hfirst : TuiEditor.acceptable first = true)
    (hblank : (first.all fun character => isTrimmed character.toNat) = false)
    (hsecond : TuiEditor.acceptable second = true) (hne : second ≠ [])
    (hlong : MAX_EDITOR_BYTES < byteLength (mergedDraft first second)) :
    ∃ o o' : Observed, Runs.run (Observed.step unicode) (.start steeredView)
        [.edit 80 (.paste first), .f3, .edit 80 (.paste second)] = some o ∧
      o.step unicode (.operationSettled 0 (some .rejected)) = some o' ∧
      o.tui.pendingSubmission = some (sentSubmission first true) ∧
      o'.entered.value = second ∧ o'.tui.editor.value = second := by
  have hfilled : first ≠ [] := by
    rintro rfl
    exact absurd hblank (by simp)
  obtain ⟨s', hstep, hvalue⟩ := step_lost unicode hlong
  refine ⟨⟨separatedTui first second, ⟨second, second.length, none⟩⟩,
    ⟨s', ⟨second, second.length, none⟩⟩, ?_, ?_, rfl, rfl, hvalue⟩
  · have htyped : (Observed.start steeredView).step unicode (.edit 80 (.paste first)) =
        some ⟨typedTui first, ⟨first, first.length, none⟩⟩ := by
      rw [Observed.step, show (Observed.start steeredView).tui = .start steeredView from rfl,
        step_typed hfirst hfilled]
      exact congrArg some (congrArg _ (applyEditorEvent_paste unicode 80 hfirst))
    have hsent : Observed.step unicode ⟨typedTui first, ⟨first, first.length, none⟩⟩ .f3 =
        some ⟨sentTui first, .empty⟩ := by
      rw [Observed.step, step_sent hblank]
      rfl
    have hbehind : Observed.step unicode ⟨sentTui first, .empty⟩ (.edit 80 (.paste second)) =
        some ⟨separatedTui first second, ⟨second, second.length, none⟩⟩ := by
      rw [Observed.step, step_separated hsecond hne]
      exact congrArg some (congrArg _ (applyEditorEvent_paste unicode 80 hsecond))
    simp only [Runs.run, htyped, hsent, hbehind, Option.bind_some]
  · rw [Observed.step, hstep]
    rfl

theorem byteLength_replicate {character : Char} (hsize : character.utf8Size = 1) (count : Nat) :
    byteLength (List.replicate count character) = count := by
  rw [byteLength, List.map_replicate, List.sum_replicate_nat, hsize, Nat.mul_one]

theorem acceptable_replicate {character : Char} (hsize : character.utf8Size = 1)
    (hnul : character ≠ Char.ofNat 0) {count : Nat} (hcount : count ≤ MAX_EDITOR_BYTES) :
    TuiEditor.acceptable (List.replicate count character) = true := by
  refine TuiEditor.acceptable_iff.mpr ⟨fun hmem => hnul (List.eq_of_mem_replicate hmem).symm, ?_⟩
  rw [byteLength_replicate hsize]
  exact hcount

theorem replicate_ne_nil (count : Nat) (character : Char) :
    List.replicate (count + 1) character ≠ [] := List.cons_ne_nil _ _

/-- The editor loses a prompt of 40000 bytes behind which as much was pasted. -/
theorem prompt_lost_long : ∃ o o' : Observed,
    Runs.run (Observed.step plainSegmentation) (.start steeredView)
        [.edit 80 (.paste (List.replicate 40000 'x')), .f3,
          .edit 80 (.paste (List.replicate 40000 'y'))] = some o ∧
      o.step plainSegmentation (.operationSettled 0 (some .rejected)) = some o' ∧
      ¬DraftKept plainSegmentation o (.operationSettled 0 (some .rejected)) o' := by
  have hfilled := replicate_ne_nil 39999 'y'
  have hlong : MAX_EDITOR_BYTES <
      byteLength (mergedDraft (List.replicate 40000 'x') (List.replicate 40000 'y')) := by
    rw [mergedDraft, if_neg hfilled, TuiEditor.byteLength_append, byteLength_replicate (by decide),
      ← List.singleton_append, TuiEditor.byteLength_append, byteLength_replicate (by decide)]
    decide
  have hblank : ((List.replicate 40000 'x').all fun character => isTrimmed character.toNat) = false := by
    rw [List.all_replicate]
    decide
  obtain ⟨o, o', hrun, hstep, hpending, hentered, hvalue⟩ := prompt_lost plainSegmentation
    (acceptable_replicate (by decide) (by decide) (by decide)) hblank
    (acceptable_replicate (by decide) (by decide) (by decide)) hfilled hlong
  refine ⟨o, o', hrun, hstep, fun hkept => ?_⟩
  obtain ⟨-, -, hdraft⟩ := hkept.ended _ .rejected hpending rfl
  -- The editor has the second text alone.
  rw [hvalue, hentered, Answer.draft, mergedDraft, if_neg hfilled] at hdraft
  have hlength := congrArg List.length hdraft
  rw [List.length_append, List.length_cons, List.length_replicate] at hlength
  omega

end Lost

end Henji
