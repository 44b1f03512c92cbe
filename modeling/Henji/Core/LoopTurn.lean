import Henji.Core.Loop
import Henji.Core.LoopSettlement
import Henji.Session.CausalTranscript

/-!
# A whole turn

One invariant carries a turn from its task to its end: the turn has not ended, and what it has
appended to the committed transcript is an open turn of the causal grammar, followed by the
messages of the round in progress. Each part of a round either keeps the invariant or ends the
turn.

Results:
1. `turn_settles_once`: a turn that returns has ended once and consistently.
2. `successful_turn_is_adoptable`: a turn that returns ok has appended exactly one complete turn.
-/

namespace Henji

namespace Loop

open Effect LoopLemmas

variable {ω α β : Type}

/-! ## The invariant -/

/-- The `afterTool` hook replaces at most the text of a result. -/
def ReplacesOnlyText (t : AgentTurn ω) : Prop :=
  ∀ hook, t.afterTool = some hook → ∀ input shared world,
    (hook input shared world).1.Returns fun processed =>
      ∃ text, processed.result = { input.result with text }

/-- The turn has not ended; it has appended an open turn and then `extra`. A turn that has been
steered has no steering message left. -/
structure Appended (t : AgentTurn ω) (owned : Bool) (extra : List Message) (s : TurnState ω) :
    Prop where
  unended : Unended owned s
  transcript : ReplacesOnlyText t → ∃ messages steered,
    s.transcript = t.committedTranscript ++ messages ++ extra ∧ TurnPrefix messages steered ∧
    (steered = true → ∀ owner, s.shared.steering = some owner → owner.Spent)

/-- A turn that returned has ended, and has appended a complete turn when it is ok. -/
def Finished (t : AgentTurn ω) (owned : Bool) (outcome : LoopOutcome) (s : TurnState ω) : Prop :=
  Ended t owned outcome s ∧ (outcome.ok = true → ReplacesOnlyText t →
    ∃ messages, outcome.transcript = t.committedTranscript ++ messages ∧ CompleteTurn messages)

/-- A part of the turn hands on a value in `R`, or the turn has finished. -/
def Ends (t : AgentTurn ω) (owned : Bool) (R : α → TurnState ω → Prop) :
    Stage α → TurnState ω → Prop
  | .finished outcome, s => Finished t owned outcome s
  | .next value, s => R value s

/-- Started in `P`, the code hands on a value in `R`, finishes the turn or throws. -/
abbrev Runs (t : AgentTurn ω) (owned : Bool) (P : TurnState ω → Prop)
    (m : TurnEffect ω (Stage α)) (R : α → TurnState ω → Prop) : Prop :=
  Triple P m (Ends t owned R) (fun _ _ => True)

variable {t : AgentTurn ω} {owned : Bool} {P P' : TurnState ω → Prop}
  {R : α → TurnState ω → Prop} {R' : β → TurnState ω → Prop}

theorem TurnState.steering_act {s : TurnState ω} (action : OutsideAction)
    (h : ∀ owner, s.shared.steering = some owner → owner.Spent) :
    ∀ owner, (s.act action).shared.steering = some owner → owner.Spent := by
  cases action with
  | admitSteering value =>
    intro owner ho
    obtain ⟨before, hbefore, rfl⟩ := Option.map_eq_some_iff.mp ho
    exact SteeringOwner.spent_admitted (h before hbefore) value
  | requestCancellation | markCleanupFailed | abortSignal => exact h

theorem appended_stable (extra : List Message) : LoopStable (Appended t owned extra) where
  of_eq := by
    rintro s s' hshared htranscript hoffered hcommits ⟨h1, h2⟩
    refine ⟨(unended_stable owned).of_eq s s' hshared htranscript hoffered hcommits h1, ?_⟩
    rw [htranscript, hshared]
    exact h2
  act := by
    rintro s action ⟨h1, h2⟩
    refine ⟨(unended_stable owned).act s action h1, fun hook => ?_⟩
    obtain ⟨messages, steered, ht, hp, hs⟩ := h2 hook
    exact ⟨messages, steered, ht, hp, fun h => TurnState.steering_act action (hs h)⟩
  offer := fun s event he ⟨h1, h2⟩ => ⟨(unended_stable owned).offer s event he h1, h2⟩

/-! ## Rules for the parts of a turn -/

theorem runs_andThen {m : TurnEffect ω (Stage α)} {f : α → TurnEffect ω (Stage β)}
    (hm : Runs t owned P m R) (hf : ∀ a, Runs t owned (R a) (f a) R') :
    Runs t owned P (andThen m f) R' := by
  refine triple_bind hm fun stage => ?_
  cases stage with
  | finished outcome => exact triple_pure _ fun _ hs => hs
  | next value => exact hf value

theorem runs_next {a : α} (h : ∀ s, P s → R a s) : Runs t owned P (pure (.next a)) R :=
  triple_pure _ h

theorem runs_finish {m : TurnEffect ω LoopOutcome}
    (hm : Triple P m (Finished t owned) (fun _ _ => True)) : Runs t owned P (finish m) R :=
  triple_bind hm fun _ => triple_pure _ fun _ hs => hs

theorem failed_finished {outcome : LoopOutcome} {s : TurnState ω}
    (h : Failed t owned outcome s) : Finished t owned outcome s :=
  ⟨h.1, fun hok => by rw [h.2] at hok; cases hok⟩

theorem runs_fail (hP : ∀ s, P s → Unended owned s) {m : TurnEffect ω LoopOutcome}
    (hm : Triple (Unended owned) m (Failed t owned) (Escaped owned)) :
    Runs t owned P (finish m) R :=
  runs_finish (triple_weaken hm hP (fun _ _ hs => failed_finished hs) (fun _ _ _ => trivial))

theorem runs_cancel (hP : ∀ s, P s → Unended owned s) :
    Runs t owned P (finish (finishCancelled t)) R :=
  runs_fail hP finishCancelled_ends

theorem runs_throw (e : Thrown) : Runs t owned P (throw e) R := triple_throw _ fun _ _ => trivial

theorem runs_bind {γ : Type} {m : TurnEffect ω γ} {f : γ → TurnEffect ω (Stage α)}
    (hm : Keeps P m) (hf : ∀ c, Runs t owned P (f c) R) : Runs t owned P (m >>= f) R :=
  triple_bind (triple_of_keeps hm) hf

theorem runs_attempt {γ : Type} {m : TurnEffect ω γ}
    {f : Except Thrown γ → TurnEffect ω (Stage α)} (hm : Keeps P m)
    (hf : ∀ c, Runs t owned P (f c) R) : Runs t owned P (attempt m >>= f) R :=
  triple_bind (triple_attempt_keeps hm) hf

theorem runs_get {f : TurnState ω → TurnEffect ω (Stage α)}
    (hf : ∀ s, Runs t owned P (f s) R) : Runs t owned P (get >>= f) R :=
  triple_get_bind hf

/-- After the abort check the turn is cancelled, or goes on. -/
theorem runs_unless_aborted (hP : ∀ s, P s → Unended owned s) {m : TurnEffect ω (Stage α)}
    (hm : Runs t owned P m R) :
    Runs t owned P (aborted >>= fun stopped =>
      if stopped = true then finish (finishCancelled t) else m) R := by
  refine runs_bind aborted_keeps fun stopped => ?_
  cases stopped with
  | true => exact runs_cancel hP
  | false => exact hm

theorem appended_unended (extra : List Message) (s : TurnState ω)
    (h : Appended t owned extra s) : Unended owned s := h.unended

/-! ## The request of a round -/

section Rounds

variable {extra : List Message}

theorem keeps_modify_other (f : TurnState ω → TurnState ω)
    (h : ∀ s, (f s).shared = s.shared ∧ (f s).transcript = s.transcript ∧
      (f s).offered = s.offered ∧ (f s).commits = s.commits) :
    Keeps (Appended t owned extra) (modify f : TurnEffect ω PUnit) :=
  keeps_modify_of_eq (appended_stable extra) f h

theorem optional_keeps {γ : Type} (code : Option (Callback ω γ α)) (input : γ) :
    Keeps (Appended t owned extra) (callOptional code input) :=
  callOptional_keeps (appended_stable extra).turnStable code input

theorem setContextRequestOrdinal_keeps (ordinal : Option Nat) :
    Keeps (Appended t owned extra) (setContextRequestOrdinal t ordinal) :=
  keeps_bind (optional_keeps _ _) fun _ => keeps_pure _

theorem projectRequest_keeps (request : ModelRequest) (sources : Sources) :
    Keeps (Appended t owned extra) (projectRequest t request sources) := by
  refine keeps_bind ?_ fun _ => keeps_bind throwIfCancelled_keeps fun _ => keeps_pure _
  unfold projection
  cases t.projectParentRequestWithSources with
  | some project => exact call_keeps (appended_stable extra).turnStable _ _
  | none => exact keeps_bind (optional_keeps _ _) fun _ => keeps_pure _

theorem prepareRequest_runs :
    Runs t owned (Appended t owned extra) (prepareRequest t) (fun _ => Appended t owned extra) := by
  refine runs_get fun s => runs_attempt (projectRequest_keeps _ _) fun ended => ?_
  cases ended with
  | ok prepared => exact runs_next fun _ hs => hs
  | error error =>
    refine runs_bind aborted_keeps fun stopped => ?_
    split
    · exact runs_cancel (appended_unended extra)
    · exact runs_fail (appended_unended extra) (finishContractFailure_ends _ _ _)

/-- The admission may throw the cancelled error only before the end of the turn. -/
theorem claimRequest_spec : Triple (Appended t owned extra) (claimRequest t)
    (Ends t owned fun _ => Appended t owned extra) (Escaped owned) := by
  have hweak {γ : Type} {m : TurnEffect ω γ} (hm : Keeps (Appended t owned extra) m) :
      Triple (Appended t owned extra) m (fun _ => Appended t owned extra) (Escaped owned) :=
    triple_weaken hm (fun _ hs => hs) (fun _ _ hs => hs) (fun _ _ hs _ => hs.unended)
  refine triple_bind (hweak throwIfCancelled_keeps) fun _ => ?_
  refine triple_bind (hweak (optional_keeps _ _)) fun claimed => ?_
  split
  · exact triple_bind (triple_weaken (finishContractFailure_ends _ _ _) (appended_unended extra)
      (fun _ _ hs => failed_finished hs) (fun _ _ hs => hs))
      fun _ => triple_pure _ fun _ hs => hs
  · exact triple_bind (hweak throwIfCancelled_keeps) fun _ => triple_pure _ fun _ hs => hs

theorem admitRequest_runs :
    Runs t owned (Appended t owned extra) (admitRequest t) (fun _ => Appended t owned extra) := by
  refine triple_bind (triple_attempt claimRequest_spec) fun ended => ?_
  cases ended with
  | ok stage => exact triple_pure _ fun _ hs => hs
  | error error =>
    dsimp only
    split
    · next hcancelled => exact runs_cancel fun _ hs => hs hcancelled
    · exact runs_throw error

theorem reportRequest_keeps (request : ModelRequest) (sources : Sources) :
    Keeps (Appended t owned extra) (reportRequest t request sources) :=
  keeps_bind keeps_get fun _ => keeps_bind (optional_keeps _ _) fun _ =>
    keeps_bind (suspend_keeps (appended_stable extra).turnStable t) fun _ =>
    keeps_bind (keeps_modify_other _ fun _ => ⟨rfl, rfl, rfl, rfl⟩) fun _ =>
    setContextRequestOrdinal_keeps _

theorem observeRequest_runs (request : ModelRequest) (sources : Sources) :
    Runs t owned (Appended t owned extra) (observeRequest t request sources)
      (fun _ => Appended t owned extra) := by
  refine runs_bind (keeps_modify_other _ fun _ => ⟨rfl, rfl, rfl, rfl⟩) fun _ =>
    runs_attempt (reportRequest_keeps _ _) fun ended => ?_
  cases ended with
  | ok _ => exact runs_next fun _ hs => hs
  | error error =>
    exact runs_finish (triple_get_bind fun s => triple_weaken (finishContractFailure_ends _ _ _)
      (appended_unended extra) (fun _ _ hs => failed_finished hs) (fun _ _ _ => trivial))

/-! ## Reports and the model's result -/

theorem deliver_keeps {event : LoopEvent} (he : event.isTurnEnd = false) :
    Keeps (Appended t owned extra) (deliverEvent t event) :=
  deliverEvent_keeps (appended_stable extra) t he

theorem modifyLive_keeps (f : LiveProgress → LiveProgress) :
    Keeps (Appended t owned extra) (modifyLive f) :=
  keeps_modify_other _ fun _ => ⟨rfl, rfl, rfl, rfl⟩

theorem requestCancellation_keeps : Keeps (Appended t owned extra) requestCancellation :=
  keeps_modify _ fun s hs => (appended_stable extra).act s _ hs

theorem deliverLive_keeps {event : LoopEvent} (he : event.isTurnEnd = false)
    {record : TurnEffect ω Unit} (hrecord : Keeps (Appended t owned extra) record) :
    Keeps (Appended t owned extra) (deliverLive t event record) := by
  refine keeps_bind (keeps_attempt (keeps_bind (deliver_keeps he) fun _ => hrecord))
    fun ended => ?_
  cases ended with
  | ok _ => exact keeps_pure _
  | error _ =>
    exact keeps_bind (modifyLive_keeps _) fun _ =>
      keeps_bind requestCancellation_keeps fun _ => keeps_throw _

theorem now_keeps : Keeps (Appended t owned extra) (call t.now ()) :=
  call_keeps (appended_stable extra).turnStable _ _

theorem due_keeps (previousAt : Option Int) (gainedLine : Bool) :
    Keeps (Appended t owned extra) (due t previousAt gainedLine) :=
  keeps_bind now_keeps fun _ => keeps_pure _

theorem reportAssistantProgress_keeps (text : JsText) :
    Keeps (Appended t owned extra) (reportAssistantProgress t text) := by
  refine keeps_bind keeps_get fun s => keeps_ite (keeps_pure _) ?_
  refine keeps_bind (due_keeps _ _) fun now => ?_
  cases now with
  | none => exact keeps_pure _
  | some now =>
    exact keeps_ite (keeps_bind (deliverLive_keeps rfl (keeps_bind (optional_keeps _ _)
      fun _ => keeps_pure _)) fun _ => modifyLive_keeps _) (keeps_pure _)

theorem reportThinkingDelta_keeps (delta : ReadableThinking) :
    Keeps (Appended t owned extra) (reportThinkingDelta t delta) := by
  refine keeps_bind (modifyLive_keeps _) fun _ => keeps_bind keeps_get fun s =>
    keeps_ite (keeps_pure _) ?_
  cases observedThinking s.live with
  | none => exact keeps_pure _
  | some thinking =>
    refine keeps_ite (keeps_pure _) (keeps_bind (keeps_ite ?_ (due_keeps _ _)) fun now => ?_)
    · exact keeps_bind now_keeps fun _ => keeps_pure _
    · cases now with
      | none => exact keeps_pure _
      | some now =>
        exact keeps_ite (keeps_bind (deliverLive_keeps rfl (keeps_pure _))
          fun _ => modifyLive_keeps _) (keeps_pure _)

theorem onModelReport_keeps (report : ModelReport) :
    Keeps (Appended t owned extra) (onModelReport t report) := by
  unfold onModelReport
  refine keeps_ite ?_ (keeps_pure _)
  cases report with
  | assistantProgress text => exact reportAssistantProgress_keeps text
  | thinkingDelta thinking => exact reportThinkingDelta_keeps thinking

theorem emitThinking_keeps (complete : Bool) (state : Option Json) :
    Keeps (Appended t owned extra) (emitThinking t complete state) := by
  refine keeps_bind keeps_get fun s => ?_
  cases (readableThinkingFromState state).or (observedThinking s.live) with
  | none => exact keeps_pure _
  | some thinking => exact keeps_ite (keeps_pure _) (deliver_keeps rfl)

theorem rejectDelivery_runs (error : Thrown) : Runs t owned P (rejectDelivery error) R := by
  unfold rejectDelivery
  split
  · intro s _
    trivial
  · exact runs_throw _

theorem generateFailed_runs (error : Thrown) :
    Runs t owned (Appended t owned extra) (generateFailed t error) R := by
  refine runs_bind (setContextRequestOrdinal_keeps _) fun _ =>
    runs_bind (emitThinking_keeps _ _) fun _ => runs_get fun s => ?_
  split
  · exact rejectDelivery_runs error
  · split
    · exact runs_fail (appended_unended extra) (finishCleanupFailure_ends _ _)
    · split
      · exact runs_cancel (appended_unended extra)
      · exact runs_fail (appended_unended extra) (finishContractFailure_ends _ _ _)

theorem receiveResult_runs (reply : ModelReply) :
    Runs t owned (Appended t owned extra) (receiveResult t reply)
      (fun _ => Appended t owned extra) := by
  refine runs_get fun s => ?_
  split
  · exact runs_throw _
  · split
    · exact runs_bind (emitThinking_keeps _ _) fun _ => runs_cancel (appended_unended extra)
    · cases checkedResult reply with
      | none =>
        exact runs_bind (emitThinking_keeps _ _) fun _ =>
          runs_fail (appended_unended extra) (finishContractFailure_ends _ _ _)
      | some result =>
        exact runs_bind (emitThinking_keeps _ _) fun _ => runs_next fun _ hs => hs

theorem generateResult_runs (request : ModelRequest) :
    Runs t owned (Appended t owned extra) (generateResult t request)
      (fun _ => Appended t owned extra) := by
  refine runs_bind (modifyLive_keeps _) fun _ => runs_get fun s => ?_
  refine runs_attempt (callReporting_keeps (appended_stable extra).turnStable _
    onModelReport_keeps _) fun ended => ?_
  cases ended with
  | ok reply => exact receiveResult_runs reply
  | error error => exact generateFailed_runs error

/-! ## Appending messages -/

theorem pushMessage_spec (message : Message) :
    Triple (Appended t owned extra) (pushMessage message)
      (fun _ => Appended t owned (extra ++ [message])) (fun _ _ => True) := by
  refine triple_modify _ fun s hs => ⟨?_, fun hook => ?_⟩
  · exact ⟨hs.unended.noEnd, hs.unended.uncommitted, hs.unended.owner⟩
  · obtain ⟨messages, steered, ht, hp, hspent⟩ := hs.transcript hook
    refine ⟨messages, steered, ?_, hp, hspent⟩
    show s.transcript ++ [message] = _
    rw [ht, List.append_assoc]

theorem pushSource_keeps' (message : Message) (kind : RequestMessageSourceKind) (index : Nat)
    (modelStep : Option Nat) :
    Keeps (Appended t owned extra) (pushSource t message kind index modelStep) :=
  pushSource_keeps (appended_stable extra) t message kind index modelStep

theorem appendAssistant_spec (message : Message) :
    Triple (Appended t owned extra) (appendAssistant t message)
      (fun _ => Appended t owned (extra ++ [message])) (fun _ _ => True) := by
  refine triple_get_bind fun s => triple_bind (pushMessage_spec message) fun _ => ?_
  exact triple_bind (triple_of_keeps (deliver_keeps rfl)) fun _ =>
    triple_of_keeps (pushSource_keeps' _ _ _ _)

/-- The steering message has been taken, and appended with `more`. -/
structure Steered (t : AgentTurn ω) (owned : Bool) (extra more : List Message)
    (s : TurnState ω) : Prop where
  unended : Unended owned s
  transcript : ReplacesOnlyText t → ∃ messages,
    s.transcript = t.committedTranscript ++ messages ++ extra ++ more ∧
    TurnPrefix messages false ∧ ∀ owner, s.shared.steering = some owner → owner.Spent

theorem steered_stable (more : List Message) : LoopStable (Steered t owned extra more) where
  of_eq := by
    rintro s s' hshared htranscript hoffered hcommits ⟨h1, h2⟩
    refine ⟨(unended_stable owned).of_eq s s' hshared htranscript hoffered hcommits h1, ?_⟩
    rw [htranscript, hshared]
    exact h2
  act := by
    rintro s action ⟨h1, h2⟩
    refine ⟨(unended_stable owned).act s action h1, fun hook => ?_⟩
    obtain ⟨messages, ht, hp, hs⟩ := h2 hook
    exact ⟨messages, ht, hp, TurnState.steering_act action hs⟩
  offer := fun s event he ⟨h1, h2⟩ => ⟨(unended_stable owned).offer s event he h1, h2⟩

/-- A text is taken only from a turn that has not been steered, and leaves the lane spent. -/
theorem consumeSteering_spec :
    Triple (Appended t owned extra) consumeSteering
      (fun taken s => match taken with
        | none => Appended t owned extra s
        | some _ => Steered t owned extra [] s) (fun _ _ => True) := by
  rintro s ⟨hu, htranscript⟩
  cases hsteering : s.shared.steering with
  | none =>
    have hr : run consumeSteering s = (.ok none, s) := by simp [consumeSteering, run, hsteering]
    rw [hr]
    exact ⟨hu, htranscript⟩
  | some owner =>
    have hr : run consumeSteering s = (.ok owner.consume.1, { s with
        shared := { s.shared with steering := some owner.consume.2 } }) := by
      simp [consumeSteering, run, hsteering]
    rw [hr]
    cases hc : owner.consume.1 with
    | none =>
      refine ⟨⟨hu.noEnd, hu.uncommitted, hu.owner⟩, fun hook => ?_⟩
      obtain ⟨messages, steered, ht, hp, hs⟩ := htranscript hook
      refine ⟨messages, steered, ht, hp, fun h other hother => ?_⟩
      cases hother
      rw [SteeringOwner.consume_spent (hs h owner hsteering)]
      exact hs h owner hsteering
    | some text =>
      refine ⟨⟨hu.noEnd, hu.uncommitted, hu.owner⟩, fun hook => ?_⟩
      obtain ⟨messages, steered, ht, hp, hs⟩ := htranscript hook
      have hfresh : steered = false := by
        cases steered with
        | false => rfl
        | true =>
          rw [SteeringOwner.consume_spent (hs rfl owner hsteering)] at hc
          cases hc
      refine ⟨messages, by rw [List.append_nil]; exact ht, hfresh ▸ hp, fun other hother => ?_⟩
      cases hother
      exact SteeringOwner.spent_consume hc

theorem applySteering_spec :
    Triple (Appended t owned extra) (applySteering t)
      (fun steered s => if steered = true then ∃ text,
          Steered t owned extra [.user text true] s
        else Appended t owned extra s) (fun _ _ => True) := by
  refine triple_bind consumeSteering_spec fun taken => ?_
  cases taken with
  | none => exact triple_pure _ fun _ hs => hs
  | some text =>
    refine triple_bind (Q := fun _ => Steered t owned extra [.user text true])
      (triple_modify _ fun s hs => ⟨?_, fun hook => ?_⟩) fun _ => ?_
    · exact ⟨hs.unended.noEnd, hs.unended.uncommitted, hs.unended.owner⟩
    · obtain ⟨messages, ht, hp, hspent⟩ := hs.transcript hook
      refine ⟨messages, ?_, hp, hspent⟩
      show s.transcript ++ [_] = _
      rw [ht, List.append_nil]
    · refine triple_bind (triple_of_keeps (deliverEvent_keeps (steered_stable _) t rfl))
        fun _ => triple_get_bind fun s => ?_
      exact triple_bind (triple_of_keeps (pushSource_keeps (steered_stable _) t _ _ _ _))
        fun _ => triple_pure _ fun _ hs => ⟨text, hs⟩

/-- A settled success finishes the turn when the appended messages are complete. -/
theorem finishSuccess (hextra : ReplacesOnlyText t → ∀ messages steered,
      TurnPrefix messages steered → CompleteTurn (messages ++ extra))
    (stopReason : LoopStopReason) (finalText : JsText) (terminalKind : Option TerminalKind) :
    Triple (Appended t owned extra)
      (get >>= fun s => finishNormal t (successOutcome t s stopReason finalText terminalKind))
      (Finished t owned) (fun _ _ => True) := by
  refine triple_read fun s₀ h₀ => ?_
  refine triple_weaken (finishNormal_ends _) (fun s hs => hs ▸ h₀.unended)
    (fun outcome s hs => ⟨hs.1, fun hok hook => ?_⟩) (fun _ _ hs => hs)
  obtain ⟨messages, steered, ht, hp, -⟩ := h₀.transcript hook
  refine ⟨messages ++ extra, ?_, hextra hook messages steered hp⟩
  rw [(hs.2 hok).2, ← List.append_assoc]
  exact ht

theorem answerFinal_runs (text : JsText) (providerState : Option Json) :
    Runs t owned (Appended t owned []) (answerFinal t text providerState)
      (fun _ => Appended t owned []) := by
  refine runs_bind (setContextRequestOrdinal_keeps _) fun _ => ?_
  refine triple_bind (appendAssistant_spec _) fun _ => ?_
  refine runs_unless_aborted (appended_unended _) (triple_bind applySteering_spec fun steered => ?_)
  cases steered with
  | true =>
    refine triple_exists fun steering => runs_next fun s hs => ⟨hs.unended, fun hook => ?_⟩
    obtain ⟨messages, ht, hp, hspent⟩ := hs.transcript hook
    refine ⟨_, true, ?_, TurnPrefix.steeredAnswer text none providerState steering hp,
      fun _ => hspent⟩
    rw [ht]
    simp
  | false =>
    exact runs_finish (finishSuccess
      (fun _ messages steered hp => CompleteTurn.answer text none providerState hp) _ _ _)

/-! ## Tool calls -/

/-- The result is one of the call, and marked terminal when its dispatch reported a terminal. -/
structure ResultOf (call : ToolCall) (result : RegistryDispatchResult) : Prop where
  callId : call.callId = result.content.callId
  name : call.name = result.content.name
  terminal : result.content.terminal.isSome = result.terminal.isSome

theorem recordEvidence_keeps {γ : Type} (attribution : Option RequestReference)
    (record : ProviderEvidence ω → Callback ω γ Unit) (input : RequestReference → γ) :
    Keeps (Appended t owned extra) (recordEvidence t attribution record input) := by
  unfold recordEvidence
  cases attribution with
  | none => exact keeps_pure _
  | some attribution => exact keeps_bind (optional_keeps _ _) fun _ => keeps_pure _

theorem deliverResult_keeps (attribution : Option RequestReference) (callIndex : Nat)
    (result : ToolResultContent) (hookEffect : Option Json) :
    Keeps (Appended t owned extra) (deliverResult t attribution callIndex result hookEffect) :=
  keeps_bind (deliver_keeps rfl) fun _ =>
    keeps_bind (keeps_modify_other _ fun _ => ⟨rfl, rfl, rfl, rfl⟩) fun _ =>
    recordEvidence_keeps _ _ _

theorem deliverCall_keeps (attribution : Option RequestReference) (callIndex : Nat)
    (call : ToolCall) (hookEffect : Option Json) :
    Keeps (Appended t owned extra) (deliverCall t attribution callIndex call hookEffect) :=
  keeps_bind (deliver_keeps rfl) fun _ => recordEvidence_keeps _ _ _

theorem rejectCall_runs (attribution : Option RequestReference) (callIndex : Nat)
    (call : ToolCall) :
    Runs t owned (Appended t owned extra) (rejectCall t attribution callIndex call)
      (fun result s => Appended t owned extra s ∧ (ReplacesOnlyText t → ResultOf call result)) := by
  refine runs_bind (deliverCall_keeps _ _ _ _) fun _ =>
    runs_unless_aborted (appended_unended _) ?_
  exact runs_bind (deliverResult_keeps _ _ _ _) fun _ =>
    runs_next fun _ hs => ⟨hs, fun _ => ⟨rfl, rfl, rfl⟩⟩

theorem onToolProgress_keeps (attribution : Option RequestReference) (callIndex : Nat)
    (call : ToolCall) (text : JsText) :
    Keeps (Appended t owned extra) (onToolProgress t attribution callIndex call text) := by
  refine keeps_bind keeps_get fun s => keeps_ite (keeps_pure _) ?_
  refine keeps_bind (keeps_modify_other _ fun _ => ⟨rfl, rfl, rfl, rfl⟩) fun _ => ?_
  refine keeps_bind (keeps_attempt (keeps_bind (deliver_keeps rfl) fun _ =>
    recordEvidence_keeps _ _ _)) fun delivered => ?_
  cases delivered with
  | ok _ => exact keeps_pure _
  | error _ =>
    exact keeps_bind (keeps_modify_other _ fun _ => ⟨rfl, rfl, rfl, rfl⟩) fun _ =>
      keeps_bind requestCancellation_keeps fun _ => keeps_throw _

theorem dispatchFailed_runs (call : ToolCall) (error : Thrown) :
    Runs t owned (Appended t owned extra) (dispatchFailed t call error)
      (fun result s => Appended t owned extra s ∧ ResultOf call result) := by
  refine runs_get fun s => ?_
  split
  · exact rejectDelivery_runs error
  · split
    · exact runs_fail (appended_unended extra) (finishCleanupFailure_ends _ _)
    · split
      · exact runs_cancel (appended_unended extra)
      · exact runs_next fun _ hs => ⟨hs, rfl, rfl, rfl⟩

theorem dispatchCall_runs (attribution : Option RequestReference) (callIndex : Nat)
    (call : ToolCall) (arguments : Json) :
    Runs t owned (Appended t owned extra) (dispatchCall t attribution callIndex call arguments)
      (fun result s => Appended t owned extra s ∧ ResultOf call result) := by
  refine runs_bind (keeps_modify_other _ fun _ => ⟨rfl, rfl, rfl, rfl⟩) fun _ =>
    runs_get fun s => ?_
  refine triple_bind (triple_attempt (dispatch_spec (appended_stable extra).turnStable _ _ _ _
    (onToolProgress_keeps attribution callIndex call))) fun ended => ?_
  cases ended with
  | error error =>
    exact runs_bind (suspend_keeps (appended_stable extra).turnStable t) fun _ =>
      dispatchFailed_runs call error
  | ok result =>
    refine triple_weaken (triple_of_fact fun hd : DispatchedFor t.registry _ result => ?_)
      (fun s hs => And.symm hs) (fun _ _ hs => hs) (fun _ _ hs => hs)
    refine runs_bind (suspend_keeps (appended_stable extra).turnStable t) fun _ =>
      runs_get fun s => ?_
    split
    · exact runs_throw _
    · exact runs_next fun _ hs => ⟨hs, hd.callId.symm, hd.name.symm, hd.terminal⟩

theorem obtainResult_runs (attribution : Option RequestReference) (callIndex : Nat)
    (call : ToolCall) (prepared : PreparedCall) :
    Runs t owned (Appended t owned extra) (obtainResult t attribution callIndex call prepared)
      (fun result s => Appended t owned extra s ∧ ResultOf call result) := by
  unfold obtainResult
  cases prepared.failure with
  | some failure => exact runs_next fun _ hs => ⟨hs, rfl, rfl, rfl⟩
  | none => exact dispatchCall_runs _ _ _ _

theorem processResult_spec (call : ToolCall) (prepared : PreparedCall)
    (dispatched : RegistryDispatchResult) :
    Triple (Appended t owned extra) (processResult t call prepared dispatched)
      (fun processed s => Appended t owned extra s ∧ (ReplacesOnlyText t →
        ∃ text, processed.result = { dispatched.content with text })) (fun _ _ => True) := by
  have hkeeps : Keeps (Appended t owned extra) (processResult t call prepared dispatched) :=
    keeps_bind keeps_get fun _ => keeps_bind (optional_keeps _ _) fun _ => keeps_pure _
  by_cases hook : ReplacesOnlyText t
  · refine triple_get_bind fun s => ?_
    cases hc : (if prepared.failure.isNone then t.afterTool else none) with
    | none => exact triple_pure _ fun _ hs => ⟨hs, fun _ => ⟨_, rfl⟩⟩
    | some code =>
      have hcode : t.afterTool = some code := by
        split at hc
        · exact hc
        · cases hc
      refine triple_bind (Q := fun processed s => Appended t owned extra s ∧
        ∀ result, processed = some result →
          ∃ text, result.result = { dispatched.content with text }) ?_ fun processed =>
        triple_pure _ fun _ hs => ⟨hs.1, fun _ => ?_⟩
      · refine triple_bind (triple_weaken (call_returns (appended_stable extra).turnStable
          fun shared world => hook code hcode _ shared world) (fun _ hs => hs)
          (fun _ _ hs => hs) (fun _ _ _ => trivial)) fun result => triple_pure _ fun _ hs => ?_
        refine ⟨hs.1, fun other hother => ?_⟩
        cases hother
        exact hs.2
      · cases processed with
        | none => exact ⟨_, rfl⟩
        | some result => exact hs.2 result rfl
  · exact triple_weaken (triple_of_keeps hkeeps) (fun _ hs => hs)
      (fun _ _ hs => ⟨hs, fun h => absurd h hook⟩) (fun _ _ hs => hs)

theorem supplemented_of_text (prepared : PreparedCall) {content result : ToolResultContent}
    {text : JsText} (h : result = { content with text }) :
    ∃ text, supplemented prepared result = { content with text } := by
  subst h
  unfold supplemented
  split
  · exact ⟨_, rfl⟩
  · exact ⟨text, rfl⟩

theorem performCall_runs (attribution : Option RequestReference) (callIndex : Nat)
    (call : ToolCall) :
    Runs t owned (Appended t owned extra) (performCall t attribution callIndex call)
      (fun result s => Appended t owned extra s ∧ (ReplacesOnlyText t → ResultOf call result)) := by
  refine runs_bind (keeps_bind keeps_get fun _ => keeps_bind (optional_keeps _ _) fun _ =>
    keeps_pure _) fun prepared => ?_
  refine runs_bind (deliverCall_keeps _ _ _ _) fun _ =>
    runs_unless_aborted (appended_unended _) ?_
  refine runs_andThen (obtainResult_runs _ _ _ _) fun dispatched => ?_
  refine triple_of_fact fun hd => runs_unless_aborted (appended_unended _) ?_
  refine triple_bind (processResult_spec _ _ _) fun processed => ?_
  refine triple_of_fact fun hp => runs_bind (deliverResult_keeps _ _ _ _) fun _ => ?_
  refine runs_next fun _ hs => ⟨hs, fun hook => ?_⟩
  obtain ⟨text, htext⟩ := hp hook
  obtain ⟨text, htext⟩ := supplemented_of_text prepared htext
  rw [htext]
  exact ⟨hd.callId, hd.name, hd.terminal⟩

/-- The results of a batch pair with its calls, and the terminal result that the batch reports
shows in one of them. -/
structure BatchOf (calls : List ToolCall) (results : List ToolResultContent)
    (before after : Option TerminalResult) : Prop where
  pairs : pairsCalls calls results = true
  terminal : after.isSome = (before.isSome || results.any (·.terminal.isSome))

theorem batchOf_cons {call : ToolCall} {calls : List ToolCall} {result : RegistryDispatchResult}
    {results : List ToolResultContent} {before after : Option TerminalResult}
    (hr : ResultOf call result) (hb : BatchOf calls results (result.terminal.or before) after) :
    BatchOf (call :: calls) (result.content :: results) before after := by
  refine ⟨?_, ?_⟩
  · simp [pairsCalls, hr.callId, hr.name, hb.pairs]
  · rw [hb.terminal, List.any_cons, hr.terminal, Option.isSome_or]
    cases result.terminal.isSome <;> cases before.isSome <;> rfl

theorem runCalls_runs (attribution : Option RequestReference) (invalidBatch : Bool)
    (calls : List ToolCall) (results : List ToolResultContent)
    (terminal : Option TerminalResult) :
    Runs t owned (Appended t owned extra)
      (runCalls t attribution invalidBatch calls results terminal)
      (fun batch s => Appended t owned extra s ∧ (ReplacesOnlyText t →
        ∃ more, batch.1 = results ++ more ∧ BatchOf calls more terminal batch.2)) := by
  induction calls generalizing results terminal with
  | nil =>
    exact runs_next fun _ hs => ⟨hs, fun _ => ⟨[], (List.append_nil _).symm, rfl, by simp⟩⟩
  | cons call calls ih =>
    refine runs_unless_aborted (appended_unended _) ?_
    refine runs_bind (keeps_modify_other _ fun _ => ⟨rfl, rfl, rfl, rfl⟩) fun _ => ?_
    refine runs_andThen (R := fun result s => Appended t owned extra s ∧
      (ReplacesOnlyText t → ResultOf call result)) ?_ fun performed => ?_
    · split
      · exact rejectCall_runs _ _ _
      · exact performCall_runs _ _ _
    · refine triple_of_fact fun hr => triple_weaken (ih _ _) (fun _ hs => hs) ?_
        (fun _ _ hs => hs)
      rintro (outcome | batch) s hs
      · exact hs
      · refine ⟨hs.1, fun hook => ?_⟩
        obtain ⟨more, hmore, hbatch⟩ := hs.2 hook
        refine ⟨performed.content :: more, ?_, batchOf_cons (hr hook) hbatch⟩
        rw [hmore, List.append_assoc]
        rfl

/-! ## The rest of a round -/

theorem endBatch_runs {calls : List ToolCall} {results : List ToolResultContent}
    {terminal : Option TerminalResult} (text : Option JsText) (providerState : Option Json)
    (hb : ReplacesOnlyText t → BatchOf calls results none terminal) :
    Runs t owned (Appended t owned [.assistant (.calls calls) text providerState, .tool results])
      (endBatch t terminal) (fun _ => Appended t owned []) := by
  refine runs_bind (setContextRequestOrdinal_keeps _) fun _ =>
    runs_unless_aborted (appended_unended _) ?_
  cases terminal with
  | some terminal =>
    refine runs_finish (finishSuccess (fun hook messages steered hp => ?_) _ _ _)
    refine CompleteTurn.terminal text providerState hp (hb hook).pairs ?_
    have hany := (hb hook).terminal
    rw [Option.isSome_some, Option.isSome_none, Bool.false_or] at hany
    obtain ⟨result, hr, ht⟩ := List.any_eq_true.mp hany.symm
    exact ⟨result, hr, Option.isSome_iff_ne_none.mp ht⟩
  | none =>
    have hnone (hook : ReplacesOnlyText t) : ∀ result ∈ results, result.terminal = none := by
      have hany := (hb hook).terminal
      rw [Option.isSome_none, Bool.false_or] at hany
      intro result hr
      exact Option.not_isSome_iff_eq_none.mp (List.any_eq_false.mp hany.symm result hr)
    refine triple_bind (Q := fun _ => Appended t owned []) (triple_weaken applySteering_spec
      (fun _ hs => hs) ?_ (fun _ _ hs => hs)) fun _ => ?_
    · intro steered s hs
      cases steered with
      | true =>
        obtain ⟨steering, hs⟩ := hs
        refine ⟨hs.unended, fun hook => ?_⟩
        obtain ⟨messages, ht, hp, hspent⟩ := hs.transcript hook
        refine ⟨_, true, ?_, TurnPrefix.steeredTools text providerState steering hp
          (hb hook).pairs (hnone hook), fun _ => hspent⟩
        rw [ht]
        simp
      | false =>
        refine ⟨hs.unended, fun hook => ?_⟩
        obtain ⟨messages, steered, ht, hp, hspent⟩ := hs.transcript hook
        refine ⟨_, steered, ?_, TurnPrefix.tools text providerState hp (hb hook).pairs
          (hnone hook), hspent⟩
        rw [ht]
        simp
    · refine runs_get fun s => ?_
      split
      · exact runs_finish (triple_weaken finishMaxSteps_ends (appended_unended _)
          (fun _ _ hs => failed_finished hs) (fun _ _ hs => hs))
      · exact runs_next fun _ hs => hs

theorem answerCalls_runs (attribution : Option RequestReference) (calls : List ToolCall)
    (text : Option JsText) (providerState : Option Json) :
    Runs t owned (Appended t owned []) (answerCalls t attribution calls text providerState)
      (fun _ => Appended t owned []) := by
  refine triple_bind (appendAssistant_spec _) fun _ => ?_
  refine runs_andThen (runCalls_runs _ _ _ _ _) fun (results, terminal) => ?_
  refine triple_of_fact fun hbatch => triple_bind (pushMessage_spec _) fun _ =>
    runs_get fun s => runs_bind (pushSource_keeps' _ _ _ _) fun _ => ?_
  refine endBatch_runs text providerState fun hook => ?_
  obtain ⟨more, hmore, hb⟩ := hbatch hook
  cases hmore
  exact hb

/-- One round keeps the invariant or finishes the turn. -/
theorem step_runs : Runs t owned (Appended t owned []) (step t) (fun _ => Appended t owned []) := by
  refine runs_andThen prepareRequest_runs fun (request, sources) => ?_
  refine runs_andThen admitRequest_runs fun _ => ?_
  refine runs_andThen (observeRequest_runs _ _) fun _ => ?_
  refine runs_andThen (generateResult_runs _) fun result => ?_
  refine runs_get fun s => runs_bind (optional_keeps _ _) fun attribution => ?_
  cases result with
  | final text providerState => exact answerFinal_runs text providerState
  | toolCalls calls text providerState => exact answerCalls_runs attribution calls text _

theorem runSteps_finishes (remaining : Nat) :
    Triple (Appended t owned []) (runSteps t remaining) (Finished t owned) (fun _ _ => True) := by
  have hcancel : Triple (Appended t owned []) (finishCancelled t) (Finished t owned)
      (fun _ _ => True) :=
    triple_weaken finishCancelled_ends (appended_unended _) (fun _ _ hs => failed_finished hs)
      (fun _ _ _ => trivial)
  induction remaining with
  | zero =>
    refine triple_bind (triple_of_keeps aborted_keeps) fun stopped => ?_
    split
    · exact hcancel
    · exact triple_weaken finishMaxSteps_ends (appended_unended _)
        (fun _ _ hs => failed_finished hs) (fun _ _ hs => hs)
  | succ remaining ih =>
    refine triple_bind (triple_of_keeps aborted_keeps) fun stopped => ?_
    split
    · exact hcancel
    · refine triple_bind step_runs fun stage => ?_
      cases stage with
      | finished outcome => exact triple_pure _ fun _ hs => hs
      | next _ => exact ih

end Rounds

/-! ## The turn -/

/-- A turn that has copied the committed transcript and appended nothing. -/
structure Begun (t : AgentTurn ω) (owned : Bool) (s : TurnState ω) : Prop where
  unended : Unended owned s
  transcript : s.transcript = t.committedTranscript

theorem begun_stable : LoopStable (Begun t owned) where
  of_eq := fun s s' hshared htranscript hoffered hcommits ⟨h1, h2⟩ =>
    ⟨(unended_stable owned).of_eq s s' hshared htranscript hoffered hcommits h1,
      htranscript.trans h2⟩
  act := fun s action ⟨h1, h2⟩ => ⟨(unended_stable owned).act s action h1, h2⟩
  offer := fun s event he ⟨h1, h2⟩ => ⟨(unended_stable owned).offer s event he h1, h2⟩

/-- Pushing the task opens the turn. -/
theorem pushTask_spec : Triple (Begun t owned) (pushMessage (.user t.task false))
    (fun _ => Appended t owned []) (fun _ _ => True) := by
  refine triple_modify _ fun s hs => ⟨⟨hs.unended.noEnd, hs.unended.uncommitted,
    hs.unended.owner⟩, fun _ => ⟨[.user t.task false], false, ?_, TurnPrefix.task t.task, nofun⟩⟩
  show s.transcript ++ _ = _
  rw [hs.transcript, List.append_nil]

theorem runAgentTurnInternal_finishes (shared : SharedState) (world : ω) :
    Triple (TurnState.start shared world = ·) (runAgentTurnInternal t)
      (Finished t shared.cancellation.isSome) (fun _ _ => True) := by
  unfold runAgentTurnInternal
  split
  · exact triple_throw _ fun _ _ => trivial
  · split
    · exact triple_throw _ fun _ _ => trivial
    · refine triple_bind (Q := fun _ => Begun t shared.cancellation.isSome)
        (triple_modify _ fun s hs => ?_) fun _ => ?_
      · subst hs
        exact ⟨⟨fun _ he => absurd he List.not_mem_nil, rfl, rfl⟩, rfl⟩
      · refine triple_bind (triple_of_keeps (pushCommittedSources_keeps begun_stable t 0 _))
          fun _ => ?_
        refine triple_bind pushTask_spec fun _ => ?_
        have hdeliver (event : LoopEvent) (he : event.isTurnEnd = false) :
            Keeps (Appended t shared.cancellation.isSome []) (deliverEvent t event) :=
          deliver_keeps he
        refine triple_bind (triple_of_keeps (hdeliver _ rfl)) fun _ => ?_
        refine triple_bind (triple_of_keeps (hdeliver _ rfl)) fun _ => ?_
        exact triple_bind (triple_of_keeps (pushSource_keeps' _ _ _ _)) fun _ =>
          runSteps_finishes _

theorem finished_stable (outcome : LoopOutcome) : TurnStable (Finished t owned outcome) where
  world := fun s world hs => ⟨(ended_stable t owned outcome).world s world hs.1, hs.2⟩
  act := fun s action hs => ⟨(ended_stable t owned outcome).act s action hs.1, hs.2⟩

theorem runAgentTurn_finishes (t : AgentTurn ω) (shared : SharedState) (world : ω) :
    Triple (TurnState.start shared world = ·) (runAgentTurn t)
      (Finished t shared.cancellation.isSome) (fun _ _ => True) := by
  have hinner : Triple (TurnState.start shared world = ·)
      (runAgentTurnInternal t >>= fun outcome => suspend t >>= fun _ => pure outcome)
      (Finished t shared.cancellation.isSome) (fun _ _ => True) :=
    triple_bind (runAgentTurnInternal_finishes shared world) fun outcome =>
      triple_bind (triple_of_keeps (suspend_keeps (finished_stable outcome) t)) fun _ =>
        triple_pure _ fun _ hs => hs
  -- Closing the steering lane touches nothing that the end of the turn speaks about.
  exact triple_finallyDo hinner
    (fun outcome s ⟨⟨h1, h2, h3, h4⟩, h5⟩ => ⟨⟨h1, h2, h3, h4⟩, h5⟩) (fun _ _ hs => hs)

/-! ## Results -/

/-- **A turn settles once.** Whatever the model, the tools, the hooks, the sink, the commit and
every other callback do, and whenever a cancellation is requested, a turn that returns has offered
exactly one `turn_end`, last and with its stop reason; `commit` was called at most once, for a turn
that is ok or failed in the commit; and when the loop owns the cancellation, `commit` was called
before the signal fired, and no later request fires it. -/
theorem turn_settles_once (t : AgentTurn ω) (shared : SharedState) (world : ω) :
    Triple (TurnState.start shared world = ·) (runAgentTurn t)
      (fun outcome s =>
        (∃ earlier committed counts diagnostic,
          s.offered = earlier ++
            [.turnEnd t.number outcome.stopReason committed counts diagnostic] ∧
          (∀ event ∈ earlier, event.isTurnEnd = false) ∧
          (committed = true ↔
            t.commit.isSome = true ∧ ∃ commit ∈ s.commits, commit.returned = true)) ∧
        s.commits.length ≤ 1 ∧
        (s.commits ≠ [] → outcome.ok = true ∨ outcome.stopReason = .contractFailure ∧
          ∃ message, outcome.error = some (js "session commit failure: " ++ message)) ∧
        (t.ownsCancellation = true → shared.cancellation.isSome = true →
          ∀ commit ∈ s.commits, commit.shared.aborted = false ∧ ∃ owner,
            s.shared.cancellation = some owner ∧ owner.aborted = false ∧
            owner.request = owner))
      (fun _ _ => True) := by
  refine triple_weaken (runAgentTurn_finishes t shared world) (fun _ hs => hs)
    (fun outcome s ⟨hs, _⟩ => ⟨hs.turnEnd, hs.once, hs.reason, ?_⟩) (fun _ _ hs => hs)
  intro howns howned commit hc
  obtain ⟨owner, hcommit, hsettled, hunfired, hfinal⟩ := hs.arbitrated howns howned commit hc
  refine ⟨?_, owner, hfinal, hunfired, TurnCancellationOwner.request_of_settled hsettled⟩
  unfold SharedState.aborted
  rw [hcommit]
  exact hunfired

/-- **A successful turn can be adopted.** With an `afterTool` hook that replaces only the text of
a result, a turn that returns ok has appended to the committed transcript exactly one turn of the
causal grammar, so that a proposal of it is not refused for its shape. -/
theorem successful_turn_is_adoptable (t : AgentTurn ω) (hook : ReplacesOnlyText t)
    (shared : SharedState) (world : ω) :
    Triple (TurnState.start shared world = ·) (runAgentTurn t)
      (fun outcome _ => outcome.ok = true → ∃ suffix,
        outcome.transcript = t.committedTranscript ++ suffix ∧
        causalTranscriptIndex suffix = some ⟨[⟨1, 0, suffix.length⟩], suffix.length⟩ ∧
        ∀ nextTurn, proposalSuffix nextTurn ⟨nextTurn + 1, suffix⟩ = some suffix)
      (fun _ _ => True) := by
  refine triple_weaken (runAgentTurn_finishes t shared world) (fun _ hs => hs)
    (fun outcome s ⟨_, hs⟩ hok => ?_) (fun _ _ hs => hs)
  obtain ⟨suffix, ht, hcomplete⟩ := hs hok hook
  exact ⟨suffix, ht, causalTranscriptIndex_complete hcomplete,
    proposalSuffix_complete hcomplete⟩

/-! ## A run with a terminal tool -/

/-- A tool that submits a fixed text. -/
def submitTool : Tool Unit where
  name := "submit"
  description := []
  inputSchema := .null
  terminal := true
  execute := fun _ _ world =>
    (.done (.ok (.execution (.terminate (js "submitted") (js "done") .jsonResult))), world)

/-- A turn whose model calls the submitting tool, with a hook that shortens every result and a
steering message that is admitted while the model generates. -/
def submittingTurn : AgentTurn Unit where
  task := js "go"
  committedTranscript := []
  model := ⟨fun _ _ world => (.act (.admitSteering (some (js "wait")))
    (.done (.ok (.result (.toolCalls [⟨"1", "submit", .null⟩] none none)))), world)⟩
  registry := { tools := [submitTool], named := by decide, distinct := by decide }
  maxSteps := none
  turn := none
  systemInstruction := none
  executionContext := none
  ownsCancellation := true
  diagnosticOwner := none
  turnProviderRequestCount := none
  runtimeProviderRequestCount := none
  eventSink := some fun _ _ world => (.done (.ok ()), world)
  commit := some fun _ _ world => (.act .requestCancellation (.done (.ok ())), world)
  projectParentRequest := none
  projectParentRequestWithSources := none
  requestMessageSource := none
  beforeTool := none
  afterTool := some fun input _ world =>
    (.done (.ok ⟨{ input.result with text := js "ok" }, none⟩), world)
  now := fun _ _ world => (.done (.ok 0), world)
  captureFailureDetails := fun _ _ _ => .null
  suspended := fun world => ([], world)

theorem submittingTurn_hook : ReplacesOnlyText submittingTurn := by
  intro hook h input shared world
  cases h
  exact ⟨js "ok", rfl⟩

/-- The submitting turn returns ok, and its messages are one turn. -/
theorem submittingTurn_adoptable :
    let start := TurnState.start ⟨some .create, none, some .create⟩ ()
    (run (runAgentTurn submittingTurn) start).1.toOption.map (·.ok) = some true ∧
    Triple (start = ·) (runAgentTurn submittingTurn)
      (fun outcome _ => outcome.ok = true → ∃ suffix, outcome.transcript = [] ++ suffix ∧
        causalTranscriptIndex suffix = some ⟨[⟨1, 0, suffix.length⟩], suffix.length⟩ ∧
        ∀ nextTurn, proposalSuffix nextTurn ⟨nextTurn + 1, suffix⟩ = some suffix)
      (fun _ _ => True) :=
  ⟨by decide +kernel,
    successful_turn_is_adoptable submittingTurn submittingTurn_hook _ ()⟩

end Loop

end Henji
