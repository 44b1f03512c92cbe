import Henji.Core.LoopEnd

/-!
# The end of a turn is single and consistent

`Unended` says that no `turn_end` has been offered and `commit` has not been called; `Ended` says
how a turn that returned has ended. Every finish function leads from the first to the second. The
arbitration is what makes a commit safe: it happens against an owner that left `active` for
`settled`, and no later action changes such an owner.

Results:
1. `finishCancelled_ends`, `finishContractFailure_ends`, `finishCleanupFailure_ends`: the failing
   ends, without a commit.
2. `finishNormal_ends`, `finishMaxSteps_ends`: the ends that may commit.
-/

namespace Henji

namespace Loop

variable {ω α β : Type}

/-! ## Properties that the loop's own writes keep -/

/-- The property depends on the shared state, the transcript, the offered events and the commits
only, and survives outside actions and every event but `turn_end`. -/
structure LoopStable (I : TurnState ω → Prop) : Prop where
  of_eq : ∀ s s' : TurnState ω, s'.shared = s.shared → s'.transcript = s.transcript →
    s'.offered = s.offered → s'.commits = s.commits → I s → I s'
  act : ∀ s action, I s → I (s.act action)
  offer : ∀ (s : TurnState ω) event, event.isTurnEnd = false → I s →
    I { s with offered := s.offered ++ [event] }

variable {I : TurnState ω → Prop}

theorem LoopStable.turnStable (hI : LoopStable I) : TurnStable I where
  world := fun s world hs => hI.of_eq s { s with world } rfl rfl rfl rfl hs
  act := hI.act

namespace LoopLemmas

open Effect

theorem keeps_modify_of_eq (hI : LoopStable I) (f : TurnState ω → TurnState ω)
    (h : ∀ s, (f s).shared = s.shared ∧ (f s).transcript = s.transcript ∧
      (f s).offered = s.offered ∧ (f s).commits = s.commits) :
    Keeps I (modify f : TurnEffect ω PUnit) :=
  keeps_modify f fun s hs => hI.of_eq s (f s) (h s).1 (h s).2.1 (h s).2.2.1 (h s).2.2.2 hs

theorem callOptional_keeps (hI : TurnStable I) (code : Option (Callback ω β α)) (input : β) :
    Keeps I (callOptional code input) := by
  cases code with
  | none => exact keeps_pure none
  | some code => exact keeps_bind (call_keeps hI code input) fun _ => keeps_pure _

theorem suspend_keeps (hI : TurnStable I) (t : AgentTurn ω) : Keeps I (suspend t) := by
  rw [keeps_iff]
  intro s hs
  show I ((t.suspended s.world).1.foldl _ _)
  generalize { s with world := (t.suspended s.world).2 } = s',
    (t.suspended s.world).1 = actions, hI.world s (t.suspended s.world).2 hs = hs'
  clear hs
  induction actions generalizing s' with
  | nil => exact hs'
  | cons action actions ih => exact ih (s'.act action) (hI.act s' action hs')

theorem deliverEvent_keeps (hI : LoopStable I) (t : AgentTurn ω) {event : LoopEvent}
    (he : event.isTurnEnd = false) : Keeps I (deliverEvent t event) := by
  refine keeps_bind (keeps_modify _ fun s hs => hI.offer s event he hs) fun _ => ?_
  cases t.eventSink with
  | none => exact keeps_pure ()
  | some sink =>
    refine keeps_bind (keeps_attempt (call_keeps hI.turnStable sink event)) fun ended => ?_
    cases ended with
    | ok _ => exact keeps_pure ()
    | error _ => exact keeps_throw _

theorem pushSource_keeps (hI : LoopStable I) (t : AgentTurn ω) (message : Message)
    (kind : RequestMessageSourceKind) (index : Nat) (modelStep : Option Nat) :
    Keeps I (pushSource t message kind index modelStep) :=
  keeps_bind (callOptional_keeps hI.turnStable _ _) fun _ =>
    keeps_modify_of_eq hI _ fun _ => ⟨rfl, rfl, rfl, rfl⟩

theorem pushCommittedSources_keeps (hI : LoopStable I) (t : AgentTurn ω) (index : Nat)
    (messages : List Message) : Keeps I (pushCommittedSources t index messages) := by
  induction messages generalizing index with
  | nil => exact keeps_pure ()
  | cons message messages ih =>
    exact keeps_bind (pushSource_keeps hI t message _ _ _) fun _ => ih (index + 1)

theorem terminalRequestCounts_keeps (hI : TurnStable I) (t : AgentTurn ω) :
    Keeps I (terminalRequestCounts t) :=
  keeps_bind (callOptional_keeps hI _ _) fun _ =>
    keeps_bind (callOptional_keeps hI _ _) fun _ => keeps_pure _

theorem diagnosticCount_keeps (hI : TurnStable I) (t : AgentTurn ω) (stage : String)
    (observed : Option FailureFact) : Keeps I (diagnosticCount t stage observed) := by
  refine keeps_bind (callOptional_keeps hI _ _) fun count => ?_
  cases count with
  | some count => exact keeps_pure _
  | none =>
    cases observed with
    | some fact => exact keeps_pure _
    | none =>
      exact keeps_ite (keeps_pure _)
        (keeps_bind (callOptional_keeps hI _ _) fun _ => keeps_pure _)

theorem diagnosticFor_keeps (hI : TurnStable I) (t : AgentTurn ω) (cause : Option Cause)
    (fallback : DiagnosticFallback) : Keeps I (diagnosticFor t cause fallback) := by
  unfold diagnosticFor
  cases t.diagnosticOwner with
  | none => exact keeps_pure _
  | some owner =>
    refine keeps_bind (call_keeps hI _ _) fun existing => ?_
    cases existing with
    | some existing => exact keeps_pure _
    | none =>
      refine keeps_bind (diagnosticCount_keeps hI t _ _) fun _ => keeps_bind keeps_get fun _ =>
        keeps_bind (keeps_attempt (call_keeps hI _ _)) fun recorded => ?_
      cases recorded with
      | ok diagnostic => exact keeps_pure _
      | error _ => exact call_keeps hI _ _

end LoopLemmas

open LoopLemmas

/-! ## Before and after the end -/

/-- The turn has not ended. The flag says whether the turn has a cancellation owner. -/
structure Unended (owned : Bool) (s : TurnState ω) : Prop where
  noEnd : ∀ event ∈ s.offered, event.isTurnEnd = false
  uncommitted : s.commits = []
  owner : s.shared.cancellation.isSome = owned

/-- The turn returned `outcome` and has ended. -/
structure Ended (t : AgentTurn ω) (owned : Bool) (outcome : LoopOutcome) (s : TurnState ω) :
    Prop where
  /-- One `turn_end`, last, with the outcome's stop reason; it says `committed` exactly when a
  supplied `commit` was called and returned. -/
  turnEnd : ∃ earlier committed counts diagnostic,
    s.offered = earlier ++
      [.turnEnd t.number outcome.stopReason committed counts diagnostic] ∧
    (∀ event ∈ earlier, event.isTurnEnd = false) ∧
    (committed = true ↔ t.commit.isSome = true ∧ ∃ commit ∈ s.commits, commit.returned = true)
  /-- At most one call of `commit`. -/
  once : s.commits.length ≤ 1
  /-- It is called only for an outcome that is ok, or failed in the commit. -/
  reason : s.commits ≠ [] → outcome.ok = true ∨ outcome.stopReason = .contractFailure ∧
    ∃ message, outcome.error = some (js "session commit failure: " ++ message)
  /-- When the loop owns the cancellation, `commit` is called with the signal unfired and the
  owner settled, and the owner stays as it is from there on. -/
  arbitrated : t.ownsCancellation = true → owned = true → ∀ commit ∈ s.commits,
    ∃ owner, commit.shared.cancellation = some owner ∧ owner.state = .settled ∧
      owner.aborted = false ∧ s.shared.cancellation = some owner

/-- What an error leaves: the error of a cancelled turn comes before the end. -/
def Escaped (owned : Bool) (error : Thrown) (s : TurnState ω) : Prop :=
  error = .turnCancelled → Unended owned s

theorem TurnState.isSome_act (s : TurnState ω) (action : OutsideAction) :
    (s.act action).shared.cancellation.isSome = s.shared.cancellation.isSome := by
  cases action <;> simp [TurnState.act, SharedState.act]

theorem unended_stable (owned : Bool) : LoopStable (Unended (ω := ω) owned) where
  of_eq := by
    rintro s s' hshared - hoffered hcommits ⟨h1, h2, h3⟩
    exact ⟨hoffered ▸ h1, hcommits ▸ h2, hshared ▸ h3⟩
  act := fun s action ⟨h1, h2, h3⟩ => ⟨h1, h2, (TurnState.isSome_act s action).trans h3⟩
  offer := by
    rintro s event he ⟨h1, h2, h3⟩
    refine ⟨fun other hother => ?_, h2, h3⟩
    rcases List.mem_append.mp hother with hother | hother
    · exact h1 other hother
    · rw [List.mem_singleton.mp hother]
      exact he

/-- A settled owner stays as it is, whatever is done outside. -/
theorem TurnState.cancellation_act {s : TurnState ω} {owner : TurnCancellationOwner}
    (h : s.shared.cancellation = some owner) (hs : owner.state = .settled)
    (action : OutsideAction) : (s.act action).shared.cancellation = some owner := by
  cases action with
  | requestCancellation =>
    show s.shared.cancellation.map (·.request) = some owner
    rw [h, Option.map_some, TurnCancellationOwner.request_of_settled hs]
  | markCleanupFailed =>
    show s.shared.cancellation.map (·.markCleanupFailed) = some owner
    rw [h, Option.map_some, TurnCancellationOwner.markCleanupFailed_of_settled hs]
  | abortSignal | admitSteering _ => exact h

theorem ended_stable (t : AgentTurn ω) (owned : Bool) (outcome : LoopOutcome) :
    TurnStable (Ended t owned outcome) where
  world := fun _ _ ⟨h1, h2, h3, h4⟩ => ⟨h1, h2, h3, h4⟩
  act := by
    rintro s action ⟨h1, h2, h3, h4⟩
    refine ⟨h1, h2, h3, fun ho hw commit hc => ?_⟩
    obtain ⟨owner, hcommit, hs, ha, hfinal⟩ := h4 ho hw commit hc
    exact ⟨owner, hcommit, hs, ha, TurnState.cancellation_act hfinal hs action⟩

/-! ## The failing ends -/

/-- The end of a turn that fails. -/
def Failed (t : AgentTurn ω) (owned : Bool) (outcome : LoopOutcome) (s : TurnState ω) : Prop :=
  Ended t owned outcome s ∧ outcome.ok = false

namespace LoopLemmas

open Effect

variable {t : AgentTurn ω} {owned : Bool}

/-- What is kept until the turn ends may be lost by any error but the cancelled one. -/
theorem escaped_of_keeps {m : TurnEffect ω α} (h : Keeps (Unended owned) m) :
    Triple (Unended owned) m (fun _ => Unended owned) (Escaped owned) :=
  triple_weaken h (fun _ hs => hs) (fun _ _ hs => hs) (fun _ _ hs _ => hs)

/-- The last event is delivered, or the turn throws a delivery error. -/
theorem deliverEnd_spec (owned : Bool) {P Q : TurnState ω → Prop} (hQ : TurnStable Q) (event : LoopEvent)
    (h : ∀ s : TurnState ω, P s → Q { s with offered := s.offered ++ [event] }) :
    Triple P (deliverEvent t event) (fun _ => Q) (Escaped owned) := by
  refine triple_bind (Q := fun _ => Q) (triple_modify _ h) fun _ => ?_
  cases t.eventSink with
  | none => exact triple_pure () fun _ hs => hs
  | some sink =>
    refine triple_bind (triple_attempt_keeps (call_keeps hQ sink event)) fun ended => ?_
    cases ended with
    | ok _ => exact triple_pure () fun _ hs => hs
    | error _ => exact triple_throw _ fun _ _ h => by cases h

theorem deliverFailure_spec (outcome : LoopOutcome) (hok : outcome.ok = false)
    (counts : RequestCounts) (diagnostic : Option FailureDiagnostic) :
    Triple (Unended owned)
      (deliverEvent t (.turnEnd t.number outcome.stopReason false counts diagnostic) >>=
        fun _ => pure outcome)
      (Failed t owned) (Escaped owned) := by
  refine triple_bind (Q := fun _ s => Ended t owned outcome s)
    (deliverEnd_spec owned (ended_stable t owned outcome) _ ?_)
    fun _ => triple_pure _ fun _ hs => ⟨hs, hok⟩
  rintro s ⟨h1, h2, -⟩
  refine ⟨⟨s.offered, false, counts, diagnostic, rfl, h1, ?_⟩, ?_, ?_, ?_⟩
  · simp [h2]
  · simp [h2]
  · exact fun h => absurd h2 h
  · simp [h2]

theorem endContractFailure_ends (error : JsText) (fallback : DiagnosticFallback) (cause : Cause) :
    Triple (Unended owned) (endContractFailure t error fallback cause) (Failed t owned)
      (Escaped owned) := by
  have hU := (unended_stable (ω := ω) owned).turnStable
  refine triple_bind (escaped_of_keeps (diagnosticFor_keeps hU t _ _))
    fun diagnostic => ?_
  refine triple_bind (escaped_of_keeps (terminalRequestCounts_keeps hU t))
    fun counts => ?_
  refine triple_get_bind fun s => ?_
  exact deliverFailure_spec (contractFailure t s error diagnostic counts) rfl counts diagnostic

theorem settleCancelled_keeps : Keeps (Unended owned) (settleCancelled t) := by
  refine keeps_modify _ fun s hs => ⟨hs.noEnd, hs.uncommitted, ?_⟩
  show (if t.ownsCancellation then s.shared.cancellation.map (·.settleCancelled)
    else s.shared.cancellation).isSome = owned
  split
  · rw [Option.isSome_map]
    exact hs.owner
  · exact hs.owner

end LoopLemmas

open LoopLemmas

section Ends

open Effect

variable {t : AgentTurn ω} {owned : Bool}

theorem finishCleanupFailure_ends (fallback : DiagnosticFallback) (cause : Cause) :
    Triple (Unended owned) (finishCleanupFailure t fallback cause) (Failed t owned)
      (Escaped owned) :=
  triple_bind (escaped_of_keeps
    (keeps_modify _ fun s hs => (unended_stable owned).act s _ hs))
    fun _ => endContractFailure_ends _ _ _

theorem finishCancelled_ends :
    Triple (Unended owned) (finishCancelled t) (Failed t owned) (Escaped owned) := by
  have hU := (unended_stable (ω := ω) owned).turnStable
  refine triple_get_bind fun _ => ?_
  split
  · exact finishCleanupFailure_ends _ _
  · refine triple_bind (escaped_of_keeps settleCancelled_keeps) fun _ => ?_
    refine triple_bind (escaped_of_keeps (diagnosticFor_keeps hU t _ _))
      fun diagnostic => ?_
    refine triple_get_bind fun s => ?_
    refine triple_bind (escaped_of_keeps (terminalRequestCounts_keeps hU t))
      fun counts => ?_
    exact deliverFailure_spec (cancelled t s diagnostic counts) rfl counts diagnostic

/-- What normal settlement leaves when it succeeds: the owner that the loop owns is `winner`,
settled with an unfired signal. -/
structure Won (t : AgentTurn ω) (owned : Bool) (winner : Option TurnCancellationOwner)
    (s : TurnState ω) : Prop where
  unended : Unended owned s
  winner : t.ownsCancellation = true → owned = true → ∃ owner, winner = some owner ∧
    owner.state = .settled ∧ owner.aborted = false ∧ s.shared.cancellation = some owner

theorem won_stable (winner : Option TurnCancellationOwner) :
    LoopStable (Won t owned winner) where
  of_eq := fun s s' hshared ht ho hc ⟨h1, h2⟩ =>
    ⟨(unended_stable owned).of_eq s s' hshared ht ho hc h1, hshared ▸ h2⟩
  act := by
    rintro s action ⟨h1, h2⟩
    refine ⟨(unended_stable owned).act s action h1, fun ho hw => ?_⟩
    obtain ⟨owner, hwin, hs, ha, hfinal⟩ := h2 ho hw
    exact ⟨owner, hwin, hs, ha, TurnState.cancellation_act hfinal hs action⟩
  offer := fun s event he ⟨h1, h2⟩ => ⟨(unended_stable owned).offer s event he h1, h2⟩

/-- Settlement either wins against every later request, or leaves the turn to the cancellation. -/
theorem settleNormally_spec :
    Triple (Unended owned) (settleNormally t)
      (fun won s => if won then ∃ winner, Won t owned winner s else Unended owned s)
      (Escaped owned) := by
  rintro s ⟨h1, h2, h3⟩
  cases hc : s.shared.cancellation with
  | none =>
    have hr : run (settleNormally t) s = (.ok true, s) := by simp [settleNormally, run, hc]
    rw [hr]
    refine ⟨none, ⟨h1, h2, h3⟩, fun _ hw => ?_⟩
    rw [hc, hw] at h3
    cases h3
  | some owner =>
    by_cases hown : t.ownsCancellation = true
    · have hr : run (settleNormally t) s = (.ok owner.trySettleNormally.1, { s with
          shared := { s.shared with cancellation := some owner.trySettleNormally.2 } }) := by
        simp [settleNormally, run, hc, hown]
      rw [hr]
      rw [hc] at h3
      cases hwon : owner.trySettleNormally.1 with
      | true =>
        obtain ⟨-, hs, ha⟩ := TurnCancellationOwner.trySettleNormally_spec hwon
        exact ⟨some owner.trySettleNormally.2, ⟨h1, h2, h3⟩, fun _ _ => ⟨_, rfl, hs, ha, rfl⟩⟩
      | false => exact ⟨h1, h2, h3⟩
    · have hr : run (settleNormally t) s = (.ok true, s) := by
        simp [settleNormally, run, hc, hown]
      rw [hr]
      exact ⟨none, ⟨h1, h2, h3⟩, fun ho _ => absurd ho hown⟩

theorem finishContractFailure_ends (error : JsText) (fallback : DiagnosticFallback)
    (cause : Cause) :
    Triple (Unended owned) (finishContractFailure t error fallback cause) (Failed t owned)
      (Escaped owned) := by
  refine triple_bind settleNormally_spec fun won => ?_
  cases won with
  | true =>
    exact triple_weaken (endContractFailure_ends error fallback cause)
      (fun s ⟨_, hs⟩ => hs.unended) (fun _ _ hs => hs) (fun _ _ hs => hs)
  | false => exact finishCancelled_ends

/-! ## The ends that may commit -/

/-- `commit` has been called once, by a turn that had won its settlement. -/
structure Committed (t : AgentTurn ω) (owned : Bool) (commit : CommitCall) (s : TurnState ω) :
    Prop where
  noEnd : ∀ event ∈ s.offered, event.isTurnEnd = false
  commits : s.commits = [commit]
  arbitrated : t.ownsCancellation = true → owned = true → ∃ owner,
    commit.shared.cancellation = some owner ∧ owner.state = .settled ∧ owner.aborted = false ∧
      s.shared.cancellation = some owner

theorem committed_stable (commit : CommitCall) : TurnStable (Committed t owned commit) where
  world := fun _ _ ⟨h1, h2, h3⟩ => ⟨h1, h2, h3⟩
  act := by
    rintro s action ⟨h1, h2, h3⟩
    refine ⟨h1, h2, fun ho hw => ?_⟩
    obtain ⟨owner, hcommit, hs, ha, hfinal⟩ := h3 ho hw
    exact ⟨owner, hcommit, hs, ha, TurnState.cancellation_act hfinal hs action⟩

theorem callCommit_spec (commit : Callback ω (List Message) Unit) (transcript : List Message)
    (winner : Option TurnCancellationOwner) :
    Triple (Won t owned winner) (callCommit commit transcript)
      (fun ended s => ∃ shared, Committed t owned ⟨transcript, shared, ended.isOk⟩ s)
      (fun _ _ => True) := by
  refine triple_read fun s₀ h₀ => ?_
  refine triple_bind (Q := fun _ => Won t owned winner) (triple_weaken
    (triple_attempt_keeps (call_keeps (won_stable winner).turnStable commit transcript))
    (fun s hs => hs ▸ h₀) (fun _ _ hs => hs) (fun _ _ hs => hs)) fun ended => ?_
  refine triple_bind (Q := fun _ s =>
    Committed t owned ⟨transcript, s₀.shared, ended.isOk⟩ s)
    (triple_modify _ fun s ⟨hs, hwin⟩ => ⟨hs.noEnd, ?_, fun ho hw => ?_⟩)
    fun _ => triple_pure _ fun s hs => ⟨s₀.shared, hs⟩
  · show s.commits ++ _ = _
    rw [hs.uncommitted]
    rfl
  · obtain ⟨owner, hw1, hs1, ha1, hf1⟩ := hwin ho hw
    obtain ⟨other, hw2, -, -, hf2⟩ := h₀.winner ho hw
    cases hw1.symm.trans hw2
    exact ⟨owner, hf2, hs1, ha1, hf1⟩

/-- The result of a settled turn: the turn has ended, and an ok result is the settled outcome. -/
def SettledAs (t : AgentTurn ω) (owned : Bool) (outcome result : LoopOutcome)
    (s : TurnState ω) : Prop :=
  Ended t owned result s ∧
    (result.ok = true → outcome.ok = true ∧ result.transcript = outcome.transcript)

theorem failed_settledAs {outcome result : LoopOutcome} {s : TurnState ω}
    (h : Failed t owned result s) : SettledAs t owned outcome result s :=
  ⟨h.1, fun hok => by rw [h.2] at hok; cases hok⟩

/-- The normal end of a turn without a commit. -/
theorem endNormal_uncommitted (outcome : LoopOutcome) (counts : RequestCounts)
    (diagnostic : Option FailureDiagnostic) (winner : Option TurnCancellationOwner) :
    Triple (Won t owned winner) (endNormal t outcome false counts diagnostic)
      (fun result s => result = outcome ∧ Ended t owned outcome s) (fun _ _ => True) := by
  refine triple_bind (Q := fun _ => Ended t owned outcome) (triple_weaken
    (deliverEnd_spec owned (P := Won t owned winner) (ended_stable t owned outcome) _ ?_)
    (fun _ hs => hs) (fun _ _ hs => hs) (fun _ _ _ => trivial))
    fun _ => triple_pure _ fun _ hs => ⟨rfl, hs⟩
  rintro s ⟨⟨h1, h2, -⟩, -⟩
  refine ⟨⟨s.offered, false, counts, diagnostic, rfl, h1, ?_⟩, ?_, ?_, ?_⟩
  · simp [h2]
  · simp [h2]
  · exact fun h => absurd h2 h
  · simp [h2]

/-- The end after a call of `commit`: normal when it returned, a failure when it threw. -/
theorem endCommitted_spec (owned : Bool) (outcome : LoopOutcome)
    (hcommit : t.commit.isSome = true)
    (transcript : List Message) (shared : SharedState) (returned : Bool)
    (hreason : outcome.ok = true ∧ returned = true ∨
      (outcome.ok = false ∧ returned = false ∧ outcome.stopReason = .contractFailure ∧
        ∃ message, outcome.error = some (js "session commit failure: " ++ message)))
    (counts : RequestCounts) (diagnostic : Option FailureDiagnostic) :
    Triple (Committed t owned ⟨transcript, shared, returned⟩)
      (deliverEvent t (.turnEnd t.number outcome.stopReason returned counts diagnostic) >>=
        fun _ => pure outcome)
      (fun result s => result = outcome ∧ Ended t owned outcome s) (fun _ _ => True) := by
  refine triple_bind (Q := fun _ => Ended t owned outcome) (triple_weaken
    (deliverEnd_spec owned (P := Committed t owned ⟨transcript, shared, returned⟩)
      (ended_stable t owned outcome) _ ?_)
    (fun _ hs => hs) (fun _ _ hs => hs) (fun _ _ _ => trivial))
    fun _ => triple_pure _ fun _ hs => ⟨rfl, hs⟩
  rintro s ⟨h1, h2, h3⟩
  refine ⟨⟨s.offered, returned, counts, diagnostic, rfl, h1, ?_⟩, ?_, ?_, ?_⟩
  · simp [h2, hcommit]
  · simp [h2]
  · intro _
    rcases hreason with ⟨hok, -⟩ | ⟨-, -, hstop, herror⟩
    · exact .inl hok
    · exact .inr ⟨hstop, herror⟩
  · intro ho hw commit hc
    rw [show s.commits = [⟨transcript, shared, returned⟩] from h2, List.mem_singleton] at hc
    rw [hc]
    exact h3 ho hw

theorem endCommitFailure_ends (hcommit : t.commit.isSome = true) (transcript : List Message)
    (shared : SharedState) (counts : RequestCounts) (error : Thrown) :
    Triple (Committed t owned ⟨transcript, shared, false⟩) (endCommitFailure t counts error)
      (fun result s => Ended t owned result s ∧ result.ok = false) (fun _ _ => True) := by
  refine triple_bind (triple_of_keeps (diagnosticFor_keeps (committed_stable _) t _ _)) fun diagnostic => ?_
  refine triple_get_bind fun s => ?_
  refine triple_weaken (endCommitted_spec owned
    (contractFailure t s (js "session commit failure: " ++ errorText error) diagnostic
      counts) hcommit transcript shared false (.inr ⟨rfl, rfl, rfl, _, rfl⟩) counts diagnostic)
    (fun _ hs => hs) (fun result s hs => ?_) (fun _ _ hs => hs)
  obtain ⟨rfl, hs⟩ := hs
  exact ⟨hs, rfl⟩

theorem endSettled_ends (outcome : LoopOutcome) (winner : Option TurnCancellationOwner) :
    Triple (Won t owned winner) (endSettled t outcome) (SettledAs t owned outcome)
      (fun _ _ => True) := by
  have hW : TurnStable (Won t owned winner) := (won_stable winner).turnStable
  refine triple_bind (triple_of_keeps (callOptional_keeps hW _ _)) fun owner => ?_
  refine triple_bind (triple_of_keeps (terminalRequestCounts_keeps hW t)) fun counts => ?_
  have huncommitted : Triple (Won t owned winner)
      (endNormal t (settledOutcome outcome counts owner.join) false counts owner.join)
      (SettledAs t owned outcome) (fun _ _ => True) := triple_weaken
    (endNormal_uncommitted (settledOutcome outcome counts owner.join) counts owner.join winner)
    (fun _ hs => hs)
    (fun _ _ ⟨hr, hs⟩ => ⟨hr ▸ hs, fun hok => by subst hr; exact ⟨hok, rfl⟩⟩) (fun _ _ hs => hs)
  dsimp only
  split
  · next hok =>
    have hok : outcome.ok = true := (Bool.and_eq_true_iff.mp hok).1
    cases hc : t.commit with
    | none => exact huncommitted
    | some commit =>
      refine triple_bind (callCommit_spec commit outcome.transcript winner) fun ended => ?_
      refine triple_exists fun shared => ?_
      cases ended with
      | ok _ =>
        refine triple_weaken (endCommitted_spec owned
          (settledOutcome outcome counts owner.join) (by rw [hc]; rfl)
          outcome.transcript shared true (.inl ⟨hok, rfl⟩) counts owner.join)
          (fun _ hs => hs) (fun result s hs => ?_) (fun _ _ hs => hs)
        obtain ⟨rfl, hs⟩ := hs
        exact ⟨hs, fun _ => ⟨hok, rfl⟩⟩
      | error error =>
        exact triple_weaken (endCommitFailure_ends (by rw [hc]; rfl) _ shared counts error)
          (fun _ hs => hs) (fun _ _ hs => failed_settledAs hs) (fun _ _ hs => hs)
  · exact huncommitted

/-- The normal end, unless a cancellation came first. -/
theorem finishNormal_ends (outcome : LoopOutcome) :
    Triple (Unended owned) (finishNormal t outcome) (SettledAs t owned outcome)
      (fun _ _ => True) := by
  refine triple_bind (Q := fun _ => Unended owned)
    (triple_modify _ fun s hs => ⟨hs.noEnd, hs.uncommitted, hs.owner⟩) fun _ => ?_
  refine triple_bind (triple_weaken settleNormally_spec (fun _ hs => hs) (fun _ _ hs => hs)
    (fun _ _ _ => trivial)) fun won => ?_
  cases won with
  | true => exact triple_exists fun winner => endSettled_ends outcome winner
  | false =>
    exact triple_weaken finishCancelled_ends (fun _ hs => hs)
      (fun _ _ hs => failed_settledAs hs) (fun _ _ _ => trivial)

theorem finishMaxSteps_ends :
    Triple (Unended owned) (finishMaxSteps t) (Failed t owned) (fun _ _ => True) := by
  have hU := (unended_stable (ω := ω) owned).turnStable
  refine triple_bind (triple_of_keeps aborted_keeps) fun stopped => ?_
  split
  · exact triple_weaken finishCancelled_ends (fun _ hs => hs) (fun _ _ hs => hs)
      (fun _ _ _ => trivial)
  · refine triple_bind (triple_of_keeps (diagnosticFor_keeps hU t _ _)) fun _ => ?_
    refine triple_get_bind fun s => ?_
    refine triple_weaken (finishNormal_ends (maxSteps t s)) (fun _ hs => hs)
      (fun result _ hs => ⟨hs.1, ?_⟩) (fun _ _ hs => hs)
    cases hok : result.ok with
    | false => rfl
    | true => cases (hs.2 hok).1

end Ends

end Loop

end Henji
