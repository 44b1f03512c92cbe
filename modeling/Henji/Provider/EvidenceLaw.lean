import Henji.Provider.EvidenceRecorder

/-!
# Whose facts they are

The recorder attributes a fact to the request that was started last. So the facts of a run are those of
their own requests where every call that reports has the request started last, and a step's result is
recorded while its last request is that one.
-/

namespace Henji

namespace ProviderEvidence

/-! ## Open requests -/

inductive Owner where
  | model
  | auxiliary (id : Nat)
deriving DecidableEq

/-- A request whose call goes on. -/
structure OpenRequest where
  ordinal : Nat
  answered : Bool
  modelStep : Nat
deriving DecidableEq

def EvidenceState.request (s : EvidenceState) : Owner → Option OpenRequest
  | .model =>
    match s.loop with
    | .generating _ (.requested ordinal _) => some ⟨ordinal, false, s.steps⟩
    | .generating _ (.answered ordinal _ _) => some ⟨ordinal, true, s.steps⟩
    | .generating _ (.retrying ordinal _) => some ⟨ordinal, true, s.steps⟩
    | _ => none
  | .auxiliary id =>
    match s.calls id with
    | some (.requested evidence ordinal) => some ⟨ordinal, false, evidence.modelStep⟩
    | some (.reading evidence ordinal) => some ⟨ordinal, true, evidence.modelStep⟩
    | some (.returned evidence ordinal) => some ⟨ordinal, true, evidence.modelStep⟩
    | _ => none

/-- The request of a call is the one that was started last. -/
def EvidenceState.Latest (s : EvidenceState) (owner : Owner) : Prop :=
  ∀ found ∈ s.request owner, OpenRequest.ordinal found = s.recorder.requestOrdinal

/-- What is reported is about the request that was started last. A model call that fails without a
request finds no active request of its step. -/
def Undisturbed (s : EvidenceState) : EvidenceEvent → Prop
  | .modelAnswer _ => s.Latest .model
  | .modelUsage _ => s.Latest .model
  | .modelTransition _ => s.Latest .model
  | .modelFail _ => s.Latest .model ∧
    (s.request .model = none → ∀ found ∈ s.recorder.activeRequest, ProviderRequest.modelStep found ≠ s.steps)
  | .modelReturn _ => s.Latest .model
  | .auxiliaryAnswer id _ => s.Latest (.auxiliary id)
  | .auxiliaryFail id _ => s.Latest (.auxiliary id)
  | .auxiliaryTransition id _ => s.Latest (.auxiliary id)
  | _ => True

instance (s : EvidenceState) (owner : Owner) : Decidable (s.Latest owner) :=
  inferInstanceAs (Decidable (∀ found ∈ s.request owner, _))

instance (s : EvidenceState) : (event : EvidenceEvent) → Decidable (Undisturbed s event)
  | .modelAnswer _ => inferInstanceAs (Decidable (s.Latest .model))
  | .modelUsage _ => inferInstanceAs (Decidable (s.Latest .model))
  | .modelTransition _ => inferInstanceAs (Decidable (s.Latest .model))
  | .modelFail _ => inferInstanceAs (Decidable (s.Latest .model ∧ _))
  | .modelReturn _ => inferInstanceAs (Decidable (s.Latest .model))
  | .auxiliaryAnswer id _ => inferInstanceAs (Decidable (s.Latest (.auxiliary id)))
  | .auxiliaryFail id _ => inferInstanceAs (Decidable (s.Latest (.auxiliary id)))
  | .auxiliaryTransition id _ => inferInstanceAs (Decidable (s.Latest (.auxiliary id)))
  | .generate _ _ => isTrue trivial
  | .modelStart _ _ _ => isTrue trivial
  | .modelProgress => isTrue trivial
  | .modelRetry => isTrue trivial
  | .modelStop => isTrue trivial
  | .toolEvent _ _ => isTrue trivial
  | .toolsDone => isTrue trivial
  | .stop => isTrue trivial
  | .auxiliary _ _ => isTrue trivial
  | .hook _ _ _ _ => isTrue trivial
  | .auxiliaryStart _ => isTrue trivial
  | .auxiliaryRefused _ => isTrue trivial
  | .auxiliaryRead _ => isTrue trivial
  | .setContext _ => isTrue trivial
  | .setEstimate _ => isTrue trivial

/-! ## What the history says -/

/-- The request that an observation names. -/
def Observation.requestOrdinal : Observation → Option Nat
  | .request_start request => some request.ordinal
  | .response_start ordinal _ => some ordinal
  | .request_usage ordinal _ => some ordinal
  | .parser_transition ordinal _ => some ordinal
  | .request_failure ordinal _ => some ordinal
  | .runtime_event _ attribution => attribution.requestOrdinal

def Fact.startedOrdinal : Fact → Option Nat
  | .started _ request => some request.ordinal
  | _ => none

/-- The fact reports a response of the request. -/
def Fact.isResponse (ordinal : Nat) : Fact → Bool
  | .reported _ (.response_start found _) => found == ordinal
  | _ => false

/-- The fact reports a failure of the request. -/
def Fact.isFailure (ordinal : Nat) : Fact → Bool
  | .reported _ (.request_failure found _) => found == ordinal
  | _ => false

def Fact.isFailed (ordinal : Nat) : Fact → Bool
  | .failed found => found == ordinal
  | _ => false

/-- The request that a step of the model starts. -/
def Fact.modelRequest (modelStep : Nat) : Fact → Option Nat
  | .started (.model step) request => if step = modelStep then some request.ordinal else none
  | _ => none

/-- The last physical request of a step of the model. -/
def lastModelRequest (modelStep : Nat) (history : List Fact) : Option Nat :=
  history.findSome? (Fact.modelRequest modelStep)

def EvidenceState.generating (s : EvidenceState) : Bool :=
  match s.loop with
  | .generating _ _ => true
  | _ => false

/-! ## What a step may do -/

/-- What a step that starts no request leaves. -/
structure Frame (s t : EvidenceState) : Prop where
  active : t.recorder.activeRequest = s.recorder.activeRequest
  ordinal : t.recorder.requestOrdinal = s.recorder.requestOrdinal
  steps : t.steps = s.steps
  working : ∀ attribution, t.loop = .working attribution → s.loop = .working attribution
  generating : t.generating = true → s.generating = true

/-- An observation that is neither a response nor a failure of a request. -/
def Observation.plain : Observation → Bool
  | .request_usage _ _ => true
  | .parser_transition _ _ => true
  | _ => false

inductive Change (s t : EvidenceState) : Prop
  | quiet : Frame s t → t.history = s.history →
      (∀ owner, t.request owner = none ∨ t.request owner = s.request owner) → Change s t
  | generated : t.recorder.activeRequest = s.recorder.activeRequest →
      t.recorder.requestOrdinal = s.recorder.requestOrdinal → t.steps = s.steps + 1 →
      (∀ attribution, t.loop ≠ .working attribution) → t.history = s.history →
      (∀ owner, t.request owner = none ∨ t.request owner = s.request owner) →
      t.request .model = none → Change s t
  | started {owner : Owner} {origin : Origin} {request : ProviderRequest} :
      t.recorder.activeRequest = some request →
      t.recorder.requestOrdinal = s.recorder.requestOrdinal + 1 →
      request.ordinal = s.recorder.requestOrdinal + 1 → request.lane = .parent → t.steps = s.steps →
      (∀ attribution, t.loop = .working attribution → s.loop = .working attribution) →
      (t.generating = true → s.generating = true) →
      t.history = .started origin request :: s.history →
      t.request owner = some ⟨request.ordinal, false, request.modelStep⟩ →
      (∀ other, other ≠ owner → t.request other = s.request other) →
      (owner = .model → origin = .model s.steps ∧ s.generating = true) →
      (owner ≠ .model → ∃ id, origin = .auxiliary id) → Change s t
  | answered {owner : Owner} {found : OpenRequest} {status : Nat} : Frame s t →
      s.request owner = some found → found.answered = false →
      t.request owner = some { found with answered := true } →
      (∀ other, other ≠ owner → t.request other = s.request other) →
      t.history = .reported (some found.ordinal) (.response_start found.ordinal status) :: s.history →
      Change s t
  | noted {owner : Owner} {found : OpenRequest} {observation : Observation} : Frame s t →
      s.request owner = some found → observation.requestOrdinal = some found.ordinal →
      observation.plain = true → (∀ other, t.request other = s.request other) →
      t.history = .reported (some found.ordinal) observation :: s.history → Change s t
  | failed {owner : Owner} {found : OpenRequest} {failure : RequestFailure} : Frame s t →
      s.request owner = some found → t.request owner = none →
      (∀ other, other ≠ owner → t.request other = s.request other) →
      t.history = .failed found.ordinal ::
        .reported (some found.ordinal) (.request_failure found.ordinal failure) :: s.history →
      Change s t
  | cancelled {found : OpenRequest} : Frame s t → s.request .model = some found →
      t.request .model = none → (∀ other, other ≠ .model → t.request other = s.request other) →
      t.history = .cancelled found.ordinal :: s.history → Change s t
  | progress {attribution : Attribution} : Frame s t → (∀ owner, t.request owner = s.request owner) →
      t.history = .runtime .assistant_progress attribution :: s.history → Change s t
  | result {found : OpenRequest} {attribution : Attribution} :
      t.recorder.activeRequest = s.recorder.activeRequest →
      t.recorder.requestOrdinal = s.recorder.requestOrdinal → t.steps = s.steps →
      (∀ other, t.loop = .working other → other = attribution) → t.generating = false →
      s.request .model = some found → attribution = ⟨s.steps, some .parent, some found.ordinal⟩ →
      t.request .model = none → (∀ other, other ≠ .model → t.request other = s.request other) →
      t.history = .runtime .model_result attribution :: s.history → Change s t
  | tool {attribution : Attribution} {kind : ToolKind} {callIndex : Nat} : Frame s t →
      s.loop = .working attribution → (∀ owner, t.request owner = s.request owner) →
      t.history = .runtime (.tool kind callIndex) attribution :: s.history → Change s t

/-- What every state satisfies where what is reported is about the request started last. -/
structure EvidenceLaw (initial : Nat) (s : EvidenceState) : Prop where
  active : ∀ request, s.recorder.activeRequest = some request →
    request.ordinal = s.recorder.requestOrdinal
  present : initial < s.recorder.requestOrdinal → s.recorder.activeRequest ≠ none
  started : ∃ count, s.recorder.requestOrdinal = initial + count ∧
    s.history.filterMap Fact.startedOrdinal = (List.range' (initial + 1) count).reverse
  bound : ∀ owner found, s.request owner = some found →
    initial < found.ordinal ∧ found.ordinal ≤ s.recorder.requestOrdinal
  owned : ∀ owner found request, s.request owner = some found →
    s.recorder.activeRequest = some request → found.ordinal = request.ordinal →
    request.modelStep = found.modelStep ∧ request.lane = .parent
  distinct : ∀ owner other found second, s.request owner = some found → s.request other = some second →
    found.ordinal = second.ordinal → owner = other
  attributed : ∀ cause observation, .reported cause observation ∈ s.history →
    ∃ ordinal, cause = some ordinal ∧ observation.requestOrdinal = some ordinal
  responses : ∀ ordinal, s.history.countP (Fact.isResponse ordinal) ≤ 1
  waiting : ∀ owner found, s.request owner = some found → found.answered = false →
    s.history.countP (Fact.isResponse found.ordinal) = 0
  failures : ∀ ordinal, s.history.countP (Fact.isFailure ordinal) =
    s.history.countP (Fact.isFailed ordinal)
  failedOnce : ∀ ordinal, s.history.countP (Fact.isFailed ordinal) ≤ 1
  unfailed : ∀ owner found, s.request owner = some found →
    s.history.countP (Fact.isFailed found.ordinal) = 0
  future : ∀ ordinal, s.recorder.requestOrdinal < ordinal →
    s.history.countP (Fact.isResponse ordinal) = 0 ∧ s.history.countP (Fact.isFailed ordinal) = 0
  cancelled : ∀ ordinal, .cancelled ordinal ∈ s.history →
    s.history.countP (Fact.isFailed ordinal) = 0 ∧ ordinal ≤ s.recorder.requestOrdinal ∧
      ∀ owner found, s.request owner = some found → found.ordinal ≠ ordinal
  model : ∀ found, s.request .model = some found →
    lastModelRequest s.steps s.history = some found.ordinal
  working : ∀ attribution, s.loop = .working attribution →
    attribution.modelStep = s.steps ∧ ∃ ordinal, attribution.requestOrdinal = some ordinal ∧
      lastModelRequest s.steps s.history = some ordinal
  results : ∀ kind attribution, .runtime kind attribution ∈ s.history → kind ≠ .assistant_progress →
    attribution.modelStep ≤ s.steps ∧ (s.generating = true → attribution.modelStep < s.steps) ∧
      ∃ ordinal, attribution.requestOrdinal = some ordinal ∧
        lastModelRequest attribution.modelStep s.history = some ordinal

theorem EvidenceLaw.initial (initial : Nat) : EvidenceLaw initial (EvidenceState.initial initial) where
  active := by
    intro request hrequest
    cases hrequest
  present := fun h => absurd h (Nat.lt_irrefl _)
  started := ⟨0, rfl, rfl⟩
  bound := by
    intro owner found hfound
    cases owner <;> cases hfound
  owned := by
    intro owner found request hfound
    cases owner <;> cases hfound
  distinct := by
    intro owner other found second hfound
    cases owner <;> cases hfound
  attributed := by
    intro cause observation hmem
    cases hmem
  responses := by
    intro ordinal
    exact Nat.zero_le 1
  waiting := by
    intro owner found hfound
    cases owner <;> cases hfound
  failures := by
    intro ordinal
    rfl
  failedOnce := by
    intro ordinal
    exact Nat.zero_le 1
  unfailed := by
    intro owner found hfound
    cases owner <;> cases hfound
  future := by
    intro ordinal _
    exact ⟨rfl, rfl⟩
  cancelled := by
    intro ordinal hmem
    cases hmem
  model := by
    intro found hfound
    cases hfound
  working := by
    intro attribution hworking
    cases hworking
  results := by
    intro kind attribution hmem
    cases hmem

/-! ## What the recorder says of the active request -/

section Reports

variable {initial : Nat} {s : EvidenceState} {owner : Owner} {found : OpenRequest}

/-- The request that was started last is active. -/
theorem EvidenceLaw.latest (h : EvidenceLaw initial s) (hfound : s.request owner = some found)
    (hlatest : s.Latest owner) :
    ∃ request, s.recorder.activeRequest = some request ∧ request.ordinal = found.ordinal ∧
      request.modelStep = found.modelStep ∧ request.lane = .parent := by
  have hlast : found.ordinal = s.recorder.requestOrdinal := hlatest found hfound
  have hbound := h.bound owner found hfound
  cases hactive : s.recorder.activeRequest with
  | none => exact absurd hactive (h.present (by omega))
  | some request =>
    have hordinal := h.active request hactive
    obtain ⟨hstep, hlane⟩ := h.owned owner found request hfound hactive (by omega)
    exact ⟨request, rfl, by omega, hstep, hlane⟩

theorem EvidenceLaw.recordResponse (h : EvidenceLaw initial s) (hfound : s.request owner = some found)
    (hlatest : s.Latest owner) (status : Nat) :
    s.recorder.recordResponse status = some (.response_start found.ordinal status) := by
  obtain ⟨request, hactive, hordinal, _⟩ := h.latest hfound hlatest
  simp [Recorder.recordResponse, hactive, hordinal]

theorem EvidenceLaw.recordRequestFailure (h : EvidenceLaw initial s)
    (hfound : s.request owner = some found) (hlatest : s.Latest owner) (failure : RequestFailure) :
    s.recorder.recordRequestFailure failure (some found.modelStep) =
      some (.request_failure found.ordinal failure) := by
  obtain ⟨request, hactive, hordinal, hstep, _⟩ := h.latest hfound hlatest
  simp [Recorder.recordRequestFailure, hactive, hordinal, hstep]

theorem EvidenceLaw.recordUsage (h : EvidenceLaw initial s) (hfound : s.request owner = some found)
    (hlatest : s.Latest owner) (value : Option UsageValue) :
    s.recorder.recordUsage value = none ∨
      ∃ usage, s.recorder.recordUsage value = some (.request_usage found.ordinal usage) := by
  obtain ⟨request, hactive, hordinal, _⟩ := h.latest hfound hlatest
  rw [← hordinal]
  cases value with
  | none => exact .inl (by simp [Recorder.recordUsage])
  | some value =>
    simp only [Recorder.recordUsage, hactive]
    split
    · exact .inl rfl
    · exact .inr ⟨_, rfl⟩

theorem EvidenceLaw.recordParserTransition (h : EvidenceLaw initial s)
    (hfound : s.request owner = some found) (hlatest : s.Latest owner) (failure : ParserFailure) :
    ∃ ordinal, s.recorder.recordParserTransition failure =
      ({ s.recorder with parserTransitionOrdinal := ordinal },
        some (.parser_transition found.ordinal ⟨ordinal, failure⟩)) := by
  obtain ⟨request, hactive, hordinal, _⟩ := h.latest hfound hlatest
  rw [← hordinal]
  exact ⟨s.recorder.parserTransitionOrdinal + 1, by simp [Recorder.recordParserTransition, hactive]⟩

theorem EvidenceLaw.modelAttribution (h : EvidenceLaw initial s)
    (hfound : s.request owner = some found) (hlatest : s.Latest owner) :
    s.recorder.modelAttribution found.modelStep (some .parent) =
      ⟨found.modelStep, some .parent, some found.ordinal⟩ := by
  obtain ⟨request, hactive, hordinal, hstep, hlane⟩ := h.latest hfound hlatest
  simp [Recorder.modelAttribution, hactive, hordinal, hstep, hlane]

end Reports

/-! ## Every step is such a change -/

section Steps

variable {initial : Nat} {s t : EvidenceState}

theorem setCall_request_other {id : Nat} {phase : AuxiliaryPhase} {other : Owner}
    (h : other ≠ .auxiliary id) : (s.setCall id phase).request other = s.request other := by
  cases other with
  | model => rfl
  | auxiliary found =>
    have hne : found ≠ id := fun heq => h (heq ▸ rfl)
    simp [EvidenceState.request, EvidenceState.setCall, hne]

theorem request_other {other : Owner} (hother : other ≠ .model) (hcalls : t.calls = s.calls) :
    t.request other = s.request other := by
  cases other with
  | model => exact absurd rfl hother
  | auxiliary id => simp [EvidenceState.request, hcalls]

/-- A call that moves on without a report. -/
theorem Change.moved {id : Nat} {phase : AuxiliaryPhase}
    (h : (s.setCall id phase).request (.auxiliary id) = none ∨
      (s.setCall id phase).request (.auxiliary id) = s.request (.auxiliary id)) :
    Change s (s.setCall id phase) := by
  refine .quiet ⟨rfl, rfl, rfl, fun _ h => h, fun h => h⟩ rfl ?_
  intro owner
  by_cases howner : owner = .auxiliary id
  · exact howner ▸ h
  · exact .inr (setCall_request_other howner)

theorem modelStarted_change {adapter : Adapter} {phase : ModelPhase} {endpoint method : String}
    {requestMetadata : Metadata} (hloop : s.loop = .generating adapter phase)
    (h : modelStarted s adapter (modelRequestStart s.steps endpoint method requestMetadata) phase =
      some t) : Change s t := by
  have hgenerating : s.generating = true := by rw [EvidenceState.generating, hloop]
  have started : ∀ requestCount,
      Change s { s.start (.model s.steps) (modelRequestStart s.steps endpoint method requestMetadata) with
        loop := .generating adapter (.requested (s.recorder.requestOrdinal + 1) requestCount) } := by
    intro requestCount
    exact .started rfl rfl rfl rfl rfl (fun _ h => absurd h (by simp)) (fun _ => hgenerating) rfl
      (show _ = some _ from rfl) (fun _ hother => request_other hother rfl)
      (fun _ => ⟨rfl, hgenerating⟩) (fun h => absurd rfl h)
  match phase with
  | .building => exact Option.some.inj h ▸ started _
  | .retrying _ _ => exact Option.some.inj h ▸ started _

theorem modelFailed_change (law : EvidenceLaw initial s) {adapter : Adapter} {phase : ModelPhase}
    {failure : RequestFailure} (hloop : s.loop = .generating adapter phase)
    (hundisturbed : Undisturbed s (.modelFail failure)) (h : modelFailed s adapter failure phase = some t) :
    Change s t := by
  have hgenerating : s.generating = true := by rw [EvidenceState.generating, hloop]
  have failed : ∀ found, s.request .model = some found → found.modelStep = s.steps →
      Change s { (s.fail found.ordinal (s.recorder.recordRequestFailure failure (some s.steps))) with
        loop := .ended } := by
    intro found hfound hstep
    have hrecorded := law.recordRequestFailure hfound hundisturbed.1 failure
    rw [hstep] at hrecorded
    rw [hrecorded]
    exact .failed ⟨rfl, rfl, rfl, fun _ h => absurd h (by simp), fun _ => hgenerating⟩ hfound rfl
      (fun _ hother => request_other hother rfl) rfl
  match phase with
  | .building =>
    rw [modelFailed] at h
    split at h
    · -- the failure is dropped: the active request is not of this step
      have hnone : s.request .model = none := by simp [EvidenceState.request, hloop]
      have hdropped : s.recorder.recordRequestFailure failure (some s.steps) = none := by
        cases hactive : s.recorder.activeRequest with
        | none => simp [Recorder.recordRequestFailure, hactive]
        | some request =>
          have hstep := hundisturbed.2 hnone request hactive
          simp [Recorder.recordRequestFailure, hactive, Ne.symm hstep]
      rw [← Option.some.inj h, hdropped]
      refine .quiet ⟨rfl, rfl, rfl, fun _ h => absurd h (by simp), fun _ => hgenerating⟩ rfl ?_
      intro owner
      cases owner with
      | model => exact .inl rfl
      | auxiliary id => exact .inr rfl
    · exact absurd h (by simp)
  | .requested ordinal requestCount =>
    exact Option.some.inj h ▸ failed ⟨ordinal, false, s.steps⟩ (by simp [EvidenceState.request, hloop]) rfl
  | .answered ordinal requestCount status =>
    exact Option.some.inj h ▸ failed ⟨ordinal, true, s.steps⟩ (by simp [EvidenceState.request, hloop]) rfl
  | .retrying ordinal requestCount =>
    exact Option.some.inj h ▸ failed ⟨ordinal, true, s.steps⟩ (by simp [EvidenceState.request, hloop]) rfl

theorem modelReturn_change (law : EvidenceLaw initial s) {adapter : Adapter}
    {ordinal requestCount status : Nat} {final : Bool}
    (hloop : s.loop = .generating adapter (.answered ordinal requestCount status))
    (hlatest : s.Latest .model) (h : s.step (.modelReturn final) = some t) : Change s t := by
  have hfound : s.request .model = some ⟨ordinal, true, s.steps⟩ := by
    simp [EvidenceState.request, hloop]
  have hattribution := law.modelAttribution hfound hlatest
  simp only [EvidenceState.step, hloop, Recorder.recordModelResult] at h
  simp only at hattribution
  rw [hattribution] at h
  cases final with
  | true =>
    rw [← Option.some.inj h]
    exact .result rfl rfl rfl (fun _ h => absurd h (by simp)) rfl hfound rfl rfl
      (fun _ hother => request_other hother rfl) rfl
  | false =>
    rw [← Option.some.inj h]
    exact .result rfl rfl rfl (fun _ h => (LoopPhase.working.inj h).symm) rfl hfound rfl rfl
      (fun _ hother => request_other hother rfl) rfl

theorem auxiliary_change (law : EvidenceLaw initial s) {id : Nat} {found : OpenRequest}
    {phase : AuxiliaryPhase} {status : Nat} (hfound : s.request (.auxiliary id) = some found)
    (hanswered : found.answered = false) (hlatest : s.Latest (.auxiliary id))
    (hphase : ((s.report (some found.ordinal) (s.recorder.recordResponse status)).setCall id
      phase).request (.auxiliary id) = some { found with answered := true }) :
    Change s ((s.report (some found.ordinal) (s.recorder.recordResponse status)).setCall id phase) := by
  rw [law.recordResponse hfound hlatest status] at hphase ⊢
  exact .answered ⟨rfl, rfl, rfl, fun _ h => h, fun h => h⟩ hfound hanswered hphase
    (fun other hother => (setCall_request_other hother).trans (by cases other <;> rfl)) rfl

theorem auxiliaryFail_change (law : EvidenceLaw initial s) {id : Nat} {found : OpenRequest}
    {failure : RequestFailure} (hfound : s.request (.auxiliary id) = some found)
    (hlatest : s.Latest (.auxiliary id)) :
    Change s ((s.fail found.ordinal
      (s.recorder.recordRequestFailure failure (some found.modelStep))).setCall id .ended) := by
  rw [law.recordRequestFailure hfound hlatest failure]
  exact .failed ⟨rfl, rfl, rfl, fun _ h => h, fun h => h⟩ hfound
    (by simp [EvidenceState.request, EvidenceState.setCall])
    (fun other hother => (setCall_request_other hother).trans (by cases other <;> rfl)) rfl

/-- The recorder notes a failure of the parser. -/
theorem transition_change (law : EvidenceLaw initial s) {owner : Owner} {found : OpenRequest}
    (failure : ParserFailure) (hfound : s.request owner = some found) (hlatest : s.Latest owner) :
    Change s { s.report (some found.ordinal) (s.recorder.recordParserTransition failure).2 with
      recorder := (s.recorder.recordParserTransition failure).1 } := by
  obtain ⟨ordinal, hrecorded⟩ := law.recordParserTransition hfound hlatest failure
  rw [hrecorded]
  refine .noted ⟨rfl, rfl, rfl, fun _ h => h, fun h => h⟩ hfound rfl rfl ?_ rfl
  intro other
  cases other <;> rfl

theorem step_change (law : EvidenceLaw initial s) {event : EvidenceEvent}
    (hundisturbed : Undisturbed s event) (h : s.step event = some t) : Change s t := by
  cases event with
  | generate adapter contextRequestOrdinal =>
    simp only [EvidenceState.step] at h
    split at h
    · rw [← Option.some.inj h]
      refine .generated rfl rfl rfl (fun _ h => by simp at h) rfl ?_ rfl
      intro owner
      cases owner with
      | model => exact .inl rfl
      | auxiliary id => exact .inr rfl
    · exact absurd h (by simp)
  | modelStart endpoint method requestMetadata =>
    simp only [EvidenceState.step] at h
    split at h
    · next hloop => exact modelStarted_change hloop h
    · exact absurd h (by simp)
  | modelAnswer status =>
    simp only [EvidenceState.step] at h
    split at h
    · next adapter ordinal requestCount hloop =>
      have hfound : s.request .model = some ⟨ordinal, false, s.steps⟩ := by
        simp [EvidenceState.request, hloop]
      rw [← Option.some.inj h, law.recordResponse hfound hundisturbed status]
      have hgenerating : s.generating = true := by rw [EvidenceState.generating, hloop]
      exact .answered ⟨rfl, rfl, rfl, fun _ h => absurd h (by simp), fun _ => hgenerating⟩ hfound rfl rfl
        (fun _ hother => request_other hother rfl) rfl
    · exact absurd h (by simp)
  | modelProgress =>
    simp only [EvidenceState.step] at h
    split at h
    · rw [← Option.some.inj h]
      refine .progress ⟨rfl, rfl, rfl, fun _ h => h, fun h => h⟩ ?_ rfl
      intro owner
      cases owner <;> rfl
    · exact absurd h (by simp)
  | modelUsage value =>
    simp only [EvidenceState.step] at h
    split at h
    · next adapter ordinal requestCount status hloop =>
      have hfound : s.request .model = some ⟨ordinal, true, s.steps⟩ := by
        simp [EvidenceState.request, hloop]
      rw [← Option.some.inj h]
      rcases law.recordUsage hfound hundisturbed value with hnone | ⟨usage, husage⟩
      · rw [hnone]
        exact .quiet ⟨rfl, rfl, rfl, fun _ h => h, fun h => h⟩ rfl (fun owner => by
          cases owner <;> exact .inr rfl)
      · rw [husage]
        refine .noted ⟨rfl, rfl, rfl, fun _ h => h, fun h => h⟩ hfound rfl rfl ?_ rfl
        intro owner
        cases owner <;> rfl
    · exact absurd h (by simp)
  | modelTransition failure =>
    simp only [EvidenceState.step] at h
    split at h
    · next adapter ordinal requestCount status hloop =>
      have hfound : s.request .model = some ⟨ordinal, true, s.steps⟩ := by
        simp [EvidenceState.request, hloop]
      rw [← Option.some.inj h]
      exact transition_change law failure hfound hundisturbed
    · exact absurd h (by simp)
  | modelRetry =>
    simp only [EvidenceState.step] at h
    split at h
    · next adapter ordinal requestCount status hloop =>
      split at h
      · rw [← Option.some.inj h]
        have hgenerating : s.generating = true := by rw [EvidenceState.generating, hloop]
        refine .quiet ⟨rfl, rfl, rfl, fun _ h => absurd h (by simp), fun _ => hgenerating⟩ rfl ?_
        intro owner
        cases owner with
        | model => exact .inr (by simp [EvidenceState.request, hloop])
        | auxiliary id => exact .inr rfl
      · exact absurd h (by simp)
    · exact absurd h (by simp)
  | modelFail failure =>
    simp only [EvidenceState.step] at h
    split at h
    · next hloop => exact modelFailed_change law hloop hundisturbed h
    · exact absurd h (by simp)
  | modelStop =>
    simp only [EvidenceState.step] at h
    split at h
    · next adapter phase hloop =>
      rw [← Option.some.inj h]
      have hframe : Frame s { s with
          loop := .ended
          history := (phase.ordinal.map Fact.cancelled).toList ++ s.history } :=
        ⟨rfl, rfl, rfl, fun _ h => absurd h (by simp), fun h => absurd h (by simp [EvidenceState.generating])⟩
      cases hphase : phase.ordinal with
      | none =>
        refine .quiet (hphase ▸ hframe) rfl ?_
        intro owner
        cases owner with
        | model => exact .inl rfl
        | auxiliary id => exact .inr rfl
      | some ordinal =>
        obtain ⟨found, hfound, hordinal⟩ : ∃ found, s.request .model = some found ∧
            found.ordinal = ordinal := by
          cases phase with
          | building => cases hphase
          | requested sent _ =>
            exact ⟨⟨sent, false, s.steps⟩, by simp [EvidenceState.request, hloop], Option.some.inj hphase⟩
          | answered sent _ _ =>
            exact ⟨⟨sent, true, s.steps⟩, by simp [EvidenceState.request, hloop], Option.some.inj hphase⟩
          | retrying sent _ =>
            exact ⟨⟨sent, true, s.steps⟩, by simp [EvidenceState.request, hloop], Option.some.inj hphase⟩
        exact .cancelled (hphase ▸ hframe) hfound rfl (fun _ hother => request_other hother rfl)
          (by rw [hordinal]; rfl)
    · exact absurd h (by simp)
  | modelReturn final =>
    have hcopy := h
    simp only [EvidenceState.step] at h
    split at h
    · next hloop => exact modelReturn_change law hloop hundisturbed hcopy
    · exact absurd h (by simp)
  | toolEvent kind callIndex =>
    simp only [EvidenceState.step] at h
    split at h
    · next attribution hloop =>
      rw [← Option.some.inj h]
      refine .tool ⟨rfl, rfl, rfl, fun _ h => h, fun h => h⟩ hloop ?_ rfl
      intro owner
      cases owner <;> rfl
    · exact absurd h (by simp)
  | toolsDone =>
    simp only [EvidenceState.step] at h
    split at h
    · rw [← Option.some.inj h]
      refine .quiet ⟨rfl, rfl, rfl, fun _ h => absurd h (by simp), fun h => absurd h (by simp [EvidenceState.generating])⟩ rfl ?_
      intro owner
      cases owner with
      | model => exact .inl rfl
      | auxiliary id => exact .inr rfl
    · exact absurd h (by simp)
  | stop =>
    simp only [EvidenceState.step] at h
    split at h
    · exact absurd h (by simp)
    · rw [← Option.some.inj h]
      refine .quiet ⟨rfl, rfl, rfl, fun _ h => absurd h (by simp), fun h => absurd h (by simp [EvidenceState.generating])⟩ rfl ?_
      intro owner
      cases owner with
      | model => exact .inl rfl
      | auxiliary id => exact .inr rfl
  | auxiliary id evidence =>
    simp only [EvidenceState.step] at h
    split at h
    · rw [← Option.some.inj h]
      exact .moved (.inl (by simp [EvidenceState.request, EvidenceState.setCall]))
    · exact absurd h (by simp)
  | hook id endpoint method requestMetadata =>
    simp only [EvidenceState.step] at h
    split at h
    · rw [← Option.some.inj h]
      exact .moved (.inl (by simp [EvidenceState.request, EvidenceState.setCall]))
    · exact absurd h (by simp)
  | auxiliaryStart id =>
    simp only [EvidenceState.step] at h
    split at h
    · rw [← Option.some.inj h]
      refine .started rfl rfl rfl rfl rfl (fun _ h => h) (fun h => h) rfl
        (by simp [EvidenceState.request, EvidenceState.setCall]; exact ⟨rfl, rfl⟩)
        (fun other hother => (setCall_request_other hother).trans (by cases other <;> rfl))
        (fun h => absurd h (by simp)) (fun _ => ⟨id, rfl⟩)
    · exact absurd h (by simp)
  | auxiliaryRefused id =>
    simp only [EvidenceState.step] at h
    split at h
    · rw [← Option.some.inj h]
      exact .moved (.inl (by simp [EvidenceState.request, EvidenceState.setCall]))
    · exact absurd h (by simp)
  | auxiliaryAnswer id status =>
    simp only [EvidenceState.step] at h
    split at h
    · next evidence ordinal hcall =>
      have hfound : s.request (.auxiliary id) = some ⟨ordinal, false, evidence.modelStep⟩ := by
        simp [EvidenceState.request, hcall]
      rw [← Option.some.inj h]
      exact auxiliary_change law hfound rfl hundisturbed
        (by simp [EvidenceState.request, EvidenceState.setCall])
    · exact absurd h (by simp)
  | auxiliaryRead id =>
    simp only [EvidenceState.step] at h
    split at h
    · next evidence ordinal hcall =>
      rw [← Option.some.inj h]
      exact .moved (.inr (by simp [EvidenceState.request, EvidenceState.setCall, hcall]))
    · exact absurd h (by simp)
  | auxiliaryFail id failure =>
    simp only [EvidenceState.step] at h
    split at h
    · next evidence ordinal hcall =>
      have hfound : s.request (.auxiliary id) = some ⟨ordinal, false, evidence.modelStep⟩ := by
        simp [EvidenceState.request, hcall]
      rw [← Option.some.inj h]
      exact auxiliaryFail_change law hfound hundisturbed
    · next evidence ordinal hcall =>
      have hfound : s.request (.auxiliary id) = some ⟨ordinal, true, evidence.modelStep⟩ := by
        simp [EvidenceState.request, hcall]
      rw [← Option.some.inj h]
      exact auxiliaryFail_change law hfound hundisturbed
    · exact absurd h (by simp)
  | auxiliaryTransition id failure =>
    simp only [EvidenceState.step] at h
    split at h
    · next evidence ordinal hcall =>
      have hfound : s.request (.auxiliary id) = some ⟨ordinal, true, evidence.modelStep⟩ := by
        simp [EvidenceState.request, hcall]
      rw [← Option.some.inj h]
      exact transition_change law failure hfound hundisturbed
    · exact absurd h (by simp)
  | setContext contextRequestOrdinal =>
    rw [← Option.some.inj h]
    exact .quiet ⟨rfl, rfl, rfl, fun _ h => h, fun h => h⟩ rfl (fun owner => by
      cases owner <;> exact .inr rfl)
  | setEstimate tokens =>
    rw [← Option.some.inj h]
    exact .quiet ⟨rfl, rfl, rfl, fun _ h => h, fun h => h⟩ rfl (fun owner => by
      cases owner <;> exact .inr rfl)

end Steps

/-! ## The law is kept -/

section Kept

variable {initial : Nat} {s t : EvidenceState}

/-- The active request stays or is the new one. -/
theorem Change.active (h : Change s t) :
    (t.recorder.activeRequest = s.recorder.activeRequest ∧
      t.recorder.requestOrdinal = s.recorder.requestOrdinal) ∨
    ∃ request, t.recorder.activeRequest = some request ∧
      request.ordinal = s.recorder.requestOrdinal + 1 ∧
      t.recorder.requestOrdinal = s.recorder.requestOrdinal + 1 := by
  cases h with
  | quiet frame _ _ => exact .inl ⟨frame.active, frame.ordinal⟩
  | generated hactive hordinal _ _ _ _ _ => exact .inl ⟨hactive, hordinal⟩
  | started hactive hordinal hrequest _ _ _ _ _ _ _ _ _ => exact .inr ⟨_, hactive, hrequest, hordinal⟩
  | answered frame _ _ _ _ _ => exact .inl ⟨frame.active, frame.ordinal⟩
  | noted frame _ _ _ _ _ => exact .inl ⟨frame.active, frame.ordinal⟩
  | failed frame _ _ _ _ => exact .inl ⟨frame.active, frame.ordinal⟩
  | cancelled frame _ _ _ _ => exact .inl ⟨frame.active, frame.ordinal⟩
  | progress frame _ _ => exact .inl ⟨frame.active, frame.ordinal⟩
  | result hactive hordinal _ _ _ _ _ _ _ _ => exact .inl ⟨hactive, hordinal⟩
  | tool frame _ _ _ => exact .inl ⟨frame.active, frame.ordinal⟩

/-- An open request was open before, or is the one that the step starts. -/
theorem Change.request (h : Change s t) {owner : Owner} {found : OpenRequest}
    (hfound : t.request owner = some found) :
    (∃ old, s.request owner = some old ∧ old.ordinal = found.ordinal ∧
      old.modelStep = found.modelStep ∧ (found.answered = false → old.answered = false)) ∨
    ∃ request, t.recorder.activeRequest = some request ∧
      found = ⟨request.ordinal, false, request.modelStep⟩ ∧
      request.ordinal = s.recorder.requestOrdinal + 1 ∧ request.lane = .parent ∧
      t.recorder.requestOrdinal = s.recorder.requestOrdinal + 1 ∧
      ∀ other, other ≠ owner → t.request other = s.request other := by
  have same : t.request owner = s.request owner →
      ∃ old, s.request owner = some old ∧ old.ordinal = found.ordinal ∧
        old.modelStep = found.modelStep ∧ (found.answered = false → old.answered = false) := by
    intro hsame
    exact ⟨found, hsame.symm.trans hfound, rfl, rfl, fun h => h⟩
  cases h with
  | quiet _ _ hrequests =>
    rcases hrequests owner with hnone | hsame
    · exact absurd (hnone.symm.trans hfound) (by simp)
    · exact .inl (same hsame)
  | generated _ _ _ _ _ hrequests _ =>
    rcases hrequests owner with hnone | hsame
    · exact absurd (hnone.symm.trans hfound) (by simp)
    · exact .inl (same hsame)
  | @started mine origin request hactive hordinal hrequest hlane _ _ _ _ hmine hothers _ _ =>
    by_cases howner : owner = mine
    · subst howner
      exact .inr ⟨request, hactive, Option.some.inj (hfound.symm.trans hmine), hrequest, hlane, hordinal,
        hothers⟩
    · exact .inl (same (hothers owner howner))
  | @answered mine old status _ hold _ hmine hothers _ =>
    by_cases howner : owner = mine
    · subst howner
      have hsame := Option.some.inj (hfound.symm.trans hmine)
      refine .inl ⟨old, hold, ?_⟩
      rw [hsame]
      exact ⟨rfl, rfl, fun h => absurd h (by simp)⟩
    · exact .inl (same (hothers owner howner))
  | noted _ _ _ _ hothers _ => exact .inl (same (hothers owner))
  | @failed mine old failure _ _ hmine hothers _ =>
    by_cases howner : owner = mine
    · subst howner
      exact absurd (hmine.symm.trans hfound) (by simp)
    · exact .inl (same (hothers owner howner))
  | cancelled _ _ hmine hothers _ =>
    by_cases howner : owner = .model
    · subst howner
      exact absurd (hmine.symm.trans hfound) (by simp)
    · exact .inl (same (hothers owner howner))
  | progress _ hothers _ => exact .inl (same (hothers owner))
  | result _ _ _ _ _ _ _ hmine hothers _ =>
    by_cases howner : owner = .model
    · subst howner
      exact absurd (hmine.symm.trans hfound) (by simp)
    · exact .inl (same (hothers owner howner))
  | tool _ _ hothers _ => exact .inl (same (hothers owner))

theorem EvidenceLaw.active_change (law : EvidenceLaw initial s) (h : Change s t) :
    (∀ request, t.recorder.activeRequest = some request → request.ordinal = t.recorder.requestOrdinal) ∧
      (initial < t.recorder.requestOrdinal → t.recorder.activeRequest ≠ none) := by
  rcases h.active with ⟨hactive, hordinal⟩ | ⟨request, hactive, hrequest, hordinal⟩
  · rw [hactive, hordinal]
    exact ⟨law.active, law.present⟩
  · refine ⟨?_, fun _ => by simp [hactive]⟩
    intro found hfound
    rw [← Option.some.inj (hactive.symm.trans hfound), hrequest, hordinal]

theorem EvidenceLaw.initial_le (law : EvidenceLaw initial s) : initial ≤ s.recorder.requestOrdinal := by
  obtain ⟨count, hordinal, _⟩ := law.started
  omega

theorem EvidenceLaw.bound_change (law : EvidenceLaw initial s) (h : Change s t) {owner : Owner}
    {found : OpenRequest} (hfound : t.request owner = some found) :
    initial < found.ordinal ∧ found.ordinal ≤ t.recorder.requestOrdinal := by
  rcases h.request hfound with ⟨old, hold, hsame, _⟩ | ⟨request, _, hnew, hrequest, _, hordinal, _⟩
  · have hbound := law.bound owner old hold
    rcases h.active with ⟨_, hordinal⟩ | ⟨_, _, _, hordinal⟩ <;> omega
  · have hle := law.initial_le
    rw [hnew]
    exact ⟨by show initial < request.ordinal; omega, by show request.ordinal ≤ _; omega⟩

theorem EvidenceLaw.owned_change (law : EvidenceLaw initial s) (h : Change s t) {owner : Owner}
    {found : OpenRequest} {request : ProviderRequest} (hfound : t.request owner = some found)
    (hrequest : t.recorder.activeRequest = some request) (hsame : found.ordinal = request.ordinal) :
    request.modelStep = found.modelStep ∧ request.lane = .parent := by
  rcases h.request hfound with ⟨old, hold, hordinal, hstep, _⟩ | ⟨started, hactive, hnew, _, hlane, _⟩
  · rcases h.active with ⟨hactive, _⟩ | ⟨started, hactive, hstarted, _⟩
    · rw [← hstep]
      exact law.owned owner old request hold (hactive.symm.trans hrequest) (hordinal.trans hsame)
    · -- an older request is not the new one
      have hbound := law.bound owner old hold
      have heq := Option.some.inj (hactive.symm.trans hrequest)
      rw [heq] at hstarted
      omega
  · have heq := Option.some.inj (hactive.symm.trans hrequest)
    rw [hnew, ← heq]
    exact ⟨rfl, hlane⟩

theorem EvidenceLaw.distinct_change (law : EvidenceLaw initial s) (h : Change s t) {owner other : Owner}
    {found second : OpenRequest} (hfound : t.request owner = some found)
    (hsecond : t.request other = some second) (hsame : found.ordinal = second.ordinal) :
    owner = other := by
  rcases h.request hfound with ⟨old, hold, hordinal, _⟩ | ⟨started, _, hnew, hstarted, _, _, hothers⟩
  · rcases h.request hsecond with ⟨older, holder, holder', _⟩ | ⟨begun, _, hlater, hbegun, _, _, _⟩
    · exact law.distinct owner other old older hold holder (by omega)
    · have hbound := law.bound owner old hold
      rw [hlater] at hsame
      have : found.ordinal = begun.ordinal := hsame
      omega
  · by_contra hne
    have hbefore := hothers other fun heq => hne heq.symm
    have hbound := law.bound other second (hbefore.symm.trans hsecond)
    rw [hnew] at hsame
    have : started.ordinal = second.ordinal := hsame
    omega

theorem EvidenceLaw.started_change (law : EvidenceLaw initial s) (h : Change s t) :
    ∃ count, t.recorder.requestOrdinal = initial + count ∧
      t.history.filterMap Fact.startedOrdinal = (List.range' (initial + 1) count).reverse := by
  obtain ⟨count, hordinal, hstarted⟩ := law.started
  have same : t.recorder.requestOrdinal = s.recorder.requestOrdinal →
      t.history.filterMap Fact.startedOrdinal = s.history.filterMap Fact.startedOrdinal →
      ∃ count, t.recorder.requestOrdinal = initial + count ∧
        t.history.filterMap Fact.startedOrdinal = (List.range' (initial + 1) count).reverse :=
    fun hkept hhistory => ⟨count, hkept.trans hordinal, hhistory.trans hstarted⟩
  cases h with
  | quiet frame hhistory _ => exact same frame.ordinal (by rw [hhistory])
  | generated _ hkept _ _ hhistory _ _ => exact same hkept (by rw [hhistory])
  | @started mine origin request _ hnext hrequest _ _ _ _ hhistory _ _ _ _ =>
    refine ⟨count + 1, by omega, ?_⟩
    have hnew : request.ordinal = initial + 1 + count := by omega
    have hcons : (Fact.started origin request).startedOrdinal = some request.ordinal := rfl
    rw [hhistory, List.filterMap_cons_some hcons, hstarted, List.range'_concat, List.reverse_concat, hnew,
      Nat.one_mul]
  | answered frame _ _ _ _ hhistory => exact same frame.ordinal (by rw [hhistory]; rfl)
  | noted frame _ _ _ _ hhistory => exact same frame.ordinal (by rw [hhistory]; rfl)
  | failed frame _ _ _ hhistory => exact same frame.ordinal (by rw [hhistory]; rfl)
  | cancelled frame _ _ _ hhistory => exact same frame.ordinal (by rw [hhistory]; rfl)
  | progress frame _ hhistory => exact same frame.ordinal (by rw [hhistory]; rfl)
  | result _ hkept _ _ _ _ _ _ _ hhistory => exact same hkept (by rw [hhistory]; rfl)
  | tool frame _ _ hhistory => exact same frame.ordinal (by rw [hhistory]; rfl)

theorem EvidenceLaw.attributed_change (law : EvidenceLaw initial s) (h : Change s t) {cause : Option Nat}
    {observation : Observation} (hmem : .reported cause observation ∈ t.history) :
    ∃ ordinal, cause = some ordinal ∧ observation.requestOrdinal = some ordinal := by
  cases h with
  | quiet _ hhistory _ => exact law.attributed cause observation (hhistory ▸ hmem)
  | generated _ _ _ _ hhistory _ _ => exact law.attributed cause observation (hhistory ▸ hmem)
  | started _ _ _ _ _ _ _ hhistory _ _ _ _ =>
    refine law.attributed cause observation ?_
    simpa [hhistory] using hmem
  | @answered mine found status _ _ _ _ _ hhistory =>
    rw [hhistory] at hmem
    rcases List.mem_cons.mp hmem with hnew | hold
    · cases hnew
      exact ⟨found.ordinal, rfl, rfl⟩
    · exact law.attributed cause observation hold
  | @noted mine found note _ _ hordinal _ _ hhistory =>
    rw [hhistory] at hmem
    rcases List.mem_cons.mp hmem with hnew | hold
    · cases hnew
      exact ⟨found.ordinal, rfl, hordinal⟩
    · exact law.attributed cause observation hold
  | @failed mine found failure _ _ _ _ hhistory =>
    rw [hhistory] at hmem
    rcases List.mem_cons.mp hmem with hnew | hrest
    · cases hnew
    rcases List.mem_cons.mp hrest with hnew | hold
    · cases hnew
      exact ⟨found.ordinal, rfl, rfl⟩
    · exact law.attributed cause observation hold
  | cancelled _ _ _ _ hhistory =>
    refine law.attributed cause observation ?_
    simpa [hhistory] using hmem
  | progress _ _ hhistory =>
    refine law.attributed cause observation ?_
    simpa [hhistory] using hmem
  | result _ _ _ _ _ _ _ _ _ hhistory =>
    refine law.attributed cause observation ?_
    simpa [hhistory] using hmem
  | tool _ _ _ hhistory =>
    refine law.attributed cause observation ?_
    simpa [hhistory] using hmem

/-- A response is counted where its request is answered. -/
theorem Change.responses (h : Change s t) :
    (∀ ordinal, t.history.countP (Fact.isResponse ordinal) =
      s.history.countP (Fact.isResponse ordinal)) ∨
    ∃ owner found, s.request owner = some found ∧ found.answered = false ∧
      t.request owner = some { found with answered := true } ∧
      (∀ other, other ≠ owner → t.request other = s.request other) ∧
      ∀ ordinal, t.history.countP (Fact.isResponse ordinal) =
        s.history.countP (Fact.isResponse ordinal) + if found.ordinal = ordinal then 1 else 0 := by
  cases h with
  | quiet _ hhistory _ => exact .inl fun ordinal => by rw [hhistory]
  | generated _ _ _ _ hhistory _ _ => exact .inl fun ordinal => by rw [hhistory]
  | started _ _ _ _ _ _ _ hhistory _ _ _ _ =>
    exact .inl fun ordinal => by rw [hhistory, List.countP_cons_of_neg (by simp [Fact.isResponse])]
  | @answered mine found status _ hfound hanswered hmine hothers hhistory =>
    refine .inr ⟨mine, found, hfound, hanswered, hmine, hothers, ?_⟩
    intro ordinal
    rw [hhistory, List.countP_cons]
    simp [Fact.isResponse]
  | @noted mine found note _ _ _ hplain _ hhistory =>
    refine .inl fun ordinal => ?_
    rw [hhistory, List.countP_cons_of_neg]
    cases note with
    | response_start _ _ => exact absurd hplain (by simp [Observation.plain])
    | _ => simp [Fact.isResponse]
  | failed _ _ _ _ hhistory =>
    refine .inl fun ordinal => ?_
    rw [hhistory, List.countP_cons_of_neg (by simp [Fact.isResponse]),
      List.countP_cons_of_neg (by simp [Fact.isResponse])]
  | cancelled _ _ _ _ hhistory =>
    exact .inl fun ordinal => by rw [hhistory, List.countP_cons_of_neg (by simp [Fact.isResponse])]
  | progress _ _ hhistory =>
    exact .inl fun ordinal => by rw [hhistory, List.countP_cons_of_neg (by simp [Fact.isResponse])]
  | result _ _ _ _ _ _ _ _ _ hhistory =>
    exact .inl fun ordinal => by rw [hhistory, List.countP_cons_of_neg (by simp [Fact.isResponse])]
  | tool _ _ _ hhistory =>
    exact .inl fun ordinal => by rw [hhistory, List.countP_cons_of_neg (by simp [Fact.isResponse])]

/-- A failure is counted where the call of its request fails. -/
theorem Change.failures (h : Change s t) :
    (∀ ordinal, t.history.countP (Fact.isFailure ordinal) =
        s.history.countP (Fact.isFailure ordinal) ∧
      t.history.countP (Fact.isFailed ordinal) = s.history.countP (Fact.isFailed ordinal)) ∨
    ∃ owner found, s.request owner = some found ∧ t.request owner = none ∧
      (∀ other, other ≠ owner → t.request other = s.request other) ∧
      ∀ ordinal, t.history.countP (Fact.isFailure ordinal) =
          s.history.countP (Fact.isFailure ordinal) + (if found.ordinal = ordinal then 1 else 0) ∧
        t.history.countP (Fact.isFailed ordinal) =
          s.history.countP (Fact.isFailed ordinal) + if found.ordinal = ordinal then 1 else 0 := by
  have single : ∀ fact, t.history = fact :: s.history →
      (∀ ordinal, Fact.isFailure ordinal fact = false ∧ Fact.isFailed ordinal fact = false) →
      ∀ ordinal, t.history.countP (Fact.isFailure ordinal) =
          s.history.countP (Fact.isFailure ordinal) ∧
        t.history.countP (Fact.isFailed ordinal) = s.history.countP (Fact.isFailed ordinal) := by
    intro fact hhistory hfact ordinal
    rw [hhistory]
    exact ⟨List.countP_cons_of_neg (by simp [(hfact ordinal).1]),
      List.countP_cons_of_neg (by simp [(hfact ordinal).2])⟩
  cases h with
  | quiet _ hhistory _ => exact .inl fun ordinal => by simp [hhistory]
  | generated _ _ _ _ hhistory _ _ => exact .inl fun ordinal => by simp [hhistory]
  | started _ _ _ _ _ _ _ hhistory _ _ _ _ => exact .inl (single _ hhistory fun _ => ⟨rfl, rfl⟩)
  | answered _ _ _ _ _ hhistory => exact .inl (single _ hhistory fun _ => ⟨rfl, rfl⟩)
  | @noted mine found note _ _ _ hplain _ hhistory =>
    refine .inl (single _ hhistory fun ordinal => ⟨?_, rfl⟩)
    cases note with
    | request_failure _ _ => exact absurd hplain (by simp [Observation.plain])
    | _ => rfl
  | @failed mine found failure _ hfound hmine hothers hhistory =>
    refine .inr ⟨mine, found, hfound, hmine, hothers, ?_⟩
    intro ordinal
    rw [hhistory]
    simp [List.countP_cons, Fact.isFailure, Fact.isFailed]
  | cancelled _ _ _ _ hhistory => exact .inl (single _ hhistory fun _ => ⟨rfl, rfl⟩)
  | progress _ _ hhistory => exact .inl (single _ hhistory fun _ => ⟨rfl, rfl⟩)
  | result _ _ _ _ _ _ _ _ _ hhistory => exact .inl (single _ hhistory fun _ => ⟨rfl, rfl⟩)
  | tool _ _ _ hhistory => exact .inl (single _ hhistory fun _ => ⟨rfl, rfl⟩)

theorem EvidenceLaw.responses_change (law : EvidenceLaw initial s) (h : Change s t) (ordinal : Nat) :
    t.history.countP (Fact.isResponse ordinal) ≤ 1 := by
  rcases h.responses with hsame | ⟨owner, found, hfound, hanswered, _, _, hcount⟩
  · rw [hsame]
    exact law.responses ordinal
  · rw [hcount]
    have hwaiting := law.waiting owner found hfound hanswered
    by_cases hordinal : found.ordinal = ordinal
    · simp [← hordinal, hwaiting]
    · rw [if_neg hordinal]
      exact law.responses ordinal

theorem EvidenceLaw.waiting_change (law : EvidenceLaw initial s) (h : Change s t) {owner : Owner}
    {found : OpenRequest} (hfound : t.request owner = some found) (hanswered : found.answered = false) :
    t.history.countP (Fact.isResponse found.ordinal) = 0 := by
  have hbefore : s.history.countP (Fact.isResponse found.ordinal) = 0 := by
    rcases h.request hfound with ⟨old, hold, hordinal, _, holds⟩ | ⟨request, _, hnew, hrequest, _⟩
    · rw [← hordinal]
      exact law.waiting owner old hold (holds hanswered)
    · rw [hnew]
      exact (law.future request.ordinal (by omega)).1
  rcases h.responses with hsame | ⟨mine, old, hold, _, hmine, hothers, hcount⟩
  · rw [hsame, hbefore]
  · rw [hcount, hbefore]
    by_cases howner : owner = mine
    · subst howner
      have hnow := Option.some.inj (hfound.symm.trans hmine)
      rw [hnow] at hanswered
      exact absurd hanswered (by simp)
    · have hdistinct : old.ordinal ≠ found.ordinal := fun hsame =>
        howner (law.distinct owner mine found old ((hothers owner howner).symm.trans hfound) hold hsame.symm)
      rw [if_neg hdistinct]

theorem EvidenceLaw.unfailed_change (law : EvidenceLaw initial s) (h : Change s t) {owner : Owner}
    {found : OpenRequest} (hfound : t.request owner = some found) :
    t.history.countP (Fact.isFailed found.ordinal) = 0 := by
  have hbefore : s.history.countP (Fact.isFailed found.ordinal) = 0 := by
    rcases h.request hfound with ⟨old, hold, hordinal, _⟩ | ⟨request, _, hnew, hrequest, _⟩
    · rw [← hordinal]
      exact law.unfailed owner old hold
    · rw [hnew]
      exact (law.future request.ordinal (by omega)).2
  rcases h.failures with hsame | ⟨mine, old, hold, hmine, hothers, hcount⟩
  · rw [(hsame _).2, hbefore]
  · rw [(hcount _).2, hbefore]
    by_cases howner : owner = mine
    · subst howner
      exact absurd (hmine.symm.trans hfound) (by simp)
    · have hdistinct : old.ordinal ≠ found.ordinal := fun hsame =>
        howner (law.distinct owner mine found old ((hothers owner howner).symm.trans hfound) hold hsame.symm)
      rw [if_neg hdistinct]

theorem EvidenceLaw.failures_change (law : EvidenceLaw initial s) (h : Change s t) (ordinal : Nat) :
    t.history.countP (Fact.isFailure ordinal) = t.history.countP (Fact.isFailed ordinal) ∧
      t.history.countP (Fact.isFailed ordinal) ≤ 1 := by
  rcases h.failures with hsame | ⟨owner, found, hfound, _, _, hcount⟩
  · rw [(hsame ordinal).1, (hsame ordinal).2]
    exact ⟨law.failures ordinal, law.failedOnce ordinal⟩
  · rw [(hcount ordinal).1, (hcount ordinal).2, law.failures ordinal]
    refine ⟨rfl, ?_⟩
    have hunfailed := law.unfailed owner found hfound
    by_cases hordinal : found.ordinal = ordinal
    · simp [← hordinal, hunfailed]
    · rw [if_neg hordinal]
      exact law.failedOnce ordinal

theorem EvidenceLaw.future_change (law : EvidenceLaw initial s) (h : Change s t) {ordinal : Nat}
    (hordinal : t.recorder.requestOrdinal < ordinal) :
    t.history.countP (Fact.isResponse ordinal) = 0 ∧ t.history.countP (Fact.isFailed ordinal) = 0 := by
  have hlater : s.recorder.requestOrdinal < ordinal := by
    rcases h.active with ⟨_, hsame⟩ | ⟨_, _, _, hnext⟩ <;> omega
  obtain ⟨hresponse, hfailed⟩ := law.future ordinal hlater
  refine ⟨?_, ?_⟩
  · rcases h.responses with hsame | ⟨owner, found, hfound, _, _, _, hcount⟩
    · rw [hsame, hresponse]
    · have hbound := law.bound owner found hfound
      rw [hcount, hresponse, if_neg (by omega)]
  · rcases h.failures with hsame | ⟨owner, found, hfound, _, _, hcount⟩
    · rw [(hsame ordinal).2, hfailed]
    · have hbound := law.bound owner found hfound
      rw [(hcount ordinal).2, hfailed, if_neg (by omega)]

/-- A cancelled request is over. -/
theorem Change.cancelled_mem (h : Change s t) {ordinal : Nat} (hmem : .cancelled ordinal ∈ t.history) :
    .cancelled ordinal ∈ s.history ∨ ∃ found, s.request .model = some found ∧
      found.ordinal = ordinal ∧ t.request .model = none ∧
      (∀ other, other ≠ .model → t.request other = s.request other) ∧
      t.recorder.requestOrdinal = s.recorder.requestOrdinal ∧
      t.history = .cancelled ordinal :: s.history := by
  cases h with
  | @cancelled found frame hfound hnone hothers hhistory =>
    rw [hhistory] at hmem
    rcases List.mem_cons.mp hmem with hnew | hold
    · cases hnew
      exact .inr ⟨found, hfound, rfl, hnone, hothers, frame.ordinal, hhistory⟩
    · exact .inl hold
  | quiet _ hhistory _ => exact .inl (hhistory ▸ hmem)
  | generated _ _ _ _ hhistory _ _ => exact .inl (hhistory ▸ hmem)
  | started _ _ _ _ _ _ _ hhistory _ _ _ _ => exact .inl (by simpa [hhistory] using hmem)
  | answered _ _ _ _ _ hhistory => exact .inl (by simpa [hhistory] using hmem)
  | noted _ _ _ _ _ hhistory => exact .inl (by simpa [hhistory] using hmem)
  | failed _ _ _ _ hhistory => exact .inl (by simpa [hhistory] using hmem)
  | progress _ _ hhistory => exact .inl (by simpa [hhistory] using hmem)
  | result _ _ _ _ _ _ _ _ _ hhistory => exact .inl (by simpa [hhistory] using hmem)
  | tool _ _ _ hhistory => exact .inl (by simpa [hhistory] using hmem)

theorem EvidenceLaw.cancelled_change (law : EvidenceLaw initial s) (h : Change s t) {ordinal : Nat}
    (hmem : .cancelled ordinal ∈ t.history) :
    t.history.countP (Fact.isFailed ordinal) = 0 ∧ ordinal ≤ t.recorder.requestOrdinal ∧
      ∀ owner found, t.request owner = some found → found.ordinal ≠ ordinal := by
  rcases h.cancelled_mem hmem with hold | ⟨cancelled, hcancelled, hordinal, hnone, hothers, hsame, hhistory⟩
  · obtain ⟨hunfailed, hle, hover⟩ := law.cancelled ordinal hold
    refine ⟨?_, ?_, ?_⟩
    · rcases h.failures with hsame | ⟨mine, found, hfound, _, _, hcount⟩
      · rw [(hsame ordinal).2, hunfailed]
      · rw [(hcount ordinal).2, hunfailed, if_neg (hover mine found hfound)]
    · rcases h.active with ⟨_, hsame⟩ | ⟨_, _, _, hnext⟩ <;> omega
    · intro owner found hfound
      rcases h.request hfound with ⟨old, hopen, hsame, _⟩ | ⟨request, _, hnew, hrequest, _⟩
      · rw [← hsame]
        exact hover owner old hopen
      · rw [hnew]
        show request.ordinal ≠ ordinal
        omega
  · have hunfailed := law.unfailed .model cancelled hcancelled
    refine ⟨?_, ?_, ?_⟩
    · rw [hhistory, List.countP_cons_of_neg (by simp [Fact.isFailed]), ← hordinal]
      exact hunfailed
    · have hbound := law.bound .model cancelled hcancelled
      omega
    · intro owner found hfound hequal
      by_cases howner : owner = .model
      · rw [howner, hnone] at hfound
        cases hfound
      · have hbefore := (hothers owner howner).symm.trans hfound
        exact howner (law.distinct owner .model found cancelled hbefore hcancelled (hequal.trans hordinal.symm))

theorem request_generating {found : OpenRequest} (h : s.request .model = some found) :
    s.generating = true := by
  unfold EvidenceState.generating
  split
  · rfl
  · next hloop =>
    simp only [EvidenceState.request] at h
    split at h
    · next hgenerating => exact absurd hgenerating (hloop _ _)
    · next hgenerating => exact absurd hgenerating (hloop _ _)
    · next hgenerating => exact absurd hgenerating (hloop _ _)
    · exact absurd h (by simp)

theorem lastModelRequest_cons {fact : Fact} {modelStep : Nat} {history : List Fact}
    (h : fact.modelRequest modelStep = none) :
    lastModelRequest modelStep (fact :: history) = lastModelRequest modelStep history := by
  simp [lastModelRequest, h]

/-- The last request of a step stays, or the step goes on with a new one. -/
theorem Change.lastModel (h : Change s t) (modelStep : Nat) :
    lastModelRequest modelStep t.history = lastModelRequest modelStep s.history ∧
        (modelStep = s.steps → ∀ found, t.request .model = some found →
          ∃ old, s.request .model = some old ∧ old.ordinal = found.ordinal) ∨
      (modelStep = s.steps ∧ s.generating = true ∧ t.steps = s.steps ∧
        ∃ found, t.request .model = some found ∧
          lastModelRequest modelStep t.history = some found.ordinal) := by
  have single : ∀ fact, t.history = fact :: s.history → fact.modelRequest modelStep = none →
      lastModelRequest modelStep t.history = lastModelRequest modelStep s.history :=
    fun fact hhistory hfact => hhistory ▸ lastModelRequest_cons hfact
  -- without a new ordinal the model's request is an old one
  have kept : t.recorder.requestOrdinal = s.recorder.requestOrdinal →
      modelStep = s.steps → ∀ found, t.request .model = some found →
        ∃ old, s.request .model = some old ∧ old.ordinal = found.ordinal := by
    intro hordinal _ found hfound
    rcases h.request hfound with ⟨old, hold, hsame, _⟩ | ⟨_, _, _, _, _, hnext, _⟩
    · exact ⟨old, hold, hsame⟩
    · omega
  cases h with
  | quiet frame hhistory _ => exact .inl ⟨by rw [hhistory], kept frame.ordinal⟩
  | generated _ hordinal _ _ hhistory _ _ => exact .inl ⟨by rw [hhistory], kept hordinal⟩
  | @started mine origin request _ _ _ _ hsteps _ _ hhistory hmine hothers hmodel hother =>
    by_cases howner : mine = .model
    · obtain ⟨horigin, hgenerating⟩ := hmodel howner
      by_cases hstep : s.steps = modelStep
      · subst howner
        refine .inr ⟨hstep.symm, hgenerating, hsteps, _, hmine, ?_⟩
        simp [lastModelRequest, hhistory, horigin, Fact.modelRequest, hstep]
      · exact .inl ⟨single _ hhistory (by simp [horigin, Fact.modelRequest, hstep]),
          fun heq => absurd heq.symm hstep⟩
    · obtain ⟨id, horigin⟩ := hother howner
      refine .inl ⟨single _ hhistory (by rw [horigin]; rfl), ?_⟩
      intro _ found hfound
      exact ⟨found, (hothers .model fun heq => howner heq.symm).symm.trans hfound, rfl⟩
  | answered frame _ _ _ _ hhistory => exact .inl ⟨single _ hhistory rfl, kept frame.ordinal⟩
  | noted frame _ _ _ _ hhistory => exact .inl ⟨single _ hhistory rfl, kept frame.ordinal⟩
  | failed frame _ _ _ hhistory =>
    refine .inl ⟨?_, kept frame.ordinal⟩
    rw [hhistory, lastModelRequest_cons rfl, lastModelRequest_cons rfl]
  | cancelled frame _ _ _ hhistory => exact .inl ⟨single _ hhistory rfl, kept frame.ordinal⟩
  | progress frame _ hhistory => exact .inl ⟨single _ hhistory rfl, kept frame.ordinal⟩
  | result _ hordinal _ _ _ _ _ _ _ hhistory => exact .inl ⟨single _ hhistory rfl, kept hordinal⟩
  | tool frame _ _ hhistory => exact .inl ⟨single _ hhistory rfl, kept frame.ordinal⟩

/-- The steps stay, or a new one begins that has sent nothing. -/
theorem Change.steps (h : Change s t) :
    t.steps = s.steps ∧ (t.generating = true → s.generating = true) ∨
      t.steps = s.steps + 1 ∧ t.request .model = none ∧
        ∀ attribution, t.loop ≠ .working attribution := by
  cases h with
  | quiet frame _ _ => exact .inl ⟨frame.steps, frame.generating⟩
  | generated _ _ hsteps hloop _ _ hnone => exact .inr ⟨hsteps, hnone, hloop⟩
  | started _ _ _ _ hsteps _ hgenerating _ _ _ _ _ => exact .inl ⟨hsteps, hgenerating⟩
  | answered frame _ _ _ _ _ => exact .inl ⟨frame.steps, frame.generating⟩
  | noted frame _ _ _ _ _ => exact .inl ⟨frame.steps, frame.generating⟩
  | failed frame _ _ _ _ => exact .inl ⟨frame.steps, frame.generating⟩
  | cancelled frame _ _ _ _ => exact .inl ⟨frame.steps, frame.generating⟩
  | progress frame _ _ => exact .inl ⟨frame.steps, frame.generating⟩
  | result _ _ hsteps _ hgenerating _ _ _ _ _ =>
    exact .inl ⟨hsteps, fun h => absurd (hgenerating.symm.trans h) (by decide)⟩
  | tool frame _ _ _ => exact .inl ⟨frame.steps, frame.generating⟩

/-- The model's request of the step is the last that the step started. -/
theorem EvidenceLaw.model_change (law : EvidenceLaw initial s) (h : Change s t) {found : OpenRequest}
    (hfound : t.request .model = some found) :
    lastModelRequest t.steps t.history = some found.ordinal := by
  rcases h.steps with ⟨hsteps, _⟩ | ⟨_, hnone, _⟩
  · rw [hsteps]
    rcases h.lastModel s.steps with ⟨hsame, hkept⟩ | ⟨_, _, _, last, hlast, hhistory⟩
    · obtain ⟨old, hold, hordinal⟩ := hkept rfl found hfound
      rw [hsame, ← hordinal]
      exact law.model old hold
    · rw [hhistory, ← Option.some.inj (hfound.symm.trans hlast)]
  · exact absurd (hnone.symm.trans hfound) (by simp)

theorem Change.working (h : Change s t) {attribution : Attribution}
    (hworking : t.loop = .working attribution) :
    s.loop = .working attribution ∨
      ∃ found, s.request .model = some found ∧
        attribution = ⟨s.steps, some .parent, some found.ordinal⟩ := by
  cases h with
  | quiet frame _ _ => exact .inl (frame.working attribution hworking)
  | generated _ _ _ hloop _ _ _ => exact absurd hworking (hloop attribution)
  | started _ _ _ _ _ hloop _ _ _ _ _ _ => exact .inl (hloop attribution hworking)
  | answered frame _ _ _ _ _ => exact .inl (frame.working attribution hworking)
  | noted frame _ _ _ _ _ => exact .inl (frame.working attribution hworking)
  | failed frame _ _ _ _ => exact .inl (frame.working attribution hworking)
  | cancelled frame _ _ _ _ => exact .inl (frame.working attribution hworking)
  | progress frame _ _ => exact .inl (frame.working attribution hworking)
  | result _ _ _ hloop _ hfound hattribution _ _ _ =>
    exact .inr ⟨_, hfound, (hloop attribution hworking).trans hattribution⟩
  | tool frame _ _ _ => exact .inl (frame.working attribution hworking)

theorem not_generating_of_working {attribution : Attribution} (h : s.loop = .working attribution) :
    s.generating = false := by
  rw [EvidenceState.generating, h]

/-- The attribution of a step's tools is that of its last request. -/
theorem EvidenceLaw.working_change (law : EvidenceLaw initial s) (h : Change s t)
    {attribution : Attribution} (hworking : t.loop = .working attribution) :
    attribution.modelStep = t.steps ∧ ∃ ordinal, attribution.requestOrdinal = some ordinal ∧
      lastModelRequest t.steps t.history = some ordinal := by
  rcases h.steps with ⟨hsteps, _⟩ | ⟨_, _, hloop⟩
  · rcases h.lastModel s.steps with ⟨hsame, _⟩ | ⟨_, _, _, last, hlast, _⟩
    · rw [hsteps, hsame]
      rcases h.working hworking with hold | ⟨found, hfound, hattribution⟩
      · exact law.working attribution hold
      · rw [hattribution]
        exact ⟨rfl, found.ordinal, rfl, law.model found hfound⟩
    · have hgenerating := request_generating hlast
      rw [not_generating_of_working hworking] at hgenerating
      exact absurd hgenerating (by decide)
  · exact absurd hworking (hloop attribution)

/-- A new fact of a step's result or tools. -/
theorem Change.results (h : Change s t) {kind : RuntimeKind} {attribution : Attribution}
    (hmem : .runtime kind attribution ∈ t.history) (hkind : kind ≠ .assistant_progress) :
    .runtime kind attribution ∈ s.history ∨
      t.generating = false ∧ (s.loop = .working attribution ∨
        ∃ found, s.request .model = some found ∧
          attribution = ⟨s.steps, some .parent, some found.ordinal⟩) := by
  cases h with
  | quiet _ hhistory _ => exact .inl (hhistory ▸ hmem)
  | generated _ _ _ _ hhistory _ _ => exact .inl (hhistory ▸ hmem)
  | started _ _ _ _ _ _ _ hhistory _ _ _ _ => exact .inl (by simpa [hhistory] using hmem)
  | answered _ _ _ _ _ hhistory => exact .inl (by simpa [hhistory] using hmem)
  | noted _ _ _ _ _ hhistory => exact .inl (by simpa [hhistory] using hmem)
  | failed _ _ _ _ hhistory => exact .inl (by simpa [hhistory] using hmem)
  | cancelled _ _ _ _ hhistory => exact .inl (by simpa [hhistory] using hmem)
  | progress _ _ hhistory => exact .inl (by simpa [hhistory, hkind] using hmem)
  | result _ _ _ _ hgenerating hfound hattribution _ _ hhistory =>
    rw [hhistory] at hmem
    rcases List.mem_cons.mp hmem with hnew | hold
    · cases hnew
      exact .inr ⟨hgenerating, .inr ⟨_, hfound, hattribution⟩⟩
    · exact .inl hold
  | tool frame hworking _ hhistory =>
    rw [hhistory] at hmem
    rcases List.mem_cons.mp hmem with hnew | hold
    · cases hnew
      refine .inr ⟨?_, .inl hworking⟩
      cases hgenerating : t.generating with
      | false => rfl
      | true =>
        have hbefore := frame.generating hgenerating
        rw [not_generating_of_working hworking] at hbefore
        exact absurd hbefore (by decide)
    · exact .inl hold

theorem EvidenceLaw.results_change (law : EvidenceLaw initial s) (h : Change s t) {kind : RuntimeKind}
    {attribution : Attribution} (hmem : .runtime kind attribution ∈ t.history)
    (hkind : kind ≠ .assistant_progress) :
    attribution.modelStep ≤ t.steps ∧ (t.generating = true → attribution.modelStep < t.steps) ∧
      ∃ ordinal, attribution.requestOrdinal = some ordinal ∧
        lastModelRequest attribution.modelStep t.history = some ordinal := by
  rcases h.results hmem hkind with hold | ⟨hgenerating, hnew⟩
  · obtain ⟨hle, hless, ordinal, hordinal, hlast⟩ := law.results kind attribution hold hkind
    have hkept : lastModelRequest attribution.modelStep t.history = some ordinal := by
      rcases h.lastModel attribution.modelStep with ⟨hsame, _⟩ | ⟨hstep, hgenerating, _⟩
      · exact hsame.trans hlast
      · exact absurd (hless hgenerating) (by omega)
    rcases h.steps with ⟨hsteps, hgenerates⟩ | ⟨hsteps, _, _⟩
    · exact ⟨by omega, fun h => by have := hless (hgenerates h); omega, ordinal, hordinal, hkept⟩
    · exact ⟨by omega, fun _ => by omega, ordinal, hordinal, hkept⟩
  · have hstep : attribution.modelStep = s.steps ∧ ∃ ordinal, attribution.requestOrdinal = some ordinal ∧
        lastModelRequest s.steps s.history = some ordinal := by
      rcases hnew with hworking | ⟨found, hfound, hattribution⟩
      · exact law.working attribution hworking
      · rw [hattribution]
        exact ⟨rfl, found.ordinal, rfl, law.model found hfound⟩
    obtain ⟨hmine, ordinal, hordinal, hlast⟩ := hstep
    have hkept : lastModelRequest attribution.modelStep t.history = some ordinal := by
      rw [hmine]
      rcases h.lastModel s.steps with ⟨hsame, _⟩ | ⟨_, _, _, last, hafter, _⟩
      · exact hsame.trans hlast
      · have hafter := request_generating hafter
        rw [hgenerating] at hafter
        exact absurd hafter (by decide)
    refine ⟨?_, fun h => absurd (hgenerating.symm.trans h) (by decide), ordinal, hordinal, hkept⟩
    rcases h.steps with ⟨hsteps, _⟩ | ⟨hsteps, _, _⟩ <;> omega

theorem EvidenceLaw.change (law : EvidenceLaw initial s) (h : Change s t) : EvidenceLaw initial t where
  active := (law.active_change h).1
  present := (law.active_change h).2
  started := law.started_change h
  bound := fun _ _ hfound => law.bound_change h hfound
  owned := fun _ _ _ hfound hrequest hsame => law.owned_change h hfound hrequest hsame
  distinct := fun _ _ _ _ hfound hsecond hsame => law.distinct_change h hfound hsecond hsame
  attributed := fun _ _ hmem => law.attributed_change h hmem
  responses := law.responses_change h
  waiting := fun _ _ hfound hanswered => law.waiting_change h hfound hanswered
  failures := fun ordinal => (law.failures_change h ordinal).1
  failedOnce := fun ordinal => (law.failures_change h ordinal).2
  unfailed := fun _ _ hfound => law.unfailed_change h hfound
  future := fun _ hordinal => law.future_change h hordinal
  cancelled := fun _ hmem => law.cancelled_change h hmem
  model := fun _ hfound => law.model_change h hfound
  working := fun _ hworking => law.working_change h hworking
  results := fun _ _ hmem hkind => law.results_change h hmem hkind

end Kept

end ProviderEvidence

end Henji
