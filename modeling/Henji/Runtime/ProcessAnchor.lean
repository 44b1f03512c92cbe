import Henji.Runtime.ProcessGroupLaw

/-!
# Stopping a process group

The runner anchors the group until the host lets go of it or kills it, as long as no member of the group
kills the whole group.
-/

namespace Henji

namespace OwnedProcess

/-! ## The anchor -/

/-- No member of the group kills the group. -/
def Spared : ProcessEvent → Prop
  | .memberKill _ => False
  | _ => True

instance : DecidablePred Spared
  | .memberKill _ => isFalse fun h => h
  | .boot => isTrue trivial
  | .bootFails => isTrue trivial
  | .commandExits _ => isTrue trivial
  | .fork _ _ => isTrue trivial
  | .exits _ => isTrue trivial
  | .leaves _ => isTrue trivial
  | .runnerObserves => isTrue trivial
  | .runnerReads => isTrue trivial
  | .runnerInputEnds => isTrue trivial
  | .runnerExits => isTrue trivial
  | .reap => isTrue trivial
  | .pipesClose => isTrue trivial
  | .reuse => isTrue trivial
  | .receive => isTrue trivial
  | .controlEnds => isTrue trivial
  | .lifetimeScan _ => isTrue trivial
  | .lifetimeScanFails => isTrue trivial
  | .lifetime => isTrue trivial
  | .stop => isTrue trivial
  | .stopScan _ => isTrue trivial
  | .stopScanFails => isTrue trivial
  | .stopping _ => isTrue trivial
  | .signal _ => isTrue trivial
  | .signalMissed _ => isTrue trivial
  | .signalFails => isTrue trivial

/-- `stop` has not yet let go of the runner. -/
def StopPhase.early : StopPhase → Bool
  | .terminating => true
  | .polling => true
  | .polled _ => true
  | .deciding => true
  | .decided _ => true
  | .awaitStatus => true
  | .killing => true
  | _ => false

/-- `stop` has let go of the runner, or has failed. -/
def StopPhase.late : StopPhase → Bool
  | .awaitExit => true
  | .draining => true
  | .drained _ => true
  | .awaitPipes => true
  | .resolved => true
  | .rejected => true
  | _ => false

/-- The runner is killed or its input ends only when the host has let go of it. -/
structure AnchorLaw (s : ProcessState) : Prop where
  started : s.command = .absent → .started ∉ s.control ∧ s.ready ≠ .resolved ()
  anchored : s.command ≠ .absent → s.inputEnded = false → (∀ sent ∈ s.sent, Sent.signal sent ≠ .KILL) →
    s.runner = .anchored
  controlDone : s.controlDone = true → s.inputEnded = true
  ended : s.inputEnded = true → s.releaseAnchor = true ∨ ∃ phase, s.stopping = some phase ∧
    phase.late = true
  killed : ∀ sent ∈ s.sent, Sent.signal sent = .KILL →
    ∃ phase, s.stopping = some phase ∧ phase.late = true
  early : ∀ phase, s.stopping = some phase → phase.early = true →
    s.runner = .anchored ∧ s.releaseAnchor = false
  sent : ∀ sent ∈ s.sent, sent.runner = .anchored ∧ sent.foreign = false

theorem AnchorLaw.spawned : AnchorLaw ProcessState.spawned := by
  constructor <;> simp [ProcessState.spawned]

theorem StopPhase.not_late {phase : StopPhase} (h : phase.early = true) : phase.late = false := by
  cases phase <;> first | rfl | cases h

/-- Where neither the lifetime nor `stop` has let go of the runner, it is there. -/
theorem AnchorLaw.held {s : ProcessState} (h : AnchorLaw s) {phase : StopPhase}
    (hphase : s.stopping = some phase) (hlate : phase.late = false) (hkept : s.releaseAnchor = false)
    (hready : s.ready = .resolved ()) : s.runner = .anchored := by
  have notLate : ¬ ∃ found, s.stopping = some found ∧ found.late = true := by
    rintro ⟨found, hfound, hlater⟩
    rw [Option.some.inj (hfound.symm.trans hphase), hlate] at hlater
    exact absurd hlater (by decide)
  have hcommand : s.command ≠ .absent := fun habsent => (h.started habsent).2 hready
  have hinput : s.inputEnded = false := by
    cases hended : s.inputEnded with
    | false => rfl
    | true =>
      rcases h.ended hended with hreleased | hlater
      · exact absurd (hkept.symm.trans hreleased) (by decide)
      · exact absurd hlater notLate
  exact h.anchored hcommand hinput fun sent hsent hkill => notLate (h.killed sent hsent hkill)

section Steps

variable {s t : ProcessState}

/-- A command that has run is not absent afterwards. -/
theorem AnchorLaw.commandEnds (h : AnchorLaw s) {others : List Nat} {found : ProcessStatus}
    (hrunning : s.command ≠ .absent) :
    AnchorLaw { s with command := .exited found, others := others } where
  started := fun habsent => by cases habsent
  anchored := fun _ => h.anchored hrunning
  controlDone := h.controlDone
  ended := h.ended
  killed := h.killed
  early := h.early
  sent := h.sent

theorem AnchorLaw.endCommand (h : AnchorLaw s) (found : ProcessStatus) : AnchorLaw (s.endCommand found) := by
  rw [ProcessState.endCommand]
  split
  · next hrunning => exact h.commandEnds (by simp [hrunning])
  · exact h

/-- TERM does not reach the runner behind its handler. -/
theorem AnchorLaw.term (h : AnchorLaw s) (law : GroupLaw s) (ignoring : List Nat) :
    AnchorLaw (s.term ignoring) := by
  rw [ProcessState.term]
  by_cases hends : commandPid ∈ s.others ∧ commandPid ∉ ignoring
  · rw [if_pos hends]
    exact h.commandEnds (by simp [law.member hends.1])
  · rw [if_neg hends]
    exact ⟨h.started, h.anchored, h.controlDone, h.ended, h.killed, h.early, h.sent⟩

/-- The lifetime lets go of the runner where `stop` has not begun, or is done. -/
theorem AnchorLaw.release (h : AnchorLaw s) {phase : LifetimePhase}
    (hstop : ∀ found, s.stopping = some found → found.early = false) :
    AnchorLaw { s with releaseAnchor := true, inputEnded := true, lifetime := phase } where
  started := h.started
  anchored := fun _ hinput => by cases hinput
  controlDone := fun _ => rfl
  ended := fun _ => .inl rfl
  killed := h.killed
  early := fun found hfound hearly => absurd (hearly.symm.trans (hstop found hfound)) (by decide)
  sent := h.sent

theorem AnchorLaw.lifetimeTo (h : AnchorLaw s) (phase : LifetimePhase) :
    AnchorLaw { s with lifetime := phase } :=
  ⟨h.started, h.anchored, h.controlDone, h.ended, h.killed, h.early, h.sent⟩

theorem AnchorLaw.afterLoop (h : AnchorLaw s) : AnchorLaw s.afterLoop := by
  rw [ProcessState.afterLoop]
  by_cases hstopping : s.stopping = none
  · rw [if_neg (not_not_intro hstopping)]
    refine h.release ?_
    intro found hfound
    rw [hstopping] at hfound
    cases hfound
  · rw [if_pos hstopping]
    exact h.lifetimeTo _

theorem AnchorLaw.loopHead (h : AnchorLaw s) : AnchorLaw s.loopHead := by
  rw [ProcessState.loopHead]
  split
  · exact h.afterLoop
  · exact h.lifetimeTo _

/-- Before `stop` begins only the lifetime lets go of the runner. -/
theorem AnchorLaw.ended_of_none (h : AnchorLaw s) (hstopping : s.stopping = none)
    (hinput : s.inputEnded = true) : s.releaseAnchor = true := by
  rcases h.ended hinput with hreleased | ⟨phase, hphase, _⟩
  · exact hreleased
  · rw [hstopping] at hphase
    cases hphase

theorem AnchorLaw.not_killed_of_none (h : AnchorLaw s) (hstopping : s.stopping = none) :
    ∀ sent ∈ s.sent, Sent.signal sent ≠ .KILL := by
  intro sent hsent hkill
  obtain ⟨phase, hphase, _⟩ := h.killed sent hsent hkill
  rw [hstopping] at hphase
  cases hphase

theorem AnchorLaw.callStop (h : AnchorLaw s) : AnchorLaw s.callStop := by
  cases hstopping : s.stopping with
  | some phase =>
    have hsame : s.stopping.or (some .awaitReady) = s.stopping := by simp [hstopping]
    rw [ProcessState.callStop, hsame]
    exact h
  | none =>
    have hnew : s.stopping.or (some .awaitReady) = some .awaitReady := by simp [hstopping]
    rw [ProcessState.callStop, hnew]
    exact {
      started := h.started
      anchored := h.anchored
      controlDone := h.controlDone
      ended := fun hinput => .inl (h.ended_of_none hstopping hinput)
      killed := fun sent hsent hkill => absurd hkill (h.not_killed_of_none hstopping sent hsent)
      early := by
        intro phase hphase hearly
        cases hphase
        cases hearly
      sent := h.sent }

theorem AnchorLaw.lifetimeFails (h : AnchorLaw s) : AnchorLaw s.lifetimeFails :=
  h.callStop.lifetimeTo _

theorem AnchorLaw.lifetimeStep (h : AnchorLaw s) (hstep : lifetimeStep s s.lifetime = some t) :
    AnchorLaw t := by
  cases hphase : s.lifetime <;> rw [hphase] at hstep <;> simp only [OwnedProcess.lifetimeStep] at hstep
  case awaitStatus =>
    split at hstep
    · cases hstep
    · exact Option.some.inj hstep ▸ h.loopHead
    · exact Option.some.inj hstep ▸ h.lifetimeFails
  case scanned remaining =>
    split at hstep
    · exact Option.some.inj hstep ▸ h.lifetimeTo _
    · exact Option.some.inj hstep ▸ h.afterLoop
  case delaying => exact Option.some.inj hstep ▸ h.loopHead
  case awaitStop =>
    split at hstep
    · next hstopped =>
      refine Option.some.inj hstep ▸ h.release ?_
      intro found hfound
      rw [Option.some.inj (hfound.symm.trans hstopped)]
      decide
    · exact Option.some.inj hstep ▸ h.lifetimeFails
    · cases hstep
  case awaitExit =>
    obtain ⟨_, hstep⟩ := Option.ite_none_right_eq_some.mp hstep
    exact Option.some.inj hstep ▸ h.lifetimeTo _
  case awaitPipes =>
    obtain ⟨_, hstep⟩ := Option.ite_none_right_eq_some.mp hstep
    exact Option.some.inj hstep ▸ h.lifetimeTo _
  case failing =>
    split at hstep
    · exact Option.some.inj hstep ▸ h.lifetimeTo _
    · exact Option.some.inj hstep ▸ h.lifetimeTo _
    · cases hstep
  all_goals cases hstep

/-- `stop` goes from an early phase to any, or from a late one to a late one. -/
theorem AnchorLaw.stopping (h : AnchorLaw s) {old phase : StopPhase} (hold : s.stopping = some old)
    (hearly : phase.early = true → old.early = true) (hlate : old.late = true → phase.late = true)
    (ht : t = { s with stopping := some phase }) : AnchorLaw t := by
  subst ht
  have hkeeps : (∃ found, s.stopping = some found ∧ found.late = true) → phase.late = true := by
    rintro ⟨found, hfound, hlater⟩
    rw [Option.some.inj (hfound.symm.trans hold)] at hlater
    exact hlate hlater
  exact {
    started := h.started
    anchored := h.anchored
    controlDone := h.controlDone
    ended := by
      intro hinput
      rcases h.ended hinput with hreleased | hlater
      · exact .inl hreleased
      · exact .inr ⟨phase, rfl, hkeeps hlater⟩
    killed := fun sent hsent hkill => ⟨phase, rfl, hkeeps (h.killed sent hsent hkill)⟩
    early := by
      intro found hfound hfoundEarly
      cases hfound
      exact h.early old hold (hearly hfoundEarly)
    sent := h.sent }

/-- `stop` lets go of the runner. -/
theorem AnchorLaw.letGo (h : AnchorLaw s) {phase : StopPhase} {input release : Bool}
    (hinput : s.inputEnded = true → input = true) (hlate : phase.late = true) :
    AnchorLaw { s with inputEnded := input, releaseAnchor := release, stopping := some phase } where
  started := h.started
  anchored := by
    intro hcommand hopen
    refine h.anchored hcommand ?_
    cases hended : s.inputEnded with
    | false => rfl
    | true => exact absurd ((hinput hended).symm.trans hopen) (by decide)
  controlDone := fun hdone => hinput (h.controlDone hdone)
  ended := fun _ => .inr ⟨phase, rfl, hlate⟩
  killed := fun _ _ _ => ⟨phase, rfl, hlate⟩
  early := by
    intro found hfound hearly
    cases hfound
    exact absurd (hlate.symm.trans (StopPhase.not_late hearly)) (by decide)
  sent := h.sent

theorem AnchorLaw.stopStep (h : AnchorLaw s) {late : Bool} {phase : StopPhase}
    (hphase : s.stopping = some phase) (hstep : stopStep s late phase = some t) : AnchorLaw t := by
  cases phase <;> simp only [OwnedProcess.stopStep] at hstep
  case awaitReady =>
    split at hstep
    · cases hstep
    · exact h.stopping hphase (by simp [StopPhase.early]) (by simp [StopPhase.late])
        (Option.some.inj hstep).symm
    · split at hstep
      · exact h.stopping hphase (by simp [StopPhase.early]) (by simp [StopPhase.late])
          (Option.some.inj hstep).symm
      · next hready hkept =>
        -- the runner is ready, and nothing has let go of it
        have hreleased : s.releaseAnchor = false := by simpa using hkept
        have hanchored := h.held hphase rfl hreleased hready
        have hnot : ¬ ∃ found, s.stopping = some found ∧ found.late = true := by
          rintro ⟨found, hfound, hlater⟩
          rw [Option.some.inj (hfound.symm.trans hphase)] at hlater
          cases hlater
        rw [← Option.some.inj hstep]
        exact {
          started := h.started
          anchored := h.anchored
          controlDone := h.controlDone
          ended := by
            intro hinput
            rcases h.ended hinput with hgone | hlater
            · exact .inl hgone
            · exact absurd hlater hnot
          killed := fun sent hsent hkill => absurd (h.killed sent hsent hkill) hnot
          early := fun _ _ _ => ⟨hanchored, hreleased⟩
          sent := h.sent }
  case awaitRelease =>
    obtain ⟨_, hstep⟩ := Option.ite_none_right_eq_some.mp hstep
    exact h.stopping hphase (by simp [StopPhase.early]) (by simp [StopPhase.late])
      (Option.some.inj hstep).symm
  case polled remaining =>
    split at hstep
    · exact h.stopping hphase (fun _ => rfl) (by simp [StopPhase.late]) (Option.some.inj hstep).symm
    · exact h.stopping hphase (fun _ => rfl) (by simp [StopPhase.late]) (Option.some.inj hstep).symm
  case decided remaining =>
    split at hstep
    · have hstop : AnchorLaw { s with stopping := some .awaitStatus } :=
        h.stopping hphase (fun _ => rfl) (by simp [StopPhase.late]) rfl
      exact Option.some.inj hstep ▸ ⟨hstop.started, hstop.anchored, hstop.controlDone, hstop.ended,
        hstop.killed, hstop.early, hstop.sent⟩
    · exact Option.some.inj hstep ▸ h.letGo (fun _ => rfl) rfl
  case awaitStatus =>
    split at hstep
    · cases hstep
    · exact h.stopping hphase (by simp [StopPhase.early]) (by simp [StopPhase.late])
        (Option.some.inj hstep).symm
    · exact h.stopping hphase (fun _ => rfl) (by simp [StopPhase.late]) (Option.some.inj hstep).symm
  case awaitExit =>
    obtain ⟨_, hstep⟩ := Option.ite_none_right_eq_some.mp hstep
    exact h.stopping hphase (by simp [StopPhase.early]) (fun _ => rfl) (Option.some.inj hstep).symm
  case drained live =>
    split at hstep
    · exact h.stopping hphase (by simp [StopPhase.early]) (fun _ => rfl) (Option.some.inj hstep).symm
    · exact h.stopping hphase (by simp [StopPhase.early]) (fun _ => rfl) (Option.some.inj hstep).symm
  case awaitPipes =>
    obtain ⟨_, hstep⟩ := Option.ite_none_right_eq_some.mp hstep
    exact Option.some.inj hstep ▸ h.letGo (fun hinput => hinput) rfl
  all_goals cases hstep

theorem AnchorLaw.sendsTerm (h : AnchorLaw s) (hanchored : s.runner = .anchored)
    (hown : s.foreign = false) :
    AnchorLaw { s with sent := ⟨.TERM, s.runner, s.foreign⟩ :: s.sent } where
  started := h.started
  anchored := fun _ _ _ => hanchored
  controlDone := h.controlDone
  ended := h.ended
  killed := by
    intro sent hsent hkill
    rcases List.mem_cons.mp hsent with rfl | hold
    · cases hkill
    · exact h.killed sent hold hkill
  early := h.early
  sent := by
    intro sent hsent
    rcases List.mem_cons.mp hsent with rfl | hold
    · exact ⟨hanchored, hown⟩
    · exact h.sent sent hold

theorem AnchorLaw.sendSignal (h : AnchorLaw s) (law : GroupLaw s) {phase next : StopPhase}
    {signal : Signal} (ignoring : List Nat) (hphase : s.stopping = some phase)
    (hsends : phase.sends = some (signal, next)) :
    AnchorLaw { s.sendSignal signal ignoring with stopping := some next } := by
  have hearly : phase.early = true := by
    rcases StopPhase.sends_some hsends with ⟨rfl, _⟩ | ⟨rfl, _⟩ <;> rfl
  have hanchored := (h.early phase hphase hearly).1
  have hown : s.foreign = false := by
    cases hforeign : s.foreign with
    | false => rfl
    | true =>
      have hreaped := (law.foreign hforeign).1
      rw [hanchored] at hreaped
      cases hreaped
  rcases StopPhase.sends_some hsends with ⟨rfl, rfl, rfl⟩ | ⟨rfl, rfl, rfl⟩
  · have hrecorded : AnchorLaw { s with sent := ⟨.TERM, s.runner, s.foreign⟩ :: s.sent } :=
      h.sendsTerm hanchored hown
    have hlaw := law.recorded (⟨.TERM, s.runner, s.foreign⟩ :: s.sent)
    have hsent : s.sendSignal .TERM ignoring =
        ProcessState.term { s with sent := ⟨.TERM, s.runner, s.foreign⟩ :: s.sent } ignoring := by
      rw [ProcessState.sendSignal.eq_def]
      exact if_neg (by simp [hown])
    have hstopping : (s.sendSignal .TERM ignoring).stopping = some .terminating :=
      (sendSignal_stopping s .TERM ignoring).trans hphase
    exact (hrecorded.term hlaw ignoring).stopping (hsent ▸ hstopping) (fun _ => rfl)
      (by simp [StopPhase.late]) (by rw [hsent])
  · -- KILL reaches the runner; `stop` goes on without it
    have hsent : s.sendSignal .KILL ignoring =
        ProcessState.kill { s with sent := ⟨.KILL, s.runner, s.foreign⟩ :: s.sent } := by
      rw [ProcessState.sendSignal.eq_def]
      exact if_neg (by simp [hown])
    rw [hsent]
    obtain ⟨started, anchored, controlDone, ended, killed, early, sent⟩ := h
    refine ⟨?_, ?_, controlDone, fun _ => .inr ⟨_, rfl, rfl⟩, fun _ _ _ => ⟨_, rfl, rfl⟩, ?_, ?_⟩
    · intro habsent
      by_cases hmember : commandPid ∈ s.others
      · simp [ProcessState.kill, hmember] at habsent
      · exact started (by simpa [ProcessState.kill, hmember] using habsent)
    · intro _ _ hnone
      exact absurd rfl (hnone ⟨.KILL, s.runner, s.foreign⟩ List.mem_cons_self)
    · intro phase hphase hearly
      cases hphase
      cases hearly
    · intro found hfound
      rcases List.mem_cons.mp hfound with rfl | hold
      · exact ⟨hanchored, hown⟩
      · exact sent found hold

end Steps

section Runner

variable {s : ProcessState}

/-- The runner is there while `stop` is early. -/
theorem AnchorLaw.not_early (h : AnchorLaw s) (hrunner : s.runner ≠ .anchored) :
    ∀ phase, s.stopping = some phase → phase.early = false := by
  intro phase hphase
  cases hearly : phase.early with
  | false => rfl
  | true => exact absurd (h.early phase hphase hearly).1 hrunner

theorem AnchorLaw.not_early_of_ended (h : AnchorLaw s) (hended : s.inputEnded = true) :
    ∀ phase, s.stopping = some phase → phase.early = false := by
  intro phase hphase
  cases hearly : phase.early with
  | false => rfl
  | true =>
    rcases h.ended hended with hreleased | ⟨found, hfound, hlater⟩
    · exact absurd (hreleased.symm.trans (h.early phase hphase hearly).2) (by decide)
    · rw [Option.some.inj (hfound.symm.trans hphase)] at hlater
      exact absurd (hlater.symm.trans (StopPhase.not_late hearly)) (by decide)

/-- The runner goes when nothing counts on it. -/
theorem AnchorLaw.runnerGoes (h : AnchorLaw s) {runner : RunnerState}
    (hanchored : s.command ≠ .absent → s.inputEnded = false →
      (∀ sent ∈ s.sent, Sent.signal sent ≠ .KILL) → runner = .anchored)
    (hearly : ∀ phase, s.stopping = some phase → phase.early = false) :
    AnchorLaw { s with runner := runner } where
  started := h.started
  anchored := hanchored
  controlDone := h.controlDone
  ended := h.ended
  killed := h.killed
  early := fun phase hphase hfound => absurd (hfound.symm.trans (hearly phase hphase)) (by decide)
  sent := h.sent

theorem AnchorLaw.boot (h : AnchorLaw s) (hbooting : s.runner = .booting) :
    AnchorLaw { s with
      runner := .anchored
      command := .running
      others := [commandPid]
      control := s.control ++ [.started] } where
  started := fun habsent => by cases habsent
  anchored := fun _ _ _ => rfl
  controlDone := h.controlDone
  ended := h.ended
  killed := h.killed
  early := fun phase hphase hearly =>
    absurd (hearly.symm.trans (h.not_early (by simp [hbooting]) phase hphase)) (by decide)
  sent := h.sent

end Runner

theorem AnchorLaw.step {s t : ProcessState} {event : ProcessEvent} (h : AnchorLaw s) (law : GroupLaw s)
    (hspared : Spared event) (hstep : s.step event = some t) : AnchorLaw t := by
  cases event <;> simp only [ProcessState.step] at hstep
  case memberKill id => exact hspared.elim
  case boot =>
    obtain ⟨hbooting, hstep⟩ := Option.ite_none_right_eq_some.mp hstep
    exact Option.some.inj hstep ▸ h.boot hbooting
  case bootFails =>
    obtain ⟨hbooting, hstep⟩ := Option.ite_none_right_eq_some.mp hstep
    refine Option.some.inj hstep ▸ h.runnerGoes ?_ (h.not_early (by simp [hbooting]))
    intro hcommand
    exact absurd (law.booting hbooting).1 hcommand
  case runnerExits =>
    obtain ⟨⟨_, _, hdone⟩, hstep⟩ := Option.ite_none_right_eq_some.mp hstep
    -- its input has ended, so `stop` is not early
    have hended := h.controlDone hdone
    refine Option.some.inj hstep ▸ h.runnerGoes ?_ (h.not_early_of_ended hended)
    intro _ hinput
    exact absurd (hended.symm.trans hinput) (by decide)
  case reap =>
    obtain ⟨hexited, hstep⟩ := Option.ite_none_right_eq_some.mp hstep
    refine Option.some.inj hstep ▸ h.runnerGoes ?_ (h.not_early (by simp [hexited]))
    intro hcommand hinput hsent
    exact absurd (h.anchored hcommand hinput hsent) (by simp [hexited])
  case commandExits found =>
    obtain ⟨_, hstep⟩ := Option.ite_none_right_eq_some.mp hstep
    exact Option.some.inj hstep ▸ h.endCommand found
  case runnerReads =>
    obtain ⟨_, hstep⟩ := Option.ite_none_right_eq_some.mp hstep
    have hread : AnchorLaw { s with killRequested := false } :=
      ⟨h.started, h.anchored, h.controlDone, h.ended, h.killed, h.early, h.sent⟩
    exact Option.some.inj hstep ▸ hread.endCommand killedStatus
  case lifetime => exact h.lifetimeStep hstep
  case lifetimeScanFails =>
    obtain ⟨_, hstep⟩ := Option.ite_none_right_eq_some.mp hstep
    exact Option.some.inj hstep ▸ h.lifetimeFails
  case stop => exact Option.some.inj hstep ▸ h.callStop
  case stopScan foreignLive =>
    split at hstep
    · next hphase => exact h.stopping hphase (fun _ => rfl) (by simp [StopPhase.late]) (Option.some.inj hstep).symm
    · next hphase => exact h.stopping hphase (fun _ => rfl) (by simp [StopPhase.late]) (Option.some.inj hstep).symm
    · next hphase => exact h.stopping hphase (by simp [StopPhase.early]) (fun _ => rfl) (Option.some.inj hstep).symm
    · cases hstep
  case stopScanFails =>
    split at hstep
    · next hphase => exact h.stopping hphase (by simp [StopPhase.early]) (fun _ => rfl) (Option.some.inj hstep).symm
    · next hphase => exact h.stopping hphase (by simp [StopPhase.early]) (fun _ => rfl) (Option.some.inj hstep).symm
    · next hphase => exact h.stopping hphase (by simp [StopPhase.early]) (fun _ => rfl) (Option.some.inj hstep).symm
    · cases hstep
  case stopping late =>
    obtain ⟨phase, hphase, hstep⟩ := Option.bind_eq_some_iff.mp hstep
    exact h.stopStep hphase hstep
  case signal ignoring =>
    split at hstep
    · next signal next hsends =>
      obtain ⟨phase, hphase, hsends⟩ := Option.bind_eq_some_iff.mp hsends
      exact Option.some.inj hstep ▸ h.sendSignal law ignoring hphase hsends
    · cases hstep
  case signalMissed foreignLive =>
    split at hstep
    · next signal next hsends =>
      obtain ⟨phase, hphase, hsends⟩ := Option.bind_eq_some_iff.mp hsends
      obtain ⟨hdead, hstep⟩ := Option.ite_none_right_eq_some.mp hstep
      -- the runner is alive, and seen
      have hearly : phase.early = true := by
        rcases StopPhase.sends_some hsends with ⟨rfl, _⟩ | ⟨rfl, _⟩ <;> rfl
      exact absurd (h.early phase hphase hearly).1 (live_eq_false law hdead).2
    · cases hstep
  case signalFails =>
    split at hstep
    · next found hsends =>
      obtain ⟨phase, hphase, hsends⟩ := Option.bind_eq_some_iff.mp hsends
      exact h.stopping hphase (by simp [StopPhase.early]) (fun _ => rfl) (Option.some.inj hstep).symm
    · cases hstep
  case receive =>
    split at hstep
    · cases hstep
    · next hcontrol =>
      -- the runner has said so, so there is a command
      have hcommand : s.command ≠ .absent := by
        intro habsent
        exact (h.started habsent).1 (hcontrol ▸ List.mem_cons_self)
      exact Option.some.inj hstep ▸ ⟨fun habsent => absurd habsent hcommand, h.anchored, h.controlDone,
        h.ended, h.killed, h.early, h.sent⟩
    · next hcontrol =>
      refine Option.some.inj hstep ▸ ⟨?_, h.anchored, h.controlDone, h.ended, h.killed, h.early, h.sent⟩
      intro habsent
      obtain ⟨hmessage, hready⟩ := h.started habsent
      exact ⟨fun hmem => hmessage (hcontrol ▸ List.mem_cons_of_mem _ hmem), hready⟩
  case controlEnds =>
    obtain ⟨_, hstep⟩ := Option.ite_none_right_eq_some.mp hstep
    refine Option.some.inj hstep ▸ ⟨?_, h.anchored, h.controlDone, h.ended, h.killed, h.early, h.sent⟩
    intro habsent
    obtain ⟨hmessage, hready⟩ := h.started habsent
    refine ⟨hmessage, ?_⟩
    dsimp only
    split
    · simp
    · exact hready
  case runnerObserves =>
    split at hstep
    · next hcommand _ =>
      exact Option.some.inj hstep ▸ ⟨fun habsent => absurd (hcommand.symm.trans habsent) (by simp),
        h.anchored, h.controlDone, h.ended, h.killed, h.early, h.sent⟩
    · cases hstep
  case runnerInputEnds =>
    obtain ⟨⟨_, hended, _⟩, hstep⟩ := Option.ite_none_right_eq_some.mp hstep
    exact Option.some.inj hstep ▸
      ⟨h.started, h.anchored, fun _ => hended, h.ended, h.killed, h.early, h.sent⟩
  all_goals
    obtain ⟨_, hstep⟩ := Option.ite_none_right_eq_some.mp hstep
    exact Option.some.inj hstep ▸
      ⟨h.started, h.anchored, h.controlDone, h.ended, h.killed, h.early, h.sent⟩

/-! ## Runs -/

theorem group_law {events : List ProcessEvent} {s : ProcessState}
    (hrun : Runs.run ProcessState.step ProcessState.spawned events = some s) : GroupLaw s :=
  Runs.run_keeps (fun h hstep => h.step hstep) GroupLaw.spawned hrun

theorem anchor_law {events : List ProcessEvent} {s : ProcessState}
    (hrun : Runs.run ProcessState.step ProcessState.spawned events = some s)
    (hspared : ∀ event ∈ events, Spared event) : AnchorLaw s := by
  have hboth : GroupLaw s ∧ AnchorLaw s := by
    refine Runs.run_keeps_throughout (P := fun s => GroupLaw s ∧ AnchorLaw s) ?_
      ⟨GroupLaw.spawned, AnchorLaw.spawned⟩ (Runs.throughout_of_forall hspared) hrun
    intro s t event h hcondition hstep
    exact ⟨h.1.step hstep, h.2.step h.1 hcondition hstep⟩
  exact hboth.2

/-- A command with a descendant that ignores TERM is stopped. -/
def stopRun : List ProcessEvent :=
  [.boot, .fork 0 1, .receive, .stop, .stopping false, .signal [1], .runnerObserves, .receive,
    .stopScan false, .stopping true, .stopScan false, .stopping false, .stopping false, .signal [],
    .reap, .stopping false, .pipesClose, .stopScan false, .stopping false, .stopping false]

end OwnedProcess

end Henji
