import Henji.Runtime.OwnedProcess

/-!
# What the host has seen of the group

An empty group stays empty, for only a member makes members. So what a snapshot has shown to be empty is
empty when the host goes on.
-/

namespace Henji

namespace OwnedProcess

/-! ## The group -/

/-- What holds of the group and of what the host has seen of it. -/
structure GroupLaw (s : ProcessState) : Prop where
  nodup : s.others.Nodup
  /-- The command is a member only while it runs. -/
  member : commandPid ∈ s.others → s.command = .running
  foreign : s.foreign = true → s.runner = .reaped ∧ s.others = []
  messages : ∀ status, .status status ∈ s.control → s.command = .exited status
  status : ∀ status, s.status = .resolved status → s.command = .exited status
  /-- Before the runner has its command the host has seen nothing. -/
  booting : s.runner = .booting → s.command = .absent ∧ s.others = [] ∧ s.control = [] ∧
    s.ready = .pending ∧ s.status = .pending ∧ s.lifetime = .awaitStatus ∧
    (s.stopping = none ∨ s.stopping = some .awaitReady) ∧ s.releaseAnchor = false
  scanned : s.lifetime = .scanned false → s.others = []
  released : s.releaseAnchor = true → s.others = []
  lifetime : s.lifetime = .awaitExit ∨ s.lifetime = .awaitPipes ∨ s.lifetime = .resolved →
    s.releaseAnchor = true
  closed : s.lifetime = .awaitPipes ∨ s.lifetime = .resolved → s.runner = .reaped
  stopReleased : s.stopping = some .awaitRelease → s.releaseAnchor = true
  drained : s.stopping = some (.drained false) ∨ s.stopping = some .awaitPipes ∨
    s.stopping = some .resolved → s.others = [] ∧ s.runner ≠ .anchored

theorem GroupLaw.spawned : GroupLaw ProcessState.spawned := by
  constructor <;> simp [ProcessState.spawned]

section Members

variable {s : ProcessState}

/-- Fewer members, the same command. -/
theorem GroupLaw.shrink (h : GroupLaw s) {others : List Nat} (hothers : others.Sublist s.others) :
    GroupLaw { s with others := others } where
  nodup := h.nodup.sublist hothers
  member := fun hmem => h.member (hothers.subset hmem)
  foreign := fun hforeign =>
    ⟨(h.foreign hforeign).1, List.sublist_nil.mp ((h.foreign hforeign).2 ▸ hothers)⟩
  messages := h.messages
  status := h.status
  booting := by
    intro hbooting
    obtain ⟨hcommand, hempty, hrest⟩ := h.booting hbooting
    exact ⟨hcommand, List.sublist_nil.mp (hempty ▸ hothers), hrest⟩
  scanned := fun hscanned => List.sublist_nil.mp (h.scanned hscanned ▸ hothers)
  released := fun hreleased => List.sublist_nil.mp (h.released hreleased ▸ hothers)
  lifetime := h.lifetime
  closed := h.closed
  stopReleased := h.stopReleased
  drained := by
    intro hdrained
    obtain ⟨hempty, hrunner⟩ := h.drained hdrained
    exact ⟨List.sublist_nil.mp (hempty ▸ hothers), hrunner⟩

/-- The exit of the command is final: nobody has seen one before. -/
theorem GroupLaw.commandEnds (h : GroupLaw s) (hrunning : s.command = .running) {found : ProcessStatus}
    (hgone : commandPid ∉ s.others) : GroupLaw { s with command := .exited found } where
  nodup := h.nodup
  member := fun hmem => absurd hmem hgone
  foreign := h.foreign
  messages := fun status hstatus => absurd (h.messages status hstatus) (by simp [hrunning])
  status := fun status hstatus => absurd (h.status status hstatus) (by simp [hrunning])
  booting := fun hbooting => absurd (h.booting hbooting).1 (by simp [hrunning])
  scanned := h.scanned
  released := h.released
  lifetime := h.lifetime
  closed := h.closed
  stopReleased := h.stopReleased
  drained := h.drained

theorem GroupLaw.endCommand (h : GroupLaw s) (found : ProcessStatus) : GroupLaw (s.endCommand found) := by
  rw [ProcessState.endCommand]
  by_cases hrunning : s.command = .running
  · rw [if_pos hrunning]
    have herased := h.shrink (List.erase_sublist : List.Sublist (s.others.erase commandPid) s.others)
    exact herased.commandEnds hrunning h.nodup.not_mem_erase
  · rw [if_neg hrunning]
    exact h

/-- TERM takes members away, the command perhaps among them. -/
theorem GroupLaw.term (h : GroupLaw s) (ignoring : List Nat) : GroupLaw (s.term ignoring) := by
  have hstays := h.shrink (List.filter_sublist : List.Sublist (s.others.filter (ignoring.contains ·)) s.others)
  rw [ProcessState.term]
  by_cases hends : commandPid ∈ s.others ∧ commandPid ∉ ignoring
  · rw [if_pos hends]
    exact hstays.commandEnds (h.member hends.1) (by simp [hends.2])
  · rw [if_neg hends]
    exact hstays

/-- The runner goes. -/
theorem GroupLaw.runnerGoes (h : GroupLaw s) {runner : RunnerState} (hthere : s.runner ≠ .reaped)
    (hgone : runner = .exited ∨ runner = .reaped) : GroupLaw { s with runner := runner } where
  nodup := h.nodup
  member := h.member
  foreign := fun hforeign => absurd (h.foreign hforeign).1 hthere
  messages := h.messages
  status := h.status
  booting := by
    intro hbooting
    rcases hgone with rfl | rfl <;> cases hbooting
  scanned := h.scanned
  released := h.released
  lifetime := h.lifetime
  closed := fun hclosed => absurd (h.closed hclosed) hthere
  stopReleased := h.stopReleased
  drained := by
    intro hdrained
    refine ⟨(h.drained hdrained).1, ?_⟩
    rcases hgone with rfl | rfl <;> simp

/-- KILL leaves nobody. -/
theorem GroupLaw.kill (h : GroupLaw s) : GroupLaw s.kill := by
  have hempty := h.shrink (List.nil_sublist s.others)
  have hcommand : GroupLaw { s with
      others := []
      command := if commandPid ∈ s.others then .exited killedStatus else s.command } := by
    by_cases hmember : commandPid ∈ s.others
    · rw [if_pos hmember]
      exact hempty.commandEnds (h.member hmember) (by simp)
    · rw [if_neg hmember]
      exact hempty
  rw [ProcessState.kill]
  split
  · next hrunner => exact hcommand.runnerGoes (by simp [hrunner]) (.inl rfl)
  · next hrunner => exact hcommand.runnerGoes (by simp [hrunner]) (.inl rfl)
  · exact hcommand

/-- What the law does not speak of. -/
theorem GroupLaw.recorded (h : GroupLaw s) (sent : List Sent) : GroupLaw { s with sent := sent } :=
  ⟨h.nodup, h.member, h.foreign, h.messages, h.status, h.booting, h.scanned, h.released, h.lifetime,
    h.closed, h.stopReleased, h.drained⟩

/-- A signal to a group that is not its own does nothing to the group. -/
theorem GroupLaw.sendSignal (h : GroupLaw s) (signal : Signal) (ignoring : List Nat) :
    GroupLaw (s.sendSignal signal ignoring) := by
  have hrecorded := h.recorded (⟨signal, s.runner, s.foreign⟩ :: s.sent)
  rw [ProcessState.sendSignal.eq_def]
  dsimp only
  by_cases hforeign : s.foreign = true
  · rw [if_pos hforeign]
    exact hrecorded
  · rw [if_neg hforeign]
    cases signal with
    | TERM => exact hrecorded.term ignoring
    | KILL => exact hrecorded.kill

end Members

section Host

variable {s t : ProcessState}

/-- The lifetime goes on. -/
theorem GroupLaw.lifetimeTo (h : GroupLaw s) {phase : LifetimePhase} (hbooted : s.runner ≠ .booting)
    (hscanned : phase = .scanned false → s.others = [])
    (hreleased : phase = .awaitExit ∨ phase = .awaitPipes ∨ phase = .resolved → s.releaseAnchor = true)
    (hclosed : phase = .awaitPipes ∨ phase = .resolved → s.runner = .reaped) :
    GroupLaw { s with lifetime := phase } where
  nodup := h.nodup
  member := h.member
  foreign := h.foreign
  messages := h.messages
  status := h.status
  booting := fun hbooting => absurd hbooting hbooted
  scanned := hscanned
  released := h.released
  lifetime := hreleased
  closed := hclosed
  stopReleased := h.stopReleased
  drained := h.drained

/-- The lifetime lets go of the runner. -/
theorem GroupLaw.release (h : GroupLaw s) (hempty : s.others = []) (hbooted : s.runner ≠ .booting) :
    GroupLaw { s with releaseAnchor := true, inputEnded := true, lifetime := .awaitExit } where
  nodup := h.nodup
  member := h.member
  foreign := h.foreign
  messages := h.messages
  status := h.status
  booting := fun hbooting => absurd hbooting hbooted
  scanned := fun _ => hempty
  released := fun _ => hempty
  lifetime := fun _ => rfl
  closed := fun hclosed => absurd hclosed (by simp)
  stopReleased := fun _ => rfl
  drained := h.drained

/-- The loop of the lifetime ends on an empty group. -/
theorem GroupLaw.afterLoop (h : GroupLaw s) (hempty : s.others = []) (hbooted : s.runner ≠ .booting) :
    GroupLaw s.afterLoop := by
  rw [ProcessState.afterLoop]
  split
  · exact h.lifetimeTo hbooted (by simp) (by simp) (by simp)
  · exact h.release hempty hbooted

theorem GroupLaw.loopHead (h : GroupLaw s) (hbooted : s.runner ≠ .booting) : GroupLaw s.loopHead := by
  rw [ProcessState.loopHead]
  by_cases hreleased : s.releaseAnchor = true
  · rw [if_pos hreleased]
    exact h.afterLoop (h.released hreleased) hbooted
  · rw [if_neg hreleased]
    exact h.lifetimeTo hbooted (by simp) (by simp) (by simp)

theorem GroupLaw.callStop (h : GroupLaw s) : GroupLaw s.callStop := by
  cases hstopping : s.stopping with
  | some phase =>
    have hsame : s.stopping.or (some .awaitReady) = s.stopping := by simp [hstopping]
    rw [ProcessState.callStop, hsame]
    exact h
  | none =>
    have hnew : s.callStop = { s with stopping := some .awaitReady } := by
      simp [ProcessState.callStop, hstopping]
    rw [hnew]
    exact {
      nodup := h.nodup
      member := h.member
      foreign := h.foreign
      messages := h.messages
      status := h.status
      booting := by
        intro hbooting
        obtain ⟨hcommand, hempty, hcontrol, hready, hstatus, hlifetime, _, hkept⟩ := h.booting hbooting
        exact ⟨hcommand, hempty, hcontrol, hready, hstatus, hlifetime, .inr rfl, hkept⟩
      scanned := h.scanned
      released := h.released
      lifetime := h.lifetime
      closed := h.closed
      stopReleased := fun hrelease => absurd hrelease (by simp)
      drained := fun hdrained => absurd hdrained (by simp) }

theorem GroupLaw.lifetimeFails (h : GroupLaw s) (hbooted : s.runner ≠ .booting) :
    GroupLaw s.lifetimeFails :=
  h.callStop.lifetimeTo hbooted (by simp) (by simp) (by simp)

/-- A lifetime that goes on has seen the status. -/
theorem GroupLaw.booted_of_lifetime (h : GroupLaw s) (hlifetime : s.lifetime ≠ .awaitStatus) :
    s.runner ≠ .booting := by
  intro hbooting
  exact hlifetime (h.booting hbooting).2.2.2.2.2.1

theorem GroupLaw.booted_of_status (h : GroupLaw s) (hstatus : s.status ≠ .pending) :
    s.runner ≠ .booting := by
  intro hbooting
  exact hstatus (h.booting hbooting).2.2.2.2.1

theorem GroupLaw.lifetimeStep (h : GroupLaw s) (hstep : lifetimeStep s s.lifetime = some t) :
    GroupLaw t := by
  cases hphase : s.lifetime <;> rw [hphase] at hstep <;> simp only [OwnedProcess.lifetimeStep] at hstep
  case awaitStatus =>
    split at hstep
    · cases hstep
    · next hstatus =>
      exact Option.some.inj hstep ▸ h.loopHead (h.booted_of_status (by simp [hstatus]))
    · next hstatus =>
      exact Option.some.inj hstep ▸ h.lifetimeFails (h.booted_of_status (by simp [hstatus]))
  case scanned remaining =>
    have hbooted := h.booted_of_lifetime (by simp [hphase])
    cases remaining with
    | true => exact Option.some.inj hstep ▸ h.lifetimeTo hbooted (by simp) (by simp) (by simp)
    | false => exact Option.some.inj hstep ▸ h.afterLoop (h.scanned hphase) hbooted
  case delaying =>
    exact Option.some.inj hstep ▸ h.loopHead (h.booted_of_lifetime (by simp [hphase]))
  case awaitStop =>
    have hbooted := h.booted_of_lifetime (by simp [hphase])
    split at hstep
    · next hstopped =>
      exact Option.some.inj hstep ▸ h.release (h.drained (.inr (.inr hstopped))).1 hbooted
    · exact Option.some.inj hstep ▸ h.lifetimeFails hbooted
    · cases hstep
  case awaitExit =>
    obtain ⟨hreaped, hstep⟩ := Option.ite_none_right_eq_some.mp hstep
    exact Option.some.inj hstep ▸ h.lifetimeTo (by simp [hreaped]) (by simp)
      (fun _ => h.lifetime (.inl hphase)) (fun _ => hreaped)
  case awaitPipes =>
    obtain ⟨_, hstep⟩ := Option.ite_none_right_eq_some.mp hstep
    have hreaped := h.closed (.inl hphase)
    exact Option.some.inj hstep ▸ h.lifetimeTo (by simp [hreaped]) (by simp)
      (fun _ => h.lifetime (.inr (.inl hphase))) (fun _ => hreaped)
  case failing =>
    have hbooted := h.booted_of_lifetime (by simp [hphase])
    split at hstep
    · exact Option.some.inj hstep ▸ h.lifetimeTo hbooted (by simp) (by simp) (by simp)
    · exact Option.some.inj hstep ▸ h.lifetimeTo hbooted (by simp) (by simp) (by simp)
    · cases hstep
  all_goals cases hstep

/-- `stop` goes on. -/
theorem GroupLaw.stopTo (h : GroupLaw s) {phase : StopPhase} (hbooted : s.runner ≠ .booting)
    (hrelease : phase = .awaitRelease → s.releaseAnchor = true)
    (hdrained : phase = .drained false ∨ phase = .awaitPipes ∨ phase = .resolved →
      s.others = [] ∧ s.runner ≠ .anchored) : GroupLaw { s with stopping := some phase } where
  nodup := h.nodup
  member := h.member
  foreign := h.foreign
  messages := h.messages
  status := h.status
  booting := fun hbooting => absurd hbooting hbooted
  scanned := h.scanned
  released := h.released
  lifetime := h.lifetime
  closed := h.closed
  stopReleased := fun hphase => hrelease (Option.some.inj hphase)
  drained := by
    intro hphase
    simp only [Option.some.injEq] at hphase
    exact hdrained hphase

/-- A phase that comes after the runner is ready. -/
theorem GroupLaw.booted (h : GroupLaw s) {phase : StopPhase} (hphase : s.stopping = some phase)
    (hready : phase ≠ .awaitReady) : s.runner ≠ .booting := by
  intro hbooting
  obtain ⟨_, _, _, _, _, _, hstopping, _⟩ := h.booting hbooting
  rcases hstopping with hnone | hwaits
  · simp [hphase] at hnone
  · exact hready (Option.some.inj (hphase.symm.trans hwaits))

theorem GroupLaw.stopStep (h : GroupLaw s) {late : Bool} {phase : StopPhase}
    (hphase : s.stopping = some phase) (hstep : stopStep s late phase = some t) : GroupLaw t := by
  cases phase <;> simp only [OwnedProcess.stopStep] at hstep
  case awaitReady =>
    have hbooted : s.ready ≠ .pending → s.runner ≠ .booting := fun hready hbooting =>
      hready (h.booting hbooting).2.2.2.1
    split at hstep
    · cases hstep
    · next hready =>
      exact Option.some.inj hstep ▸ h.stopTo (hbooted (by simp [hready])) (by simp) (by simp)
    · next hready =>
      split at hstep
      · next hreleased =>
        exact Option.some.inj hstep ▸ h.stopTo (hbooted (by simp [hready])) (fun _ => hreleased) (by simp)
      · exact Option.some.inj hstep ▸ h.stopTo (hbooted (by simp [hready])) (by simp) (by simp)
  case awaitRelease =>
    obtain ⟨hreaped, hstep⟩ := Option.ite_none_right_eq_some.mp hstep
    exact Option.some.inj hstep ▸ h.stopTo (by simp [hreaped]) (by simp)
      (fun _ => ⟨h.released (h.stopReleased hphase), by simp [hreaped]⟩)
  case polled remaining =>
    have hbooted := h.booted hphase (by simp)
    split at hstep
    · exact Option.some.inj hstep ▸ h.stopTo hbooted (by simp) (by simp)
    · exact Option.some.inj hstep ▸ h.stopTo hbooted (by simp) (by simp)
  case decided remaining =>
    have hbooted := h.booted hphase (by simp)
    split at hstep
    · rw [← Option.some.inj hstep]
      have hstop : GroupLaw { s with stopping := some .awaitStatus } :=
        h.stopTo hbooted (by simp) (by simp)
      exact ⟨hstop.nodup, hstop.member, hstop.foreign, hstop.messages, hstop.status, hstop.booting,
        hstop.scanned, hstop.released, hstop.lifetime, hstop.closed, hstop.stopReleased, hstop.drained⟩
    · rw [← Option.some.inj hstep]
      have hstop : GroupLaw { s with stopping := some .awaitExit } :=
        h.stopTo hbooted (by simp) (by simp)
      exact ⟨hstop.nodup, hstop.member, hstop.foreign, hstop.messages, hstop.status, hstop.booting,
        hstop.scanned, hstop.released, hstop.lifetime, hstop.closed, hstop.stopReleased, hstop.drained⟩
  case awaitStatus =>
    have hbooted := h.booted hphase (by simp)
    split at hstep
    · cases hstep
    · exact Option.some.inj hstep ▸ h.stopTo hbooted (by simp) (by simp)
    · exact Option.some.inj hstep ▸ h.stopTo hbooted (by simp) (by simp)
  case awaitExit =>
    obtain ⟨hreaped, hstep⟩ := Option.ite_none_right_eq_some.mp hstep
    exact Option.some.inj hstep ▸ h.stopTo (by simp [hreaped]) (by simp) (by simp)
  case drained live =>
    have hbooted := h.booted hphase (by simp)
    cases live with
    | true => exact Option.some.inj hstep ▸ h.stopTo hbooted (by simp) (by simp)
    | false =>
      exact Option.some.inj hstep ▸ h.stopTo hbooted (by simp) (fun _ => h.drained (.inl hphase))
  case awaitPipes =>
    obtain ⟨_, hstep⟩ := Option.ite_none_right_eq_some.mp hstep
    have hbooted := h.booted hphase (by simp)
    have hdrained := h.drained (.inr (.inl hphase))
    have hstop : GroupLaw { s with stopping := some .resolved } :=
      h.stopTo hbooted (by simp) (fun _ => hdrained)
    rw [← Option.some.inj hstep]
    exact ⟨hstop.nodup, hstop.member, hstop.foreign, hstop.messages, hstop.status,
      fun hbooting => absurd hbooting hbooted, hstop.scanned, fun _ => hdrained.1, fun _ => rfl,
      hstop.closed, fun _ => rfl, hstop.drained⟩
  all_goals cases hstep

end Host

theorem remaining_eq_false {s : ProcessState} {foreignLive : Bool} (h : GroupLaw s)
    (hremaining : s.remaining foreignLive = false) : s.others = [] := by
  rw [ProcessState.remaining] at hremaining
  by_cases hforeign : s.foreign = true
  · exact (h.foreign hforeign).2
  · simpa [hforeign] using hremaining

theorem live_eq_false {s : ProcessState} {foreignLive : Bool} (h : GroupLaw s)
    (hlive : s.live foreignLive = false) : s.others = [] ∧ s.runner ≠ .anchored := by
  rw [ProcessState.live] at hlive
  by_cases hforeign : s.foreign = true
  · obtain ⟨hreaped, hempty⟩ := h.foreign hforeign
    exact ⟨hempty, by simp [hreaped]⟩
  · rw [if_neg hforeign] at hlive
    simp only [Bool.or_eq_false_iff, Bool.not_eq_false', List.isEmpty_iff, beq_eq_false_iff_ne] at hlive
    exact ⟨hlive.1.1, hlive.2⟩

theorem StopPhase.sends_some {phase next : StopPhase} {signal : Signal}
    (h : phase.sends = some (signal, next)) :
    phase = .terminating ∧ signal = .TERM ∧ next = .polling ∨
      phase = .killing ∧ signal = .KILL ∧ next = .awaitExit := by
  cases phase with
  | terminating =>
    cases h
    exact .inl ⟨rfl, rfl, rfl⟩
  | killing =>
    cases h
    exact .inr ⟨rfl, rfl, rfl⟩
  | _ => cases h

theorem sendSignal_stopping (s : ProcessState) (signal : Signal) (ignoring : List Nat) :
    (s.sendSignal signal ignoring).stopping = s.stopping := by
  rw [ProcessState.sendSignal.eq_def]
  dsimp only
  split
  · rfl
  · cases signal with
    | TERM =>
      simp only [ProcessState.term]
      split <;> rfl
    | KILL => rfl

/-- After a signal, sent or not, `stop` goes on. -/
theorem GroupLaw.signalled {s : ProcessState} (h : GroupLaw s) {phase next : StopPhase} {signal : Signal}
    (hphase : s.stopping = some phase) (hsends : phase.sends = some (signal, next)) :
    GroupLaw { s with stopping := some next } := by
  rcases StopPhase.sends_some hsends with ⟨rfl, _, rfl⟩ | ⟨rfl, _, rfl⟩
  · exact h.stopTo (h.booted hphase (by simp)) (by simp) (by simp)
  · exact h.stopTo (h.booted hphase (by simp)) (by simp) (by simp)

section Steps

variable {s t : ProcessState}

theorem GroupLaw.boot (h : GroupLaw s) (hbooting : s.runner = .booting) : GroupLaw { s with
    runner := .anchored
    command := .running
    others := [commandPid]
    control := s.control ++ [.started] } := by
  obtain ⟨_, _, hcontrol, hready, hstatus, hlifetime, hstopping, hkept⟩ := h.booting hbooting
  have hstop : ∀ phase, s.stopping = some phase → phase = .awaitReady := by
    intro phase hphase
    rcases hstopping with hnone | hwaits
    · simp [hphase] at hnone
    · exact Option.some.inj (hphase.symm.trans hwaits)
  exact {
    nodup := by simp
    member := fun _ => rfl
    foreign := fun hforeign => absurd (h.foreign hforeign).1 (by simp [hbooting])
    messages := fun status hmem => by simp [hcontrol] at hmem
    status := fun status hresolved => absurd (hstatus.symm.trans hresolved) (by simp)
    booting := fun hbooting => by cases hbooting
    scanned := fun hscanned => absurd (hlifetime.symm.trans hscanned) (by simp)
    released := fun hreleased => absurd (hkept.symm.trans hreleased) (by simp)
    lifetime := fun hphase => absurd hphase (by simp [hlifetime])
    closed := fun hphase => absurd hphase (by simp [hlifetime])
    stopReleased := fun hphase => absurd (hstop _ hphase) (by simp)
    drained := by
      intro hphase
      rcases hphase with hphase | hphase | hphase
      · exact absurd (hstop _ hphase) (by simp)
      · exact absurd (hstop _ hphase) (by simp)
      · exact absurd (hstop _ hphase) (by simp) }

/-- A member makes another, so the group was not empty. -/
theorem GroupLaw.fork (h : GroupLaw s) {parent child : Nat} (hparent : parent ∈ s.others)
    (hfresh : child ∉ s.others) (hchild : child ≠ commandPid) :
    GroupLaw { s with others := s.others ++ [child] } := by
  have hsome : s.others ≠ [] := List.ne_nil_of_mem hparent
  exact {
    nodup := List.nodup_append.mpr ⟨h.nodup, by simp, by
      intro id hid other hother heq
      exact hfresh (List.mem_singleton.mp hother ▸ heq ▸ hid)⟩
    member := by
      intro hmem
      rcases List.mem_append.mp hmem with hold | hnew
      · exact h.member hold
      · exact absurd (List.mem_singleton.mp hnew).symm hchild
    foreign := fun hforeign => absurd (h.foreign hforeign).2 hsome
    messages := h.messages
    status := h.status
    booting := fun hbooting => absurd (h.booting hbooting).2.1 hsome
    scanned := fun hscanned => absurd (h.scanned hscanned) hsome
    released := fun hreleased => absurd (h.released hreleased) hsome
    lifetime := h.lifetime
    closed := h.closed
    stopReleased := h.stopReleased
    drained := fun hdrained => absurd (h.drained hdrained).1 hsome }

/-- The runner reports the exit that it saw. -/
theorem GroupLaw.observe (h : GroupLaw s) {status : ProcessStatus} (hrunner : s.runner = .anchored)
    (hcommand : s.command = .exited status) :
    GroupLaw { s with observed := true, control := s.control ++ [.status status] } where
  nodup := h.nodup
  member := h.member
  foreign := h.foreign
  messages := by
    intro found hmem
    rcases List.mem_append.mp hmem with hold | hnew
    · exact h.messages found hold
    · cases List.mem_singleton.mp hnew
      exact hcommand
  status := h.status
  booting := fun hbooting => absurd (hrunner.symm.trans hbooting) (by simp)
  scanned := h.scanned
  released := h.released
  lifetime := h.lifetime
  closed := h.closed
  stopReleased := h.stopReleased
  drained := h.drained

/-- What the host receives was written. -/
theorem GroupLaw.receive (h : GroupLaw s) {message : Message} {rest : List Message}
    {ready : Settled Unit} {status : Settled ProcessStatus} (hcontrol : s.control = message :: rest)
    (hstatus : status = s.status ∨ ∃ found, message = .status found ∧ status = .resolved found) :
    GroupLaw { s with control := rest, ready := ready, status := status } where
  nodup := h.nodup
  member := h.member
  foreign := h.foreign
  messages := fun found hmem => h.messages found (hcontrol ▸ List.mem_cons_of_mem _ hmem)
  status := by
    intro found hfound
    rcases hstatus with hsame | ⟨sent, hmessage, hsent⟩
    · exact h.status found (hsame.symm.trans hfound)
    · have heq : sent = found := by
        simpa using hsent.symm.trans hfound
      exact h.messages found (hcontrol ▸ hmessage ▸ heq ▸ List.mem_cons_self)
  booting := fun hbooting => absurd (hcontrol.symm.trans (h.booting hbooting).2.2.1) (by simp)
  scanned := h.scanned
  released := h.released
  lifetime := h.lifetime
  closed := h.closed
  stopReleased := h.stopReleased
  drained := h.drained

theorem GroupLaw.controlEnds (h : GroupLaw s) (hreaped : s.runner = .reaped) (ready : Settled Unit) :
    GroupLaw { s with ready := ready, status := .rejected } where
  nodup := h.nodup
  member := h.member
  foreign := h.foreign
  messages := h.messages
  status := fun _ hresolved => by cases hresolved
  booting := fun hbooting => absurd (hreaped.symm.trans hbooting) (by simp)
  scanned := h.scanned
  released := h.released
  lifetime := h.lifetime
  closed := h.closed
  stopReleased := h.stopReleased
  drained := h.drained

theorem GroupLaw.reuse (h : GroupLaw s) (hreaped : s.runner = .reaped) (hempty : s.others = []) :
    GroupLaw { s with foreign := true } :=
  ⟨h.nodup, h.member, fun _ => ⟨hreaped, hempty⟩, h.messages, h.status,
    fun hbooting => absurd (hreaped.symm.trans hbooting) (by simp), h.scanned, h.released, h.lifetime,
    h.closed, h.stopReleased, h.drained⟩

theorem GroupLaw.step {event : ProcessEvent} (h : GroupLaw s) (hstep : s.step event = some t) :
    GroupLaw t := by
  cases event <;> simp only [ProcessState.step] at hstep
  case boot =>
    obtain ⟨hbooting, hstep⟩ := Option.ite_none_right_eq_some.mp hstep
    exact Option.some.inj hstep ▸ h.boot hbooting
  case bootFails =>
    obtain ⟨hbooting, hstep⟩ := Option.ite_none_right_eq_some.mp hstep
    exact Option.some.inj hstep ▸ h.runnerGoes (by simp [hbooting]) (.inl rfl)
  case commandExits found =>
    obtain ⟨_, hstep⟩ := Option.ite_none_right_eq_some.mp hstep
    exact Option.some.inj hstep ▸ h.endCommand found
  case fork parent child =>
    obtain ⟨⟨hparent, hfresh, hchild⟩, hstep⟩ := Option.ite_none_right_eq_some.mp hstep
    exact Option.some.inj hstep ▸ h.fork hparent hfresh hchild
  case exits id =>
    obtain ⟨_, hstep⟩ := Option.ite_none_right_eq_some.mp hstep
    exact Option.some.inj hstep ▸ h.shrink List.erase_sublist
  case leaves id =>
    obtain ⟨_, hstep⟩ := Option.ite_none_right_eq_some.mp hstep
    exact Option.some.inj hstep ▸ h.shrink List.erase_sublist
  case memberKill id =>
    obtain ⟨_, hstep⟩ := Option.ite_none_right_eq_some.mp hstep
    exact Option.some.inj hstep ▸ h.kill
  case runnerObserves =>
    split at hstep
    · next hrunner hcommand _ => exact Option.some.inj hstep ▸ h.observe hrunner hcommand
    · cases hstep
  case runnerReads =>
    obtain ⟨_, hstep⟩ := Option.ite_none_right_eq_some.mp hstep
    have hread : GroupLaw { s with killRequested := false } :=
      ⟨h.nodup, h.member, h.foreign, h.messages, h.status, h.booting, h.scanned, h.released, h.lifetime,
        h.closed, h.stopReleased, h.drained⟩
    exact Option.some.inj hstep ▸ hread.endCommand killedStatus
  case runnerInputEnds =>
    obtain ⟨_, hstep⟩ := Option.ite_none_right_eq_some.mp hstep
    exact Option.some.inj hstep ▸ ⟨h.nodup, h.member, h.foreign, h.messages, h.status, h.booting,
      h.scanned, h.released, h.lifetime, h.closed, h.stopReleased, h.drained⟩
  case runnerExits =>
    obtain ⟨⟨hrunner, _⟩, hstep⟩ := Option.ite_none_right_eq_some.mp hstep
    exact Option.some.inj hstep ▸ h.runnerGoes (by simp [hrunner]) (.inl rfl)
  case reap =>
    obtain ⟨hrunner, hstep⟩ := Option.ite_none_right_eq_some.mp hstep
    exact Option.some.inj hstep ▸ h.runnerGoes (by simp [hrunner]) (.inr rfl)
  case pipesClose =>
    obtain ⟨_, hstep⟩ := Option.ite_none_right_eq_some.mp hstep
    exact Option.some.inj hstep ▸ ⟨h.nodup, h.member, h.foreign, h.messages, h.status, h.booting,
      h.scanned, h.released, h.lifetime, h.closed, h.stopReleased, h.drained⟩
  case reuse =>
    obtain ⟨⟨hreaped, hempty⟩, hstep⟩ := Option.ite_none_right_eq_some.mp hstep
    exact Option.some.inj hstep ▸ h.reuse hreaped hempty
  case receive =>
    split at hstep
    · cases hstep
    · next hcontrol => exact Option.some.inj hstep ▸ h.receive hcontrol (.inl rfl)
    · next status rest hcontrol =>
      exact Option.some.inj hstep ▸ h.receive hcontrol (.inr ⟨status, rfl, rfl⟩)
  case controlEnds =>
    obtain ⟨⟨hreaped, _⟩, hstep⟩ := Option.ite_none_right_eq_some.mp hstep
    exact Option.some.inj hstep ▸ h.controlEnds hreaped _
  case lifetimeScan foreignLive =>
    obtain ⟨hscanning, hstep⟩ := Option.ite_none_right_eq_some.mp hstep
    exact Option.some.inj hstep ▸ h.lifetimeTo (h.booted_of_lifetime (by simp [hscanning]))
      (fun hempty => remaining_eq_false h (LifetimePhase.scanned.inj hempty)) (by simp) (by simp)
  case lifetimeScanFails =>
    obtain ⟨hscanning, hstep⟩ := Option.ite_none_right_eq_some.mp hstep
    exact Option.some.inj hstep ▸ h.lifetimeFails (h.booted_of_lifetime (by simp [hscanning]))
  case lifetime => exact h.lifetimeStep hstep
  case stop => exact Option.some.inj hstep ▸ h.callStop
  case stopScan foreignLive =>
    split at hstep
    · next hphase =>
      exact Option.some.inj hstep ▸ h.stopTo (h.booted hphase (by simp)) (by simp) (by simp)
    · next hphase =>
      exact Option.some.inj hstep ▸ h.stopTo (h.booted hphase (by simp)) (by simp) (by simp)
    · next hphase =>
      refine Option.some.inj hstep ▸ h.stopTo (h.booted hphase (by simp)) (by simp) ?_
      intro hdrained
      have hlive : s.live foreignLive = false := by simpa using hdrained
      exact live_eq_false h hlive
    · cases hstep
  case stopScanFails =>
    split at hstep
    · next hphase =>
      exact Option.some.inj hstep ▸ h.stopTo (h.booted hphase (by simp)) (by simp) (by simp)
    · next hphase =>
      exact Option.some.inj hstep ▸ h.stopTo (h.booted hphase (by simp)) (by simp) (by simp)
    · next hphase =>
      exact Option.some.inj hstep ▸ h.stopTo (h.booted hphase (by simp)) (by simp) (by simp)
    · cases hstep
  case stopping late =>
    obtain ⟨phase, hphase, hstep⟩ := Option.bind_eq_some_iff.mp hstep
    exact h.stopStep hphase hstep
  case signal ignoring =>
    split at hstep
    · next signal next hsends =>
      obtain ⟨phase, hphase, hsends⟩ := Option.bind_eq_some_iff.mp hsends
      have hstopping := (sendSignal_stopping s signal ignoring).trans hphase
      exact Option.some.inj hstep ▸ (h.sendSignal signal ignoring).signalled hstopping hsends
    · cases hstep
  case signalMissed foreignLive =>
    split at hstep
    · next signal next hsends =>
      obtain ⟨phase, hphase, hsends⟩ := Option.bind_eq_some_iff.mp hsends
      obtain ⟨_, hstep⟩ := Option.ite_none_right_eq_some.mp hstep
      exact Option.some.inj hstep ▸ h.signalled hphase hsends
    · cases hstep
  case signalFails =>
    split at hstep
    · next found hsends =>
      obtain ⟨phase, hphase, hsends⟩ := Option.bind_eq_some_iff.mp hsends
      have hready : phase ≠ .awaitReady := by
        intro hwaits
        rw [hwaits] at hsends
        cases hsends
      exact Option.some.inj hstep ▸ h.stopTo (h.booted hphase hready) (by simp) (by simp)
    · cases hstep

end Steps

end OwnedProcess

end Henji
