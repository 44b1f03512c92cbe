import Henji.Provider.TokenRefreshLaw

/-!
# Refused tokens and the refresh protocol

The subject of an account stays. After an `invalid_grant` the holder of the lock marks the file, and
until a login saves new tokens no call asks for a refresh: the later ones find the account expired,
wait for the lock, and then find it marked.
-/

namespace Henji

namespace ChatGPTAuth

/-! ## The subject -/

/-- A file with an account keeps its subject. -/
theorem TokenLaw.subject_apply {s : AuthState} {effect : Effect} (h : TokenLaw s)
    (htransition : Transition s effect) {registrationId : RegistrationId} {account : AccountRecord}
    (hfile : s.files registrationId = .record account) :
    ∃ found, (effect.apply s).files registrationId = .record found ∧
      found.subject = account.subject := by
  cases hwritten : effect.file with
  | none => exact ⟨account, by simpa [Effect.apply, hwritten] using hfile, rfl⟩
  | some next =>
    by_cases hregistration : registrationId = effect.new.registrationId
    · refine ⟨next, by simp [Effect.apply, hwritten, hregistration], ?_⟩
      cases htransition with
      | @marked id marked old hcall =>
        obtain ⟨hold, _⟩ := h.fits _ _ hcall
        have hsame : registrationId = marked := hregistration
        rw [hsame, hold] at hfile
        rw [← Option.some.inj hwritten, ← AccountFile.record.inj hfile]
      | @refreshed id saving saved result hcall _ =>
        obtain ⟨⟨old, hold, hsubject⟩, _⟩ := h.fits _ _ hcall
        have hsame : registrationId = saving := hregistration
        rw [hsame, hold] at hfile
        rw [← Option.some.inj hwritten, ← AccountFile.record.inj hfile, hsubject]
      | @loggedIn id saving saved hcall =>
        have hsame : registrationId = saving := hregistration
        rw [hsame] at hfile
        rw [← Option.some.inj hwritten]
        exact (h.fits _ _ hcall account hfile).symm
      | moved => cases hwritten
      | started => cases hwritten
      | begun => cases hwritten
      | loaded => cases hwritten
      | usable => cases hwritten
      | requested => cases hwritten
      | refused => cases hwritten
      | granted => cases hwritten
      | returned => cases hwritten
      | previous => cases hwritten
      | matched => cases hwritten
    · exact ⟨account, by simpa [Effect.apply, hwritten, hregistration] using hfile, rfl⟩

theorem TokenLaw.subject_step {s t : AuthState} {event : AuthEvent} (h : TokenLaw s)
    (hstep : s.step event = some t) {registrationId : RegistrationId} {account : AccountRecord}
    (hfile : s.files registrationId = .record account) :
    ∃ found, t.files registrationId = .record found ∧ found.subject = account.subject := by
  rcases step_effect hstep with ⟨elapsed, rfl⟩ | ⟨effect, htransition, rfl⟩
  · exact ⟨account, hfile, rfl⟩
  · exact h.subject_apply htransition hfile

/-! ## After a refusal -/

/-- What ends the refusal that a call was answered with: its mark could not be written, or a login saved
new tokens. -/
def Fact.lifts (id : CallId) (registrationId : RegistrationId) : Fact → Bool
  | .writeFailed call account => call = id && account = registrationId
  | .loggedIn _ saved _ => saved = registrationId
  | _ => false

/-- Phases of a call that will fail. A check under the lock is decided by the file. -/
def ResolvePhase.fails (now : Int) : ResolvePhase → Prop
  | .loading _ => True
  | .checking locked (.ok (some account)) =>
    locked = true ∨ account.needsReauthentication = some true ∨ account.expiresAt ≤ now
  | .checking _ _ => True
  | .waiting => True
  | .leaving _ (.error _) => True
  | .done (.error _) => True
  | _ => False

theorem ResolvePhase.fails_later {now later : Int} {phase : ResolvePhase} (h : phase.fails now)
    (hnow : now ≤ later) : phase.fails later := by
  match phase with
  | .loading _ => trivial
  | .checking locked (.ok (some account)) =>
    rcases h with hlocked | hneeds | hexpired
    · exact .inl hlocked
    · exact .inr (.inl hneeds)
    · exact .inr (.inr (Int.le_trans hexpired hnow))
  | .checking _ (.ok none) => trivial
  | .checking _ (.error _) => trivial
  | .waiting => trivial
  | .leaving _ (.error _) => trivial
  | .done (.error _) => trivial

/-- The call is in a refresh. -/
def ResolvePhase.refreshing : ResolvePhase → Bool
  | .requesting _ => true
  | .saving _ => true
  | _ => false

/-- What holds from the refusal on, where nothing in `after` ends it. -/
structure Refused (s : AuthState) (id : CallId) (registrationId : RegistrationId) (after : List Fact) :
    Prop where
  file : ∃ account, s.files registrationId = .record account ∧
    (account.needsReauthentication = some true ∨
      s.calls id = some (.resolve registrationId (.marking account)))
  idle : ∀ other phase, s.calls other = some (.resolve registrationId phase) → phase.refreshing = false
  unsent : ∀ other refreshToken, .requested other registrationId refreshToken ∉ after
  fails : ∀ other phase, .started other registrationId ∈ after →
    s.calls other = some (.resolve registrationId phase) → phase.fails s.now

theorem Refused.tick {s : AuthState} {id : CallId} {registrationId : RegistrationId} {after : List Fact}
    (h : Refused s id registrationId after) (elapsed : Nat) :
    Refused { s with now := s.now + elapsed } id registrationId after where
  file := h.file
  idle := h.idle
  unsent := h.unsent
  fails := by
    intro other phase hstarted hcall
    exact ResolvePhase.fails_later (h.fails other phase hstarted hcall) (Int.le_add_of_nonneg_right (by simp))

section Apply

variable {s : AuthState} {effect : Effect} {id : CallId} {registrationId : RegistrationId}
  {after : List Fact}

/-- The only call that changes the mark that is due is the one that is about to write it. -/
theorem Transition.of_marking {account : AccountRecord} (h : Transition s effect)
    (hcall : s.calls effect.id = some (.resolve registrationId (.marking account))) :
    effect.new.registrationId = registrationId ∧
      (effect.fact = some (.writeFailed effect.id registrationId) ∨
        effect.file = some { account with needsReauthentication := some true }) := by
  cases h with
  | started hnone => exact absurd (hnone.symm.trans hcall) (by simp)
  | begun hnone => exact absurd (hnone.symm.trans hcall) (by simp)
  | moved hold hregistration _ _ _ hmarking =>
    have hsame := Option.some.inj (hold.symm.trans hcall)
    subst hsame
    exact ⟨hregistration, .inl (hmarking registrationId account rfl)⟩
  | loaded hold _ => exact absurd (hold.symm.trans hcall) (by simp)
  | usable hold _ _ _ => exact absurd (hold.symm.trans hcall) (by simp)
  | requested hold _ _ => exact absurd (hold.symm.trans hcall) (by simp)
  | refused hold => exact absurd (hold.symm.trans hcall) (by simp)
  | granted hold _ _ _ => exact absurd (hold.symm.trans hcall) (by simp)
  | marked hold =>
    have hsame := Option.some.inj (hold.symm.trans hcall)
    cases hsame
    exact ⟨rfl, .inr rfl⟩
  | refreshed hold _ => exact absurd (hold.symm.trans hcall) (by simp)
  | returned hold _ => exact absurd (hold.symm.trans hcall) (by simp)
  | previous hold _ => exact absurd (hold.symm.trans hcall) (by simp)
  | matched hold _ => exact absurd (hold.symm.trans hcall) (by simp)
  | loggedIn hold => exact absurd (hold.symm.trans hcall) (by simp)

/-- Under the lock the account is found marked. -/
theorem Refused.marked (h : Refused s id registrationId after) (law : TokenLaw s) {other : CallId}
    {account : AccountRecord}
    (hcall : s.calls other = some (.resolve registrationId (.checking true (.ok (some account))))) :
    account.needsReauthentication = some true := by
  obtain ⟨found, hfile, hneeds | hmarking⟩ := h.file
  · obtain ⟨_, hlocked⟩ := law.fits _ _ hcall
    rw [(loadAccount_some (hlocked rfl)).1] at hfile
    exact AccountFile.record.inj hfile ▸ hneeds
  · -- the lock is with the call that is about to mark
    have hsame : other = id := law.locked.unique hmarking rfl hcall rfl rfl
    rw [hsame, hmarking] at hcall
    cases hcall

/-- What a check of the file finds is marked or expired. -/
theorem Refused.loaded (h : Refused s id registrationId after) (law : TokenLaw s)
    {account : AccountRecord}
    (hload : loadAccount (s.files registrationId) registrationId = .ok (some account)) :
    account.needsReauthentication = some true ∨ account.expiresAt ≤ s.now := by
  obtain ⟨found, hfile, hneeds | hmarking⟩ := h.file
  · rw [(loadAccount_some hload).1] at hfile
    exact .inl (AccountFile.record.inj hfile ▸ hneeds)
  · rw [(loadAccount_some hload).1] at hfile
    exact .inr (AccountFile.record.inj hfile ▸ (law.fits _ _ hmarking).2)

theorem Refused.file_apply (h : Refused s id registrationId after) (htransition : Transition s effect)
    (hlifts : ∀ fact ∈ effect.fact, Fact.lifts id registrationId fact = false) :
    ∃ account, (effect.apply s).files registrationId = .record account ∧
      (account.needsReauthentication = some true ∨
        (effect.apply s).calls id = some (.resolve registrationId (.marking account))) := by
  obtain ⟨account, hfile, hstate⟩ := h.file
  by_cases hwrites : effect.file ≠ none ∧ effect.new.registrationId = registrationId
  · obtain ⟨hwritten, hregistration⟩ := hwrites
    cases htransition with
    | @marked other marked old hcall =>
      refine ⟨{ old with needsReauthentication := some true }, ?_, .inl rfl⟩
      simp [Effect.apply, hregistration]
    | @refreshed other saving saved result hcall _ =>
      have hsame : saving = registrationId := hregistration
      exact absurd (h.idle other _ (hsame ▸ hcall)) (by simp [ResolvePhase.refreshing])
    | @loggedIn other saving saved hcall =>
      have hsame : saving = registrationId := hregistration
      exact absurd (hlifts _ rfl) (by simp [Fact.lifts, hsame])
    | _ => exact absurd rfl hwritten
  · have hsame : (effect.apply s).files registrationId = s.files registrationId := by
      cases hwritten : effect.file with
      | none => simp [Effect.apply, hwritten]
      | some next =>
        have hne : registrationId ≠ effect.new.registrationId := fun heq =>
          hwrites ⟨by simp [hwritten], heq.symm⟩
        simp [Effect.apply, hwritten, hne]
    refine ⟨account, hsame.trans hfile, ?_⟩
    rcases hstate with hneeds | hmarking
    · exact .inl hneeds
    · by_cases hid : id = effect.id
      · subst hid
        obtain ⟨hregistration, hfailed | hmarked⟩ := htransition.of_marking hmarking
        · exact absurd (hlifts _ hfailed) (by simp [Fact.lifts])
        · exact absurd ⟨by simp [hmarked], hregistration⟩ hwrites
      · exact .inr (by simpa [Effect.apply, hid] using hmarking)

/-- Nobody begins to refresh. -/
theorem Refused.idle_new (h : Refused s id registrationId after) (law : TokenLaw s)
    (htransition : Transition s effect) {phase : ResolvePhase}
    (hnew : effect.new = .resolve registrationId phase) : phase.refreshing = false := by
  cases htransition with
  | moved _ _ hplain _ _ _ =>
    subst hnew
    cases phase with
    | requesting _ => exact absurd hplain (by simp [Call.plain])
    | saving _ => exact absurd hplain (by simp [Call.plain])
    | _ => rfl
  | @requested other asking account hcall hneeds _ =>
    cases hnew
    exact absurd (h.marked law hcall) hneeds
  | @granted other asking account next hcall _ _ _ =>
    cases hnew
    exact absurd (h.idle other _ hcall) (by simp [ResolvePhase.refreshing])
  | started _ => cases hnew; rfl
  | begun _ => cases hnew
  | loaded _ _ => cases hnew; rfl
  | usable _ _ _ _ => cases hnew; rfl
  | refused _ => cases hnew; rfl
  | marked _ => cases hnew; rfl
  | refreshed _ _ => cases hnew; rfl
  | returned _ _ => cases hnew; rfl
  | previous _ _ => cases hnew
  | matched _ _ => cases hnew
  | loggedIn _ => cases hnew

/-- A call that was started after the refusal goes on to fail. -/
theorem Refused.fails_new (h : Refused s id registrationId after) (law : TokenLaw s)
    (htransition : Transition s effect) {phase : ResolvePhase}
    (hnew : effect.new = .resolve registrationId phase)
    (hstarted : .started effect.id registrationId ∈ after) : phase.fails s.now := by
  cases htransition with
  | moved _ _ hplain _ _ _ =>
    subst hnew
    match phase with
    | .loading _ => trivial
    | .waiting => trivial
    | .leaving _ (.error _) => trivial
    | .done (.error _) => trivial
  | @loaded other loading locked content hcall hload =>
    cases hnew
    match content with
    | .error _ => trivial
    | .ok none => trivial
    | .ok (some account) => exact .inr (h.loaded law (hload _ rfl))
  | @usable other asking locked account hcall hneeds _ hnow =>
    cases hnew
    rcases h.fails other _ hstarted hcall with hlocked | hmarked | hexpired
    · rw [hlocked] at hcall
      exact absurd (h.marked law hcall) hneeds
    · exact absurd hmarked hneeds
    · exact absurd hexpired (Int.not_le.mpr hnow)
  | @requested other asking account hcall hneeds _ =>
    cases hnew
    exact absurd (h.marked law hcall) hneeds
  | @refused other asking account hcall =>
    cases hnew
    exact absurd (h.idle other _ hcall) (by simp [ResolvePhase.refreshing])
  | @granted other asking account next hcall _ _ _ =>
    cases hnew
    exact absurd (h.idle other _ hcall) (by simp [ResolvePhase.refreshing])
  | @refreshed other saving next result hcall _ =>
    cases hnew
    exact absurd (h.idle other _ hcall) (by simp [ResolvePhase.refreshing])
  | @returned other asking locked accessToken lock hcall _ =>
    cases hnew
    exact (h.fails other _ hstarted hcall).elim
  | started _ => cases hnew; trivial
  | marked _ => cases hnew; trivial
  | begun _ => cases hnew
  | previous _ _ => cases hnew
  | matched _ _ => cases hnew
  | loggedIn _ => cases hnew

theorem Refused.apply (h : Refused s id registrationId after) (law : TokenLaw s)
    (htransition : Transition s effect)
    (hlifts : ∀ fact ∈ effect.fact, Fact.lifts id registrationId fact = false) :
    Refused (effect.apply s) id registrationId (effect.fact.toList ++ after) where
  file := h.file_apply htransition hlifts
  idle := by
    intro other phase hcall
    by_cases hid : other = effect.id
    · exact h.idle_new law htransition (by simpa [Effect.apply, hid] using hcall)
    · exact h.idle other phase (by simpa [Effect.apply, hid] using hcall)
  unsent := by
    intro other refreshToken hmem
    rcases List.mem_append.mp hmem with hfact | hafter
    · cases htransition with
      | @requested asking registration account hcall hneeds _ =>
        have heq := List.mem_singleton.mp hfact
        cases heq
        exact absurd (h.marked law hcall) hneeds
      | @moved _ _ _ _ fact _ _ _ _ hplain _ =>
        exact absurd (hplain _ (Option.mem_toList.mp hfact)) (by simp [Fact.plain])
      | _ => simp at hfact
    · exact h.unsent other refreshToken hafter
  fails := by
    intro other phase hmem hcall
    by_cases hid : other = effect.id
    · have hnew : effect.new = .resolve registrationId phase := by
        simpa [Effect.apply, hid] using hcall
      rcases List.mem_append.mp hmem with hfact | hafter
      · cases htransition with
        | started _ => cases hnew; trivial
        | @moved _ _ _ _ fact _ _ _ _ hplain _ =>
          exact absurd (hplain _ (Option.mem_toList.mp hfact)) (by simp [Fact.plain])
        | _ => simp at hfact
      · exact h.fails_new law htransition hnew (hid ▸ hafter)
    · have hbefore : s.calls other = some (.resolve registrationId phase) := by
        simpa [Effect.apply, hid] using hcall
      rcases List.mem_append.mp hmem with hfact | hafter
      · cases htransition with
        | started _ =>
          have heq := List.mem_singleton.mp hfact
          cases heq
          exact absurd rfl hid
        | @moved _ _ _ _ fact _ _ _ _ hplain _ =>
          exact absurd (hplain _ (Option.mem_toList.mp hfact)) (by simp [Fact.plain])
        | _ => simp at hfact
      · exact h.fails other phase hafter hbefore

/-- The answer that begins a refusal. -/
theorem Transition.answered (h : Transition s effect)
    (hfact : effect.fact = some (.answered id registrationId (.error "invalid_grant"))) :
    ∃ account, s.calls id = some (.resolve registrationId (.requesting account)) ∧ effect.id = id ∧
      effect.new = .resolve registrationId (.marking account) ∧ effect.file = none := by
  cases h with
  | @refused other refused account hcall =>
    cases hfact
    exact ⟨account, hcall, rfl, rfl, rfl⟩
  | @moved _ _ _ _ fact _ _ _ _ hplain _ =>
    exact absurd (hplain _ hfact) (by simp [Fact.plain])
  | _ => simp at hfact

theorem TokenLaw.refused (law : TokenLaw s) (htransition : Transition s effect)
    (hfact : effect.fact = some (.answered id registrationId (.error "invalid_grant"))) :
    Refused (effect.apply s) id registrationId [] := by
  obtain ⟨account, hcall, hid, hnew, hfile⟩ := htransition.answered hfact
  obtain ⟨hrecord, _⟩ := law.fits _ _ hcall
  refine ⟨⟨account, ?_, .inr ?_⟩, ?_, ?_, ?_⟩
  · simpa [Effect.apply, hfile] using hrecord
  · simp [Effect.apply, hid, hnew]
  · intro other phase hother
    by_cases hsame : other = id
    · have hphase : phase = .marking account := by
        simpa [Effect.apply, hid, hsame, hnew] using hother.symm
      rw [hphase]
      rfl
    · have hbefore : s.calls other = some (.resolve registrationId phase) := by
        simpa [Effect.apply, hid, hsame] using hother
      cases phase with
      | requesting _ => exact absurd (law.locked.unique hcall rfl hbefore rfl rfl) hsame
      | saving _ => exact absurd (law.locked.unique hcall rfl hbefore rfl rfl) hsame
      | _ => rfl
  · intro other refreshToken hmem
    cases hmem
  · intro other phase hmem
    cases hmem

end Apply

/-! ## Every refusal of a run -/

/-- Since every refusal in the history that nothing has ended. -/
def RefusalLaw (s : AuthState) : Prop :=
  ∀ after before id registrationId,
    s.history = after ++ .answered id registrationId (.error "invalid_grant") :: before →
    (∀ fact ∈ after, Fact.lifts id registrationId fact = false) → Refused s id registrationId after

theorem RefusalLaw.apply {s : AuthState} {effect : Effect} (h : RefusalLaw s) (law : TokenLaw s)
    (htransition : Transition s effect) : RefusalLaw (effect.apply s) := by
  intro after before id registrationId hhistory hlifts
  cases hfact : effect.fact with
  | none =>
    have hsame : s.history = after ++ .answered id registrationId (.error "invalid_grant") :: before := by
      simpa [Effect.apply, hfact] using hhistory
    have happly := (h after before id registrationId hsame hlifts).apply law htransition (by simp [hfact])
    simpa [hfact] using happly
  | some fact =>
    have hcons : fact :: s.history =
        after ++ .answered id registrationId (.error "invalid_grant") :: before := by
      simpa [Effect.apply, hfact] using hhistory
    cases after with
    | nil =>
      have hfirst := (List.cons.inj hcons).1
      exact law.refused htransition (hfirst ▸ hfact)
    | cons newest after =>
      obtain ⟨hfirst, hrest⟩ := List.cons.inj hcons
      subst hfirst
      have hold := h after before id registrationId hrest fun found hfound =>
        hlifts found (List.mem_cons_of_mem _ hfound)
      have happly := hold.apply law htransition (by simpa [hfact] using hlifts fact List.mem_cons_self)
      simpa [hfact] using happly

theorem RefusalLaw.step {s t : AuthState} {event : AuthEvent} (h : RefusalLaw s) (law : TokenLaw s)
    (hstep : s.step event = some t) : RefusalLaw t := by
  rcases step_effect hstep with ⟨elapsed, rfl⟩ | ⟨effect, htransition, rfl⟩
  · intro after before id registrationId hhistory hlifts
    exact (h after before id registrationId hhistory hlifts).tick elapsed
  · exact h.apply law htransition

/-! ## The protocol -/

/-- In every run of calls and logins, whatever the endpoint answers and whichever writes fail:
* a refresh sends the token of the set saved last;
* between the request of a refresh and the saving of its answer nothing was saved for the account;
* two refreshes of an account are not in flight together;
* the subject of an account stays;
* a returned token is of an account of the registration with the direct scope, that was unexpired at
  its check or was just refreshed;
* after an `invalid_grant`, until a login saves tokens or the mark could not be written, no refresh is
  sent and every call that was started since fails. -/
theorem token_refresh {now : Int} {files : RegistrationId → AccountFile} {events : List AuthEvent}
    {s : AuthState} (hrun : Runs.run AuthState.step (AuthState.start now files) events = some s) :
    (∀ later id registrationId refreshToken before,
      s.history = later ++ .requested id registrationId refreshToken :: before →
      ∀ saved ∈ lastSaved registrationId before, AccountRecord.refreshToken saved = refreshToken) ∧
    (∀ later id registrationId next before,
      s.history = later ++ .refreshed id registrationId next :: before →
      ∃ refreshToken between, Requested id registrationId refreshToken between before ∧
        .answered id registrationId (.ok next) ∈ between) ∧
    (∀ id other registrationId account found,
      s.calls id = some (.resolve registrationId (.requesting account)) →
      s.calls other = some (.resolve registrationId (.requesting found)) → other = id) ∧
    (∀ more t registrationId account, Runs.run AuthState.step s more = some t →
      s.files registrationId = .record account →
      ∃ found, t.files registrationId = .record found ∧ found.subject = account.subject) ∧
    (∀ later id registrationId accessToken before,
      s.history = later ++ .returned id registrationId accessToken :: before →
      Granted id registrationId accessToken before) ∧
    (∀ after id registrationId before,
      s.history = after ++ .answered id registrationId (.error "invalid_grant") :: before →
      (∀ fact ∈ after, Fact.lifts id registrationId fact = false) →
      (∀ other refreshToken, .requested other registrationId refreshToken ∉ after) ∧
      ∀ other result, .started other registrationId ∈ after →
        s.calls other = some (.resolve registrationId (.done result)) →
        ∃ code, result = .error code) := by
  have hboth : TokenLaw s ∧ RefusalLaw s := by
    refine Runs.run_keeps (P := fun s => TokenLaw s ∧ RefusalLaw s) ?_ ⟨TokenLaw.start now files, ?_⟩ hrun
    · intro s t event h hstep
      exact ⟨h.1.step hstep, h.2.step h.1 hstep⟩
    · intro after before id registrationId hhistory
      exact absurd hhistory (by simp [AuthState.start])
  obtain ⟨law, refusals⟩ := hboth
  refine ⟨?_, ?_, ?_, ?_, ?_, ?_⟩
  · intro later id registrationId refreshToken before hhistory
    exact EachFact.of_append (hhistory ▸ law.facts)
  · intro later id registrationId next before hhistory
    exact EachFact.of_append (hhistory ▸ law.facts)
  · intro id other registrationId account found hcall hother
    exact law.locked.unique hcall rfl hother rfl rfl
  · intro more t registrationId account hmore hfile
    have hkept : TokenLaw t ∧ ∃ found, t.files registrationId = .record found ∧
        found.subject = account.subject := by
      refine Runs.run_keeps (P := fun t => TokenLaw t ∧ ∃ found, t.files registrationId = .record found ∧
        found.subject = account.subject) ?_ ⟨law, account, hfile, rfl⟩ hmore
      intro s t event h hstep
      obtain ⟨hlaw, found, hfound, hsubject⟩ := h
      obtain ⟨next, hnext, hsame⟩ := hlaw.subject_step hstep hfound
      exact ⟨hlaw.step hstep, next, hnext, hsame.trans hsubject⟩
    exact hkept.2
  · intro later id registrationId accessToken before hhistory
    exact EachFact.of_append (hhistory ▸ law.facts)
  · intro after id registrationId before hhistory hlifts
    have hrefused := refusals after before id registrationId hhistory hlifts
    refine ⟨hrefused.unsent, ?_⟩
    intro other result hstarted hcall
    have hfails := hrefused.fails other _ hstarted hcall
    cases result with
    | error code => exact ⟨code, rfl⟩
    | ok accessToken => exact hfails.elim

/-- An account of which the tokens are expired. -/
def expiredAccount : AccountRecord where
  registrationId := "account"
  clientId := "client"
  subject := "subject"
  email := none
  accessToken := "access-1"
  refreshToken := "refresh-1"
  idToken := "id"
  expiresAt := 0
  scopes := [DIRECT_SCOPE]
  needsReauthentication := some false

/-- An answer of the token endpoint. -/
def tokenAnswer (accessToken refreshToken : String) : TokenBody where
  expires_in := some 1
  scope := some DIRECT_SCOPE
  access_token := some accessToken
  refresh_token := some refreshToken
  id_token := some "id"

/-- The account with the tokens of an answer at time 1. -/
def renewedAccount (accessToken refreshToken : String) : AccountRecord :=
  { expiredAccount with accessToken, refreshToken, expiresAt := 1001 }

/-- A call until it asks for a refresh. -/
def refreshEvents (id : CallId) : List AuthEvent :=
  [.resolve id "account", .load id false, .check id, .lock id, .load id false, .check id]

/-- A refused refresh, of which the mark is written or not. -/
def refusedEvents (id : CallId) (fails : Bool) : List AuthEvent :=
  refreshEvents id ++ [.answer id (.error "invalid_grant"), .write id fails, .leave id]

/-- A login until its tokens are saved. -/
def loginEvents (id : CallId) : List AuthEvent :=
  [.verified id (.ok ⟨"subject", none⟩), .lock id, .load id false, .check id, .write id false]

/-- A refused call is followed by one that finds the mark. -/
theorem token_refresh_refused :
    ∃ s, Runs.run AuthState.step (AuthState.start 1 fun _ => .record expiredAccount)
        (refusedEvents 0 false ++ [.resolve 1 "account", .load 1 false, .check 1, .leave 1]) = some s ∧
      ∀ accessToken, s.calls 1 ≠ some (.resolve "account" (.done (.ok accessToken))) := by
  obtain ⟨s, hrun, hhistory⟩ : ∃ s, Runs.run AuthState.step
      (AuthState.start 1 fun _ => .record expiredAccount)
      (refusedEvents 0 false ++ [.resolve 1 "account", .load 1 false, .check 1, .leave 1]) = some s ∧
      s.history = [.failed 1 "account" "chatgpt_plan_usage_not_granted", .started 1 "account",
        .failed 0 "account" "invalid_grant", .marked 0 "account"] ++
        .answered 0 "account" (.error "invalid_grant") ::
        [.requested 0 "account" "refresh-1", .started 0 "account"] :=
    Runs.exists_run (by decide +kernel)
  refine ⟨s, hrun, ?_⟩
  intro accessToken hdone
  have hrefusal := (token_refresh hrun).2.2.2.2.2 _ 0 "account" _ hhistory (by decide)
  obtain ⟨code, hcode⟩ := hrefusal.2 1 _ (by simp) hdone
  exact absurd hcode (by simp)

/-- Four runs of what a login, the endpoint and a failing write may do:
* a login that exchanged its code before a refresh saves its tokens after it;
* the endpoint answers with the same refresh token, which is sent again;
* the mark of a refused account cannot be written, and its token is sent again;
* a login saves its tokens and then fails, and a call returns them. -/
theorem token_refresh_exceptions :
    (∃ s, Runs.run AuthState.step (AuthState.start 1 fun _ => .record expiredAccount)
        (([.complete 0 "account" "client", .registered 0 false,
          .answer 0 (.ok (tokenAnswer "access-0" "refresh-0"))] : List AuthEvent) ++
          refreshEvents 1 ++
          ([.answer 1 (.ok (tokenAnswer "access-2" "refresh-2")), .write 1 false, .leave 1] :
            List AuthEvent) ++ loginEvents 0) = some s ∧
      s.history = [.loggedIn 0 "account" (renewedAccount "access-0" "refresh-0"),
        .returned 1 "account" "access-2",
        .refreshed 1 "account" (renewedAccount "access-2" "refresh-2"),
        .answered 1 "account" (.ok (renewedAccount "access-2" "refresh-2")),
        .requested 1 "account" "refresh-1", .started 1 "account", .obtained 0 "account"]) ∧
    (∃ s, Runs.run AuthState.step (AuthState.start 1 fun _ => .record expiredAccount)
        (refreshEvents 0 ++ ([.answer 0 (.ok (tokenAnswer "access-2" "refresh-1")), .write 0 false,
          .leave 0, .tick 1000] : List AuthEvent) ++ refreshEvents 1) = some s ∧
      s.history = [.requested 1 "account" "refresh-1", .started 1 "account",
        .returned 0 "account" "access-2",
        .refreshed 0 "account" (renewedAccount "access-2" "refresh-1"),
        .answered 0 "account" (.ok (renewedAccount "access-2" "refresh-1")),
        .requested 0 "account" "refresh-1", .started 0 "account"]) ∧
    (∃ s, Runs.run AuthState.step (AuthState.start 1 fun _ => .record expiredAccount)
        (refusedEvents 0 true ++ refreshEvents 1) = some s ∧
      s.history = [.requested 1 "account" "refresh-1", .started 1 "account",
        .failed 0 "account" "chatgpt_saved_state_write_failed", .writeFailed 0 "account",
        .answered 0 "account" (.error "invalid_grant"), .requested 0 "account" "refresh-1",
        .started 0 "account"]) ∧
    (∃ s, Runs.run AuthState.step (AuthState.start 1 fun _ => .record expiredAccount)
        (refusedEvents 0 false ++ ([.complete 1 "account" "client", .registered 1 false,
          .answer 1 (.ok (tokenAnswer "access-2" "refresh-2"))] : List AuthEvent) ++
          loginEvents 1 ++ ([.leave 1, .selected 1 (.error "chatgpt_saved_state_write_failed"),
          .resolve 2 "account", .load 2 false, .check 2, .leave 2] : List AuthEvent)) = some s ∧
      s.history = [.returned 2 "account" "access-2",
        .checked 2 "account" (renewedAccount "access-2" "refresh-2") 1, .started 2 "account",
        .failed 1 "account" "chatgpt_saved_state_write_failed",
        .loggedIn 1 "account" (renewedAccount "access-2" "refresh-2"), .obtained 1 "account",
        .failed 0 "account" "invalid_grant", .marked 0 "account",
        .answered 0 "account" (.error "invalid_grant"), .requested 0 "account" "refresh-1",
        .started 0 "account"]) :=
  ⟨Runs.exists_run (by decide +kernel), Runs.exists_run (by decide +kernel),
    Runs.exists_run (by decide +kernel), Runs.exists_run (by decide +kernel)⟩

end ChatGPTAuth

end Henji
