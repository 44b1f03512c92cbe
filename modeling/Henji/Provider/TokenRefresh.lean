import Henji.Provider.ChatGPTAuth

/-!
# The protocol of the token refresh

What a step does to the state is one of few effects: a call moves on, and with the lock of its account
it may write the file. The holder of a lock knows what is in the file, for nobody else writes it.
-/

namespace Henji

namespace ChatGPTAuth

/-! ## What a step does -/

/-- A call moves on: it may take or leave the lock of its account, write the file and leave a fact. -/
structure Effect where
  id : CallId
  new : Call
  lock : Option (Option CallId)
  file : Option AccountRecord
  fact : Option Fact

def Effect.apply (effect : Effect) (s : AuthState) : AuthState where
  now := s.now
  files := fun registrationId =>
    match effect.file with
    | none => s.files registrationId
    | some account =>
      if registrationId = effect.new.registrationId then .record account else s.files registrationId
  locks := fun registrationId =>
    match effect.lock with
    | none => s.locks registrationId
    | some holder => if registrationId = effect.new.registrationId then holder else s.locks registrationId
  calls := fun id => if id = effect.id then some effect.new else s.calls id
  history := effect.fact.toList ++ s.history

/-- Phases of which nothing has to be known. -/
def Call.plain : Call → Bool
  | .resolve _ (.loading _) => true
  | .resolve _ .waiting => true
  | .resolve _ (.leaving _ (.error _)) => true
  | .resolve _ (.done (.error _)) => true
  | .complete _ (.checking _ _) => false
  | .complete _ (.saving _) => false
  | .complete _ _ => true
  | _ => false

def Fact.plain : Fact → Bool
  | .answered _ _ (.error code) => code != "invalid_grant"
  | .obtained _ _ => true
  | .writeFailed _ _ => true
  | .failed _ _ _ => true
  | .completed _ _ => true
  | _ => false

/-- How a plain move treats the lock. -/
inductive LockMove (s : AuthState) (id : CallId) (old new : Call) : Option (Option CallId) → Prop
  | keep : new.holds = old.holds → LockMove s id old new none
  | take : s.locks new.registrationId = none → new.holds = true →
      LockMove s id old new (some (some id))
  | leave : old.holds = true → new.holds = false → LockMove s id old new (some none)

inductive Transition (s : AuthState) : Effect → Prop
  | started {id registrationId} : s.calls id = none →
      Transition s ⟨id, .resolve registrationId (.loading false), none, none,
        some (.started id registrationId)⟩
  | begun {id registrationId clientId} : s.calls id = none →
      Transition s ⟨id, .complete registrationId (.registering clientId), none, none, none⟩
  | moved {id old new lock fact} : s.calls id = some old →
      new.registrationId = old.registrationId → new.plain = true → LockMove s id old new lock →
      (∀ found ∈ fact, found.plain = true) →
      (∀ registrationId account, old = .resolve registrationId (.marking account) →
        fact = some (.writeFailed id registrationId)) →
      Transition s ⟨id, new, lock, none, fact⟩
  | loaded {id registrationId locked loaded} :
      s.calls id = some (.resolve registrationId (.loading locked)) →
      (∀ content, loaded = .ok content →
        loadAccount (s.files registrationId) registrationId = .ok content) →
      Transition s ⟨id, .resolve registrationId (.checking locked loaded), none, none, none⟩
  | usable {id registrationId locked account} :
      s.calls id = some (.resolve registrationId (.checking locked (.ok (some account)))) →
      account.needsReauthentication ≠ some true → account.scopes.contains DIRECT_SCOPE = true →
      s.now < account.expiresAt →
      Transition s ⟨id, .resolve registrationId (.leaving locked (.ok account.accessToken)), none, none,
        some (.checked id registrationId account s.now)⟩
  | requested {id registrationId account} :
      s.calls id = some (.resolve registrationId (.checking true (.ok (some account)))) →
      account.needsReauthentication ≠ some true → account.expiresAt ≤ s.now →
      Transition s ⟨id, .resolve registrationId (.requesting account), none, none,
        some (.requested id registrationId account.refreshToken)⟩
  | refused {id registrationId account} :
      s.calls id = some (.resolve registrationId (.requesting account)) →
      Transition s ⟨id, .resolve registrationId (.marking account), none, none,
        some (.answered id registrationId (.error "invalid_grant"))⟩
  | granted {id registrationId account next} :
      s.calls id = some (.resolve registrationId (.requesting account)) →
      next.registrationId = account.registrationId → next.subject = account.subject →
      (next.needsReauthentication ≠ some true → next.scopes.contains DIRECT_SCOPE = true) →
      Transition s ⟨id, .resolve registrationId (.saving next), none, none,
        some (.answered id registrationId (.ok next))⟩
  | marked {id registrationId account} :
      s.calls id = some (.resolve registrationId (.marking account)) →
      Transition s ⟨id, .resolve registrationId (.leaving true (.error "invalid_grant")), none,
        some { account with needsReauthentication := some true }, some (.marked id registrationId)⟩
  | refreshed {id registrationId next result} :
      s.calls id = some (.resolve registrationId (.saving next)) →
      (∀ accessToken, result = .ok accessToken →
        accessToken = next.accessToken ∧ next.needsReauthentication ≠ some true) →
      Transition s ⟨id, .resolve registrationId (.leaving true result), none, some next,
        some (.refreshed id registrationId next)⟩
  | returned {id registrationId locked accessToken lock} :
      s.calls id = some (.resolve registrationId (.leaving locked (.ok accessToken))) →
      lock = (if locked then some none else none) →
      Transition s ⟨id, .resolve registrationId (.done (.ok accessToken)), lock, none,
        some (.returned id registrationId accessToken)⟩
  | previous {id registrationId account loaded} :
      s.calls id = some (.complete registrationId (.loading account)) →
      (∀ content, loaded = .ok content →
        loadAccount (s.files registrationId) registrationId = .ok content) →
      Transition s ⟨id, .complete registrationId (.checking account loaded), none, none, none⟩
  | matched {id registrationId account content} :
      s.calls id = some (.complete registrationId (.checking account (.ok content))) →
      (∀ found ∈ content, account.subject = AccountRecord.subject found) →
      Transition s ⟨id, .complete registrationId (.saving account), none, none, none⟩
  | loggedIn {id registrationId account} :
      s.calls id = some (.complete registrationId (.saving account)) →
      Transition s ⟨id, .complete registrationId (.leaving true (.ok ())), none, some account,
        some (.loggedIn id registrationId account)⟩

theorem refreshedRecord_granted (account : AccountRecord) (tokens : TokenSet) (idToken : Option String)
    (h : (refreshedRecord account tokens idToken).needsReauthentication ≠ some true) :
    (refreshedRecord account tokens idToken).scopes.contains DIRECT_SCOPE = true := by
  simpa [refreshedRecord] using h

theorem requiredString_code {value : Option String} {code : Code}
    (h : requiredString value = .error code) : code = "chatgpt_response_parse_failed" := by
  unfold requiredString at h
  split at h
  · exact (Except.error.inj h).symm
  · split at h
    · exact (Except.error.inj h).symm
    · exact absurd h (by simp)

/-- A malformed answer is not a refusal of the token. -/
theorem tokenSet_code {now : Int} {token : TokenBody} {code : Code}
    (h : tokenSet now token = .error code) : code ≠ "invalid_grant" := by
  have parse : code = "chatgpt_response_parse_failed" → code ≠ "invalid_grant" := by
    intro hcode
    rw [hcode]
    decide
  refine parse ?_
  unfold tokenSet at h
  split at h
  · exact (Except.error.inj h).symm
  · split at h
    · exact (Except.error.inj h).symm
    · cases hscope : requiredString token.scope with
      | error failure =>
        rw [hscope] at h
        exact Except.error.inj h ▸ requiredString_code hscope
      | ok scope =>
        cases haccess : requiredString token.access_token with
        | error failure =>
          rw [hscope, haccess] at h
          exact Except.error.inj h ▸ requiredString_code haccess
        | ok accessToken =>
          cases hrefresh : requiredString token.refresh_token with
          | error failure =>
            rw [hscope, haccess, hrefresh] at h
            exact Except.error.inj h ▸ requiredString_code hrefresh
          | ok refreshToken =>
            rw [hscope, haccess, hrefresh] at h
            exact absurd h (by simp [bind, Except.bind, pure, Except.pure])

section Moves

variable {s : AuthState} {id : CallId} {old new : Call}

/-- A call goes on to a plain phase, with the lock as it was. -/
theorem moved_effect (hcall : s.calls id = some old)
    (hregistration : new.registrationId = old.registrationId) (hplain : new.plain = true)
    (hholds : new.holds = old.holds)
    (hmarking : ∀ registrationId account, old ≠ .resolve registrationId (.marking account)) :
    ∃ effect, Transition s effect ∧ s.setCall id new = effect.apply s :=
  ⟨⟨id, new, none, none, none⟩,
    .moved hcall hregistration hplain (.keep hholds) (by simp) fun registrationId account hold =>
      absurd hold (hmarking registrationId account), rfl⟩

/-- The same with a plain fact. -/
theorem moved_effect_record {fact : Fact} (hcall : s.calls id = some old)
    (hregistration : new.registrationId = old.registrationId) (hplain : new.plain = true)
    (hholds : new.holds = old.holds) (hfact : fact.plain = true)
    (hmarking : ∀ registrationId account, old ≠ .resolve registrationId (.marking account)) :
    ∃ effect, Transition s effect ∧ (s.setCall id new).record fact = effect.apply s :=
  ⟨⟨id, new, none, none, some fact⟩,
    .moved hcall hregistration hplain (.keep hholds) (by simpa using hfact)
      fun registrationId account hold => absurd hold (hmarking registrationId account), rfl⟩

end Moves

theorem afterCheck_effect {s : AuthState} {id : CallId} {registrationId : RegistrationId}
    {locked : Bool} {loaded : Loaded}
    (hcall : s.calls id = some (.resolve registrationId (.checking locked loaded))) :
    ∃ effect, Transition s effect ∧
      afterCheck s id registrationId locked (checkAccount s.now loaded) = effect.apply s := by
  have refused : ∀ code, ∃ effect, Transition s effect ∧
      s.setCall id (.resolve registrationId (.leaving locked (.error code))) = effect.apply s :=
    fun code => moved_effect hcall rfl rfl rfl (by simp)
  match loaded with
  | .error code => exact refused code
  | .ok none => exact refused _
  | .ok (some account) =>
    by_cases hscope : account.needsReauthentication = some true ∨
        account.scopes.contains DIRECT_SCOPE = false
    · rw [checkAccount, if_pos hscope]
      exact refused _
    have hneeds : account.needsReauthentication ≠ some true := fun h => hscope (.inl h)
    have hdirect : account.scopes.contains DIRECT_SCOPE = true := by
      cases hcontains : account.scopes.contains DIRECT_SCOPE with
      | true => rfl
      | false => exact absurd (.inr hcontains) hscope
    by_cases hnow : s.now < account.expiresAt
    · rw [checkAccount, if_neg hscope, if_pos hnow]
      exact ⟨_, .usable hcall hneeds hdirect hnow, rfl⟩
    · rw [checkAccount, if_neg hscope, if_neg hnow, afterCheck]
      cases locked with
      | false => exact moved_effect hcall rfl rfl rfl (by simp)
      | true =>
        rw [if_neg (by decide)]
        by_cases htoken : account.refreshToken = ""
        · rw [if_pos htoken]
          exact moved_effect hcall rfl rfl rfl (by simp)
        · rw [if_neg htoken]
          exact ⟨_, .requested hcall hneeds (Int.not_lt.mp hnow), rfl⟩

theorem afterPrevious_effect {s : AuthState} {id : CallId} {registrationId : RegistrationId}
    {account : AccountRecord} {previous : Loaded}
    (hcall : s.calls id = some (.complete registrationId (.checking account previous))) :
    ∃ effect, Transition s effect ∧
      afterPrevious s id registrationId account previous = effect.apply s := by
  match previous with
  | .error code => exact moved_effect hcall rfl rfl rfl (by simp)
  | .ok none => exact ⟨_, .matched hcall (by simp), rfl⟩
  | .ok (some found) =>
    rw [afterPrevious]
    by_cases hsubject : account.subject ≠ found.subject
    · rw [if_pos hsubject]
      exact moved_effect hcall rfl rfl rfl (by simp)
    · rw [if_neg hsubject]
      exact ⟨_, .matched hcall (by simpa using hsubject), rfl⟩

theorem afterRefresh_effect {s : AuthState} {id : CallId} {registrationId : RegistrationId}
    {account : AccountRecord} {result : Except Code TokenBody}
    (hcall : s.calls id = some (.resolve registrationId (.requesting account))) :
    ∃ effect, Transition s effect ∧
      afterRefresh s id registrationId account result = effect.apply s := by
  have refused : ∀ code, code ≠ "invalid_grant" → ∃ effect, Transition s effect ∧
      (s.setCall id (.resolve registrationId (.leaving true (.error code)))).record
        (.answered id registrationId (.error code)) = effect.apply s := by
    intro code hcode
    exact moved_effect_record hcall rfl rfl rfl (by simpa [Fact.plain] using hcode) (by simp)
  match result with
  | .error code =>
    rw [afterRefresh]
    by_cases hcode : code = "invalid_grant"
    · subst hcode
      exact ⟨_, .refused hcall, rfl⟩
    · simp only [if_neg hcode]
      exact refused code hcode
  | .ok token =>
    cases htokens : tokenSet s.now token with
    | error code =>
      simp only [afterRefresh, htokens]
      exact refused code (tokenSet_code htokens)
    | ok tokens =>
      simp only [afterRefresh, htokens]
      exact ⟨⟨id, .resolve registrationId (.saving (refreshedRecord account tokens token.id_token)),
        none, none, some (.answered id registrationId
          (.ok (refreshedRecord account tokens token.id_token)))⟩,
        .granted hcall rfl rfl (refreshedRecord_granted account tokens token.id_token), rfl⟩

theorem afterExchange_effect {s : AuthState} {id : CallId} {registrationId : RegistrationId}
    {clientId : String} {result : Except Code TokenBody}
    (hcall : s.calls id = some (.complete registrationId (.exchanging clientId))) :
    ∃ effect, Transition s effect ∧
      afterExchange s id registrationId clientId result = effect.apply s := by
  have refused : ∀ code, ∃ effect, Transition s effect ∧
      s.setCall id (.complete registrationId (.leaving false (.error code))) = effect.apply s :=
    fun code => moved_effect hcall rfl rfl rfl (by simp)
  match result with
  | .error code => exact refused code
  | .ok token =>
    cases htokens : tokenSet s.now token with
    | error code =>
      simp only [afterExchange, htokens]
      exact refused code
    | ok tokens =>
      cases hid : requiredString token.id_token with
      | error code =>
        simp only [afterExchange, htokens, hid]
        exact refused code
      | ok idToken =>
        simp only [afterExchange, htokens, hid]
        exact moved_effect_record hcall rfl rfl rfl rfl (by simp)

theorem afterWrite_effect {s t : AuthState} {id : CallId} {fails : Bool} {call : Call}
    (hcall : s.calls id = some call) (h : afterWrite s id fails call = some t) :
    ∃ effect, Transition s effect ∧ t = effect.apply s := by
  match call with
  | .resolve registrationId (.marking account) =>
    cases fails with
    | true =>
      rw [← Option.some.inj h]
      exact ⟨⟨id, .resolve registrationId (.leaving true (.error "chatgpt_saved_state_write_failed")),
        none, none, some (.writeFailed id registrationId)⟩,
        .moved hcall rfl rfl (.keep rfl) (by simp [Fact.plain])
          (fun other _ hold => by cases hold; rfl), rfl⟩
    | false => exact ⟨_, .marked hcall, (Option.some.inj h).symm⟩
  | .resolve registrationId (.saving next) =>
    cases fails with
    | true =>
      rw [← Option.some.inj h]
      exact moved_effect_record hcall rfl rfl rfl rfl (by simp)
    | false =>
      refine ⟨_, .refreshed hcall ?_, (Option.some.inj h).symm⟩
      intro accessToken hresult
      by_cases hneeds : next.needsReauthentication = some true
      · rw [if_pos hneeds] at hresult
        exact absurd hresult (by simp)
      · rw [if_neg hneeds] at hresult
        exact ⟨(Except.ok.inj hresult).symm, hneeds⟩
  | .complete registrationId (.saving account) =>
    cases fails with
    | true =>
      rw [← Option.some.inj h]
      exact moved_effect_record hcall rfl rfl rfl rfl (by simp)
    | false => exact ⟨_, .loggedIn hcall, (Option.some.inj h).symm⟩

theorem afterLeave_effect {s t : AuthState} {id : CallId} {call : Call}
    (hcall : s.calls id = some call) (h : afterLeave s id call = some t) :
    ∃ effect, Transition s effect ∧ t = effect.apply s := by
  match call with
  | .resolve registrationId (.leaving locked (.ok accessToken)) =>
    refine ⟨_, .returned hcall rfl, ?_⟩
    rw [← Option.some.inj h]
    cases locked <;> rfl
  | .resolve registrationId (.leaving locked (.error code)) =>
    rw [← Option.some.inj h]
    cases locked with
    | true =>
      exact ⟨⟨id, .resolve registrationId (.done (.error code)), some none, none,
        some (.failed id registrationId code)⟩,
        .moved hcall rfl rfl (.leave rfl rfl) (by simp [Fact.plain]) (by simp), rfl⟩
    | false => exact moved_effect_record hcall rfl rfl rfl rfl (by simp)
  | .complete registrationId (.leaving locked (.ok ())) =>
    rw [← Option.some.inj h]
    cases locked with
    | true =>
      exact ⟨⟨id, .complete registrationId .selecting, some none, none, none⟩,
        .moved hcall rfl rfl (.leave rfl rfl) (by simp) (by simp), rfl⟩
    | false => exact moved_effect hcall rfl rfl rfl (by simp)
  | .complete registrationId (.leaving locked (.error code)) =>
    rw [← Option.some.inj h]
    cases locked with
    | true =>
      exact ⟨⟨id, .complete registrationId (.done (.error code)), some none, none,
        some (.failed id registrationId code)⟩,
        .moved hcall rfl rfl (.leave rfl rfl) (by simp [Fact.plain]) (by simp), rfl⟩
    | false => exact moved_effect_record hcall rfl rfl rfl rfl (by simp)

/-- What a step does. -/
theorem step_effect {s t : AuthState} {event : AuthEvent} (h : s.step event = some t) :
    (∃ elapsed : Nat, t = { s with now := s.now + elapsed }) ∨
      ∃ effect, Transition s effect ∧ t = effect.apply s := by
  cases event with
  | tick elapsed => exact .inl ⟨elapsed, (Option.some.inj h).symm⟩
  | resolve id registrationId =>
    refine .inr ?_
    simp only [AuthState.step] at h
    split at h
    · next hnone => exact ⟨_, .started hnone, (Option.some.inj h).symm⟩
    · exact absurd h (by simp)
  | complete id registrationId clientId =>
    refine .inr ?_
    simp only [AuthState.step] at h
    split at h
    · next hnone => exact ⟨_, .begun hnone, (Option.some.inj h).symm⟩
    · exact absurd h (by simp)
  | registered id fails =>
    refine .inr ?_
    simp only [AuthState.step] at h
    split at h
    · next registrationId clientId hcall =>
      rw [← Option.some.inj h]
      cases fails with
      | true => exact moved_effect hcall rfl rfl rfl (by simp)
      | false => exact moved_effect hcall rfl rfl rfl (by simp)
    · exact absurd h (by simp)
  | lock id =>
    refine .inr ?_
    simp only [AuthState.step] at h
    split at h
    · next registrationId hcall =>
      split at h
      · next hfree =>
        rw [← Option.some.inj h]
        exact ⟨⟨id, .resolve registrationId (.loading true), some (some id), none, none⟩,
          .moved hcall rfl rfl (.take hfree rfl) (by simp) (by simp), rfl⟩
      · exact absurd h (by simp)
    · next registrationId account hcall =>
      split at h
      · next hfree =>
        rw [← Option.some.inj h]
        exact ⟨⟨id, .complete registrationId (.loading account), some (some id), none, none⟩,
          .moved hcall rfl rfl (.take hfree rfl) (by simp) (by simp), rfl⟩
      · exact absurd h (by simp)
    · exact absurd h (by simp)
  | lockFails id =>
    refine .inr ?_
    simp only [AuthState.step] at h
    split at h
    · next registrationId hcall =>
      rw [← Option.some.inj h]
      exact moved_effect hcall rfl rfl rfl (by simp)
    · next registrationId account hcall =>
      rw [← Option.some.inj h]
      exact moved_effect hcall rfl rfl rfl (by simp)
    · exact absurd h (by simp)
  | load id fails =>
    refine .inr ?_
    -- what is loaded without a failure is what the file holds
    have hcontent : ∀ registrationId content,
        (if fails then .error "chatgpt_saved_state_read_failed"
          else loadAccount (s.files registrationId) registrationId) = (.ok content : Loaded) →
        loadAccount (s.files registrationId) registrationId = .ok content := by
      intro registrationId content hload
      cases fails with
      | true => exact absurd hload (by simp)
      | false => exact hload
    simp only [AuthState.step] at h
    split at h
    · next registrationId locked hcall =>
      exact ⟨_, .loaded hcall (hcontent registrationId), (Option.some.inj h).symm⟩
    · next registrationId account hcall =>
      exact ⟨_, .previous hcall (hcontent registrationId), (Option.some.inj h).symm⟩
    · exact absurd h (by simp)
  | check id =>
    refine .inr ?_
    simp only [AuthState.step] at h
    split at h
    · next hcall =>
      rw [← Option.some.inj h]
      exact afterCheck_effect hcall
    · next hcall =>
      rw [← Option.some.inj h]
      exact afterPrevious_effect hcall
    · exact absurd h (by simp)
  | answer id result =>
    refine .inr ?_
    simp only [AuthState.step] at h
    split at h
    · next hcall =>
      rw [← Option.some.inj h]
      exact afterRefresh_effect hcall
    · next hcall =>
      rw [← Option.some.inj h]
      exact afterExchange_effect hcall
    · exact absurd h (by simp)
  | verified id result =>
    refine .inr ?_
    simp only [AuthState.step] at h
    split at h
    · next hcall =>
      split at h
      · rw [← Option.some.inj h]
        exact moved_effect hcall rfl rfl rfl (by simp)
      · rw [← Option.some.inj h]
        exact moved_effect hcall rfl rfl rfl (by simp)
    · exact absurd h (by simp)
  | write id fails =>
    obtain ⟨call, hcall, hwrite⟩ := Option.bind_eq_some_iff.mp h
    exact .inr (afterWrite_effect hcall hwrite)
  | leave id =>
    obtain ⟨call, hcall, hleave⟩ := Option.bind_eq_some_iff.mp h
    exact .inr (afterLeave_effect hcall hleave)
  | selected id result =>
    refine .inr ?_
    simp only [AuthState.step] at h
    split at h
    · next hcall =>
      split at h
      · rw [← Option.some.inj h]
        exact moved_effect_record hcall rfl rfl rfl rfl (by simp)
      · rw [← Option.some.inj h]
        exact moved_effect_record hcall rfl rfl rfl rfl (by simp)
    · exact absurd h (by simp)

end ChatGPTAuth

end Henji
