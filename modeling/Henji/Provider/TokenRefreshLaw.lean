import Henji.Provider.TokenRefresh

/-!
# What the lock of an account keeps

A call that holds the lock of an account knows what the file holds, for nobody else writes it. So a
refresh sends the token of the set that was saved last, and what it saves was obtained after that.
After the refusal of a token the file is marked, or is about to be by the holder of the lock.
-/

namespace Henji

namespace ChatGPTAuth

/-! ## What the history says -/

/-- The tokens that a fact saves for an account. -/
def Fact.saves (registrationId : RegistrationId) : Fact → Option AccountRecord
  | .refreshed _ saved account => if saved = registrationId then some account else none
  | .loggedIn _ saved account => if saved = registrationId then some account else none
  | _ => none

/-- The tokens saved last for an account. -/
def lastSaved (registrationId : RegistrationId) (history : List Fact) : Option AccountRecord :=
  history.findSome? (Fact.saves registrationId)

/-- A property of every fact and of what was before it. -/
def EachFact (P : Fact → List Fact → Prop) : List Fact → Prop
  | [] => True
  | fact :: before => P fact before ∧ EachFact P before

theorem EachFact.of_append {P : Fact → List Fact → Prop} {after before : List Fact} {fact : Fact}
    (h : EachFact P (after ++ fact :: before)) : P fact before := by
  induction after with
  | nil => exact h.1
  | cons newer after ih => exact ih h.2

/-- Nothing was saved for an account. -/
def Unsaved (registrationId : RegistrationId) (facts : List Fact) : Prop :=
  ∀ fact ∈ facts, fact.saves registrationId = none

theorem lastSaved_append {registrationId : RegistrationId} {facts history : List Fact}
    (h : Unsaved registrationId facts) :
    lastSaved registrationId (facts ++ history) = lastSaved registrationId history := by
  have hnone : facts.findSome? (Fact.saves registrationId) = none :=
    List.findSome?_eq_none_iff.mpr h
  simp [lastSaved, List.findSome?_append, hnone]

/-- The request of a call, since which nothing was saved for the account. -/
def Requested (id : CallId) (registrationId : RegistrationId) (refreshToken : String)
    (between history : List Fact) : Prop :=
  ∃ before, history = between ++ .requested id registrationId refreshToken :: before ∧
    Unsaved registrationId between

/-- Why a call may return a token. -/
def Granted (id : CallId) (registrationId : RegistrationId) (accessToken : String)
    (history : List Fact) : Prop :=
  ∃ account : AccountRecord, account.accessToken = accessToken ∧
    account.registrationId = registrationId ∧ account.scopes.contains DIRECT_SCOPE = true ∧
    ((∃ now, .checked id registrationId account now ∈ history ∧ now < account.expiresAt) ∨
      .refreshed id registrationId account ∈ history)

theorem Granted.append {id : CallId} {registrationId : RegistrationId} {accessToken : String}
    {history : List Fact} (facts : List Fact) (h : Granted id registrationId accessToken history) :
    Granted id registrationId accessToken (facts ++ history) := by
  obtain ⟨account, htoken, hregistration, hscope, hsource⟩ := h
  refine ⟨account, htoken, hregistration, hscope, ?_⟩
  rcases hsource with ⟨now, hchecked, hnow⟩ | hrefreshed
  · exact .inl ⟨now, List.mem_append_right _ hchecked, hnow⟩
  · exact .inr (List.mem_append_right _ hrefreshed)

/-- What a fact says about those before it. -/
def FactLaw : Fact → List Fact → Prop
  | .requested _ registrationId refreshToken, before =>
    ∀ saved ∈ lastSaved registrationId before, AccountRecord.refreshToken saved = refreshToken
  | .refreshed id registrationId next, before =>
    ∃ refreshToken between, Requested id registrationId refreshToken between before ∧
      .answered id registrationId (.ok next) ∈ between
  | .returned id registrationId accessToken, before => Granted id registrationId accessToken before
  | _, _ => True

theorem FactLaw.plain {fact : Fact} {before : List Fact} (h : fact.plain = true) :
    FactLaw fact before := by
  cases fact with
  | requested _ _ _ => simp [Fact.plain] at h
  | refreshed _ _ _ => simp [Fact.plain] at h
  | returned _ _ _ => simp [Fact.plain] at h
  | _ => trivial

/-! ## What a call knows -/

/-- What is known of a call. The holder of the lock knows the file. -/
def Fits (s : AuthState) (id : CallId) : Call → Prop
  | .resolve registrationId (.checking locked (.ok content)) =>
    (∀ account ∈ content, AccountRecord.registrationId account = registrationId) ∧
      (locked = true → loadAccount (s.files registrationId) registrationId = .ok content)
  | .resolve registrationId (.requesting account) =>
    s.files registrationId = .record account ∧ account.registrationId = registrationId ∧
      account.expiresAt ≤ s.now ∧
      ∃ between, Requested id registrationId account.refreshToken between s.history
  | .resolve registrationId (.marking account) =>
    s.files registrationId = .record account ∧ account.expiresAt ≤ s.now
  | .resolve registrationId (.saving next) =>
    (∃ account, s.files registrationId = .record account ∧ account.subject = next.subject) ∧
      next.registrationId = registrationId ∧
      (next.needsReauthentication ≠ some true → next.scopes.contains DIRECT_SCOPE = true) ∧
      ∃ refreshToken between, Requested id registrationId refreshToken between s.history ∧
        .answered id registrationId (.ok next) ∈ between
  | .resolve registrationId (.leaving _ (.ok accessToken)) =>
    Granted id registrationId accessToken s.history
  | .complete registrationId (.checking _ (.ok content)) =>
    loadAccount (s.files registrationId) registrationId = .ok content
  | .complete registrationId (.saving account) =>
    ∀ found, s.files registrationId = .record found → found.subject = account.subject
  | _ => True

theorem Fits.plain {s : AuthState} {id : CallId} {call : Call} (h : call.plain = true) :
    Fits s id call := by
  match call with
  | .resolve _ (.loading _) => trivial
  | .resolve _ .waiting => trivial
  | .resolve _ (.leaving _ (.error _)) => trivial
  | .resolve _ (.done (.error _)) => trivial
  | .complete _ (.registering _) => trivial
  | .complete _ (.exchanging _) => trivial
  | .complete _ (.verifying _ _ _) => trivial
  | .complete _ (.waiting _) => trivial
  | .complete _ (.loading _) => trivial
  | .complete _ (.leaving _ _) => trivial
  | .complete _ .selecting => trivial
  | .complete _ (.done _) => trivial

/-- What a state keeps of an earlier one, seen by the holder of the lock of an account. -/
structure Kept (registrationId : RegistrationId) (facts : List Fact) (s t : AuthState) : Prop where
  files : t.files registrationId = s.files registrationId
  unsaved : Unsaved registrationId facts

theorem Requested.append {id : CallId} {registrationId : RegistrationId} {refreshToken : String}
    {between history facts : List Fact} (h : Requested id registrationId refreshToken between history)
    (hfacts : Unsaved registrationId facts) :
    Requested id registrationId refreshToken (facts ++ between) (facts ++ history) := by
  obtain ⟨before, hhistory, hbetween⟩ := h
  refine ⟨before, by rw [hhistory, List.append_assoc], ?_⟩
  intro fact hfact
  rcases List.mem_append.mp hfact with hnew | hold
  · exact hfacts fact hnew
  · exact hbetween fact hold

theorem Fits.kept {s t : AuthState} {id : CallId} {call : Call} {facts : List Fact}
    (h : Fits s id call) (hhistory : t.history = facts ++ s.history) (hnow : s.now ≤ t.now)
    (hkept : call.holds = true → Kept call.registrationId facts s t) : Fits t id call := by
  match call with
  | .resolve registrationId (.checking locked (.ok content)) =>
    refine ⟨h.1, ?_⟩
    intro hlocked
    have hfiles := (hkept hlocked).files
    simp only [Call.registrationId] at hfiles
    rw [hfiles]
    exact h.2 hlocked
  | .resolve registrationId (.checking locked (.error code)) => trivial
  | .resolve registrationId (.requesting account) =>
    obtain ⟨hfile, hregistration, hexpired, between, hrequested⟩ := h
    obtain ⟨hfiles, hunsaved⟩ := hkept rfl
    refine ⟨hfiles.trans hfile, hregistration, Int.le_trans hexpired hnow, facts ++ between, ?_⟩
    rw [hhistory]
    exact hrequested.append hunsaved
  | .resolve registrationId (.marking account) =>
    exact ⟨(hkept rfl).files.trans h.1, Int.le_trans h.2 hnow⟩
  | .resolve registrationId (.saving next) =>
    obtain ⟨⟨account, hfile, hsubject⟩, hregistration, hscope, refreshToken, between, hrequested,
      hanswered⟩ := h
    obtain ⟨hfiles, hunsaved⟩ := hkept rfl
    refine ⟨⟨account, hfiles.trans hfile, hsubject⟩, hregistration, hscope, refreshToken,
      facts ++ between, ?_, List.mem_append_right _ hanswered⟩
    rw [hhistory]
    exact hrequested.append hunsaved
  | .resolve registrationId (.leaving _ (.ok accessToken)) =>
    show Granted id registrationId accessToken t.history
    rw [hhistory]
    exact h.append facts
  | .complete registrationId (.checking account (.ok content)) =>
    have hfiles := (hkept rfl).files
    simp only [Call.registrationId] at hfiles
    show loadAccount (t.files registrationId) registrationId = .ok content
    rw [hfiles]
    exact h
  | .complete registrationId (.checking account (.error code)) => trivial
  | .complete registrationId (.saving account) =>
    intro found hfound
    exact h found ((hkept rfl).files.symm.trans hfound)
  | .resolve _ (.loading _) => trivial
  | .resolve _ .waiting => trivial
  | .resolve _ (.leaving _ (.error _)) => trivial
  | .resolve _ (.done _) => trivial
  | .complete _ (.registering _) => trivial
  | .complete _ (.exchanging _) => trivial
  | .complete _ (.verifying _ _ _) => trivial
  | .complete _ (.waiting _) => trivial
  | .complete _ (.loading _) => trivial
  | .complete _ (.leaving _ _) => trivial
  | .complete _ .selecting => trivial
  | .complete _ (.done _) => trivial

/-! ## What a transition may do -/

section Transitions

variable {s : AuthState} {effect : Effect}

/-- Only the holder of the lock of an account writes its file. -/
theorem Transition.file_holds (h : Transition s effect) (hfile : effect.file ≠ none) :
    ∃ old, s.calls effect.id = some old ∧ old.holds = true ∧
      old.registrationId = effect.new.registrationId := by
  cases h with
  | marked hcall => exact ⟨_, hcall, rfl, rfl⟩
  | refreshed hcall _ => exact ⟨_, hcall, rfl, rfl⟩
  | loggedIn hcall => exact ⟨_, hcall, rfl, rfl⟩
  | _ => exact absurd rfl hfile

theorem Fact.plain_saves {fact : Fact} {registrationId : RegistrationId} (h : fact.plain = true) :
    fact.saves registrationId = none := by
  cases fact with
  | refreshed _ _ _ => simp [Fact.plain] at h
  | loggedIn _ _ _ => simp [Fact.plain] at h
  | _ => rfl

/-- What a fact saves is written. -/
theorem Transition.saves (h : Transition s effect) {registrationId : RegistrationId}
    (hsaves : ¬ Unsaved registrationId effect.fact.toList) :
    effect.new.registrationId = registrationId ∧ ∃ saved, effect.file = some saved ∧
      ∃ fact, effect.fact = some fact ∧ fact.saves registrationId = some saved := by
  have quiet : ∀ fact, effect.fact = some fact → fact.saves registrationId = none → False := by
    intro fact hfact hnone
    apply hsaves
    intro found hfound
    rw [hfact] at hfound
    rw [List.mem_singleton.mp hfound]
    exact hnone
  cases h with
  | begun _ => exact absurd (by intro fact hfact; cases hfact) hsaves
  | loaded _ _ => exact absurd (by intro fact hfact; cases hfact) hsaves
  | previous _ _ => exact absurd (by intro fact hfact; cases hfact) hsaves
  | matched _ _ => exact absurd (by intro fact hfact; cases hfact) hsaves
  | @moved id old new lock fact _ _ _ _ hplain _ =>
    refine absurd ?_ hsaves
    intro found hfound
    exact Fact.plain_saves (hplain found (by simpa using hfound))
  | @refreshed id saved next result _ _ =>
    by_cases heq : saved = registrationId
    · exact ⟨heq, next, rfl, _, rfl, if_pos heq⟩
    · exact (quiet _ rfl (if_neg heq)).elim
  | @loggedIn id saved account _ =>
    by_cases heq : saved = registrationId
    · exact ⟨heq, account, rfl, _, rfl, if_pos heq⟩
    · exact (quiet _ rfl (if_neg heq)).elim
  | started _ => exact (quiet _ rfl rfl).elim
  | usable _ _ _ _ => exact (quiet _ rfl rfl).elim
  | requested _ _ _ => exact (quiet _ rfl rfl).elim
  | refused _ => exact (quiet _ rfl rfl).elim
  | granted _ _ _ _ => exact (quiet _ rfl rfl).elim
  | marked _ => exact (quiet _ rfl rfl).elim
  | returned _ _ => exact (quiet _ rfl rfl).elim

/-- The lock stays, is taken where nobody has it, or is left by its holder. -/
theorem Transition.locks (h : Transition s effect) :
    (effect.lock = none ∧ (effect.new.holds = true → ∃ old, s.calls effect.id = some old ∧
        old.holds = true ∧ old.registrationId = effect.new.registrationId)) ∨
      (effect.lock = some (some effect.id) ∧ s.locks effect.new.registrationId = none) ∨
      (effect.lock = some none ∧ effect.new.holds = false ∧ ∃ old, s.calls effect.id = some old ∧
        old.holds = true ∧ old.registrationId = effect.new.registrationId) := by
  cases h with
  | started _ => exact .inl ⟨rfl, fun hholds => absurd hholds (by simp [Call.holds])⟩
  | begun _ => exact .inl ⟨rfl, fun hholds => absurd hholds (by simp [Call.holds])⟩
  | moved hcall hregistration _ hlock _ _ =>
    cases hlock with
    | keep hholds => exact .inl ⟨rfl, fun hnew => ⟨_, hcall, hholds ▸ hnew, hregistration.symm⟩⟩
    | take hfree _ => exact .inr (.inl ⟨rfl, hfree⟩)
    | leave hold hnew => exact .inr (.inr ⟨rfl, hnew, _, hcall, hold, hregistration.symm⟩)
  | loaded hcall _ => exact .inl ⟨rfl, fun hholds => ⟨_, hcall, hholds, rfl⟩⟩
  | usable hcall _ _ _ => exact .inl ⟨rfl, fun hholds => ⟨_, hcall, hholds, rfl⟩⟩
  | requested hcall _ _ => exact .inl ⟨rfl, fun hholds => ⟨_, hcall, hholds, rfl⟩⟩
  | refused hcall => exact .inl ⟨rfl, fun hholds => ⟨_, hcall, hholds, rfl⟩⟩
  | granted hcall _ _ _ => exact .inl ⟨rfl, fun hholds => ⟨_, hcall, hholds, rfl⟩⟩
  | marked hcall => exact .inl ⟨rfl, fun hholds => ⟨_, hcall, hholds, rfl⟩⟩
  | refreshed hcall _ => exact .inl ⟨rfl, fun hholds => ⟨_, hcall, hholds, rfl⟩⟩
  | @returned id registrationId locked accessToken lock hcall hlock =>
    cases locked with
    | true => exact .inr (.inr ⟨hlock, rfl, _, hcall, rfl, rfl⟩)
    | false => exact .inl ⟨hlock, fun hholds => absurd hholds (by simp [Call.holds])⟩
  | previous hcall _ => exact .inl ⟨rfl, fun hholds => ⟨_, hcall, rfl, rfl⟩⟩
  | matched hcall _ => exact .inl ⟨rfl, fun hholds => ⟨_, hcall, hholds, rfl⟩⟩
  | loggedIn hcall => exact .inl ⟨rfl, fun hholds => ⟨_, hcall, hholds, rfl⟩⟩

end Transitions

/-! ## The locks -/

/-- A call that is past its lock is the holder of the lock. -/
def Locked (s : AuthState) : Prop :=
  ∀ id call, s.calls id = some call → call.holds = true → s.locks call.registrationId = some id

theorem Locked.unique {s : AuthState} (h : Locked s) {id other : CallId} {call found : Call}
    (hcall : s.calls id = some call) (hholds : call.holds = true)
    (hother : s.calls other = some found) (hfound : found.holds = true)
    (hregistration : found.registrationId = call.registrationId) : other = id := by
  have hid := h id call hcall hholds
  have hlock := h other found hother hfound
  rw [hregistration, hid] at hlock
  exact (Option.some.inj hlock).symm

theorem Locked.apply {s : AuthState} {effect : Effect} (h : Locked s) (htransition : Transition s effect) :
    Locked (effect.apply s) := by
  intro id call hcall hholds
  by_cases hid : id = effect.id
  · have hnew : call = effect.new := by
      simpa [Effect.apply, hid] using hcall.symm
    subst hnew
    rcases htransition.locks with ⟨hlock, hold⟩ | ⟨hlock, _⟩ | ⟨_, hfree, _⟩
    · obtain ⟨old, hbefore, holds, hregistration⟩ := hold hholds
      simp only [Effect.apply, hlock]
      rw [← hregistration, hid]
      exact h _ old hbefore holds
    · simp [Effect.apply, hlock, hid]
    · rw [hfree] at hholds
      exact absurd hholds (by decide)
  · have hbefore : s.calls id = some call := by simpa [Effect.apply, hid] using hcall
    have hlocks := h id call hbefore hholds
    rcases htransition.locks with ⟨hlock, _⟩ | ⟨hlock, hfree⟩ | ⟨hlock, _, old, hcalls, holds, hsame⟩
    · simpa [Effect.apply, hlock] using hlocks
    · by_cases hregistration : call.registrationId = effect.new.registrationId
      · rw [hregistration, hfree] at hlocks
        exact absurd hlocks (by simp)
      · simpa [Effect.apply, hlock, hregistration] using hlocks
    · by_cases hregistration : call.registrationId = effect.new.registrationId
      · exact absurd (h.unique hcalls holds hbefore hholds (hregistration.trans hsame.symm)) hid
      · simpa [Effect.apply, hlock, hregistration] using hlocks

/-! ## The law of a state -/

/-- What every state that is reached satisfies. -/
structure TokenLaw (s : AuthState) : Prop where
  locked : Locked s
  fits : ∀ id call, s.calls id = some call → Fits s id call
  /-- The file has the refresh token that was saved last. -/
  saved : ∀ registrationId, ∀ saved ∈ lastSaved registrationId s.history,
    ∃ account, s.files registrationId = .record account ∧
      account.refreshToken = AccountRecord.refreshToken saved
  facts : EachFact FactLaw s.history

theorem TokenLaw.start (now : Int) (files : RegistrationId → AccountFile) :
    TokenLaw (AuthState.start now files) where
  locked := by
    intro id call hcall
    cases hcall
  fits := by
    intro id call hcall
    cases hcall
  saved := by
    intro registrationId saved hsaved
    cases hsaved
  facts := trivial

theorem TokenLaw.tick {s : AuthState} (h : TokenLaw s) (elapsed : Nat) :
    TokenLaw { s with now := s.now + elapsed } where
  locked := h.locked
  fits := by
    intro id call hcall
    have hnow : s.now ≤ s.now + (elapsed : Int) := by omega
    exact (h.fits id call hcall).kept (List.nil_append _).symm hnow fun _ =>
      ⟨rfl, by intro fact hfact; cases hfact⟩
  saved := h.saved
  facts := h.facts

theorem loadAccount_some {file : AccountFile} {registrationId : RegistrationId} {account : AccountRecord}
    (h : loadAccount file registrationId = .ok (some account)) :
    file = .record account ∧ account.registrationId = registrationId := by
  cases file with
  | missing => exact absurd h (by simp [loadAccount])
  | malformed => exact absurd h (by simp [loadAccount])
  | record found =>
    by_cases hregistration : found.registrationId = registrationId
    · have hsame : found = account := by simpa [loadAccount, hregistration] using h
      exact ⟨hsame ▸ rfl, hsame ▸ hregistration⟩
    · exact absurd h (by simp [loadAccount, hregistration])

theorem loadAccount_record {found : AccountRecord} {registrationId : RegistrationId}
    {content : Option AccountRecord} (h : loadAccount (.record found) registrationId = .ok content) :
    content = some found := by
  by_cases hregistration : found.registrationId = registrationId
  · simpa [loadAccount, hregistration] using h.symm
  · exact absurd h (by simp [loadAccount, hregistration])

section Apply

variable {s : AuthState} {effect : Effect}

/-- The step of another call changes nothing that the holder of a lock knows. -/
theorem Locked.kept (h : Locked s) (htransition : Transition s effect) {id : CallId} {call : Call}
    (hid : id ≠ effect.id) (hcall : s.calls id = some call) (hholds : call.holds = true) :
    Kept call.registrationId effect.fact.toList s (effect.apply s) := by
  have hother : effect.file ≠ none → effect.new.registrationId ≠ call.registrationId := by
    intro hfile hregistration
    obtain ⟨old, hold, holds, hsame⟩ := htransition.file_holds hfile
    exact hid (h.unique hold holds hcall hholds (hregistration.symm.trans hsame.symm))
  refine ⟨?_, ?_⟩
  · cases hfile : effect.file with
    | none => simp [Effect.apply, hfile]
    | some account =>
      have hne := hother (by simp [hfile])
      simp [Effect.apply, hfile, Ne.symm hne]
  · by_contra hsaves
    obtain ⟨hregistration, saved, hfile, _⟩ := htransition.saves hsaves
    exact hother (by simp [hfile]) hregistration

/-- What is known of a call after its step. -/
theorem TokenLaw.fits_new (h : TokenLaw s) (htransition : Transition s effect) :
    Fits (effect.apply s) effect.id effect.new := by
  cases htransition with
  | started _ => trivial
  | begun _ => trivial
  | moved _ _ hplain _ _ _ => exact Fits.plain hplain
  | @loaded id registrationId locked loaded hcall hload =>
    cases loaded with
    | error code => trivial
    | ok content =>
      have hcontent := hload content rfl
      refine ⟨?_, fun _ => hcontent⟩
      intro account haccount
      rw [Option.mem_def.mp haccount] at hcontent
      exact (loadAccount_some hcontent).2
  | @usable id registrationId locked account hcall hneeds hscope hnow =>
    obtain ⟨hregistration, _⟩ := h.fits _ _ hcall
    exact ⟨account, rfl, hregistration account rfl, hscope,
      .inl ⟨s.now, List.mem_cons_self, hnow⟩⟩
  | @requested id registrationId account hcall hneeds hexpired =>
    obtain ⟨hregistration, hlocked⟩ := h.fits _ _ hcall
    exact ⟨(loadAccount_some (hlocked rfl)).1, hregistration account rfl, hexpired, [], s.history, rfl,
      by intro fact hfact; cases hfact⟩
  | @refused id registrationId account hcall =>
    obtain ⟨hfile, _, hexpired, _⟩ := h.fits _ _ hcall
    exact ⟨hfile, hexpired⟩
  | @granted id registrationId account next hcall hregistration hsubject hscope =>
    obtain ⟨hfile, hsame, _, between, hrequested⟩ := h.fits _ _ hcall
    refine ⟨⟨account, hfile, hsubject.symm⟩, hregistration.trans hsame, hscope,
      account.refreshToken, _ :: between, hrequested.append ?_, List.mem_cons_self⟩
    intro fact hfact
    rw [List.mem_singleton.mp hfact]
    rfl
  | marked _ => trivial
  | @refreshed id registrationId next result hcall hresult =>
    cases result with
    | error code => trivial
    | ok accessToken =>
      obtain ⟨_, hregistration, hscope, _⟩ := h.fits _ _ hcall
      obtain ⟨htoken, hneeds⟩ := hresult accessToken rfl
      exact ⟨next, htoken.symm, hregistration, hscope hneeds, .inr List.mem_cons_self⟩
  | returned _ _ => trivial
  | @previous id registrationId account loaded hcall hload =>
    cases loaded with
    | error code => trivial
    | ok content => exact hload content rfl
  | @matched id registrationId account content hcall hsubject =>
    have hload : loadAccount (s.files registrationId) registrationId = .ok content := h.fits _ _ hcall
    intro found hfound
    have hfile : s.files registrationId = .record found := hfound
    rw [hfile] at hload
    exact (hsubject found (loadAccount_record hload)).symm
  | loggedIn _ => trivial

/-- The file still has the refresh token saved last. -/
theorem TokenLaw.saved_apply (h : TokenLaw s) (htransition : Transition s effect)
    (registrationId : RegistrationId) :
    ∀ saved ∈ lastSaved registrationId (effect.apply s).history,
      ∃ account, (effect.apply s).files registrationId = .record account ∧
        account.refreshToken = AccountRecord.refreshToken saved := by
  intro saved hsaved
  by_cases hunsaved : Unsaved registrationId effect.fact.toList
  · have hbefore : saved ∈ lastSaved registrationId s.history := by
      rw [← lastSaved_append hunsaved]
      exact hsaved
    obtain ⟨account, hfile, htoken⟩ := h.saved registrationId saved hbefore
    cases hwritten : effect.file with
    | none => exact ⟨account, by simpa [Effect.apply, hwritten] using hfile, htoken⟩
    | some next =>
      by_cases hregistration : registrationId = effect.new.registrationId
      · -- the marking keeps the refresh token; the other writes save
        cases htransition with
        | @marked id marked old hcall =>
          obtain ⟨hold, _⟩ := h.fits _ _ hcall
          have hsame : registrationId = marked := hregistration
          rw [hsame, hold] at hfile
          refine ⟨{ old with needsReauthentication := some true }, ?_, ?_⟩
          · simp [Effect.apply, Call.registrationId, hsame]
          · rw [← htoken, AccountFile.record.inj hfile]
        | @refreshed id saving next result hcall _ =>
          have hnone := hunsaved _ List.mem_cons_self
          have hsame : saving = registrationId := hregistration.symm
          simp [Fact.saves, hsame] at hnone
        | @loggedIn id saving next hcall =>
          have hnone := hunsaved _ List.mem_cons_self
          have hsame : saving = registrationId := hregistration.symm
          simp [Fact.saves, hsame] at hnone
        | moved => cases hwritten
        | started => cases hwritten
        | begun => cases hwritten
        | loaded => cases hwritten
        | usable => cases hwritten
        | requested => cases hwritten
        | refused => cases hwritten
        | granted => cases hwritten
        | returned => cases hwritten
        | previous => cases hwritten
        | matched => cases hwritten
      · exact ⟨account, by simpa [Effect.apply, hwritten, hregistration] using hfile, htoken⟩
  · obtain ⟨hregistration, next, hfile, fact, hfact, hsaves⟩ := htransition.saves hunsaved
    have hsame : saved = next := by
      simpa [lastSaved, Effect.apply, hfact, hsaves] using hsaved.symm
    exact ⟨next, by simp [Effect.apply, hfile, hregistration], by rw [hsame]⟩

/-- What a step records is in order. -/
theorem TokenLaw.facts_apply (h : TokenLaw s) (htransition : Transition s effect) :
    EachFact FactLaw (effect.apply s).history := by
  have quiet : ∀ fact, effect.fact = some fact → FactLaw fact s.history →
      EachFact FactLaw (effect.apply s).history := by
    intro fact hfact hlaw
    have hhistory : (effect.apply s).history = fact :: s.history := by simp [Effect.apply, hfact]
    rw [hhistory]
    exact ⟨hlaw, h.facts⟩
  cases htransition with
  | begun _ => exact h.facts
  | loaded _ _ => exact h.facts
  | previous _ _ => exact h.facts
  | matched _ _ => exact h.facts
  | @moved id old new lock fact _ _ _ _ hplain _ =>
    cases fact with
    | none => exact h.facts
    | some fact => exact quiet fact rfl (FactLaw.plain (hplain fact rfl))
  | @requested id registrationId account hcall _ _ =>
    refine quiet _ rfl ?_
    intro saved hsaved
    obtain ⟨found, hfile, htoken⟩ := h.saved registrationId saved hsaved
    obtain ⟨_, hlocked⟩ := h.fits _ _ hcall
    rw [(loadAccount_some (hlocked rfl)).1] at hfile
    rw [← htoken, AccountFile.record.inj hfile]
  | @refreshed id registrationId next result hcall _ =>
    obtain ⟨_, _, _, refreshToken, between, hrequested, hanswered⟩ := h.fits _ _ hcall
    exact quiet _ rfl ⟨refreshToken, between, hrequested, hanswered⟩
  | @returned id registrationId locked accessToken lock hcall _ =>
    exact quiet _ rfl (h.fits _ _ hcall)
  | started _ => exact quiet _ rfl trivial
  | usable _ _ _ _ => exact quiet _ rfl trivial
  | refused _ => exact quiet _ rfl trivial
  | granted _ _ _ _ => exact quiet _ rfl trivial
  | marked _ => exact quiet _ rfl trivial
  | loggedIn _ => exact quiet _ rfl trivial

theorem TokenLaw.apply (h : TokenLaw s) (htransition : Transition s effect) :
    TokenLaw (effect.apply s) where
  locked := h.locked.apply htransition
  fits := by
    intro id call hcall
    by_cases hid : id = effect.id
    · have hnew : call = effect.new := by
        simpa [Effect.apply, hid] using hcall.symm
      rw [hid, hnew]
      exact h.fits_new htransition
    · have hbefore : s.calls id = some call := by simpa [Effect.apply, hid] using hcall
      exact (h.fits id call hbefore).kept rfl (Int.le_refl _) fun hholds =>
        h.locked.kept htransition hid hbefore hholds
  saved := h.saved_apply htransition
  facts := h.facts_apply htransition

end Apply

theorem TokenLaw.step {s t : AuthState} {event : AuthEvent} (h : TokenLaw s)
    (hstep : s.step event = some t) : TokenLaw t := by
  rcases step_effect hstep with ⟨elapsed, rfl⟩ | ⟨effect, htransition, rfl⟩
  · exact h.tick elapsed
  · exact h.apply htransition

end ChatGPTAuth

end Henji
