import Henji.Json
import Henji.Library.Runs
import Mathlib.Data.List.Basic

/-!
# Sign in with ChatGPT

The account of a registration is a file that is read and replaced whole. A call of `resolve` reads
the file and returns its access token while that is not expired; otherwise it takes the lock of the
account, reads the file again and refreshes the tokens. A call of `complete` exchanges its code, checks
the identity and writes the account under the same lock. Calls of any number of services take their
steps in any order.

The state keeps a history of what the calls did, newest first. No step reads it.
-/

namespace Henji

namespace ChatGPTAuth

def DIRECT_SCOPE : String := "chatgpt.tokens.use.direct"

abbrev RegistrationId : Type := String

structure AccountRecord where
  registrationId : RegistrationId
  clientId : String
  subject : String
  email : Option String
  accessToken : String
  refreshToken : String
  idToken : String
  expiresAt : Int
  scopes : List String
  needsReauthentication : Option Bool
deriving DecidableEq, Repr

/-- What is at the path of an account. -/
inductive AccountFile where
  | missing
  | malformed
  | record (account : AccountRecord)
deriving DecidableEq, Repr

/-- The codes of `ChatGPTAuthError`, and those of the token endpoint. -/
abbrev Code : Type := String

abbrev Loaded : Type := Except Code (Option AccountRecord)

/-- `loadAccount`: the file of another registration is not valid. -/
def loadAccount (file : AccountFile) (registrationId : RegistrationId) : Loaded :=
  match file with
  | .missing => .ok none
  | .malformed => .error "chatgpt_saved_state_invalid"
  | .record account =>
    if account.registrationId = registrationId then .ok (some account)
    else .error "chatgpt_saved_state_invalid"

/-! ## Tokens -/

/-- The fields of an answer that `tokenSet` reads, where they have the type that it asks for. -/
structure TokenBody where
  expires_in : Option Int
  scope : Option String
  access_token : Option String
  refresh_token : Option String
  id_token : Option String
deriving DecidableEq, Repr

structure TokenSet where
  accessToken : String
  refreshToken : String
  expiresAt : Int
  scopes : List String
deriving DecidableEq, Repr

def requiredString : Option String → Except Code String
  | none => .error "chatgpt_response_parse_failed"
  | some value => if value = "" then .error "chatgpt_response_parse_failed" else .ok value

/-- `scope.split(/\s+/u)` without empty items. -/
def scopeItems (scope : String) : List String :=
  ((scope.toList.splitOnP fun character => isTrimmed character.toNat).filter (· ≠ [])).map String.ofList

def tokenSet (now : Int) (token : TokenBody) : Except Code TokenSet :=
  match token.expires_in with
  | none => .error "chatgpt_response_parse_failed"
  | some expires => do
    if expires ≤ 0 then .error "chatgpt_response_parse_failed"
    else
      let scope ← requiredString token.scope
      let accessToken ← requiredString token.access_token
      let refreshToken ← requiredString token.refresh_token
      return { accessToken, refreshToken, expiresAt := now + expires * 1000, scopes := scopeItems scope }

/-- The record of a refresh: what is not answered stays. -/
def refreshedRecord (account : AccountRecord) (tokens : TokenSet) (idToken : Option String) :
    AccountRecord :=
  { account with
    accessToken := tokens.accessToken
    refreshToken := tokens.refreshToken
    expiresAt := tokens.expiresAt
    scopes := tokens.scopes
    idToken := idToken.getD account.idToken
    needsReauthentication := some !tokens.scopes.contains DIRECT_SCOPE }

structure Identity where
  subject : String
  email : Option String
deriving DecidableEq, Repr

/-- The record of a login. -/
def loginRecord (registrationId : RegistrationId) (clientId : String) (identity : Identity)
    (idToken : String) (tokens : TokenSet) : AccountRecord where
  registrationId := registrationId
  clientId := clientId
  subject := identity.subject
  email := identity.email
  accessToken := tokens.accessToken
  refreshToken := tokens.refreshToken
  idToken := idToken
  expiresAt := tokens.expiresAt
  scopes := tokens.scopes
  needsReauthentication := some !tokens.scopes.contains DIRECT_SCOPE

/-! ## Calls -/

/-- The check of a loaded account. -/
inductive Checked where
  | refused (code : Code)
  | usable (account : AccountRecord)
  | expired (account : AccountRecord)
deriving DecidableEq, Repr

def checkAccount (now : Int) : Loaded → Checked
  | .error code => .refused code
  | .ok none => .refused "chatgpt_account_missing"
  | .ok (some account) =>
    if account.needsReauthentication = some true ∨ account.scopes.contains DIRECT_SCOPE = false then
      .refused "chatgpt_plan_usage_not_granted"
    else if now < account.expiresAt then .usable account
    else .expired account

/-- Where a call of `resolve` is. With `locked` it holds the lock of the account. -/
inductive ResolvePhase where
  | loading (locked : Bool)
  | checking (locked : Bool) (loaded : Loaded)
  | waiting
  | requesting (account : AccountRecord)
  | marking (account : AccountRecord)
  | saving (next : AccountRecord)
  | leaving (locked : Bool) (result : Except Code String)
  | done (result : Except Code String)

/-- Where a call of `complete` is, from its parsed callback on. -/
inductive CompletePhase where
  | registering (clientId : String)
  | exchanging (clientId : String)
  | verifying (clientId : String) (tokens : TokenSet) (idToken : String)
  | waiting (account : AccountRecord)
  | loading (account : AccountRecord)
  | checking (account : AccountRecord) (previous : Loaded)
  | saving (account : AccountRecord)
  | leaving (locked : Bool) (result : Except Code Unit)
  | selecting
  | done (result : Except Code Unit)

inductive Call where
  | resolve (registrationId : RegistrationId) (phase : ResolvePhase)
  | complete (registrationId : RegistrationId) (phase : CompletePhase)

def Call.registrationId : Call → RegistrationId
  | .resolve registrationId _ => registrationId
  | .complete registrationId _ => registrationId

/-- The call holds the lock of its account. -/
def Call.holds : Call → Bool
  | .resolve _ (.loading locked) => locked
  | .resolve _ (.checking locked _) => locked
  | .resolve _ (.requesting _) => true
  | .resolve _ (.marking _) => true
  | .resolve _ (.saving _) => true
  | .resolve _ (.leaving locked _) => locked
  | .complete _ (.loading _) => true
  | .complete _ (.checking _ _) => true
  | .complete _ (.saving _) => true
  | .complete _ (.leaving locked _) => locked
  | _ => false

/-! ## The system -/

abbrev CallId : Type := Nat

inductive Fact where
  | started (call : CallId) (registrationId : RegistrationId)
  | checked (call : CallId) (registrationId : RegistrationId) (account : AccountRecord) (now : Int)
  | requested (call : CallId) (registrationId : RegistrationId) (refreshToken : String)
  | answered (call : CallId) (registrationId : RegistrationId) (answer : Except Code AccountRecord)
  | obtained (call : CallId) (registrationId : RegistrationId)
  | refreshed (call : CallId) (registrationId : RegistrationId) (account : AccountRecord)
  | loggedIn (call : CallId) (registrationId : RegistrationId) (account : AccountRecord)
  | marked (call : CallId) (registrationId : RegistrationId)
  | writeFailed (call : CallId) (registrationId : RegistrationId)
  | returned (call : CallId) (registrationId : RegistrationId) (accessToken : String)
  | failed (call : CallId) (registrationId : RegistrationId) (code : Code)
  | completed (call : CallId) (registrationId : RegistrationId)
deriving DecidableEq

structure AuthState where
  now : Int
  files : RegistrationId → AccountFile
  locks : RegistrationId → Option CallId
  calls : CallId → Option Call
  history : List Fact

namespace AuthState

variable (s : AuthState)

def setCall (id : CallId) (call : Call) : AuthState :=
  { s with calls := fun other => if other = id then some call else s.calls other }

def record (fact : Fact) : AuthState := { s with history := fact :: s.history }

def writeFile (registrationId : RegistrationId) (account : AccountRecord) : AuthState :=
  { s with files := fun other =>
      if other = registrationId then .record account else s.files other }

def setLock (registrationId : RegistrationId) (holder : Option CallId) : AuthState :=
  { s with locks := fun other => if other = registrationId then holder else s.locks other }

end AuthState

inductive AuthEvent where
  /-- The clock moves on. -/
  | tick (elapsed : Nat)
  | resolve (id : CallId) (registrationId : RegistrationId)
  | complete (id : CallId) (registrationId : RegistrationId) (clientId : String)
  /-- The registration of a login is saved, or could not be. -/
  | registered (id : CallId) (fails : Bool)
  /-- A call gets the lock. -/
  | lock (id : CallId)
  /-- The lock file cannot be opened. -/
  | lockFails (id : CallId)
  | load (id : CallId) (fails : Bool)
  | check (id : CallId)
  /-- What `requester.json` of the token request ends with. -/
  | answer (id : CallId) (result : Except Code TokenBody)
  /-- What the check of the identity ends with. -/
  | verified (id : CallId) (result : Except Code Identity)
  | write (id : CallId) (fails : Bool)
  | leave (id : CallId)
  /-- What the selection and the state behind a login end with. -/
  | selected (id : CallId) (result : Except Code Unit)

def afterCheck (s : AuthState) (id : CallId) (registrationId : RegistrationId) (locked : Bool) :
    Checked → AuthState
  | .refused code => s.setCall id (.resolve registrationId (.leaving locked (.error code)))
  | .usable account =>
    (s.setCall id (.resolve registrationId (.leaving locked (.ok account.accessToken)))).record
      (.checked id registrationId account s.now)
  | .expired account =>
    if locked = false then s.setCall id (.resolve registrationId .waiting)
    else if account.refreshToken = "" then
      s.setCall id (.resolve registrationId (.leaving true (.error "chatgpt_refresh_token_missing")))
    else
      (s.setCall id (.resolve registrationId (.requesting account))).record
        (.requested id registrationId account.refreshToken)

/-- The answer to a refresh of an account. -/
def afterRefresh (s : AuthState) (id : CallId) (registrationId : RegistrationId)
    (account : AccountRecord) (result : Except Code TokenBody) : AuthState :=
  let refused := fun code => (s.setCall id (.resolve registrationId (.leaving true (.error code)))).record
    (.answered id registrationId (.error code))
  match result with
  | .error code =>
    if code = "invalid_grant" then
      (s.setCall id (.resolve registrationId (.marking account))).record
        (.answered id registrationId (.error code))
    else refused code
  | .ok token =>
    match tokenSet s.now token with
    | .error code => refused code
    | .ok tokens =>
      let next := refreshedRecord account tokens token.id_token
      (s.setCall id (.resolve registrationId (.saving next))).record
        (.answered id registrationId (.ok next))

/-- The answer to a code exchange. -/
def afterExchange (s : AuthState) (id : CallId) (registrationId : RegistrationId) (clientId : String)
    (result : Except Code TokenBody) : AuthState :=
  let refused := fun code => s.setCall id (.complete registrationId (.leaving false (.error code)))
  match result with
  | .error code => refused code
  | .ok token =>
    match tokenSet s.now token with
    | .error code => refused code
    | .ok tokens =>
      match requiredString token.id_token with
      | .error code => refused code
      | .ok idToken =>
        (s.setCall id (.complete registrationId (.verifying clientId tokens idToken))).record
          (.obtained id registrationId)

/-- The check of the identity under the lock. -/
def afterPrevious (s : AuthState) (id : CallId) (registrationId : RegistrationId)
    (account : AccountRecord) : Loaded → AuthState
  | .error code => s.setCall id (.complete registrationId (.leaving true (.error code)))
  | .ok none => s.setCall id (.complete registrationId (.saving account))
  | .ok (some previous) =>
    if account.subject ≠ previous.subject then
      s.setCall id (.complete registrationId
        (.leaving true (.error "chatgpt_account_identity_mismatch")))
    else s.setCall id (.complete registrationId (.saving account))

def afterWrite (s : AuthState) (id : CallId) (fails : Bool) : Call → Option AuthState
  | .resolve registrationId (.marking account) =>
    if fails then
      some ((s.setCall id (.resolve registrationId
        (.leaving true (.error "chatgpt_saved_state_write_failed")))).record
        (.writeFailed id registrationId))
    else
      some (((s.writeFile registrationId { account with needsReauthentication := some true }).setCall id
        (.resolve registrationId (.leaving true (.error "invalid_grant")))).record
        (.marked id registrationId))
  | .resolve registrationId (.saving next) =>
    if fails then
      some ((s.setCall id (.resolve registrationId
        (.leaving true (.error "chatgpt_saved_state_write_failed")))).record
        (.writeFailed id registrationId))
    else
      let result := if next.needsReauthentication = some true then
          .error "chatgpt_plan_usage_not_granted"
        else .ok next.accessToken
      some (((s.writeFile registrationId next).setCall id
        (.resolve registrationId (.leaving true result))).record (.refreshed id registrationId next))
  | .complete registrationId (.saving account) =>
    if fails then
      some ((s.setCall id (.complete registrationId
        (.leaving true (.error "chatgpt_saved_state_write_failed")))).record
        (.writeFailed id registrationId))
    else
      some (((s.writeFile registrationId account).setCall id
        (.complete registrationId (.leaving true (.ok ())))).record
        (.loggedIn id registrationId account))
  | _ => none

/-- The call lets go of the lock, if it has it, and ends. -/
def afterLeave (s : AuthState) (id : CallId) : Call → Option AuthState
  | .resolve registrationId (.leaving locked result) =>
    let s := if locked then s.setLock registrationId none else s
    let s := s.setCall id (.resolve registrationId (.done result))
    match result with
    | .ok accessToken => some (s.record (.returned id registrationId accessToken))
    | .error code => some (s.record (.failed id registrationId code))
  | .complete registrationId (.leaving locked result) =>
    let s := if locked then s.setLock registrationId none else s
    match result with
    | .ok () => some (s.setCall id (.complete registrationId .selecting))
    | .error code => some ((s.setCall id (.complete registrationId (.done (.error code)))).record
      (.failed id registrationId code))
  | _ => none

def AuthState.step (s : AuthState) : AuthEvent → Option AuthState
  | .tick elapsed => some { s with now := s.now + elapsed }
  | .resolve id registrationId =>
    match s.calls id with
    | none => some ((s.setCall id (.resolve registrationId (.loading false))).record
      (.started id registrationId))
    | some _ => none
  | .complete id registrationId clientId =>
    match s.calls id with
    | none => some (s.setCall id (.complete registrationId (.registering clientId)))
    | some _ => none
  | .registered id fails =>
    match s.calls id with
    | some (.complete registrationId (.registering clientId)) =>
      some (s.setCall id (.complete registrationId
        (if fails then .leaving false (.error "chatgpt_saved_state_write_failed")
        else .exchanging clientId)))
    | _ => none
  | .lock id =>
    match s.calls id with
    | some (.resolve registrationId .waiting) =>
      if s.locks registrationId = none then
        some ((s.setLock registrationId (some id)).setCall id
          (.resolve registrationId (.loading true)))
      else none
    | some (.complete registrationId (.waiting account)) =>
      if s.locks registrationId = none then
        some ((s.setLock registrationId (some id)).setCall id
          (.complete registrationId (.loading account)))
      else none
    | _ => none
  | .lockFails id =>
    match s.calls id with
    | some (.resolve registrationId .waiting) =>
      some (s.setCall id (.resolve registrationId
        (.leaving false (.error "chatgpt_saved_state_write_failed"))))
    | some (.complete registrationId (.waiting _)) =>
      some (s.setCall id (.complete registrationId
        (.leaving false (.error "chatgpt_saved_state_write_failed"))))
    | _ => none
  | .load id fails =>
    let content := fun registrationId =>
      if fails then .error "chatgpt_saved_state_read_failed"
      else loadAccount (s.files registrationId) registrationId
    match s.calls id with
    | some (.resolve registrationId (.loading locked)) =>
      some (s.setCall id (.resolve registrationId (.checking locked (content registrationId))))
    | some (.complete registrationId (.loading account)) =>
      some (s.setCall id (.complete registrationId (.checking account (content registrationId))))
    | _ => none
  | .check id =>
    match s.calls id with
    | some (.resolve registrationId (.checking locked loaded)) =>
      some (afterCheck s id registrationId locked (checkAccount s.now loaded))
    | some (.complete registrationId (.checking account previous)) =>
      some (afterPrevious s id registrationId account previous)
    | _ => none
  | .answer id result =>
    match s.calls id with
    | some (.resolve registrationId (.requesting account)) =>
      some (afterRefresh s id registrationId account result)
    | some (.complete registrationId (.exchanging clientId)) =>
      some (afterExchange s id registrationId clientId result)
    | _ => none
  | .verified id result =>
    match s.calls id with
    | some (.complete registrationId (.verifying clientId tokens idToken)) =>
      match result with
      | .error code => some (s.setCall id (.complete registrationId (.leaving false (.error code))))
      | .ok identity => some (s.setCall id (.complete registrationId
        (.waiting (loginRecord registrationId clientId identity idToken tokens))))
    | _ => none
  | .write id fails => (s.calls id).bind (afterWrite s id fails)
  | .leave id => (s.calls id).bind (afterLeave s id)
  | .selected id result =>
    match s.calls id with
    | some (.complete registrationId .selecting) =>
      match result with
      | .error code => some ((s.setCall id (.complete registrationId (.done (.error code)))).record
        (.failed id registrationId code))
      | .ok () => some ((s.setCall id (.complete registrationId (.done (.ok ())))).record
        (.completed id registrationId))
    | _ => none

/-- The files before any call. -/
def AuthState.start (now : Int) (files : RegistrationId → AccountFile) : AuthState where
  now := now
  files := files
  locks := fun _ => none
  calls := fun _ => none
  history := []

end ChatGPTAuth

end Henji
