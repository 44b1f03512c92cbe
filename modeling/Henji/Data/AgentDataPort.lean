import Henji.Data.ExecutionDataJournal
import Henji.Library.InsMap
import Henji.Library.Promises

/-!
# The Data port of a Worker

The Worker sends the observations of an execution, its checkpoints and its proposal or failure over
a port, each with the next sequence of the execution; other requests carry no sequence. The host's
endpoint gives the messages with a sequence to the journal of the execution, keeps proposals and
failures for those who wait for them, and replies.

The port keeps the order of its messages, and a post throws where its content cannot be cloned. A
handler of the host that awaits replies at a step of its own. The stage probe of `begin_execution`
is attached by a step of the journal.
-/

namespace Henji.DataPort

/-! ## Messages -/

inductive AgentDataResponseKind where
  | generation_context_result
  | context_turn_result
  | checkpoint_acknowledgement
  | after_turn_acknowledgement
  | post_settlement_hook_acknowledgement
  | ready_acknowledgement
deriving DecidableEq, Repr

/-- The requests with a reply; `correlation` of the last three is the one of their content. -/
inductive AgentDataPortRequest where
  | generation_context (requestId : Nat) (correlation : WorkerCorrelation)
  | context_turn_read (requestId : Nat) (correlation : WorkerCorrelation) (beforeTurn : Nat)
  | ready (requestId : Nat) (correlation : WorkerCorrelation)
  | begin_execution (executionId : ExecutionId) (correlation : WorkerCorrelation)
  | execution_data (executionId : ExecutionId) (sequence : Nat) (message : WorkerToHostMessage)
  | proposal (proposalId : String) (executionId : ExecutionId) (sequence : Nat)
      (message : WorkerToHostMessage)
  | failure (executionId : ExecutionId) (sequence : Nat) (message : WorkerToHostMessage)
  | checkpoint_proposal (requestId : Nat) (executionId : ExecutionId) (sequence : Nat)
      (message : WorkerToHostMessage) (correlation : WorkerCorrelation)
  | after_turn_context (requestId : Nat) (sequence : Nat) (correlation : WorkerCorrelation)
  | post_settlement_hook (requestId : Nat) (sequence : Nat) (correlation : WorkerCorrelation)
deriving DecidableEq

inductive AgentDataPortResponse where
  | result (kind : AgentDataResponseKind) (requestId : Nat) (correlation : WorkerCorrelation)
  | error (requestId : Nat)
deriving DecidableEq, Repr

def AgentDataPortResponse.requestId : AgentDataPortResponse → Nat
  | .result _ requestId _ => requestId
  | .error requestId => requestId

/-- What the client keeps of a request for its reply. -/
structure PendingRequest where
  requestId : Nat
  responseKind : AgentDataResponseKind
  correlation : WorkerCorrelation
deriving DecidableEq, Repr

namespace AgentDataPortRequest

/-- The reply that a request waits for. -/
def pendingRequest : AgentDataPortRequest → Option PendingRequest
  | generation_context requestId correlation =>
    some ⟨requestId, .generation_context_result, correlation⟩
  | context_turn_read requestId correlation _ =>
    some ⟨requestId, .context_turn_result, correlation⟩
  | ready requestId correlation => some ⟨requestId, .ready_acknowledgement, correlation⟩
  | checkpoint_proposal requestId _ _ _ correlation =>
    some ⟨requestId, .checkpoint_acknowledgement, correlation⟩
  | after_turn_context requestId _ correlation =>
    some ⟨requestId, .after_turn_acknowledgement, correlation⟩
  | post_settlement_hook requestId _ correlation =>
    some ⟨requestId, .post_settlement_hook_acknowledgement, correlation⟩
  | begin_execution .. | execution_data .. | proposal .. | failure .. => none

/-- What a request gives to the journal. -/
def dataInput : AgentDataPortRequest → Option ExecutionDataInput
  | execution_data executionId sequence message | proposal _ executionId sequence message
  | failure executionId sequence message | checkpoint_proposal _ executionId sequence message _ =>
    some ⟨executionId, sequence, message⟩
  | _ => none

end AgentDataPortRequest

/-! ## The client -/

structure CurrentExecution where
  executionId : ExecutionId
  sequence : Nat
deriving DecidableEq, Repr

inductive ClientError where
  | closed
  | execution_not_begun
  | not_cloned
deriving DecidableEq, Repr

/-- How the promise of a request was settled: by a reply, by `close`, or by the throw of its own
post. -/
inductive RequestSettlement where
  | resolved (response : AgentDataPortResponse)
  | failed (response : AgentDataPortResponse)
  | unexpected (response : AgentDataPortResponse)
  | closed
  | not_cloned
deriving DecidableEq, Repr

/-- The register of `requests` is the map `pending`. `barriers` has the final sequences that
`sendProposal` and `sendFailure` returned, and `skipped` says that a call of the execution took a
sequence and did not post it. -/
structure AgentDataPortClient where
  nextRequestId : Nat
  requests : Promises PendingRequest RequestSettlement
  current : Option CurrentExecution
  closed : Bool
  barriers : List Nat
  skipped : Bool
deriving DecidableEq

/-- Every message of a turn carries the correlation of the turn. -/
def turnMessage (correlation : WorkerCorrelation) (kind : WorkerMessageKind)
    (content : WorkerToHostMessage) : WorkerToHostMessage :=
  { content with
    kind := kind
    correlation := some correlation }

namespace AgentDataPortClient

def start : AgentDataPortClient where
  nextRequestId := 1
  requests := .empty
  current := none
  closed := false
  barriers := []
  skipped := false

def requireCurrentExecution (client : AgentDataPortClient) : Except ClientError CurrentExecution :=
  if client.closed then .error .closed
  else match client.current with
    | none => .error .execution_not_begun
    | some current => .ok current

/-- The message that reaches the port, or the throw. -/
def post (request : AgentDataPortRequest) (posts : Bool) (client : AgentDataPortClient) :
    Except ClientError AgentDataPortRequest :=
  if client.closed then .error .closed
  else if posts then .ok request
  else .error .not_cloned

def beginExecution (executionId : ExecutionId) (correlation : WorkerCorrelation) (posts : Bool)
    (client : AgentDataPortClient) :
    Except ClientError AgentDataPortRequest × AgentDataPortClient :=
  let client := { client with current := some ⟨executionId, 0⟩ }
  (client.post (.begin_execution executionId correlation) posts, client)

/-- `++current.sequence`, before the post. -/
def advance (current : CurrentExecution) (posts : Bool) (client : AgentDataPortClient) :
    AgentDataPortClient :=
  { client with
    current := some { current with sequence := current.sequence + 1 }
    skipped := client.skipped || !posts }

/-- A call that posts the next message of the execution. -/
def send (request : ExecutionId → Nat → AgentDataPortRequest) (posts : Bool)
    (client : AgentDataPortClient) :
    Except ClientError AgentDataPortRequest × AgentDataPortClient :=
  match client.requireCurrentExecution with
  | .error error => (.error error, client)
  | .ok current =>
    let client := client.advance current posts
    (client.post (request current.executionId (current.sequence + 1)) posts, client)

def observation (message : WorkerToHostMessage) :=
  send fun executionId sequence => .execution_data executionId sequence message

/-- A call that returns a barrier with the sequence of its message. -/
def sendBarrier (request : ExecutionId → Nat → AgentDataPortRequest) (posts : Bool)
    (client : AgentDataPortClient) :
    Except ClientError AgentDataPortRequest × AgentDataPortClient :=
  match client.send request posts with
  | (.error error, client) => (.error error, client)
  | (.ok request, client) => (.ok request, { client with
      barriers := client.barriers ++ (client.current.map CurrentExecution.sequence).toList })

def sendProposal (proposalId : String) (message : WorkerToHostMessage) :=
  sendBarrier fun executionId sequence => .proposal proposalId executionId sequence message

def sendFailure (message : WorkerToHostMessage) :=
  sendBarrier fun executionId sequence => .failure executionId sequence message

/-- The promise of a request; it is rejected at once where the port is closed or the post throws. -/
def request (responseKind : AgentDataResponseKind) (correlation : WorkerCorrelation)
    (message : Nat → AgentDataPortRequest) (posts : Bool) (client : AgentDataPortClient) :
    Except ClientError AgentDataPortRequest × AgentDataPortClient :=
  let requestId := client.nextRequestId
  let pending : PendingRequest := ⟨requestId, responseKind, correlation⟩
  let client := { client with nextRequestId := requestId + 1 }
  if client.closed then
    (.error .closed, { client with requests := client.requests.makeSettled pending .closed })
  else if posts then
    (.ok (message requestId), { client with requests := client.requests.make pending })
  else
    (.error .not_cloned,
      { client with requests := client.requests.makeSettled pending .not_cloned })

def generationContext (correlation : WorkerCorrelation) :=
  request .generation_context_result correlation fun requestId =>
    .generation_context requestId correlation

def readContextTurn (correlation : WorkerCorrelation) (beforeTurn : Nat) :=
  request .context_turn_result correlation fun requestId =>
    .context_turn_read requestId correlation beforeTurn

def ready (correlation : WorkerCorrelation) :=
  request .ready_acknowledgement correlation fun requestId => .ready requestId correlation

def checkpoint (correlation : WorkerCorrelation) (message : WorkerToHostMessage) (posts : Bool)
    (client : AgentDataPortClient) :
    Except ClientError AgentDataPortRequest × AgentDataPortClient :=
  match client.requireCurrentExecution with
  | .error error => (.error error, client)
  | .ok current =>
    (client.advance current posts).request .checkpoint_acknowledgement correlation
      (fun requestId => .checkpoint_proposal requestId current.executionId (current.sequence + 1)
        message correlation) posts

/-- A request behind the settlement; its provider observations take sequences too. -/
def settledRequest (responseKind : AgentDataResponseKind) (correlation : WorkerCorrelation)
    (message : Nat → Nat → AgentDataPortRequest) (providerObservations : Nat) (posts : Bool)
    (client : AgentDataPortClient) :
    Except ClientError AgentDataPortRequest × AgentDataPortClient :=
  match client.requireCurrentExecution with
  | .error error => (.error error, client)
  | .ok current =>
    request responseKind correlation (fun requestId => message requestId (current.sequence + 1))
      posts { client with current := some { current with
        sequence := current.sequence + 1 + providerObservations } }

def afterTurn (correlation : WorkerCorrelation) :=
  settledRequest .after_turn_acknowledgement correlation fun requestId sequence =>
    .after_turn_context requestId sequence correlation

def postSettlementHook (correlation : WorkerCorrelation) :=
  settledRequest .post_settlement_hook_acknowledgement correlation fun requestId sequence =>
    .post_settlement_hook requestId sequence correlation

/-- How a reply settles the request with its id. -/
def settlement (response : AgentDataPortResponse) (pending : PendingRequest) : RequestSettlement :=
  match response with
  | .error _ => .failed response
  | .result kind _ correlation =>
    if kind ≠ pending.responseKind ∨ correlation ≠ pending.correlation then .unexpected response
    else .resolved response

def receive (response : AgentDataPortResponse) (client : AgentDataPortClient) :
    AgentDataPortClient :=
  { client with
    requests := client.requests.settleWhere
      (fun pending => pending.requestId == response.requestId) (settlement response) }

def close (client : AgentDataPortClient) : AgentDataPortClient :=
  if client.closed then client
  else { client with
    closed := true
    requests := client.requests.settleWhere (fun _ => true) fun _ => .closed
    current := none }

end AgentDataPortClient

/-! ## The endpoint -/

/-- What a wait of the endpoint is for. -/
inductive AwaitedId where
  | ready
  | proposal (proposalId : String)
  | failure (executionId : ExecutionId)
deriving DecidableEq, Repr

inductive WaitSettlement where
  | resolved (data : AgentDataPortRequest)
  | sealed
deriving DecidableEq

/-- `data` has the startup, the proposals and the failures, and the register of `waits` their
waiters. `tasks` has the requests whose handlers await. -/
structure AgentDataEndpoint where
  data : InsMap AwaitedId AgentDataPortRequest
  waits : Promises AwaitedId WaitSettlement
  tasks : List PendingRequest
  sealed : Bool
  closed : Bool
deriving DecidableEq

/-- What a request is awaited for. -/
def AgentDataPortRequest.awaitedId : AgentDataPortRequest → Option AwaitedId
  | ready .. => some .ready
  | proposal proposalId .. => some (.proposal proposalId)
  | failure executionId .. => some (.failure executionId)
  | _ => none

namespace AgentDataEndpoint

def start : AgentDataEndpoint where
  data := .empty
  waits := .empty
  tasks := []
  sealed := false
  closed := false

def reply (response : AgentDataPortResponse) (endpoint : AgentDataEndpoint) :
    List AgentDataPortResponse :=
  if endpoint.closed then [] else [response]

/-- The reply of a handler that returns or throws. -/
def answer (pending : PendingRequest) (succeeds : Bool) (endpoint : AgentDataEndpoint) :
    List AgentDataPortResponse :=
  if succeeds then
    endpoint.reply (.result pending.responseKind pending.requestId pending.correlation)
  else endpoint.reply (.error pending.requestId)

/-- Data is kept under its id and resolves the waits for it. -/
def keep (id : AwaitedId) (request : AgentDataPortRequest) (endpoint : AgentDataEndpoint) :
    AgentDataEndpoint :=
  { endpoint with
    data := endpoint.data.set id request
    waits := endpoint.waits.settleWhere (fun awaited => awaited == id) fun _ => .resolved request }

/-- A request arrives; `accepted` is what the journal says to its data. `succeeds` says whether a
handler that does not await returns. -/
def receive (request : AgentDataPortRequest)
    (accepted : Except JournalError ExecutionDataJournal.Acceptance) (succeeds : Bool)
    (endpoint : AgentDataEndpoint) : List AgentDataPortResponse × AgentDataEndpoint :=
  match request with
  | .generation_context requestId correlation =>
    (endpoint.answer ⟨requestId, .generation_context_result, correlation⟩ succeeds, endpoint)
  | .context_turn_read .. | .after_turn_context .. | .post_settlement_hook .. =>
    ([], { endpoint with tasks := endpoint.tasks ++ request.pendingRequest.toList })
  | .ready requestId correlation =>
    let endpoint := endpoint.keep .ready request
    (endpoint.answer ⟨requestId, .ready_acknowledgement, correlation⟩ true, endpoint)
  | .begin_execution .. => ([], endpoint)
  | .execution_data .. => ([], endpoint)
  | .proposal proposalId .. =>
    if accepted = .ok .accepted then ([], endpoint.keep (.proposal proposalId) request)
    else ([], endpoint)
  | .failure executionId .. =>
    if accepted = .ok .accepted then ([], endpoint.keep (.failure executionId) request)
    else ([], endpoint)
  | .checkpoint_proposal requestId .. =>
    match accepted with
    | .ok .accepted =>
      ([], { endpoint with tasks := endpoint.tasks ++ request.pendingRequest.toList })
    | .ok .sealed => ([], endpoint)
    | .error _ => (endpoint.reply (.error requestId), endpoint)

/-- The wait for an id. -/
def await (id : AwaitedId) (endpoint : AgentDataEndpoint) : AgentDataEndpoint :=
  match endpoint.data.get? id with
  | some data => { endpoint with waits := endpoint.waits.makeSettled id (.resolved data) }
  | none =>
    if endpoint.closed || endpoint.sealed then
      { endpoint with waits := endpoint.waits.makeSettled id .sealed }
    else { endpoint with waits := endpoint.waits.make id }

def ready : AgentDataEndpoint → AgentDataEndpoint := await .ready

def proposal (proposalId : String) : AgentDataEndpoint → AgentDataEndpoint :=
  await (.proposal proposalId)

def failure (executionId : ExecutionId) : AgentDataEndpoint → AgentDataEndpoint :=
  await (.failure executionId)

/-- The ids of some data of an execution. -/
def ofExecution (executionId : ExecutionId) : AwaitedId × AgentDataPortRequest → Bool
  | (.proposal _, .proposal _ owner _ _) => owner == executionId
  | (.failure owner, _) => owner == executionId
  | _ => false

def releaseExecution (executionId : ExecutionId) (endpoint : AgentDataEndpoint) :
    AgentDataEndpoint :=
  { endpoint with
    data := (endpoint.data.entries.filter (ofExecution executionId)).foldl
      (fun data entry => data.erase entry.1) endpoint.data }

/-- `seal` of the source. -/
def sealEndpoint (endpoint : AgentDataEndpoint) : AgentDataEndpoint :=
  { endpoint with
    sealed := true
    waits := endpoint.waits.settleWhere (fun _ => true) fun _ => .sealed }

def close (endpoint : AgentDataEndpoint) : AgentDataEndpoint :=
  if endpoint.closed then endpoint
  else { endpoint.sealEndpoint with
    closed := true
    data := .empty }

end AgentDataEndpoint

/-! ## The port -/

/-- The two sides with the messages under way. `arrived` has the inputs that reached the journal
before it was sealed. -/
structure AgentDataPort where
  executionId : ExecutionId
  correlation : WorkerCorrelation
  client : AgentDataPortClient
  toHost : List AgentDataPortRequest
  endpoint : AgentDataEndpoint
  journal : ExecutionDataJournal
  toWorker : List AgentDataPortResponse
  arrived : List ExecutionDataInput
deriving DecidableEq

/-- `posts` says whether the post of a call is cloned, `appends` whether the writer takes a full
buffer, and `succeeds` whether a handler of the host returns. -/
inductive AgentDataPortEvent where
  | beginExecution (posts : Bool)
  | observation (kind : WorkerMessageKind) (content : WorkerToHostMessage) (posts : Bool)
  | sendProposal (proposalId : String) (content : WorkerToHostMessage) (posts : Bool)
  | sendFailure (content : WorkerToHostMessage) (posts : Bool)
  | checkpoint (content : WorkerToHostMessage) (posts : Bool)
  | generationContext (correlation : WorkerCorrelation) (posts : Bool)
  | readContextTurn (correlation : WorkerCorrelation) (beforeTurn : Nat) (posts : Bool)
  | ready (correlation : WorkerCorrelation) (posts : Bool)
  | afterTurn (correlation : WorkerCorrelation) (providerObservations : Nat) (posts : Bool)
  | postSettlementHook (correlation : WorkerCorrelation) (providerObservations : Nat)
      (posts : Bool)
  | closeClient
  | receiveRequest (appends succeeds : Bool)
  | finishTask (task : Nat) (succeeds : Bool)
  | receiveResponse
  | awaitReady
  | awaitProposal (proposalId : String)
  | awaitFailure (executionId : ExecutionId)
  | releaseExecution (executionId : ExecutionId)
  | sealEndpoint
  | closeEndpoint
  | journal (event : JournalEvent)
deriving DecidableEq

namespace AgentDataPort

def start (executionId : ExecutionId) (correlation : WorkerCorrelation) : AgentDataPort where
  executionId := executionId
  correlation := correlation
  client := .start
  toHost := []
  endpoint := .start
  journal := .start executionId correlation
  toWorker := []
  arrived := []

/-- A call of the client; what it posts is under way. -/
def call (port : AgentDataPort)
    (operation : AgentDataPortClient →
      Except ClientError AgentDataPortRequest × AgentDataPortClient) : AgentDataPort :=
  let (posted, client) := operation port.client
  { port with
    client := client
    toHost := port.toHost ++ posted.toOption.toList }

/-- The endpoint takes a request, unless it is sealed or closed; the data goes through the journal
first. -/
def arrive (request : AgentDataPortRequest) (appends succeeds : Bool) (port : AgentDataPort) :
    AgentDataPort :=
  if port.endpoint.closed || port.endpoint.sealed then port
  else match request.dataInput with
    | none =>
      let (replies, endpoint) := port.endpoint.receive request (.ok .accepted) succeeds
      { port with
        endpoint := endpoint
        toWorker := port.toWorker ++ replies }
    | some input =>
      let (accepted, journal) := port.journal.receive input appends
      let (replies, endpoint) := port.endpoint.receive request accepted succeeds
      { port with
        endpoint := endpoint
        journal := journal
        toWorker := port.toWorker ++ replies
        arrived := if port.journal.sealed then port.arrived else port.arrived ++ [input] }

/-- One execution begins once; the requests behind its settlement are made once its journal is
sealed; and the journal takes messages through the endpoint only. -/
def step (port : AgentDataPort) : AgentDataPortEvent → Option AgentDataPort
  | .beginExecution posts =>
    if port.client.current.isSome then none
    else some (port.call fun client =>
      client.beginExecution port.executionId port.correlation posts)
  | .observation kind content posts =>
    let message := turnMessage port.correlation kind content
    some (port.call fun client => client.observation message posts)
  | .sendProposal proposalId content posts =>
    let message := turnMessage port.correlation .commit_proposal content
    some (port.call fun client => client.sendProposal proposalId message posts)
  | .sendFailure content posts =>
    let message := turnMessage port.correlation .turn_failed content
    some (port.call fun client => client.sendFailure message posts)
  | .checkpoint content posts =>
    let message := turnMessage port.correlation .checkpoint_proposal content
    some (port.call fun client => client.checkpoint port.correlation message posts)
  | .generationContext correlation posts =>
    some (port.call fun client => client.generationContext correlation posts)
  | .readContextTurn correlation beforeTurn posts =>
    some (port.call fun client => client.readContextTurn correlation beforeTurn posts)
  | .ready correlation posts => some (port.call fun client => client.ready correlation posts)
  | .afterTurn correlation providerObservations posts =>
    if port.journal.sealed then
      some (port.call fun client => client.afterTurn correlation providerObservations posts)
    else none
  | .postSettlementHook correlation providerObservations posts =>
    if port.journal.sealed then
      some (port.call fun client =>
        client.postSettlementHook correlation providerObservations posts)
    else none
  | .closeClient => some { port with client := port.client.close }
  | .receiveRequest appends succeeds =>
    match port.toHost with
    | [] => none
    | request :: toHost => some (arrive request appends succeeds { port with toHost := toHost })
  | .finishTask task succeeds =>
    (port.endpoint.tasks[task]?).map fun pending =>
      { port with
        endpoint := { port.endpoint with tasks := port.endpoint.tasks.eraseIdx task }
        toWorker := port.toWorker ++ port.endpoint.answer pending succeeds }
  | .receiveResponse =>
    match port.toWorker with
    | [] => none
    | response :: toWorker => some { port with
        client := port.client.receive response
        toWorker := toWorker }
  | .awaitReady => some { port with endpoint := port.endpoint.ready }
  | .awaitProposal proposalId => some { port with endpoint := port.endpoint.proposal proposalId }
  | .awaitFailure executionId => some { port with endpoint := port.endpoint.failure executionId }
  | .releaseExecution executionId =>
    some { port with endpoint := port.endpoint.releaseExecution executionId }
  | .sealEndpoint => some { port with endpoint := port.endpoint.sealEndpoint }
  | .closeEndpoint => some { port with endpoint := port.endpoint.close }
  | .journal (.receive ..) => none
  | .journal event =>
    (port.journal.step event).map fun journal => { port with journal := journal }

end AgentDataPort

end Henji.DataPort
