import Henji.Data.AgentDataPort
import Henji.Data.JournalLaw

/-!
# The sequence law of the Data port

`SequenceLaw` says that the messages of an execution reach its journal with the sequences from one
on, `RequestLaw` that a request is settled once and by its own reply, and `WaitLaw` that a wait of
the endpoint gets the data of its id or the seal. A call that takes a sequence and does not post it
leaves a gap, so the first law is about the runs where nothing is posted behind such a call.
-/

namespace Henji.DataPort

/-! ## The requests of the client -/

namespace AgentDataPortClient

/-- A reply settles the request with its id and kind, or with its error. -/
def SettledByOwn (pending : PendingRequest) : RequestSettlement → Prop
  | .resolved response =>
    response = .result pending.responseKind pending.requestId pending.correlation
  | .failed response => response = .error pending.requestId
  | .unexpected _ => False
  | .closed | .not_cloned => True

structure RequestLaw (client : AgentDataPortClient) : Prop where
  settled : client.requests.Settled
  own : client.requests.SettledBy SettledByOwn
  ids : ∀ number pending, client.requests.keys[number]? = some pending →
    pending.requestId = number + 1
  next : client.nextRequestId = client.requests.keys.length + 1
  closed : client.closed = true → client.requests.waiting = []

/-- A call of the client keeps the law, and registers the reply that its message waits for. -/
structure Calls (client : AgentDataPortClient)
    (result : Except ClientError AgentDataPortRequest × AgentDataPortClient) : Prop where
  law : client.RequestLaw → result.2.RequestLaw
  keys : client.requests.keys <+: result.2.requests.keys
  registers : ∀ request, result.1 = .ok request → ∀ pending, request.pendingRequest = some pending →
    pending ∈ result.2.requests.keys

variable {client : AgentDataPortClient}

/-- The ids of the requests with one more. -/
theorem ids_concat (h : client.RequestLaw) {pending : PendingRequest}
    (hnew : pending.requestId = client.nextRequestId) :
    ∀ number other, (client.requests.keys ++ [pending])[number]? = some other →
      other.requestId = number + 1 := by
  intro number other hother
  rcases ExecutionDataJournal.of_getElem?_concat hother with hother | ⟨rfl, rfl⟩
  · exact h.ids number other hother
  · exact hnew.trans h.next

theorem request_calls {responseKind : AgentDataResponseKind} {correlation : WorkerCorrelation}
    {message : Nat → AgentDataPortRequest} {posts : Bool}
    (hmessage : ∀ requestId, (message requestId).pendingRequest =
      some ⟨requestId, responseKind, correlation⟩) :
    client.Calls (client.request responseKind correlation message posts) := by
  rw [request]
  simp only
  split
  · next hclosed =>
    refine ⟨fun h => ⟨h.settled.makeSettled _ _, h.own.makeSettled trivial, ids_concat h rfl, ?_,
      h.closed⟩, ⟨_, rfl⟩, fun _ hok => by cases hok⟩
    simp [Promises.makeSettled, h.next]
  · next hopen =>
    split
    · refine ⟨fun h => ⟨h.settled.make _, h.own.make _, ids_concat h rfl, ?_,
        fun hclosed => absurd hclosed hopen⟩, ⟨_, rfl⟩, ?_⟩
      · simp [Promises.make, h.next]
      · intro request hok pending hpending
        cases hok
        rw [hmessage] at hpending
        cases hpending
        exact List.mem_append_right _ List.mem_cons_self
    · refine ⟨fun h => ⟨h.settled.makeSettled _ _, h.own.makeSettled trivial, ids_concat h rfl, ?_,
        h.closed⟩, ⟨_, rfl⟩, fun _ hok => by cases hok⟩
      simp [Promises.makeSettled, h.next]

/-- A change that leaves the requests as they are. -/
theorem RequestLaw.of_same {after : AgentDataPortClient} (h : client.RequestLaw)
    (hrequests : after.requests = client.requests)
    (hnext : after.nextRequestId = client.nextRequestId)
    (hclosed : after.closed = client.closed) : after.RequestLaw := by
  refine ⟨?_, ?_, ?_, ?_, ?_⟩
  all_goals simp only [hrequests, hnext, hclosed]
  · exact h.settled
  · exact h.own
  · exact h.ids
  · exact h.next
  · exact h.closed

theorem Calls.of_same {result : Except ClientError AgentDataPortRequest × AgentDataPortClient}
    (hrequests : result.2.requests = client.requests)
    (hnext : result.2.nextRequestId = client.nextRequestId)
    (hclosed : result.2.closed = client.closed)
    (hposted : ∀ request, result.1 = .ok request → request.pendingRequest = none) :
    client.Calls result := by
  refine ⟨fun h => h.of_same hrequests hnext hclosed, hrequests ▸ List.prefix_rfl, ?_⟩
  intro request hok pending hpending
  rw [hposted request hok] at hpending
  cases hpending

theorem of_post {request posted : AgentDataPortRequest} {posts : Bool}
    (h : client.post request posts = .ok posted) :
    posted = request ∧ client.closed = false ∧ posts = true := by
  rw [post] at h
  split at h
  · cases h
  · next hopen =>
    split at h
    · next hposts =>
      cases h
      exact ⟨rfl, by simpa using hopen, hposts⟩
    · cases h

theorem beginExecution_calls {executionId : ExecutionId} {correlation : WorkerCorrelation}
    {posts : Bool} : client.Calls (client.beginExecution executionId correlation posts) := by
  refine Calls.of_same rfl rfl rfl fun request hok => ?_
  rw [(of_post hok).1]
  rfl

theorem send_calls {request : ExecutionId → Nat → AgentDataPortRequest} {posts : Bool}
    (hrequest : ∀ executionId sequence, (request executionId sequence).pendingRequest = none) :
    client.Calls (client.send request posts) := by
  rw [send]
  split
  · exact Calls.of_same rfl rfl rfl fun _ hok => nomatch hok
  · refine Calls.of_same rfl rfl rfl fun posted hok => ?_
    rw [(of_post hok).1]
    exact hrequest _ _

theorem sendBarrier_calls {request : ExecutionId → Nat → AgentDataPortRequest} {posts : Bool}
    (hrequest : ∀ executionId sequence, (request executionId sequence).pendingRequest = none) :
    client.Calls (client.sendBarrier request posts) := by
  have hsend : client.Calls (client.send request posts) := send_calls hrequest
  rw [sendBarrier]
  split
  · next hsent =>
    rw [hsent] at hsend
    exact hsend
  · next hsent =>
    rw [hsent] at hsend
    exact ⟨fun h => (hsend.law h).of_same rfl rfl rfl, hsend.keys, hsend.registers⟩

/-- A call is a call of the client with its requests as they are. -/
theorem Calls.of_client {before : AgentDataPortClient}
    {result : Except ClientError AgentDataPortRequest × AgentDataPortClient}
    (h : client.Calls result) (hrequests : client.requests = before.requests)
    (hnext : client.nextRequestId = before.nextRequestId)
    (hclosed : client.closed = before.closed) : before.Calls result :=
  ⟨fun hlaw => h.law (hlaw.of_same hrequests hnext hclosed), hrequests ▸ h.keys, h.registers⟩

theorem checkpoint_calls {correlation : WorkerCorrelation} {message : WorkerToHostMessage}
    {posts : Bool} : client.Calls (client.checkpoint correlation message posts) := by
  rw [checkpoint]
  split
  · exact Calls.of_same rfl rfl rfl fun _ hok => nomatch hok
  · exact (request_calls fun _ => rfl).of_client rfl rfl rfl

theorem settledRequest_calls {responseKind : AgentDataResponseKind}
    {correlation : WorkerCorrelation} {message : Nat → Nat → AgentDataPortRequest}
    {providerObservations : Nat} {posts : Bool}
    (hmessage : ∀ requestId sequence, (message requestId sequence).pendingRequest =
      some ⟨requestId, responseKind, correlation⟩) :
    client.Calls
      (client.settledRequest responseKind correlation message providerObservations posts) := by
  rw [settledRequest]
  split
  · exact Calls.of_same rfl rfl rfl fun _ hok => nomatch hok
  · exact (request_calls fun requestId => hmessage requestId _).of_client rfl rfl rfl

/-- A reply that is known settles its request by its own kind. -/
theorem RequestLaw.receive (h : client.RequestLaw) {response : AgentDataPortResponse}
    (hknown : ∀ kind requestId correlation, response = .result kind requestId correlation →
      ⟨requestId, kind, correlation⟩ ∈ client.requests.keys) :
    (client.receive response).RequestLaw := by
  refine ⟨h.settled.settleWhere _ _, h.own.settleWhere ?_, h.ids, h.next, ?_⟩
  · rintro pending ⟨number, -, hpending⟩ hid
    have hid' : pending.requestId = response.requestId := beq_iff_eq.mp hid
    cases response with
    | error requestId =>
      cases hid'
      rfl
    | result kind requestId correlation =>
      obtain ⟨other, hother⟩ := List.mem_iff_getElem?.mp (hknown kind requestId correlation rfl)
      have hnumber : number = other := by
        have hleft := h.ids number pending hpending
        have hright := h.ids other _ hother
        have hsame : pending.requestId = requestId := hid'
        simp only at hright
        omega
      rw [hnumber, hother] at hpending
      cases hpending
      simp [settlement, SettledByOwn]
  · intro hclosed
    simp [AgentDataPortClient.receive, Promises.settleWhere, h.closed hclosed]

theorem RequestLaw.close (h : client.RequestLaw) : client.close.RequestLaw := by
  rw [AgentDataPortClient.close]
  split
  · exact h
  · refine ⟨h.settled.settleWhere _ _, h.own.settleWhere fun _ _ _ => trivial, h.ids, h.next, ?_⟩
    intro hclosed
    refine List.filter_eq_nil_iff.mpr fun number hmem => ?_
    have hlt := h.settled.lt hmem
    simp [Promises.keyMeets, hlt]

theorem requestLaw_start : start.RequestLaw where
  settled := Promises.settled_empty
  own := Promises.settledBy_empty
  ids _ _ h := nomatch h
  next := rfl
  closed _ := rfl

end AgentDataPortClient

/-! ## The waits of the endpoint -/

namespace AgentDataEndpoint

/-- A wait gets the data of its id. -/
def SettledByData (id : AwaitedId) : WaitSettlement → Prop
  | .resolved request => request.awaitedId = some id
  | .sealed => True

structure WaitLaw (endpoint : AgentDataEndpoint) : Prop where
  settled : endpoint.waits.Settled
  own : endpoint.waits.SettledBy SettledByData
  data : ∀ id request, endpoint.data.get? id = some request → request.awaitedId = some id
  waits : ∀ id, endpoint.waits.Waits id → endpoint.data.get? id = none
  sealed : endpoint.sealed = true → endpoint.waits.waiting = []
  closed : endpoint.closed = true → endpoint.sealed = true

variable {endpoint : AgentDataEndpoint}

theorem waitLaw_start : start.WaitLaw where
  settled := Promises.settled_empty
  own := Promises.settledBy_empty
  data id request h := by simp [start] at h
  waits _ _ := rfl
  sealed _ := rfl
  closed h := nomatch h

theorem not_waits_of_waiting_nil {promises : Promises AwaitedId WaitSettlement}
    (h : promises.waiting = []) (id : AwaitedId) : ¬ promises.Waits id := by
  rintro ⟨number, hmem, -⟩
  rw [h] at hmem
  cases hmem

theorem WaitLaw.keep (h : endpoint.WaitLaw) {id : AwaitedId} {request : AgentDataPortRequest}
    (hid : request.awaitedId = some id) : (endpoint.keep id request).WaitLaw where
  settled := h.settled.settleWhere _ _
  own := by
    refine h.own.settleWhere fun awaited _ heq => ?_
    rw [beq_iff_eq.mp heq]
    exact hid
  data other data hdata := by
    simp only [AgentDataEndpoint.keep, InsMap.get?_set] at hdata
    split at hdata
    · next heq =>
      cases hdata
      rw [heq]
      exact hid
    · exact h.data other data hdata
  waits other hwaits := by
    obtain ⟨hwaits, hne⟩ := Promises.waits_settleWhere.mp hwaits
    rw [AgentDataEndpoint.keep, InsMap.get?_set_ne _ _ (by simpa using hne)]
    exact h.waits other hwaits
  sealed hsealed := by simp [AgentDataEndpoint.keep, Promises.settleWhere, h.sealed hsealed]
  closed := h.closed

/-- A handler that awaits leaves the waits as they are. -/
theorem WaitLaw.of_tasks (h : endpoint.WaitLaw) (tasks : List PendingRequest) :
    WaitLaw { endpoint with tasks := tasks } :=
  ⟨h.settled, h.own, h.data, h.waits, h.sealed, h.closed⟩

theorem WaitLaw.receive (h : endpoint.WaitLaw) (request : AgentDataPortRequest)
    (accepted : Except JournalError ExecutionDataJournal.Acceptance) (succeeds : Bool) :
    (endpoint.receive request accepted succeeds).2.WaitLaw := by
  cases request with
  | generation_context requestId correlation => exact h
  | context_turn_read requestId correlation beforeTurn => exact h.of_tasks _
  | ready requestId correlation => exact h.keep rfl
  | begin_execution executionId correlation => exact h
  | execution_data executionId sequence message => exact h
  | proposal proposalId executionId sequence message =>
    simp only [AgentDataEndpoint.receive]
    split
    · exact h.keep rfl
    · exact h
  | failure executionId sequence message =>
    simp only [AgentDataEndpoint.receive]
    split
    · exact h.keep rfl
    · exact h
  | checkpoint_proposal requestId executionId sequence message correlation =>
    simp only [AgentDataEndpoint.receive]
    split
    · exact h.of_tasks _
    · exact h
    · exact h
  | after_turn_context requestId sequence correlation => exact h.of_tasks _
  | post_settlement_hook requestId sequence correlation => exact h.of_tasks _

/-- A wait is resolved by data that is there, rejected behind the seal, and registered otherwise. -/
theorem WaitLaw.await (h : endpoint.WaitLaw) (id : AwaitedId) : (endpoint.await id).WaitLaw := by
  rw [AgentDataEndpoint.await]
  split
  · next request hdata =>
    exact ⟨h.settled.makeSettled _ _, h.own.makeSettled (h.data id request hdata), h.data,
      fun other hwaits => h.waits other ((Promises.waits_makeSettled h.settled).mp hwaits),
      h.sealed, h.closed⟩
  · next hdata =>
    split
    · exact ⟨h.settled.makeSettled _ _, h.own.makeSettled trivial, h.data,
        fun other hwaits => h.waits other ((Promises.waits_makeSettled h.settled).mp hwaits),
        h.sealed, h.closed⟩
    · next hopen =>
      refine ⟨h.settled.make _, h.own.make _, h.data, fun other hwaits => ?_, fun hsealed => ?_,
        h.closed⟩
      · rcases (Promises.waits_make h.settled).mp hwaits with hwaits | rfl
        · exact h.waits other hwaits
        · exact hdata
      · have hsealed' : endpoint.sealed = true := hsealed
        exact absurd (by simp [hsealed']) hopen

theorem get?_of_foldl_erase {entries : List (AwaitedId × AgentDataPortRequest)}
    {data : InsMap AwaitedId AgentDataPortRequest} {id : AwaitedId} {request : AgentDataPortRequest}
    (h : (entries.foldl (fun data entry => data.erase entry.1) data).get? id = some request) :
    data.get? id = some request := by
  induction entries generalizing data with
  | nil => exact h
  | cons entry entries ih =>
    have herased := ih h
    rw [InsMap.get?_erase] at herased
    split at herased
    · cases herased
    · exact herased

theorem WaitLaw.releaseExecution (h : endpoint.WaitLaw) (executionId : ExecutionId) :
    (endpoint.releaseExecution executionId).WaitLaw where
  settled := h.settled
  own := h.own
  data id request hdata := h.data id request (get?_of_foldl_erase hdata)
  waits id hwaits := by
    cases hdata : (endpoint.releaseExecution executionId).data.get? id with
    | none => rfl
    | some request =>
      have hheld := get?_of_foldl_erase hdata
      rw [h.waits id hwaits] at hheld
      cases hheld
  sealed := h.sealed
  closed := h.closed

theorem waiting_sealEndpoint (h : endpoint.WaitLaw) : endpoint.sealEndpoint.waits.waiting = [] := by
  refine List.filter_eq_nil_iff.mpr fun number hmem => ?_
  have hlt := h.settled.lt hmem
  simp [Promises.keyMeets, hlt]

theorem WaitLaw.sealEndpoint (h : endpoint.WaitLaw) : endpoint.sealEndpoint.WaitLaw where
  settled := h.settled.settleWhere _ _
  own := h.own.settleWhere fun _ _ _ => trivial
  data := h.data
  waits id hwaits := absurd hwaits (not_waits_of_waiting_nil (waiting_sealEndpoint h) id)
  sealed _ := waiting_sealEndpoint h
  closed _ := rfl

theorem WaitLaw.close (h : endpoint.WaitLaw) : endpoint.close.WaitLaw := by
  rw [AgentDataEndpoint.close]
  split
  · exact h
  · have hsealed := h.sealEndpoint
    exact ⟨hsealed.settled, hsealed.own, fun _ _ hdata => by simp at hdata, fun _ _ => rfl,
      hsealed.sealed, fun _ => rfl⟩

end AgentDataEndpoint

/-! ## The sequences of the execution -/

namespace AgentDataPortClient

/-- A call that gives the journal nothing and takes no sequence. -/
structure Steady (client : AgentDataPortClient)
    (result : Except ClientError AgentDataPortRequest × AgentDataPortClient) : Prop where
  current : result.2.current = client.current
  closed : result.2.closed = client.closed
  skipped : result.2.skipped = client.skipped
  barriers : result.2.barriers = client.barriers
  posted : ∀ request, result.1 = .ok request → request.dataInput = none

/-- A call of the execution: it is refused, it posts the next message with its sequence, or it takes
the sequence and its post throws. -/
inductive Sends (correlation : WorkerCorrelation) (client : AgentDataPortClient) (posts : Bool)
    (result : Except ClientError AgentDataPortRequest × AgentDataPortClient) : Prop where
  | refused (steady : client.Steady result)
  | sent (current : CurrentExecution) (request : AgentDataPortRequest)
      (message : WorkerToHostMessage) (hposts : posts = true)
      (hbefore : client.current = some current) (hopen : client.closed = false)
      (hposted : result.1 = .ok request)
      (hinput : request.dataInput =
        some ⟨current.executionId, (current.sequence + 1 : Nat), message⟩)
      (hmessage : message.correlation = some correlation)
      (hafter : result.2.current = some { current with sequence := current.sequence + 1 })
      (hbarriers : ∀ barrier ∈ result.2.barriers,
        barrier ∈ client.barriers ∨ barrier = current.sequence + 1)
  | skipped (hposts : posts = false) (hposted : result.1.toOption = none)
      (hskipped : result.2.skipped = true) (hbarriers : result.2.barriers = client.barriers)

variable {client : AgentDataPortClient} {correlation : WorkerCorrelation}

theorem of_requireCurrentExecution {current : CurrentExecution}
    (h : client.requireCurrentExecution = .ok current) :
    client.closed = false ∧ client.current = some current := by
  rw [requireCurrentExecution] at h
  split at h
  · cases h
  · next hopen =>
    split at h
    · cases h
    · next hcurrent =>
      cases h
      exact ⟨by simpa using hopen, hcurrent⟩

/-- A call of an execution that did not begin, or of a closed client. -/
theorem steady_refused {error : ClientError} : client.Steady (.error error, client) :=
  ⟨rfl, rfl, rfl, rfl, fun _ hok => nomatch hok⟩

theorem request_steady {responseKind : AgentDataResponseKind} {turn : WorkerCorrelation}
    {message : Nat → AgentDataPortRequest} {posts : Bool}
    (hmessage : ∀ requestId, (message requestId).dataInput = none) :
    client.Steady (client.request responseKind turn message posts) := by
  rw [request]
  simp only
  split
  · exact ⟨rfl, rfl, rfl, rfl, fun _ hok => nomatch hok⟩
  · split
    · refine ⟨rfl, rfl, rfl, rfl, fun request hok => ?_⟩
      cases hok
      exact hmessage _
    · exact ⟨rfl, rfl, rfl, rfl, fun _ hok => nomatch hok⟩

theorem send_sends {request : ExecutionId → Nat → AgentDataPortRequest}
    {message : WorkerToHostMessage} {posts : Bool}
    (hrequest : ∀ executionId sequence, (request executionId sequence).dataInput =
      some ⟨executionId, (sequence : Nat), message⟩)
    (hmessage : message.correlation = some correlation) :
    client.Sends correlation posts (client.send request posts) := by
  rw [send]
  split
  · exact .refused steady_refused
  · next current hcurrent =>
    obtain ⟨hopen, hbefore⟩ := of_requireCurrentExecution hcurrent
    cases posts with
    | true =>
      exact .sent current _ message rfl hbefore hopen (by simp [post, advance, hopen])
        (hrequest _ _) hmessage rfl fun _ hmem => .inl hmem
    | false =>
      refine .skipped rfl ?_ ?_ rfl
      · simp [post, advance, hopen, Except.toOption]
      · simp [advance]

theorem of_send {request : ExecutionId → Nat → AgentDataPortRequest} {posts : Bool}
    {posted : AgentDataPortRequest} {after : AgentDataPortClient}
    (h : client.send request posts = (.ok posted, after)) :
    ∃ executionId sequence, posted = request executionId sequence := by
  rw [send] at h
  split at h
  · cases h
  · next current _ =>
    exact ⟨current.executionId, current.sequence + 1, (of_post (congrArg Prod.fst h)).1⟩

theorem sendBarrier_sends {request : ExecutionId → Nat → AgentDataPortRequest}
    {message : WorkerToHostMessage} {posts : Bool}
    (hrequest : ∀ executionId sequence, (request executionId sequence).dataInput =
      some ⟨executionId, (sequence : Nat), message⟩)
    (hmessage : message.correlation = some correlation) :
    client.Sends correlation posts (client.sendBarrier request posts) := by
  have hsend : client.Sends correlation posts (client.send request posts) :=
    send_sends hrequest hmessage
  rw [sendBarrier]
  split
  · next hresult =>
    rw [hresult] at hsend
    exact hsend
  · next posted after hresult =>
    rw [hresult] at hsend
    cases hsend with
    | refused steady =>
      -- A refused call posts nothing.
      obtain ⟨executionId, sequence, rfl⟩ := of_send hresult
      have hnone := steady.posted _ rfl
      rw [hrequest] at hnone
      cases hnone
    | sent current request message hposts hbefore hopen hposted hinput hmessage hafter hbarriers =>
      refine .sent current request message hposts hbefore hopen hposted hinput hmessage hafter ?_
      intro barrier hmem
      rcases List.mem_append.mp hmem with hmem | hmem
      · exact hbarriers barrier hmem
      · simp only at hafter
        rw [hafter] at hmem
        exact .inr (List.mem_singleton.mp hmem)
    | skipped hposts hposted hskipped hbarriers => cases hposted

theorem checkpoint_sends {message : WorkerToHostMessage} {posts : Bool} {turn : WorkerCorrelation}
    (hmessage : message.correlation = some correlation) :
    client.Sends correlation posts (client.checkpoint turn message posts) := by
  rw [checkpoint]
  split
  · exact .refused steady_refused
  · next current hcurrent =>
    obtain ⟨hopen, hbefore⟩ := of_requireCurrentExecution hcurrent
    cases posts with
    | true =>
      refine .sent current (.checkpoint_proposal client.nextRequestId current.executionId
        (current.sequence + 1) message turn) message rfl hbefore hopen ?_ rfl hmessage ?_ ?_
      · simp [request, advance, hopen]
      · simp [request, advance, hopen]
      · intro barrier hmem
        simp only [request, advance, hopen] at hmem
        exact .inl hmem
    | false =>
      refine .skipped rfl ?_ ?_ ?_
      · simp [request, advance, hopen, Except.toOption]
      · simp [request, advance, hopen]
      · simp [request, advance, hopen]

end AgentDataPortClient

/-! ## The port -/

namespace AgentDataPort

/-- The inputs of an execution stand in the order of their sequences, from one on. -/
def Ordered (executionId : ExecutionId) (correlation : WorkerCorrelation)
    (inputs : List ExecutionDataInput) : Prop :=
  ∀ i input, inputs[i]? = some input → input.executionId = executionId ∧
    input.message.correlation = some correlation ∧ input.sequence = ((i + 1 : Nat) : Int)

/-- The inputs that arrived, with those under way. -/
def stream (port : AgentDataPort) : List ExecutionDataInput :=
  port.arrived ++ port.toHost.filterMap AgentDataPortRequest.dataInput

/-- The counter of the client stands at the last message. -/
def CountsTo (executionId : ExecutionId) (count : Nat) : Option CurrentExecution → Prop
  | none => count = 0
  | some current => current.executionId = executionId ∧ current.sequence = count

/-- What holds of the messages under way while they can still arrive. -/
structure Underway (port : AgentDataPort) : Prop where
  ordered : Ordered port.executionId port.correlation port.stream
  current : port.client.closed = false → port.client.skipped = false →
    CountsTo port.executionId port.stream.length port.client.current
  barriers : ∀ barrier ∈ port.client.barriers, barrier ≤ port.stream.length

/-- Neither the journal nor the endpoint is sealed. -/
def Open (port : AgentDataPort) : Prop :=
  port.journal.sealed = false ∧ port.endpoint.sealed = false

structure SequenceInv (port : AgentDataPort) : Prop where
  executionId : port.journal.executionId = port.executionId
  correlation : port.journal.correlation = port.correlation
  arrived : Ordered port.executionId port.correlation port.arrived
  received : port.journal.failure = none → port.journal.received = port.arrived.length
  failure : port.journal.failure = none ∨ port.journal.failure = some .append_failed
  underway : port.Open → port.Underway

/-- Every reply under way is one that the client registered. -/
structure ReplyLaw (port : AgentDataPort) : Prop where
  requests : ∀ request ∈ port.toHost, ∀ pending, request.pendingRequest = some pending →
    pending ∈ port.client.requests.keys
  tasks : ∀ pending ∈ port.endpoint.tasks, pending ∈ port.client.requests.keys
  replies : ∀ kind requestId correlation, .result kind requestId correlation ∈ port.toWorker →
    ⟨requestId, kind, correlation⟩ ∈ port.client.requests.keys

structure Inv (port : AgentDataPort) : Prop where
  sequences : port.SequenceInv
  replies : port.ReplyLaw
  requests : port.client.RequestLaw
  waits : port.endpoint.WaitLaw

variable {port : AgentDataPort}

theorem inv_start (executionId : ExecutionId) (correlation : WorkerCorrelation) :
    (start executionId correlation).Inv where
  sequences := ⟨rfl, rfl, fun _ _ h => (nomatch h), fun _ => rfl, .inl rfl,
    fun _ => ⟨fun _ _ h => (nomatch h), fun _ _ => rfl, fun _ h => (nomatch h)⟩⟩
  replies := ⟨fun _ h => (nomatch h), fun _ h => (nomatch h), fun _ _ _ h => (nomatch h)⟩
  requests := AgentDataPortClient.requestLaw_start
  waits := AgentDataEndpoint.waitLaw_start

/-! ### Calls of the client -/

section Calls

variable {operation : AgentDataPortClient →
  Except ClientError AgentDataPortRequest × AgentDataPortClient}

theorem ReplyLaw.call (h : port.ReplyLaw) (hcalls : port.client.Calls (operation port.client)) :
    (port.call operation).ReplyLaw where
  requests request hmem pending hpending := by
    rcases List.mem_append.mp hmem with hmem | hmem
    · exact hcalls.keys.subset (h.requests request hmem pending hpending)
    · refine hcalls.registers request ?_ pending hpending
      cases hresult : (operation port.client).1 with
      | error error => simp [hresult, Except.toOption] at hmem
      | ok posted =>
        simp only [hresult, Except.toOption, Option.toList_some, List.mem_singleton] at hmem
        rw [hmem]
  tasks pending hmem := hcalls.keys.subset (h.tasks pending hmem)
  replies kind requestId correlation hmem := hcalls.keys.subset (h.replies kind requestId correlation hmem)

/-- The stream behind a call ends with the input of its message. -/
theorem stream_call : (port.call operation).stream =
    port.stream ++ (((operation port.client).1.toOption).bind
      AgentDataPortRequest.dataInput).toList := by
  simp only [stream, call, List.filterMap_append, List.append_assoc]
  cases (operation port.client).1.toOption with
  | none => simp
  | some request =>
    cases hinput : request.dataInput <;> simp [hinput]

theorem stream_call_steady (h : port.client.Steady (operation port.client)) :
    (port.call operation).stream = port.stream := by
  rw [stream_call]
  cases hresult : (operation port.client).1 with
  | error error => simp [Except.toOption]
  | ok request => simp [Except.toOption, h.posted request hresult]

theorem SequenceInv.call_steady (h : port.SequenceInv)
    (hsteady : port.client.Steady (operation port.client)) :
    (port.call operation).SequenceInv := by
  refine ⟨h.executionId, h.correlation, h.arrived, h.received, h.failure, fun hopen => ?_⟩
  have hunderway := h.underway hopen
  have hstream := stream_call_steady hsteady
  refine ⟨hstream ▸ hunderway.ordered, ?_, ?_⟩
  · intro hclosed hskipped
    have hcurrent : (port.call operation).client.current = port.client.current := hsteady.current
    rw [hstream, hcurrent]
    exact hunderway.current (hsteady.closed.symm.trans hclosed) (hsteady.skipped.symm.trans hskipped)
  · intro barrier hmem
    rw [hstream]
    exact hunderway.barriers barrier (hsteady.barriers ▸ hmem)

theorem Ordered.concat {executionId : ExecutionId} {correlation : WorkerCorrelation}
    {inputs : List ExecutionDataInput} {input : ExecutionDataInput}
    (h : Ordered executionId correlation inputs) (hexecution : input.executionId = executionId)
    (hcorrelation : input.message.correlation = some correlation)
    (hsequence : input.sequence = ((inputs.length + 1 : Nat) : Int)) :
    Ordered executionId correlation (inputs ++ [input]) := by
  intro i other hother
  rcases ExecutionDataJournal.of_getElem?_concat hother with hother | ⟨rfl, rfl⟩
  · exact h i other hother
  · exact ⟨hexecution, hcorrelation, hsequence⟩

/-- A call of the execution posts the next message, unless an earlier one took a sequence for
nothing. -/
theorem SequenceInv.call_sends (h : port.SequenceInv) {posts : Bool}
    (hsends : port.client.Sends port.correlation posts (operation port.client))
    (hcondition : posts = true → port.client.skipped = false) :
    (port.call operation).SequenceInv := by
  cases hsends with
  | refused steady => exact h.call_steady steady
  | sent current request message hposts hbefore hclosed hposted hinput hmessage hafter hbarriers =>
    refine ⟨h.executionId, h.correlation, h.arrived, h.received, h.failure, fun hopen => ?_⟩
    have hunderway := h.underway hopen
    have hcounts := hunderway.current hclosed (hcondition hposts)
    rw [hbefore] at hcounts
    have hstream : (port.call operation).stream = port.stream ++
        [⟨current.executionId, (current.sequence + 1 : Nat), message⟩] := by
      rw [stream_call, hposted]
      simp [Except.toOption, hinput]
    refine ⟨?_, ?_, ?_⟩
    · rw [hstream]
      exact hunderway.ordered.concat hcounts.1 hmessage (by rw [hcounts.2])
    · intro _ _
      have hcurrent : (port.call operation).client.current =
          some { current with sequence := current.sequence + 1 } := hafter
      rw [hstream, hcurrent]
      exact ⟨hcounts.1, by simp [hcounts.2]⟩
    · intro barrier hmem
      rw [hstream, List.length_append, List.length_singleton]
      rcases hbarriers barrier hmem with hold | rfl
      · exact Nat.le_succ_of_le (hunderway.barriers barrier hold)
      · exact Nat.le_of_eq (congrArg (· + 1) hcounts.2)
  | skipped hposts hposted hskipped hbarriers =>
    refine ⟨h.executionId, h.correlation, h.arrived, h.received, h.failure, fun hopen => ?_⟩
    have hunderway := h.underway hopen
    have hstream : (port.call operation).stream = port.stream := by
      rw [stream_call, hposted]
      simp
    refine ⟨hstream ▸ hunderway.ordered, fun _ hnot => ?_, fun barrier hmem => ?_⟩
    · have hskipped' : (port.call operation).client.skipped = true := hskipped
      rw [hskipped'] at hnot
      cases hnot
    · rw [hstream]
      exact hunderway.barriers barrier (hbarriers ▸ hmem)

/-- A call behind the settlement takes sequences that nobody counts any more. -/
theorem SequenceInv.call_sealed (h : port.SequenceInv) (hsealed : port.journal.sealed = true) :
    (port.call operation).SequenceInv := by
  refine ⟨h.executionId, h.correlation, h.arrived, h.received, h.failure, fun hopen => ?_⟩
  have hopen' : port.journal.sealed = false := hopen.1
  rw [hsealed] at hopen'
  cases hopen'

theorem Inv.call (h : port.Inv) (hcalls : port.client.Calls (operation port.client))
    (hsequences : (port.call operation).SequenceInv) : (port.call operation).Inv :=
  ⟨hsequences, h.replies.call hcalls, hcalls.law h.requests, h.waits⟩

end Calls

theorem SequenceInv.beginExecution (h : port.SequenceInv) {posts : Bool}
    (hnone : port.client.current = none) :
    (port.call fun client =>
      client.beginExecution port.executionId port.correlation posts).SequenceInv := by
  refine ⟨h.executionId, h.correlation, h.arrived, h.received, h.failure, fun hopen => ?_⟩
  have hunderway := h.underway hopen
  have hstream : (port.call fun client =>
      client.beginExecution port.executionId port.correlation posts).stream = port.stream := by
    rw [stream_call]
    cases hresult : (port.client.beginExecution port.executionId port.correlation posts).1 with
    | error error => simp [Except.toOption]
    | ok request =>
      rw [(AgentDataPortClient.of_post hresult).1]
      simp [Except.toOption, AgentDataPortRequest.dataInput]
  refine ⟨hstream ▸ hunderway.ordered, fun hclosed hskipped => ?_, ?_⟩
  · have hcounts := hunderway.current hclosed hskipped
    rw [hnone] at hcounts
    rw [hstream]
    exact ⟨rfl, hcounts.symm⟩
  · rw [hstream]
    exact hunderway.barriers

/-! ### The host -/

theorem of_mem_answer {endpoint : AgentDataEndpoint} {pending : PendingRequest} {succeeds : Bool}
    {kind : AgentDataResponseKind} {requestId : Nat} {correlation : WorkerCorrelation}
    (h : .result kind requestId correlation ∈ endpoint.answer pending succeeds) :
    pending = ⟨requestId, kind, correlation⟩ := by
  rw [AgentDataEndpoint.answer] at h
  split at h
  · rw [AgentDataEndpoint.reply] at h
    split at h
    · cases h
    · cases List.mem_singleton.mp h
      rfl
  · rw [AgentDataEndpoint.reply] at h
    split at h
    · cases h
    · cases List.mem_singleton.mp h

/-- A request leaves a reply of its own behind it, or a task for one. -/
theorem receive_known {endpoint : AgentDataEndpoint} {request : AgentDataPortRequest}
    {accepted : Except JournalError ExecutionDataJournal.Acceptance} {succeeds : Bool} :
    (∀ pending ∈ (endpoint.receive request accepted succeeds).2.tasks,
      pending ∈ endpoint.tasks ∨ request.pendingRequest = some pending) ∧
    ∀ kind requestId correlation,
      .result kind requestId correlation ∈ (endpoint.receive request accepted succeeds).1 →
        request.pendingRequest = some ⟨requestId, kind, correlation⟩ := by
  have hawaits : ∀ pending ∈ endpoint.tasks ++ request.pendingRequest.toList,
      pending ∈ endpoint.tasks ∨ request.pendingRequest = some pending := by
    intro pending hmem
    exact (List.mem_append.mp hmem).imp_right Option.mem_toList.mp
  cases request with
  | generation_context requestId correlation =>
    exact ⟨fun _ hmem => .inl hmem, fun _ _ _ hmem => congrArg some (of_mem_answer hmem)⟩
  | ready requestId correlation =>
    refine ⟨fun _ hmem => .inl hmem, fun kind _ _ hmem => ?_⟩
    have hreply := @of_mem_answer (endpoint.keep .ready (.ready requestId correlation))
      ⟨requestId, .ready_acknowledgement, correlation⟩ true kind _ _ hmem
    exact congrArg some hreply
  | begin_execution executionId correlation =>
    exact ⟨fun _ hmem => .inl hmem, by simp [AgentDataEndpoint.receive]⟩
  | execution_data executionId sequence message =>
    exact ⟨fun _ hmem => .inl hmem, by simp [AgentDataEndpoint.receive]⟩
  | context_turn_read requestId correlation beforeTurn =>
    exact ⟨hawaits, by simp [AgentDataEndpoint.receive]⟩
  | after_turn_context requestId sequence correlation =>
    exact ⟨hawaits, by simp [AgentDataEndpoint.receive]⟩
  | post_settlement_hook requestId sequence correlation =>
    exact ⟨hawaits, by simp [AgentDataEndpoint.receive]⟩
  | proposal proposalId executionId sequence message =>
    simp only [AgentDataEndpoint.receive]
    split <;> exact ⟨fun _ hmem => .inl hmem, fun _ _ _ hmem => (nomatch hmem)⟩
  | failure executionId sequence message =>
    simp only [AgentDataEndpoint.receive]
    split <;> exact ⟨fun _ hmem => .inl hmem, fun _ _ _ hmem => (nomatch hmem)⟩
  | checkpoint_proposal requestId executionId sequence message correlation =>
    simp only [AgentDataEndpoint.receive]
    split
    · exact ⟨hawaits, fun _ _ _ hmem => (nomatch hmem)⟩
    · exact ⟨fun _ hmem => .inl hmem, fun _ _ _ hmem => (nomatch hmem)⟩
    · refine ⟨fun _ hmem => .inl hmem, fun kind requestId correlation hmem => ?_⟩
      simp only [AgentDataEndpoint.reply] at hmem
      split at hmem
      · cases hmem
      · cases List.mem_singleton.mp hmem

theorem ReplyLaw.arrive {request : AgentDataPortRequest} {appends succeeds : Bool}
    (h : port.ReplyLaw)
    (hrequest : ∀ pending, request.pendingRequest = some pending →
      pending ∈ port.client.requests.keys) : (port.arrive request appends succeeds).ReplyLaw := by
  rw [AgentDataPort.arrive]
  split
  · exact h
  · split
    all_goals
      refine ⟨h.requests, fun pending hmem => ?_, fun kind requestId correlation hmem => ?_⟩
      · exact (receive_known.1 pending hmem).elim (h.tasks pending) (hrequest pending)
      · exact (List.mem_append.mp hmem).elim (h.replies kind requestId correlation)
          fun hreply => hrequest _ (receive_known.2 kind requestId correlation hreply)

/-- The next input fits the journal. -/
theorem fits_next (h : port.SequenceInv) {input : ExecutionDataInput}
    {rest : List ExecutionDataInput}
    (hordered : Ordered port.executionId port.correlation (port.arrived ++ input :: rest))
    (hfailure : port.journal.failure = none) : port.journal.fits input = true := by
  obtain ⟨hexecution, hcorrelation, hsequence⟩ :=
    hordered port.arrived.length input (by simp)
  simp [ExecutionDataJournal.fits, h.executionId, h.correlation, hexecution, hcorrelation,
    hsequence, h.received hfailure]

/-- The journal behind a message that reaches it: the message is its next one, unless the journal
failed before. -/
theorem SequenceInv.receive_journal (h : port.SequenceInv) {input : ExecutionDataInput}
    {rest : List ExecutionDataInput} (hopen : port.journal.sealed = false)
    (hordered : Ordered port.executionId port.correlation (port.arrived ++ input :: rest))
    (appends : Bool) :
    let journal := (port.journal.receive input appends).2
    journal.executionId = port.executionId ∧ journal.correlation = port.correlation ∧
      (journal.failure = none → journal.received = port.arrived.length + 1) ∧
        (journal.failure = none ∨ journal.failure = some .append_failed) := by
  intro journal
  rcases h.failure with hfailure | hfailure
  · obtain ⟨hreceived, hkeeps⟩ := ExecutionDataJournal.receive_next hopen hfailure
      (fits_next h hordered hfailure) appends
    refine ⟨hkeeps.executionId.trans h.executionId, hkeeps.correlation.trans h.correlation,
      fun _ => ?_, ?_⟩
    · rw [hreceived, h.received hfailure]
    · have hnone : (port.journal.take input).failure = none := hfailure
      rcases hkeeps.failure with hsame | ⟨-, hfailed⟩
      · exact .inl (hsame.trans hnone)
      · exact .inr hfailed
  · have hended : port.journal.Ended := .inr (by simp [hfailure])
    have hsame : journal = port.journal := ExecutionDataJournal.receive_ended hended input appends
    rw [hsame]
    refine ⟨h.executionId, h.correlation, fun hnone => ?_, .inr hfailure⟩
    rw [hfailure] at hnone
    cases hnone

theorem SequenceInv.arrive (h : port.SequenceInv) (hwaits : port.endpoint.WaitLaw)
    {request : AgentDataPortRequest} {toHost : List AgentDataPortRequest} {appends succeeds : Bool}
    (hhead : port.toHost = request :: toHost) :
    (arrive request appends succeeds { port with toHost := toHost }).SequenceInv := by
  rw [AgentDataPort.arrive]
  split
  · next hended =>
    refine ⟨h.executionId, h.correlation, h.arrived, h.received, h.failure, fun hopen => ?_⟩
    have hsealed : port.endpoint.sealed = true := by
      rcases (Bool.or_eq_true _ _).mp hended with hclosed | hsealed
      · exact hwaits.closed hclosed
      · exact hsealed
    have hopen' : port.endpoint.sealed = false := hopen.2
    rw [hsealed] at hopen'
    cases hopen'
  · next hreceives =>
    have hsealed : port.endpoint.sealed = false := by
      cases hsealed : port.endpoint.sealed with
      | false => rfl
      | true => exact absurd (by simp [hsealed]) hreceives
    split
    · next hinput =>
      -- A request without data leaves the stream as it is.
      have hstream : port.stream =
          port.arrived ++ toHost.filterMap AgentDataPortRequest.dataInput := by
        rw [stream, hhead, List.filterMap_cons_none hinput]
      refine ⟨h.executionId, h.correlation, h.arrived, h.received, h.failure, fun hopen => ?_⟩
      have hunderway := h.underway ⟨hopen.1, hsealed⟩
      obtain ⟨hordered, hcurrent, hbarriers⟩ := hunderway
      rw [hstream] at hordered hcurrent hbarriers
      exact ⟨hordered, hcurrent, hbarriers⟩
    · next input hinput =>
      have hstream : port.stream =
          port.arrived ++ input :: toHost.filterMap AgentDataPortRequest.dataInput := by
        rw [stream, hhead, List.filterMap_cons_some hinput]
      simp only
      split
      · next hjournal =>
        have hsame : (port.journal.receive input appends).2 = port.journal :=
          ExecutionDataJournal.receive_ended (.inl hjournal) input appends
        rw [hsame]
        refine ⟨h.executionId, h.correlation, h.arrived, h.received, h.failure, fun hopen => ?_⟩
        have hopen' : port.journal.sealed = false := hopen.1
        rw [hjournal] at hopen'
        cases hopen'
      · next hjournal =>
        have hunderway := h.underway ⟨by simpa using hjournal, hsealed⟩
        obtain ⟨hordered, hcurrent, hbarriers⟩ := hunderway
        rw [hstream] at hordered hcurrent hbarriers
        obtain ⟨hexecution, hcorrelation, hreceived, hfailure⟩ :=
          h.receive_journal (by simpa using hjournal) hordered appends
        have hconcat : port.arrived ++ [input] ++
            toHost.filterMap AgentDataPortRequest.dataInput =
              port.arrived ++ input :: toHost.filterMap AgentDataPortRequest.dataInput := by
          simp
        refine ⟨hexecution, hcorrelation, ?_, ?_, hfailure, fun _ => ?_⟩
        · intro i other hother
          refine hordered i other ?_
          rw [← hconcat, List.getElem?_append_left (List.getElem?_eq_some_iff.mp hother).1]
          exact hother
        · intro hnone
          rw [List.length_append, List.length_singleton]
          exact hreceived hnone
        · rw [← hconcat] at hordered hcurrent hbarriers
          exact ⟨hordered, hcurrent, hbarriers⟩

/-- A step of the journal itself keeps its messages. -/
theorem SequenceInv.journal (h : port.SequenceInv) {after : ExecutionDataJournal}
    (hkeeps : port.journal.Keeps .append_failed after) :
    SequenceInv { port with journal := after } := by
  refine ⟨hkeeps.executionId.trans h.executionId, hkeeps.correlation.trans h.correlation, h.arrived,
    fun hnone => ?_, ?_, fun hopen => ?_⟩
  · rcases hkeeps.failure with hsame | ⟨-, hfailed⟩
    · rw [hkeeps.received]
      exact h.received (hsame.symm.trans hnone)
    · rw [hfailed] at hnone
      cases hnone
  · rcases hkeeps.failure with hsame | ⟨-, hfailed⟩
    · rw [hsame]
      exact h.failure
    · exact .inr hfailed
  · have hsealed : port.journal.sealed = false := by
      cases hsealed : port.journal.sealed with
      | false => rfl
      | true =>
        have hafter : after.sealed = false := hopen.1
        rw [hkeeps.sealed hsealed] at hafter
        cases hafter
    have hunderway := h.underway ⟨hsealed, hopen.2⟩
    exact ⟨hunderway.ordered, hunderway.current, hunderway.barriers⟩

/-- A step of the endpoint that leaves the journal and the messages under way. -/
theorem SequenceInv.endpoint (h : port.SequenceInv) {endpoint : AgentDataEndpoint}
    {toWorker : List AgentDataPortResponse}
    (hsealed : port.endpoint.sealed = true → endpoint.sealed = true) :
    SequenceInv { port with
      endpoint := endpoint
      toWorker := toWorker } := by
  refine ⟨h.executionId, h.correlation, h.arrived, h.received, h.failure, fun hopen => ?_⟩
  have hbefore : port.endpoint.sealed = false := by
    cases hbefore : port.endpoint.sealed with
    | false => rfl
    | true =>
      have hafter : endpoint.sealed = false := hopen.2
      rw [hsealed hbefore] at hafter
      cases hafter
  have hunderway := h.underway ⟨hopen.1, hbefore⟩
  exact ⟨hunderway.ordered, hunderway.current, hunderway.barriers⟩

/-- A step of the client that posts nothing. -/
theorem SequenceInv.client (h : port.SequenceInv) {client : AgentDataPortClient}
    {toWorker : List AgentDataPortResponse}
    (hcurrent : client.closed = false → port.client.closed = false ∧
      client.skipped = port.client.skipped ∧ client.current = port.client.current)
    (hbarriers : client.barriers = port.client.barriers) :
    SequenceInv { port with
      client := client
      toWorker := toWorker } := by
  refine ⟨h.executionId, h.correlation, h.arrived, h.received, h.failure, fun hopen => ?_⟩
  have hunderway := h.underway hopen
  refine ⟨hunderway.ordered, fun hclosed hskipped => ?_, ?_⟩
  · obtain ⟨hopen', hsame, hcurrent⟩ := hcurrent hclosed
    have hcounts := hunderway.current hopen' (hsame.symm.trans hskipped)
    rw [← hcurrent] at hcounts
    exact hcounts
  · intro barrier hmem
    exact hunderway.barriers barrier (hbarriers ▸ hmem)

/-! ### Steps -/

/-- A step of the endpoint with its tasks and its replies known. -/
theorem Inv.endpoint (h : port.Inv) {endpoint : AgentDataEndpoint} (hwaits : endpoint.WaitLaw)
    (hsealed : port.endpoint.sealed = true → endpoint.sealed = true)
    (htasks : endpoint.tasks = port.endpoint.tasks) : Inv { port with endpoint := endpoint } where
  sequences := h.sequences.endpoint hsealed
  replies := ⟨h.replies.requests, fun pending hmem => h.replies.tasks pending (htasks ▸ hmem),
    h.replies.replies⟩
  requests := h.requests
  waits := hwaits

theorem await_sealed {endpoint : AgentDataEndpoint} {id : AwaitedId} :
    (endpoint.await id).sealed = endpoint.sealed ∧ (endpoint.await id).tasks = endpoint.tasks := by
  rw [AgentDataEndpoint.await]
  split
  · exact ⟨rfl, rfl⟩
  · split <;> exact ⟨rfl, rfl⟩

theorem Inv.await (h : port.Inv) (id : AwaitedId) :
    Inv { port with endpoint := port.endpoint.await id } :=
  h.endpoint (h.waits.await id) (fun hsealed => await_sealed.1.trans hsealed) await_sealed.2

theorem Inv.receiveResponse (h : port.Inv) {response : AgentDataPortResponse}
    {toWorker : List AgentDataPortResponse} (hhead : port.toWorker = response :: toWorker) :
    Inv { port with
      client := port.client.receive response
      toWorker := toWorker } where
  sequences := h.sequences.client (fun hclosed => ⟨hclosed, rfl, rfl⟩) rfl
  replies := ⟨h.replies.requests, h.replies.tasks, fun kind requestId correlation hmem =>
    h.replies.replies kind requestId correlation (hhead ▸ List.mem_cons_of_mem _ hmem)⟩
  requests := h.requests.receive fun kind requestId correlation heq =>
    h.replies.replies kind requestId correlation (by rw [hhead, ← heq]; exact List.mem_cons_self)
  waits := h.waits

theorem Inv.closeClient (h : port.Inv) : Inv { port with client := port.client.close } where
  sequences := by
    have hsame : port.client.close.barriers = port.client.barriers := by
      rw [AgentDataPortClient.close]
      split <;> rfl
    refine h.sequences.client ?_ hsame
    rw [AgentDataPortClient.close]
    split
    · exact fun hclosed => ⟨hclosed, rfl, rfl⟩
    · exact fun hclosed => (nomatch hclosed)
  replies := by
    have hkeys : port.client.close.requests.keys = port.client.requests.keys := by
      rw [AgentDataPortClient.close]
      split <;> rfl
    refine ⟨fun request hmem pending hpending => ?_, fun pending hmem => ?_,
      fun kind requestId correlation hmem => ?_⟩
    all_goals rw [hkeys]
    · exact h.replies.requests request hmem pending hpending
    · exact h.replies.tasks pending hmem
    · exact h.replies.replies kind requestId correlation hmem
  requests := h.requests.close
  waits := h.waits

theorem Inv.finishTask (h : port.Inv) {task : Nat} {pending : PendingRequest} {succeeds : Bool}
    (htask : port.endpoint.tasks[task]? = some pending) :
    Inv { port with
      endpoint := { port.endpoint with tasks := port.endpoint.tasks.eraseIdx task }
      toWorker := port.toWorker ++ port.endpoint.answer pending succeeds } where
  sequences := h.sequences.endpoint id
  replies := by
    refine ⟨h.replies.requests, fun other hmem => ?_, fun kind requestId correlation hmem => ?_⟩
    · exact h.replies.tasks other (List.mem_of_mem_eraseIdx hmem)
    · rcases List.mem_append.mp hmem with hmem | hmem
      · exact h.replies.replies kind requestId correlation hmem
      · rw [← of_mem_answer hmem]
        exact h.replies.tasks pending (List.mem_of_getElem? htask)
  requests := h.requests
  waits := h.waits.of_tasks _

theorem Inv.receiveRequest (h : port.Inv) {request : AgentDataPortRequest}
    {toHost : List AgentDataPortRequest} {appends succeeds : Bool}
    (hhead : port.toHost = request :: toHost) :
    (arrive request appends succeeds { port with toHost := toHost }).Inv := by
  have hreplies : ReplyLaw { port with toHost := toHost } :=
    ⟨fun other hmem => h.replies.requests other (hhead ▸ List.mem_cons_of_mem _ hmem),
      h.replies.tasks, h.replies.replies⟩
  refine ⟨h.sequences.arrive h.waits hhead, ?_, ?_, ?_⟩
  · exact hreplies.arrive (h.replies.requests request (by rw [hhead]; exact List.mem_cons_self))
  · rw [AgentDataPort.arrive]
    split
    · exact h.requests
    · split <;> exact h.requests
  · rw [AgentDataPort.arrive]
    split
    · exact h.waits
    · split <;> exact h.waits.receive _ _ _

theorem Inv.journalStep (h : port.Inv) {event : JournalEvent} {after : ExecutionDataJournal}
    (hstep : port.journal.step event = some after)
    (hreceive : ∀ input appends, event ≠ .receive input appends) :
    Inv { port with journal := after } where
  sequences := h.sequences.journal (ExecutionDataJournal.step_keeps hstep hreceive)
  replies := ⟨h.replies.requests, h.replies.tasks, h.replies.replies⟩
  requests := h.requests
  waits := h.waits

end AgentDataPort

/-- A call of the execution whose post goes through. -/
def AgentDataPortEvent.postsData : AgentDataPortEvent → Bool
  | .observation _ _ posts | .sendProposal _ _ posts | .sendFailure _ posts | .checkpoint _ posts =>
    posts
  | _ => false

namespace AgentDataPort

/-- Nothing of the execution is posted behind a call that took a sequence and did not post it. -/
def PostsBehindPosts (port : AgentDataPort) (event : AgentDataPortEvent) : Prop :=
  event.postsData = true → port.client.skipped = false

instance (port : AgentDataPort) (event : AgentDataPortEvent) :
    Decidable (port.PostsBehindPosts event) :=
  inferInstanceAs (Decidable (_ → _))

variable {port : AgentDataPort}

theorem inv_step (h : port.Inv) {event : AgentDataPortEvent} {after : AgentDataPort}
    (hposts : port.PostsBehindPosts event) (hstep : port.step event = some after) : after.Inv := by
  cases event with
  | beginExecution posts =>
    simp only [step] at hstep
    split at hstep
    · cases hstep
    · next hnone =>
      cases hstep
      exact h.call AgentDataPortClient.beginExecution_calls
        (h.sequences.beginExecution (by simpa using hnone))
  | observation kind content posts =>
    cases hstep
    exact h.call (AgentDataPortClient.send_calls fun _ _ => rfl)
      (h.sequences.call_sends (AgentDataPortClient.send_sends (fun _ _ => rfl) rfl) hposts)
  | sendProposal proposalId content posts =>
    cases hstep
    exact h.call (AgentDataPortClient.sendBarrier_calls fun _ _ => rfl)
      (h.sequences.call_sends (AgentDataPortClient.sendBarrier_sends (fun _ _ => rfl) rfl) hposts)
  | sendFailure content posts =>
    cases hstep
    exact h.call (AgentDataPortClient.sendBarrier_calls fun _ _ => rfl)
      (h.sequences.call_sends (AgentDataPortClient.sendBarrier_sends (fun _ _ => rfl) rfl) hposts)
  | checkpoint content posts =>
    cases hstep
    exact h.call AgentDataPortClient.checkpoint_calls
      (h.sequences.call_sends (AgentDataPortClient.checkpoint_sends rfl) hposts)
  | generationContext correlation posts =>
    cases hstep
    exact h.call (AgentDataPortClient.request_calls fun _ => rfl)
      (h.sequences.call_steady (AgentDataPortClient.request_steady fun _ => rfl))
  | readContextTurn correlation beforeTurn posts =>
    cases hstep
    exact h.call (AgentDataPortClient.request_calls fun _ => rfl)
      (h.sequences.call_steady (AgentDataPortClient.request_steady fun _ => rfl))
  | ready correlation posts =>
    cases hstep
    exact h.call (AgentDataPortClient.request_calls fun _ => rfl)
      (h.sequences.call_steady (AgentDataPortClient.request_steady fun _ => rfl))
  | afterTurn correlation providerObservations posts =>
    simp only [step] at hstep
    split at hstep
    · next hsealed =>
      cases hstep
      exact h.call (AgentDataPortClient.settledRequest_calls fun _ _ => rfl)
        (h.sequences.call_sealed hsealed)
    · cases hstep
  | postSettlementHook correlation providerObservations posts =>
    simp only [step] at hstep
    split at hstep
    · next hsealed =>
      cases hstep
      exact h.call (AgentDataPortClient.settledRequest_calls fun _ _ => rfl)
        (h.sequences.call_sealed hsealed)
    · cases hstep
  | closeClient =>
    cases hstep
    exact h.closeClient
  | receiveRequest appends succeeds =>
    simp only [step] at hstep
    split at hstep
    · cases hstep
    · next hhead =>
      cases hstep
      exact h.receiveRequest hhead
  | finishTask task succeeds =>
    obtain ⟨pending, htask, rfl⟩ := Option.map_eq_some_iff.mp hstep
    exact h.finishTask htask
  | receiveResponse =>
    simp only [step] at hstep
    split at hstep
    · cases hstep
    · next hhead =>
      cases hstep
      exact h.receiveResponse hhead
  | awaitReady =>
    cases hstep
    exact h.await .ready
  | awaitProposal proposalId =>
    cases hstep
    exact h.await (.proposal proposalId)
  | awaitFailure executionId =>
    cases hstep
    exact h.await (.failure executionId)
  | releaseExecution executionId =>
    cases hstep
    exact h.endpoint (h.waits.releaseExecution executionId) id rfl
  | sealEndpoint =>
    cases hstep
    exact h.endpoint h.waits.sealEndpoint (fun _ => rfl) rfl
  | closeEndpoint =>
    cases hstep
    refine h.endpoint h.waits.close (fun hsealed => ?_) ?_
    all_goals rw [AgentDataEndpoint.close]
    · split
      · exact hsealed
      · rfl
    · split <;> rfl
  | journal event =>
    cases event with
    | receive input appends => cases hstep
    | _ =>
      simp only [AgentDataPort.step, Option.map_eq_some_iff] at hstep
      obtain ⟨journal, hjournal, rfl⟩ := hstep
      exact h.journalStep hjournal fun _ _ heq => nomatch heq

/-- The cut of a barrier can be prepared: unless an append failed, it is durable where the next
append goes through. -/
def Prepared (port : AgentDataPort) (barrier : Nat) : Prop :=
  port.journal.failure = none →
    (port.journal.flushThrough barrier true).calls[port.journal.calls.length]? =
      some ⟨barrier, .resolved⟩

/-- The laws of the port: of the sequences of an execution until its settlement, of the promises of
the requests, and of the waits of the endpoint. -/
structure PortLaw (port : AgentDataPort) : Prop where
  sequences : ∀ i input, port.arrived[i]? = some input → input.sequence = ((i + 1 : Nat) : Int)
  /-- The journal has taken what arrived, and fails by an append only. -/
  taken : port.journal.failure = none → port.journal.received = port.arrived.length
  failure : port.journal.failure = none ∨ port.journal.failure = some .append_failed
  /-- The message of a barrier is under way until its cut can be prepared. -/
  barriers : port.Open → ∀ barrier ∈ port.client.barriers, port.Prepared barrier ∨
    ∃ request ∈ port.toHost, ∃ input, request.dataInput = some input ∧ input.sequence = barrier
  requests : port.client.requests.Settled
  requestOwn : port.client.requests.SettledBy AgentDataPortClient.SettledByOwn
  requestClosed : port.client.closed = true → port.client.requests.waiting = []
  waits : port.endpoint.waits.Settled
  waitOwn : port.endpoint.waits.SettledBy AgentDataEndpoint.SettledByData
  /-- A wait is pending only while its data is not there. -/
  waitData : ∀ id, port.endpoint.waits.Waits id → port.endpoint.data.get? id = none
  waitSealed : port.endpoint.sealed = true ∨ port.endpoint.closed = true →
    port.endpoint.waits.waiting = []

/-- A barrier is received, or its message is under way. -/
theorem SequenceInv.barrier (h : port.SequenceInv) (hopen : port.Open) {barrier : Nat}
    (hmem : barrier ∈ port.client.barriers) : port.Prepared barrier ∨
      ∃ request ∈ port.toHost, ∃ input, request.dataInput = some input ∧
        input.sequence = barrier := by
  have hunderway := h.underway hopen
  have hle := hunderway.barriers barrier hmem
  by_cases hreached : barrier ≤ port.arrived.length
  · refine .inl fun hfailure => ?_
    refine ExecutionDataJournal.flushThrough_resolves hfailure ?_
    rw [h.received hfailure]
    exact Int.ofNat_le.mpr hreached
  · right
    obtain ⟨i, rfl⟩ : ∃ i, barrier = i + 1 := ⟨barrier - 1, by omega⟩
    have hinput : port.stream[i]? = some port.stream[i] := List.getElem?_eq_getElem hle
    have hsequence := (hunderway.ordered i _ hinput).2.2
    have hunder : port.stream[i] ∈ port.toHost.filterMap AgentDataPortRequest.dataInput := by
      have hlate : port.arrived.length ≤ i := by omega
      simp only [stream] at hinput
      rw [List.getElem?_append_right hlate] at hinput
      exact List.mem_of_getElem? hinput
    obtain ⟨request, hrequest, hdata⟩ := List.mem_filterMap.mp hunder
    exact ⟨request, hrequest, _, hdata, hsequence⟩

theorem Inv.portLaw (h : port.Inv) : port.PortLaw where
  sequences i input hinput := (h.sequences.arrived i input hinput).2.2
  taken := h.sequences.received
  failure := h.sequences.failure
  barriers hopen _ hmem := h.sequences.barrier hopen hmem
  requests := h.requests.settled
  requestOwn := h.requests.own
  requestClosed := h.requests.closed
  waits := h.waits.settled
  waitOwn := h.waits.own
  waitData := h.waits.waits
  waitSealed hended := h.waits.sealed (hended.elim id h.waits.closed)

end AgentDataPort

section

/-- A turn whose second observation can be cloned or not, and what reaches the host. -/
def turnEvents (posts : Bool) : List AgentDataPortEvent :=
  let content : WorkerToHostMessage := ⟨.other, none, some 1, [], false, .null⟩
  [.beginExecution true, .observation .effect_observation content true,
    .observation .effect_observation content posts, .sendFailure content true] ++
  List.replicate (if posts then 4 else 3) (.receiveRequest true true) ++
  [.awaitFailure "execution"]

/-- The start of the execution of `turnEvents`. -/
def turnStart : AgentDataPort :=
  .start "execution" ⟨"session", "instance", "generation", 0, "command"⟩

end

end Henji.DataPort
