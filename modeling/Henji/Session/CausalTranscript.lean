import Henji.Core.Contracts

/-!
# The causal grammar of a transcript

`indexCausalTranscript` scans a transcript once and keeps the message range of each turn. A turn
starts with an unmarked user message; assistant messages with tool calls are followed by one tool
message with paired results; the turn ends with a text answer or a terminal tool result. One user
message may continue the turn: a marked one after an answer, any one after nonterminal results.

`TurnPrefix` and `CompleteTurn` are the same grammar as derivations, in the order in which a
running turn appends its messages.

Results:
1. `scanTurn_prefix`: scanning over an open turn leaves the scanner where the turn stands.
2. `causalTranscriptIndex_complete`: a complete turn is accepted as exactly one turn.
3. `proposalSuffix_complete`: a proposal with the next turn number and a complete turn is adopted.
-/

namespace Henji

/-! ## The scanner -/

structure CausalTranscriptTurn where
  turn : Nat
  start : Nat
  «end» : Nat
deriving DecidableEq, Repr

structure CausalTranscriptIndex where
  turns : List CausalTranscriptTurn
  messageCount : Nat
deriving DecidableEq, Repr

/-- The pairing check of one tool message: as many results as calls, each with the identity and
the name of its call. -/
def pairsCalls : List ToolCall → List ToolResultContent → Bool
  | [], [] => true
  | call :: calls, result :: results =>
    call.callId == result.callId && call.name == result.name && pairsCalls calls results
  | _, _ => false

/-- The inner loop over one turn, from the message after its first one. `none` is a turn that is
rejected or does not complete; otherwise the end of the turn and the messages after it. -/
def scanTurn (steeringUsed : Bool) (index : Nat) :
    List Message → Option (Nat × List Message)
  | .assistant (.text _) _ _ :: rest =>
    match rest with
    | .user _ true :: rest => if steeringUsed then none else scanTurn true (index + 2) rest
    | rest => some (index + 1, rest)
  | .assistant (.calls calls) _ _ :: .tool results :: rest =>
    if !pairsCalls calls results then none
    else if results.any fun result => result.terminal.isSome then some (index + 2, rest)
    else match rest with
      | .user _ _ :: rest => if steeringUsed then none else scanTurn true (index + 3) rest
      | rest => scanTurn steeringUsed (index + 2) rest
  | _ => none

theorem scanTurn_length {used : Bool} {index : Nat} {messages : List Message} {next : Nat}
    {rest : List Message} (h : scanTurn used index messages = some (next, rest)) :
    rest.length < messages.length := by
  fun_induction scanTurn used index messages <;> grind

/-- The outer loop: one turn after the other. The flag is `allowIncompleteTail`. -/
def indexTurns (allowIncompleteTail : Bool) (messageCount : Nat)
    (turns : List CausalTranscriptTurn) (turn index : Nat) :
    List Message → Option CausalTranscriptIndex
  | [] => some ⟨turns, messageCount⟩
  | .user _ false :: messages =>
    match h : scanTurn false (index + 1) messages with
    | none => if allowIncompleteTail then some ⟨turns, messageCount⟩ else none
    | some (next, rest) =>
      indexTurns allowIncompleteTail messageCount (turns ++ [⟨turn, index, next⟩]) (turn + 1)
        next rest
  | _ :: _ => if allowIncompleteTail then some ⟨turns, messageCount⟩ else none
termination_by messages => messages.length
decreasing_by
  have := scanTurn_length h
  simp only [List.length_cons]
  omega

def indexCausalTranscript (transcript : List Message) (allowIncompleteTail : Bool) :
    Option CausalTranscriptIndex :=
  match transcript with
  | .user _ _ :: _ => indexTurns allowIncompleteTail transcript.length [] 1 0 transcript
  | _ => none

/-- Strict causal ranges. -/
def causalTranscriptIndex (transcript : List Message) : Option CausalTranscriptIndex :=
  indexCausalTranscript transcript false

/-- The fields of a commit proposal that its adoption reads. -/
structure WorkerCommitProposal where
  nextTurn : Nat
  transcript : List Message

/-- `SessionAuthority.proposalSuffix`, with the next turn of the authority's projection. -/
def proposalSuffix (projectionNextTurn : Nat) (proposal : WorkerCommitProposal) :
    Option (List Message) :=
  if proposal.nextTurn ≠ projectionNextTurn + 1 ∨ proposal.transcript.length = 0 then none
  else match causalTranscriptIndex proposal.transcript with
    | none => none
    | some index => if index.turns.length ≠ 1 then none else some proposal.transcript

/-! ## The grammar -/

/-- The messages of a turn that waits for the assistant, and whether it has been steered. -/
inductive TurnPrefix : List Message → Bool → Prop
  | task (text : JsText) : TurnPrefix [.user text false] false
  | tools {messages : List Message} {steered : Bool} {calls : List ToolCall}
      {results : List ToolResultContent} (text : Option JsText) (providerState : Option Json) :
      TurnPrefix messages steered → pairsCalls calls results = true →
      (∀ result ∈ results, result.terminal = none) →
      TurnPrefix (messages ++ [.assistant (.calls calls) text providerState, .tool results])
        steered
  | steeredTools {messages : List Message} {calls : List ToolCall}
      {results : List ToolResultContent} (text : Option JsText) (providerState : Option Json)
      (steering : JsText) :
      TurnPrefix messages false → pairsCalls calls results = true →
      (∀ result ∈ results, result.terminal = none) →
      TurnPrefix (messages ++ [.assistant (.calls calls) text providerState, .tool results,
        .user steering true]) true
  | steeredAnswer {messages : List Message} (answer : JsText) (text : Option JsText)
      (providerState : Option Json) (steering : JsText) :
      TurnPrefix messages false →
      TurnPrefix (messages ++ [.assistant (.text answer) text providerState,
        .user steering true]) true

/-- The messages of a turn that has ended. -/
inductive CompleteTurn : List Message → Prop
  | answer {messages : List Message} {steered : Bool} (answer : JsText) (text : Option JsText)
      (providerState : Option Json) :
      TurnPrefix messages steered →
      CompleteTurn (messages ++ [.assistant (.text answer) text providerState])
  | terminal {messages : List Message} {steered : Bool} {calls : List ToolCall}
      {results : List ToolResultContent} (text : Option JsText) (providerState : Option Json) :
      TurnPrefix messages steered → pairsCalls calls results = true →
      (∃ result ∈ results, result.terminal ≠ none) →
      CompleteTurn (messages ++ [.assistant (.calls calls) text providerState, .tool results])

/-! ## Scanning a derivation -/

namespace CausalTranscriptLemmas

theorem any_terminal_eq_false {results : List ToolResultContent}
    (h : ∀ result ∈ results, result.terminal = none) :
    (results.any fun result => result.terminal.isSome) = false := by
  rw [List.any_eq_false]
  intro result hr
  rw [h result hr]
  exact Bool.false_ne_true

theorem any_terminal_eq_true {results : List ToolResultContent}
    (h : ∃ result ∈ results, result.terminal ≠ none) :
    (results.any fun result => result.terminal.isSome) = true := by
  obtain ⟨result, hr, ht⟩ := h
  exact List.any_eq_true.mpr ⟨result, hr, Option.isSome_iff_ne_none.mpr ht⟩

variable {used : Bool} {index : Nat} {content : AssistantContent} {calls : List ToolCall}
  {results : List ToolResultContent} {text text' : Option JsText} {state state' : Option Json}
  {rest : List Message}

theorem scanTurn_tools (hp : pairsCalls calls results = true)
    (hn : ∀ result ∈ results, result.terminal = none) :
    scanTurn used index (.assistant (.calls calls) text state :: .tool results ::
      .assistant content text' state' :: rest) =
      scanTurn used (index + 2) (.assistant content text' state' :: rest) := by
  rw [scanTurn.eq_def]
  simp [hp, any_terminal_eq_false hn]

theorem scanTurn_steeredTools (hp : pairsCalls calls results = true)
    (hn : ∀ result ∈ results, result.terminal = none) (steering : JsText) :
    scanTurn false index (.assistant (.calls calls) text state :: .tool results ::
      .user steering true :: rest) = scanTurn true (index + 3) rest := by
  rw [scanTurn.eq_def]
  simp [hp, any_terminal_eq_false hn]

theorem scanTurn_steeredAnswer (answer steering : JsText) :
    scanTurn false index (.assistant (.text answer) text state :: .user steering true :: rest) =
      scanTurn true (index + 2) rest := by
  rw [scanTurn.eq_def]
  simp

theorem scanTurn_answer (answer : JsText) :
    scanTurn used index [.assistant (.text answer) text state] = some (index + 1, []) := by
  unfold scanTurn
  simp

theorem scanTurn_terminal (hp : pairsCalls calls results = true)
    (ht : ∃ result ∈ results, result.terminal ≠ none) :
    scanTurn used index [.assistant (.calls calls) text state, .tool results] =
      some (index + 2, []) := by
  unfold scanTurn
  simp [hp, any_terminal_eq_true ht]

end CausalTranscriptLemmas

open CausalTranscriptLemmas

/-- The scanner runs over an open turn up to the assistant message that comes next. -/
theorem scanTurn_prefix {messages : List Message} {steered : Bool}
    (h : TurnPrefix messages steered) :
    ∃ task body, messages = .user task false :: body ∧
      ∀ content text providerState rest,
        scanTurn false 1 (body ++ .assistant content text providerState :: rest) =
          scanTurn steered messages.length (.assistant content text providerState :: rest) := by
  induction h with
  | task task => exact ⟨task, [], rfl, fun _ _ _ _ => rfl⟩
  | @tools messages steered calls results text state _ hp hn ih =>
    obtain ⟨task, body, rfl, ih⟩ := ih
    refine ⟨task, body ++ [.assistant (.calls calls) text state, .tool results], rfl, ?_⟩
    intro content text' state' rest
    simpa using (ih _ _ _ _).trans (scanTurn_tools hp hn)
  | @steeredTools messages calls results text state steering _ hp hn ih =>
    obtain ⟨task, body, rfl, ih⟩ := ih
    refine ⟨task, body ++ [.assistant (.calls calls) text state, .tool results,
      .user steering true], rfl, ?_⟩
    intro content text' state' rest
    simpa using (ih _ _ _ _).trans (scanTurn_steeredTools hp hn steering)
  | @steeredAnswer messages answer text state steering _ ih =>
    obtain ⟨task, body, rfl, ih⟩ := ih
    refine ⟨task, body ++ [.assistant (.text answer) text state, .user steering true], rfl, ?_⟩
    intro content text' state' rest
    simpa using (ih _ _ _ _).trans (scanTurn_steeredAnswer answer steering)

/-- A complete turn ends where its messages end. -/
theorem scanTurn_complete {messages : List Message} (h : CompleteTurn messages) :
    ∃ task body, messages = .user task false :: body ∧
      scanTurn false 1 body = some (messages.length, []) := by
  cases h with
  | @answer messages steered answer text state hp =>
    obtain ⟨task, body, rfl, hs⟩ := scanTurn_prefix hp
    refine ⟨task, body ++ [.assistant (.text answer) text state], rfl, ?_⟩
    simpa using (hs _ _ _ _).trans (scanTurn_answer answer)
  | @terminal messages steered calls results text state hp hc ht =>
    obtain ⟨task, body, rfl, hs⟩ := scanTurn_prefix hp
    refine ⟨task, body ++ [.assistant (.calls calls) text state, .tool results], rfl, ?_⟩
    simpa using (hs _ _ _ _).trans (scanTurn_terminal hc ht)

/-- A complete turn is accepted as exactly one turn, from its first message to its last. -/
theorem causalTranscriptIndex_complete {messages : List Message} (h : CompleteTurn messages) :
    causalTranscriptIndex messages =
      some ⟨[⟨1, 0, messages.length⟩], messages.length⟩ := by
  obtain ⟨task, body, rfl, hs⟩ := scanTurn_complete h
  show indexTurns false _ [] 1 0 (.user task false :: body) = _
  rw [indexTurns]
  split
  · next hn => rw [hs] at hn; cases hn
  · next next rest hr =>
    rw [hs] at hr
    cases hr
    rw [indexTurns]
    rfl

theorem proposalSuffix_complete {messages : List Message} (h : CompleteTurn messages)
    (nextTurn : Nat) :
    proposalSuffix nextTurn ⟨nextTurn + 1, messages⟩ = some messages := by
  have hne : messages.length ≠ 0 := by
    obtain ⟨task, body, rfl, -⟩ := scanTurn_complete h
    exact Nat.succ_ne_zero _
  unfold proposalSuffix
  rw [if_neg (by simp [hne]), causalTranscriptIndex_complete h]
  rfl

end Henji
