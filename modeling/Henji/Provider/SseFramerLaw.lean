import Henji.Provider.SseFramer

/-!
# A read and its chunks

A chunk is decoded as a whole before its characters are consumed, so a chunk that cannot be decoded
loses the events that lie before the undecodable byte. Everywhere else a read depends on the bytes
alone.

Results:
1. `readChunks_decodes`: a read of decodable bytes runs through all their characters.
2. `consume_quiet`, `consume_event`: what characters do that complete no event, and that do.
3. `chunking_independent`: a read depends on the bytes alone exactly if they can be decoded or no
   event comes before the undecodable byte.
4. `undecodable_end`: a response that is lost or not with its chunks.
-/

namespace Henji

namespace SseFramer

/-! ## Events of a text -/

/-- The lines that end in a text; `line` stands before it, and `afterCr` says that a CR does. -/
def linesFrom (line : JsText) (afterCr : Bool) : List Nat → List JsText
  | [] => []
  | character :: rest =>
    if afterCr && character == 0x0a then linesFrom line false rest
    else if character = 0x0d then line :: linesFrom [] true rest
    else if character = 0x0a then line :: linesFrom [] false rest
    else linesFrom (line ++ pointUnits character) false rest

/-- An empty line completes an event after a `data` line. -/
def completes (data : Bool) : List JsText → Bool
  | [] => false
  | line :: lines =>
    if line.isEmpty then data || completes data lines
    else completes (data || (dataOf line).isSome) lines

def dropMark : List Nat → List Nat
  | [] => []
  | character :: rest => if character == 0xfeff then rest else character :: rest

/-- The text has a `data` line and an empty line after it. -/
def hasEvent (text : List Nat) : Bool := completes false (linesFrom [] false (dropMark text))

variable {σ : Type} (onPayload : JsText → Effect HandlerError σ Unit) {framer : SseFramer σ}

/-- A text completes an event where the framer stands. -/
def eventIn (framer : SseFramer σ) (text : List Nat) : Bool :=
  completes (!framer.dataLines.isEmpty) (linesFrom framer.line framer.pendingCr
    (if framer.bomHandled then text else dropMark text))

/-! ## Characters -/

/-- Nothing was given to the handler. -/
structure Undispatched (framer after : SseFramer σ) : Prop where
  done : after.done = false
  payloads : after.payloads = framer.payloads
  handler : after.handler = framer.handler

/-- The handler was called, or an event was empty. -/
def Dispatched (framer : SseFramer σ) (ran : Except HandlerError Unit × SseFramer σ) : Prop :=
  (∃ payload, ran.2.payloads = framer.payloads ++ [payload]) ∨
    ran.1 = .error (.response emptyData) ∧ ran.2.payloads = framer.payloads

theorem run_dispatchEvent (h : framer.dataLines = []) :
    Effect.run (dispatchEvent onPayload) framer = (.ok (), framer) := by
  unfold dispatchEvent
  rw [Effect.run_bind_ok (Effect.run_get _), h]
  rfl

theorem dispatched_dispatchEvent (h : framer.dataLines ≠ []) :
    Dispatched framer (Effect.run (dispatchEvent onPayload) framer) := by
  unfold dispatchEvent
  rw [Effect.run_bind_ok (Effect.run_get _)]
  split
  · next hempty => exact absurd (List.isEmpty_iff.mp hempty) h
  rw [Effect.run_bind_ok (Effect.run_modify _ _)]
  split
  · exact .inr ⟨rfl, rfl⟩
  · refine .inl ⟨[0x0a].intercalate framer.dataLines, ?_⟩
    rw [Effect.run_bind]
    unfold callHandler Effect.run
    dsimp only
    cases (onPayload ([0x0a].intercalate framer.dataLines) framer.handler).1 with
    | error e => rfl
    | ok value =>
      dsimp only
      split <;> rfl

/-- A line that completes no event. -/
theorem run_finishLine (h : completes (!framer.dataLines.isEmpty) [framer.line] = false) :
    ∃ dataLines, Effect.run (finishLine onPayload) framer =
        (.ok (), { framer with line := [], dataLines := dataLines }) ∧
      ∀ lines, completes (!framer.dataLines.isEmpty) (framer.line :: lines) =
        completes (!dataLines.isEmpty) lines := by
  unfold finishLine
  rw [Effect.run_bind_ok (Effect.run_get _), Effect.run_bind_ok (Effect.run_modify _ _)]
  unfold completes at h
  split
  · next hempty =>
    rw [if_pos hempty, Bool.or_eq_false_iff, Bool.not_eq_false', List.isEmpty_iff] at h
    refine ⟨framer.dataLines, run_dispatchEvent onPayload h.1, fun lines => ?_⟩
    rw [completes, if_pos hempty, h.1]
    rfl
  · next hline =>
    have hcompletes : ∀ lines, completes (!framer.dataLines.isEmpty) (framer.line :: lines) =
        completes (!framer.dataLines.isEmpty || (dataOf framer.line).isSome) lines := by
      intro lines
      rw [completes, if_neg hline]
    simp only [hcompletes]
    cases dataOf framer.line with
    | none => exact ⟨framer.dataLines, rfl, fun lines => by rw [Option.isSome_none, Bool.or_false]⟩
    | some value =>
      refine ⟨framer.dataLines ++ [value], rfl, fun lines => ?_⟩
      rw [Option.isSome_some, Bool.or_true, List.isEmpty_eq_false_iff.mpr
        (List.append_ne_nil_of_right_ne_nil _ (List.cons_ne_nil _ _))]
      rfl

theorem dispatched_finishLine (h : completes (!framer.dataLines.isEmpty) [framer.line] = true) :
    Dispatched framer (Effect.run (finishLine onPayload) framer) ∧
      ∀ lines, completes (!framer.dataLines.isEmpty) (framer.line :: lines) = true := by
  unfold completes at h
  split at h
  swap
  · cases h
  next hempty =>
  rw [completes, Bool.or_false] at h
  have hdata : framer.dataLines ≠ [] := by
    intro hnil
    rw [hnil] at h
    cases h
  refine ⟨?_, fun lines => ?_⟩
  · unfold finishLine
    rw [Effect.run_bind_ok (Effect.run_get _), Effect.run_bind_ok (Effect.run_modify _ _),
      if_pos hempty]
    have hline : framer = { framer with line := [] } := by
      rw [← List.isEmpty_iff.mp hempty]
    rw [← hline]
    exact dispatched_dispatchEvent onPayload hdata
  · rw [completes, if_pos hempty, h]
    rfl

/-- What one character does. -/
inductive Consumes (onPayload : JsText → Effect HandlerError σ Unit) (framer : SseFramer σ)
    (character : Nat) : Prop
  | quiet (after : SseFramer σ)
    (hrun : Effect.run (consumeCharacter onPayload character) framer = (.ok (), after))
    (hquiet : Undispatched framer after)
    (hevent : ∀ rest, eventIn framer (character :: rest) = eventIn after rest)
  | event (hrun : Dispatched framer (Effect.run (consumeCharacter onPayload character) framer))
    (hevent : ∀ rest, eventIn framer (character :: rest) = true)

theorem consumes_finishLine {pendingCr : Bool} {character : Nat} (hdone : framer.done = false)
    (hrun : Effect.run (consumeCharacter onPayload character) framer =
      Effect.run (finishLine onPayload) { framer with bomHandled := true, pendingCr := pendingCr })
    (hevent : ∀ rest, eventIn framer (character :: rest) =
      completes (!framer.dataLines.isEmpty) (framer.line :: linesFrom [] pendingCr rest)) :
    Consumes onPayload framer character := by
  let framer' : SseFramer σ := { framer with bomHandled := true, pendingCr := pendingCr }
  cases h : completes (!framer.dataLines.isEmpty) [framer.line] with
  | false =>
    have hnone : completes (!framer'.dataLines.isEmpty) [framer'.line] = false := h
    obtain ⟨dataLines, hline, hcompletes⟩ := run_finishLine onPayload hnone
    exact .quiet _ (hrun.trans hline) ⟨hdone, rfl, rfl⟩ fun rest =>
      (hevent rest).trans (hcompletes _)
  | true =>
    have hone : completes (!framer'.dataLines.isEmpty) [framer'.line] = true := h
    obtain ⟨hline, hcompletes⟩ := dispatched_finishLine onPayload hone
    exact .event (hrun ▸ hline) fun rest => (hevent rest).trans (hcompletes _)

theorem consumes (hdone : framer.done = false) (character : Nat) :
    Consumes onPayload framer character := by
  by_cases hmark : (!framer.bomHandled && character == 0xfeff) = true
  · have hrun : Effect.run (consumeCharacter onPayload character) framer =
        (.ok (), { framer with bomHandled := true }) := by
      unfold consumeCharacter
      rw [Effect.run_bind_ok (Effect.run_get _), Effect.run_bind_ok (Effect.run_modify _ _),
        if_pos hmark]
      rfl
    refine .quiet _ hrun ⟨hdone, rfl, rfl⟩ fun rest => ?_
    rw [Bool.and_eq_true, Bool.not_eq_true'] at hmark
    unfold eventIn
    rw [hmark.1, dropMark, if_pos hmark.2]
    rfl
  -- past the mark the framer is the one that has handled it
  have htext : ∀ rest, (if framer.bomHandled then character :: rest
      else dropMark (character :: rest)) = character :: rest := by
    intro rest
    rw [dropMark]
    cases hbom : framer.bomHandled with
    | true => rfl
    | false =>
      rw [hbom, Bool.not_false, Bool.true_and] at hmark
      rw [if_neg hmark]
      rfl
  have hrun : Effect.run (consumeCharacter onPayload character) framer =
      Effect.run (if framer.pendingCr && character == 0x0a then pure ()
        else consumeLine onPayload character)
        { framer with bomHandled := true, pendingCr := false } := by
    unfold consumeCharacter
    rw [Effect.run_bind_ok (Effect.run_get _), Effect.run_bind_ok (Effect.run_modify _ _),
      if_neg hmark, Effect.run_bind_ok (Effect.run_modify _ _)]
  have hevent : ∀ rest, eventIn framer (character :: rest) = completes (!framer.dataLines.isEmpty)
      (linesFrom framer.line framer.pendingCr (character :: rest)) := by
    intro rest
    unfold eventIn
    rw [htext]
  simp only [linesFrom] at hevent
  split at hrun
  · next hcr =>
    refine .quiet _ hrun ⟨hdone, rfl, rfl⟩ fun rest => ?_
    rw [hevent, if_pos hcr]
    rfl
  next hcr =>
  simp only [if_neg hcr] at hevent
  unfold consumeLine at hrun
  split at hrun
  · next hcr' =>
    rw [Effect.run_bind_ok (Effect.run_modify _ _)] at hrun
    simp only [if_pos hcr'] at hevent
    exact consumes_finishLine onPayload hdone hrun hevent
  next hcr' =>
  simp only [if_neg hcr'] at hevent
  split at hrun
  · next hlf =>
    simp only [if_pos hlf] at hevent
    exact consumes_finishLine onPayload hdone hrun hevent
  · next hlf =>
    simp only [if_neg hlf] at hevent
    exact .quiet _ hrun ⟨hdone, rfl, rfl⟩ hevent

/-! ## Texts -/

theorem eventIn_nil : eventIn framer [] = false := by
  unfold eventIn
  cases framer.bomHandled <;> rfl

theorem run_consume_done (hdone : framer.done = true) (text : List Nat) :
    Effect.run (consume onPayload text) framer = (.ok (), framer) := by
  cases text with
  | nil => rfl
  | cons character text =>
    unfold consume
    rw [Effect.run_bind_ok (Effect.run_get _), if_pos hdone]
    rfl

theorem run_consume_cons (hdone : framer.done = false) (character : Nat) (text : List Nat) :
    Effect.run (consume onPayload (character :: text)) framer =
      match Effect.run (consumeCharacter onPayload character) framer with
      | (.ok _, after) => Effect.run (consume onPayload text) after
      | (.error e, after) => (.error e, after) := by
  rw [consume, Effect.run_bind_ok (Effect.run_get _), if_neg (Bool.eq_false_iff.mp hdone),
    Effect.run_bind]
  cases Effect.run (consumeCharacter onPayload character) framer with
  | mk result after => cases result <;> rfl

theorem run_consume_append (first second : List Nat) :
    Effect.run (consume onPayload (first ++ second)) framer =
      match Effect.run (consume onPayload first) framer with
      | (.ok _, after) => Effect.run (consume onPayload second) after
      | (.error e, after) => (.error e, after) := by
  induction first generalizing framer with
  | nil => rfl
  | cons character first ih =>
    cases hdone : framer.done with
    | true =>
      rw [run_consume_done _ hdone, run_consume_done _ hdone]
      exact (run_consume_done _ hdone _).symm
    | false =>
      rw [List.cons_append, run_consume_cons _ hdone, run_consume_cons _ hdone]
      cases Effect.run (consumeCharacter onPayload character) framer with
      | mk result after =>
        cases result with
        | error e => rfl
        | ok value => exact ih

theorem eventIn_append {first : List Nat} (hdone : framer.done = false)
    (h : eventIn framer first = true) (rest : List Nat) : eventIn framer (first ++ rest) = true := by
  induction first generalizing framer with
  | nil => exact absurd h (by rw [eventIn_nil]; decide)
  | cons character first ih =>
    cases consumes (fun _ => pure ()) hdone character with
    | quiet after _ hquiet hevent =>
      exact (hevent _).trans (ih hquiet.done ((hevent first).symm.trans h))
    | event _ hevent => exact hevent _

/-- Characters that complete no event leave the handler as it is. -/
theorem consume_quiet {text : List Nat} (hdone : framer.done = false)
    (h : eventIn framer text = false) :
    ∃ after, Effect.run (consume onPayload text) framer = (.ok (), after) ∧ Undispatched framer after ∧
      ∀ rest, eventIn framer (text ++ rest) = eventIn after rest := by
  induction text generalizing framer with
  | nil => exact ⟨framer, rfl, ⟨hdone, rfl, rfl⟩, fun _ => rfl⟩
  | cons character text ih =>
    rw [run_consume_cons _ hdone]
    cases consumes onPayload hdone character with
    | quiet middle hrun hquiet hevent =>
      obtain ⟨after, hrest, hquiet', hevent'⟩ := ih hquiet.done ((hevent text).symm.trans h)
      rw [hrun]
      exact ⟨after, hrest, ⟨hquiet'.done, hquiet'.payloads.trans hquiet.payloads,
        hquiet'.handler.trans hquiet.handler⟩, fun rest => (hevent _).trans (hevent' rest)⟩
    | event _ hevent =>
      rw [hevent] at h
      cases h

theorem consume_payloads (text : List Nat) :
    framer.payloads <+: (Effect.run (consume onPayload text) framer).2.payloads := by
  induction text generalizing framer with
  | nil => exact List.prefix_rfl
  | cons character text ih =>
    cases hdone : framer.done with
    | true =>
      exact (run_consume_done onPayload hdone _).symm ▸ List.prefix_rfl
    | false =>
      have hcharacter : framer.payloads <+:
          (Effect.run (consumeCharacter onPayload character) framer).2.payloads := by
        cases consumes onPayload hdone character with
        | quiet after hrun hquiet =>
          rw [hrun]
          exact hquiet.payloads ▸ List.prefix_rfl
        | event hrun =>
          obtain ⟨payload, hpayload⟩ | ⟨-, hpayloads⟩ := hrun
          · exact hpayload ▸ List.prefix_append _ _
          · exact hpayloads ▸ List.prefix_rfl
      rw [run_consume_cons _ hdone]
      cases hrun : Effect.run (consumeCharacter onPayload character) framer with
      | mk result after =>
        rw [hrun] at hcharacter
        cases result with
        | error e => exact hcharacter
        | ok value => exact hcharacter.trans ih

/-- The first event of a text is given to the handler, or it is empty. -/
theorem consume_event {text : List Nat} (hdone : framer.done = false)
    (h : eventIn framer text = true) :
    (∃ payload, framer.payloads ++ [payload] <+:
      (Effect.run (consume onPayload text) framer).2.payloads) ∨
    (Effect.run (consume onPayload text) framer).1 = .error (.response emptyData) := by
  induction text generalizing framer with
  | nil =>
    rw [eventIn_nil] at h
    cases h
  | cons character text ih =>
    rw [run_consume_cons _ hdone]
    cases consumes onPayload hdone character with
    | quiet middle hrun hquiet hevent =>
      rw [hrun, ← hquiet.payloads]
      exact ih hquiet.done ((hevent text).symm.trans h)
    | event hrun _ =>
      cases hresult : Effect.run (consumeCharacter onPayload character) framer with
      | mk result after =>
        rw [hresult] at hrun
        obtain ⟨payload, hpayload⟩ | ⟨herror, -⟩ := hrun
        · refine .inl ⟨payload, ?_⟩
          rw [← hpayload]
          cases result with
          | error e => exact List.prefix_rfl
          | ok value => exact consume_payloads onPayload text
        · cases herror
          exact .inr rfl

/-! ## Chunks -/

theorem run_push {decoder decoder' : Utf8Decoder} {chunk : List UInt8} {text : List Nat}
    (hdone : framer.done = false) (h : decoder.decode chunk = some (decoder', text)) :
    Effect.run (push onPayload decoder chunk) framer =
      match Effect.run (consume onPayload text) framer with
      | (.ok _, after) => (.ok decoder', after)
      | (.error e, after) => (.error e, after) := by
  unfold push
  rw [Effect.run_bind_ok (Effect.run_get _), if_neg (Bool.eq_false_iff.mp hdone), h]
  dsimp only
  rw [Effect.run_bind]
  cases Effect.run (consume onPayload text) framer with
  | mk result after => cases result <;> rfl

theorem run_push_undecodable {decoder : Utf8Decoder} {chunk : List UInt8}
    (hdone : framer.done = false) (h : decoder.decode chunk = none) :
    Effect.run (push onPayload decoder chunk) framer = (.error (.response invalidUtf8), framer) := by
  unfold push
  rw [Effect.run_bind_ok (Effect.run_get _), if_neg (Bool.eq_false_iff.mp hdone), h]
  rfl

end SseFramer

section Read

open SseFramer

variable {σ ρ : Type} (onPayload : JsText → Effect HandlerError σ Unit)
  {conditions : ReadConditions} {framer : SseFramer σ} {decoder decoder' : Utf8Decoder}

/-- The rest of a read after the characters of all chunks. -/
def readAfter (onPayload : JsText → Effect HandlerError σ Unit) (conditions : ReadConditions)
    (decoder : Utf8Decoder) :
    Except HandlerError Unit × SseFramer σ → Except ReadFailure Unit × SseFramer σ
  | (.error e, framer) => (.error (settleActiveReaderFailure conditions e), framer)
  | (.ok (), framer) =>
    if framer.done then readDone conditions framer else readEnd onPayload conditions decoder framer

/-- The read of bytes that can be decoded. -/
theorem readChunks_decodes {chunks : List (List UInt8)} {text : List Nat}
    (htime : conditions.isTimedOut = false) (hdone : framer.done = false)
    (h : decoder.decode chunks.flatten = some (decoder', text)) :
    readChunks onPayload conditions decoder framer chunks =
      readAfter onPayload conditions decoder' (Effect.run (consume onPayload text) framer) := by
  induction chunks generalizing decoder framer text with
  | nil =>
    cases h
    rw [readChunks, if_neg (Bool.eq_false_iff.mp htime)]
    unfold consume readAfter
    rw [Effect.run_pure]
    exact (if_neg (Bool.eq_false_iff.mp hdone)).symm
  | cons chunk chunks ih =>
    rw [List.flatten_cons, Utf8Decoder.decode, Transducer.feed_append] at h
    obtain ⟨⟨middle, first⟩, hfirst, hrest⟩ := Option.bind_eq_some_iff.mp h
    obtain ⟨⟨last, second⟩, hsecond, heq⟩ := Option.map_eq_some_iff.mp hrest
    cases heq
    rw [readChunks, if_neg (Bool.eq_false_iff.mp htime), run_push _ hdone hfirst, run_consume_append]
    cases Effect.run (consume onPayload first) framer with
    | mk result after =>
      cases result with
      | error e => rfl
      | ok value =>
        dsimp only
        split
        · next hdone' =>
          rw [run_consume_done _ hdone']
          exact (if_pos hdone').symm
        · next hdone' => exact ih (Bool.eq_false_iff.mpr hdone') hsecond

/-- The read of bytes that cannot be decoded, without an event before that. -/
theorem readChunks_undecodable {chunks : List (List UInt8)}
    (htime : conditions.isTimedOut = false) (hdone : framer.done = false)
    (h : decoder.decode chunks.flatten = none)
    (hevent : eventIn framer (Transducer.front Utf8Decoder.decodeByte decoder chunks.flatten) =
      false) :
    ∃ after, readChunks onPayload conditions decoder framer chunks =
      (.error (settleActiveReaderFailure conditions (.response invalidUtf8)), after) ∧
      Undispatched framer after := by
  induction chunks generalizing decoder framer with
  | nil => cases h
  | cons chunk chunks ih =>
    rw [readChunks, if_neg (Bool.eq_false_iff.mp htime)]
    cases hfirst : decoder.decode chunk with
    | none =>
      rw [run_push_undecodable _ hdone hfirst]
      exact ⟨framer, rfl, hdone, rfl, rfl⟩
    | some fed =>
      obtain ⟨middle, first⟩ := fed
      rw [List.flatten_cons, Utf8Decoder.decode, Transducer.feed_append] at h
      rw [List.flatten_cons, Transducer.front_append _ hfirst] at hevent
      unfold Utf8Decoder.decode at hfirst
      rw [hfirst, Option.bind_some, Option.map_eq_none_iff] at h
      have hquiet : eventIn framer first = false := by
        rw [← Bool.not_eq_true]
        intro htrue
        rw [eventIn_append hdone htrue] at hevent
        cases hevent
      obtain ⟨after, hrun, hquiet, hrest⟩ := consume_quiet onPayload hdone hquiet
      rw [run_push _ hdone hfirst, hrun]
      dsimp only
      rw [if_neg (Bool.eq_false_iff.mp hquiet.done)]
      obtain ⟨last, hread, hquiet'⟩ := ih hquiet.done h ((hrest _).symm.trans hevent)
      exact ⟨last, hread, hquiet'.done, hquiet'.payloads.trans hquiet.payloads,
        hquiet'.handler.trans hquiet.handler⟩

/-! ## Chunking -/

/-- The bytes can be decoded, or no event comes before the undecodable byte. -/
def ChunkFree (bytes : List UInt8) : Prop :=
  (Utf8Decoder.start.decode bytes).isSome = true ∨
    hasEvent (Transducer.front Utf8Decoder.decodeByte .start bytes) = false

/-- The turn goes on, and the reader can be cancelled. -/
def ReadConditions.Undisturbed (conditions : ReadConditions) : Prop :=
  conditions.isTurnCancelled = false ∧ conditions.isTimedOut = false ∧
    conditions.cancelSettles = true

variable (resultOf : σ → Option ρ) (handler : σ) {bytes : List UInt8}

theorem readSseResponse_congr {chunks chunks' : List (List UInt8)}
    (hresult : (readChunks onPayload conditions .start (.start handler) chunks).1 =
      (readChunks onPayload conditions .start (.start handler) chunks').1)
    (hpayloads : (readChunks onPayload conditions .start (.start handler) chunks).2.payloads =
      (readChunks onPayload conditions .start (.start handler) chunks').2.payloads)
    (hhandler : (readChunks onPayload conditions .start (.start handler) chunks).2.handler =
      (readChunks onPayload conditions .start (.start handler) chunks').2.handler) :
    readSseResponse onPayload conditions resultOf handler chunks =
      readSseResponse onPayload conditions resultOf handler chunks' := by
  unfold readSseResponse
  dsimp only
  rw [hresult, hpayloads, hhandler]

theorem readSseResponse_chunkFree {chunks chunks' : List (List UInt8)}
    (h : ChunkFree bytes) (hchunks : chunks.flatten = bytes) (hchunks' : chunks'.flatten = bytes) :
    readSseResponse onPayload conditions resultOf handler chunks =
      readSseResponse onPayload conditions resultOf handler chunks' := by
  have hdone : (SseFramer.start handler).done = false := rfl
  cases htime : conditions.isTimedOut with
  | true =>
    have htimed : ∀ chunks, readChunks onPayload conditions .start (.start handler) chunks =
        (.error (settleActiveReaderFailure conditions .other), .start handler) := by
      intro chunks
      cases chunks <;> exact if_pos htime
    exact readSseResponse_congr _ _ _ (by rw [htimed, htimed]) (by rw [htimed, htimed])
      (by rw [htimed, htimed])
  | false =>
    cases hdecode : Utf8Decoder.start.decode bytes with
    | some fed =>
      have hread := readChunks_decodes onPayload htime hdone
        (hchunks ▸ hdecode)
      have hread' := readChunks_decodes onPayload htime hdone
        (hchunks' ▸ hdecode)
      exact readSseResponse_congr _ _ _ (by rw [hread, hread']) (by rw [hread, hread'])
        (by rw [hread, hread'])
    | none =>
      have hquiet : hasEvent (Transducer.front Utf8Decoder.decodeByte .start bytes) = false := by
        obtain hsome | hquiet := h
        · rw [hdecode] at hsome
          cases hsome
        · exact hquiet
      obtain ⟨after, hread, hafter⟩ := readChunks_undecodable onPayload
        htime hdone (hchunks ▸ hdecode) (hchunks ▸ hquiet)
      obtain ⟨after', hread', hafter'⟩ := readChunks_undecodable onPayload
        htime hdone (hchunks' ▸ hdecode) (hchunks' ▸ hquiet)
      exact readSseResponse_congr _ _ _ (by rw [hread, hread'])
        (by rw [hread, hread']; exact hafter.payloads.trans hafter'.payloads.symm)
        (by rw [hread, hread']; exact hafter.handler.trans hafter'.handler.symm)

/-- One chunk of undecodable bytes gives nothing to the handler. -/
theorem readSseResponse_whole (hconditions : conditions.Undisturbed)
    (h : Utf8Decoder.start.decode bytes = none) :
    readSseResponse onPayload conditions resultOf handler [bytes] =
      ⟨.error (.response invalidUtf8), [], handler⟩ := by
  obtain ⟨hcancelled, htime, hsettles⟩ := hconditions
  unfold readSseResponse readChunks
  rw [if_neg (Bool.eq_false_iff.mp htime), run_push_undecodable _ rfl h]
  dsimp only
  unfold settleActiveReaderFailure classifySettledFailure
  rw [if_pos hsettles, hcancelled, htime]
  rfl

/-- An event before the undecodable byte is seen if the chunk ends between them. -/
theorem readSseResponse_cut (hconditions : conditions.Undisturbed)
    {first rest : List UInt8} {text : List Nat}
    (hfirst : Utf8Decoder.start.decode first = some (decoder, text))
    (hrest : decoder.decode rest = none) (hevent : hasEvent text = true) :
    (readSseResponse onPayload conditions resultOf handler [first, rest]).payloads ≠ [] ∨
      (readSseResponse onPayload conditions resultOf handler [first, rest]).result =
        .error (.response emptyData) := by
  obtain ⟨hcancelled, htime, hsettles⟩ := hconditions
  have hdone : (SseFramer.start handler).done = false := rfl
  have hsees := consume_event onPayload hdone hevent
  unfold readSseResponse readChunks
  rw [if_neg (Bool.eq_false_iff.mp htime), run_push _ rfl hfirst]
  cases hrun : Effect.run (consume onPayload text) (.start handler) with
  | mk result after =>
    rw [hrun] at hsees
    obtain ⟨payload, hpayload⟩ | herror := hsees
    · have hne : after.payloads ≠ [] := by
        rintro hnil
        rw [hnil] at hpayload
        cases List.prefix_nil.mp hpayload
      left
      cases result with
      | error e => exact hne
      | ok value =>
        dsimp only
        split
        · next hdone' =>
          unfold readDone
          split <;> exact hne
        · next hdone' =>
          unfold readChunks
          rw [if_neg (Bool.eq_false_iff.mp htime),
            run_push_undecodable _ (Bool.eq_false_iff.mpr hdone') hrest]
          exact hne
    · cases herror
      right
      dsimp only
      unfold settleActiveReaderFailure classifySettledFailure
      rw [if_pos hsettles, hcancelled, htime]
      rfl

/-- A read depends on the bytes and not on their chunks exactly if the bytes can be decoded or no
event comes before the undecodable byte. -/
theorem chunking_independent (onPayload : JsText → Effect HandlerError σ Unit)
    (conditions : ReadConditions) (resultOf : σ → Option ρ) (handler : σ) (bytes : List UInt8) :
    (ChunkFree bytes → ∀ chunks chunks', chunks.flatten = bytes → chunks'.flatten = bytes →
      readSseResponse onPayload conditions resultOf handler chunks =
        readSseResponse onPayload conditions resultOf handler chunks') ∧
    (conditions.Undisturbed →
      ((∀ chunks chunks', chunks.flatten = bytes → chunks'.flatten = bytes →
        readSseResponse onPayload conditions resultOf handler chunks =
          readSseResponse onPayload conditions resultOf handler chunks') ↔ ChunkFree bytes)) := by
  refine ⟨fun h chunks chunks' => readSseResponse_chunkFree _ _ _ h, fun hconditions =>
    ⟨fun hsame => ?_, fun h chunks chunks' => readSseResponse_chunkFree _ _ _ h⟩⟩
  cases hdecode : Utf8Decoder.start.decode bytes with
  | some fed => exact .inl (hdecode ▸ rfl)
  | none =>
    refine .inr (Bool.eq_false_iff.mpr fun hevent => ?_)
    obtain ⟨first, rest, decoder, hbytes, hfirst, hrest⟩ := Transducer.exists_front _ hdecode
    have hwhole := readSseResponse_whole onPayload resultOf handler hconditions hdecode
    rw [hsame [bytes] [first, rest] (by rw [List.flatten_singleton])
      (by rw [List.flatten_cons, List.flatten_singleton, hbytes])] at hwhole
    obtain hpayloads | herror := readSseResponse_cut onPayload resultOf handler hconditions
      hfirst hrest hevent
    · exact hpayloads (hwhole ▸ rfl)
    · rw [hwhole, Except.error.injEq, ReadFailure.response.injEq] at herror
      exact absurd herror (by decide)

/-! ## A chunk with an undecodable end -/

def stopFrame : Json :=
  .obj [(js "id", .str (js "c")), (js "choices", .arr [.obj [(js "index", .num (js "0")),
    (js "delta", .obj [(js "content", .str (js "Hi"))]), (js "finish_reason", .str (js "stop"))]])]

def stopOptions : StreamOptions where
  parse text := if text = stringify stopFrame then some stopFrame else none
  reports := false
  providerId := js "openrouter"
  modelId := js "m"

/-- A whole response with its `[DONE]`. -/
def stopBytes : List UInt8 :=
  encodeUtf8 (js "data: " ++ stringify stopFrame ++ js "\r\n\r\ndata: [DONE]\r\n\r\n")

def quietConditions : ReadConditions := ⟨false, false, true, false⟩

/-- The byte after the response fails the read only if it comes in the chunk of the response. -/
theorem undecodable_end :
    (readResponse stopOptions quietConditions [stopBytes ++ [0xff]]).result =
      .error (.response SseFramer.invalidUtf8) ∧
    (readResponse stopOptions quietConditions [stopBytes, [0xff]]).result =
      .ok (.final (js "Hi") none) := by
  decide +kernel

/-- A response comes out of any chunks, one byte at a time as well. -/
theorem chunking_independent_stop :
    readResponse stopOptions quietConditions (stopBytes.map fun byte => [byte]) =
      readResponse stopOptions quietConditions [stopBytes] := by
  have hfree : ChunkFree stopBytes := .inl (by decide +kernel)
  exact (chunking_independent (assemblePayload stopOptions) quietConditions
    (fun state => state.assembly.result) .start stopBytes).1 hfree _ _ (by decide +kernel)
    (by decide +kernel)

end Read

end Henji
