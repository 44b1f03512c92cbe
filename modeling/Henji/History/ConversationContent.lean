import Henji.Conversation.Model
import Henji.Core.ModelResult
import Henji.Library.Utf8Windows

/-!
# Reading conversation content in chunks

A locator names a text of the history: the task of an execution or a field of one of its events.
`readConversationContent` reads a part of it, from the first character that starts at the offset or
after it to the last one that ends within the length.

Results:
1. `chunkEnd_encode`: a chunk is the longest one of whole characters that fits.
2. `readContentChunk_encode`: what a read from between two characters returns.
3. `content_reads_back`: reading on from 0 gives the text back exactly if each character fits in the
   length, no chunk starts with a byte order mark and the text has no unpaired surrogate.
4. `character_stuck`: a text that never comes back.
-/

namespace Henji

structure ContentExecutionRow where
  executionId : ExecutionId
  sessionCorrelation : SessionId
  task : List UInt8

/-- A row of `semantic_records` or `assistant_text_states`. -/
structure ContentEventRow where
  executionId : ExecutionId
  payload : Json

/-- The rows that hold conversation content, in the order of their ordinals. -/
structure ContentRows where
  executions : List ContentExecutionRow
  semanticRecords : List ContentEventRow
  assistantTextStates : List ContentEventRow

/-- A field whose value is an object or an array. -/
def objectField? (key : String) (value : Json) : Option Json :=
  match value.field? key with
  | some (.obj fields) => some (.obj fields)
  | some (.arr items) => some (.arr items)
  | _ => none

def isOrdinal (ordinal : Nat) (value : Option Json) : Bool :=
  value == some (.num (js (toString ordinal)))

/-- The stored event at an ordinal. -/
def ContentRows.event (rows : ContentRows) (executionId : ExecutionId) (ordinal : Nat) :
    Option Json :=
  let recorded := rows.semanticRecords.reverse.find? fun row => row.executionId == executionId &&
    isOrdinal ordinal ((row.payload.field? "event").bind (Json.field? "ordinal"))
  let state := rows.assistantTextStates.reverse.find? fun row => row.executionId == executionId &&
    isOrdinal ordinal (row.payload.field? "ordinal")
  (recorded.or state).map fun row => (objectField? "event" row.payload).getD row.payload

/-! ## Fields -/

/-- `value` where its kind is `kind`. -/
def ofKind (kind : String) (value : Option Json) : Option Json :=
  value.filter fun value => value.field? "kind" == some (.str (js kind))

/-- The value that `#conversationFieldText` makes a text of. -/
def conversationFieldValue (field : ContentField) (event : Json) (sourceIndex : Option Nat) :
    Option Json :=
  let payload := (objectField? "payload" event).getD (.obj [])
  let providerObservation := if payload.field? "kind" = some (.str (js "provider_observation")) then
    objectField? "observation" payload else none
  let providerEvent := (ofKind "runtime_event" providerObservation).bind (objectField? "event")
  let workerEvent := objectField? "event" payload
  let agentEvent := (ofKind "agent_event" workerEvent).bind (objectField? "event")
  let path (event : Option Json) (keys : List String) : Option Json :=
    keys.foldl (fun value key => value.bind (Json.field? key)) event
  match field with
  | .task => none
  | .message =>
    if (ofKind "assistant_progress" providerEvent).isSome then path providerEvent ["text"]
    else if (ofKind "model_result" providerEvent).isSome then path providerEvent ["result", "text"]
    else path (ofKind "steering_message" agentEvent) ["message", "content", "text"]
  | .thinking => path (ofKind "assistant_thinking" agentEvent) ["text"]
  | .toolArguments =>
    if (ofKind "tool_call" providerEvent).isSome then path providerEvent ["call", "arguments"]
    else if (ofKind "model_result" providerEvent).isSome then
      match path providerEvent ["result", "calls"] with
      | some (.arr calls) => path calls[sourceIndex.getD 0]? ["arguments"]
      | _ => none
    else path (ofKind "tool_call" agentEvent) ["call", "arguments"]
  | .toolProgress =>
    if (ofKind "tool_progress" providerEvent).isSome then path providerEvent ["text"]
    else path (ofKind "tool_progress" agentEvent) ["text"]
  | .toolResult =>
    if (ofKind "tool_result" providerEvent).isSome then path providerEvent ["result", "text"]
    else match path (ofKind "tool_result" agentEvent) ["result", "text"] with
      | none => path (ofKind "tool_result" agentEvent) ["result", "content", "text"]
      | some .null => path (ofKind "tool_result" agentEvent) ["result", "content", "text"]
      | text => text
  | .steering =>
    if (ofKind "steer_requested" (some event)).isSome || (ofKind "steer_sent" (some event)).isSome ||
        (ofKind "steer_failed" (some event)).isSome then payload.field? "text"
    else none

/-- `#conversationFieldText`; `none` where it throws. -/
def conversationFieldText (field : ContentField) (event : Json) (sourceIndex : Option Nat) :
    Option JsText :=
  match field, conversationFieldValue field event sourceIndex with
  | .toolArguments, value => value.map stringify
  | _, some (.str text) => some text
  | _, _ => none

/-! ## Chunks -/

structure ConversationContentChunk where
  locator : ContentLocator
  offset : Nat
  totalBytes : Nat
  nextOffset : Nat
  done : Bool
  text : JsText
deriving DecidableEq

/-- The first byte from `offset` on that starts a character. -/
def chunkStart (bytes : List UInt8) (offset : Nat) : Nat :=
  offset + ((bytes.drop offset).takeWhile isContinuation).length

/-- The loop that moves the end of a chunk back. -/
def chunkEnd (bytes : List UInt8) (start : Nat) : Nat → Nat
  | 0 => 0
  | stop + 1 =>
    if start < stop + 1 && (bytes[stop + 1]?).any isContinuation then chunkEnd bytes start stop
    else stop + 1

def maxSafe : Nat := 9007199254740991

/-- The checks of the request. -/
def admitsContentRequest (locator : ContentLocator) (offset length : Nat) : Bool :=
  let reference := locator.reference
  !reference.sessionId.isEmpty && !reference.executionId.isEmpty && !reference.digest.isEmpty &&
    decide (reference.version ≤ maxSafe) && decide (reference.cut ≤ maxSafe) &&
    decide (reference.totalBytes ≤ maxSafe) && decide (offset ≤ reference.totalBytes) &&
    decide (length ≤ 256 * 1024) &&
    reference.sourceEventOrdinal.all (fun ordinal => decide (1 ≤ ordinal ∧ ordinal ≤ maxSafe)) &&
    reference.sourceIndex.all fun index => decide (index ≤ maxSafe)

/-- The text that a locator names. -/
def contentSource (rows : ContentRows) (reference : ContentReference) : Option JsText :=
  match rows.executions.find? fun row => row.executionId == reference.executionId with
  | none => none
  | some execution =>
    if execution.sessionCorrelation ≠ reference.sessionId then none
    else if reference.field = .task then
      if reference.version ≠ 0 || reference.sourceEventOrdinal.isSome then none
      else decodeUtf8 execution.task
    else match reference.sourceEventOrdinal with
      | none => none
      | some ordinal =>
        if reference.version ≠ ordinal then none
        else (rows.event reference.executionId ordinal).bind fun event =>
          conversationFieldText reference.field event reference.sourceIndex

/-- The part of `readConversationContent` after the text was found. -/
def readContentChunk (locator : ContentLocator) (bytes : List UInt8) (offset length : Nat) :
    Option ConversationContentChunk :=
  let start := chunkStart bytes offset
  let stop := chunkEnd bytes start (min bytes.length (start + length))
  (decodeUtf8 ((bytes.drop start).take (stop - start))).map fun text => {
    locator
    offset := start
    totalBytes := bytes.length
    nextOffset := stop
    done := decide (bytes.length ≤ stop)
    text }

/-- `digest` is the digest of the bytes of a text; `none` is `history_invalid`. -/
def readConversationContent (digest : List UInt8 → String) (rows : ContentRows)
    (locator : ContentLocator) (offset length : Nat) : Option ConversationContentChunk :=
  if !admitsContentRequest locator offset length then none
  else match contentSource rows locator.reference with
    | none => none
    | some source =>
      let bytes := encodeUtf8 source
      if bytes.length ≠ locator.reference.totalBytes || digest bytes ≠ locator.reference.digest then
        none
      else readContentChunk locator bytes offset length

/-! ## One chunk -/

section Chunk

variable {front back : List Nat}

/-- The bytes of `front ++ back` at an offset in `back`. -/
theorem getElem?_encode (front back : List Nat) (offset : Nat) :
    ((front ++ back).flatMap encodePoint)[(front.flatMap encodePoint).length + offset]? =
      (back.flatMap encodePoint)[offset]? := by
  rw [List.flatMap_append, List.getElem?_append_right (Nat.le_add_right _ _),
    Nat.add_sub_cancel_left]

theorem chunkStart_encode (hback : ∀ n ∈ back, isScalar n) :
    chunkStart ((front ++ back).flatMap encodePoint) (front.flatMap encodePoint).length =
      (front.flatMap encodePoint).length := by
  unfold chunkStart
  rw [List.flatMap_append, List.drop_left]
  cases hbytes : back.flatMap encodePoint with
  | nil => rfl
  | cons b bytes =>
    have hfirst : (back.flatMap encodePoint).head? = some b := by rw [hbytes, List.head?_cons]
    rw [List.takeWhile_cons, isContinuation_encode hback hfirst]
    rfl

/-- Where the window ends no character goes on. -/
theorem window_ends (hback : ∀ n ∈ back, isScalar n) (length : Nat) :
    ((back.flatMap encodePoint)[((fitting length back).flatMap encodePoint).length]?).any
      isContinuation = false := by
  obtain ⟨rest, hrest⟩ := fitting_isFront length back
  have hrestScalar : ∀ n ∈ rest, isScalar n := fun n hmem =>
    hback n (hrest ▸ List.mem_append_right _ hmem)
  have hbyte := getElem?_encode (fitting length back) rest 0
  rw [hrest, Nat.add_zero, ← List.head?_eq_getElem?] at hbyte
  rw [hbyte]
  cases hhead : (rest.flatMap encodePoint).head? with
  | none => rfl
  | some b => exact isContinuation_encode hrestScalar hhead

/-- Between the window and the limit every character goes on. -/
theorem window_goes_on (hback : ∀ n ∈ back, isScalar n) {length stop : Nat} (hstop : stop ≤ length)
    (hbytes : stop ≤ (back.flatMap encodePoint).length)
    (h : ((fitting length back).flatMap encodePoint).length < stop) :
    ((back.flatMap encodePoint)[stop]?).any isContinuation = true := by
  by_contra hnot
  have hcut : ∀ b, (back.flatMap encodePoint)[stop]? = some b → isContinuation b = false := by
    intro b hb
    rw [hb, Option.any_some] at hnot
    exact Bool.eq_false_iff.mpr hnot
  obtain ⟨shorter, rest, hsplit, htake⟩ := cut_encode hback hcut
  have hlength : (shorter.flatMap encodePoint).length = stop := by
    rw [← htake, List.length_take, Nat.min_eq_left hbytes]
  have hfits : shorter <+: fitting length back :=
    prefix_fitting ⟨rest, hsplit.symm⟩ (Nat.le_trans (Nat.le_of_eq hlength) hstop)
  have := (encode_isFront hfits).length_le
  omega

theorem chunkEnd_encode (hback : ∀ n ∈ back, isScalar n) {length stop : Nat} (hstop : stop ≤ length)
    (hbytes : stop ≤ (back.flatMap encodePoint).length)
    (h : ((fitting length back).flatMap encodePoint).length ≤ stop) :
    chunkEnd ((front ++ back).flatMap encodePoint) (front.flatMap encodePoint).length
        ((front.flatMap encodePoint).length + stop) =
      ((front ++ fitting length back).flatMap encodePoint).length := by
  have hlength : ((front ++ fitting length back).flatMap encodePoint).length =
      (front.flatMap encodePoint).length + ((fitting length back).flatMap encodePoint).length := by
    rw [List.flatMap_append, List.length_append]
  -- the end moves back to the window and no further
  induction stop with
  | zero =>
    rw [hlength, Nat.le_zero.mp h, Nat.add_zero]
    cases (front.flatMap encodePoint).length with
    | zero => rfl
    | succ start =>
      unfold chunkEnd
      rw [if_neg (by simp)]
  | succ stop ih =>
    rw [← Nat.add_assoc, chunkEnd, Nat.add_assoc, getElem?_encode]
    by_cases heq : ((fitting length back).flatMap encodePoint).length = stop + 1
    · have hends := window_ends hback length
      rw [heq] at hends
      rw [hends, Bool.and_false, if_neg Bool.false_ne_true, hlength, heq]
    · have hgoes := window_goes_on hback hstop hbytes (by omega)
      rw [hgoes, Bool.and_true, if_pos (decide_eq_true (by omega))]
      exact ih (by omega) (by omega) (by omega)

/-- The read from between two characters. -/
theorem readContentChunk_encode (hscalar : ∀ n ∈ front ++ back, isScalar n)
    (locator : ContentLocator) (length : Nat) :
    readContentChunk locator ((front ++ back).flatMap encodePoint)
        (front.flatMap encodePoint).length length = some {
      locator
      offset := (front.flatMap encodePoint).length
      totalBytes := ((front ++ back).flatMap encodePoint).length
      nextOffset := ((front ++ fitting length back).flatMap encodePoint).length
      done := decide ((fitting length back).length = back.length)
      text := (dropMark (fitting length back)).flatMap pointUnits } := by
  have hback : ∀ n ∈ back, isScalar n := fun n hmem => hscalar n (List.mem_append_right _ hmem)
  have hfitting := fitting_isFront length back
  have hbytes := (encode_isFront hfitting).length_le
  have hwindow := length_fitting_le length back
  have hend : chunkEnd ((front ++ back).flatMap encodePoint) (front.flatMap encodePoint).length
      (min ((front ++ back).flatMap encodePoint).length
        ((front.flatMap encodePoint).length + length)) =
      ((front ++ fitting length back).flatMap encodePoint).length := by
    have hmin : min ((front ++ back).flatMap encodePoint).length
        ((front.flatMap encodePoint).length + length) = (front.flatMap encodePoint).length +
          min (back.flatMap encodePoint).length length := by
      rw [List.flatMap_append, List.length_append]
      omega
    rw [hmin]
    exact chunkEnd_encode hback (Nat.min_le_right _ _) (Nat.min_le_left _ _)
      (Nat.le_min.mpr ⟨hbytes, hwindow⟩)
  have hselected : (((front ++ back).flatMap encodePoint).drop
      (front.flatMap encodePoint).length).take
        (((front ++ fitting length back).flatMap encodePoint).length -
          (front.flatMap encodePoint).length) = (fitting length back).flatMap encodePoint := by
    have hlength : ((front ++ fitting length back).flatMap encodePoint).length -
        (front.flatMap encodePoint).length =
          ((fitting length back).flatMap encodePoint).length := by
      rw [List.flatMap_append, List.length_append, Nat.add_sub_cancel_left]
    rw [hlength, List.flatMap_append, List.drop_left]
    exact (List.prefix_iff_eq_take.mp (encode_isFront hfitting)).symm
  have hdone : ((front ++ back).flatMap encodePoint).length ≤
      ((front ++ fitting length back).flatMap encodePoint).length ↔
        (fitting length back).length = back.length := by
    rw [List.flatMap_append, List.flatMap_append, List.length_append, List.length_append]
    constructor
    · intro hle
      exact congrArg List.length (eq_of_encode_length hfitting (by omega))
    · intro heq
      exact Nat.le_of_eq (by rw [hfitting.eq_of_length heq])
  unfold readContentChunk
  dsimp only
  rw [chunkStart_encode hback, hend, hselected,
    decodeUtf8_encode fun n hmem => hback n (hfitting.subset hmem), Option.map_some]
  rw [decide_eq_decide.mpr hdone]

end Chunk

/-! ## Reading on -/

/-- The chunks of reads from an offset and then from each returned offset, to one that is done. -/
def ReadsOn (read : Nat → Option ConversationContentChunk) :
    Nat → List ConversationContentChunk → Prop
  | _, [] => False
  | offset, chunk :: chunks => read offset = some chunk ∧
    if chunk.done then chunks = []
    else offset < chunk.nextOffset ∧ ReadsOn read chunk.nextOffset chunks

/-- An offset between two characters of a text. -/
def CharacterBoundary (source : JsText) (offset : Nat) : Prop :=
  ∃ front back, codePoints source = front ++ back ∧ offset = (front.flatMap encodePoint).length

/-- A locator that names a text of the history. -/
structure Locates (digest : List UInt8 → String) (rows : ContentRows) (locator : ContentLocator)
    (source : JsText) : Prop where
  admitted : admitsContentRequest locator 0 0 = true
  found : contentSource rows locator.reference = some source
  totalBytes : (encodeUtf8 source).length = locator.reference.totalBytes
  digest : digest (encodeUtf8 source) = locator.reference.digest

/-- Reading from 0 goes on to the end in whole characters and gives the text. -/
structure ReadsBack (read : Nat → Option ConversationContentChunk) (source : JsText)
    (chunks : List ConversationContentChunk) : Prop where
  reads : ReadsOn read 0 chunks
  boundaries : ∀ chunk ∈ chunks,
    CharacterBoundary source chunk.offset ∧ CharacterBoundary source chunk.nextOffset
  text : (chunks.map ConversationContentChunk.text).flatten = source

/-- The windows that reads of a length cut from a text. -/
def contentWindows (length : Nat) (points : List Nat) : List (List Nat) :=
  splitWindows (List.replicate (points.length + 1) length) points

section Reads

variable {digest : List UInt8 → String} {rows : ContentRows} {locator : ContentLocator}
  {source : JsText} {length : Nat} {front back : List Nat}

theorem ReadsOn.unique {read : Nat → Option ConversationContentChunk} {offset : Nat}
    {chunks chunks' : List ConversationContentChunk} (h : ReadsOn read offset chunks)
    (h' : ReadsOn read offset chunks') : chunks' = chunks := by
  induction chunks generalizing offset chunks' with
  | nil => exact h.elim
  | cons chunk chunks ih =>
    cases chunks' with
    | nil => exact h'.elim
    | cons chunk' chunks' =>
      obtain ⟨hread, hrest⟩ := h
      obtain ⟨hread', hrest'⟩ := h'
      rw [hread] at hread'
      cases hread'
      split at hrest
      · next hdone =>
        rw [if_pos hdone] at hrest'
        rw [hrest, hrest']
      · next hmore =>
        rw [if_neg hmore] at hrest'
        rw [ih hrest.2 hrest'.2]

/-- The chunk between `front` and `back`. -/
def chunkAt (locator : ContentLocator) (length : Nat) (front back : List Nat) :
    ConversationContentChunk where
  locator := locator
  offset := (front.flatMap encodePoint).length
  totalBytes := ((front ++ back).flatMap encodePoint).length
  nextOffset := ((front ++ fitting length back).flatMap encodePoint).length
  done := decide ((fitting length back).length = back.length)
  text := (dropMark (fitting length back)).flatMap pointUnits

theorem read_boundary (h : Locates digest rows locator source) (hlength : length ≤ 256 * 1024)
    (hsplit : codePoints source = front ++ back) :
    readConversationContent digest rows locator (front.flatMap encodePoint).length length =
      some (chunkAt locator length front back) := by
  have hbytes : encodeUtf8 source = (front ++ back).flatMap encodePoint := by
    rw [← hsplit]
    rfl
  have hoffset : (front.flatMap encodePoint).length ≤ locator.reference.totalBytes := by
    rw [← h.totalBytes, hbytes, List.flatMap_append, List.length_append]
    exact Nat.le_add_right _ _
  have hadmits : admitsContentRequest locator (front.flatMap encodePoint).length length = true := by
    have hadmitted := h.admitted
    unfold admitsContentRequest at hadmitted ⊢
    simp only [Bool.and_eq_true, decide_eq_true_eq] at hadmitted ⊢
    tauto
  unfold readConversationContent
  rw [hadmits, h.found]
  dsimp only
  rw [if_neg (by decide), if_neg (by simp [h.totalBytes, h.digest]), hbytes]
  exact readContentChunk_encode (hsplit ▸ isScalar_codePoints source) locator length

theorem next_boundary (hsplit : codePoints source = front ++ back) (length : Nat) :
    codePoints source =
      (front ++ fitting length back) ++ back.drop (fitting length back).length := by
  rw [List.append_assoc, hsplit, fitting_append_drop]

theorem reads_of_fits (h : Locates digest rows locator source) (hlength : length ≤ 256 * 1024)
    (hsplit : codePoints source = front ++ back)
    (hfits : ∀ n ∈ back, (encodePoint n).length ≤ length) {count : Nat} (hcount : back.length < count) :
    ∃ chunks, ReadsOn (readConversationContent digest rows locator · length)
        (front.flatMap encodePoint).length chunks ∧
      (∀ chunk ∈ chunks,
        CharacterBoundary source chunk.offset ∧ CharacterBoundary source chunk.nextOffset) ∧
      chunks.map ConversationContentChunk.text =
        (splitWindows (List.replicate count length) back).map fun window =>
          (dropMark window).flatMap pointUnits := by
  induction count generalizing front back with
  | zero => exact absurd hcount (Nat.not_lt_zero _)
  | succ count ih =>
    have hread := read_boundary h hlength hsplit
    have hnext := next_boundary hsplit length
    have hboundaries : CharacterBoundary source (chunkAt locator length front back).offset ∧
        CharacterBoundary source (chunkAt locator length front back).nextOffset :=
      ⟨⟨front, back, hsplit, rfl⟩, ⟨_, _, hnext, rfl⟩⟩
    rw [List.replicate_succ]
    unfold splitWindows
    dsimp only
    by_cases hdone : (fitting length back).length = back.length
    · rw [if_pos hdone]
      refine ⟨[chunkAt locator length front back], ⟨hread, ?_⟩,
        List.forall_mem_singleton.mpr hboundaries, rfl⟩
      have hlast : (chunkAt locator length front back).done = true := decide_eq_true hdone
      rw [if_pos hlast]
    · rw [if_neg hdone]
      have hne : back ≠ [] := by
        rintro rfl
        exact hdone rfl
      have hpos := List.length_pos_iff.mpr (fitting_ne_nil_of_fits hfits hne)
      have hshorter : (back.drop (fitting length back).length).length < count := by
        rw [List.length_drop]
        have := List.length_pos_iff.mpr hne
        omega
      obtain ⟨chunks, hreads, hrest, htexts⟩ := ih hnext
        (fun n hmem => hfits n (List.mem_of_mem_drop hmem)) hshorter
      refine ⟨chunkAt locator length front back :: chunks, ⟨hread, ?_⟩,
        List.forall_mem_cons.mpr ⟨hboundaries, hrest⟩, congrArg (List.cons _) htexts⟩
      have hmore : ¬ (chunkAt locator length front back).done = true := mt of_decide_eq_true hdone
      rw [if_neg hmore]
      refine ⟨?_, hreads⟩
      have hwindow := List.length_pos_iff.mpr (mt encode_eq_nil.mp (List.length_pos_iff.mp hpos))
      show (front.flatMap encodePoint).length <
        ((front ++ fitting length back).flatMap encodePoint).length
      rw [List.flatMap_append, List.length_append]
      omega

theorem fits_of_reads (h : Locates digest rows locator source) (hlength : length ≤ 256 * 1024)
    (hsplit : codePoints source = front ++ back) {chunks : List ConversationContentChunk}
    (hreads : ReadsOn (readConversationContent digest rows locator · length)
      (front.flatMap encodePoint).length chunks) :
    ∀ n ∈ back, (encodePoint n).length ≤ length := by
  induction chunks generalizing front back with
  | nil => exact hreads.elim
  | cons chunk chunks ih =>
    obtain ⟨hread, hrest⟩ := hreads
    dsimp only at hread
    rw [read_boundary h hlength hsplit] at hread
    cases hread
    split at hrest
    · next hdone =>
      have hwhole : fitting length back = back :=
        (fitting_isFront length back).eq_of_length (of_decide_eq_true hdone)
      intro n hmem
      exact fits_of_mem_fitting (hwhole.symm ▸ hmem)
    · next hmore =>
      intro n hmem
      rw [← fitting_append_drop length back] at hmem
      obtain hmem | hmem := List.mem_append.mp hmem
      · exact fits_of_mem_fitting hmem
      · exact ih (next_boundary hsplit length) hrest.2 n hmem

/-- What the windows of a text come back as. -/
theorem flatten_texts (hfits : ∀ n ∈ codePoints source, (encodePoint n).length ≤ length) :
    ((contentWindows length (codePoints source)).map fun window =>
        (dropMark window).flatMap pointUnits).flatten = source ↔
      hasWellFormedUnicode source = true ∧
        ∀ window ∈ contentWindows length (codePoints source), window.head? ≠ some 0xfeff := by
  have hwindows : (contentWindows length (codePoints source)).flatten = codePoints source :=
    flatten_splitWindows_of_fits
      (fun _ hmem => (List.eq_of_mem_replicate hmem).symm ▸ hfits)
      (by rw [List.length_replicate]; exact Nat.lt_succ_self _)
  have hunits : ((contentWindows length (codePoints source)).map fun window =>
      (dropMark window).flatMap pointUnits).flatten =
        ((contentWindows length (codePoints source)).map dropMark).flatten.flatMap pointUnits := by
    rw [List.flatMap_def, List.map_flatten, List.flatten_flatten, List.map_map, List.map_map]
    rfl
  have hscalar : ∀ n ∈ ((contentWindows length (codePoints source)).map dropMark).flatten,
      isScalar n := by
    intro n hmem
    obtain ⟨marked, hmarked, hn⟩ := List.mem_flatten.mp hmem
    obtain ⟨window, hwindow, rfl⟩ := List.mem_map.mp hmarked
    refine isScalar_codePoints source n (hwindows ▸ List.mem_flatten.mpr ⟨window, hwindow, ?_⟩)
    exact (dropMark_suffix window).subset hn
  rw [hunits, ← flatten_map_dropMark]
  constructor
  · intro heq
    obtain ⟨hpoints, hwell⟩ := codePoints_units hscalar
    rw [heq] at hpoints hwell
    exact ⟨hwell, hpoints.symm.trans hwindows.symm⟩
  · rintro ⟨hwell, hmarks⟩
    rw [hmarks, hwindows]
    exact units_codePoints hwell

/-- Reading on from 0 gives a text back exactly if every character fits in the length, the text has
no unpaired surrogate and no window starts with a byte order mark. -/
theorem content_reads_back (digest : List UInt8 → String) (rows : ContentRows)
    (locator : ContentLocator) (source : JsText) (length : Nat)
    (h : Locates digest rows locator source) (hlength : 1 ≤ length ∧ length ≤ 262144) :
    (∃ chunks, ReadsBack (readConversationContent digest rows locator · length) source chunks) ↔
      hasWellFormedUnicode source = true ∧
      (∀ n ∈ codePoints source, (encodePoint n).length ≤ length) ∧
      ∀ window ∈ contentWindows length (codePoints source), window.head? ≠ some 0xfeff := by
  have hsplit : codePoints source = [] ++ codePoints source := rfl
  constructor
  · rintro ⟨chunks, hreads, -, htext⟩
    have hfits := fits_of_reads h hlength.2 hsplit hreads
    obtain ⟨chunks', hreads', -, htexts⟩ :=
      reads_of_fits h hlength.2 hsplit hfits (Nat.lt_succ_self _)
    rw [hreads.unique hreads'] at htexts
    rw [htexts] at htext
    obtain ⟨hwell, hmarks⟩ := (flatten_texts hfits).mp htext
    exact ⟨hwell, hfits, hmarks⟩
  · rintro ⟨hwell, hfits, hmarks⟩
    obtain ⟨chunks, hreads, hboundaries, htexts⟩ :=
      reads_of_fits h hlength.2 hsplit hfits (Nat.lt_succ_self _)
    exact ⟨chunks, hreads, hboundaries, htexts ▸ (flatten_texts hfits).mpr ⟨hwell, hmarks⟩⟩

end Reads

/-! ## Two tasks -/

/-- The row of an execution with a task. -/
def taskRows (task : JsText) : ContentRows where
  executions := [⟨"e", "s", encodeUtf8 task⟩]
  semanticRecords := []
  assistantTextStates := []

def lengthDigest (bytes : List UInt8) : String := toString bytes.length

def taskLocator (totalBytes : Nat) : ContentLocator where
  reference := {
    sessionId := "s"
    executionId := "e"
    field := .task
    digest := toString totalBytes
    version := 0
    cut := 0
    totalBytes := totalBytes
    sourceEventOrdinal := none
    sourceIndex := none }
  entityId := .taskMessage "e"

/-- "aä€". -/
def mixedTask : JsText := [0x61, 0xe4, 0x20ac]

theorem content_reads_back_mixed :
    ∃ chunks, ReadsBack (readConversationContent lengthDigest (taskRows mixedTask) (taskLocator 6) · 3)
      mixedTask chunks :=
  (content_reads_back lengthDigest (taskRows mixedTask) (taskLocator 6) mixedTask 3
    ⟨by decide +kernel, by decide +kernel, by decide +kernel, by decide +kernel⟩
    ⟨by decide, by decide⟩).mpr (by decide +kernel)

/-- In chunks of one byte the read stays before "ä". -/
theorem character_stuck :
    ¬ ∃ chunks, ReadsBack
      (readConversationContent lengthDigest (taskRows mixedTask) (taskLocator 6) · 1) mixedTask
        chunks := by
  rintro ⟨chunks, hreads, -, -⟩
  have hlocates : Locates lengthDigest (taskRows mixedTask) (taskLocator 6) mixedTask :=
    ⟨by decide +kernel, by decide +kernel, by decide +kernel, by decide +kernel⟩
  have hsplit : codePoints mixedTask = [] ++ codePoints mixedTask := rfl
  have hfits := fits_of_reads hlocates (by decide) hsplit hreads
  exact absurd hfits (by decide +kernel)

end Henji
