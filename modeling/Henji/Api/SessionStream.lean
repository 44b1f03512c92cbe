import Henji.Library.JsonShape
import Henji.Library.TextDecoder

/-!
# The stream of session events

The server writes each frame as one `data` line of JSON and an empty line. The client decodes the
bytes as they come, searches the text it holds for an empty line, and parses what stands before it;
at the end of the body it parses the rest.

Left out: the request and its status, and the cancellation of the reader. `JSON.parse` and
`decodeSessionStreamFrame` are parameters of the client.
-/

namespace Henji.SessionStream

/-! ## The server -/

def encodedEnvelope (head : JsText) (payload : List UInt8) (tail : JsText) : List UInt8 :=
  encodeUtf8 head ++ payload ++ encodeUtf8 tail

/-- The fields of a record that has some. -/
structure Fields where
  list : List (JsText × Json)
  nonempty : list ≠ []

/-- A snapshot has the fields of `control` and the conversation; the conversation and the delta come
from Data as encoded JSON. -/
inductive Frame where
  | snapshot (control : Fields) (conversation : Json)
  | update (cursor previousRevision : Json) (changes : List Json) (delta : Option Json)

/-- `encoder.encode(JSON.stringify(value))`. -/
def encode (value : Json) : List UInt8 := encodeUtf8 (stringify value)

/-- `text.slice(0, -1)`. -/
def withoutLast (text : JsText) : JsText := text.take (text.length - 1)

def encodedSessionSnapshotFrame (control : Fields) (conversation : List UInt8) : List UInt8 :=
  encodedEnvelope (js "\x7b\"kind\":\"session.snapshot\",\"snapshot\":" ++
      withoutLast (stringify (.obj control.list)) ++ js ",\"conversation\":")
    conversation (js "\x7d\x7d")

def updateFields (cursor previousRevision : Json) (changes : List Json) : List (JsText × Json) :=
  [(js "kind", .str (js "session.update")), (js "cursor", cursor),
    (js "previousRevision", previousRevision), (js "changes", .arr changes)]

def encodedSessionUpdate (cursor previousRevision : Json) (changes : List Json)
    (delta : Option (List UInt8)) : List UInt8 :=
  let small := stringify (.obj (updateFields cursor previousRevision changes))
  match delta with
  | none => encodeUtf8 small
  | some delta => encodedEnvelope (withoutLast small ++ js ",\"conversationDelta\":") delta (js "\x7d")

def Frame.bytes : Frame → List UInt8
  | .snapshot control conversation => encodedSessionSnapshotFrame control (encode conversation)
  | .update cursor previousRevision changes delta =>
    encodedSessionUpdate cursor previousRevision changes (delta.map encode)

def sseFrame (value : List UInt8) : List UInt8 := encodedEnvelope (js "data: ") value (js "\n\n")

/-- The value that the bytes of a frame are the text of. -/
def Frame.value : Frame → Json
  | .snapshot control conversation => .obj [(js "kind", .str (js "session.snapshot")),
      (js "snapshot", .obj (control.list ++ [(js "conversation", conversation)]))]
  | .update cursor previousRevision changes delta => .obj
      (updateFields cursor previousRevision changes ++
        (delta.map fun delta => (js "conversationDelta", delta)).toList)

/-! ## The client -/

/-- The length of a match of `\r?\n` at the start of a text. -/
def breakAt : JsText → Option Nat
  | 0x0a :: _ => some 1
  | 0x0d :: 0x0a :: _ => some 2
  | _ => none

/-- The length of a match of `\r?\n\r?\n` at the start of a text. -/
def separatorAt (text : JsText) : Option Nat :=
  match breakAt text with
  | none => none
  | some first => (breakAt (text.drop first)).map (first + ·)

def searchFrom : JsText → Nat → Option (Nat × Nat)
  | [], _ => none
  | u :: text, index =>
    match separatorAt (u :: text) with
    | some length => some (index, length)
    | none => searchFrom text (index + 1)

/-- `separator.exec(buffered)` with `lastIndex`: the index and the length of the first match. -/
def execSeparator (buffered : JsText) (lastIndex : Nat) : Option (Nat × Nat) :=
  searchFrom (buffered.drop lastIndex) lastIndex

/-- `chunk.split(/\r?\n/u)`. -/
def splitLines : JsText → List JsText
  | [] => [[]]
  | 0x0a :: text => [] :: splitLines text
  | 0x0d :: 0x0a :: text => [] :: splitLines text
  | u :: text =>
    match splitLines text with
    | [] => [[u]]
    | line :: lines => (u :: line) :: lines

def dataOf (line : JsText) : Option JsText :=
  if js "data:" <+: line then
    let data := line.drop 5
    some (if data.head? = some 0x20 then data.drop 1 else data)
  else none

section Client

variable {φ : Type} (parse : JsText → Option Json) (decodeSessionStreamFrame : Json → Option φ)

/-- The frame of a chunk, if it has one; an error is `HTTP API returned an invalid SSE frame`. -/
def parseFrame (chunk : JsText) : Except Unit (Option φ) :=
  match (splitLines chunk).filterMap dataOf with
  | [] => .ok none
  | data =>
    match (parse ((data.intersperse [0x0a]).flatten)).bind decodeSessionStreamFrame with
    | some frame => .ok (some frame)
    | none => .error ()

theorem breakAt_bounds {text : JsText} {length : Nat} (h : breakAt text = some length) :
    0 < length ∧ length ≤ 2 ∧ length ≤ text.length := by
  unfold breakAt at h
  split at h <;> cases h <;> simp

theorem separatorAt_bounds {text : JsText} {length : Nat} (h : separatorAt text = some length) :
    2 ≤ length ∧ length ≤ text.length := by
  unfold separatorAt at h
  split at h
  · cases h
  · next first hfirst =>
    obtain ⟨second, hsecond, rfl⟩ := Option.map_eq_some_iff.mp h
    have hlow := breakAt_bounds hfirst
    have hhigh := breakAt_bounds hsecond
    rw [List.length_drop] at hhigh
    omega

theorem searchFrom_bounds {text : JsText} {start index length : Nat}
    (h : searchFrom text start = some (index, length)) :
    start ≤ index ∧ index + length ≤ start + text.length ∧ 2 ≤ length := by
  induction text generalizing start with
  | nil => cases h
  | cons u text ih =>
    unfold searchFrom at h
    split at h
    · next found hfound =>
      cases h
      obtain ⟨hlow, hhigh⟩ := separatorAt_bounds hfound
      exact ⟨Nat.le_refl _, Nat.add_le_add_left hhigh _, hlow⟩
    · obtain ⟨hlow, hhigh, hlength⟩ := ih h
      rw [List.length_cons]
      omega

/-- The frames before each separator, and the text behind the last one; none where a frame is
refused. -/
def takeFrames (buffered : JsText) (lastIndex : Nat) : List φ × Option JsText :=
  match _hfound : execSeparator buffered lastIndex with
  | none => ([], some buffered)
  | some (index, length) =>
    match parseFrame parse decodeSessionStreamFrame (buffered.take index) with
    | .error _ => ([], none)
    | .ok frame =>
      let (frames, rest) := takeFrames (buffered.drop (index + length)) 0
      (frame.toList ++ frames, rest)
termination_by buffered.length
decreasing_by
  obtain ⟨hlow, hhigh, hlength⟩ := searchFrom_bounds _hfound
  rw [List.length_drop] at hhigh ⊢
  omega

/-- How a stream ends for its reader. -/
inductive StreamEnd where
  | ended
  | threw
deriving DecidableEq, Repr

/-- How the body ends: it is done, or a read fails. -/
inductive BodyEnd where
  | done
  | failed
deriving DecidableEq, Repr

/-- The frames that are yielded for the chunks of a body. -/
def sessionSubscribe (ending : BodyEnd) :
    List (List UInt8) → TextDecoder → JsText → Nat → List φ × StreamEnd
  | [], decoder, buffered, scanFrom =>
    match ending with
    | .failed => ([], .threw)
    | .done =>
      match takeFrames parse decodeSessionStreamFrame (buffered ++ decoder.finish) scanFrom with
      | (frames, none) => (frames, .threw)
      | (frames, some rest) =>
        match parseFrame parse decodeSessionStreamFrame rest with
        | .error _ => (frames, .threw)
        | .ok frame => (frames ++ frame.toList, .ended)
  | value :: chunks, decoder, buffered, scanFrom =>
    let (text, decoder) := decoder.decode value
    match takeFrames parse decodeSessionStreamFrame (buffered ++ text) scanFrom with
    | (frames, none) => (frames, .threw)
    | (frames, some rest) =>
      let (others, outcome) := sessionSubscribe ending chunks decoder rest (rest.length - 3)
      (frames ++ others, outcome)

end Client

end Henji.SessionStream
