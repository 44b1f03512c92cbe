import Henji.Library.Utf8Stream

/-!
# A decoder that replaces malformed bytes

`TextDecoder` without `fatal`: it is fed chunk by chunk, tells U+FFFD for malformed bytes and drops a
byte order mark at the start of its stream.

Results:
1. `run_step`: it tells what a decoder without byte order marks tells, less a leading one.
2. `decode_front`, `decode_whole`: what it tells of an encoded text and of a front of one.
-/

namespace Henji

/-- `new TextDecoder()`: malformed bytes become U+FFFD, and a leading byte order mark is dropped. -/
structure TextDecoder where
  pending : PendingPoint
  started : Bool

namespace TextDecoder

def start : TextDecoder := ⟨.ready, false⟩

def tell (started : Bool) (pending : PendingPoint) (points : List Nat) : List Nat × TextDecoder :=
  if started ∨ points = [] then (points, ⟨pending, started⟩)
  else (dropMark points, ⟨pending, true⟩)

def step : Mealy TextDecoder UInt8 Nat := fun byte decoder =>
  let (outputs, pending) := PendingPoint.step byte decoder.pending
  tell decoder.started pending (replaced outputs)

/-- `decoder.decode(value, { stream: true })`. -/
def decode (bytes : List UInt8) (decoder : TextDecoder) : JsText × TextDecoder :=
  let (points, decoder) := Mealy.run step bytes decoder
  (points.flatMap pointUnits, decoder)

/-- `decoder.decode(undefined, { stream: false })`. -/
def finish (decoder : TextDecoder) : JsText :=
  (tell decoder.started .ready (replaced decoder.pending.flush)).1.flatMap pointUnits

/-- `new TextDecoder().decode(bytes)`. -/
def decodeAll (bytes : List UInt8) : JsText :=
  let (text, decoder) := start.decode bytes
  text ++ decoder.finish

/-- `decode(bytes, { stream: true })` of a decoder with `fatal: true`; `none` where it throws. -/
def decodeFatal (bytes : List UInt8) (decoder : TextDecoder) : Option (JsText × TextDecoder) :=
  let (outputs, pending) := Mealy.run PendingPoint.step bytes decoder.pending
  if outputs.all Option.isSome then
    let (points, decoder) := tell decoder.started pending (replaced outputs)
    some (points.flatMap pointUnits, decoder)
  else none

/-! ## What is told -/

theorem dropMark_append {points : List Nat} (h : points ≠ []) (others : List Nat) :
    dropMark (points ++ others) = dropMark points ++ others := by
  cases points with
  | nil => exact absurd rfl h
  | cons point points =>
    rw [List.cons_append]
    unfold dropMark
    split
    · next heq =>
      cases heq
      rfl
    · next hmark =>
      split
      · next heq =>
        cases heq
        exact absurd rfl (hmark _)
      · rfl

theorem tell_pending (started : Bool) (pending : PendingPoint) (points : List Nat) :
    (tell started pending points).2 =
      ⟨pending, (tell started pending points).2.started⟩ := by
  unfold tell
  split <;> rfl

theorem tell_append (started : Bool) (earlier pending : PendingPoint) (points others : List Nat) :
    tell started pending (points ++ others) =
      ((tell started earlier points).1 ++
        (tell (tell started earlier points).2.started pending others).1,
      (tell (tell started earlier points).2.started pending others).2) := by
  cases started with
  | true => rfl
  | false =>
    by_cases hpoints : points = []
    · rw [hpoints]
      rfl
    · have hfirst : tell false earlier points = (dropMark points, ⟨earlier, true⟩) :=
        if_neg (by simp [hpoints])
      have hboth : tell false pending (points ++ others) =
          (dropMark (points ++ others), ⟨pending, true⟩) :=
        if_neg (by simp [hpoints])
      rw [hfirst, hboth, dropMark_append hpoints]
      rfl

/-- The decoder tells what a decoder without byte order marks tells, less a leading one. -/
theorem run_step (bytes : List UInt8) (pending : PendingPoint) (started : Bool) :
    Mealy.run step bytes ⟨pending, started⟩ =
      tell started (Mealy.run PendingPoint.step bytes pending).2
        (replaced (Mealy.run PendingPoint.step bytes pending).1) := by
  induction bytes generalizing pending started with
  | nil => cases started <;> rfl
  | cons byte bytes ih =>
    have hstep : step byte ⟨pending, started⟩ =
        tell started (PendingPoint.step byte pending).2
          (replaced (PendingPoint.step byte pending).1) := rfl
    have hreplaced : ∀ first second : List (Option Nat),
        replaced (first ++ second) = replaced first ++ replaced second := fun _ _ =>
      List.map_append
    rw [Mealy.run_cons, Mealy.run_cons, hstep, hreplaced,
      tell_append started (PendingPoint.step byte pending).2, tell_pending, ih]

theorem decode_append (first second : List UInt8) (decoder : TextDecoder) :
    decoder.decode (first ++ second) =
      ((decoder.decode first).1 ++ ((decoder.decode first).2.decode second).1,
        ((decoder.decode first).2.decode second).2) := by
  unfold decode
  rw [Mealy.run_append]
  dsimp only
  rw [List.flatMap_append]

/-- The characters that a new decoder tells. -/
def told (bytes : List UInt8) : List Nat := dropMark (replaced (PendingPoint.read bytes).1)

theorem told_start (bytes : List UInt8) : (Mealy.run step bytes start).1 = told bytes := by
  have hrun : Mealy.run step bytes start = tell false (PendingPoint.read bytes).2
      (replaced (PendingPoint.read bytes).1) := run_step bytes .ready false
  rw [hrun, told]
  unfold tell
  split
  · next hempty =>
    obtain hfalse | hempty := hempty
    · cases hfalse
    · rw [hempty]
      rfl
  · rfl

theorem decode_told (bytes : List UInt8) :
    (start.decode bytes).1 = (told bytes).flatMap pointUnits :=
  congrArg (List.flatMap pointUnits) (told_start bytes)

theorem isScalar_replaced {bytes : List UInt8} {n : Nat}
    (h : n ∈ replaced (PendingPoint.read bytes).1) : isScalar n := by
  obtain ⟨left, htells⟩ := PendingPoint.tells_read bytes
  obtain ⟨output, houtput, rfl⟩ := List.mem_map.mp h
  cases output with
  | none => exact .inr ⟨by decide, by decide⟩
  | some point => exact htells.scalar point houtput

theorem isScalar_told {bytes : List UInt8} {n : Nat} (h : n ∈ told bytes) : isScalar n :=
  isScalar_replaced ((dropMark_suffix _).subset h)

theorem told_append (first second : List UInt8) : told first <+: told (first ++ second) := by
  rw [← told_start, ← told_start, Mealy.run_append]
  exact List.prefix_append _ _

theorem told_isPrefix {first bytes : List UInt8} (h : first <+: bytes) :
    told first <+: told bytes := by
  obtain ⟨second, rfl⟩ := h
  exact told_append first second

theorem length_encode_replaced (outputs : List (Option Nat)) (h : none ∉ outputs) :
    ((replaced outputs).flatMap encodePoint).length = (outputs.map PendingPoint.size).sum := by
  induction outputs with
  | nil => rfl
  | cons output outputs ih =>
    rw [List.mem_cons, not_or] at h
    obtain ⟨point, rfl⟩ := Option.ne_none_iff_exists'.mp fun heq => h.1 heq.symm
    have hcons : replaced (some point :: outputs) = point :: replaced outputs := rfl
    rw [hcons, List.flatMap_cons, List.length_append, ih h.2, List.map_cons, List.sum_cons]
    rfl

/-- Where no byte is malformed, only a mark and the last bytes are not told. -/
theorem length_le_told {bytes : List UInt8} (h : none ∉ (PendingPoint.read bytes).1) :
    bytes.length ≤ ((told bytes).flatMap encodePoint).length + 6 := by
  obtain ⟨left, htells⟩ := PendingPoint.tells_read bytes
  have hleft := htells.holds.le_three
  have hwhole := htells.whole h
  have hsize := length_encode_replaced _ h
  have hmark := length_encode_le_dropMark (replaced (PendingPoint.read bytes).1)
  rw [told]
  omega

/-- A fatal decoder that does not throw tells what another one does. -/
theorem decodeFatal_some {bytes : List UInt8} {decoder next : TextDecoder} {text : JsText}
    (h : decoder.decodeFatal bytes = some (text, next)) : decoder.decode bytes = (text, next) ∧
      none ∉ (Mealy.run PendingPoint.step bytes decoder.pending).1 := by
  unfold decodeFatal at h
  dsimp only at h
  split at h
  · next hall =>
    have hrun := run_step bytes decoder.pending decoder.started
    refine ⟨?_, fun hnone => absurd (List.all_eq_true.mp hall none hnone) Bool.false_ne_true⟩
    rw [← Option.some.inj h]
    unfold decode
    rw [hrun]
  · cases h

/-- More bytes than two characters take tell something. -/
theorem told_ne_nil {bytes : List UInt8} (h : 7 < bytes.length) : told bytes ≠ [] := by
  obtain ⟨left, htells⟩ := PendingPoint.tells_read bytes
  have hleft := htells.holds.le_three
  have hfew := htells.few
  have hmany : 1 < (replaced (PendingPoint.read bytes).1).length := by
    rw [replaced, List.length_map]
    omega
  intro hnil
  rw [told] at hnil
  unfold dropMark at hnil
  split at hnil
  · next heq =>
    rw [heq, hnil] at hmany
    exact absurd hmany (by decide)
  · rw [hnil] at hmany
    exact absurd hmany (by decide)

/-- A cut character leaves at most one mark. -/
theorem finish_cases (decoder : TextDecoder) : decoder.finish = [] ∨ decoder.finish = [0xfffd] := by
  obtain ⟨pending, started⟩ := decoder
  unfold finish PendingPoint.flush
  dsimp only
  split <;> cases started
  · exact .inl rfl
  · exact .inl rfl
  · exact .inr rfl
  · exact .inr rfl

theorem tell_front {text : JsText} (hstart : text.head? ≠ some 0xfeff) {told : List Nat}
    (htold : told.flatMap pointUnits <+: text) (pending : PendingPoint) :
    (tell false pending told).1 = told := by
  cases told with
  | nil => rfl
  | cons point told =>
    show dropMark (point :: told) = point :: told
    unfold dropMark
    split
    · next heq =>
      cases heq
      obtain ⟨rest, hrest⟩ := htold
      rw [← hrest] at hstart
      exact absurd rfl hstart
    · rfl

theorem decode_start (bytes : List UInt8) {told : List Nat}
    (h : (PendingPoint.read bytes).1 = told.map some) :
    start.decode bytes =
      ((tell false (PendingPoint.read bytes).2 told).1.flatMap pointUnits,
        (tell false (PendingPoint.read bytes).2 told).2) := by
  have hreplaced : replaced (told.map some) = told := by
    unfold replaced
    rw [List.map_map]
    exact List.map_id told
  have hrun : Mealy.run step bytes .start =
      tell false (PendingPoint.read bytes).2 (replaced (PendingPoint.read bytes).1) :=
    run_step bytes .ready false
  unfold decode
  rw [hrun, h, hreplaced]

/-- The text that a client has decoded of a front of a stream. -/
theorem decode_front {text : JsText} (hwell : hasWellFormedUnicode text = true)
    (hstart : text.head? ≠ some 0xfeff) {bytes : List UInt8} (hbytes : bytes <+: encodeUtf8 text) :
    (start.decode bytes).1 <+: text := by
  obtain ⟨told, ⟨rest, hrest⟩, houtputs⟩ := PendingPoint.read_front (isScalar_codePoints text) hbytes
  have hunits : told.flatMap pointUnits <+: text := by
    refine ⟨rest.flatMap pointUnits, ?_⟩
    rw [← List.flatMap_append, hrest, units_codePoints hwell]
  rw [decode_start bytes houtputs]
  dsimp only
  rw [tell_front hstart hunits]
  exact hunits

/-- The text of a whole stream. -/
theorem decode_whole {text : JsText} (hwell : hasWellFormedUnicode text = true)
    (hstart : text.head? ≠ some 0xfeff) :
    (start.decode (encodeUtf8 text)).1 = text ∧
      (start.decode (encodeUtf8 text)).2.finish = [] := by
  have hread : PendingPoint.read (encodeUtf8 text) = ((codePoints text).map some, .ready) :=
    PendingPoint.read_encode (isScalar_codePoints text)
  have hunits := units_codePoints hwell
  have hfront : (codePoints text).flatMap pointUnits <+: text :=
    ⟨[], by rw [List.append_nil, hunits]⟩
  rw [decode_start (encodeUtf8 text) (congrArg Prod.fst hread), hread]
  dsimp only
  rw [tell_front hstart hfront, tell_pending]
  refine ⟨hunits, ?_⟩
  cases (tell false .ready (codePoints text)).2.started <;> rfl

end TextDecoder

end Henji
