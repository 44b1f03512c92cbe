import Henji.Library.Utf8Windows
import Henji.Tools.BashContents

/-!
# Reading output back

A read of a finished command is a function of what the stream holds. Reading on from each returned
offset cuts the stream into windows of whole characters.

Results:
1. `decodablePrefix_encode`: the trimmed window is the longest one of whole characters that fits.
2. `run_read`: a read is `readContent` of the stream.
3. `readWindows_spec`: the windows cover the stream, each within its limit, and a window whose first
   character is U+FEFF comes back without it.
-/

namespace Henji

/-- The loop of `read` stops at the longest front of whole characters. -/
theorem decodablePrefix_encode {points : List Nat} (hpoints : ∀ n ∈ points, isScalar n)
    {limit length : Nat} (hlimit : length ≤ limit)
    (hlength : ((fitting limit points).flatMap encodePoint).length ≤ length) :
    decodablePrefix ((points.flatMap encodePoint).take limit) length =
      (fitting limit points).flatMap encodePoint := by
  have hfitting := fitting_isFront limit points
  have hscalar : ∀ n ∈ fitting limit points, isScalar n := fun n hmem =>
    hpoints n (hfitting.subset hmem)
  induction length with
  | zero =>
    unfold decodablePrefix
    exact (List.length_eq_zero_iff.mp (Nat.le_zero.mp hlength)).symm
  | succ length ih =>
    unfold decodablePrefix
    rw [List.take_take, Nat.min_eq_left hlimit]
    split
    · next hdecodes =>
      -- the bytes are the encoding of a front, and none is longer
      obtain ⟨front, hfront, hencode⟩ := points_of_decodes hpoints hdecodes
      have hle : (front.flatMap encodePoint).length ≤ limit := by
        rw [hencode, List.length_take]
        omega
      have hshort := encode_isFront (prefix_fitting hfront hle)
      have hbound := (encode_isFront hfitting).length_le
      rw [← hencode]
      refine hshort.eq_of_length_le ?_
      rw [hencode, List.length_take]
      omega
    · next hnot =>
      have hne : ((fitting limit points).flatMap encodePoint).length ≠ length + 1 := by
        intro heq
        refine hnot ?_
        rw [← heq, ← List.prefix_iff_eq_take.mp (encode_isFront hfitting), decodeUtf8_encode hscalar]
        rfl
      exact ih (by omega) (by omega)

/-! ## A read -/

/-- What a read of a stream returns. -/
def readContent (outputId : Nat) (stream : BashOutputStream) (content : List UInt8)
    (offset limit : Nat) : Except BashOutputError BashOutputWindow :=
  if content.length < offset then .error .outOfRange
  else if (content[offset]?).any isContinuation then .error .notBoundary
  else
    let selected := ByteFile.slice content offset (min limit (content.length - offset))
    let selected := if offset + selected.length < content.length then
      decodablePrefix selected selected.length else selected
    match decodeUtf8 selected with
    | none => .error .persistence
    | some text =>
      let next := offset + selected.length
      let complete := next == content.length
      .ok {
        outputId
        stream
        offset
        text
        nextOffset := if complete then none else some next
        complete
        totalBytes := content.length }

/-- The read of a stream of whole characters from between two of them. -/
theorem readContent_encode {front back : List Nat} (h : ∀ n ∈ front ++ back, isScalar n)
    (outputId : Nat) (stream : BashOutputStream) (limit : Nat) :
    readContent outputId stream ((front ++ back).flatMap encodePoint)
        (front.flatMap encodePoint).length limit = .ok {
      outputId
      stream
      offset := (front.flatMap encodePoint).length
      text := (dropMark (fitting limit back)).flatMap pointUnits
      nextOffset := if (fitting limit back).length = back.length then none
        else some ((front ++ fitting limit back).flatMap encodePoint).length
      complete := decide ((fitting limit back).length = back.length)
      totalBytes := ((front ++ back).flatMap encodePoint).length } := by
  have hback : ∀ n ∈ back, isScalar n := fun n hmem => h n (List.mem_append_right _ hmem)
  have hfitting := fitting_isFront limit back
  have hcontent : (front ++ back).flatMap encodePoint =
      front.flatMap encodePoint ++ back.flatMap encodePoint := List.flatMap_append
  have hlength : ((front ++ back).flatMap encodePoint).length =
      (front.flatMap encodePoint).length + (back.flatMap encodePoint).length := by
    rw [hcontent, List.length_append]
  have hboundary : ¬ (((front ++ back).flatMap encodePoint)[(front.flatMap
      encodePoint).length]?).any isContinuation = true := by
    rw [hcontent, List.getElem?_append_right (Nat.le_refl _), Nat.sub_self,
      ← List.head?_eq_getElem?]
    cases hhead : (back.flatMap encodePoint).head? with
    | none => exact Bool.false_ne_true
    | some b =>
      rw [Option.any_some, isContinuation_encode hback hhead]
      exact Bool.false_ne_true
  have hslice : ByteFile.slice ((front ++ back).flatMap encodePoint)
      (front.flatMap encodePoint).length (min limit (((front ++ back).flatMap encodePoint).length -
        (front.flatMap encodePoint).length)) = (back.flatMap encodePoint).take limit := by
    unfold ByteFile.slice
    rw [hlength, Nat.add_sub_cancel_left, hcontent, List.drop_left, ← List.take_take,
      List.take_length]
  -- the whole rest is trimmed to itself
  have hselected : (if (front.flatMap encodePoint).length +
      ((back.flatMap encodePoint).take limit).length <
        ((front ++ back).flatMap encodePoint).length then
      decodablePrefix ((back.flatMap encodePoint).take limit)
        ((back.flatMap encodePoint).take limit).length
      else (back.flatMap encodePoint).take limit) = (fitting limit back).flatMap encodePoint := by
    have hle := length_fitting_le limit back
    have hle' := (encode_isFront hfitting).length_le
    rw [List.length_take, hlength]
    split
    · exact decodablePrefix_encode hback (Nat.min_le_left _ _) (Nat.le_min.mpr ⟨hle, hle'⟩)
    · next hend =>
      rw [fitting_of_le (by omega), List.take_of_length_le (by omega)]
  have hnext : (front.flatMap encodePoint).length + ((fitting limit back).flatMap encodePoint).length
      = ((front ++ fitting limit back).flatMap encodePoint).length := by
    rw [List.flatMap_append, List.length_append]
  have hcomplete : ((front ++ fitting limit back).flatMap encodePoint).length =
      ((front ++ back).flatMap encodePoint).length ↔ (fitting limit back).length = back.length := by
    rw [← hnext, hlength, Nat.add_left_cancel_iff]
    exact ⟨fun heq => congrArg List.length (eq_of_encode_length hfitting heq),
      fun heq => by rw [hfitting.eq_of_length heq]⟩
  unfold readContent
  rw [if_neg (by omega), if_neg hboundary]
  dsimp only
  rw [hslice, hselected, decodeUtf8_encode fun n hmem => hback n (hfitting.subset hmem)]
  dsimp only
  rw [hnext]
  by_cases hdone : (fitting limit back).length = back.length
  · rw [beq_iff_eq.mpr (hcomplete.mpr hdone), if_pos rfl, if_pos hdone, decide_eq_true hdone]
  · rw [beq_eq_false_iff_ne.mpr (mt hcomplete.mp hdone), if_neg Bool.false_ne_true, if_neg hdone,
      decide_eq_false hdone]

namespace BashOutputStore

variable {store : BashOutputStore} {ref : Nat} {stream : BashOutputStream}
  {record : BashOutputStreamRecord}

/-- A finished stream is in the file. -/
theorem content_of_flushed (h : store.Sound) (hholds : store.Holds ref stream record)
    (hfinalized : (store.records.read ref).finalized = true) :
    store.content record = store.written record.extents := by
  unfold content
  rw [h.flushed hholds hfinalized, List.append_nil]

theorem run_checkOffset (h : store.Sound) (hholds : store.Holds ref stream record)
    (hfinalized : (store.records.read ref).finalized = true) (offset : Nat) :
    Effect.run (checkOffset record offset) store =
      (if (store.content record).length < offset then .error .outOfRange
        else if ((store.content record)[offset]?).any isContinuation then .error .notBoundary
        else .ok (), store) := by
  have hcontent := content_of_flushed h hholds hfinalized
  unfold checkOffset
  rw [h.total hholds]
  split
  · rfl
  split
  · next hle hlt =>
    have hrange : offset + 1 ≤ (store.written record.extents).length := hcontent ▸ hlt
    have hread := readRecordRange_spec h.calls h.spooled hholds hrange
    have hfirst : (ByteFile.slice (store.content record) offset 1).any isContinuation =
        ((store.content record)[offset]?).any isContinuation := by
      unfold ByteFile.slice
      rw [List.getElem?_eq_getElem hlt, List.drop_eq_getElem_cons hlt, List.take_succ_cons,
        List.take_zero, List.any_cons, List.any_nil, Bool.or_false]
      rfl
    rw [Effect.run_bind_ok hread, ← hcontent, hfirst]
    split <;> rfl
  · next hle hend =>
    have hnone : (store.content record)[offset]? = none :=
      List.getElem?_eq_none (Nat.le_of_not_lt hend)
    rw [hnone]
    rfl

theorem run_readWindow (h : store.Sound) (hholds : store.Holds ref stream record)
    (hfinalized : (store.records.read ref).finalized = true) (limit : Nat) {offset : Nat}
    (hoffset : ¬ (store.content record).length < offset)
    (hboundary : ¬ ((store.content record)[offset]?).any isContinuation = true) :
    Effect.run (readWindow ref stream record offset limit) store =
      (readContent ref stream (store.content record) offset limit, store) := by
  have hcontent := content_of_flushed h hholds hfinalized
  have hrange : offset + min limit ((store.content record).length - offset) ≤
      (store.written record.extents).length := by
    rw [← hcontent]
    omega
  have hread := readRecordRange_spec h.calls h.spooled hholds hrange
  unfold readWindow
  rw [h.total hholds, Effect.run_bind_ok hread, ← hcontent]
  unfold readContent
  rw [if_neg hoffset, if_neg hboundary]
  dsimp only
  generalize ByteFile.slice (store.content record) offset
    (min limit ((store.content record).length - offset)) = range
  generalize (if offset + range.length < (store.content record).length then
    decodablePrefix range range.length else range) = selected
  cases decodeUtf8 selected <;> rfl

/-- A read returns what the stream holds. -/
theorem run_read (h : store.Sound) (ref : Nat) (stream : BashOutputStream) (offset limit : Nat) :
    Effect.run (read ref stream offset limit) store =
      (if !store.commands.contains ref || (store.records.read ref).failed ||
          !(store.records.read ref).finalized then .error .unavailable
        else if (store.records.read ref).streams.has stream then
          readContent ref stream (store.contentOf ref stream) offset limit
        else .error .notRetained, store) := by
  unfold read
  rw [Effect.run_bind_ok (Effect.run_get store)]
  dsimp only
  split
  · rfl
  next havailable =>
  simp only [Bool.or_eq_true, Bool.not_eq_true', List.contains_eq_mem, decide_eq_false_iff_not,
    not_or, not_not, Bool.not_eq_true, Bool.not_eq_false] at havailable
  obtain ⟨⟨hmem, -⟩, hfinalized⟩ := havailable
  unfold InsMap.has
  cases hget : (store.records.read ref).streams.get? stream with
  | none => rfl
  | some record =>
    have hholds : store.Holds ref stream record := ⟨hmem, hget⟩
    have hcheck := run_checkOffset h hholds hfinalized offset
    dsimp only
    rw [contentOf_of_holds hholds, Option.isSome_some, if_pos rfl]
    split at hcheck
    · next hrange =>
      rw [Effect.run_bind_error hcheck, readContent, if_pos hrange]
    split at hcheck
    · next hrange hboundary =>
      rw [Effect.run_bind_error hcheck, readContent, if_neg hrange, if_pos hboundary]
    · next hrange hboundary =>
      rw [Effect.run_bind_ok hcheck, run_readWindow h hholds hfinalized limit hrange hboundary]

/-! ## Reading on -/

/-- Windows from `offset` on, each from where the one before ended. -/
def readWindows (outputId : Nat) (stream : BashOutputStream) :
    List Nat → Nat → Code (List BashOutputWindow)
  | [], _ => pure []
  | limit :: limits, offset => do
    let window ← read outputId stream offset limit
    match window.nextOffset with
    | none => pure [window]
    | some next => do
      let windows ← readWindows outputId stream limits next
      pure (window :: windows)

end BashOutputStore

/-- Windows that go on to the end, each within its limit. -/
structure ReadThrough (limits : List Nat) (offset : Nat) (windows : List BashOutputWindow) :
    Prop where
  within : List.Forall₂ (fun window limit => (encodeUtf8 window.text).length ≤ limit) windows
    (limits.take windows.length)
  ends : ∃ offsets, windows.map BashOutputWindow.nextOffset = offsets.map some ++ [none] ∧
    (offset :: offsets).Pairwise (· < ·)

theorem readWindows_spec {store : BashOutputStore} {ref : Nat} {stream : BashOutputStream}
    {points front back : List Nat} {limits : List Nat}
    (hread : ∀ offset limit, Effect.run (BashOutputStore.read ref stream offset limit) store =
      (readContent ref stream (points.flatMap encodePoint) offset limit, store))
    (hscalar : ∀ n ∈ points, isScalar n) (hpoints : points = front ++ back)
    (hlimits : ∀ limit ∈ limits, 4 ≤ limit) (hmany : back.length < limits.length) :
    ∃ windows, Effect.run (BashOutputStore.readWindows ref stream limits
        (front.flatMap encodePoint).length) store = (.ok windows, store) ∧
      ReadThrough limits (front.flatMap encodePoint).length windows ∧
      windows.map BashOutputWindow.text =
        (splitWindows limits back).map fun window => (dropMark window).flatMap pointUnits := by
  induction limits generalizing front back with
  | nil => exact absurd hmany (Nat.not_lt_zero _)
  | cons limit limits ih =>
    have hlimit := hlimits limit List.mem_cons_self
    have hback : ∀ n ∈ back, isScalar n := fun n hmem =>
      hscalar n (hpoints ▸ List.mem_append_right _ hmem)
    have hfitting := fitting_isFront limit back
    have hone := readContent_encode (hpoints ▸ hscalar) ref stream limit
    rw [← hpoints] at hone
    have hfits : (encodeUtf8 ((dropMark (fitting limit back)).flatMap pointUnits)).length ≤
        limit := by
      rw [encodeUtf8_units fun n hmem => hback n (hfitting.subset ((dropMark_suffix _).subset hmem))]
      exact Nat.le_trans (length_encode_dropMark_le _) (length_fitting_le limit back)
    unfold BashOutputStore.readWindows splitWindows
    rw [Effect.run_bind_ok ((hread _ limit).trans (by rw [hone]))]
    dsimp only
    by_cases hdone : (fitting limit back).length = back.length
    · rw [if_pos hdone, if_pos hdone]
      refine ⟨_, rfl, ⟨?_, [], rfl, List.pairwise_singleton _ _⟩, rfl⟩
      exact .cons hfits .nil
    · rw [if_neg hdone, if_neg hdone]
      have hne : back ≠ [] := by
        rintro rfl
        exact hdone rfl
      have hnext : points = (front ++ fitting limit back) ++ back.drop (fitting limit back).length := by
        obtain ⟨rest, hrest⟩ := hfitting
        have hdrop : back.drop (fitting limit back).length = rest := by
          have hsplit := congrArg (List.drop (fitting limit back).length) hrest
          rw [List.drop_left] at hsplit
          exact hsplit.symm
        rw [hdrop, List.append_assoc, hrest, hpoints]
      have hpos := List.length_pos_iff.mpr (fitting_ne_nil hlimit hne)
      have hshorter : (back.drop (fitting limit back).length).length < limits.length := by
        rw [List.length_drop]
        rw [List.length_cons] at hmany
        have := List.length_pos_iff.mpr hne
        omega
      obtain ⟨windows, hrun, ⟨hwithin, offsets, hoffsets, hincreasing⟩, htexts⟩ := ih hnext
        (fun other hmem => hlimits other (List.mem_cons_of_mem _ hmem)) hshorter
      refine ⟨_, (Effect.run_bind_ok hrun).trans rfl, ⟨.cons hfits hwithin,
        ((front ++ fitting limit back).flatMap encodePoint).length :: offsets, ?_, ?_⟩, ?_⟩
      · exact congrArg (List.cons _) hoffsets
      · refine List.pairwise_cons.mpr ⟨fun other hmem => ?_, hincreasing⟩
        have hlt : (front.flatMap encodePoint).length <
            ((front ++ fitting limit back).flatMap encodePoint).length := by
          have hnonempty := mt encode_eq_nil.mp (fitting_ne_nil hlimit hne)
          have := List.length_pos_iff.mpr hnonempty
          rw [List.flatMap_append, List.length_append]
          omega
        obtain rfl | hmem := List.mem_cons.mp hmem
        · exact hlt
        · exact Nat.lt_trans hlt ((List.pairwise_cons.mp hincreasing).1 other hmem)
      · exact congrArg (List.cons _) htexts

end Henji
