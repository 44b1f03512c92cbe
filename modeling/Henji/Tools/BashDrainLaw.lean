import Henji.Tools.BashCapture

/-!
# What a drain keeps

Whatever chunks a stream comes in, its drain keeps the first bytes, shows a front of their text, and
hands the decoded text on without a gap once the stream turns out long.

Results:
1. `observe_shows`, `shows_inline`: progress grows, and is a front of the text of the first bytes.
2. `keeps_read`, `keeps_close`, `keeps_appended`: what was sent to the store, with what is being
   sent, is the text so far, less what a limit leaves out.
-/

namespace Henji

open TextDecoder (told decodeAll)

namespace BashProgress

variable {progress : BashProgress} {received seen : List UInt8} {points : List Nat}

/-- The progress of a stream shows `points`, a front of what well-formed bytes told. -/
structure Shows (progress : BashProgress) (received seen : List UInt8) (points : List Nat) :
    Prop where
  isPrefix : seen <+: received
  valid : none ∉ (PendingPoint.read seen).1
  front : points <+: told seen
  text : progress.progressPrefix = points.flatMap pointUnits
  bytes : progress.progressBytes = (points.flatMap encodePoint).length
  small : progress.progressBytes ≤ MAX_PROGRESS_STREAM_BYTES
  active : progress.progressDisabled = false → progress.progressFrozen = false →
    seen = received ∧ points = told seen ∧
      progress.progressDecoder = (TextDecoder.start.decode received).2

theorem shows_start : Shows .start [] [] [] where
  isPrefix := List.prefix_rfl
  valid := List.not_mem_nil
  front := List.prefix_rfl
  text := rfl
  bytes := rfl
  small := Nat.zero_le _
  active _ _ := ⟨rfl, rfl, rfl⟩

/-- A progress that is left as it is. -/
theorem Shows.still (h : progress.Shows received seen points) (next : BashProgress)
    (htext : next.progressPrefix = progress.progressPrefix)
    (hbytes : next.progressBytes = progress.progressBytes)
    (hoff : next.progressDisabled = true ∨ next.progressFrozen = true) (more : List UInt8) :
    next.Shows (received ++ more) seen points where
  isPrefix := h.isPrefix.trans (List.prefix_append _ _)
  valid := h.valid
  front := h.front
  text := htext.trans h.text
  bytes := hbytes.trans h.bytes
  small := hbytes ▸ h.small
  active hdisabled hfrozen := by
    obtain hoff | hoff := hoff
    · exact absurd (hdisabled.symm.trans hoff) Bool.false_ne_true
    · exact absurd (hfrozen.symm.trans hoff) Bool.false_ne_true

/-- The characters that are shown are a front of the new ones, and all of them unless they no longer
fit. -/
theorem observeCharacters_spec (characters : List Nat) (progress : BashProgress) (changed : Bool)
    (hsmall : progress.progressBytes ≤ MAX_PROGRESS_STREAM_BYTES)
    (hfrozen : progress.progressFrozen = false) :
    ∃ shown, shown <+: characters ∧
      (observeCharacters characters progress changed).1.progressPrefix =
        progress.progressPrefix ++ shown.flatMap pointUnits ∧
      (observeCharacters characters progress changed).1.progressBytes =
        progress.progressBytes + (shown.flatMap encodePoint).length ∧
      (observeCharacters characters progress changed).1.progressBytes ≤
        MAX_PROGRESS_STREAM_BYTES ∧
      (observeCharacters characters progress changed).1.progressDecoder =
        progress.progressDecoder ∧
      ((observeCharacters characters progress changed).1.progressFrozen = false →
        shown = characters) := by
  induction characters generalizing progress changed with
  | nil =>
    exact ⟨[], List.prefix_rfl, (List.append_nil _).symm, rfl, hsmall, rfl, fun _ => rfl⟩
  | cons character characters ih =>
    rw [observeCharacters]
    split
    · refine ⟨[], List.nil_prefix, (List.append_nil _).symm, rfl, hsmall, rfl, fun h => ?_⟩
      cases h
    · next hfits =>
      obtain ⟨shown, hfront, htext, hbytes, hle, hdecoder, hall⟩ := ih
        { progress with
          progressPrefix := progress.progressPrefix ++ pointUnits character
          progressBytes := progress.progressBytes + (encodePoint character).length } true
        (Nat.le_of_not_lt hfits) hfrozen
      refine ⟨character :: shown, List.cons_prefix_cons.mpr ⟨rfl, hfront⟩, ?_, ?_, hle, hdecoder,
        fun h => congrArg (character :: ·) (hall h)⟩
      · rw [htext, List.flatMap_cons, List.append_assoc]
      · rw [hbytes, List.flatMap_cons, List.length_append, Nat.add_assoc]

/-- The decoder of a stream that is watched tells the next characters. -/
theorem told_more {chunk : List UInt8} {decoded : JsText} {next : TextDecoder}
    (h : (TextDecoder.start.decode received).2.decode chunk = (decoded, next)) :
    told (received ++ chunk) = told received ++ codePoints decoded ∧
      hasWellFormedUnicode decoded = true ∧
      next = (TextDecoder.start.decode (received ++ chunk)).2 := by
  have hboth := TextDecoder.decode_append received chunk .start
  rw [h] at hboth
  dsimp only at hboth
  obtain ⟨more, hmore⟩ := TextDecoder.told_append received chunk
  have hunits := congrArg Prod.fst hboth
  rw [TextDecoder.decode_told, TextDecoder.decode_told, ← hmore, List.flatMap_append,
    List.append_cancel_left_eq] at hunits
  obtain ⟨hpoints, hwell⟩ := codePoints_units fun n (hn : n ∈ more) =>
    TextDecoder.isScalar_told (hmore ▸ List.mem_append_right (told received) hn)
  rw [← hunits, hpoints, hmore]
  exact ⟨rfl, hwell, (congrArg Prod.snd hboth).symm⟩

/-- Well-formed bytes after well-formed ones. -/
theorem valid_append {chunk : List UInt8} (h : none ∉ (PendingPoint.read received).1)
    (h' : none ∉ (Mealy.run PendingPoint.step chunk (PendingPoint.read received).2).1) :
    none ∉ (PendingPoint.read (received ++ chunk)).1 := by
  rw [PendingPoint.read_append, List.mem_append, not_or]
  exact ⟨h, h'⟩

theorem pending_decode (bytes : List UInt8) :
    (TextDecoder.start.decode bytes).2.pending = (PendingPoint.read bytes).2 := by
  have hrun : Mealy.run TextDecoder.step bytes .start =
      TextDecoder.tell false (PendingPoint.read bytes).2 (replaced (PendingPoint.read bytes).1) :=
    TextDecoder.run_step bytes .ready false
  unfold TextDecoder.decode
  rw [hrun]
  dsimp only
  rw [TextDecoder.tell_pending]

/-- A chunk that is watched adds to what is shown. -/
theorem observe_shows (h : progress.Shows received seen points) (chunk : List UInt8) :
    ∃ seen' points', (progress.observe chunk).1.Shows (received ++ chunk) seen' points' ∧
      points <+: points' := by
  unfold observe
  split
  · next hoff =>
    simp only [Bool.or_eq_true, List.isEmpty_iff] at hoff
    obtain (hoff | hoff) | rfl := hoff
    · exact ⟨seen, points, h.still progress rfl rfl (.inl hoff) chunk, List.prefix_rfl⟩
    · exact ⟨seen, points, h.still progress rfl rfl (.inr hoff) chunk, List.prefix_rfl⟩
    · rw [List.append_nil]
      exact ⟨seen, points, h, List.prefix_rfl⟩
  next hon =>
  simp only [Bool.or_eq_true, not_or, Bool.not_eq_true] at hon
  obtain ⟨rfl, rfl, hdecoder⟩ := h.active hon.1.1 hon.1.2
  cases hdecode : progress.progressDecoder.decodeFatal chunk with
  | none =>
    exact ⟨seen, _, h.still { progress with progressDisabled := true } rfl rfl (.inl rfl) chunk,
      List.prefix_rfl⟩
  | some result =>
    obtain ⟨decoded, next⟩ := result
    obtain ⟨heq, hvalid⟩ := TextDecoder.decodeFatal_some hdecode
    rw [hdecoder] at heq hvalid
    rw [pending_decode] at hvalid
    obtain ⟨htold, -, hnext⟩ := told_more heq
    obtain ⟨shown, hfront, htext, hbytes, hsmall, hsame, hall⟩ := observeCharacters_spec
      (codePoints decoded) { progress with progressDecoder := next } false h.small hon.1.2
    refine ⟨seen ++ chunk, told seen ++ shown, ⟨List.prefix_rfl, valid_append h.valid hvalid, ?_,
      ?_, ?_, hsmall, fun _ hfrozen => ⟨rfl, ?_, hsame.trans hnext⟩⟩, List.prefix_append _ _⟩
    · rw [htold]
      exact (List.prefix_append_right_inj _).mpr hfront
    · rw [htext, List.flatMap_append, ← h.text]
    · rw [hbytes, List.flatMap_append, List.length_append, ← h.bytes]
    · rw [htold, hall hfrozen]

theorem finish_shows (h : progress.Shows received seen points) :
    progress.finish.Shows received seen points := by
  unfold finish
  split
  · exact h
  · next hon =>
    simp only [Bool.or_eq_true, not_or, Bool.not_eq_true] at hon
    exact ⟨h.isPrefix, h.valid, h.front, h.text, h.bytes, h.small, fun _ _ => h.active hon.1 hon.2⟩

/-- What is shown is a front of the inline text, also when more bytes come. -/
theorem shows_inline (h : progress.Shows received seen points) {all : List UInt8}
    (hall : received <+: all) :
    progress.progressPrefix <+: decodeAll (all.take MAX_CAPTURE_BYTES) := by
  have hseen : seen <+: all := h.isPrefix.trans hall
  have hfront : points <+: told (all.take MAX_CAPTURE_BYTES) := by
    by_cases hshort : seen.length ≤ MAX_CAPTURE_BYTES
    · exact h.front.trans (TextDecoder.told_isPrefix (List.prefix_take_iff.mpr ⟨hseen, hshort⟩))
    · -- the first bytes are all seen, and their characters take more than is shown
      have htake : all.take MAX_CAPTURE_BYTES <+: seen :=
        List.prefix_of_prefix_length_le (List.take_prefix _ _) hseen
          ((List.length_take_le _ _).trans (Nat.le_of_not_le hshort))
      have hlength : (all.take MAX_CAPTURE_BYTES).length = MAX_CAPTURE_BYTES := by
        have := hseen.length_le
        rw [List.length_take]
        omega
      have hvalid : none ∉ (PendingPoint.read (all.take MAX_CAPTURE_BYTES)).1 := by
        obtain ⟨rest, hrest⟩ := htake
        have hnone := h.valid
        rw [← hrest, PendingPoint.read_append, List.mem_append, not_or] at hnone
        exact hnone.1
      have hmany := TextDecoder.length_le_told hvalid
      have hsmall := h.small
      rw [h.bytes] at hsmall
      obtain hle | hle := Nat.le_total points.length (told (all.take MAX_CAPTURE_BYTES)).length
      · exact List.prefix_of_prefix_length_le h.front (TextDecoder.told_isPrefix htake) hle
      · have hless := (encode_isFront (List.prefix_of_prefix_length_le
          (TextDecoder.told_isPrefix htake) h.front hle)).length_le
        rw [hlength] at hmany
        unfold MAX_CAPTURE_BYTES MAX_PROGRESS_STREAM_BYTES at *
        omega
  obtain ⟨rest, hrest⟩ := hfront
  unfold decodeAll
  dsimp only
  rw [TextDecoder.decode_told, ← hrest, List.flatMap_append, h.text, List.append_assoc]
  exact List.prefix_append _ _

end BashProgress

namespace BashDrain

variable {drain : BashDrain} {sent : JsText} {limited : Prop}

/-- The text of what was read; the end of the stream adds the mark of a cut character. -/
def text (drain : BashDrain) : JsText :=
  match drain.phase with
  | .appendingLast _ => decodeAll drain.received
  | .ended => decodeAll drain.received
  | _ => (TextDecoder.start.decode drain.received).1

/-- A drain of which `sent` was appended, where `limited` says that the command has a limit. -/
structure Keeps (drain : BashDrain) (sent : JsText) (limited : Prop) : Prop where
  captured : drain.captured = drain.received.take MAX_CAPTURE_BYTES
  truncated : drain.truncated = decide (MAX_CAPTURE_BYTES < drain.received.length)
  decoder : drain.outputDecoder = (TextDecoder.start.decode drain.received).2
  shown : ∃ seen points, drain.progress.Shows drain.received seen points
  spooling : drain.spooling = drain.truncated
  aside : drain.spooling = false →
    drain.pendingOutput = (TextDecoder.start.decode drain.received).1 ∧ sent = [] ∧
      drain.appending = []
  isPrefix : sent ++ drain.appending <+: drain.text
  whole : drain.spooling = true → drain.storageStopped = false →
    sent ++ drain.appending = drain.text
  stopped : drain.storageStopped = true → limited
  wellFormed : hasWellFormedUnicode drain.appending = true

theorem keeps_start (limited : Prop) : Keeps .start [] limited where
  captured := rfl
  truncated := rfl
  decoder := rfl
  shown := ⟨[], [], BashProgress.shows_start⟩
  spooling := rfl
  aside _ := ⟨rfl, rfl, rfl⟩
  isPrefix := List.nil_prefix
  whole h := absurd h Bool.false_ne_true
  stopped h := absurd h Bool.false_ne_true
  wellFormed := rfl

/-- A limit that comes from elsewhere. -/
theorem Keeps.weaken {later : Prop} (h : drain.Keeps sent limited) (hlater : limited → later) :
    drain.Keeps sent later :=
  { h with stopped := hlater ∘ h.stopped }

/-! ## A chunk -/

/-- The bytes of a chunk that are kept. -/
theorem take_more (received value : List UInt8) :
    received.take MAX_CAPTURE_BYTES ++
      value.take (MAX_CAPTURE_BYTES - (received.take MAX_CAPTURE_BYTES).length) =
        (received ++ value).take MAX_CAPTURE_BYTES := by
  rw [List.take_append, List.length_take]
  congr 2
  omega

theorem truncated_more (received value : List UInt8) :
    (decide (MAX_CAPTURE_BYTES < received.length) ||
      decide (MAX_CAPTURE_BYTES - (received.take MAX_CAPTURE_BYTES).length < value.length)) =
        decide (MAX_CAPTURE_BYTES < (received ++ value).length) := by
  rw [← Bool.decide_or, List.length_take, List.length_append]
  exact decide_eq_decide.mpr (by omega)

theorem wellFormed_decode (bytes : List UInt8) :
    hasWellFormedUnicode (TextDecoder.start.decode bytes).1 = true := by
  rw [TextDecoder.decode_told]
  exact (codePoints_units fun _ => TextDecoder.isScalar_told).2

/-- What `spool` leaves as it is. -/
structure Spools (drain next : BashDrain) : Prop where
  captured : next.captured = drain.captured
  truncated : next.truncated = drain.truncated
  progress : next.progress = drain.progress
  outputDecoder : next.outputDecoder = drain.outputDecoder
  received : next.received = drain.received
  storageStopped : next.storageStopped = drain.storageStopped

theorem spools_spool (drain : BashDrain) (decoded : JsText) : drain.Spools (drain.spool decoded) := by
  unfold spool
  dsimp only
  split
  · split <;> exact ⟨rfl, rfl, rfl, rfl, rfl, rfl⟩
  split
  · split <;> exact ⟨rfl, rfl, rfl, rfl, rfl, rfl⟩
  · exact ⟨rfl, rfl, rfl, rfl, rfl, rfl⟩

/-- After a chunk, what was sent and what is being sent is the text so far. -/
structure Sends (drain next : BashDrain) (sent whole decoded : JsText) : Prop where
  phase : next.phase = .reading ∨
    ∃ text, next.phase = .appending text ∧ (text = decoded ∨ text = whole)
  spooling : next.spooling = drain.truncated
  aside : next.spooling = false → next.pendingOutput = whole ∧ sent = [] ∧ next.appending = []
  isPrefix : sent ++ next.appending <+: whole
  whole : next.spooling = true → drain.storageStopped = false → sent ++ next.appending = whole

theorem sends_spooling {before decoded : JsText} (hphase : drain.phase = .reading)
    (hspool : drain.spooling = true) (hfront : sent <+: before)
    (hwhole : drain.storageStopped = false → sent = before) (htruncated : drain.truncated = true) :
    drain.Sends (drain.spool decoded) sent (before ++ decoded) decoded := by
  have hnone : drain.appending = [] := by
    unfold appending
    rw [hphase]
  unfold spool
  rw [if_pos hspool]
  split
  · next hsends =>
    rw [Bool.and_eq_true, Bool.not_eq_true'] at hsends
    obtain rfl := hwhole hsends.1
    exact ⟨.inr ⟨decoded, rfl, .inl rfl⟩, hspool.trans htruncated.symm,
      fun h => absurd (h.symm.trans hspool) Bool.false_ne_true, List.prefix_rfl, fun _ _ => rfl⟩
  · next hstays =>
    refine ⟨.inl hphase, hspool.trans htruncated.symm,
      fun h => absurd (h.symm.trans hspool) Bool.false_ne_true, ?_, fun _ hon => ?_⟩
    · rw [hnone, List.append_nil]
      exact hfront.trans (List.prefix_append _ _)
    · rw [hon, Bool.not_false, Bool.true_and, Bool.not_eq_true', Bool.not_eq_false,
        List.isEmpty_iff] at hstays
      rw [hnone, hwhole hon, hstays]

theorem sends_aside {before decoded : JsText} (hphase : drain.phase = .reading)
    (hspool : drain.spooling = false) (hpending : drain.pendingOutput = before) :
    drain.Sends (drain.spool decoded) [] (before ++ decoded) decoded := by
  have hnone : drain.appending = [] := by
    unfold appending
    rw [hphase]
  unfold spool
  rw [if_neg (hspool ▸ Bool.false_ne_true)]
  dsimp only
  rw [hpending]
  split
  · next htruncated =>
    split
    · next hempty =>
      rw [List.isEmpty_iff] at hempty
      refine ⟨.inl hphase, htruncated.symm, fun h => absurd h.symm Bool.false_ne_true, ?_,
        fun _ _ => hnone.trans hempty.symm⟩
      exact ⟨before ++ decoded, congrArg (· ++ (before ++ decoded)) hnone⟩
    · exact ⟨.inr ⟨_, rfl, .inr rfl⟩, htruncated.symm, fun h => absurd h.symm Bool.false_ne_true,
        List.prefix_rfl, fun _ _ => rfl⟩
  · next hshort =>
    rw [Bool.not_eq_true] at hshort
    refine ⟨.inl hphase, hspool.trans hshort.symm, fun _ => ⟨rfl, rfl, hnone⟩, ?_, fun h => ?_⟩
    · exact ⟨before ++ decoded, congrArg (· ++ (before ++ decoded)) hnone⟩
    · exact absurd (hspool.symm.trans h) Bool.false_ne_true

theorem Keeps.text_reading (hphase : drain.phase = .reading) :
    drain.text = (TextDecoder.start.decode drain.received).1 ∧ drain.appending = [] := by
  unfold text appending
  rw [hphase]
  exact ⟨rfl, rfl⟩

theorem keeps_read (h : drain.Keeps sent limited) (hphase : drain.phase = .reading)
    (value : List UInt8) : (drain.read value).1.Keeps sent limited := by
  obtain ⟨htext, hnone⟩ := Keeps.text_reading hphase
  unfold read
  dsimp only
  rw [h.captured, h.truncated, take_more, truncated_more, h.decoder]
  cases hdecode : (TextDecoder.start.decode drain.received).2.decode value with
  | mk decoded next =>
  have hboth := TextDecoder.decode_append drain.received value .start
  rw [hdecode] at hboth
  dsimp only at hboth ⊢
  have hall : (TextDecoder.start.decode (drain.received ++ value)).1 =
      (TextDecoder.start.decode drain.received).1 ++ decoded := congrArg Prod.fst hboth
  obtain ⟨seen, points, hshows⟩ := h.shown
  obtain ⟨seen', points', hshows', -⟩ := BashProgress.observe_shows hshows value
  generalize hwatched : ({ drain with
    captured := (drain.received ++ value).take MAX_CAPTURE_BYTES
    truncated := decide (MAX_CAPTURE_BYTES < (drain.received ++ value).length)
    progress := (drain.progress.observe value).1
    outputDecoder := next
    received := drain.received ++ value } : BashDrain) = watched
  have hsends : watched.Sends (watched.spool decoded) sent
      ((TextDecoder.start.decode drain.received).1 ++ decoded) decoded := by
    subst hwatched
    cases hspool : drain.spooling with
    | true =>
      have hfront := h.isPrefix
      have hwhole := h.whole hspool
      rw [hnone, List.append_nil, htext] at hfront hwhole
      refine sends_spooling hphase rfl hfront hwhole (decide_eq_true ?_)
      have hlong := of_decide_eq_true (h.truncated.symm.trans (h.spooling.symm.trans hspool))
      rw [List.length_append]
      exact Nat.lt_of_lt_of_le hlong (Nat.le_add_right _ _)
    | false =>
      obtain ⟨hpending, rfl, -⟩ := h.aside hspool
      exact sends_aside hphase rfl hpending
  have hspools := spools_spool watched decoded
  have htext' : (watched.spool decoded).text =
      (TextDecoder.start.decode drain.received).1 ++ decoded := by
    have hreceived : (watched.spool decoded).received = drain.received ++ value :=
      hspools.received.trans (hwatched ▸ rfl)
    rw [← hall, ← hreceived]
    unfold text
    obtain hreading | ⟨text, happending, -⟩ := hsends.phase
    · rw [hreading]
    · rw [happending]
  exact {
    captured := hspools.captured.trans (hspools.received ▸ hwatched ▸ rfl)
    truncated := hspools.truncated.trans (hspools.received ▸ hwatched ▸ rfl)
    decoder := hspools.outputDecoder.trans
      (hspools.received ▸ hwatched ▸ (congrArg Prod.snd hboth).symm)
    shown := ⟨seen', points', hspools.progress ▸ hspools.received ▸ hwatched ▸ hshows'⟩
    spooling := hsends.spooling.trans hspools.truncated.symm
    aside := fun hspool => by
      obtain ⟨hpending, hsent, happending⟩ := hsends.aside hspool
      refine ⟨?_, hsent, happending⟩
      rw [hpending, hspools.received, ← hwatched]
      exact hall.symm
    isPrefix := htext'.symm ▸ hsends.isPrefix
    whole := fun hspool hon => htext'.symm ▸ hsends.whole hspool (hspools.storageStopped ▸ hon)
    stopped := fun hoff => h.stopped ((hspools.storageStopped.trans (hwatched ▸ rfl)).symm.trans hoff)
    wellFormed := by
      unfold appending
      obtain hreading | ⟨text, happending, rfl | rfl⟩ := hsends.phase
      · rw [hreading]
        rfl
      · rw [happending]
        exact (BashProgress.told_more hdecode).2.1
      · rw [happending]
        dsimp only
        rw [← hall]
        exact wellFormed_decode _ }

/-! ## The end of the stream -/

/-- The drain is done, and `all` was sent. -/
theorem keeps_settle {later : Prop} {all : JsText} (h : drain.Keeps sent limited)
    (hlater : limited → later) (haside : drain.spooling = false → all = [])
    (hfront : all <+: decodeAll drain.received)
    (hwhole : drain.spooling = true → drain.storageStopped = false →
      all = decodeAll drain.received) : drain.settle.Keeps all later := by
  obtain ⟨seen, points, hshows⟩ := h.shown
  exact { h with
    shown := ⟨seen, points, BashProgress.finish_shows hshows⟩
    aside := fun hspool => ⟨(h.aside hspool).1, haside hspool, rfl⟩
    isPrefix := by
      show all ++ [] <+: decodeAll drain.received
      rw [List.append_nil]
      exact hfront
    whole := fun hspool hon => (List.append_nil all).trans (hwhole hspool hon)
    stopped := hlater ∘ h.stopped
    wellFormed := rfl }

theorem keeps_close (h : drain.Keeps sent limited) (hphase : drain.phase = .reading) :
    drain.close.Keeps sent limited := by
  obtain ⟨htext, hnone⟩ := Keeps.text_reading hphase
  have hfront := h.isPrefix
  have hwhole := h.whole
  rw [hnone, List.append_nil, htext] at hfront hwhole
  have hall : decodeAll drain.received = (TextDecoder.start.decode drain.received).1 ++
      (TextDecoder.start.decode drain.received).2.finish := rfl
  unfold close
  rw [h.decoder]
  dsimp only
  split
  · next hsends =>
    simp only [Bool.and_eq_true, Bool.not_eq_true'] at hsends
    have hsent := hwhole hsends.1.1 hsends.1.2
    exact { h with
      decoder := rfl
      aside := fun hspool => absurd (hspool.symm.trans hsends.1.1) Bool.false_ne_true
      isPrefix := ⟨[], (List.append_nil _).trans (congrArg
        (· ++ (TextDecoder.start.decode drain.received).2.finish) hsent)⟩
      whole := fun _ _ => congrArg (· ++ (TextDecoder.start.decode drain.received).2.finish) hsent
      wellFormed := by
        show hasWellFormedUnicode (TextDecoder.start.decode drain.received).2.finish = true
        obtain hend | hend := TextDecoder.finish_cases (TextDecoder.start.decode drain.received).2
        · rw [hend]
          rfl
        · rw [hend]
          decide }
  · next hstays =>
    refine keeps_settle h id (fun hspool => (h.aside hspool).2.1) (hfront.trans ⟨_, hall.symm⟩)
      fun hspool hon => ?_
    rw [hspool, hon, Bool.not_false, Bool.true_and, Bool.true_and, Bool.not_eq_true',
      Bool.not_eq_false, List.isEmpty_iff] at hstays
    rw [hwhole hspool hon, hall, hstays, List.append_nil]

/-- An append that came back; where it was stopped there is a limit. -/
theorem keeps_appended {later : Prop} {stops : Bool} (h : drain.Keeps sent limited)
    (hsome : drain.appending ≠ []) (hlater : limited → later) (hstops : stops = true → later) :
    (drain.appended stops).Keeps (sent ++ drain.appending) later := by
  have hspool : drain.spooling = true := by
    by_contra hnot
    exact hsome (h.aside (Bool.not_eq_true _ ▸ hnot)).2.2
  have hfront := h.isPrefix
  have hwhole := h.whole hspool
  have hwell := h.wellFormed
  unfold appended
  cases hphase : drain.phase with
  | reading => exact absurd (Keeps.text_reading hphase).2 hsome
  | ended =>
    unfold appending at hsome
    rw [hphase] at hsome
    exact absurd rfl hsome
  | appending text =>
    have htext : drain.text = (TextDecoder.start.decode drain.received).1 := by
      unfold BashDrain.text
      rw [hphase]
    rw [htext] at hfront hwhole
    exact { h with
      aside := fun hnot => absurd (hnot.symm.trans hspool) Bool.false_ne_true
      isPrefix := by
        show (sent ++ drain.appending) ++ [] <+: (TextDecoder.start.decode drain.received).1
        rw [List.append_nil]
        exact hfront
      whole := fun _ hon => (List.append_nil _).trans
        (hwhole (Bool.or_eq_false_iff.mp hon).1)
      stopped := fun hoff => (Bool.or_eq_true _ _ ▸ hoff).elim (hlater ∘ h.stopped) hstops
      wellFormed := rfl }
  | appendingLast text =>
    have htext : drain.text = decodeAll drain.received := by
      unfold BashDrain.text
      rw [hphase]
    rw [htext] at hfront hwhole
    exact keeps_settle h hlater
      (fun hnot => absurd (hnot.symm.trans hspool) Bool.false_ne_true) hfront fun _ hon => hwhole hon

end BashDrain

end Henji
