import Henji.Tui.InputDecoder

/-!
# Bracketed paste

A paste is the bytes between `PASTE_BEGIN` and `PASTE_END`. Inside it the decoder looks for the
terminator with a buffer of the bytes that match its start; where the match breaks, the buffer and
the breaking byte are payload, also if that byte is an ESC that starts the terminator itself.

`paste_framed` says for which payloads the terminator is found: those without an open match at their
end.
-/

namespace Henji

namespace InputDecoder

/-! ## Quiet states -/

/-- Nothing is pending but possibly a carriage return. -/
structure Ground (carriage : Bool) (decoder : InputDecoder) : Prop where
  utf8 : decoder.utf8 = []
  escape : decoder.escape = none
  expiredXterm : decoder.expiredXterm = none
  paste : decoder.paste = false
  pendingCr : decoder.pendingCr = carriage
  expiredCsi : decoder.expiredCsi = none
  ss3Pending : decoder.ss3Pending = false
  expiredSs3 : decoder.expiredSs3 = false

theorem ground_start : start.Ground false := ⟨rfl, rfl, rfl, rfl, rfl, rfl, rfl, rfl⟩

variable {decoder : InputDecoder}

theorem feedByte_of_quiet {now dateNow : Int} {byte : UInt8}
    (hescape : decoder.escapeExpires now = false) (hss3 : decoder.ss3Expires now = false) :
    feedByte now dateNow byte decoder = decoder.consume byte now dateNow := by
  simp [feedByte, hescape, hss3]

theorem poll_of_quiet {now : Int} (hescape : decoder.escapeExpires now = false)
    (hss3 : decoder.ss3Expires now = false) : poll now decoder = ([], decoder) := by
  simp [poll, hescape, hss3]

theorem escapeExpires_none {now : Int} (h : decoder.escape = none) :
    decoder.escapeExpires now = false := by
  simp [escapeExpires, h]

theorem ss3Expires_none {now : Int} (h : decoder.ss3Pending = false) :
    decoder.ss3Expires now = false := by
  simp [ss3Expires, h]

/-! ## Stamps by their bytes -/

/-- The bytes of some stamps. -/
def stampBytes (stamps : List Stamp) : List UInt8 := stamps.flatMap Stamp.bytes

theorem stampBytes_stamps (calls : List Call) :
    stampBytes (calls.flatMap Call.stamps) = calls.flatMap Call.bytes := by
  induction calls with
  | nil => rfl
  | cons call calls ih =>
    simp only [stampBytes, List.flatMap_cons, List.flatMap_append] at ih ⊢
    rw [ih]
    congr 1
    cases call with
    | feed bytes now dateNow =>
      simp only [Call.stamps, Call.bytes]
      induction bytes with
      | nil => rfl
      | cons byte bytes ih => rw [List.map_cons, List.flatMap_cons, ih]; rfl
    | poll now => rfl

/-- Stamps are cut where their bytes are cut. -/
theorem exists_stamps_append {stamps : List Stamp} {first second : List UInt8}
    (h : stampBytes stamps = first ++ second) : ∃ front rest, stamps = front ++ rest ∧
      stampBytes front = first ∧ stampBytes rest = second := by
  induction stamps generalizing first with
  | nil =>
    obtain ⟨rfl, rfl⟩ := List.append_eq_nil_iff.mp h.symm
    exact ⟨[], [], rfl, rfl, rfl⟩
  | cons stamp stamps ih =>
    cases stamp with
    | poll now =>
      obtain ⟨front, rest, rfl, hfront, hrest⟩ := ih h
      exact ⟨.poll now :: front, rest, rfl, hfront, hrest⟩
    | byte byte now dateNow =>
      cases first with
      | nil => exact ⟨[], _, rfl, rfl, h⟩
      | cons head first =>
        obtain ⟨rfl, htail⟩ := List.cons.inj h
        obtain ⟨front, rest, rfl, hfront, hrest⟩ := ih htail
        exact ⟨.byte byte now dateNow :: front, rest, rfl, congrArg (byte :: ·) hfront, hrest⟩

/-- The first byte stands behind polls. -/
theorem exists_stamps_cons {stamps : List Stamp} {byte : UInt8} {rest : List UInt8}
    (h : stampBytes stamps = byte :: rest) : ∃ polls now dateNow more,
      stamps = polls ++ .byte byte now dateNow :: more ∧ stampBytes polls = [] ∧
        stampBytes more = rest := by
  induction stamps with
  | nil => cases h
  | cons stamp stamps ih =>
    cases stamp with
    | poll now =>
      obtain ⟨polls, later, dateNow, more, rfl, hpolls, hmore⟩ := ih h
      exact ⟨.poll now :: polls, later, dateNow, more, rfl, hpolls, hmore⟩
    | byte head now dateNow =>
      obtain ⟨rfl, htail⟩ := List.cons.inj h
      exact ⟨[], now, dateNow, stamps, rfl, rfl, htail⟩

/-- Where a poll does nothing, stamps without bytes do nothing. -/
theorem run_polls {stamps : List Stamp} (hbytes : stampBytes stamps = [])
    (hpoll : ∀ now, .poll now ∈ stamps → stamp (.poll now) decoder = ([], decoder)) :
    Mealy.run stamp stamps decoder = ([], decoder) := by
  induction stamps with
  | nil => rfl
  | cons item stamps ih =>
    cases item with
    | poll now =>
      exact Mealy.run_cons_of stamp (hpoll now List.mem_cons_self)
        (ih hbytes fun later hmem => hpoll later (List.mem_cons_of_mem _ hmem))
    | byte byte now dateNow => cases hbytes

/-! ## The start of a paste -/

/-- An escape is started and its bytes so far are `sequence`. -/
structure Escaping (startedAt : Int) (sequence : List UInt8) (decoder : InputDecoder) : Prop where
  utf8 : decoder.utf8 = []
  escape : decoder.escape = some sequence
  escapeStartedAt : decoder.escapeStartedAt = startedAt
  expiredXterm : decoder.expiredXterm = none
  paste : decoder.paste = false
  pendingCr : decoder.pendingCr = false
  expiredCsi : decoder.expiredCsi = none
  ss3Pending : decoder.ss3Pending = false
  expiredSs3 : decoder.expiredSs3 = false

variable {startedAt : Int} {sequence : List UInt8}

theorem Ground.consume {carriage : Bool} (h : decoder.Ground carriage) (byte : UInt8)
    (now dateNow : Int) : decoder.consume byte now dateNow = decoder.consumeText byte now dateNow := by
  simp [InputDecoder.consume, consumeBefore, consumeSequence, h.paste, h.ss3Pending, h.expiredSs3,
    h.expiredXterm, h.expiredCsi, h.escape]

theorem Ground.stamp_byte {carriage : Bool} (h : decoder.Ground carriage) (byte : UInt8)
    (now dateNow : Int) :
    stamp (.byte byte now dateNow) decoder = decoder.consumeText byte now dateNow := by
  rw [stamp, feedByte_of_quiet (escapeExpires_none h.escape) (ss3Expires_none h.ss3Pending),
    h.consume]

theorem Ground.stamp_poll {carriage : Bool} (h : decoder.Ground carriage) (now : Int) :
    stamp (.poll now) decoder = ([], decoder) :=
  poll_of_quiet (escapeExpires_none h.escape) (ss3Expires_none h.ss3Pending)

/-- A line feed behind a carriage return aside, a byte is read where nothing is pending. -/
theorem Ground.consumeText {carriage : Bool} (h : decoder.Ground carriage) {byte : UInt8}
    (hbyte : ¬ (carriage = true ∧ byte = 0x0a)) (now dateNow : Int) :
    decoder.consumeText byte now dateNow =
      InputDecoder.consumeGround byte now { decoder with pendingCr := false } := by
  rw [InputDecoder.consumeText, if_neg (by simpa [h.pendingCr] using hbyte)]
  simp [h.utf8]

theorem Ground.escape_started {carriage : Bool} (h : decoder.Ground carriage) (now dateNow : Int) :
    ∃ after, stamp (.byte 0x1b now dateNow) decoder = ([], after) ∧ after.Escaping now [0x1b] := by
  rw [h.stamp_byte, h.consumeText (by simp)]
  exact ⟨_, rfl, h.utf8, rfl, rfl, h.expiredXterm, h.paste, rfl, h.expiredCsi, h.ss3Pending,
    h.expiredSs3⟩

theorem Escaping.quiet (h : decoder.Escaping startedAt sequence) {now : Int}
    (hnow : now - startedAt < ESC_TIMEOUT_MS) : decoder.escapeExpires now = false := by
  simp [escapeExpires, h.escapeStartedAt, h.escape, hnow]

theorem Escaping.stamp_byte (h : decoder.Escaping startedAt sequence) {byte : UInt8}
    {now dateNow : Int} (hnow : now - startedAt < ESC_TIMEOUT_MS) :
    stamp (.byte byte now dateNow) decoder = decoder.consumeEscape sequence byte now dateNow := by
  rw [stamp, feedByte_of_quiet (h.quiet hnow) (ss3Expires_none h.ss3Pending)]
  simp [InputDecoder.consume, consumeBefore, consumeSequence, h.paste, h.ss3Pending, h.expiredSs3,
    h.expiredXterm, h.expiredCsi, h.escape]

theorem Escaping.stamp_poll (h : decoder.Escaping startedAt sequence) {now : Int}
    (hnow : now - startedAt < ESC_TIMEOUT_MS) : stamp (.poll now) decoder = ([], decoder) :=
  poll_of_quiet (h.quiet hnow) (ss3Expires_none h.ss3Pending)

/-- The bytes of a sequence before its final byte. -/
def isParameter (byte : UInt8) : Bool := !isFinal byte

theorem append_ne_of_final {expected : List UInt8} {byte : UInt8} (last : UInt8)
    (hlast : expected.getLast? = some last) (hfinal : isFinal last = true)
    (hbyte : isParameter byte = true) : sequence ++ [byte] ≠ expected := by
  rintro rfl
  rw [List.getLast?_concat] at hlast
  cases hlast
  rw [isParameter, hfinal] at hbyte
  cases hbyte

/-- A byte that does not end the sequence is kept. -/
theorem Escaping.consume_parameter (h : decoder.Escaping startedAt sequence) {byte : UInt8}
    (hgoes : sequence.length = 1 ∧ byte = 0x5b ∨ 2 ≤ sequence.length ∧ isParameter byte = true)
    (now dateNow : Int) :
    ∃ after, decoder.consumeEscape sequence byte now dateNow = ([], after) ∧
      after.Escaping startedAt (sequence ++ [byte]) := by
  refine ⟨{ decoder with escape := some (sequence ++ [byte]) }, ?_, h.utf8, rfl, h.escapeStartedAt,
    h.expiredXterm, h.paste, h.pendingCr, h.expiredCsi, h.ss3Pending, h.expiredSs3⟩
  rw [consumeEscape]
  rcases hgoes with ⟨hlength, rfl⟩ | ⟨hlength, hparameter⟩
  · simp [hlength]
  · have halt : sequence ++ [byte] ≠ ALT_ENTER_XTERM :=
      append_ne_of_final 0x7e rfl (by decide) hparameter
    have hpaste : sequence ++ [byte] ≠ PASTE_BEGIN :=
      append_ne_of_final 0x7e rfl (by decide) hparameter
    have hfinal : (!isFinal byte) = true := hparameter
    rw [if_neg (by simp; omega), if_neg (by simp; omega), if_neg halt, if_neg hpaste, if_pos hfinal]

/-- Stamps in time that do not end the sequence. -/
theorem Escaping.run_parameters (h : decoder.Escaping startedAt sequence) {stamps : List Stamp}
    (htime : ∀ stamp ∈ stamps, stamp.now - startedAt < ESC_TIMEOUT_MS)
    (hgoes : ∀ byte ∈ stampBytes stamps, isParameter byte = true) (hlength : 2 ≤ sequence.length) :
    ∃ after, Mealy.run stamp stamps decoder = ([], after) ∧
      after.Escaping startedAt (sequence ++ stampBytes stamps) := by
  induction stamps generalizing decoder sequence with
  | nil => exact ⟨decoder, rfl, by simpa [stampBytes] using h⟩
  | cons item stamps ih =>
    have hnow := htime item List.mem_cons_self
    have htimes : ∀ stamp ∈ stamps, stamp.now - startedAt < ESC_TIMEOUT_MS :=
      fun stamp hmem => htime stamp (List.mem_cons_of_mem _ hmem)
    cases item with
    | poll now =>
      obtain ⟨after, hrun, hafter⟩ := ih h htimes hgoes hlength
      exact ⟨after, Mealy.run_cons_of stamp (h.stamp_poll hnow) hrun, hafter⟩
    | byte byte now dateNow =>
      have hparameter : isParameter byte = true := hgoes byte List.mem_cons_self
      obtain ⟨middle, hstep, hmiddle⟩ := h.consume_parameter (.inr ⟨hlength, hparameter⟩) now dateNow
      obtain ⟨after, hrun, hafter⟩ := ih hmiddle htimes
        (fun other hmem => hgoes other (List.mem_cons_of_mem _ hmem)) (by simp; omega)
      refine ⟨after, Mealy.run_cons_of stamp ((h.stamp_byte hnow).trans hstep) hrun, ?_⟩
      rw [List.append_assoc] at hafter
      exact hafter

/-! ## Inside a paste -/

/-- The event of a payload. -/
def payloadEvent (payload : List UInt8) : InputEvent :=
  if payload.length ≤ MAX_PASTE_BYTES then
    match decodeUtf8 payload with
    | some text => .paste text
    | none => .paste_rejected
  else .paste_rejected

/-- The decoder is in a paste, with `payload` behind it and `terminator` matched. -/
structure Pasting (payload terminator : List UInt8) (decoder : InputDecoder) : Prop where
  utf8 : decoder.utf8 = []
  escape : decoder.escape = none
  expiredXterm : decoder.expiredXterm = none
  paste : decoder.paste = true
  pasteBytes : decoder.pasteBytes = payload.take (MAX_PASTE_BYTES + 1)
  pasteTerminator : decoder.pasteTerminator = terminator
  pasteRejected : decoder.pasteRejected = decide (MAX_PASTE_BYTES < payload.length)
  pendingCr : decoder.pendingCr = false
  expiredCsi : decoder.expiredCsi = none
  ss3Pending : decoder.ss3Pending = false
  expiredSs3 : decoder.expiredSs3 = false

variable {payload terminator : List UInt8}

theorem Pasting.stamp_byte (h : decoder.Pasting payload terminator) (byte : UInt8)
    (now dateNow : Int) : stamp (.byte byte now dateNow) decoder = decoder.consumePaste byte := by
  rw [stamp, feedByte_of_quiet (escapeExpires_none h.escape) (ss3Expires_none h.ss3Pending)]
  simp [InputDecoder.consume, consumeBefore, h.paste]

theorem Pasting.stamp_poll (h : decoder.Pasting payload terminator) (now : Int) :
    stamp (.poll now) decoder = ([], decoder) :=
  poll_of_quiet (escapeExpires_none h.escape) (ss3Expires_none h.ss3Pending)

theorem appendPasteBytes_eq (decoder : InputDecoder) (bytes : List UInt8) :
    ∃ pasteBytes rejected, decoder.appendPasteBytes bytes = { decoder with
      pasteBytes := pasteBytes
      pasteRejected := rejected } := by
  rw [appendPasteBytes]
  split
  · exact ⟨decoder.pasteBytes, decoder.pasteRejected, rfl⟩
  · exact ⟨_, _, rfl⟩

/-- More payload; what is behind the bound is dropped. -/
theorem Pasting.append (h : decoder.Pasting payload terminator) (bytes : List UInt8) :
    Pasting (payload ++ bytes) [] { decoder.appendPasteBytes bytes with pasteTerminator := [] } := by
  have hbytes : (decoder.appendPasteBytes bytes).pasteBytes =
        (payload ++ bytes).take (MAX_PASTE_BYTES + 1) ∧
      (decoder.appendPasteBytes bytes).pasteRejected =
        decide (MAX_PASTE_BYTES < (payload ++ bytes).length) := by
    rw [appendPasteBytes]
    by_cases hlong : MAX_PASTE_BYTES < payload.length
    · rw [if_pos (by simp [h.pasteRejected, hlong]), h.pasteBytes, h.pasteRejected]
      refine ⟨(List.take_append_of_le_length hlong).symm, ?_⟩
      simp only [List.length_append, hlong, decide_true]
      exact (decide_eq_true (by omega)).symm
    · have hshort : payload.take (MAX_PASTE_BYTES + 1) = payload :=
        List.take_of_length_le (by omega)
      rw [if_neg (by simp [h.pasteRejected, hlong])]
      simp only [h.pasteBytes, hshort]
      refine ⟨?_, ?_⟩
      · rw [List.take_append, hshort]
      · refine decide_eq_decide.mpr ?_
        simp only [List.length_append, List.length_take]
        omega
  obtain ⟨pasteBytes, rejected, heq⟩ := appendPasteBytes_eq decoder bytes
  rw [heq] at hbytes ⊢
  exact ⟨h.utf8, h.escape, h.expiredXterm, h.paste, hbytes.1, rfl, hbytes.2, h.pendingCr,
    h.expiredCsi, h.ss3Pending, h.expiredSs3⟩

theorem Pasting.pasteEvent (h : decoder.Pasting payload terminator) :
    decoder.pasteEvent = payloadEvent payload := by
  rw [InputDecoder.pasteEvent, payloadEvent, h.pasteRejected, h.pasteBytes]
  by_cases hlong : MAX_PASTE_BYTES < payload.length
  · rw [if_pos (by simp [hlong]), if_neg (Nat.not_le.mpr hlong)]
  · have hshort : payload.take (MAX_PASTE_BYTES + 1) = payload :=
      List.take_of_length_le (by omega)
    have hneither : (decide (MAX_PASTE_BYTES < payload.length) ||
        decide (MAX_PASTE_BYTES < payload.length)) = false := by simp [hlong]
    cases hdecode : decodeUtf8 payload with
    | none =>
      simp only [hshort, hneither, hdecode, Bool.false_eq_true, if_false,
        if_pos (Nat.not_lt.mp hlong)]
    | some text =>
      simp only [hshort, hneither, hdecode, Bool.false_eq_true, if_false,
        if_pos (Nat.not_lt.mp hlong)]

/-- A byte of a paste that is no part of a terminator. -/
theorem Pasting.consume_plain (h : decoder.Pasting payload []) {byte : UInt8}
    (hbyte : byte ≠ 0x1b) : ∃ after, decoder.consumePaste byte = ([], after) ∧
      after.Pasting (payload ++ [byte]) [] := by
  refine ⟨decoder.appendPasteBytes [byte], ?_, ?_⟩
  · rw [consumePaste, if_neg (by simp [h.pasteTerminator, hbyte])]
  · have happend := h.append [byte]
    obtain ⟨pasteBytes, rejected, heq⟩ := appendPasteBytes_eq decoder [byte]
    rw [heq] at happend ⊢
    exact ⟨h.utf8, h.escape, h.expiredXterm, h.paste, happend.pasteBytes, h.pasteTerminator,
      happend.pasteRejected, h.pendingCr, h.expiredCsi, h.ss3Pending, h.expiredSs3⟩

/-- A byte that continues the match. -/
theorem Pasting.consume_matching (h : decoder.Pasting payload terminator) {byte : UInt8}
    (hstarts : terminator ≠ [] ∨ byte = 0x1b) (hstart : terminator ++ [byte] <+: PASTE_END)
    (hlength : terminator.length + 1 < PASTE_END.length) :
    ∃ after, decoder.consumePaste byte = ([], after) ∧
      after.Pasting payload (terminator ++ [byte]) := by
  have hlooks : (!decoder.pasteTerminator.isEmpty || byte == 0x1b) = true := by
    rw [h.pasteTerminator]
    rcases hstarts with hstarts | rfl
    · simp [hstarts]
    · simp
  refine ⟨{ decoder with pasteTerminator := terminator ++ [byte] }, ?_, h.utf8, h.escape,
    h.expiredXterm, h.paste, h.pasteBytes, rfl, h.pasteRejected, h.pendingCr, h.expiredCsi,
    h.ss3Pending, h.expiredSs3⟩
  rw [consumePaste, if_pos hlooks]
  simp only [h.pasteTerminator]
  rw [if_pos (List.isPrefixOf_iff_prefix.mpr hstart), if_neg (by simp; omega)]

/-- The byte that completes the terminator. -/
theorem Pasting.consume_end (h : decoder.Pasting payload terminator) {byte : UInt8}
    (hterminator : terminator ≠ []) (hend : terminator ++ [byte] = PASTE_END) :
    ∃ after, decoder.consumePaste byte = ([payloadEvent payload], after) ∧ after.Ground false ∧
      after.pasteBytes = [] ∧ after.pasteTerminator = [] ∧ after.pasteRejected = false := by
  refine ⟨{ decoder with
    paste := false
    pasteTerminator := []
    pasteBytes := []
    pasteRejected := false }, ?_, ⟨h.utf8, h.escape, h.expiredXterm, rfl, h.pendingCr, h.expiredCsi,
    h.ss3Pending, h.expiredSs3⟩, rfl, rfl, rfl⟩
  rw [consumePaste, if_pos (by simp [h.pasteTerminator, hterminator])]
  simp only [h.pasteTerminator, hend]
  rw [if_pos (List.isPrefixOf_iff_prefix.mpr List.prefix_rfl), if_pos True.intro, h.pasteEvent]

/-- A byte that breaks the match is payload with what was matched. -/
theorem Pasting.consume_breaking (h : decoder.Pasting payload terminator) {byte : UInt8}
    (hstarts : terminator ≠ []) (hbreaks : ¬ terminator ++ [byte] <+: PASTE_END) :
    ∃ after, decoder.consumePaste byte = ([], after) ∧
      after.Pasting (payload ++ (terminator ++ [byte])) [] := by
  refine ⟨_, ?_, h.append (terminator ++ [byte])⟩
  rw [consumePaste, if_pos (by simp [h.pasteTerminator, hstarts])]
  simp only [h.pasteTerminator]
  rw [if_neg (mt List.isPrefixOf_iff_prefix.mp hbreaks)]

/-! ## Payloads that end without an open match -/

/-- The payload is made of bytes other than ESC and of broken terminators: a started terminator with
a byte that does not go on with it. -/
inductive Clear : List UInt8 → Prop where
  | nil : Clear []
  | plain {byte : UInt8} {rest : List UInt8} (hbyte : byte ≠ 0x1b) (hrest : Clear rest) :
      Clear (byte :: rest)
  | broken {started : List UInt8} {byte : UInt8} {rest : List UInt8} (hstarted : started ≠ [])
      (hstart : started <+: PASTE_END) (hbreaks : ¬ started ++ [byte] <+: PASTE_END)
      (hlength : started.length < PASTE_END.length) (hrest : Clear rest) :
      Clear (started ++ byte :: rest)

/-- The terminator starts with ESC and has no other one. -/
theorem head_of_prefix {started : List UInt8} (hstarted : started ≠ [])
    (hstart : started <+: PASTE_END) : ∃ rest, started = 0x1b :: rest := by
  obtain ⟨more, hmore⟩ := hstart
  cases started with
  | nil => exact absurd rfl hstarted
  | cons head rest =>
    obtain ⟨rfl, -⟩ := List.cons.inj hmore
    exact ⟨rest, rfl⟩

/-- Two fronts of one list, each broken or ended behind it, are the same. -/
theorem append_cons_inj {α : Type} {whole first second left right : List α} {a b : α}
    (h : first ++ a :: left = second ++ b :: right) (hfirst : first <+: whole)
    (hsecond : second <+: whole) (ha : ¬ first ++ [a] <+: whole) (hb : ¬ second ++ [b] <+: whole) :
    first = second ∧ a = b ∧ left = right := by
  have hleft : first ++ [a] <+: first ++ a :: left := ⟨left, by simp⟩
  have hright : second ++ [b] <+: first ++ a :: left := ⟨right, by simp [h]⟩
  rcases Nat.lt_trichotomy first.length second.length with hlt | heq | hgt
  · have hshort : first ++ [a] <+: second :=
      List.prefix_of_prefix_length_le hleft ⟨b :: right, h.symm⟩ (by simp; omega)
    exact absurd (hshort.trans hsecond) ha
  · obtain ⟨rfl, htail⟩ := List.append_inj h heq
    obtain ⟨rfl, rfl⟩ := List.cons.inj htail
    exact ⟨rfl, rfl, rfl⟩
  · have hshort : second ++ [b] <+: first :=
      List.prefix_of_prefix_length_le hright ⟨a :: left, rfl⟩ (by simp; omega)
    exact absurd (hshort.trans hfirst) hb

theorem clear_plain_iff {byte : UInt8} {rest : List UInt8} (hbyte : byte ≠ 0x1b) :
    Clear (byte :: rest) ↔ Clear rest := by
  refine ⟨fun h => ?_, .plain hbyte⟩
  generalize heq : byte :: rest = whole at h
  cases h with
  | nil => cases heq
  | plain _ hrest =>
    cases heq
    exact hrest
  | broken hstarted hstart =>
    obtain ⟨more, rfl⟩ := head_of_prefix hstarted hstart
    cases heq
    exact absurd rfl hbyte

theorem clear_broken_iff {started : List UInt8} {byte : UInt8} {rest : List UInt8}
    (hstarted : started ≠ []) (hstart : started <+: PASTE_END)
    (hbreaks : ¬ started ++ [byte] <+: PASTE_END) (hlength : started.length < PASTE_END.length) :
    Clear (started ++ byte :: rest) ↔ Clear rest := by
  refine ⟨fun h => ?_, .broken hstarted hstart hbreaks hlength⟩
  generalize heq : started ++ byte :: rest = whole at h
  cases h with
  | nil => simp at heq
  | plain hbyte =>
    obtain ⟨more, rfl⟩ := head_of_prefix hstarted hstart
    cases heq
    exact absurd rfl hbyte
  | broken _ hstarts' hbreaks' _ hrest =>
    obtain ⟨-, -, rfl⟩ := append_cons_inj heq hstart hstarts' hbreaks hbreaks'
    exact hrest

/-- A started terminator alone is open. -/
theorem not_clear_started {started : List UInt8} (hstarted : started ≠ [])
    (hstart : started <+: PASTE_END) : ¬ Clear started := by
  intro h
  cases h with
  | nil => exact hstarted rfl
  | plain hbyte =>
    obtain ⟨more, hmore⟩ := head_of_prefix hstarted hstart
    cases hmore
    exact hbyte rfl
  | broken _ _ hbreaks =>
    refine hbreaks (List.IsPrefix.trans ?_ hstart)
    exact ⟨_, by simp; rfl⟩

/-! ## The payload -/

/-- Behind a payload the match that is open stands at the end; there is none exactly where the payload
is clear. -/
theorem Pasting.run_payload (h : decoder.Pasting payload terminator)
    (hterminator : terminator <+: PASTE_END) (hlength : terminator.length < PASTE_END.length)
    {stamps : List Stamp} (hinside : ¬ PASTE_END <:+: terminator ++ stampBytes stamps) :
    ∃ after before started, Mealy.run stamp stamps decoder = ([], after) ∧
      after.Pasting before started ∧ before ++ started = payload ++ (terminator ++ stampBytes stamps) ∧
      started <+: PASTE_END ∧ started.length < PASTE_END.length ∧
      (started = [] ↔ Clear (terminator ++ stampBytes stamps)) := by
  induction stamps generalizing decoder payload terminator with
  | nil =>
    refine ⟨decoder, payload, terminator, rfl, h, by simp [stampBytes], hterminator, hlength, ?_⟩
    simp only [stampBytes, List.flatMap_nil, List.append_nil]
    constructor
    · rintro rfl
      exact .nil
    · intro hclear
      by_cases hnil : terminator = []
      · exact hnil
      · exact absurd hclear (not_clear_started hnil hterminator)
  | cons item stamps ih =>
    cases item with
    | poll now =>
      obtain ⟨after, before, started, hrun, hafter⟩ := ih h hterminator hlength hinside
      exact ⟨after, before, started, Mealy.run_cons_of stamp (h.stamp_poll now) hrun, hafter⟩
    | byte byte now dateNow =>
      have hbytes : stampBytes (.byte byte now dateNow :: stamps) = byte :: stampBytes stamps := rfl
      rw [hbytes] at hinside ⊢
      have happend : terminator ++ byte :: stampBytes stamps =
          terminator ++ [byte] ++ stampBytes stamps := by simp
      have htail : ¬ PASTE_END <:+: [] ++ stampBytes stamps := fun hin =>
        hinside (happend ▸ hin.trans (List.suffix_append _ _).isInfix)
      by_cases hcontinues : (terminator ≠ [] ∨ byte = 0x1b) ∧ terminator ++ [byte] <+: PASTE_END
      · obtain ⟨hstarts, hstart⟩ := hcontinues
        have hshort : terminator.length + 1 < PASTE_END.length := by
          refine Nat.lt_of_le_of_ne hlength fun hfull => hinside ?_
          have hend : terminator ++ [byte] = PASTE_END :=
            hstart.eq_of_length (by simpa using hfull)
          rw [happend, hend]
          exact (List.prefix_append _ _).isInfix
        obtain ⟨middle, hstep, hmiddle⟩ := h.consume_matching hstarts hstart hshort
        rw [happend] at hinside ⊢
        obtain ⟨after, before, started, hrun, hafter⟩ :=
          ih hmiddle hstart (by simpa using hshort) hinside
        exact ⟨after, before, started,
          Mealy.run_cons_of stamp ((h.stamp_byte byte now dateNow).trans hstep) hrun, hafter⟩
      · by_cases hnil : terminator = []
        · subst hnil
          have hbyte : byte ≠ 0x1b := fun hesc => hcontinues ⟨.inr hesc, by rw [hesc]; decide⟩
          obtain ⟨middle, hstep, hmiddle⟩ := h.consume_plain hbyte
          obtain ⟨after, before, started, hrun, hafter, hsplit, hstart, hshort, hclear⟩ :=
            ih hmiddle List.nil_prefix hlength htail
          refine ⟨after, before, started,
            Mealy.run_cons_of stamp ((h.stamp_byte byte now dateNow).trans hstep) hrun, hafter, ?_,
            hstart, hshort, hclear.trans (clear_plain_iff hbyte).symm⟩
          rw [hsplit]
          simp
        · have hbreaks : ¬ terminator ++ [byte] <+: PASTE_END := fun hstart =>
            hcontinues ⟨.inl hnil, hstart⟩
          obtain ⟨middle, hstep, hmiddle⟩ := h.consume_breaking hnil hbreaks
          obtain ⟨after, before, started, hrun, hafter, hsplit, hstart, hshort, hclear⟩ :=
            ih hmiddle List.nil_prefix (by decide) htail
          refine ⟨after, before, started,
            Mealy.run_cons_of stamp ((h.stamp_byte byte now dateNow).trans hstep) hrun, hafter, ?_,
            hstart, hshort,
            hclear.trans (clear_broken_iff hnil hterminator hbreaks hlength).symm⟩
          rw [hsplit]
          simp

/-! ## The whole paste -/

/-- A started sequence in time, up to the byte before its final one. -/
theorem Ground.run_introducer {carriage : Bool} (h : decoder.Ground carriage) {now : Int}
    (dateNow : Int) {stamps : List Stamp} {parameters : List UInt8}
    (hbytes : stampBytes stamps = 0x5b :: parameters)
    (hparameters : ∀ byte ∈ parameters, isParameter byte = true)
    (htime : ∀ stamp ∈ stamps, stamp.now - now < ESC_TIMEOUT_MS) :
    ∃ after, Mealy.run stamp (.byte 0x1b now dateNow :: stamps) decoder = ([], after) ∧
      after.Escaping now (0x1b :: 0x5b :: parameters) := by
  obtain ⟨started, hstarted, hescaping⟩ := h.escape_started now dateNow
  obtain ⟨polls, later, dateLater, more, rfl, hpolls, hmore⟩ := exists_stamps_cons hbytes
  have hlater : later - now < ESC_TIMEOUT_MS := htime (.byte 0x5b later dateLater) (by simp)
  obtain ⟨introduced, hstep, hintroduced⟩ :=
    hescaping.consume_parameter (.inl ⟨rfl, rfl⟩) later dateLater
  obtain ⟨after, hrun, hafter⟩ := hintroduced.run_parameters
    (fun stamp hmem => htime stamp (by simp [hmem])) (hmore ▸ hparameters) (Nat.le_refl 2)
  refine ⟨after, ?_, hmore ▸ hafter⟩
  have hwait := run_polls hpolls fun poll hmem =>
    hescaping.stamp_poll (htime (.poll poll) (by simp [hmem]))
  exact Mealy.run_cons_of stamp hstarted (Mealy.run_append_of stamp hwait
    (Mealy.run_cons_of stamp ((hescaping.stamp_byte hlater).trans hstep) hrun))

/-- `PASTE_BEGIN` in time starts a paste. -/
theorem Ground.run_begin {carriage : Bool} (h : decoder.Ground carriage) {stamps : List Stamp}
    (hbytes : stampBytes stamps = PASTE_BEGIN)
    (htime : ∀ first ∈ stamps, ∀ second ∈ stamps, second.now - first.now < ESC_TIMEOUT_MS) :
    ∃ after, Mealy.run stamp stamps decoder = ([], after) ∧ after.Pasting [] [] := by
  obtain ⟨polls, now, dateNow, more, rfl, hpolls, hmore⟩ := exists_stamps_cons hbytes
  have hsplit : stampBytes more = [0x5b, 0x32, 0x30, 0x30] ++ [0x7e] := hmore
  obtain ⟨front, rest, rfl, hfront, hrest⟩ := exists_stamps_append hsplit
  have hstamp : ∀ stamp ∈ front ++ rest, stamp.now - now < ESC_TIMEOUT_MS := fun stamp hmem =>
    htime (.byte 0x1b now dateNow) (by simp) stamp
      (List.mem_append_right _ (List.mem_cons_of_mem _ hmem))
  obtain ⟨escaping, hescape, hescaping⟩ := h.run_introducer dateNow hfront (by decide +kernel)
    fun stamp hmem => hstamp stamp (List.mem_append_left _ hmem)
  obtain ⟨waits, later, dateLater, tail, rfl, hwaits, htail⟩ := exists_stamps_cons hrest
  have hlater : later - now < ESC_TIMEOUT_MS := hstamp (.byte 0x7e later dateLater) (by simp)
  let after : InputDecoder := { escaping with
    escape := none
    paste := true
    pasteBytes := []
    pasteTerminator := []
    pasteRejected := false }
  have hafter : after.Pasting [] [] := ⟨hescaping.utf8, rfl, hescaping.expiredXterm, rfl, rfl, rfl,
    rfl, hescaping.pendingCr, hescaping.expiredCsi, hescaping.ss3Pending, hescaping.expiredSs3⟩
  refine ⟨after, ?_, hafter⟩
  have hstep : stamp (.byte 0x7e later dateLater) escaping = ([], after) := hescaping.stamp_byte hlater
  have hbefore := run_polls hpolls fun poll _ => h.stamp_poll poll
  have hwait := run_polls hwaits fun poll hmem =>
    hescaping.stamp_poll (hstamp (.poll poll) (by simp [hmem]))
  have hbehind := run_polls htail fun poll _ => hafter.stamp_poll poll
  have hend := Mealy.run_append_of stamp hwait (Mealy.run_cons_of stamp hstep hbehind)
  have hwhole := Mealy.run_append_of stamp hbefore (Mealy.run_append_of stamp hescape hend)
  simpa using hwhole

/-- The decoder behind a paste. -/
def Cleared (decoder : InputDecoder) : Prop :=
  decoder.Ground false ∧ decoder.pasteBytes = [] ∧ decoder.pasteTerminator = [] ∧
    decoder.pasteRejected = false

/-- The rest of the terminator ends the paste. -/
theorem Pasting.run_end (h : decoder.Pasting payload terminator) {stamps : List Stamp}
    (hend : terminator ++ stampBytes stamps = PASTE_END)
    (hlength : terminator.length < PASTE_END.length) :
    ∃ after, Mealy.run stamp stamps decoder = ([payloadEvent payload], after) ∧ after.Cleared := by
  induction stamps generalizing decoder terminator with
  | nil =>
    rw [← hend] at hlength
    simp [stampBytes] at hlength
  | cons item stamps ih =>
    cases item with
    | poll now =>
      obtain ⟨after, hrun, hafter⟩ := ih h hend hlength
      exact ⟨after, Mealy.run_cons_of stamp (h.stamp_poll now) hrun, hafter⟩
    | byte byte now dateNow =>
      have happend : terminator ++ [byte] ++ stampBytes stamps = PASTE_END := by
        rw [← hend]
        simp [stampBytes, Stamp.bytes]
      have hstart : terminator ++ [byte] <+: PASTE_END := ⟨_, happend⟩
      have hstarts : terminator ≠ [] ∨ byte = 0x1b := by
        by_cases hnil : terminator = []
        · subst hnil
          exact .inr (List.cons.inj happend).1
        · exact .inl hnil
      by_cases hfull : terminator.length + 1 = PASTE_END.length
      · have hnil : terminator ≠ [] := by
          rintro rfl
          cases hfull
        have hwhole : terminator ++ [byte] = PASTE_END := hstart.eq_of_length (by simpa using hfull)
        have hrest : stampBytes stamps = [] := by
          rw [hwhole] at happend
          simpa using happend
        obtain ⟨after, hstep, hground, hcleared⟩ := h.consume_end hnil hwhole
        refine ⟨after, ?_, hground, hcleared⟩
        exact Mealy.run_cons_of stamp ((h.stamp_byte byte now dateNow).trans hstep)
          (run_polls hrest fun poll _ => hground.stamp_poll poll)
      · have hshort : terminator.length + 1 < PASTE_END.length :=
          Nat.lt_of_le_of_ne hlength hfull
        obtain ⟨middle, hstep, hmiddle⟩ := h.consume_matching hstarts hstart hshort
        obtain ⟨after, hrun, hafter⟩ := ih hmiddle happend (by simpa using hshort)
        exact ⟨after,
          Mealy.run_cons_of stamp ((h.stamp_byte byte now dateNow).trans hstep) hrun, hafter⟩

/-- Behind an open match the terminator is payload. -/
theorem Pasting.run_missed (h : decoder.Pasting payload terminator) (hterminator : terminator ≠ [])
    (hstart : terminator <+: PASTE_END) (hlength : terminator.length < PASTE_END.length)
    {stamps : List Stamp} (hbytes : stampBytes stamps = PASTE_END) :
    ∃ after, Mealy.run stamp stamps decoder = ([], after) ∧ after.paste = true := by
  have hsplit : stampBytes stamps = [0x1b] ++ [0x5b, 0x32, 0x30, 0x31, 0x7e] := hbytes
  obtain ⟨front, rest, rfl, hfront, hrest⟩ := exists_stamps_append hsplit
  have hbreaks : ¬ terminator ++ [0x1b] <+: PASTE_END := by
    intro hstarts
    obtain ⟨more, rfl⟩ := head_of_prefix hterminator hstart
    have htail : more ++ [0x1b] <+: [0x5b, 0x32, 0x30, 0x31, 0x7e] :=
      (List.cons_prefix_cons.mp hstarts).2
    have hmem : (0x1b : UInt8) ∈ ([0x5b, 0x32, 0x30, 0x31, 0x7e] : List UInt8) :=
      htail.subset (by simp)
    revert hmem
    decide
  have hinside : ¬ PASTE_END <:+: terminator ++ stampBytes front := by
    rw [hfront]
    intro hin
    have heq : PASTE_END = terminator ++ [0x1b] :=
      hin.eq_of_length_le (by simp; omega)
    exact hbreaks (heq ▸ List.prefix_rfl)
  obtain ⟨middle, before, started, hrun, hmiddle, -, -, -, hclear⟩ :=
    h.run_payload hstart hlength hinside
  have hnone : started = [] := by
    refine hclear.mpr ?_
    rw [hfront]
    exact .broken hterminator hstart hbreaks hlength .nil
  subst hnone
  have hinside' : ¬ PASTE_END <:+: [] ++ stampBytes rest := by
    rw [hrest]
    intro hin
    have hle := hin.length_le
    revert hle
    decide
  obtain ⟨after, _, _, hrun', hafter, -⟩ := hmiddle.run_payload List.nil_prefix (by decide) hinside'
  exact ⟨after, Mealy.run_append_of stamp hrun hrun', hafter.paste⟩

/-- Calls whose times all lie within the escape timeout. -/
def WithinTimeout (calls : List Call) : Prop :=
  ∀ first ∈ calls, ∀ second ∈ calls, second.now - first.now < ESC_TIMEOUT_MS

theorem exists_call {calls : List Call} {item : Stamp} (h : item ∈ calls.flatMap Call.stamps) :
    ∃ call ∈ calls, call.now = item.now := by
  obtain ⟨call, hcall, hitem⟩ := List.mem_flatMap.mp h
  refine ⟨call, hcall, ?_⟩
  cases call with
  | feed bytes now dateNow =>
    obtain ⟨byte, -, rfl⟩ := List.mem_map.mp hitem
    rfl
  | poll now =>
    rw [List.mem_singleton.mp hitem]
    rfl

/-- The stamps of a paste, up to its payload: the match that is open stands at the end. -/
theorem Ground.run_paste {carriage : Bool} (h : decoder.Ground carriage) {calls : List Call}
    {payload : List UInt8} (hpayload : ¬ PASTE_END <:+: payload)
    (hbytes : calls.flatMap Call.bytes = PASTE_BEGIN ++ payload ++ PASTE_END)
    (htime : WithinTimeout calls) :
    ∃ stamps middle before started rest, calls.flatMap Call.stamps = stamps ++ rest ∧
      Mealy.run stamp stamps decoder = ([], middle) ∧ middle.Pasting before started ∧
      before ++ started = payload ∧ started <+: PASTE_END ∧
      started.length < PASTE_END.length ∧ (started = [] ↔ Clear payload) ∧
      stampBytes rest = PASTE_END := by
  rw [← stampBytes_stamps, List.append_assoc] at hbytes
  obtain ⟨first, others, hstamps, hbegin, hothers⟩ := exists_stamps_append hbytes
  obtain ⟨inside, rest, rfl, hinside, hrest⟩ := exists_stamps_append hothers
  have hspan : ∀ left ∈ first, ∀ right ∈ first, right.now - left.now < ESC_TIMEOUT_MS := by
    intro left hleft right hright
    obtain ⟨one, hone, hleft⟩ := exists_call (hstamps ▸ List.mem_append_left _ hleft)
    obtain ⟨other, hother, hright⟩ := exists_call (hstamps ▸ List.mem_append_left _ hright)
    rw [← hleft, ← hright]
    exact htime one hone other hother
  obtain ⟨begun, hrun, hbegun⟩ := h.run_begin hbegin hspan
  have hnone : ¬ PASTE_END <:+: [] ++ stampBytes inside := by
    rw [hinside]
    exact hpayload
  obtain ⟨middle, before, started, hrun', hmiddle, hsplit, hstart, hlength, hclear⟩ :=
    hbegun.run_payload List.nil_prefix (by decide) hnone
  rw [hinside] at hsplit hclear
  exact ⟨first ++ inside, middle, before, started, rest, by rw [hstamps, List.append_assoc],
    Mealy.run_append_of stamp hrun hrun', hmiddle, hsplit, hstart, hlength, hclear, hrest⟩

/-- A paste in time is one event and leaves nothing pending, in any chunks and from any quiet state,
exactly where no match of the terminator is open at the end of the payload. -/
theorem paste_framed (payload : List UInt8) (hpayload : ¬ PASTE_END <:+: payload) :
    (∀ (decoder : InputDecoder) (carriage : Bool) (calls : List Call), decoder.Ground carriage →
      calls.flatMap Call.bytes = PASTE_BEGIN ++ payload ++ PASTE_END → WithinTimeout calls →
        ∃ after, Mealy.run call calls decoder = ([payloadEvent payload], after) ∧ after.Cleared) ↔
      Clear payload := by
  constructor
  · intro hframed
    -- A paste in one feed is a paste in time.
    let calls : List Call := [.feed (PASTE_BEGIN ++ payload ++ PASTE_END) 0 0]
    have hbytes : calls.flatMap Call.bytes = PASTE_BEGIN ++ payload ++ PASTE_END := by
      simp [calls, Call.bytes]
    have htime : WithinTimeout calls := by
      intro first hfirst second hsecond
      rw [List.mem_singleton.mp hfirst, List.mem_singleton.mp hsecond]
      show (0 : Int) - 0 < ESC_TIMEOUT_MS
      decide
    obtain ⟨stamps, middle, before, started, rest, hstamps, hrun, hmiddle, -, hstart, hlength,
      hclear, hrest⟩ := ground_start.run_paste hpayload hbytes htime
    by_cases hstarted : started = []
    · exact hclear.mp hstarted
    · obtain ⟨after, hmissed, -⟩ := hmiddle.run_missed hstarted hstart hlength hrest
      obtain ⟨other, hevents, -⟩ := hframed start false calls ground_start hbytes htime
      rw [run_call, hstamps, Mealy.run_append_of stamp hrun hmissed] at hevents
      cases hevents
  · intro hpayloadClear decoder carriage calls hground hbytes htime
    obtain ⟨stamps, middle, before, started, rest, hstamps, hrun, hmiddle, hsplit, -, -, hclear,
      hrest⟩ := hground.run_paste hpayload hbytes htime
    rw [hclear.mpr hpayloadClear] at hmiddle hsplit
    rw [List.append_nil] at hsplit
    obtain ⟨after, hend, hcleared⟩ := hmiddle.run_end hrest (by decide)
    refine ⟨after, ?_, hcleared⟩
    rw [run_call, hstamps, Mealy.run_append_of stamp hrun hend, hsplit]
    rfl

theorem paste_framed_letter : ∃ after,
    Mealy.run call [.feed (PASTE_BEGIN ++ [0x61] ++ PASTE_END) 0 0] start =
      ([.paste [0x61]], after) ∧ after.Cleared := by
  have hclear : Clear [0x61] := .plain (by decide) .nil
  refine (paste_framed [0x61] (by decide)).mpr hclear start false _ ground_start (by decide) ?_
  intro first hfirst second hsecond
  rw [List.mem_singleton.mp hfirst, List.mem_singleton.mp hsecond]
  decide

/-- A payload that ends in ESC opens a match that the ESC of the terminator breaks: the paste does not
end. -/
theorem terminator_missed : ¬ PASTE_END <:+: [0x1b] ∧
    Mealy.run call [.feed (PASTE_BEGIN ++ [0x1b] ++ PASTE_END ++ [0x61, 0x0d]) 0 0] start =
      ([], { start with
        paste := true
        pasteBytes := [0x1b] ++ PASTE_END ++ [0x61, 0x0d] }) := by
  decide +kernel

end InputDecoder

end Henji
