import Henji.Library.Utf8
import Henji.Tui.PasteFraming

/-!
# Keys as tokens

Terminal input is a sequence of tokens: scalars in UTF-8, control bytes, CSI and SS3 sequences. The
events of a token do not depend on the tokens before it, but for a line feed behind a carriage
return, nor on the feeds that its bytes come in. A CSI or SS3 sequence whose time ran out behind its
introducer is absorbed with its late bytes.

The exception is the xterm form of Alt+Enter: its late bytes are replayed as input, and so are late
bytes that only end like it.
-/

namespace Henji

namespace InputDecoder

/-! ## Tokens -/

inductive Token where
  | scalar (point : Nat)
  | control (byte : UInt8)
  | csi (parameters : List UInt8) (final : UInt8)
  | ss3 (byte : UInt8)
deriving DecidableEq, Repr

namespace Token

def bytes : Token → List UInt8
  | scalar point => encodePoint point
  | control byte => [byte]
  | csi parameters final => 0x1b :: 0x5b :: (parameters ++ [final])
  | ss3 byte => [0x1b, 0x4f, byte]

/-- A control byte. -/
def isControl (byte : UInt8) : Prop := byte < 0x20 ∨ byte = 0x7f

instance (byte : UInt8) : Decidable (isControl byte) := inferInstanceAs (Decidable (_ ∨ _))

def Valid : Token → Prop
  | scalar point => isScalar point ∧ 0x20 ≤ point ∧ point ≠ 0x7f
  | control byte => isControl byte ∧ byte ≠ 0x1b
  | csi parameters final => (∀ byte ∈ parameters, 0x20 ≤ byte ∧ byte ≤ 0x3f) ∧
      isFinal final = true ∧ 0x1b :: 0x5b :: (parameters ++ [final]) ≠ PASTE_BEGIN
  | ss3 _ => True

def isSequence : Token → Bool
  | csi .. | ss3 _ => true
  | _ => false

/-- The events that a token gives alone. -/
def alone (token : Token) : List InputEvent := (feed 0 0 token.bytes start).1

end Token

/-- A payload byte that gives one of these events has leaked out of its sequence. -/
def leaks : InputEvent → Bool
  | .printable .. | .enter | .tab | .backspace | .ctrl_c | .ctrl_d | .ctrl_q | .ctrl_u => true
  | _ => false

/-- The events of tokens one after the other; CR LF is one enter. -/
def joined : Bool → List Token → List InputEvent
  | _, [] => []
  | carriage, token :: tokens =>
    (if carriage && token == .control 0x0a then [] else token.alone) ++
      joined (token == .control 0x0d) tokens

/-! ## Traces of tokens -/

/-- A stamped token, from its first byte to its last, or a poll between tokens. -/
inductive Piece where
  | token (token : Token) (stamps : List Stamp)
  | poll (now : Int)
deriving DecidableEq, Repr

def Stamp.isByte : Stamp → Bool
  | .byte .. => true
  | .poll _ => false

/-- The time of a token is the one of its first byte. -/
def startedAt (stamps : List Stamp) : Int := (stamps.head?.map Stamp.now).getD 0

/-- A stamp comes before the deadline of its token. -/
def early (stamps : List Stamp) (stamp : Stamp) : Prop :=
  stamp.now - startedAt stamps < ESC_TIMEOUT_MS

instance (stamps : List Stamp) (stamp : Stamp) : Decidable (early stamps stamp) :=
  inferInstanceAs (Decidable (_ < _))

namespace Piece

def stamps : Piece → List Stamp
  | token _ stamps => stamps
  | poll now => [.poll now]

def Valid : Piece → Prop
  | token key stamps => key.Valid ∧ stampBytes stamps = key.bytes ∧
      stamps.head?.any Stamp.isByte = true ∧ stamps.getLast?.any Stamp.isByte = true
  | poll _ => True

def isSequence : Piece → Bool
  | token key _ => key.isSequence
  | poll _ => false

/-- No delay inside the token reaches the timeout. -/
def InTime : Piece → Prop
  | token _ stamps => ∀ stamp ∈ stamps, early stamps stamp
  | poll _ => True

/-- The time of the token runs out behind its introducer, and its late bytes are not the end of the
xterm form of Alt+Enter. -/
def AbsorbedLate : Piece → Prop
  | token key stamps => ∃ front item rest, stamps = front ++ item :: rest ∧
      (∀ stamp ∈ front, early stamps stamp) ∧ ¬ early stamps item ∧
      2 ≤ (stampBytes front).length ∧
      key.bytes.drop (stampBytes front).length ≠ ALT_ENTER_XTERM.drop (stampBytes front).length
  | poll _ => False

def tokens : Piece → List Token
  | token key _ => [key]
  | poll _ => []

end Piece

/-! ## Scalars and control bytes -/

variable {decoder : InputDecoder} {carriage : Bool}

/-- The event of a control byte. -/
def controlByteEvent (byte : UInt8) : InputEvent :=
  if byte = 0x0d then .enter else (controlEvent byte).getD .unknown

theorem controlEvent_unknown {byte : UInt8} (h : Token.isControl byte)
    (hnone : controlEvent byte = none) : utf8Width byte = 1 ∧ ¬ (0x20 ≤ byte ∧ byte ≠ 0x7f) := by
  rcases h with hlt | rfl
  · constructor
    · have hle : byte ≤ 0x7f := by
        rw [UInt8.le_iff_toNat_le]
        rw [UInt8.lt_iff_toNat_lt] at hlt
        exact Nat.le_of_lt (Nat.lt_trans hlt (by decide))
      simp [utf8Width, hle]
    · rintro ⟨hle, -⟩
      rw [UInt8.le_iff_toNat_le] at hle
      rw [UInt8.lt_iff_toNat_lt] at hlt
      exact absurd hlt (Nat.not_lt.mpr hle)
  · simp [controlEvent] at hnone

theorem consumeGround_control {byte : UInt8} (hcontrol : Token.isControl byte)
    (hescape : byte ≠ 0x1b) (now : Int) (h : decoder.pendingCr = false) :
    decoder.consumeGround byte now = ([controlByteEvent byte], { decoder with
      pendingCr := byte == 0x0d }) := by
  rw [consumeGround, if_neg hescape, controlByteEvent]
  by_cases hreturn : byte = 0x0d
  · subst hreturn
    rfl
  · have hsame : { decoder with pendingCr := byte == 0x0d } = decoder := by
      rw [beq_eq_false_iff_ne.mpr hreturn, ← h]
    rw [if_neg hreturn, if_neg hreturn, hsame]
    cases hevent : controlEvent byte with
    | some event => rfl
    | none =>
      obtain ⟨hwidth, hrange⟩ := controlEvent_unknown hcontrol hevent
      simp only [hwidth, if_neg hrange]
      rfl

/-- A control byte gives its event, but for a line feed behind a carriage return. -/
theorem Ground.run_control (h : decoder.Ground carriage) {byte : UInt8} {stamps : List Stamp}
    (hvalid : (Token.control byte).Valid) (hbytes : stampBytes stamps = [byte]) :
    ∃ after, Mealy.run stamp stamps decoder =
        (if carriage && byte == 0x0a then [] else [controlByteEvent byte], after) ∧
      after.Ground (byte == 0x0d) := by
  obtain ⟨polls, now, dateNow, more, rfl, hpolls, hmore⟩ := exists_stamps_cons hbytes
  have hbefore := run_polls hpolls fun poll _ => h.stamp_poll poll
  have hstep : ∃ after, stamp (.byte byte now dateNow) decoder =
      (if carriage && byte == 0x0a then [] else [controlByteEvent byte], after) ∧
        after.Ground (byte == 0x0d) := by
    rw [h.stamp_byte]
    by_cases hfeed : carriage = true ∧ byte = 0x0a
    · obtain ⟨rfl, rfl⟩ := hfeed
      refine ⟨{ decoder with pendingCr := false }, ?_, h.utf8, h.escape, h.expiredXterm, h.paste,
        rfl, h.expiredCsi, h.ss3Pending, h.expiredSs3⟩
      simp [InputDecoder.consumeText, h.pendingCr]
    · rw [h.consumeText hfeed, consumeGround_control hvalid.1 hvalid.2 now rfl]
      refine ⟨{ decoder with pendingCr := byte == 0x0d }, ?_, h.utf8, h.escape, h.expiredXterm,
        h.paste, rfl, h.expiredCsi, h.ss3Pending, h.expiredSs3⟩
      rw [if_neg (by simpa using hfeed)]
  obtain ⟨after, hstep, hafter⟩ := hstep
  refine ⟨after, ?_, hafter⟩
  have hbehind := run_polls hmore fun poll _ => hafter.stamp_poll poll
  have hwhole := Mealy.run_append_of stamp hbefore (Mealy.run_cons_of stamp hstep hbehind)
  simpa using hwhole

/-- The bytes of a scalar behind ASCII: a first byte that says how many there are, and its
continuations. -/
structure Run (first : UInt8) (continuations : List UInt8) : Prop where
  width : utf8Width first = continuations.length + 1
  continues : continuations ≠ []
  above : 0x80 ≤ first.toNat
  continuation : ∀ byte ∈ continuations, isContinuation byte = true
  second : ∀ byte, continuations.head? = some byte → validSecond first byte 1 = true

theorem utf8Width_ofNat : ∀ n : Fin 256, utf8Width (UInt8.ofNat n.1) =
    if n.1 ≤ 0x7f then 1
    else if 0xc2 ≤ n.1 ∧ n.1 ≤ 0xdf then 2
    else if 0xe0 ≤ n.1 ∧ n.1 ≤ 0xef then 3
    else if 0xf0 ≤ n.1 ∧ n.1 ≤ 0xf4 then 4
    else 0 := by
  decide +kernel

/-- The first bytes that limit their second one. -/
theorem validSecond_of {first byte : UInt8} (he0 : first.toNat = 0xe0 → 0xa0 ≤ byte.toNat)
    (hed : first.toNat = 0xed → byte.toNat ≤ 0x9f) (hf0 : first.toNat = 0xf0 → 0x90 ≤ byte.toNat)
    (hf4 : first.toNat = 0xf4 → byte.toNat ≤ 0x8f) : validSecond first byte 1 = true := by
  have heq : ∀ n : UInt8, (first == n) = decide (first.toNat = n.toNat) := by
    intro n
    rw [Bool.eq_iff_iff, beq_iff_eq, decide_eq_true_iff, UInt8.toNat_inj]
  simp only [validSecond, bne, heq, UInt8.le_iff_toNat_le]
  by_cases h1 : first.toNat = 0xe0
  · simp [h1, he0 h1]
  · by_cases h2 : first.toNat = 0xed
    · simp [h2, hed h2]
    · by_cases h3 : first.toNat = 0xf0
      · simp [h3, hf0 h3]
      · by_cases h4 : first.toNat = 0xf4
        · simp [h4, hf4 h4]
        · simp [h1, h2, h3, h4]

theorem isScalar_run {point : Nat} (h : isScalar point) (hpoint : 0x80 ≤ point) :
    ∃ first continuations, encodePoint point = first :: continuations ∧
      Run first continuations := by
  unfold isScalar at h
  have hlow : ∀ n : Nat, isContinuation (UInt8.ofNat (0x80 + n % 0x40)) = true := fun n =>
    isContinuation_of_lt (Nat.mod_lt n (by decide))
  have hnone : ∀ byte ∈ ([] : List UInt8), isContinuation byte = true := fun _ hmem => nomatch hmem
  rw [encodePoint, if_neg (Nat.not_lt.mpr hpoint)]
  split
  · next htwo =>
    refine ⟨_, _, rfl, ?_, by simp, ?_, List.forall_mem_cons.mpr ⟨hlow _, hnone⟩, ?_⟩
    · rw [utf8Width_ofNat ⟨0xc0 + point / 0x40, by omega⟩]
      dsimp only
      rw [if_neg (by omega), if_pos (by omega)]
      rfl
    · rw [toNat_ofNat (by omega)]
      omega
    · rintro byte -
      apply validSecond_of <;> rw [toNat_ofNat (by omega)] <;> omega
  · split
    · next htwo hthree =>
      refine ⟨_, _, rfl, ?_, by simp, ?_, List.forall_mem_cons.mpr ⟨hlow _,
        List.forall_mem_cons.mpr ⟨hlow _, hnone⟩⟩, ?_⟩
      · rw [utf8Width_ofNat ⟨0xe0 + point / 0x1000, by omega⟩]
        dsimp only
        rw [if_neg (by omega), if_neg (by omega), if_pos (by omega)]
        rfl
      · rw [toNat_ofNat (by omega)]
        omega
      · intro byte hbyte
        cases hbyte
        have hsecond : (UInt8.ofNat (0x80 + point / 0x40 % 0x40)).toNat =
            0x80 + point / 0x40 % 0x40 := toNat_ofNat (by omega)
        apply validSecond_of <;> rw [toNat_ofNat (by omega), hsecond] <;> omega
    · next htwo hthree =>
      refine ⟨_, _, rfl, ?_, by simp, ?_, List.forall_mem_cons.mpr ⟨hlow _,
        List.forall_mem_cons.mpr ⟨hlow _, List.forall_mem_cons.mpr ⟨hlow _, hnone⟩⟩⟩, ?_⟩
      · rw [utf8Width_ofNat ⟨0xf0 + point / 0x40000, by omega⟩]
        dsimp only
        rw [if_neg (by omega), if_neg (by omega), if_neg (by omega), if_pos (by omega)]
        rfl
      · rw [toNat_ofNat (by omega)]
        omega
      · intro byte hbyte
        cases hbyte
        have hsecond : (UInt8.ofNat (0x80 + point / 0x1000 % 0x40)).toNat =
            0x80 + point / 0x1000 % 0x40 := toNat_ofNat (by omega)
        apply validSecond_of <;> rw [toNat_ofNat (by omega), hsecond] <;> omega

/-- A run is collected so far. -/
structure Collecting (bytes : List UInt8) (expected : Nat) (decoder : InputDecoder) : Prop where
  utf8 : decoder.utf8 = bytes
  utf8Expected : decoder.utf8Expected = expected
  escape : decoder.escape = none
  expiredXterm : decoder.expiredXterm = none
  paste : decoder.paste = false
  pendingCr : decoder.pendingCr = false
  expiredCsi : decoder.expiredCsi = none
  ss3Pending : decoder.ss3Pending = false
  expiredSs3 : decoder.expiredSs3 = false

variable {bytes : List UInt8} {expected : Nat}

theorem Collecting.stamp_poll (h : decoder.Collecting bytes expected) (now : Int) :
    stamp (.poll now) decoder = ([], decoder) :=
  poll_of_quiet (escapeExpires_none h.escape) (ss3Expires_none h.ss3Pending)

theorem Collecting.stamp_byte (h : decoder.Collecting bytes expected) (hbytes : bytes ≠ [])
    (byte : UInt8) (now dateNow : Int) : stamp (.byte byte now dateNow) decoder =
      decoder.consumeUtf8Continuation byte dateNow := by
  have hsame : { decoder with pendingCr := false } = decoder := by rw [← h.pendingCr]
  rw [stamp, feedByte_of_quiet (escapeExpires_none h.escape) (ss3Expires_none h.ss3Pending),
    InputDecoder.consume, consumeBefore, if_neg (by simp [h.paste]),
    if_neg (by simp [h.ss3Pending, h.expiredSs3])]
  simp only [h.expiredXterm, consumeSequence, h.expiredCsi, h.escape]
  rw [InputDecoder.consumeText, if_neg (by simp [h.pendingCr]), hsame]
  rw [if_neg (by simp [h.utf8, hbytes])]

/-- The event of a complete run. -/
def runEvent (bytes : List UInt8) : InputEvent :=
  match decodeUtf8 bytes with
  | some value => printableEvent value
  | none => .invalid_utf8

/-- The continuations of a run complete it. -/
theorem Collecting.run_continuations {first : UInt8} {before : List UInt8}
    (h : decoder.Collecting (first :: before) expected) {stamps : List Stamp}
    (hexpected : expected = (first :: before).length + (stampBytes stamps).length)
    (hnonempty : stampBytes stamps ≠ [])
    (hcontinuation : ∀ byte ∈ stampBytes stamps, isContinuation byte = true)
    (hsecond : ∀ byte, before = [] → (stampBytes stamps).head? = some byte →
      validSecond first byte 1 = true) :
    ∃ after, Mealy.run stamp stamps decoder =
        ([runEvent (first :: before ++ stampBytes stamps)], after) ∧ after.Ground false := by
  induction stamps generalizing decoder before with
  | nil => exact absurd rfl hnonempty
  | cons item stamps ih =>
    cases item with
    | poll now =>
      obtain ⟨after, hrun, hafter⟩ := ih h hexpected hnonempty hcontinuation hsecond
      exact ⟨after, Mealy.run_cons_of stamp (h.stamp_poll now) hrun, hafter⟩
    | byte byte now dateNow =>
      have hbytes : stampBytes (.byte byte now dateNow :: stamps) = byte :: stampBytes stamps := rfl
      rw [hbytes] at hexpected hcontinuation hsecond ⊢
      have hvalid : (!isContinuation byte ||
          !validSecond (decoder.utf8.head?.getD 0) byte decoder.utf8.length) = false := by
        have hposition : validSecond first byte (before.length + 1) = true := by
          cases before with
          | nil => exact hsecond byte rfl rfl
          | cons head before => simp [validSecond]
        simp [hcontinuation byte List.mem_cons_self, h.utf8, hposition]
      have happend : first :: before ++ byte :: stampBytes stamps =
          first :: (before ++ [byte]) ++ stampBytes stamps := by simp
      by_cases hlast : stampBytes stamps = []
      · have hstep : ∃ after, decoder.consumeUtf8Continuation byte dateNow =
            ([runEvent (first :: before ++ [byte])], after) ∧ after.Ground false := by
          refine ⟨{ decoder with
            utf8 := []
            utf8Expected := 0 }, ?_, rfl, h.escape, h.expiredXterm, h.paste, h.pendingCr,
            h.expiredCsi, h.ss3Pending, h.expiredSs3⟩
          have hlength : (decoder.utf8 ++ [byte]).length = decoder.utf8Expected := by
            rw [h.utf8, h.utf8Expected, hexpected, hlast]
            simp
          rw [consumeUtf8Continuation, hvalid]
          simp only [Bool.false_eq_true, if_false]
          rw [if_neg fun hne => hne hlength, h.utf8, runEvent]
          cases decodeUtf8 (first :: before ++ [byte]) <;> rfl
        obtain ⟨after, hstep, hafter⟩ := hstep
        refine ⟨after, ?_, hafter⟩
        have hbehind := run_polls hlast fun poll _ => hafter.stamp_poll poll
        have hrun := Mealy.run_cons_of stamp
          ((h.stamp_byte (by simp) byte now dateNow).trans hstep) hbehind
        rw [hlast]
        simpa using hrun
      · have hstep : ∃ after, decoder.consumeUtf8Continuation byte dateNow = ([], after) ∧
            after.Collecting (first :: (before ++ [byte])) expected := by
          refine ⟨{ decoder with utf8 := decoder.utf8 ++ [byte] }, ?_, by rw [h.utf8]; rfl,
            h.utf8Expected, h.escape, h.expiredXterm, h.paste, h.pendingCr, h.expiredCsi,
            h.ss3Pending, h.expiredSs3⟩
          have hpositive : 0 < (stampBytes stamps).length := List.length_pos_iff.mpr hlast
          have hlength : (decoder.utf8 ++ [byte]).length ≠ decoder.utf8Expected := by
            rw [h.utf8, h.utf8Expected, hexpected]
            simp
            omega
          rw [consumeUtf8Continuation, hvalid]
          simp only [Bool.false_eq_true, if_false]
          rw [if_pos hlength]
        obtain ⟨middle, hstep, hmiddle⟩ := hstep
        have hcount : expected =
            (first :: (before ++ [byte])).length + (stampBytes stamps).length := by
          rw [hexpected]
          simp
          omega
        obtain ⟨after, hrun, hafter⟩ := ih hmiddle hcount hlast
          (fun other hmem => hcontinuation other (List.mem_cons_of_mem _ hmem))
          (fun _ hnil => by simp at hnil)
        rw [happend]
        exact ⟨after, Mealy.run_cons_of stamp
          ((h.stamp_byte (by simp) byte now dateNow).trans hstep) hrun, hafter⟩

/-- A byte of ASCII that is no control byte. -/
theorem consumeGround_ascii : ∀ n : Fin 128, 0x20 ≤ n.1 ∧ n.1 ≠ 0x7f →
    UInt8.ofNat n.1 ≠ 0x1b ∧ UInt8.ofNat n.1 ≠ 0x0d ∧ UInt8.ofNat n.1 ≠ 0x0a ∧
      controlEvent (UInt8.ofNat n.1) = none ∧ utf8Width (UInt8.ofNat n.1) = 1 ∧
      (0x20 ≤ UInt8.ofNat n.1 ∧ UInt8.ofNat n.1 ≠ 0x7f) ∧
      runEvent [UInt8.ofNat n.1] = printableEvent [(UInt8.ofNat n.1).toUInt16] := by
  decide +kernel

/-- The first byte of a run. -/
theorem Run.consumeGround {first : UInt8} {continuations : List UInt8}
    (h : Run first continuations) (now : Int) (decoder : InputDecoder) :
    decoder.consumeGround first now = ([], { decoder with
      utf8 := [first]
      utf8Expected := continuations.length + 1 }) := by
  have hfar : ∀ n : UInt8, n.toNat < 0x80 → first ≠ n := by
    rintro n hn rfl
    exact absurd h.above (Nat.not_le.mpr hn)
  have hcontrol : controlEvent first = none := by
    have hneither : ¬ (first = 0x08 ∨ first = 0x7f) :=
      not_or.mpr ⟨hfar 0x08 (by decide), hfar 0x7f (by decide)⟩
    rw [controlEvent, if_neg (hfar 0x0a (by decide)), if_neg hneither,
      if_neg (hfar 0x03 (by decide)), if_neg (hfar 0x04 (by decide)),
      if_neg (hfar 0x11 (by decide)), if_neg (hfar 0x15 (by decide)),
      if_neg (hfar 0x09 (by decide))]
  obtain ⟨count, hcount⟩ : ∃ count, continuations.length = count + 1 :=
    Nat.exists_eq_succ_of_ne_zero (mt List.length_eq_zero_iff.mp h.continues)
  have hwidth : utf8Width first = count + 2 := by rw [h.width, hcount]
  rw [InputDecoder.consumeGround, if_neg (hfar 0x1b (by decide)), if_neg (hfar 0x0d (by decide)),
    hcontrol, hcount]
  simp only [hwidth]

/-- A scalar gives its event, from any quiet state. -/
theorem Ground.run_scalar (h : decoder.Ground carriage) {point : Nat} {stamps : List Stamp}
    (hvalid : (Token.scalar point).Valid) (hbytes : stampBytes stamps = encodePoint point) :
    ∃ after, Mealy.run stamp stamps decoder = ([runEvent (encodePoint point)], after) ∧
      after.Ground false := by
  obtain ⟨hscalar, hlow, hdelete⟩ := hvalid
  by_cases hascii : point < 0x80
  · obtain ⟨hescape, hreturn, hfeed, hcontrol, hwidth, hrange, hevent⟩ :=
      consumeGround_ascii ⟨point, hascii⟩ ⟨hlow, hdelete⟩
    rw [encodePoint, if_pos hascii] at hbytes ⊢
    obtain ⟨polls, now, dateNow, more, rfl, hpolls, hmore⟩ := exists_stamps_cons hbytes
    have hstep : ∃ after, stamp (.byte (UInt8.ofNat point) now dateNow) decoder =
        ([runEvent [UInt8.ofNat point]], after) ∧ after.Ground false := by
      refine ⟨{ decoder with pendingCr := false }, ?_, h.utf8, h.escape, h.expiredXterm, h.paste,
        rfl, h.expiredCsi, h.ss3Pending, h.expiredSs3⟩
      rw [h.stamp_byte, h.consumeText (fun hboth => hfeed hboth.2), consumeGround, if_neg hescape,
        if_neg hreturn, hcontrol, hevent]
      simp only [hwidth, if_pos hrange]
    obtain ⟨after, hstep, hafter⟩ := hstep
    have hbefore := run_polls hpolls fun poll _ => h.stamp_poll poll
    have hbehind := run_polls hmore fun poll _ => hafter.stamp_poll poll
    refine ⟨after, ?_, hafter⟩
    simpa using Mealy.run_append_of stamp hbefore (Mealy.run_cons_of stamp hstep hbehind)
  · obtain ⟨first, continuations, hencode, hrun⟩ := isScalar_run hscalar (Nat.not_lt.mp hascii)
    rw [hencode] at hbytes ⊢
    obtain ⟨polls, now, dateNow, more, rfl, hpolls, hmore⟩ := exists_stamps_cons hbytes
    have hfeed : ¬ (carriage = true ∧ first = 0x0a) := by
      rintro ⟨-, rfl⟩
      exact absurd hrun.above (by decide)
    have hstep : ∃ middle, stamp (.byte first now dateNow) decoder = ([], middle) ∧
        middle.Collecting [first] (continuations.length + 1) := by
      refine ⟨{ decoder with
        utf8 := [first]
        utf8Expected := continuations.length + 1
        pendingCr := false }, ?_, rfl, rfl, h.escape, h.expiredXterm, h.paste, rfl, h.expiredCsi,
        h.ss3Pending, h.expiredSs3⟩
      rw [h.stamp_byte, h.consumeText hfeed, hrun.consumeGround]
    obtain ⟨middle, hstep, hmiddle⟩ := hstep
    obtain ⟨after, hcollect, hafter⟩ := hmiddle.run_continuations
      (by rw [hmore, List.length_singleton, Nat.add_comm]) (hmore ▸ hrun.continues)
      (hmore ▸ hrun.continuation) (fun byte _ hbyte => hrun.second byte (hmore ▸ hbyte))
    rw [hmore] at hcollect
    have hbefore := run_polls hpolls fun poll _ => h.stamp_poll poll
    refine ⟨after, ?_, hafter⟩
    exact Mealy.run_append_of stamp hbefore (Mealy.run_cons_of stamp hstep hcollect)

/-! ## Sequences in time -/

/-- The event of a complete CSI sequence, the Alt+Enter form with the others. -/
def csiEvent (sequence : List UInt8) : InputEvent :=
  if sequence = ALT_ENTER_XTERM then .alt_enter else sequenceEvent sequence

theorem leaks_cursorKey {key : UInt8} {event : InputEvent} (h : cursorKey key = some event) :
    leaks event = false := by
  unfold cursorKey at h
  repeat' split at h
  all_goals cases h
  all_goals rfl

theorem leaks_keySequences : ∀ entry ∈ keySequences, leaks entry.2 = false := by decide

theorem leaks_sequenceEvent (sequence : List UInt8) : leaks (sequenceEvent sequence) = false := by
  unfold sequenceEvent
  split
  · next event hevent =>
    split at hevent
    · obtain ⟨key, -, hkey⟩ := Option.bind_eq_some_iff.mp hevent
      exact leaks_cursorKey hkey
    · cases hevent
  · cases hlookup : keySequences.lookup sequence with
    | none => rfl
    | some event =>
      obtain ⟨before, behind, hsplit, -⟩ := List.lookup_eq_some_iff.mp hlookup
      exact leaks_keySequences (sequence, event) (hsplit ▸ by simp)

theorem leaks_csiEvent (sequence : List UInt8) : leaks (csiEvent sequence) = false := by
  unfold csiEvent
  split
  · rfl
  · exact leaks_sequenceEvent sequence

theorem leaks_ss3Event (byte : UInt8) : leaks (ss3Event byte) = false := by
  unfold ss3Event
  repeat' split
  all_goals rfl

section

variable {startedAt : Int} {sequence : List UInt8}

/-- The final byte of a started sequence. -/
theorem Escaping.consume_final (h : decoder.Escaping startedAt sequence) {final : UInt8}
    (hlength : 2 ≤ sequence.length) (hfinal : isFinal final = true)
    (hpaste : sequence ++ [final] ≠ PASTE_BEGIN) (now dateNow : Int) :
    ∃ after, decoder.consumeEscape sequence final now dateNow =
        ([csiEvent (sequence ++ [final])], after) ∧ after.Ground false := by
  refine ⟨{ decoder with escape := none }, ?_, h.utf8, rfl, h.expiredXterm, h.paste, h.pendingCr,
    h.expiredCsi, h.ss3Pending, h.expiredSs3⟩
  rw [consumeEscape, csiEvent, if_neg (by simp; omega), if_neg (by simp; omega)]
  by_cases halt : sequence ++ [final] = ALT_ENTER_XTERM
  · rw [if_pos halt, if_pos halt]
  · rw [if_neg halt, if_neg halt, if_neg hpaste, if_neg (by simp [hfinal])]

theorem isParameter_of {byte : UInt8} (h : 0x20 ≤ byte ∧ byte ≤ 0x3f) : isParameter byte = true := by
  have hlow : ¬ 0x40 ≤ byte := by
    rw [UInt8.le_iff_toNat_le]
    have hle := UInt8.le_iff_toNat_le.mp h.2
    exact fun hge => absurd (Nat.le_trans hge hle) (by decide)
  simp [isParameter, isFinal, hlow]

/-- A CSI sequence in time. -/
theorem Ground.run_csi (h : decoder.Ground carriage) {parameters : List UInt8} {final : UInt8}
    {now dateNow : Int} {stamps : List Stamp} (hvalid : (Token.csi parameters final).Valid)
    (hbytes : stampBytes stamps = 0x5b :: (parameters ++ [final]))
    (htime : ∀ stamp ∈ stamps, stamp.now - now < ESC_TIMEOUT_MS) :
    ∃ after, Mealy.run stamp (.byte 0x1b now dateNow :: stamps) decoder =
        ([csiEvent (Token.csi parameters final).bytes], after) ∧ after.Ground false := by
  obtain ⟨hparameters, hfinal, hpaste⟩ := hvalid
  rw [← List.cons_append] at hbytes
  obtain ⟨front, rest, rfl, hfront, hrest⟩ := exists_stamps_append hbytes
  obtain ⟨middle, hstart, hmiddle⟩ := h.run_introducer dateNow hfront
    (fun byte hmem => isParameter_of (hparameters byte hmem))
    (fun stamp hmem => htime stamp (List.mem_append_left _ hmem))
  obtain ⟨polls, later, dateLater, more, rfl, hpolls, hmore⟩ := exists_stamps_cons hrest
  have hstamp : ∀ stamp ∈ polls ++ .byte final later dateLater :: more,
      stamp.now - now < ESC_TIMEOUT_MS := fun stamp hmem => htime stamp (List.mem_append_right _ hmem)
  obtain ⟨after, hend, hafter⟩ := hmiddle.consume_final (by simp) hfinal
    (by simpa using hpaste) later dateLater
  have hlater : later - now < ESC_TIMEOUT_MS := hstamp (.byte final later dateLater) (by simp)
  have hwait := run_polls hpolls fun poll hmem =>
    hmiddle.stamp_poll (hstamp (.poll poll) (by simp [hmem]))
  have hbehind := run_polls hmore fun poll _ => hafter.stamp_poll poll
  have hstep := (hmiddle.stamp_byte hlater).trans hend
  refine ⟨after, ?_, hafter⟩
  exact Mealy.run_append_of stamp hstart
    (Mealy.run_append_of stamp hwait (Mealy.run_cons_of stamp hstep hbehind))

/-- `ESC O` has come, at `startedAt`. -/
structure Ss3 (startedAt : Int) (decoder : InputDecoder) : Prop where
  utf8 : decoder.utf8 = []
  escape : decoder.escape = none
  expiredXterm : decoder.expiredXterm = none
  paste : decoder.paste = false
  pendingCr : decoder.pendingCr = false
  expiredCsi : decoder.expiredCsi = none
  ss3Pending : decoder.ss3Pending = true
  expiredSs3 : decoder.expiredSs3 = false
  ss3StartedAt : decoder.ss3StartedAt = startedAt

theorem Ss3.quiet (h : decoder.Ss3 startedAt) {now : Int}
    (hnow : now - startedAt < ESC_TIMEOUT_MS) : decoder.ss3Expires now = false := by
  simp [ss3Expires, h.ss3StartedAt, hnow]

theorem Ss3.stamp_poll (h : decoder.Ss3 startedAt) {now : Int}
    (hnow : now - startedAt < ESC_TIMEOUT_MS) : stamp (.poll now) decoder = ([], decoder) :=
  poll_of_quiet (escapeExpires_none h.escape) (h.quiet hnow)

/-- The introducer of an SS3 sequence in time. -/
theorem Ground.run_ss3_introducer (h : decoder.Ground carriage) {now dateNow : Int}
    {stamps : List Stamp} (hbytes : stampBytes stamps = [0x4f])
    (htime : ∀ stamp ∈ stamps, stamp.now - now < ESC_TIMEOUT_MS) :
    ∃ after, Mealy.run stamp (.byte 0x1b now dateNow :: stamps) decoder = ([], after) ∧
      after.Ss3 now := by
  obtain ⟨started, hstarted, hescaping⟩ := h.escape_started now dateNow
  obtain ⟨polls, later, dateLater, more, rfl, hpolls, hmore⟩ := exists_stamps_cons hbytes
  have hlater : later - now < ESC_TIMEOUT_MS := htime (.byte 0x4f later dateLater) (by simp)
  have hstep : ∃ after, stamp (.byte 0x4f later dateLater) started = ([], after) ∧
      after.Ss3 now := by
    refine ⟨{ started with
      escape := none
      ss3Pending := true
      ss3StartedAt := started.escapeStartedAt }, ?_, hescaping.utf8, rfl, hescaping.expiredXterm,
      hescaping.paste, hescaping.pendingCr, hescaping.expiredCsi, rfl, hescaping.expiredSs3,
      hescaping.escapeStartedAt⟩
    rw [hescaping.stamp_byte hlater]
    rfl
  obtain ⟨after, hstep, hafter⟩ := hstep
  have hwait := run_polls hpolls fun poll hmem =>
    hescaping.stamp_poll (htime (.poll poll) (by simp [hmem]))
  have hbehind := run_polls hmore fun poll hmem =>
    hafter.stamp_poll (htime (.poll poll) (by simp [hmem]))
  refine ⟨after, ?_, hafter⟩
  exact Mealy.run_cons_of stamp hstarted
    (Mealy.run_append_of stamp hwait (Mealy.run_cons_of stamp hstep hbehind))

/-- The last byte of an SS3 sequence in time. -/
theorem Ss3.stamp_byte (h : decoder.Ss3 startedAt) {byte : UInt8} {now : Int}
    (hnow : now - startedAt < ESC_TIMEOUT_MS) (dateNow : Int) :
    ∃ after, stamp (.byte byte now dateNow) decoder = ([ss3Event byte], after) ∧
      after.Ground false := by
  refine ⟨{ decoder with
    ss3Pending := false
    expiredSs3 := false }, ?_, h.utf8, h.escape, h.expiredXterm, h.paste, h.pendingCr, h.expiredCsi,
    rfl, rfl⟩
  rw [stamp, feedByte_of_quiet (escapeExpires_none h.escape) (h.quiet hnow)]
  simp [InputDecoder.consume, consumeBefore, h.paste, h.ss3Pending]

/-- An SS3 sequence in time. -/
theorem Ground.run_ss3 (h : decoder.Ground carriage) {byte : UInt8} {now dateNow : Int}
    {stamps : List Stamp} (hbytes : stampBytes stamps = [0x4f, byte])
    (htime : ∀ stamp ∈ stamps, stamp.now - now < ESC_TIMEOUT_MS) :
    ∃ after, Mealy.run stamp (.byte 0x1b now dateNow :: stamps) decoder =
        ([ss3Event byte], after) ∧ after.Ground false := by
  have hsplit : stampBytes stamps = [0x4f] ++ [byte] := hbytes
  obtain ⟨front, rest, rfl, hfront, hrest⟩ := exists_stamps_append hsplit
  obtain ⟨middle, hstart, hmiddle⟩ := h.run_ss3_introducer hfront
    fun stamp hmem => htime stamp (List.mem_append_left _ hmem)
  obtain ⟨polls, later, dateLater, more, rfl, hpolls, hmore⟩ := exists_stamps_cons hrest
  have hstamp : ∀ stamp ∈ polls ++ .byte byte later dateLater :: more,
      stamp.now - now < ESC_TIMEOUT_MS := fun stamp hmem => htime stamp (List.mem_append_right _ hmem)
  have hlater : later - now < ESC_TIMEOUT_MS := hstamp (.byte byte later dateLater) (by simp)
  obtain ⟨after, hstep, hafter⟩ := hmiddle.stamp_byte hlater dateLater
  have hwait := run_polls hpolls fun poll hmem =>
    hmiddle.stamp_poll (hstamp (.poll poll) (by simp [hmem]))
  have hbehind := run_polls hmore fun poll _ => hafter.stamp_poll poll
  refine ⟨after, ?_, hafter⟩
  exact Mealy.run_append_of stamp hstart
    (Mealy.run_append_of stamp hwait (Mealy.run_cons_of stamp hstep hbehind))

/-! ## Sequences whose time runs out -/

/-- The time of a sequence ran out: `xterm`, `csi` or `ss3` absorbs its late bytes. -/
structure Late (xterm csi : Option (List UInt8)) (ss3 : Bool) (decoder : InputDecoder) : Prop where
  utf8 : decoder.utf8 = []
  escape : decoder.escape = none
  expiredXterm : decoder.expiredXterm = xterm
  paste : decoder.paste = false
  pendingCr : decoder.pendingCr = false
  expiredCsi : decoder.expiredCsi = csi
  ss3Pending : decoder.ss3Pending = false
  expiredSs3 : decoder.expiredSs3 = ss3

variable {xterm csi : Option (List UInt8)} {ss3 : Bool}

theorem Late.stamp_poll (h : decoder.Late xterm csi ss3) (now : Int) :
    stamp (.poll now) decoder = ([], decoder) :=
  poll_of_quiet (escapeExpires_none h.escape) (ss3Expires_none h.ss3Pending)

theorem Late.stamp_byte (h : decoder.Late xterm csi ss3) (byte : UInt8) (now dateNow : Int) :
    stamp (.byte byte now dateNow) decoder = decoder.consume byte now dateNow :=
  feedByte_of_quiet (escapeExpires_none h.escape) (ss3Expires_none h.ss3Pending)

theorem expireEscape_escape (decoder : InputDecoder) : decoder.expireEscape.2.escape = none := by
  rw [expireEscape]
  split <;> rfl

/-- A byte polls first. -/
theorem stamp_byte_poll (byte : UInt8) (now dateNow : Int) (decoder : InputDecoder) :
    stamp (.byte byte now dateNow) decoder =
      Mealy.run stamp [.poll now, .byte byte now dateNow] decoder := by
  rw [Mealy.run_cons, Mealy.run_singleton]
  by_cases hescape : decoder.escapeExpires now = true
  · have hnone : decoder.expireEscape.2.escapeExpires now = false :=
      escapeExpires_none (expireEscape_escape decoder)
    simp [stamp, poll, feedByte, hescape, hnone]
  · by_cases hss3 : decoder.ss3Expires now = true
    · have hnone : decoder.expireSs3.2.ss3Expires now = false := ss3Expires_none rfl
      have hsame : ¬ decoder.expireSs3.2.escapeExpires now = true := hescape
      simp [stamp, poll, feedByte, hescape, hss3, hnone, hsame]
    · simp [stamp, poll, feedByte, hescape, hss3]

/-- A late stamp runs as a poll at its time, and its byte behind it. -/
theorem exists_late_poll (item : Stamp) (rest : List Stamp) : ∃ more,
    stampBytes more = stampBytes (item :: rest) ∧
      ∀ decoder, Mealy.run stamp (item :: rest) decoder =
        Mealy.run stamp (.poll item.now :: more) decoder := by
  cases item with
  | poll now => exact ⟨rest, rfl, fun _ => rfl⟩
  | byte byte now dateNow =>
    refine ⟨.byte byte now dateNow :: rest, rfl, fun decoder => ?_⟩
    have hsplit := Mealy.run_append stamp [.poll now, .byte byte now dateNow] rest decoder
    rw [← stamp_byte_poll] at hsplit
    exact hsplit.symm

/-- The bytes of a timed sequence that is no Alt+Enter are absorbed up to the final one. -/
theorem Late.run_csi (h : decoder.Late none (some sequence) false) {parameters : List UInt8}
    {final : UInt8} {stamps : List Stamp}
    (hparameters : ∀ byte ∈ parameters, isParameter byte = true) (hfinal : isFinal final = true)
    (hbytes : stampBytes stamps = parameters ++ [final]) :
    ∃ after, Mealy.run stamp stamps decoder = ([.unknown], after) ∧ after.Ground false := by
  induction stamps generalizing decoder sequence parameters with
  | nil => simp [stampBytes] at hbytes
  | cons item stamps ih =>
    cases item with
    | poll now =>
      obtain ⟨after, hrun, hafter⟩ := ih h hparameters hbytes
      exact ⟨after, Mealy.run_cons_of stamp (h.stamp_poll now) hrun, hafter⟩
    | byte byte now dateNow =>
      have hconsume : decoder.consume byte now dateNow =
          decoder.consumeSequence byte now dateNow := by
        simp [InputDecoder.consume, consumeBefore, h.paste, h.ss3Pending, h.expiredSs3,
          h.expiredXterm]
      cases parameters with
      | nil =>
        obtain ⟨rfl, hrest⟩ := List.cons.inj hbytes
        have hstep : stamp (.byte byte now dateNow) decoder =
            ([.unknown], { decoder with expiredCsi := none }) := by
          rw [h.stamp_byte, hconsume, consumeSequence, h.expiredCsi]
          simp only [hfinal, if_true]
        have hafter : Ground false { decoder with expiredCsi := none } :=
          ⟨h.utf8, h.escape, h.expiredXterm, h.paste, h.pendingCr, rfl, h.ss3Pending, h.expiredSs3⟩
        have hbehind := run_polls hrest fun poll _ => hafter.stamp_poll poll
        exact ⟨_, Mealy.run_cons_of stamp hstep hbehind, hafter⟩
      | cons head parameters =>
        obtain ⟨rfl, hrest⟩ := List.cons.inj hbytes
        have hparameter : isFinal byte = false := by
          simpa [isParameter] using hparameters byte List.mem_cons_self
        have hstep : stamp (.byte byte now dateNow) decoder =
            ([], { decoder with expiredCsi := some (sequence ++ [byte]) }) := by
          rw [h.stamp_byte, hconsume, consumeSequence, h.expiredCsi]
          simp only [hparameter, Bool.false_eq_true, if_false]
        have hmiddle : Late none (some (sequence ++ [byte])) false
            { decoder with expiredCsi := some (sequence ++ [byte]) } :=
          ⟨h.utf8, h.escape, h.expiredXterm, h.paste, h.pendingCr, rfl, h.ss3Pending, h.expiredSs3⟩
        obtain ⟨after, hrun, hafter⟩ := ih hmiddle
          (fun other hmem => hparameters other (List.mem_cons_of_mem _ hmem)) hrest
        exact ⟨after, Mealy.run_cons_of stamp hstep hrun, hafter⟩

/-- Behind its introducer the Alt+Enter form has one final byte, the last. -/
theorem altEnter_final : ∀ index : Fin 10, 2 ≤ index.1 → ∀ byte,
    ALT_ENTER_XTERM[index.1]? = some byte → (isFinal byte = true ↔ index.1 = 9) := by
  intro index hindex byte hbyte
  have hall : ∀ index : Fin 10, 2 ≤ index.1 →
      (ALT_ENTER_XTERM[index.1]?.any isFinal = true ↔ index.1 = 9) := by decide
  have hthis := hall index hindex
  rwa [hbyte] at hthis

/-- The late bytes of a sequence are absorbed, also while they agree with the Alt+Enter form. -/
theorem Late.run_xterm (h : decoder.Late (some sequence) none false) {parameters : List UInt8}
    {final : UInt8} {stamps : List Stamp} (hlength : 2 ≤ sequence.length)
    (hparameters : ∀ byte ∈ parameters, isParameter byte = true) (hfinal : isFinal final = true)
    (hbytes : stampBytes stamps = parameters ++ [final])
    (hother : parameters ++ [final] ≠ ALT_ENTER_XTERM.drop sequence.length) :
    ∃ after, Mealy.run stamp stamps decoder = ([.unknown], after) ∧ after.Ground false := by
  induction stamps generalizing decoder sequence parameters with
  | nil => simp [stampBytes] at hbytes
  | cons item stamps ih =>
    cases item with
    | poll now =>
      obtain ⟨after, hrun, hafter⟩ := ih h hlength hparameters hbytes hother
      exact ⟨after, Mealy.run_cons_of stamp (h.stamp_poll now) hrun, hafter⟩
    | byte byte now dateNow =>
      have hconsume : stamp (.byte byte now dateNow) decoder =
          decoder.consumeExpired sequence byte now dateNow := by
        rw [h.stamp_byte]
        simp [InputDecoder.consume, consumeBefore, h.paste, h.ss3Pending, h.expiredSs3,
          h.expiredXterm]
      by_cases hagrees : ALT_ENTER_XTERM[sequence.length]? = some byte
      · obtain ⟨hindex, hbyte⟩ := List.getElem?_eq_some_iff.mp hagrees
        have hdrop : ALT_ENTER_XTERM.drop sequence.length =
            byte :: ALT_ENTER_XTERM.drop (sequence.length + 1) := by
          rw [List.drop_eq_getElem_cons hindex, hbyte]
        have hlast := altEnter_final ⟨sequence.length, hindex⟩ hlength byte hagrees
        cases parameters with
        | nil =>
          -- The final byte agrees only at the end of the form.
          obtain ⟨rfl, -⟩ := List.cons.inj hbytes
          have hnine : sequence.length = 9 := hlast.mp hfinal
          rw [hdrop, hnine] at hother
          exact absurd rfl hother
        | cons head parameters =>
          obtain ⟨rfl, hrest⟩ := List.cons.inj hbytes
          have hparameter : isFinal byte = false := by
            simpa [isParameter] using hparameters byte List.mem_cons_self
          have hshort : (sequence ++ [byte]).length ≠ ALT_ENTER_XTERM.length := by
            intro hfull
            have hnine : sequence.length = 9 := by simpa [ALT_ENTER_XTERM] using hfull
            rw [hlast.mpr hnine] at hparameter
            cases hparameter
          have hstep : stamp (.byte byte now dateNow) decoder =
              ([], { decoder with expiredXterm := some (sequence ++ [byte]) }) := by
            rw [hconsume, consumeExpired, if_pos hagrees]
            simp only [if_neg hshort]
          have hmiddle : Late (some (sequence ++ [byte])) none false
              { decoder with expiredXterm := some (sequence ++ [byte]) } :=
            ⟨h.utf8, h.escape, rfl, h.paste, h.pendingCr, h.expiredCsi, h.ss3Pending, h.expiredSs3⟩
          have hnext : parameters ++ [final] ≠
              ALT_ENTER_XTERM.drop (sequence ++ [byte]).length := by
            intro heq
            rw [List.length_append, List.length_singleton] at heq
            exact hother (by rw [hdrop, ← heq]; rfl)
          obtain ⟨after, hrun, hafter⟩ := ih hmiddle (by simp; omega)
            (fun other hmem => hparameters other (List.mem_cons_of_mem _ hmem)) hrest hnext
          exact ⟨after, Mealy.run_cons_of stamp hstep hrun, hafter⟩
      · cases parameters with
        | nil =>
          obtain ⟨rfl, hrest⟩ := List.cons.inj hbytes
          have hstep : stamp (.byte byte now dateNow) decoder = ([.unknown], { decoder with
              expiredXterm := none
              expiredCsi := none }) := by
            rw [hconsume, consumeExpired, if_neg hagrees, if_pos hfinal]
          have hafter : Ground false { decoder with
              expiredXterm := none
              expiredCsi := none } :=
            ⟨h.utf8, h.escape, rfl, h.paste, h.pendingCr, rfl, h.ss3Pending, h.expiredSs3⟩
          have hbehind := run_polls hrest fun poll _ => hafter.stamp_poll poll
          exact ⟨_, Mealy.run_cons_of stamp hstep hbehind, hafter⟩
        | cons head parameters =>
          obtain ⟨rfl, hrest⟩ := List.cons.inj hbytes
          have hparameter : isFinal byte = false := by
            simpa [isParameter] using hparameters byte List.mem_cons_self
          have hstep : stamp (.byte byte now dateNow) decoder = ([], { decoder with
              expiredXterm := none
              expiredCsi := some (sequence ++ [byte]) }) := by
            rw [hconsume, consumeExpired, if_neg hagrees, if_neg (by simp [hparameter])]
          have hmiddle : Late none (some (sequence ++ [byte])) false { decoder with
              expiredXterm := none
              expiredCsi := some (sequence ++ [byte]) } :=
            ⟨h.utf8, h.escape, rfl, h.paste, h.pendingCr, rfl, h.ss3Pending, h.expiredSs3⟩
          obtain ⟨after, hrun, hafter⟩ := hmiddle.run_csi
            (fun other hmem => hparameters other (List.mem_cons_of_mem _ hmem)) hfinal hrest
          exact ⟨after, Mealy.run_cons_of stamp hstep hrun, hafter⟩

/-- The poll that ends the time of a CSI sequence. -/
theorem Escaping.expire (h : decoder.Escaping startedAt sequence) (hintroducer : sequence[1]? = some 0x5b)
    {now : Int} (hnow : ¬ now - startedAt < ESC_TIMEOUT_MS) :
    ∃ after, stamp (.poll now) decoder = ([.escape], after) ∧
      after.Late (some sequence) none false := by
  refine ⟨{ decoder with
    escape := none
    expiredXterm := some sequence
    expiredCsi := none }, ?_, h.utf8, rfl, rfl, h.paste, h.pendingCr, rfl, h.ss3Pending,
    h.expiredSs3⟩
  have hexpires : decoder.escapeExpires now = true := by
    simp [escapeExpires, h.escape, h.escapeStartedAt, Int.not_lt.mp hnow]
  rw [stamp, poll, if_pos hexpires, expireEscape, h.escape]
  simp [hintroducer]

/-- A CSI sequence whose time runs out behind its introducer. -/
theorem Ground.run_csi_late (h : decoder.Ground carriage) {parameters : List UInt8} {final : UInt8}
    {now dateNow : Int} {front rest : List Stamp} {item : Stamp}
    (hvalid : (Token.csi parameters final).Valid)
    (hbytes : stampBytes front ++ stampBytes (item :: rest) = 0x5b :: (parameters ++ [final]))
    (htime : ∀ stamp ∈ front, stamp.now - now < ESC_TIMEOUT_MS)
    (hlate : ¬ item.now - now < ESC_TIMEOUT_MS) (hintroduced : stampBytes front ≠ [])
    (hrest : stampBytes (item :: rest) ≠ [])
    (hother : stampBytes (item :: rest) ≠ ALT_ENTER_XTERM.drop ((stampBytes front).length + 1)) :
    ∃ after, Mealy.run stamp (.byte 0x1b now dateNow :: (front ++ item :: rest)) decoder =
        ([.escape, .unknown], after) ∧ after.Ground false := by
  obtain ⟨hparameters, hfinal, -⟩ := hvalid
  obtain ⟨head, started, hfront⟩ := List.exists_cons_of_ne_nil hintroduced
  rw [hfront, List.cons_append, List.cons.injEq] at hbytes
  obtain ⟨rfl, hbytes⟩ := hbytes
  obtain ⟨others, last, hconcat⟩ := (List.eq_nil_or_concat' (stampBytes (item :: rest))).resolve_left hrest
  rw [hconcat, ← List.append_assoc] at hbytes
  obtain ⟨rfl, hsame⟩ := List.append_inj' hbytes rfl
  obtain rfl : last = final := List.head_eq_of_cons_eq hsame
  have hfirst : ∀ byte ∈ started, isParameter byte = true := fun byte hmem =>
    isParameter_of (hparameters byte (List.mem_append_left _ hmem))
  have hsecond : ∀ byte ∈ others, isParameter byte = true := fun byte hmem =>
    isParameter_of (hparameters byte (List.mem_append_right _ hmem))
  obtain ⟨waiting, hstart, hwaiting⟩ := h.run_introducer dateNow hfront hfirst htime
  obtain ⟨more, hmore, hrun⟩ := exists_late_poll item rest
  obtain ⟨expired, hexpire, hexpired⟩ := hwaiting.expire rfl hlate
  rw [hconcat, hfront] at hother
  obtain ⟨after, habsorb, hafter⟩ := hexpired.run_xterm (by simp) hsecond hfinal
    (hmore.trans hconcat) (by simpa using hother)
  refine ⟨after, ?_, hafter⟩
  have hend : Mealy.run stamp (item :: rest) waiting = ([.escape, .unknown], after) := by
    rw [hrun]
    exact Mealy.run_cons_of stamp hexpire habsorb
  exact Mealy.run_append_of stamp hstart hend

/-- The poll that ends the time of an SS3 sequence. -/
theorem Ss3.expire (h : decoder.Ss3 startedAt) {now : Int}
    (hnow : ¬ now - startedAt < ESC_TIMEOUT_MS) :
    ∃ after, stamp (.poll now) decoder = ([.escape], after) ∧ after.Late none none true := by
  refine ⟨{ decoder with
    ss3Pending := false
    expiredSs3 := true }, ?_, h.utf8, h.escape, h.expiredXterm, h.paste, h.pendingCr, h.expiredCsi,
    rfl, rfl⟩
  have hexpires : decoder.ss3Expires now = true := by
    simp [ss3Expires, h.ss3Pending, h.ss3StartedAt, Int.not_lt.mp hnow]
  rw [stamp, poll, escapeExpires_none h.escape, if_neg Bool.false_ne_true, if_pos hexpires]
  rfl

/-- The late byte of an SS3 sequence still gives its key. -/
theorem Late.run_ss3 (h : decoder.Late none none true) {byte : UInt8} {stamps : List Stamp}
    (hbytes : stampBytes stamps = [byte]) :
    ∃ after, Mealy.run stamp stamps decoder = ([ss3Event byte], after) ∧ after.Ground false := by
  obtain ⟨polls, now, dateNow, more, rfl, hpolls, hmore⟩ := exists_stamps_cons hbytes
  have hstep : stamp (.byte byte now dateNow) decoder = ([ss3Event byte], { decoder with
      ss3Pending := false
      expiredSs3 := false }) := by
    rw [h.stamp_byte]
    simp [InputDecoder.consume, consumeBefore, h.paste, h.expiredSs3]
  have hafter : Ground false { decoder with
      ss3Pending := false
      expiredSs3 := false } :=
    ⟨h.utf8, h.escape, h.expiredXterm, h.paste, h.pendingCr, h.expiredCsi, rfl, rfl⟩
  have hwait := run_polls hpolls fun poll _ => h.stamp_poll poll
  have hbehind := run_polls hmore fun poll _ => hafter.stamp_poll poll
  exact ⟨_, Mealy.run_append_of stamp hwait (Mealy.run_cons_of stamp hstep hbehind), hafter⟩

/-- An SS3 sequence whose time runs out behind its introducer. -/
theorem Ground.run_ss3_late (h : decoder.Ground carriage) {byte : UInt8} {now dateNow : Int}
    {front rest : List Stamp} {item : Stamp}
    (hbytes : stampBytes front ++ stampBytes (item :: rest) = [0x4f, byte])
    (htime : ∀ stamp ∈ front, stamp.now - now < ESC_TIMEOUT_MS)
    (hlate : ¬ item.now - now < ESC_TIMEOUT_MS) (hintroduced : stampBytes front ≠ [])
    (hrest : stampBytes (item :: rest) ≠ []) :
    ∃ after, Mealy.run stamp (.byte 0x1b now dateNow :: (front ++ item :: rest)) decoder =
        ([.escape, ss3Event byte], after) ∧ after.Ground false := by
  obtain ⟨head, started, hfront⟩ := List.exists_cons_of_ne_nil hintroduced
  rw [hfront, List.cons_append, List.cons.injEq] at hbytes
  obtain ⟨rfl, hbytes⟩ := hbytes
  have hnone : started = [] ∧ stampBytes (item :: rest) = [byte] := by
    rcases List.append_eq_singleton_iff.mp hbytes with hcase | ⟨-, hnil⟩
    · exact hcase
    · exact absurd hnil hrest
  obtain ⟨rfl, hbyte⟩ := hnone
  obtain ⟨waiting, hstart, hwaiting⟩ := h.run_ss3_introducer hfront htime
  obtain ⟨more, hmore, hrun⟩ := exists_late_poll item rest
  obtain ⟨expired, hexpire, hexpired⟩ := hwaiting.expire hlate
  obtain ⟨after, habsorb, hafter⟩ := hexpired.run_ss3 (hmore.trans hbyte)
  refine ⟨after, ?_, hafter⟩
  have hend : Mealy.run stamp (item :: rest) waiting = ([.escape, ss3Event byte], after) := by
    rw [hrun]
    exact Mealy.run_cons_of stamp hexpire habsorb
  exact Mealy.run_append_of stamp hstart hend

end

/-! ## Pieces and traces -/

/-- The event of a token. -/
def Token.event : Token → InputEvent
  | scalar point => runEvent (encodePoint point)
  | control byte => controlByteEvent byte
  | csi parameters final => csiEvent (csi parameters final).bytes
  | ss3 byte => ss3Event byte

/-- A stamped sequence starts with the stamp of its ESC. -/
theorem Piece.exists_escape {token : Token} {stamps : List Stamp} {bytes : List UInt8}
    (hvalid : (Piece.token token stamps).Valid) (htoken : token.bytes = 0x1b :: bytes) :
    ∃ now dateNow more, stamps = .byte 0x1b now dateNow :: more ∧ stampBytes more = bytes ∧
      startedAt stamps = now := by
  obtain ⟨-, hbytes, hhead, -⟩ := hvalid
  cases stamps with
  | nil => cases hhead
  | cons item more =>
    cases item with
    | poll now => cases hhead
    | byte byte now dateNow =>
      rw [htoken] at hbytes
      obtain ⟨rfl, hmore⟩ := List.cons.inj hbytes
      exact ⟨now, dateNow, more, rfl, hmore, rfl⟩

theorem stampBytes_append (first second : List Stamp) :
    stampBytes (first ++ second) = stampBytes first ++ stampBytes second :=
  List.flatMap_append

theorem stampBytes_ne_nil {stamps : List Stamp} (h : stamps.getLast?.any Stamp.isByte = true) :
    stampBytes stamps ≠ [] := by
  cases hlast : stamps.getLast? with
  | none => rw [hlast] at h; cases h
  | some item =>
    rw [hlast] at h
    intro hnil
    have hitem := List.flatMap_eq_nil_iff.mp hnil item (List.mem_of_getLast? hlast)
    cases item with
    | byte byte now dateNow => cases hitem
    | poll now => cases h

/-- A stamped sequence in time, or absorbed late. -/
theorem Ground.run_sequence (h : decoder.Ground carriage) {token : Token} {stamps : List Stamp}
    (hvalid : (Piece.token token stamps).Valid) (hsequence : token.isSequence = true)
    (htime : (Piece.token token stamps).InTime ∨ (Piece.token token stamps).AbsorbedLate) :
    ∃ events after, Mealy.run stamp stamps decoder = (events, after) ∧ after.Ground false ∧
      (∀ event ∈ events, leaks event = false) ∧
      ((Piece.token token stamps).InTime → events = [token.event]) := by
  obtain ⟨bytes, htoken⟩ : ∃ bytes, token.bytes = 0x1b :: bytes := by
    cases token with
    | csi parameters final => exact ⟨_, rfl⟩
    | ss3 byte => exact ⟨_, rfl⟩
    | scalar point => cases hsequence
    | control byte => cases hsequence
  obtain ⟨now, dateNow, more, rfl, hmore, hstarted⟩ := Piece.exists_escape hvalid htoken
  rcases htime with hintime | ⟨front, item, rest, hsplit, hfront, hitem, hintroduced, hother⟩
  · have htimes : ∀ stamp ∈ more, stamp.now - now < ESC_TIMEOUT_MS := fun stamp hmem =>
      hstarted ▸ hintime stamp (List.mem_cons_of_mem _ hmem)
    cases token with
    | csi parameters final =>
      obtain rfl : 0x5b :: (parameters ++ [final]) = bytes := (List.cons.inj htoken).2
      obtain ⟨after, hrun, hafter⟩ := h.run_csi hvalid.1 hmore htimes
      exact ⟨_, after, hrun, hafter, by simp [leaks_csiEvent], fun _ => rfl⟩
    | ss3 byte =>
      obtain rfl : [0x4f, byte] = bytes := (List.cons.inj htoken).2
      obtain ⟨after, hrun, hafter⟩ := h.run_ss3 hmore htimes
      exact ⟨_, after, hrun, hafter, by simp [leaks_ss3Event], fun _ => rfl⟩
    | scalar point => cases hsequence
    | control byte => cases hsequence
  · have hlate : ¬ (Piece.token token (.byte 0x1b now dateNow :: more)).InTime := fun hintime =>
      hitem (hintime item (hsplit ▸ by simp))
    cases front with
    | nil => exact absurd hintroduced (by decide)
    | cons first front =>
      rw [List.cons_append, List.cons.injEq] at hsplit
      obtain ⟨rfl, rfl⟩ := hsplit
      rw [early, hstarted] at hitem
      have htimes : ∀ stamp ∈ front, stamp.now - now < ESC_TIMEOUT_MS := fun stamp hmem =>
        hstarted ▸ hfront stamp (List.mem_cons_of_mem _ hmem)
      have hnonempty : stampBytes front ≠ [] := by
        intro hnil
        have hone : (stampBytes (.byte 0x1b now dateNow :: front)).length = 1 := by
          show (0x1b :: stampBytes front).length = 1
          rw [hnil]
          rfl
        exact absurd (hone ▸ hintroduced) (by decide)
      have hrest : stampBytes (item :: rest) ≠ [] := by
        refine stampBytes_ne_nil ?_
        have hlast := hvalid.2.2.2
        rwa [← List.cons_append, List.getLast?_append_of_ne_nil _ (List.cons_ne_nil item rest)]
          at hlast
      rw [stampBytes_append] at hmore
      have hdrop : token.bytes.drop (stampBytes (.byte 0x1b now dateNow :: front)).length =
          stampBytes (item :: rest) := by
        rw [htoken, ← hmore]
        exact List.drop_left' rfl
      rw [hdrop] at hother
      cases token with
      | csi parameters final =>
        obtain rfl : 0x5b :: (parameters ++ [final]) = bytes := (List.cons.inj htoken).2
        obtain ⟨after, hrun, hafter⟩ :=
          h.run_csi_late hvalid.1 hmore htimes hitem hnonempty hrest hother
        exact ⟨_, after, hrun, hafter, by simp [leaks], fun hintime => absurd hintime hlate⟩
      | ss3 byte =>
        obtain rfl : [0x4f, byte] = bytes := (List.cons.inj htoken).2
        obtain ⟨after, hrun, hafter⟩ := h.run_ss3_late hmore htimes hitem hnonempty hrest
        refine ⟨_, after, hrun, hafter, ?_, fun hintime => absurd hintime hlate⟩
        simp [leaks_ss3Event, show leaks .escape = false from rfl]
      | scalar point => cases hsequence
      | control byte => cases hsequence

/-- The events of a token behind other ones. -/
def Token.events (carriage : Bool) (token : Token) : List InputEvent :=
  if carriage && token == .control 0x0a then [] else [token.event]

/-- What a stamped token does from a quiet state. -/
theorem Ground.run_token (h : decoder.Ground carriage) {token : Token} {stamps : List Stamp}
    (hvalid : (Piece.token token stamps).Valid)
    (htime : token.isSequence = true →
      (Piece.token token stamps).InTime ∨ (Piece.token token stamps).AbsorbedLate) :
    ∃ events after, Mealy.run stamp stamps decoder = (events, after) ∧
      after.Ground (token == .control 0x0d) ∧
      (token.isSequence = true → ∀ event ∈ events, leaks event = false) ∧
      ((token.isSequence = true → (Piece.token token stamps).InTime) →
        events = token.events carriage) := by
  cases token with
  | scalar point =>
    obtain ⟨after, hrun, hafter⟩ := h.run_scalar hvalid.1 hvalid.2.1
    refine ⟨_, after, hrun, hafter, (nomatch ·), fun _ => ?_⟩
    simp [Token.events, Token.event]
  | control byte =>
    obtain ⟨after, hrun, hafter⟩ := h.run_control hvalid.1 hvalid.2.1
    have hsame : ∀ other : UInt8, (Token.control byte == .control other) = (byte == other) := by
      intro other
      rw [Bool.eq_iff_iff]
      simp
    refine ⟨_, after, hrun, ?_, (nomatch ·), fun _ => ?_⟩
    · rwa [hsame]
    · rw [Token.events, hsame, Token.event]
  | csi parameters final =>
    obtain ⟨events, after, hrun, hafter, hleaks, hevents⟩ := h.run_sequence hvalid rfl (htime rfl)
    refine ⟨events, after, hrun, hafter, fun _ => hleaks, fun hintime => ?_⟩
    rw [hevents (hintime rfl)]
    simp [Token.events]
  | ss3 byte =>
    obtain ⟨events, after, hrun, hafter, hleaks, hevents⟩ := h.run_sequence hvalid rfl (htime rfl)
    refine ⟨events, after, hrun, hafter, fun _ => hleaks, fun hintime => ?_⟩
    rw [hevents (hintime rfl)]
    simp [Token.events]

/-- A token alone gives its event. -/
theorem Token.alone_eq {token : Token} (h : token.Valid) : token.alone = [token.event] := by
  let stamps : List Stamp := token.bytes.map fun byte => .byte byte 0 0
  have hbytes : stampBytes stamps = token.bytes := by
    have hcall := stampBytes_stamps [.feed token.bytes 0 0]
    simpa [Call.stamps, Call.bytes] using hcall
  have hall : ∀ item ∈ stamps, item.isByte = true ∧ item.now = 0 := by
    intro item hmem
    obtain ⟨byte, -, rfl⟩ := List.mem_map.mp hmem
    exact ⟨rfl, rfl⟩
  have hnonempty : stamps ≠ [] := by
    intro hnil
    rw [hnil] at hbytes
    cases token with
    | scalar point =>
      exact absurd (congrArg List.length hbytes) (Nat.ne_of_lt (length_encodePoint_pos point))
    | control byte => cases hbytes
    | csi parameters final => cases hbytes
    | ss3 byte => cases hbytes
  have hhead : stamps.head?.any Stamp.isByte = true := by
    rw [List.head?_eq_some_head hnonempty]
    exact (hall _ (List.head_mem hnonempty)).1
  have hlast : stamps.getLast?.any Stamp.isByte = true := by
    rw [List.getLast?_eq_some_getLast hnonempty]
    exact (hall _ (List.getLast_mem hnonempty)).1
  have hstarted : startedAt stamps = 0 := by
    rw [startedAt, List.head?_eq_some_head hnonempty]
    exact (hall _ (List.head_mem hnonempty)).2
  have hintime : (Piece.token token stamps).InTime := by
    intro item hmem
    rw [early, hstarted, (hall item hmem).2]
    decide
  obtain ⟨events, after, hrun, -, -, hevents⟩ :=
    ground_start.run_token ⟨h, hbytes, hhead, hlast⟩ fun _ => .inl hintime
  have hcall := run_call [.feed token.bytes 0 0] start
  rw [Mealy.run_singleton, List.flatMap_singleton] at hcall
  rw [Token.alone, show feed 0 0 token.bytes start = _ from hcall,
    show Mealy.run stamp (Call.stamps (.feed token.bytes 0 0)) start = _ from hrun,
    hevents fun _ => hintime]
  rfl

/-- The events of a trace, piece by piece. -/
theorem Ground.run_pieces {pieces : List Piece} (h : decoder.Ground carriage)
    (hvalid : ∀ piece ∈ pieces, piece.Valid)
    (htime : ∀ piece ∈ pieces, piece.isSequence = true → piece.InTime ∨ piece.AbsorbedLate) :
    (∀ front piece rest, pieces = front ++ piece :: rest → piece.isSequence = true →
      ∀ event ∈ (Mealy.run stamp piece.stamps
        (Mealy.run stamp (front.flatMap Piece.stamps) decoder).2).1, leaks event = false) ∧
    ((∀ piece ∈ pieces, piece.isSequence = true → piece.InTime) →
      (Mealy.run stamp (pieces.flatMap Piece.stamps) decoder).1 =
        joined carriage (pieces.flatMap Piece.tokens)) := by
  induction pieces generalizing decoder carriage with
  | nil => exact ⟨fun front piece rest hsplit => by simp at hsplit, fun _ => rfl⟩
  | cons piece pieces ih =>
    have hfirst : ∃ events after next, Mealy.run stamp piece.stamps decoder = (events, after) ∧
        after.Ground next ∧
        (piece.isSequence = true → ∀ event ∈ events, leaks event = false) ∧
        ((piece.isSequence = true → piece.InTime) →
          ∀ tokens, joined carriage (piece.tokens ++ tokens) = events ++ joined next tokens) := by
      cases piece with
      | poll now =>
        have hpoll : Mealy.run stamp (Piece.poll now).stamps decoder = ([], decoder) :=
          run_polls rfl fun poll _ => h.stamp_poll poll
        exact ⟨[], decoder, carriage, hpoll, h, (nomatch ·), fun _ _ => rfl⟩
      | token token stamps =>
        have htoken := hvalid (.token token stamps) List.mem_cons_self
        obtain ⟨events, after, hrun, hafter, hleaks, hevents⟩ :=
          h.run_token htoken (htime _ List.mem_cons_self)
        refine ⟨events, after, _, hrun, hafter, hleaks, fun hintime tokens => ?_⟩
        rw [hevents hintime, Token.events, Piece.tokens, List.singleton_append, joined,
          Token.alone_eq htoken.1]
    obtain ⟨events, after, next, hrun, hafter, hleaks, hevents⟩ := hfirst
    obtain ⟨hothers, hjoined⟩ := ih hafter
      (fun other hmem => hvalid other (List.mem_cons_of_mem _ hmem))
      (fun other hmem => htime other (List.mem_cons_of_mem _ hmem))
    constructor
    · intro front other rest hsplit hsequence
      cases front with
      | nil =>
        obtain ⟨rfl, -⟩ := List.cons.inj hsplit
        rw [List.flatMap_nil, Mealy.run_nil, hrun]
        exact hleaks hsequence
      | cons head front =>
        obtain ⟨rfl, htail⟩ := List.cons.inj hsplit
        rw [List.flatMap_cons, Mealy.run_append, hrun]
        exact hothers front other rest htail hsequence
    · intro hintime
      rw [List.flatMap_cons, Mealy.run_append, hrun, List.flatMap_cons,
        hevents (hintime piece List.mem_cons_self),
        hjoined fun other hmem => hintime other (List.mem_cons_of_mem _ hmem)]

/-- Keys are decoded token by token however their bytes are cut into feeds. Where the time of a
sequence runs out only behind its introducer, and its late bytes are not the end of the timed
Alt+Enter form, no byte of a sequence leaks; where no time runs out, the events are those of each
token alone. -/
theorem keys_decoded (pieces : List Piece) (calls : List Call)
    (hvalid : ∀ piece ∈ pieces, piece.Valid)
    (hcalls : calls.flatMap Call.stamps = pieces.flatMap Piece.stamps)
    (htime : ∀ piece ∈ pieces, piece.isSequence = true → piece.InTime ∨ piece.AbsorbedLate) :
    (∀ front piece rest, pieces = front ++ piece :: rest → piece.isSequence = true →
      ∀ event ∈ (Mealy.run stamp piece.stamps
        (Mealy.run stamp (front.flatMap Piece.stamps) start).2).1, leaks event = false) ∧
    ((∀ piece ∈ pieces, piece.isSequence = true → piece.InTime) →
      (Mealy.run call calls start).1 = joined false (pieces.flatMap Piece.tokens)) := by
  rw [run_call, hcalls]
  exact ground_start.run_pieces hvalid htime

/-- A cursor key in two feeds, with a poll at the deadline between them. -/
def lateCursor : Piece :=
  .token (.csi [] 0x41) [.byte 0x1b 0 0, .byte 0x5b 0 0, .poll 50, .byte 0x41 60 60]

theorem lateCursor_valid : lateCursor.Valid := by
  refine ⟨⟨?_, by decide, by decide⟩, by decide, by decide, by decide⟩
  exact fun _ hmem => nomatch hmem

theorem keys_decoded_late : lateCursor.Valid ∧
    ∀ event ∈ (Mealy.run stamp lateCursor.stamps
      (Mealy.run stamp [] start).2).1, leaks event = false := by
  have htime : ∀ piece ∈ [lateCursor], piece.isSequence = true →
      piece.InTime ∨ piece.AbsorbedLate := by
    intro piece hmem _
    rw [List.mem_singleton.mp hmem]
    exact .inr ⟨[.byte 0x1b 0 0, .byte 0x5b 0 0], .poll 50, [.byte 0x41 60 60], by decide⟩
  exact ⟨lateCursor_valid,
    (keys_decoded [lateCursor] [.feed [0x1b, 0x5b] 0 0, .poll 50, .feed [0x41] 60 60]
      (fun piece hmem => List.mem_singleton.mp hmem ▸ lateCursor_valid) (by decide) htime).1
      [] lateCursor [] rfl rfl⟩

/-- A lone ESC that reaches the deadline is the Escape key, and what comes behind it is text. -/
theorem escape_alone_leaks :
    (Piece.token (.csi [] 0x41)
      [.byte 0x1b 0 0, .poll 50, .byte 0x5b 60 60, .byte 0x41 60 60]).Valid ∧
    Mealy.run call [.feed [0x1b] 0 0, .poll 50, .feed [0x5b, 0x41] 60 60] start =
      ([.escape, .printable [0x5b] (some 0x5b), .printable [0x41] (some 0x41)], start) ∧
    leaks (.printable [0x41] (some 0x41)) = true := by
  refine ⟨⟨⟨?_, by decide, by decide⟩, by decide, by decide, by decide⟩, by decide +kernel, rfl⟩
  exact fun _ hmem => nomatch hmem

end InputDecoder

end Henji
