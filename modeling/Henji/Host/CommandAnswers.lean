import Henji.Host.CommandLaw

/-!
# What the callers of a command are answered

The first registration of an id is its origin. It holds the id until its receipt is stored. A later
registration of the id, after the receipt has left the cache, reads the stored receipt and ends with
it, or with a conflict.

Results:
1. `answers_step`: where the reads of stored receipts succeed, every answer is the origin's.
2. `command_idempotent`: what holds of the commands over a run.
-/

namespace Henji

namespace CoreCommands

variable {sha256 : List UInt8 → List UInt8} {commands next : CoreCommands}

/-- The first registration of an id. -/
def Origin (commands : CoreCommands) (id : JsText) (origin : Nat) : Prop :=
  origin < commands.registrations.next ∧
    (commands.registrations.read origin).commandId = id ∧
    ∀ earlier < origin, (commands.registrations.read earlier).commandId ≠ id

theorem origin_unique {id : JsText} {first second : Nat} (hfirst : commands.Origin id first)
    (hsecond : commands.Origin id second) : first = second := by
  rcases Nat.lt_trichotomy first second with hlt | heq | hgt
  · exact absurd hfirst.2.1 (hsecond.2.2 first hlt)
  · exact heq
  · exact absurd hsecond.2.1 (hfirst.2.2 second hgt)

theorem exists_origin {ref : Nat} (hbegun : ref < commands.registrations.next) :
    ∃ origin, commands.Origin (commands.registrations.read ref).commandId origin := by
  induction ref using Nat.strongRecOn with
  | ind ref ih =>
    by_cases hearlier : ∃ earlier < ref, (commands.registrations.read earlier).commandId =
        (commands.registrations.read ref).commandId
    · obtain ⟨earlier, hlt, hid⟩ := hearlier
      obtain ⟨origin, horigin⟩ := ih earlier hlt (hlt.trans hbegun)
      exact ⟨origin, hid ▸ horigin⟩
    · exact ⟨ref, hbegun, rfl, fun earlier hlt hid => hearlier ⟨earlier, hlt, hid⟩⟩

/-- The outcome of a caller with the signature: with the origin's signature it is the origin's, with
another one a conflict. -/
structure Agrees (commands : CoreCommands) (origin : Nat) (signature : Json)
    (outcome : CommandOutcome) : Prop where
  same : stringify signature = stringify (commands.registrations.read origin).signature →
    (commands.registrations.read origin).settled = some outcome
  other : stringify signature ≠ stringify (commands.registrations.read origin).signature →
    outcome = .rejected .conflict

/-- What a step must not meet for the answers to agree: a failed read of a stored receipt; a call
with the stored signature while the id is registered once more with another one; the deletion of a
stored receipt. -/
def Consistent (sha256 : List UInt8 → List UInt8) (commands : CoreCommands) : CommandEvent → Prop
  | .register commandId signature _ _ => ∀ ref receipt,
    commands.commands.get? commandId = some ref →
    commands.receipts.get? commandId = some receipt →
    receipt.signatureDigest = digestOf sha256 signature →
    stringify (commands.registrations.read ref).signature = stringify signature
  | .receiptReadFailed ref _ =>
    commands.receipts.get? (commands.registrations.read ref).commandId = none
  | .receiptDeleted commandId => commands.receipts.get? commandId = none
  | _ => True

instance (commands : CoreCommands) : (event : CommandEvent) →
    Decidable (Consistent sha256 commands event)
  | .register commandId signature _ _ =>
    decidable_of_iff ((commands.commands.get? commandId).all fun ref =>
        (commands.receipts.get? commandId).all fun receipt =>
          decide (receipt.signatureDigest = digestOf sha256 signature →
            stringify (commands.registrations.read ref).signature = stringify signature)) (by
      simp only [Consistent, Option.all_eq_true, decide_eq_true_eq]
      exact ⟨fun h ref receipt href hreceipt => h ref href receipt hreceipt,
        fun h ref href receipt hreceipt => h ref receipt href hreceipt⟩)
  | .receiptReadFailed ref _ => inferInstanceAs (Decidable (_ = none))
  | .receiptDeleted commandId => inferInstanceAs (Decidable (_ = none))
  | .slotChanged _ | .admissionClosed | .preflight _ | .receiptRead _ _ | .workResolved _ _ _
  | .workRejected _ _ | .receiptSaved _ | .receiptSaveFailed _ _ _ => isTrue trivial

/-- The stored receipt of an id is the origin's. -/
structure OfOrigin (sha256 : List UInt8 → List UInt8) (commands : CoreCommands) (origin : Nat)
    (receipt : DataCommandReceipt) : Prop where
  digest : receipt.signatureDigest =
    digestOf sha256 (commands.registrations.read origin).signature
  /-- Where the save was not acknowledged, the origin still holds the id. -/
  outcome : (commands.registrations.read origin).phase = .retained ∨
    (commands.registrations.read origin).settled = some (.resolved receipt.result)

structure Answers (sha256 : List UInt8 → List UInt8) (commands : CoreCommands) : Prop where
  outcome : ∀ ref origin outcome,
    commands.Origin (commands.registrations.read ref).commandId origin →
    ref < commands.registrations.next →
    (commands.registrations.read ref).settled = some outcome →
    commands.Agrees origin (commands.registrations.read ref).signature outcome
  direct : ∀ call ∈ commands.calls, ∀ outcome, call.answer = .direct outcome →
    ∃ origin, commands.Origin call.commandId origin ∧ commands.Agrees origin call.signature outcome
  stored : ∀ id receipt, commands.receipts.get? id = some receipt →
    ∃ origin, commands.Origin id origin ∧ OfOrigin sha256 commands origin receipt
  cached : ∀ id receipt, commands.completedCommands.get? id = some receipt →
    commands.receipts.get? id = some receipt
  /-- The origin holds an id of which no receipt is stored. -/
  first : ∀ id origin, commands.Origin id origin → commands.receipts.get? id = none →
    commands.commands.get? id = some origin
  /-- A registration that is past its read is the origin's. -/
  again : ∀ id origin, commands.Origin id origin → commands.commands.get? id = some origin →
    (commands.registrations.read origin).phase ≠ .retained → commands.receipts.get? id = none
  later : ∀ id ref origin, commands.Origin id origin → commands.commands.get? id = some ref →
    ref ≠ origin → (commands.registrations.read ref).phase.released = false

/-! ## A registration moves -/

section Move

variable {ref : Nat} {phase : RegistrationPhase} {settled : Option CommandOutcome}

/-- The state after a registration has moved. -/
def afterMove (commands : CoreCommands) (ref : Nat) (phase : RegistrationPhase)
    (settled : Option CommandOutcome) (tracked : InsMap JsText Nat)
    (cache : InsMap JsText DataCommandReceipt) (bytes : Int) (works : List Nat)
    (receipts : InsMap JsText DataCommandReceipt) : CoreCommands :=
  { commands with
    commands := tracked
    completedCommands := cache
    completedCommandBytes := bytes
    registrations := commands.moved ref phase settled
    works
    receipts }

variable {tracked : InsMap JsText Nat} {cache receipts : InsMap JsText DataCommandReceipt}
  {bytes : Int} {works : List Nat}

theorem origin_afterMove {id : JsText} {origin : Nat} :
    (commands.afterMove ref phase settled tracked cache bytes works receipts).Origin id origin ↔
      commands.Origin id origin := by
  have hid : ∀ other, ((commands.moved ref phase settled).read other).commandId =
      (commands.registrations.read other).commandId :=
    fun other => (moved_signature commands ref other phase settled).1
  unfold Origin afterMove
  simp only [hid]
  rfl

/-- What agrees with the origin still does: a promise that is settled does not change. -/
theorem agrees_afterMove {origin : Nat} {signature : Json} {outcome : CommandOutcome}
    (hpending : (commands.registrations.read ref).settled = none)
    (h : commands.Agrees origin signature outcome) :
    (commands.afterMove ref phase settled tracked cache bytes works receipts).Agrees origin
      signature outcome := by
  have hsignature : ((commands.afterMove ref phase settled tracked cache bytes works
      receipts).registrations.read origin).signature =
        (commands.registrations.read origin).signature :=
    (moved_signature commands ref origin phase settled).2
  refine ⟨fun heq => ?_, fun hne => h.other (hsignature ▸ hne)⟩
  rw [hsignature] at heq
  have hsettled := h.same heq
  have hne : origin ≠ ref := by
    rintro rfl
    rw [hpending] at hsettled
    cases hsettled
  show ((commands.moved ref phase settled).read origin).settled = some outcome
  rw [read_moved, if_neg hne]
  exact hsettled

theorem ofOrigin_afterMove {origin : Nat} {receipt : DataCommandReceipt}
    (hphase : (commands.registrations.read ref).phase ≠ .retained)
    (hpending : (commands.registrations.read ref).settled = none)
    (h : OfOrigin sha256 commands origin receipt) :
    OfOrigin sha256 (commands.afterMove ref phase settled tracked cache bytes works receipts) origin
      receipt := by
  have hne : origin ≠ ref := by
    rintro rfl
    rcases h.outcome with hretained | hsettled
    · exact hphase hretained
    · rw [hpending] at hsettled
      cases hsettled
  have hread : (commands.moved ref phase settled).read origin =
      commands.registrations.read origin := by
    rw [read_moved, if_neg hne]
  refine ⟨?_, ?_⟩
  · show receipt.signatureDigest =
      digestOf sha256 ((commands.moved ref phase settled).read origin).signature
    rw [hread]
    exact h.digest
  · show ((commands.moved ref phase settled).read origin).phase = .retained ∨
      ((commands.moved ref phase settled).read origin).settled = _
    rw [hread]
    exact h.outcome

/-- A pending registration moves. -/
theorem answers_move (h : Answers sha256 commands)
    (hphase : (commands.registrations.read ref).phase ≠ .retained)
    (hpending : (commands.registrations.read ref).settled = none)
    (hown : ∀ outcome origin, commands.Origin (commands.registrations.read ref).commandId origin →
      settled = some outcome →
      (commands.afterMove ref phase settled tracked cache bytes works receipts).Agrees origin
        (commands.registrations.read ref).signature outcome)
    (hstored : ∀ id receipt, receipts.get? id = some receipt →
      commands.receipts.get? id = some receipt ∨ ∃ origin, commands.Origin id origin ∧
        OfOrigin sha256 (commands.afterMove ref phase settled tracked cache bytes works receipts)
          origin receipt)
    (hcached : ∀ id receipt, cache.get? id = some receipt → receipts.get? id = some receipt)
    (hfirst : ∀ id origin, commands.Origin id origin → receipts.get? id = none →
      tracked.get? id = some origin)
    (hagain : ∀ id origin, commands.Origin id origin → tracked.get? id = some origin →
      ((commands.moved ref phase settled).read origin).phase ≠ .retained → receipts.get? id = none)
    (hlater : ∀ id other origin, commands.Origin id origin → tracked.get? id = some other →
      other ≠ origin → ((commands.moved ref phase settled).read other).phase.released = false) :
    Answers sha256
      (commands.afterMove ref phase settled tracked cache bytes works receipts) := by
  refine ⟨fun other origin outcome ho hbegun hs => ?_, fun call hcall outcome hanswer => ?_,
    fun id receipt hr => ?_, hcached, fun id origin ho => hfirst id origin (origin_afterMove.mp ho),
    fun id origin ho => hagain id origin (origin_afterMove.mp ho),
    fun id other origin ho => hlater id other origin (origin_afterMove.mp ho)⟩
  · have hread : (commands.afterMove ref phase settled tracked cache bytes works
        receipts).registrations.read other = (commands.moved ref phase settled).read other := rfl
    rw [hread] at ho hs ⊢
    obtain ⟨hid, hsignature⟩ := moved_signature commands ref other phase settled
    rw [hid, origin_afterMove] at ho
    rw [hsignature]
    rw [read_moved] at hs
    split at hs
    · next heq =>
      subst heq
      exact hown outcome origin ho hs
    · exact agrees_afterMove hpending (h.outcome other origin outcome ho hbegun hs)
  · obtain ⟨origin, ho, hagrees⟩ := h.direct call hcall outcome hanswer
    exact ⟨origin, origin_afterMove.mpr ho, agrees_afterMove hpending hagrees⟩
  · rcases hstored id receipt hr with hold | ⟨origin, ho, hof⟩
    · obtain ⟨origin, ho, hof⟩ := h.stored id receipt hold
      exact ⟨origin, origin_afterMove.mpr ho, ofOrigin_afterMove hphase hpending hof⟩
    · exact ⟨origin, origin_afterMove.mpr ho, hof⟩

end Move

/-- A pending registration goes on; it passes its read only as the origin. -/
theorem answers_goesOn (h : Answers sha256 commands) (hshape : commands.Shape sha256) {ref : Nat}
    {phase : RegistrationPhase} {works : List Nat}
    (hpending : (commands.registrations.read ref).phase.pending = true)
    (hnext : phase.released = true →
      commands.Origin (commands.registrations.read ref).commandId ref) :
    Answers sha256 { commands with registrations := commands.moved ref phase none, works } := by
  have hphase : (commands.registrations.read ref).phase ≠ .retained := by
    intro heq
    rw [heq] at hpending
    cases hpending
  refine answers_move h hphase ((hshape.settled ref).mpr hpending) (fun _ _ _ heq => nomatch heq)
    (fun _ _ hs => .inl hs) h.cached h.first (fun id origin ho ht hne => ?_)
    fun id other origin ho ht hother => ?_
  · refine h.again id origin ho ht fun hretained => ?_
    rw [read_moved] at hne
    split at hne
    · next heq => exact hphase (heq ▸ hretained)
    · exact hne hretained
  · have hlater := h.later id other origin ho ht hother
    rw [read_moved]
    split
    · next heq =>
      subst heq
      by_contra hreleased
      have hid := ((hshape.tracked id other).mp ht).1
      exact hother (origin_unique (hid ▸ hnext (eq_true_of_ne_false hreleased)) ho)
    · exact hlater

/-! ## A registration ends -/

/-- A registration past its read is the origin of its id, and no receipt is stored. -/
theorem origin_of_released (h : Answers sha256 commands) (hshape : commands.Shape sha256) {ref : Nat}
    (hpending : (commands.registrations.read ref).phase.pending = true)
    (hreleased : (commands.registrations.read ref).phase.released = true) :
    commands.Origin (commands.registrations.read ref).commandId ref ∧
      commands.receipts.get? (commands.registrations.read ref).commandId = none := by
  obtain ⟨hnot, hbegun⟩ := begun_of_pending hshape hpending
  have htracked := (hshape.tracked _ ref).mpr ⟨rfl, hnot⟩
  obtain ⟨origin, ho⟩ := exists_origin hbegun
  have heq : ref = origin := by
    by_contra hne
    have hlater := h.later _ ref origin ho htracked hne
    rw [hreleased] at hlater
    cases hlater
  subst heq
  refine ⟨ho, h.again _ ref ho htracked fun hretained => ?_⟩
  rw [hretained] at hpending
  cases hpending

/-- Where a receipt is stored, a reading registration is not the origin, whose promise is settled
with the receipt. -/
theorem settled_of_stored (h : Answers sha256 commands) (hshape : commands.Shape sha256) {ref : Nat}
    {receipt : DataCommandReceipt} (hphase : (commands.registrations.read ref).phase = .reading)
    (hstored : commands.receipts.get? (commands.registrations.read ref).commandId = some receipt) :
    ∃ origin, commands.Origin (commands.registrations.read ref).commandId origin ∧ origin ≠ ref ∧
      receipt.signatureDigest = digestOf sha256 (commands.registrations.read origin).signature ∧
      (commands.registrations.read origin).settled = some (.resolved receipt.result) := by
  obtain ⟨origin, ho, hof⟩ := h.stored _ receipt hstored
  have htracked := (hshape.tracked _ ref).mpr ⟨rfl, by rw [hphase]; nofun⟩
  have hne : origin ≠ ref := by
    rintro rfl
    rw [h.again _ origin ho htracked (by rw [hphase]; nofun)] at hstored
    cases hstored
  refine ⟨origin, ho, hne, hof.digest, hof.outcome.resolve_left fun hretained => ?_⟩
  have hheld := (hshape.tracked _ origin).mpr ⟨ho.2.1, by rw [hretained]; nofun⟩
  rw [htracked] at hheld
  exact hne (Option.some.inj hheld).symm

/-- A registration is over when a receipt of its id is stored. -/
theorem answers_finish (h : Answers sha256 commands) (hshape : commands.Shape sha256) {ref : Nat}
    {outcome : CommandOutcome} {cache receipts : InsMap JsText DataCommandReceipt} {bytes : Int}
    (hpending : (commands.registrations.read ref).phase.pending = true)
    (hsome : receipts.get? (commands.registrations.read ref).commandId ≠ none)
    (hothers : ∀ id, id ≠ (commands.registrations.read ref).commandId →
      receipts.get? id = commands.receipts.get? id)
    (hown : ∀ origin, commands.Origin (commands.registrations.read ref).commandId origin →
      (commands.afterMove ref .over (some outcome)
        (commands.commands.erase (commands.registrations.read ref).commandId) cache bytes
        commands.works receipts).Agrees origin (commands.registrations.read ref).signature outcome)
    (hstored : ∀ receipt,
      receipts.get? (commands.registrations.read ref).commandId = some receipt →
      commands.receipts.get? (commands.registrations.read ref).commandId = some receipt ∨
      ∃ origin, commands.Origin (commands.registrations.read ref).commandId origin ∧
        OfOrigin sha256 (commands.afterMove ref .over (some outcome)
          (commands.commands.erase (commands.registrations.read ref).commandId) cache bytes
          commands.works receipts) origin receipt)
    (hcached : ∀ id receipt, cache.get? id = some receipt → receipts.get? id = some receipt) :
    Answers sha256 { commands with
      commands := commands.commands.erase (commands.registrations.read ref).commandId
      completedCommands := cache
      completedCommandBytes := bytes
      registrations := commands.moved ref .over (some outcome)
      receipts } := by
  have hphase : (commands.registrations.read ref).phase ≠ .retained := by
    intro heq
    rw [heq] at hpending
    cases hpending
  -- What is still tracked is another id, and another registration.
  have herased : ∀ id other,
      (commands.commands.erase (commands.registrations.read ref).commandId).get? id = some other →
      commands.commands.get? id = some other ∧
        id ≠ (commands.registrations.read ref).commandId ∧ other ≠ ref := by
    intro id other ht
    rw [InsMap.get?_erase] at ht
    split at ht
    · cases ht
    · next hne =>
      refine ⟨ht, hne, ?_⟩
      rintro rfl
      exact hne ((hshape.tracked id other).mp ht).1.symm
  refine answers_move h hphase ((hshape.settled ref).mpr hpending)
    (fun o origin ho heq => Option.some.inj heq ▸ hown origin ho) (fun id receipt hr => ?_) hcached
    (fun id origin ho hnone => ?_) (fun id origin ho ht hne => ?_) fun id other origin ho ht hne => ?_
  · by_cases hid : id = (commands.registrations.read ref).commandId
    · subst hid
      exact hstored receipt hr
    · exact .inl (hothers id hid ▸ hr)
  · have hid : id ≠ (commands.registrations.read ref).commandId := by
      rintro rfl
      exact hsome hnone
    rw [InsMap.get?_erase, if_neg hid]
    exact h.first id origin ho (hothers id hid ▸ hnone)
  · obtain ⟨htracked, hid, hother⟩ := herased id origin ht
    rw [read_moved, if_neg hother] at hne
    rw [hothers id hid]
    exact h.again id origin ho htracked hne
  · obtain ⟨htracked, hid, hother⟩ := herased id other ht
    rw [read_moved, if_neg hother]
    exact h.later id other origin ho htracked hne

/-- A registration is over after a read of the stored receipt. -/
theorem answers_read (h : Answers sha256 commands) (hshape : commands.Shape sha256) {ref : Nat}
    {outcome : CommandOutcome} {receipt : DataCommandReceipt}
    {cache : InsMap JsText DataCommandReceipt} {bytes : Int}
    (hphase : (commands.registrations.read ref).phase = .reading)
    (hstored : commands.receipts.get? (commands.registrations.read ref).commandId = some receipt)
    (hcache : ∀ id cached, cache.get? id = some cached →
      commands.completedCommands.get? id = some cached ∨
        (id = (commands.registrations.read ref).commandId ∧ cached = receipt))
    (houtcome : ∀ origin < commands.registrations.next,
      receipt.signatureDigest = digestOf sha256 (commands.registrations.read origin).signature →
      (commands.registrations.read origin).settled = some (.resolved receipt.result) →
      commands.Agrees origin (commands.registrations.read ref).signature outcome) :
    Answers sha256 { commands with
      commands := commands.commands.erase (commands.registrations.read ref).commandId
      completedCommands := cache
      completedCommandBytes := bytes
      registrations := commands.moved ref .over (some outcome) } := by
  have hpending : (commands.registrations.read ref).phase.pending = true := by
    rw [hphase]
    rfl
  refine answers_finish h hshape hpending (by rw [hstored]; nofun) (fun _ _ => rfl)
    (fun origin ho => ?_) (fun _ hs => .inl hs) fun id cached hc => ?_
  · obtain ⟨origin', ho', -, hdigest, hsettled⟩ := settled_of_stored h hshape hphase hstored
    obtain rfl := origin_unique ho ho'
    exact agrees_afterMove ((hshape.settled ref).mpr hpending) (houtcome origin ho.1 hdigest hsettled)
  · rcases hcache id cached hc with hold | ⟨rfl, rfl⟩
    · exact h.cached id cached hold
    · exact hstored

/-- The origin is settled as its promise is. -/
theorem agrees_self {ref : Nat} {phase : RegistrationPhase} {outcome : CommandOutcome}
    {tracked : InsMap JsText Nat} {cache receipts : InsMap JsText DataCommandReceipt} {bytes : Int}
    {works : List Nat} :
    (commands.afterMove ref phase (some outcome) tracked cache bytes works receipts).Agrees ref
      (commands.registrations.read ref).signature outcome := by
  have hsignature : ((commands.afterMove ref phase (some outcome) tracked cache bytes works
      receipts).registrations.read ref).signature =
        (commands.registrations.read ref).signature :=
    (moved_signature commands ref ref phase (some outcome)).2
  refine ⟨fun _ => ?_, fun hne => absurd (congrArg stringify hsignature.symm) hne⟩
  show ((commands.moved ref phase (some outcome)).read ref).settled = some outcome
  rw [read_moved, if_pos rfl]

/-- The save of the origin's receipt ran. -/
theorem answers_saved (h : Answers sha256 commands) (hshape : commands.Shape sha256) {ref : Nat}
    {receipt : DataCommandReceipt} {cache receipts : InsMap JsText DataCommandReceipt} {bytes : Int}
    (hphase : (commands.registrations.read ref).phase = .saving receipt)
    (hwrite : writeCommandReceipt commands.receipts receipt = some receipts)
    (hcache : ∀ id cached, cache.get? id = some cached →
      commands.completedCommands.get? id = some cached ∨
        (id = receipt.commandId ∧ cached = receipt)) :
    Answers sha256 { commands with
      commands := commands.commands.erase (commands.registrations.read ref).commandId
      completedCommands := cache
      completedCommandBytes := bytes
      registrations := commands.moved ref .over (some (.resolved receipt.result))
      receipts } := by
  have hpending : (commands.registrations.read ref).phase.pending = true := by
    rw [hphase]
    rfl
  obtain ⟨ho, hnone⟩ := origin_of_released h hshape hpending (by rw [hphase]; rfl)
  obtain ⟨hid, hdigest⟩ := hshape.saving ref receipt hphase
  have hwritten : receipts.get? (commands.registrations.read ref).commandId = some receipt := by
    rw [get?_write hwrite, if_pos ⟨hid.symm, hnone⟩]
  have hothers : ∀ id, id ≠ (commands.registrations.read ref).commandId →
      receipts.get? id = commands.receipts.get? id := by
    intro id hne
    rw [get?_write hwrite, if_neg fun h => hne (h.1.trans hid)]
  refine answers_finish h hshape hpending (by rw [hwritten]; nofun) hothers (fun origin ho' => ?_)
    (fun stored hs => .inr ⟨ref, ho, ?_⟩) fun id cached hc => ?_
  · obtain rfl := origin_unique ho ho'
    exact agrees_self
  · obtain rfl := Option.some.inj (hwritten.symm.trans hs)
    refine ⟨?_, .inr (agrees_self.same ?_)⟩
    · exact hdigest.trans (congrArg (digestOf sha256)
        (moved_signature commands ref ref .over _).2.symm)
    · exact congrArg stringify (moved_signature commands ref ref .over _).2.symm
  · rcases hcache id cached hc with hold | ⟨rfl, rfl⟩
    · have hstored := h.cached id cached hold
      have hne : id ≠ (commands.registrations.read ref).commandId := by
        rintro rfl
        rw [hnone] at hstored
        cases hstored
      rw [hothers id hne]
      exact hstored
    · rw [hid]
      exact hwritten

/-- The save of the origin's receipt was not acknowledged. -/
theorem answers_retained (h : Answers sha256 commands) (hshape : commands.Shape sha256) {ref : Nat}
    {receipt : DataCommandReceipt} {receipts : InsMap JsText DataCommandReceipt}
    (error : CommandError)
    (hphase : (commands.registrations.read ref).phase = .saving receipt)
    (hwrite : receipts = commands.receipts ∨
      writeCommandReceipt commands.receipts receipt = some receipts) :
    Answers sha256 { commands with
      registrations := commands.moved ref .retained (some (.rejected error))
      receipts } := by
  have hpending : (commands.registrations.read ref).phase.pending = true := by
    rw [hphase]
    rfl
  obtain ⟨ho, hnone⟩ := origin_of_released h hshape hpending (by rw [hphase]; rfl)
  obtain ⟨hid, hdigest⟩ := hshape.saving ref receipt hphase
  have hothers : ∀ id, id ≠ (commands.registrations.read ref).commandId →
      receipts.get? id = commands.receipts.get? id := by
    intro id hne
    rcases hwrite with rfl | hwrite
    · rfl
    · rw [get?_write hwrite, if_neg fun h => hne (h.1.trans hid)]
  refine answers_move h (by rw [hphase]; nofun) ((hshape.settled ref).mpr hpending)
    (fun o origin ho' heq => ?_) (fun id stored hs => ?_) (fun id cached hc => ?_)
    (fun id origin ho' hnone' => ?_) (fun id origin ho' ht hne => ?_)
    fun id other origin ho' ht hne => ?_
  · obtain rfl := origin_unique ho ho'
    obtain rfl := Option.some.inj heq
    exact agrees_self
  · by_cases heq : id = (commands.registrations.read ref).commandId
    · subst heq
      rcases hwrite with rfl | hwrite
      · exact .inl hs
      · rw [get?_write hwrite, if_pos ⟨hid.symm, hnone⟩] at hs
        obtain rfl := Option.some.inj hs
        refine .inr ⟨ref, ho, ?_, .inl ?_⟩
        · exact hdigest.trans (congrArg (digestOf sha256)
            (moved_signature commands ref ref .retained _).2.symm)
        · show ((commands.moved ref .retained _).read ref).phase = .retained
          rw [read_moved, if_pos rfl]
    · exact .inl (hothers id heq ▸ hs)
  · have hstored := h.cached id cached hc
    have hne : id ≠ (commands.registrations.read ref).commandId := by
      rintro rfl
      rw [hnone] at hstored
      cases hstored
    rw [hothers id hne]
    exact hstored
  · by_cases heq : id = (commands.registrations.read ref).commandId
    · subst heq
      exact h.first _ origin ho' hnone
    · exact h.first id origin ho' (hothers id heq ▸ hnone')
  · by_cases heq : id = (commands.registrations.read ref).commandId
    · subst heq
      obtain rfl := origin_unique ho ho'
      rw [read_moved, if_pos rfl] at hne
      exact absurd rfl hne
    · have hother : origin ≠ ref := fun h => heq (h ▸ ho'.2.1.symm)
      rw [read_moved, if_neg hother] at hne
      rw [hothers id heq]
      exact h.again id origin ho' ht hne
  · have hother : other ≠ ref := by
      rintro rfl
      have hid' := ((hshape.tracked id other).mp ht).1
      exact hne (origin_unique (hid' ▸ ho) ho')
    rw [read_moved, if_neg hother]
    exact h.later id other origin ho' ht hne

/-- A state with the same registrations, callers and receipts. -/
theorem answers_congr (h : Answers sha256 commands)
    (hregistrations : next.registrations = commands.registrations)
    (hcalls : next.calls = commands.calls) (htracked : next.commands = commands.commands)
    (hcompleted : next.completedCommands = commands.completedCommands)
    (hreceipts : ∀ id, next.receipts.get? id = commands.receipts.get? id) :
    Answers sha256 next := by
  have horigin : ∀ id origin, next.Origin id origin ↔ commands.Origin id origin := by
    intro id origin
    unfold Origin
    rw [hregistrations]
  have hagrees : ∀ {origin signature outcome}, commands.Agrees origin signature outcome →
      next.Agrees origin signature outcome := by
    intro origin signature outcome hold
    exact ⟨hregistrations ▸ hold.same, hregistrations ▸ hold.other⟩
  refine ⟨fun ref origin outcome ho hb hs => ?_, fun call hcall outcome hanswer => ?_,
    fun id receipt hr => ?_, fun id receipt hc => ?_, fun id origin ho hnone => ?_,
    fun id origin ho ht hne => ?_, fun id ref origin ho ht hne => ?_⟩
  · rw [hregistrations] at ho hb hs ⊢
    exact hagrees (h.outcome ref origin outcome ((horigin _ _).mp ho) hb hs)
  · obtain ⟨origin, ho, hold⟩ := h.direct call (hcalls ▸ hcall) outcome hanswer
    exact ⟨origin, (horigin _ _).mpr ho, hagrees hold⟩
  · obtain ⟨origin, ho, hof⟩ := h.stored id receipt (hreceipts id ▸ hr)
    exact ⟨origin, (horigin _ _).mpr ho, hregistrations ▸ hof.digest, hregistrations ▸ hof.outcome⟩
  · rw [hreceipts]
    exact h.cached id receipt (hcompleted ▸ hc)
  · rw [htracked]
    exact h.first id origin ((horigin _ _).mp ho) (hreceipts id ▸ hnone)
  · rw [hreceipts]
    exact h.again id origin ((horigin _ _).mp ho) (htracked ▸ ht) (hregistrations ▸ hne)
  · rw [hregistrations]
    exact h.later id ref origin ((horigin _ _).mp ho) (htracked ▸ ht) hne

/-! ## Callers -/

/-- A caller that joins a registration, or is answered at once as the origin was. -/
theorem answers_recordCall (h : Answers sha256 commands) (commandId : JsText) (signature : Json)
    {answer : CallAnswer}
    (hdirect : ∀ outcome, answer = .direct outcome →
      ∃ origin, commands.Origin commandId origin ∧ commands.Agrees origin signature outcome) :
    Answers sha256 (commands.recordCall commandId signature answer) :=
  { h with
    outcome := fun ref origin outcome ho hbegun hs =>
      ⟨(h.outcome ref origin outcome ho hbegun hs).same,
        (h.outcome ref origin outcome ho hbegun hs).other⟩
    direct := fun call hcall outcome hanswer => by
      have hold : ∃ origin, commands.Origin call.commandId origin ∧
          commands.Agrees origin call.signature outcome := by
        rcases List.mem_cons.mp hcall with rfl | hin
        · exact hdirect outcome hanswer
        · exact h.direct call hin outcome hanswer
      obtain ⟨origin, ho, hagrees⟩ := hold
      exact ⟨origin, ho, hagrees.same, hagrees.other⟩
    stored := fun id receipt hstored => by
      obtain ⟨origin, ho, hof⟩ := h.stored id receipt hstored
      exact ⟨origin, ho, hof.digest, hof.outcome⟩ }

/-- A caller with another signature than that under which the id is held gets a conflict, and is
right to: the signature is not the origin's. -/
theorem answers_conflicted (h : Answers sha256 commands) (hshape : commands.Shape sha256)
    {commandId : JsText} {signature : Json} {target : CommandTarget} {shutdown : Bool} {ref : Nat}
    (hconsistent : Consistent sha256 commands (.register commandId signature target shutdown))
    (htracked : commands.commands.get? commandId = some ref)
    (hother : stringify (commands.registrations.read ref).signature ≠ stringify signature) :
    ∃ origin, commands.Origin commandId origin ∧
      commands.Agrees origin signature (.rejected .conflict) := by
  obtain ⟨hid, hnot⟩ := (hshape.tracked _ _).mp htracked
  have hbegun : ref < commands.registrations.next := by
    by_contra hge
    exact hnot (hshape.unregistered ref (Nat.le_of_not_lt hge))
  obtain ⟨origin, ho⟩ := exists_origin hbegun
  rw [hid] at ho
  refine ⟨origin, ho, fun heq => ?_, fun _ => rfl⟩
  exfalso
  by_cases hself : ref = origin
  · exact hother (hself ▸ heq.symm)
  · -- Another registration holds the id: then a receipt of the origin is stored.
    cases hstored : commands.receipts.get? commandId with
    | none =>
      rw [h.first commandId origin ho hstored] at htracked
      exact hself (Option.some.inj htracked).symm
    | some receipt =>
      obtain ⟨origin', ho', hof⟩ := h.stored commandId receipt hstored
      obtain rfl := origin_unique ho ho'
      refine hother (hconsistent ref receipt htracked hstored ?_)
      rw [hof.digest]
      unfold digestOf
      rw [heq]

/-- A caller is answered from the cache as the origin was. -/
theorem answers_fromCache (h : Answers sha256 commands) (hshape : commands.Shape sha256)
    {commandId : JsText} {receipt : DataCommandReceipt} {signature : Json}
    (hsha : ∀ ref < commands.registrations.next,
      digestOf sha256 signature = digestOf sha256 (commands.registrations.read ref).signature →
      stringify signature = stringify (commands.registrations.read ref).signature)
    (hcached : commands.completedCommands.get? commandId = some receipt) :
    ∃ origin, commands.Origin commandId origin ∧ commands.Agrees origin signature
      (if receipt.signatureDigest ≠ digestOf sha256 signature then .rejected .conflict
        else .resolved receipt.result) := by
  obtain ⟨origin, ho, hof⟩ := h.stored commandId receipt (h.cached commandId receipt hcached)
  have hsettled : (commands.registrations.read origin).settled =
      some (.resolved receipt.result) := by
    refine hof.outcome.resolve_left fun hretained => ?_
    have htracked := (hshape.tracked _ origin).mpr ⟨ho.2.1, by rw [hretained]; nofun⟩
    rw [hshape.cached commandId receipt hcached] at htracked
    cases htracked
  refine ⟨origin, ho, fun heq => ?_, fun hne => ?_⟩
  · rw [if_neg, hsettled]
    rw [hof.digest]
    unfold digestOf
    rw [heq]
    exact not_not.mpr rfl
  · refine if_pos fun hdigest => hne (hsha origin ho.1 ?_)
    rw [← hdigest, hof.digest]

/-! ## New registrations -/

section Registered

variable {registration : Registration} {tracked : InsMap JsText Nat} {admissionClosed : Bool}

/-- The state with a new registration. -/
def afterRegister (commands : CoreCommands) (registration : Registration)
    (tracked : InsMap JsText Nat) (admissionClosed : Bool) : CoreCommands :=
  { commands with
    commands := tracked
    registrations := (commands.registrations.alloc registration).2
    admissionClosed }

theorem read_afterRegister {ref : Nat} (hbegun : ref < commands.registrations.next) :
    (commands.afterRegister registration tracked admissionClosed).registrations.read ref =
      commands.registrations.read ref := Heap.read_alloc_lt _ _ hbegun

theorem read_afterRegister_self :
    (commands.afterRegister registration tracked admissionClosed).registrations.read
      commands.registrations.next = registration := Heap.read_alloc_self _ _

theorem origin_afterRegister {id : JsText} {origin : Nat} (ho : commands.Origin id origin) :
    (commands.afterRegister registration tracked admissionClosed).Origin id origin := by
  refine ⟨ho.1.trans (Nat.lt_succ_self _), ?_, fun earlier hlt => ?_⟩
  · rw [read_afterRegister ho.1]
    exact ho.2.1
  · rw [read_afterRegister (hlt.trans ho.1)]
    exact ho.2.2 earlier hlt

/-- An origin is an old one, or the new registration where the id had none. -/
theorem origin_cases {id : JsText} {origin : Nat}
    (ho : (commands.afterRegister registration tracked admissionClosed).Origin id origin) :
    commands.Origin id origin ∨ (origin = commands.registrations.next ∧
      id = registration.commandId ∧ ∀ old, ¬ commands.Origin id old) := by
  obtain ⟨hlt, hid, hleast⟩ := ho
  rcases Nat.lt_or_ge origin commands.registrations.next with hold | hge
  · refine .inl ⟨hold, ?_, fun earlier hlt' => ?_⟩
    · rw [read_afterRegister hold] at hid
      exact hid
    · have hne := hleast earlier hlt'
      rw [read_afterRegister (hlt'.trans hold)] at hne
      exact hne
  · obtain rfl : origin = commands.registrations.next :=
      Nat.le_antisymm (Nat.le_of_lt_succ hlt) hge
    rw [read_afterRegister_self] at hid
    refine .inr ⟨rfl, hid.symm, fun old hold => ?_⟩
    have hne := hleast old hold.1
    rw [read_afterRegister hold.1] at hne
    exact hne hold.2.1

theorem agrees_afterRegister {origin : Nat} {signature : Json} {outcome : CommandOutcome}
    (hbegun : origin < commands.registrations.next)
    (h : commands.Agrees origin signature outcome) :
    (commands.afterRegister registration tracked admissionClosed).Agrees origin signature
      outcome := by
  refine ⟨fun heq => ?_, fun hne => ?_⟩
  · rw [read_afterRegister hbegun] at heq ⊢
    exact h.same heq
  · rw [read_afterRegister hbegun] at hne
    exact h.other hne

end Registered

theorem answers_registered (h : Answers sha256 commands) (hshape : commands.Shape sha256)
    (registration : Registration) (hphase : registration.phase = .waiting)
    (hsettled : registration.settled = none)
    (hfree : commands.commands.get? registration.commandId = none) (admissionClosed : Bool) :
    Answers sha256 (commands.afterRegister registration
      (commands.commands.set registration.commandId commands.registrations.next)
      admissionClosed) := by
  refine ⟨fun ref origin outcome ho hlt hs => ?_, fun call hcall outcome hanswer => ?_,
    fun id receipt hr => ?_, h.cached, fun id origin ho hnone => ?_,
    fun id origin ho ht hne => ?_, fun id ref origin ho ht hne => ?_⟩
  · have hbegun : ref < commands.registrations.next := by
      by_contra hge
      obtain rfl : ref = commands.registrations.next :=
        Nat.le_antisymm (Nat.le_of_lt_succ hlt) (Nat.le_of_not_lt hge)
      rw [read_afterRegister_self, hsettled] at hs
      cases hs
    rw [read_afterRegister hbegun] at ho hs ⊢
    rcases origin_cases ho with hold | ⟨-, -, hnew⟩
    · exact agrees_afterRegister hold.1 (h.outcome ref origin outcome hold hbegun hs)
    · obtain ⟨old, hold⟩ := exists_origin hbegun
      exact absurd hold (hnew old)
  · obtain ⟨origin, ho, hagrees⟩ := h.direct call hcall outcome hanswer
    exact ⟨origin, origin_afterRegister ho, agrees_afterRegister ho.1 hagrees⟩
  · obtain ⟨origin, ho, hof⟩ := h.stored id receipt hr
    refine ⟨origin, origin_afterRegister ho, ?_, ?_⟩
    · rw [read_afterRegister ho.1]
      exact hof.digest
    · rw [read_afterRegister ho.1]
      exact hof.outcome
  · show (commands.commands.set registration.commandId commands.registrations.next).get? id = _
    rw [InsMap.get?_set]
    rcases origin_cases ho with hold | ⟨rfl, rfl, -⟩
    · have htracked := h.first id origin hold hnone
      rw [if_neg, htracked]
      rintro rfl
      rw [hfree] at htracked
      cases htracked
    · exact if_pos rfl
  · change (commands.commands.set registration.commandId commands.registrations.next).get? id = _ at ht
    rw [InsMap.get?_set] at ht
    rcases origin_cases ho with hold | ⟨rfl, rfl, hnew⟩
    · rw [read_afterRegister hold.1] at hne
      split at ht
      · exact absurd (Option.some.inj ht) (Nat.ne_of_gt hold.1)
      · exact h.again id origin hold ht hne
    · cases hstored : commands.receipts.get? registration.commandId with
      | none => exact hstored
      | some receipt =>
        obtain ⟨old, hold, -⟩ := h.stored _ receipt hstored
        exact absurd hold (hnew old)
  · change (commands.commands.set registration.commandId commands.registrations.next).get? id = _ at ht
    rw [InsMap.get?_set] at ht
    split at ht
    · obtain rfl := Option.some.inj ht
      rw [read_afterRegister_self, hphase]
      rfl
    · next hid =>
      rcases origin_cases ho with hold | ⟨-, hid', -⟩
      · have hbegun : ref < commands.registrations.next := by
          by_contra hge
          exact ((hshape.tracked id ref).mp ht).2 (hshape.unregistered ref (Nat.le_of_not_lt hge))
        rw [read_afterRegister hbegun]
        exact h.later id ref origin hold ht hne
      · exact absurd hid' hid

/-! ## Runs -/

/-- The signature of a call is one of these. -/
def CallsWith (signatures : List Json) : CommandEvent → Prop
  | .register _ signature _ _ => signature ∈ signatures
  | _ => True

/-- The signature of every registration is one of these. -/
def Known (signatures : List Json) (commands : CoreCommands) : Prop :=
  ∀ ref < commands.registrations.next,
    (commands.registrations.read ref).signature ∈ signatures

theorem known_step {signatures : List Json} (h : commands.Known signatures) {event : CommandEvent}
    (hcalls : CallsWith signatures event) (hchange : commands.Change sha256 event next) :
    next.Known signatures := by
  have hmoved : ∀ ref phase settled, ∀ other < commands.registrations.next,
      ((commands.moved ref phase settled).read other).signature ∈ signatures := by
    intro ref phase settled other hlt
    rw [(moved_signature commands ref other phase settled).2]
    exact h other hlt
  cases hchange with
  | environment | joined | conflicted | fromCache | refused | deleted => exact h
  | @registered commandId signature target shutdown hfree huncached =>
    intro ref hlt
    dsimp only [recordCall]
    rw [Heap.read_alloc]
    split
    · exact hcalls
    · next hne => exact h ref (Nat.lt_of_le_of_ne (Nat.le_of_lt_succ hlt) hne)
  | preflight | started | readConflict | readReceipt | readFailed | worked | saved | retained =>
    exact hmoved _ _ _

/-- Where the reads of stored receipts succeed, every answer is the origin's. -/
theorem answers_step {signatures : List Json}
    (hsha : ∀ a ∈ signatures, ∀ b ∈ signatures, digestOf sha256 a = digestOf sha256 b →
      stringify a = stringify b)
    (h : Answers sha256 commands) (hshape : commands.Shape sha256)
    (hknown : commands.Known signatures) {event : CommandEvent}
    (hcalls : CallsWith signatures event) (hconsistent : Consistent sha256 commands event)
    (hchange : commands.Change sha256 event next) : Answers sha256 next := by
  cases hchange with
  | environment => exact answers_congr h rfl rfl rfl rfl fun _ => rfl
  | joined => exact answers_recordCall h _ _ fun _ heq => CallAnswer.noConfusion heq
  | conflicted htracked hother =>
    refine answers_recordCall h _ _ fun outcome heq => ?_
    obtain rfl := CallAnswer.direct.inj heq
    exact answers_conflicted h hshape hconsistent htracked hother
  | fromCache hcached =>
    refine answers_recordCall h _ _ fun outcome heq => ?_
    obtain rfl := CallAnswer.direct.inj heq
    exact answers_fromCache h hshape (fun ref hlt => hsha _ hcalls _ (hknown ref hlt)) hcached
  | refused => exact answers_recordCall h _ _ fun _ heq => CallAnswer.noConfusion heq
  | @registered commandId signature target shutdown hfree huncached =>
    have hnew := answers_registered h hshape ⟨commandId, signature, target, .waiting, none⟩ rfl rfl
      hfree (commands.admissionClosed || shutdown)
    exact answers_recordCall hnew _ _ fun _ heq => CallAnswer.noConfusion heq
  | preflight hphase =>
    exact answers_goesOn h hshape (by rw [hphase]; rfl) nofun
  | @started ref _ hphase hnone =>
    have hpending : (commands.registrations.read ref).phase.pending = true := by
      rw [hphase]
      rfl
    obtain ⟨origin, ho⟩ := exists_origin (begun_of_pending hshape hpending).2
    have htracked := (hshape.tracked _ ref).mpr ⟨rfl, (begun_of_pending hshape hpending).1⟩
    rw [h.first _ origin ho hnone] at htracked
    obtain rfl := Option.some.inj htracked
    exact answers_goesOn h hshape hpending fun _ => ho
  | readConflict hphase hstored hother =>
    refine answers_read h hshape hphase hstored (fun _ _ hc => .inl hc) fun origin _ hdigest _ =>
      ⟨fun heq => absurd ?_ hother, fun _ => rfl⟩
    rw [hdigest]
    unfold digestOf
    rw [heq]
  | @readReceipt ref _ receipt cache hphase hstored hsame hcache =>
    have hbegun := (begun_of_pending hshape (congrArg RegistrationPhase.pending hphase)).2
    refine answers_read h hshape hphase hstored hcache fun origin horigin hdigest hsettled =>
      ⟨fun _ => hsettled, fun hne => absurd ?_ hne⟩
    refine hsha _ (hknown ref hbegun) _ (hknown origin horigin) ?_
    rw [← hsame, hdigest]
  | @readFailed ref _ receipt hphase hid hdigest =>
    have hpending : (commands.registrations.read ref).phase.pending = true := by
      rw [hphase]
      rfl
    obtain ⟨origin, ho⟩ := exists_origin (begun_of_pending hshape hpending).2
    have htracked := (hshape.tracked _ ref).mpr ⟨rfl, (begun_of_pending hshape hpending).1⟩
    rw [h.first _ origin ho hconsistent] at htracked
    obtain rfl := Option.some.inj htracked
    exact answers_goesOn h hshape hpending fun _ => ho
  | worked hphase =>
    have hpending := congrArg RegistrationPhase.pending hphase
    exact answers_goesOn h hshape hpending fun _ =>
      (origin_of_released h hshape hpending (congrArg RegistrationPhase.released hphase)).1
  | saved hphase hwrite hcache => exact answers_saved h hshape hphase hwrite hcache
  | retained error hphase hwrite => exact answers_retained h hshape error hphase hwrite
  | deleted => exact answers_congr h rfl rfl rfl rfl (get?_erase_absent hconsistent)

theorem answers_start (coreEpoch : JsText) : Answers sha256 (start coreEpoch) where
  outcome _ _ _ _ h := absurd h (Nat.not_lt_zero _)
  direct _ h := nomatch h
  stored _ _ h := nomatch h
  cached _ _ h := nomatch h
  first _ _ h := absurd h.1 (Nat.not_lt_zero _)
  again _ _ h := absurd h.1 (Nat.not_lt_zero _)
  later _ _ _ h := absurd h.1 (Nat.not_lt_zero _)

variable {coreEpoch : JsText} {events : List CommandEvent}

theorem shape_run (hrun : Runs.run (step sha256) (start coreEpoch) events = some commands) :
    commands.Shape sha256 :=
  Runs.run_keeps (fun h hstep => shape_step h (change_of_step h hstep)) (shape_start coreEpoch) hrun

theorem once_run (hrun : Runs.run (step sha256) (start coreEpoch) events = some commands)
    (hkeeps : Runs.Throughout (step sha256) KeepsReceipts (start coreEpoch) events) :
    commands.Once := by
  have hboth : commands.Shape sha256 ∧ commands.Once :=
    Runs.run_keeps_throughout (P := fun s : CoreCommands => s.Shape sha256 ∧ s.Once)
      (fun h hkept hstep => ⟨shape_step h.1 (change_of_step h.1 hstep),
        works_step h.2 h.1 hkept (change_of_step h.1 hstep)⟩)
      ⟨shape_start coreEpoch, once_start coreEpoch⟩ hkeeps hrun
  exact hboth.2

/-- The signatures of the calls. -/
def signaturesOf (events : List CommandEvent) : List Json :=
  events.filterMap fun event => match event with
    | .register _ signature _ _ => some signature
    | _ => none

/-- The digests of the signatures that the run is called with do not collide. -/
def Collisionless (sha256 : List UInt8 → List UInt8) (events : List CommandEvent) : Prop :=
  ∀ a ∈ signaturesOf events, ∀ b ∈ signaturesOf events,
    digestOf sha256 a = digestOf sha256 b → stringify a = stringify b

instance : Decidable (Collisionless sha256 events) :=
  inferInstanceAs (Decidable (∀ a ∈ _, ∀ b ∈ _, _ → _))

theorem callsWith_of_mem {event : CommandEvent} (h : event ∈ events) :
    CallsWith (signaturesOf events) event := by
  cases event with
  | register commandId signature target shutdown =>
    exact List.mem_filterMap.mpr ⟨_, h, rfl⟩
  | slotChanged | admissionClosed | preflight | receiptRead | receiptReadFailed | workResolved
  | workRejected | receiptSaved | receiptSaveFailed | receiptDeleted => trivial

theorem answers_run (hsha : Collisionless sha256 events)
    (hrun : Runs.run (step sha256) (start coreEpoch) events = some commands)
    (hconsistent : Runs.Throughout (step sha256) (Consistent sha256) (start coreEpoch) events) :
    Answers sha256 commands := by
  have hcalls : Runs.Throughout (step sha256)
      (fun _ event => CallsWith (signaturesOf events) event) (start coreEpoch) events :=
    Runs.throughout_of_forall fun _ => callsWith_of_mem
  have hall : commands.Shape sha256 ∧ commands.Known (signaturesOf events) ∧
      Answers sha256 commands :=
    Runs.run_keeps_throughout
      (P := fun s : CoreCommands =>
        s.Shape sha256 ∧ s.Known (signaturesOf events) ∧ Answers sha256 s)
      (fun h hc hstep =>
        have hchange := change_of_step h.1 hstep
        ⟨shape_step h.1 hchange, known_step h.2.1 hc.1 hchange,
          answers_step hsha h.2.2 h.1 h.2.1 hc.1 hc.2 hchange⟩)
      ⟨shape_start coreEpoch, fun _ hlt => absurd hlt (Nat.not_lt_zero _),
        answers_start coreEpoch⟩
      (Runs.throughout_and hcalls hconsistent) hrun
  exact hall.2.2

/-- Making room never takes the first entry of an empty map. -/
theorem cacheReceipt_isSome (h : commands.Shape sha256) (receipt : DataCommandReceipt) :
    (commands.cacheReceipt receipt).isSome := by
  unfold cacheReceipt
  dsimp only
  split
  · rfl
  · next hsize =>
    obtain ⟨kept, hkept, -⟩ := evict_spec hsize _ commands.completedCommands.nodup
    rw [h.bytes, hkept]
    rfl

/-- What a caller was answered; `none` while the registration that it joined is pending. -/
def answerOf (commands : CoreCommands) (call : CommandCall) : Option CommandOutcome :=
  match call.answer with
  | .joined ref => (commands.registrations.read ref).settled
  | .direct outcome => some outcome
  | .unavailable result => some (.resolved result)

/-- What a caller whose call was not refused is answered. -/
theorem answer_agrees (h : Answers sha256 commands) (hshape : commands.Shape sha256)
    {call : CommandCall} (hcall : call ∈ commands.calls)
    (hopen : ∀ result, call.answer ≠ .unavailable result) :
    ∃ origin, commands.Origin call.commandId origin ∧
      ∀ outcome, commands.answerOf call = some outcome →
        commands.Agrees origin call.signature outcome := by
  unfold answerOf
  cases hanswer : call.answer with
  | joined ref =>
    obtain ⟨hbegun, hid, hsignature⟩ := hshape.joined call hcall ref hanswer
    obtain ⟨origin, ho⟩ := exists_origin hbegun
    refine ⟨origin, hid ▸ ho, fun outcome hs => ?_⟩
    have hagrees := h.outcome ref origin outcome ho hbegun hs
    exact ⟨fun heq => hagrees.same (hsignature.trans heq),
      fun hne => hagrees.other (hsignature ▸ hne)⟩
  | direct outcome =>
    obtain ⟨origin, ho, hagrees⟩ := h.direct call hcall outcome hanswer
    exact ⟨origin, ho, fun other heq => Option.some.inj heq ▸ hagrees⟩
  | unavailable result => exact absurd hanswer (hopen result)

/-- A caller waits only while the registration that it joined is pending. -/
theorem pending_of_unanswered (h : commands.Shape sha256) {call : CommandCall}
    (hanswer : commands.answerOf call = none) : ∃ ref, call.answer = .joined ref ∧
      (commands.registrations.read ref).phase.pending = true := by
  unfold answerOf at hanswer
  split at hanswer
  · next ref hjoined => exact ⟨ref, hjoined, (h.settled ref).mp hanswer⟩
  · cases hanswer
  · cases hanswer

/-- A promise is settled once. -/
theorem settled_step (h : commands.Shape sha256) {event : CommandEvent}
    (hchange : commands.Change sha256 event next) {ref : Nat} {outcome : CommandOutcome}
    (hbegun : ref < commands.registrations.next)
    (hsettled : (commands.registrations.read ref).settled = some outcome) :
    ref < next.registrations.next ∧ (next.registrations.read ref).settled = some outcome := by
  have hmoved : ∀ {moving : Nat} {phase : RegistrationPhase} {settled : Option CommandOutcome},
      (commands.registrations.read moving).phase.pending = true →
      ((commands.moved moving phase settled).read ref).settled = some outcome := by
    intro moving phase settled hpending
    have hne : ref ≠ moving := by
      rintro rfl
      rw [(h.settled ref).mpr hpending] at hsettled
      cases hsettled
    rw [read_moved, if_neg hne]
    exact hsettled
  cases hchange with
  | environment | joined | conflicted | fromCache | refused | deleted => exact ⟨hbegun, hsettled⟩
  | registered hfree huncached =>
    refine ⟨hbegun.trans (Nat.lt_succ_self _), ?_⟩
    dsimp only [recordCall]
    rw [Heap.read_alloc_lt _ _ hbegun]
    exact hsettled
  | preflight hphase | started hphase | readConflict hphase | readReceipt hphase
  | readFailed hphase | worked hphase | saved hphase | retained _ hphase =>
    exact ⟨hbegun, hmoved (congrArg RegistrationPhase.pending hphase)⟩

/-- A caller that was answered keeps its answer. -/
theorem answer_stays (h : commands.Shape sha256) {call : CommandCall} (hcall : call ∈ commands.calls)
    {outcome : CommandOutcome} (hanswer : commands.answerOf call = some outcome)
    (hrun : Runs.run (step sha256) commands events = some next) :
    next.answerOf call = some outcome := by
  unfold answerOf at hanswer ⊢
  split
  · next ref hjoined =>
    rw [hjoined] at hanswer
    have hkept : next.Shape sha256 ∧ ref < next.registrations.next ∧
        (next.registrations.read ref).settled = some outcome :=
      Runs.run_keeps
        (P := fun s : CoreCommands => s.Shape sha256 ∧ ref < s.registrations.next ∧
          (s.registrations.read ref).settled = some outcome)
        (fun hs hstep =>
          have hchange := change_of_step hs.1 hstep
          ⟨shape_step hs.1 hchange, settled_step hs.1 hchange hs.2.1 hs.2.2⟩)
        ⟨h, (h.joined call hcall ref hjoined).1, hanswer⟩ hrun
    exact hkept.2.2
  · next hdirect =>
    rw [hdirect] at hanswer
    exact hanswer
  · next hunavailable =>
    rw [hunavailable] at hanswer
    exact hanswer

/-- **Commands.** In every run the works start in the order of their registrations, the cache knows
its bytes, so that making room in it does not fail, and an answer is given once, when the
registration is settled. Where no receipt is deleted the work of an id is started at most once.
Where the run is consistent the callers of an id are answered as its first registration is, or with
a conflict where their signature is another one. -/
theorem command_idempotent (hsha : Collisionless sha256 events)
    (hrun : Runs.run (step sha256) (start coreEpoch) events = some commands) :
    commands.works.Pairwise (· < ·) ∧
    commands.completedCommandBytes = cachedBytes commands.completedCommands.entries ∧
    (∀ receipt, (commands.cacheReceipt receipt).isSome) ∧
    (∀ call ∈ commands.calls,
      (commands.answerOf call = none → ∃ ref, call.answer = .joined ref ∧
        (commands.registrations.read ref).phase.pending = true) ∧
      ∀ outcome, commands.answerOf call = some outcome → ∀ more later,
        Runs.run (step sha256) commands more = some later →
        later.answerOf call = some outcome) ∧
    (Runs.Throughout (step sha256) KeepsReceipts (start coreEpoch) events →
      ∀ first ∈ commands.works, ∀ second ∈ commands.works,
        (commands.registrations.read first).commandId =
          (commands.registrations.read second).commandId → first = second) ∧
    (Runs.Throughout (step sha256) (Consistent sha256) (start coreEpoch) events →
      ∀ call ∈ commands.calls, (∀ result, call.answer ≠ .unavailable result) →
        ∃ origin, commands.Origin call.commandId origin ∧
          ∀ outcome, commands.answerOf call = some outcome →
            commands.Agrees origin call.signature outcome) := by
  have hshape := shape_run hrun
  refine ⟨hshape.works, hshape.bytes, cacheReceipt_isSome hshape, fun call hcall => ⟨?_, ?_⟩,
    fun hkeeps => ?_, fun hconsistent call hcall hopen => ?_⟩
  · exact pending_of_unanswered hshape
  · intro outcome hanswer more later hmore
    exact answer_stays hshape hcall hanswer hmore
  · exact (once_run hrun hkeeps).once
  · exact answer_agrees (answers_run hsha hrun hconsistent) hshape hcall hopen

/-! ## A call between the cache and the read -/

def submitSignature (text : JsText) : Json :=
  .obj [(js "kind", .str (js "task.submit")), (js "text", .str text)]

/-- A command of a session, from its call to the save of its receipt. -/
def completedCommand (ref : Nat) (commandId : JsText) : List CommandEvent :=
  let target : CommandTarget := .session (js "s")
  [.register commandId (submitSignature commandId) target false, .preflight ref,
    .receiptRead ref (js "t"), .workResolved ref (.rejected commandId target .busy none) (js "t"),
    .receiptSaved ref]

/-- The first command is called again, with its own text and with another one. -/
def calledAgain : List CommandEvent :=
  completedCommand 0 [0x30] ++
    [.register [0x30] (submitSignature [0x30]) (.session (js "s")) false,
      .register [0x30] (submitSignature []) (.session (js "s")) false]

/-- The answers of that run agree. -/
theorem command_idempotent_again : ∃ commands,
    Runs.run (step id) (start (js "e")) calledAgain = some commands ∧
    commands.calls.length = 3 ∧
    ∀ call ∈ commands.calls, (∀ result, call.answer ≠ .unavailable result) →
      ∃ origin, commands.Origin call.commandId origin ∧
        ∀ outcome, commands.answerOf call = some outcome →
          commands.Agrees origin call.signature outcome := by
  obtain ⟨commands, hrun, hlength⟩ : ∃ commands,
      Runs.run (step id) (start (js "e")) calledAgain = some commands ∧
        commands.calls.length = 3 := Runs.exists_run (by decide +kernel)
  have hconsistent :
      Runs.Throughout (step id) (Consistent id) (start (js "e")) calledAgain := by decide +kernel
  exact ⟨commands, hrun, hlength,
    (command_idempotent (by decide +kernel) hrun).2.2.2.2.2 hconsistent⟩

/-- The first command and 32 more, which drop its receipt from the cache. Then its id is called with
another text, and before the receipt is read once more with its own. -/
def askedMeanwhile : List CommandEvent :=
  ((List.range 33).flatMap fun index => completedCommand index [UInt16.ofNat (0x30 + index)]) ++
    [.register [0x30] (submitSignature []) (.session (js "s")) false,
      .register [0x30] (submitSignature [0x30]) (.session (js "s")) false]

/-- The last caller has the id and the signature of the first one, whose answer was `busy`; its own
answer is a conflict. -/
theorem conflict_with_own_command : ∃ commands,
    Runs.run (step id) (start (js "e")) askedMeanwhile = some commands ∧
    (commands.calls.head?.map fun call =>
      (call.commandId, call.signature, commands.answerOf call)) =
        some ([0x30], submitSignature [0x30], some (.rejected .conflict)) ∧
    (commands.calls.getLast?.map fun call =>
      (call.commandId, call.signature, commands.answerOf call)) =
        some ([0x30], submitSignature [0x30],
          some (.resolved (.rejected [0x30] (.session (js "s")) .busy none))) :=
  Runs.exists_run (by decide +kernel)

end CoreCommands

end Henji
