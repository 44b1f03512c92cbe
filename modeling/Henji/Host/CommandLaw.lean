import Henji.Host.CommandRegistry

/-!
# What the commands keep

An id belongs to its registration until that is over, and a receipt is cached or stored by then, so
that the tiers hand an id over without a gap.

Results:
1. `change_of_step`: what an event can do.
2. `shape_step`: the three tiers fit together, and the cache knows its size.
3. `works_step`: where no receipt is deleted, the work of an id is started once.
-/

namespace Henji

/-- The promise of the registration is not settled. -/
def RegistrationPhase.pending : RegistrationPhase → Bool
  | .waiting | .reading | .working | .saving _ => true
  | .retained | .over => false

namespace CoreCommands

/-! ## The cache -/

/-- The bytes of the receipts in the cache. -/
def cachedBytes (entries : List (JsText × DataCommandReceipt)) : Int :=
  entries.foldr (fun entry bytes => receiptBytes entry.2 + bytes) 0

theorem cachedBytes_append (entries : List (JsText × DataCommandReceipt))
    (entry : JsText × DataCommandReceipt) :
    cachedBytes entries + receiptBytes entry.2 = cachedBytes (entries ++ [entry]) := by
  induction entries with
  | nil => simp [cachedBytes]
  | cons first rest ih =>
    simp only [cachedBytes, List.cons_append, List.foldr_cons] at ih ⊢
    rw [← ih]
    omega

/-- The loop that makes room never takes the first entry of an empty map; what it keeps is the rest
of the entries, and their bytes. -/
theorem evict_spec {size : Nat} (hsize : ¬ size > maxReceiptBytes) :
    ∀ (entries : List (JsText × DataCommandReceipt)) (nodup : (entries.map Prod.fst).Nodup),
      ∃ kept : InsMap JsText DataCommandReceipt,
        evict size entries nodup (cachedBytes entries) = some (kept, cachedBytes kept.entries) ∧
        kept.entries <:+ entries := by
  intro entries
  induction entries with
  | nil =>
    intro nodup
    have hroom : ¬ (maxReceipts ≤ 0 ∨ cachedBytes [] + size > maxReceiptBytes) := by
      simp [maxReceipts, cachedBytes]
      omega
    exact ⟨⟨[], nodup⟩, by rw [evict, if_neg hroom], List.suffix_refl _⟩
  | cons first rest ih =>
    intro nodup
    rw [evict]
    split
    · obtain ⟨kept, hkept, hsuffix⟩ := ih (List.nodup_cons.mp nodup).2
      refine ⟨kept, ?_, hsuffix.trans (List.suffix_cons _ _)⟩
      have hrest : cachedBytes (first :: rest) - receiptBytes first.2 = cachedBytes rest := by
        simp only [cachedBytes, List.foldr_cons]
        omega
      rw [hrest]
      exact hkept
    · exact ⟨⟨first :: rest, nodup⟩, rfl, List.suffix_refl _⟩

variable {commands next : CoreCommands}

/-- Caching a receipt whose id is not cached does not throw, and keeps the bytes of the cache. -/
theorem cacheReceipt_spec (commands : CoreCommands) (receipt : DataCommandReceipt)
    (hbytes : commands.completedCommandBytes = cachedBytes commands.completedCommands.entries)
    (hfresh : commands.completedCommands.get? receipt.commandId = none) :
    ∃ (cache : InsMap JsText DataCommandReceipt) (bytes : Int),
      commands.cacheReceipt receipt = some { commands with
        completedCommands := cache
        completedCommandBytes := bytes } ∧
      bytes = cachedBytes cache.entries ∧
      ∀ id cached, cache.get? id = some cached →
        commands.completedCommands.get? id = some cached ∨
          (id = receipt.commandId ∧ cached = receipt) := by
  unfold cacheReceipt
  dsimp only
  split
  · exact ⟨commands.completedCommands, commands.completedCommandBytes, rfl, hbytes,
      fun _ _ h => .inl h⟩
  · next hsize =>
    obtain ⟨kept, hkept, hsuffix⟩ := evict_spec hsize _ commands.completedCommands.nodup
    have hnot : receipt.commandId ∉ kept.entries.map Prod.fst := by
      intro hmem
      have hin : receipt.commandId ∈ commands.completedCommands.keys :=
        (hsuffix.sublist.map Prod.fst).subset hmem
      rw [InsMap.mem_keys, hfresh] at hin
      cases hin
    refine ⟨kept.set receipt.commandId receipt, cachedBytes kept.entries + receiptBytes receipt,
      by rw [hbytes, hkept]; rfl, ?_, fun id cached hcached => ?_⟩
    · show _ = cachedBytes (InsMap.setEntry _ _ _)
      rw [InsMap.setEntry_of_not_mem hnot]
      exact cachedBytes_append kept.entries (receipt.commandId, receipt)
    · rw [InsMap.get?_set] at hcached
      split at hcached
      · next heq => exact .inr ⟨heq, (Option.some.inj hcached).symm⟩
      · exact .inl (InsMap.mem_entries.mp (hsuffix.subset (InsMap.mem_entries.mpr hcached)))

/-! ## The shape of the state -/

variable (sha256 : List UInt8 → List UInt8)

/-- The signature digest of a registration. -/
def digestOf (signature : Json) : JsText := signatureDigest sha256 (stringify signature)

structure Shape (commands : CoreCommands) : Prop where
  /-- The tracked commands are the registrations that are not over. -/
  tracked : ∀ id ref, commands.commands.get? id = some ref ↔
    ((commands.registrations.read ref).commandId = id ∧
      (commands.registrations.read ref).phase ≠ .over)
  unregistered : ∀ ref, commands.registrations.next ≤ ref →
    (commands.registrations.read ref).phase = .over
  settled : ∀ ref, (commands.registrations.read ref).settled = none ↔
    (commands.registrations.read ref).phase.pending = true
  saving : ∀ ref receipt, (commands.registrations.read ref).phase = .saving receipt →
    receipt.commandId = (commands.registrations.read ref).commandId ∧
      receipt.signatureDigest = digestOf sha256 (commands.registrations.read ref).signature
  cached : ∀ id receipt, commands.completedCommands.get? id = some receipt →
    commands.commands.get? id = none
  bytes : commands.completedCommandBytes = cachedBytes commands.completedCommands.entries
  /-- The registrations are released in order, and their works start in order. -/
  inOrder : ∀ first second, first < second → second < commands.registrations.next →
    (commands.registrations.read second).phase ≠ .waiting →
    (commands.registrations.read first).phase.released = true
  works : commands.works.Pairwise (· < ·)
  worked : ∀ ref ∈ commands.works, ref < commands.registrations.next ∧
    (commands.registrations.read ref).phase.released = true
  joined : ∀ call ∈ commands.calls, ∀ ref, call.answer = .joined ref →
    ref < commands.registrations.next ∧
    (commands.registrations.read ref).commandId = call.commandId ∧
    stringify (commands.registrations.read ref).signature = stringify call.signature
  storedId : ∀ id receipt, commands.receipts.get? id = some receipt → receipt.commandId = id

/-! ## What an event does -/

/-- A registration is in another phase, and perhaps settled. -/
def moved (commands : CoreCommands) (ref : Nat) (phase : RegistrationPhase)
    (settled : Option CommandOutcome) : Heap Registration :=
  commands.registrations.modify ref fun registration => { registration with phase, settled }

/-- What an event can do to a state whose tiers fit together. -/
inductive Change (commands : CoreCommands) : CommandEvent → CoreCommands → Prop
  | environment {event} (slot : Option (SessionId × CoreCursor)) (admissionClosed : Bool) :
    Change commands event { commands with slot, admissionClosed }
  | joined {commandId signature target shutdown} {ref : Nat}
    (htracked : commands.commands.get? commandId = some ref)
    (hsame : stringify (commands.registrations.read ref).signature = stringify signature) :
    Change commands (.register commandId signature target shutdown)
      (commands.recordCall commandId signature (.joined ref))
  | conflicted {commandId signature target shutdown} {ref : Nat}
    (htracked : commands.commands.get? commandId = some ref)
    (hother : stringify (commands.registrations.read ref).signature ≠ stringify signature) :
    Change commands (.register commandId signature target shutdown)
      (commands.recordCall commandId signature (.direct (.rejected .conflict)))
  | fromCache {commandId signature target shutdown} {receipt : DataCommandReceipt}
    (hcached : commands.completedCommands.get? commandId = some receipt) :
    Change commands (.register commandId signature target shutdown)
      (commands.recordCall commandId signature (.direct
        (if receipt.signatureDigest ≠ digestOf sha256 signature then .rejected .conflict
          else .resolved receipt.result)))
  | refused {commandId signature target shutdown} (result : CommandResult) :
    Change commands (.register commandId signature target shutdown)
      (commands.recordCall commandId signature (.unavailable result))
  | registered {commandId signature target shutdown}
    (hfree : commands.commands.get? commandId = none)
    (huncached : commands.completedCommands.get? commandId = none) :
    Change commands (.register commandId signature target shutdown)
      ({ commands with
        commands := commands.commands.set commandId commands.registrations.next
        registrations :=
          (commands.registrations.alloc ⟨commandId, signature, target, .waiting, none⟩).2
        admissionClosed := commands.admissionClosed || shutdown }.recordCall commandId signature
          (.joined commands.registrations.next))
  | preflight {ref : Nat} (hphase : (commands.registrations.read ref).phase = .waiting)
    (hturn : ref = 0 ∨ (commands.registrations.read (ref - 1)).phase.released = true) :
    Change commands (.preflight ref)
      { commands with registrations := commands.moved ref .reading none }
  | started {ref : Nat} {completedAt : JsText}
    (hphase : (commands.registrations.read ref).phase = .reading)
    (hnone : commands.receipts.get? (commands.registrations.read ref).commandId = none) :
    Change commands (.receiptRead ref completedAt)
      { commands with
        registrations := commands.moved ref .working none
        works := commands.works ++ [ref] }
  | readConflict {ref : Nat} {completedAt : JsText} {receipt : DataCommandReceipt}
    (hphase : (commands.registrations.read ref).phase = .reading)
    (hstored : commands.receipts.get? (commands.registrations.read ref).commandId = some receipt)
    (hother : receipt.signatureDigest ≠
      digestOf sha256 (commands.registrations.read ref).signature) :
    Change commands (.receiptRead ref completedAt)
      { commands with
        commands := commands.commands.erase (commands.registrations.read ref).commandId
        registrations := commands.moved ref .over (some (.rejected .conflict)) }
  | readReceipt {ref : Nat} {completedAt : JsText} {receipt : DataCommandReceipt}
    {cache : InsMap JsText DataCommandReceipt}
    (hphase : (commands.registrations.read ref).phase = .reading)
    (hstored : commands.receipts.get? (commands.registrations.read ref).commandId = some receipt)
    (hsame : receipt.signatureDigest = digestOf sha256 (commands.registrations.read ref).signature)
    (hcache : ∀ id cached, cache.get? id = some cached →
      commands.completedCommands.get? id = some cached ∨
        (id = (commands.registrations.read ref).commandId ∧ cached = receipt)) :
    Change commands (.receiptRead ref completedAt)
      { commands with
        commands := commands.commands.erase (commands.registrations.read ref).commandId
        completedCommands := cache
        completedCommandBytes := cachedBytes cache.entries
        registrations := commands.moved ref .over (some (.resolved receipt.result)) }
  | readFailed {ref : Nat} {completedAt : JsText} {receipt : DataCommandReceipt}
    (hphase : (commands.registrations.read ref).phase = .reading)
    (hid : receipt.commandId = (commands.registrations.read ref).commandId)
    (hdigest : receipt.signatureDigest =
      digestOf sha256 (commands.registrations.read ref).signature) :
    Change commands (.receiptReadFailed ref completedAt)
      { commands with registrations := commands.moved ref (.saving receipt) none }
  | worked {event : CommandEvent} {ref : Nat} {receipt : DataCommandReceipt}
    (hphase : (commands.registrations.read ref).phase = .working)
    (hid : receipt.commandId = (commands.registrations.read ref).commandId)
    (hdigest : receipt.signatureDigest =
      digestOf sha256 (commands.registrations.read ref).signature) :
    Change commands event
      { commands with registrations := commands.moved ref (.saving receipt) none }
  | saved {ref : Nat} {receipt : DataCommandReceipt} {cache : InsMap JsText DataCommandReceipt}
    {receipts : InsMap JsText DataCommandReceipt}
    (hphase : (commands.registrations.read ref).phase = .saving receipt)
    (hwrite : writeCommandReceipt commands.receipts receipt = some receipts)
    (hcache : ∀ id cached, cache.get? id = some cached →
      commands.completedCommands.get? id = some cached ∨
        (id = receipt.commandId ∧ cached = receipt)) :
    Change commands (.receiptSaved ref)
      { commands with
        commands := commands.commands.erase (commands.registrations.read ref).commandId
        completedCommands := cache
        completedCommandBytes := cachedBytes cache.entries
        registrations := commands.moved ref .over (some (.resolved receipt.result))
        receipts }
  | retained {event : CommandEvent} {ref : Nat} {receipt : DataCommandReceipt}
    {receipts : InsMap JsText DataCommandReceipt} (error : CommandError)
    (hphase : (commands.registrations.read ref).phase = .saving receipt)
    (hwrite : receipts = commands.receipts ∨
      writeCommandReceipt commands.receipts receipt = some receipts) :
    Change commands event
      { commands with
        registrations := commands.moved ref .retained (some (.rejected error))
        receipts }
  | deleted {commandId : JsText} :
    Change commands (.receiptDeleted commandId)
      { commands with receipts := commands.receipts.erase commandId }

variable {sha256}

/-- The promise of a pending registration is not settled, so that a phase alone is a move. -/
theorem modify_phase (h : commands.Shape sha256) {ref : Nat} {phase : RegistrationPhase}
    (hpending : (commands.registrations.read ref).phase.pending = true) :
    (commands.registrations.modify ref fun registration => { registration with phase }) =
      commands.moved ref phase none := by
  have hnone := (h.settled ref).mpr hpending
  unfold moved Heap.modify
  dsimp only
  rw [hnone]

theorem setPhase_eq (h : commands.Shape sha256) {ref : Nat} {phase : RegistrationPhase}
    (hpending : (commands.registrations.read ref).phase.pending = true) :
    commands.setPhase ref phase =
      { commands with registrations := commands.moved ref phase none } := by
  unfold setPhase
  rw [modify_phase h hpending]

/-- The id of a registration that is not over is not cached. -/
theorem uncached (h : commands.Shape sha256) (ref : Nat)
    (hphase : (commands.registrations.read ref).phase ≠ .over) :
    commands.completedCommands.get? (commands.registrations.read ref).commandId = none := by
  cases hcached : commands.completedCommands.get? (commands.registrations.read ref).commandId with
  | none => rfl
  | some receipt =>
    have htracked := (h.tracked _ ref).mpr ⟨rfl, hphase⟩
    rw [h.cached _ _ hcached] at htracked
    cases htracked

theorem change_of_step (h : commands.Shape sha256) {event : CommandEvent}
    (hstep : commands.step sha256 event = some next) : commands.Change sha256 event next := by
  cases event with
  | slotChanged slot =>
    cases hstep
    exact .environment slot commands.admissionClosed
  | admissionClosed =>
    cases hstep
    exact .environment commands.slot true
  | register commandId signature target shutdown =>
    cases hstep
    unfold registerCommand
    split
    · next ref htracked =>
      split
      · next hother => exact .conflicted htracked hother
      · next hsame => exact .joined htracked (not_not.mp hsame)
    · next hfree =>
      split
      · next cached hcached => exact .fromCache hcached
      · next huncached =>
        split
        · exact .refused _
        · exact .registered hfree huncached
  | preflight ref =>
    simp only [step] at hstep
    split at hstep
    · next hguard =>
      cases hstep
      rw [setPhase_eq h (by rw [hguard.1]; rfl)]
      exact .preflight hguard.1 hguard.2
    · cases hstep
  | receiptRead ref completedAt =>
    simp only [step] at hstep
    split at hstep
    · next hphase =>
      cases hstep
      unfold receiptRead
      dsimp only
      split
      · next receipt hstored =>
        split
        · next hother => exact .readConflict hphase hstored hother
        · next hsame =>
          have hid := h.storedId _ _ hstored
          have hfresh := uncached h ref (by rw [hphase]; nofun)
          obtain ⟨cache, bytes, hcached, rfl, hcache⟩ :=
            cacheReceipt_spec commands receipt h.bytes (by rw [hid]; exact hfresh)
          rw [hcached]
          exact .readReceipt hphase hstored (not_not.mp hsame) (by rw [← hid]; exact hcache)
      · next hnone =>
        unfold setPhase
        dsimp only
        rw [modify_phase h (by rw [hphase]; rfl)]
        exact .started hphase hnone
    · cases hstep
  | receiptReadFailed ref completedAt =>
    simp only [step] at hstep
    split at hstep
    · next hphase =>
      cases hstep
      unfold workFailed workDone
      dsimp only
      rw [setPhase_eq h (by rw [hphase]; rfl)]
      exact .readFailed hphase rfl rfl
    · cases hstep
  | workResolved ref value completedAt =>
    simp only [step] at hstep
    split at hstep
    · next hphase =>
      cases hstep
      unfold workDone
      dsimp only
      rw [setPhase_eq h (by rw [hphase]; rfl)]
      exact .worked hphase rfl rfl
    · cases hstep
  | workRejected ref completedAt =>
    simp only [step] at hstep
    split at hstep
    · next hphase =>
      cases hstep
      unfold workFailed workDone
      dsimp only
      rw [setPhase_eq h (by rw [hphase]; rfl)]
      exact .worked hphase rfl rfl
    · cases hstep
  | receiptSaved ref =>
    simp only [step] at hstep
    split at hstep
    · next receipt hphase =>
      cases hstep
      unfold receiptSaved
      split
      · exact .retained _ hphase (.inl rfl)
      · next receipts hwrite =>
        have hid := (h.saving ref receipt hphase).1
        have hfresh := uncached h ref (by rw [hphase]; nofun)
        obtain ⟨cache, bytes, hcached, rfl, hcache⟩ :=
          cacheReceipt_spec { commands with receipts } receipt h.bytes (by rw [hid]; exact hfresh)
        dsimp only
        rw [hcached]
        exact .saved hphase hwrite hcache
    · cases hstep
  | receiptSaveFailed ref stored code =>
    simp only [step] at hstep
    split at hstep
    · next receipt hphase =>
      cases hstep
      unfold receiptSaveFailed
      dsimp only
      split
      · next hwrite => exact .retained _ hphase (.inr hwrite)
      · exact .retained _ hphase (.inl rfl)
    · cases hstep
  | receiptDeleted commandId =>
    cases hstep
    exact .deleted

/-! ## Every event keeps the shape -/

theorem read_moved (commands : CoreCommands) (ref other : Nat) (phase : RegistrationPhase)
    (settled : Option CommandOutcome) :
    (commands.moved ref phase settled).read other =
      if other = ref then { commands.registrations.read ref with phase, settled }
      else commands.registrations.read other :=
  Heap.read_modify _ _ _ _

/-- A registration keeps what it was made for. -/
theorem moved_signature (commands : CoreCommands) (ref other : Nat) (phase : RegistrationPhase)
    (settled : Option CommandOutcome) :
    ((commands.moved ref phase settled).read other).commandId =
        (commands.registrations.read other).commandId ∧
      ((commands.moved ref phase settled).read other).signature =
        (commands.registrations.read other).signature := by
  rw [read_moved]
  split
  · next heq =>
    subst heq
    exact ⟨rfl, rfl⟩
  · exact ⟨rfl, rfl⟩

/-- A registration goes on, or it is over, with its id deleted and perhaps cached. -/
theorem shape_move (h : commands.Shape sha256) {ref : Nat} {phase : RegistrationPhase}
    {settled : Option CommandOutcome} {tracked : InsMap JsText Nat}
    {cache : InsMap JsText DataCommandReceipt} {bytes : Int} {works : List Nat}
    {receipts : InsMap JsText DataCommandReceipt}
    (hold : (commands.registrations.read ref).phase ≠ .over)
    (htracked : ∀ id, tracked.get? id =
      if phase = .over ∧ id = (commands.registrations.read ref).commandId then none
      else commands.commands.get? id)
    (hsettled : settled = none ↔ phase.pending = true)
    (hsaving : ∀ receipt, phase = .saving receipt →
      receipt.commandId = (commands.registrations.read ref).commandId ∧
        receipt.signatureDigest = digestOf sha256 (commands.registrations.read ref).signature)
    (hreleased : (commands.registrations.read ref).phase.released = true →
      phase.released = true)
    (horder : ∀ first < ref, (commands.registrations.read first).phase.released = true)
    (hcache : ∀ id receipt, cache.get? id = some receipt →
      commands.completedCommands.get? id = some receipt ∨
        (phase = .over ∧ id = (commands.registrations.read ref).commandId))
    (hbytes : bytes = cachedBytes cache.entries)
    (hworks : works = commands.works ∨ (works = commands.works ++ [ref] ∧
      (commands.registrations.read ref).phase.released = false ∧ phase.released = true))
    (hreceipts : ∀ id receipt, receipts.get? id = some receipt → receipt.commandId = id) :
    Shape sha256 { commands with
      commands := tracked
      completedCommands := cache
      completedCommandBytes := bytes
      registrations := commands.moved ref phase settled
      works
      receipts } := by
  have hbegun : ref < commands.registrations.next := by
    by_contra hge
    exact hold (h.unregistered ref (Nat.le_of_not_lt hge))
  have hkept : ∀ other, (commands.registrations.read other).phase.released = true →
      ((commands.moved ref phase settled).read other).phase.released = true := by
    intro other hother
    rw [read_moved]
    split
    · next heq => exact hreleased (heq ▸ hother)
    · exact hother
  refine ⟨fun id other => ?_, fun other hge => ?_, fun other => ?_, fun other receipt hp => ?_,
    fun id receipt hc => ?_, hbytes, fun first second hlt hs hr => ?_, ?_, fun other hw => ?_,
    fun call hcall other hj => ?_, hreceipts⟩
  · dsimp only
    rw [htracked, read_moved]
    by_cases heq : other = ref
    · subst heq
      rw [if_pos rfl]
      by_cases hover : phase = .over
      · by_cases hid : id = (commands.registrations.read other).commandId
        · simp [hover, hid]
        · simp only [hover, hid, and_false, if_false]
          rw [h.tracked]
          exact ⟨fun ht => absurd ht.1.symm hid, fun ht => absurd ht.1.symm hid⟩
      · simp only [hover, false_and, if_false]
        rw [h.tracked]
        exact ⟨fun ht => ⟨ht.1, hover⟩, fun ht => ⟨ht.1, hold⟩⟩
    · rw [if_neg heq]
      split
      · next hover =>
        -- Only this registration holds its id.
        refine ⟨fun hn => absurd hn (Option.some_ne_none _).symm, fun ht => ?_⟩
        have hsame := (h.tracked _ other).mpr ⟨ht.1.trans hover.2, ht.2⟩
        rw [(h.tracked _ ref).mpr ⟨rfl, hold⟩] at hsame
        exact absurd (Option.some.inj hsame).symm heq
      · exact h.tracked id other
  · dsimp only at hge ⊢
    rw [read_moved, if_neg (Nat.ne_of_gt (Nat.lt_of_lt_of_le hbegun hge))]
    exact h.unregistered other hge
  · dsimp only
    rw [read_moved]
    split
    · exact hsettled
    · exact h.settled other
  · dsimp only at hp ⊢
    rw [read_moved] at hp ⊢
    split at hp
    · next heq =>
      rw [if_pos heq]
      exact hsaving receipt hp
    · next hne =>
      rw [if_neg hne]
      exact h.saving other receipt hp
  · dsimp only at hc ⊢
    rw [htracked]
    rcases hcache id receipt hc with hold | hover
    · rw [h.cached id receipt hold]
      exact ite_self _
    · exact if_pos hover
  · dsimp only at hr ⊢
    rw [read_moved] at hr
    split at hr
    · next heq => exact hkept first (horder first (heq ▸ hlt))
    · exact hkept first (h.inOrder first second hlt hs hr)
  · rcases hworks with rfl | ⟨rfl, hunreleased, -⟩
    · exact h.works
    · refine List.pairwise_append.mpr ⟨h.works, List.pairwise_singleton _ _, fun other hw b hb => ?_⟩
      rw [List.mem_singleton.mp hb]
      -- A work that has started is of an earlier registration, for its own is released.
      obtain ⟨hlt, hother⟩ := h.worked other hw
      rcases Nat.lt_trichotomy other ref with hearlier | rfl | hlater
      · exact hearlier
      · rw [hunreleased] at hother
        cases hother
      · have hnot : (commands.registrations.read other).phase ≠ .waiting := by
          intro hwaiting
          rw [hwaiting] at hother
          cases hother
        rw [h.inOrder ref other hlater hlt hnot] at hunreleased
        cases hunreleased
  · have hcases : other ∈ commands.works ∨ (other = ref ∧ phase.released = true) := by
      rcases hworks with rfl | ⟨rfl, -, hphase⟩
      · exact .inl hw
      · rcases List.mem_append.mp hw with hin | hin
        · exact .inl hin
        · exact .inr ⟨List.mem_singleton.mp hin, hphase⟩
    rcases hcases with hin | ⟨rfl, hphase⟩
    · exact ⟨(h.worked other hin).1, hkept other (h.worked other hin).2⟩
    · refine ⟨hbegun, ?_⟩
      dsimp only
      rw [read_moved, if_pos rfl]
      exact hphase
  · obtain ⟨hlt, hid, hsame⟩ := h.joined call hcall other hj
    obtain ⟨hid', hsignature⟩ := moved_signature commands ref other phase settled
    exact ⟨hlt, hid'.trans hid, by dsimp only; rw [hsignature]; exact hsame⟩

/-- A caller that is answered at once, or joins its registration. -/
theorem shape_recordCall (h : commands.Shape sha256) (commandId : JsText) (signature : Json)
    {answer : CallAnswer}
    (hjoined : ∀ ref, answer = .joined ref → ref < commands.registrations.next ∧
      (commands.registrations.read ref).commandId = commandId ∧
      stringify (commands.registrations.read ref).signature = stringify signature) :
    (commands.recordCall commandId signature answer).Shape sha256 :=
  { h with
    joined := fun call hcall ref hj => by
      rcases List.mem_cons.mp hcall with rfl | hin
      · exact hjoined ref hj
      · exact h.joined call hin ref hj }

theorem begun_of_pending (h : commands.Shape sha256) {ref : Nat}
    (hpending : (commands.registrations.read ref).phase.pending = true) :
    (commands.registrations.read ref).phase ≠ .over ∧ ref < commands.registrations.next := by
  have hne : (commands.registrations.read ref).phase ≠ .over := by
    intro hover
    rw [hover] at hpending
    cases hpending
  refine ⟨hne, ?_⟩
  by_contra hge
  exact hne (h.unregistered ref (Nat.le_of_not_lt hge))

/-- A new registration. -/
theorem shape_registered (h : commands.Shape sha256) (registration : Registration)
    (hphase : registration.phase = .waiting) (hsettled : registration.settled = none)
    (hfree : commands.commands.get? registration.commandId = none)
    (huncached : commands.completedCommands.get? registration.commandId = none)
    (admissionClosed : Bool) :
    Shape sha256 { commands with
      commands := commands.commands.set registration.commandId commands.registrations.next
      registrations := (commands.registrations.alloc registration).2
      admissionClosed } := by
  have hold : ∀ other, other < commands.registrations.next →
      (commands.registrations.alloc registration).2.read other =
        commands.registrations.read other := fun other hlt => Heap.read_alloc_lt _ _ hlt
  refine ⟨fun id other => ?_, fun other hge => ?_, fun other => ?_, fun other receipt hp => ?_,
    fun id receipt hc => ?_, h.bytes, fun first second hlt hs hr => ?_, h.works, fun other hw => ?_,
    fun call hcall other hj => ?_, h.storedId⟩
  · dsimp only
    rw [InsMap.get?_set, Heap.read_alloc]
    by_cases hid : id = registration.commandId
    · subst hid
      rw [if_pos rfl]
      by_cases heq : other = commands.registrations.next
      · subst heq
        rw [if_pos rfl, hphase]
        exact ⟨fun _ => ⟨rfl, nofun⟩, fun _ => rfl⟩
      · rw [if_neg heq]
        refine ⟨fun hsome => absurd (Option.some.inj hsome).symm heq, fun ht => ?_⟩
        rw [(h.tracked _ other).mpr ht] at hfree
        cases hfree
    · rw [if_neg hid]
      by_cases heq : other = commands.registrations.next
      · subst heq
        rw [if_pos rfl, h.tracked]
        refine ⟨fun ht => absurd (h.unregistered _ (Nat.le_refl _)) ht.2, fun ht => ?_⟩
        exact absurd ht.1.symm hid
      · rw [if_neg heq]
        exact h.tracked id other
  · dsimp only [Heap.next_alloc] at hge ⊢
    rw [Heap.read_alloc, if_neg (Nat.ne_of_gt hge)]
    exact h.unregistered other (Nat.le_of_succ_le hge)
  · dsimp only
    rw [Heap.read_alloc]
    split
    · rw [hphase, hsettled]
      exact iff_of_true rfl rfl
    · exact h.settled other
  · dsimp only at hp ⊢
    rw [Heap.read_alloc] at hp ⊢
    split at hp
    · rw [hphase] at hp
      cases hp
    · next hne =>
      rw [if_neg hne]
      exact h.saving other receipt hp
  · dsimp only at hc ⊢
    rw [InsMap.get?_set]
    split
    · next hid =>
      rw [hid, huncached] at hc
      cases hc
    · exact h.cached id receipt hc
  · dsimp only [Heap.next_alloc] at hs hr ⊢
    rcases Nat.lt_or_ge second commands.registrations.next with hin | hge
    · rw [hold first (hlt.trans hin)]
      rw [hold second hin] at hr
      exact h.inOrder first second hlt hin hr
    · rw [Heap.read_alloc, if_pos (Nat.le_antisymm (Nat.le_of_lt_succ hs) hge), hphase] at hr
      exact absurd rfl hr
  · obtain ⟨hlt, hr⟩ := h.worked other hw
    exact ⟨hlt.trans (Nat.lt_succ_self _), by dsimp only; rw [hold other hlt]; exact hr⟩
  · obtain ⟨hlt, hid, hsame⟩ := h.joined call hcall other hj
    refine ⟨hlt.trans (Nat.lt_succ_self _), ?_⟩
    dsimp only
    rw [hold other hlt]
    exact ⟨hid, hsame⟩

theorem get?_erase_over (tracked : InsMap JsText Nat) (commandId id : JsText) :
    (tracked.erase commandId).get? id =
      if RegistrationPhase.over = .over ∧ id = commandId then none else tracked.get? id := by
  rw [InsMap.get?_erase]
  simp

/-- A receipt that is stored is not replaced. -/
theorem get?_write {receipts written : InsMap JsText DataCommandReceipt}
    {receipt : DataCommandReceipt}
    (hwrite : writeCommandReceipt receipts receipt = some written) (id : JsText) :
    written.get? id =
      if id = receipt.commandId ∧ receipts.get? id = none then some receipt
      else receipts.get? id := by
  unfold writeCommandReceipt at hwrite
  split at hwrite
  · cases hwrite
  · split at hwrite
    · next existing hexisting =>
      split at hwrite
      · cases hwrite
      · cases hwrite
        rw [if_neg]
        rintro ⟨rfl, hnone⟩
        rw [hexisting] at hnone
        cases hnone
    · next hnone =>
      cases hwrite
      rw [InsMap.get?_set]
      by_cases hid : id = receipt.commandId
      · rw [if_pos hid, if_pos ⟨hid, hid ▸ hnone⟩]
      · rw [if_neg hid, if_neg fun h => hid h.1]

theorem storedId_write {receipts written : InsMap JsText DataCommandReceipt}
    {receipt : DataCommandReceipt}
    (h : ∀ id stored, receipts.get? id = some stored → stored.commandId = id)
    (hwrite : writeCommandReceipt receipts receipt = some written) :
    ∀ id stored, written.get? id = some stored → stored.commandId = id := by
  intro id stored hstored
  rw [get?_write hwrite] at hstored
  split at hstored
  · next hid =>
    cases hstored
    exact hid.1.symm
  · exact h id stored hstored

/-- A write stores a receipt of its id, and takes none away. -/
theorem isSome_write {receipts written : InsMap JsText DataCommandReceipt}
    {receipt : DataCommandReceipt}
    (hwrite : writeCommandReceipt receipts receipt = some written) {id : JsText}
    (h : id = receipt.commandId ∨ receipts.get? id ≠ none) : written.get? id ≠ none := by
  rw [get?_write hwrite]
  split
  · exact Option.some_ne_none _
  · next hnot =>
    intro hnone
    rcases h with hid | hsome
    · exact hnot ⟨hid, hnone⟩
    · exact hsome hnone

/-- A registration goes on, and still holds its id. -/
theorem shape_goesOn (h : commands.Shape sha256) {ref : Nat} {phase : RegistrationPhase}
    {settled : Option CommandOutcome} {works : List Nat}
    {receipts : InsMap JsText DataCommandReceipt}
    (hold : (commands.registrations.read ref).phase ≠ .over) (hnext : phase ≠ .over)
    (hsettled : settled = none ↔ phase.pending = true)
    (hsaving : ∀ receipt, phase = .saving receipt →
      receipt.commandId = (commands.registrations.read ref).commandId ∧
        receipt.signatureDigest = digestOf sha256 (commands.registrations.read ref).signature)
    (hreleased : (commands.registrations.read ref).phase.released = true → phase.released = true)
    (horder : ∀ first < ref, (commands.registrations.read first).phase.released = true)
    (hworks : works = commands.works ∨ (works = commands.works ++ [ref] ∧
      (commands.registrations.read ref).phase.released = false ∧ phase.released = true))
    (hreceipts : ∀ id receipt, receipts.get? id = some receipt → receipt.commandId = id) :
    Shape sha256 { commands with
      registrations := commands.moved ref phase settled
      works
      receipts } :=
  shape_move h hold (fun _ => (if_neg fun hover => hnext hover.1).symm) hsettled hsaving hreleased
    horder (fun _ _ hcached => .inl hcached) h.bytes hworks hreceipts

/-- A registration is over, and its id may be cached. -/
theorem shape_finish (h : commands.Shape sha256) {ref : Nat} {outcome : CommandOutcome}
    {cache receipts : InsMap JsText DataCommandReceipt} {bytes : Int}
    (hold : (commands.registrations.read ref).phase ≠ .over)
    (horder : ∀ first < ref, (commands.registrations.read first).phase.released = true)
    (hcache : ∀ id receipt, cache.get? id = some receipt →
      commands.completedCommands.get? id = some receipt ∨
        id = (commands.registrations.read ref).commandId)
    (hbytes : bytes = cachedBytes cache.entries)
    (hreceipts : ∀ id receipt, receipts.get? id = some receipt → receipt.commandId = id) :
    Shape sha256 { commands with
      commands := commands.commands.erase (commands.registrations.read ref).commandId
      completedCommands := cache
      completedCommandBytes := bytes
      registrations := commands.moved ref .over (some outcome)
      receipts } := by
  refine shape_move h hold (fun id => get?_erase_over _ _ _) (by simp [RegistrationPhase.pending])
    (fun _ hf => RegistrationPhase.noConfusion hf) (fun _ => rfl) horder (fun id receipt hc => ?_)
    hbytes (.inl rfl) hreceipts
  exact (hcache id receipt hc).imp_right fun hid => ⟨rfl, hid⟩

/-- A registration in this phase was begun, and those before it are released. -/
theorem at_phase (h : commands.Shape sha256) {ref : Nat} {phase : RegistrationPhase}
    (hphase : (commands.registrations.read ref).phase = phase) (hnot : phase ≠ .over)
    (hturn : phase ≠ .waiting) :
    (commands.registrations.read ref).phase ≠ .over ∧
      ∀ first < ref, (commands.registrations.read first).phase.released = true := by
  have hne : (commands.registrations.read ref).phase ≠ .over := hphase ▸ hnot
  refine ⟨hne, fun first hlt => h.inOrder first ref hlt ?_ (hphase ▸ hturn)⟩
  by_contra hge
  exact hne (h.unregistered ref (Nat.le_of_not_lt hge))

/-- Every event keeps the tiers fitting together. -/
theorem shape_step (h : commands.Shape sha256) {event : CommandEvent}
    (hchange : commands.Change sha256 event next) : next.Shape sha256 := by
  cases hchange with
  | environment => exact { h with }
  | joined htracked hsame =>
    have hof := (h.tracked _ _).mp htracked
    refine shape_recordCall h _ _ fun ref heq => ?_
    obtain rfl := CallAnswer.joined.inj heq
    refine ⟨?_, hof.1, hsame⟩
    by_contra hge
    exact hof.2 (h.unregistered _ (Nat.le_of_not_lt hge))
  | conflicted => exact shape_recordCall h _ _ fun _ heq => CallAnswer.noConfusion heq
  | fromCache => exact shape_recordCall h _ _ fun _ heq => CallAnswer.noConfusion heq
  | refused => exact shape_recordCall h _ _ fun _ heq => CallAnswer.noConfusion heq
  | @registered commandId signature target shutdown hfree huncached =>
    have hnew := shape_registered h ⟨commandId, signature, target, .waiting, none⟩ rfl rfl hfree
      huncached (commands.admissionClosed || shutdown)
    refine shape_recordCall hnew _ _ fun ref heq => ?_
    obtain rfl := CallAnswer.joined.inj heq
    refine ⟨Nat.lt_succ_self _, ?_⟩
    dsimp only
    rw [Heap.read_alloc_self]
    exact ⟨rfl, rfl⟩
  | @preflight ref hphase hturn =>
    refine shape_goesOn h (by rw [hphase]; nofun) nofun (iff_of_true rfl rfl) nofun
      (fun hr => by rw [hphase] at hr; cases hr) (fun first hlt => ?_) (.inl rfl) h.storedId
    rcases hturn with rfl | hturn
    · cases hlt
    · rcases Nat.lt_or_ge first (ref - 1) with hearlier | hge
      · refine h.inOrder first (ref - 1) hearlier ?_ ?_
        · have hbegun := (begun_of_pending h (show (commands.registrations.read ref).phase.pending = true by rw [hphase]; rfl)).2
          omega
        · intro hwaiting
          rw [hwaiting] at hturn
          cases hturn
      · obtain rfl : first = ref - 1 := by omega
        exact hturn
  | @started ref _ hphase hnone =>
    obtain ⟨hold, horder⟩ := at_phase h hphase nofun nofun
    exact shape_goesOn h hold nofun (iff_of_true rfl rfl) nofun (fun _ => rfl) horder
      (.inr ⟨rfl, by rw [hphase]; rfl, rfl⟩) h.storedId
  | @readConflict ref _ receipt hphase hstored hother =>
    obtain ⟨hold, horder⟩ := at_phase h hphase nofun nofun
    exact shape_finish h hold horder (fun _ _ hc => .inl hc) h.bytes h.storedId
  | @readReceipt ref _ receipt cache hphase hstored hsame hcache =>
    obtain ⟨hold, horder⟩ := at_phase h hphase nofun nofun
    exact shape_finish h hold horder
      (fun id receipt hc => (hcache id receipt hc).imp_right And.left) rfl h.storedId
  | @readFailed ref _ receipt hphase hid hdigest =>
    obtain ⟨hold, horder⟩ := at_phase h hphase nofun nofun
    refine shape_goesOn h hold nofun (iff_of_true rfl rfl) (fun other heq => ?_) (fun _ => rfl)
      horder (.inl rfl) h.storedId
    obtain rfl := RegistrationPhase.saving.inj heq
    exact ⟨hid, hdigest⟩
  | @worked _ ref receipt hphase hid hdigest =>
    obtain ⟨hold, horder⟩ := at_phase h hphase nofun nofun
    refine shape_goesOn h hold nofun (iff_of_true rfl rfl) (fun other heq => ?_) (fun _ => rfl)
      horder (.inl rfl) h.storedId
    obtain rfl := RegistrationPhase.saving.inj heq
    exact ⟨hid, hdigest⟩
  | @saved ref receipt cache receipts hphase hwrite hcache =>
    obtain ⟨hold, horder⟩ := at_phase h hphase nofun nofun
    refine shape_finish h hold horder (fun id cached hc => ?_) rfl (storedId_write h.storedId hwrite)
    exact (hcache id cached hc).imp_right fun hid => hid.1.trans (h.saving ref receipt hphase).1
  | @retained _ ref receipt receipts error hphase hwrite =>
    obtain ⟨hold, horder⟩ := at_phase h hphase nofun nofun
    refine shape_goesOn h hold nofun (by simp [RegistrationPhase.pending]) nofun (fun _ => rfl) horder
      (.inl rfl) ?_
    rcases hwrite with rfl | hwrite
    · exact h.storedId
    · exact storedId_write h.storedId hwrite
  | @deleted commandId =>
    refine { h with storedId := fun id receipt hstored => ?_ }
    dsimp only at hstored
    rw [InsMap.get?_erase] at hstored
    split at hstored
    · cases hstored
    · exact h.storedId id receipt hstored

theorem shape_start (coreEpoch : JsText) : (start coreEpoch).Shape sha256 where
  tracked _ _ := ⟨nofun, fun h => absurd rfl h.2⟩
  unregistered _ _ := rfl
  settled _ := ⟨nofun, nofun⟩
  saving _ _ := nofun
  cached _ _ := nofun
  bytes := rfl
  inOrder _ _ _ h := absurd h (Nat.not_lt_zero _)
  works := .nil
  worked _ h := nomatch h
  joined _ h := nomatch h
  storedId _ _ := nofun

/-! ## Works -/

/-- A receipt is deleted only where none is stored. -/
def KeepsReceipts (commands : CoreCommands) : CommandEvent → Prop
  | .receiptDeleted commandId => commands.receipts.get? commandId = none
  | _ => True

/-- A registration whose work was started holds its id until the receipt is stored; no work of the id
is started meanwhile or afterwards. -/
structure Once (commands : CoreCommands) : Prop where
  held : ∀ ref ∈ commands.works,
    commands.commands.get? (commands.registrations.read ref).commandId = some ref ∨
      commands.receipts.get? (commands.registrations.read ref).commandId ≠ none
  once : ∀ first ∈ commands.works, ∀ second ∈ commands.works,
    (commands.registrations.read first).commandId =
      (commands.registrations.read second).commandId → first = second

theorem get?_erase_absent {receipts : InsMap JsText DataCommandReceipt} {commandId : JsText}
    (h : receipts.get? commandId = none) (id : JsText) :
    (receipts.erase commandId).get? id = receipts.get? id := by
  rw [InsMap.get?_erase]
  split
  · next heq => rw [heq, h]
  · rfl

/-- A registration moves, and the ids stay held or get a receipt. -/
theorem once_move (h : commands.Once) {ref : Nat} {phase : RegistrationPhase}
    {settled : Option CommandOutcome} {tracked : InsMap JsText Nat}
    {cache receipts : InsMap JsText DataCommandReceipt} {bytes : Int} {works : List Nat}
    (htracked : ∀ id, tracked.get? id = commands.commands.get? id ∨
      (id = (commands.registrations.read ref).commandId ∧ receipts.get? id ≠ none))
    (hreceipts : ∀ id, commands.receipts.get? id ≠ none → receipts.get? id ≠ none)
    (hworks : ∀ other ∈ works, other ∈ commands.works ∨ (other = ref ∧
      tracked.get? (commands.registrations.read ref).commandId = some ref ∧
      ∀ earlier ∈ commands.works, (commands.registrations.read earlier).commandId =
        (commands.registrations.read ref).commandId → earlier = ref)) :
    Once { commands with
      commands := tracked
      completedCommands := cache
      completedCommandBytes := bytes
      registrations := commands.moved ref phase settled
      works
      receipts } := by
  have hid : ∀ other, ((commands.moved ref phase settled).read other).commandId =
      (commands.registrations.read other).commandId :=
    fun other => (moved_signature commands ref other phase settled).1
  refine ⟨fun other hw => ?_, fun first hf second hs heq => ?_⟩
  · dsimp only
    rw [hid]
    rcases hworks other hw with hearlier | ⟨rfl, hself, -⟩
    · rcases h.held other hearlier with hheld | hstored
      · rcases htracked (commands.registrations.read other).commandId with hsame | hover
        · exact .inl (hsame.trans hheld)
        · exact .inr hover.2
      · exact .inr (hreceipts _ hstored)
    · exact .inl hself
  · dsimp only at heq
    rw [hid, hid] at heq
    rcases hworks first hf with hfirst | ⟨rfl, -, hnew⟩
    · rcases hworks second hs with hsecond | ⟨rfl, -, hnew⟩
      · exact h.once first hfirst second hsecond heq
      · exact hnew first hfirst heq
    · rcases hworks second hs with hsecond | ⟨rfl, -, -⟩
      · exact (hnew second hsecond heq.symm).symm
      · rfl

/-- The id of a registration that is over may be deleted where a receipt is stored. -/
theorem erased_tracked {tracked : InsMap JsText Nat} {receipts : InsMap JsText DataCommandReceipt}
    {commandId : JsText} (hstored : receipts.get? commandId ≠ none) (id : JsText) :
    (tracked.erase commandId).get? id = tracked.get? id ∨
      (id = commandId ∧ receipts.get? id ≠ none) := by
  rw [InsMap.get?_erase]
  split
  · next heq => exact .inr ⟨heq, heq ▸ hstored⟩
  · exact .inl rfl

/-- Where no receipt is deleted, the work of an id is started once. -/
theorem works_step (h : commands.Once) (hshape : commands.Shape sha256) {event : CommandEvent}
    (hkeeps : commands.KeepsReceipts event) (hchange : commands.Change sha256 event next) :
    next.Once := by
  cases hchange with
  | environment => exact { h with }
  | joined => exact { h with }
  | conflicted => exact { h with }
  | fromCache => exact { h with }
  | refused => exact { h with }
  | @registered commandId signature target shutdown hfree huncached =>
    have hold : ∀ ref ∈ commands.works, (commands.registrations.alloc
        ⟨commandId, signature, target, .waiting, none⟩).2.read ref =
          commands.registrations.read ref :=
      fun ref hw => Heap.read_alloc_lt _ _ (hshape.worked ref hw).1
    refine ⟨fun ref hw => ?_, fun first hf second hs heq => ?_⟩
    · dsimp only [recordCall] at hw ⊢
      rw [hold ref hw, InsMap.get?_set]
      refine (h.held ref hw).imp_left fun hheld => ?_
      rw [if_neg, hheld]
      intro hid
      rw [hid, hfree] at hheld
      cases hheld
    · dsimp only [recordCall] at hf hs heq
      rw [hold first hf, hold second hs] at heq
      exact h.once first hf second hs heq
  | preflight => exact once_move h (fun _ => .inl rfl) (fun _ hs => hs) fun _ hw => .inl hw
  | @started ref _ hphase hnone =>
    have hself : commands.commands.get? (commands.registrations.read ref).commandId = some ref :=
      (hshape.tracked _ ref).mpr ⟨rfl, by rw [hphase]; nofun⟩
    refine once_move h (fun _ => .inl rfl) (fun _ hs => hs) fun other hw => ?_
    refine (List.mem_append.mp hw).imp_right fun hin => ⟨List.mem_singleton.mp hin, hself, ?_⟩
    -- No other work of the id was started: it would hold the id, or have a receipt.
    intro earlier hearlier heq
    rcases h.held earlier hearlier with hheld | hstored
    · rw [heq, hself] at hheld
      exact (Option.some.inj hheld).symm
    · rw [heq] at hstored
      exact absurd hnone hstored
  | readConflict hphase hstored hother =>
    exact once_move h (erased_tracked (by rw [hstored]; nofun)) (fun _ hs => hs) fun _ hw => .inl hw
  | readReceipt hphase hstored hsame hcache =>
    exact once_move h (erased_tracked (by rw [hstored]; nofun)) (fun _ hs => hs) fun _ hw => .inl hw
  | readFailed => exact once_move h (fun _ => .inl rfl) (fun _ hs => hs) fun _ hw => .inl hw
  | worked => exact once_move h (fun _ => .inl rfl) (fun _ hs => hs) fun _ hw => .inl hw
  | saved hphase hwrite hcache =>
    have hid := (hshape.saving _ _ hphase).1
    exact once_move h (erased_tracked (isSome_write hwrite (.inl hid.symm)))
      (fun _ hs => isSome_write hwrite (.inr hs)) fun _ hw => .inl hw
  | retained error hphase hwrite =>
    refine once_move h (fun _ => .inl rfl) (fun id hs => ?_) fun _ hw => .inl hw
    rcases hwrite with rfl | hwrite
    · exact hs
    · exact isSome_write hwrite (.inr hs)
  | @deleted commandId =>
    refine ⟨fun ref hw => (h.held ref hw).imp_right fun hstored => ?_, h.once⟩
    dsimp only
    rw [get?_erase_absent hkeeps]
    exact hstored

theorem once_start (coreEpoch : JsText) : (start coreEpoch).Once :=
  ⟨fun _ h => (nomatch h), fun _ h => (nomatch h)⟩

end CoreCommands

end Henji
