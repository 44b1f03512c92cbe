import Henji.Tools.BashReadback

/-!
# What comes back of the output

In a run in which every call on the file succeeds, a stream of a command holds what its appends
stored, and only a call about the command changes that.

Results:
1. `faithful_step`: a step keeps what the streams hold, and leaves the other commands alone.
2. `output_reads_back`: reading a finished stream on to its end gives the kept text back, but for
   the marks that start a window.
3. `mark_is_dropped`: a text that starts with U+FEFF comes back without it.
-/

namespace Henji

namespace BashBooks

variable {books books' : BashBooks} {ref : Nat} {stream : BashOutputStream} {length count : Nat}

/-- What an append changes in the books, and when it stores everything or nothing. -/
structure AppendedOnly (books books' : BashBooks) (ref length count : Nat) : Prop where
  commands : books'.commands = books.commands
  next : books'.next = books.next
  closed : books'.closed = books.closed
  others : ∀ other ≠ ref, books'.accounts other = books.accounts other
  failed : (books'.accounts ref).failed = (books.accounts ref).failed
  finalized : (books'.accounts ref).finalized = (books.accounts ref).finalized
  whole : (books'.accounts ref).limit = none → (books.accounts ref).limit = none ∧ count = length
  nothing : (books.accounts ref).limit ≠ none → count = 0

theorem Appended.only (h : books.Appended ref stream length count books') :
    books.AppendedOnly books' ref length count := by
  have hchange : ∀ (f : BashAccount → BashAccount) (other : Nat), other ≠ ref →
      (books.change ref f).accounts other = books.accounts other := fun f other hne => by
    rw [accounts_change, if_neg hne]
  cases h with
  | nothing h =>
    refine ⟨rfl, rfl, rfl, fun _ _ => rfl, rfl, rfl, fun hnone => ⟨hnone, ?_⟩, fun _ => rfl⟩
    obtain hsome | hzero := h
    · rw [hnone] at hsome
      cases hsome
    · exact hzero.symm
  | refused reason hnone =>
    refine ⟨rfl, rfl, rfl, hchange _, ?_, ?_, fun hlimit => ?_, fun hne => absurd hnone hne⟩
    · rw [limited, accounts_change, if_pos rfl]
    · rw [limited, accounts_change, if_pos rfl]
    · rw [limited_self] at hlimit
      cases hlimit
  | taken hnone =>
    refine ⟨rfl, rfl, rfl, hchange _, ?_, ?_, fun _ => ⟨hnone, rfl⟩, fun hne => absurd hnone hne⟩
    · rw [take_self]
      rfl
    · rw [take_self]
      rfl
  | truncated reason _ hnone =>
    refine ⟨rfl, rfl, rfl, fun other hne => ?_, ?_, ?_, fun hlimit => ?_,
      fun hne => absurd hnone hne⟩
    · rw [limited, accounts_change, if_neg hne]
      exact hchange _ other hne
    · rw [limited, accounts_change, if_pos rfl, take_self]
      rfl
    · rw [limited, accounts_change, if_pos rfl, take_self]
      rfl
    · rw [limited_self] at hlimit
      cases hlimit

/-- What finishing changes in the books. -/
structure FinishedOnly (books books' : BashBooks) (ref : Nat) : Prop where
  next : books'.next = books.next
  closed : books'.closed = books.closed
  others : ∀ other ≠ ref, books'.accounts other = books.accounts other
  failed : (books'.accounts ref).failed = (books.accounts ref).failed
  limit : (books'.accounts ref).limit = (books.accounts ref).limit
  finalized : (books'.accounts ref).finalized = true

theorem Finished.only (h : books.Finished ref books') : books.FinishedOnly books' ref := by
  have hself : (books.finalize ref).accounts ref =
      { books.accounts ref with finalized := true } := by
    rw [finalize, accounts_change, if_pos rfl]
  have hothers : ∀ other ≠ ref, (books.finalize ref).accounts other = books.accounts other :=
    fun other hne => by rw [finalize, accounts_change, if_neg hne]
  cases h with
  | kept =>
    exact ⟨rfl, rfl, hothers, by rw [hself], by rw [hself], by rw [hself]⟩
  | dropped =>
    have hdrop : ((books.finalize ref).drop ref).accounts = (books.finalize ref).accounts := rfl
    exact ⟨rfl, rfl, hothers, by rw [hdrop, hself], by rw [hdrop, hself], by rw [hdrop, hself]⟩

end BashBooks

namespace BashOutputRun

open BashOutputStore (Sound Preserves)

variable {run next : BashOutputRun} {ref : Nat} {stream : BashOutputStream} {text : JsText}
  {calls : List FileCall} {event : BashOutputEvent}

/-! ## What was kept -/

/-- The appends to a stream. -/
def appended (run : BashOutputRun) (ref : Nat) (stream : BashOutputStream) :
    List BashOutputAppend :=
  run.appends.filter fun append => append.ref == ref && append.stream == stream

/-- The texts appended to a stream. -/
def texts (run : BashOutputRun) (ref : Nat) (stream : BashOutputStream) : JsText :=
  (run.appended ref stream).flatMap BashOutputAppend.text

/-- The bytes that the appends to a stream returned as stored. -/
def storedBytes (run : BashOutputRun) (ref : Nat) (stream : BashOutputStream) : Nat :=
  ((run.appended ref stream).map BashOutputAppend.storedBytes).sum

/-- The front of the appended texts that was stored. -/
structure Kept (run : BashOutputRun) (ref : Nat) (stream : BashOutputStream) (kept : JsText) :
    Prop where
  isPrefix : kept <+: run.texts ref stream
  wellFormed : hasWellFormedUnicode kept = true
  length : (encodeUtf8 kept).length = run.storedBytes ref stream

/-- The streams of a live command hold what was kept; without a limit that is everything. -/
def KeptAt (run : BashOutputRun) (ref : Nat) : Prop :=
  (run.store.records.read ref).failed = false → ∀ stream, ∃ kept, run.Kept ref stream kept ∧
    encodeUtf8 kept = run.store.contentOf ref stream ∧
    ((run.store.records.read ref).limit = none → kept = run.texts ref stream)

/-- No call on the file fails, the store stays open, and text is well formed. -/
def undisturbed : BashOutputEvent → Bool
  | .append _ _ text calls => hasWellFormedUnicode text && calls.isEmpty
  | .finish _ calls => calls.isEmpty
  | .abandon _ calls => calls.isEmpty
  | .read _ _ _ _ calls => calls.isEmpty
  | .close => false
  | _ => true

/-- The command whose output an event may change. -/
def about : BashOutputEvent → Option Nat
  | .append ref _ _ _ => some ref
  | .finish ref _ => some ref
  | .abandon ref _ => some ref
  | .markFailed ref => some ref
  | _ => none

structure Faithful (run : BashOutputRun) : Prop where
  sound : run.store.Sound
  closed : run.store.closed = false
  allocated : ∀ ref ∈ run.store.commands, ref < run.store.records.next
  /-- A command that left the registry takes no more output. -/
  left : ∀ ref < run.store.records.next, ref ∉ run.store.commands →
    (run.store.records.read ref).finalized = true
  recorded : ∀ append ∈ run.appends, append.ref < run.store.records.next
  kept : ∀ ref ∈ run.store.commands, run.KeptAt ref

/-- A command as it was. -/
structure Untouched (before after : BashOutputStore) (ref : Nat) : Prop where
  mem : ref ∈ after.commands
  account : after.books.accounts ref = before.books.accounts ref
  contents : ∀ stream, after.contentOf ref stream = before.contentOf ref stream

theorem KeptAt.transfer (h : run.KeptAt ref)
    (happended : ∀ stream, next.appended ref stream = run.appended ref stream)
    (hfailed : (next.store.records.read ref).failed = false →
      (run.store.records.read ref).failed = false)
    (hlimit : (next.store.records.read ref).limit = none →
      (run.store.records.read ref).limit = none)
    (hcontents : ∀ stream, next.store.contentOf ref stream = run.store.contentOf ref stream) :
    next.KeptAt ref := by
  intro hlive stream
  obtain ⟨kept, ⟨hleads, hwell, hlength⟩, hcontent, hwhole⟩ := h (hfailed hlive) stream
  have htexts : next.texts ref stream = run.texts ref stream := by
    rw [texts, happended stream, texts]
  have hstored : next.storedBytes ref stream = run.storedBytes ref stream := by
    rw [storedBytes, happended stream, storedBytes]
  exact ⟨kept, ⟨htexts ▸ hleads, hwell, hstored ▸ hlength⟩, hcontent.trans (hcontents stream).symm,
    fun hnone => htexts ▸ hwhole (hlimit hnone)⟩

theorem KeptAt.untouched (h : run.KeptAt ref) (huntouched : Untouched run.store next.store ref)
    (happended : ∀ stream, next.appended ref stream = run.appended ref stream) :
    next.KeptAt ref :=
  h.transfer happended
    (fun hlive => (congrArg BashAccount.failed huntouched.account).symm.trans hlive)
    (fun hnone => (congrArg BashAccount.limit huntouched.account).symm.trans hnone)
    huntouched.contents

/-! ## One step -/

theorem locked_nil (h : run.Faithful) : run.locked [] = run.store := by
  have hcalls := h.sound.calls
  unfold locked
  rw [← hcalls]

theorem untouched_refl (hmem : ref ∈ run.store.commands) : Untouched run.store run.store ref :=
  ⟨hmem, rfl, fun _ => rfl⟩

/-- A step after which the streams hold what was kept, and the other commands are as they were. -/
def StepsTo (run next : BashOutputRun) (changed : Option Nat) : Prop :=
  next.Faithful ∧ ∀ ref ∈ run.store.commands, changed ≠ some ref →
    Untouched run.store next.store ref

/-- A step that only marks a command to be marked. -/
theorem stepsTo_marking (h : run.Faithful) (marking : List Nat) (changed : Option Nat) :
    StepsTo run { run with marking } changed :=
  ⟨⟨h.sound, h.closed, h.allocated, h.left, h.recorded, fun ref hmem =>
      (h.kept ref hmem).transfer (fun _ => rfl) id id fun _ => rfl⟩,
    fun _ hmem _ => untouched_refl hmem⟩

theorem appended_append (append : BashOutputAppend) (happends : next.appends = run.appends ++ [append])
    (ref : Nat) (stream : BashOutputStream) : next.appended ref stream = run.appended ref stream ++
      if append.ref = ref ∧ append.stream = stream then [append] else [] := by
  unfold appended
  rw [happends, List.filter_append, List.filter_cons, List.filter_nil]
  simp only [Bool.and_eq_true, beq_iff_eq]

/-- An append adds what it stored behind what was kept. -/
theorem keptAt_append (h : run.KeptAt ref) {front : JsText} {storedBytes : Nat}
    (happends : next.appends = run.appends ++ [⟨ref, stream, text, storedBytes⟩])
    (hfront : BashOutputStore.Takes text (encodeUtf8 front) front)
    (hstored : storedBytes = (encodeUtf8 front).length)
    (hgrows : BashOutputStore.Grows run.store next.store ref stream (encodeUtf8 front))
    (hmem : ref ∈ run.store.commands)
    (honly : run.store.books.AppendedOnly next.store.books ref (encodeUtf8 text).length
      storedBytes) : next.KeptAt ref := by
  have hfailed : (next.store.records.read ref).failed = (run.store.records.read ref).failed :=
    honly.failed
  have hwhole : (next.store.records.read ref).limit = none →
      (run.store.records.read ref).limit = none ∧ storedBytes = (encodeUtf8 text).length :=
    honly.whole
  have hnothing : (run.store.records.read ref).limit ≠ none → storedBytes = 0 := honly.nothing
  intro hlive other
  obtain ⟨kept, ⟨hleads, hwell, hlength⟩, hcontent, hall⟩ := h (hfailed ▸ hlive) other
  have happended := appended_append _ happends ref other
  by_cases hstream : stream = other
  · subst hstream
    rw [if_pos ⟨rfl, rfl⟩] at happended
    have htexts : next.texts ref stream = run.texts ref stream ++ text := by
      rw [texts, happended, List.flatMap_append, List.flatMap_singleton, texts]
    have hsum : next.storedBytes ref stream = run.storedBytes ref stream + storedBytes := by
      rw [BashOutputRun.storedBytes, happended, List.map_append, List.sum_append,
        BashOutputRun.storedBytes]
      rfl
    have hencode : encodeUtf8 (kept ++ front) = encodeUtf8 kept ++ encodeUtf8 front :=
      encodeUtf8_append hwell front
    refine ⟨kept ++ front, ⟨?_, ?_, ?_⟩, ?_, fun hnone => ?_⟩
    · rw [htexts]
      cases hlimit : (run.store.records.read ref).limit with
      | none =>
        rw [hall hlimit]
        exact (List.prefix_append_right_inj _).mpr hfront.isPrefix
      | some limit =>
        -- a command with a limit stores nothing more
        have hzero := hnothing (hlimit ▸ Option.some_ne_none limit)
        have hnil : front = [] := by
          by_contra hne
          have := length_encodeUtf8_pos hne
          omega
        rw [hnil, List.append_nil]
        exact hleads.trans (List.prefix_append _ _)
    · exact hasWellFormedUnicode_append hwell hfront.wellFormed
    · rw [hencode, List.length_append, hlength, hsum, hstored]
    · rw [hencode, hcontent, hgrows.self]
    · obtain ⟨hnone', hstored'⟩ := hwhole hnone
      rw [htexts, hall hnone', hfront.all (hstored.symm.trans hstored')]
  · rw [if_neg fun h => hstream h.2, List.append_nil] at happended
    have htexts : next.texts ref other = run.texts ref other := by
      rw [texts, happended, texts]
    have hsum : next.storedBytes ref other = run.storedBytes ref other := by
      rw [BashOutputRun.storedBytes, happended, BashOutputRun.storedBytes]
    refine ⟨kept, ⟨htexts ▸ hleads, hwell, hsum ▸ hlength⟩, ?_, fun hnone => ?_⟩
    · rw [hcontent, hgrows.others hmem fun heq => hstream heq.2.symm]
    · rw [htexts]
      exact hall (hwhole hnone).1

theorem stepsTo_append (h : run.Faithful) (htext : hasWellFormedUnicode text = true)
    (hstep : run.step (.append ref stream text []) = some next) :
    StepsTo run next (some ref) := by
  rw [step, locked_nil h] at hstep
  split at hstep
  swap
  · cases hstep
  next hlt =>
  cases hdead : run.store.closed || (run.store.records.read ref).failed ||
      (run.store.records.read ref).finalized with
  | true =>
    rw [BashOutputStore.run_appendLocked_dead run.store hdead] at hstep
    cases hstep
    exact stepsTo_marking h _ _
  | false =>
    rw [Bool.or_eq_false_iff, Bool.or_eq_false_iff] at hdead
    obtain ⟨⟨hclosed, hfailed⟩, hlive⟩ := hdead
    have hmem : ref ∈ run.store.commands := by
      by_contra hnot
      exact Bool.false_ne_true (hlive.symm.trans (h.left ref hlt hnot))
    obtain ⟨result, after, hrun, front, hfront, hstored, hgrows⟩ :=
      BashOutputStore.appendLocked_content h.sound hclosed hmem hfailed hlive htext
    have honly : run.store.books.AppendedOnly after.books ref (encodeUtf8 text).length
        result.storedBytes := by
      have hends := BashOutputStore.appendLocked_spec (I := fun _ => True) (F := fun _ _ => True)
        run.store.books ref stream text (fun bytes store _ => by split <;> trivial)
        (fun _ _ _ _ => trivial) run.store ⟨rfl, trivial⟩
      rw [hrun] at hends
      exact hends.1.2.only
    rw [hrun] at hstep
    cases hstep
    have huntouched : ∀ other ∈ run.store.commands, other ≠ ref →
        Untouched run.store after other := fun other hother hne =>
      ⟨hgrows.commands ▸ hother, honly.others other hne, fun stream' =>
        hgrows.others hother fun heq => hne heq.1⟩
    have hnext : after.records.next = run.store.records.next := honly.next
    have hfinalized : ∀ other, (after.records.read other).finalized =
        (run.store.records.read other).finalized := fun other => by
      by_cases heq : other = ref
      · exact heq ▸ honly.finalized
      · exact congrArg BashAccount.finalized (honly.others other heq)
    refine ⟨⟨hgrows.sound, honly.closed.trans hclosed, fun other hother => ?_,
      fun other hother hnot => ?_, fun append happend => ?_, fun other hother => ?_⟩,
      fun other hother hne => huntouched other hother fun heq => hne (heq ▸ rfl)⟩
    · exact hnext ▸ h.allocated other (hgrows.commands ▸ hother)
    · exact (hfinalized other).trans (h.left other (hnext ▸ hother) (hgrows.commands ▸ hnot))
    · show _ < after.records.next
      rw [hnext]
      obtain hold | hnew := List.mem_append.mp happend
      · exact h.recorded append hold
      · rw [List.mem_singleton.mp hnew]
        exact hlt
    · have hold : other ∈ run.store.commands := hgrows.commands ▸ hother
      by_cases heq : other = ref
      · subst heq
        exact keptAt_append (h.kept other hold) rfl hfront hstored hgrows hold honly
      · refine (h.kept other hold).untouched (huntouched other hold heq) fun stream' => ?_
        rw [appended_append _ rfl, if_neg fun h => heq h.1.symm, List.append_nil]

/-- A call about one command that stores nothing. -/
theorem stepsTo_one (h : run.Faithful) {store : BashOutputStore} {marking : List Nat}
    (hsound : store.Sound) (hcommands : ∀ other ∈ store.commands, other ∈ run.store.commands)
    (huntouched : ∀ other ∈ run.store.commands, other ≠ ref → Untouched run.store store other)
    (hclosed : store.closed = run.store.closed)
    (hnext : store.records.next = run.store.records.next)
    (hothers : ∀ other ≠ ref, store.books.accounts other = run.store.books.accounts other)
    (hleft : ref ∉ store.commands → (run.store.records.read ref).finalized = true ∨
      ref ∈ run.store.commands → (store.records.read ref).finalized = true)
    (hself : ref ∈ store.commands → KeptAt ⟨store, marking, run.appends⟩ ref) :
    StepsTo run ⟨store, marking, run.appends⟩ (some ref) := by
  refine ⟨⟨hsound, hclosed.trans h.closed, fun other hother => ?_,
    fun other hother hnot => ?_, fun append happend => ?_, fun other hother => ?_⟩,
    fun other hother hne => huntouched other hother fun heq => hne (heq ▸ rfl)⟩
  · exact hnext ▸ h.allocated other (hcommands other hother)
  · have hlt : other < run.store.records.next := hnext ▸ hother
    by_cases heq : other = ref
    · subst heq
      refine hleft hnot ?_
      by_cases hmem : other ∈ run.store.commands
      · exact .inr hmem
      · exact .inl (h.left other hlt hmem)
    · have hnot' : other ∉ run.store.commands := fun hmem =>
        hnot (huntouched other hmem heq).mem
      exact (congrArg BashAccount.finalized (hothers other heq)).trans (h.left other hlt hnot')
  · exact hnext ▸ h.recorded append happend
  · have hmem := hcommands other hother
    by_cases heq : other = ref
    · exact heq ▸ hself (heq ▸ hother)
    · exact (h.kept other hmem).untouched (huntouched other hmem heq) fun _ => rfl

/-- A call that leaves what the registry holds. -/
theorem stepsTo_preserves (h : run.Faithful) {store : BashOutputStore} {marking : List Nat}
    (hpreserves : Preserves run.store store ref) (hclosed : store.closed = run.store.closed)
    (hnext : store.records.next = run.store.records.next)
    (hothers : ∀ other ≠ ref, store.books.accounts other = run.store.books.accounts other)
    (hleft : ref ∉ store.commands → (run.store.records.read ref).finalized = true ∨
      ref ∈ run.store.commands → (store.records.read ref).finalized = true)
    (hself : ref ∈ store.commands → ((store.records.read ref).failed = false →
      (run.store.records.read ref).failed = false) ∧ ((store.records.read ref).limit = none →
        (run.store.records.read ref).limit = none)) :
    StepsTo run ⟨store, marking, run.appends⟩ (some ref) :=
  stepsTo_one h hpreserves.sound hpreserves.commands
    (fun other hother hne =>
      have hmem := hpreserves.others other hother hne
      ⟨hmem, hothers other hne, hpreserves.contents other hmem⟩)
    hclosed hnext hothers hleft fun hmem =>
      (h.kept ref (hpreserves.commands ref hmem)).transfer (fun _ => rfl) (hself hmem).1
        (hself hmem).2 (hpreserves.contents ref hmem)

theorem stepsTo_sameBooks (h : run.Faithful) {store : BashOutputStore} {marking : List Nat}
    (hpreserves : Preserves run.store store ref) (hbooks : store.books = run.store.books) :
    StepsTo run ⟨store, marking, run.appends⟩ (some ref) := by
  have hcommands : store.commands = run.store.commands := congrArg BashBooks.commands hbooks
  have haccount : (store.records.read ref).account = (run.store.records.read ref).account :=
    congrArg (fun books : BashBooks => books.accounts ref) hbooks
  exact stepsTo_preserves h hpreserves (congrArg BashBooks.closed hbooks)
    (congrArg BashBooks.next hbooks) (fun other _ => by rw [hbooks])
    (fun hnot hor => (congrArg BashAccount.finalized haccount).trans
      (hor.resolve_right fun hmem => hnot (hcommands.symm ▸ hmem)))
    fun _ => ⟨fun hfailed => (congrArg BashAccount.failed haccount).symm.trans hfailed,
      fun hlimit => (congrArg BashAccount.limit haccount).symm.trans hlimit⟩

theorem stepsTo_finish (h : run.Faithful) (hstep : run.step (.finish ref []) = some next) :
    StepsTo run next (some ref) := by
  rw [step, locked_nil h] at hstep
  split at hstep
  swap
  · cases hstep
  next hlt =>
  have hlive : ref ∈ run.store.commands ∨ (run.store.records.read ref).finalized = true := by
    by_cases hmem : ref ∈ run.store.commands
    · exact .inl hmem
    · exact .inr (h.left ref hlt hmem)
  have hpreserves := BashOutputStore.finishLocked_content h.sound hlive
  have hflush : ∀ stream, (run.store.books.accounts ref).streams.has stream = true →
      Effect.Triple (fun _ => True) (BashOutputStore.flush ref stream) (fun _ _ => True)
        (fun _ _ => True) := fun _ _ _ _ => by split <;> trivial
  have hends := BashOutputStore.finishLocked_spec hflush (fun _ _ _ _ => trivial) run.store
    ⟨rfl, trivial⟩
  cases hrun : Effect.run (BashOutputStore.finishLocked ref) run.store with
  | mk result store =>
    rw [hrun] at hstep hpreserves hends
    cases result with
    | error e =>
      cases hstep
      exact stepsTo_sameBooks h hpreserves hends.1
    | ok summary =>
      cases hstep
      have honly := hends.1.only
      exact stepsTo_preserves h hpreserves honly.closed honly.next honly.others
        (fun _ _ => honly.finalized) fun _ =>
          ⟨fun hfailed => honly.failed.symm.trans hfailed, fun hlimit => honly.limit.symm.trans hlimit⟩

theorem stepsTo_abandon (h : run.Faithful) (hstep : run.step (.abandon ref []) = some next) :
    StepsTo run next (some ref) := by
  rw [step, locked_nil h] at hstep
  split at hstep
  swap
  · cases hstep
  cases hstep
  obtain ⟨hpreserves, hdone⟩ := BashOutputStore.abandonLocked_content h.sound ref
  obtain hbooks | ⟨hmem, hbooks⟩ := BashOutputStore.books_abandoned ref run.store rfl
  · exact stepsTo_sameBooks h hpreserves hbooks
  · have hdropped : ∀ {books : BashBooks}, (books = run.store.books.release ref ∨
        books = (run.store.books.release ref).change ref BashAccount.fail) →
        books.closed = run.store.closed ∧ books.next = run.store.records.next ∧
          (∀ other ≠ ref, books.accounts other = run.store.books.accounts other) ∧
          ref ∉ books.commands := by
      have hnot : ref ∉ (run.store.books.release ref).commands := fun hmem =>
        (BashBooks.mem_drop.mp hmem).2 rfl
      rintro books (rfl | rfl)
      · exact ⟨rfl, rfl, fun _ _ => rfl, hnot⟩
      · refine ⟨rfl, rfl, fun other hne => ?_, hnot⟩
        rw [BashBooks.accounts_change, if_neg hne]
        rfl
    obtain ⟨hclosed, hnext, hothers, hnot⟩ := hdropped hbooks
    exact stepsTo_preserves h hpreserves hclosed hnext hothers (fun hnot' _ => hdone hnot' hmem)
      fun hmem' => absurd hmem' hnot

theorem stepsTo_markFailed (h : run.Faithful) (hstep : run.step (.markFailed ref) = some next) :
    StepsTo run next (some ref) := by
  rw [step] at hstep
  split at hstep
  swap
  · cases hstep
  cases hstep
  obtain ⟨hsound, hcommands, hcontents⟩ := BashOutputStore.preserves_markFailed h.sound ref
  have hbooks := BashOutputStore.books_markFailed run.store ref
  have hothers : ∀ other ≠ ref, (run.store.markFailed ref).books.accounts other =
      run.store.books.accounts other := fun other hne => by
    rw [hbooks, BashBooks.accounts_change, if_neg hne]
  have hself : ((run.store.markFailed ref).books.accounts ref) =
      (run.store.books.accounts ref).fail := by
    rw [hbooks, BashBooks.accounts_change, if_pos rfl]
  refine stepsTo_one h hsound (fun _ hmem => hcommands ▸ hmem)
    (fun other hmem hne => ⟨hcommands ▸ hmem, hothers other hne, hcontents other hne⟩) rfl rfl
    hothers (fun _ _ => congrArg BashAccount.finalized hself) fun _ hlive => ?_
  exact absurd (hlive.symm.trans (congrArg BashAccount.failed hself)) Bool.false_ne_true

theorem stepsTo_begin (h : run.Faithful) (hstep : run.step .beginCommand = some next) :
    StepsTo run next none := by
  cases hstep
  obtain ⟨hsound, hcommands, hcontents, hempty⟩ :=
    BashOutputStore.beginCommand_content h.sound h.closed h.allocated
  have hbooks : run.store.beginCommand.2.books = run.store.books.begin := by
    rw [BashOutputStore.books_beginCommand, h.closed]
    rfl
  have hold : ∀ ref < run.store.records.next,
      run.store.beginCommand.2.books.accounts ref = run.store.books.accounts ref :=
    fun ref hlt => by
      rw [hbooks]
      exact Function.update_of_ne (Nat.ne_of_lt hlt) _ _
  have hnext : run.store.beginCommand.2.records.next = run.store.records.next + 1 :=
    congrArg BashBooks.next hbooks
  have huntouched : ∀ ref ∈ run.store.commands,
      Untouched run.store run.store.beginCommand.2 ref := fun ref hmem =>
    ⟨hcommands ▸ List.mem_append_left _ hmem, hold ref (h.allocated ref hmem), hcontents ref hmem⟩
  refine ⟨⟨hsound, (congrArg BashBooks.closed hbooks).trans h.closed, fun ref hmem => ?_,
    fun ref hlt hnot => ?_, fun append happend => ?_, fun ref hmem => ?_⟩,
    fun ref hmem _ => huntouched ref hmem⟩
  · rw [hcommands, List.mem_append, List.mem_singleton] at hmem
    show _ < run.store.beginCommand.2.records.next
    rw [hnext]
    obtain hmem | rfl := hmem
    · exact Nat.lt_succ_of_lt (h.allocated ref hmem)
    · exact Nat.lt_succ_self _
  · rw [hcommands, List.mem_append, List.mem_singleton, not_or] at hnot
    have hlt : ref < run.store.records.next + 1 := hnext ▸ hlt
    have hlt : ref < run.store.records.next :=
      Nat.lt_of_le_of_ne (Nat.le_of_lt_succ hlt) hnot.2
    exact (congrArg BashAccount.finalized (hold ref hlt)).trans (h.left ref hlt hnot.1)
  · show _ < run.store.beginCommand.2.records.next
    exact hnext ▸ Nat.lt_succ_of_lt (h.recorded append happend)
  · rw [hcommands, List.mem_append, List.mem_singleton] at hmem
    obtain hmem | rfl := hmem
    · exact (h.kept ref hmem).untouched (huntouched ref hmem) fun _ => rfl
    · -- nothing was appended to the new command
      have hnone : ∀ stream, run.appended run.store.records.next stream = [] := fun stream =>
        List.filter_eq_nil_iff.mpr fun append happend hself => by
          rw [Bool.and_eq_true, beq_iff_eq] at hself
          exact Nat.lt_irrefl _ (hself.1 ▸ h.recorded append happend)
      intro _ stream
      refine ⟨[], ⟨List.nil_prefix, rfl, ?_⟩, (hempty stream).symm, fun _ => ?_⟩
      · show 0 = ((run.appended run.store.records.next stream).map _).sum
        rw [hnone]
        rfl
      · show [] = (run.appended run.store.records.next stream).flatMap _
        rw [hnone]
        rfl

theorem faithful_step (h : run.Faithful) (hcalm : undisturbed event = true)
    (hstep : run.step event = some next) : StepsTo run next (about event) := by
  cases event with
  | beginCommand => exact stepsTo_begin h hstep
  | append ref stream text calls =>
    rw [undisturbed, Bool.and_eq_true] at hcalm
    obtain rfl := List.isEmpty_iff.mp hcalm.2
    exact stepsTo_append h hcalm.1 hstep
  | finish ref calls =>
    obtain rfl := List.isEmpty_iff.mp hcalm
    exact stepsTo_finish h hstep
  | abandon ref calls =>
    obtain rfl := List.isEmpty_iff.mp hcalm
    exact stepsTo_abandon h hstep
  | summary ref =>
    rw [step] at hstep
    split at hstep
    · cases hstep
      exact stepsTo_marking h _ _
    · cases hstep
  | read outputId stream offset limit calls =>
    obtain rfl := List.isEmpty_iff.mp hcalm
    rw [step, locked_nil h, Effect.exec, BashOutputStore.run_read h.sound] at hstep
    cases hstep
    exact stepsTo_marking h _ _
  | markFailed ref => exact stepsTo_markFailed h hstep
  | close => cases hcalm

/-! ## Runs -/

theorem faithful_start (limits : BashOutputStoreLimits) : (start limits).Faithful where
  sound := {
    calls := rfl
    spooled := {
      nodup := List.nodup_nil
      size := rfl
      inside := fun ⟨_, hholds, _⟩ => absurd hholds.1 List.not_mem_nil
      owner := fun ⟨_, hholds, _⟩ => absurd hholds.1 List.not_mem_nil
      once := fun hholds => absurd hholds.1 List.not_mem_nil
      apart := fun ⟨_, hholds, _⟩ => absurd hholds.1 List.not_mem_nil
      chained := fun hholds => absurd hholds.1 List.not_mem_nil }
    total := fun hholds => absurd hholds.1 List.not_mem_nil
    flushed := fun hholds => absurd hholds.1 List.not_mem_nil }
  closed := rfl
  allocated := fun _ hmem => absurd hmem List.not_mem_nil
  left := fun _ hlt => absurd hlt (Nat.not_lt_zero _)
  recorded := fun _ hmem => absurd hmem List.not_mem_nil
  kept := fun _ hmem => absurd hmem List.not_mem_nil

theorem faithful_run (limits : BashOutputStoreLimits) {events : List BashOutputEvent}
    (hcalm : ∀ event ∈ events, undisturbed event = true)
    (hrun : Runs.run step (start limits) events = some run) : run.Faithful := by
  have hall : Runs.Throughout step (fun _ event => undisturbed event = true) (start limits) events :=
    Runs.throughout_of_forall hcalm
  exact Runs.run_keeps_throughout (fun h hcalm hstep => (faithful_step h hcalm hstep).1)
    (faithful_start limits) hall hrun

theorem Untouched.trans {first middle last : BashOutputStore} (h : Untouched first middle ref)
    (h' : Untouched middle last ref) : Untouched first last ref :=
  ⟨h'.mem, h'.account.trans h.account, fun stream => (h'.contents stream).trans (h.contents stream)⟩

/-- Calls about other commands leave a command as it was. -/
theorem untouched_run (h : run.Faithful) (hmem : ref ∈ run.store.commands)
    {events : List BashOutputEvent} {later : BashOutputRun}
    (hcalm : ∀ event ∈ events, undisturbed event = true ∧ about event ≠ some ref)
    (hrun : Runs.run step run events = some later) :
    later.Faithful ∧ Untouched run.store later.store ref := by
  have hall : Runs.Throughout step
      (fun _ event => undisturbed event = true ∧ about event ≠ some ref) run events :=
    Runs.throughout_of_forall hcalm
  exact Runs.run_keeps_throughout
    (P := fun later => later.Faithful ∧ Untouched run.store later.store ref)
    (fun ⟨hfaithful, huntouched⟩ hcalm hstep =>
      have ⟨hfaithful', hothers⟩ := faithful_step hfaithful hcalm.1 hstep
      ⟨hfaithful', huntouched.trans (hothers ref huntouched.mem hcalm.2)⟩)
    ⟨h, untouched_refl hmem⟩ hall hrun

/-- The same command reads the same. -/
theorem read_untouched {later : BashOutputRun} (h : run.Faithful) (h' : later.Faithful)
    (hmem : ref ∈ run.store.commands) (huntouched : Untouched run.store later.store ref)
    (stream : BashOutputStream) (offset limit : Nat) :
    (Effect.run (BashOutputStore.read ref stream offset limit) later.store).1 =
      (Effect.run (BashOutputStore.read ref stream offset limit) run.store).1 := by
  have hfailed : (later.store.records.read ref).failed = (run.store.records.read ref).failed :=
    congrArg BashAccount.failed huntouched.account
  have hfinalized : (later.store.records.read ref).finalized =
      (run.store.records.read ref).finalized := congrArg BashAccount.finalized huntouched.account
  have hhas : (later.store.records.read ref).streams.has stream =
      (run.store.records.read ref).streams.has stream := by
    rw [← BashOutputStore.has_account, ← BashOutputStore.has_account, huntouched.account]
  rw [BashOutputStore.run_read h.sound, BashOutputStore.run_read h'.sound,
    List.contains_iff_mem.mpr hmem, List.contains_iff_mem.mpr huntouched.mem, hfailed, hfinalized,
    hhas, huntouched.contents stream]

/-- A stream of a finished command. -/
def readable (run : BashOutputRun) (ref : Nat) (stream : BashOutputStream) : Bool :=
  let command := run.store.records.read ref
  run.store.commands.contains ref && !command.failed && command.finalized &&
    command.streams.has stream

/-- The whole stream, read on from its start. -/
structure ReadsBack (run : BashOutputRun) (ref : Nat) (stream : BashOutputStream)
    (limits : List Nat) (kept : JsText) (windows : List BashOutputWindow) : Prop where
  keeps : run.Kept ref stream kept
  reads : Effect.run (BashOutputStore.readWindows ref stream limits 0) run.store =
    (.ok windows, run.store)
  through : ReadThrough limits 0 windows
  /-- The windows are the kept text where no window of it starts with a mark. -/
  whole : windows.flatMap BashOutputWindow.text = kept ↔
    ∀ window ∈ splitWindows limits (codePoints kept), window.head? ≠ some 0xfeff

theorem length_le_encode (points : List Nat) :
    points.length ≤ (points.flatMap encodePoint).length := by
  induction points with
  | nil => exact Nat.le_refl 0
  | cons n points ih =>
    have hpos := length_encodePoint_pos n
    rw [List.flatMap_cons, List.length_append, List.length_cons]
    omega

theorem readsBack (h : run.Faithful) (hreadable : run.readable ref stream = true)
    {limits : List Nat} (hlimits : ∀ limit ∈ limits, 4 ≤ limit)
    (hmany : run.storedBytes ref stream < limits.length) :
    ∃ kept windows, run.ReadsBack ref stream limits kept windows := by
  simp only [readable, Bool.and_eq_true, Bool.not_eq_true'] at hreadable
  obtain ⟨⟨⟨hmem, hfailed⟩, hfinalized⟩, hhas⟩ := hreadable
  obtain ⟨kept, hkept, hcontent, -⟩ := h.kept ref (List.contains_iff_mem.mp hmem) hfailed stream
  have hscalar := isScalar_codePoints kept
  have hread : ∀ offset limit, Effect.run (BashOutputStore.read ref stream offset limit) run.store =
      (readContent ref stream ((codePoints kept).flatMap encodePoint) offset limit, run.store) := by
    intro offset limit
    rw [BashOutputStore.run_read h.sound, hmem, hfailed, hfinalized, hhas, ← hcontent]
    rfl
  have hshort : (codePoints kept).length < limits.length :=
    Nat.lt_of_le_of_lt (length_le_encode _) (hkept.length.trans_lt hmany)
  have hstart : codePoints kept = [] ++ codePoints kept := (List.nil_append _).symm
  obtain ⟨windows, hwindows, hthrough, htexts⟩ := readWindows_spec hread hscalar hstart hlimits
    hshort
  refine ⟨kept, windows, hkept, hwindows, hthrough, ?_⟩
  have hall := flatten_splitWindows hlimits hshort
  have hjoined : windows.flatMap BashOutputWindow.text =
      ((splitWindows limits (codePoints kept)).map dropMark).flatten.flatMap pointUnits := by
    rw [List.flatMap_def, htexts, ← List.flatMap_def, ← List.flatMap_def, List.flatMap_assoc]
  rw [hjoined, ← flatten_map_dropMark, hall]
  constructor
  · intro heq
    have hpoints : ∀ n ∈ ((splitWindows limits (codePoints kept)).map dropMark).flatten,
        isScalar n := by
      intro n hmem
      rw [List.mem_flatten] at hmem
      obtain ⟨_, hwindow, hmem⟩ := hmem
      obtain ⟨window, hwindow', rfl⟩ := List.mem_map.mp hwindow
      exact hscalar n (hall ▸ List.mem_flatten.mpr
        ⟨window, hwindow', (dropMark_suffix window).subset hmem⟩)
    -- the points of a text are those of its units
    have hunits := (codePoints_units hpoints).1
    rw [heq] at hunits
    exact hunits.symm
  · intro heq
    rw [heq, units_codePoints hkept.wellFormed]

/-- Segments of two bytes. -/
def smallSegments : BashOutputStoreLimits where
  commandBytes := 8
  registryBytes := 16
  retainedStreams := 2
  segmentBytes := 2
  commandBytes_pos := Nat.zero_lt_succ 7
  registryBytes_pos := Nat.zero_lt_succ 15
  retainedStreams_pos := Nat.zero_lt_succ 1
  segmentBytes_pos := Nat.zero_lt_succ 1

/-- The second command takes more than its limit; abandoning the first one moves its output. -/
def abandonedBeforeOutput : List BashOutputEvent :=
  [.beginCommand, .append 0 .stdout (js "abc") [], .beginCommand, .append 1 .stdout (js "fghij") [],
    .append 0 .stdout (js "de") [], .append 1 .stdout (js "klmno") [], .abandon 0 [], .finish 1 []]

/-- A text that starts with a mark. -/
def markedOutput : List BashOutputEvent :=
  [.beginCommand, .append 0 .stdout [0xfeff, 0x61] [], .finish 0 []]

end BashOutputRun

end Henji
