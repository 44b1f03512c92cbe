import Henji.Tools.BashDrainLaw

/-!
# The law of the capture

Two drains, other commands and the store take their steps in any order. Where no call on the file
fails, the result has the text of the first bytes of each stream, and what was too long for it is in
the store.

Results:
1. `append_ends`, `finish_ends`: what an append and the end do to a live command.
2. `Captures`: what holds in every state of the capture, kept by each step (`captures_step`).
3. `capture_law`: what the result says of the two streams, and the progress that was shown.
-/

namespace Henji

open TextDecoder (decodeAll)

namespace BashOutputRun

variable {run : BashOutputRun} {ref : Nat} {stream : BashOutputStream} {text : JsText}

/-! ## A live command in the store -/

/-- A command that takes output, and each of whose streams has some. -/
structure Live (run : BashOutputRun) (ref : Nat) : Prop where
  mem : ref ∈ run.store.commands
  failed : (run.store.books.accounts ref).failed = false
  finalized : (run.store.books.accounts ref).finalized = false
  positive : ∀ stream total, (run.store.books.accounts ref).streams.get? stream = some total →
    0 < total

theorem positive_take {account : BashAccount} {count : Nat} (hcount : 0 < count)
    (h : ∀ stream total, account.streams.get? stream = some total → 0 < total) (other : BashOutputStream)
    (total : Nat) (hget : (account.take stream count).streams.get? other = some total) :
    0 < total := by
  rw [BashAccount.take, InsMap.get?_set] at hget
  split at hget
  · cases hget
    exact Nat.lt_of_lt_of_le hcount (Nat.le_add_left _ _)
  · exact h other total hget

theorem positive_appended {books books' : BashBooks} {length count : Nat}
    (hbooks : books.Appended ref stream length count books')
    (h : ∀ stream total, (books.accounts ref).streams.get? stream = some total → 0 < total) :
    ∀ stream total, (books'.accounts ref).streams.get? stream = some total → 0 < total := by
  cases hbooks with
  | nothing => exact h
  | refused =>
    rw [BashBooks.limited, BashBooks.accounts_change, if_pos rfl]
    exact h
  | taken hnone hpos =>
    rw [BashBooks.take_self]
    exact positive_take hpos h
  | truncated reason _ hnone hpos =>
    rw [BashBooks.limited, BashBooks.accounts_change, if_pos rfl, BashBooks.take_self]
    exact positive_take hpos h

/-- An append to a live command. -/
structure Appends (run next : BashOutputRun) (ref : Nat) (stream : BashOutputStream) (text : JsText)
    (result : BashOutputAppendResult) : Prop where
  step : run.step (.append ref stream text []) = some next
  runs : (Effect.run (BashOutputStore.appendLocked ref stream text) (run.locked [])).1 = .ok result
  faithful : next.Faithful
  live : next.Live ref
  limit : result.limit = (next.store.books.accounts ref).limit
  limited : (run.store.books.accounts ref).limit ≠ none →
    (next.store.books.accounts ref).limit ≠ none
  texts : ∀ other, next.texts ref other = run.texts ref other ++ if other = stream then text else []

theorem readable_iff : run.readable ref stream = true ↔ ref ∈ run.store.commands ∧
    (run.store.books.accounts ref).failed = false ∧
    (run.store.books.accounts ref).finalized = true ∧
    (run.store.books.accounts ref).streams.has stream = true := by
  rw [BashOutputStore.has_account]
  simp only [readable, Bool.and_eq_true, List.contains_iff_mem, Bool.not_eq_true', and_assoc]
  exact Iff.rfl

theorem append_ends (h : run.Faithful) (hlive : run.Live ref) (stream : BashOutputStream)
    (htext : hasWellFormedUnicode text = true) :
    ∃ next result, run.Appends next ref stream text result := by
  obtain ⟨result, after, hrun, -⟩ := @BashOutputStore.appendLocked_content _ _ stream _ h.sound
    h.closed hlive.mem hlive.failed hlive.finalized htext
  have hlimit := (BashOutputStore.appendLocked_limit ref stream text).ok trivial hrun
  have hends := BashOutputStore.appendLocked_spec (I := fun _ => True) (F := fun _ _ => True)
    run.store.books ref stream text (fun bytes store _ => by split <;> trivial)
    (fun _ _ _ _ => trivial) run.store ⟨rfl, trivial⟩
  rw [hrun] at hends
  have happended := hends.1.2
  have hstep : run.step (.append ref stream text []) = some
      { run with
        store := after
        appends := run.appends ++ [⟨ref, stream, text, result.storedBytes⟩] } := by
    rw [step, if_pos (h.allocated ref hlive.mem), locked_nil h, hrun]
  refine ⟨_, result, hstep, by rw [locked_nil h, hrun], (stepsTo_append h htext hstep).1, ?_, hlimit,
    fun hsome hnone => hsome (happended.only.whole hnone).1, fun other => ?_⟩
  · have hcommands : after.commands = run.store.commands := happended.only.commands
    exact ⟨hcommands ▸ hlive.mem, happended.only.failed.trans hlive.failed,
      happended.only.finalized.trans hlive.finalized, positive_appended happended hlive.positive⟩
  · unfold texts
    rw [appended_append _ rfl, List.flatMap_append]
    by_cases heq : stream = other
    · rw [if_pos ⟨rfl, heq⟩, if_pos heq.symm, List.flatMap_singleton]
    · rw [if_neg fun h => heq h.2, if_neg fun h => heq h.symm]
      rfl

/-- The end of a live command: what it holds stays, and it leaves the registry where it holds
nothing. -/
structure Finishes (run next : BashOutputRun) (ref : Nat) : Prop where
  step : run.step (.finish ref []) = some next
  runs : (Effect.run (BashOutputStore.finishLocked ref) (run.locked [])).1 =
    .ok (next.store.summaryLocked ref)
  faithful : next.Faithful
  account : next.store.books.accounts ref =
    { run.store.books.accounts ref with finalized := true }
  appends : next.appends = run.appends
  mem : ref ∈ next.store.commands ∨ (run.store.books.accounts ref).streams.entries = []
  contents : ref ∈ next.store.commands → ∀ stream,
    next.store.contentOf ref stream = run.store.contentOf ref stream

theorem finish_ends (h : run.Faithful) (hlive : run.Live ref) :
    ∃ next, run.Finishes next ref := by
  obtain ⟨after, hrun⟩ := BashOutputStore.finishLocked_result h.sound h.closed hlive.mem hlive.failed
  have hpreserves := BashOutputStore.finishLocked_content h.sound (.inl hlive.mem)
  rw [hrun] at hpreserves
  have hflush : ∀ stream, (run.store.books.accounts ref).streams.has stream = true →
      Effect.Triple (fun _ => True) (BashOutputStore.flush ref stream) (fun _ _ => True)
        (fun _ _ => True) := fun _ _ _ _ => by split <;> trivial
  have hends := BashOutputStore.finishLocked_spec hflush (fun _ _ _ _ => trivial) run.store
    ⟨rfl, trivial⟩
  rw [hrun] at hends
  have hfinished : run.store.books.Finished ref after.books := hends.1
  have hstep : run.step (.finish ref []) = some { run with store := after } := by
    rw [step, if_pos (h.allocated ref hlive.mem), locked_nil h, hrun]
  have hself : (run.store.books.finalize ref).accounts ref =
      { run.store.books.accounts ref with finalized := true } := by
    rw [BashBooks.finalize, BashBooks.accounts_change, if_pos rfl]
  have haccount : after.books.accounts ref =
      { run.store.books.accounts ref with finalized := true } ∧ (ref ∈ after.books.commands ∨
        (run.store.books.accounts ref).streams.entries = []) := by
    generalize after.books = books at hfinished ⊢
    cases hfinished with
    | kept => exact ⟨hself, .inl hlive.mem⟩
    | dropped hempty => exact ⟨hself, .inr (List.length_eq_zero_iff.mp hempty)⟩
  exact ⟨_, hstep, by rw [locked_nil h, hrun], (stepsTo_finish h hstep).1, haccount.1, rfl,
    haccount.2, fun hmem => hpreserves.contents ref hmem⟩

/-- A command that begins is live and holds nothing. -/
theorem begin_live {next : BashOutputRun} (h : run.Faithful)
    (hstep : run.step .beginCommand = some next) : next.Faithful ∧ next.Live run.store.records.next ∧
      ∀ stream, next.texts run.store.records.next stream = [] := by
  have hfaithful := (stepsTo_begin h hstep).1
  cases hstep
  obtain ⟨-, hcommands, -, -⟩ := BashOutputStore.beginCommand_content h.sound h.closed h.allocated
  have hbooks : run.store.beginCommand.2.books = run.store.books.begin := by
    rw [BashOutputStore.books_beginCommand, h.closed]
    rfl
  have haccount : run.store.beginCommand.2.books.accounts run.store.records.next =
      run.store.books.begin.accounts run.store.books.next := by
    rw [hbooks]
    rfl
  have hnew : run.store.books.begin.accounts run.store.books.next =
      BashOutputStore.emptyRecord.account := Function.update_self _ _ _
  refine ⟨hfaithful, ⟨?_, ?_, ?_, ?_⟩, fun stream => ?_⟩
  · show _ ∈ run.store.beginCommand.2.commands
    rw [hcommands]
    exact List.mem_append_right _ (List.mem_singleton.mpr rfl)
  · rw [haccount, hnew]
    rfl
  · rw [haccount, hnew]
    rfl
  · rw [haccount, hnew]
    intro other total hget
    cases hget
  · have hnone : run.appended run.store.records.next stream = [] :=
      List.filter_eq_nil_iff.mpr fun append happend hself => by
        rw [Bool.and_eq_true, beq_iff_eq] at hself
        exact Nat.lt_irrefl _ (hself.1 ▸ h.recorded append happend)
    show (run.appended run.store.records.next stream).flatMap _ = []
    rw [hnone]
    rfl

end BashOutputRun

namespace BashDrain

variable {drain : BashDrain} {sent : JsText} {limited : Prop}

theorem grows_read (h : drain.Keeps sent limited) (value : List UInt8) :
    drain.progress.progressPrefix <+: (drain.read value).1.progress.progressPrefix := by
  obtain ⟨seen, points, hshows⟩ := h.shown
  obtain ⟨seen', points', hshows', rest, hrest⟩ := BashProgress.observe_shows hshows value
  have hprogress : (drain.read value).1.progress = (drain.progress.observe value).1 :=
    (spools_spool _ _).progress
  rw [hprogress, hshows.text, hshows'.text, ← hrest, List.flatMap_append]
  exact List.prefix_append _ _

theorem progressPrefix_settle (drain : BashDrain) :
    drain.settle.progress.progressPrefix = drain.progress.progressPrefix := by
  unfold settle BashProgress.finish
  dsimp only
  split <;> rfl

theorem progressPrefix_close (drain : BashDrain) :
    drain.close.progress.progressPrefix = drain.progress.progressPrefix := by
  unfold close
  dsimp only
  split
  · rfl
  · exact progressPrefix_settle drain

theorem progressPrefix_appended (drain : BashDrain) (stops : Bool) :
    (drain.appended stops).progress.progressPrefix = drain.progress.progressPrefix := by
  unfold appended
  split
  · exact progressPrefix_settle drain
  · rfl

end BashDrain

namespace BashResult

def text (result : BashResult) : BashOutputStream → JsText
  | .stdout => result.stdout
  | .stderr => result.stderr

def truncated (result : BashResult) : BashOutputStream → Bool
  | .stdout => result.stdoutTruncated
  | .stderr => result.stderrTruncated

/-- The bytes of the saved copy of a stream, where one is offered. -/
def saved (result : BashResult) (stream : BashOutputStream) : Option Nat :=
  (result.savedStreams.getD []).lookup stream

end BashResult

namespace BashCapture

variable {capture next : BashCapture} {ref : Nat} {stream : BashOutputStream}
  {event : BashCaptureEvent}

/-! ## The law -/

/-- The saved copy of a stream: `kept` is the front of its text that the store took. -/
structure SavedCopy (capture : BashCapture) (result : BashResult) (stream : BashOutputStream)
    (kept : JsText) : Prop where
  isPrefix : kept <+: decodeAll (capture.drains stream).received
  wellFormed : hasWellFormedUnicode kept = true
  stored : capture.output.storedBytes capture.ref stream = (encodeUtf8 kept).length
  short : result.truncated stream = false → kept = []
  whole : result.truncated stream = true → result.outputLimit = none →
    kept = decodeAll (capture.drains stream).received ∧ kept ≠ []
  offered : result.saved stream = if kept = [] then none else some (encodeUtf8 kept).length
  readable : kept ≠ [] → result.outputId = some capture.ref ∧
    capture.output.readable capture.ref stream = true ∧
      capture.output.store.contentOf capture.ref stream = encodeUtf8 kept

/-- What the result says of a stream. -/
structure Captured (capture : BashCapture) (result : BashResult) (stream : BashOutputStream) :
    Prop where
  text : result.text stream =
    decodeAll ((capture.drains stream).received.take MAX_CAPTURE_BYTES)
  truncated : result.truncated stream =
    decide (MAX_CAPTURE_BYTES < (capture.drains stream).received.length)
  saved : ∃ kept, capture.SavedCopy result stream kept
  shown : ∀ report ∈ capture.reports, report stream <+: result.text stream

/-- What is offered of a stream comes back in windows. -/
def Restored (capture : BashCapture) (result : BashResult) (stream : BashOutputStream) : Prop :=
  ∀ bytes windowLimits, result.saved stream = some bytes → (∀ limit ∈ windowLimits, 4 ≤ limit) →
    bytes < windowLimits.length → ∃ kept windows, capture.SavedCopy result stream kept ∧
      capture.output.ReadsBack capture.ref stream windowLimits kept windows

/-- The capture never fails, goes on until there is a result, and the result obeys the law. -/
structure Lawful (capture : BashCapture) : Prop where
  intact : capture.outputStopEvent ≠ some .persistence
  phase : capture.phase = .capturing ∨ ∃ result, capture.phase = .returned result
  grows : ∀ stream, capture.reports.Pairwise fun earlier later => earlier stream <+: later stream
  appends : ∀ stream, (capture.drains stream).appending ≠ [] →
    ∃ next, capture.step (.append stream []) = some next
  finishes : capture.phase = .capturing →
    capture.drained .stdout = true → capture.drained .stderr = true →
      ∃ next result, capture.step (.finish []) = some next ∧ next.phase = .returned result
  captured : ∀ result, capture.phase = .returned result → ∀ stream, capture.Captured result stream
  restored : ∀ result, capture.phase = .returned result → ∀ stream, capture.Restored result stream

/-- Nothing goes wrong in the store. -/
def Undisturbed (ref : Nat) : BashCaptureEvent → Prop
  | .store event => BashOutputRun.undisturbed event = true ∧ BashOutputRun.about event ≠ some ref
  | .append _ calls => calls = []
  | .finish calls => calls = []
  | .markFailed => False
  | _ => True

/-! ## The invariant -/

/-- The limit of the command. -/
def limit (capture : BashCapture) : Option BashOutputLimitSnapshot :=
  (capture.output.store.books.accounts capture.ref).limit

/-- What holds of both drains while the command is captured. -/
structure Drains (capture : BashCapture) : Prop where
  keeps : ∀ stream, (capture.drains stream).Keeps (capture.output.texts capture.ref stream)
    (capture.limit ≠ none)
  shown : ∀ report ∈ capture.reports, ∀ stream,
    report stream <+: (capture.drains stream).progress.progressPrefix

/-- The two phases of a capture in an undisturbed store. -/
inductive InPhase (capture : BashCapture) : Prop
  | capturing (hphase : capture.phase = .capturing) (hlive : capture.output.Live capture.ref)
      (hdrains : capture.Drains)
  | returned (result : BashResult) (hphase : capture.phase = .returned result)
      (hdone : ∀ stream, (capture.drains stream).phase = .ended)
      (hcaptured : ∀ stream, capture.Captured result stream)

structure Captures (capture : BashCapture) : Prop where
  faithful : capture.output.Faithful
  intact : capture.outputStopEvent ≠ some .persistence
  grows : ∀ stream, capture.reports.Pairwise fun earlier later => earlier stream <+: later stream
  phase : capture.InPhase

theorem captures_start {output : BashOutputRun} (h : output.Faithful) {status : ProcessStatus}
    (hstart : start output status = some capture) : capture.Captures := by
  unfold start at hstart
  obtain ⟨next, hnext, rfl⟩ := Option.map_eq_some_iff.mp hstart
  obtain ⟨hfaithful, hlive, htexts⟩ := BashOutputRun.begin_live h hnext
  refine ⟨hfaithful, fun h => (by cases h), fun _ => List.Pairwise.nil,
    .capturing rfl hlive ⟨fun stream => ?_, fun report hreport => ?_⟩⟩
  · show BashDrain.start.Keeps (next.texts _ stream) _
    rw [htexts stream]
    exact BashDrain.keeps_start _
  · exact absurd hreport List.not_mem_nil

/-! ## Steps of a drain -/

/-- A step of one drain. -/
theorem drains_setDrain (h : capture.Drains) {drain : BashDrain} {output : BashOutputRun}
    (hkeeps : drain.Keeps (output.texts capture.ref stream)
      ((output.store.books.accounts capture.ref).limit ≠ none))
    (hothers : ∀ other ≠ stream, output.texts capture.ref other =
      capture.output.texts capture.ref other)
    (hlimit : capture.limit ≠ none → (output.store.books.accounts capture.ref).limit ≠ none)
    (hgrows : (capture.drains stream).progress.progressPrefix <+: drain.progress.progressPrefix) :
    ({ capture with output }.setDrain stream drain).Drains where
  keeps other := by
    show (Function.update capture.drains stream drain other).Keeps (output.texts capture.ref other)
      ((output.store.books.accounts capture.ref).limit ≠ none)
    by_cases heq : other = stream
    · subst heq
      rw [Function.update_self]
      exact hkeeps
    · rw [Function.update_of_ne heq, hothers other heq]
      exact (h.keeps other).weaken hlimit
  shown report hreport other := by
    show _ <+: (Function.update capture.drains stream drain other).progress.progressPrefix
    by_cases heq : other = stream
    · subst heq
      rw [Function.update_self]
      exact (h.shown report hreport other).trans hgrows
    · rw [Function.update_of_ne heq]
      exact h.shown report hreport other

/-- A step of a drain that is not about the store. -/
theorem captures_setDrain (h : capture.Captures) (hphase : capture.phase = .capturing)
    {drain : BashDrain} (hkeeps : (capture.drains stream).Keeps
      (capture.output.texts capture.ref stream) (capture.limit ≠ none) →
        drain.Keeps (capture.output.texts capture.ref stream) (capture.limit ≠ none) ∧
          (capture.drains stream).progress.progressPrefix <+: drain.progress.progressPrefix) :
    (capture.setDrain stream drain).Captures := by
  cases h.phase with
  | capturing _ hlive hdrains =>
    obtain ⟨hnext, hgrows⟩ := hkeeps (hdrains.keeps stream)
    exact ⟨h.faithful, h.intact, h.grows, .capturing hphase hlive
      (drains_setDrain hdrains hnext (fun _ _ => rfl) id hgrows)⟩
  | returned result hreturned => cases hphase.symm.trans hreturned

/-- The reports grow, since the texts do. -/
theorem captures_report (h : capture.Captures) (hphase : capture.phase = .capturing) :
    capture.report.Captures := by
  cases h.phase with
  | capturing _ hlive hdrains =>
    refine ⟨h.faithful, h.intact, fun stream => ?_, .capturing hphase hlive
      ⟨hdrains.keeps, fun report hreport stream => ?_⟩⟩
    · refine List.pairwise_append.mpr ⟨h.grows stream, List.pairwise_singleton _ _,
        fun report hreport last hlast => ?_⟩
      rw [List.mem_singleton.mp hlast]
      exact hdrains.shown report hreport stream
    · obtain hold | hnew := List.mem_append.mp hreport
      · exact hdrains.shown report hold stream
      · rw [List.mem_singleton.mp hnew]
        exact List.prefix_rfl
  | returned result hreturned => cases hphase.symm.trans hreturned

/-- A drain that reads or appends belongs to a command that is being captured. -/
theorem capturing_of_drain (h : capture.Captures) (stream : BashOutputStream)
    (hphase : (capture.drains stream).phase ≠ .ended) : capture.phase = .capturing := by
  cases h.phase with
  | capturing hcapturing => exact hcapturing
  | returned _ _ hdone => exact absurd (hdone stream) hphase

theorem captures_read (h : capture.Captures) {value : List UInt8}
    (hstep : capture.step (.read stream value) = some next) : next.Captures := by
  simp only [step] at hstep
  split at hstep
  swap
  · cases hstep
  next hreading =>
  have hphase := capturing_of_drain h stream (hreading ▸ BashDrainPhase.noConfusion)
  have hset : (capture.setDrain stream ((capture.drains stream).read value).1).Captures :=
    captures_setDrain h hphase fun hkeeps =>
      ⟨BashDrain.keeps_read hkeeps hreading value, BashDrain.grows_read hkeeps value⟩
  cases hstep
  split
  · exact captures_report hset hphase
  · exact hset

theorem captures_close (h : capture.Captures) (hstep : capture.step (.close stream) = some next) :
    next.Captures := by
  simp only [step] at hstep
  split at hstep
  swap
  · cases hstep
  next hreading =>
  have hphase := capturing_of_drain h stream (hreading ▸ BashDrainPhase.noConfusion)
  cases hstep
  exact captures_setDrain h hphase fun hkeeps => ⟨BashDrain.keeps_close hkeeps hreading,
    ⟨[], by rw [List.append_nil, BashDrain.progressPrefix_close]⟩⟩

/-- The text of a drain that appends reaches the store. -/
theorem append_happens (h : capture.Captures) (happending : (capture.drains stream).appending ≠ []) :
    ∃ output result, capture.output.Appends output capture.ref stream
        (capture.drains stream).appending result ∧
      capture.step (.append stream []) = some
        (({ capture with output }.setDrain stream ((capture.drains stream).appended
          (stopOf (.ok result)).isSome)).noteOutputStop (stopOf (.ok result))) := by
  have hended : (capture.drains stream).phase ≠ .ended := fun hended => happending (by
    unfold BashDrain.appending
    rw [hended])
  cases h.phase with
  | capturing _ hlive hdrains =>
    obtain ⟨output, result, happends⟩ := BashOutputRun.append_ends h.faithful hlive stream
      (hdrains.keeps stream).wellFormed
    refine ⟨output, result, happends, ?_⟩
    simp only [step]
    rw [if_neg (fun hempty => happending (List.isEmpty_iff.mp hempty)), happends.runs, happends.step]
    rfl
  | returned _ _ hdone => exact absurd (hdone stream) hended

theorem limited_of_stopOf {result : BashOutputAppendResult}
    (h : (stopOf (.ok result)).isSome = true) : result.limit ≠ none := by
  intro hnone
  simp only [stopOf, hnone, Option.map_none, Option.isSome_none, Bool.false_eq_true] at h

theorem stopOf_ok {result : BashOutputAppendResult} :
    stopOf (.ok result) ≠ some .persistence := by
  intro h
  obtain ⟨limit, -, hlimit⟩ := Option.map_eq_some_iff.mp h
  cases hlimit

theorem captures_append (h : capture.Captures)
    (hstep : capture.step (.append stream []) = some next) : next.Captures := by
  have happending : (capture.drains stream).appending ≠ [] := by
    intro hnil
    simp only [step] at hstep
    rw [hnil] at hstep
    cases hstep
  obtain ⟨output, result, happends, hnext⟩ := append_happens h happending
  obtain rfl := Option.some.inj (hnext.symm.trans hstep)
  have hstops : (stopOf (.ok result)).isSome = true →
      (output.store.books.accounts capture.ref).limit ≠ none := by
    rw [← happends.limit]
    exact limited_of_stopOf
  have hended : (capture.drains stream).phase ≠ .ended := fun hended => happending (by
    unfold BashDrain.appending
    rw [hended])
  cases h.phase with
  | returned _ _ hdone => exact absurd (hdone stream) hended
  | capturing hphase hlive hdrains =>
    have htexts : output.texts capture.ref stream = capture.output.texts capture.ref stream ++
        (capture.drains stream).appending := by
      rw [happends.texts stream, if_pos rfl]
    refine ⟨happends.faithful, ?_, h.grows, .capturing hphase happends.live ?_⟩
    · show (capture.outputStopEvent <|> stopOf (.ok result)) ≠ some .persistence
      intro hstop
      cases hevent : capture.outputStopEvent with
      | some event =>
        rw [hevent] at hstop
        exact h.intact (hevent.trans hstop)
      | none =>
        rw [hevent] at hstop
        exact stopOf_ok hstop
    · have hset : ({ capture with output }.setDrain stream _).Drains := drains_setDrain hdrains
        (htexts ▸ BashDrain.keeps_appended (hdrains.keeps stream) happending happends.limited hstops)
        (fun other hne => by rw [happends.texts other, if_neg hne, List.append_nil]) happends.limited
        ⟨[], by rw [List.append_nil, BashDrain.progressPrefix_appended]⟩
      exact ⟨hset.keeps, hset.shown⟩

/-! ## The store and the end -/

/-- Events about other commands append nothing here. -/
theorem appended_other {output later : BashOutputRun} {event : BashOutputEvent}
    (habout : BashOutputRun.about event ≠ some ref) (hstep : output.step event = some later)
    (stream : BashOutputStream) : later.appended ref stream = output.appended ref stream := by
  have hsame : ∀ {run : BashOutputRun}, run.appends = output.appends →
      run.appended ref stream = output.appended ref stream := fun h => by
    unfold BashOutputRun.appended
    rw [h]
  cases event with
  | append other otherStream text calls =>
    simp only [BashOutputRun.step] at hstep
    split at hstep
    swap
    · cases hstep
    split at hstep <;> cases hstep
    · rw [BashOutputRun.appended_append _ rfl, if_neg fun h => habout (congrArg some h.1),
        List.append_nil]
    · exact hsame rfl
  | finish other calls =>
    simp only [BashOutputRun.step] at hstep
    split at hstep
    swap
    · cases hstep
    split at hstep <;> cases hstep <;> exact hsame rfl
  | beginCommand =>
    cases hstep
    exact hsame rfl
  | read =>
    cases hstep
    exact hsame rfl
  | close =>
    cases hstep
    exact hsame rfl
  | _ =>
    simp only [BashOutputRun.step] at hstep
    split at hstep <;> cases hstep
    exact hsame rfl

/-- A saved copy stays as it is while other commands go on. -/
theorem savedCopy_store {result : BashResult} {kept : JsText} {output : BashOutputRun}
    (h : capture.SavedCopy result stream kept)
    (happended : output.appended capture.ref stream = capture.output.appended capture.ref stream)
    (huntouched : capture.ref ∈ capture.output.store.commands →
      BashOutputRun.Untouched capture.output.store output.store capture.ref) :
    SavedCopy { capture with output } result stream kept where
  isPrefix := h.isPrefix
  wellFormed := h.wellFormed
  stored := by
    show output.storedBytes capture.ref stream = _
    unfold BashOutputRun.storedBytes
    rw [happended]
    exact h.stored
  short := h.short
  whole := h.whole
  offered := h.offered
  readable hsome := by
    obtain ⟨hid, hreadable, hcontent⟩ := h.readable hsome
    rw [BashOutputRun.readable_iff] at hreadable
    have hthere := huntouched hreadable.1
    refine ⟨hid, ?_, (hthere.contents stream).trans hcontent⟩
    rw [BashOutputRun.readable_iff, hthere.account]
    exact ⟨hthere.mem, hreadable.2⟩

theorem captures_store (h : capture.Captures) {event : BashOutputEvent}
    (hcalm : BashOutputRun.undisturbed event = true)
    (hstep : capture.step (.store event) = some next) : next.Captures := by
  simp only [step] at hstep
  split at hstep
  · cases hstep
  next habout =>
  obtain ⟨output, houtput, rfl⟩ := Option.map_eq_some_iff.mp hstep
  obtain ⟨hfaithful, hothers⟩ := BashOutputRun.faithful_step h.faithful hcalm houtput
  have happended := appended_other habout houtput
  cases h.phase with
  | returned result hphase hdone hcaptured =>
    refine ⟨hfaithful, h.intact, h.grows, .returned result hphase hdone fun stream => ?_⟩
    obtain ⟨htext, htruncated, ⟨kept, hkept⟩, hshown⟩ := hcaptured stream
    exact ⟨htext, htruncated, ⟨kept, savedCopy_store hkept (happended stream) fun hmem =>
      hothers capture.ref hmem habout⟩, hshown⟩
  | capturing hphase hlive hdrains =>
    have huntouched := hothers capture.ref hlive.mem habout
    have haccount := huntouched.account
    refine ⟨hfaithful, h.intact, h.grows, .capturing hphase ⟨huntouched.mem, ?_, ?_, ?_⟩
      ⟨fun stream => ?_, hdrains.shown⟩⟩
    · exact (congrArg BashAccount.failed haccount).trans hlive.failed
    · exact (congrArg BashAccount.finalized haccount).trans hlive.finalized
    · exact haccount.symm ▸ hlive.positive
    · have hkeeps := hdrains.keeps stream
      have htexts : output.texts capture.ref stream = capture.output.texts capture.ref stream := by
        unfold BashOutputRun.texts
        rw [happended stream]
      have hlimit : (output.store.books.accounts capture.ref).limit = capture.limit :=
        congrArg BashAccount.limit haccount
      show (capture.drains stream).Keeps (output.texts capture.ref stream)
        ((output.store.books.accounts capture.ref).limit ≠ none)
      rw [htexts, hlimit]
      exact hkeeps

theorem resultOf_text (summary : BashOutputCommandSummary) (stream : BashOutputStream) :
    (capture.resultOf summary).text stream = decodeAll (capture.drains stream).captured := by
  cases stream <;> rfl

theorem resultOf_truncated (summary : BashOutputCommandSummary) (stream : BashOutputStream) :
    (capture.resultOf summary).truncated stream = (capture.drains stream).truncated := by
  cases stream <;> rfl

/-- What a result offers of a finished command. -/
theorem resultOf_saved (capture : BashCapture) {store : BashOutputStore} {account : BashAccount}
    (haccount : store.books.accounts ref = account) (hfailed : account.failed = false)
    (hfinalized : account.finalized = true) :
    (capture.resultOf (store.summaryLocked ref)).outputLimit = account.limit ∧
      ∀ stream, (capture.resultOf (store.summaryLocked ref)).saved stream =
        account.streams.get? stream ∧ (account.streams.get? stream ≠ none →
          (capture.resultOf (store.summaryLocked ref)).outputId = some ref) := by
  subst haccount
  have hfailed : (store.records.read ref).failed = false := hfailed
  have hfinalized : (store.records.read ref).finalized = true := hfinalized
  refine ⟨rfl, fun stream => ?_⟩
  have hget : (store.books.accounts ref).streams.get? stream =
      ((store.records.read ref).streams.entries.map fun entry =>
        (entry.1, entry.2.totalBytes)).lookup stream := rfl
  rw [hget]
  unfold BashResult.saved resultOf BashOutputStore.summaryLocked
  cases hentries : (store.records.read ref).streams.entries with
  | nil => simp [hfailed, hfinalized, hentries]
  | cons entry entries => simp [hfailed, hfinalized, hentries]

/-- The bytes of the streams of a live command. -/
theorem get?_live {output : BashOutputRun} (h : output.Faithful) (hlive : output.Live ref)
    (stream : BashOutputStream) : (output.store.books.accounts ref).streams.get? stream =
      if output.store.contentOf ref stream = [] then none
      else some (output.store.contentOf ref stream).length := by
  have hget : (output.store.books.accounts ref).streams.get? stream =
      ((output.store.records.read ref).streams.get? stream).map
        BashOutputStreamRecord.totalBytes := InsMap.get?_mapValues _ _ _
  have hpositive := hlive.positive stream
  rw [hget] at hpositive ⊢
  cases hrecord : (output.store.records.read ref).streams.get? stream with
  | none =>
    have hnil : output.store.contentOf ref stream = [] := by
      rw [BashOutputStore.contentOf, hrecord]
      rfl
    rw [if_pos hnil]
    rfl
  | some record =>
    have htotal := h.sound.total ⟨hlive.mem, hrecord⟩
    have hcontent := BashOutputStore.contentOf_of_holds ⟨hlive.mem, hrecord⟩
    rw [hrecord] at hpositive
    have hpos := hpositive record.totalBytes rfl
    rw [hcontent, if_neg (fun hnil => by rw [htotal, hnil] at hpos; exact Nat.lt_irrefl 0 hpos),
      ← htotal]
    rfl

theorem encodeUtf8_eq_nil {text : JsText} : encodeUtf8 text = [] ↔ text = [] := by
  refine ⟨fun h => ?_, fun h => h ▸ rfl⟩
  by_contra hne
  have hpos := length_encodeUtf8_pos hne
  rw [h] at hpos
  exact Nat.lt_irrefl 0 hpos

/-- More bytes than a result takes have a text. -/
theorem decodeAll_ne_nil {bytes : List UInt8} (h : MAX_CAPTURE_BYTES < bytes.length) :
    decodeAll bytes ≠ [] := by
  unfold decodeAll
  dsimp only
  rw [TextDecoder.decode_told]
  intro hnil
  have hunits := (List.append_eq_nil_iff.mp hnil).1
  have hpoints := (codePoints_units fun n (hn : n ∈ TextDecoder.told bytes) =>
    TextDecoder.isScalar_told hn).1
  rw [hunits] at hpoints
  unfold MAX_CAPTURE_BYTES at h
  exact TextDecoder.told_ne_nil (by omega) hpoints.symm

/-- The result of a command whose drains are done. -/
theorem captured_finish (hfaithful : capture.output.Faithful)
    (hlive : capture.output.Live capture.ref) (hdrains : capture.Drains)
    (hdone : ∀ stream, (capture.drains stream).phase = .ended) {output : BashOutputRun}
    (hfinish : capture.output.Finishes output capture.ref) (stop : Option BashOutputStop)
    (stream : BashOutputStream) :
    let result := capture.resultOf (output.store.summaryLocked capture.ref)
    Captured { capture with
      output
      outputStopEvent := stop
      phase := .returned result } result stream := by
  intro result
  have hkeeps := hdrains.keeps stream
  have hnone : (capture.drains stream).appending = [] := by
    unfold BashDrain.appending
    rw [hdone stream]
  have htext : (capture.drains stream).text = decodeAll (capture.drains stream).received := by
    unfold BashDrain.text
    rw [hdone stream]
  have hfront := hkeeps.isPrefix
  have hwhole := hkeeps.whole
  rw [hnone, List.append_nil, htext] at hfront hwhole
  obtain ⟨hlimit, hsaved⟩ := resultOf_saved capture hfinish.account hlive.failed rfl
  obtain ⟨hoffer, hid⟩ := hsaved stream
  obtain ⟨kept, hkept, hcontent, hall⟩ := hfaithful.kept capture.ref hlive.mem hlive.failed stream
  have hlimit : result.outputLimit = capture.limit := hlimit
  have hget := get?_live hfaithful hlive stream
  rw [← hcontent] at hget
  have htruncated : result.truncated stream = (capture.drains stream).truncated :=
    resultOf_truncated _ stream
  obtain ⟨seen, points, hshows⟩ := hkeeps.shown
  have hinline : result.text stream =
      decodeAll ((capture.drains stream).received.take MAX_CAPTURE_BYTES) :=
    (resultOf_text _ stream).trans (congrArg decodeAll hkeeps.captured)
  refine ⟨hinline, htruncated.trans hkeeps.truncated, ⟨kept, hkept.isPrefix.trans hfront,
    hkept.wellFormed, ?_, ?_, ?_, ?_, ?_⟩, fun report hreport => ?_⟩
  · rw [hkept.length]
    unfold BashOutputRun.storedBytes BashOutputRun.appended
    dsimp only
    rw [hfinish.appends]
  · intro hshort
    have hsent := (hkeeps.aside (hkeeps.spooling.trans (htruncated.symm.trans hshort))).2.1
    exact List.prefix_nil.mp (hsent ▸ hkept.isPrefix)
  · intro hlong hnolimit
    have hlive' : capture.limit = none := hlimit.symm.trans hnolimit
    have hon : (capture.drains stream).storageStopped = false := by
      by_contra hoff
      exact hkeeps.stopped (Bool.not_eq_false _ ▸ hoff) hlive'
    have hlong' := htruncated.symm.trans hlong
    have heq := (hall hlive').trans (hwhole (hkeeps.spooling.trans hlong') hon)
    exact ⟨heq, heq ▸ decodeAll_ne_nil (of_decide_eq_true (hkeeps.truncated.symm.trans hlong'))⟩
  · refine hoffer.trans (hget.trans ?_)
    exact if_congr encodeUtf8_eq_nil rfl rfl
  · intro hsome
    have hget' : (capture.output.store.books.accounts capture.ref).streams.get? stream =
        some (encodeUtf8 kept).length :=
      hget.trans (if_neg fun hnil => hsome (encodeUtf8_eq_nil.mp hnil))
    have hthere : capture.ref ∈ output.store.commands := by
      refine hfinish.mem.resolve_right fun hempty => ?_
      rw [InsMap.get?, hempty] at hget'
      cases hget'
    refine ⟨hid (hget' ▸ Option.some_ne_none _), ?_, (hfinish.contents hthere stream).trans
      hcontent.symm⟩
    rw [BashOutputRun.readable_iff, hfinish.account]
    exact ⟨hthere, hlive.failed, rfl, InsMap.has_iff.mpr ⟨_, hget'⟩⟩
  · rw [hinline]
    exact (hdrains.shown report hreport stream).trans
      (BashProgress.shows_inline hshows List.prefix_rfl)

theorem drained_iff : capture.drained stream = true ↔ (capture.drains stream).phase = .ended :=
  beq_iff_eq

/-- The end of the capture. -/
theorem finish_happens (h : capture.Captures) (hphase : capture.phase = .capturing)
    (hstdout : capture.drained .stdout = true) (hstderr : capture.drained .stderr = true) :
    ∃ next result, capture.step (.finish []) = some next ∧ next.phase = .returned result ∧
      next.Captures := by
  have hdone : ∀ stream, (capture.drains stream).phase = .ended := fun stream => by
    cases stream
    · exact drained_iff.mp hstdout
    · exact drained_iff.mp hstderr
  cases h.phase with
  | returned result hreturned => cases hphase.symm.trans hreturned
  | capturing _ hlive hdrains =>
    obtain ⟨output, hfinish⟩ := BashOutputRun.finish_ends h.faithful hlive
    generalize hresult : capture.resultOf (output.store.summaryLocked capture.ref) = result
    have hconclude : ({ capture with output } : BashCapture).conclude
        (output.store.summaryLocked capture.ref) =
          { capture with
            output
            phase := .returned result } := by
      unfold conclude
      dsimp only
      rw [if_neg h.intact, ← hresult]
      rfl
    have hcaptured : ∀ stream, Captured { capture with
        output
        phase := .returned result } result stream := fun stream =>
      hresult ▸ captured_finish h.faithful hlive hdrains hdone hfinish capture.outputStopEvent stream
    have hcaptures : Captures { capture with
        output
        phase := .returned result } :=
      ⟨hfinish.faithful, h.intact, h.grows, .returned result rfl hdone hcaptured⟩
    refine ⟨_, result, ?_, rfl, hcaptures⟩
    rw [hphase] at hconclude
    simp only [step]
    rw [hphase]
    dsimp only
    rw [hstdout, hstderr, if_pos (by decide), hfinish.runs, hfinish.step]
    exact congrArg some hconclude

theorem captures_finish (h : capture.Captures) (hstep : capture.step (.finish []) = some next) :
    next.Captures := by
  have hready : capture.phase = .capturing ∧ capture.drained .stdout = true ∧
      capture.drained .stderr = true := by
    simp only [step] at hstep
    split at hstep
    · next hphase =>
      split at hstep
      · next hdone =>
        rw [Bool.and_eq_true] at hdone
        exact ⟨hphase, hdone⟩
      · cases hstep
    · cases hstep
  obtain ⟨next', result, hnext, -, hcaptures⟩ := finish_happens h hready.1 hready.2.1 hready.2.2
  exact Option.some.inj (hnext.symm.trans hstep) ▸ hcaptures

/-! ## Runs -/

theorem captures_step (h : capture.Captures) (hcalm : Undisturbed capture.ref event)
    (hstep : capture.step event = some next) : next.Captures ∧ next.ref = capture.ref := by
  cases event with
  | store event =>
    refine ⟨captures_store h hcalm.1 hstep, ?_⟩
    simp only [step] at hstep
    split at hstep
    · cases hstep
    · obtain ⟨output, -, rfl⟩ := Option.map_eq_some_iff.mp hstep
      rfl
  | read stream value =>
    refine ⟨captures_read h hstep, ?_⟩
    simp only [step] at hstep
    split at hstep
    · cases hstep
      split <;> rfl
    · cases hstep
  | close stream =>
    refine ⟨captures_close h hstep, ?_⟩
    simp only [step] at hstep
    split at hstep <;> cases hstep
    rfl
  | append stream calls =>
    obtain rfl : calls = [] := hcalm
    refine ⟨captures_append h hstep, ?_⟩
    simp only [step] at hstep
    split at hstep
    · cases hstep
    · obtain ⟨output, -, rfl⟩ := Option.map_eq_some_iff.mp hstep
      rfl
  | markFailed => exact hcalm.elim
  | finish calls =>
    obtain rfl : calls = [] := hcalm
    refine ⟨captures_finish h hstep, ?_⟩
    simp only [step] at hstep
    split at hstep
    · split at hstep
      · obtain ⟨output, -, rfl⟩ := Option.map_eq_some_iff.mp hstep
        split <;> rfl
      · cases hstep
    · cases hstep
  | summary =>
    simp only [step] at hstep
    split at hstep
    · next hsettling =>
      cases h.phase with
      | capturing hphase => cases hphase.symm.trans hsettling
      | returned _ hphase => cases hphase.symm.trans hsettling
    · cases hstep

theorem encodeUtf8_inj {first second : JsText} (hfirst : hasWellFormedUnicode first = true)
    (hsecond : hasWellFormedUnicode second = true) (h : encodeUtf8 first = encodeUtf8 second) :
    first = second := by
  have hpoints := congrArg decodePoints h
  unfold encodeUtf8 at hpoints
  rw [decodePoints_encodePoints (isScalar_codePoints first),
    decodePoints_encodePoints (isScalar_codePoints second)] at hpoints
  rw [← units_codePoints hfirst, Option.some.inj hpoints, units_codePoints hsecond]

/-- The stored front of a stream is one text. -/
theorem kept_unique {run : BashOutputRun} {first second : JsText} (h : run.Kept ref stream first)
    (h' : run.Kept ref stream second) : first = second := by
  have hfront : ∀ {first second : JsText}, run.Kept ref stream first → run.Kept ref stream second →
      first <+: second → first = second := by
    rintro first _ h h' ⟨rest, rfl⟩
    have hlength := h.length.trans h'.length.symm
    rw [encodeUtf8_append h.wellFormed, List.length_append] at hlength
    have hrest : encodeUtf8 rest = [] := List.length_eq_zero_iff.mp (by omega)
    rw [encodeUtf8_eq_nil.mp hrest, List.append_nil]
  obtain hle | hle := List.prefix_or_prefix_of_prefix h.isPrefix h'.isPrefix
  · exact hfront h h' hle
  · exact (hfront h' h hle).symm

theorem captured_of_captures (h : capture.Captures) {result : BashResult}
    (hresult : capture.phase = .returned result) : capture.Captured result stream := by
  cases h.phase with
  | capturing hphase => cases hphase.symm.trans hresult
  | returned other hphase _ hcaptured =>
    cases hphase.symm.trans hresult
    exact hcaptured stream

/-- The windows come to the end of the saved copy, since the content is that of one text. -/
theorem restored_of_captures (h : capture.Captures) {result : BashResult}
    (hresult : capture.phase = .returned result) : capture.Restored result stream := by
  intro bytes windowLimits hsaved hlimits hmany
  obtain ⟨kept, hkept⟩ := (captured_of_captures h hresult).saved
  have hoffered := hkept.offered.symm.trans hsaved
  split at hoffered
  · cases hoffered
  · next hsome =>
    obtain ⟨-, hreadable, hcontent⟩ := hkept.readable hsome
    obtain ⟨held, windows, hreads⟩ := BashOutputRun.readsBack h.faithful hreadable hlimits
      (by rw [hkept.stored, Option.some.inj hoffered]; exact hmany)
    obtain ⟨hmem, hfailed, -⟩ := BashOutputRun.readable_iff.mp hreadable
    obtain ⟨stored, hstored, hbytes, -⟩ := h.faithful.kept capture.ref hmem hfailed stream
    obtain rfl := kept_unique hreads.keeps hstored
    obtain rfl := encodeUtf8_inj hstored.wellFormed hkept.wellFormed (hbytes.trans hcontent)
    exact ⟨_, windows, hkept, hreads⟩

theorem lawful_of_captures (h : capture.Captures) : capture.Lawful where
  intact := h.intact
  phase := by
    cases h.phase with
    | capturing hphase => exact .inl hphase
    | returned result hphase => exact .inr ⟨result, hphase⟩
  grows := h.grows
  appends stream happending := by
    obtain ⟨output, result, -, hstep⟩ := append_happens h happending
    exact ⟨_, hstep⟩
  finishes hphase hstdout hstderr := by
    obtain ⟨next, result, hstep, hreturned, -⟩ := finish_happens h hphase hstdout hstderr
    exact ⟨next, result, hstep, hreturned⟩
  captured _ hresult _ := captured_of_captures h hresult
  restored _ hresult _ := restored_of_captures h hresult

/-- However the chunks of the two streams come, and whatever other commands do meanwhile: where no
call on the file fails, the capture of a command ends in a result. Its texts are the decoding of the
first bytes of the streams, a stream is marked as truncated where it had more, and a copy is offered
of exactly the streams of which the store took something. The copy holds the front of the text of
the whole stream that was stored, all of it where the result states no limit, and is what windows of
at least four bytes read, but for marks that they start with, also after other commands. The texts
that were shown grow, and are fronts of the inline texts. -/
theorem capture_law (limits : BashOutputStoreLimits) {earlier : List BashOutputEvent}
    {before : BashOutputRun} (hearlier : ∀ event ∈ earlier, BashOutputRun.undisturbed event = true)
    (hbefore : Runs.run BashOutputRun.step (.start limits) earlier = some before)
    {status : ProcessStatus} {began : BashCapture} (hbegan : start before status = some began)
    {events : List BashCaptureEvent} (hevents : ∀ event ∈ events, Undisturbed began.ref event)
    (hrun : Runs.run step began events = some capture) : capture.Lawful := by
  have hbegins := captures_start (BashOutputRun.faithful_run limits hearlier hbefore) hbegan
  have hall : Runs.Throughout step (fun _ event => Undisturbed began.ref event) began events :=
    Runs.throughout_of_forall hevents
  have hkept := Runs.run_keeps_throughout
    (P := fun capture => capture.Captures ∧ capture.ref = began.ref)
    (fun ⟨h, href⟩ hcalm hstep =>
      have ⟨hnext, hsame⟩ := captures_step h (href ▸ hcalm) hstep
      ⟨hnext, hsame.trans href⟩) ⟨hbegins, rfl⟩ hall hrun
  exact lawful_of_captures hkept.1

/-- Two short streams: a malformed byte, and a character in two chunks. -/
def shortOutput : List BashCaptureEvent :=
  [.read .stderr [0xff], .read .stdout [0xc3], .close .stderr, .store .beginCommand,
    .read .stdout [0xa9], .close .stdout, .finish []]

/-- The condition can be met. -/
theorem capture_law_short : ∃ capture,
    (start (.start BashOutputRun.smallSegments) ⟨some 0, none⟩).bind
      (Runs.run step · shortOutput) = some capture ∧ capture.Lawful := by
  have hsome : ((start (.start BashOutputRun.smallSegments) ⟨some 0, none⟩).bind
      (Runs.run step · shortOutput)).isSome = true := by decide +kernel
  obtain ⟨capture, hcapture⟩ := Option.isSome_iff_exists.mp hsome
  obtain ⟨began, hbegan, hrun⟩ := Option.bind_eq_some_iff.mp hcapture
  have hevents : ∀ event ∈ shortOutput, Undisturbed began.ref event := by
    have href : began.ref = 0 := by
      unfold start at hbegan
      obtain ⟨output, -, rfl⟩ := Option.map_eq_some_iff.mp hbegan
      rfl
    simp [shortOutput, Undisturbed, href, BashOutputRun.undisturbed, BashOutputRun.about]
  exact ⟨capture, hcapture, @capture_law capture BashOutputRun.smallSegments [] _
    (fun _ h => absurd h List.not_mem_nil) rfl _ _ hbegan _ hevents hrun⟩

end BashCapture

end Henji
