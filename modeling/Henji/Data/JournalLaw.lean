import Henji.Data.ExecutionDataJournal

/-!
# The prefix law of the journal

`Contiguous` says that the writer has the facts of the first `durable` messages and the buffer those of
the others, and where each call of `flushThrough` stands. Every operation keeps it: an append takes
the whole buffer, and a waiter leaves the set only with its call.

`journal_prefix_law` is the law over runs.
-/

namespace Henji.DataPort

namespace ExecutionDataJournal

/-- The facts of some inputs. -/
def factsOf (executionId : ExecutionId) (inputs : List ExecutionDataInput) :
    List ExecutionEventInput :=
  inputs.filterMap fun input => workerObservationInput executionId input.message

/-- Where a call stands, against the counters. -/
def CutStands (journal : ExecutionDataJournal) (number : Nat) (call : CutCall) : Prop :=
  match call.state with
  | .waiting => ⟨number, call.sequence⟩ ∈ journal.waiters
  | .resumed => call.sequence ≤ journal.received
  | .resolved => call.sequence ≤ journal.durable
  | .rejected _ => True

/-- The prefix law, with every waiter the one of a waiting call. -/
structure Contiguous (journal : ExecutionDataJournal) : Prop where
  received : journal.received = journal.taken.length
  sequences : ∀ i input, journal.taken[i]? = some input → input.sequence = ((i + 1 : Nat) : Int)
  buffered : journal.buffered = journal.received
  durable_le : journal.durable ≤ journal.received
  written : journal.written = factsOf journal.executionId (journal.taken.take journal.durable)
  buffer : journal.buffer = factsOf journal.executionId (journal.taken.drop journal.durable)
  cuts : ∀ number call, journal.calls[number]? = some call → CutStands journal number call
  waiters : ∀ waiter ∈ journal.waiters,
    journal.calls[waiter.call]? = some ⟨waiter.sequence, .waiting⟩

variable {journal : ExecutionDataJournal}

theorem of_getElem?_concat {α : Type} {l : List α} {a b : α} {i : Nat}
    (h : (l ++ [a])[i]? = some b) : l[i]? = some b ∨ i = l.length ∧ b = a := by
  rw [List.getElem?_append] at h
  split at h
  · exact .inl h
  · next hlt =>
    obtain ⟨hi, rfl⟩ := List.getElem?_eq_some_iff.mp h
    simp only [List.length_singleton] at hi
    refine .inr ⟨by omega, ?_⟩
    simp

/-! ## Calls -/

theorem getElem?_settleCalls {waiters : List CutWaiter} {state : CutState} {calls : List CutCall}
    {number : Nat} :
    (settleCalls waiters state calls)[number]? = calls[number]?.map fun call =>
      if waiters.any (fun waiter => waiter.call == number) then { call with state := state }
      else call := by
  rw [settleCalls, List.getElem?_mapIdx]

/-- With every waiter rejected no call waits. -/
theorem Contiguous.rejectAll (h : journal.Contiguous) (error : JournalError) :
    Contiguous { journal with
      calls := settleCalls journal.waiters (.rejected error) journal.calls
      waiters := [] } where
  received := h.received
  sequences := h.sequences
  buffered := h.buffered
  durable_le := h.durable_le
  written := h.written
  buffer := h.buffer
  cuts number call hcall := by
    simp only [getElem?_settleCalls, Option.map_eq_some_iff] at hcall
    obtain ⟨old, hold, rfl⟩ := hcall
    have hstands := h.cuts number old hold
    split
    · trivial
    · next hnone =>
      rw [CutStands] at hstands ⊢
      split at hstands
      · next hwaiting =>
        exact absurd (List.any_eq_true.mpr ⟨_, hstands, by simp⟩) hnone
      all_goals simp_all
  waiters _ hmem := nomatch hmem

theorem Contiguous.fail (h : journal.Contiguous) (error : JournalError) :
    (journal.fail error).Contiguous := by
  rw [ExecutionDataJournal.fail]
  split
  · exact h
  · have hall := h.rejectAll error
    exact ⟨hall.received, hall.sequences, hall.buffered, hall.durable_le, hall.written, hall.buffer,
      hall.cuts, hall.waiters⟩

/-! ## Flushing -/

theorem factsOf_append {executionId : ExecutionId} {first second : List ExecutionDataInput} :
    factsOf executionId (first ++ second) = factsOf executionId first ++ factsOf executionId second :=
  List.filterMap_append

/-- A flush that returns leaves everything durable, and nothing else changed. -/
structure Flushed (journal after : ExecutionDataJournal) : Prop where
  contiguous : after.Contiguous
  durable : after.durable = after.received
  received : after.received = journal.received
  taken : after.taken = journal.taken
  waiters : after.waiters = journal.waiters
  calls : after.calls = journal.calls
  sealed : after.sealed = journal.sealed
  failure : after.failure = none
  failed : journal.failure = none

/-- Everything is durable once the buffer is written. -/
theorem Contiguous.writeAll (h : journal.Contiguous) (durableWorkerSequence : Nat) :
    Contiguous { journal with
      timer := false
      written := journal.written ++ journal.buffer
      durableWorkerSequence := durableWorkerSequence
      buffer := []
      durable := journal.buffered } where
  received := h.received
  sequences := h.sequences
  buffered := h.buffered
  durable_le := Nat.le_of_eq h.buffered
  written := by
    simp only [h.written, h.buffer, ← factsOf_append, List.take_append_drop, h.buffered, h.received,
      List.take_length]
  buffer := by
    simp only [h.buffered, h.received, List.drop_length]
    rfl
  cuts number call hcall := by
    have hstands := h.cuts number call hcall
    rw [CutStands] at hstands ⊢
    split at hstands
    · next hstate => simpa [hstate] using hstands
    · next hstate => simpa [hstate] using hstands
    · next hstate =>
      simp only [h.buffered]
      have hle := h.durable_le
      omega
    · trivial
  waiters := h.waiters

theorem flush_ok (h : journal.Contiguous) {appends : Bool} {after : ExecutionDataJournal}
    (hflush : journal.flush appends = (.ok (), after)) : journal.Flushed after := by
  rw [flush] at hflush
  split at hflush
  · cases hflush
  · next hfailure =>
    simp only at hflush
    split at hflush
    · next hempty =>
      -- Without facts the cut alone moves.
      cases hflush
      have hall := h.writeAll journal.durableWorkerSequence
      rw [List.isEmpty_iff.mp hempty, List.append_nil] at hall
      rw [← List.isEmpty_iff.mp hempty] at hall
      exact ⟨hall, h.buffered, rfl, rfl, rfl, rfl, rfl, hfailure, hfailure⟩
    · split at hflush
      · cases hflush
        exact ⟨h.writeAll _, h.buffered, rfl, rfl, rfl, rfl, rfl, hfailure, hfailure⟩
      · cases hflush

/-- A flush that throws leaves a failed journal. -/
structure Thrown (journal after : ExecutionDataJournal) : Prop where
  contiguous : after.Contiguous
  failure : after.failure.isSome = true
  waiters : (journal.failure.isSome = true → journal.waiters = []) → after.waiters = []
  taken : after.taken = journal.taken
  sealed : after.sealed = journal.sealed
  length : after.calls.length = journal.calls.length
  kept : ∀ (number : Nat) (call : CutCall), journal.calls[number]? = some call → call.state ≠ .waiting →
    after.calls[number]? = some call

theorem Contiguous.of_timer (h : journal.Contiguous) (timer : Bool) :
    Contiguous { journal with timer := timer } :=
  ⟨h.received, h.sequences, h.buffered, h.durable_le, h.written, h.buffer, h.cuts, h.waiters⟩

theorem fail_thrown (h : journal.Contiguous) (error : JournalError) :
    journal.Thrown (journal.fail error) := by
  refine ⟨h.fail error, ?_, ?_, ?_, ?_, ?_, ?_⟩
  all_goals rw [ExecutionDataJournal.fail]
  · split
    · assumption
    · rfl
  · intro hquiet
    split
    · next hsome => exact hquiet hsome
    · rfl
  · split <;> rfl
  · split <;> rfl
  · split
    · rfl
    · simp [settleCalls]
  · intro number call hcall hstate
    split
    · exact hcall
    · simp only [getElem?_settleCalls, hcall, Option.map_some, Option.some.injEq]
      split
      · next hwaiter =>
        obtain ⟨waiter, hmem, heq⟩ := List.any_eq_true.mp hwaiter
        rw [← beq_iff_eq.mp heq, h.waiters waiter hmem] at hcall
        cases hcall
        exact absurd rfl hstate
      · rfl

theorem flush_error (h : journal.Contiguous) {appends : Bool} {after : ExecutionDataJournal}
    {error : JournalError} (hflush : journal.flush appends = (.error error, after)) :
    journal.Thrown after := by
  rw [flush] at hflush
  split at hflush
  · next failure hfailure =>
    cases hflush
    exact ⟨h, hfailure ▸ rfl, fun hquiet => hquiet (hfailure ▸ rfl), rfl, rfl, rfl,
      fun _ _ hcall _ => hcall⟩
  · simp only at hflush
    split at hflush
    · cases hflush
    · split at hflush
      · cases hflush
      · cases hflush
        have hthrown := fail_thrown (h.of_timer false) .append_failed
        exact ⟨hthrown.contiguous, hthrown.failure, hthrown.waiters, hthrown.taken, hthrown.sealed,
          hthrown.length, hthrown.kept⟩

/-! ## The invariant of runs -/

/-- The prefix law; every waiter waits for a later sequence, and none is left once nothing is
received any more. -/
structure Inv (journal : ExecutionDataJournal) : Prop extends Contiguous journal where
  later : ∀ waiter ∈ journal.waiters, journal.received < waiter.sequence
  quiet : journal.sealed = true ∨ journal.failure.isSome = true → journal.waiters = []

theorem Inv.of_flushed {after : ExecutionDataJournal} (h : journal.Inv)
    (hflush : journal.Flushed after) : after.Inv := by
  refine ⟨hflush.contiguous, ?_, fun hended => ?_⟩
  · rw [hflush.waiters, hflush.received]
    exact h.later
  · rw [hflush.waiters]
    rw [hflush.sealed, hflush.failure] at hended
    exact h.quiet (.inl (hended.resolve_right (by decide)))

theorem Thrown.inv {after : ExecutionDataJournal} (hthrown : journal.Thrown after)
    (hquiet : journal.failure.isSome = true → journal.waiters = []) : after.Inv := by
  have hnone := hthrown.waiters hquiet
  exact ⟨hthrown.contiguous, by simp [hnone], fun _ => hnone⟩

theorem Inv.of_thrown {after : ExecutionDataJournal} (h : journal.Inv)
    (hthrown : journal.Thrown after) : after.Inv :=
  hthrown.inv fun hfailed => h.quiet (.inr hfailed)

theorem inv_flush (h : journal.Inv) (appends : Bool) : (journal.flush appends).2.Inv := by
  cases hflush : journal.flush appends with
  | mk result after =>
    cases result with
    | ok u => exact h.of_flushed (flush_ok h.toContiguous hflush)
    | error error => exact h.of_thrown (flush_error h.toContiguous hflush)

/-! ## Receiving -/

/-- A message that fits is the next one, and its fact stands last. -/
theorem take_contiguous (h : journal.Contiguous) {input : ExecutionDataInput}
    (hfits : journal.fits input = true) : (journal.take input).Contiguous := by
  simp only [fits, Bool.and_eq_true, beq_iff_eq] at hfits
  have hle : journal.durable ≤ journal.taken.length := h.received ▸ h.durable_le
  refine ⟨?_, ?_, rfl, ?_, ?_, ?_, ?_, h.waiters⟩
  · simp [ExecutionDataJournal.take, h.received]
  · intro i other hother
    rcases of_getElem?_concat hother with hother | ⟨rfl, rfl⟩
    · exact h.sequences i other hother
    · rw [hfits.2, h.received]
      rfl
  · exact Nat.le_succ_of_le h.durable_le
  · simp only [ExecutionDataJournal.take, List.take_append_of_le_length hle]
    exact h.written
  · simp only [ExecutionDataJournal.take, List.drop_append_of_le_length hle, factsOf_append,
      h.buffer]
    cases hfact : workerObservationInput journal.executionId input.message <;>
      simp [factsOf, hfact]
  · intro number call hcall
    have hstands := h.cuts number call hcall
    rw [CutStands] at hstands ⊢
    split at hstands
    · exact hstands
    · exact Int.le_trans hstands (Int.ofNat_le.mpr (Nat.le_succ _))
    · exact hstands
    · trivial

/-- The waiters whose sequence is received leave the set with their calls. -/
theorem resolveWaiters_inv (h : journal.Contiguous)
    (hquiet : journal.sealed = true ∨ journal.failure.isSome = true → journal.waiters = []) :
    journal.resolveWaiters.Inv := by
  have hsplit : ∀ {number : Nat} {sequence : Int}, ⟨number, sequence⟩ ∈ journal.waiters →
      ((journal.waiters.filter fun waiter : CutWaiter =>
          decide (waiter.sequence ≤ (journal.received : Int))).any
        (fun waiter => waiter.call == number) = true ↔ sequence ≤ journal.received) := by
    intro number sequence hmem
    constructor
    · intro hany
      obtain ⟨waiter, hfilter, heq⟩ := List.any_eq_true.mp hany
      obtain ⟨hwaiter, hreached⟩ := List.mem_filter.mp hfilter
      have hcall := h.waiters waiter hwaiter
      rw [beq_iff_eq.mp heq, h.waiters _ hmem] at hcall
      cases hcall
      exact of_decide_eq_true hreached
    · intro hreached
      exact List.any_eq_true.mpr
        ⟨_, List.mem_filter.mpr ⟨hmem, decide_eq_true hreached⟩, by simp⟩
  refine ⟨⟨h.received, h.sequences, h.buffered, h.durable_le, h.written, h.buffer, ?_, ?_⟩, ?_, ?_⟩
  · intro number call hcall
    simp only [resolveWaiters, getElem?_settleCalls, Option.map_eq_some_iff] at hcall
    obtain ⟨old, hold, rfl⟩ := hcall
    have hstands := h.cuts number old hold
    split
    · next hany =>
      obtain ⟨waiter, hfilter, heq⟩ := List.any_eq_true.mp hany
      obtain ⟨hwaiter, hreached⟩ := List.mem_filter.mp hfilter
      rw [← beq_iff_eq.mp heq, h.waiters waiter hwaiter] at hold
      cases hold
      show waiter.sequence ≤ journal.received
      exact of_decide_eq_true hreached
    · next hnone =>
      rw [CutStands] at hstands ⊢
      split at hstands
      · refine List.mem_filter.mpr ⟨hstands, decide_eq_true fun hreached => hnone ?_⟩
        exact (hsplit hstands).mpr hreached
      · exact hstands
      · exact hstands
      · trivial
  · intro waiter hmem
    obtain ⟨hwaiter, hlater⟩ := List.mem_filter.mp hmem
    have hnot : ¬ (journal.waiters.filter fun waiter : CutWaiter =>
        decide (waiter.sequence ≤ (journal.received : Int))).any
          (fun other => other.call == waiter.call) = true := fun hany =>
      of_decide_eq_true hlater ((hsplit hwaiter).mp hany)
    simp only [resolveWaiters, getElem?_settleCalls, h.waiters waiter hwaiter, Option.map_some,
      if_neg hnot]
  · intro waiter hmem
    exact Int.not_le.mp (of_decide_eq_true (List.mem_filter.mp hmem).2)
  · intro hended
    simp [resolveWaiters, hquiet hended]

theorem inv_receive (h : journal.Inv) (input : ExecutionDataInput) (appends : Bool) :
    (journal.receive input appends).2.Inv := by
  rw [receive]
  split
  · exact h
  · next hopen =>
    split
    · exact h
    · next hfailure =>
      split
      · exact h.of_thrown (fail_thrown h.toContiguous _)
      · next hfits =>
        have hfits' : journal.fits input = true := by simpa using hfits
        have htaken := take_contiguous h.toContiguous hfits'
        have hnofail : (journal.take input).failure = none := hfailure
        simp only
        split
        · cases hflush : (journal.take input).flush appends with
          | mk result after =>
            cases result with
            | error error =>
              refine (flush_error htaken hflush).inv fun hfailed => ?_
              rw [hnofail] at hfailed
              cases hfailed
            | ok u =>
              have hflushed := flush_ok htaken hflush
              refine resolveWaiters_inv hflushed.contiguous fun hended => ?_
              rw [hflushed.sealed, hflushed.failure] at hended
              exact absurd (hended.resolve_right (by decide)) hopen
        · refine resolveWaiters_inv (htaken.of_timer _) fun hended => ?_
          simp only [ExecutionDataJournal.take, hfailure, Option.isSome_none, Bool.false_eq_true,
            or_false] at hended
          exact absurd hended hopen

/-! ## Cuts -/

theorem getElem?_setCall {number other : Nat} {state : CutState} :
    (journal.setCall number state).calls[other]? = (journal.calls[other]?).map fun call =>
      if number = other then { call with state := state } else call := by
  rw [ExecutionDataJournal.setCall, List.getElem?_modify]
  rfl

/-- A call that does not wait is in no waiter. -/
theorem Contiguous.setCall (h : journal.Contiguous) {number : Nat} {state : CutState}
    {call : CutCall} (hcall : journal.calls[number]? = some call) (hwaiting : call.state ≠ .waiting)
    (hstands : CutStands journal number { call with state := state }) :
    (journal.setCall number state).Contiguous := by
  refine ⟨h.received, h.sequences, h.buffered, h.durable_le, h.written, h.buffer, ?_, ?_⟩
  · intro other otherCall hother
    rw [getElem?_setCall, Option.map_eq_some_iff] at hother
    obtain ⟨old, hold, rfl⟩ := hother
    split
    · next heq =>
      subst heq
      cases hcall.symm.trans hold
      exact hstands
    · exact h.cuts other old hold
  · intro waiter hmem
    have hold := h.waiters waiter hmem
    have hne : number ≠ waiter.call := by
      rintro rfl
      cases hcall.symm.trans hold
      exact hwaiting rfl
    rw [getElem?_setCall, hold, Option.map_some, if_neg hne]

theorem Inv.setCall (h : journal.Inv) {number : Nat} {state : CutState} {call : CutCall}
    (hcall : journal.calls[number]? = some call) (hwaiting : call.state ≠ .waiting)
    (hstands : CutStands journal number { call with state := state }) :
    (journal.setCall number state).Inv :=
  ⟨h.toContiguous.setCall hcall hwaiting hstands, h.later, h.quiet⟩

/-- A call that flushes a received cut ends with the cut durable. -/
theorem inv_endCall (h : journal.Inv) {number : Nat} {call : CutCall} {appends : Bool}
    (hcall : journal.calls[number]? = some call) (hstate : call.state = .resumed) :
    (journal.endCall number appends).Inv := by
  have hreached : call.sequence ≤ journal.received := by
    have hstands := h.cuts number call hcall
    simpa [CutStands, hstate] using hstands
  rw [endCall]
  cases hflush : journal.flush appends with
  | mk result after =>
    cases result with
    | error error =>
      have hthrown := flush_error h.toContiguous hflush
      have hkept := hthrown.kept number call hcall (by rw [hstate]; decide)
      exact (h.of_thrown hthrown).setCall hkept (by rw [hstate]; decide) trivial
    | ok u =>
      have hflushed := flush_ok h.toContiguous hflush
      have hkept : after.calls[number]? = some call := hflushed.calls ▸ hcall
      refine (h.of_flushed hflushed).setCall hkept (by rw [hstate]; decide) ?_
      show call.sequence ≤ after.durable
      rw [hflushed.durable, hflushed.received]
      exact hreached

/-- A new call that does not wait. -/
theorem Inv.called (h : journal.Inv) {sequence : Int} {state : CutState}
    (hstands : CutStands journal journal.calls.length ⟨sequence, state⟩) :
    (journal.called sequence state).Inv := by
  refine ⟨⟨h.received, h.sequences, h.buffered, h.durable_le, h.written, h.buffer, ?_, ?_⟩,
    h.later, h.quiet⟩
  · intro number call hcall
    rcases of_getElem?_concat hcall with hcall | ⟨rfl, rfl⟩
    · exact h.cuts number call hcall
    · exact hstands
  · intro waiter hmem
    have hold := h.waiters waiter hmem
    rw [ExecutionDataJournal.called,
      List.getElem?_append_left (List.getElem?_eq_some_iff.mp hold).1]
    exact hold

/-- A new call that waits for a sequence that is not received. -/
theorem inv_wait (h : journal.Inv) {sequence : Int} (hlater : (journal.received : Int) < sequence)
    (hopen : ¬ (journal.sealed = true ∨ journal.failure.isSome = true)) :
    Inv { journal.called sequence .waiting with
      waiters := journal.waiters ++ [⟨journal.calls.length, sequence⟩] } := by
  refine ⟨⟨h.received, h.sequences, h.buffered, h.durable_le, h.written, h.buffer, ?_, ?_⟩, ?_,
    fun hended => absurd hended hopen⟩
  · intro number call hcall
    rcases of_getElem?_concat hcall with hcall | ⟨rfl, rfl⟩
    · have hstands := h.cuts number call hcall
      rw [CutStands] at hstands ⊢
      split at hstands
      · exact List.mem_append_left _ hstands
      all_goals exact hstands
    · exact List.mem_append_right _ List.mem_cons_self
  · intro waiter hmem
    rcases List.mem_append.mp hmem with hmem | hmem
    · have hold := h.waiters waiter hmem
      simp only [ExecutionDataJournal.called,
        List.getElem?_append_left (List.getElem?_eq_some_iff.mp hold).1, hold]
    · simp [List.mem_singleton.mp hmem, ExecutionDataJournal.called]
  · intro waiter hmem
    rcases List.mem_append.mp hmem with hmem | hmem
    · exact h.later waiter hmem
    · rw [List.mem_singleton.mp hmem]
      exact hlater

theorem inv_flushThrough (h : journal.Inv) (sequence : Int) (appends : Bool) :
    (journal.flushThrough sequence appends).Inv := by
  rw [flushThrough]
  split
  · exact h.called trivial
  · next hfailure =>
    split
    · next hlater =>
      split
      · exact h.called trivial
      · next hopen => exact inv_wait h hlater (by simp [hopen, hfailure])
    · next hreached =>
      have hstands : CutStands journal journal.calls.length ⟨sequence, .resumed⟩ :=
        Int.not_lt.mp hreached
      have hcalled : (journal.called sequence .resumed).Inv := h.called hstands
      exact inv_endCall hcalled List.getElem?_concat_length rfl

theorem inv_sealJournal (h : journal.Inv) (appends : Bool) :
    (journal.sealJournal appends).2.Inv := by
  have hsealed : Contiguous { journal with sealed := true } :=
    ⟨h.received, h.sequences, h.buffered, h.durable_le, h.written, h.buffer, h.cuts,
      h.toContiguous.waiters⟩
  rw [sealJournal]
  cases hflush : flush appends { journal with sealed := true } with
  | mk result after =>
    cases result with
    | error error =>
      exact (flush_error hsealed hflush).inv fun hfailed => h.quiet (.inr hfailed)
    | ok u =>
      have hflushed := flush_ok hsealed hflush
      exact ⟨hflushed.contiguous.rejectAll _, by simp, fun _ => rfl⟩

/-! ## Runs -/

theorem inv_appendControl (h : journal.Inv) (appends controls : Bool) :
    (journal.appendControl appends controls).2.Inv := by
  simp only [appendControl]
  split
  · exact inv_flush h appends
  · exact h

theorem inv_captureStageSnapshot (h : journal.Inv) (appends readable controls : Bool) :
    (journal.captureStageSnapshot appends readable controls).Inv := by
  rw [captureStageSnapshot]
  split
  · exact ⟨⟨h.received, h.sequences, h.buffered, h.durable_le, h.written, h.buffer, h.cuts,
      h.toContiguous.waiters⟩, h.later, h.quiet⟩
  · have hflushed := inv_flush h appends
    simp only
    split
    · exact inv_appendControl hflushed appends controls
    · exact hflushed

theorem inv_captureStageSnapshots (h : journal.Inv) (appends readable controls : Bool)
    (count : Nat) : (captureStageSnapshots appends readable controls count journal).Inv := by
  induction count generalizing journal with
  | zero => exact h
  | succ count ih => exact ih (inv_captureStageSnapshot h appends readable controls)

theorem inv_start (executionId : ExecutionId) (correlation : WorkerCorrelation) :
    (start executionId correlation).Inv where
  received := rfl
  sequences _ _ h := by simp [start] at h
  buffered := rfl
  durable_le := Nat.le_refl _
  written := rfl
  buffer := rfl
  cuts _ _ h := by simp [start] at h
  waiters _ h := by simp [start] at h
  later _ h := by simp [start] at h
  quiet _ := rfl

theorem inv_step (h : journal.Inv) {event : JournalEvent} {after : ExecutionDataJournal}
    (hstep : journal.step event = some after) : after.Inv := by
  cases event with
  | receive input appends =>
    cases hstep
    exact inv_receive h input appends
  | timer appends =>
    simp only [step] at hstep
    split at hstep
    · cases hstep
      exact inv_flush h appends
    · cases hstep
  | flush appends =>
    cases hstep
    exact inv_flush h appends
  | appendControl appends controls =>
    cases hstep
    exact inv_appendControl h appends controls
  | captureStageSnapshot appends readable controls =>
    cases hstep
    exact inv_captureStageSnapshot h appends readable controls
  | attachStageProbe correlation appends readable controls =>
    cases hstep
    simp only [attachStageProbe]
    split
    · exact h
    · have hattached : Inv { journal with
          stageProbe := true
          pendingStageSnapshots := 0 } :=
        ⟨⟨h.received, h.sequences, h.buffered, h.durable_le, h.written, h.buffer, h.cuts,
          h.toContiguous.waiters⟩, h.later, h.quiet⟩
      exact inv_captureStageSnapshots hattached appends readable controls _
  | flushThrough sequence appends =>
    cases hstep
    exact inv_flushThrough h sequence appends
  | resume number appends =>
    simp only [step] at hstep
    split at hstep
    · next hany =>
      cases hstep
      obtain ⟨call, hcall, hstate⟩ := (Option.any_eq_true _ _).mp hany
      exact inv_endCall h hcall (beq_iff_eq.mp hstate)
    · cases hstep
  | sealJournal appends =>
    cases hstep
    exact inv_sealJournal h appends

/-! ## Later states -/

/-- Nothing is received any more. -/
def Ended (journal : ExecutionDataJournal) : Prop :=
  journal.sealed = true ∨ journal.failure.isSome = true

/-- What every operation but a message leaves as it is: the messages, and every call and failure
that is there. -/
structure Keeps (error : JournalError) (before after : ExecutionDataJournal) : Prop where
  executionId : after.executionId = before.executionId
  correlation : after.correlation = before.correlation
  received : after.received = before.received
  taken : after.taken = before.taken
  calls : before.calls.map CutCall.sequence <+: after.calls.map CutCall.sequence
  sealed : before.sealed = true → after.sealed = true
  failure : after.failure = before.failure ∨ before.failure = none ∧ after.failure = some error

variable {middle after : ExecutionDataJournal} {error : JournalError}

theorem Keeps.refl (journal : ExecutionDataJournal) : journal.Keeps error journal :=
  ⟨rfl, rfl, rfl, rfl, List.prefix_rfl, id, .inl rfl⟩

theorem Keeps.trans (hfirst : journal.Keeps error middle) (hsecond : middle.Keeps error after) :
    journal.Keeps error after where
  executionId := hsecond.executionId.trans hfirst.executionId
  correlation := hsecond.correlation.trans hfirst.correlation
  received := hsecond.received.trans hfirst.received
  taken := hsecond.taken.trans hfirst.taken
  calls := hfirst.calls.trans hsecond.calls
  sealed hsealed := hsecond.sealed (hfirst.sealed hsealed)
  failure := by
    rcases hfirst.failure with hsame | ⟨hnone, hfailed⟩
    · rw [← hsame]
      exact hsecond.failure
    · rcases hsecond.failure with hsame | ⟨hnone', -⟩
      · exact .inr ⟨hnone, hsame.trans hfailed⟩
      · rw [hfailed] at hnone'
        cases hnone'

theorem Keeps.ended (h : journal.Keeps error after) (hended : journal.Ended) : after.Ended := by
  refine hended.imp h.sealed fun hfailed => ?_
  rcases h.failure with hsame | ⟨hnone, -⟩
  · rwa [hsame]
  · rw [hnone] at hfailed
    cases hfailed

theorem map_sequence_settleCalls {waiters : List CutWaiter} {state : CutState}
    {calls : List CutCall} :
    (settleCalls waiters state calls).map CutCall.sequence = calls.map CutCall.sequence := by
  apply List.ext_getElem?
  intro number
  simp only [List.getElem?_map, getElem?_settleCalls, Option.map_map]
  congr 1
  funext call
  simp only [Function.comp_apply]
  split <;> rfl

/-- A change of the calls that keeps their sequences. -/
theorem Keeps.of_calls {calls : List CutCall} {waiters : List CutWaiter}
    (hcalls : calls.map CutCall.sequence = journal.calls.map CutCall.sequence) :
    journal.Keeps error { journal with
      calls := calls
      waiters := waiters } :=
  ⟨rfl, rfl, rfl, rfl, hcalls ▸ List.prefix_rfl, id, .inl rfl⟩

theorem map_sequence_setCall {number : Nat} {state : CutState} :
    (journal.setCall number state).calls.map CutCall.sequence =
      journal.calls.map CutCall.sequence := by
  apply List.ext_getElem?
  intro other
  simp only [List.getElem?_map, getElem?_setCall, Option.map_map]
  congr 1
  funext call
  simp only [Function.comp_apply]
  split <;> rfl

theorem setCall_keeps (number : Nat) (state : CutState) :
    journal.Keeps error (journal.setCall number state) :=
  ⟨rfl, rfl, rfl, rfl, map_sequence_setCall ▸ List.prefix_rfl, id, .inl rfl⟩

theorem called_keeps (sequence : Int) (state : CutState) :
    journal.Keeps error (journal.called sequence state) :=
  ⟨rfl, rfl, rfl, rfl, by simp [ExecutionDataJournal.called], id, .inl rfl⟩

theorem fail_keeps (error : JournalError) : journal.Keeps error (journal.fail error) := by
  rw [ExecutionDataJournal.fail]
  split
  · exact .refl journal
  · next hfailure =>
    refine ⟨rfl, rfl, rfl, rfl, ?_, id, .inr ⟨by simpa using hfailure, rfl⟩⟩
    exact map_sequence_settleCalls ▸ List.prefix_rfl

theorem flush_keeps (appends : Bool) :
    journal.Keeps .append_failed (journal.flush appends).2 := by
  rw [flush]
  split
  · exact .refl journal
  · simp only
    split
    · exact ⟨rfl, rfl, rfl, rfl, List.prefix_rfl, id, .inl rfl⟩
    · split
      · exact ⟨rfl, rfl, rfl, rfl, List.prefix_rfl, id, .inl rfl⟩
      · have htimer : journal.Keeps .append_failed { journal with timer := false } :=
          ⟨rfl, rfl, rfl, rfl, List.prefix_rfl, id, .inl rfl⟩
        exact htimer.trans (fail_keeps .append_failed)

theorem appendControl_keeps (appends controls : Bool) :
    journal.Keeps .append_failed (journal.appendControl appends controls).2 := by
  simp only [appendControl]
  split
  · exact flush_keeps appends
  · exact .refl journal

theorem captureStageSnapshot_keeps (appends readable controls : Bool) :
    journal.Keeps .append_failed (journal.captureStageSnapshot appends readable controls) := by
  rw [captureStageSnapshot]
  split
  · exact ⟨rfl, rfl, rfl, rfl, List.prefix_rfl, id, .inl rfl⟩
  · simp only
    split
    · exact (flush_keeps appends).trans (appendControl_keeps appends controls)
    · exact flush_keeps appends

theorem captureStageSnapshots_keeps (appends readable controls : Bool) (count : Nat) :
    journal.Keeps .append_failed
      (captureStageSnapshots appends readable controls count journal) := by
  induction count generalizing journal with
  | zero => exact .refl journal
  | succ count ih => exact (captureStageSnapshot_keeps appends readable controls).trans ih

theorem endCall_keeps (number : Nat) (appends : Bool) :
    journal.Keeps .append_failed (journal.endCall number appends) := by
  have hflushed : journal.Keeps .append_failed (journal.flush appends).2 := flush_keeps appends
  rw [endCall]
  cases hflush : journal.flush appends with
  | mk result after =>
    rw [hflush] at hflushed
    cases result with
    | error error => exact hflushed.trans (setCall_keeps number _)
    | ok u => exact hflushed.trans (setCall_keeps number _)

theorem flushThrough_keeps (sequence : Int) (appends : Bool) :
    journal.Keeps .append_failed (journal.flushThrough sequence appends) := by
  rw [flushThrough]
  split
  · exact called_keeps sequence _
  · split
    · split
      · exact called_keeps sequence _
      · exact (called_keeps sequence .waiting).trans (.of_calls rfl)
    · exact (called_keeps sequence .resumed).trans (endCall_keeps _ appends)

theorem sealJournal_keeps (appends : Bool) :
    journal.Keeps .append_failed (journal.sealJournal appends).2 := by
  have hsealed : journal.Keeps .append_failed { journal with sealed := true } :=
    ⟨rfl, rfl, rfl, rfl, List.prefix_rfl, fun _ => rfl, .inl rfl⟩
  have hflushed := hsealed.trans (flush_keeps appends)
  rw [sealJournal]
  cases hflush : flush appends { journal with sealed := true } with
  | mk result after =>
    rw [hflush] at hflushed
    cases result with
    | error error => exact hflushed
    | ok u => exact hflushed.trans (.of_calls map_sequence_settleCalls)

/-- Every operation but a message keeps the messages. -/
theorem step_keeps {event : JournalEvent} (hstep : journal.step event = some after)
    (hreceive : ∀ input appends, event ≠ .receive input appends) :
    journal.Keeps .append_failed after := by
  cases event with
  | receive input appends => exact absurd rfl (hreceive input appends)
  | timer appends =>
    simp only [step] at hstep
    split at hstep
    · cases hstep
      exact flush_keeps appends
    · cases hstep
  | flush appends =>
    cases hstep
    exact flush_keeps appends
  | appendControl appends controls =>
    cases hstep
    exact appendControl_keeps appends controls
  | captureStageSnapshot appends readable controls =>
    cases hstep
    exact captureStageSnapshot_keeps appends readable controls
  | attachStageProbe correlation appends readable controls =>
    cases hstep
    simp only [attachStageProbe]
    split
    · exact .refl journal
    · have hattached : journal.Keeps .append_failed { journal with
          stageProbe := true
          pendingStageSnapshots := 0 } :=
        ⟨rfl, rfl, rfl, rfl, List.prefix_rfl, id, .inl rfl⟩
      exact hattached.trans (captureStageSnapshots_keeps appends readable controls _)
  | flushThrough sequence appends =>
    cases hstep
    exact flushThrough_keeps sequence appends
  | resume number appends =>
    simp only [step] at hstep
    split at hstep
    · cases hstep
      exact endCall_keeps number appends
    · cases hstep
  | sealJournal appends =>
    cases hstep
    exact sealJournal_keeps appends

/-- A later state of the journal: it drops no call, and takes no message once it ended. -/
structure Extends (before after : ExecutionDataJournal) : Prop where
  executionId : after.executionId = before.executionId
  calls : before.calls.map CutCall.sequence <+: after.calls.map CutCall.sequence
  ended : before.Ended → after.Ended
  taken : before.Ended → after.taken = before.taken

theorem Extends.refl (journal : ExecutionDataJournal) : journal.Extends journal :=
  ⟨rfl, List.prefix_rfl, id, fun _ => rfl⟩

theorem Extends.trans (hfirst : journal.Extends middle) (hsecond : middle.Extends after) :
    journal.Extends after where
  executionId := hsecond.executionId.trans hfirst.executionId
  calls := hfirst.calls.trans hsecond.calls
  ended hended := hsecond.ended (hfirst.ended hended)
  taken hended := (hsecond.taken (hfirst.ended hended)).trans (hfirst.taken hended)

theorem Keeps.extends (h : journal.Keeps error after) : journal.Extends after :=
  ⟨h.executionId, h.calls, h.ended, fun _ => h.taken⟩

theorem resolveWaiters_extends : journal.Extends journal.resolveWaiters :=
  ⟨rfl, map_sequence_settleCalls ▸ List.prefix_rfl, id, fun _ => rfl⟩

theorem take_extends (input : ExecutionDataInput) (hopen : ¬ journal.Ended) :
    journal.Extends (journal.take input) :=
  ⟨rfl, List.prefix_rfl, fun hended => absurd hended hopen, fun hended => absurd hended hopen⟩

theorem receive_extends (input : ExecutionDataInput) (appends : Bool) :
    journal.Extends (journal.receive input appends).2 := by
  rw [receive]
  split
  · exact .refl journal
  · next hopen =>
    split
    · exact .refl journal
    · next hfailure =>
      have htaken : journal.Extends (journal.take input) :=
        take_extends input (by simp [Ended, hopen, hfailure])
      split
      · exact (fail_keeps _).extends
      · simp only
        split
        · have hflushed := htaken.trans (flush_keeps appends).extends
          cases hflush : (journal.take input).flush appends with
          | mk result after =>
            rw [hflush] at hflushed
            cases result with
            | error error => exact hflushed
            | ok u => exact hflushed.trans resolveWaiters_extends
        · have htimer : journal.Extends { journal.take input with
              timer := (journal.take input).timer || !(journal.take input).buffer.isEmpty } :=
            htaken.trans ⟨rfl, List.prefix_rfl, id, fun _ => rfl⟩
          exact htimer.trans resolveWaiters_extends

theorem step_extends {event : JournalEvent} (hstep : journal.step event = some after) :
    journal.Extends after := by
  cases event with
  | receive input appends =>
    cases hstep
    exact receive_extends input appends
  | _ => exact (step_keeps hstep fun _ _ heq => nomatch heq).extends

theorem run_extends {events : List JournalEvent}
    (hrun : Runs.run step journal events = some after) : journal.Extends after :=
  Runs.run_keeps (P := journal.Extends) (fun hbefore hstep => hbefore.trans (step_extends hstep))
    (.refl journal) hrun

/-! ## The prefix law -/

/-- A call past its wait ends when it goes on: with its cut durable, or with the error of the
flush. -/
theorem resumed_ends (h : journal.Contiguous) {number : Nat} {call : CutCall}
    (hcall : journal.calls[number]? = some call) (hstate : call.state = .resumed)
    (appends : Bool) :
    ∃ after state, journal.step (.resume number appends) = some after ∧
      after.calls[number]? = some { call with state := state } ∧
        (state = .resolved ∨ ∃ error, state = .rejected error) := by
  have henabled : journal.step (.resume number appends) = some (journal.endCall number appends) := by
    simp [step, hcall, hstate]
  have hwaiting : call.state ≠ .waiting := by
    rw [hstate]
    decide
  refine ⟨journal.endCall number appends, ?_⟩
  simp only [henabled, endCall, true_and]
  cases hflush : journal.flush appends with
  | mk result after =>
    cases result with
    | error error =>
      have hkept := (flush_error h hflush).kept number call hcall hwaiting
      exact ⟨.rejected error, by simp [getElem?_setCall, hkept], .inr ⟨error, rfl⟩⟩
    | ok u =>
      have hkept : after.calls[number]? = some call := (flush_ok h hflush).calls ▸ hcall
      exact ⟨.resolved, by simp [getElem?_setCall, hkept], .inl rfl⟩

/-- A cut that is received is durable at once, where the append goes through. -/
theorem flushThrough_resolves {sequence : Int} (hfailure : journal.failure = none)
    (hreached : sequence ≤ journal.received) :
    (journal.flushThrough sequence true).calls[journal.calls.length]? =
      some ⟨sequence, .resolved⟩ := by
  have hflush : ∃ after, (journal.called sequence .resumed).flush true = (.ok (), after) ∧
      after.calls = journal.calls ++ [⟨sequence, .resumed⟩] := by
    simp only [flush, ExecutionDataJournal.called, hfailure]
    split <;> exact ⟨_, rfl, rfl⟩
  obtain ⟨after, hflush, hcalls⟩ := hflush
  simp [flushThrough, hfailure, Int.not_lt.mpr hreached, endCall, hflush, getElem?_setCall, hcalls]

/-- A message that fits is taken by a journal that did not end, and only its append can fail. -/
theorem receive_next {input : ExecutionDataInput} (hopen : journal.sealed = false)
    (hfailure : journal.failure = none) (hfits : journal.fits input = true) (appends : Bool) :
    (journal.receive input appends).2.received = journal.received + 1 ∧
      (journal.take input).Keeps .append_failed (journal.receive input appends).2 := by
  have htaken : (journal.take input).received = journal.received + 1 := rfl
  have hkeeps : (journal.take input).Keeps .append_failed (journal.receive input appends).2 := by
    simp only [receive, hopen, hfailure, hfits, Bool.false_eq_true, if_false, Bool.not_true]
    split
    · have hflushed : (journal.take input).Keeps .append_failed
          ((journal.take input).flush appends).2 := flush_keeps appends
      cases hflush : (journal.take input).flush appends with
      | mk result after =>
        rw [hflush] at hflushed
        cases result with
        | error error => exact hflushed
        | ok u => exact hflushed.trans (.of_calls map_sequence_settleCalls)
    · have htimer : (journal.take input).Keeps .append_failed { journal.take input with
          timer := (journal.take input).timer || !(journal.take input).buffer.isEmpty } :=
        ⟨rfl, rfl, rfl, rfl, List.prefix_rfl, id, .inl rfl⟩
      exact htimer.trans (.of_calls map_sequence_settleCalls)
  exact ⟨hkeeps.received.trans htaken, hkeeps⟩

/-- A journal that ended stays as it is. -/
theorem receive_ended (hended : journal.Ended) (input : ExecutionDataInput) (appends : Bool) :
    (journal.receive input appends).2 = journal := by
  rw [receive]
  split
  · rfl
  · next hopen =>
    split
    · rfl
    · next hfailure => exact absurd hended (by simp [Ended, hopen, hfailure])

/-- What the writer has, what the counters say and where the calls stand. -/
structure PrefixLaw (executionId : ExecutionId) (journal : ExecutionDataJournal) : Prop where
  /-- The messages taken carry the sequences from one on. -/
  sequences : ∀ i input, journal.taken[i]? = some input → input.sequence = ((i + 1 : Nat) : Int)
  received : journal.taken.length = journal.received
  buffered : journal.buffered = journal.received
  durable_le : journal.durable ≤ journal.received
  written : journal.written = factsOf executionId (journal.taken.take journal.durable)
  resolved : ∀ call ∈ journal.calls, call.state = .resolved → call.sequence ≤ journal.durable
  /-- A call waits in the set, for a later sequence, and only while more can be received. -/
  waiting : ∀ number call, journal.calls[number]? = some call → call.state = .waiting →
    ⟨number, call.sequence⟩ ∈ journal.waiters ∧ (journal.received : Int) < call.sequence ∧
      ¬ journal.Ended
  resumed : ∀ number call appends, journal.calls[number]? = some call → call.state = .resumed →
    ∃ after state, journal.step (.resume number appends) = some after ∧
      after.calls[number]? = some { call with state := state } ∧
        (state = .resolved ∨ ∃ error, state = .rejected error)

theorem Inv.prefixLaw (h : journal.Inv) : journal.PrefixLaw journal.executionId where
  sequences := h.sequences
  received := h.received.symm
  buffered := h.buffered
  durable_le := h.durable_le
  written := h.written
  resolved call hmem hstate := by
    obtain ⟨number, hcall⟩ := List.mem_iff_getElem?.mp hmem
    simpa [CutStands, hstate] using h.cuts number call hcall
  waiting number call hcall hstate := by
    have hwaiter : ⟨number, call.sequence⟩ ∈ journal.waiters := by
      simpa [CutStands, hstate] using h.cuts number call hcall
    refine ⟨hwaiter, h.later _ hwaiter, fun hended => ?_⟩
    rw [h.quiet hended] at hwaiter
    cases hwaiter
  resumed number call appends hcall hstate := resumed_ends h.toContiguous hcall hstate appends

/-- Once the journal ended no message is accepted. -/
theorem ended_refuses (hended : journal.Ended) (input : ExecutionDataInput) (appends : Bool) :
    (journal.receive input appends).1 ≠ .ok .accepted := by
  rw [receive]
  split
  · simp
  · next hopen =>
    split
    · simp
    · next hfailure => exact absurd hended (by simp [Ended, hopen, hfailure])

end ExecutionDataJournal

/-- A cut of the second message: the two messages are one append of one fact, the call ends
resolved and the seal leaves nothing behind. -/
def twoMessages : List JournalEvent :=
  let correlation : WorkerCorrelation := ⟨"session", "instance", "generation", 0, "command"⟩
  let message (kind : WorkerMessageKind) : WorkerToHostMessage :=
    ⟨kind, some correlation, none, [], false, .null⟩
  [.flushThrough 2 true, .receive ⟨"execution", 1, message .checkpoint_proposal⟩ true,
    .receive ⟨"execution", 2, message .commit_proposal⟩ true, .resume 0 true, .sealJournal true]

end Henji.DataPort
