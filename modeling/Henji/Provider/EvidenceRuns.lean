import Henji.Provider.EvidenceLaw

/-!
# Facts of undisturbed runs

Where every report of a run is about the request that was started last, the facts of the run are those
of their own requests. Two requests that are open together break it: the answer to the first is given
to the second, and the failure of the first is given to it or dropped.
-/

namespace Henji

namespace ProviderEvidence

theorem undisturbed_law {initial : Nat} {events : List EvidenceEvent} {s : EvidenceState}
    (hrun : Runs.run EvidenceState.step (EvidenceState.initial initial) events = some s)
    (hundisturbed : Runs.Throughout EvidenceState.step Undisturbed (EvidenceState.initial initial)
      events) : EvidenceLaw initial s := by
  refine Runs.run_keeps_throughout (P := EvidenceLaw initial) ?_ (EvidenceLaw.initial initial)
    hundisturbed hrun
  intro s t event law hcondition hstep
  exact law.change (step_change law hcondition hstep)

theorem countP_pos_of_failed {ordinal : Nat} {history : List Fact} (h : .failed ordinal ∈ history) :
    0 < history.countP (Fact.isFailed ordinal) :=
  List.countP_pos_iff.mpr ⟨.failed ordinal, h, by simp [Fact.isFailed]⟩

theorem failed_of_countP_pos {ordinal : Nat} {history : List Fact}
    (h : 0 < history.countP (Fact.isFailed ordinal)) : .failed ordinal ∈ history := by
  obtain ⟨fact, hmem, hfailed⟩ := List.countP_pos_iff.mp h
  cases fact with
  | failed found =>
    have hsame : found = ordinal := by simpa [Fact.isFailed] using hfailed
    exact hsame ▸ hmem
  | _ => exact absurd hfailed (by simp [Fact.isFailed])

/-- In every run in which what is reported is about the request started last:
* the requests are numbered from the initial ordinal on, in start order;
* every observation about a request names the request of the call that makes it;
* a request has at most one response;
* a request has one failure where its call ended in an error, and none otherwise, also where a model
  call was cancelled;
* the result of a step and the events of its tools name the last request of the step. -/
theorem facts_of_own_requests {initial : Nat} {events : List EvidenceEvent} {s : EvidenceState}
    (hrun : Runs.run EvidenceState.step (EvidenceState.initial initial) events = some s)
    (hundisturbed : Runs.Throughout EvidenceState.step Undisturbed (EvidenceState.initial initial)
      events) :
    (∃ count, s.history.reverse.filterMap Fact.startedOrdinal = List.range' (initial + 1) count) ∧
    (∀ cause observation, .reported cause observation ∈ s.history →
      ∃ ordinal, cause = some ordinal ∧ observation.requestOrdinal = some ordinal) ∧
    (∀ ordinal, s.history.countP (Fact.isResponse ordinal) ≤ 1) ∧
    (∀ ordinal, s.history.countP (Fact.isFailure ordinal) =
      if .failed ordinal ∈ s.history then 1 else 0) ∧
    (∀ ordinal, .cancelled ordinal ∈ s.history → .failed ordinal ∉ s.history) ∧
    (∀ kind attribution, .runtime kind attribution ∈ s.history → kind ≠ .assistant_progress →
      ∃ ordinal, attribution.requestOrdinal = some ordinal ∧
        lastModelRequest attribution.modelStep s.history = some ordinal) := by
  have law := undisturbed_law hrun hundisturbed
  refine ⟨?_, law.attributed, law.responses, ?_, ?_, ?_⟩
  · obtain ⟨count, _, hstarted⟩ := law.started
    exact ⟨count, by rw [List.filterMap_reverse, hstarted, List.reverse_reverse]⟩
  · intro ordinal
    rw [law.failures ordinal]
    have honce := law.failedOnce ordinal
    by_cases hfailed : .failed ordinal ∈ s.history
    · have hpositive := countP_pos_of_failed hfailed
      rw [if_pos hfailed]
      omega
    · rw [if_neg hfailed]
      by_contra hne
      exact hfailed (failed_of_countP_pos (Nat.pos_of_ne_zero hne))
  · intro ordinal hcancelled hfailed
    have hnone := (law.cancelled ordinal hcancelled).1
    have hpositive := countP_pos_of_failed hfailed
    omega
  · intro kind attribution hmem hkind
    exact (law.results kind attribution hmem hkind).2.2

/-- A step with a retried request, a tool with a request of its own, and a second step. -/
def toolRun : List EvidenceEvent :=
  [.generate .chat none, .modelStart "chat" "POST" [], .modelAnswer 500, .modelRetry,
    .modelStart "chat" "POST" [], .modelAnswer 200, .modelUsage none, .modelReturn false,
    .toolEvent .tool_call 0, .auxiliary 1 ⟨.user_turn, 1, "search", "POST", []⟩, .auxiliaryStart 1,
    .auxiliaryAnswer 1 200, .auxiliaryRead 1, .toolEvent .tool_result 0]

/-- The tool's result names the request of the model, not that of the tool. -/
theorem facts_of_toolRun :
    ∃ s, Runs.run EvidenceState.step (EvidenceState.initial 0) toolRun = some s ∧
      lastModelRequest 1 s.history = some 2 := by
  obtain ⟨s, hrun, hmem⟩ : ∃ s, Runs.run EvidenceState.step (EvidenceState.initial 0) toolRun = some s ∧
      .runtime (.tool .tool_result 0) ⟨1, some .parent, some 2⟩ ∈ s.history :=
    Runs.exists_run (by decide +kernel)
  have hfacts := facts_of_own_requests hrun (by decide +kernel)
  obtain ⟨ordinal, hordinal, hrequest⟩ := hfacts.2.2.2.2.2 _ _ hmem (by simp)
  exact ⟨s, hrun, by rw [hrequest, ← hordinal]⟩

/-- Two requests that a tool has open together. The answer to the first is given to the second, which
then has two. In the second run the first fails, in a step that the second is not of, and its failure
is dropped. -/
theorem open_together :
    (∃ s, Runs.run EvidenceState.step (EvidenceState.initial 0)
        [.auxiliary 1 ⟨.user_turn, 1, "search", "POST", []⟩,
          .auxiliary 2 ⟨.user_turn, 1, "search", "POST", []⟩, .auxiliaryStart 1, .auxiliaryStart 2,
          .auxiliaryAnswer 1 200, .auxiliaryAnswer 2 404] = some s ∧
      .reported (some 1) (.response_start 2 200) ∈ s.history ∧
      s.history.countP (Fact.isResponse 2) = 2) ∧
    ∃ s, Runs.run EvidenceState.step (EvidenceState.initial 0)
        [.hook 1 "hook" "POST" [], .auxiliary 2 ⟨.user_turn, 1, "search", "POST", []⟩,
          .auxiliaryStart 1, .auxiliaryStart 2,
          .auxiliaryFail 1 ⟨"transport", "transport_error", none, none⟩] = some s ∧
      .failed 1 ∈ s.history ∧ s.history.countP (Fact.isFailure 1) = 0 :=
  ⟨Runs.exists_run (by decide +kernel), Runs.exists_run (by decide +kernel)⟩

end ProviderEvidence

end Henji
