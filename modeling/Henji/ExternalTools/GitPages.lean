import Henji.ExternalTools.GitInspect

/-!
# Following the pages of an inspection

A page is cut out of the captured lines. Where the capture holds the whole output, the offsets of the
pages add up the limits, and the last page is the one that reaches the end; where the capture is cut
off, every page claims that there is more.

Results:
1. `readBounded_spec`: the capture is the front of the output, however it arrives.
2. `covers_of_limits`: when the pages cover the lines.
3. `conditions_of_finished`: what a finished paging tells about its output.
-/

namespace Henji.GitInspect

/-! ## The capture -/

/-- The capture is the front of the output, however it arrives. -/
theorem readBounded_spec (stream : List (List UInt8)) (maxBytes : Nat) :
    readBounded stream maxBytes =
      ⟨stream.flatten.take maxBytes, decide (maxBytes < stream.flatten.length)⟩ := by
  have hstep : ∀ seen chunk : List UInt8,
      readChunk maxBytes ⟨seen.take maxBytes, decide (maxBytes < seen.length)⟩ chunk =
        ⟨(seen ++ chunk).take maxBytes, decide (maxBytes < (seen ++ chunk).length)⟩ := by
    intro seen chunk
    unfold readChunk
    dsimp only
    rw [List.take_append, List.length_append, List.length_take]
    split
    · next hlong =>
      rw [show maxBytes - min maxBytes seen.length = maxBytes - seen.length from by omega,
        decide_eq_true (show maxBytes < seen.length + chunk.length from by omega)]
    · next hshort =>
      have hrest : chunk.take (maxBytes - seen.length) = chunk :=
        List.take_of_length_le (by omega)
      rw [hrest]
      refine congrArg _ (decide_eq_decide.mpr ?_)
      omega
  have hfold : ∀ (stream : List (List UInt8)) seen, stream.foldl (readChunk maxBytes)
      ⟨seen.take maxBytes, decide (maxBytes < seen.length)⟩ =
        ⟨(seen ++ stream.flatten).take maxBytes,
          decide (maxBytes < (seen ++ stream.flatten).length)⟩ := by
    intro stream
    induction stream with
    | nil =>
      intro seen
      rw [List.flatten_nil, List.append_nil]
      rfl
    | cons chunk stream ih =>
      intro seen
      rw [List.foldl_cons, hstep, ih, List.flatten_cons, List.append_assoc]
  have hwhole := hfold stream []
  rw [List.nil_append, List.take_nil] at hwhole
  exact hwhole

/-- The lines that a call cuts its window from. -/
def capturedLines (output : List UInt8) : List JsText :=
  splitLines (decode (output.take MAX_CAPTURE_BYTES))

/-! ## One call -/

section Call

variable {op : Operation} {process : Process} {offset limit : Nat}

theorem integer_of_le {value minimum maximum : Nat} {name : String} (hmin : minimum ≤ value)
    (hmax : value ≤ maximum) : integer value name minimum maximum = .ok value := by
  unfold integer
  rw [if_neg (by omega)]
  rfl

theorem parseArguments_ok (hop : op ≠ .log) (hoffset : offset ≤ MAX_OFFSET) (hlimit : 1 ≤ limit)
    (hmax : limit ≤ MAX_LINE_LIMIT) :
    parseArguments op (some offset) (some limit) = .ok ⟨op, offset, limit⟩ := by
  unfold parseArguments
  dsimp only
  rw [integer_of_le (Nat.zero_le _) hoffset]
  cases op with
  | log => exact absurd rfl hop
  | status | diff | «show» =>
    dsimp only [bind, Except.bind]
    rw [integer_of_le hlimit hmax]
    rfl

theorem parseArguments_refuses (hoffset : MAX_OFFSET < offset) :
    parseArguments op (some offset) (some limit) = .error (integerError "offset" 0 MAX_OFFSET) := by
  have hinteger : integer offset "offset" 0 MAX_OFFSET =
      .error (integerError "offset" 0 MAX_OFFSET) := by
    unfold integer
    rw [if_pos (by omega)]
  unfold parseArguments
  dsimp only
  rw [hinteger]
  rfl

/-- What a page tells about the lines from its offset on. -/
structure Window (output : List UInt8) (start count : Nat) (page : InspectPayload) : Prop where
  offset : page.offset = start
  text : page.text = joinLines (((capturedLines output).drop start).take count)
  hasMore : page.hasMore = true ↔
    start + count < (capturedLines output).length ∨ MAX_CAPTURE_BYTES < output.length
  nextOffset : page.nextOffset =
    if page.hasMore then some (min (start + count) (capturedLines output).length) else none

theorem window_payloadFor (hop : op ≠ .log)
    (hoffset : offset ≤ (capturedLines process.stdout.flatten).length) :
    Window process.stdout.flatten offset limit (payloadFor ⟨op, offset, limit⟩ (runGit process)) := by
  have hstdout : (runGit process).stdout = ⟨process.stdout.flatten.take MAX_CAPTURE_BYTES,
      decide (MAX_CAPTURE_BYTES < process.stdout.flatten.length)⟩ :=
    readBounded_spec _ _
  have hlines : splitLines (decode (runGit process).stdout.bytes) =
      capturedLines process.stdout.flatten := by
    rw [hstdout]
    rfl
  have htruncated : (runGit process).stdout.truncated =
      decide (MAX_CAPTURE_BYTES < process.stdout.flatten.length) := by
    rw [hstdout]
  unfold payloadFor
  dsimp only
  rw [if_neg hop, hlines, htruncated, Nat.min_eq_left hoffset]
  have hnext : offset + (((capturedLines process.stdout.flatten).drop offset).take limit).length =
      min (offset + limit) (capturedLines process.stdout.flatten).length := by
    rw [List.length_take, List.length_drop]
    omega
  refine ⟨rfl, rfl, ?_, ?_⟩
  · dsimp only
    rw [decide_eq_true_iff, hnext, decide_eq_true_iff]
    omega
  · dsimp only
    rw [hnext]
    simp only [decide_eq_true_eq]

theorem execute_ok (hop : op ≠ .log) (hoffset : offset ≤ MAX_OFFSET)
    (hlines : offset ≤ (capturedLines process.stdout.flatten).length) (hlimit : 1 ≤ limit)
    (hmax : limit ≤ MAX_LINE_LIMIT) : ∃ page, execute op offset limit process = .ok page ∧
      Window process.stdout.flatten offset limit page := by
  refine ⟨payloadFor ⟨op, offset, limit⟩ (runGit process), ?_, window_payloadFor hop hlines⟩
  unfold execute
  rw [parseArguments_ok hop hoffset hlimit hmax]
  rfl

theorem execute_refuses (hoffset : MAX_OFFSET < offset) :
    execute op offset limit process = .error (integerError "offset" 0 MAX_OFFSET) := by
  unfold execute
  rw [parseArguments_refuses hoffset]
  rfl

end Call

/-! ## Following -/

/-- The offset of a page where every page is full. -/
def total (limits : Nat → Nat) : Nat → Nat
  | 0 => 0
  | n + 1 => total limits n + limits n

theorem total_mono (limits : Nat → Nat) {m n : Nat} (h : m ≤ n) :
    total limits m ≤ total limits n := by
  induction h with
  | refl => exact Nat.le_refl _
  | step _ ih => exact Nat.le_trans ih (Nat.le_add_right _ _)

/-- The pages are the lines in order, cut into parts, and only the last has nothing behind it. -/
structure Complete (lines : List JsText) (pages : List InspectPayload) (parts : List (List JsText)) :
    Prop where
  whole : parts.flatten = lines
  texts : pages.map (·.text) = parts.map joinLines
  increasing : (pages.map (·.offset)).Pairwise (· < ·)
  last : ∃ front page, pages = front ++ [page] ∧ page.hasMore = false ∧
    ∀ earlier ∈ front, earlier.hasMore = true

section Follow

variable {op : Operation} {process : Nat → Process} {limits : Nat → Nat} {output : List UInt8}

/-- With a capture that is cut off, every page claims that there is more. -/
theorem never_finishes (hop : op ≠ .log) (houtput : ∀ i, (process i).stdout.flatten = output)
    (hlimits : ∀ i, 1 ≤ limits i ∧ limits i ≤ MAX_LINE_LIMIT)
    (hlong : MAX_CAPTURE_BYTES < output.length) (calls index offset : Nat)
    (hoffset : offset ≤ (capturedLines output).length) :
    (follow op process limits calls index offset).2 ≠ .finished := by
  induction calls generalizing index offset with
  | zero => exact fun h => by cases h
  | succ calls ih =>
    unfold follow
    rcases Nat.lt_or_ge MAX_OFFSET offset with hrefused | hallowed
    · rw [execute_refuses hrefused]
      exact fun h => by cases h
    · obtain ⟨page, hpage, hwindow⟩ := execute_ok hop hallowed ((houtput index).symm ▸ hoffset)
        (hlimits index).1 (hlimits index).2
      rw [houtput] at hwindow
      have hmore : page.hasMore = true := hwindow.hasMore.mpr (.inr hlong)
      rw [hpage]
      dsimp only
      rw [hwindow.nextOffset, hmore, if_pos rfl]
      exact ih _ _ (Nat.min_le_right _ _)

/-- What a finished paging tells about its output. -/
theorem conditions_of_finished (hop : op ≠ .log) (houtput : ∀ i, (process i).stdout.flatten = output)
    (hlimits : ∀ i, 1 ≤ limits i ∧ limits i ≤ MAX_LINE_LIMIT) {calls index : Nat}
    (hindex : total limits index ≤ (capturedLines output).length)
    (h : (follow op process limits calls index (total limits index)).2 = .finished) :
    output.length ≤ MAX_CAPTURE_BYTES ∧ ∀ n, index ≤ n →
      total limits n < (capturedLines output).length → total limits n ≤ MAX_OFFSET := by
  have hshort : output.length ≤ MAX_CAPTURE_BYTES := Nat.le_of_not_lt fun hlong =>
    never_finishes hop houtput hlimits hlong calls index _ hindex h
  refine ⟨hshort, ?_⟩
  induction calls generalizing index with
  | zero => cases h
  | succ calls ih =>
    unfold follow at h
    rcases Nat.lt_or_ge MAX_OFFSET (total limits index) with hrefused | hallowed
    · rw [execute_refuses hrefused] at h
      cases h
    · obtain ⟨page, hpage, hwindow⟩ := execute_ok hop hallowed ((houtput index).symm ▸ hindex)
        (hlimits index).1 (hlimits index).2
      rw [houtput] at hwindow
      rw [hpage] at h
      dsimp only at h
      rw [hwindow.nextOffset] at h
      intro n hn hless
      rcases Nat.eq_or_lt_of_le hn with rfl | hlater
      · exact hallowed
      cases hmore : page.hasMore with
      | true =>
        have hnext : total limits (index + 1) < (capturedLines output).length :=
          (hwindow.hasMore.mp hmore).resolve_right (Nat.not_lt.mpr hshort)
        have hmin : min (total limits index + limits index) (capturedLines output).length =
            total limits (index + 1) := Nat.min_eq_left (Nat.le_of_lt hnext)
        rw [hmore, if_pos rfl, hmin] at h
        exact ih (Nat.le_of_lt hnext) h n hlater hless
      | false =>
        have hnot := mt hwindow.hasMore.mpr (by rw [hmore]; exact Bool.false_ne_true)
        rw [not_or] at hnot
        exact absurd (Nat.lt_of_le_of_lt (total_mono limits hlater) hless) hnot.1

/-- The pages from an offset on. -/
theorem covers_from (hop : op ≠ .log) (houtput : ∀ i, (process i).stdout.flatten = output)
    (hlimits : ∀ i, 1 ≤ limits i ∧ limits i ≤ MAX_LINE_LIMIT)
    (hshort : output.length ≤ MAX_CAPTURE_BYTES)
    (hoffsets : ∀ n, total limits n < (capturedLines output).length → total limits n ≤ MAX_OFFSET)
    (index : Nat) (hindex : total limits index < (capturedLines output).length ∨ index = 0) :
    ∃ calls pages parts, follow op process limits calls index (total limits index) =
        (pages, .finished) ∧
      Complete ((capturedLines output).drop (total limits index)) pages parts ∧
      ∀ page ∈ pages, total limits index ≤ page.offset := by
  induction hleft : (capturedLines output).length - total limits index using Nat.strongRecOn
    generalizing index with
  | ind left ih =>
    have hle : total limits index ≤ (capturedLines output).length := by
      rcases hindex with hless | rfl
      · exact Nat.le_of_lt hless
      · exact Nat.zero_le _
    have hallowed : total limits index ≤ MAX_OFFSET := by
      rcases hindex with hless | rfl
      · exact hoffsets index hless
      · exact Nat.zero_le _
    obtain ⟨page, hpage, hwindow⟩ := execute_ok hop hallowed ((houtput index).symm ▸ hle)
      (hlimits index).1 (hlimits index).2
    rw [houtput] at hwindow
    cases hmore : page.hasMore with
    | true =>
      have hnext : total limits (index + 1) < (capturedLines output).length :=
        (hwindow.hasMore.mp hmore).resolve_right (Nat.not_lt.mpr hshort)
      have hgrows : total limits index < total limits (index + 1) :=
        Nat.lt_add_of_pos_right (hlimits index).1
      obtain ⟨calls, pages, parts, hfollow, hcomplete, hbehind⟩ :=
        ih _ (by omega) (index + 1) (.inl hnext) rfl
      refine ⟨calls + 1, page :: pages,
        ((capturedLines output).drop (total limits index)).take (limits index) :: parts,
        ?_, ⟨?_, ?_, ?_, ?_⟩, ?_⟩
      · have hmin : min (total limits index + limits index) (capturedLines output).length =
            total limits (index + 1) := Nat.min_eq_left (Nat.le_of_lt hnext)
        unfold follow
        rw [hpage]
        dsimp only
        rw [hwindow.nextOffset, hmore, if_pos rfl, hmin]
        dsimp only
        rw [hfollow]
      · rw [List.flatten_cons, hcomplete.whole, total, ← List.drop_drop, List.take_append_drop]
      · rw [List.map_cons, List.map_cons, hcomplete.texts, hwindow.text]
      · rw [List.map_cons, List.pairwise_cons]
        refine ⟨fun offset hmem => ?_, hcomplete.increasing⟩
        obtain ⟨later, hlater, rfl⟩ := List.mem_map.mp hmem
        rw [hwindow.offset]
        exact Nat.lt_of_lt_of_le hgrows (hbehind later hlater)
      · obtain ⟨front, last, rfl, hlast, hfront⟩ := hcomplete.last
        exact ⟨page :: front, last, rfl, hlast, List.forall_mem_cons.mpr ⟨hmore, hfront⟩⟩
      · refine List.forall_mem_cons.mpr ⟨Nat.le_of_eq hwindow.offset.symm, fun later hlater => ?_⟩
        exact Nat.le_trans (Nat.le_of_lt hgrows) (hbehind later hlater)
    | false =>
      have hnot := mt hwindow.hasMore.mpr (by rw [hmore]; exact Bool.false_ne_true)
      rw [not_or] at hnot
      refine ⟨1, [page], [(capturedLines output).drop (total limits index)], ?_, ⟨?_, ?_, ?_, ?_⟩, ?_⟩
      · unfold follow
        rw [hpage]
        dsimp only
        rw [hmore]
      · rw [List.flatten_singleton]
      · have hall : ((capturedLines output).drop (total limits index)).take (limits index) =
            (capturedLines output).drop (total limits index) :=
          List.take_of_length_le (by rw [List.length_drop]; omega)
        rw [List.map_singleton, List.map_singleton, hwindow.text, hall]
      · exact List.pairwise_singleton _ _
      · exact ⟨[], page, rfl, hmore, fun _ h => by cases h⟩
      · exact List.forall_mem_singleton.mpr (Nat.le_of_eq hwindow.offset.symm)

/-- Following `nextOffset` ends with the captured lines read exactly once if and only if the output
fits the capture and no page starts past the largest offset that the tool accepts. -/
theorem paging_covers_iff (op : Operation) (output : List UInt8) (process : Nat → Process)
    (limits : Nat → Nat) (hop : op ≠ .log) (houtput : ∀ i, (process i).stdout.flatten = output)
    (hlimits : ∀ i, 1 ≤ limits i ∧ limits i ≤ MAX_LINE_LIMIT) :
    (∃ calls pages parts, follow op process limits calls 0 0 = (pages, .finished) ∧
      Complete (capturedLines output) pages parts) ↔
    output.length ≤ MAX_CAPTURE_BYTES ∧
      ∀ n, total limits n < (capturedLines output).length → total limits n ≤ MAX_OFFSET := by
  constructor
  · rintro ⟨calls, pages, parts, hfollow, -⟩
    have hfinished : (follow op process limits calls 0 (total limits 0)).2 = .finished :=
      congrArg Prod.snd hfollow
    obtain ⟨hshort, hoffsets⟩ :=
      conditions_of_finished hop houtput hlimits (Nat.zero_le _) hfinished
    exact ⟨hshort, fun n hless => hoffsets n (Nat.zero_le n) hless⟩
  · rintro ⟨hshort, hoffsets⟩
    obtain ⟨calls, pages, parts, hfollow, hcomplete, -⟩ :=
      covers_from hop houtput hlimits hshort hoffsets 0 (.inr rfl)
    exact ⟨calls, pages, parts, hfollow, hcomplete⟩

def exampleProcess (output : List UInt8) : Nat → Process := fun _ => ⟨[output], [], some 0⟩

theorem paging_of_example :
    (∃ calls pages parts, follow .status (exampleProcess [0x61]) (fun _ => 200) calls 0 0 =
        (pages, .finished) ∧ Complete (capturedLines [0x61]) pages parts) ↔
    [0x61].length ≤ MAX_CAPTURE_BYTES ∧ ∀ n, total (fun _ => 200) n < (capturedLines [0x61]).length →
      total (fun _ => 200) n ≤ MAX_OFFSET :=
  paging_covers_iff .status [0x61] (exampleProcess [0x61]) (fun _ => 200) (by decide)
    (fun _ => rfl) (fun _ => by decide)

/-- One byte more than the capture holds, and the paging does not end. -/
theorem paging_of_long_output :
    ¬ ∃ calls pages parts, follow .diff
        (exampleProcess (List.replicate (MAX_CAPTURE_BYTES + 1) 0x61)) (fun _ => 200) calls 0 0 =
          (pages, .finished) ∧
      Complete (capturedLines (List.replicate (MAX_CAPTURE_BYTES + 1) 0x61)) pages parts := by
  rintro ⟨calls, pages, parts, hfollow, -⟩
  have hlong : MAX_CAPTURE_BYTES < (List.replicate (MAX_CAPTURE_BYTES + 1) (0x61 : UInt8)).length := by
    rw [List.length_replicate]
    exact Nat.lt_succ_self _
  exact never_finishes (by decide) (fun _ => List.flatten_singleton) (fun _ => by decide) hlong calls
    0 0 (Nat.zero_le _) (congrArg Prod.snd hfollow)

end Follow

end Henji.GitInspect
