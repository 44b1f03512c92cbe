import Henji.Api.SessionStream

/-!
# The chunks of a session stream

The frames that a client yields depend only on the bytes, not on their cuts: what has been scanned
holds no separator, except one that begins in its last three characters.

Results:
1. `takeFrames_append`: more text does not change the frames that were taken.
2. `sessionSubscribe_eq`: the cuts between chunks do not matter.
-/

namespace Henji.SessionStream

open JsonShape

/-! ## Separators -/

theorem breakAt_append {text : JsText} (h : 2 ≤ text.length) (after : JsText) :
    breakAt (text ++ after) = breakAt text := by
  match text, h with
  | a :: b :: text, _ =>
    unfold breakAt
    split
    · next heq =>
      cases heq
      rfl
    · next heq =>
      cases heq
      rfl
    · next hone htwo =>
      split
      · next heq =>
        cases heq
        exact absurd rfl (hone _)
      · next heq =>
        cases heq
        exact absurd rfl (htwo _)
      · rfl

theorem breakAt_some_append {text : JsText} {length : Nat} (h : breakAt text = some length)
    (after : JsText) : breakAt (text ++ after) = some length := by
  unfold breakAt at h
  split at h <;> cases h <;> rfl

theorem separatorAt_append {text : JsText} (h : 4 ≤ text.length) (after : JsText) :
    separatorAt (text ++ after) = separatorAt text := by
  unfold separatorAt
  rw [breakAt_append (by omega)]
  cases hfirst : breakAt text with
  | none => rfl
  | some first =>
    have hbounds := breakAt_bounds hfirst
    dsimp only
    rw [List.drop_append_of_le_length hbounds.2.2, breakAt_append]
    rw [List.length_drop]
    omega

theorem separatorAt_some_append {text : JsText} {length : Nat} (h : separatorAt text = some length)
    (after : JsText) : separatorAt (text ++ after) = some length := by
  unfold separatorAt at h ⊢
  cases hfirst : breakAt text with
  | none =>
    rw [hfirst] at h
    cases h
  | some first =>
    rw [hfirst] at h
    obtain ⟨second, hsecond, rfl⟩ := Option.map_eq_some_iff.mp h
    rw [breakAt_some_append hfirst]
    dsimp only
    rw [List.drop_append_of_le_length (breakAt_bounds hfirst).2.2, breakAt_some_append hsecond]
    rfl

theorem searchFrom_two {a b : UInt16} {start : Nat} {found : Nat × Nat}
    (h : searchFrom [a, b] start = some found) : a = 0x0a ∧ b = 0x0a := by
  unfold searchFrom at h
  cases hhere : separatorAt [a, b] with
  | none =>
    rw [hhere] at h
    obtain ⟨index, length⟩ := found
    have hbounds := searchFrom_bounds h
    simp only [List.length_cons, List.length_nil] at hbounds
    omega
  | some length =>
    unfold separatorAt at hhere
    split at hhere
    · cases hhere
    · next first hfirst =>
      obtain ⟨second, hsecond, -⟩ := Option.map_eq_some_iff.mp hhere
      unfold breakAt at hfirst
      split at hfirst
      · next heq =>
        cases heq
        cases hfirst
        refine ⟨rfl, ?_⟩
        change breakAt [b] = some second at hsecond
        unfold breakAt at hsecond
        split at hsecond
        · next heq =>
          cases heq
          rfl
        · next heq => cases heq
        · cases hsecond
      · next heq =>
        cases heq
        cases hfirst
        cases hsecond
      · cases hfirst

theorem separatorAt_two {u : UInt16} (h : separatorAt [u, 0x0a, 0x0a] = none) (after : JsText) :
    separatorAt (u :: ([0x0a, 0x0a] ++ after)) = none := by
  have hfeed : u ≠ 0x0a := by
    rintro rfl
    cases h
  have hreturn : u ≠ 0x0d := by
    rintro rfl
    cases h
  have hnone : breakAt (u :: ([0x0a, 0x0a] ++ after)) = none := by
    unfold breakAt
    split
    · next heq =>
      cases heq
      exact absurd rfl hfeed
    · next heq =>
      cases heq
      exact absurd rfl hreturn
    · rfl
  unfold separatorAt
  rw [hnone]

/-- A separator that was found stays the first one. -/
theorem searchFrom_append {text : JsText} {start : Nat} {found : Nat × Nat}
    (h : searchFrom text start = some found) (after : JsText) :
    searchFrom (text ++ after) start = some found := by
  induction text generalizing start with
  | nil => cases h
  | cons u text ih =>
    rw [List.cons_append]
    unfold searchFrom at h ⊢
    cases hhere : separatorAt (u :: text) with
    | some length =>
      have hafter := separatorAt_some_append hhere after
      rw [List.cons_append] at hafter
      rw [hhere] at h
      rw [hafter]
      exact h
    | none =>
      rw [hhere] at h
      have hnone : separatorAt (u :: (text ++ after)) = none := by
        obtain ⟨index, length⟩ := found
        have hbounds := searchFrom_bounds h
        by_cases hlong : 4 ≤ (u :: text).length
        · rw [← List.cons_append, separatorAt_append hlong]
          exact hhere
        · -- Only the separator of two line feeds fits behind the unit.
          rw [List.length_cons] at hlong
          obtain _ | ⟨a, _ | ⟨b, _ | ⟨c, rest⟩⟩⟩ := text
          · simp only [List.length_nil] at hbounds
            omega
          · simp only [List.length_cons, List.length_nil] at hbounds
            omega
          · obtain ⟨rfl, rfl⟩ := searchFrom_two h
            exact separatorAt_two hhere after
          · simp only [List.length_cons] at hlong
            omega
      rw [hnone]
      exact ih h

theorem searchFrom_resume {text : JsText} {start : Nat} (h : searchFrom text start = none)
    (after : JsText) {count : Nat} (hcount : count ≤ text.length - 3) :
    searchFrom (text ++ after) start = searchFrom ((text ++ after).drop count) (start + count) := by
  induction text generalizing start count with
  | nil =>
    obtain rfl := Nat.le_zero.mp hcount
    rfl
  | cons u text ih =>
    cases count with
    | zero => rfl
    | succ count =>
      rw [List.length_cons] at hcount
      unfold searchFrom at h
      split at h
      · cases h
      · next hhere =>
        have hnone : separatorAt (u :: (text ++ after)) = none := by
          rw [← List.cons_append, separatorAt_append (by rw [List.length_cons]; omega)]
          exact hhere
        rw [List.cons_append, searchFrom, hnone, List.drop_succ_cons]
        dsimp only
        have hrest := @ih (start + 1) h count (by omega)
        rw [hrest, Nat.add_assoc, Nat.add_comm 1]

/-- A unit of neither kind of line break. -/
def IsClean (text : JsText) : Prop := ∀ u ∈ text, 0x20 ≤ u

theorem breakAt_clean {u : UInt16} (h : 0x20 ≤ u) (text : JsText) : breakAt (u :: text) = none := by
  unfold breakAt
  split
  · next heq =>
    cases heq
    revert h
    decide
  · next heq =>
    cases heq
    revert h
    decide
  · rfl

theorem searchFrom_clean {text : JsText} (h : IsClean text) (after : JsText) (start : Nat) :
    searchFrom (text ++ after) start = searchFrom after (start + text.length) := by
  induction text generalizing start with
  | nil => rfl
  | cons u text ih =>
    obtain ⟨hu, htext⟩ := List.forall_mem_cons.mp h
    have hnone : separatorAt (u :: (text ++ after)) = none := by
      unfold separatorAt
      rw [breakAt_clean hu]
    rw [List.cons_append, searchFrom, hnone]
    dsimp only
    rw [ih htext, List.length_cons, Nat.add_right_comm, Nat.add_assoc]

/-! ## Taking frames -/

section Client

variable {φ : Type} {parse : JsText → Option Json} {decode : Json → Option φ}

theorem takeFrames_none {buffered : JsText} {lastIndex : Nat}
    (h : execSeparator buffered lastIndex = none) :
    takeFrames parse decode buffered lastIndex = ([], some buffered) := by
  rw [takeFrames]
  split
  · rfl
  · next hfound =>
    rw [h] at hfound
    cases hfound

theorem takeFrames_refused {buffered : JsText} {lastIndex index length : Nat}
    (h : execSeparator buffered lastIndex = some (index, length))
    (hframe : parseFrame parse decode (buffered.take index) = .error ()) :
    takeFrames parse decode buffered lastIndex = ([], none) := by
  rw [takeFrames]
  split
  · next hfound =>
    rw [h] at hfound
    cases hfound
  · next hfound =>
    rw [h] at hfound
    cases hfound
    rw [hframe]

theorem takeFrames_taken {buffered : JsText} {lastIndex index length : Nat}
    (h : execSeparator buffered lastIndex = some (index, length)) {frame : Option φ}
    (hframe : parseFrame parse decode (buffered.take index) = .ok frame) :
    takeFrames parse decode buffered lastIndex =
      (frame.toList ++ (takeFrames parse decode (buffered.drop (index + length)) 0).1,
        (takeFrames parse decode (buffered.drop (index + length)) 0).2) := by
  rw [takeFrames]
  split
  · next hfound =>
    rw [h] at hfound
    cases hfound
  · next hfound =>
    rw [h] at hfound
    cases hfound
    rw [hframe]

/-- A separator lies in the text that is searched. -/
theorem execSeparator_bounds {buffered : JsText} {index length : Nat}
    (h : execSeparator buffered 0 = some (index, length)) :
    index + length ≤ buffered.length ∧ 2 ≤ length := by
  obtain ⟨-, hend, hlength⟩ := searchFrom_bounds h
  rw [List.drop_zero, Nat.zero_add] at hend
  exact ⟨hend, hlength⟩

/-- More text does not change the frames that were taken. -/
theorem takeFrames_append (buffered after : JsText) :
    (∃ frames rest, takeFrames parse decode buffered 0 = (frames, some rest) ∧
      execSeparator rest 0 = none ∧
      takeFrames parse decode (buffered ++ after) 0 =
        (frames ++ (takeFrames parse decode (rest ++ after) 0).1,
          (takeFrames parse decode (rest ++ after) 0).2)) ∨
    ∃ frames, takeFrames parse decode buffered 0 = (frames, none) ∧
      takeFrames parse decode (buffered ++ after) 0 = (frames, none) := by
  cases hfound : execSeparator buffered 0 with
  | none =>
    exact .inl ⟨[], buffered, takeFrames_none hfound, hfound, rfl⟩
  | some found =>
    obtain ⟨index, length⟩ := found
    obtain ⟨hend, hlength⟩ := execSeparator_bounds hfound
    have hfoundAfter : execSeparator (buffered ++ after) 0 = some (index, length) :=
      searchFrom_append hfound after
    have htake : (buffered ++ after).take index = buffered.take index :=
      List.take_append_of_le_length (by omega)
    have hdrop : (buffered ++ after).drop (index + length) = buffered.drop (index + length) ++ after :=
      List.drop_append_of_le_length hend
    cases hframe : parseFrame parse decode (buffered.take index) with
    | error _ =>
      exact .inr ⟨[], takeFrames_refused hfound hframe,
        takeFrames_refused hfoundAfter (htake ▸ hframe)⟩
    | ok frame =>
      have hwhole := takeFrames_taken hfound hframe
      have hwholeAfter := takeFrames_taken hfoundAfter (htake ▸ hframe)
      rw [hdrop] at hwholeAfter
      rcases takeFrames_append (buffered.drop (index + length)) after with
        ⟨frames, rest, htaken, hrest, htakenAfter⟩ | ⟨frames, htaken, htakenAfter⟩
      · refine .inl ⟨frame.toList ++ frames, rest, ?_, hrest, ?_⟩
        · rw [hwhole, htaken]
        · rw [hwholeAfter, htakenAfter, List.append_assoc]
      · refine .inr ⟨frame.toList ++ frames, ?_, ?_⟩
        · rw [hwhole, htaken]
        · rw [hwholeAfter, htakenAfter]
termination_by buffered.length
decreasing_by
  rw [List.length_drop]
  omega

/-- A search may begin three characters before the new text. -/
theorem takeFrames_resume {rest : JsText} (h : execSeparator rest 0 = none) (after : JsText) :
    takeFrames parse decode (rest ++ after) (rest.length - 3) =
      takeFrames parse decode (rest ++ after) 0 := by
  have hsearch : execSeparator (rest ++ after) (rest.length - 3) = execSeparator (rest ++ after) 0 := by
    have hresume := searchFrom_resume h after (Nat.le_refl (rest.length - 3))
    rw [Nat.zero_add] at hresume
    exact hresume.symm
  cases hfound : execSeparator (rest ++ after) 0 with
  | none => rw [takeFrames_none (hsearch.trans hfound), takeFrames_none hfound]
  | some found =>
    obtain ⟨index, length⟩ := found
    cases hframe : parseFrame parse decode ((rest ++ after).take index) with
    | error _ =>
      rw [takeFrames_refused (hsearch.trans hfound) hframe, takeFrames_refused hfound hframe]
    | ok frame =>
      rw [takeFrames_taken (hsearch.trans hfound) hframe, takeFrames_taken hfound hframe]

/-! ## Chunks -/

/-- The end of a stream, from the frames that were taken. -/
def settle (parse : JsText → Option Json) (decode : Json → Option φ) :
    List φ × Option JsText → List φ × StreamEnd
  | (frames, none) => (frames, .threw)
  | (frames, some rest) =>
    match parseFrame parse decode rest with
    | .error _ => (frames, .threw)
    | .ok frame => (frames ++ frame.toList, .ended)

theorem settle_append (frames : List φ) (taken : List φ × Option JsText) :
    settle parse decode (frames ++ taken.1, taken.2) =
      (frames ++ (settle parse decode taken).1, (settle parse decode taken).2) := by
  obtain ⟨others, rest⟩ := taken
  cases rest with
  | none => rfl
  | some rest =>
    unfold settle
    dsimp only
    cases parseFrame parse decode rest with
    | error _ => rfl
    | ok frame =>
      dsimp only
      rw [List.append_assoc]

/-- What a client gets for a text that is known at once. -/
def subscribeText (parse : JsText → Option Json) (decode : Json → Option φ) (text flushed : JsText) :
    BodyEnd → List φ × StreamEnd
  | .failed => ((takeFrames parse decode text 0).1, .threw)
  | .done => settle parse decode (takeFrames parse decode (text ++ flushed) 0)

/-- More text does not change what a client has got. -/
theorem subscribeText_append (buffered after flushed : JsText) (ending : BodyEnd) :
    (∃ frames rest, takeFrames parse decode buffered 0 = (frames, some rest) ∧
      execSeparator rest 0 = none ∧
      subscribeText parse decode (buffered ++ after) flushed ending =
        (frames ++ (subscribeText parse decode (rest ++ after) flushed ending).1,
          (subscribeText parse decode (rest ++ after) flushed ending).2)) ∨
    ∃ frames, takeFrames parse decode buffered 0 = (frames, none) ∧
      subscribeText parse decode (buffered ++ after) flushed ending = (frames, .threw) := by
  cases ending with
  | failed =>
    rcases takeFrames_append buffered after with
      ⟨frames, rest, htaken, hrest, hafter⟩ | ⟨frames, htaken, hafter⟩
    · refine .inl ⟨frames, rest, htaken, hrest, ?_⟩
      unfold subscribeText
      rw [hafter]
    · refine .inr ⟨frames, htaken, ?_⟩
      unfold subscribeText
      rw [hafter]
  | done =>
    rcases takeFrames_append buffered (after ++ flushed) with
      ⟨frames, rest, htaken, hrest, hafter⟩ | ⟨frames, htaken, hafter⟩
    · refine .inl ⟨frames, rest, htaken, hrest, ?_⟩
      unfold subscribeText
      rw [List.append_assoc, List.append_assoc, hafter, settle_append]
    · refine .inr ⟨frames, htaken, ?_⟩
      unfold subscribeText
      rw [List.append_assoc, hafter]
      rfl

/-- The cuts between chunks do not matter. -/
theorem sessionSubscribe_eq (ending : BodyEnd) (chunks : List (List UInt8)) (decoder : TextDecoder)
    {buffered : JsText} (h : execSeparator buffered 0 = none) :
    sessionSubscribe parse decode ending chunks decoder buffered (buffered.length - 3) =
      subscribeText parse decode (buffered ++ (decoder.decode chunks.flatten).1)
        (decoder.decode chunks.flatten).2.finish ending := by
  induction chunks generalizing decoder buffered with
  | nil =>
    have hempty : decoder.decode [].flatten = ([], decoder) := rfl
    rw [hempty, List.append_nil]
    cases ending with
    | failed =>
      unfold sessionSubscribe subscribeText
      rw [takeFrames_none h]
    | done =>
      unfold sessionSubscribe subscribeText
      rw [takeFrames_resume h]
      dsimp only
      cases htaken : takeFrames parse decode (buffered ++ decoder.finish) 0 with
      | mk frames rest => cases rest <;> rfl
  | cons value chunks ih =>
    have hdecode : decoder.decode (value :: chunks).flatten =
        ((decoder.decode value).1 ++ ((decoder.decode value).2.decode chunks.flatten).1,
          ((decoder.decode value).2.decode chunks.flatten).2) := by
      unfold TextDecoder.decode
      rw [List.flatten_cons, Mealy.run_append]
      dsimp only
      rw [List.flatMap_append]
    rw [hdecode]
    unfold sessionSubscribe
    dsimp only
    rw [takeFrames_resume h, ← List.append_assoc]
    rcases subscribeText_append (buffered ++ (decoder.decode value).1)
        ((decoder.decode value).2.decode chunks.flatten).1
        ((decoder.decode value).2.decode chunks.flatten).2.finish ending with
      ⟨frames, rest, htaken, hrest, hafter⟩ | ⟨frames, htaken, hafter⟩
    · rw [htaken, hafter]
      dsimp only
      rw [ih (decoder.decode value).2 hrest]
    · rw [htaken, hafter]

end Client

end Henji.SessionStream
