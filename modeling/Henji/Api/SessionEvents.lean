import Henji.Api.SessionStreamLaw
import Mathlib.Tactic.IntervalCases

/-!
# What a client of the session stream gets

The text of the stream is the lines of its frames, and the JSON of a frame has no line breaks, so the
separators are those between frames. A cut leaves a front of the next line, perhaps with the mark of
a cut character, and of the fronts of its JSON only the whole is accepted.

Results:
1. `Frame.bytes_eq`: the bytes of a frame are its printed value.
2. `front_of_stream`: what a client gets of a cut stream.
3. `session_events_arrive`: the frames of a whole stream, and of a cut one.
-/

namespace Henji.SessionStream

open JsonShape

/-! ## The bytes of a frame -/

theorem withoutLast_append (text : JsText) (u : UInt16) : withoutLast (text ++ [u]) = text := by
  unfold withoutLast
  rw [List.length_append, List.length_singleton, Nat.add_sub_cancel, List.take_left]

theorem joined_concat {parts : List JsText} (h : parts ≠ []) (part : JsText) :
    ((parts ++ [part]).intersperse comma).flatten =
      (parts.intersperse comma).flatten ++ comma ++ part := by
  induction parts with
  | nil => exact absurd rfl h
  | cons first parts ih =>
    cases parts with
    | nil => simp
    | cons second parts =>
      have hrest := ih (List.cons_ne_nil second parts)
      simp only [List.cons_append, List.intersperse_cons_cons, List.flatten_cons] at hrest ⊢
      rw [hrest]
      simp only [List.append_assoc]

theorem stringifyFields_append (first second : List (JsText × Json)) :
    stringifyFields (first ++ second) = stringifyFields first ++ stringifyFields second := by
  induction first with
  | nil => rfl
  | cons field first ih =>
    rw [List.cons_append, stringifyFields, stringifyFields, ih]
    rfl

theorem stringifyFields_ne_nil {fields : List (JsText × Json)} (h : fields ≠ []) :
    stringifyFields fields ≠ [] := by
  cases fields with
  | nil => exact absurd rfl h
  | cons field fields =>
    rw [stringifyFields]
    exact List.cons_ne_nil _ _

/-- One more field behind the others. -/
theorem stringify_concat {fields : List (JsText × Json)} (h : fields ≠ []) (key : JsText)
    (value : Json) : stringify (.obj (fields ++ [(key, value)])) =
      withoutLast (stringify (.obj fields)) ++ (comma ++ quote key ++ [0x3a]) ++ stringify value ++
        [0x7d] := by
  have hone : stringifyFields [(key, value)] = [quote key ++ 0x3a :: stringify value] := by
    rw [stringifyFields, stringifyFields]
  rw [stringify, stringify, stringifyFields_append, hone, bracketed, bracketed,
    joined_concat (stringifyFields_ne_nil h), withoutLast_append]
  simp only [List.append_assoc, List.cons_append, List.nil_append]

theorem numbersPrintedFields_append (first second : List (JsText × Json)) :
    numbersPrintedFields (first ++ second) =
      (numbersPrintedFields first && numbersPrintedFields second) := by
  induction first with
  | nil => rfl
  | cons field first ih =>
    rw [List.cons_append, numbersPrintedFields, numbersPrintedFields, ih, Bool.and_assoc]

theorem printed_withoutLast {fields : List (JsText × Json)}
    (h : numbersPrintedFields fields = true) : Printed (withoutLast (stringify (.obj fields))) := by
  rw [stringify, bracketed, withoutLast_append]
  exact printed_append (printed_printable (by decide) : Printed [0x7b])
    (printed_joined (printed_fields fields h))

theorem encodedEnvelope_eq {head payload : JsText} (hhead : Printed head) (hpayload : Printed payload)
    (tail : JsText) :
    encodedEnvelope head (encodeUtf8 payload) tail = encodeUtf8 (head ++ payload ++ tail) := by
  unfold encodedEnvelope
  rw [encodeUtf8_append (printed_append hhead hpayload).wellFormed,
    encodeUtf8_append hhead.wellFormed]

/-- The bytes of a frame are its printed value. -/
theorem Frame.bytes_eq {frame : Frame} (h : numbersPrinted frame.value = true) :
    frame.bytes = encodeUtf8 (stringify frame.value) := by
  cases frame with
  | snapshot control conversation =>
    have hfields : numbersPrintedFields (control.list ++ [(js "conversation", conversation)]) = true := by
      simpa [Frame.value, numbersPrinted, numbersPrintedFields] using h
    rw [numbersPrintedFields_append, Bool.and_eq_true] at hfields
    obtain ⟨hcontrol, hconversation⟩ := hfields
    rw [numbersPrintedFields, Bool.and_eq_true] at hconversation
    have hhead : Printed (js "\x7b\"kind\":\"session.snapshot\",\"snapshot\":" ++
        withoutLast (stringify (.obj control.list)) ++ js ",\"conversation\":") :=
      printed_append (printed_append (printed_ascii (by decide)) (printed_withoutLast hcontrol))
        (printed_ascii (by decide))
    have hpieces : stringify (Frame.snapshot control conversation).value =
        js "\x7b\"kind\":\"session.snapshot\",\"snapshot\":" ++
          stringify (.obj (control.list ++ [(js "conversation", conversation)])) ++ [0x7d] := by
      have hopening : js "\x7b\"kind\":\"session.snapshot\",\"snapshot\":" =
          0x7b :: (quote (js "kind") ++ 0x3a :: quote (js "session.snapshot") ++ comma ++
            (quote (js "snapshot") ++ [0x3a])) := by
        decide
      rw [hopening]
      simp only [Frame.value, stringify, stringifyFields, bracketed, List.intersperse_cons_cons,
        List.intersperse_singleton, List.flatten_cons, List.flatten_nil, List.append_nil,
        List.append_assoc, List.cons_append, List.nil_append]
    have hseparator : js ",\"conversation\":" = comma ++ quote (js "conversation") ++ [0x3a] := by
      decide
    have htail : js "\x7d\x7d" = [0x7d] ++ [0x7d] := by decide
    show encodedEnvelope _ (encodeUtf8 (stringify conversation)) _ = _
    rw [encodedEnvelope_eq hhead (printed_stringify conversation hconversation.1), hpieces,
      stringify_concat control.nonempty, hseparator, htail]
    simp only [List.append_assoc]
  | update cursor previousRevision changes delta =>
    cases delta with
    | none =>
      have hnone : (Frame.update cursor previousRevision changes none).value =
          .obj (updateFields cursor previousRevision changes) :=
        congrArg Json.obj (List.append_nil _)
      rw [hnone]
      rfl
    | some delta =>
      have hvalue : (Frame.update cursor previousRevision changes (some delta)).value =
          .obj (updateFields cursor previousRevision changes ++ [(js "conversationDelta", delta)]) :=
        rfl
      rw [hvalue] at h ⊢
      rw [numbersPrinted, numbersPrintedFields_append, Bool.and_eq_true] at h
      obtain ⟨hsmall, hdelta⟩ := h
      rw [numbersPrintedFields, Bool.and_eq_true] at hdelta
      have hseparator : js ",\"conversationDelta\":" =
          comma ++ quote (js "conversationDelta") ++ [0x3a] := by
        decide
      have htail : js "\x7d" = [0x7d] := by decide
      have hsome : updateFields cursor previousRevision changes ≠ [] := List.cons_ne_nil _ _
      have hhead : Printed (withoutLast (stringify (.obj (updateFields cursor previousRevision
          changes))) ++ js ",\"conversationDelta\":") :=
        printed_append (printed_withoutLast hsmall) (printed_ascii (by decide))
      show encodedEnvelope _ (encodeUtf8 (stringify delta)) _ = _
      rw [encodedEnvelope_eq hhead (printed_stringify delta hdelta.1),
        stringify_concat hsome, hseparator, htail]

/-! ## The text of the stream -/

/-- The text of an encoded frame. -/
def line (frame : Frame) : JsText := js "data: " ++ stringify frame.value ++ js "\n\n"

theorem wellFormed_feeds : hasWellFormedUnicode (js "\n\n") = true := by decide

theorem wellFormed_line {frame : Frame} (h : numbersPrinted frame.value = true) :
    hasWellFormedUnicode (line frame) = true :=
  hasWellFormedUnicode_append (printed_append (printed_ascii (by decide) : Printed (js "data: "))
    (printed_stringify _ h)).wellFormed wellFormed_feeds

theorem sseFrame_eq {frame : Frame} (h : numbersPrinted frame.value = true) :
    sseFrame frame.bytes = encodeUtf8 (line frame) := by
  have hhead : Printed (js "data: ") := printed_ascii (by decide)
  unfold sseFrame
  rw [Frame.bytes_eq h, encodedEnvelope_eq hhead (printed_stringify _ h)]
  rfl

theorem stream_eq {frames : List Frame} (h : ∀ frame ∈ frames, numbersPrinted frame.value = true) :
    frames.flatMap (fun frame => sseFrame frame.bytes) = encodeUtf8 (frames.flatMap line) ∧
      hasWellFormedUnicode (frames.flatMap line) = true := by
  induction frames with
  | nil => exact ⟨rfl, rfl⟩
  | cons frame frames ih =>
    obtain ⟨hframe, hframes⟩ := List.forall_mem_cons.mp h
    obtain ⟨hbytes, hwell⟩ := ih hframes
    rw [List.flatMap_cons, List.flatMap_cons, sseFrame_eq hframe, hbytes,
      encodeUtf8_append (wellFormed_line hframe)]
    exact ⟨rfl, hasWellFormedUnicode_append (wellFormed_line hframe) hwell⟩

/-! ## Lines -/

theorem isClean_data {text : JsText} (h : Printed text) : IsClean (js "data: " ++ text) :=
  List.forall_mem_append.mpr ⟨(printed_ascii (by decide) : Printed (js "data: ")).visible, h.visible⟩

theorem splitLines_cons {u : UInt16} (hu : 0x20 ≤ u) {text line : JsText} {lines : List JsText}
    (h : splitLines text = line :: lines) : splitLines (u :: text) = (u :: line) :: lines := by
  have hfeed : u ≠ 0x0a := by
    rintro rfl
    exact absurd hu (by decide)
  have hreturn : u ≠ 0x0d := by
    rintro rfl
    exact absurd hu (by decide)
  rw [splitLines, h]
  · exact hfeed
  · exact fun _ heq _ => hreturn heq

theorem splitLines_clean {text : JsText} (h : IsClean text) : splitLines text = [text] := by
  induction text with
  | nil => rfl
  | cons u text ih =>
    obtain ⟨hu, htext⟩ := List.forall_mem_cons.mp h
    exact splitLines_cons hu (ih htext)

theorem splitLines_break {text : JsText} (h : IsClean text) (after : JsText) :
    splitLines (text ++ 0x0a :: after) = text :: splitLines after := by
  induction text with
  | nil =>
    rw [List.nil_append, splitLines]
  | cons u text ih =>
    obtain ⟨hu, htext⟩ := List.forall_mem_cons.mp h
    exact splitLines_cons hu (ih htext)

theorem dataOf_data (text : JsText) : dataOf (js "data: " ++ text) = some text := by
  have hprefix : js "data:" <+: js "data: " ++ text := ⟨0x20 :: text, rfl⟩
  unfold dataOf
  rw [if_pos hprefix]
  rfl

section Client

variable {φ : Type} {parse : JsText → Option Json} {decode : Json → Option φ}

/-- A chunk whose only data line has some text. -/
theorem parseFrame_one {chunk text : JsText} (h : (splitLines chunk).filterMap dataOf = [text]) :
    parseFrame parse decode chunk =
      match (parse text).bind decode with
      | some frame => .ok (some frame)
      | none => .error () := by
  unfold parseFrame
  rw [h]
  show (match (parse ([text].intersperse [0x0a]).flatten).bind decode with
    | some frame => Except.ok (some frame)
    | none => .error ()) = _
  rw [List.intersperse_singleton, List.flatten_singleton]

theorem parseFrame_none {chunk : JsText} (h : (splitLines chunk).filterMap dataOf = []) :
    parseFrame parse decode chunk = .ok none := by
  unfold parseFrame
  rw [h]

/-- A frame that the client reads as a view: its text parses to its value. -/
structure Sent (parse : JsText → Option Json) (decode : Json → Option φ) (frame : Frame) (view : φ) :
    Prop where
  numbers : numbersPrinted frame.value = true
  parsed : parse (stringify frame.value) = some frame.value
  decoded : decode frame.value = some view

section Line

variable {frame : Frame} {view : φ}

theorem Sent.printed (h : Sent parse decode frame view) : Printed (stringify frame.value) :=
  printed_stringify _ h.numbers

theorem Sent.clean (h : Sent parse decode frame view) :
    IsClean (js "data: " ++ stringify frame.value) :=
  isClean_data h.printed

theorem Sent.read (h : Sent parse decode frame view) {chunk : JsText}
    (hchunk : (splitLines chunk).filterMap dataOf = [stringify frame.value]) :
    parseFrame parse decode chunk = .ok (some view) := by
  rw [parseFrame_one hchunk, h.parsed, Option.bind_some, h.decoded]

/-- A line gives its frame. -/
theorem takeFrames_line (h : Sent parse decode frame view) (after : JsText) :
    takeFrames parse decode (line frame ++ after) 0 =
      (view :: (takeFrames parse decode after 0).1, (takeFrames parse decode after 0).2) := by
  have hline : line frame ++ after =
      (js "data: " ++ stringify frame.value) ++ (js "\n\n" ++ after) :=
    List.append_assoc _ _ _
  have hfound : execSeparator (line frame ++ after) 0 =
      some ((js "data: " ++ stringify frame.value).length, 2) := by
    rw [hline]
    exact (searchFrom_clean h.clean _ 0).trans
      (congrArg (fun n => some (n, 2)) (Nat.zero_add _))
  have htake : (line frame ++ after).take (js "data: " ++ stringify frame.value).length =
      js "data: " ++ stringify frame.value := by
    rw [hline, List.take_left]
  have hdrop : (line frame ++ after).drop ((js "data: " ++ stringify frame.value).length + 2) =
      after := by
    rw [hline, ← List.drop_drop, List.drop_left]
    rfl
  have hread : parseFrame parse decode ((line frame ++ after).take
      (js "data: " ++ stringify frame.value).length) = .ok (some view) := by
    refine h.read ?_
    rw [htake, splitLines_clean h.clean]
    simp only [List.filterMap_cons, dataOf_data, List.filterMap_nil]
  rw [takeFrames_taken hfound hread, hdrop]
  rfl

/-- What may be left of a line: nothing to read, no JSON, or the frame. -/
def Leftover (parse : JsText → Option Json) (decode : Json → Option φ) (view : φ) (chunk : JsText) :
    Prop :=
  parseFrame parse decode chunk = .ok none ∨ parseFrame parse decode chunk = .error () ∨
    parseFrame parse decode chunk = .ok (some view)

theorem leftover_refused {chunk text : JsText}
    (hshaped : ∀ text value, parse text = some value → Shaped text)
    (hchunk : (splitLines chunk).filterMap dataOf = [text]) (htext : ¬ Shaped text) :
    Leftover parse decode view chunk := by
  have hnone : parse text = none := by
    cases hparse : parse text with
    | none => rfl
    | some value => exact absurd (hshaped text value hparse) htext
  refine .inr (.inl ?_)
  rw [parseFrame_one hchunk, hnone]
  rfl

/-- The mark of a cut character, where there is one. -/
def IsMark (mark : JsText) : Prop := mark = [] ∨ mark = [0xfffd]

theorem isClean_mark {mark : JsText} (h : IsMark mark) : IsClean mark := by
  rcases h with rfl | rfl
  · exact List.forall_mem_nil _
  · exact List.forall_mem_singleton.mpr (by decide)

theorem not_shaped_mark {mark : JsText} (h : IsMark mark) : ¬ Shaped mark := by
  rcases h with rfl | rfl
  · exact fun h => h.1 rfl
  · rintro ⟨-, h⟩
    revert h
    decide

/-- A front of the field name has no data. -/
theorem dataOf_front {front mark : JsText} (hfront : front <+: js "data:")
    (hproper : front ≠ js "data:") (hmark : IsMark mark) : dataOf (front ++ mark) = none := by
  have htake := List.prefix_iff_eq_take.mp hfront
  have hlength : front.length < 5 := by
    refine Nat.lt_of_le_of_ne hfront.length_le fun h => hproper ?_
    rw [htake, h]
    rfl
  generalize front.length = n at htake hlength
  subst htake
  rcases hmark with rfl | rfl <;> interval_cases n <;> rfl

theorem value_obj (frame : Frame) : ∃ fields, frame.value = .obj fields := by
  cases frame <;> exact ⟨_, rfl⟩

/-- The data line that a cut may leave. -/
theorem leftover_data {front mark : JsText}
    (hshaped : ∀ text value, parse text = some value → Shaped text)
    (h : Sent parse decode frame view) (hmark : IsMark mark)
    (hfront : front <+: js "data: " ++ stringify frame.value) :
    Leftover parse decode view (front ++ mark) := by
  have hclean : IsClean (front ++ mark) :=
    List.forall_mem_append.mpr ⟨fun u hu => h.clean u (hfront.subset hu), isClean_mark hmark⟩
  have hlines : (splitLines (front ++ mark)).filterMap dataOf = (dataOf (front ++ mark)).toList := by
    rw [splitLines_clean hclean]
    cases hdata : dataOf (front ++ mark) <;> simp [hdata]
  rcases front_append_cases hfront with hname | ⟨json, rfl, hjson⟩
  · rcases front_append_cases (show front <+: js "data:" ++ [0x20] from hname) with
      hname | ⟨others, rfl, hothers⟩
    · by_cases hproper : front = js "data:"
      · subst hproper
        refine leftover_refused hshaped (hlines.trans ?_) (not_shaped_mark hmark)
        rcases hmark with rfl | rfl <;> rfl
      · refine .inl (parseFrame_none (hlines.trans ?_))
        rw [dataOf_front hname hproper hmark]
        rfl
    · refine leftover_refused hshaped (hlines.trans ?_) (not_shaped_mark hmark)
      rcases List.prefix_cons_iff.mp hothers with rfl | ⟨more, rfl, hmore⟩
      · rcases hmark with rfl | rfl <;> rfl
      · obtain rfl := List.prefix_nil.mp hmore
        rcases hmark with rfl | rfl <;> rfl
  · have hdata : (splitLines (js "data: " ++ json ++ mark)).filterMap dataOf = [json ++ mark] := by
      rw [hlines, List.append_assoc, dataOf_data]
      rfl
    obtain ⟨fields, hvalue⟩ := value_obj frame
    have hnumbers := hvalue ▸ h.numbers
    by_cases hwhole : json = stringify frame.value
    · rcases hmark with rfl | rfl
      · rw [hwhole, List.append_nil (stringify frame.value)] at hdata
        rw [hwhole]
        exact .inr (.inr (h.read hdata))
      · refine leftover_refused hshaped hdata ?_
        rw [hwhole, hvalue]
        exact not_shaped_marked (shaped_stringify hnumbers)
    · rw [hvalue] at hjson hwhole
      obtain ⟨hplain, hmarked⟩ := not_shaped_front hnumbers hjson hwhole
      refine leftover_refused hshaped hdata ?_
      rcases hmark with rfl | rfl
      · rw [List.append_nil]
        exact hplain
      · exact hmarked

/-- What a cut leaves of a line holds no separator. -/
theorem leftover_line {front mark : JsText}
    (hshaped : ∀ text value, parse text = some value → Shaped text)
    (h : Sent parse decode frame view) (hmark : IsMark mark) (hfront : front <+: line frame)
    (hproper : front ≠ line frame) :
    takeFrames parse decode (front ++ mark) 0 = ([], some (front ++ mark)) ∧
      Leftover parse decode view (front ++ mark) := by
  rcases front_append_cases hfront with hdata | ⟨others, rfl, hothers⟩
  · refine ⟨takeFrames_none ?_, leftover_data hshaped h hmark hdata⟩
    have hclean : IsClean (front ++ mark) :=
      List.forall_mem_append.mpr ⟨fun u hu => h.clean u (hdata.subset hu), isClean_mark hmark⟩
    have hsearch := searchFrom_clean hclean [] 0
    rw [List.append_nil] at hsearch
    exact hsearch
  · rcases List.prefix_cons_iff.mp hothers with rfl | ⟨more, rfl, hmore⟩
    · rw [List.append_nil]
      refine ⟨takeFrames_none ?_, leftover_data hshaped h hmark List.prefix_rfl⟩
      exact (searchFrom_clean h.clean mark 0).trans (by rcases hmark with rfl | rfl <;> rfl)
    · rcases List.prefix_cons_iff.mp hmore with rfl | ⟨rest, rfl, hrest⟩
      · rw [List.append_assoc]
        constructor
        · refine takeFrames_none ?_
          exact (searchFrom_clean h.clean _ 0).trans (by rcases hmark with rfl | rfl <;> rfl)
        · refine .inr (.inr (h.read ?_))
          have hsplit := splitLines_break h.clean mark
          show (splitLines ((js "data: " ++ stringify frame.value) ++ 0x0a :: mark)).filterMap
            dataOf = _
          rw [hsplit, splitLines_clean (isClean_mark hmark), List.filterMap_cons_some (dataOf_data _)]
          rcases hmark with rfl | rfl <;> rfl
      · obtain rfl := List.prefix_nil.mp hrest
        exact absurd rfl hproper

end Line

/-! ## Streams -/

section Stream

variable {frames : List Frame} {views : List φ}

theorem numbers_of_sent (h : List.Forall₂ (Sent parse decode) frames views) :
    ∀ frame ∈ frames, numbersPrinted frame.value = true := by
  induction h with
  | nil => exact List.forall_mem_nil _
  | cons hframe _ ih => exact List.forall_mem_cons.mpr ⟨hframe.numbers, ih⟩

/-- The frames of a whole stream. -/
theorem takeFrames_stream (h : List.Forall₂ (Sent parse decode) frames views) :
    takeFrames parse decode (frames.flatMap line) 0 = (views, some []) := by
  induction h with
  | nil => exact takeFrames_none rfl
  | cons hframe _ ih => rw [List.flatMap_cons, takeFrames_line hframe, ih]

theorem settle_cons (view : φ) {taken : List φ × Option JsText}
    (h : (settle parse decode taken).1 <+: views) :
    (settle parse decode (view :: taken.1, taken.2)).1 <+: view :: views := by
  have hsettle := @settle_append φ parse decode [view] taken
  rw [List.singleton_append] at hsettle
  rw [hsettle]
  exact (List.prefix_cons_inj view).mpr h

/-- What a client gets of a cut stream. -/
theorem front_of_stream (hshaped : ∀ text value, parse text = some value → Shaped text)
    (h : List.Forall₂ (Sent parse decode) frames views) {front mark : JsText} (hmark : IsMark mark)
    (hfront : front <+: frames.flatMap line) :
    (takeFrames parse decode (front ++ mark) 0).1 <+: views ∧
      (settle parse decode (takeFrames parse decode (front ++ mark) 0)).1 <+: views := by
  induction h generalizing front with
  | nil =>
    obtain rfl := List.prefix_nil.mp hfront
    rcases hmark with rfl | rfl
    · have htaken : takeFrames parse decode ([] ++ []) 0 = ([], some []) := takeFrames_none rfl
      rw [htaken]
      exact ⟨List.prefix_rfl, List.prefix_rfl⟩
    · have htaken : takeFrames parse decode ([] ++ [0xfffd]) 0 = ([], some [0xfffd]) :=
        takeFrames_none rfl
      rw [htaken]
      exact ⟨List.prefix_rfl, List.prefix_rfl⟩
  | @cons frame view frames views hframe hframes ih =>
    rw [List.flatMap_cons] at hfront
    rcases front_append_cases hfront with hline | ⟨others, rfl, hothers⟩
    · by_cases hwhole : front = line frame
      · obtain ⟨htaken, hsettled⟩ := ih List.nil_prefix
        rw [hwhole, takeFrames_line hframe]
        rw [List.nil_append] at htaken hsettled
        exact ⟨(List.prefix_cons_inj view).mpr htaken, settle_cons view hsettled⟩
      · obtain ⟨htaken, hleft⟩ := leftover_line hshaped hframe hmark hline hwhole
        rw [htaken]
        refine ⟨List.nil_prefix, ?_⟩
        unfold settle
        dsimp only
        rcases hleft with hleft | hleft | hleft <;> rw [hleft]
        · exact List.nil_prefix
        · exact List.nil_prefix
        · exact List.prefix_append [view] views
    · obtain ⟨htaken, hsettled⟩ := ih hothers
      rw [List.append_assoc, takeFrames_line hframe]
      exact ⟨(List.prefix_cons_inj view).mpr htaken, settle_cons view hsettled⟩

end Stream

end Client

end Henji.SessionStream
