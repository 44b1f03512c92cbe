import Henji.Core.SecretForms
import Mathlib.Algebra.Order.BigOperators.Group.List
import Mathlib.Algebra.Order.Ring.Nat

/-!
# Failure details are bounded, valid and free of secrets

The size loop halves the longest text. A text of one unit cannot be halved, but details whose texts
have at most one unit each fit, so the loop ends: each round takes bytes from one text.

Results:
1. `boundDetails_spec`: the loop ends and keeps what one cut keeps.
2. `validate_asValue`: bounded details pass the check of a reader.
3. `capture_is_safe`: when a capture returns, and what its details are then.
-/

namespace Henji.FailureCapture

/-! ## Bytes and units -/

theorem length_encode_unit (u : UInt16) :
    1 ≤ (encodePoint u.toNat).length ∧ (encodePoint u.toNat).length ≤ 3 := by
  have hlt := u.toNat_lt
  refine ⟨length_encodePoint_pos _, ?_⟩
  unfold encodePoint
  split
  · exact Nat.le_of_ble_eq_true rfl
  split
  · exact Nat.le_of_ble_eq_true rfl
  · exact Nat.le_of_ble_eq_true rfl

theorem length_encode_pair (u v : UInt16) : (encodePoint (pairPoint u v)).length = 4 := by
  have hlarge : 0x10000 ≤ pairPoint u v := by
    unfold pairPoint
    omega
  unfold encodePoint
  rw [if_neg (by omega), if_neg (by omega), if_neg (by omega)]
  rfl

theorem length_encodeUtf8_bounds (text : JsText) :
    text.length ≤ (encodeUtf8 text).length ∧ (encodeUtf8 text).length ≤ 3 * text.length := by
  have hmark : (encodePoint 0xfffd).length = 3 := by decide
  unfold encodeUtf8
  induction text using codePoints.induct with
  | case1 => exact ⟨Nat.le_refl 0, Nat.le_refl 0⟩
  | case2 u h =>
    rw [codePoints, if_pos h, List.flatMap_singleton, hmark, List.length_singleton]
    decide
  | case3 u h =>
    rw [codePoints, if_neg h, List.flatMap_singleton, List.length_singleton]
    exact length_encode_unit u
  | case4 u v rest h ih =>
    rw [codePoints, if_pos h, List.flatMap_cons, List.length_append, length_encode_pair,
      List.length_cons, List.length_cons]
    omega
  | case5 u v rest h h' ih =>
    rw [codePoints, if_neg h, if_pos h', List.flatMap_cons, List.length_append, hmark,
      List.length_cons]
    omega
  | case6 u v rest h h' ih =>
    have hunit := length_encode_unit u
    rw [codePoints, if_neg h, if_neg h', List.flatMap_cons, List.length_append, List.length_cons]
    omega

/-! ## What one cut keeps -/

variable {removed : List JsText}

theorem shorten_length (text : JsText) (limit : Nat) :
    (encodeUtf8 (shorten removed text limit).1).length ≤ limit := by
  unfold shorten
  dsimp only
  split
  · next hfits => exact hfits
  · exact length_cutText _ _

theorem shorten_wellFormed
    (hremoved : ∀ form ∈ removed, form ≠ [] ∧ hasWellFormedUnicode form = true) {text : JsText}
    (h : hasWellFormedUnicode text = true) (limit : Nat) :
    hasWellFormedUnicode (shorten removed text limit).1 = true := by
  unfold shorten
  dsimp only
  split
  · exact redact_wellFormed hremoved h
  · exact cutText_wellFormed _ _

/-- No form occurs after a cut, unless the cut itself put a U+FFFD that the form holds. -/
theorem shorten_clean (hremoved : ∀ form ∈ removed, Removable form) {form : JsText}
    (hmem : form ∈ removed) {text : JsText}
    (h : 0xfffd ∉ form ∨ hasWellFormedUnicode (redact removed text) = true) (limit : Nat) :
    ¬ form <:+: (shorten removed text limit).1 := by
  have hclean := redact_clean hremoved hmem text
  unfold shorten
  dsimp only
  split
  · exact hclean
  · intro hoccurs
    have hdecoded := hoccurs.trans (cutText_occurs (redact removed text) limit)
    rcases h with hmark | hunicode
    · exact hclean (infix_of_decoded hmark hdecoded)
    · exact hclean (decoded_of_wellFormed hunicode ▸ hdecoded)

theorem shorten_eq_self (hne : ∀ form ∈ removed, form ≠ []) {text : JsText}
    (h : Harmless removed text) {limit : Nat} (hfits : (encodeUtf8 text).length ≤ limit) :
    shorten removed text limit = (text, false) := by
  unfold shorten
  rw [redact_eq_self hne h]
  exact if_pos hfits

/-! ## Short details fit -/

theorem length_quoteUnit_le (u : UInt16) : (quoteUnit u).length ≤ 6 := by
  unfold quoteUnit
  repeat' split
  all_goals exact Nat.le_of_ble_eq_true rfl

theorem length_quote_short {text : JsText} (h : text.length ≤ 1) : (quote text).length ≤ 8 := by
  cases text with
  | nil => decide
  | cons u text =>
    cases text with
    | nil =>
      have hunit := length_quoteUnit_le u
      simp only [quote, quoteUnits, List.length_append, List.length_cons, List.length_nil]
      omega
    | cons v text => simp at h

theorem length_intersperse {parts : List JsText} {bound : Nat}
    (h : ∀ part ∈ parts, part.length ≤ bound) :
    ((parts.intersperse comma).flatten).length ≤ (bound + 1) * parts.length := by
  induction parts with
  | nil => exact Nat.le_refl 0
  | cons part parts ih =>
    have hpart := h part List.mem_cons_self
    have hrest := ih fun other hother => h other (List.mem_cons_of_mem _ hother)
    rw [List.length_cons, Nat.mul_succ]
    cases parts with
    | nil =>
      rw [List.intersperse_singleton, List.flatten_singleton]
      omega
    | cons next parts =>
      rw [List.intersperse_cons_cons, List.flatten_cons, List.flatten_cons, List.length_append,
        List.length_append]
      have hcomma : comma.length = 1 := rfl
      omega

theorem stringifyFields_eq (fields : List (JsText × Json)) : stringifyFields fields =
    fields.map fun entry => quote entry.1 ++ 0x3a :: stringify entry.2 := by
  induction fields with
  | nil => rfl
  | cons entry fields ih =>
    unfold stringifyFields
    rw [ih]
    rfl

theorem length_entries_le (details : FailureDetails) : details.entries.length ≤ 17 := by
  have htexts := List.length_filterMap_le
    (fun key => (details.text key).map fun text => (js key.name, Json.str text)) stringKeys
  have hkeys : stringKeys.length = 14 := by decide
  unfold FailureDetails.entries
  simp only [List.length_append]
  have hcount : ((details.streamEventCount.map fun n =>
      (js "streamEventCount", jsonNumber n)).toList).length ≤ 1 := by
    cases details.streamEventCount <;> simp
  have hcompleted : ((details.completedReceived.map fun b =>
      (js "completedReceived", Json.bool b)).toList).length ≤ 1 := by
    cases details.completedReceived <;> simp
  have htruncated : (if details.truncated then [(js "truncated", Json.bool true)]
      else []).length ≤ 1 := by
    cases details.truncated <;> simp
  omega

/-- The count is a non-negative safe integer. -/
def CountSafe (details : FailureDetails) : Prop :=
  ∀ n, details.streamEventCount = some n → isSafeCount n = true

theorem length_decimal_le {n : Nat} (h : n < 10 ^ 16) : (decimal n).length ≤ 16 := by
  have hlength : (decimal n).length = (Nat.repr n).length := by
    unfold decimal js
    rw [List.length_map, String.length_toList]
    rfl
  rw [hlength]
  exact (Nat.length_repr_le_iff (by decide)).mpr h

theorem length_count_le {n : JsNumber} (h : isSafeCount n = true) :
    (stringify (jsonNumber n)).length ≤ 16 := by
  cases n with
  | other text => cases h
  | integer n =>
    obtain ⟨hmax, hpos⟩ := of_decide_eq_true h
    unfold maxSafeInteger at hmax
    simp only [jsonNumber, stringify, printNumber]
    rw [if_neg (by omega)]
    exact length_decimal_le (by omega)

theorem length_entry_le {details : FailureDetails} (hsizes : ∀ key, details.size key ≤ 1)
    (hcount : CountSafe details) {entry : JsText × Json} (h : entry ∈ details.entries) :
    (quote entry.1 ++ 0x3a :: stringify entry.2).length ≤ 40 := by
  have hnames : ∀ key : StringKey, (quote (js key.name)).length ≤ 17 := by
    intro key
    cases key <;> decide
  unfold FailureDetails.entries at h
  rw [List.mem_append, List.mem_append, List.mem_append] at h
  rw [List.length_append, List.length_cons]
  rcases h with ((htext | hnumber) | hflag) | htruncated
  · obtain ⟨key, -, hkey⟩ := List.mem_filterMap.mp htext
    obtain ⟨text, hsome, rfl⟩ := Option.map_eq_some_iff.mp hkey
    have hsize : text.length ≤ 1 := by
      have hsize := hsizes key
      unfold FailureDetails.size at hsize
      rwa [hsome] at hsize
    have hname := hnames key
    have hvalue := length_quote_short hsize
    simp only [stringify]
    omega
  · obtain ⟨n, hsome, rfl⟩ := Option.map_eq_some_iff.mp (Option.mem_toList.mp hnumber)
    have hname : (quote (js "streamEventCount")).length = 18 := by decide
    have hvalue := length_count_le (hcount n hsome)
    dsimp only
    omega
  · obtain ⟨b, -, rfl⟩ := Option.map_eq_some_iff.mp (Option.mem_toList.mp hflag)
    cases b <;> decide
  · split at htruncated
    · cases List.mem_singleton.mp htruncated
      decide
    · cases htruncated

/-- Details whose texts have at most one unit each fit. -/
theorem jsonBytes_of_short {details : FailureDetails} (hsizes : ∀ key, details.size key ≤ 1)
    (hcount : CountSafe details) : details.jsonBytes ≤ MAX_FAILURE_DETAILS_BYTES := by
  have hparts : ∀ part ∈ stringifyFields details.entries, part.length ≤ 40 := by
    intro part hpart
    rw [stringifyFields_eq] at hpart
    obtain ⟨entry, hentry, rfl⟩ := List.mem_map.mp hpart
    exact length_entry_le hsizes hcount hentry
  have hflat := length_intersperse hparts
  have hcountParts : (stringifyFields details.entries).length ≤ 17 := by
    rw [stringifyFields_eq, List.length_map]
    exact length_entries_le details
  have hunits : (stringify (.obj details.entries)).length ≤ 41 * 17 + 2 := by
    simp only [stringify, bracketed, List.length_append, List.length_cons, List.length_nil]
    have hmul := Nat.mul_le_mul_left 41 hcountParts
    omega
  have hbytes := (length_encodeUtf8_bounds (stringify (.obj details.entries))).2
  unfold FailureDetails.jsonBytes MAX_FAILURE_DETAILS_BYTES
  omega

/-! ## The size loop -/

theorem longest_fold (details : FailureDetails) (keys : List StringKey) (first : StringKey) :
    ∀ key ∈ first :: keys, details.size key ≤ details.size (keys.foldl (fun longest key =>
      if details.size longest < details.size key then key else longest) first) := by
  induction keys generalizing first with
  | nil =>
    intro key hkey
    cases List.mem_singleton.mp hkey
    exact Nat.le_refl _
  | cons next keys ih =>
    have hnext := ih (if details.size first < details.size next then next else first)
    intro key hkey
    rw [List.foldl_cons]
    have hhead := hnext _ List.mem_cons_self
    rcases List.mem_cons.mp hkey with rfl | hkey
    · refine Nat.le_trans ?_ hhead
      split <;> omega
    · rcases List.mem_cons.mp hkey with rfl | hrest
      · refine Nat.le_trans ?_ hhead
        split <;> omega
      · exact hnext key (List.mem_cons_of_mem _ hrest)

theorem size_le_longest (details : FailureDetails) (key : StringKey) :
    details.size key ≤ details.size (longestKey details) :=
  longest_fold details stringKeys .message key (List.mem_cons_of_mem _ key.mem_stringKeys)

/-- The bytes of all texts together. -/
def weight (details : FailureDetails) : Nat :=
  (stringKeys.map fun key => (encodeUtf8 ((details.text key).getD [])).length).sum

/-- The size loop meets details that are too long only where a text can be halved. -/
theorem longest_text {details : FailureDetails} (hcount : CountSafe details)
    (h : ¬ details.jsonBytes ≤ MAX_FAILURE_DETAILS_BYTES) :
    ∃ text, details.text (longestKey details) = some text ∧ 2 ≤ (encodeUtf8 text).length := by
  by_cases hshort : details.size (longestKey details) ≤ 1
  · exact absurd (jsonBytes_of_short
      (fun key => Nat.le_trans (size_le_longest details key) hshort) hcount) h
  · unfold FailureDetails.size at hshort
    cases htext : details.text (longestKey details) with
    | none =>
      rw [htext] at hshort
      exact absurd (Nat.zero_le 1) hshort
    | some text =>
      rw [htext, Option.getD_some] at hshort
      have hbytes := (length_encodeUtf8_bounds text).1
      exact ⟨text, rfl, by omega⟩

theorem halveLongest_text {details : FailureDetails} {text : JsText}
    (h : details.text (longestKey details) = some text) (key : StringKey) :
    (halveLongest removed details).text key =
      if key = longestKey details then
        some (shorten removed text (max 1 ((encodeUtf8 text).length / 2))).1
      else details.text key := by
  unfold halveLongest
  simp only [h, Option.getD_some, Function.update_apply]

theorem weight_halveLongest {details : FailureDetails} {text : JsText}
    (h : details.text (longestKey details) = some text) (htwo : 2 ≤ (encodeUtf8 text).length) :
    weight (halveLongest removed details) < weight details := by
  have hcut : (encodeUtf8 (shorten removed text
      (max 1 ((encodeUtf8 text).length / 2))).1).length < (encodeUtf8 text).length := by
    have hlength := @shorten_length removed text (max 1 ((encodeUtf8 text).length / 2))
    omega
  unfold weight
  refine List.sum_lt_sum _ _ (fun key _ => ?_)
    ⟨longestKey details, StringKey.mem_stringKeys _, ?_⟩
  · rw [halveLongest_text h]
    split
    · next heq =>
      rw [heq, h]
      exact Nat.le_of_lt hcut
    · exact Nat.le_refl _
  · rw [halveLongest_text h, if_pos rfl, h]
    exact hcut

/-- Every text of the details satisfies `P`. -/
def Texts (P : StringKey → JsText → Prop) (details : FailureDetails) : Prop :=
  ∀ key text, details.text key = some text → P key text

/-- The loop ends and keeps what one cut keeps. -/
theorem boundDetails_spec {P : StringKey → JsText → Prop}
    (hP : ∀ key text, P key text →
      P key (shorten removed text (max 1 ((encodeUtf8 text).length / 2))).1)
    {details : FailureDetails} (hcount : CountSafe details) (htexts : Texts P details) :
    ∃ result, (∀ rounds, weight details ≤ rounds →
        boundDetails removed rounds details = some result) ∧
      result.jsonBytes ≤ MAX_FAILURE_DETAILS_BYTES ∧ Texts P result ∧ CountSafe result ∧
      (details.jsonBytes ≤ MAX_FAILURE_DETAILS_BYTES → result = details) := by
  induction hweight : weight details using Nat.strongRecOn generalizing details with
  | ind n ih =>
    by_cases hfits : details.jsonBytes ≤ MAX_FAILURE_DETAILS_BYTES
    · refine ⟨details, fun rounds _ => ?_, hfits, htexts, hcount, fun _ => rfl⟩
      cases rounds <;> exact if_pos hfits
    · obtain ⟨text, htext, htwo⟩ := longest_text hcount hfits
      have hless := @weight_halveLongest removed _ _ htext htwo
      have hkept : Texts P (halveLongest removed details) := by
        intro key cut hcut
        rw [halveLongest_text htext] at hcut
        split at hcut
        · next heq =>
          cases hcut
          exact heq ▸ hP _ text (htexts _ text htext)
        · exact htexts key cut hcut
      have hcount' : CountSafe (halveLongest removed details) := hcount
      obtain ⟨result, hrounds, hjson, hresult, hsafe, -⟩ := ih _ (hweight ▸ hless) hcount' hkept rfl
      refine ⟨result, fun rounds hle => ?_, hjson, hresult, hsafe, fun h => absurd h hfits⟩
      cases rounds with
      | zero => omega
      | succ rounds =>
        unfold boundDetails
        rw [if_neg hfits]
        exact hrounds rounds (by omega)

/-! ## The check of a reader -/

section Check

variable {details : FailureDetails}

theorem get_text (key : StringKey) :
    details.get (js key.name) = (details.text key).elim .undefined .string := by
  have hfind : (stringKeys.find? fun member => js member.name = js key.name) = some key := by
    cases key <;> decide
  unfold FailureDetails.get
  rw [hfind]

theorem get_count : details.get (js "streamEventCount") =
    details.streamEventCount.elim .undefined .number := by
  have hfind : (stringKeys.find? fun member => js member.name = js "streamEventCount") = none := by
    decide
  unfold FailureDetails.get
  rw [hfind]
  exact if_pos rfl

theorem get_completed : details.get (js "completedReceived") =
    details.completedReceived.elim .undefined .boolean := by
  have hfind : (stringKeys.find? fun member => js member.name = js "completedReceived") = none := by
    decide
  unfold FailureDetails.get
  rw [hfind]
  exact (if_neg (by decide)).trans (if_pos rfl)

theorem get_truncated : details.get (js "truncated") =
    if details.truncated then .boolean true else .undefined := by
  have hfind : (stringKeys.find? fun member => js member.name = js "truncated") = none := by
    decide
  unfold FailureDetails.get
  rw [hfind]
  refine (if_neg (by decide)).trans ((if_neg (by decide)).trans ?_)
  cases details.truncated <;> rfl

theorem printed_entry {entry : JsText × Json} (h : entry ∈ details.entries) :
    entry.1 ∈ allowed ∧ printed (details.get entry.1) = some entry.2 := by
  unfold FailureDetails.entries at h
  rw [List.mem_append, List.mem_append, List.mem_append] at h
  rcases h with ((htext | hnumber) | hflag) | htruncated
  · obtain ⟨key, hkey, hentry⟩ := List.mem_filterMap.mp htext
    obtain ⟨text, hsome, rfl⟩ := Option.map_eq_some_iff.mp hentry
    refine ⟨List.mem_append_left _ (List.mem_map_of_mem hkey), ?_⟩
    rw [get_text, hsome]
    rfl
  · obtain ⟨n, hsome, rfl⟩ := Option.map_eq_some_iff.mp (Option.mem_toList.mp hnumber)
    refine ⟨show js "streamEventCount" ∈ allowed from by decide, ?_⟩
    rw [get_count, hsome]
    rfl
  · obtain ⟨b, hsome, rfl⟩ := Option.map_eq_some_iff.mp (Option.mem_toList.mp hflag)
    refine ⟨show js "completedReceived" ∈ allowed from by decide, ?_⟩
    rw [get_completed, hsome]
    rfl
  · split at htruncated
    · next htrue =>
      cases List.mem_singleton.mp htruncated
      refine ⟨by decide, ?_⟩
      rw [get_truncated, if_pos htrue]
      rfl
    · cases htruncated

theorem filterMap_entries {entries : List (JsText × Json)} {value : JsText → Option Json}
    (h : ∀ entry ∈ entries, value entry.1 = some entry.2) :
    ((entries.map Prod.fst).filterMap fun key => (value key).map fun v => (key, v)) = entries := by
  induction entries with
  | nil => rfl
  | cons entry entries ih =>
    rw [List.map_cons, List.filterMap_cons, h entry List.mem_cons_self,
      ih fun other hother => h other (List.mem_cons_of_mem _ hother)]
    rfl

/-- Bounded details pass the check of a reader. -/
theorem validate_asValue (htexts : Texts (fun key text => (encodeUtf8 text).length ≤ key.limit) details)
    (hcount : CountSafe details) (hjson : details.jsonBytes ≤ MAX_FAILURE_DETAILS_BYTES) :
    validateFailureDetails details.asValue = true := by
  unfold validateFailureDetails FailureDetails.asValue
  simp only [Bool.and_eq_true]
  refine ⟨⟨⟨⟨⟨?_, ?_⟩, ?_⟩, ?_⟩, ?_⟩, ?_⟩
  · refine List.all_eq_true.mpr fun key hkey => decide_eq_true ?_
    obtain ⟨entry, hentry, rfl⟩ := List.mem_map.mp hkey
    exact (printed_entry hentry).1
  · refine List.all_eq_true.mpr fun key _ => ?_
    rw [get_text]
    cases htext : details.text key with
    | none => rfl
    | some text => exact decide_eq_true (htexts key text htext)
  · rw [get_count]
    cases hnumber : details.streamEventCount with
    | none => rfl
    | some n => exact hcount n hnumber
  · rw [get_completed]
    cases details.completedReceived <;> rfl
  · rw [get_truncated]
    cases details.truncated <;> rfl
  · rw [filterMap_entries fun entry hentry => (printed_entry hentry).2]
    exact decide_eq_true hjson

end Check

/-! ## Capture -/

section Capture

variable {error : JsValue} {options : Options}

/-- The facts give a count only as a non-negative safe integer. -/
def FactsCounted (options : Options) : Prop :=
  ∀ n, options.facts.own (js "streamEventCount") = some (.number n) → isSafeCount n = true

theorem saved_cases (error : JsValue) :
    saved error = .undefined ∨ validateFailureDetails (saved error) = true := by
  unfold saved
  dsimp only
  split
  · next hvalid => exact .inr hvalid
  · exact .inl rfl

theorem saved_count {n : JsNumber}
    (h : (saved error).own (js "streamEventCount") = some (.number n)) : isSafeCount n = true := by
  rcases saved_cases error with hnone | hvalid
  · rw [hnone] at h
    cases h
  · revert h hvalid
    generalize saved error = value
    intro h hvalid
    unfold validateFailureDetails at hvalid
    split at hvalid
    · next keys get =>
      simp only [Bool.and_eq_true] at hvalid
      have hcount := hvalid.1.1.1.2
      obtain ⟨-, hget⟩ := Option.ite_none_right_eq_some.mp h
      rw [Option.some.inj hget] at hcount
      exact hcount
    · cases hvalid

theorem draft_count (hfacts : FactsCounted options) :
    CountSafe (draftDetails removed error options) := by
  intro n hn
  have hspread : spread error options (js "streamEventCount") .undefined = .number n := by
    revert hn
    unfold draftDetails
    dsimp only
    split
    · next m hm =>
      intro hn
      rw [hm, Option.some.inj hn]
    · intro hn
      cases hn
  unfold spread at hspread
  cases hsaved : (saved error).own (js "streamEventCount") with
  | some value =>
    rw [hsaved, Option.getD_some] at hspread
    exact saved_count (hspread ▸ hsaved)
  | none =>
    rw [hsaved, Option.getD_none] at hspread
    cases hown : options.facts.own (js "streamEventCount") with
    | some value =>
      rw [hown, Option.getD_some] at hspread
      exact hfacts n (hspread ▸ hown)
    | none =>
      rw [hown] at hspread
      cases hspread

theorem draft_text {key : StringKey} {text : JsText}
    (h : (draftDetails removed error options).text key = some text) :
    ∃ source, candidateText error options key = some source ∧
      text = (shorten removed source key.limit).1 := by
  obtain ⟨source, hsource, htext⟩ := Option.map_eq_some_iff.mp h
  exact ⟨source, hsource, htext.symm⟩

theorem weight_le {details : FailureDetails}
    (h : Texts (fun key text => (encodeUtf8 text).length ≤ key.limit) details) :
    weight details ≤ 2176 := by
  have hsum : weight details ≤ (stringKeys.map StringKey.limit).sum := by
    unfold weight
    refine List.sum_le_sum fun key _ => ?_
    cases htext : details.text key with
    | none => exact Nat.zero_le _
    | some text => exact h key text htext
  exact hsum

/-- When the details of a capture are free of secrets. -/
structure Presentable (error : JsValue) (options : Options) : Prop where
  secrets : ∀ secret ∈ options.secrets, hasWellFormedUnicode secret = true
  marks : (∀ secret ∈ options.secrets, 0xfffd ∉ secret) ∨
    ∀ key source, candidateText error options key = some source →
      hasWellFormedUnicode source = true

/-- What holds of each text of the details: it is within its limit, no form occurs in it, and it is
whole where the text that was read is. -/
structure Kept (error : JsValue) (options : Options) (removed : List JsText) (key : StringKey)
    (text : JsText) : Prop where
  fits : (encodeUtf8 text).length ≤ key.limit
  clean : ∀ form ∈ removed, ¬ form <:+: text
  whole : ∃ source, candidateText error options key = some source ∧
    (hasWellFormedUnicode source = true → hasWellFormedUnicode text = true)

theorem mem_removed {secrets : List JsText} {form : JsText} :
    form ∈ (secrets.filter fun secret => 0 < secret.length).flatMap forms ↔
      ∃ secret ∈ secrets, secret ≠ [] ∧ form ∈ forms secret := by
  rw [List.mem_flatMap]
  constructor
  · rintro ⟨secret, hsecret, hform⟩
    obtain ⟨hmem, hlength⟩ := List.mem_filter.mp hsecret
    exact ⟨secret, hmem, List.ne_nil_of_length_pos (of_decide_eq_true hlength), hform⟩
  · rintro ⟨secret, hmem, hne, hform⟩
    exact ⟨secret, List.mem_filter.mpr ⟨hmem, decide_eq_true (List.length_pos_iff.mpr hne)⟩, hform⟩

theorem kept_shorten (hshown : Presentable error options)
    (havoid : ∀ secret ∈ options.secrets, AvoidsMarkers secret)
    (hremoved : secretForms options.secrets = some removed) {key : StringKey} {text : JsText}
    (htext : ∃ source, candidateText error options key = some source ∧
      (hasWellFormedUnicode source = true → hasWellFormedUnicode text = true))
    {limit : Nat} (hlimit : limit ≤ key.limit) :
    Kept error options removed key (shorten removed text limit).1 := by
  rw [secretForms_spec hshown.secrets] at hremoved
  obtain rfl := Option.some.inj hremoved
  have hforms : ∀ form ∈ (options.secrets.filter fun secret => 0 < secret.length).flatMap forms,
      Removable form ∧ hasWellFormedUnicode form = true := by
    intro form hform
    obtain ⟨secret, hmem, hne, hform⟩ := mem_removed.mp hform
    exact ⟨removable_of_form hne (havoid secret hmem) (hshown.secrets secret hmem) form hform,
      wellFormed_of_form (hshown.secrets secret hmem) form hform⟩
  have hpaired := fun form hform => And.intro (hforms form hform).1.nonempty (hforms form hform).2
  obtain ⟨source, hsource, hwhole⟩ := htext
  refine ⟨Nat.le_trans (shorten_length text limit) hlimit, fun form hform => ?_,
    source, hsource, fun hunicode => shorten_wellFormed hpaired (hwhole hunicode) limit⟩
  refine shorten_clean (fun form hform => (hforms form hform).1) hform ?_ limit
  rcases hshown.marks with hmarks | htexts
  · obtain ⟨secret, hmem, -, hsecret⟩ := mem_removed.mp hform
    exact .inl (mark_not_in_form (hmarks secret hmem) form hsecret)
  · exact .inr (redact_wellFormed hpaired (hwhole (htexts key source hsource)))

/-- Bounded, valid and free of secrets. -/
structure Safe (error : JsValue) (options : Options) (details : FailureDetails) : Prop where
  valid : validateFailureDetails details.asValue = true
  clean : ∀ secret ∈ options.secrets, secret ≠ [] → ∀ form ∈ forms secret, ∀ key text,
    details.text key = some text → ¬ form <:+: text
  whole : ∀ key source text, candidateText error options key = some source →
    hasWellFormedUnicode source = true → details.text key = some text →
      hasWellFormedUnicode text = true
  kept : ∀ removed, secretForms options.secrets = some removed →
    (draftDetails removed error options).jsonBytes ≤ MAX_FAILURE_DETAILS_BYTES →
    ∀ key source, candidateText error options key = some source → Harmless removed source →
      (encodeUtf8 source).length ≤ key.limit → details.text key = some source

theorem exists_safe (havoid : ∀ secret ∈ options.secrets, AvoidsMarkers secret)
    (hfacts : FactsCounted options) (hshown : Presentable error options) :
    ∃ details, (∀ rounds, 2176 ≤ rounds →
      captureFailureDetails rounds error options = .ok details) ∧ Safe error options details := by
  have hremoved := secretForms_spec hshown.secrets
  generalize hlist : (options.secrets.filter fun secret => 0 < secret.length).flatMap forms =
    removed at hremoved
  have hlimit : ∀ key : StringKey, 1 ≤ key.limit := by
    intro key
    cases key <;> decide
  have hdraft : Texts (Kept error options removed) (draftDetails removed error options) := by
    intro key text htext
    obtain ⟨source, hsource, rfl⟩ := draft_text htext
    exact kept_shorten hshown havoid hremoved ⟨source, hsource, id⟩ (Nat.le_refl _)
  have hcut : ∀ key text, Kept error options removed key text → Kept error options removed key
      (shorten removed text (max 1 ((encodeUtf8 text).length / 2))).1 := by
    intro key text hkept
    refine kept_shorten hshown havoid hremoved hkept.whole (Nat.max_le.mpr ⟨hlimit key, ?_⟩)
    exact Nat.le_trans (Nat.div_le_self _ 2) hkept.fits
  obtain ⟨details, hrounds, hjson, htexts, hcount, hsame⟩ :=
    boundDetails_spec hcut (draft_count hfacts) hdraft
  refine ⟨details, fun rounds hle => ?_, ?_⟩
  · unfold captureFailureDetails
    rw [hremoved]
    dsimp only
    rw [hrounds rounds (Nat.le_trans (weight_le fun key text h => (hdraft key text h).fits) hle)]
  · refine ⟨validate_asValue (fun key text h => (htexts key text h).fits) hcount hjson, ?_, ?_, ?_⟩
    · intro secret hmem hne form hform key text htext
      exact (htexts key text htext).clean form (hlist ▸ mem_removed.mpr ⟨secret, hmem, hne, hform⟩)
    · intro key source text hsource hunicode htext
      obtain ⟨source', hsource', hwhole⟩ := (htexts key text htext).whole
      exact hwhole (Option.some.inj (hsource.symm.trans hsource') ▸ hunicode)
    · intro removed' hremoved' hfits key source hsource hharmless hlength
      obtain rfl := Option.some.inj (hremoved.symm.trans hremoved')
      have hne : ∀ form ∈ removed, form ≠ [] := by
        intro form hform
        obtain ⟨secret, hmem, hne, hform⟩ := mem_removed.mp (hlist ▸ hform)
        exact (removable_of_form hne (havoid secret hmem) (hshown.secrets secret hmem) form
          hform).nonempty
      rw [hsame hfits]
      refine Option.map_eq_some_iff.mpr ⟨source, hsource, ?_⟩
      rw [shorten_eq_self hne hharmless hlength]

/-- An error message that names a key, with that key as the secret. -/
def exampleError : JsValue :=
  .object false [js "message"] fun key =>
    if key = js "message" then .string (js "bad key sk-1 (Bearer sk-1)") else .undefined

def exampleOptions (secret : JsText) : Options := ⟨some (js "model"), [secret], .undefined⟩

theorem avoids_of_example {secret : JsText} (h : secret = js "sk-1" ∨ secret = [0xd800]) :
    AvoidsMarkers secret := by
  rcases h with rfl | rfl <;>
  exact ⟨by decide, by decide, fun _ hoccurs =>
    absurd (hoccurs.subset List.mem_cons_self) (by decide)⟩

end Capture

end Henji.FailureCapture
