import Henji.Library.JsonShape
import Mathlib.Algebra.Ring.Nat

/-!
# How many bytes a printed value takes

The bytes of a list and of an object are those of their parts, with a comma between two of them, so
the size of a growing value can be kept by addition.

Results:
1. `jsonBytes_arr`, `jsonBytes_obj`: the size of a value from the sizes of its parts.
-/

namespace Henji

open JsonShape

/-- `encoder.encode(JSON.stringify(value)).byteLength`. -/
def jsonBytes (value : Json) : Nat := (encodeUtf8 (stringify value)).length

/-- A natural number as a value. -/
def natural (n : Nat) : Json := .num (js (toString n))

/-- The bytes of parts with commas between them. -/
def joinedBytes (parts : List Nat) : Nat := parts.sum + (parts.length - 1)

theorem joinedBytes_append_singleton (parts : List Nat) (part : Nat) :
    joinedBytes (parts ++ [part]) =
      joinedBytes parts + (part + if parts.isEmpty then 0 else 1) := by
  cases parts with
  | nil => simp [joinedBytes]
  | cons first parts =>
    simp only [joinedBytes, List.sum_append, List.sum_cons, List.sum_nil, List.length_append,
      List.length_cons, List.length_nil, List.isEmpty_cons, Bool.false_eq_true, if_false]
    omega

theorem length_encode_append {first : JsText} (h : Printed first) (second : JsText) :
    (encodeUtf8 (first ++ second)).length =
      (encodeUtf8 first).length + (encodeUtf8 second).length := by
  rw [encodeUtf8_append h.wellFormed, List.length_append]

theorem length_encode_joined {parts : List JsText} (h : ∀ part ∈ parts, Printed part) :
    (encodeUtf8 (parts.intersperse comma).flatten).length =
      joinedBytes (parts.map fun part => (encodeUtf8 part).length) := by
  have hcomma : Printed comma := printed_ascii (by decide)
  induction parts with
  | nil => rfl
  | cons part parts ih =>
    rw [List.forall_mem_cons] at h
    cases parts with
    | nil =>
      rw [List.intersperse_singleton, List.flatten_singleton]
      simp [joinedBytes]
    | cons next parts =>
      have hlength : (encodeUtf8 comma).length = 1 := by decide
      rw [List.intersperse_cons_cons, List.flatten_cons, List.flatten_cons, length_encode_append h.1,
        length_encode_append hcomma, ih h.2, hlength]
      simp only [joinedBytes, List.map_cons, List.sum_cons, List.length_cons]
      omega

/-- The bytes of a text in ASCII are its units. -/
theorem encodeUtf8_printable {text : JsText} (h : text.all isPrintable = true) :
    encodeUtf8 text = text.map fun u => UInt8.ofNat u.toNat := by
  induction text with
  | nil => rfl
  | cons u text ih =>
    rw [List.all_cons, Bool.and_eq_true] at h
    have hsmall := h.1
    unfold isPrintable at hsmall
    simp only [Bool.and_eq_true, decide_eq_true_eq] at hsmall
    have hu : u.toNat < 0x80 := hsmall.2
    have hplain : (isHighSurrogate u || isLowSurrogate u) = false := by
      rw [Bool.or_eq_false_iff, Bool.eq_false_iff, Bool.eq_false_iff, Ne, Ne, isHighSurrogate_iff,
        isLowSurrogate_iff]
      omega
    have hone : encodeUtf8 [u] = [UInt8.ofNat u.toNat] := by
      rw [encodeUtf8, codePoints, hplain, if_neg Bool.false_ne_true, List.flatMap_singleton,
        encodePoint, if_pos hu]
    rw [← List.singleton_append, encodeUtf8_append (printed_printable h.1).wellFormed, hone, ih h.2]
    rfl

theorem length_encode_printable {text : JsText} (h : text.all isPrintable = true) :
    (encodeUtf8 text).length = text.length := by
  rw [encodeUtf8_printable h, List.length_map]

theorem length_encode_bracketed {opening closing : UInt16} {parts : List JsText}
    (hopening : isPrintable opening = true) (hclosing : isPrintable closing = true)
    (h : ∀ part ∈ parts, Printed part) :
    (encodeUtf8 (bracketed opening closing parts)).length =
      2 + joinedBytes (parts.map fun part => (encodeUtf8 part).length) := by
  have hunit : ∀ {u : UInt16}, isPrintable u = true → (encodeUtf8 [u]).length = 1 := fun hu =>
    length_encode_printable (by rw [List.all_cons, hu]; rfl)
  have hsplit : bracketed opening closing parts =
      [opening] ++ ((parts.intersperse comma).flatten ++ [closing]) := rfl
  rw [hsplit, length_encode_append (printed_printable hopening),
    length_encode_append (printed_joined h), length_encode_joined h, hunit hopening, hunit hclosing]
  omega

/-- The size of a list. -/
theorem jsonBytes_arr {items : List Json} (h : numbersPrintedItems items = true) :
    jsonBytes (.arr items) = 2 + joinedBytes (items.map jsonBytes) := by
  have hmap : stringifyItems items = items.map stringify := by
    clear h
    induction items with
    | nil => rfl
    | cons item items ih => rw [stringifyItems, ih, List.map_cons]
  unfold jsonBytes
  rw [stringify, length_encode_bracketed (by decide) (by decide) (printed_items items h), hmap,
    List.map_map]
  rfl

/-- The size of a field. -/
def fieldBytes (field : JsText × Json) : Nat :=
  jsonBytes (.str field.1) + 1 + jsonBytes field.2

theorem length_encode_field (key : JsText) (value : Json) :
    (encodeUtf8 (quote key ++ 0x3a :: stringify value)).length = fieldBytes (key, value) := by
  have hsplit : quote key ++ 0x3a :: stringify value = quote key ++ ([0x3a] ++ stringify value) :=
    rfl
  have hcolon : (encodeUtf8 [0x3a]).length = 1 := by decide
  rw [hsplit, length_encode_append (printed_quote key),
    length_encode_append (printed_printable (by decide)), hcolon, ← Nat.add_assoc]
  rfl

/-- The size of an object. -/
theorem jsonBytes_obj {fields : List (JsText × Json)} (h : numbersPrintedFields fields = true) :
    jsonBytes (.obj fields) = 2 + joinedBytes (fields.map fieldBytes) := by
  have hmap : ∀ fields : List (JsText × Json), numbersPrintedFields fields = true →
      (stringifyFields fields).map (fun part => (encodeUtf8 part).length) =
        fields.map fieldBytes := by
    intro fields
    induction fields with
    | nil => exact fun _ => rfl
    | cons field fields ih =>
      intro h
      obtain ⟨key, value⟩ := field
      rw [numbersPrintedFields, Bool.and_eq_true] at h
      rw [stringifyFields, List.map_cons, List.map_cons, ih h.2, length_encode_field key value]
  unfold jsonBytes
  rw [stringify, length_encode_bracketed (by decide) (by decide) (printed_fields fields h),
    hmap fields h]

/-! ## Numbers -/

theorem js_toString (n : Nat) :
    js (toString n) = (Nat.toDigits 10 n).map fun c => UInt16.ofNat c.toNat := by
  rw [js, Nat.toString_eq_ofList_toDigits, String.toList_ofList]

theorem isNumberUnit_digit {n : Nat} : (js (toString n)).all isNumberUnit = true := by
  rw [js_toString, List.all_map, List.all_eq_true]
  intro c hc
  have hdigit := Nat.isDigit_of_mem_toDigits (by decide) (by decide) hc
  unfold Char.isDigit at hdigit
  simp only [Bool.and_eq_true, decide_eq_true_eq] at hdigit
  have hlow : 48 ≤ c.toNat := hdigit.1
  have hhigh : c.toNat ≤ 57 := hdigit.2
  have hsmall : (UInt16.ofNat c.toNat).toNat = c.toNat := toNat_ofNat16 (by omega)
  have hmem : (0x30 ≤ UInt16.ofNat c.toNat && UInt16.ofNat c.toNat ≤ 0x39) = true := by
    rw [Bool.and_eq_true, decide_eq_true_eq, decide_eq_true_eq, UInt16.le_iff_toNat_le,
      UInt16.le_iff_toNat_le, hsmall]
    exact ⟨hlow, hhigh⟩
  simp only [Function.comp_apply, isNumberUnit, hmem, Bool.true_or]

theorem numbersPrinted_natural (n : Nat) : numbersPrinted (natural n) = true := by
  unfold natural
  rw [numbersPrinted]
  exact isNumberUnit_digit

theorem jsonBytes_natural (n : Nat) : jsonBytes (natural n) = (Nat.toDigits 10 n).length := by
  have hprintable : (js (toString n)).all isPrintable = true :=
    List.all_eq_true.mpr fun u hu =>
      isPrintable_of_number (List.all_eq_true.mp isNumberUnit_digit u hu)
  unfold jsonBytes natural
  rw [stringify, length_encode_printable hprintable, js_toString, List.length_map]

/-- A smaller number takes no more bytes. -/
theorem jsonBytes_natural_le {m n : Nat} (h : m ≤ n) :
    jsonBytes (natural m) ≤ jsonBytes (natural n) := by
  rw [jsonBytes_natural, jsonBytes_natural,
    Nat.length_toDigits_le_iff (by decide) Nat.length_toDigits_pos]
  exact Nat.lt_of_le_of_lt h
    ((Nat.length_toDigits_le_iff (by decide) Nat.length_toDigits_pos).mp (Nat.le_refl _))

theorem jsonBytes_natural_succ (n : Nat) :
    jsonBytes (natural (n + 1)) ≤ jsonBytes (natural n) + 1 := by
  rw [jsonBytes_natural, jsonBytes_natural,
    Nat.length_toDigits_le_iff (by decide) (Nat.succ_pos _)]
  have hlt := (Nat.length_toDigits_le_iff (b := 10) (n := n) (by decide)
    Nat.length_toDigits_pos).mp (Nat.le_refl _)
  rw [Nat.pow_succ]
  omega

end Henji
