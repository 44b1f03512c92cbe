import Henji.Library.Utf8

/-!
# The shape of JSON text

A scanner that knows only brackets and strings: every bracket outside a string closes the last open
one, and outside strings only ASCII stands. A text that a reader of JSON accepts is shaped in this
sense; a printed object is, and none of its proper fronts is.

Results:
1. `spans_stringify`: a printed value leaves the scanner where it was, and never under it.
2. `not_shaped_front`: a proper front of a printed object is not shaped.
3. `printed_stringify`: a printed value has no control characters and no unpaired surrogates.
-/

namespace Henji.JsonShape

inductive JsonMode where
  | outside
  | inString
  | escaped
deriving DecidableEq, Repr

/-- Where a scanner stands, with `depth` open brackets. -/
structure JsonPlace where
  mode : JsonMode
  depth : Nat
deriving DecidableEq, Repr

namespace JsonPlace

def step (place : JsonPlace) (u : UInt16) : Option JsonPlace :=
  match place.mode with
  | .escaped => some ⟨.inString, place.depth⟩
  | .inString =>
    if u = 0x5c then some ⟨.escaped, place.depth⟩
    else if u = 0x22 then some ⟨.outside, place.depth⟩
    else some place
  | .outside =>
    if u = 0x22 then some ⟨.inString, place.depth⟩
    else if u = 0x5b ∨ u = 0x7b then some ⟨.outside, place.depth + 1⟩
    else if u = 0x5d ∨ u = 0x7d then
      if place.depth = 0 then none else some ⟨.outside, place.depth - 1⟩
    else if u < 0x80 then some place
    else none

def scan (text : JsText) (place : JsonPlace) : Option JsonPlace := text.foldlM step place

theorem scan_append (first second : JsText) (place : JsonPlace) :
    scan (first ++ second) place = (scan first place).bind (scan second) :=
  List.foldlM_append

theorem scan_cons (u : UInt16) (text : JsText) (place : JsonPlace) :
    scan (u :: text) place = (place.step u).bind (scan text) := rfl

end JsonPlace

open JsonPlace

/-- What every accepted JSON text satisfies. -/
def Shaped (text : JsText) : Prop :=
  text ≠ [] ∧ scan text ⟨.outside, 0⟩ = some ⟨.outside, 0⟩

/-! ## Texts that leave the scanner where it was -/

theorem front_append_cases {α : Type} {front first second : List α}
    (h : front <+: first ++ second) :
    front <+: first ∨ ∃ others, front = first ++ others ∧ others <+: second := by
  obtain ⟨rest, hrest⟩ := h
  rcases List.append_eq_append_iff.mp hrest with ⟨others, hfirst, -⟩ | ⟨others, hfront, hsecond⟩
  · exact .inl ⟨others, hfirst.symm⟩
  · exact .inr ⟨others, hfront, ⟨rest, hsecond.symm⟩⟩

/-- A text that takes the scanner from a place to another one, and nowhere under a depth. -/
structure Spans (depth : Nat) (start finish : JsonPlace) (text : JsText) : Prop where
  scanned : scan text start = some finish
  above : ∀ front, front <+: text → ∃ place, scan front start = some place ∧ depth ≤ place.depth

section Spans

variable {depth : Nat} {start middle finish : JsonPlace} {first second text : JsText}

theorem spans_nil (h : depth ≤ start.depth) : Spans depth start start [] where
  scanned := rfl
  above front hfront := ⟨start, by rw [List.prefix_nil.mp hfront]; rfl, h⟩

theorem spans_append (hfirst : Spans depth start middle first)
    (hsecond : Spans depth middle finish second) : Spans depth start finish (first ++ second) where
  scanned := by
    rw [scan_append, hfirst.scanned]
    exact hsecond.scanned
  above front hfront := by
    rcases front_append_cases hfront with hfront | ⟨others, rfl, hothers⟩
    · exact hfirst.above front hfront
    · rw [scan_append, hfirst.scanned]
      exact hsecond.above others hothers

theorem spans_unit {u : UInt16} (hstep : start.step u = some finish) (hstart : depth ≤ start.depth)
    (hfinish : depth ≤ finish.depth) : Spans depth start finish [u] where
  scanned := by
    rw [scan_cons, hstep]
    rfl
  above front hfront := by
    rcases List.prefix_cons_iff.mp hfront with rfl | ⟨others, rfl, hothers⟩
    · exact ⟨start, rfl, hstart⟩
    · rw [List.prefix_nil.mp hothers, scan_cons, hstep]
      exact ⟨finish, rfl, hfinish⟩

theorem spans_mono {lower : Nat} (h : Spans depth start finish text) (hlower : lower ≤ depth) :
    Spans lower start finish text where
  scanned := h.scanned
  above front hfront := by
    obtain ⟨place, hplace, hdepth⟩ := h.above front hfront
    exact ⟨place, hplace, Nat.le_trans hlower hdepth⟩

/-- Units that leave the scanner where it is. -/
theorem spans_of_stays (h : ∀ u ∈ text, start.step u = some start) :
    Spans start.depth start start text := by
  induction text with
  | nil => exact spans_nil (Nat.le_refl _)
  | cons u text ih =>
    rw [List.forall_mem_cons] at h
    exact spans_append (spans_unit h.1 (Nat.le_refl _) (Nat.le_refl _)) (ih h.2)

end Spans

/-! ## Strings -/

section Strings

variable (depth : Nat)

theorem step_inString {u : UInt16} (hbackslash : u ≠ 0x5c) (hquote : u ≠ 0x22) :
    step ⟨.inString, depth⟩ u = some ⟨.inString, depth⟩ := by
  unfold step
  dsimp only
  rw [if_neg hbackslash, if_neg hquote]

theorem spans_mode {mode next : JsonMode} {u : UInt16}
    (h : step ⟨mode, depth⟩ u = some ⟨next, depth⟩) :
    Spans depth ⟨mode, depth⟩ ⟨next, depth⟩ [u] :=
  spans_unit h (Nat.le_refl depth) (Nat.le_refl depth)

/-- A backslash and the unit behind it. -/
theorem spans_escape (u : UInt16) :
    Spans depth ⟨.inString, depth⟩ ⟨.inString, depth⟩ [0x5c, u] :=
  spans_append (spans_mode depth rfl : Spans depth _ ⟨.escaped, depth⟩ _) (spans_mode depth rfl)

theorem hexDigit_plain : ∀ n : Fin 16, hexDigit n ≠ 0x5c ∧ hexDigit n ≠ 0x22 := by
  decide

theorem spans_hexDigit {n : Nat} (h : n < 16) :
    Spans depth ⟨.inString, depth⟩ ⟨.inString, depth⟩ [hexDigit n] :=
  spans_mode depth (step_inString depth (hexDigit_plain ⟨n, h⟩).1 (hexDigit_plain ⟨n, h⟩).2)

theorem spans_unicodeEscape (u : UInt16) :
    Spans depth ⟨.inString, depth⟩ ⟨.inString, depth⟩ (unicodeEscape u) := by
  have hu : u.toNat < 65536 := u.toNat_lt
  have hfirst := @spans_hexDigit depth (u.toNat / 0x1000) (by omega)
  have hsecond := @spans_hexDigit depth (u.toNat / 0x100 % 0x10) (by omega)
  have hthird := @spans_hexDigit depth (u.toNat / 0x10 % 0x10) (by omega)
  have hfourth := @spans_hexDigit depth (u.toNat % 0x10) (by omega)
  exact spans_append (spans_escape depth 0x75)
    (spans_append hfirst (spans_append hsecond (spans_append hthird hfourth)))

theorem spans_quoteUnit (u : UInt16) :
    Spans depth ⟨.inString, depth⟩ ⟨.inString, depth⟩ (quoteUnit u) := by
  unfold quoteUnit
  split
  · exact spans_escape depth 0x22
  · next hquote =>
    split
    · exact spans_escape depth 0x5c
    · next hbackslash =>
      split
      · exact spans_escape depth 0x62
      · split
        · exact spans_escape depth 0x74
        · split
          · exact spans_escape depth 0x6e
          · split
            · exact spans_escape depth 0x66
            · split
              · exact spans_escape depth 0x72
              · split
                · exact spans_unicodeEscape depth u
                · exact spans_mode depth (step_inString depth hbackslash hquote)

theorem plain_of_surrogate {u : UInt16} (h : (isHighSurrogate u || isLowSurrogate u) = true) :
    u ≠ 0x5c ∧ u ≠ 0x22 := by
  constructor <;>
  · rintro rfl
    revert h
    decide

theorem spans_quoteUnits (text : JsText) :
    Spans depth ⟨.inString, depth⟩ ⟨.inString, depth⟩ (quoteUnits text) := by
  induction text using quoteUnits.induct with
  | case1 => exact spans_nil (Nat.le_refl _)
  | case2 u => exact spans_quoteUnit depth u
  | case3 u v rest hpair ih =>
    rw [quoteUnits, if_pos hpair]
    rw [Bool.and_eq_true] at hpair
    have hu := @plain_of_surrogate u (by rw [hpair.1, Bool.true_or])
    have hv := @plain_of_surrogate v (by rw [hpair.2, Bool.or_true])
    exact spans_append (spans_mode depth (step_inString depth hu.1 hu.2))
      (spans_append (spans_mode depth (step_inString depth hv.1 hv.2)) ih)
  | case4 u v rest hpair ih =>
    rw [quoteUnits, if_neg hpair]
    exact spans_append (spans_quoteUnit depth u) ih

theorem spans_quote (text : JsText) :
    Spans depth ⟨.outside, depth⟩ ⟨.outside, depth⟩ (quote text) := by
  have hopening : Spans depth ⟨.outside, depth⟩ ⟨.inString, depth⟩ [0x22] := spans_mode depth rfl
  have hclosing : Spans depth ⟨.inString, depth⟩ ⟨.outside, depth⟩ [0x22] := spans_mode depth rfl
  exact spans_append (spans_append hopening (spans_quoteUnits depth text)) hclosing

end Strings

/-! ## Values -/

/-- A unit of a printed number. -/
def isNumberUnit (u : UInt16) : Bool :=
  (0x30 ≤ u && u ≤ 0x39) || u == 0x2b || u == 0x2d || u == 0x2e || u == 0x45 || u == 0x65

mutual
/-- Every number of a value is a printed one. -/
def numbersPrinted : Json → Bool
  | .num text => text.all isNumberUnit
  | .arr items => numbersPrintedItems items
  | .obj fields => numbersPrintedFields fields
  | _ => true

def numbersPrintedItems : List Json → Bool
  | [] => true
  | item :: items => numbersPrinted item && numbersPrintedItems items

def numbersPrintedFields : List (JsText × Json) → Bool
  | [] => true
  | (_, value) :: fields => numbersPrinted value && numbersPrintedFields fields
end

/-- A unit outside strings that opens or closes nothing. -/
def isPlain (u : UInt16) : Bool :=
  u != 0x22 && u != 0x5b && u != 0x7b && u != 0x5d && u != 0x7d && decide (u < 0x80)

theorem isPlain_of_number {u : UInt16} (h : isNumberUnit u = true) : isPlain u = true := by
  unfold isNumberUnit at h
  unfold isPlain
  simp only [Bool.or_eq_true, Bool.and_eq_true, decide_eq_true_eq, beq_iff_eq] at h
  simp only [Bool.and_eq_true, bne_iff_ne, decide_eq_true_eq]
  rcases h with ((((⟨hlow, hhigh⟩ | rfl) | rfl) | rfl) | rfl) | rfl
  · refine ⟨⟨⟨⟨⟨?_, ?_⟩, ?_⟩, ?_⟩, ?_⟩, UInt16.lt_of_le_of_lt hhigh (by decide)⟩ <;>
    · rintro rfl
      revert hlow hhigh
      decide
  all_goals decide

section Values

variable (depth : Nat)

theorem step_plain {u : UInt16} (h : isPlain u = true) :
    step ⟨.outside, depth⟩ u = some ⟨.outside, depth⟩ := by
  unfold isPlain at h
  simp only [Bool.and_eq_true, bne_iff_ne, decide_eq_true_eq] at h
  obtain ⟨⟨⟨⟨⟨hquote, hitems⟩, hfields⟩, hitemsEnd⟩, hfieldsEnd⟩, hascii⟩ := h
  unfold step
  dsimp only
  rw [if_neg hquote, if_neg (not_or.mpr ⟨hitems, hfields⟩),
    if_neg (not_or.mpr ⟨hitemsEnd, hfieldsEnd⟩), if_pos hascii]

theorem spans_plain {text : JsText} (h : text.all isPlain = true) :
    Spans depth ⟨.outside, depth⟩ ⟨.outside, depth⟩ text :=
  spans_of_stays fun u hu => step_plain depth (List.all_eq_true.mp h u hu)

theorem spans_joined {parts : List JsText}
    (h : ∀ part ∈ parts, Spans depth ⟨.outside, depth⟩ ⟨.outside, depth⟩ part) :
    Spans depth ⟨.outside, depth⟩ ⟨.outside, depth⟩ (parts.intersperse comma).flatten := by
  induction parts with
  | nil => exact spans_nil (Nat.le_refl depth)
  | cons part parts ih =>
    rw [List.forall_mem_cons] at h
    cases parts with
    | nil =>
      rw [List.intersperse_singleton, List.flatten_singleton]
      exact h.1
    | cons next parts =>
      rw [List.intersperse_cons_cons, List.flatten_cons, List.flatten_cons]
      exact spans_append h.1 (spans_append (spans_plain depth rfl) (ih h.2))

/-- Brackets around printed parts. -/
theorem spans_bracketed {opening closing : UInt16} {parts : List JsText}
    (hopening : step ⟨.outside, depth⟩ opening = some ⟨.outside, depth + 1⟩)
    (hclosing : step ⟨.outside, depth + 1⟩ closing = some ⟨.outside, depth⟩)
    (h : ∀ part ∈ parts, Spans (depth + 1) ⟨.outside, depth + 1⟩ ⟨.outside, depth + 1⟩ part) :
    Spans depth ⟨.outside, depth⟩ ⟨.outside, depth⟩ (bracketed opening closing parts) :=
  spans_append (spans_append (spans_unit hopening (Nat.le_refl depth) (Nat.le_succ depth))
    (spans_mono (spans_joined (depth + 1) h) (Nat.le_succ depth)))
    (spans_unit hclosing (Nat.le_succ depth) (Nat.le_refl depth))

end Values

mutual
/-- A printed value leaves the scanner where it was, and never under it. -/
theorem spans_stringify (depth : Nat) : (value : Json) → numbersPrinted value = true →
    Spans depth ⟨.outside, depth⟩ ⟨.outside, depth⟩ (stringify value)
  | .null, _ => spans_plain depth (by decide)
  | .bool true, _ => spans_plain depth (by decide)
  | .bool false, _ => spans_plain depth (by decide)
  | .num text, h => by
    rw [numbersPrinted] at h
    rw [stringify]
    exact spans_plain depth (List.all_eq_true.mpr fun u hu =>
      isPlain_of_number (List.all_eq_true.mp h u hu))
  | .str text, _ => by
    rw [stringify]
    exact spans_quote depth text
  | .arr items, h => by
    rw [numbersPrinted] at h
    rw [stringify]
    exact spans_bracketed depth rfl rfl (spans_items (depth + 1) items h)
  | .obj fields, h => by
    rw [numbersPrinted] at h
    rw [stringify]
    exact spans_bracketed depth rfl rfl (spans_fields (depth + 1) fields h)

theorem spans_items (depth : Nat) : (items : List Json) → numbersPrintedItems items = true →
    ∀ part ∈ stringifyItems items, Spans depth ⟨.outside, depth⟩ ⟨.outside, depth⟩ part
  | [], _ => by
    rw [stringifyItems]
    exact List.forall_mem_nil _
  | item :: items, h => by
    rw [numbersPrintedItems, Bool.and_eq_true] at h
    rw [stringifyItems]
    exact List.forall_mem_cons.mpr ⟨spans_stringify depth item h.1, spans_items depth items h.2⟩

theorem spans_fields (depth : Nat) : (fields : List (JsText × Json)) →
    numbersPrintedFields fields = true →
    ∀ part ∈ stringifyFields fields, Spans depth ⟨.outside, depth⟩ ⟨.outside, depth⟩ part
  | [], _ => by
    rw [stringifyFields]
    exact List.forall_mem_nil _
  | (key, value) :: fields, h => by
    rw [numbersPrintedFields, Bool.and_eq_true] at h
    rw [stringifyFields]
    have hcolon : Spans depth ⟨.outside, depth⟩ ⟨.outside, depth⟩ [0x3a] := spans_plain depth rfl
    exact List.forall_mem_cons.mpr ⟨spans_append (spans_quote depth key)
      (spans_append hcolon (spans_stringify depth value h.1)), spans_fields depth fields h.2⟩
end

/-! ## Fronts of a printed object -/

/-- A proper front of a printed object has open brackets, unless it is empty. -/
theorem open_front {fields : List (JsText × Json)} (hnumbers : numbersPrinted (.obj fields) = true)
    {front : JsText} (hfront : front <+: stringify (.obj fields))
    (hproper : front ≠ stringify (.obj fields)) :
    front = [] ∨ ∃ place, scan front ⟨.outside, 0⟩ = some place ∧ 1 ≤ place.depth := by
  rw [numbersPrinted] at hnumbers
  rw [stringify] at hfront hproper
  have hbody := spans_joined 1 (spans_fields 1 fields hnumbers)
  rcases List.prefix_cons_iff.mp hfront with rfl | ⟨inner, rfl, hinner⟩
  · exact .inl rfl
  · refine .inr ?_
    have hscan : scan (0x7b :: inner) ⟨.outside, 0⟩ = scan inner ⟨.outside, 1⟩ := rfl
    rw [hscan]
    rcases front_append_cases hinner with hinside | ⟨others, rfl, hothers⟩
    · exact hbody.above inner hinside
    · rcases List.prefix_cons_iff.mp hothers with rfl | ⟨more, rfl, hmore⟩
      · rw [List.append_nil]
        exact hbody.above _ List.prefix_rfl
      · obtain rfl := List.prefix_nil.mp hmore
        exact absurd rfl hproper

/-- A proper front of a printed object is not shaped, also with the mark of a cut character. -/
theorem not_shaped_front {fields : List (JsText × Json)}
    (hnumbers : numbersPrinted (.obj fields) = true) {front : JsText}
    (hfront : front <+: stringify (.obj fields)) (hproper : front ≠ stringify (.obj fields)) :
    ¬ Shaped front ∧ ¬ Shaped (front ++ [0xfffd]) := by
  rcases open_front hnumbers hfront hproper with rfl | ⟨place, hscan, hdepth⟩
  · constructor
    · exact fun h => h.1 rfl
    · rintro ⟨-, h⟩
      revert h
      decide
  · constructor
    · rintro ⟨-, h⟩
      rw [hscan] at h
      obtain rfl := Option.some.inj h
      cases hdepth
    · rintro ⟨-, h⟩
      rw [scan_append, hscan] at h
      obtain ⟨mode, depth⟩ := place
      cases mode with
      | outside => cases h
      | inString => cases h
      | escaped => cases h

/-- A shaped text is not shaped with the mark of a cut character behind it. -/
theorem not_shaped_marked {text : JsText} (h : Shaped text) : ¬ Shaped (text ++ [0xfffd]) := by
  rintro ⟨-, hmarked⟩
  rw [scan_append, h.2] at hmarked
  cases hmarked

theorem shaped_stringify {fields : List (JsText × Json)}
    (hnumbers : numbersPrinted (.obj fields) = true) : Shaped (stringify (.obj fields)) := by
  refine ⟨?_, (spans_stringify 0 _ hnumbers).scanned⟩
  rw [stringify]
  exact List.cons_ne_nil _ _

/-! ## The characters of printed values -/

/-- No control characters, and every surrogate in a pair. -/
structure Printed (text : JsText) : Prop where
  wellFormed : hasWellFormedUnicode text = true
  visible : ∀ u ∈ text, 0x20 ≤ u

theorem printed_nil : Printed [] := ⟨rfl, List.forall_mem_nil _⟩

theorem printed_append {first second : JsText} (hfirst : Printed first) (hsecond : Printed second) :
    Printed (first ++ second) where
  wellFormed := hasWellFormedUnicode_append hfirst.wellFormed hsecond.wellFormed
  visible := List.forall_mem_append.mpr ⟨hfirst.visible, hsecond.visible⟩

theorem printed_unit {u : UInt16} (hvisible : 0x20 ≤ u)
    (h : (isHighSurrogate u || isLowSurrogate u) = false) : Printed [u] where
  wellFormed := by
    rw [hasWellFormedUnicode, h]
    rfl
  visible := List.forall_mem_singleton.mpr hvisible

/-- The printable characters of ASCII. -/
def isPrintable (u : UInt16) : Bool := 0x20 ≤ u && u < 0x80

theorem printed_printable {u : UInt16} (h : isPrintable u = true) : Printed [u] := by
  unfold isPrintable at h
  simp only [Bool.and_eq_true, decide_eq_true_eq] at h
  refine printed_unit h.1 ?_
  have hu : u.toNat < 0x80 := h.2
  rw [Bool.or_eq_false_iff, Bool.eq_false_iff, Bool.eq_false_iff, Ne, Ne, isHighSurrogate_iff,
    isLowSurrogate_iff]
  omega

theorem printed_ascii {text : JsText} (h : text.all isPrintable = true) : Printed text := by
  induction text with
  | nil => exact printed_nil
  | cons u text ih =>
    rw [List.all_cons, Bool.and_eq_true] at h
    exact printed_append (printed_printable h.1) (ih h.2)

theorem hexDigit_printable : ∀ n : Fin 16, isPrintable (hexDigit n) = true := by
  decide

theorem printed_unicodeEscape (u : UInt16) : Printed (unicodeEscape u) := by
  have hu : u.toNat < 65536 := u.toNat_lt
  refine printed_ascii ?_
  unfold unicodeEscape
  simp only [List.all_append, List.all_cons, List.all_nil, Bool.and_true, Bool.and_eq_true]
  exact ⟨by decide, hexDigit_printable ⟨_, by omega⟩, hexDigit_printable ⟨_, by omega⟩,
    hexDigit_printable ⟨_, by omega⟩, hexDigit_printable ⟨_, by omega⟩⟩

theorem printed_quoteUnit (u : UInt16) : Printed (quoteUnit u) := by
  unfold quoteUnit
  repeat' split
  case isFalse.isFalse.isFalse.isFalse.isFalse.isFalse.isFalse.isTrue =>
    exact printed_unicodeEscape u
  case isFalse.isFalse.isFalse.isFalse.isFalse.isFalse.isFalse.isFalse h =>
    rw [not_or, not_or, Bool.not_eq_true, Bool.not_eq_true] at h
    exact printed_unit (UInt16.not_lt.mp h.1) (by rw [h.2.1, h.2.2]; rfl)
  all_goals exact printed_ascii (by decide)

theorem printed_quoteUnits (text : JsText) : Printed (quoteUnits text) := by
  induction text using quoteUnits.induct with
  | case1 => exact printed_nil
  | case2 u => exact printed_quoteUnit u
  | case3 u v rest hpair ih =>
    rw [quoteUnits, if_pos hpair]
    rw [Bool.and_eq_true] at hpair
    have hwhole : Printed [u, v] := by
      refine ⟨?_, ?_⟩
      · rw [hasWellFormedUnicode, if_pos hpair.1, hpair.2]
        rfl
      · have hhigh := (isHighSurrogate_iff u).mp hpair.1
        have hlow := (isLowSurrogate_iff v).mp hpair.2
        have hlower : (0x20 : UInt16).toNat ≤ 0xd800 := by decide
        refine List.forall_mem_cons.mpr ⟨?_, List.forall_mem_singleton.mpr ?_⟩ <;>
        · rw [UInt16.le_iff_toNat_le]
          omega
    exact printed_append hwhole ih
  | case4 u v rest hpair ih =>
    rw [quoteUnits, if_neg hpair]
    exact printed_append (printed_quoteUnit u) ih

theorem printed_quote (text : JsText) : Printed (quote text) :=
  printed_append (printed_append (printed_ascii (by decide) : Printed [0x22])
    (printed_quoteUnits text)) (printed_ascii (by decide))

theorem printed_joined {parts : List JsText} (h : ∀ part ∈ parts, Printed part) :
    Printed (parts.intersperse comma).flatten := by
  induction parts with
  | nil => exact printed_nil
  | cons part parts ih =>
    rw [List.forall_mem_cons] at h
    cases parts with
    | nil =>
      rw [List.intersperse_singleton, List.flatten_singleton]
      exact h.1
    | cons next parts =>
      rw [List.intersperse_cons_cons, List.flatten_cons, List.flatten_cons]
      exact printed_append h.1 (printed_append (printed_ascii (by decide)) (ih h.2))

theorem printed_bracketed {opening closing : UInt16} {parts : List JsText}
    (hopening : isPrintable opening = true) (hclosing : isPrintable closing = true)
    (h : ∀ part ∈ parts, Printed part) : Printed (bracketed opening closing parts) :=
  printed_append (printed_append (printed_printable hopening) (printed_joined h))
    (printed_printable hclosing)

theorem isPrintable_of_number {u : UInt16} (h : isNumberUnit u = true) : isPrintable u = true := by
  unfold isNumberUnit at h
  unfold isPrintable
  simp only [Bool.or_eq_true, Bool.and_eq_true, decide_eq_true_eq, beq_iff_eq] at h
  simp only [Bool.and_eq_true, decide_eq_true_eq]
  rcases h with ((((⟨hlow, hhigh⟩ | rfl) | rfl) | rfl) | rfl) | rfl
  · exact ⟨UInt16.le_trans (by decide) hlow, UInt16.lt_of_le_of_lt hhigh (by decide)⟩
  all_goals decide

mutual
/-- A printed value has no control characters and no unpaired surrogates. -/
theorem printed_stringify : (value : Json) → numbersPrinted value = true → Printed (stringify value)
  | .null, _ => printed_ascii (by decide)
  | .bool true, _ => printed_ascii (by decide)
  | .bool false, _ => printed_ascii (by decide)
  | .num text, h => by
    rw [numbersPrinted] at h
    rw [stringify]
    exact printed_ascii (List.all_eq_true.mpr fun u hu =>
      isPrintable_of_number (List.all_eq_true.mp h u hu))
  | .str text, _ => by
    rw [stringify]
    exact printed_quote text
  | .arr items, h => by
    rw [numbersPrinted] at h
    rw [stringify]
    exact printed_bracketed (by decide) (by decide) (printed_items items h)
  | .obj fields, h => by
    rw [numbersPrinted] at h
    rw [stringify]
    exact printed_bracketed (by decide) (by decide) (printed_fields fields h)

theorem printed_items : (items : List Json) → numbersPrintedItems items = true →
    ∀ part ∈ stringifyItems items, Printed part
  | [], _ => by
    rw [stringifyItems]
    exact List.forall_mem_nil _
  | item :: items, h => by
    rw [numbersPrintedItems, Bool.and_eq_true] at h
    rw [stringifyItems]
    exact List.forall_mem_cons.mpr ⟨printed_stringify item h.1, printed_items items h.2⟩

theorem printed_fields : (fields : List (JsText × Json)) → numbersPrintedFields fields = true →
    ∀ part ∈ stringifyFields fields, Printed part
  | [], _ => by
    rw [stringifyFields]
    exact List.forall_mem_nil _
  | (key, value) :: fields, h => by
    rw [numbersPrintedFields, Bool.and_eq_true] at h
    rw [stringifyFields]
    exact List.forall_mem_cons.mpr ⟨printed_append (printed_quote key)
      (printed_append (printed_ascii (by decide) : Printed [0x3a]) (printed_stringify value h.1)),
      printed_fields fields h.2⟩
end

end Henji.JsonShape
