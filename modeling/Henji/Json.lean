/-!
# JSON values and text

Text is a sequence of UTF-16 code units, as in the source language: an unpaired surrogate is a
legal member of a text and becomes U+FFFD when the text is encoded.

A JSON object keeps its fields in property enumeration order. A number is the text that printing
the number gives; printing and reading are inverse on these texts.
-/

namespace Henji

/-- A text of the source language: UTF-16 code units. -/
abbrev JsText := List UInt16

/-- The code units of a literal of the basic plane. -/
def js (s : String) : JsText := s.toList.map fun c => UInt16.ofNat c.toNat

/-! ## UTF-8 -/

def isHighSurrogate (u : UInt16) : Bool := 0xd800 ≤ u ∧ u ≤ 0xdbff
def isLowSurrogate (u : UInt16) : Bool := 0xdc00 ≤ u ∧ u ≤ 0xdfff

/-- The code point of a surrogate pair. -/
def pairPoint (high low : UInt16) : Nat :=
  0x10000 + (high.toNat - 0xd800) * 0x400 + (low.toNat - 0xdc00)

/-- The code points of a text; an unpaired surrogate becomes U+FFFD. -/
def codePoints : JsText → List Nat
  | [] => []
  | [u] => if isHighSurrogate u || isLowSurrogate u then [0xfffd] else [u.toNat]
  | u :: v :: rest =>
    if isHighSurrogate u && isLowSurrogate v then pairPoint u v :: codePoints rest
    else if isHighSurrogate u || isLowSurrogate u then 0xfffd :: codePoints (v :: rest)
    else u.toNat :: codePoints (v :: rest)

/-- The UTF-8 bytes of one code point. -/
def encodePoint (n : Nat) : List UInt8 :=
  if n < 0x80 then [UInt8.ofNat n]
  else if n < 0x800 then [UInt8.ofNat (0xc0 + n / 0x40), UInt8.ofNat (0x80 + n % 0x40)]
  else if n < 0x10000 then
    [UInt8.ofNat (0xe0 + n / 0x1000), UInt8.ofNat (0x80 + n / 0x40 % 0x40),
      UInt8.ofNat (0x80 + n % 0x40)]
  else
    [UInt8.ofNat (0xf0 + n / 0x40000), UInt8.ofNat (0x80 + n / 0x1000 % 0x40),
      UInt8.ofNat (0x80 + n / 0x40 % 0x40), UInt8.ofNat (0x80 + n % 0x40)]

/-- `TextEncoder.encode`. -/
def encodeUtf8 (text : JsText) : List UInt8 := (codePoints text).flatMap encodePoint

/-- The code units of one code point. -/
def pointUnits (n : Nat) : JsText :=
  if n < 0x10000 then [UInt16.ofNat n]
  else [UInt16.ofNat (0xd800 + (n - 0x10000) / 0x400), UInt16.ofNat (0xdc00 + (n - 0x10000) % 0x400)]

def isContinuation (b : UInt8) : Bool := b &&& 0xc0 == 0x80

/-- The six payload bits of a continuation byte. -/
def low6 (b : UInt8) : Nat := b.toNat - 0x80

/-- The code points of well-formed bytes; `none` where the fatal decoder throws. Overlong forms,
surrogates and points past U+10FFFF are not well formed. -/
def decodePoints : List UInt8 → Option (List Nat)
  | [] => some []
  | a :: rest =>
    if a < 0x80 then (decodePoints rest).map (a.toNat :: ·)
    else match rest with
    | b :: rest =>
      let two := (a.toNat - 0xc0) * 0x40 + low6 b
      if a < 0xe0 then
        if 0x80 ≤ two ∧ isContinuation b then (decodePoints rest).map (two :: ·) else none
      else match rest with
      | c :: rest =>
        let three := ((a.toNat - 0xe0) * 0x40 + low6 b) * 0x40 + low6 c
        if a < 0xf0 then
          if 0x800 ≤ three ∧ ¬ (0xd800 ≤ three ∧ three ≤ 0xdfff) ∧ isContinuation b ∧
              isContinuation c then
            (decodePoints rest).map (three :: ·)
          else none
        else match rest with
        | d :: rest =>
          let four := (((a.toNat - 0xf0) * 0x40 + low6 b) * 0x40 + low6 c) * 0x40 + low6 d
          if 0x10000 ≤ four ∧ four ≤ 0x10ffff ∧ isContinuation b ∧ isContinuation c ∧
              isContinuation d then
            (decodePoints rest).map (four :: ·)
          else none
        | [] => none
      | [] => none
    | [] => none

/-- `TextDecoder.decode`: a leading byte order mark is dropped. -/
def decodeUtf8 (bytes : List UInt8) : Option JsText :=
  (decodePoints bytes).map fun points =>
    (match points with
      | 0xfeff :: rest => rest
      | points => points).flatMap pointUnits

/-! ## Checks on text -/

/-- The code points that `trim` removes. -/
def isTrimmed (n : Nat) : Bool :=
  (0x9 ≤ n && n ≤ 0xd) || n == 0x20 || n == 0xa0 || n == 0x1680 || (0x2000 ≤ n && n ≤ 0x200a) ||
    n == 0x2028 || n == 0x2029 || n == 0x202f || n == 0x205f || n == 0x3000 || n == 0xfeff

/-- `text.trim().length === 0`. -/
def isBlank (text : JsText) : Bool := text.all fun u => isTrimmed u.toNat

/-- `name.trim() === ''`. -/
def isBlankName (name : String) : Bool := name.toList.all fun c => isTrimmed c.toNat

/-- Every surrogate of the text belongs to a pair. -/
def hasWellFormedUnicode : JsText → Bool
  | [] => true
  | [u] => !(isHighSurrogate u || isLowSurrogate u)
  | u :: v :: rest =>
    if isHighSurrogate u then isLowSurrogate v && hasWellFormedUnicode rest
    else !isLowSurrogate u && hasWellFormedUnicode (v :: rest)

/-! ## JSON -/

/-- A JSON value. -/
inductive Json where
  | null
  | bool (value : Bool)
  | num (text : JsText)
  | str (text : JsText)
  | arr (items : List Json)
  | obj (fields : List (JsText × Json))

namespace Json

mutual
/-- Equality of JSON values is decided along the two values. -/
def decEq : (a b : Json) → Decidable (a = b)
  | .null, .null => isTrue rfl
  | .bool a, .bool b =>
    if h : a = b then isTrue (congrArg _ h) else isFalse fun h' => h (Json.bool.inj h')
  | .num a, .num b =>
    if h : a = b then isTrue (congrArg _ h) else isFalse fun h' => h (Json.num.inj h')
  | .str a, .str b =>
    if h : a = b then isTrue (congrArg _ h) else isFalse fun h' => h (Json.str.inj h')
  | .arr a, .arr b => match decEqItems a b with
    | isTrue h => isTrue (congrArg _ h)
    | isFalse h => isFalse fun h' => h (Json.arr.inj h')
  | .obj a, .obj b => match decEqFields a b with
    | isTrue h => isTrue (congrArg _ h)
    | isFalse h => isFalse fun h' => h (Json.obj.inj h')
  | .null, .bool _ | .null, .num _ | .null, .str _ | .null, .arr _ | .null, .obj _
  | .bool _, .null | .bool _, .num _ | .bool _, .str _ | .bool _, .arr _ | .bool _, .obj _
  | .num _, .null | .num _, .bool _ | .num _, .str _ | .num _, .arr _ | .num _, .obj _
  | .str _, .null | .str _, .bool _ | .str _, .num _ | .str _, .arr _ | .str _, .obj _
  | .arr _, .null | .arr _, .bool _ | .arr _, .num _ | .arr _, .str _ | .arr _, .obj _
  | .obj _, .null | .obj _, .bool _ | .obj _, .num _ | .obj _, .str _ | .obj _, .arr _ =>
    isFalse nofun

def decEqItems : (a b : List Json) → Decidable (a = b)
  | [], [] => isTrue rfl
  | a :: as, b :: bs => match decEq a b, decEqItems as bs with
    | isTrue h, isTrue h' => isTrue (by rw [h, h'])
    | isFalse h, _ => isFalse fun e => h (List.cons.inj e).1
    | _, isFalse h => isFalse fun e => h (List.cons.inj e).2
  | [], _ :: _ | _ :: _, [] => isFalse nofun

def decEqFields : (a b : List (JsText × Json)) → Decidable (a = b)
  | [], [] => isTrue rfl
  | (k, a) :: as, (k', b) :: bs =>
    if hk : k = k' then match decEq a b, decEqFields as bs with
      | isTrue h, isTrue h' => isTrue (by rw [hk, h, h'])
      | isFalse h, _ => isFalse fun e => h (Prod.mk.inj (List.cons.inj e).1).2
      | _, isFalse h => isFalse fun e => h (List.cons.inj e).2
    else isFalse fun e => hk (Prod.mk.inj (List.cons.inj e).1).1
  | [], _ :: _ | _ :: _, [] => isFalse nofun
end

instance : DecidableEq Json := decEq

end Json

/-! ## Printing -/

def hexDigit (n : Nat) : UInt16 := UInt16.ofNat (if n < 10 then 0x30 + n else 0x57 + n)

def unicodeEscape (u : UInt16) : JsText :=
  js "\\u" ++ [hexDigit (u.toNat / 0x1000), hexDigit (u.toNat / 0x100 % 0x10),
    hexDigit (u.toNat / 0x10 % 0x10), hexDigit (u.toNat % 0x10)]

/-- One code unit inside a JSON string, outside a surrogate pair. -/
def quoteUnit (u : UInt16) : JsText :=
  if u = 0x22 then js "\\\""
  else if u = 0x5c then js "\\\\"
  else if u = 0x08 then js "\\b"
  else if u = 0x09 then js "\\t"
  else if u = 0x0a then js "\\n"
  else if u = 0x0c then js "\\f"
  else if u = 0x0d then js "\\r"
  else if u < 0x20 ∨ isHighSurrogate u ∨ isLowSurrogate u then unicodeEscape u
  else [u]

def quoteUnits : JsText → JsText
  | [] => []
  | [u] => quoteUnit u
  | u :: v :: rest =>
    if isHighSurrogate u && isLowSurrogate v then u :: v :: quoteUnits rest
    else quoteUnit u ++ quoteUnits (v :: rest)

/-- `JSON.stringify` of a string. -/
def quote (text : JsText) : JsText := 0x22 :: quoteUnits text ++ [0x22]

def comma : JsText := [0x2c]

/-- `[a,b]` and `{a,b}` around printed parts. -/
def bracketed (opening closing : UInt16) (parts : List JsText) : JsText :=
  opening :: (parts.intersperse comma).flatten ++ [closing]

mutual
/-- `JSON.stringify`: fields in property enumeration order. -/
def stringify : Json → JsText
  | .null => js "null"
  | .bool value => js (if value then "true" else "false")
  | .num text => text
  | .str text => quote text
  | .arr items => bracketed 0x5b 0x5d (stringifyItems items)
  | .obj fields => bracketed 0x7b 0x7d (stringifyFields fields)

def stringifyItems : List Json → List JsText
  | [] => []
  | item :: items => stringify item :: stringifyItems items

def stringifyFields : List (JsText × Json) → List JsText
  | [] => []
  | (key, value) :: fields => (quote key ++ 0x3a :: stringify value) :: stringifyFields fields
end

/-- The order of the default `sort()`: by UTF-16 code units. -/
def textLE : JsText → JsText → Bool
  | [], _ => true
  | _ :: _, [] => false
  | a :: as, b :: bs => a < b || (a == b && textLE as bs)

/-- `Object.keys(object).sort()`, with the values. -/
def sortByKey {α : Type} (fields : List (JsText × α)) : List (JsText × α) :=
  fields.mergeSort fun a b => textLE a.1 b.1

mutual
/-- Canonical JSON keeps arrays ordered and recursively sorts object keys. -/
def canonicalJson : Json → JsText
  | .null => js "null"
  | .bool value => js (if value then "true" else "false")
  | .num text => text
  | .str text => quote text
  | .arr items => bracketed 0x5b 0x5d (canonicalItems items)
  | .obj fields => bracketed 0x7b 0x7d
      ((sortByKey (canonicalFields fields)).map fun (key, text) => quote key ++ 0x3a :: text)

def canonicalItems : List Json → List JsText
  | [] => []
  | item :: items => canonicalJson item :: canonicalItems items

def canonicalFields : List (JsText × Json) → List (JsText × JsText)
  | [] => []
  | (key, value) :: fields => (key, canonicalJson value) :: canonicalFields fields
end

end Henji
