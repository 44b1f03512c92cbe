import Henji.Library.Surrogates

/-!
# The edit tool

`edit` replaces each of several texts of a file by another. All texts are looked for in the original,
each must occur once, and the spans found must not overlap. The file is replaced only if it is still
what was read.

How the path is checked, and how the bytes reach the disk, is left to the modules of the file tools.
-/

namespace Henji.EditTool

def MAX_TEXT_BYTES : Nat := 65536
def MAX_EDIT_FILE_BYTES : Nat := 1048576

structure EditOperation where
  oldText : JsText
  newText : JsText
deriving DecidableEq

inductive EditError where
  | invalidArguments
  /-- `edit ${index + 1} oldText is empty`. -/
  | emptyOldText (number : Nat)
  /-- `edit ${index + 1} does not change content`. -/
  | unchanged (number : Nat)
  | tooLarge
  | notText
  /-- `edit ${index + 1} oldText was not found`. -/
  | notFound (number : Nat)
  /-- `edit ${index + 1} oldText is not unique`. -/
  | notUnique (number : Nat)
  | overlap
  | failed
deriving DecidableEq, Repr

/-! ## Arguments -/

def validTextArgument (text : JsText) (maxBytes : Nat) : Bool :=
  hasWellFormedUnicode text && !text.contains 0 && (encodeUtf8 text).length ≤ maxBytes

def checkOperations : Nat → List EditOperation → Except EditError Unit
  | _, [] => .ok ()
  | number, operation :: operations =>
    if !validTextArgument operation.oldText MAX_TEXT_BYTES ||
        !validTextArgument operation.newText MAX_TEXT_BYTES then .error .invalidArguments
    else if operation.oldText.length = 0 then .error (.emptyOldText number)
    else if operation.oldText = operation.newText then .error (.unchanged number)
    else checkOperations (number + 1) operations

/-! ## Reading the file -/

def decodeText (bytes : List UInt8) : Except EditError JsText :=
  if MAX_EDIT_FILE_BYTES < bytes.length then .error .tooLarge
  else match decodePoints bytes with
    | none => .error .notText
    | some points =>
      let text := points.flatMap pointUnits
      if text.contains 0 then .error .notText else .ok text

/-! ## Spans -/

structure Span where
  start : Nat
  stop : Nat
  operation : EditOperation

/-- `text.indexOf(pattern, from)`, for a text whose front of `position` units is dropped. -/
def indexFrom (pattern : JsText) : Nat → JsText → Option Nat
  | _, [] => none
  | position, u :: text =>
    if pattern.isPrefixOf (u :: text) then some position
    else indexFrom pattern (position + 1) text

def indexOf (text pattern : JsText) (start : Nat) : Option Nat :=
  indexFrom pattern start (text.drop start)

def findSpans (text : JsText) : Nat → List EditOperation → Except EditError (List Span)
  | _, [] => .ok []
  | number, operation :: operations =>
    match indexOf text operation.oldText 0 with
    | none => .error (.notFound number)
    | some first =>
      if (indexOf text operation.oldText (first + 1)).isSome then .error (.notUnique number)
      else do
        let spans ← findSpans text (number + 1) operations
        return ⟨first, first + operation.oldText.length, operation⟩ :: spans

def startsBefore (left right : Span) : Bool := left.start ≤ right.start

def sortSpans (spans : List Span) : List Span := spans.mergeSort startsBefore

def overlaps : List Span → Bool
  | left :: right :: spans => left.stop > right.start || overlaps (right :: spans)
  | _ => false

/-- The text with the spans replaced, from the end of the last span on. -/
def replaceFrom (text : JsText) : Nat → List Span → JsText
  | cursor, [] => text.drop cursor
  | cursor, span :: spans =>
    (text.drop cursor).take (span.start - cursor) ++ span.operation.newText ++
      replaceFrom text span.stop spans

/-- The bytes to write, unless the file is no longer what was read. -/
def writeBack (text : JsText) (spans : List Span) (bytes latest : List UInt8) :
    Except EditError (List UInt8) :=
  if overlaps spans then .error .overlap
  else
    let encoded := encodeUtf8 (replaceFrom text 0 spans)
    if MAX_EDIT_FILE_BYTES < encoded.length then .error .tooLarge
    else if bytes ≠ latest then .error .failed
    else .ok encoded

/-- `bytes` and `latest` are the bytes of the file at the first and at the last look at it. -/
def execute (operations : List EditOperation) (bytes latest : List UInt8) :
    Except EditError (List UInt8) :=
  if operations.length < 1 ∨ 32 < operations.length then .error .invalidArguments
  else do
    checkOperations 1 operations
    let text ← decodeText bytes
    let spans ← findSpans text 1 operations
    writeBack text (sortSpans spans) bytes latest

end Henji.EditTool
