import Henji.Json

/-!
# The steering lane of a turn

One message may be admitted while a turn runs, and the loop consumes it at most once.

Results:
1. `consume_spent`: once a text has been consumed, no admission brings another.
-/

namespace Henji

/-- Maximum UTF-8 bytes admitted for one mid-turn steering message. -/
def maxSteeringTextBytes : Nat := 65536

/-- Validation of a steering value; `none` is a value that is not a string. -/
def validateSteeringText (value : Option JsText) : Except String JsText :=
  match value with
  | none => .error "steering text must not be blank"
  | some text =>
    if isBlank text then .error "steering text must not be blank"
    else if text.contains 0 then .error "steering text must not contain NUL"
    else if !hasWellFormedUnicode text then .error "steering text must be well-formed Unicode"
    else if maxSteeringTextBytes < (encodeUtf8 text).length then
      .error "steering text exceeds 65536 UTF-8 bytes"
    else .ok text

inductive SteeringState where
  | openEmpty
  | pending
  | consumed
  | closed
deriving DecidableEq, Repr

inductive SteerRequestResult where
  | accepted
  | idle
  | alreadyAccepted
deriving DecidableEq, Repr

/-- The one-message owner of one accepted turn. -/
structure SteeringOwner where
  state : SteeringState
  admitted : Bool
  pendingText : Option JsText
deriving DecidableEq, Repr

namespace SteeringOwner

/-- A new owner. -/
def create : SteeringOwner := ⟨.openEmpty, false, none⟩

/-- `admit(value)`: an invalid value throws before the owner is read. -/
def admitValue (owner : SteeringOwner) (value : Option JsText) :
    Except String SteerRequestResult × SteeringOwner :=
  match validateSteeringText value with
  | .error message => (.error message, owner)
  | .ok text =>
    if owner.state = .closed then
      (.ok (if owner.admitted then .alreadyAccepted else .idle), owner)
    else if owner.admitted ∨ owner.state = .pending ∨ owner.state = .consumed then
      (.ok .alreadyAccepted, owner)
    else
      (.ok .accepted, { state := .pending, admitted := true, pendingText := some text })

/-- `consume()`: take the pending message at the loop's continuation boundary. -/
def consume (owner : SteeringOwner) : Option JsText × SteeringOwner :=
  match owner.state with
  | .pending => (owner.pendingText, { owner with pendingText := none, state := .consumed })
  | _ => (none, owner)

/-- `close()`: a pending text is discarded. -/
def close (owner : SteeringOwner) : SteeringOwner :=
  { owner with pendingText := none, state := .closed }

/-! ## The lane gives one text -/

/-- The lane has given its text or is closed. -/
def Spent (owner : SteeringOwner) : Prop := owner.state = .consumed ∨ owner.state = .closed

variable {owner : SteeringOwner}

theorem spent_consume {text : JsText} (h : owner.consume.1 = some text) :
    owner.consume.2.Spent := by
  unfold consume at h ⊢
  cases hs : owner.state with
  | pending => exact .inl rfl
  | openEmpty | consumed | closed =>
    rw [hs] at h
    cases h

/-- No admission reopens a spent lane. -/
theorem spent_admitted (h : owner.Spent) (value : Option JsText) :
    (owner.admitValue value).2.Spent := by
  unfold admitValue
  cases validateSteeringText value with
  | error _ => exact h
  | ok text =>
    dsimp only
    split
    · exact h
    · next hopen =>
      have hc : owner.state = .consumed := h.resolve_right hopen
      rw [if_pos (.inr (.inr hc))]
      exact h

theorem consume_spent (h : owner.Spent) : owner.consume = (none, owner) := by
  unfold consume
  rcases h with h | h <;> rw [h]

end SteeringOwner

end Henji
