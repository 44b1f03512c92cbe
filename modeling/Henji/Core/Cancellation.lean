/-!
# The cancellation owner of a turn

`TurnCancellationOwner` arbitrates between a cancellation request and the ordinary settlement of
one accepted turn. Its abort signal fires in the step that leaves `active` for `cancelRequested`
and never otherwise, so an owner that settled from `active` keeps an unfired signal for good.

Results:
1. `request_of_settled`: a request against a settled owner changes nothing.
2. `trySettleNormally_spec`: normal settlement succeeds exactly from `active`, with the signal
   unfired.
-/

namespace Henji

inductive TurnCancellationState where
  | active
  | cancelRequested
  | settled
  | cleanupFailed
deriving DecidableEq, Repr

/-- The owner's state and whether its abort signal has fired. -/
structure TurnCancellationOwner where
  state : TurnCancellationState
  aborted : Bool
  unfired : state = .active → aborted = false
  fired : state = .cancelRequested → aborted = true

namespace TurnCancellationOwner

/-- A new owner. -/
def create : TurnCancellationOwner := ⟨.active, false, fun _ => rfl, nofun⟩

/-- `request()`: only an active owner fires its signal. -/
def request (owner : TurnCancellationOwner) : TurnCancellationOwner :=
  match owner.state with
  | .active => ⟨.cancelRequested, true, nofun, fun _ => rfl⟩
  | _ => owner

/-- `trySettleNormally()`: whether the turn settles, and the owner after the attempt. -/
def trySettleNormally (owner : TurnCancellationOwner) : Bool × TurnCancellationOwner :=
  match owner.state with
  | .active => (true, ⟨.settled, owner.aborted, nofun, nofun⟩)
  | _ => (false, owner)

def settleCancelled (owner : TurnCancellationOwner) : TurnCancellationOwner :=
  match owner.state with
  | .cancelRequested => ⟨.settled, owner.aborted, nofun, nofun⟩
  | _ => owner

def markCleanupFailed (owner : TurnCancellationOwner) : TurnCancellationOwner :=
  match owner.state with
  | .active | .cancelRequested => ⟨.cleanupFailed, owner.aborted, nofun, nofun⟩
  | _ => owner

/-! ## What each operation can do -/

variable {owner : TurnCancellationOwner}

theorem request_of_settled (h : owner.state = .settled) : owner.request = owner := by
  unfold request
  rw [h]

theorem markCleanupFailed_of_settled (h : owner.state = .settled) :
    owner.markCleanupFailed = owner := by
  unfold markCleanupFailed
  rw [h]

/-- Settlement succeeds from `active` only: the signal has not fired, and the owner is settled. -/
theorem trySettleNormally_spec (h : owner.trySettleNormally.1 = true) :
    owner.state = .active ∧ owner.trySettleNormally.2.state = .settled ∧
      owner.trySettleNormally.2.aborted = false := by
  unfold trySettleNormally at h ⊢
  cases hs : owner.state with
  | active => exact ⟨rfl, rfl, owner.unfired hs⟩
  | cancelRequested | settled | cleanupFailed =>
    rw [hs] at h
    cases h

end TurnCancellationOwner

end Henji
