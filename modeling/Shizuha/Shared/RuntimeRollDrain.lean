import Shizuha.Js.Number
import Shizuha.Js.Text

/-!
# The lease of a runtime roll

A controller that wants to replace the process asks for its turns to stop, under
a lease. The lease is taken back when it runs out: by its timer, or earlier by
whoever asks for its state. Every question therefore reads the clock, and one
that finds the lease run out calls the owner back before it answers.

What the owner does then is in the owner's state, so the getters are with the
owner.
-/

namespace Shizuha.Shared

open Js

def DEFAULT_RUNTIME_ROLL_DRAIN_LEASE_MS : ℤ := 60000
def MIN_RUNTIME_ROLL_DRAIN_LEASE_MS : ℤ := 5000
def MAX_RUNTIME_ROLL_DRAIN_LEASE_MS : ℤ := 120000

inductive RuntimeRollDrainState where
  | idle
  | draining
  | ready
  deriving DecidableEq

/-- `leaseMs` is the number that the value of the request converts to, when it
is finite. -/
structure RuntimeRollDrainRequest where
  requestId : Text
  targetImage : Text
  leaseMs : Option Double

structure RuntimeRollDrainSnapshot where
  protocol : ℕ
  requestId : Text
  targetImage : Text
  ready : Bool
  acceptingTurns : Bool
  busy : Bool
  pendingAcceptedTurns : ℕ
  leaseUntil : ℤ
  ingressFenced : Option Bool
  admissionVersion : Option ℕ

inductive RuntimeRollDrainError where
  | invalidRequestId
  | invalidTargetImage

def RuntimeRollDrainError.message : RuntimeRollDrainError → Text
  | .invalidRequestId => js "runtime_roll_drain_invalid_request_id"
  | .invalidTargetImage => js "runtime_roll_drain_invalid_target_image"

/-- `Math.trunc`. -/
def trunc (x : ℚ) : ℤ := if x < 0 then x.ceil else x.floor

def normalizeRuntimeRollDrainLeaseMs : Option Double → ℤ
  | none => DEFAULT_RUNTIME_ROLL_DRAIN_LEASE_MS
  | some parsed =>
      min MAX_RUNTIME_ROLL_DRAIN_LEASE_MS (max MIN_RUNTIME_ROLL_DRAIN_LEASE_MS (trunc parsed.val))

structure RuntimeRollDrainLease where
  state : RuntimeRollDrainState
  requestId : Text
  targetImage : Text
  leaseUntil : ℤ
  /-- A timer is set. -/
  expiryTimer : Bool

/-- The lease before it is armed, and after `expire`. -/
def RuntimeRollDrainLease.unarmed : RuntimeRollDrainLease := ⟨.idle, [], [], 0, false⟩

/-- The lease has run out. -/
def RuntimeRollDrainLease.due (lease : RuntimeRollDrainLease) (now : ℤ) : Bool :=
  lease.state ≠ .idle && decide (lease.leaseUntil ≤ now)

/-- The checks of `arm`: the names it goes on with. -/
def RuntimeRollDrainRequest.names (request : RuntimeRollDrainRequest) :
    Except RuntimeRollDrainError (Text × Text) :=
  let requestId := trim request.requestId
  let targetImage := trim request.targetImage
  if requestId = [] ∨ 128 < requestId.length then .error .invalidRequestId
  else if targetImage = [] ∨ 512 < targetImage.length then .error .invalidTargetImage
  else .ok (requestId, targetImage)

/-- `arm` after its checks; `active` is what it was told about the lease, and
`now` when it counts from. -/
def RuntimeRollDrainLease.reserve (lease : RuntimeRollDrainLease) (requestId targetImage : Text)
    (leaseMs : Option Double) (active : Bool) (now : ℤ) : RuntimeRollDrainLease :=
  let sameRequest := active && lease.requestId = requestId && lease.targetImage = targetImage
  { state := if sameRequest then lease.state else .draining
    requestId := if sameRequest then lease.requestId else requestId
    targetImage := if sameRequest then lease.targetImage else targetImage
    leaseUntil := now + normalizeRuntimeRollDrainLeaseMs leaseMs
    expiryTimer := true }

/-- `snapshot`, of a lease that is active. -/
def RuntimeRollDrainLease.snapshot (lease : RuntimeRollDrainLease) (busy : Bool)
    (pendingAcceptedTurns : ℕ) : RuntimeRollDrainSnapshot where
  protocol := 1
  requestId := lease.requestId
  targetImage := lease.targetImage
  ready := lease.state = .ready
  acceptingTurns := lease.state ≠ .ready
  busy := busy
  pendingAcceptedTurns := pendingAcceptedTurns
  leaseUntil := lease.leaseUntil
  ingressFenced := none
  admissionVersion := none

end Shizuha.Shared
