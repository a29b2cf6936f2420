import Shizuha.Js.Dict
import Mathlib.Algebra.Order.Field.Rat
import Mathlib.Tactic.Linarith

/-!
# The gate of runtime repair

One record for each agent: the key that is wanted (an action and a revision),
the attempt that runs, the failures of the key in a row and the two times
before which nothing is tried. Asking with another key replaces the record but
for the latch of the attempt that runs; `clear` forgets it with the latch.

Times are exact here. They are whole milliseconds, and the delays are doubled
and added far below the range where that rounds.
-/

namespace Shizuha.Daemon

open Js

inductive RuntimeRepairAction where
  | start
  | refresh
  deriving DecidableEq

inductive RuntimeRepairDeferral where
  | inFlight
  | backoff
  | settling
  deriving DecidableEq

structure RuntimeRepairAdmission where
  allowed : Bool
  reason : Option RuntimeRepairDeferral
  retryAfterMs : ℚ
  failureCount : ℕ
  shouldLog : Bool
  replacedAction : Option RuntimeRepairAction

structure RuntimeRepairFailure where
  action : RuntimeRepairAction
  failureCount : ℕ
  nextRetryAt : ℚ
  delayMs : ℚ

structure RuntimeRepairState where
  action : RuntimeRepairAction
  desiredRevision : Text
  inFlightAction : Option RuntimeRepairAction
  inFlightRevision : Option Text
  failureCount : ℕ
  nextRetryAt : ℚ
  settlingUntil : ℚ
  inFlightDeferralLogged : Bool
  backoffDeferralLogged : Bool
  settlingDeferralLogged : Bool

/-- The arguments the constructor accepts. -/
structure RepairDelays where
  baseDelayMs : ℚ
  maxDelayMs : ℚ
  settleDelayMs : ℚ
  base_pos : 0 < baseDelayMs
  base_le_max : baseDelayMs ≤ maxDelayMs
  settle_nonneg : 0 ≤ settleDelayMs

structure RuntimeReconcileRepairBackoff where
  delays : RepairDelays
  stateByAgent : Dict RuntimeRepairState

/-- The wait after the `n`-th failure in a row. -/
def RepairDelays.delayMs (d : RepairDelays) (n : ℕ) : ℚ :=
  min d.maxDelayMs (d.baseDelayMs * 2 ^ (n - 1))

namespace RuntimeRepairState

/-- The record is about this key. -/
def Wants (s : RuntimeRepairState) (action : RuntimeRepairAction) (desiredRevision : Text) : Prop :=
  s.action = action ∧ s.desiredRevision = desiredRevision

/-- The attempt that runs is this one. -/
def Runs (s : RuntimeRepairState) (action : RuntimeRepairAction) (desiredRevision : Text) : Prop :=
  s.inFlightAction = some action ∧ s.inFlightRevision = some desiredRevision

instance (s : RuntimeRepairState) (action : RuntimeRepairAction) (desiredRevision : Text) :
    Decidable (s.Wants action desiredRevision) := inferInstanceAs (Decidable (_ ∧ _))

instance (s : RuntimeRepairState) (action : RuntimeRepairAction) (desiredRevision : Text) :
    Decidable (s.Runs action desiredRevision) := inferInstanceAs (Decidable (_ ∧ _))

/-- A record for a key that was not wanted before. A new key bypasses the
backoff, but still waits for an attempt that runs. -/
def forKey (old : Option RuntimeRepairState) (action : RuntimeRepairAction)
    (desiredRevision : Text) : RuntimeRepairState where
  action := action
  desiredRevision := desiredRevision
  inFlightAction := old.bind RuntimeRepairState.inFlightAction
  inFlightRevision := old.bind RuntimeRepairState.inFlightRevision
  failureCount := 0
  nextRetryAt := 0
  settlingUntil := 0
  inFlightDeferralLogged := false
  backoffDeferralLogged := false
  settlingDeferralLogged := false

/-- The record a request works on. -/
def current (old : Option RuntimeRepairState) (action : RuntimeRepairAction)
    (desiredRevision : Text) : RuntimeRepairState :=
  match old with
  | none => forKey none action desiredRevision
  | some s => if s.Wants action desiredRevision then s else forKey (some s) action desiredRevision

/-- The action of the record that the request replaces. -/
def replaced (old : Option RuntimeRepairState) (action : RuntimeRepairAction)
    (desiredRevision : Text) : Option RuntimeRepairAction :=
  match old with
  | none => none
  | some s => if s.Wants action desiredRevision then none else some s.action

/-- The two attempt fields set or emptied. -/
def release (s : RuntimeRepairState) : RuntimeRepairState :=
  { s with inFlightAction := none, inFlightRevision := none }

/-- What a request with the record's key gets, and the record after it. -/
def request (s : RuntimeRepairState) (replacedAction : Option RuntimeRepairAction) (now : ℚ) :
    RuntimeRepairAdmission × RuntimeRepairState :=
  if s.inFlightRevision.isSome then
    (⟨false, some .inFlight, 0, s.failureCount, !s.inFlightDeferralLogged, replacedAction⟩,
      { s with inFlightDeferralLogged := true })
  else if now < s.settlingUntil then
    (⟨false, some .settling, s.settlingUntil - now, s.failureCount, !s.settlingDeferralLogged,
        replacedAction⟩,
      { s with settlingDeferralLogged := true })
  else if now < s.nextRetryAt then
    (⟨false, some .backoff, s.nextRetryAt - now, s.failureCount, !s.backoffDeferralLogged,
        replacedAction⟩,
      { s with backoffDeferralLogged := true })
  else
    (⟨true, none, 0, s.failureCount, false, replacedAction⟩,
      { s with
        inFlightAction := some s.action
        inFlightRevision := some s.desiredRevision
        inFlightDeferralLogged := false
        settlingDeferralLogged := false })

/-- A record whose own attempt failed. -/
def failed (s : RuntimeRepairState) (delays : RepairDelays) (now : ℚ) : RuntimeRepairState :=
  { s.release with
    settlingUntil := 0
    failureCount := s.failureCount + 1
    nextRetryAt := now + delays.delayMs (s.failureCount + 1)
    backoffDeferralLogged := false }

/-- A record whose own attempt succeeded. -/
def succeeded (s : RuntimeRepairState) (delays : RepairDelays) (now : ℚ) : RuntimeRepairState :=
  { s.release with
    failureCount := 0
    nextRetryAt := 0
    settlingUntil := now + delays.settleDelayMs
    backoffDeferralLogged := false
    settlingDeferralLogged := false }

end RuntimeRepairState

namespace RuntimeReconcileRepairBackoff

def create (delays : RepairDelays) : RuntimeReconcileRepairBackoff := ⟨delays, Table.empty⟩

def find (g : RuntimeReconcileRepairBackoff) (agentId : Text) : Option RuntimeRepairState :=
  Dict.find g.stateByAgent agentId

def put (g : RuntimeReconcileRepairBackoff) (agentId : Text) (s : RuntimeRepairState) :
    RuntimeReconcileRepairBackoff :=
  { g with stateByAgent := Dict.set g.stateByAgent agentId s }

def tryBegin (g : RuntimeReconcileRepairBackoff) (agentId : Text) (action : RuntimeRepairAction)
    (desiredRevision : Text) (now : ℚ) : RuntimeRepairAdmission × RuntimeReconcileRepairBackoff :=
  let old := g.find agentId
  let result := (RuntimeRepairState.current old action desiredRevision).request
    (RuntimeRepairState.replaced old action desiredRevision) now
  (result.1, g.put agentId result.2)

def markFailed (g : RuntimeReconcileRepairBackoff) (agentId : Text) (action : RuntimeRepairAction)
    (desiredRevision : Text) (now : ℚ) :
    Option RuntimeRepairFailure × RuntimeReconcileRepairBackoff :=
  match g.find agentId with
  | none => (none, g)
  | some s =>
      if ¬ s.Runs action desiredRevision then (none, g)
      else if ¬ s.Wants action desiredRevision then
        (none, g.put agentId
          { s.release with settlingUntil := 0, inFlightDeferralLogged := false })
      else
        let s' := s.failed g.delays now
        (some ⟨action, s'.failureCount, s'.nextRetryAt, g.delays.delayMs s'.failureCount⟩,
          g.put agentId s')

def markSucceeded (g : RuntimeReconcileRepairBackoff) (agentId : Text)
    (action : RuntimeRepairAction) (desiredRevision : Text) (now : ℚ) :
    Bool × RuntimeReconcileRepairBackoff :=
  match g.find agentId with
  | none => (false, g)
  | some s =>
      if ¬ s.Runs action desiredRevision then (false, g)
      else if ¬ s.Wants action desiredRevision then
        (false, g.put agentId { s.release with inFlightDeferralLogged := false })
      else (true, g.put agentId (s.succeeded g.delays now))

def clear (g : RuntimeReconcileRepairBackoff) (agentId : Text) :
    Option RuntimeRepairAction × RuntimeReconcileRepairBackoff :=
  match g.find agentId with
  | none => (none, g)
  | some s => (some s.action, { g with stateByAgent := Dict.remove g.stateByAgent agentId })

@[simp] theorem find_put (g : RuntimeReconcileRepairBackoff) (agentId : Text)
    (s : RuntimeRepairState) (a : Text) :
    (g.put agentId s).find a = if a = agentId then some s else g.find a :=
  Dict.find_set g.stateByAgent agentId s a

@[simp] theorem put_delays (g : RuntimeReconcileRepairBackoff) (agentId : Text)
    (s : RuntimeRepairState) : (g.put agentId s).delays = g.delays := rfl

theorem find_clear (g : RuntimeReconcileRepairBackoff) (agentId a : Text) :
    (g.clear agentId).2.find a = if a = agentId then none else g.find a := by
  rw [clear]
  split
  · next hnone =>
      split_ifs with ha
      · rw [ha, hnone]
      · rfl
  · exact Dict.find_remove g.stateByAgent agentId a

end RuntimeReconcileRepairBackoff

end Shizuha.Daemon
