import Shizuha.Js.Dict
import Shizuha.Js.Number
import Shizuha.Machine

/-!
# Deferred runtime rolls

One record for each agent and target image whose roll had to wait: since when,
why, and whether the wait was reported. A pass that lets the roll go, and a
prune, drop records; nothing but a pass that defers makes one. The metric sink
hears of every change and decides nothing.
-/

namespace Shizuha.Daemon

open Js

inductive RuntimeRollDeferralReason where
  | bridgeBusy
  | probeFailed
  deriving DecidableEq

inductive RuntimeRollDeferralProtocol where
  | drainV1
  | drainV2
  | legacyHealth
  | unknown
  deriving DecidableEq

def RuntimeRollDeferralReason.text : RuntimeRollDeferralReason → Text
  | .bridgeBusy => js "bridge-busy"
  | .probeFailed => js "probe-failed"

def RuntimeRollDeferralProtocol.text : RuntimeRollDeferralProtocol → Text
  | .drainV1 => js "drain-v1"
  | .drainV2 => js "drain-v2"
  | .legacyHealth => js "legacy-health"
  | .unknown => js "unknown"

structure PersistedRuntimeRollDeferral where
  since : Double
  agent : Text
  reason : RuntimeRollDeferralReason
  protocol : RuntimeRollDeferralProtocol
  alerted : Bool
  deriving DecidableEq

inductive RuntimeRollCleared where
  | admitted
  | converged
  | stopped
  | ineligible

inductive RuntimeRollDeferralPass where
  | deferred (key agent : Text) (now : Double) (reason : RuntimeRollDeferralReason)
      (protocol : Option RuntimeRollDeferralProtocol)
  | cleared (kind : RuntimeRollCleared) (key agent : Text)

structure RuntimeRollDeferralPassResult where
  allowRoll : Bool
  changed : Bool
  elapsedMs : ℚ
  shouldLogAlert : Bool

structure RuntimeRollDeferralTracker where
  alertAfterMs : Double
  records : Dict PersistedRuntimeRollDeferral

namespace RuntimeRollDeferralTracker

/-- The constructor. -/
def create (alertAfterMs : Double) : RuntimeRollDeferralTracker := ⟨alertAfterMs, Table.empty⟩

def restore (t : RuntimeRollDeferralTracker) (snapshot : Dict PersistedRuntimeRollDeferral) :
    RuntimeRollDeferralTracker :=
  { t with records := Dict.fromEntries snapshot.rows }

def snapshot (t : RuntimeRollDeferralTracker) : Dict PersistedRuntimeRollDeferral :=
  Dict.fromEntries t.records.rows

/-- The record of a deferred pass, before the alert. -/
def deferredRecord (existing : Option PersistedRuntimeRollDeferral) (agent : Text) (now : Double)
    (reason : RuntimeRollDeferralReason) (protocol : RuntimeRollDeferralProtocol) :
    PersistedRuntimeRollDeferral :=
  match existing with
  | some e => { e with agent := agent, reason := reason, protocol := protocol }
  | none => ⟨now, agent, reason, protocol, false⟩

/-- Whether the record the tracker keeps now says something else than before. -/
def recordChanged (existing : Option PersistedRuntimeRollDeferral)
    (record : PersistedRuntimeRollDeferral) : Bool :=
  match existing with
  | none => true
  | some e =>
      e.agent != record.agent || e.reason != record.reason || e.protocol != record.protocol
        || e.alerted != record.alerted

def reconcilePass (t : RuntimeRollDeferralTracker) :
    RuntimeRollDeferralPass → RuntimeRollDeferralPassResult × RuntimeRollDeferralTracker
  | .cleared _ key _ =>
      (⟨true, (Dict.find t.records key).isSome, 0, false⟩,
        { t with records := Dict.remove t.records key })
  | .deferred key agent now reason protocol =>
      let existing := Dict.find t.records key
      let record := deferredRecord existing agent now reason (protocol.getD .unknown)
      let elapsedMs := max 0 (fsub now.val record.since.val)
      let shouldLogAlert :=
        decide (0 < t.alertAfterMs.val) && decide (t.alertAfterMs.val ≤ elapsedMs)
          && !record.alerted
      let kept := { record with alerted := record.alerted || shouldLogAlert }
      (⟨false, recordChanged existing kept, elapsedMs, shouldLogAlert⟩,
        { t with records := Dict.set t.records key kept })

/-- Whether anything was dropped, and what is left. -/
def prune (t : RuntimeRollDeferralTracker) (activeKeys : List Text) :
    Bool × RuntimeRollDeferralTracker :=
  (t.records.rows.any fun e => !activeKeys.contains e.1,
    { t with records := t.records.delete fun e => !activeKeys.contains e.1 })

end RuntimeRollDeferralTracker

/-! ## Runs -/

inductive RollTrackerOp where
  | reconcilePass (pass : RuntimeRollDeferralPass)
  | prune (activeKeys : List Text)

def rollTrackerStep (t : RuntimeRollDeferralTracker) : RollTrackerOp → RuntimeRollDeferralTracker
  | .reconcilePass pass => (t.reconcilePass pass).2
  | .prune activeKeys => (t.prune activeKeys).2

/-- The labels of a run are not empty. -/
def RollTrackerOp.Labelled : RollTrackerOp → Prop
  | .reconcilePass (.deferred _ agent _ _ _) => agent ≠ []
  | _ => True

theorem snapshot_rows (t : RuntimeRollDeferralTracker) : t.snapshot.rows = t.records.rows :=
  Dict.rows_fromEntries t.records.nodup

theorem restore_snapshot (t : RuntimeRollDeferralTracker) : t.restore t.snapshot = t := by
  cases t with
  | mk alertAfterMs records =>
      have h : Dict.fromEntries (Dict.fromEntries records.rows).rows = records :=
        Dict.ext_rows (by
          rw [Dict.rows_fromEntries (Dict.fromEntries records.rows).nodup,
            Dict.rows_fromEntries records.nodup])
      simp only [RuntimeRollDeferralTracker.restore, RuntimeRollDeferralTracker.snapshot, h]

/-- Every record names its agent. -/
def RuntimeRollDeferralTracker.Named (t : RuntimeRollDeferralTracker) : Prop :=
  ∀ e ∈ t.records.rows, e.2.agent ≠ []

theorem named_step {t : RuntimeRollDeferralTracker} {op : RollTrackerOp} (h : t.Named)
    (hop : op.Labelled) : (rollTrackerStep t op).Named := by
  cases op with
  | prune activeKeys =>
      intro e he
      exact h e (List.mem_of_mem_filter he)
  | reconcilePass pass =>
      cases pass with
      | cleared kind key agent =>
          intro e he
          exact h e (List.mem_of_mem_filter he)
      | deferred key agent now reason protocol =>
          intro e he
          rcases Dict.mem_set he with rfl | he
          · show (RuntimeRollDeferralTracker.deferredRecord _ agent now reason _).agent ≠ []
            cases Dict.find t.records key <;> exact hop
          · exact h e he

theorem named_run {t : RuntimeRollDeferralTracker} {ops : List RollTrackerOp} (h : t.Named)
    (hops : ∀ op ∈ ops, op.Labelled) : (Machine.run rollTrackerStep t ops).Named :=
  Machine.run_invariant (fun _ _ ht hop => named_step ht hop) h
    (Machine.along_of_forall hops t)

end Shizuha.Daemon
