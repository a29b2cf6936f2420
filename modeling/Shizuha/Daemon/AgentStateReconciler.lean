import Shizuha.Daemon.AgentStateStore
import Shizuha.Machine
import Mathlib.Data.List.Sort

/-!
# The reconcile loop

`reconcileOnce` reads every agent row once and then goes through the rows, one
agent after the other: it waits for the runtime to be observed, compares what
it saw with what the row asks for, and in enforce mode starts or stops the
runtime and waits for that too. Every wait is a point where the rest of the
daemon runs, so here a run of the loop is a machine whose steps are the
resolutions it waits for, with the mutations of the store in between.

The row the loop acts on is the one `listAgents` gave it. The rows of the
phase are therefore values, not references into the store.
-/

namespace Shizuha.Daemon

open Js State

inductive RuntimeKind where
  | childProcess
  | docker
  | k8s
  deriving DecidableEq

structure AgentObservation where
  observedState : Text
  runtimeKind : RuntimeKind
  containerOrPod : Option Text
  pid : Option ℕ
  lastError : Option Text

structure AgentObservationRow where
  agentId : Text
  observation : AgentObservation
  lastSeenAt : Text

/-- The store with its table of observations. -/
structure AgentStateDb where
  store : AgentStateStore
  observations : Table Text AgentObservationRow AgentObservationRow.agentId

/-! ## The store, as the loop uses it -/

/-- The place of a unit in the order of UTF-8: surrogates stand for scalar
values above all others. -/
def utf8Rank (u : UInt16) : ℕ :=
  if isHighSurrogate u || isLowSurrogate u then u.toNat + 0x10000 else u.toNat

/-- ORDER BY username. -/
def AgentStateStore.listAgents (s : AgentStateStore) : List AgentRow :=
  s.agents.rows.insertionSort fun a b => a.username.map utf8Rank ≤ b.username.map utf8Rank

/-- An audit event at the version the row is at. -/
def AgentStateStore.recordStateEvent (s : AgentStateStore) (stamp : Stamp) (agentId type : Text)
    (actor : Text) (reason : Option Text) (payload : Option Json) :
    Except AgentStateError AgentStateStore :=
  match s.getAgent agentId with
  | none => .error (.unknownAgent agentId)
  | some row => s.writeEvent stamp agentId type row.version actor reason payload

/-- `none` when the row it refers to is gone: a FOREIGN KEY constraint. -/
def AgentStateDb.recordObservation (db : AgentStateDb) (now agentId : Text)
    (obs : AgentObservation) : Option AgentStateDb :=
  match db.store.getAgent agentId with
  | none => none
  | some _ =>
      let row : AgentObservationRow := ⟨boundText agentId, obs, now⟩
      some
        { db with
          observations := db.observations.upsert row
            (fun old => { row with agentId := old.agentId }) (fun _ => rfl) }

/-- An action need not come back with an observation. -/
def AgentStateDb.recordIfAny (db : AgentStateDb) (now agentId : Text) :
    Option AgentObservation → Option AgentStateDb
  | none => some db
  | some obs => db.recordObservation now agentId obs

/-- One call of the store. The observation of a deleted agent goes with it. -/
def AgentStateDb.mutate (db : AgentStateDb) (call : Stamp × AgentStateOp) : AgentStateDb :=
  let store := agentStateStep db.store call
  { store := store
    observations := db.observations.delete fun o => (store.getAgent o.agentId).isNone }

/-! ## What an observation asks for -/

/-- Lower case, for a comparison with words of ASCII letters. What else lowers
to a letter of such a word is the Kelvin sign, and none of the words below has
a k. -/
def lowerAscii (u : UInt16) : UInt16 := if 65 ≤ u && u ≤ 90 then u + 32 else u

/-- `replace(/\s+/g, '_')`. -/
def underscoreSpaces : Text → Text
  | [] => []
  | u :: s =>
      if isSpace u then
        if (s.head?.map isSpace).getD false then underscoreSpaces s else 95 :: underscoreSpaces s
      else u :: underscoreSpaces s

def normalizeObservedState (state : Text) : Text :=
  underscoreSpaces ((trim state).map lowerAscii)

def runningStates : List Text := [js "running", js "starting", js "healthy", js "ready"]

def stoppedStates : List Text :=
  [js "stopped", js "disabled", js "exited", js "not_found", js "missing", js "none"]

def isRuntimeRunning (state : Text) : Bool := runningStates.contains (normalizeObservedState state)

/-- Anything not known to be absent: a crash-looping runtime is there to be
stopped. -/
def isRuntimePresent (state : Text) : Bool :=
  !stoppedStates.contains (normalizeObservedState state)

inductive AgentReconcileMode where
  | observe
  | dryRun
  | enforce
  deriving DecidableEq

def AgentReconcileMode.text : AgentReconcileMode → Text
  | .observe => js "observe"
  | .dryRun => js "dry-run"
  | .enforce => js "enforce"

inductive AgentReconcileAction where
  | none
  | start
  | stop
  deriving DecidableEq

/-- Whether the row, as it was read, asks for a running agent. -/
def AgentRow.desiredRunning (row : AgentRow) : Bool := row.desiredEnabled && !row.operatorDisabled

def AgentRow.desiredText (row : AgentRow) : Json :=
  .str (if row.desiredRunning then js "running" else js "stopped")

def AgentRow.observedMatchesDesired (row : AgentRow) (observedState : Text) : Bool :=
  if row.desiredRunning then isRuntimeRunning observedState else !isRuntimePresent observedState

/-- The action on an agent whose observation does not match, and its reason. -/
def AgentRow.correction (row : AgentRow) : AgentReconcileAction × Text :=
  if row.desiredRunning then (.start, js "desired-enabled runtime missing/unhealthy")
  else
    (.stop,
      if row.operatorDisabled then js "operator-disabled fail-closed"
      else js "desired-disabled runtime still running")

/-! ## The loop -/

/-- The options of a reconciler, and which of the optional methods its
controller has. -/
structure AgentStateReconciler where
  mode : AgentReconcileMode
  actor : Text
  driftAlertCycles : ℕ
  hasStart : Bool
  hasStop : Bool

structure AgentReconcileDecision where
  agentId : Text
  username : Text
  desiredRunning : Bool
  observedState : Text
  action : AgentReconcileAction
  reason : Option Text
  driftCycles : ℕ
  alerting : Bool
  acted : Bool

/-- What the loop is waiting for. `orphans` is the wait for `reconcileOrphans`,
whose adoptions are mutations like any other. -/
inductive ReconcilePhase where
  | idle
  | observing (row : AgentRow) (rest : List AgentRow)
  | acting (row : AgentRow) (rest : List AgentRow) (decision : AgentReconcileDecision)
  | orphans

structure ReconcileState where
  db : AgentStateDb
  driftCycles : Text → ℕ
  phase : ReconcilePhase
  decisions : List AgentReconcileDecision

inductive ControllerCall where
  | start (row : AgentRow)
  | stop (row : AgentRow) (reason : Text)

inductive ReconcileOp where
  | reconcileOnce
  | mutate (call : Stamp × AgentStateOp)
  /-- `controller.observe` resolves. -/
  | observed (stamp : Stamp) (obs : AgentObservation)
  /-- `controller.start` or `controller.stop` resolves. -/
  | acted (stamp : Stamp) (obs : Option AgentObservation)
  | orphansReconciled
  /-- What the loop waits for rejects. -/
  | rejected

/-- On to the next row: `controller.observe` is called on it. -/
def ReconcileState.next (s : ReconcileState) : List AgentRow → ReconcileState
  | [] => { s with phase := .orphans }
  | row :: rest => { s with phase := .observing row rest }

def ReconcileState.decided (s : ReconcileState) (decision : AgentReconcileDecision)
    (rest : List AgentRow) : ReconcileState :=
  ReconcileState.next { s with decisions := s.decisions ++ [decision] } rest

/-- The promise of `reconcileOnce` settles. -/
def ReconcileState.settled (s : ReconcileState) : ReconcileState := { s with phase := .idle }

/-- The store after a statement that threw or not, and whether the loop goes
on. -/
def ReconcileState.wrote (s : ReconcileState) (written : Except AgentStateError AgentStateStore)
    (rest : ReconcileState → ReconcileState × Option ControllerCall) :
    ReconcileState × Option ControllerCall :=
  match written with
  | .error _ => (s.settled, none)
  | .ok store => rest { s with db := { s.db with store := store } }

/-- The runtime is as the row asks. -/
def AgentStateReconciler.reconciled (reconciler : AgentStateReconciler) (s : ReconcileState)
    (stamp : Stamp) (row : AgentRow) (rest : List AgentRow) (obs : AgentObservation) :
    ReconcileState × Option ControllerCall :=
  ReconcileState.wrote { s with driftCycles := Function.update s.driftCycles row.id 0 }
    (s.db.store.recordStateEvent stamp row.id (js "reconciled") reconciler.actor none
      (some (.obj [(js "desiredState", row.desiredText),
        (js "observedState", .str obs.observedState), (js "mode", .str reconciler.mode.text)])))
    fun s =>
      (s.decided
        { agentId := row.id, username := row.username, desiredRunning := row.desiredRunning
          observedState := obs.observedState, action := .none, reason := none, driftCycles := 0
          alerting := false, acted := false }
        rest, none)

/-- The runtime is not as the row asks, for the `cycles`-th time in a row. -/
def AgentStateReconciler.drift (reconciler : AgentStateReconciler) (row : AgentRow)
    (obs : AgentObservation) (cycles : ℕ) : AgentReconcileDecision where
  agentId := row.id
  username := row.username
  desiredRunning := row.desiredRunning
  observedState := obs.observedState
  action := row.correction.1
  reason := some row.correction.2
  driftCycles := cycles
  alerting := decide (max 1 reconciler.driftAlertCycles ≤ cycles)
  acted := decide (reconciler.mode = .enforce)

/-- `applyAction`: a controller without the method makes it throw. -/
def AgentStateReconciler.applyAction (reconciler : AgentStateReconciler) (s : ReconcileState)
    (row : AgentRow) (rest : List AgentRow) (decision : AgentReconcileDecision) :
    ReconcileState × Option ControllerCall :=
  if row.desiredRunning then
    if reconciler.hasStart then
      ({ s with phase := .acting row rest decision }, some (.start row))
    else (s.settled, none)
  else if reconciler.hasStop then
    ({ s with phase := .acting row rest decision }, some (.stop row row.correction.2))
  else (s.settled, none)

def AgentStateReconciler.drifted (reconciler : AgentStateReconciler) (s : ReconcileState)
    (stamp : Stamp) (row : AgentRow) (rest : List AgentRow) (decision : AgentReconcileDecision) :
    ReconcileState × Option ControllerCall :=
  ReconcileState.wrote
    { s with driftCycles := Function.update s.driftCycles row.id decision.driftCycles }
    (s.db.store.recordStateEvent stamp row.id (js "drift") reconciler.actor decision.reason
      (some (.obj [(js "desiredState", row.desiredText),
        (js "observedState", .str decision.observedState),
        (js "driftCycles", .num (.ofMagnitude decision.driftCycles)),
        (js "mode", .str reconciler.mode.text), (js "alerting", .bool decision.alerting)])))
    fun s =>
      if reconciler.mode = .enforce then reconciler.applyAction s row rest decision
      else (s.decided decision rest, none)

/-- `controller.observe` resolves. -/
def AgentStateReconciler.observed (reconciler : AgentStateReconciler) (s : ReconcileState)
    (stamp : Stamp) (row : AgentRow) (rest : List AgentRow) (obs : AgentObservation) :
    ReconcileState × Option ControllerCall :=
  match s.db.recordObservation stamp.now row.id obs with
  | none => (s.settled, none)
  | some db =>
      if row.observedMatchesDesired obs.observedState then
        reconciler.reconciled { s with db := db } stamp row rest obs
      else
        reconciler.drifted { s with db := db } stamp row rest
          (reconciler.drift row obs (s.driftCycles row.id + 1))

/-- `controller.start` or `controller.stop` resolves. -/
def AgentStateReconciler.acted (reconciler : AgentStateReconciler) (s : ReconcileState)
    (stamp : Stamp) (row : AgentRow) (rest : List AgentRow) (decision : AgentReconcileDecision)
    (obs : Option AgentObservation) : ReconcileState × Option ControllerCall :=
  match s.db.recordIfAny stamp.now row.id obs with
  | none => (s.settled, none)
  | some db =>
      ReconcileState.wrote { s with db := db }
        (db.store.recordStateEvent stamp row.id
          (if row.desiredRunning then js "started" else js "stopped") reconciler.actor
          decision.reason
          (some (.obj [(js "desiredState", row.desiredText),
            (js "previousObservedState", .str decision.observedState),
            (js "observedState", (obs.map fun o => Json.str o.observedState).getD .null)])))
        fun s => (s.decided decision rest, none)

/-- One step, and the call of the controller's `start` or `stop` it ends in. -/
def AgentStateReconciler.advance (reconciler : AgentStateReconciler) (s : ReconcileState) :
    ReconcileOp → ReconcileState × Option ControllerCall
  | .reconcileOnce =>
      match s.phase with
      | .idle => (ReconcileState.next { s with decisions := [] } s.db.store.listAgents, none)
      | _ => (s, none)
  | .mutate call => ({ s with db := s.db.mutate call }, none)
  | .observed stamp obs =>
      match s.phase with
      | .observing row rest => reconciler.observed s stamp row rest obs
      | _ => (s, none)
  | .acted stamp obs =>
      match s.phase with
      | .acting row rest decision => reconciler.acted s stamp row rest decision obs
      | _ => (s, none)
  | .orphansReconciled =>
      match s.phase with
      | .orphans => (s.settled, none)
      | _ => (s, none)
  | .rejected => (s.settled, none)

def AgentStateReconciler.step (reconciler : AgentStateReconciler) (s : ReconcileState)
    (op : ReconcileOp) : ReconcileState := (reconciler.advance s op).1

def ReconcileState.init : ReconcileState where
  db := ⟨⟨.empty, .empty⟩, .empty⟩
  driftCycles := fun _ => 0
  phase := .idle
  decisions := []

end Shizuha.Daemon
