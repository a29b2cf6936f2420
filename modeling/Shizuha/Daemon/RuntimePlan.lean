import Shizuha.Js.Numeral
import Shizuha.Distinct
import Shizuha.Table

/-!
# What the daemon does about the runtimes it finds

The reconcile pass of the daemon compares the runtimes that are there, children
of the daemon and Deployments of the cluster alike, with the enabled set, the
status of each agent and the set of agents placed on the cluster, and computes
eight lists of agents. A stop for being disabled needs two sources to agree and
goes through a circuit breaker; the other lists are about placement and drift.

A set of the source is the list of its elements in the order they went in.
-/

namespace Shizuha.Daemon

open Js

/-- The `status` of an agent's record. -/
inductive AgentStatus where
  | active
  | paused
  | disabled
  deriving DecidableEq

structure ContainerReconcilePlan where
  toStop : List Text
  skipReason : Option Text

/-- The quotient of two list lengths is over a half as a double exactly when it
is as a fraction. -/
def computeContainersToStop (runningIds enabledSet : List Text)
    (statusById : Text → Option AgentStatus) : ContainerReconcilePlan :=
  if 0 < runningIds.length ∧ enabledSet.length = 0 then ⟨[], some (js "empty-enabled-set")⟩
  else
    let toStop := runningIds.filter fun id => id ∉ enabledSet ∧ statusById id = some .disabled
    if 4 ≤ runningIds.length ∧ runningIds.length < 2 * toStop.length then
      ⟨[], some (js "circuit-breaker:" ++ decimal toStop.length ++ js "/" ++
        decimal runningIds.length)⟩
    else ⟨toStop, none⟩

inductive RuntimeBackend where
  | daemonLocal
  | k8s
  deriving DecidableEq

/-- One runtime. The counts, the hash and the drift are about a Deployment. -/
structure RuntimeActualState where
  agentId : Text
  backend : RuntimeBackend
  replicas : Option ℤ
  readyReplicas : Option ℤ
  configHash : Option Text
  credentialDrift : Bool

def RuntimeActualState.key (a : RuntimeActualState) : Text × RuntimeBackend :=
  (a.agentId, a.backend)

/-- Any replica, wanted or ready. -/
def RuntimeActualState.hasReplicas (a : RuntimeActualState) : Bool :=
  0 < a.replicas.getD 0 ∨ 0 < a.readyReplicas.getD 0

structure RuntimeReconcilePlan where
  /-- Disabled and running. -/
  toStop : List Text
  /-- Placed on the cluster, with a child of the daemon still running. -/
  toStopLocal : List Text
  /-- Not placed on the cluster, with a Deployment still running. -/
  toStopK8s : List Text
  /-- Off the cluster by placement, with nothing else running. -/
  unsupportedRollback : List Text
  /-- The same, and its only Deployment scaled to nothing. -/
  toRestoreK8s : List Text
  toStartK8s : List Text
  /-- Healthy, with another configuration than the one wanted. -/
  toRefreshK8s : List Text
  skipReason : Option Text

section

variable (actual : List RuntimeActualState) (enabledSet : List Text)
  (statusById : Text → Option AgentStatus) (k8sAgentIds : List Text)
  (desiredConfigHashById : Option (Text → Option Text))

/-- The agents of the runtimes that are up, one for each runtime. -/
def runningIds : List Text :=
  (actual.filter fun a => a.backend = .daemonLocal ∨ a.hasReplicas).map (·.agentId)

def idsOf (p : RuntimeActualState → Bool) : List Text :=
  keepFirst id [] ((actual.filter p).map (·.agentId))

def localRunning : List Text := idsOf actual fun a => a.backend = .daemonLocal

def k8sRunning : List Text := idsOf actual fun a => a.backend = .k8s ∧ a.hasReplicas

def healthyK8s : List Text :=
  idsOf actual fun a =>
    a.backend = .k8s ∧ 0 < a.replicas.getD 0 ∧ 0 < a.readyReplicas.getD 0 ∧ !a.credentialDrift

def driftedK8s : List Text :=
  idsOf actual fun a => a.backend = .k8s ∧ a.hasReplicas ∧ a.credentialDrift

/-- A map made of entries: of two for one key, the later. -/
def liveHash (agentId : Text) : Option Text :=
  (actual.reverse.find? fun a =>
    a.agentId = agentId ∧ a.backend = .k8s ∧ a.configHash.getD [] ≠ []).bind (·.configHash)

/-- Enabled and active. -/
def Wanted (agentId : Text) : Prop :=
  agentId ∈ enabledSet ∧ statusById agentId = some .active

instance (agentId : Text) : Decidable (Wanted enabledSet statusById agentId) :=
  inferInstanceAs (Decidable (_ ∧ _))

/-- Both hashes are there, and they differ. -/
def HashDiffers (agentId : Text) : Prop :=
  ∃ desired live, (desiredConfigHashById.bind fun f => f agentId) = some desired ∧
    liveHash actual agentId = some live ∧ desired ≠ [] ∧ live ≠ [] ∧ desired ≠ live

instance (agentId : Text) : Decidable (HashDiffers actual desiredConfigHashById agentId) :=
  match hd : (desiredConfigHashById.bind fun f => f agentId), hl : liveHash actual agentId with
  | some desired, some live =>
      decidable_of_iff (desired ≠ [] ∧ live ≠ [] ∧ desired ≠ live)
        ⟨fun h => ⟨desired, live, hd, hl, h⟩, fun ⟨_, _, hd', hl', h⟩ => by
          cases hd.symm.trans hd'
          cases hl.symm.trans hl'
          exact h⟩
  | none, _ => isFalse fun ⟨_, _, hd', _⟩ => by
      cases hd.symm.trans hd'
  | some _, none => isFalse fun ⟨_, _, _, hl', _⟩ => by
      cases hl.symm.trans hl'

/-- The disabled ones, by the two sources and the breaker. -/
def disabledStop : ContainerReconcilePlan :=
  computeContainersToStop (runningIds actual) enabledSet statusById

def staleK8s : List Text :=
  (k8sRunning actual).filter fun id =>
    id ∉ (disabledStop actual enabledSet statusById).toStop ∧ id ∉ k8sAgentIds

def unsupportedRollback : List Text :=
  (staleK8s actual enabledSet statusById k8sAgentIds).filter fun id =>
    Wanted enabledSet statusById id ∧ id ∉ localRunning actual

def computeRuntimeReconcilePlan : RuntimeReconcilePlan :=
  let stop := disabledStop actual enabledSet statusById
  match stop.skipReason with
  | some reason => ⟨[], [], [], [], [], [], [], some reason⟩
  | none =>
      { toStop := stop.toStop
        toStopLocal := (localRunning actual).filter fun id =>
          id ∉ stop.toStop ∧ id ∈ k8sAgentIds
        toStopK8s := (staleK8s actual enabledSet statusById k8sAgentIds).filter fun id =>
          -- never the only live backend of an active agent
          id ∉ unsupportedRollback actual enabledSet statusById k8sAgentIds
        unsupportedRollback := unsupportedRollback actual enabledSet statusById k8sAgentIds
        toRestoreK8s := (actual.filter fun a =>
            a.backend = .k8s ∧ a.replicas.getD 0 = 0 ∧ a.readyReplicas.getD 0 = 0 ∧
              Wanted enabledSet statusById a.agentId ∧ a.agentId ∉ k8sAgentIds ∧
              a.agentId ∉ localRunning actual).map (·.agentId)
        toStartK8s := k8sAgentIds.filter fun id =>
          Wanted enabledSet statusById id ∧
            (id ∉ k8sRunning actual ∨ id ∈ driftedK8s actual) ∧ id ∉ localRunning actual
        toRefreshK8s := k8sAgentIds.filter fun id =>
          Wanted enabledSet statusById id ∧ id ∈ healthyK8s actual ∧ id ∉ localRunning actual ∧
            HashDiffers actual desiredConfigHashById id
        skipReason := none }

end

end Shizuha.Daemon
