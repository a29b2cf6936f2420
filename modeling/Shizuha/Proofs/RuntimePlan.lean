import Shizuha.Daemon.RuntimePlan
import Mathlib.Data.Finset.Card
import Mathlib.Data.Finset.Dedup

/-!
# The plan takes nobody down by mistake

Each list of the plan has one lemma that says who is on it, and the facts about
the plan as a whole are read off those. What makes them agree is that every
list that starts something asks for the agent to be wanted and for no child of
the daemon to run it, and no list that stops a Deployment has a placed agent on
it unless it is disabled.

The breaker counts runtimes, not agents: an agent on both backends counts
twice. With agents on both it can let a stop of more than half of the agents
through (`fleet`), with none it cannot.
-/

namespace Shizuha.Daemon

open Js

variable {actual : List RuntimeActualState} {enabledSet k8sAgentIds : List Text}
  {statusById : Text → Option AgentStatus} {desiredConfigHashById : Option (Text → Option Text)}
  {agentId : Text}

/-- A stop of the agent's child of the daemon. -/
def RuntimeReconcilePlan.StopsLocal (plan : RuntimeReconcilePlan) (agentId : Text) : Prop :=
  agentId ∈ plan.toStop ∨ agentId ∈ plan.toStopLocal

def RuntimeReconcilePlan.StopsK8s (plan : RuntimeReconcilePlan) (agentId : Text) : Prop :=
  agentId ∈ plan.toStop ∨ agentId ∈ plan.toStopK8s

/-- The agent's Deployment is applied: started, restored or refreshed. -/
def RuntimeReconcilePlan.AppliesK8s (plan : RuntimeReconcilePlan) (agentId : Text) : Prop :=
  agentId ∈ plan.toStartK8s ∨ agentId ∈ plan.toRefreshK8s ∨ agentId ∈ plan.toRestoreK8s

/-! ## Who is on which list -/

theorem mem_keepFirst_id {l : List Text} : agentId ∈ keepFirst id [] l ↔ agentId ∈ l := by
  have h : agentId ∈ (keepFirst id [] l).map id ↔ agentId ∈ l.map id ∧ agentId ∉ [] :=
    mem_keepFirst_key
  simpa using h

theorem mem_idsOf {p : RuntimeActualState → Bool} :
    agentId ∈ idsOf actual p ↔ ∃ a ∈ actual, p a = true ∧ a.agentId = agentId := by
  rw [idsOf, mem_keepFirst_id, List.mem_map]
  simp only [List.mem_filter, and_assoc]

theorem mem_runningIds :
    agentId ∈ runningIds actual ↔ agentId ∈ localRunning actual ∨ agentId ∈ k8sRunning actual := by
  rw [localRunning, k8sRunning, mem_idsOf, mem_idsOf, runningIds, List.mem_map]
  simp only [List.mem_filter, decide_eq_true_eq]
  constructor
  · rintro ⟨a, ⟨ha, hup⟩, hid⟩
    by_cases hlocal : a.backend = .daemonLocal
    · exact .inl ⟨a, ha, hlocal, hid⟩
    · have hk8s : a.backend = .k8s := by
        cases hb : a.backend with
        | daemonLocal => exact absurd hb hlocal
        | k8s => rfl
      exact .inr ⟨a, ha, ⟨hk8s, hup.resolve_left hlocal⟩, hid⟩
  · rintro (⟨a, ha, hlocal, hid⟩ | ⟨a, ha, ⟨-, hup⟩, hid⟩)
    · exact ⟨a, ⟨ha, .inl hlocal⟩, hid⟩
    · exact ⟨a, ⟨ha, .inr hup⟩, hid⟩

/-- The Deployment of an agent that runs on the cluster has replicas. -/
theorem k8sRunning_unique
    {actual : Table (Text × RuntimeBackend) RuntimeActualState RuntimeActualState.key}
    (hrunning : agentId ∈ k8sRunning actual.rows) {a : RuntimeActualState} (ha : a ∈ actual.rows)
    (hkey : a.key = (agentId, .k8s)) : a.hasReplicas = true := by
  obtain ⟨b, hb, hup, hid⟩ := mem_idsOf.mp hrunning
  simp only [decide_eq_true_eq] at hup
  have hbkey : b.key = (agentId, .k8s) := by
    rw [RuntimeActualState.key, hup.1, hid]
  rw [List.inj_on_of_nodup_map actual.nodup ha hb (hkey.trans hbkey.symm)]
  exact hup.2

/-- What is stopped for being disabled. -/
theorem computeContainersToStop_spec {running : List Text} :
    (computeContainersToStop running enabledSet statusById).toStop.Sublist
        (running.filter fun id => id ∉ enabledSet ∧ statusById id = some .disabled) ∧
      (4 ≤ running.length →
        2 * (computeContainersToStop running enabledSet statusById).toStop.length ≤
          running.length) := by
  rw [computeContainersToStop]
  split_ifs with hempty
  · exact ⟨List.nil_sublist _, fun _ => by simp⟩
  · simp only
    split_ifs with hbreaker
    · exact ⟨List.nil_sublist _, fun _ => by simp⟩
    · refine ⟨List.Sublist.refl _, fun hfour => ?_⟩
      by_contra hmore
      exact hbreaker ⟨hfour, Nat.lt_of_not_le hmore⟩

theorem mem_disabledStop (h : agentId ∈ (disabledStop actual enabledSet statusById).toStop) :
    agentId ∈ runningIds actual ∧ agentId ∉ enabledSet ∧ statusById agentId = some .disabled := by
  have hmem := computeContainersToStop_spec.1.subset h
  simpa using hmem

theorem Wanted.not_stopped (h : Wanted enabledSet statusById agentId) :
    agentId ∉ (disabledStop actual enabledSet statusById).toStop :=
  fun hmem => (mem_disabledStop hmem).2.1 h.1

/-- The plan of a pass that is skipped, and of one that is not. -/
theorem plan_cases (plan : RuntimeReconcilePlan)
    (hplan : computeRuntimeReconcilePlan actual enabledSet statusById k8sAgentIds
      desiredConfigHashById = plan) :
    (∃ reason, plan = ⟨[], [], [], [], [], [], [], some reason⟩) ∨
      plan.toStop = (disabledStop actual enabledSet statusById).toStop ∧
      (∀ id ∈ plan.toStopLocal, id ∈ localRunning actual ∧ id ∈ k8sAgentIds) ∧
      (∀ id ∈ plan.toStopK8s, id ∈ k8sRunning actual ∧ id ∉ k8sAgentIds ∧
        (Wanted enabledSet statusById id → id ∈ localRunning actual)) ∧
      (∀ id ∈ plan.toRestoreK8s, Wanted enabledSet statusById id ∧ id ∉ k8sAgentIds ∧
        id ∉ localRunning actual ∧ ∃ a ∈ actual, a.key = (id, .k8s) ∧ a.hasReplicas = false) ∧
      (∀ id ∈ plan.toStartK8s, Wanted enabledSet statusById id ∧ id ∈ k8sAgentIds ∧
        id ∉ localRunning actual ∧ (id ∈ k8sRunning actual → id ∈ driftedK8s actual)) ∧
      ∀ id ∈ plan.toRefreshK8s, Wanted enabledSet statusById id ∧ id ∈ k8sAgentIds ∧
        id ∉ localRunning actual ∧ HashDiffers actual desiredConfigHashById id := by
  subst hplan
  rw [computeRuntimeReconcilePlan]
  split
  · next reason hskip => exact .inl ⟨reason, rfl⟩
  · refine .inr ⟨rfl, fun id hid => ?_, fun id hid => ?_, fun id hid => ?_, fun id hid => ?_,
      fun id hid => ?_⟩
    · simp only [List.mem_filter, decide_eq_true_eq] at hid
      exact ⟨hid.1, hid.2.2⟩
    · simp only [staleK8s, unsupportedRollback, List.mem_filter, decide_eq_true_eq] at hid
      obtain ⟨⟨hrunning, hstop, hplaced⟩, hkept⟩ := hid
      refine ⟨hrunning, hplaced, fun hwanted => ?_⟩
      by_contra hlocal
      exact hkept ⟨⟨hrunning, hstop, hplaced⟩, hwanted, hlocal⟩
    · simp only [List.mem_map, List.mem_filter, decide_eq_true_eq] at hid
      obtain ⟨a, ⟨ha, hk8s, hreplicas, hready, hwanted, hplaced, hlocal⟩, rfl⟩ := hid
      refine ⟨hwanted, hplaced, hlocal, a, ha, by rw [RuntimeActualState.key, hk8s], ?_⟩
      simp [RuntimeActualState.hasReplicas, hreplicas, hready]
    · simp only [List.mem_filter, decide_eq_true_eq] at hid
      exact ⟨hid.2.1, hid.1, hid.2.2.2, fun hrunning => hid.2.2.1.resolve_left (by simpa)⟩
    · simp only [List.mem_filter, decide_eq_true_eq] at hid
      exact ⟨hid.2.1, hid.1, hid.2.2.2.1, hid.2.2.2.2⟩

/-! ## The plan as a whole -/

/-- Stopped for being disabled are at most half of the running agents, once
there are four. -/
def StopsAtMostHalf (actual : List RuntimeActualState) (plan : RuntimeReconcilePlan) : Prop :=
  4 ≤ (runningIds actual).toFinset.card →
    2 * plan.toStop.toFinset.card ≤ (runningIds actual).toFinset.card

/-- The same, of runtimes. -/
def StopsAtMostHalfOfRuntimes (actual : List RuntimeActualState) (plan : RuntimeReconcilePlan) :
    Prop :=
  4 ≤ (runningIds actual).length → 2 * plan.toStop.length ≤ (runningIds actual).length

/-- No agent runs on both backends. -/
def OneBackend (actual : List RuntimeActualState) : Prop :=
  ∀ id ∈ localRunning actual, id ∉ k8sRunning actual

/-- A runtime of the agent that the plan does nothing about. -/
def LeavesRuntime (actual : List RuntimeActualState) (plan : RuntimeReconcilePlan)
    (agentId : Text) : Prop :=
  agentId ∈ localRunning actual ∧ ¬ plan.StopsLocal agentId ∨
    agentId ∈ k8sRunning actual ∧ ¬ plan.StopsK8s agentId ∧ ¬ plan.AppliesK8s agentId

/-- Its child is stopped for a Deployment to take over. -/
def MovesToK8s (k8sAgentIds : List Text) (plan : RuntimeReconcilePlan) (agentId : Text) : Prop :=
  plan.StopsLocal agentId ∧ agentId ∈ k8sAgentIds

/-- Its Deployment keeps running and is applied anew, with a credential or a
configuration that has drifted. -/
def ReappliesDrifted (actual : List RuntimeActualState) (k8sAgentIds : List Text)
    (desiredConfigHashById : Option (Text → Option Text)) (plan : RuntimeReconcilePlan)
    (agentId : Text) : Prop :=
  agentId ∈ k8sRunning actual ∧ ¬ plan.StopsK8s agentId ∧ agentId ∈ k8sAgentIds ∧
    (agentId ∈ driftedK8s actual ∨ HashDiffers actual desiredConfigHashById agentId)

/-- What the lists of a plan say of one another. -/
structure PlanConsistent (actual : List RuntimeActualState) (enabledSet : List Text)
    (statusById : Text → Option AgentStatus) (plan : RuntimeReconcilePlan) : Prop where
  disabled : ∀ id ∈ plan.toStop, id ∉ enabledSet ∧ statusById id = some .disabled
  alone : ∀ id ∈ localRunning actual, ¬ plan.AppliesK8s id
  oneWay : ∀ id, plan.StopsK8s id → ¬ plan.AppliesK8s id

theorem plan_consistent
    {actual : Table (Text × RuntimeBackend) RuntimeActualState RuntimeActualState.key} :
    PlanConsistent actual.rows enabledSet statusById
      (computeRuntimeReconcilePlan actual.rows enabledSet statusById k8sAgentIds
        desiredConfigHashById) := by
  generalize hplan : computeRuntimeReconcilePlan _ _ _ _ _ = plan
  rcases plan_cases plan hplan with ⟨reason, rfl⟩ | ⟨hstop, -, hk8s, hrestore, hstart, hrefresh⟩
  · exact ⟨by simp, by simp [RuntimeReconcilePlan.AppliesK8s],
      by simp [RuntimeReconcilePlan.AppliesK8s]⟩
  · have happlies {id : Text} (h : plan.AppliesK8s id) :
        Wanted enabledSet statusById id ∧ id ∉ localRunning actual.rows := by
      rcases h with h | h | h
      · exact ⟨(hstart id h).1, (hstart id h).2.2.1⟩
      · exact ⟨(hrefresh id h).1, (hrefresh id h).2.2.1⟩
      · exact ⟨(hrestore id h).1, (hrestore id h).2.2.1⟩
    refine ⟨fun id hid => (mem_disabledStop (hstop ▸ hid)).2, fun id hid h => (happlies h).2 hid,
      fun id hid h => ?_⟩
    rcases hid with hid | hid
    · exact (happlies h).1.not_stopped (hstop ▸ hid)
    · -- on the list of stale Deployments: running, and not placed
      obtain ⟨hrunning, hplaced, -⟩ := hk8s id hid
      rcases h with h | h | h
      · exact hplaced (hstart id h).2.1
      · exact hplaced (hrefresh id h).2.1
      · obtain ⟨-, -, -, a, ha, hkey, hnone⟩ := hrestore id h
        exact absurd (k8sRunning_unique hrunning ha hkey) (by simp [hnone])

theorem plan_half : StopsAtMostHalfOfRuntimes actual (computeRuntimeReconcilePlan actual enabledSet
    statusById k8sAgentIds desiredConfigHashById) := by
  intro hfour
  generalize hplan : computeRuntimeReconcilePlan _ _ _ _ _ = plan
  rcases plan_cases plan hplan with ⟨reason, rfl⟩ | ⟨hstop, -⟩
  · simp
  · rw [hstop]
    exact computeContainersToStop_spec.2 hfour

/-- With no agent on both backends, runtimes are agents. -/
theorem nodup_runningIds
    {actual : Table (Text × RuntimeBackend) RuntimeActualState RuntimeActualState.key}
    (hone : OneBackend actual.rows) : (runningIds actual.rows).Nodup := by
  refine (actual.nodup.of_map (f := RuntimeActualState.key) |>.filter _).map_on ?_
  intro a ha b hb hid
  simp only [List.mem_filter, decide_eq_true_eq] at ha hb
  refine List.inj_on_of_nodup_map actual.nodup ha.1 hb.1 ?_
  have hup {c : RuntimeActualState} (hc : c ∈ actual.rows)
      (h : c.backend = .daemonLocal ∨ c.hasReplicas = true) :
      c.backend = .daemonLocal ∧ c.agentId ∈ localRunning actual.rows ∨
        c.backend = .k8s ∧ c.agentId ∈ k8sRunning actual.rows := by
    cases hbackend : c.backend with
    | daemonLocal => exact .inl ⟨rfl, mem_idsOf.mpr ⟨c, hc, by simpa using hbackend, rfl⟩⟩
    | k8s =>
        refine .inr ⟨rfl, mem_idsOf.mpr ⟨c, hc, ?_, rfl⟩⟩
        rcases h with h | h
        · rw [hbackend] at h
          cases h
        · simpa [hbackend] using h
  rw [RuntimeActualState.key, RuntimeActualState.key, hid]
  rcases hup ha.1 ha.2 with ⟨hab, hal⟩ | ⟨hab, hal⟩ <;>
    rcases hup hb.1 hb.2 with ⟨hbb, hbl⟩ | ⟨hbb, hbl⟩
  · rw [hab, hbb]
  · exact absurd (hid ▸ hbl) (hone _ hal)
  · exact absurd hal (hid ▸ hone _ hbl)
  · rw [hab, hbb]

theorem plan_half_of_oneBackend
    {actual : Table (Text × RuntimeBackend) RuntimeActualState RuntimeActualState.key}
    (hone : OneBackend actual.rows) :
    StopsAtMostHalf actual.rows (computeRuntimeReconcilePlan actual.rows enabledSet statusById
      k8sAgentIds desiredConfigHashById) := by
  intro hfour
  have hcard := List.toFinset_card_of_nodup (nodup_runningIds hone)
  rw [hcard] at hfour ⊢
  exact (Nat.mul_le_mul_left 2 (List.toFinset_card_le _)).trans (plan_half hfour)

theorem plan_leaves
    {actual : Table (Text × RuntimeBackend) RuntimeActualState RuntimeActualState.key}
    (hwanted : Wanted enabledSet statusById agentId) (hup : agentId ∈ runningIds actual.rows)
    {plan : RuntimeReconcilePlan}
    (hplan : computeRuntimeReconcilePlan actual.rows enabledSet statusById k8sAgentIds
      desiredConfigHashById = plan) :
    LeavesRuntime actual.rows plan agentId ∨ MovesToK8s k8sAgentIds plan agentId ∨
      ReappliesDrifted actual.rows k8sAgentIds desiredConfigHashById plan agentId := by
  rw [mem_runningIds] at hup
  rcases plan_cases plan hplan with
    ⟨reason, rfl⟩ | ⟨hstop, hlocal, hk8s, hrestore, hstart, hrefresh⟩
  · left
    simpa [LeavesRuntime, RuntimeReconcilePlan.StopsLocal, RuntimeReconcilePlan.StopsK8s,
      RuntimeReconcilePlan.AppliesK8s] using hup
  · have hnot : agentId ∉ plan.toStop := hstop ▸ hwanted.not_stopped
    by_cases hchild : agentId ∈ localRunning actual.rows
    · by_cases hstopped : plan.StopsLocal agentId
      · right; left
        exact ⟨hstopped, (hlocal agentId (hstopped.resolve_left hnot)).2⟩
      · exact .inl (.inl ⟨hchild, hstopped⟩)
    · have hrunning := hup.resolve_left hchild
      have hkept : ¬ plan.StopsK8s agentId := by
        rintro (h | h)
        · exact hnot h
        · exact hchild ((hk8s agentId h).2.2 hwanted)
      by_cases happlies : plan.AppliesK8s agentId
      · right; right
        rcases happlies with h | h | h
        · obtain ⟨-, hplaced, -, hdrifted⟩ := hstart agentId h
          exact ⟨hrunning, hkept, hplaced, .inl (hdrifted hrunning)⟩
        · obtain ⟨-, hplaced, -, hdiffers⟩ := hrefresh agentId h
          exact ⟨hrunning, hkept, hplaced, .inr hdiffers⟩
        · -- a Deployment scaled to nothing is not a running one
          obtain ⟨-, -, -, a, ha, hkey, hnone⟩ := hrestore agentId h
          exact absurd (k8sRunning_unique hrunning ha hkey) (by simp [hnone])
      · exact .inl (.inr ⟨hrunning, hkept, happlies⟩)

/-- Safety of a plan, with agents counted and a runtime left untouched. -/
structure PlanSafe (actual : List RuntimeActualState) (enabledSet : List Text)
    (statusById : Text → Option AgentStatus) (k8sAgentIds : List Text)
    (plan : RuntimeReconcilePlan) : Prop where
  consistent : PlanConsistent actual enabledSet statusById plan
  half : StopsAtMostHalf actual plan
  online : ∀ id, Wanted enabledSet statusById id → id ∈ runningIds actual →
    LeavesRuntime actual plan id ∨ MovesToK8s k8sAgentIds plan id

/-- What the plan guarantees: the breaker is about runtimes, and about agents
when each has one; a Deployment that drifted is applied anew. -/
structure PlanGuarded (actual : List RuntimeActualState) (enabledSet : List Text)
    (statusById : Text → Option AgentStatus) (k8sAgentIds : List Text)
    (desiredConfigHashById : Option (Text → Option Text)) (plan : RuntimeReconcilePlan) :
    Prop where
  consistent : PlanConsistent actual enabledSet statusById plan
  halfOfRuntimes : StopsAtMostHalfOfRuntimes actual plan
  half : OneBackend actual → StopsAtMostHalf actual plan
  online : ∀ id, Wanted enabledSet statusById id → id ∈ runningIds actual →
    LeavesRuntime actual plan id ∨ MovesToK8s k8sAgentIds plan id ∨
      ReappliesDrifted actual k8sAgentIds desiredConfigHashById plan id

theorem runtimePlan_guarded
    (actual : Table (Text × RuntimeBackend) RuntimeActualState RuntimeActualState.key)
    (enabledSet : List Text) (statusById : Text → Option AgentStatus) (k8sAgentIds : List Text)
    (desiredConfigHashById : Option (Text → Option Text)) :
    PlanGuarded actual.rows enabledSet statusById k8sAgentIds desiredConfigHashById
      (computeRuntimeReconcilePlan actual.rows enabledSet statusById k8sAgentIds
        desiredConfigHashById) where
  consistent := plan_consistent
  halfOfRuntimes := plan_half
  half := plan_half_of_oneBackend
  online := fun _ hwanted hup => plan_leaves hwanted hup rfl

/-! ## A stop of four agents in seven

Two placed agents are on both backends, so four of nine runtimes are four of
seven agents. A third placed agent runs on the cluster with a configuration
that is not the one wanted. -/

def upLocal (agentId : Text) : RuntimeActualState :=
  ⟨agentId, .daemonLocal, some 1, none, none, false⟩

def upK8s (agentId : Text) : RuntimeActualState :=
  ⟨agentId, .k8s, some 1, some 1, some (js "old"), false⟩

def fleetRows : List RuntimeActualState :=
  [js "p1", js "p2", js "d1", js "d2", js "d3", js "d4"].map upLocal ++
    [js "p1", js "p2", js "p3"].map upK8s

theorem fleet_nodup : (fleetRows.map RuntimeActualState.key).Nodup := by decide

def fleet : Table (Text × RuntimeBackend) RuntimeActualState RuntimeActualState.key :=
  ⟨fleetRows, fleet_nodup⟩

def placed : List Text := [js "p1", js "p2", js "p3"]

def fleetStatus (agentId : Text) : Option AgentStatus :=
  if agentId ∈ placed then some .active else some .disabled

def fleetPlan : RuntimeReconcilePlan :=
  computeRuntimeReconcilePlan fleet.rows placed fleetStatus placed (some fun _ => some (js "new"))

/-- Both fail: the breaker lets four of seven go, and the plan applies anew the
one runtime of a healthy agent. -/
theorem fleet_unsafe :
    ¬ PlanSafe fleet.rows placed fleetStatus placed fleetPlan ∧
      ¬ StopsAtMostHalf fleet.rows fleetPlan ∧
      ¬ (LeavesRuntime fleet.rows fleetPlan (js "p3") ∨
        MovesToK8s placed fleetPlan (js "p3")) := by
  have hhalf : ¬ StopsAtMostHalf fleet.rows fleetPlan := by
    intro h
    exact absurd (h (by decide)) (by decide)
  refine ⟨fun h => hhalf h.half, hhalf, ?_⟩
  rintro ((⟨hchild, -⟩ | ⟨-, -, happlies⟩) | ⟨hstop | hstop, -⟩)
  · exact absurd hchild (by decide)
  · exact happlies (.inr (.inl (by decide)))
  · exact absurd hstop (by decide)
  · exact absurd hstop (by decide)

end Shizuha.Daemon
