import Shizuha.Daemon.AgentStateReconciler
import Shizuha.Proofs.KillSwitch

/-!
# The reconcile loop acts on what it listed

The rows of one pass are read before its first wait, and nothing in the loop
reads an agent again before acting on it. So a call of `start` or `stop` is
right for the stored row exactly when the stored row still asks for what the
listed one asked for (`acts_iff_asListed`), and a pass is safe as long as the
mutations that land in it leave alone what the agents still ahead of it ask
for (`sparesAhead_invariant`). An operator who stops an agent while its runtime
is being observed is not spared: the loop starts the agent.
-/

namespace Shizuha.Daemon

open Js State Machine

variable {reconciler : AgentStateReconciler} {s : ReconcileState}

/-- A step starts an agent only if the stored row asks for it, and stops it
only if the stored row does not. -/
def ActsOnStored (reconciler : AgentStateReconciler) (s : ReconcileState) (op : ReconcileOp) :
    Prop :=
  match (reconciler.advance s op).2 with
  | none => True
  | some (.start row) =>
      (reconciler.step s op).db.store.isEffectivelyEnabled row.id = true
  | some (.stop row _) =>
      (reconciler.step s op).db.store.isEffectivelyEnabled row.id = false

/-- An observation that the loop answers with a call: the row is still there,
the event can be written, and the runtime is not as the listed row asks. -/
structure AsksForAction (reconciler : AgentStateReconciler) (s : ReconcileState) (stamp : Stamp)
    (row : AgentRow) (obs : AgentObservation) : Prop where
  enforce : reconciler.mode = .enforce
  method : (if row.desiredRunning then reconciler.hasStart else reconciler.hasStop) = true
  present : s.db.store.getAgent row.id ≠ none
  fresh : s.db.store.events.get (boundText stamp.eventId) = none
  mismatch : row.observedMatchesDesired obs.observedState = false

/-- When an observation asks for an action, the stored row asks for what the
listed one did. -/
def AsListed (reconciler : AgentStateReconciler) (s : ReconcileState) (op : ReconcileOp) : Prop :=
  ∀ row rest stamp obs, s.phase = .observing row rest → op = .observed stamp obs →
    AsksForAction reconciler s stamp row obs →
      s.db.store.isEffectivelyEnabled row.id = row.desiredRunning

/-- The agents the pass has still to decide about. -/
def ReconcilePhase.ahead : ReconcilePhase → List AgentRow
  | .observing row rest => row :: rest
  | .acting _ rest _ => rest
  | .idle | .orphans => []

/-- A mutation leaves alone whether the agents ahead are effectively enabled. -/
def SparesAhead (s : ReconcileState) (op : ReconcileOp) : Prop :=
  ∀ call, op = .mutate call → ∀ row ∈ s.phase.ahead,
    (agentStateStep s.db.store call).isEffectivelyEnabled row.id =
      s.db.store.isEffectivelyEnabled row.id

/-! ## What writing an event and an observation leaves alone -/

theorem writeEvent_fresh {t : AgentStateStore} {stamp : Stamp} {agentId type actor : Text}
    {version : ℕ} {reason : Option Text} {payload : Option Json} :
    (∃ t', t.writeEvent stamp agentId type version actor reason payload = .ok t') ↔
      t.events.get (boundText stamp.eventId) = none := by
  rw [AgentStateStore.writeEvent]
  constructor
  · rintro ⟨t', h⟩
    split at h
    · cases h
    · next events hinsert => exact (Table.insert_eq_some hinsert).1
  · intro hnone
    split
    · next hinsert =>
        obtain ⟨r, hr, hkey⟩ := Table.insert_eq_none hinsert
        exact absurd hkey (Table.get_eq_none_iff.mp hnone r hr)
    · exact ⟨_, rfl⟩

theorem agents_recordStateEvent {t t' : AgentStateStore} {stamp : Stamp}
    {agentId type actor : Text} {reason : Option Text} {payload : Option Json}
    (h : t.recordStateEvent stamp agentId type actor reason payload = .ok t') :
    t'.agents = t.agents := by
  rw [AgentStateStore.recordStateEvent] at h
  split at h
  · cases h
  · exact agents_writeEvent h

theorem store_recordObservation {db db' : AgentStateDb} {now agentId : Text}
    {obs : AgentObservation} (h : db.recordObservation now agentId obs = some db') :
    db'.store = db.store := by
  rw [AgentStateDb.recordObservation] at h
  split at h
  · cases h
  · cases h
    rfl

theorem isEffectivelyEnabled_congr {t t' : AgentStateStore} (h : t'.agents = t.agents)
    (agentId : Text) : t'.isEffectivelyEnabled agentId = t.isEffectivelyEnabled agentId := by
  rw [AgentStateStore.isEffectivelyEnabled, AgentStateStore.isEffectivelyEnabled,
    AgentStateStore.getAgent, AgentStateStore.getAgent, h]

/-! ## What a step does -/

@[simp] theorem db_next (rest : List AgentRow) : (s.next rest).db = s.db := by
  cases rest <;> rfl

@[simp] theorem db_decided (decision : AgentReconcileDecision) (rest : List AgentRow) :
    (s.decided decision rest).db = s.db := by
  rw [ReconcileState.decided, db_next]

@[simp] theorem db_settled : s.settled.db = s.db := rfl

@[simp] theorem ahead_next (rest : List AgentRow) : (s.next rest).phase.ahead = rest := by
  cases rest <;> rfl

@[simp] theorem ahead_decided (decision : AgentReconcileDecision) (rest : List AgentRow) :
    (s.decided decision rest).phase.ahead = rest := by
  rw [ReconcileState.decided, ahead_next]

@[simp] theorem ahead_settled : s.settled.phase.ahead = [] := rfl

/-- A state reached without touching the agents, with part of the pass done. -/
structure Onward (s s' : ReconcileState) (rest : List AgentRow) : Prop where
  agents : s'.db.store.agents = s.db.store.agents
  ahead : s'.phase.ahead = rest ∨ s'.phase.ahead = []

theorem onward_settled {rest : List AgentRow} : Onward s s.settled rest := ⟨rfl, .inr rfl⟩

theorem onward_decided {decision : AgentReconcileDecision} {rest : List AgentRow} :
    Onward s (s.decided decision rest) rest := ⟨by simp, .inl (by simp)⟩

/-- A statement that leaves the agents alone, or throws, and what follows. -/
theorem onward_wrote {s' : ReconcileState} {written : Except AgentStateError AgentStateStore}
    {next : ReconcileState → ReconcileState × Option ControllerCall} {rest : List AgentRow}
    (hdb : s'.db.store.agents = s.db.store.agents)
    (hwritten : ∀ store, written = .ok store → store.agents = s'.db.store.agents)
    (hnext : ∀ s, Onward s (next s).1 rest) : Onward s (s'.wrote written next).1 rest := by
  unfold ReconcileState.wrote
  split
  · exact ⟨hdb, .inr rfl⟩
  · next store =>
      have h := hnext { s' with db := { s'.db with store := store } }
      exact ⟨h.agents.trans ((hwritten store rfl).trans hdb), h.ahead⟩

theorem applyAction_onward {row : AgentRow} {rest : List AgentRow}
    {decision : AgentReconcileDecision} :
    Onward s (reconciler.applyAction s row rest decision).1 rest := by
  rw [AgentStateReconciler.applyAction]
  split_ifs
  · exact ⟨rfl, .inl rfl⟩
  · exact onward_settled
  · exact ⟨rfl, .inl rfl⟩
  · exact onward_settled

theorem observed_onward (reconciler : AgentStateReconciler) (s : ReconcileState) (stamp : Stamp)
    (row : AgentRow) (rest : List AgentRow) (obs : AgentObservation) :
    Onward s (reconciler.observed s stamp row rest obs).1 rest := by
  unfold AgentStateReconciler.observed
  split
  · exact onward_settled
  · next db hdb =>
      have hstore : db.store.agents = s.db.store.agents := by
        rw [store_recordObservation hdb]
      split_ifs
      · exact onward_wrote hstore (fun _ h => agents_recordStateEvent h) fun _ => onward_decided
      · refine onward_wrote hstore (fun _ h => agents_recordStateEvent h) fun s => ?_
        split_ifs
        · exact applyAction_onward
        · exact onward_decided

theorem acted_onward {stamp : Stamp} {row : AgentRow} {rest : List AgentRow}
    {decision : AgentReconcileDecision} {obs : Option AgentObservation} :
    Onward s (reconciler.acted s stamp row rest decision obs).1 rest := by
  unfold AgentStateReconciler.acted
  split
  · exact onward_settled
  · next db hdb =>
      have hstore : db.store.agents = s.db.store.agents := by
        cases obs with
        | none =>
            cases hdb
            rfl
        | some obs => rw [store_recordObservation hdb]
      exact onward_wrote hstore (fun _ h => agents_recordStateEvent h) fun _ => onward_decided

/-- Whether an event can be written: the row is there and the id is new. -/
theorem recordStateEvent_ok {t : AgentStateStore} {stamp : Stamp} {agentId type actor : Text}
    {reason : Option Text} {payload : Option Json} :
    (∃ t', t.recordStateEvent stamp agentId type actor reason payload = .ok t') ↔
      t.getAgent agentId ≠ none ∧ t.events.get (boundText stamp.eventId) = none := by
  rw [AgentStateStore.recordStateEvent]
  cases hrow : t.getAgent agentId with
  | none => simp
  | some row => simpa using writeEvent_fresh

/-- The call a resolved observation ends in. -/
theorem observed_call (reconciler : AgentStateReconciler) (s : ReconcileState) (stamp : Stamp)
    (row : AgentRow) (rest : List AgentRow) (obs : AgentObservation) :
    (¬ AsksForAction reconciler s stamp row obs ∧
        (reconciler.observed s stamp row rest obs).2 = none) ∨
      (AsksForAction reconciler s stamp row obs ∧
        (reconciler.observed s stamp row rest obs).2 =
          some (if row.desiredRunning then .start row else .stop row row.correction.2)) := by
  rw [AgentStateReconciler.observed]
  split
  · next hdb =>
      refine .inl ⟨fun h => h.present ?_, rfl⟩
      rw [AgentStateDb.recordObservation] at hdb
      split at hdb
      · assumption
      · cases hdb
  · next db hdb =>
      have hstore := store_recordObservation hdb
      by_cases hmatch : row.observedMatchesDesired obs.observedState = true
      · refine .inl ⟨fun h => ?_, ?_⟩
        · rw [h.mismatch] at hmatch
          cases hmatch
        · rw [if_pos hmatch]
          unfold AgentStateReconciler.reconciled ReconcileState.wrote
          split <;> rfl
      · rw [if_neg hmatch]
        unfold AgentStateReconciler.drifted ReconcileState.wrote
        split
        · next e hevent =>
            refine .inl ⟨fun h => ?_, rfl⟩
            obtain ⟨t', ht'⟩ := recordStateEvent_ok.mpr ⟨h.present, h.fresh⟩
            rw [← hstore, hevent] at ht'
            cases ht'
        · next store hevent =>
            obtain ⟨hpresent, hfresh⟩ := recordStateEvent_ok.mp ⟨_, hevent⟩
            have hasks (hmode : reconciler.mode = .enforce)
                (hmethod : (if row.desiredRunning then reconciler.hasStart
                  else reconciler.hasStop) = true) : AsksForAction reconciler s stamp row obs :=
              ⟨hmode, hmethod, hstore ▸ hpresent, hstore ▸ hfresh, eq_false_of_ne_true hmatch⟩
            simp only [AgentStateReconciler.applyAction]
            split_ifs with hmode hrunning hmethod hmethod
            · exact .inr ⟨hasks hmode (by simpa [hrunning] using hmethod), rfl⟩
            · exact .inl ⟨fun h => hmethod (by simpa [hrunning] using h.method), rfl⟩
            · exact .inr ⟨hasks hmode (by simpa [hrunning] using hmethod), rfl⟩
            · exact .inl ⟨fun h => hmethod (by simpa [hrunning] using h.method), rfl⟩
            · exact .inl ⟨fun h => hmode h.enforce, rfl⟩

theorem acted_call {stamp : Stamp} {row : AgentRow} {rest : List AgentRow}
    {decision : AgentReconcileDecision} {obs : Option AgentObservation} :
    (reconciler.acted s stamp row rest decision obs).2 = none := by
  unfold AgentStateReconciler.acted
  split
  · rfl
  · unfold ReconcileState.wrote
    split <;> rfl

/-! ## The exact condition -/

theorem acts_iff_asListed (op : ReconcileOp) :
    ActsOnStored reconciler s op ↔ AsListed reconciler s op := by
  cases op with
  | observed stamp obs =>
      cases hphase : s.phase with
      | observing row rest =>
          have hadvance : reconciler.advance s (.observed stamp obs) =
              reconciler.observed s stamp row rest obs := by
            rw [AgentStateReconciler.advance, hphase]
          have hlisted : AsListed reconciler s (.observed stamp obs) ↔
              (AsksForAction reconciler s stamp row obs →
                s.db.store.isEffectivelyEnabled row.id = row.desiredRunning) := by
            constructor
            · intro h
              exact h row rest stamp obs hphase rfl
            · rintro h row' rest' stamp' obs' hphase' hop
              cases hphase.symm.trans hphase'
              cases hop
              exact h
          have hagents := isEffectivelyEnabled_congr
            (observed_onward reconciler s stamp row rest obs).agents row.id
          rw [hlisted, ActsOnStored, AgentStateReconciler.step, hadvance]
          rcases observed_call reconciler s stamp row rest obs with
            ⟨hasks, hcall⟩ | ⟨hasks, hcall⟩
          · rw [hcall]
            exact iff_of_true trivial fun h => absurd h hasks
          · rw [hcall]
            cases hrunning : row.desiredRunning with
            | true => simp [hagents, hasks]
            | false => simp [hagents, hasks]
      | idle | acting | orphans =>
          refine iff_of_true ?_ fun _ _ _ _ h => by rw [hphase] at h; cases h
          rw [ActsOnStored, AgentStateReconciler.advance, hphase]
          trivial
  | reconcileOnce =>
      refine iff_of_true ?_ fun _ _ _ _ _ h => by cases h
      have hcall : (reconciler.advance s .reconcileOnce).2 = none := by
        rw [AgentStateReconciler.advance]
        split <;> rfl
      rw [ActsOnStored, hcall]
      trivial
  | acted stamp obs =>
      refine iff_of_true ?_ fun _ _ _ _ _ h => by cases h
      have hcall : (reconciler.advance s (.acted stamp obs)).2 = none := by
        rw [AgentStateReconciler.advance]
        split
        · exact acted_call
        · rfl
      rw [ActsOnStored, hcall]
      trivial
  | orphansReconciled =>
      refine iff_of_true ?_ fun _ _ _ _ _ h => by cases h
      have hcall : (reconciler.advance s .orphansReconciled).2 = none := by
        rw [AgentStateReconciler.advance]
        split <;> rfl
      rw [ActsOnStored, hcall]
      trivial
  | mutate | rejected =>
      exact iff_of_true trivial fun _ _ _ _ _ h => by cases h

/-! ## The rows ahead

A row that was listed is the stored one until a mutation gets to it. Looking
it up again by its id needs the ids of the table to be stored texts, which
every operation keeps. -/

/-- Every id of the table is a text as a column holds it. -/
def BoundIds (t : AgentStateStore) : Prop := ∀ r ∈ t.agents.rows, boundText r.id = r.id

theorem BoundIds.getAgent {t : AgentStateStore} (h : BoundIds t) {r : AgentRow}
    (hr : r ∈ t.agents.rows) : t.getAgent r.id = some r :=
  Table.get_eq_some_iff.mpr ⟨hr, (h r hr).symm⟩

theorem BoundIds.congr {t t' : AgentStateStore} (h : BoundIds t) (hagents : t'.agents = t.agents) :
    BoundIds t' := by
  rw [BoundIds, hagents]
  exact h

theorem BoundIds.updateRow {t : AgentStateStore} (h : BoundIds t) {agentId : Text}
    {f : AgentRow → AgentRow} {hf : ∀ r, (f r).id = r.id} : BoundIds (t.updateRow agentId f hf) := by
  intro r' hr'
  obtain ⟨r, hr, rfl⟩ := List.mem_map.mp hr'
  split_ifs
  · rw [hf]
    exact h r hr
  · exact h r hr

theorem BoundIds.written {t t' : AgentStateStore} (h : BoundIds t) {id agentId type actor : Text}
    {f : AgentRow → AgentRow} {hf : ∀ r, (f r).id = r.id} {stamp : Stamp} {version : ℕ}
    {reason : Option Text} {payload : Option Json}
    (hwrite : (t.updateRow id f hf).writeEvent stamp agentId type version actor reason payload =
      .ok t') : BoundIds t' :=
  h.updateRow.congr (agents_writeEvent hwrite)

theorem BoundIds.apply {t t' : AgentStateStore} (h : BoundIds t) {stamp : Stamp}
    {op : AgentStateOp} (happly : t.apply stamp op = .ok t') : BoundIds t' := by
  cases op with
  | createAgent uuid actor spec =>
      rw [AgentStateStore.apply, AgentStateStore.createAgent] at happly
      split at happly
      · cases happly
      · split at happly
        · cases happly
        · next agents hinsert =>
            refine BoundIds.congr (t := { t with agents := agents }) (fun r hr => ?_)
              (agents_writeEvent happly)
            rw [(Table.insert_eq_some hinsert).2, List.mem_append, List.mem_singleton] at hr
            rcases hr with hr | rfl
            · exact h r hr
            · exact boundText_boundText _
  | updateAgent actor agentId patch expectedVersion =>
      rw [AgentStateStore.apply, AgentStateStore.updateAgent] at happly
      split at happly
      · cases happly
      · split at happly
        · cases happly
        · exact h.written happly
  | setDesiredEnabled actor agentId enabled overrideKillSwitch =>
      rw [AgentStateStore.apply, AgentStateStore.setDesiredEnabled] at happly
      split at happly
      · cases happly
      · exact h.written happly
  | setLifecycleState actor agentId lifecycleState overrideKillSwitch =>
      rw [AgentStateStore.apply, AgentStateStore.setLifecycleState] at happly
      split at happly
      · cases happly
      · dsimp only at happly
        split_ifs at happly
        · cases happly
          exact h
        · exact h.written happly
        · exact h.written happly
  | setOperatorDisabled actor agentId disabled reason =>
      rw [AgentStateStore.apply, AgentStateStore.setOperatorDisabled] at happly
      split at happly
      · cases happly
      · exact h.written happly
  | deleteAgent actor agentId =>
      rw [AgentStateStore.apply, AgentStateStore.deleteAgent] at happly
      split at happly
      · cases happly
      · refine BoundIds.congr (t := { t with agents := _ }) (fun r hr => ?_)
          (agents_writeEvent happly)
        exact h r (List.mem_of_mem_filter hr)

theorem BoundIds.step {t : AgentStateStore} (h : BoundIds t) (call : Stamp × AgentStateOp) :
    BoundIds (agentStateStep t call) := by
  rw [agentStateStep]
  split
  · next t' happly => exact h.apply happly
  · exact h

/-- What every state of a spared pass satisfies: the rows ahead ask for what
the stored ones do. -/
structure Current (s : ReconcileState) : Prop where
  bound : BoundIds s.db.store
  ahead : ∀ row ∈ s.phase.ahead,
    s.db.store.isEffectivelyEnabled row.id = row.desiredRunning

theorem current_init : Current .init :=
  ⟨fun _ h => absurd h List.not_mem_nil, fun _ h => absurd h List.not_mem_nil⟩

theorem Current.onward {s' : ReconcileState} (rest : List AgentRow) (h : Current s)
    (hrest : ∀ row ∈ rest, row ∈ s.phase.ahead) (honward : Onward s s' rest) : Current s' where
  bound := h.bound.congr honward.agents
  ahead := by
    intro row hrow
    rw [isEffectivelyEnabled_congr honward.agents]
    rcases honward.ahead with hahead | hahead
    · exact h.ahead row (hrest row (hahead ▸ hrow))
    · rw [hahead] at hrow
      cases hrow

theorem BoundIds.listed {t : AgentStateStore} (h : BoundIds t) {row : AgentRow}
    (hrow : row ∈ t.listAgents) : t.isEffectivelyEnabled row.id = row.desiredRunning := by
  rw [AgentStateStore.listAgents, List.mem_insertionSort] at hrow
  rw [AgentStateStore.isEffectivelyEnabled, h.getAgent hrow]
  rfl

theorem Current.step (h : Current s) {op : ReconcileOp} (hspares : SparesAhead s op) :
    Current (reconciler.step s op) := by
  rw [AgentStateReconciler.step]
  cases op with
  | reconcileOnce =>
      rw [AgentStateReconciler.advance]
      split
      · refine ⟨?_, fun row hrow => ?_⟩
        · rw [db_next]
          exact h.bound
        · rw [ahead_next] at hrow
          rw [db_next]
          exact h.bound.listed hrow
      · exact h
  | mutate call =>
      refine ⟨h.bound.step call, fun row hrow => ?_⟩
      exact (hspares call rfl row hrow).trans (h.ahead row hrow)
  | observed stamp obs =>
      rw [AgentStateReconciler.advance]
      split
      · next row rest hphase =>
          exact h.onward _ (fun r hr => by rw [hphase]; exact List.mem_cons_of_mem _ hr)
            (observed_onward ..)
      · exact h
  | acted stamp obs =>
      rw [AgentStateReconciler.advance]
      split
      · next row rest decision hphase =>
          exact h.onward _ (fun r hr => by rw [hphase]; exact hr) acted_onward
      · exact h
  | orphansReconciled =>
      rw [AgentStateReconciler.advance]
      split
      · exact h.onward [] (fun _ hr => by cases hr) onward_settled
      · exact h
  | rejected => exact h.onward [] (fun _ hr => by cases hr) onward_settled

theorem Current.asListed (h : Current s) (op : ReconcileOp) : AsListed reconciler s op := by
  intro row rest stamp obs hphase _ _
  exact h.ahead row (by rw [hphase]; exact List.mem_cons_self)

/-- The calls of a run are right for the stored rows exactly when every agent
an action is taken on still stands as it was listed, and so in every run whose
mutations spare the agents ahead of a pass. -/
theorem reconcile_acts_on_stored (reconciler : AgentStateReconciler) (ops : List ReconcileOp) :
    (Along reconciler.step (ActsOnStored reconciler) .init ops ↔
        Along reconciler.step (AsListed reconciler) .init ops) ∧
      (Along reconciler.step SparesAhead .init ops →
        Along reconciler.step (ActsOnStored reconciler) .init ops) := by
  refine ⟨⟨fun h => h.mono fun s op => (acts_iff_asListed op).mp,
    fun h => h.mono fun s op => (acts_iff_asListed op).mpr⟩, fun hspares => ?_⟩
  have hstep (s : ReconcileState) (op : ReconcileOp) (h : Current s) (hop : SparesAhead s op) :
      ActsOnStored reconciler s op ∧ Current (reconciler.step s op) :=
    ⟨(acts_iff_asListed op).mpr (h.asListed op), h.step hop⟩
  exact along_of_step hstep current_init hspares

/-! ## The agent the loop starts

An agent that is wanted, the loop waiting for its observation, and the
operator's stop. The observation comes back, and the agent is started. -/

def enforcer : AgentStateReconciler where
  mode := .enforce
  actor := js "agent-state-reconciler"
  driftAlertCycles := 3
  hasStart := true
  hasStop := true

def stopWhileObserved : List ReconcileOp :=
  [.mutate (⟨[], js "e1"⟩,
      .createAgent [] (js "user") { clerkSpec with operatorDisabled := false }),
    .reconcileOnce,
    .mutate (⟨[], js "e2"⟩, .setOperatorDisabled (js "operator") (js "a1") true none),
    .observed ⟨[], js "e3"⟩
      { observedState := js "stopped", runtimeKind := .childProcess, containerOrPod := none
        pid := none, lastError := none }]

theorem reconcile_starts_stopped :
    ¬ Along enforcer.step (ActsOnStored enforcer) .init stopWhileObserved := by
  rintro ⟨-, -, -, hstart, -⟩
  exact absurd hstart (show ¬ (false = true) by decide)

end Shizuha.Daemon
