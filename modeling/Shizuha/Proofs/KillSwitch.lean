import Shizuha.Daemon.AgentStateStore
import Shizuha.Machine

/-!
# What clears the kill-switch

`switchAfter` says once what each operation does to the operator's flag of an
agent, and everything here follows from it. Clearing it on purpose,
overriding it and deleting the agent are the ways out that are meant. The one
that is not is hibernation: `setLifecycleState` computes the flag from the new
state alone, so hibernating a stopped agent leaves it unstopped, and the next
plain enable starts it. Without that step the switch stays.
-/

namespace Shizuha.Daemon

open Js State Machine

/-- The two texts name the same row. -/
def SameAgent (a b : Text) : Prop := boundText a = boundText b

instance (a b : Text) : Decidable (SameAgent a b) := inferInstanceAs (Decidable (_ = _))

/-- The operator's flag of an agent after an operation that goes through. -/
def AgentStateOp.switchAfter (agentId : Text) (was : Bool) : AgentStateOp → Bool
  | .setDesiredEnabled _ id enabled overrideKillSwitch =>
      if SameAgent id agentId then was && !(enabled && overrideKillSwitch) else was
  | .setLifecycleState _ id lifecycleState _ =>
      if SameAgent id agentId then decide (lifecycleState = .operatorStopped) else was
  | .setOperatorDisabled _ id disabled _ => if SameAgent id agentId then disabled else was
  | _ => was

/-- The operations that may take the switch off, and the deletion of the
agent. -/
def AgentStateOp.Releases (agentId : Text) : AgentStateOp → Prop
  | .setDesiredEnabled _ id _ overrideKillSwitch => SameAgent id agentId ∧ overrideKillSwitch = true
  | .setLifecycleState _ id _ overrideKillSwitch => SameAgent id agentId ∧ overrideKillSwitch = true
  | .setOperatorDisabled _ id disabled _ => SameAgent id agentId ∧ disabled = false
  | .deleteAgent _ id => SameAgent id agentId
  | _ => False

def AgentStateOp.Hibernates (agentId : Text) : AgentStateOp → Prop
  | .setLifecycleState _ id lifecycleState _ => SameAgent id agentId ∧ lifecycleState = .hibernated
  | _ => False

def KillSwitchOn (agentId : Text) (s : AgentStateStore) : Prop :=
  ∃ r, s.getAgent agentId = some r ∧ r.operatorDisabled = true

theorem KillSwitchOn.not_enabled {agentId : Text} {s : AgentStateStore}
    (h : KillSwitchOn agentId s) : s.isEffectivelyEnabled agentId = false := by
  obtain ⟨r, hr, hswitch⟩ := h
  rw [AgentStateStore.isEffectivelyEnabled, hr]
  simp [hswitch]

/-! ## What one operation does to the flag -/

variable {s s' : AgentStateStore} {stamp : Stamp} {actor id agentId : Text} {r : AgentRow}

theorem agents_writeEvent {type : Text} {version : ℕ} {reason : Option Text} {payload : Option Json}
    (h : s.writeEvent stamp id type version actor reason payload = .ok s') :
    s'.agents = s.agents := by
  rw [AgentStateStore.writeEvent] at h
  split at h
  · cases h
  · cases h
    rfl

theorem getAgent_writeEvent {type : Text} {version : ℕ} {reason : Option Text}
    {payload : Option Json}
    (h : s.writeEvent stamp id type version actor reason payload = .ok s') :
    s'.getAgent agentId = s.getAgent agentId := by
  rw [AgentStateStore.getAgent, agents_writeEvent h]
  rfl

theorem getAgent_updateRow {f : AgentRow → AgentRow} {hf : ∀ r, (f r).id = r.id} :
    (s.updateRow id f hf).getAgent agentId =
      if SameAgent id agentId then (s.getAgent agentId).map f else s.getAgent agentId := by
  rw [AgentStateStore.getAgent, AgentStateStore.updateRow, Table.get_update]
  show ((s.getAgent agentId).map fun r => if decide (r.id = boundText id) then f r else r) = _
  cases hr : s.getAgent agentId with
  | none => simp
  | some r =>
      have hid : r.id = boundText agentId := (Table.get_eq_some_iff.mp hr).2
      by_cases hsame : SameAgent id agentId
      · have hid' : r.id = boundText id := hid.trans hsame.symm
        simp [hsame, hid']
      · have hid' : r.id ≠ boundText id := fun h => hsame (h.symm.trans hid)
        simp [hsame, hid']

/-- An update followed by its event: the row it is about is the updated one. -/
theorem getAgent_written {f : AgentRow → AgentRow} {hf : ∀ r, (f r).id = r.id} {type : Text}
    {version : ℕ} {reason : Option Text} {payload : Option Json}
    (h : (s.updateRow id f hf).writeEvent stamp id type version actor reason payload = .ok s')
    (hr : s.getAgent agentId = some r) :
    s'.getAgent agentId = some (if SameAgent id agentId then f r else r) := by
  rw [getAgent_writeEvent h, getAgent_updateRow, hr]
  by_cases hsame : SameAgent id agentId
  · simp [hsame]
  · simp [hsame]

theorem getAgent_same (hsame : SameAgent id agentId) : s.getAgent id = s.getAgent agentId := by
  rw [AgentStateStore.getAgent, hsame]
  rfl

theorem switchAfter_createAgent {uuid : Text} {spec : CreateAgentSpec}
    (h : s.createAgent stamp uuid actor spec = .ok s') (hr : s.getAgent agentId = some r) :
    s'.getAgent agentId = some r := by
  rw [AgentStateStore.createAgent] at h
  split at h
  · cases h
  · split at h
    · cases h
    · next agents hinsert =>
        rw [getAgent_writeEvent h]
        show agents.get (boundText agentId) = some r
        rw [Table.get_insert hinsert]
        split_ifs with hid
        · -- the id is taken, so the insertion would have been refused
          have hnone := (Table.insert_eq_some hinsert).1
          rw [← hid] at hnone
          exact absurd (hnone.symm.trans hr) (by simp)
        · exact hr

theorem switchAfter_updateAgent {patch : AgentPatch} {expectedVersion : Option ℕ}
    (h : s.updateAgent stamp actor id patch expectedVersion = .ok s')
    (hr : s.getAgent agentId = some r) :
    ∃ r', s'.getAgent agentId = some r' ∧ r'.operatorDisabled = r.operatorDisabled := by
  rw [AgentStateStore.updateAgent] at h
  split at h
  · cases h
  · split at h
    · cases h
    · refine ⟨_, getAgent_written h hr, ?_⟩
      split_ifs <;> rfl

theorem switchAfter_setDesiredEnabled {enabled overrideKillSwitch : Bool}
    (h : s.setDesiredEnabled stamp actor id enabled overrideKillSwitch = .ok s')
    (hr : s.getAgent agentId = some r) :
    ∃ r', s'.getAgent agentId = some r' ∧ r'.operatorDisabled =
      (AgentStateOp.setDesiredEnabled actor id enabled overrideKillSwitch).switchAfter agentId
        r.operatorDisabled := by
  rw [AgentStateStore.setDesiredEnabled] at h
  split at h
  · cases h
  · next row hrow =>
      refine ⟨_, getAgent_written h hr, ?_⟩
      rw [AgentStateOp.switchAfter]
      by_cases hsame : SameAgent id agentId
      · have hrr : row = r := Option.some.inj (hrow.symm.trans ((getAgent_same hsame).trans hr))
        rw [if_pos hsame, if_pos hsame, hrr]
        cases enabled <;> cases overrideKillSwitch <;> cases r.operatorDisabled <;> rfl
      · rw [if_neg hsame, if_neg hsame]

theorem switchAfter_setLifecycleState {lifecycleState : AgentLifecycleState}
    {overrideKillSwitch : Bool}
    (h : s.setLifecycleState stamp actor id lifecycleState overrideKillSwitch = .ok s')
    (hr : s.getAgent agentId = some r) :
    ∃ r', s'.getAgent agentId = some r' ∧ r'.operatorDisabled =
      (AgentStateOp.setLifecycleState actor id lifecycleState overrideKillSwitch).switchAfter
        agentId r.operatorDisabled := by
  rw [AgentStateStore.setLifecycleState] at h
  split at h
  · cases h
  · next row hrow =>
      by_cases hrefused : lifecycleState = .enabled ∧ row.operatorDisabled ∧ !overrideKillSwitch
      · rw [if_pos hrefused] at h
        cases h
      · rw [if_neg hrefused] at h
        by_cases hunchanged : row.desiredEnabled = decide (lifecycleState = .enabled) ∧
            row.operatorDisabled = decide (lifecycleState = .operatorStopped) ∧
              row.desiredStatus = lifecycleState.text
        · rw [if_pos hunchanged] at h
          cases h
          refine ⟨r, hr, ?_⟩
          rw [AgentStateOp.switchAfter]
          by_cases hsame : SameAgent id agentId
          · have hrr : row = r :=
              Option.some.inj (hrow.symm.trans ((getAgent_same hsame).trans hr))
            rw [if_pos hsame, ← hrr]
            exact hunchanged.2.1
          · rw [if_neg hsame]
        · rw [if_neg hunchanged] at h
          refine ⟨_, getAgent_written h hr, ?_⟩
          rw [AgentStateOp.switchAfter]
          split_ifs <;> rfl

theorem switchAfter_setOperatorDisabled {disabled : Bool} {reason : Option Text}
    (h : s.setOperatorDisabled stamp actor id disabled reason = .ok s')
    (hr : s.getAgent agentId = some r) :
    ∃ r', s'.getAgent agentId = some r' ∧ r'.operatorDisabled =
      (AgentStateOp.setOperatorDisabled actor id disabled reason).switchAfter agentId
        r.operatorDisabled := by
  rw [AgentStateStore.setOperatorDisabled] at h
  split at h
  · cases h
  · refine ⟨_, getAgent_written h hr, ?_⟩
    rw [AgentStateOp.switchAfter]
    split_ifs <;> rfl

theorem switchAfter_deleteAgent (h : s.deleteAgent stamp actor id = .ok s')
    (hr : s.getAgent agentId = some r) (hother : ¬ SameAgent id agentId) :
    s'.getAgent agentId = some r := by
  rw [AgentStateStore.deleteAgent] at h
  split at h
  · cases h
  · rw [getAgent_writeEvent h]
    refine Table.get_eq_some_iff.mpr ?_
    obtain ⟨hmem, hid⟩ := Table.get_eq_some_iff.mp hr
    refine ⟨List.mem_filter.mpr ⟨hmem, ?_⟩, hid⟩
    have hne : r.id ≠ boundText id := fun h => hother (h.symm.trans hid)
    simp [hne]

/-- Every operation but the deletion of the agent leaves it a row, with the
flag `switchAfter` says. -/
theorem apply_switchAfter {op : AgentStateOp} (h : s.apply stamp op = .ok s')
    (hr : s.getAgent agentId = some r) (hkept : ¬ op.Releases agentId) :
    ∃ r', s'.getAgent agentId = some r' ∧
      r'.operatorDisabled = op.switchAfter agentId r.operatorDisabled := by
  cases op with
  | createAgent uuid actor spec => exact ⟨r, switchAfter_createAgent h hr, rfl⟩
  | updateAgent actor id patch expectedVersion => exact switchAfter_updateAgent h hr
  | setDesiredEnabled actor id enabled overrideKillSwitch =>
      exact switchAfter_setDesiredEnabled h hr
  | setLifecycleState actor id lifecycleState overrideKillSwitch =>
      exact switchAfter_setLifecycleState h hr
  | setOperatorDisabled actor id disabled reason => exact switchAfter_setOperatorDisabled h hr
  | deleteAgent actor id => exact ⟨r, switchAfter_deleteAgent h hr hkept, rfl⟩

/-! ## Runs -/

/-- With the switch on, what releases it is hibernating, or what is meant to. -/
theorem switchAfter_on {op : AgentStateOp} (hkept : ¬ op.Releases agentId)
    (hhibernate : ¬ op.Hibernates agentId) {stamp : Stamp}
    (h : s.apply stamp op = .ok s') (hr : s.getAgent agentId = some r)
    (hon : r.operatorDisabled = true) : op.switchAfter agentId r.operatorDisabled = true := by
  cases op with
  | createAgent | updateAgent | deleteAgent => exact hon
  | setDesiredEnabled actor id enabled overrideKillSwitch =>
      rw [AgentStateOp.switchAfter]
      split_ifs with hsame
      · have hoff : overrideKillSwitch = false := by
          by_contra hover
          exact hkept ⟨hsame, by simpa using hover⟩
        simp [hon, hoff]
      · exact hon
  | setOperatorDisabled actor id disabled reason =>
      rw [AgentStateOp.switchAfter]
      split_ifs with hsame
      · by_contra hoff
        exact hkept ⟨hsame, by simpa using hoff⟩
      · exact hon
  | setLifecycleState actor id lifecycleState overrideKillSwitch =>
      rw [AgentStateOp.switchAfter]
      split_ifs with hsame
      · cases lifecycleState with
        | operatorStopped => rfl
        | hibernated => exact absurd ⟨hsame, rfl⟩ hhibernate
        | enabled =>
            -- refused: the switch is on and nothing overrides it
            have hoff : overrideKillSwitch = false := by
              by_contra hover
              exact hkept ⟨hsame, by simpa using hover⟩
            rw [AgentStateStore.apply, AgentStateStore.setLifecycleState,
              getAgent_same hsame, hr] at h
            simp [hon, hoff] at h
      · exact hon

theorem killSwitchOn_step {call : Stamp × AgentStateOp} (hon : KillSwitchOn agentId s)
    (hkept : ¬ call.2.Releases agentId) (hhibernate : ¬ call.2.Hibernates agentId) :
    KillSwitchOn agentId (agentStateStep s call) := by
  obtain ⟨r, hr, hswitch⟩ := hon
  rw [agentStateStep]
  cases happly : s.apply call.1 call.2 with
  | error e => exact ⟨r, hr, hswitch⟩
  | ok s' =>
      obtain ⟨r', hr', hafter⟩ := apply_switchAfter happly hr hkept
      exact ⟨r', hr', hafter.trans (switchAfter_on hkept hhibernate happly hr hswitch)⟩

/-- The kill-switch is sticky in every run that neither releases it nor
hibernates the agent. -/
theorem killSwitch_sticky {calls : List (Stamp × AgentStateOp)}
    (hon : KillSwitchOn agentId s) (hkept : ∀ call ∈ calls, ¬ call.2.Releases agentId)
    (hhibernate : ∀ call ∈ calls, ¬ call.2.Hibernates agentId) :
    Throughout agentStateStep (fun s => s.isEffectivelyEnabled agentId = false) s calls := by
  have hcalls : Along agentStateStep
      (fun _ call => ¬ call.2.Releases agentId ∧ ¬ call.2.Hibernates agentId) s calls :=
    along_of_forall (fun call hcall => ⟨hkept call hcall, hhibernate call hcall⟩) s
  have hthroughout : Throughout agentStateStep (KillSwitchOn agentId) s calls :=
    throughout_of_step (fun _ _ h hC => killSwitchOn_step h hC.1 hC.2) hon hcalls
  exact hthroughout.mono fun _ h => h.not_enabled

/-! ## The agent that wakes up

One agent, stopped by the operator. A plain enable does not start it; after a
hibernation the same enable does. -/

/-- The operator's agent, as its spec creates it. -/
def clerkSpec : CreateAgentSpec :=
  { id := some (js "a1"), username := js "clerk", email := none, name := js "Clerk", role := none
    team := none, runtimeEnvironment := none, executionMethod := none, model := none
    modelFallbacks := none, modelOverrides := none, skills := [], env := none
    resourceLimits := none, desiredEnabled := true, operatorDisabled := true }

def clerkStore : AgentStateStore :=
  agentStateStep ⟨.empty, .empty⟩ (⟨[], js "e1"⟩, .createAgent [] (js "op") clerkSpec)

def enableClerk : Stamp × AgentStateOp :=
  (⟨[], js "e3"⟩, .setDesiredEnabled (js "user") (js "a1") true false)

def hibernateClerk : Stamp × AgentStateOp :=
  (⟨[], js "e2"⟩, .setLifecycleState (js "idle-reaper") (js "a1") .hibernated false)

theorem killSwitchOn_clerk : KillSwitchOn (js "a1") clerkStore := ⟨_, rfl, rfl⟩

theorem killSwitch_sticky_clerk :
    Throughout agentStateStep (fun s => s.isEffectivelyEnabled (js "a1") = false) clerkStore
      [enableClerk] :=
  killSwitch_sticky killSwitchOn_clerk
    (fun call hcall => by
      rw [List.mem_singleton.mp hcall]
      rintro ⟨-, hover⟩
      cases hover)
    (fun call hcall => by
      rw [List.mem_singleton.mp hcall]
      exact id)

/-- Hibernating takes the switch off, though no step of the run releases it. -/
theorem killSwitch_hibernation_wakes :
    KillSwitchOn (js "a1") clerkStore ∧
      (∀ call ∈ [hibernateClerk, enableClerk], ¬ call.2.Releases (js "a1")) ∧
      (run agentStateStep clerkStore [hibernateClerk, enableClerk]).isEffectivelyEnabled
        (js "a1") = true := by
  refine ⟨killSwitchOn_clerk, fun call hcall => ?_, rfl⟩
  rcases List.mem_cons.mp hcall with rfl | hcall
  · rintro ⟨-, hover⟩
    cases hover
  · rw [List.mem_singleton.mp hcall]
    rintro ⟨-, hover⟩
    cases hover

end Shizuha.Daemon
