import Shizuha.State.Tables

/-!
# The desired state of the agents

One row for each agent: its configuration, whether the user wants it running
(`desiredEnabled`), and the operator's kill-switch (`operatorDisabled`), which
is a separate column so that enabling does not undo it. Every mutation is one
transaction that writes the row, bumps its version and appends an audit
event; one that throws leaves the database as it was.

What a call reads off the machine, the time and a fresh uuid for its event,
comes with the call as a `Stamp`.
-/

namespace Shizuha.Daemon

open Js State

inductive AgentLifecycleState where
  | enabled
  | hibernated
  | operatorStopped
  deriving DecidableEq

def AgentLifecycleState.text : AgentLifecycleState → Text
  | .enabled => js "enabled"
  | .hibernated => js "hibernated"
  | .operatorStopped => js "operator_stopped"

structure AgentRow where
  id : Text
  username : Text
  email : Option Text
  name : Text
  role : Option Text
  team : Option Text
  runtimeEnvironment : Text
  executionMethod : Option Text
  model : Option Text
  modelFallbacksJson : Option Text
  modelOverridesJson : Option Text
  skillsJson : Text
  envJson : Option Text
  resourceLimitsJson : Option Text
  desiredEnabled : Bool
  operatorDisabled : Bool
  desiredStatus : Text
  version : ℕ
  updatedAt : Text
  createdAt : Text

structure AgentStateEventRow where
  eventId : Text
  agentId : Text
  eventType : Text
  desiredVersion : ℕ
  actor : Text
  reason : Option Text
  payloadJson : Option Text
  createdAt : Text

structure AgentStateStore where
  agents : Table Text AgentRow AgentRow.id
  events : Table Text AgentStateEventRow AgentStateEventRow.eventId

structure Stamp where
  now : Text
  eventId : Text

inductive AgentStateError where
  | unknownAgent (agentId : Text)
  | staleVersion (agentId : Text) (expected actual : ℕ)
  | killSwitch
  | idTaken
  | usernameTaken
  | eventIdTaken
  deriving DecidableEq

def AgentStateError.message : AgentStateError → Text
  | .unknownAgent agentId => js "unknown agent: " ++ agentId
  | .staleVersion agentId expected actual =>
      js "stale version for agent " ++ agentId ++ js ": expected " ++ decimal expected ++
        js ", found " ++ decimal actual
  | .killSwitch => js "agent is operator-disabled (kill-switch active); not started"
  | .idTaken => js "UNIQUE constraint failed: agent.id"
  | .usernameTaken => js "UNIQUE constraint failed: agent.username"
  | .eventIdTaken => js "UNIQUE constraint failed: agent_state_event.event_id"

/-! ## Reads -/

def AgentStateStore.getAgent (s : AgentStateStore) (agentId : Text) : Option AgentRow :=
  s.agents.get (boundText agentId)

/-- Wanted by the user and not stopped by the operator. -/
def AgentStateStore.isEffectivelyEnabled (s : AgentStateStore) (agentId : Text) : Bool :=
  match s.getAgent agentId with
  | none => false
  | some r => r.desiredEnabled && !r.operatorDisabled

/-! ## Mutations -/

def AgentStateStore.writeEvent (s : AgentStateStore) (stamp : Stamp) (agentId type : Text)
    (version : ℕ) (actor : Text) (reason : Option Text) (payload : Option Json) :
    Except AgentStateError AgentStateStore :=
  match s.events.insert
      { eventId := boundText stamp.eventId
        agentId := boundText agentId
        eventType := type
        desiredVersion := version
        actor := boundText actor
        reason := reason.map boundText
        payloadJson := payload.map fun p => boundText p.print
        createdAt := stamp.now } with
  | none => .error .eventIdTaken
  | some events => .ok { s with events := events }

/-- `CreateAgentSpec`. A JSON value of null is a column of NULL. -/
structure CreateAgentSpec where
  id : Option Text
  username : Text
  email : Option Text
  name : Text
  role : Option Text
  team : Option Text
  runtimeEnvironment : Option Text
  executionMethod : Option Text
  model : Option Text
  modelFallbacks : Option Json
  modelOverrides : Option Json
  skills : List Text
  env : Option Json
  resourceLimits : Option Json
  desiredEnabled : Bool
  operatorDisabled : Bool

def jsonColumn : Option Json → Option Text
  | none => none
  | some .null => none
  | some v => some (boundText v.print)

def skillsColumn (skills : List Text) : Text :=
  boundText (Json.arr (skills.map Json.str)).print

/-- `uuid` is the id of an agent whose spec has none. -/
def AgentStateStore.createAgent (s : AgentStateStore) (stamp : Stamp) (uuid actor : Text)
    (spec : CreateAgentSpec) : Except AgentStateError AgentStateStore :=
  let id := spec.id.getD uuid
  if s.agents.rows.any fun r => r.username = boundText spec.username then .error .usernameTaken
  else
    match s.agents.insert
        { id := boundText id
          username := boundText spec.username
          email := spec.email.map boundText
          name := boundText spec.name
          role := spec.role.map boundText
          team := spec.team.map boundText
          runtimeEnvironment := boundText (spec.runtimeEnvironment.getD (js "container"))
          executionMethod := spec.executionMethod.map boundText
          model := spec.model.map boundText
          modelFallbacksJson := jsonColumn spec.modelFallbacks
          modelOverridesJson := jsonColumn spec.modelOverrides
          skillsJson := skillsColumn spec.skills
          envJson := jsonColumn spec.env
          resourceLimitsJson := jsonColumn spec.resourceLimits
          desiredEnabled := spec.desiredEnabled
          operatorDisabled := spec.operatorDisabled
          desiredStatus := js "stopped"
          version := 1
          updatedAt := stamp.now
          createdAt := stamp.now } with
    | none => .error .idTaken
    | some agents =>
        { s with agents := agents }.writeEvent stamp id (js "created") 1 actor none
          (some (.obj [(js "username", .str spec.username)]))

/-- `Partial<CreateAgentSpec>`, the columns `updateAgent` looks at: a property
left out is `none`, one set to null is `some none`. -/
structure AgentPatch where
  name : Option Text
  email : Option (Option Text)
  role : Option (Option Text)
  team : Option (Option Text)
  runtimeEnvironment : Option Text
  executionMethod : Option (Option Text)
  model : Option (Option Text)
  modelFallbacks : Option (Option Json)
  modelOverrides : Option (Option Json)
  skills : Option (List Text)
  env : Option (Option Json)
  resourceLimits : Option (Option Json)

/-- The columns a patch sets, in the order they are looked at. -/
def AgentPatch.columns (p : AgentPatch) : List Text :=
  let column {α : Type} (name : String) : Option α → List Text
    | none => []
    | some _ => [js name]
  column "name" p.name ++ column "email" p.email ++ column "role" p.role ++
    column "team" p.team ++ column "runtime_environment" p.runtimeEnvironment ++
    column "execution_method" p.executionMethod ++ column "model" p.model ++
    column "model_fallbacks_json" p.modelFallbacks ++
    column "model_overrides_json" p.modelOverrides ++ column "skills_json" p.skills ++
    column "env_json" p.env ++ column "resource_limits_json" p.resourceLimits

def AgentPatch.set (p : AgentPatch) (r : AgentRow) : AgentRow :=
  { r with
    name := (p.name.map boundText).getD r.name
    email := (p.email.map (·.map boundText)).getD r.email
    role := (p.role.map (·.map boundText)).getD r.role
    team := (p.team.map (·.map boundText)).getD r.team
    runtimeEnvironment := (p.runtimeEnvironment.map boundText).getD r.runtimeEnvironment
    executionMethod := (p.executionMethod.map (·.map boundText)).getD r.executionMethod
    model := (p.model.map (·.map boundText)).getD r.model
    modelFallbacksJson := (p.modelFallbacks.map jsonColumn).getD r.modelFallbacksJson
    modelOverridesJson := (p.modelOverrides.map jsonColumn).getD r.modelOverridesJson
    skillsJson := (p.skills.map skillsColumn).getD r.skillsJson
    envJson := (p.env.map jsonColumn).getD r.envJson
    resourceLimitsJson := (p.resourceLimits.map jsonColumn).getD r.resourceLimitsJson }

/-- `UPDATE agent SET … WHERE id = ?` of columns other than the id. -/
def AgentStateStore.updateRow (s : AgentStateStore) (agentId : Text) (f : AgentRow → AgentRow)
    (hf : ∀ r, (f r).id = r.id) : AgentStateStore :=
  { s with agents := s.agents.update (fun r => r.id = boundText agentId) f hf }

def AgentStateStore.updateAgent (s : AgentStateStore) (stamp : Stamp) (actor agentId : Text)
    (patch : AgentPatch) (expectedVersion : Option ℕ) : Except AgentStateError AgentStateStore :=
  match s.getAgent agentId with
  | none => .error (.unknownAgent agentId)
  | some row =>
      if expectedVersion.isSome ∧ expectedVersion ≠ some row.version then
        .error (.staleVersion agentId (expectedVersion.getD 0) row.version)
      else
        (s.updateRow agentId (fun r =>
            { patch.set r with version := row.version + 1, updatedAt := stamp.now })
          (fun _ => rfl)).writeEvent stamp agentId (js "updated") (row.version + 1) actor none
          (some (.obj [(js "fields", .arr (patch.columns.map Json.str))]))

def AgentStateStore.setDesiredEnabled (s : AgentStateStore) (stamp : Stamp)
    (actor agentId : Text) (enabled overrideKillSwitch : Bool) :
    Except AgentStateError AgentStateStore :=
  match s.getAgent agentId with
  | none => .error (.unknownAgent agentId)
  | some row =>
      let clearOperator := enabled && overrideKillSwitch && row.operatorDisabled
      (s.updateRow agentId (fun r =>
          { r with
            desiredEnabled := enabled
            operatorDisabled := if clearOperator then false else row.operatorDisabled
            version := row.version + 1
            updatedAt := stamp.now })
        (fun _ => rfl)).writeEvent stamp agentId (js (if enabled then "enabled" else "disabled"))
        (row.version + 1) actor (if clearOperator then some (js "override-kill-switch") else none)
        none

def AgentStateStore.setLifecycleState (s : AgentStateStore) (stamp : Stamp)
    (actor agentId : Text) (lifecycleState : AgentLifecycleState) (overrideKillSwitch : Bool) :
    Except AgentStateError AgentStateStore :=
  match s.getAgent agentId with
  | none => .error (.unknownAgent agentId)
  | some row =>
      if lifecycleState = .enabled ∧ row.operatorDisabled ∧ !overrideKillSwitch then
        .error .killSwitch
      else
        let desiredEnabled := decide (lifecycleState = .enabled)
        let operatorDisabled := decide (lifecycleState = .operatorStopped)
        if row.desiredEnabled = desiredEnabled ∧ row.operatorDisabled = operatorDisabled ∧
            row.desiredStatus = lifecycleState.text then .ok s
        else
          (s.updateRow agentId (fun r =>
              { r with
                desiredEnabled := desiredEnabled
                operatorDisabled := operatorDisabled
                desiredStatus := lifecycleState.text
                version := row.version + 1
                updatedAt := stamp.now })
            (fun _ => rfl)).writeEvent stamp agentId
            (js (if lifecycleState = .enabled then "enabled" else "disabled"))
            (row.version + 1) actor (some lifecycleState.text) none

def AgentStateStore.setOperatorDisabled (s : AgentStateStore) (stamp : Stamp)
    (actor agentId : Text) (disabled : Bool) (reason : Option Text) :
    Except AgentStateError AgentStateStore :=
  match s.getAgent agentId with
  | none => .error (.unknownAgent agentId)
  | some row =>
      (s.updateRow agentId (fun r =>
          { r with
            operatorDisabled := disabled
            version := row.version + 1
            updatedAt := stamp.now })
        (fun _ => rfl)).writeEvent stamp agentId (js (if disabled then "disabled" else "enabled"))
        (row.version + 1) actor (some (reason.getD (js "operator-kill-switch"))) none

def AgentStateStore.deleteAgent (s : AgentStateStore) (stamp : Stamp) (actor agentId : Text) :
    Except AgentStateError AgentStateStore :=
  match s.getAgent agentId with
  | none => .error (.unknownAgent agentId)
  | some row =>
      { s with agents := s.agents.delete fun r => r.id = boundText agentId }.writeEvent stamp
        agentId (js "deleted") row.version actor none
        (some (.obj [(js "username", .str row.username)]))

/-! ## Runs -/

inductive AgentStateOp where
  | createAgent (uuid actor : Text) (spec : CreateAgentSpec)
  | updateAgent (actor agentId : Text) (patch : AgentPatch) (expectedVersion : Option ℕ)
  | setDesiredEnabled (actor agentId : Text) (enabled overrideKillSwitch : Bool)
  | setLifecycleState (actor agentId : Text) (lifecycleState : AgentLifecycleState)
      (overrideKillSwitch : Bool)
  | setOperatorDisabled (actor agentId : Text) (disabled : Bool) (reason : Option Text)
  | deleteAgent (actor agentId : Text)

def AgentStateStore.apply (s : AgentStateStore) (stamp : Stamp) :
    AgentStateOp → Except AgentStateError AgentStateStore
  | .createAgent uuid actor spec => s.createAgent stamp uuid actor spec
  | .updateAgent actor agentId patch expectedVersion =>
      s.updateAgent stamp actor agentId patch expectedVersion
  | .setDesiredEnabled actor agentId enabled overrideKillSwitch =>
      s.setDesiredEnabled stamp actor agentId enabled overrideKillSwitch
  | .setLifecycleState actor agentId lifecycleState overrideKillSwitch =>
      s.setLifecycleState stamp actor agentId lifecycleState overrideKillSwitch
  | .setOperatorDisabled actor agentId disabled reason =>
      s.setOperatorDisabled stamp actor agentId disabled reason
  | .deleteAgent actor agentId => s.deleteAgent stamp actor agentId

/-- One call; a transaction that throws is rolled back. -/
def agentStateStep (s : AgentStateStore) (call : Stamp × AgentStateOp) : AgentStateStore :=
  match s.apply call.1 call.2 with
  | .ok s' => s'
  | .error _ => s

end Shizuha.Daemon
