import Shizuha.Daemon.AgentStateReconciler

/-!
# Exporting the agents to agents.json

The file keeps what the database does not have of an agent, its credentials,
its keypair and its status; the database has the rest. `exportMergedAgentsJson`
goes through the agents of the file, looks for the row of each by its id and
then by its username, and writes the columns of that row over it. Rows that no
agent of the file was given come behind them.
-/

namespace Shizuha.Daemon

open Js State

/-- An agent of agents.json. -/
structure AgentRecord where
  id : Text
  username : Option Text
  email : Option Text
  name : Option Text
  role : Option Text
  team : Option Text
  runtimeEnvironment : Option Text
  executionMethod : Option Text
  model : Option Text
  modelFallbacks : Option Json
  modelOverrides : Option Json
  skills : Option (List Text)
  env : Option Json
  resourceLimits : Option Json
  status : Option Text
  credentials : Option Json
  keypair : Option Json
  mcpServers : Option Json
  personalityTraits : Option Json
  /-- The other properties. -/
  rest : List (Text × Json)

/-- What the import and the export read of a row. -/
structure AgentJsonExport where
  id : Text
  username : Text
  email : Text
  name : Text
  role : Option Text
  team : Option Text
  runtimeEnvironment : Text
  executionMethod : Option Text
  model : Option Text
  modelFallbacks : Option Json
  modelOverrides : Option Json
  skills : List Text
  env : Option Json
  resourceLimits : Option Json
  desiredEnabled : Bool
  operatorDisabled : Bool

/-- `column ? JSON.parse(column) : undefined`, `none` where the parse throws. -/
def parsedColumn : Option Text → Option (Option Json)
  | none | some [] => some none
  | some column => (Json.parse column).map some

def textOf : Json → Option Text
  | .str s => some s
  | _ => none

/-- The column of the skills, which is a list of texts. -/
def parsedSkills (column : Text) : Option (List Text) :=
  if column = [] then some []
  else
    match Json.parse column with
    | some (.arr items) => items.mapM textOf
    | _ => none

def AgentRow.toJson (r : AgentRow) : Option AgentJsonExport := do
  let modelFallbacks ← parsedColumn r.modelFallbacksJson
  let modelOverrides ← parsedColumn r.modelOverridesJson
  let skills ← parsedSkills r.skillsJson
  let env ← parsedColumn r.envJson
  let resourceLimits ← parsedColumn r.resourceLimitsJson
  some
    { id := r.id
      username := r.username
      email := r.email.getD []
      name := r.name
      role := r.role
      team := r.team
      runtimeEnvironment := r.runtimeEnvironment
      executionMethod := r.executionMethod
      model := r.model
      modelFallbacks := modelFallbacks
      modelOverrides := modelOverrides
      skills := skills
      env := env
      resourceLimits := resourceLimits
      desiredEnabled := r.desiredEnabled
      operatorDisabled := r.operatorDisabled }

def AgentStateStore.exportToJson (s : AgentStateStore) : Option (List AgentJsonExport) :=
  s.listAgents.mapM AgentRow.toJson

/-- The columns of a row over an agent of the file. -/
def mergeRow (base : AgentRecord) (row : AgentJsonExport) : AgentRecord :=
  { base with
    id := row.id
    username := some row.username
    email := some row.email
    name := some row.name
    role := row.role
    team := row.team
    runtimeEnvironment := some row.runtimeEnvironment
    executionMethod := row.executionMethod
    model := row.model
    modelFallbacks := row.modelFallbacks
    modelOverrides := row.modelOverrides
    skills := some row.skills
    env := row.env
    resourceLimits := row.resourceLimits }

/-- `rowById.get(id)`: of rows under one key a map keeps the last. -/
def rowById (rows : List AgentJsonExport) (id : Text) : Option AgentJsonExport :=
  rows.reverse.find? fun row => row.id = id

def rowByUsername (rows : List AgentJsonExport) (username : Option Text) : Option AgentJsonExport :=
  username.bind fun username => rows.reverse.find? fun row => row.username = username

/-- The row of an agent of the file. -/
def rowOf (rows : List AgentJsonExport) (agent : AgentRecord) : Option AgentJsonExport :=
  rowById rows agent.id <|> rowByUsername rows agent.username

def mergeAgent (rows : List AgentJsonExport) (agent : AgentRecord) : AgentRecord :=
  match rowOf rows agent with
  | none => agent
  | some row => mergeRow agent row

/-- An agent that the file does not have. -/
def dbOnlyAgent (row : AgentJsonExport) : AgentRecord :=
  mergeRow
    { id := row.id
      username := some row.username
      email := some row.email
      name := some row.name
      role := row.role
      team := none
      runtimeEnvironment := none
      executionMethod := none
      model := none
      modelFallbacks := none
      modelOverrides := none
      skills := some []
      env := none
      resourceLimits := none
      status := some (js "disabled")
      credentials := none
      keypair := none
      mcpServers := some (.arr [])
      personalityTraits := some (.obj [])
      rest := [] } row

def mergeAgents (rows : List AgentJsonExport) (existingAgents : List AgentRecord) :
    List AgentRecord :=
  let usedRowIds := existingAgents.filterMap fun agent => (rowOf rows agent).map AgentJsonExport.id
  existingAgents.map (mergeAgent rows) ++
    (rows.filter fun row => !usedRowIds.contains row.id).map dbOnlyAgent

/-- `none` when a column is malformed. -/
def AgentStateStore.exportMergedAgentsJson (s : AgentStateStore)
    (existingAgents : List AgentRecord) : Option (List AgentRecord) :=
  s.exportToJson.map fun rows => mergeAgents rows existingAgents

end Shizuha.Daemon

/-!
# Importing the agents of the JSON files

`importFromJson` goes through the agents of a file in one transaction. An agent
whose id has a row keeps its configuration and takes only the two flags; one
whose username has a row under another id takes that row over, with its
observation and its audit events; any other is created.
-/

namespace Shizuha.Daemon

open Js State

/-- `AgentInfo`, what the import reads of it. -/
structure AgentInfo where
  id : Text
  username : Text
  email : Option Text
  name : Text
  role : Option Text
  team : Option Text
  runtimeEnvironment : Option Text
  executionMethod : Option Text
  model : Option Text
  modelFallbacks : Option Json
  modelOverrides : Option Json
  skills : List Text
  env : Option Json
  resourceLimits : Option Json

/-- An agent of the file, with the stamps of the two events it may take. -/
structure Imported where
  info : AgentInfo
  stamp : Stamp
  nextStamp : Stamp

def AgentStateStore.getByUsername (s : AgentStateStore) (username : Text) : Option AgentRow :=
  s.agents.rows.find? fun r => r.username = boundText username

/-- The columns of a row that an agent of the file takes over. -/
def AgentInfo.set (a : AgentInfo) (stamp : Stamp) (desiredEnabled operatorDisabled : Bool)
    (version : ℕ) (r : AgentRow) : AgentRow :=
  { r with
    id := boundText a.id
    username := boundText a.username
    email := a.email.map boundText
    name := boundText a.name
    role := a.role.map boundText
    team := a.team.map boundText
    runtimeEnvironment := boundText (a.runtimeEnvironment.getD (js "container"))
    executionMethod := a.executionMethod.map boundText
    model := a.model.map boundText
    modelFallbacksJson := jsonColumn a.modelFallbacks
    modelOverridesJson := jsonColumn a.modelOverrides
    skillsJson := skillsColumn a.skills
    envJson := jsonColumn a.env
    resourceLimitsJson := jsonColumn a.resourceLimits
    desiredEnabled := desiredEnabled
    operatorDisabled := operatorDisabled
    version := version
    updatedAt := stamp.now }

/-- The observation of `previous` under the new id, which had no agent and so
has none of its own. -/
def moveObservation (observations : Table Text AgentObservationRow AgentObservationRow.agentId)
    (previous id : Text) : Table Text AgentObservationRow AgentObservationRow.agentId :=
  match observations.get (boundText previous) with
  | none => observations
  | some o =>
      (observations.delete fun o => o.agentId = boundText previous).insertOrIgnore
        { o with agentId := boundText id }

def AgentStateDb.rekeyUsernameMatchedImport (db : AgentStateDb) (stamp : Stamp) (actor : Text)
    (existing : AgentRow) (spec : AgentInfo) (desiredEnabled operatorDisabled : Bool) :
    Except AgentStateError AgentStateDb :=
  let nextVersion := existing.version + 1
  let moved := fun r : AgentRow => decide (r.id = boundText existing.id)
  if db.store.agents.rows.any fun r => !moved r && decide (r.username = boundText spec.username)
  then .error .usernameTaken
  else
    match db.store.agents.rekey moved
        (spec.set stamp desiredEnabled operatorDisabled nextVersion) with
    | none => .error .idTaken
    | some agents =>
        let events := db.store.events.update (fun e => e.agentId = boundText existing.id)
          (fun e => { e with agentId := boundText spec.id }) (fun _ => rfl)
        match (⟨agents, events⟩ : AgentStateStore).writeEvent stamp spec.id (js "updated")
            nextVersion actor (some (js "username-id-drift-import"))
            (some (.obj [(js "previousId", .str existing.id), (js "id", .str spec.id),
              (js "username", .str spec.username)])) with
        | .error e => .error e
        | .ok store => .ok ⟨store, moveObservation db.observations existing.id spec.id⟩

/-- `createAgent` with the agent's own id. -/
def AgentInfo.spec (a : AgentInfo) (desiredEnabled operatorDisabled : Bool) : CreateAgentSpec where
  id := some a.id
  username := a.username
  email := a.email
  name := a.name
  role := a.role
  team := a.team
  runtimeEnvironment := some (a.runtimeEnvironment.getD (js "container"))
  executionMethod := a.executionMethod
  model := a.model
  modelFallbacks := a.modelFallbacks
  modelOverrides := a.modelOverrides
  skills := a.skills
  env := a.env
  resourceLimits := a.resourceLimits
  desiredEnabled := desiredEnabled
  operatorDisabled := operatorDisabled

/-- Whether one of the two sets of the files names the agent, by its id, its
username or the id it has had. -/
def flagged (flags : List Text) (a : AgentInfo) (previousId : Option Text) : Bool :=
  flags.contains a.id || flags.contains a.username ||
    match previousId with
    | none => false
    | some previous => decide (previous ≠ []) && flags.contains previous

/-- One turn of the loop. -/
def AgentStateDb.importAgent (db : AgentStateDb) (enabled disabled : List Text) (actor : Text)
    (a : Imported) : Except AgentStateError AgentStateDb :=
  let usernameMatch :=
    match db.store.getAgent a.info.id with
    | some _ => none
    | none => db.store.getByUsername a.info.username
  let isDisabled := flagged disabled a.info (usernameMatch.map AgentRow.id)
  let isEnabled := flagged enabled a.info (usernameMatch.map AgentRow.id)
  match db.store.getAgent a.info.id, usernameMatch with
  | some _, _ =>
      match db.store.setOperatorDisabled a.stamp actor a.info.id isDisabled
          (some (js "import")) with
      | .error e => .error e
      | .ok store =>
          match store.setDesiredEnabled a.nextStamp actor a.info.id (isEnabled && !isDisabled)
              false with
          | .error e => .error e
          | .ok store => .ok { db with store := store }
  | none, some existing =>
      db.rekeyUsernameMatchedImport a.stamp actor existing a.info (isEnabled && !isDisabled)
        isDisabled
  | none, none =>
      match db.store.createAgent a.stamp [] actor
          (a.info.spec (isEnabled && !isDisabled) isDisabled) with
      | .error e => .error e
      | .ok store => .ok { db with store := store }

def AgentStateDb.importAgents (db : AgentStateDb) (enabled disabled : List Text) (actor : Text) :
    List Imported → Except AgentStateError AgentStateDb
  | [] => .ok db
  | a :: rest =>
      match db.importAgent enabled disabled actor a with
      | .error e => .error e
      | .ok db => db.importAgents enabled disabled actor rest

/-- Flags of no agent, of the file or of the rows its usernames name. -/
def AgentStateDb.orphanFlags (db : AgentStateDb) (agents : List Imported)
    (enabled disabled : List Text) : List Text :=
  let drifted := agents.filterMap fun a =>
    (db.store.getByUsername a.info.username).map AgentRow.id
  (enabled ++ disabled).filter fun idOrName =>
    !agents.any (fun a => a.info.id = idOrName) && !agents.any (fun a => a.info.username = idOrName)
      && !drifted.contains idOrName

/-- The number of agents and the flags of none. -/
def AgentStateDb.importFromJson (db : AgentStateDb) (agents : List Imported)
    (enabled disabled : List Text) (actor : Text) :
    Except AgentStateError (AgentStateDb × ℕ × List Text) :=
  match db.importAgents enabled disabled actor agents with
  | .error e => .error e
  | .ok db' => .ok (db', agents.length, db.orphanFlags agents enabled disabled)

/-! ## Runs -/

inductive AgentDbOp where
  | mutation (stamp : Stamp) (op : AgentStateOp)
  | importFromJson (agents : List Imported) (enabled disabled : List Text) (actor : Text)

/-- One call; a transaction that throws is rolled back. -/
def agentDbStep (db : AgentStateDb) : AgentDbOp → AgentStateDb
  | .mutation stamp op => db.mutate (stamp, op)
  | .importFromJson agents enabled disabled actor =>
      match db.importFromJson agents enabled disabled actor with
      | .ok (db', _, _) => db'
      | .error _ => db

end Shizuha.Daemon

/-!
# The agents of this machine

`readAgents` and `writeAgents` take the agents of agents.json from the store,
and before that have the store seeded: when an agent of the list has no row
under its id, the whole list is imported, with the flags of the two files.
A call that throws is rolled back, and the list is used as it is.
-/

namespace Shizuha.Daemon

open Js State

/-- `normalizedAgents`, one of them. -/
def AgentRecord.normalized (agent : AgentRecord) : AgentInfo :=
  let username := (agent.username <|> agent.name).getD agent.id
  { id := agent.id
    username := username
    email := some (agent.email.getD [])
    name := agent.name.getD username
    role := agent.role
    team := agent.team
    runtimeEnvironment := agent.runtimeEnvironment
    executionMethod := agent.executionMethod
    model := agent.model
    modelFallbacks := agent.modelFallbacks
    modelOverrides := agent.modelOverrides
    skills := agent.skills.getD []
    env := agent.env
    resourceLimits := agent.resourceLimits }

/-- The files of enabled and of disabled agents. -/
structure CompatFiles where
  enabled : List Text
  disabled : List Text

/-- The agents with the stamps of their events; `stamps` are those the machine
gives out during the call. -/
def stamped (stamps : ℕ → Stamp) (agents : List AgentInfo) : List Imported :=
  agents.mapIdx fun i info => ⟨info, stamps (2 * i), stamps (2 * i + 1)⟩

def ensureAgentStoreSeeded (db : AgentStateDb) (stamps : ℕ → Stamp) (files : CompatFiles)
    (existingAgents : List AgentRecord) : Except AgentStateError AgentStateDb :=
  if existingAgents = [] then .ok db
  else
    let missing := existingAgents.any fun agent => (db.store.getAgent agent.id).isNone
    if !missing then .ok db
    else
      match db.importFromJson (stamped stamps (existingAgents.map AgentRecord.normalized))
          files.enabled files.disabled (js "readAgents-cutover") with
      | .ok (db', _, _) => .ok db'
      | .error e => .error e

/-- The store after it; an import that throws is rolled back. -/
def seededStore (db : AgentStateDb) (stamps : ℕ → Stamp) (files : CompatFiles)
    (existingAgents : List AgentRecord) : AgentStateDb :=
  match ensureAgentStoreSeeded db stamps files existingAgents with
  | .ok db' => db'
  | .error _ => db

/-- The daemon's files, and its store if there is one. -/
structure DaemonFiles where
  agentsJson : List AgentRecord
  compat : CompatFiles
  store : Option AgentStateDb

def deriveAgentsFromStore (s : DaemonFiles) (stamps : ℕ → Stamp)
    (existingAgents : List AgentRecord) : DaemonFiles × List AgentRecord :=
  match s.store with
  | none => (s, existingAgents)
  | some db =>
      match ensureAgentStoreSeeded db stamps s.compat existingAgents with
      | .error _ => (s, existingAgents)
      | .ok db' =>
          ({ s with store := some db' },
            (db'.store.exportMergedAgentsJson existingAgents).getD existingAgents)

def readAgents (s : DaemonFiles) (stamps : ℕ → Stamp) : DaemonFiles × List AgentRecord :=
  deriveAgentsFromStore s stamps s.agentsJson

def writeAgents (s : DaemonFiles) (stamps : ℕ → Stamp) (agents : List AgentRecord) : DaemonFiles :=
  let derived := deriveAgentsFromStore s stamps agents
  { derived.1 with agentsJson := derived.2 }

end Shizuha.Daemon
