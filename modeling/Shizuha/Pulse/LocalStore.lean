import Shizuha.Cron.Schedule
import Shizuha.Table

/-!
# The local Pulse store

Projects, tasks and comments in one database. Alerts and actions are tasks of
another mode. A task carries the key people call it by, numbered within its
project, and what the platform needs to mirror it: the id and key it has there,
and a flag that says it has changed since.

A text is what its column holds: a string is bound as UTF-8, and no operation
tells apart what that makes equal. SQLite leaves a text with a NUL in it
undefined, and no column holds one. What a call reads off the machine comes
with it: the fresh uuid, and `clock`, one reading for each place of the source
that takes one. A call that throws leaves what it had written by then.
-/

namespace Shizuha.Pulse

open Js

/-! ## Schedules -/

open Regex in
/-- `/^(?:every\s+)?(\d+)\s*(s|m|h|d)$/i`; `group` says what is captured. -/
def schedulePattern (group : ℕ) : Regex :=
  let captured (k : ℕ) (r : Regex) : Regex := if group = k then .capture r else r
  cat [.bos, opt (cat [litI (js "every"), plus space]), captured 1 (plus digit), star space,
    captured 2 (oneOf [litI (js "s"), litI (js "m"), litI (js "h"), litI (js "d")]), .eos]

def multiplier (unit : Text) : ℕ :=
  if unit = js "s" then 1000
  else if unit = js "m" then 60000
  else if unit = js "h" then 3600000
  else if unit = js "d" then 86400000
  else 60000

def parseScheduleMs (schedule : Text) : Option ℕ :=
  match (schedulePattern 1).exec schedule, (schedulePattern 2).exec schedule with
  | some amount, some unit =>
      some (digitsVal (amount.group.getD []) *
        multiplier ((unit.group.getD []).map Regex.foldUnit))
  | _, _ => none

inductive PulseThrow where
  /-- A key that is taken. -/
  | constraint
  /-- `toISOString` of no date. -/
  | invalidTime
  deriving DecidableEq

def computeNextRun (schedule : Text) (now : ℤ) : Except PulseThrow (Option Text) :=
  match parseScheduleMs schedule with
  | none => .ok none
  | some ms =>
      if ms = 0 then .ok none
      else
        match timeClip (now + ms) with
        | none => .error .invalidTime
        | some t => .ok (some (isoText t))

/-! ## The tables -/

inductive ItemMode where
  | task
  | alert
  | action
  deriving DecidableEq

structure LocalTask where
  id : Text
  projectId : Option Text
  projectKey : Option Text
  itemKey : Text
  mode : ItemMode
  itemType : Option Text
  title : Text
  description : Text
  status : Text
  priority : Text
  severity : Option Text
  assignee : Option Text
  createdBy : Option Text
  labels : List Text
  dueDate : Option Text
  startDate : Option Text
  completedAt : Option Text
  createdAt : Text
  updatedAt : Text
  source : Option Text
  sourceId : Option Text
  sourceUrl : Option Text
  fingerprint : Option Text
  /-- As JSON. -/
  payload : Text
  acknowledgedAt : Option Text
  acknowledgedBy : Option Text
  isRecurring : Bool
  schedule : Option Text
  nextRunAt : Option Text
  lastTriggeredAt : Option Text
  workflow : Option Text
  workflowStatus : Option Text
  rejectionReason : Option Text
  linkedTaskId : Option Text
  transitionTo : Option Text
  assignmentGroup : Option Text
  remoteId : Option Text
  remoteKey : Option Text
  dirty : Bool
  lastSynced : Option Text
  deriving DecidableEq

structure LocalProject where
  id : Text
  name : Text
  key : Text
  description : Text
  defaultAssignee : Option Text
  createdAt : Text
  remoteId : Option ℕ

structure LocalComment where
  id : Text
  taskId : Text
  author : Text
  content : Text
  createdAt : Text
  deriving DecidableEq

structure LocalPulseStore where
  projects : Table Text LocalProject LocalProject.id
  tasks : Table Text LocalTask LocalTask.id
  comments : Table Text LocalComment LocalComment.id
  uniqueKeys : (projects.rows.map LocalProject.key).Nodup

/-- What the store takes from the language and from the machine it runs on. -/
structure PulseEnv where
  toUpperCase : Text → Text
  sha256Hex : Text → Text
  /-- The lead of a team in the team configuration. -/
  teamLead : Text → Option Text

/-- A row with the defaults of its columns. -/
def defaultRow (id itemKey title now : Text) : LocalTask where
  id := id
  projectId := none
  projectKey := none
  itemKey := itemKey
  mode := .task
  itemType := none
  title := title
  description := []
  status := js "pending"
  priority := js "normal"
  severity := none
  assignee := none
  createdBy := none
  labels := []
  dueDate := none
  startDate := none
  completedAt := none
  createdAt := now
  updatedAt := now
  source := none
  sourceId := none
  sourceUrl := none
  fingerprint := none
  payload := js "{}"
  acknowledgedAt := none
  acknowledgedBy := none
  isRecurring := false
  schedule := none
  nextRunAt := none
  lastTriggeredAt := none
  workflow := none
  workflowStatus := none
  rejectionReason := none
  linkedTaskId := none
  transitionTo := none
  assignmentGroup := none
  remoteId := none
  remoteKey := none
  dirty := true
  lastSynced := none

/-- A value that is there and not the empty text. -/
def truthy (v : Option Text) : Option Text := v.filter fun t => t ≠ []

namespace LocalPulseStore

/-- The store a call leaves, and what it returns. -/
abbrev Outcome (α : Type) := LocalPulseStore × Except PulseThrow α

variable (env : PulseEnv) (s : LocalPulseStore)

/-! ## Projects -/

structure ProjectOpts where
  name : Text
  key : Text
  description : Option Text
  defaultAssignee : Option Text
  remoteId : Option ℕ

/-- Both columns have an index, and the ids come first. -/
def getProject (idOrKey : Text) : Option LocalProject :=
  (s.projects.get idOrKey).or (s.projects.rows.find? fun p => p.key = env.toUpperCase idOrKey)

def createProject (id : Text) (opts : ProjectOpts) (now : ℤ) : Outcome (Option LocalProject) :=
  let row : LocalProject :=
    ⟨id, opts.name, env.toUpperCase opts.key, opts.description.getD [], opts.defaultAssignee,
      isoText now, opts.remoteId⟩
  match s.projects.insert row with
  | none => (s, .error .constraint)
  | some projects =>
      if h : (projects.rows.map LocalProject.key).Nodup then
        ({ s with projects := projects, uniqueKeys := h },
          .ok (getProject env { s with projects := projects, uniqueKeys := h } id))
      else (s, .error .constraint)

/-- `ORDER BY created_at LIMIT 1`. -/
def oldestProject : List LocalProject → Option LocalProject
  | [] => none
  | p :: rest =>
      match oldestProject rest with
      | none => some p
      | some q => if q.createdAt < p.createdAt then some q else some p

/-- The project an item is created in. -/
def resolveProject (project : Option Text) : Option LocalProject :=
  ((truthy project).bind (getProject env s)).or (oldestProject s.projects.rows)

/-! ## Item keys -/

/-- `LENGTH`: a surrogate pair is one character. -/
def length : Text → ℕ
  | [] => 0
  | [_] => 1
  | u :: v :: t => if isHighSurrogate u && isLowSurrogate v then 1 + length t else 1 + length (v :: t)

/-- What `SUBSTR` leaves behind when `k` characters come before it. -/
def dropChars : ℕ → Text → Text
  | 0, t => t
  | _ + 1, [] => []
  | _ + 1, [_] => []
  | k + 1, u :: v :: t =>
      if isHighSurrogate u && isLowSurrogate v then dropChars k t else dropChars k (v :: t)

/-- `CAST … AS INTEGER`. -/
def castInteger (t : Text) : ℤ := (Cron.parseIntPrefix t).getD 0

/-- The expression the keys of a project are ordered by. -/
def itemNumber (projectKey itemKey : Text) : ℤ :=
  castInteger (dropChars (length projectKey + 1) itemKey)

/-- `ORDER BY … DESC LIMIT 1`. -/
def topItem (number : LocalTask → ℤ) : List LocalTask → Option LocalTask
  | [] => none
  | t :: rest =>
      match topItem number rest with
      | none => some t
      | some u => if number t < number u then some u else some t

/-- What follows the last hyphen. -/
def lastPart (itemKey : Text) : Text := (itemKey.reverse.takeWhile (· ≠ 45)).reverse

/-- A number in a template. -/
def seqText : Option ℤ → Text
  | none => js "NaN"
  | some n => if n < 0 then 45 :: decimal n.natAbs else decimal n.toNat

def keyOf (projectKey : Text) (seq : Option ℤ) : Text := projectKey ++ 45 :: seqText seq

def nextItemKey (projectKey : Text) : Text :=
  match topItem (fun t => itemNumber projectKey t.itemKey)
      (s.tasks.rows.filter fun t => t.projectKey = some projectKey) with
  | none => keyOf projectKey (some 1)
  | some t => keyOf projectKey ((Cron.parseIntPrefix (lastPart t.itemKey)).map (· + 1))

/-! ## Tasks -/

/-- No index covers the keys, so the first row that has one of the three is
the answer. -/
def getTask (idOrKey : Text) : Option LocalTask :=
  s.tasks.rows.find? fun t =>
    t.id = idOrKey || t.itemKey = env.toUpperCase idOrKey ||
      t.remoteKey = some (env.toUpperCase idOrKey)

def insertTask (row : LocalTask) : Outcome (Option LocalTask) :=
  match s.tasks.insert row with
  | none => (s, .error .constraint)
  | some tasks => ({ s with tasks := tasks }, .ok (getTask env { s with tasks := tasks } row.id))

/-- `UPDATE tasks SET … WHERE id = ?`. -/
def setTask (id : Text) (f : LocalTask → LocalTask) (hf : ∀ t, (f t).id = t.id) :
    LocalPulseStore :=
  { s with tasks := s.tasks.update (fun t => t.id = id) f hf }

/-- An update, and the row read back. -/
def writeTask (id : Text) (f : LocalTask → LocalTask) (hf : ∀ t, (f t).id = t.id) :
    Outcome (Option LocalTask) :=
  (s.setTask id f hf, .ok (getTask env (s.setTask id f hf) id))

structure TaskOpts where
  title : Text
  description : Option Text
  project : Option Text
  status : Option Text
  priority : Option Text
  assignee : Option Text
  createdBy : Option Text
  labels : Option (List Text)
  dueDate : Option Text
  startDate : Option Text
  schedule : Option Text
  workflow : Option Text
  workflowStatus : Option Text

/-- The key a new item of a project gets. -/
def newItemKey (project : Option LocalProject) : Text :=
  nextItemKey s ((project.map LocalProject.key).getD (js "GEN"))

def newTask (id : Text) (opts : TaskOpts) (clock : ℕ → ℤ) (project : Option LocalProject) :
    LocalTask :=
  let workflow := opts.workflow.getD (js "simple")
  { defaultRow id (newItemKey s project) opts.title (isoText (clock 0)) with
    projectId := project.map LocalProject.id
    projectKey := project.map LocalProject.key
    description := opts.description.getD []
    status := opts.status.getD (js "pending")
    priority := opts.priority.getD (js "normal")
    assignee := opts.assignee.or ((project.bind LocalProject.defaultAssignee).or opts.createdBy)
    createdBy := opts.createdBy
    labels := opts.labels.getD []
    dueDate := opts.dueDate
    startDate := opts.startDate
    isRecurring := (truthy opts.schedule).isSome
    schedule := opts.schedule
    -- a recurring task fires at once unless it has a due date
    nextRunAt :=
      if (truthy opts.schedule).isSome then some (opts.dueDate.getD (isoText (clock 1)))
      else opts.dueDate
    workflow := some workflow
    workflowStatus :=
      opts.workflowStatus.or (if workflow = js "simple" then some (js "pending") else none) }

def createTask (id : Text) (opts : TaskOpts) (clock : ℕ → ℤ) : Outcome (Option LocalTask) :=
  insertTask env s (newTask s id opts clock (resolveProject env s opts.project))

/-- `none` is a field that is not given. -/
structure TaskUpdates where
  title : Option Text
  description : Option Text
  status : Option Text
  priority : Option Text
  assignee : Option Text
  labels : Option (List Text)
  dueDate : Option (Option Text)
  startDate : Option (Option Text)
  schedule : Option (Option Text)
  workflow : Option (Option Text)
  workflowStatus : Option (Option Text)
  assignmentGroup : Option (Option Text)

def TaskUpdates.none : TaskUpdates := ⟨.none, .none, .none, .none, .none, .none, .none, .none,
  .none, .none, .none, .none⟩

/-- Whether the task recurs and when it runs next, where the schedule is given. -/
def TaskUpdates.recurrence (updates : TaskUpdates) (task : LocalTask) (now : ℤ) :
    Except PulseThrow (Bool × Option Text) :=
  match updates.schedule with
  | .none => .ok (task.isRecurring, task.nextRunAt)
  | some given =>
      match truthy given with
      | .none => .ok (false, .none)
      | some schedule =>
          match computeNextRun schedule now with
          | .error e => .error e
          | .ok nextRun => .ok (true, nextRun.or task.nextRunAt)

/-- The row after the update. -/
def TaskUpdates.set (updates : TaskUpdates) (clock : ℕ → ℤ) (recurrence : Bool × Option Text)
    (task : LocalTask) : LocalTask :=
  { task with
    title := updates.title.getD task.title
    description := updates.description.getD task.description
    status := updates.status.getD task.status
    priority := updates.priority.getD task.priority
    assignee := updates.assignee.or task.assignee
    labels := updates.labels.getD task.labels
    dueDate := updates.dueDate.getD task.dueDate
    -- the last assignment to a column is the one that counts
    startDate :=
      if updates.status = some (js "in_progress") ∧ truthy task.startDate = .none then
        some (isoText (clock 2))
      else updates.startDate.getD task.startDate
    completedAt :=
      if updates.status = some (js "completed") ∧ task.status ≠ js "completed" then
        some (isoText (clock 1))
      else task.completedAt
    schedule := updates.schedule.getD task.schedule
    isRecurring := recurrence.1
    nextRunAt := recurrence.2
    workflow := updates.workflow.getD task.workflow
    workflowStatus := updates.workflowStatus.getD task.workflowStatus
    assignmentGroup := updates.assignmentGroup.getD task.assignmentGroup
    updatedAt := isoText (clock 3)
    dirty := true }

def updateTask (idOrKey : Text) (updates : TaskUpdates) (clock : ℕ → ℤ) :
    Outcome (Option LocalTask) :=
  match getTask env s idOrKey with
  | none => (s, .ok none)
  | some task =>
      match updates.recurrence task (clock 0) with
      | .error e => (s, .error e)
      | .ok recurrence => writeTask env s task.id (updates.set clock recurrence) fun _ => rfl

/-- The schedule of a task that recurs. -/
def recurring (task : LocalTask) : Option Text :=
  if task.isRecurring then truthy task.schedule else none

/-- A recurring task does not complete: it waits for its next run. -/
def completeTask (idOrKey : Text) (clock : ℕ → ℤ) : Outcome (Option LocalTask) :=
  match getTask env s idOrKey with
  | none => (s, .ok none)
  | some task =>
      match recurring task with
      | some schedule =>
          match computeNextRun schedule (clock 5) with
          | .error e => (s, .error e)
          | .ok nextRun =>
              writeTask env s task.id
                (fun t => { t with
                  status := js "pending"
                  completedAt := none
                  nextRunAt := nextRun
                  updatedAt := isoText (clock 4) })
                fun _ => rfl
      | none => updateTask env s idOrKey { TaskUpdates.none with status := some (js "completed") } clock

def cancelRecurring (idOrKey : Text) (now : ℤ) : Outcome (Option LocalTask) :=
  match getTask env s idOrKey with
  | none => (s, .ok none)
  | some task =>
      writeTask env s task.id
        (fun t => { t with
          status := js "cancelled"
          isRecurring := false
          schedule := none
          nextRunAt := none
          completedAt := some (isoText now)
          updatedAt := isoText now })
        fun _ => rfl

def deleteTask (idOrKey : Text) : LocalPulseStore × Bool :=
  match getTask env s idOrKey with
  | none => (s, false)
  | some task =>
      ({ s with
        tasks := s.tasks.delete fun t => t.id = task.id
        comments := s.comments.delete fun c => c.taskId = task.id }, true)

/-! ## Comments -/

def addComment (id taskIdOrKey author content : Text) (now : ℤ) : Outcome (Option LocalComment) :=
  match getTask env s taskIdOrKey with
  | none => (s, .ok none)
  | some task =>
      match s.comments.insert ⟨id, task.id, author, content, isoText now⟩ with
      | none => (s, .error .constraint)
      | some comments =>
          (({ s with comments := comments } : LocalPulseStore).setTask task.id
              (fun t => { t with updatedAt := isoText now, dirty := true }) fun _ => rfl,
            .ok (some ⟨id, task.id, author, content, isoText now⟩))

/-! ## Workflows -/

inductive StatusCategory where
  | open
  | inProgress
  | done
  | cancelled
  deriving DecidableEq

structure WorkflowStatus where
  id : Text
  category : StatusCategory

structure WorkflowDefinition where
  name : Text
  statuses : List WorkflowStatus

structure TransitionAction where
  assignTo : Option Text
  assignTeam : Option Text
  comment : Option Text
  addLabel : Option Text
  removeLabel : Option Text

structure WorkflowTransition where
  onTransition : Option TransitionAction

inductive ActorType where
  | human
  | agent
  | auto

def ActorType.text : ActorType → Text
  | .human => js "human"
  | .agent => js "agent"
  | .auto => js "auto"

structure TransitionVars where
  actor : Text
  assignee : Text
  source : Text
  target : Text
  creator : Text

/-- What the caller brings. -/
structure WorkflowHelpers where
  getWorkflow : Text → Option WorkflowDefinition
  validateTransition : WorkflowDefinition → Text → Text → ActorType → Except Text WorkflowTransition
  executeTransitionActions : TransitionAction → TransitionVars → TransitionAction

def categoryMap : StatusCategory → Text
  | .open => js "pending"
  | .inProgress => js "in_progress"
  | .done => js "completed"
  | .cancelled => js "cancelled"

structure TransitionResult where
  ok : Bool
  task : Option LocalTask
  error : Option Text
  comment : Option Text

def TransitionResult.failed (error : Text) : TransitionResult := ⟨false, none, some error, none⟩

/-- A team has a lead under its own name, and two teams share theirs. -/
def resolveTeamLead (teamName : Text) : Option Text :=
  env.teamLead
    (if teamName = js "research" ∨ teamName = js "analytics" then js "research-analytics"
      else teamName)

/-- What the actions of a transition change. -/
def actionUpdates (task : LocalTask) (actions : TransitionAction) (updates : TaskUpdates) :
    TaskUpdates :=
  let labels := match truthy actions.addLabel with
    | none => updates.labels
    | some label => some (if label ∈ task.labels then task.labels else task.labels ++ [label])
  { updates with
    assignmentGroup :=
      match truthy actions.assignTeam with
      | none => updates.assignmentGroup
      | some team => some (some team)
    assignee :=
      match truthy actions.assignTo, truthy actions.assignTeam with
      | some assignee, _ => some assignee
      | none, none => updates.assignee
      | none, some team => (truthy (resolveTeamLead env team)).or updates.assignee
    labels :=
      match truthy actions.removeLabel with
      | none => labels
      | some label => some (task.labels.filter fun l => l ≠ label) }

def transitionVars (task : LocalTask) (current targetStatus actor : Text) : TransitionVars :=
  ⟨actor, task.assignee.getD (js "unassigned"), current, targetStatus,
    task.createdBy.getD (js "unknown")⟩

/-- The update a transition makes and the comment it leaves. -/
def transitionUpdates (helpers : WorkflowHelpers) (task : LocalTask) (workflow : WorkflowDefinition)
    (transition : WorkflowTransition) (current targetStatus actor : Text) :
    TaskUpdates × Option Text :=
  let actions := transition.onTransition.map fun action =>
    helpers.executeTransitionActions action (transitionVars task current targetStatus actor)
  let updates : TaskUpdates :=
    { TaskUpdates.none with workflowStatus := some (some targetStatus) }
  let updates := match actions with
    | none => updates
    | some actions => actionUpdates env task actions updates
  ({ updates with
      status := (workflow.statuses.find? fun st => st.id = targetStatus).map fun st =>
        categoryMap st.category },
    actions.bind fun actions => truthy actions.comment)

/-- The update of a transition, and its comment when it leaves one. -/
def applyTransition (task : LocalTask) (updates : TaskUpdates) (comment : Option Text)
    (commentId actor : Text) (clock : ℕ → ℤ) : Outcome TransitionResult :=
  match updateTask env s task.id updates clock with
  | (s', .error e) => (s', .error e)
  | (s', .ok none) => (s', .ok (.failed (js "Failed to update task")))
  | (s', .ok (some updated)) =>
      match comment with
      | none => (s', .ok ⟨true, some updated, none, none⟩)
      | some content =>
          match addComment env s' commentId task.id actor content (clock 4) with
          | (s'', .error e) => (s'', .error e)
          | (s'', .ok _) => (s'', .ok ⟨true, some updated, none, some content⟩)

def transitionTask (idOrKey targetStatus : Text) (actorType : ActorType)
    (actorUsername : Option Text) (workflowHelpers : Option WorkflowHelpers) (commentId : Text)
    (clock : ℕ → ℤ) : Outcome TransitionResult :=
  match getTask env s idOrKey with
  | none => (s, .ok (.failed (js "Task \"" ++ idOrKey ++ js "\" not found")))
  | some task =>
      match truthy task.workflow, truthy task.workflowStatus, workflowHelpers with
      | none, _, _ =>
          (s, .ok (.failed (js "Task " ++ task.itemKey ++ js " has no workflow assigned")))
      | some _, none, _ =>
          (s, .ok (.failed (js "Task " ++ task.itemKey ++ js " has no current workflow status")))
      | some _, some _, none => (s, .ok (.failed (js "Workflow helpers not provided")))
      | some name, some current, some helpers =>
          match helpers.getWorkflow name with
          | none => (s, .ok (.failed (js "Workflow \"" ++ name ++ js "\" not found")))
          | some workflow =>
              match helpers.validateTransition workflow current targetStatus actorType with
              | .error error => (s, .ok (.failed error))
              | .ok transition =>
                  let actor := actorUsername.getD actorType.text
                  let made := transitionUpdates env helpers task workflow transition current
                    targetStatus actor
                  applyTransition env s task made.1 made.2 commentId actor clock

/-! ## Sync and scheduling -/

def getDirtyTasks : List LocalTask := s.tasks.rows.filter LocalTask.dirty

def markSynced (taskId remoteId remoteKey : Text) (now : ℤ) : LocalPulseStore :=
  s.setTask taskId
    (fun t => { t with
      remoteId := some remoteId
      remoteKey := some remoteKey
      dirty := false
      lastSynced := some (isoText now) })
    fun _ => rfl

/-- The task is looked up by id or key, the row to write by id alone. -/
def markTriggered (taskId : Text) (clock : ℕ → ℤ) : Outcome Unit :=
  match getTask env s taskId with
  | none => (s, .ok ())
  | some task =>
      match recurring task with
      | some schedule =>
          match computeNextRun schedule (clock 1) with
          | .error e => (s, .error e)
          | .ok nextRun =>
              (s.setTask taskId
                (fun t => { t with
                  lastTriggeredAt := some (isoText (clock 0))
                  nextRunAt := nextRun
                  status := js "pending"
                  updatedAt := isoText (clock 0) })
                fun _ => rfl, .ok ())
      | none =>
          (s.setTask taskId
            (fun t => { t with
              lastTriggeredAt := some (isoText (clock 0))
              nextRunAt := none
              status := js "in_progress"
              updatedAt := isoText (clock 0) })
            fun _ => rfl, .ok ())

/-! ## Alerts -/

structure AlertOpts where
  title : Text
  description : Option Text
  itemType : Option Text
  severity : Option Text
  assignee : Option Text
  source : Option Text
  sourceId : Option Text
  sourceUrl : Option Text
  payload : Option Text
  labels : Option (List Text)
  project : Option Text
  createdBy : Option Text

def alertFingerprint (opts : AlertOpts) : Option Text :=
  (truthy opts.sourceId).map fun sourceId =>
    (env.sha256Hex (opts.source.getD [] ++ js ":" ++ sourceId)).take 32

def newAlert (id : Text) (opts : AlertOpts) (now : ℤ) (project : Option LocalProject) : LocalTask :=
  { defaultRow id (newItemKey s project) opts.title (isoText now) with
    projectId := project.map LocalProject.id
    projectKey := project.map LocalProject.key
    mode := .alert
    itemType := some (opts.itemType.getD (js "alert.generic"))
    description := opts.description.getD []
    status := js "firing"
    priority := js "normal"
    severity := some (opts.severity.getD (js "info"))
    assignee := opts.assignee.or ((project.bind LocalProject.defaultAssignee).or opts.createdBy)
    createdBy := opts.createdBy
    labels := opts.labels.getD []
    source := opts.source
    sourceId := opts.sourceId
    sourceUrl := opts.sourceUrl
    fingerprint := alertFingerprint env opts
    payload := opts.payload.getD (js "{}") }

/-- The alert a new one of the fingerprint repeats. -/
def existingAlert (fingerprint : Text) : Option LocalTask :=
  s.tasks.rows.find? fun t =>
    t.fingerprint = some fingerprint && t.mode = .alert &&
      (t.status = js "firing" || t.status = js "acknowledged")

def fireAlert (id : Text) (opts : AlertOpts) (clock : ℕ → ℤ) : Outcome (Option LocalTask) :=
  match (truthy (alertFingerprint env opts)).bind (existingAlert s) with
  | some existing =>
      (s.setTask existing.id (fun t => { t with updatedAt := isoText (clock 0) }) fun _ => rfl,
        .ok (some existing))
  | none => insertTask env s (newAlert env s id opts (clock 1) (resolveProject env s opts.project))

/-- The task under a key, when it is of the mode. -/
def getItem (mode : ItemMode) (idOrKey : Text) : Option LocalTask :=
  (getTask env s idOrKey).filter fun t => t.mode = mode

def acknowledgeAlert (idOrKey : Text) (by_ : Option Text) (now : ℤ) : Outcome (Option LocalTask) :=
  match getItem env s .alert idOrKey with
  | none => (s, .ok none)
  | some task =>
      writeTask env s task.id
        (fun t => { t with
          status := js "acknowledged"
          acknowledgedAt := some (isoText now)
          acknowledgedBy := by_
          updatedAt := isoText now })
        fun _ => rfl

def resolveAlert (idOrKey : Text) (now : ℤ) : Outcome (Option LocalTask) :=
  match getItem env s .alert idOrKey with
  | none => (s, .ok none)
  | some task =>
      writeTask env s task.id
        (fun t => { t with
          status := js "resolved"
          completedAt := some (isoText now)
          updatedAt := isoText now })
        fun _ => rfl

def silenceAlert (idOrKey : Text) (now : ℤ) : Outcome (Option LocalTask) :=
  match getItem env s .alert idOrKey with
  | none => (s, .ok none)
  | some task =>
      writeTask env s task.id
        (fun t => { t with status := js "silenced", updatedAt := isoText now }) fun _ => rfl

/-! ## Actions -/

structure ActionOpts where
  title : Text
  description : Option Text
  assignee : Option Text
  createdBy : Option Text
  priority : Option Text
  project : Option Text
  labels : Option (List Text)
  linkedTaskId : Option Text
  transitionTo : Option Text
  workflow : Option Text
  workflowStatus : Option Text

def newAction (id : Text) (opts : ActionOpts) (now : ℤ) (project : Option LocalProject) :
    LocalTask :=
  { defaultRow id (newItemKey s project) opts.title (isoText now) with
    projectId := project.map LocalProject.id
    projectKey := project.map LocalProject.key
    mode := .action
    itemType := some (js "action.approval")
    description := opts.description.getD []
    status := js "pending"
    priority := opts.priority.getD (js "normal")
    assignee := opts.assignee.or ((project.bind LocalProject.defaultAssignee).or opts.createdBy)
    createdBy := opts.createdBy
    labels := opts.labels.getD []
    linkedTaskId := opts.linkedTaskId
    transitionTo := opts.transitionTo
    workflow := opts.workflow
    workflowStatus := opts.workflowStatus }

def createAction (id : Text) (opts : ActionOpts) (now : ℤ) : Outcome (Option LocalTask) :=
  insertTask env s (newAction s id opts now (resolveProject env s opts.project))

/-- An action that nobody has acted on. -/
def getPending (idOrKey : Text) : Option LocalTask :=
  (getItem env s .action idOrKey).filter fun t => t.status = js "pending"

def approveAction (idOrKey : Text) (by_ : Option Text) (now : ℤ) : Outcome (Option LocalTask) :=
  match getPending env s idOrKey with
  | none => (s, .ok none)
  | some task =>
      writeTask env s task.id
        (fun t => { t with
          status := js "approved"
          acknowledgedBy := by_
          completedAt := some (isoText now)
          updatedAt := isoText now })
        fun _ => rfl

def rejectAction (idOrKey : Text) (by_ reason : Option Text) (now : ℤ) :
    Outcome (Option LocalTask) :=
  match getPending env s idOrKey with
  | none => (s, .ok none)
  | some task =>
      writeTask env s task.id
        (fun t => { t with
          status := js "rejected"
          acknowledgedBy := by_
          rejectionReason := reason
          completedAt := some (isoText now)
          updatedAt := isoText now })
        fun _ => rfl

/-! ## Runs -/

/-- A store without rows. -/
def blank : LocalPulseStore := ⟨Table.empty, Table.empty, Table.empty, List.nodup_nil⟩

/-- A store opened for the first time has one project. -/
def opened (id : Text) (now : ℤ) : LocalPulseStore :=
  (createProject env blank id
    ⟨js "General", js "GEN", some (js "Default project"), none, none⟩ now).1

/-! ## Reading what was written -/

section

variable {s} {x : Text} {f : LocalTask → LocalTask} {hf : ∀ t, (f t).id = t.id}

theorem mem_setTask {t' : LocalTask} (h : t' ∈ (s.setTask x f hf).tasks.rows) :
    ∃ t ∈ s.tasks.rows, t.id = t'.id ∧ t' = if t.id = x then f t else t := by
  obtain ⟨t, ht, rfl⟩ := List.mem_map.mp h
  refine ⟨t, ht, ?_, by simp⟩
  by_cases hx : t.id = x
  · simp [hx, hf]
  · simp [hx]

theorem get_setTask (id : Text) :
    (s.setTask x f hf).tasks.get id = (s.tasks.get id).map fun t => if t.id = x then f t else t := by
  rw [setTask, Table.get_update]
  simp

theorem get_of_mem {t : LocalTask} (h : t ∈ s.tasks.rows) : s.tasks.get t.id = some t :=
  Table.get_eq_some_iff.mpr ⟨h, rfl⟩

theorem mem_of_getTask {env} {idOrKey : Text} {task : LocalTask}
    (h : getTask env s idOrKey = some task) : task ∈ s.tasks.rows := List.mem_of_find?_eq_some h

end

/-! ## A transition is an update and a comment -/

section

variable {R : LocalPulseStore → LocalPulseStore → Prop}

/-- A transition leaves the schedule. -/
theorem transitionUpdates_schedule (helpers : WorkflowHelpers) (task : LocalTask)
    (workflow : WorkflowDefinition) (transition : WorkflowTransition)
    (current targetStatus actor : Text) :
    (transitionUpdates env helpers task workflow transition current targetStatus
      actor).1.schedule = none := by
  rw [transitionUpdates]
  cases transition.onTransition with
  | none => rfl
  | some action => rfl

theorem applyTransition_rule (htrans : ∀ s s' s'', R s s' → R s' s'' → R s s'')
    (hupdate : ∀ s idOrKey updates clock, updates.schedule = none →
      R s (updateTask env s idOrKey updates clock).1)
    (hcomment : ∀ s id idOrKey author content now,
      R s (addComment env s id idOrKey author content now).1)
    (task : LocalTask) (updates : TaskUpdates) (comment : Option Text) (commentId actor : Text)
    (clock : ℕ → ℤ) (hschedule : updates.schedule = none) :
    R s (applyTransition env s task updates comment commentId actor clock).1 := by
  have hfirst : R s (updateTask env s task.id updates clock).1 :=
    hupdate s task.id updates clock hschedule
  rw [applyTransition]
  obtain ⟨s', result, hu⟩ : ∃ s' result, updateTask env s task.id updates clock = (s', result) :=
    ⟨_, _, rfl⟩
  rw [hu] at hfirst ⊢
  obtain e | _ | updated := result
  · exact hfirst
  · exact hfirst
  · cases comment with
    | none => exact hfirst
    | some content =>
        have hsecond : R s' (addComment env s' commentId task.id actor content (clock 4)).1 :=
          hcomment s' commentId task.id actor content (clock 4)
        obtain ⟨s'', result, hc⟩ : ∃ s'' result,
            addComment env s' commentId task.id actor content (clock 4) = (s'', result) :=
          ⟨_, _, rfl⟩
        dsimp only
        rw [hc] at hsecond ⊢
        cases result with
        | error e => exact htrans s s' s'' hfirst hsecond
        | ok c => exact htrans s s' s'' hfirst hsecond

/-- What updates and comments do to a store, a transition does. -/
theorem transitionTask_rule (hrefl : ∀ s, R s s)
    (htrans : ∀ s s' s'', R s s' → R s' s'' → R s s'')
    (hupdate : ∀ s idOrKey updates clock, updates.schedule = none →
      R s (updateTask env s idOrKey updates clock).1)
    (hcomment : ∀ s id idOrKey author content now,
      R s (addComment env s id idOrKey author content now).1)
    (idOrKey targetStatus : Text) (actorType : ActorType) (actorUsername : Option Text)
    (workflowHelpers : Option WorkflowHelpers) (commentId : Text) (clock : ℕ → ℤ) :
    R s (transitionTask env s idOrKey targetStatus actorType actorUsername workflowHelpers
      commentId clock).1 := by
  rw [transitionTask]
  split
  · exact hrefl s
  · split
    · exact hrefl s
    · exact hrefl s
    · exact hrefl s
    · split
      · exact hrefl s
      · split
        · exact hrefl s
        · exact applyTransition_rule env s htrans hupdate hcomment _ _ _ _ _ _
            (transitionUpdates_schedule env _ _ _ _ _ _ _)

end

end LocalPulseStore

/-- The calls that write, and the one that reads what is to be synced. A call
that creates a row brings its uuid. -/
inductive PulseOp where
  | createProject (id : Text) (opts : LocalPulseStore.ProjectOpts) (now : ℤ)
  | createTask (id : Text) (opts : LocalPulseStore.TaskOpts) (clock : ℕ → ℤ)
  | updateTask (idOrKey : Text) (updates : LocalPulseStore.TaskUpdates) (clock : ℕ → ℤ)
  | completeTask (idOrKey : Text) (clock : ℕ → ℤ)
  | cancelRecurring (idOrKey : Text) (now : ℤ)
  | transitionTask (idOrKey targetStatus : Text) (actorType : LocalPulseStore.ActorType)
      (actorUsername : Option Text) (workflowHelpers : Option LocalPulseStore.WorkflowHelpers)
      (commentId : Text) (clock : ℕ → ℤ)
  | deleteTask (idOrKey : Text)
  | addComment (id taskIdOrKey author content : Text) (now : ℤ)
  | getDirtyTasks
  | markSynced (taskId remoteId remoteKey : Text) (now : ℤ)
  | markTriggered (taskId : Text) (clock : ℕ → ℤ)
  | fireAlert (id : Text) (opts : LocalPulseStore.AlertOpts) (clock : ℕ → ℤ)
  | acknowledgeAlert (idOrKey : Text) (by_ : Option Text) (now : ℤ)
  | resolveAlert (idOrKey : Text) (now : ℤ)
  | silenceAlert (idOrKey : Text) (now : ℤ)
  | createAction (id : Text) (opts : LocalPulseStore.ActionOpts) (now : ℤ)
  | approveAction (idOrKey : Text) (by_ : Option Text) (now : ℤ)
  | rejectAction (idOrKey : Text) (by_ reason : Option Text) (now : ℤ)

/-- The store after a call. -/
def LocalPulseStore.step (env : PulseEnv) (s : LocalPulseStore) : PulseOp → LocalPulseStore
  | .createProject id opts now => (createProject env s id opts now).1
  | .createTask id opts clock => (createTask env s id opts clock).1
  | .updateTask idOrKey updates clock => (updateTask env s idOrKey updates clock).1
  | .completeTask idOrKey clock => (completeTask env s idOrKey clock).1
  | .cancelRecurring idOrKey now => (cancelRecurring env s idOrKey now).1
  | .transitionTask idOrKey targetStatus actorType actorUsername workflowHelpers commentId clock =>
      (transitionTask env s idOrKey targetStatus actorType actorUsername workflowHelpers commentId
        clock).1
  | .deleteTask idOrKey => (deleteTask env s idOrKey).1
  | .addComment id taskIdOrKey author content now =>
      (addComment env s id taskIdOrKey author content now).1
  | .getDirtyTasks => s
  | .markSynced taskId remoteId remoteKey now => s.markSynced taskId remoteId remoteKey now
  | .markTriggered taskId clock => (markTriggered env s taskId clock).1
  | .fireAlert id opts clock => (fireAlert env s id opts clock).1
  | .acknowledgeAlert idOrKey by_ now => (acknowledgeAlert env s idOrKey by_ now).1
  | .resolveAlert idOrKey now => (resolveAlert env s idOrKey now).1
  | .silenceAlert idOrKey now => (silenceAlert env s idOrKey now).1
  | .createAction id opts now => (createAction env s id opts now).1
  | .approveAction idOrKey by_ now => (approveAction env s idOrKey by_ now).1
  | .rejectAction idOrKey by_ reason now => (rejectAction env s idOrKey by_ reason now).1

end Shizuha.Pulse
