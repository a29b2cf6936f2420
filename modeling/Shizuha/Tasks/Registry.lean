import Shizuha.Js.Numeral
import Shizuha.Table

/-!
# The background task registry

Commands and sub-agents that run while the agent loop goes on. A task gathers
output in a bounded buffer, ends in one of three terminal states, and tells
the model about both through attachments collected before each request.

The registry keeps every event it emits. The time a call reads and the
identifiers it draws come with the call; lower-casing, which only the watches
use, is a parameter.
-/

namespace Shizuha.Tasks

open Js

/-- Max output characters in a progress attachment. -/
def maxDeltaBytes : ℕ := 4000

/-- Max output kept in memory for a task. -/
def maxOutputBytes : ℕ := 100000

theorem maxOutputBytes_pos : 0 < maxOutputBytes := by decide

def completedTtlMs : ℤ := 30 * 60 * 1000

def progressEventMinIntervalMs : ℤ := 2000

inductive TaskStatus where
  | pending
  | running
  | completed
  | failed
  | killed
  deriving DecidableEq

inductive TaskType where
  | bash
  | agent
  | monitor
  deriving DecidableEq

inductive TaskNotifyPolicy where
  | doneOnly
  | stateChanges
  | silent
  deriving DecidableEq

structure BackgroundTask where
  id : Text
  type : TaskType
  description : Text
  status : TaskStatus
  output : Text
  error : Option Text
  exitCode : Option ℤ
  createdAt : ℤ
  completedAt : Option ℤ
  /-- How much of the buffer has been reported to the model. -/
  outputOffset : ℕ
  notified : Bool
  notifyPolicy : TaskNotifyPolicy
  aborted : Bool
  deriving DecidableEq

structure BackgroundTaskWatch where
  id : Text
  target : Text
  policy : TaskNotifyPolicy
  createdAt : ℤ

inductive TaskAttachmentType where
  | taskStatus
  | taskProgress
  deriving DecidableEq

structure TaskAttachment where
  type : TaskAttachmentType
  taskId : Text
  taskType : TaskType
  status : TaskStatus
  description : Text
  deltaOutput : Option Text
  error : Option Text
  deriving DecidableEq

inductive TaskEventStatus where
  | started
  | progress
  | completed
  | failed
  | killed
  deriving DecidableEq

structure BackgroundTaskEvent where
  status : TaskEventStatus
  taskId : Text
  description : Text
  deriving DecidableEq

structure Registry where
  tasks : Table Text BackgroundTask BackgroundTask.id
  watches : Table Text BackgroundTaskWatch BackgroundTaskWatch.id
  lastProgressEventAt : Table Text (Text × ℤ) Prod.fst
  /-- What has been given to the event callback, in order. -/
  events : List BackgroundTaskEvent

def Registry.empty : Registry := ⟨.empty, .empty, .empty, []⟩

def TaskStatus.isTerminal (s : TaskStatus) : Bool := s = .completed || s = .failed || s = .killed

/-! ## Small pieces -/

def Registry.get (s : Registry) (id : Text) : Option BackgroundTask := s.tasks.get id

/-- `Map.set`: a key that is there keeps its place. -/
def Registry.setTask (s : Registry) (task : BackgroundTask) : Registry :=
  { s with tasks := s.tasks.upsert task (fun old => { task with id := old.id }) fun _ => rfl }

/-- The fields of a task, all but the id. -/
def Registry.modify (s : Registry) (id : Text) (f : BackgroundTask → BackgroundTask)
    (hf : ∀ t, (f t).id = t.id) : Registry :=
  { s with tasks := s.tasks.update (fun t => t.id = id) f hf }

def Registry.emitTaskEvent (s : Registry) (task : BackgroundTask) (status : TaskEventStatus) :
    Registry :=
  { s with events := s.events ++ [⟨status, task.id, task.description⟩] }

/-- The start of a buffer that has lost its head. -/
def trimNotice (trimmed : ℕ) : Text := js "[" ++ decimal trimmed ++ js " bytes trimmed]\n"

/-- The buffer after more output: the head is cut off once it is too long. -/
def appendBounded (output chunk : Text) : Text :=
  let output := output ++ chunk
  if output.length > maxOutputBytes then
    trimNotice (output.length - maxOutputBytes) ++ slice output (-maxOutputBytes)
  else output

def truncateDelta (delta : Text) : Text :=
  if delta.length ≤ maxDeltaBytes then delta
  else
    js "[..." ++ decimal (delta.length - maxDeltaBytes) ++ js " bytes trimmed...]\n" ++
      slice delta (-maxDeltaBytes)

/-- The output not yet reported. -/
def BackgroundTask.delta (t : BackgroundTask) : Text := slice t.output t.outputOffset

/-! ## Operations -/

section

variable (toLowerCase : Text → Text)

def Registry.policyForDescription (s : Registry) (description : Text) : TaskNotifyPolicy :=
  match s.watches.rows.find? fun watch =>
      includes (toLowerCase description) (toLowerCase watch.target) with
  | some watch => watch.policy
  | none => .stateChanges

def Registry.create (s : Registry) (id : Text) (type : TaskType) (description : Text) (now : ℤ) :
    Registry :=
  let task : BackgroundTask :=
    { id := id
      type := type
      description := description
      status := .running
      output := []
      error := none
      exitCode := none
      createdAt := now
      completedAt := none
      outputOffset := 0
      notified := false
      notifyPolicy := s.policyForDescription toLowerCase description
      aborted := false }
  (s.setTask task).emitTaskEvent task .started

/-- A watch matches one task by its id, or else every task whose description
has it. -/
def Registry.matchingTasks (s : Registry) (target : Text) : List BackgroundTask :=
  match s.get target with
  | some task => [task]
  | none => s.tasks.rows.filter fun task =>
      includes (toLowerCase task.description) (toLowerCase target)

inductive RegistryError where
  | targetRequired
  deriving DecidableEq

def RegistryError.message : RegistryError → Text
  | .targetRequired => js "Watch target is required"

def Registry.watch (s : Registry) (id target : Text) (policy : TaskNotifyPolicy) (now : ℤ) :
    Except RegistryError Registry :=
  let normalized := trim target
  if normalized = [] then .error .targetRequired
  else
    let watch : BackgroundTaskWatch := ⟨id, normalized, policy, now⟩
    let matched := (s.matchingTasks toLowerCase normalized).map BackgroundTask.id
    .ok
      { s with
        watches := s.watches.upsert watch (fun old => { watch with id := old.id }) fun _ => rfl
        tasks := s.tasks.update (fun task => task.id ∈ matched)
          (fun task => { task with notifyPolicy := policy, notified := false }) fun _ => rfl }

end

def Registry.appendOutput (s : Registry) (id chunk : Text) (now : ℤ) : Registry :=
  match s.get id with
  | none => s
  | some task =>
      let appended := s.modify id (fun t => { t with output := appendBounded t.output chunk })
        fun _ => rfl
      let last := ((s.lastProgressEventAt.get id).map Prod.snd).getD 0
      if chunk ≠ [] ∧ task.notifyPolicy = .stateChanges ∧
          now - last ≥ progressEventMinIntervalMs then
        { appended with
          lastProgressEventAt :=
            s.lastProgressEventAt.upsert (id, now) (fun old => (old.1, now)) fun _ => rfl
          : Registry }.emitTaskEvent task .progress
      else appended

def Registry.complete (s : Registry) (id : Text) (exitCode : Option ℤ) (now : ℤ) : Registry :=
  match s.get id with
  | none => s
  | some task =>
      (s.modify id (fun t =>
          { t with status := .completed, exitCode := exitCode, completedAt := some now })
        fun _ => rfl).emitTaskEvent task .completed

def Registry.fail (s : Registry) (id error : Text) (now : ℤ) : Registry :=
  match s.get id with
  | none => s
  | some task =>
      (s.modify id (fun t =>
          { t with status := .failed, error := some error, completedAt := some now })
        fun _ => rfl).emitTaskEvent task .failed

/-- The answer is whether there was anything to kill. -/
def Registry.kill (s : Registry) (id : Text) (now : ℤ) : Bool × Registry :=
  match s.get id with
  | none => (false, s)
  | some task =>
      if task.status ≠ .running ∧ task.status ≠ .pending then (false, s)
      else
        (true, (s.modify id (fun t =>
            { t with aborted := true, status := .killed, completedAt := some now })
          fun _ => rfl).emitTaskEvent task .killed)

/-! ## Polls and attachments -/

structure TaskOutput where
  id : Text
  status : TaskStatus
  exitCode : Option ℤ
  error : Option Text
  deltaOutput : Text
  deriving DecidableEq

/-- The task after a delta has been taken. -/
def BackgroundTask.reported (t : BackgroundTask) : BackgroundTask :=
  { t with outputOffset := t.output.length }

def Registry.getOutput (s : Registry) (id : Text) (full : Bool) :
    Option TaskOutput × Registry :=
  match s.get id with
  | none => (none, s)
  | some task =>
      (some ⟨task.id, task.status, task.exitCode, task.error,
          if full then task.output else task.delta⟩,
        if full then s else s.modify id BackgroundTask.reported fun _ => rfl)

/-- What one task has to say, and the task after it has said it. -/
def collectTask (task : BackgroundTask) : Option TaskAttachment × BackgroundTask :=
  if task.notifyPolicy = .silent then
    (none, { task.reported with notified := task.notified || task.status.isTerminal })
  else if task.status.isTerminal ∧ task.notified = false then
    (some
      { type := .taskStatus
        taskId := task.id
        taskType := task.type
        status := task.status
        description := task.description
        deltaOutput := if task.delta.length > 0 then some (truncateDelta task.delta) else none
        error := task.error },
      { task.reported with notified := true })
  else if task.notifyPolicy = .stateChanges ∧ task.status = .running ∧
      task.output.length > task.outputOffset ∧ task.delta.length > 100 then
    (some
      { type := .taskProgress
        taskId := task.id
        taskType := task.type
        status := .running
        description := task.description
        deltaOutput := some (truncateDelta task.delta)
        error := none },
      task.reported)
  else (none, task)

theorem collectTask_id (task : BackgroundTask) : (collectTask task).2.id = task.id := by
  rw [collectTask]
  split_ifs <;> rfl

/-- A task that has been reported and has ended long enough ago. -/
def BackgroundTask.prunable (now : ℤ) (t : BackgroundTask) : Bool :=
  t.notified && match t.completedAt with
    | none => false
    | some completedAt => completedAt ≠ 0 && now - completedAt > completedTtlMs

def Registry.collectAttachments (s : Registry) (now : ℤ) : List TaskAttachment × Registry :=
  (s.tasks.rows.filterMap fun t => (collectTask t).1,
    { s with
      tasks := (s.tasks.update (fun _ => true) (fun t => (collectTask t).2) collectTask_id).delete
        (BackgroundTask.prunable now) })

/-! ## Reading a task after an operation -/

section

variable {s : Registry} {id id' : Text}

theorem get_id {t : BackgroundTask} (h : s.get id = some t) : t.id = id :=
  (Table.get_eq_some_iff.mp h).2

theorem get_modify {f : BackgroundTask → BackgroundTask} (hf : ∀ t, (f t).id = t.id) :
    (s.modify id' f hf).get id = if id' = id then (s.get id).map f else s.get id := by
  rw [Registry.get, Registry.modify, Table.get_update]
  show ((s.get id).map fun t => if decide (t.id = id') then f t else t) = _
  cases ht : s.get id with
  | none => simp
  | some t =>
      have hid : t.id = id := (Table.get_eq_some_iff.mp ht).2
      by_cases hsame : id' = id
      · simp [hsame, hid]
      · simp [hsame, hid, Ne.symm hsame]

theorem get_appendOutput {chunk : Text} {now : ℤ} :
    (s.appendOutput id' chunk now).get id =
      if id' = id then
        (s.get id).map fun t => { t with output := appendBounded t.output chunk }
      else s.get id := by
  rw [Registry.appendOutput]
  split
  · next hnone =>
      split_ifs with hsame
      · rw [← hsame, hnone]
        rfl
      · rfl
  · have hmodified : (s.modify id' (fun t => { t with output := appendBounded t.output chunk })
        fun _ => rfl).get id = _ := get_modify _
    dsimp only
    split_ifs at hmodified ⊢ <;> exact hmodified

/-- A new task starts with nothing to report. -/
theorem get_create {toLowerCase : Text → Text} {type : TaskType} {description : Text} {now : ℤ}
    {t : BackgroundTask}
    (h : (s.create toLowerCase id' type description now).get id = some t) :
    if id = id' then
      t.output = [] ∧ t.outputOffset = 0 ∧
        t.notifyPolicy = s.policyForDescription toLowerCase description
    else s.get id = some t := by
  have hget : (s.create toLowerCase id' type description now).get id =
      if id = id' then _ else s.get id := Table.get_upsert id
  rw [hget] at h
  split_ifs at h ⊢
  · cases hold : s.tasks.get id' with
    | none =>
        simp only [hold, Option.map_none, Option.getD_none, Option.some.injEq] at h
        rw [← h]
        exact ⟨rfl, rfl, rfl⟩
    | some old =>
        simp only [hold, Option.map_some, Option.getD_some, Option.some.injEq] at h
        rw [← h]
        exact ⟨rfl, rfl, rfl⟩
  · exact h

theorem get_collectAttachments {now : ℤ} {t' : BackgroundTask}
    (h : (s.collectAttachments now).2.get id = some t') :
    ∃ t, s.get id = some t ∧ t' = (collectTask t).2 := by
  obtain ⟨hmem, hid⟩ := Table.get_eq_some_iff.mp h
  have hupdated : (s.tasks.update (fun _ => true) (fun t => (collectTask t).2) collectTask_id).get
      id = some t' := Table.get_eq_some_iff.mpr ⟨(List.mem_filter.mp hmem).1, hid⟩
  rw [Table.get_update] at hupdated
  obtain ⟨t, ht, rfl⟩ := Option.map_eq_some_iff.mp hupdated
  exact ⟨t, ht, rfl⟩

end

/-! ## Runs -/

inductive RegistryOp where
  | create (id : Text) (type : TaskType) (description : Text) (now : ℤ)
  | appendOutput (id chunk : Text) (now : ℤ)
  | complete (id : Text) (exitCode : Option ℤ) (now : ℤ)
  | fail (id error : Text) (now : ℤ)
  | kill (id : Text) (now : ℤ)
  | watch (id target : Text) (policy : TaskNotifyPolicy) (now : ℤ)
  | getOutput (id : Text) (full : Bool)
  | collectAttachments (now : ℤ)

/-- The registry after a call; a call that throws changes nothing. -/
def registryStep (toLowerCase : Text → Text) (s : Registry) : RegistryOp → Registry
  | .create id type description now => s.create toLowerCase id type description now
  | .appendOutput id chunk now => s.appendOutput id chunk now
  | .complete id exitCode now => s.complete id exitCode now
  | .fail id error now => s.fail id error now
  | .kill id now => (s.kill id now).2
  | .watch id target policy now =>
      match s.watch toLowerCase id target policy now with
      | .ok s' => s'
      | .error _ => s
  | .getOutput id full => (s.getOutput id full).2
  | .collectAttachments now => (s.collectAttachments now).2

end Shizuha.Tasks
