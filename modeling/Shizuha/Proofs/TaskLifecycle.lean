import Shizuha.Machine
import Shizuha.Tasks.Registry

/-!
# A task ends once

The registry run next to the list of all attachments it has handed out.
`TaskChange` says once what any call can do to one task: nothing that shows,
start it, end it, turn its notices back on, or report its end. The
lifecycle is read off it. Killing looks before it ends a task; `complete` and
`fail` do not, so the lifecycle holds as long as they are called on tasks
that are still going, and as long as no two tasks draw the same id.
-/

namespace Shizuha.Tasks

open Js Machine

structure TaskTrace where
  registry : Registry
  attachments : List TaskAttachment

def TaskTrace.start : TaskTrace := ⟨.empty, []⟩

def collected (s : Registry) : RegistryOp → List TaskAttachment
  | .collectAttachments now => (s.collectAttachments now).1
  | _ => []

def traceStep (toLowerCase : Text → Text) (τ : TaskTrace) (op : RegistryOp) : TaskTrace :=
  ⟨registryStep toLowerCase τ.registry op, τ.attachments ++ collected τ.registry op⟩

def TaskTrace.get (τ : TaskTrace) (id : Text) : Option BackgroundTask := τ.registry.get id

def TaskEventStatus.isTerminal (s : TaskEventStatus) : Bool :=
  s = .completed || s = .failed || s = .killed

/-- The events that announce the end of a task. -/
def TaskTrace.terminalEvents (τ : TaskTrace) (id : Text) : List BackgroundTaskEvent :=
  τ.registry.events.filter fun e => e.taskId = id && e.status.isTerminal

/-- The attachments that tell the model about the end of a task. -/
def TaskTrace.statusAttachments (τ : TaskTrace) (id : Text) : List TaskAttachment :=
  τ.attachments.filter fun a => a.taskId = id && a.type = .taskStatus

/-- What a task ended with. -/
def BackgroundTask.outcome (t : BackgroundTask) :
    TaskStatus × Option ℤ × Option Text × Option ℤ :=
  (t.status, t.exitCode, t.error, t.completedAt)

/-- `complete` and `fail` are called on tasks that are still going, and a new
task has an id no task had before. -/
def Orderly (τ : TaskTrace) : RegistryOp → Prop
  | .create id _ _ _ => ∀ e ∈ τ.registry.events, e.taskId ≠ id
  | .complete id _ _ => ∀ t, τ.get id = some t → t.status.isTerminal = false
  | .fail id _ _ => ∀ t, τ.get id = some t → t.status.isTerminal = false
  | _ => True

/-- A watch that turns the notices of a task back on. -/
def Watches (toLowerCase : Text → Text) (id : Text) (τ : TaskTrace) : RegistryOp → Prop
  | .watch _ target _ _ =>
      trim target ≠ [] ∧ id ∈ (τ.registry.matchingTasks toLowerCase (trim target)).map BackgroundTask.id
  | _ => False

/-! ## What one call does to one task -/

/-- Whatever is left of the task ended as it had, and its notice has not come
back. -/
def Unmoved (id : Text) (τ τ' : TaskTrace) : Prop :=
  ∀ t', τ'.get id = some t' → ∃ t, τ.get id = some t ∧ t'.outcome = t.outcome ∧
    (t'.notified = t.notified ∨ t'.notified = true)

inductive TaskChange (toLowerCase : Text → Text) (id : Text) (τ : TaskTrace) (op : RegistryOp)
    (τ' : TaskTrace) : Prop where
  | quiet (moved : Unmoved id τ τ') (events : τ'.terminalEvents id = τ.terminalEvents id)
      (attachments : τ'.statusAttachments id = τ.statusAttachments id)
  | watched (hmatch : Watches toLowerCase id τ op)
      (moved : ∀ t', τ'.get id = some t' → ∃ t, τ.get id = some t ∧ t'.outcome = t.outcome)
      (events : τ'.terminalEvents id = τ.terminalEvents id)
      (attachments : τ'.statusAttachments id = τ.statusAttachments id)
  | created (fresh : ∀ e ∈ τ.registry.events, e.taskId ≠ id)
      (running : ∀ t', τ'.get id = some t' → t'.status.isTerminal = false)
      (started : ∃ e ∈ τ'.registry.events, e.taskId = id)
      (events : τ'.terminalEvents id = τ.terminalEvents id)
      (attachments : τ'.statusAttachments id = τ.statusAttachments id)
  | ended (t t' : BackgroundTask) (before : τ.get id = some t)
      (going : t.status.isTerminal = false) (after : τ'.get id = some t')
      (terminal : t'.status.isTerminal = true)
      (events : ∃ e, τ'.terminalEvents id = τ.terminalEvents id ++ [e])
      (attachments : τ'.statusAttachments id = τ.statusAttachments id)
  | reported (t : BackgroundTask) (a : TaskAttachment) (before : τ.get id = some t)
      (terminal : t.status.isTerminal = true) (unnotified : t.notified = false)
      (after : ∀ t', τ'.get id = some t' → t'.outcome = t.outcome ∧ t'.notified = true)
      (events : τ'.terminalEvents id = τ.terminalEvents id) (final : a.status = t.status)
      (attachments : τ'.statusAttachments id = τ.statusAttachments id ++ [a])

variable {toLowerCase : Text → Text} {s : Registry} {τ τ' : TaskTrace} {id id' : Text}

/-- A call that touches one task at most, in a field other than those of its
end, and emits nothing terminal. -/
theorem quiet_of_modify (id' : Text) {op : RegistryOp} {f : BackgroundTask → BackgroundTask}
    (hf : ∀ t, (f t).id = t.id) (htasks : τ'.registry.tasks = (τ.registry.modify id' f hf).tasks)
    (houtcome : ∀ t, (f t).outcome = t.outcome) (hnotified : ∀ t, (f t).notified = t.notified)
    (hevents : τ'.terminalEvents id = τ.terminalEvents id)
    (hattachments : τ'.attachments = τ.attachments) :
    TaskChange toLowerCase id τ op τ' := by
  refine .quiet ?_ hevents (by rw [TaskTrace.statusAttachments, hattachments]; rfl)
  intro t' ht'
  have hget : τ'.get id = (τ.registry.modify id' f hf).get id := by
    rw [TaskTrace.get, Registry.get, htasks]
    rfl
  rw [hget, get_modify] at ht'
  split_ifs at ht' with hsame
  · obtain ⟨t, ht, rfl⟩ := Option.map_eq_some_iff.mp ht'
    exact ⟨t, ht, houtcome t, .inl (hnotified t)⟩
  · exact ⟨t', ht', rfl, .inl rfl⟩

theorem quiet_refl {op : RegistryOp} (h : τ'.registry = τ.registry)
    (hattachments : τ'.attachments = τ.attachments) : TaskChange toLowerCase id τ op τ' := by
  refine .quiet (fun t' ht' => ⟨t', ?_, rfl, .inl rfl⟩) ?_ ?_
  · rwa [TaskTrace.get, h] at ht'
  · rw [TaskTrace.terminalEvents, h]
    rfl
  · rw [TaskTrace.statusAttachments, hattachments]
    rfl

/-- A call that ends a task with an event. -/
theorem ended_of_modify {op : RegistryOp} {f : BackgroundTask → BackgroundTask}
    (hf : ∀ t, (f t).id = t.id) {task : BackgroundTask} {status : TaskEventStatus}
    (hget : τ.get id' = some task) (hgoing : task.status.isTerminal = false)
    (hregistry : τ'.registry = (τ.registry.modify id' f hf).emitTaskEvent task status)
    (hterminal : (f task).status.isTerminal = true) (hstatus : status.isTerminal = true)
    (hattachments : τ'.attachments = τ.attachments) :
    TaskChange toLowerCase id τ op τ' := by
  have hattached : τ'.statusAttachments id = τ.statusAttachments id := by
    rw [TaskTrace.statusAttachments, hattachments]
    rfl
  have hevents : τ'.registry.events = τ.registry.events ++ [⟨status, task.id, task.description⟩] := by
    rw [hregistry]
    rfl
  have hafter : τ'.get id = if id' = id then (τ.get id).map f else τ.get id := by
    rw [TaskTrace.get, hregistry]
    exact get_modify hf
  by_cases hsame : id' = id
  · subst hsame
    refine .ended task (f task) hget hgoing (by rw [hafter, if_pos rfl, hget]; rfl) hterminal
      ⟨⟨status, task.id, task.description⟩, ?_⟩ hattached
    rw [TaskTrace.terminalEvents, hevents, List.filter_append, TaskTrace.terminalEvents,
      List.filter_cons_of_pos (by simp [get_id hget, hstatus]), List.filter_nil]
  · rw [if_neg hsame] at hafter
    refine .quiet (fun t' ht' => ⟨t', hafter ▸ ht', rfl, .inl rfl⟩) ?_ hattached
    rw [TaskTrace.terminalEvents, hevents, List.filter_append, TaskTrace.terminalEvents,
      List.filter_cons_of_neg (by simp [get_id hget, hsame]), List.filter_nil, List.append_nil]

theorem taskChange_create {type : TaskType} {description : Text} {now : ℤ}
    (hfresh : ∀ e ∈ τ.registry.events, e.taskId ≠ id') :
    TaskChange toLowerCase id τ (.create id' type description now)
      (traceStep toLowerCase τ (.create id' type description now)) := by
  have hattached : (traceStep toLowerCase τ (.create id' type description now)).statusAttachments
      id = τ.statusAttachments id := by
    rw [TaskTrace.statusAttachments]
    exact congrArg (List.filter _) (List.append_nil τ.attachments)
  have hevents : (traceStep toLowerCase τ (.create id' type description now)).terminalEvents id =
      τ.terminalEvents id := by
    rw [TaskTrace.terminalEvents, traceStep]
    show List.filter _ (τ.registry.events ++ [_]) = _
    rw [List.filter_append, List.filter_cons_of_neg (by simp [TaskEventStatus.isTerminal]),
      List.filter_nil, List.append_nil]
    rfl
  have hget : (traceStep toLowerCase τ (.create id' type description now)).get id =
      if id = id' then _ else τ.get id := Table.get_upsert id
  by_cases hsame : id = id'
  · subst hsame
    rw [if_pos rfl] at hget
    refine .created hfresh (fun t' ht' => ?_)
      ⟨⟨.started, id, description⟩, List.mem_append_right _ (List.mem_singleton.mpr rfl), rfl⟩
      hevents hattached
    rw [hget] at ht'
    cases hold : (τ.registry.tasks.get id) with
    | none =>
        simp only [hold, Option.map_none, Option.getD_none, Option.some.injEq] at ht'
        rw [← ht']
        rfl
    | some old =>
        simp only [hold, Option.map_some, Option.getD_some, Option.some.injEq] at ht'
        rw [← ht']
        rfl
  · rw [if_neg hsame] at hget
    exact .quiet (fun t' ht' => ⟨t', hget ▸ ht', rfl, .inl rfl⟩) hevents hattached

theorem taskChange_appendOutput {chunk : Text} {now : ℤ} :
    TaskChange toLowerCase id τ (.appendOutput id' chunk now)
      (traceStep toLowerCase τ (.appendOutput id' chunk now)) := by
  have hattached : (traceStep toLowerCase τ (.appendOutput id' chunk now)).attachments =
      τ.attachments := List.append_nil _
  cases htask : τ.registry.get id' with
  | none =>
      refine quiet_refl ?_ hattached
      show τ.registry.appendOutput id' chunk now = _
      rw [Registry.appendOutput, htask]
  | some task =>
      have hregistry : (traceStep toLowerCase τ (.appendOutput id' chunk now)).registry =
          τ.registry.appendOutput id' chunk now := rfl
      rw [Registry.appendOutput, htask] at hregistry
      refine quiet_of_modify id'
        (f := fun t => { t with output := appendBounded t.output chunk }) (fun _ => rfl)
        ?_ (fun _ => rfl) (fun _ => rfl) ?_ hattached
      · rw [hregistry]
        dsimp only
        split_ifs <;> rfl
      · rw [TaskTrace.terminalEvents, hregistry]
        dsimp only
        split_ifs
        · show List.filter _ (τ.registry.events ++ [_]) = _
          rw [List.filter_append, List.filter_cons_of_neg (by simp [TaskEventStatus.isTerminal]),
            List.filter_nil, List.append_nil]
          rfl
        · rfl

theorem taskChange_complete {exitCode : Option ℤ} {now : ℤ}
    (hgoing : ∀ t, τ.get id' = some t → t.status.isTerminal = false) :
    TaskChange toLowerCase id τ (.complete id' exitCode now)
      (traceStep toLowerCase τ (.complete id' exitCode now)) := by
  have hattached : (traceStep toLowerCase τ (.complete id' exitCode now)).attachments =
      τ.attachments := List.append_nil _
  have hregistry : (traceStep toLowerCase τ (.complete id' exitCode now)).registry =
      τ.registry.complete id' exitCode now := rfl
  cases htask : τ.registry.get id' with
  | none =>
      rw [Registry.complete, htask] at hregistry
      exact quiet_refl hregistry hattached
  | some task =>
      rw [Registry.complete, htask] at hregistry
      exact ended_of_modify (by exact fun _ => rfl) htask (hgoing task htask) hregistry rfl rfl hattached

theorem taskChange_fail {error : Text} {now : ℤ}
    (hgoing : ∀ t, τ.get id' = some t → t.status.isTerminal = false) :
    TaskChange toLowerCase id τ (.fail id' error now)
      (traceStep toLowerCase τ (.fail id' error now)) := by
  have hattached : (traceStep toLowerCase τ (.fail id' error now)).attachments =
      τ.attachments := List.append_nil _
  have hregistry : (traceStep toLowerCase τ (.fail id' error now)).registry =
      τ.registry.fail id' error now := rfl
  cases htask : τ.registry.get id' with
  | none =>
      rw [Registry.fail, htask] at hregistry
      exact quiet_refl hregistry hattached
  | some task =>
      rw [Registry.fail, htask] at hregistry
      exact ended_of_modify (by exact fun _ => rfl) htask (hgoing task htask) hregistry rfl rfl hattached

/-- Killing looks first, so it needs no promise. -/
theorem taskChange_kill {now : ℤ} :
    TaskChange toLowerCase id τ (.kill id' now) (traceStep toLowerCase τ (.kill id' now)) := by
  have hattached : (traceStep toLowerCase τ (.kill id' now)).attachments = τ.attachments :=
    List.append_nil _
  have hregistry : (traceStep toLowerCase τ (.kill id' now)).registry =
      (τ.registry.kill id' now).2 := rfl
  cases htask : τ.registry.get id' with
  | none =>
      rw [Registry.kill, htask] at hregistry
      exact quiet_refl hregistry hattached
  | some task =>
      rw [Registry.kill, htask] at hregistry
      by_cases hover : task.status ≠ .running ∧ task.status ≠ .pending
      · simp only [if_pos hover] at hregistry
        exact quiet_refl hregistry hattached
      · simp only [if_neg hover] at hregistry
        have hgoing : task.status.isTerminal = false := by
          cases hstatus : task.status with
          | pending => rfl
          | running => rfl
          | completed | failed | killed => exact absurd ⟨by simp [hstatus], by simp [hstatus]⟩ hover
        exact ended_of_modify (by exact fun _ => rfl) htask hgoing hregistry rfl rfl hattached

theorem taskChange_watch {target : Text} {policy : TaskNotifyPolicy} {now : ℤ} :
    TaskChange toLowerCase id τ (.watch id' target policy now)
      (traceStep toLowerCase τ (.watch id' target policy now)) := by
  have hattached : (traceStep toLowerCase τ (.watch id' target policy now)).attachments =
      τ.attachments := List.append_nil _
  cases hwatch : τ.registry.watch toLowerCase id' target policy now with
  | error e =>
      refine quiet_refl ?_ hattached
      rw [traceStep, registryStep, hwatch]
  | ok s' =>
      have hregistry : (traceStep toLowerCase τ (.watch id' target policy now)).registry = s' := by
        rw [traceStep, registryStep, hwatch]
      have hstatus : (traceStep toLowerCase τ (.watch id' target policy now)).statusAttachments
          id = τ.statusAttachments id := by
        rw [TaskTrace.statusAttachments, hattached]
        rfl
      rw [Registry.watch] at hwatch
      dsimp only at hwatch
      split at hwatch
      · cases hwatch
      · next hblank =>
        cases hwatch
        have hevents : (traceStep toLowerCase τ (.watch id' target policy now)).terminalEvents id =
            τ.terminalEvents id := by
          rw [TaskTrace.terminalEvents, hregistry]
          rfl
        have hget : (traceStep toLowerCase τ (.watch id' target policy now)).get id =
            (τ.get id).map fun t =>
              if t.id ∈ (τ.registry.matchingTasks toLowerCase (trim target)).map BackgroundTask.id
              then { t with notifyPolicy := policy, notified := false } else t := by
          rw [TaskTrace.get, hregistry, Registry.get]
          simp only [Table.get_update, decide_eq_true_eq]
          rfl
        by_cases hmatch : id ∈
            (τ.registry.matchingTasks toLowerCase (trim target)).map BackgroundTask.id
        · refine .watched ⟨hblank, hmatch⟩ (fun t' ht' => ?_) hevents hstatus
          obtain ⟨t, ht, rfl⟩ := Option.map_eq_some_iff.mp (hget ▸ ht')
          refine ⟨t, ht, ?_⟩
          split_ifs <;> rfl
        · refine .quiet (fun t' ht' => ?_) hevents hstatus
          obtain ⟨t, ht, rfl⟩ := Option.map_eq_some_iff.mp (hget ▸ ht')
          rw [if_neg (by rw [get_id ht]; exact hmatch)]
          exact ⟨t, ht, rfl, .inl rfl⟩

theorem taskChange_getOutput {full : Bool} :
    TaskChange toLowerCase id τ (.getOutput id' full)
      (traceStep toLowerCase τ (.getOutput id' full)) := by
  have hattached : (traceStep toLowerCase τ (.getOutput id' full)).attachments = τ.attachments :=
    List.append_nil _
  have hregistry : (traceStep toLowerCase τ (.getOutput id' full)).registry =
      (τ.registry.getOutput id' full).2 := rfl
  cases htask : τ.registry.get id' with
  | none =>
      rw [Registry.getOutput, htask] at hregistry
      exact quiet_refl hregistry hattached
  | some task =>
      rw [Registry.getOutput, htask] at hregistry
      cases full with
      | true => exact quiet_refl hregistry hattached
      | false =>
          refine quiet_of_modify id' (f := BackgroundTask.reported) (fun _ => rfl)
            (congrArg Registry.tasks hregistry) (fun _ => rfl) (fun _ => rfl) ?_ hattached
          rw [TaskTrace.terminalEvents, hregistry]
          rfl

/-! ### Collecting -/

theorem collectTask_outcome (t : BackgroundTask) : (collectTask t).2.outcome = t.outcome := by
  rw [collectTask]
  split_ifs <;> rfl

theorem collectTask_taskId {t : BackgroundTask} {a : TaskAttachment}
    (h : (collectTask t).1 = some a) : a.taskId = t.id := by
  rw [collectTask] at h
  split_ifs at h <;> cases h <;> rfl

/-- Only a task that has ended and has not said so says so. -/
theorem collectTask_status {t : BackgroundTask} {a : TaskAttachment}
    (h : (collectTask t).1 = some a) (htype : a.type = .taskStatus) :
    t.status.isTerminal = true ∧ t.notified = false ∧ a.status = t.status ∧
      (collectTask t).2.notified = true := by
  rw [collectTask] at h ⊢
  by_cases hsilent : t.notifyPolicy = .silent
  · rw [if_pos hsilent] at h
    cases h
  · rw [if_neg hsilent] at h ⊢
    by_cases hterminal : t.status.isTerminal ∧ t.notified = false
    · rw [if_pos hterminal] at h ⊢
      cases h
      exact ⟨hterminal.1, hterminal.2, rfl, rfl⟩
    · rw [if_neg hterminal] at h
      split at h
      · cases h
        cases htype
      · cases h

theorem collectTask_notified (t : BackgroundTask) :
    (collectTask t).2.notified = t.notified ∨ (collectTask t).2.notified = true := by
  rw [collectTask]
  by_cases hsilent : t.notifyPolicy = .silent
  · rw [if_pos hsilent]
    show (t.notified || t.status.isTerminal) = _ ∨ (t.notified || t.status.isTerminal) = _
    cases t.notified with
    | true => exact .inr rfl
    | false => cases t.status.isTerminal <;> simp
  · rw [if_neg hsilent]
    by_cases hterminal : t.status.isTerminal ∧ t.notified = false
    · rw [if_pos hterminal]
      exact .inr rfl
    · rw [if_neg hterminal]
      split <;> exact .inl rfl

theorem statusAttachments_collect {now : ℤ} :
    (traceStep toLowerCase τ (.collectAttachments now)).statusAttachments id =
      τ.statusAttachments id ++
        (((τ.get id).bind fun t => (collectTask t).1).toList.filter fun a =>
          a.type = .taskStatus) := by
  have htagged := Table.filterMap_filter τ.registry.tasks (fun t => (collectTask t).1)
    TaskAttachment.taskId (fun _ _ => collectTask_taskId) id
  show List.filter _ (τ.attachments ++ (τ.registry.collectAttachments now).1) = _
  rw [List.filter_append, TaskTrace.statusAttachments, TaskTrace.get, Registry.get, ← htagged,
    List.filter_filter]
  refine congrArg (_ ++ ·) (List.filter_congr fun a _ => ?_)
  rw [Bool.and_comm]

theorem taskChange_collectAttachments {now : ℤ} :
    TaskChange toLowerCase id τ (.collectAttachments now)
      (traceStep toLowerCase τ (.collectAttachments now)) := by
  have hevents : (traceStep toLowerCase τ (.collectAttachments now)).terminalEvents id =
      τ.terminalEvents id := rfl
  have hattached := @statusAttachments_collect toLowerCase τ id now
  have hafter : ∀ t', (traceStep toLowerCase τ (.collectAttachments now)).get id = some t' →
      ∃ t, τ.get id = some t ∧ t' = (collectTask t).2 := fun _ ht' => get_collectAttachments ht'
  have hmoved : Unmoved id τ (traceStep toLowerCase τ (.collectAttachments now)) := by
    intro t' ht'
    obtain ⟨t, ht, rfl⟩ := hafter t' ht'
    exact ⟨t, ht, collectTask_outcome t, collectTask_notified t⟩
  cases ht : τ.get id with
  | none =>
      rw [ht] at hattached
      exact .quiet hmoved hevents (hattached.trans (List.append_nil _))
  | some t =>
      rw [ht, Option.bind_some] at hattached
      cases ha : (collectTask t).1 with
      | none =>
          rw [ha] at hattached
          exact .quiet hmoved hevents (hattached.trans (List.append_nil _))
      | some a =>
          rw [ha] at hattached
          by_cases htype : a.type = .taskStatus
          · obtain ⟨hterminal, hunnotified, hfinal, hnotified⟩ := collectTask_status ha htype
            refine .reported t a ht hterminal hunnotified (fun t' ht' => ?_) hevents hfinal
              (hattached.trans ?_)
            · obtain ⟨t₁, ht₁, rfl⟩ := hafter t' ht'
              obtain rfl := Option.some.inj (ht.symm.trans ht₁)
              exact ⟨collectTask_outcome t, hnotified⟩
            · simp [htype]
          · refine .quiet hmoved hevents (hattached.trans ?_)
            simp [htype]

/-- What any call does to any task. -/
theorem taskChange_step (op : RegistryOp) (horderly : Orderly τ op) :
    TaskChange toLowerCase id τ op (traceStep toLowerCase τ op) := by
  cases op with
  | create => exact taskChange_create horderly
  | appendOutput => exact taskChange_appendOutput
  | complete => exact taskChange_complete horderly
  | fail => exact taskChange_fail horderly
  | kill => exact taskChange_kill
  | watch => exact taskChange_watch
  | getOutput => exact taskChange_getOutput
  | collectAttachments => exact taskChange_collectAttachments

/-! ## Runs -/

/-- Events are never taken back. -/
theorem events_grow (op : RegistryOp) :
    τ.registry.events <+: (traceStep toLowerCase τ op).registry.events := by
  show _ <+: (registryStep toLowerCase τ.registry op).events
  cases op with
  | create => exact List.prefix_append _ _
  | appendOutput id chunk now =>
      show _ <+: (τ.registry.appendOutput id chunk now).events
      rw [Registry.appendOutput]
      split
      · exact List.prefix_rfl
      · dsimp only
        split_ifs
        · exact List.prefix_append _ _
        · exact List.prefix_rfl
  | complete id exitCode now =>
      show _ <+: (τ.registry.complete id exitCode now).events
      rw [Registry.complete]
      split
      · exact List.prefix_rfl
      · exact List.prefix_append _ _
  | fail id error now =>
      show _ <+: (τ.registry.fail id error now).events
      rw [Registry.fail]
      split
      · exact List.prefix_rfl
      · exact List.prefix_append _ _
  | kill id now =>
      show _ <+: (τ.registry.kill id now).2.events
      rw [Registry.kill]
      split
      · exact List.prefix_rfl
      · split_ifs
        · exact List.prefix_rfl
        · exact List.prefix_append _ _
  | watch id target policy now =>
      rw [registryStep]
      split
      · next s' hwatch =>
          rw [Registry.watch] at hwatch
          dsimp only at hwatch
          split at hwatch
          · cases hwatch
          · cases hwatch
            exact List.prefix_rfl
      · exact List.prefix_rfl
  | getOutput id full =>
      show _ <+: (τ.registry.getOutput id full).2.events
      rw [Registry.getOutput]
      split
      · exact List.prefix_rfl
      · cases full <;> exact List.prefix_rfl
  | collectAttachments => exact List.prefix_rfl

/-- Before the end of a task: nothing has been said of it, and what is known
of its id has been announced. -/
structure Announced (id : Text) (τ : TaskTrace) : Prop where
  started : ∀ t, τ.get id = some t → ∃ e ∈ τ.registry.events, e.taskId = id
  unused : (∀ e ∈ τ.registry.events, e.taskId ≠ id) → τ.statusAttachments id = []
  going : ∀ t, τ.get id = some t → t.status.isTerminal = false →
    τ.terminalEvents id = [] ∧ τ.statusAttachments id = []

theorem outcome_terminal {t t' : BackgroundTask} (h : t'.outcome = t.outcome) :
    t'.status.isTerminal = t.status.isTerminal := congrArg (fun o => o.1.isTerminal) h

theorem announced_start (id : Text) : Announced id .start :=
  ⟨fun _ h => (by cases h), fun _ => rfl, fun _ h => (by cases h)⟩

theorem announced_step {op : RegistryOp} (h : Announced id τ) (horderly : Orderly τ op) :
    Announced id (traceStep toLowerCase τ op) := by
  have hkept : (∃ e ∈ τ.registry.events, e.taskId = id) →
      ∃ e ∈ (traceStep toLowerCase τ op).registry.events, e.taskId = id :=
    fun ⟨e, he, hid⟩ => ⟨e, (events_grow op).subset he, hid⟩
  have hunused : (∀ e ∈ (traceStep toLowerCase τ op).registry.events, e.taskId ≠ id) →
      ∀ e ∈ τ.registry.events, e.taskId ≠ id := fun hnone e he =>
    hnone e ((events_grow op).subset he)
  cases @taskChange_step toLowerCase _ id op horderly with
  | quiet hmoved hevents hattached =>
      refine ⟨fun t' ht' => ?_, fun hnone => hattached.trans (h.unused (hunused hnone)),
        fun t' ht' hgoing => ?_⟩
      · obtain ⟨t, ht, -⟩ := hmoved t' ht'
        exact hkept (h.started t ht)
      · obtain ⟨t, ht, houtcome, -⟩ := hmoved t' ht'
        rw [hevents, hattached]
        exact h.going t ht ((outcome_terminal houtcome).symm.trans hgoing)
  | watched hmatch hmoved hevents hattached =>
      refine ⟨fun t' ht' => ?_, fun hnone => hattached.trans (h.unused (hunused hnone)),
        fun t' ht' hgoing => ?_⟩
      · obtain ⟨t, ht, -⟩ := hmoved t' ht'
        exact hkept (h.started t ht)
      · obtain ⟨t, ht, houtcome⟩ := hmoved t' ht'
        rw [hevents, hattached]
        exact h.going t ht ((outcome_terminal houtcome).symm.trans hgoing)
  | created hfresh hrunning hstarted hevents hattached =>
      refine ⟨fun _ _ => hstarted, fun hnone => hattached.trans (h.unused (hunused hnone)),
        fun _ _ _ => ⟨hevents.trans ?_, hattached.trans (h.unused hfresh)⟩⟩
      exact List.filter_eq_nil_iff.mpr fun e he => by simp [hfresh e he]
  | ended t t' hbefore hgoing hafter hterminal hevents hattached =>
      refine ⟨fun _ _ => hkept (h.started t hbefore),
        fun hnone => hattached.trans (h.unused (hunused hnone)), fun t₁ ht₁ hgoing₁ => ?_⟩
      obtain rfl := Option.some.inj (hafter.symm.trans ht₁)
      rw [hterminal] at hgoing₁
      cases hgoing₁
  | reported t a hbefore hterminal hunnotified hafter hevents hfinal hattached =>
      obtain ⟨e, he, hid⟩ := h.started t hbefore
      refine ⟨fun _ _ => hkept ⟨e, he, hid⟩, fun hnone => absurd hid (hunused hnone e he),
        fun t' ht' hgoing => ?_⟩
      rw [outcome_terminal (hafter t' ht').1, hterminal] at hgoing
      cases hgoing

/-- After the end of a task: it stays as it ended, with one event. -/
structure Ended (id : Text) (t : BackgroundTask) (τ : TaskTrace) : Prop where
  outcome : ∀ t', τ.get id = some t' → t'.outcome = t.outcome
  once : (τ.terminalEvents id).length = 1

/-- The id of a task that has ended has been announced, so it is not drawn
again. -/
theorem Ended.announced {t : BackgroundTask} (h : Ended id t τ) :
    ∃ e ∈ τ.registry.events, e.taskId = id := by
  obtain ⟨e, he⟩ := List.exists_mem_of_length_pos (by rw [h.once]; exact Nat.one_pos)
  obtain ⟨hmem, hid⟩ := List.mem_filter.mp he
  exact ⟨e, hmem, of_decide_eq_true (Bool.and_elim_left hid)⟩

theorem ended_step {op : RegistryOp} {t : BackgroundTask} (hterminal : t.status.isTerminal = true)
    (h : Ended id t τ) (horderly : Orderly τ op) : Ended id t (traceStep toLowerCase τ op) := by
  cases @taskChange_step toLowerCase _ id op horderly with
  | quiet hmoved hevents hattached =>
      refine ⟨fun t' ht' => ?_, by rw [hevents]; exact h.once⟩
      obtain ⟨t₁, ht₁, houtcome, -⟩ := hmoved t' ht'
      exact houtcome.trans (h.outcome t₁ ht₁)
  | watched hmatch hmoved hevents hattached =>
      refine ⟨fun t' ht' => ?_, by rw [hevents]; exact h.once⟩
      obtain ⟨t₁, ht₁, houtcome⟩ := hmoved t' ht'
      exact houtcome.trans (h.outcome t₁ ht₁)
  | created hfresh hrunning hstarted hevents hattached =>
      obtain ⟨e, hmem, hid⟩ := h.announced
      exact absurd hid (hfresh e hmem)
  | ended t₁ t' hbefore hgoing hafter hterminal' hevents hattached =>
      rw [outcome_terminal (h.outcome t₁ hbefore), hterminal] at hgoing
      cases hgoing
  | reported t₁ a hbefore hterminal' hunnotified hafter hevents hfinal hattached =>
      refine ⟨fun t' ht' => ?_, by rw [hevents]; exact h.once⟩
      exact (hafter t' ht').1.trans (h.outcome t₁ hbefore)

/-- The end of a task has not been reported, or has been, once and for good. -/
def ReportedOnce (id : Text) (t : BackgroundTask) (τ : TaskTrace) : Prop :=
  τ.statusAttachments id = [] ∨
    ∃ a, τ.statusAttachments id = [a] ∧ a.status = t.status ∧
      ∀ t', τ.get id = some t' → t'.notified = true

theorem reportedOnce_step {op : RegistryOp} {t : BackgroundTask}
    (hterminal : t.status.isTerminal = true) (hended : Ended id t τ) (h : ReportedOnce id t τ)
    (horderly : Orderly τ op) (hwatch : ¬ Watches toLowerCase id τ op) :
    ReportedOnce id t (traceStep toLowerCase τ op) := by
  cases @taskChange_step toLowerCase _ id op horderly with
  | quiet hmoved hevents hattached =>
      rcases h with hnone | ⟨a, ha, hfinal, hnotified⟩
      · exact .inl (hattached.trans hnone)
      · refine .inr ⟨a, hattached.trans ha, hfinal, fun t' ht' => ?_⟩
        obtain ⟨t₁, ht₁, -, hsame | htrue⟩ := hmoved t' ht'
        · exact hsame.trans (hnotified t₁ ht₁)
        · exact htrue
  | watched hmatch => exact absurd hmatch hwatch
  | created hfresh hrunning hstarted hevents hattached =>
      obtain ⟨e, hmem, hid⟩ := hended.announced
      exact absurd hid (hfresh e hmem)
  | ended t₁ t' hbefore hgoing hafter hterminal' hevents hattached =>
      rw [outcome_terminal (hended.outcome t₁ hbefore), hterminal] at hgoing
      cases hgoing
  | reported t₁ a hbefore hterminal' hunnotified hafter hevents hfinal hattached =>
      rcases h with hnone | ⟨a₁, ha₁, -, hnotified⟩
      · refine .inr ⟨a, by rw [hattached, hnone, List.nil_append], ?_,
          fun t' ht' => (hafter t' ht').2⟩
        exact hfinal.trans (congrArg Prod.fst (hended.outcome t₁ hbefore))
      · rw [hnotified t₁ hbefore] at hunnotified
        cases hunnotified

/-- The end of a task is final: from the call that ends it on, whatever is
called, its outcome stays, one event announces it, and, as long as no watch
turns its notices back on, at most one attachment reports it. -/
theorem task_ends_once (ops₁ ops₂ : List RegistryOp) (op : RegistryOp) {t₀ t : BackgroundTask}
    (horderly : Along (traceStep toLowerCase) Orderly .start (ops₁ ++ op :: ops₂))
    (hbefore : (run (traceStep toLowerCase) .start ops₁).get id = some t₀)
    (hgoing : t₀.status.isTerminal = false)
    (hafter : (run (traceStep toLowerCase) .start (ops₁ ++ [op])).get id = some t)
    (hterminal : t.status.isTerminal = true) :
    let τ := run (traceStep toLowerCase) .start (ops₁ ++ op :: ops₂)
    (∀ t', τ.get id = some t' → t'.outcome = t.outcome) ∧
      (τ.terminalEvents id).length = 1 ∧
      (Along (traceStep toLowerCase) (fun τ op => ¬ Watches toLowerCase id τ op)
          (run (traceStep toLowerCase) .start (ops₁ ++ [op])) ops₂ →
        (τ.statusAttachments id).length ≤ 1 ∧
          ∀ a ∈ τ.statusAttachments id, a.status = t.status) := by
  intro τ
  obtain ⟨horderly₁, horderly_op, horderly₂⟩ := (along_append _ _ _).mp horderly
  have hannounced : Announced id (run (traceStep toLowerCase) .start ops₁) :=
    run_invariant (fun _ _ => announced_step) (announced_start id) horderly₁
  have hstep : run (traceStep toLowerCase) .start (ops₁ ++ [op]) =
      traceStep toLowerCase (run (traceStep toLowerCase) .start ops₁) op := by
    rw [run_append]
    rfl
  have hτ : τ = run (traceStep toLowerCase)
      (traceStep toLowerCase (run (traceStep toLowerCase) .start ops₁) op) ops₂ := run_append _ _ _
  rw [hstep] at hafter ⊢
  obtain ⟨hunannounced, hunreported⟩ := hannounced.going t₀ hbefore hgoing
  -- the call that ends the task announces it and leaves the report to be made
  have hend : Ended id t (traceStep toLowerCase (run (traceStep toLowerCase) .start ops₁) op) ∧
      (traceStep toLowerCase (run (traceStep toLowerCase) .start ops₁) op).statusAttachments id =
        [] := by
    have houtcome : ∀ t', (traceStep toLowerCase (run (traceStep toLowerCase) .start ops₁) op).get
        id = some t' → t'.outcome = t.outcome := fun t' ht' => by
      rw [Option.some.inj (ht'.symm.trans hafter)]
    have hstill : ∀ {t₁ : BackgroundTask}, (run (traceStep toLowerCase) .start ops₁).get id =
        some t₁ → t.outcome = t₁.outcome → False := fun ht₁ h => by
      have := outcome_terminal h
      rw [Option.some.inj (ht₁.symm.trans hbefore), hgoing, hterminal] at this
      cases this
    cases @taskChange_step toLowerCase _ id op horderly_op with
    | quiet hmoved =>
        obtain ⟨t₁, ht₁, h, -⟩ := hmoved t hafter
        exact (hstill ht₁ h).elim
    | watched hmatch hmoved =>
        obtain ⟨t₁, ht₁, h⟩ := hmoved t hafter
        exact (hstill ht₁ h).elim
    | created hfresh hrunning =>
        rw [hrunning t hafter] at hterminal
        cases hterminal
    | reported t₁ a ht₁ hterminal₁ =>
        rw [Option.some.inj (ht₁.symm.trans hbefore), hgoing] at hterminal₁
        cases hterminal₁
    | ended t₁ t' hbefore' hgoing' hafter' hterminal' hevents hattached =>
        obtain ⟨e, he⟩ := hevents
        exact ⟨⟨houtcome, by rw [he, hunannounced]; rfl⟩, hattached.trans hunreported⟩
  have hended : Ended id t τ := by
    rw [hτ]
    exact run_invariant (fun _ _ h horderly => ended_step hterminal h horderly) hend.1 horderly₂
  refine ⟨hended.outcome, hended.once, fun hwatches => ?_⟩
  have hreported : ReportedOnce id t τ := by
    rw [hτ]
    have hstep : ∀ τ op, Ended id t τ ∧ ReportedOnce id t τ →
        Orderly τ op ∧ ¬ Watches toLowerCase id τ op →
        Ended id t (traceStep toLowerCase τ op) ∧
          ReportedOnce id t (traceStep toLowerCase τ op) := fun _ _ h hC =>
      ⟨ended_step hterminal h.1 hC.1, reportedOnce_step hterminal h.1 h.2 hC.1 hC.2⟩
    exact (run_invariant hstep ⟨hend.1, .inl hend.2⟩ (horderly₂.and hwatches)).2
  rcases hreported with hnone | ⟨a, ha, hfinal, -⟩
  · rw [hnone]
    exact ⟨Nat.zero_le _, fun a ha => (List.not_mem_nil ha).elim⟩
  · rw [ha]
    refine ⟨Nat.le_refl _, fun a' ha' => ?_⟩
    rw [List.mem_singleton.mp ha']
    exact hfinal

/-! ## The task that ends twice

A command that is killed, and whose timeout fires before it has gone. -/

def killedCommand : List RegistryOp :=
  [.create (js "task-1") .bash (js "make") 0, .kill (js "task-1") 5]

def runningCommand : BackgroundTask :=
  { id := js "task-1", type := .bash, description := js "make", status := .running, output := []
    error := none, exitCode := none, createdAt := 0, completedAt := none, outputOffset := 0
    notified := false, notifyPolicy := .stateChanges, aborted := false }

theorem task_ends_once_killed :
    let τ := run (traceStep fun text => text) .start
      (killedCommand ++ [.collectAttachments 6, .collectAttachments 7])
    (∀ t', τ.get (js "task-1") = some t' →
        t'.outcome = (TaskStatus.killed, none, none, some 5)) ∧
      (τ.terminalEvents (js "task-1")).length = 1 ∧
      (τ.statusAttachments (js "task-1")).length ≤ 1 := by
  have horderly : Along (traceStep fun text => text) Orderly .start
      (killedCommand ++ [.collectAttachments 6, .collectAttachments 7]) :=
    ⟨fun _ he => (List.not_mem_nil he).elim, trivial, trivial, trivial, trivial⟩
  have hbefore : (run (traceStep fun text => text) .start
      [.create (js "task-1") .bash (js "make") 0]).get (js "task-1") = some runningCommand := rfl
  have hafter : (run (traceStep fun text => text) .start killedCommand).get (js "task-1") =
      some { runningCommand with aborted := true, status := .killed, completedAt := some 5 } := rfl
  have hlifecycle := task_ends_once [.create (js "task-1") .bash (js "make") 0]
    [.collectAttachments 6, .collectAttachments 7] (.kill (js "task-1") 5) horderly
    hbefore rfl hafter rfl
  exact ⟨hlifecycle.1, hlifecycle.2.1, (hlifecycle.2.2 ⟨not_false, not_false, trivial⟩).1⟩

theorem task_ends_twice :
    ((run (traceStep fun text => text) .start killedCommand).get (js "task-1")).map
        BackgroundTask.status = some .killed ∧
      let τ := run (traceStep fun text => text) .start
        (killedCommand ++ [.fail (js "task-1") (js "Timed out after 5s") 5])
      (τ.get (js "task-1")).map BackgroundTask.status = some .failed ∧
        (τ.terminalEvents (js "task-1")).length = 2 :=
  ⟨rfl, rfl, rfl⟩

end Shizuha.Tasks
