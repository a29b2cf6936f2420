import Shizuha.Machine
import Shizuha.Pulse.LocalStore

/-!
# Local changes that reach the platform

A task that changes is flagged, `getDirtyTasks` lists the flagged ones, and
`markSynced` takes the flag away when the platform has what was listed. Beside
the store the runs here keep what is owed: for each task the time of its last
change that no `markSynced` has settled, where one settles the changes made
before the snapshot it belongs to.

A call either flags every row it changes or writes a row and leaves the flag as
it was. `Marks` is the first kind and needs no condition. A call of the second
kind is safe on a row that is flagged already or that it does not change, and a
`markSynced` is safe when nothing has changed since its snapshot. The runs in
which every task that is owed is listed are exactly those of such calls.
-/

namespace Shizuha.Pulse

open Js Machine LocalPulseStore

/-! ## What is synced -/

/-- The columns the platform mirrors. -/
structure SyncedFields where
  status : Text
  title : Text
  description : Text
  priority : Text
  assignee : Option Text
  labels : List Text
  dueDate : Option Text
  startDate : Option Text
  completedAt : Option Text
  isRecurring : Bool
  schedule : Option Text
  nextRunAt : Option Text
  workflow : Option Text
  workflowStatus : Option Text
  deriving DecidableEq

def LocalTask.fields (t : LocalTask) : SyncedFields :=
  ⟨t.status, t.title, t.description, t.priority, t.assignee, t.labels, t.dueDate, t.startDate,
    t.completedAt, t.isRecurring, t.schedule, t.nextRunAt, t.workflow, t.workflowStatus⟩

/-- A task as the platform is to see it, with its comments. -/
def LocalPulseStore.synced (s : LocalPulseStore) (id : Text) :
    Option (SyncedFields × List LocalComment) :=
  (s.tasks.get id).map fun t => (t.fields, s.comments.rows.filter fun c => c.taskId = id)

/-! ## Runs with an account -/

structure Snapshot where
  taken : ℕ
  ids : List Text

structure SyncWorld where
  store : LocalPulseStore
  time : ℕ
  /-- The time of the last change of a task that is not settled. -/
  owed : Text → Option ℕ
  snapshots : List Snapshot

/-- A call, and for a `markSynced` the snapshot it belongs to. -/
structure SyncCall where
  op : PulseOp
  snapshot : ℕ

namespace SyncWorld

/-- Whether a snapshot listed the task after all of its changes. -/
def Settles (w : SyncWorld) (snapshot : ℕ) (taskId : Text) : Prop :=
  ∃ snap ∈ w.snapshots[snapshot]?, taskId ∈ snap.ids ∧ ∀ change ∈ w.owed taskId, change < snap.taken

instance (w : SyncWorld) (snapshot : ℕ) (taskId : Text) : Decidable (w.Settles snapshot taskId) :=
  inferInstanceAs (Decidable (∃ snap ∈ w.snapshots[snapshot]?, _))

def owedAfter (env : PulseEnv) (w : SyncWorld) (c : SyncCall) (id : Text) : Option ℕ :=
  if (w.store.step env c.op).synced id ≠ w.store.synced id then some w.time
  else
    match c.op with
    | .markSynced taskId _ _ _ =>
        if id = taskId ∧ w.Settles c.snapshot taskId then none else w.owed id
    | _ => w.owed id

def step (env : PulseEnv) (w : SyncWorld) (c : SyncCall) : SyncWorld where
  store := w.store.step env c.op
  time := w.time + 1
  owed := owedAfter env w c
  snapshots :=
    match c.op with
    | .getDirtyTasks => w.snapshots ++ [⟨w.time, w.store.getDirtyTasks.map LocalTask.id⟩]
    | _ => w.snapshots

def opened (env : PulseEnv) (id : Text) (now : ℤ) : SyncWorld where
  store := LocalPulseStore.opened env id now
  time := 0
  owed _ := none
  snapshots := []

/-- Every task with a change that is not settled is listed. -/
def Safe (w : SyncWorld) : Prop :=
  ∀ t ∈ w.store.tasks.rows, w.owed t.id ≠ none → t ∈ w.store.getDirtyTasks

/-- A call that leaves the flag as it is finds it set, or the row as it would
write it; a `markSynced` comes with a snapshot of the task as it is. -/
def Careful (env : PulseEnv) (w : SyncWorld) (c : SyncCall) : Prop :=
  match c.op with
  | .completeTask idOrKey clock =>
      ∀ t ∈ getTask env w.store idOrKey, ∀ schedule ∈ recurring t, ∀ nextRun,
        computeNextRun schedule (clock 5) = .ok nextRun →
          t.dirty = true ∨
            (t.status = js "pending" ∧ t.completedAt = none ∧ t.nextRunAt = nextRun)
  | .cancelRecurring idOrKey now =>
      ∀ t ∈ getTask env w.store idOrKey,
        t.dirty = true ∨
          (t.status = js "cancelled" ∧ t.isRecurring = false ∧ t.schedule = none ∧
            t.nextRunAt = none ∧ t.completedAt = some (isoText now))
  | .markTriggered taskId clock =>
      ∀ task ∈ getTask env w.store taskId, ∀ t ∈ w.store.tasks.get taskId,
        match recurring task with
        | some schedule =>
            ∀ nextRun, computeNextRun schedule (clock 1) = .ok nextRun →
              t.dirty = true ∨ (t.status = js "pending" ∧ t.nextRunAt = nextRun)
        | none => t.dirty = true ∨ (t.status = js "in_progress" ∧ t.nextRunAt = none)
  | .acknowledgeAlert idOrKey _ _ =>
      ∀ t ∈ getItem env w.store .alert idOrKey, t.dirty = true ∨ t.status = js "acknowledged"
  | .resolveAlert idOrKey now =>
      ∀ t ∈ getItem env w.store .alert idOrKey,
        t.dirty = true ∨ (t.status = js "resolved" ∧ t.completedAt = some (isoText now))
  | .silenceAlert idOrKey _ =>
      ∀ t ∈ getItem env w.store .alert idOrKey, t.dirty = true ∨ t.status = js "silenced"
  | .approveAction idOrKey _ _ => ∀ t ∈ getPending env w.store idOrKey, t.dirty = true
  | .rejectAction idOrKey _ _ _ => ∀ t ∈ getPending env w.store idOrKey, t.dirty = true
  | .markSynced taskId _ _ _ =>
      (w.store.tasks.get taskId).isSome → w.owed taskId = none ∨ w.Settles c.snapshot taskId
  | _ => True

end SyncWorld

/-! ## Writing one row -/

section Rows

variable {s s' s'' : LocalPulseStore} {x id : Text} {f : LocalTask → LocalTask}
  {hf : ∀ t, (f t).id = t.id}

theorem synced_setTask (id : Text) :
    (s.setTask x f hf).synced id =
      (s.tasks.get id).map fun t =>
        ((if t.id = x then f t else t).fields, s.comments.rows.filter fun c => c.taskId = id) := by
  rw [synced, get_setTask, Option.map_map]
  rfl

/-- Every row that is not flagged afterwards was not flagged before either and
is what it was. -/
def Marks (s s' : LocalPulseStore) : Prop :=
  ∀ t' ∈ s'.tasks.rows, t'.dirty = true ∨
    ∃ t ∈ s.tasks.rows, t.id = t'.id ∧ t.dirty = false ∧ s'.synced t'.id = s.synced t'.id

theorem marks_of_same (htasks : s'.tasks = s.tasks) (hcomments : s'.comments = s.comments) :
    Marks s s' := by
  intro t' ht'
  rw [htasks] at ht'
  cases hd : t'.dirty with
  | true => exact .inl rfl
  | false => exact .inr ⟨t', ht', rfl, hd, by rw [synced, synced, htasks, hcomments]⟩

theorem Marks.refl (s : LocalPulseStore) : Marks s s := marks_of_same rfl rfl

theorem Marks.trans (h : Marks s s') (h' : Marks s' s'') : Marks s s'' := by
  intro t'' ht''
  obtain hd | ⟨t', ht', hid', hclean', hsynced'⟩ := h' t'' ht''
  · exact .inl hd
  · obtain hd | ⟨t, ht, hid, hclean, hsynced⟩ := h t' ht'
    · rw [hd] at hclean'
      cases hclean'
    · refine .inr ⟨t, ht, hid.trans hid', hclean, ?_⟩
      rw [hid'] at hsynced
      rw [hsynced', hsynced]

/-- An update that sets the flag. -/
theorem marks_setTask (h : ∀ t, (f t).dirty = true) : Marks s (s.setTask x f hf) := by
  intro t' ht'
  obtain ⟨t, ht, hid, heq⟩ := mem_setTask ht'
  by_cases hx : t.id = x
  · rw [if_pos hx] at heq
    rw [heq]
    exact .inl (h t)
  · rw [if_neg hx] at heq
    subst heq
    cases hd : t'.dirty with
    | true => exact .inl rfl
    | false =>
        refine .inr ⟨t', ht, rfl, hd, ?_⟩
        rw [synced_setTask, synced, get_of_mem ht]
        simp [hx]

/-- An update that leaves the flag as it is. -/
theorem marks_setTask_iff (h : ∀ t, (f t).dirty = t.dirty) :
    Marks s (s.setTask x f hf) ↔
      ∀ t ∈ s.tasks.get x, t.dirty = true ∨ (f t).fields = t.fields := by
  constructor
  · intro hmarks t hget
    obtain ⟨ht, hx⟩ := Table.get_eq_some_iff.mp hget
    have hrow : f t ∈ (s.setTask x f hf).tasks.rows :=
      List.mem_map.mpr ⟨t, ht, by simp [hx]⟩
    obtain hd | ⟨t₀, -, -, -, hsynced⟩ := hmarks (f t) hrow
    · rw [h] at hd
      exact .inl hd
    · right
      rw [hf, hx, synced_setTask, synced, hget] at hsynced
      simpa [hx] using hsynced
  · intro hsame t' ht'
    obtain ⟨t, ht, hid, heq⟩ := mem_setTask ht'
    have hdirty : t'.dirty = t.dirty := by
      rw [heq]
      split_ifs
      · exact h t
      · rfl
    have hfields : t.dirty = true ∨ t'.fields = t.fields := by
      by_cases hx : t.id = x
      · rw [if_pos hx] at heq
        rw [heq]
        exact hsame t (hx ▸ get_of_mem ht)
      · rw [if_neg hx] at heq
        exact .inr (by rw [heq])
    rw [hdirty]
    cases hd : t.dirty with
    | true => exact .inl rfl
    | false =>
        have hf' : t'.fields = t.fields := by simpa [hd] using hfields
        refine .inr ⟨t, ht, hid, hd, ?_⟩
        rw [← hid, synced_setTask, synced, get_of_mem ht, Option.map_some, Option.map_some, ← heq,
          hf']

/-- A new row is flagged. -/
theorem marks_insert {row : LocalTask} {tasks : Table Text LocalTask LocalTask.id}
    (h : s.tasks.insert row = some tasks) (hdirty : row.dirty = true) :
    Marks s { s with tasks := tasks } := by
  obtain ⟨hnew, hrows⟩ := Table.insert_eq_some h
  intro t' ht'
  rw [hrows, List.mem_append, List.mem_singleton] at ht'
  obtain ht' | rfl := ht'
  · cases hd : t'.dirty with
    | true => exact .inl rfl
    | false =>
        have hne : t'.id ≠ row.id := Table.get_eq_none_iff.mp hnew t' ht'
        refine .inr ⟨t', ht', rfl, hd, ?_⟩
        rw [synced, synced, Table.get_insert h, if_neg hne]
  · exact .inl hdirty

theorem marks_comment {c : LocalComment} {comments : Table Text LocalComment LocalComment.id}
    (h : s.comments.insert c = some comments) (hdirty : ∀ t, (f t).dirty = true) :
    Marks s (({ s with comments := comments } : LocalPulseStore).setTask c.taskId f hf) := by
  intro t' ht'
  obtain ⟨t, ht, hid, heq⟩ := mem_setTask ht'
  by_cases hx : t.id = c.taskId
  · rw [if_pos hx] at heq
    rw [heq]
    exact .inl (hdirty t)
  · rw [if_neg hx] at heq
    subst heq
    cases hd : t'.dirty with
    | true => exact .inl rfl
    | false =>
        have hothers : comments.rows.filter (fun c => decide (c.taskId = t'.id)) =
            s.comments.rows.filter fun c => decide (c.taskId = t'.id) := by
          rw [(Table.insert_eq_some h).2, List.filter_append]
          simp [Ne.symm hx]
        refine .inr ⟨t', ht, rfl, hd, ?_⟩
        rw [synced_setTask, synced, get_of_mem (s := s) ht]
        simp [hx, hothers]

theorem marks_delete (x : Text) :
    Marks s { s with
      tasks := s.tasks.delete fun t => t.id = x
      comments := s.comments.delete fun c => c.taskId = x } := by
  intro t' ht'
  obtain ⟨ht, hne⟩ := List.mem_filter.mp ht'
  cases hd : t'.dirty with
  | true => exact .inl rfl
  | false =>
      have hne : t'.id ≠ x := by simpa using hne
      refine .inr ⟨t', ht, rfl, hd, ?_⟩
      have hget : (s.tasks.delete fun t => t.id = x).get t'.id = s.tasks.get t'.id :=
        Table.get_delete_ne fun r hr => by simpa [hr] using hne
      have hothers : (s.comments.delete fun c => c.taskId = x).rows.filter
            (fun c => decide (c.taskId = t'.id)) =
          s.comments.rows.filter fun c => decide (c.taskId = t'.id) := by
        rw [Table.delete, List.filter_filter]
        refine List.filter_congr fun c _ => ?_
        by_cases hc : c.taskId = t'.id
        · simp [hc, hne]
        · simp [hc]
      rw [synced, synced, hget, hothers]

end Rows

/-! ## What a call does -/

section Calls

variable (env : PulseEnv) (s : LocalPulseStore)

theorem marks_insertTask {row : LocalTask} (hdirty : row.dirty = true) :
    Marks s (insertTask env s row).1 := by
  rw [insertTask]
  cases h : s.tasks.insert row with
  | none => exact Marks.refl s
  | some tasks => exact marks_insert h hdirty

theorem marks_createProject (id : Text) (opts : ProjectOpts) (now : ℤ) :
    Marks s (createProject env s id opts now).1 := by
  rw [createProject]
  split
  · exact Marks.refl s
  · split
    · exact marks_of_same rfl rfl
    · exact Marks.refl s

theorem marks_updateTask (idOrKey : Text) (updates : TaskUpdates) (clock : ℕ → ℤ) :
    Marks s (updateTask env s idOrKey updates clock).1 := by
  rw [updateTask]
  split
  · exact Marks.refl s
  · split
    · exact Marks.refl s
    · exact marks_setTask fun _ => rfl

theorem marks_addComment (id taskIdOrKey author content : Text) (now : ℤ) :
    Marks s (addComment env s id taskIdOrKey author content now).1 := by
  rw [addComment]
  cases getTask env s taskIdOrKey with
  | none => exact Marks.refl s
  | some task =>
      dsimp only
      split
      · exact Marks.refl s
      next comments h => exact marks_comment h fun _ => rfl

theorem marks_transitionTask (idOrKey targetStatus : Text) (actorType : ActorType)
    (actorUsername : Option Text) (workflowHelpers : Option WorkflowHelpers) (commentId : Text)
    (clock : ℕ → ℤ) :
    Marks s (transitionTask env s idOrKey targetStatus actorType actorUsername workflowHelpers
      commentId clock).1 :=
  transitionTask_rule env s Marks.refl (fun _ _ _ => Marks.trans)
    (fun s idOrKey updates clock _ => marks_updateTask env s idOrKey updates clock)
    (marks_addComment env) idOrKey targetStatus actorType actorUsername workflowHelpers commentId
    clock

theorem marks_deleteTask (idOrKey : Text) : Marks s (deleteTask env s idOrKey).1 := by
  rw [deleteTask]
  split
  · exact Marks.refl s
  · exact marks_delete _

/-- An alert that repeats one only moves the time of its last update. -/
theorem marks_fireAlert (id : Text) (opts : AlertOpts) (clock : ℕ → ℤ) :
    Marks s (fireAlert env s id opts clock).1 := by
  rw [fireAlert]
  split
  · refine (marks_setTask_iff ?_).mpr ?_
    · exact fun _ => rfl
    · exact fun _ _ => .inr rfl
  · exact marks_insertTask env s rfl

end Calls

/-! ## Calls that leave the flag as it is -/

/-- No flag is taken away, and whether everything that changes is flagged is
said by `P`. -/
structure FlagsIff (s s' : LocalPulseStore) (P : Prop) : Prop where
  kept : ∀ t' ∈ s'.tasks.rows, t'.dirty = false →
    ∃ t ∈ s.tasks.rows, t.id = t'.id ∧ t.dirty = false
  marks : Marks s s' ↔ P

section Quiet

variable {s s' : LocalPulseStore} {P : Prop}

theorem Marks.flagsIff (h : Marks s s') (hP : P) : FlagsIff s s' P where
  kept := by
    intro t' ht' hd
    obtain hd' | ⟨t, ht, hid, hclean, -⟩ := h t' ht'
    · rw [hd] at hd'
      cases hd'
    · exact ⟨t, ht, hid, hclean⟩
  marks := iff_of_true h hP

theorem flagsIff_setTask {x : Text} {f : LocalTask → LocalTask} {hf : ∀ t, (f t).id = t.id}
    (h : ∀ t, (f t).dirty = t.dirty)
    (hP : (∀ t ∈ s.tasks.get x, t.dirty = true ∨ (f t).fields = t.fields) ↔ P) :
    FlagsIff s (s.setTask x f hf) P where
  kept := by
    intro t' ht' hd
    obtain ⟨t, ht, hid, heq⟩ := mem_setTask ht'
    refine ⟨t, ht, hid, ?_⟩
    rw [heq] at hd
    split_ifs at hd
    · rw [← h]
      exact hd
    · exact hd
  marks := (marks_setTask_iff h).trans hP

/-- A row that was looked up, and then written. -/
theorem flagsIff_writeTask {env : PulseEnv} {task : LocalTask} (htask : task ∈ s.tasks.rows)
    {f : LocalTask → LocalTask} {hf : ∀ t, (f t).id = t.id} (h : ∀ t, (f t).dirty = t.dirty)
    (hP : (task.dirty = true ∨ (f task).fields = task.fields) ↔ P) :
    FlagsIff s (writeTask env s task.id f hf).1 P := by
  refine flagsIff_setTask h ?_
  rw [get_of_mem htask]
  simpa using hP

theorem mem_of_getItem {env : PulseEnv} {mode : ItemMode} {idOrKey : Text} {task : LocalTask}
    (h : getItem env s mode idOrKey = some task) : task ∈ s.tasks.rows :=
  mem_of_getTask (Option.filter_eq_some_iff.mp h).1

variable (env : PulseEnv) (s : LocalPulseStore)

theorem flagsIff_completeTask (idOrKey : Text) (clock : ℕ → ℤ) :
    FlagsIff s (completeTask env s idOrKey clock).1
      (∀ t ∈ getTask env s idOrKey, ∀ schedule ∈ recurring t, ∀ nextRun,
        computeNextRun schedule (clock 5) = .ok nextRun →
          t.dirty = true ∨
            (t.status = js "pending" ∧ t.completedAt = none ∧ t.nextRunAt = nextRun)) := by
  rw [completeTask]
  cases hget : getTask env s idOrKey with
  | none => exact (Marks.refl s).flagsIff (by simp)
  | some task =>
      cases hrec : recurring task with
      | none =>
          simp only [hrec]
          exact (marks_updateTask env s _ _ _).flagsIff (by simp [hrec])
      | some schedule =>
          cases hnext : computeNextRun schedule (clock 5) with
          | error e =>
              simp only [hrec, hnext]
              exact (Marks.refl s).flagsIff (by simp [hrec, hnext])
          | ok nextRun =>
              simp only [hrec, hnext]
              refine flagsIff_writeTask (mem_of_getTask hget) (fun _ => rfl) ?_
              simp only [LocalTask.fields, SyncedFields.mk.injEq, Option.mem_some_iff, forall_eq', hrec,
                hnext, Except.ok.injEq]
              grind

theorem flagsIff_cancelRecurring (idOrKey : Text) (now : ℤ) :
    FlagsIff s (cancelRecurring env s idOrKey now).1
      (∀ t ∈ getTask env s idOrKey,
        t.dirty = true ∨
          (t.status = js "cancelled" ∧ t.isRecurring = false ∧ t.schedule = none ∧
            t.nextRunAt = none ∧ t.completedAt = some (isoText now))) := by
  rw [cancelRecurring]
  cases hget : getTask env s idOrKey with
  | none => exact (Marks.refl s).flagsIff (by simp)
  | some task =>
      refine flagsIff_writeTask (mem_of_getTask hget) (fun _ => rfl) ?_
      simp only [LocalTask.fields, SyncedFields.mk.injEq, Option.mem_some_iff, forall_eq']
      grind

theorem flagsIff_acknowledgeAlert (idOrKey : Text) (by_ : Option Text) (now : ℤ) :
    FlagsIff s (acknowledgeAlert env s idOrKey by_ now).1
      (∀ t ∈ getItem env s .alert idOrKey, t.dirty = true ∨ t.status = js "acknowledged") := by
  rw [acknowledgeAlert]
  cases hget : getItem env s .alert idOrKey with
  | none => exact (Marks.refl s).flagsIff (by simp)
  | some task =>
      refine flagsIff_writeTask (mem_of_getItem hget) (fun _ => rfl) ?_
      simp only [LocalTask.fields, SyncedFields.mk.injEq, Option.mem_some_iff, forall_eq']
      grind

theorem flagsIff_resolveAlert (idOrKey : Text) (now : ℤ) :
    FlagsIff s (resolveAlert env s idOrKey now).1
      (∀ t ∈ getItem env s .alert idOrKey,
        t.dirty = true ∨ (t.status = js "resolved" ∧ t.completedAt = some (isoText now))) := by
  rw [resolveAlert]
  cases hget : getItem env s .alert idOrKey with
  | none => exact (Marks.refl s).flagsIff (by simp)
  | some task =>
      refine flagsIff_writeTask (mem_of_getItem hget) (fun _ => rfl) ?_
      simp only [LocalTask.fields, SyncedFields.mk.injEq, Option.mem_some_iff, forall_eq']
      grind

theorem flagsIff_silenceAlert (idOrKey : Text) (now : ℤ) :
    FlagsIff s (silenceAlert env s idOrKey now).1
      (∀ t ∈ getItem env s .alert idOrKey, t.dirty = true ∨ t.status = js "silenced") := by
  rw [silenceAlert]
  cases hget : getItem env s .alert idOrKey with
  | none => exact (Marks.refl s).flagsIff (by simp)
  | some task =>
      refine flagsIff_writeTask (mem_of_getItem hget) (fun _ => rfl) ?_
      simp only [LocalTask.fields, SyncedFields.mk.injEq, Option.mem_some_iff, forall_eq']
      grind

theorem of_getPending {env : PulseEnv} {s : LocalPulseStore} {idOrKey : Text} {task : LocalTask}
    (h : getPending env s idOrKey = some task) :
    task ∈ s.tasks.rows ∧ task.status = js "pending" := by
  obtain ⟨hitem, hstatus⟩ := Option.filter_eq_some_iff.mp h
  exact ⟨mem_of_getItem hitem, by simpa using hstatus⟩

theorem flagsIff_approveAction (idOrKey : Text) (by_ : Option Text) (now : ℤ) :
    FlagsIff s (approveAction env s idOrKey by_ now).1
      (∀ t ∈ getPending env s idOrKey, t.dirty = true) := by
  rw [approveAction]
  cases hget : getPending env s idOrKey with
  | none => exact (Marks.refl s).flagsIff (by simp)
  | some task =>
      obtain ⟨htask, hstatus⟩ := of_getPending hget
      have hother : js "approved" ≠ js "pending" := by decide
      refine flagsIff_writeTask htask (fun _ => rfl) ?_
      simp [LocalTask.fields, hstatus, hother]

theorem flagsIff_rejectAction (idOrKey : Text) (by_ reason : Option Text) (now : ℤ) :
    FlagsIff s (rejectAction env s idOrKey by_ reason now).1
      (∀ t ∈ getPending env s idOrKey, t.dirty = true) := by
  rw [rejectAction]
  cases hget : getPending env s idOrKey with
  | none => exact (Marks.refl s).flagsIff (by simp)
  | some task =>
      obtain ⟨htask, hstatus⟩ := of_getPending hget
      have hother : js "rejected" ≠ js "pending" := by decide
      refine flagsIff_writeTask htask (fun _ => rfl) ?_
      simp [LocalTask.fields, hstatus, hother]

/-- What the task under the id or key says decides what is written into the row
under the id. -/
theorem flagsIff_markTriggered (taskId : Text) (clock : ℕ → ℤ) :
    FlagsIff s (markTriggered env s taskId clock).1
      (∀ task ∈ getTask env s taskId, ∀ t ∈ s.tasks.get taskId,
        match recurring task with
        | some schedule =>
            ∀ nextRun, computeNextRun schedule (clock 1) = .ok nextRun →
              t.dirty = true ∨ (t.status = js "pending" ∧ t.nextRunAt = nextRun)
        | none => t.dirty = true ∨ (t.status = js "in_progress" ∧ t.nextRunAt = none)) := by
  rw [markTriggered]
  cases hget : getTask env s taskId with
  | none => exact (Marks.refl s).flagsIff (by simp)
  | some task =>
      cases hrec : recurring task with
      | none =>
          simp only [hrec]
          refine flagsIff_setTask (fun _ => rfl) ?_
          simp only [LocalTask.fields, SyncedFields.mk.injEq, Option.mem_some_iff, forall_eq', hrec]
          grind
      | some schedule =>
          cases hnext : computeNextRun schedule (clock 1) with
          | error e =>
              simp only [hrec, hnext]
              exact (Marks.refl s).flagsIff (by simp [hrec, hnext])
          | ok nextRun =>
              simp only [hrec, hnext]
              refine flagsIff_setTask (fun _ => rfl) ?_
              simp only [LocalTask.fields, SyncedFields.mk.injEq, Option.mem_some_iff, forall_eq',
                hrec, hnext, Except.ok.injEq]
              grind

end Quiet

/-! ## The runs -/

namespace SyncWorld

variable {env : PulseEnv} {w : SyncWorld} {c : SyncCall}

theorem safe_iff : Safe w ↔ ∀ t ∈ w.store.tasks.rows, w.owed t.id ≠ none → t.dirty = true := by
  unfold Safe getDirtyTasks
  refine forall₂_congr fun t ht => ?_
  simp [ht]

theorem owedAfter_call (h : ∀ taskId remoteId remoteKey now,
    c.op ≠ .markSynced taskId remoteId remoteKey now) (id : Text) :
    owedAfter env w c id =
      if (w.store.step env c.op).synced id ≠ w.store.synced id then some w.time else w.owed id := by
  rw [owedAfter]
  split_ifs
  · rfl
  · cases hop : c.op with
    | markSynced taskId remoteId remoteKey now => exact absurd hop (h taskId remoteId remoteKey now)
    | _ => rfl

/-- A call that takes no flag away keeps the run safe when it flags what it
changes, and only then. -/
theorem safe_step_iff_marks (h : ∀ taskId remoteId remoteKey now,
      c.op ≠ .markSynced taskId remoteId remoteKey now)
    (hflag : ∀ t' ∈ (w.store.step env c.op).tasks.rows, t'.dirty = false →
      ∃ t ∈ w.store.tasks.rows, t.id = t'.id ∧ t.dirty = false)
    (hsafe : Safe w) : Safe (step env w c) ↔ Marks w.store (w.store.step env c.op) := by
  rw [safe_iff] at hsafe ⊢
  constructor
  · intro hsafe' t' ht'
    cases hd : t'.dirty with
    | true => exact .inl rfl
    | false =>
        obtain ⟨t, ht, hid, hclean⟩ := hflag t' ht' hd
        refine .inr ⟨t, ht, hid, hclean, ?_⟩
        by_contra hne
        have howed : (step env w c).owed t'.id = some w.time := by
          show owedAfter env w c t'.id = some w.time
          rw [owedAfter_call h, if_pos hne]
        have hdirty := hsafe' t' ht' (by simp [howed])
        rw [hd] at hdirty
        cases hdirty
  · intro hmarks t' ht' howed
    obtain hd | ⟨t, ht, hid, hclean, hsynced⟩ := hmarks t' ht'
    · exact hd
    · have howed' : w.owed t.id ≠ none := by
        have heq : (step env w c).owed t'.id = w.owed t'.id := by
          show owedAfter env w c t'.id = w.owed t'.id
          rw [owedAfter_call h, if_neg (by simp [hsynced])]
        rw [hid, ← heq]
        exact howed
      rw [hsafe t ht howed'] at hclean
      cases hclean

/-- What every call but `markSynced` does to the flags. -/
theorem flagsIff_step (h : ∀ taskId remoteId remoteKey now,
    c.op ≠ .markSynced taskId remoteId remoteKey now) :
    FlagsIff w.store (w.store.step env c.op) (Careful env w c) := by
  obtain ⟨op, snapshot⟩ := c
  cases op with
  | createProject id opts now => exact (marks_createProject env _ id opts now).flagsIff trivial
  | createTask id opts clock => exact (marks_insertTask env _ rfl).flagsIff trivial
  | updateTask idOrKey updates clock =>
      exact (marks_updateTask env _ idOrKey updates clock).flagsIff trivial
  | completeTask idOrKey clock => exact flagsIff_completeTask env _ idOrKey clock
  | cancelRecurring idOrKey now => exact flagsIff_cancelRecurring env _ idOrKey now
  | transitionTask idOrKey targetStatus actorType actorUsername workflowHelpers commentId clock =>
      exact (marks_transitionTask env _ idOrKey targetStatus actorType actorUsername
        workflowHelpers commentId clock).flagsIff trivial
  | deleteTask idOrKey => exact (marks_deleteTask env _ idOrKey).flagsIff trivial
  | addComment id taskIdOrKey author content now =>
      exact (marks_addComment env _ id taskIdOrKey author content now).flagsIff trivial
  | getDirtyTasks => exact (Marks.refl _).flagsIff trivial
  | markSynced taskId remoteId remoteKey now => exact absurd rfl (h taskId remoteId remoteKey now)
  | markTriggered taskId clock => exact flagsIff_markTriggered env _ taskId clock
  | fireAlert id opts clock => exact (marks_fireAlert env _ id opts clock).flagsIff trivial
  | acknowledgeAlert idOrKey by_ now => exact flagsIff_acknowledgeAlert env _ idOrKey by_ now
  | resolveAlert idOrKey now => exact flagsIff_resolveAlert env _ idOrKey now
  | silenceAlert idOrKey now => exact flagsIff_silenceAlert env _ idOrKey now
  | createAction id opts now => exact (marks_insertTask env _ rfl).flagsIff trivial
  | approveAction idOrKey by_ now => exact flagsIff_approveAction env _ idOrKey by_ now
  | rejectAction idOrKey by_ reason now => exact flagsIff_rejectAction env _ idOrKey by_ reason now

/-- A `markSynced` of a task that is stored. -/
theorem safe_step_markSynced_iff {taskId remoteId remoteKey : Text} {now : ℤ} {snapshot : ℕ}
    (hsafe : Safe w) :
    Safe (step env w ⟨.markSynced taskId remoteId remoteKey now, snapshot⟩) ↔
      Careful env w ⟨.markSynced taskId remoteId remoteKey now, snapshot⟩ := by
  have howed (id : Text) :
      (step env w ⟨.markSynced taskId remoteId remoteKey now, snapshot⟩).owed id =
        if id = taskId ∧ w.Settles snapshot taskId then none else w.owed id := by
    show owedAfter env w _ id = _
    rw [owedAfter, if_neg]
    show ¬ (w.store.markSynced taskId remoteId remoteKey now).synced id ≠ w.store.synced id
    rw [not_not, markSynced, synced_setTask, synced]
    congr 1
    funext t
    split_ifs <;> rfl
  rw [safe_iff] at hsafe ⊢
  constructor
  · intro hsafe' hstored
    obtain ⟨t, hget⟩ := Option.isSome_iff_exists.mp hstored
    obtain ⟨ht, hid⟩ := Table.get_eq_some_iff.mp hget
    have hrow := hsafe' _ (List.mem_map_of_mem ht)
    rw [if_pos (by simpa using hid)] at hrow
    have hnone : (step env w ⟨.markSynced taskId remoteId remoteKey now, snapshot⟩).owed t.id = none :=
      by_contra fun hne => Bool.false_ne_true (hrow hne)
    rw [hid, howed] at hnone
    by_cases hsettles : w.Settles snapshot taskId
    · exact .inr hsettles
    · rw [if_neg (fun hc => hsettles hc.2)] at hnone
      exact .inl hnone
  · intro hcareful t' ht' hne
    obtain ⟨t, ht, hid, heq⟩ := mem_setTask ht'
    rw [howed, ← hid] at hne
    by_cases hx : t.id = taskId
    · have hstored : (w.store.tasks.get taskId).isSome := by
        rw [← hx, get_of_mem ht]
        rfl
      obtain hnone | hsettles := hcareful hstored
      · rw [hx, hnone, ite_self] at hne
        exact absurd rfl hne
      · rw [if_pos ⟨hx, hsettles⟩] at hne
        exact absurd rfl hne
    · rw [if_neg (fun hc => hx hc.1)] at hne
      rw [if_neg hx] at heq
      rw [heq]
      exact hsafe t ht hne

theorem safe_step_iff (hsafe : Safe w) : Safe (step env w c) ↔ Careful env w c := by
  by_cases h : ∃ taskId remoteId remoteKey now, c.op = .markSynced taskId remoteId remoteKey now
  · obtain ⟨taskId, remoteId, remoteKey, now, hop⟩ := h
    obtain ⟨op, snapshot⟩ := c
    cases hop
    exact safe_step_markSynced_iff hsafe
  · push Not at h
    obtain ⟨hkept, hmarks⟩ : FlagsIff w.store (w.store.step env c.op) (Careful env w c) :=
      flagsIff_step h
    exact (safe_step_iff_marks h hkept hsafe).trans hmarks

theorem safe_opened (env : PulseEnv) (id : Text) (now : ℤ) : Safe (opened env id now) :=
  safe_iff.mpr fun _ _ howed => absurd rfl howed

/-- Every run lists what is owed as long as its calls are careful, and no
longer. -/
theorem changes_listed_iff (env : PulseEnv) (id : Text) (now : ℤ) (calls : List SyncCall) :
    Throughout (step env) Safe (opened env id now) calls ↔
      Along (step env) (Careful env) (opened env id now) calls :=
  throughout_iff_along (fun _ _ => safe_step_iff) (safe_opened env id now)

instance (w : SyncWorld) : Decidable (Safe w) :=
  inferInstanceAs (Decidable (∀ t ∈ w.store.tasks.rows, _))

/-- An alert that is acknowledged after it was synced is not listed again, and
neither is a task that was updated between its snapshot and its `markSynced`. -/
theorem changes_escape :
    let env : PulseEnv := ⟨id, id, fun _ => none⟩
    let alert : AlertOpts := ⟨js "disk", none, none, none, none, none, none, none, none, none, none,
      none⟩
    let task : TaskOpts := ⟨js "fix", none, none, none, none, none, none, none, none, none, none, none,
      none⟩
    ¬ Throughout (step env) Safe (opened env (js "p") 0)
        [⟨.fireAlert (js "a") alert fun _ => 0, 0⟩, ⟨.getDirtyTasks, 0⟩,
          ⟨.markSynced (js "a") (js "7") (js "OPS-7") 0, 0⟩,
          ⟨.acknowledgeAlert (js "a") none 0, 0⟩] ∧
      ¬ Throughout (step env) Safe (opened env (js "p") 0)
        [⟨.createTask (js "t") task fun _ => 0, 0⟩, ⟨.getDirtyTasks, 0⟩,
          ⟨.updateTask (js "t") { TaskUpdates.none with title := some (js "fixed") } fun _ => 0, 0⟩,
          ⟨.markSynced (js "t") (js "8") (js "OPS-8") 0, 0⟩] := by
  intro env alert task
  constructor
  · intro h
    exact absurd h.last (by decide)
  · intro h
    exact absurd h.last (by decide)

end SyncWorld

end Shizuha.Pulse
