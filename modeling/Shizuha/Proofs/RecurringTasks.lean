import Shizuha.Machine
import Shizuha.Pulse.LocalStore

/-!
# Tasks that keep recurring

Any text is accepted as a schedule when a task is created, and the first run
needs nothing of it. The second one does: it is computed from the schedule, and
a schedule that is no interval, or an interval of nothing, has none. The time of
a run is compared as text, so a run after the year 9999 is due at once.

`Kept` says of a row that it has a schedule and a next run when it recurs. A
call keeps it when it gives no task without a next run a schedule that is no
interval, when a run that is advanced is advanced by an interval to a date
before the year 10000, and when a task that is triggered is named by its id: a
key finds the task and updates no row.
-/

namespace Shizuha.Pulse

open Js Machine LocalPulseStore

/-! ## What is promised -/

/-- No task that recurs and is still open is without a next run. -/
def Scheduled (s : LocalPulseStore) : Prop :=
  ∀ t ∈ s.tasks.rows, t.isRecurring = true → t.status ≠ js "completed" →
    t.status ≠ js "cancelled" → t.nextRunAt ≠ none

/-- The next run of a task is later than a time, as the store compares them. -/
def RunsAfter (s : LocalPulseStore) (id : Text) (time : ℤ) : Prop :=
  ∃ t ∈ s.tasks.get id, ∃ next ∈ t.nextRunAt, isoText time < next

/-- A task that recurs runs again after it was triggered or completed, and not
at once. -/
def Advanced (env : PulseEnv) (s : LocalPulseStore) (op : PulseOp) : Prop :=
  match op with
  | .markTriggered taskId clock =>
      ∀ t ∈ getTask env s taskId, t.isRecurring = true → RunsAfter (s.step env op) t.id (clock 0)
  | .completeTask idOrKey clock =>
      ∀ t ∈ getTask env s idOrKey, t.isRecurring = true → RunsAfter (s.step env op) t.id (clock 4)
  | _ => True

/-- The readings of a call are in order. -/
def PulseOp.Ticks : PulseOp → Prop
  | .markTriggered _ clock => ∀ ⦃i j⦄, i < j → clock i < clock j
  | .completeTask _ clock => ∀ ⦃i j⦄, i < j → clock i < clock j
  | _ => True

/-! ## What a call is asked for -/

/-- An interval that is not empty. -/
def Interval (schedule : Text) (ms : ℕ) : Prop := parseScheduleMs schedule = some ms ∧ 0 < ms

/-- From `now` on, an interval after `reading` is within the years whose texts
are in the order of the dates. -/
def Advances (schedule : Text) (now reading : ℤ) : Prop :=
  ∃ ms, Interval schedule ms ∧ 0 ≤ yearOf now ∧ yearOf (reading + ms) ≤ 9999

def Careful (env : PulseEnv) (s : LocalPulseStore) (op : PulseOp) : Prop :=
  match op with
  | .updateTask idOrKey updates _ =>
      ∀ t ∈ getTask env s idOrKey, ∀ schedule ∈ updates.schedule.bind truthy,
        (∃ ms, Interval schedule ms) ∨ t.nextRunAt ≠ none
  | .completeTask idOrKey clock =>
      ∀ t ∈ getTask env s idOrKey, ∀ schedule ∈ recurring t,
        Advances schedule (clock 4) (clock 5)
  | .markTriggered taskId clock =>
      ∀ t ∈ getTask env s taskId,
        (t.id = taskId ∨ recurring t = none ∧ s.tasks.get taskId = none) ∧
          ∀ schedule ∈ recurring t, Advances schedule (clock 0) (clock 1)
  | _ => True

theorem computeNextRun_of_interval {schedule : Text} {ms : ℕ} (h : Interval schedule ms) {now : ℤ}
    {next : Option Text} (hnext : computeNextRun schedule now = .ok next) : next ≠ none := by
  rw [computeNextRun, h.1] at hnext
  dsimp only at hnext
  rw [if_neg (Nat.pos_iff_ne_zero.mp h.2)] at hnext
  split at hnext
  · cases hnext
  · cases hnext
    exact Option.some_ne_none _

/-- A date in the years 0 to 9999 is one. -/
theorem timeClip_of_year {t : ℤ} (h0 : 0 ≤ yearOf t) (h1 : yearOf t ≤ 9999) :
    timeClip t = some t := by
  have hspec := yearFromDay_spec (dayOf t)
  have hlow := (dayFromYear_bounds (yearFromDay (dayOf t))).1
  have hhigh := (dayFromYear_bounds (yearFromDay (dayOf t) + 1)).2
  rw [yearOf] at h0 h1
  have hday : -1000000 ≤ dayOf t ∧ dayOf t ≤ 10000000 := by omega
  rw [timeClip, if_pos]
  rw [abs_le]
  unfold dayOf msPerDay at hday
  unfold maxTime
  omega

theorem computeNextRun_of_advances {schedule : Text} {now reading : ℤ}
    (h : Advances schedule now reading) (hclock : now < reading) :
    ∃ next, computeNextRun schedule reading = .ok (some next) ∧ isoText now < next := by
  obtain ⟨ms, ⟨hparse, hpos⟩, hnow, hyear⟩ := h
  have hlt : now < reading + ms := by omega
  have hyear0 : 0 ≤ yearOf (reading + ms) :=
    hnow.trans (yearFromDay_mono (Int.ediv_le_ediv (by decide) hlt.le))
  refine ⟨isoText (reading + ms), ?_, isoText_lt hlt hnow hyear⟩
  rw [computeNextRun, hparse]
  dsimp only
  rw [if_neg (Nat.pos_iff_ne_zero.mp hpos), timeClip_of_year hyear0 hyear]

/-! ## Rows that keep recurring -/

/-- A row that recurs has a schedule and a next run. -/
def LocalTask.Kept (t : LocalTask) : Prop :=
  t.isRecurring = true → (truthy t.schedule).isSome = true ∧ t.nextRunAt ≠ none

def AllKept (s : LocalPulseStore) : Prop := ∀ t ∈ s.tasks.rows, t.Kept

section Calls

variable {env : PulseEnv} {s : LocalPulseStore}

theorem AllKept.setTask {x : Text} {f : LocalTask → LocalTask} {hf : ∀ t, (f t).id = t.id}
    (h : AllKept s) (hkeep : ∀ t ∈ s.tasks.get x, t.Kept → (f t).Kept) :
    AllKept (s.setTask x f hf) := by
  intro t' ht'
  obtain ⟨t, ht, -, rfl⟩ := mem_setTask ht'
  split_ifs with hx
  · exact hkeep t (hx ▸ get_of_mem ht) (h t ht)
  · exact h t ht

theorem AllKept.insertTask {row : LocalTask} (h : AllKept s) (hrow : row.Kept) :
    AllKept (insertTask env s row).1 := by
  rw [LocalPulseStore.insertTask]
  cases hins : s.tasks.insert row with
  | none => exact h
  | some tasks =>
      intro t ht
      have ht : t ∈ tasks.rows := ht
      rw [(Table.insert_eq_some hins).2, List.mem_append, List.mem_singleton] at ht
      obtain ht | rfl := ht
      · exact h t ht
      · exact hrow

/-- A row that was looked up, and then written. -/
theorem AllKept.written {task : Option LocalTask} {f : LocalTask → LocalTask}
    {hf : ∀ t, (f t).id = t.id} (h : AllKept s) (hkeep : ∀ t : LocalTask, t.Kept → (f t).Kept) :
    AllKept (match task with
      | none => ((s, .ok none) : Outcome (Option LocalTask))
      | some task => writeTask env s task.id f hf).1 := by
  cases task with
  | none => exact h
  | some task => exact h.setTask fun t _ => hkeep t

/-- What an update leaves of a row, when the schedule it gives is an interval or
the row has a next run. -/
theorem kept_set {updates : TaskUpdates} {task : LocalTask} {clock : ℕ → ℤ}
    {recurrence : Bool × Option Text} (hkept : task.Kept)
    (hC : ∀ schedule ∈ updates.schedule.bind truthy,
      (∃ ms, Interval schedule ms) ∨ task.nextRunAt ≠ none)
    (hrec : updates.recurrence task (clock 0) = .ok recurrence) :
    (updates.set clock recurrence task).Kept := by
  intro hrecurs
  have hrecurs : recurrence.1 = true := hrecurs
  show (truthy (updates.schedule.getD task.schedule)).isSome = true ∧ recurrence.2 ≠ none
  rw [TaskUpdates.recurrence] at hrec
  cases hgiven : updates.schedule with
  | none =>
      rw [hgiven] at hrec
      cases hrec
      exact hkept hrecurs
  | some given =>
      rw [hgiven] at hrec
      rw [hgiven, Option.bind_some] at hC
      dsimp only [Option.getD] at hrec ⊢
      cases htruthy : truthy given with
      | none =>
          rw [htruthy] at hrec
          cases hrec
          cases hrecurs
      | some schedule =>
          rw [htruthy] at hrec
          dsimp only at hrec
          cases hnext : computeNextRun schedule (clock 0) with
          | error e =>
              rw [hnext] at hrec
              cases hrec
          | ok nextRun =>
              rw [hnext] at hrec
              cases hrec
              refine ⟨rfl, ?_⟩
              cases nextRun with
              | some next => exact Option.some_ne_none next
              | none =>
                  rcases hC schedule htruthy with ⟨ms, hms⟩ | hnot
                  · exact absurd rfl (computeNextRun_of_interval hms hnext)
                  · exact hnot

theorem AllKept.updateTask {idOrKey : Text} {updates : TaskUpdates} {clock : ℕ → ℤ}
    (h : AllKept s) (hC : Careful env s (.updateTask idOrKey updates clock)) :
    AllKept (updateTask env s idOrKey updates clock).1 := by
  rw [LocalPulseStore.updateTask]
  cases hget : getTask env s idOrKey with
  | none => exact h
  | some task =>
      cases hrec : updates.recurrence task (clock 0) with
      | error e =>
          simp only [hrec]
          exact h
      | ok recurrence =>
          simp only [hrec]
          refine h.setTask fun t ht hkept => ?_
          have htask : t = task := by
            rw [get_of_mem (mem_of_getTask hget)] at ht
            exact (Option.some.inj ht).symm
          subst htask
          exact kept_set hkept (hC t hget) hrec

/-- An update that gives no schedule asks for nothing. -/
theorem careful_of_schedule_none {idOrKey : Text} {updates : TaskUpdates} {clock : ℕ → ℤ}
    (hnone : updates.schedule = none) : Careful env s (.updateTask idOrKey updates clock) := by
  intro t _ schedule hschedule
  rw [hnone] at hschedule
  cases hschedule

theorem AllKept.addComment {id taskIdOrKey author content : Text} {now : ℤ} (h : AllKept s) :
    AllKept (addComment env s id taskIdOrKey author content now).1 := by
  rw [LocalPulseStore.addComment]
  split
  · exact h
  · split
    · exact h
    · rename_i task _ _ comments _
      exact AllKept.setTask (s := { s with comments := comments }) h fun t _ hkept => hkept

theorem AllKept.transitionTask {idOrKey targetStatus : Text} {actorType : ActorType}
    {actorUsername : Option Text} {workflowHelpers : Option WorkflowHelpers} {commentId : Text}
    {clock : ℕ → ℤ} (h : AllKept s) :
    AllKept (transitionTask env s idOrKey targetStatus actorType actorUsername workflowHelpers
      commentId clock).1 :=
  transitionTask_rule env s (R := fun s s' => AllKept s → AllKept s') (fun _ h => h)
    (fun _ _ _ hfirst hsecond h => hsecond (hfirst h))
    (fun _ _ _ _ hnone h => h.updateTask (careful_of_schedule_none hnone))
    (fun _ _ _ _ _ _ h => h.addComment) idOrKey targetStatus actorType actorUsername
    workflowHelpers commentId clock h

/-- The schedule of a row that recurs. -/
theorem LocalTask.Kept.recurring {t : LocalTask} (h : t.Kept) (hrecurs : t.isRecurring = true) :
    ∃ schedule, LocalPulseStore.recurring t = some schedule := by
  obtain ⟨schedule, hschedule⟩ := Option.isSome_iff_exists.mp (h hrecurs).1
  exact ⟨schedule, by rw [LocalPulseStore.recurring, if_pos hrecurs, hschedule]⟩

theorem schedule_of_recurring {t : LocalTask} {schedule : Text}
    (h : recurring t = some schedule) : truthy t.schedule = some schedule := by
  rw [recurring] at h
  split_ifs at h
  exact h

/-- A row that does not recur keeps nothing. -/
theorem not_recurring {t : LocalTask} (h : t.Kept) (hnone : recurring t = none) :
    t.isRecurring ≠ true := by
  intro hrecurs
  obtain ⟨schedule, hschedule⟩ := h.recurring hrecurs
  rw [hschedule] at hnone
  cases hnone

theorem AllKept.completeTask {idOrKey : Text} {clock : ℕ → ℤ} (h : AllKept s)
    (hclock : ∀ ⦃i j⦄, i < j → clock i < clock j) (hC : Careful env s (.completeTask idOrKey clock)) :
    AllKept (completeTask env s idOrKey clock).1 := by
  rw [LocalPulseStore.completeTask]
  cases hget : getTask env s idOrKey with
  | none => exact h
  | some task =>
      cases hrec : recurring task with
      | none =>
          simp only [hrec]
          exact h.updateTask (careful_of_schedule_none rfl)
      | some schedule =>
          obtain ⟨next, hnext, -⟩ :=
            computeNextRun_of_advances (hC task hget schedule hrec) (hclock (Nat.lt_succ_self 4))
          simp only [hrec, hnext]
          refine h.setTask fun t ht hkept hrecurs => ⟨(hkept hrecurs).1, ?_⟩
          exact Option.some_ne_none next

theorem AllKept.markTriggered {taskId : Text} {clock : ℕ → ℤ} (h : AllKept s)
    (hclock : ∀ ⦃i j⦄, i < j → clock i < clock j) (hC : Careful env s (.markTriggered taskId clock)) :
    AllKept (markTriggered env s taskId clock).1 := by
  rw [LocalPulseStore.markTriggered]
  cases hget : getTask env s taskId with
  | none => exact h
  | some task =>
      obtain ⟨hid, hadvances⟩ := hC task hget
      cases hrec : recurring task with
      | none =>
          simp only [hrec]
          refine h.setTask fun t ht hkept hrecurs => ?_
          rcases hid with hid | ⟨-, hnone⟩
          · rw [← hid, get_of_mem (mem_of_getTask hget)] at ht
            cases ht
            exact absurd (show task.isRecurring = true from hrecurs) (not_recurring hkept hrec)
          · rw [hnone] at ht
            cases ht
      | some schedule =>
          obtain ⟨next, hnext, -⟩ :=
            computeNextRun_of_advances (hadvances schedule hrec) (hclock Nat.zero_lt_one)
          simp only [hrec, hnext]
          refine h.setTask fun t ht hkept hrecurs => ⟨(hkept hrecurs).1, ?_⟩
          exact Option.some_ne_none next

theorem kept_newTask (id : Text) (opts : TaskOpts) (clock : ℕ → ℤ)
    (project : Option LocalProject) : (newTask s id opts clock project).Kept := by
  intro hrecurs
  have hrecurs : (truthy opts.schedule).isSome = true := hrecurs
  refine ⟨hrecurs, ?_⟩
  show (if (truthy opts.schedule).isSome = true then _ else opts.dueDate) ≠ none
  rw [if_pos hrecurs]
  exact Option.some_ne_none _

theorem AllKept.deleteTask {idOrKey : Text} (h : AllKept s) :
    AllKept (deleteTask env s idOrKey).1 := by
  rw [LocalPulseStore.deleteTask]
  split
  · exact h
  · intro t ht
    exact h t (List.mem_of_mem_filter ht)

theorem AllKept.fireAlert {id : Text} {opts : AlertOpts} {clock : ℕ → ℤ} (h : AllKept s) :
    AllKept (fireAlert env s id opts clock).1 := by
  rw [LocalPulseStore.fireAlert]
  split
  · exact h.setTask fun t _ hkept => hkept
  · exact h.insertTask fun hrecurs => by cases hrecurs

theorem AllKept.createProject {id : Text} {opts : ProjectOpts} {now : ℤ} (h : AllKept s) :
    AllKept (createProject env s id opts now).1 := by
  rw [LocalPulseStore.createProject]
  split
  · exact h
  · split
    · exact h
    · exact h

/-- A call keeps what recurs recurring. -/
theorem AllKept.step {op : PulseOp} (h : AllKept s) (hclock : op.Ticks) (hC : Careful env s op) :
    AllKept (s.step env op) := by
  cases op with
  | createProject => exact h.createProject
  | createTask id opts clock => exact h.insertTask (kept_newTask id opts clock _)
  | updateTask => exact h.updateTask hC
  | completeTask => exact h.completeTask hclock hC
  | cancelRecurring => exact h.written fun t _ hrecurs => by cases hrecurs
  | transitionTask => exact h.transitionTask
  | deleteTask => exact h.deleteTask
  | addComment => exact h.addComment
  | getDirtyTasks => exact h
  | markSynced => exact h.setTask fun t _ hkept => hkept
  | markTriggered => exact h.markTriggered hclock hC
  | fireAlert => exact h.fireAlert
  | acknowledgeAlert => exact h.written fun t hkept => hkept
  | resolveAlert => exact h.written fun t hkept => hkept
  | silenceAlert => exact h.written fun t hkept => hkept
  | createAction => exact h.insertTask fun hrecurs => by cases hrecurs
  | approveAction => exact h.written fun t hkept => hkept
  | rejectAction => exact h.written fun t hkept => hkept

theorem AllKept.scheduled (h : AllKept s) : Scheduled s := by
  intro t ht hrecurs _ _
  exact (h t ht hrecurs).2

/-! ## The next run after a run -/

theorem runsAfter_setTask {task : LocalTask} {x next : Text} {time : ℤ}
    {f : LocalTask → LocalTask} {hf : ∀ t, (f t).id = t.id} (hmem : task ∈ s.tasks.rows)
    (hid : task.id = x) (hnext : (f task).nextRunAt = some next) (hlater : isoText time < next) :
    RunsAfter (s.setTask x f hf) task.id time := by
  refine ⟨f task, ?_, next, hnext, hlater⟩
  rw [get_setTask, get_of_mem hmem, Option.map_some, if_pos hid]
  rfl

theorem advanced_completeTask {idOrKey : Text} {clock : ℕ → ℤ} (h : AllKept s)
    (hclock : ∀ ⦃i j⦄, i < j → clock i < clock j) (hC : Careful env s (.completeTask idOrKey clock)) :
    Advanced env s (.completeTask idOrKey clock) := by
  intro task hget hrecurs
  obtain ⟨schedule, hrec⟩ := (h task (mem_of_getTask hget)).recurring hrecurs
  obtain ⟨next, hnext, hlater⟩ :=
    computeNextRun_of_advances (hC task hget schedule hrec) (hclock (Nat.lt_succ_self 4))
  show RunsAfter (LocalPulseStore.completeTask env s idOrKey clock).1 task.id (clock 4)
  rw [LocalPulseStore.completeTask, show getTask env s idOrKey = some task from hget]
  simp only [hrec, hnext]
  exact runsAfter_setTask (mem_of_getTask hget) rfl rfl hlater

theorem advanced_markTriggered {taskId : Text} {clock : ℕ → ℤ} (h : AllKept s)
    (hclock : ∀ ⦃i j⦄, i < j → clock i < clock j) (hC : Careful env s (.markTriggered taskId clock)) :
    Advanced env s (.markTriggered taskId clock) := by
  intro task hget hrecurs
  obtain ⟨schedule, hrec⟩ := (h task (mem_of_getTask hget)).recurring hrecurs
  obtain ⟨hid, hadvances⟩ := hC task hget
  have hid : task.id = taskId := by
    rcases hid with hid | ⟨hnone, -⟩
    · exact hid
    · rw [hrec] at hnone
      cases hnone
  obtain ⟨next, hnext, hlater⟩ :=
    computeNextRun_of_advances (hadvances schedule hrec) (hclock Nat.zero_lt_one)
  show RunsAfter (LocalPulseStore.markTriggered env s taskId clock).1 task.id (clock 0)
  rw [LocalPulseStore.markTriggered, show getTask env s taskId = some task from hget]
  simp only [hrec, hnext]
  exact runsAfter_setTask (mem_of_getTask hget) hid rfl hlater

theorem AllKept.advanced {op : PulseOp} (h : AllKept s) (hclock : op.Ticks)
    (hC : Careful env s op) : Advanced env s op := by
  cases op with
  | completeTask => exact advanced_completeTask h hclock hC
  | markTriggered => exact advanced_markTriggered h hclock hC
  | _ => exact trivial

end Calls

theorem allKept_opened (env : PulseEnv) (id : Text) (now : ℤ) : AllKept (opened env id now) :=
  AllKept.createProject fun t ht => by cases ht

/-- In every run whose calls give intervals to what recurs, nothing is dropped
from the schedule and nothing is due again at once. -/
theorem keeps_recurring (env : PulseEnv) (id : Text) (now : ℤ) (ops : List PulseOp)
    (hclock : ∀ op ∈ ops, op.Ticks) (hC : Along (step env) (Careful env) (opened env id now) ops) :
    Throughout (step env) Scheduled (opened env id now) ops ∧
      Along (step env) (Advanced env) (opened env id now) ops := by
  have hboth := (along_of_forall hclock (opened env id now)).and hC
  have hkept : ∀ s op, AllKept s → op.Ticks ∧ Careful env s op → AllKept (s.step env op) :=
    fun s op h hop => h.step hop.1 hop.2
  constructor
  · exact (throughout_of_step hkept (allKept_opened env id now) hboth).mono
      fun s h => h.scheduled
  · exact along_of_step (fun s op h hop => ⟨h.advanced hop.1 hop.2, hkept s op h hop⟩)
      (allKept_opened env id now) hboth

/-- A task that comes back on a schedule. -/
def taskEvery (schedule : Text) : TaskOpts :=
  ⟨js "report", none, none, none, none, none, none, none, none, none, some schedule, none, none⟩

theorem keeps_recurring_hourly :
    Throughout (step ⟨id, id, fun _ => none⟩) Scheduled (opened ⟨id, id, fun _ => none⟩ (js "p") 0)
        [.createTask (js "t") (taskEvery (js "every 1h")) (↑·), .markTriggered (js "t") (↑·),
          .completeTask (js "t") (↑·)] ∧
      Along (step ⟨id, id, fun _ => none⟩) (Advanced ⟨id, id, fun _ => none⟩)
        (opened ⟨id, id, fun _ => none⟩ (js "p") 0)
        [.createTask (js "t") (taskEvery (js "every 1h")) (↑·), .markTriggered (js "t") (↑·),
          .completeTask (js "t") (↑·)] := by
  have hclock : ∀ ⦃i j : ℕ⦄, i < j → (i : ℤ) < j := fun _ _ h => Int.ofNat_lt.mpr h
  refine keeps_recurring _ _ _ _ ?_ ⟨trivial, ?_, ?_, trivial⟩
  · simp only [List.forall_mem_cons]
    exact ⟨trivial, hclock, hclock, fun op hop => by cases hop⟩
  · intro t ht
    cases ht
    refine ⟨.inl rfl, fun schedule hschedule => ?_⟩
    cases hschedule
    exact ⟨3600000, ⟨by decide +kernel, by decide⟩, by decide +kernel, by decide +kernel⟩
  · intro t ht schedule hschedule
    cases ht
    cases hschedule
    exact ⟨3600000, ⟨by decide +kernel, by decide⟩, by decide +kernel, by decide +kernel⟩

instance (s : LocalPulseStore) : Decidable (Scheduled s) :=
  inferInstanceAs (Decidable (∀ t ∈ s.tasks.rows, _))

/-- A schedule that is no interval is lost with the first run, and a task that is
triggered by its key is due again at once. -/
theorem recurrence_lost :
    ¬ Throughout (step ⟨id, id, fun _ => none⟩) Scheduled
        (opened ⟨id, id, fun _ => none⟩ (js "p") 0)
        [.createTask (js "t") (taskEvery (js "daily")) (↑·), .markTriggered (js "t") (↑·)] ∧
      ¬ Along (step ⟨id, id, fun _ => none⟩) (Advanced ⟨id, id, fun _ => none⟩)
        (opened ⟨id, id, fun _ => none⟩ (js "p") 0)
        [.createTask (js "t") (taskEvery (js "every 1h")) (↑·),
          .markTriggered (js "GEN-1") (↑· + 1000)] := by
  constructor
  · intro h
    exact absurd h.last (by decide +kernel)
  · rintro ⟨-, h, -⟩
    obtain ⟨t, ht, next, hnext, hlater⟩ := h _ rfl rfl
    cases ht
    cases hnext
    exact absurd hlater (by decide +kernel)

end Shizuha.Pulse
