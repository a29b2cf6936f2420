import Shizuha.Proofs.BashOutput

/-!
# When a demoted command's task is settled

A call that is demoted has resolved, and `settleOnExit` does nothing for a call
that has. So the drain timer that a demoted task waits for after the exit is
the one that was armed before the demotion, and there is one only if the
command had exited by then: while a call is open and its process has exited,
the timer is armed (`Pending.waiting`). A command that is demoted while it runs
exits without a timer, and its task waits for `close`.
-/

namespace Shizuha.Tools

open Js Machine BashCall

variable {ctx : BashContext} {c : BashCall}

/-- The task of a process that has exited is over, or the drain timer is armed
and ends it. -/
def DrainArmed (ctx : BashContext) (c : BashCall) : Prop :=
  ∀ t ∈ c.demoted, c.exited = true → t.outcome = none →
    c.drainTimer = true ∧ ∃ t' ∈ (c.handle ctx .drainTimeout).demoted, t'.outcome.isSome = true

/-- What holds of a call in any order of events. -/
structure Pending (c : BashCall) : Prop where
  resolved : c.demoted.isSome = true → c.resolved = true
  waiting : c.exited = true → c.resolved = false → c.drainTimer = true
  early : c.exited = false → c.drainTimer = false ∧ ∀ t ∈ c.demoted, t.outcome = none

/-- The exit finds a call that is not demoted. -/
def ExitsUndemoted (c : BashCall) : BashEvent → Prop
  | .exit _ _ => c.exited = false → c.demoted = none
  | _ => True

/-! ## What settling does to the task -/

theorem outcome_finish (t : DemotedTask) (code : Option ℕ) (signal : Option Text) :
    (DemotedTask.finish t code signal).outcome.isSome = true := by
  obtain ⟨id, output, outcome⟩ := t
  cases outcome with
  | some o => rfl
  | none =>
      cases code with
      | none => rfl
      | some n => cases n <;> rfl

theorem outcome_appendOutput (t : DemotedTask) (chunk : Text) :
    (t.appendOutput chunk).outcome = t.outcome := by
  rw [DemotedTask.appendOutput]
  dsimp only
  split_ifs <;> rfl

/-- The call has settled after the exit. -/
structure Over (c : BashCall) : Prop where
  exited : c.exited = true
  resolved : c.resolved = true
  outcome : ∀ t ∈ c.demoted, t.outcome.isSome = true

theorem over_onStdioSettled (hexited : c.exited = true)
    (hresolved : c.demoted.isSome = true → c.resolved = true) (code : Option ℕ)
    (signal : Option Text) : Over (c.onStdioSettled ctx code signal) := by
  rw [onStdioSettled, if_neg (by simp [hexited])]
  cases hdemoted : c.demoted with
  | some t =>
      refine ⟨hexited, hresolved (by rw [hdemoted]; rfl), fun t' ht' => ?_⟩
      cases ht'
      exact outcome_finish t code signal
  | none =>
      dsimp only
      split_ifs with h
      · exact ⟨hexited, h, by simp⟩
      · rw [safeResolve, if_neg h]
        exact ⟨hexited, rfl, by simp⟩

theorem Over.pending (h : Over c) : Pending c where
  resolved := fun _ => h.resolved
  waiting := fun _ hopen => absurd (h.resolved.symm.trans hopen) (by simp)
  early := fun hearly => absurd (h.exited.symm.trans hearly) (by simp)

/-- A task that runs on after the exit has the timer. -/
def Armed (c : BashCall) : Prop :=
  ∀ t ∈ c.demoted, c.exited = true → t.outcome = none → c.drainTimer = true

theorem Over.armed (h : Over c) : Armed c := by
  intro t ht _ hnone
  have hsome := h.outcome t ht
  rw [hnone] at hsome
  cases hsome

theorem armed_of_undemoted (h : c.demoted = none) : Armed c := by
  intro t ht
  rw [h] at ht
  cases ht

theorem drainArmed_iff : DrainArmed ctx c ↔ Armed c := by
  refine ⟨fun harmed t ht hexited hnone => (harmed t ht hexited hnone).1,
    fun harmed t ht hexited hnone => ?_⟩
  have htimer := harmed t ht hexited hnone
  refine ⟨htimer, ?_⟩
  rw [handle, onDrainTimeout, if_pos htimer, onStdioSettled, if_neg (by simp [hexited])]
  dsimp only
  rw [show c.demoted = some t from ht]
  exact ⟨_, rfl, outcome_finish t _ _⟩

/-- A stream that ends, or the exit, of a call that is open. -/
theorem settleOnExit_cases (h : c.demoted.isSome = true → c.resolved = true)
    (hexited : c.exited = true) (hresolved : c.resolved = false) :
    Over (c.settleOnExit ctx) ∨ c.settleOnExit ctx = { c with drainTimer := true } := by
  by_cases hwait : (c.stdoutOpen || c.stderrOpen) = true ∧ c.drainTimer = false
  · exact .inr (settleOnExit_of_waiting hexited hresolved hwait.1 hwait.2)
  · rw [settleOnExit_of_due hexited hresolved]
    · exact .inl (over_onStdioSettled hexited h _ _)
    · grind

theorem pending_settleOnExit (h : c.demoted.isSome = true → c.resolved = true)
    (hearly : c.exited = false → c.drainTimer = false ∧ ∀ t ∈ c.demoted, t.outcome = none) :
    Pending (c.settleOnExit ctx) := by
  cases hexited : c.exited with
  | false =>
      rw [settleOnExit_of_early hexited]
      exact ⟨h, fun hx => absurd (hexited.symm.trans hx) (by simp), hearly⟩
  | true =>
      cases hresolved : c.resolved with
      | true =>
          rw [settleOnExit_of_resolved hresolved]
          exact ⟨h, fun _ hopen => absurd (hresolved.symm.trans hopen) (by simp), hearly⟩
      | false =>
          rcases @settleOnExit_cases ctx c h hexited hresolved with hover | heq
          · exact hover.pending
          · rw [heq]
            exact ⟨h, fun _ _ => rfl, fun hx => absurd (hexited.symm.trans hx) (by simp)⟩

theorem armed_settleOnExit (h : c.demoted.isSome = true → c.resolved = true) (harmed : Armed c) :
    Armed (c.settleOnExit ctx) := by
  cases hexited : c.exited with
  | false => rwa [settleOnExit_of_early hexited]
  | true =>
      cases hresolved : c.resolved with
      | true => rwa [settleOnExit_of_resolved hresolved]
      | false =>
          rcases @settleOnExit_cases ctx c h hexited hresolved with hover | heq
          · exact hover.armed
          · rw [heq]
            exact fun _ _ _ _ => rfl

/-! ## Steps -/

/-- The two calls differ in nothing that the task depends on. -/
structure SameTask (c c' : BashCall) : Prop where
  resolved : c'.resolved = c.resolved
  exited : c'.exited = c.exited
  drainTimer : c'.drainTimer = c.drainTimer
  outcome : c'.demoted.map DemotedTask.outcome = c.demoted.map DemotedTask.outcome

variable {c' : BashCall}

theorem SameTask.task (h : SameTask c c') {t' : DemotedTask} (ht' : t' ∈ c'.demoted) :
    ∃ t ∈ c.demoted, t.outcome = t'.outcome := by
  have hmem : t'.outcome ∈ c'.demoted.map DemotedTask.outcome := Option.mem_map_of_mem _ ht'
  rw [h.outcome] at hmem
  exact Option.mem_map.mp hmem

theorem SameTask.demoted (h : SameTask c c') : c'.demoted.isSome = c.demoted.isSome := by
  have hsome := congrArg Option.isSome h.outcome
  rwa [Option.isSome_map, Option.isSome_map] at hsome

theorem SameTask.pending (h : SameTask c c') (hpending : Pending c) : Pending c' where
  resolved hdemoted := h.resolved.trans (hpending.resolved (h.demoted ▸ hdemoted))
  waiting hexited hopen :=
    h.drainTimer.trans (hpending.waiting (h.exited ▸ hexited) (h.resolved ▸ hopen))
  early hexited := by
    obtain ⟨htimer, hrunning⟩ := hpending.early (h.exited ▸ hexited)
    refine ⟨h.drainTimer.trans htimer, fun t' ht' => ?_⟩
    obtain ⟨t, ht, heq⟩ := h.task ht'
    exact heq ▸ hrunning t ht

theorem SameTask.armed (h : SameTask c c') (harmed : Armed c) : Armed c' := by
  intro t' ht' hexited hnone
  obtain ⟨t, ht, heq⟩ := h.task ht'
  exact h.drainTimer.trans (harmed t ht (h.exited ▸ hexited) (heq.trans hnone))

theorem sameTask_stdoutData (data : Bytes) : SameTask c (c.handle ctx (.stdoutData data)) := by
  rw [handle]
  cases hdemoted : c.demoted with
  | none => exact ⟨rfl, rfl, rfl, by rw [hdemoted]⟩
  | some t =>
      refine ⟨rfl, rfl, rfl, ?_⟩
      rw [hdemoted, Option.map_some, Option.map_some, outcome_appendOutput]

theorem sameTask_stderrData (data : Bytes) : SameTask c (c.handle ctx (.stderrData data)) := by
  rw [handle]
  cases hdemoted : c.demoted with
  | none => exact ⟨rfl, rfl, rfl, by rw [hdemoted]⟩
  | some t =>
      refine ⟨rfl, rfl, rfl, ?_⟩
      rw [hdemoted, Option.map_some, Option.map_some, outcome_appendOutput]

/-- `close` and the drain timer do nothing, or they end the call. -/
theorem close_cases (h : Pending c) (code : Option ℕ) (signal : Option Text) :
    c.handle ctx (.close code signal) = c ∨ Over (c.handle ctx (.close code signal)) := by
  rw [handle]
  cases hexited : c.exited with
  | false => exact .inl (if_pos (by simp [hexited]))
  | true => exact .inr (over_onStdioSettled hexited h.resolved code signal)

theorem drainTimeout_cases (h : Pending c) :
    c.handle ctx .drainTimeout = c ∨ Over (c.handle ctx .drainTimeout) := by
  rw [handle, onDrainTimeout]
  split_ifs with htimer
  · have hexited : c.exited = true := by
      refine Bool.eq_true_of_not_eq_false fun hx => ?_
      exact absurd (htimer.symm.trans (h.early hx).1) (by simp)
    refine .inr (over_onStdioSettled ?_ ?_ _ _)
    · exact hexited
    · exact h.resolved
  · exact .inl rfl

theorem sameTask_timeout : SameTask c (c.handle ctx .timeout) := ⟨rfl, rfl, rfl, rfl⟩

theorem sameTask_abort : SameTask c (c.handle ctx .abort) := ⟨rfl, rfl, rfl, rfl⟩

/-- The demotion resolves the call, with a task that runs. -/
theorem demote_cases (taskId : Text) :
    c.handle ctx (.demote taskId) = c ∨
      c.resolved = false ∧ ∃ t r, t.outcome = none ∧
        c.handle ctx (.demote taskId) =
          { c with demoted := some t, resolved := true, results := c.results ++ [r] } := by
  rw [handle, demote]
  split_ifs with hrefused
  · exact .inl rfl
  · have hopen : c.resolved = false := by
      simp only [Bool.or_eq_true, not_or, Bool.not_eq_true] at hrefused
      exact hrefused.1.1
    refine .inr ⟨hopen, (DemotedTask.appendOutput ⟨taskId, [], none⟩ c.stdout).appendOutput
      c.stderr, demotedResult taskId, ?_, ?_⟩
    · rw [outcome_appendOutput, outcome_appendOutput]
    · rw [safeResolve, if_neg (by simp [hopen])]

theorem pending_handle (h : Pending c) (e : BashEvent) : Pending (c.handle ctx e) := by
  cases e with
  | stdoutData data => exact (sameTask_stdoutData data).pending h
  | stderrData data => exact (sameTask_stderrData data).pending h
  | stdoutEnd => exact pending_settleOnExit h.resolved h.early
  | stderrEnd => exact pending_settleOnExit h.resolved h.early
  | exit code signal =>
      exact pending_settleOnExit h.resolved fun hx => absurd hx (by simp)
  | close code signal =>
      rcases @close_cases ctx c h code signal with heq | hover
      · rw [heq]
        exact h
      · exact hover.pending
  | drainTimeout =>
      rcases @drainTimeout_cases ctx c h with heq | hover
      · rw [heq]
        exact h
      · exact hover.pending
  | timeout => exact sameTask_timeout.pending h
  | abort => exact sameTask_abort.pending h
  | demote taskId =>
      rcases @demote_cases ctx c taskId with heq | ⟨-, t, r, hnone, heq⟩
      · rw [heq]
        exact h
      · rw [heq]
        refine ⟨fun _ => rfl, fun _ hx => absurd hx (by simp), fun hexited => ?_⟩
        refine ⟨(h.early hexited).1, fun t' ht' => ?_⟩
        cases ht'
        exact hnone
  | error message =>
      rw [handle, safeResolve]
      split_ifs
      · exact h
      · exact ⟨fun _ => rfl, fun _ hx => absurd hx (by simp), h.early⟩

theorem armed_exit_iff (h : Pending c) (harmed : Armed c) (code : Option ℕ)
    (signal : Option Text) :
    Armed (c.handle ctx (.exit code signal)) ↔ (c.exited = false → c.demoted = none) := by
  rw [handle]
  cases hexited : c.exited with
  | true =>
      refine iff_of_true (armed_settleOnExit ?_ ?_) fun hx => absurd hx (by simp)
      · exact h.resolved
      · exact fun t ht _ hnone => harmed t ht hexited hnone
  | false =>
      constructor
      · intro hafter _
        refine Option.eq_none_iff_forall_not_mem.mpr fun t ht => ?_
        -- The call has resolved, so the exit arms nothing.
        have hsome : c.demoted = some t := ht
        have hresolved : c.resolved = true := h.resolved (by rw [hsome]; rfl)
        have hsame := @settleOnExit_of_resolved ctx
          { c with exited := true, exitCode := code, exitSignal := signal } hresolved
        rw [hsame] at hafter
        obtain ⟨htimer, hrunning⟩ := h.early hexited
        have hset : c.drainTimer = true := hafter t ht rfl (hrunning t ht)
        exact absurd (htimer.symm.trans hset) (by simp)
      · intro hnone
        refine armed_settleOnExit ?_ ?_
        · exact h.resolved
        · exact armed_of_undemoted (hnone rfl)

/-- The exit of a demoted command is the one step that leaves its task without
the timer. -/
theorem armed_handle_iff (h : Pending c) (harmed : Armed c) (e : BashEvent) :
    Armed (c.handle ctx e) ↔ ExitsUndemoted c e := by
  cases e with
  | stdoutData data => exact iff_of_true ((sameTask_stdoutData data).armed harmed) trivial
  | stderrData data => exact iff_of_true ((sameTask_stderrData data).armed harmed) trivial
  | stdoutEnd => exact iff_of_true (armed_settleOnExit h.resolved harmed) trivial
  | stderrEnd => exact iff_of_true (armed_settleOnExit h.resolved harmed) trivial
  | exit code signal => exact armed_exit_iff h harmed code signal
  | close code signal =>
      refine iff_of_true ?_ trivial
      rcases @close_cases ctx c h code signal with heq | hover
      · rw [heq]
        exact harmed
      · exact hover.armed
  | drainTimeout =>
      refine iff_of_true ?_ trivial
      rcases @drainTimeout_cases ctx c h with heq | hover
      · rw [heq]
        exact harmed
      · exact hover.armed
  | timeout => exact iff_of_true (sameTask_timeout.armed harmed) trivial
  | abort => exact iff_of_true (sameTask_abort.armed harmed) trivial
  | demote taskId =>
      refine iff_of_true ?_ trivial
      rcases @demote_cases ctx c taskId with heq | ⟨hopen, t, r, -, heq⟩
      · rw [heq]
        exact harmed
      · rw [heq]
        exact fun _ _ hexited _ => h.waiting hexited hopen
  | error message =>
      refine iff_of_true ?_ trivial
      rw [handle, safeResolve]
      split_ifs
      · exact harmed
      · exact harmed

theorem pending_init : Pending .init :=
  ⟨fun h => absurd h (by simp [init]), fun h => absurd h (by simp [init]),
    fun _ => ⟨rfl, by simp [init]⟩⟩

/-- In every order of events: the task of a demoted command always has the drain
timer after the exit, and is ended by it, exactly when no exit finds the command
demoted. -/
theorem demoted_task_armed_iff (ctx : BashContext) (events : List BashEvent) :
    Throughout (BashCall.handle ctx) (DrainArmed ctx) .init events ↔
      Along (BashCall.handle ctx) ExitsUndemoted .init events := by
  have harmed : Armed .init := armed_of_undemoted rfl
  refine throughout_iff_along_of (J := Pending) (D := fun _ _ => True)
    (fun c e h => pending_handle h e) (fun c e h _ hdrain => ?_) pending_init
    (drainArmed_iff.mpr harmed) (along_true (fun _ _ => trivial) _ _)
  rw [drainArmed_iff]
  exact armed_handle_iff h (drainArmed_iff.mp hdrain) e

/-! ## The command that is demoted while it runs -/

/-- An event that can come next of a command that may be demoted: what Node
promises of its streams, and a timer that fires only when it is armed. -/
def Possible (r : BashRun) (e : BashEvent) : Prop :=
  r.delivered.Allows e ∨ (e = .drainTimeout ∧ r.call.drainTimer = true) ∨
    ∃ taskId, e = .demote taskId

/-- A registry is there to take the task. -/
def registryContext : BashContext := { bashContext with hasTaskRegistry := true }

/-- A grandchild holds the pipes, so neither stream ends. -/
theorem demoted_task_unarmed :
    ∃ events, Along (bashStep registryContext) Possible .init events ∧
      (run (bashStep registryContext) .init events).delivered.exited = true ∧
      ¬ DrainArmed registryContext (run (bashStep registryContext) .init events).call := by
  refine ⟨[.demote (js "task-1"), .exit (some 0) none], ?_, rfl, ?_⟩
  · exact ⟨.inr (.inr ⟨_, rfl⟩), .inl rfl, trivial⟩
  · intro h
    exact absurd (drainArmed_iff.mp h _ rfl rfl rfl) (by decide)

end Shizuha.Tools
