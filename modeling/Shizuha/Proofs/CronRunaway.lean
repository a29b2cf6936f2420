import Mathlib.Algebra.Order.BigOperators.Group.List
import Mathlib.Data.List.Forall2
import Shizuha.Proofs.CronClaims

/-!
# Nothing runs away

The runs of a polling job and of a loop are bounded by what was allowed when
the jobs were admitted: a job is allowed the runs of its limit, at least one,
and a dynamic loop may hold jobs whose runs still to come, with those it has
had, stay within the cap. The account of a run (`Accounted`) keeps both: what
was executed is what the stored jobs have counted, and what they may still
execute.

Four things break it, and the source lets them happen (`WithinCaps`): a delay
admitted for more runs than the cap; a job admitted to a loop for more runs
than the loop has left, for the admission counts the jobs that are still
stored and not the runs; a mark of a job that is already disabled; and a load
that takes back counts a failed mark left unsaved.
-/

namespace Shizuha.Cron

open Js Machine

/-! ## Executions -/

/-- Its next run follows a fixed time after the last. -/
def CronSchedule.polls : CronSchedule → Bool
  | .delay .. | .interval .. => true
  | .cron .. => false

def CronJob.inDynamicLoop (key : Text) (j : CronJob) : Bool :=
  match j.loop with
  | none => false
  | some loop => loop.mode = .dynamic && loop.key = key

/-- The store, and the jobs as they were when a run of theirs was marked. -/
structure RunTrace where
  store : CronStore
  runs : List CronJob

def RunTrace.start : RunTrace := ⟨.empty, []⟩

def executed (s : CronStore) : CronOp → Option CronJob
  | .markJobRun id _ _ _ _ => s.getJob id
  | _ => none

def traceStep (env : CronEnv) (τ : RunTrace) (op : CronOp) : RunTrace :=
  ⟨cronStep env τ.store op, τ.runs ++ (executed τ.store op).toList⟩

def RunTrace.executions (τ : RunTrace) (id : Text) : ℕ := τ.runs.countP fun j => j.id = id

def RunTrace.pollExecutions (τ : RunTrace) (id : Text) : ℕ :=
  τ.runs.countP fun j => j.schedule.polls && j.id = id

def RunTrace.loopExecutions (τ : RunTrace) (key : Text) : ℕ :=
  τ.runs.countP (CronJob.inDynamicLoop key)

/-- No polling job and no dynamic loop has run more often than its cap. -/
def Capped (τ : RunTrace) : Prop :=
  (∀ id, (τ.pollExecutions id : ℚ) ≤ hardIntervalRunawayCap) ∧
    ∀ key, (τ.loopExecutions key : ℚ) ≤ hardWakeupRunawayCap

/-! ## The condition -/

/-- How many runs a limit allows: the one that reaches it is the last. -/
def allowed (limit : ℚ) : ℕ := max 1 ⌈limit⌉₊

/-- An admitted job has a new identifier, no delay is admitted for more runs
than an interval, and a dynamic loop for no more than it has left; a job that
is marked is still enabled; and a load finds the file as the memory. -/
def WithinCaps (env : CronEnv) (τ : RunTrace) : CronOp → Prop
  | .addJob opts id checkedAt createdAt start =>
      ∀ added, τ.store.addJob env opts id checkedAt createdAt start = .ok added →
        (∀ j ∈ τ.store.jobs ++ τ.runs, j.id ≠ id) ∧
        (∀ ms display times, opts.schedule = .delay ms display → opts.repeatTimes = some times →
          times ≤ hardIntervalRunawayCap) ∧
        ∀ loop, opts.loop = some loop → loop.mode = .dynamic →
          ∃ times, defaultRepeatTimes opts.schedule opts.repeatTimes = some times ∧
            ((τ.loopExecutions loop.key + allowed times : ℕ) : ℚ) ≤ hardWakeupRunawayCap
  | .markJobRun id _ _ _ _ => ∀ j, τ.store.getJob id = some j →
      (j.schedule.polls = true ∨ ∃ key, j.inDynamicLoop key = true) → j.enabled = true
  | .load => τ.store.file.getD [] = τ.store.jobs
  | _ => True

variable {env : CronEnv} {τ : RunTrace} {id key : Text} {op : CronOp}

/-! ## The account -/

/-- What a job may still run. -/
def CronJob.remaining (j : CronJob) : ℕ :=
  if j.enabled then allowed (j.limit.getD 0) - j.repeats.completed else 0

/-- The runs a loop may still have through a job. -/
def CronJob.loopShare (key : Text) (j : CronJob) : ℕ :=
  if j.inDynamicLoop key then j.remaining else 0

/-- A polling job has a bounded count, a job of a dynamic loop has one at all,
and an enabled job has not used it up. -/
structure CronJob.Sound (j : CronJob) : Prop where
  polls : j.schedule.polls = true →
    ∃ times, j.repeats.times = some times ∧ times ≤ hardIntervalRunawayCap
  loop : (∃ key, j.inDynamicLoop key = true) → j.limit.isSome = true
  left : j.enabled = true → ∀ limit, j.limit = some limit → j.repeats.completed < allowed limit

structure Accounted (τ : RunTrace) : Prop where
  ids : τ.store.ids.Nodup
  jobs : ∀ j ∈ τ.store.jobs, j.Sound
  counted : ∀ j ∈ τ.store.jobs, τ.executions j.id = j.repeats.completed
  polls : ∀ id, (τ.pollExecutions id : ℚ) ≤ hardIntervalRunawayCap
  loops : ∀ key, ((τ.loopExecutions key + (τ.store.jobs.map (CronJob.loopShare key)).sum : ℕ) : ℚ) ≤
    hardWakeupRunawayCap

theorem Accounted.capped (h : Accounted τ) : Capped τ :=
  ⟨h.polls, fun key => (Nat.cast_le.mpr (Nat.le_add_right _ _)).trans (h.loops key)⟩

theorem accounted_start : Accounted .start where
  ids := List.nodup_nil
  jobs j hj := absurd hj List.not_mem_nil
  counted j hj := absurd hj List.not_mem_nil
  polls id := by norm_num [RunTrace.start, RunTrace.pollExecutions, hardIntervalRunawayCap]
  loops key := by
    norm_num [RunTrace.start, RunTrace.loopExecutions, CronStore.empty, hardWakeupRunawayCap]

/-! ## Jobs that are changed without a run -/

/-- The job with its identity, its count and no more to run. -/
structure Eased (j j' : CronJob) : Prop where
  id : j'.id = j.id
  completed : j'.repeats.completed = j.repeats.completed
  sound : j.Sound → j'.Sound
  share : ∀ key, j.Sound → j'.loopShare key ≤ j.loopShare key

theorem Eased.refl (j : CronJob) : Eased j j := ⟨rfl, rfl, fun h => h, fun _ _ => le_rfl⟩

theorem accounted_eased {s' : CronStore} (h : Accounted τ)
    (heased : List.Forall₂ Eased τ.store.jobs s'.jobs) : Accounted ⟨s', τ.runs⟩ := by
  obtain ⟨s, runs⟩ := τ
  have hids : ∀ {jobs jobs' : List CronJob}, List.Forall₂ Eased jobs jobs' →
      jobs'.map CronJob.id = jobs.map CronJob.id := fun h => by
    induction h with
    | nil => rfl
    | cons h _ ih => rw [List.map_cons, List.map_cons, h.id, ih]
  have hmem : ∀ {jobs jobs' : List CronJob}, List.Forall₂ Eased jobs jobs' →
      ∀ j' ∈ jobs', ∃ j ∈ jobs, Eased j j' := fun h => by
    induction h with
    | nil => exact fun _ hj => absurd hj List.not_mem_nil
    | cons h _ ih =>
        intro j' hj'
        rcases List.mem_cons.mp hj' with rfl | hj'
        · exact ⟨_, List.mem_cons_self, h⟩
        · obtain ⟨j, hj, heased⟩ := ih j' hj'
          exact ⟨j, List.mem_cons_of_mem _ hj, heased⟩
  have hsum : ∀ key {jobs jobs' : List CronJob}, List.Forall₂ Eased jobs jobs' →
      (∀ j ∈ jobs, j.Sound) →
      (jobs'.map (CronJob.loopShare key)).sum ≤ (jobs.map (CronJob.loopShare key)).sum :=
    fun key _ _ h => by
      induction h with
      | nil => exact fun _ => le_rfl
      | cons h _ ih =>
          intro hsound
          rw [List.map_cons, List.map_cons, List.sum_cons, List.sum_cons]
          exact Nat.add_le_add (h.share key (hsound _ List.mem_cons_self))
            (ih fun j hj => hsound j (List.mem_cons_of_mem _ hj))
  refine ⟨?_, fun j' hj' => ?_, fun j' hj' => ?_, h.polls, fun key => ?_⟩
  · show (s'.jobs.map CronJob.id).Nodup
    rw [hids heased]
    exact h.ids
  · obtain ⟨j, hj, he⟩ := hmem heased j' hj'
    exact he.sound (h.jobs j hj)
  · obtain ⟨j, hj, he⟩ := hmem heased j' hj'
    rw [he.id, he.completed]
    exact h.counted j hj
  · refine le_trans (Nat.cast_le.mpr (Nat.add_le_add_left ?_ _)) (h.loops key)
    exact hsum key heased h.jobs

theorem forall₂_updateJob {R : CronJob → CronJob → Prop} {f : CronJob → CronJob}
    (hrefl : ∀ j, R j j) (hf : ∀ j, R j (f j)) (jobs : List CronJob) :
    List.Forall₂ R jobs (updateJob f id jobs) := by
  induction jobs with
  | nil => exact .nil
  | cons j jobs ih =>
      rw [updateJob]
      split
      · exact .cons (hf j) (List.forall₂_same.mpr fun j _ => hrefl j)
      · exact .cons (hrefl j) ih

theorem eased_claim (now : ℤ) (j : CronJob) : Eased j (j.claim now) :=
  ⟨rfl, rfl, fun h => ⟨h.polls, h.loop, h.left⟩, fun _ _ => le_rfl⟩

/-- The repair only turns jobs off: their counts are bounded already. -/
theorem eased_repair (toLowerCase : Text → Text) (j : CronJob) :
    Eased j (j.repair toLowerCase).1 := by
  rw [CronJob.repair]
  by_cases hskip : (!j.enabled || j.kind = .wakeup || !j.schedule.isInterval) = true
  · rw [if_pos hskip]
    exact .refl j
  rw [if_neg hskip]
  dsimp only
  have hinterval : j.schedule.isInterval = true := by
    cases h : j.schedule.isInterval with
    | true => rfl
    | false => simp [h] at hskip
  have hunder : j.Sound → j.overCap = false := by
    intro h
    obtain ⟨times, htimes, hle⟩ := h.polls (by
      cases hs : j.schedule with
      | delay => rfl
      | interval => rfl
      | cron => rw [hs] at hinterval; cases hinterval)
    rw [CronJob.overCap, htimes]
    exact decide_eq_false (not_lt.mpr hle)
  have hcapped : Eased j (if j.overCap then { j with repeats := { j.repeats with
      times := some hardIntervalRunawayCap } } else j) := by
    cases hover : j.overCap with
    | false => exact .refl j
    | true =>
        have hnot : ¬ j.Sound := fun h => Bool.false_ne_true ((hunder h).symm.trans hover)
        exact ⟨rfl, rfl, fun h => absurd h hnot, fun _ h => absurd h hnot⟩
  have hoff : ∀ {j' : CronJob} {lastError : Option Text}, Eased j j' →
      Eased j { j' with enabled := false, lastError := lastError } := fun h =>
    ⟨h.id, h.completed, fun hj => ⟨(h.sound hj).polls, (h.sound hj).loop,
      fun hon => absurd hon Bool.false_ne_true⟩, fun key _ => by
      rw [CronJob.loopShare, CronJob.remaining]
      exact (ite_self _).le.trans (Nat.zero_le _)⟩
  split
  · exact hoff hcapped
  · split
    · exact hoff hcapped
    · exact hcapped

/-! ## Jobs that come and go -/

theorem accounted_sublist {s' : CronStore} (h : Accounted τ)
    (hjobs : s'.jobs.Sublist τ.store.jobs) : Accounted ⟨s', τ.runs⟩ where
  ids := h.ids.sublist (hjobs.map _)
  jobs j hj := h.jobs j (hjobs.subset hj)
  counted j hj := h.counted j (hjobs.subset hj)
  polls := h.polls
  loops key := (Nat.cast_le.mpr (Nat.add_le_add_left ((hjobs.map _).sum_le_sum fun n _ => Nat.zero_le n) _)).trans
    (h.loops key)

theorem limit_job {opts : JobRequest} {createdAt nextRunAt : ℤ} {times : ℚ}
    (h : defaultRepeatTimes opts.schedule opts.repeatTimes = some times) :
    (opts.job id createdAt nextRunAt).limit = some times := by
  show (defaultRepeatTimes opts.schedule opts.repeatTimes <|> _) = _
  rw [h]
  rfl

/-- No job of a dynamic loop is admitted while another one is enabled. -/
theorem share_eq_zero_of_admitted {s : CronStore} {loop : WakeupLoopConfig} {now : ℤ}
    (hmode : loop.mode = .dynamic) (h : s.assertLoopCanBeScheduled loop now = .ok ()) :
    (s.jobs.map (CronJob.loopShare loop.key)).sum = 0 := by
  have hactive : (s.getLoopStats loop.key).active = 0 := by
    by_contra hpos
    rw [CronStore.assertLoopCanBeScheduled] at h
    split at h
    · cases h
    · split at h
      · cases h
      · split at h
        · cases h
        · split at h
          · cases h
          · rw [hmode] at h
            dsimp only at h
            rw [checkDynamicLoop] at h
            split at h
            · cases h
            · rw [if_pos (Nat.pos_of_ne_zero hpos)] at h
              cases h
  rw [List.sum_eq_zero_iff]
  intro n hn
  obtain ⟨j, hj, rfl⟩ := List.mem_map.mp hn
  rw [CronJob.loopShare]
  split
  next hin =>
    have hkey : j.loop.map WakeupLoopConfig.key = some loop.key := by
      rw [CronJob.inDynamicLoop] at hin
      cases hl : j.loop with
      | none => rw [hl] at hin; cases hin
      | some l =>
          rw [hl] at hin
          exact congrArg some (of_decide_eq_true (Bool.and_elim_right hin))
    have hempty : (s.jobs.filter fun j => j.loop.map WakeupLoopConfig.key = some loop.key).filter
        CronJob.enabled = [] := List.length_eq_zero_iff.mp hactive
    have hoff : ¬ j.enabled = true := by
      rw [List.filter_eq_nil_iff] at hempty
      exact hempty j (List.mem_filter.mpr ⟨hj, decide_eq_true hkey⟩)
    rw [CronJob.remaining, if_neg hoff]
  next => rfl

theorem polls_inDynamicLoop_job {opts : JobRequest} {createdAt nextRunAt : ℤ} {loop}
    (hloop : opts.loop = some loop) :
    (opts.job id createdAt nextRunAt).inDynamicLoop key =
      (loop.mode = .dynamic && loop.key = key) := by
  show (match opts.loop with | none => false | some loop => _) = _
  rw [hloop]

theorem sound_job {opts : JobRequest} {createdAt nextRunAt : ℤ}
    (hdelay : ∀ ms display times, opts.schedule = .delay ms display →
      opts.repeatTimes = some times → times ≤ hardIntervalRunawayCap)
    (hloop : ∀ loop, opts.loop = some loop → loop.mode = .dynamic →
      ∃ times, defaultRepeatTimes opts.schedule opts.repeatTimes = some times) :
    (opts.job id createdAt nextRunAt).Sound where
  polls hpolls := by
    show ∃ times, defaultRepeatTimes opts.schedule opts.repeatTimes = some times ∧ _
    have hschedule : opts.schedule.polls = true := hpolls
    unfold defaultRepeatTimes
    cases htimes : opts.repeatTimes with
    | none =>
        cases hs : opts.schedule with
        | delay ms => exact ⟨1, rfl, by norm_num [hardIntervalRunawayCap]⟩
        | interval ms => exact ⟨_, rfl, le_rfl⟩
        | cron expr => rw [hs] at hschedule; cases hschedule
    | some times =>
        cases hs : opts.schedule with
        | delay ms display => exact ⟨times, rfl, hdelay ms display times hs htimes⟩
        | interval ms => exact ⟨_, rfl, min_le_right _ _⟩
        | cron expr => rw [hs] at hschedule; cases hschedule
  loop := by
    rintro ⟨key, hin⟩
    cases hl : opts.loop with
    | none =>
        have : (match opts.loop with | none => false | some _ => _) = true := hin
        rw [hl] at this
        cases this
    | some loop =>
        rw [polls_inDynamicLoop_job hl] at hin
        obtain ⟨times, htimes⟩ := hloop loop hl (of_decide_eq_true (Bool.and_elim_left hin))
        rw [limit_job htimes]
        rfl
  left _ limit _ := (Nat.zero_lt_one).trans_le (Nat.le_max_left _ _)

theorem accounted_addJob {opts : JobRequest} {checkedAt createdAt start : ℤ} {s' : CronStore}
    {job : CronJob} (h : Accounted τ)
    (hadd : τ.store.addJob env opts id checkedAt createdAt start = .ok (s', job))
    (hfresh : ∀ j ∈ τ.store.jobs ++ τ.runs, j.id ≠ id)
    (hdelay : ∀ ms display times, opts.schedule = .delay ms display →
      opts.repeatTimes = some times → times ≤ hardIntervalRunawayCap)
    (hloop : ∀ loop, opts.loop = some loop → loop.mode = .dynamic →
      ∃ times, defaultRepeatTimes opts.schedule opts.repeatTimes = some times ∧
        ((τ.loopExecutions loop.key + allowed times : ℕ) : ℚ) ≤ hardWakeupRunawayCap) :
    Accounted ⟨s', τ.runs⟩ := by
  obtain ⟨hadmitted, t, -, rfl, rfl⟩ := addJob_eq_ok hadd
  have hunrun : τ.executions id = 0 :=
    List.countP_eq_zero.mpr fun j hj hid => hfresh j (List.mem_append_right _ hj)
      (of_decide_eq_true hid)
  have hjobs : ∀ j ∈ τ.store.jobs ++ [opts.job id createdAt t],
      j ∈ τ.store.jobs ∨ j = opts.job id createdAt t := fun j hj => by
    rcases List.mem_append.mp hj with hj | hj
    · exact .inl hj
    · exact .inr (List.mem_singleton.mp hj)
  refine ⟨?_, fun j hj => ?_, fun j hj => ?_, h.polls, fun key => ?_⟩
  · show ((τ.store.jobs ++ [opts.job id createdAt t]).map CronJob.id).Nodup
    rw [List.map_append]
    refine List.nodup_append.mpr ⟨h.ids, List.nodup_singleton _, fun a ha b hb hab => ?_⟩
    obtain ⟨j, hj, rfl⟩ := List.mem_map.mp ha
    exact hfresh j (List.mem_append_left _ hj) (hab.trans (List.mem_singleton.mp hb))
  · rcases hjobs j hj with hj | rfl
    · exact h.jobs j hj
    · exact sound_job hdelay fun loop hl hmode => (hloop loop hl hmode).imp fun _ h => h.1
  · rcases hjobs j hj with hj | rfl
    · exact h.counted j hj
    · exact hunrun
  · show ((τ.loopExecutions key +
      ((τ.store.jobs ++ [opts.job id createdAt t]).map (CronJob.loopShare key)).sum : ℕ) : ℚ) ≤ _
    rw [List.map_append, List.sum_append, List.map_singleton, List.sum_singleton,
      CronJob.loopShare]
    cases hin : (opts.job id createdAt t).inDynamicLoop key with
    | false => exact h.loops key
    | true =>
        cases hl : opts.loop with
        | none =>
            have : (match opts.loop with | none => false | some _ => _) = true := hin
            rw [hl] at this
            cases this
        | some loop =>
            rw [polls_inDynamicLoop_job hl] at hin
            have hmode : loop.mode = .dynamic := of_decide_eq_true (Bool.and_elim_left hin)
            have hkey : loop.key = key := of_decide_eq_true (Bool.and_elim_right hin)
            obtain ⟨times, htimes, hfits⟩ := hloop loop hl hmode
            rw [← hkey, share_eq_zero_of_admitted hmode (hadmitted loop hl), Nat.zero_add, if_pos rfl,
              CronJob.remaining, limit_job htimes]
            exact hfits

/-! ## A run that is marked -/

section Mark

variable {zone : Zone} {status : RunStatus} {error : Option Text} {ranAt start : ℤ}

/-- A marked job keeps everything but its count, its dates and its flags. -/
theorem markRun_facts (zone : Zone) (status : RunStatus) (error : Option Text) (ranAt start : ℤ)
    (j : CronJob) :
    (j.markRun zone status error ranAt start).1.schedule = j.schedule ∧
      (j.markRun zone status error ranAt start).1.loop = j.loop ∧
      (j.markRun zone status error ranAt start).1.limit = j.limit ∧
      (j.markRun zone status error ranAt start).1.repeats.times = j.repeats.times ∧
      (j.markRun zone status error ranAt start).1.repeats.completed = j.repeats.completed + 1 ∧
      ((j.markRun zone status error ranAt start).1.enabled = true →
        j.enabled = true ∧ ¬ j.LastAllowed) := by
  rcases markRun_cases zone status error ranAt start j with
    ⟨-, h⟩ | ⟨hlast, _, -, h⟩ | ⟨hlast, _, -, h⟩
  · rw [h]
    exact ⟨rfl, rfl, rfl, rfl, rfl, nofun⟩
  · rw [h]
    exact ⟨rfl, rfl, rfl, rfl, rfl, fun henabled => ⟨henabled, hlast⟩⟩
  · rw [h]
    exact ⟨rfl, rfl, rfl, rfl, rfl, fun henabled => ⟨henabled, hlast⟩⟩

theorem lt_allowed_of_not_last {j : CronJob} {limit : ℚ} (hlast : ¬ j.LastAllowed)
    (hlimit : j.limit = some limit) : j.repeats.completed + 1 < allowed limit := by
  have hlt : ((j.repeats.completed + 1 : ℕ) : ℚ) < limit :=
    not_le.mp fun hle => hlast ⟨limit, hlimit, hle⟩
  exact (Nat.lt_ceil.mpr hlt).trans_le (Nat.le_max_right _ _)

theorem sound_markRun {j : CronJob} (h : j.Sound) :
    (j.markRun zone status error ranAt start).1.Sound := by
  obtain ⟨hschedule, hloop, hlimit, htimes, hcompleted, henabled⟩ :=
    markRun_facts zone status error ranAt start j
  refine ⟨?_, ?_, fun hon limit hl => ?_⟩
  · rw [hschedule, htimes]
    exact h.polls
  · rw [hlimit]
    rintro ⟨key, hin⟩
    rw [CronJob.inDynamicLoop, hloop] at hin
    exact h.loop ⟨key, hin⟩
  · rw [hlimit] at hl
    rw [hcompleted]
    exact lt_allowed_of_not_last (henabled hon).2 hl

theorem share_markRun (zone : Zone) (status : RunStatus) (error : Option Text) (ranAt start : ℤ)
    {j : CronJob} (h : j.Sound) (hon : j.enabled = true)
    (hin : j.inDynamicLoop key = true) :
    (j.markRun zone status error ranAt start).1.loopShare key + 1 ≤ j.loopShare key := by
  obtain ⟨-, hloop, hlimit, -, hcompleted, henabled⟩ :=
    markRun_facts zone status error ranAt start j
  have hin' : (j.markRun zone status error ranAt start).1.inDynamicLoop key = true := by
    rw [CronJob.inDynamicLoop, hloop]
    exact hin
  obtain ⟨limit, hl⟩ := Option.isSome_iff_exists.mp (h.loop ⟨key, hin⟩)
  have hleft := h.left hon limit hl
  rw [CronJob.loopShare, if_pos hin', CronJob.loopShare, if_pos hin, CronJob.remaining,
    CronJob.remaining, if_pos hon, hlimit, hl, hcompleted, Option.getD_some]
  split
  · omega
  · omega

theorem completed_lt_cap {j : CronJob} (h : j.Sound) (hpolls : j.schedule.polls = true)
    (hon : j.enabled = true) : ((j.repeats.completed + 1 : ℕ) : ℚ) ≤ hardIntervalRunawayCap := by
  obtain ⟨times, htimes, hle⟩ := h.polls hpolls
  have hlimit : j.limit = some times := by
    rw [CronJob.limit, htimes]
    rfl
  have hallowed : allowed times ≤ 50 :=
    Nat.max_le.mpr ⟨by decide, Nat.ceil_le.mpr hle⟩
  have hleft : j.repeats.completed + 1 ≤ 50 := (h.left hon times hlimit).trans_le hallowed
  exact Nat.cast_le.mpr hleft

theorem jobs_markJobRun {s : CronStore} {job : CronJob} (hjob : s.getJob id = some job) :
    (s.markJobRun zone id status error ranAt start).1.jobs =
      updateJob (fun j => (j.markRun zone status error ranAt start).1) id s.jobs := by
  rw [CronStore.markJobRun, hjob]
  dsimp only
  cases (job.markRun zone status error ranAt start).2 with
  | error => rfl
  | ok => rfl

/-- After a change the job of that id is the changed one. -/
theorem mem_updateJob_nodup {f : CronJob → CronJob} (hf : ∀ j, (f j).id = j.id)
    {jobs : List CronJob} {job j : CronJob} (hids : (jobs.map CronJob.id).Nodup)
    (hjob : jobs.find? (fun j => j.id = id) = some job) (hj : j ∈ updateJob f id jobs) :
    j = f job ∨ j ∈ jobs ∧ j.id ≠ id := by
  by_cases hid : j.id = id
  · refine .inl ?_
    have hget := find?_updateJob hf id jobs
    rw [hjob] at hget
    rw [← map_id_updateJob hf id] at hids
    exact List.inj_on_of_nodup_map hids hj (List.mem_of_find?_eq_some hget)
      (hid.trans (show (f job).id = id by simpa using List.find?_some hget).symm)
  · rcases mem_updateJob hj with hj | ⟨j₀, -, hj₀, rfl⟩
    · exact .inr ⟨hj, hid⟩
    · exact absurd ((hf j₀).trans hj₀) hid

theorem accounted_markJobRun {job : CronJob} (h : Accounted τ)
    (hjob : τ.store.getJob id = some job)
    (hon : job.schedule.polls = true ∨ (∃ key, job.inDynamicLoop key = true) →
      job.enabled = true) :
    Accounted ⟨(τ.store.markJobRun zone id status error ranAt start).1, τ.runs ++ [job]⟩ := by
  obtain ⟨hmem, hid⟩ := getJob_mem hjob
  have hsound := h.jobs job hmem
  have hjobs : (τ.store.markJobRun zone id status error ranAt start).1.jobs = _ :=
    jobs_markJobRun hjob
  have hcount : ∀ p : CronJob → Bool,
      (τ.runs ++ [job]).countP p = τ.runs.countP p + if p job then 1 else 0 := fun p => by
    rw [List.countP_append, List.countP_singleton]
  refine ⟨?_, fun j hj => ?_, fun j hj => ?_, fun id' => ?_, fun key => ?_⟩
  · show ((τ.store.markJobRun zone id status error ranAt start).1.jobs.map CronJob.id).Nodup
    rw [hjobs, map_id_updateJob id_markRun]
    exact h.ids
  · rw [hjobs] at hj
    rcases mem_updateJob_nodup id_markRun h.ids hjob hj with rfl | ⟨hj, -⟩
    · exact sound_markRun hsound
    · exact h.jobs j hj
  · rw [hjobs] at hj
    rw [RunTrace.executions, hcount]
    rcases mem_updateJob_nodup id_markRun h.ids hjob hj with rfl | ⟨hj, hne⟩
    · have hcompleted := (markRun_facts zone status error ranAt start job).2.2.2.2.1
      rw [id_markRun, decide_eq_true rfl, if_pos rfl, hcompleted]
      exact congrArg (· + 1) (h.counted job hmem)
    · rw [if_neg fun hsame => hne ((of_decide_eq_true hsame).symm.trans hid)]
      exact h.counted j hj
  · rw [RunTrace.pollExecutions, hcount]
    split
    next hpoll =>
      have hpolls : job.schedule.polls = true := Bool.and_elim_left hpoll
      have hsame : job.id = id' := of_decide_eq_true (Bool.and_elim_right hpoll)
      have hle : τ.pollExecutions id' ≤ job.repeats.completed := by
        rw [← h.counted job hmem, hsame]
        exact List.countP_mono_left fun j _ hj => Bool.and_elim_right hj
      exact (Nat.cast_le.mpr (Nat.succ_le_succ hle)).trans
        (completed_lt_cap hsound hpolls (hon (.inl hpolls)))
    next => exact h.polls id'
  · have hsum := sum_updateJob (f := fun j => (j.markRun zone status error ranAt start).1)
      (CronJob.loopShare key) hjob
    have hloops := h.loops key
    rw [RunTrace.loopExecutions, hcount, hjobs]
    refine le_trans (Nat.cast_le.mpr ?_) hloops
    rw [RunTrace.loopExecutions]
    split
    next hin =>
      have hshare := share_markRun zone status error ranAt start hsound (hon (.inr ⟨key, hin⟩)) hin
      omega
    next hin =>
      have hshare : (job.markRun zone status error ranAt start).1.loopShare key = 0 := by
        have hloop := (markRun_facts zone status error ranAt start job).2.1
        rw [CronJob.loopShare, CronJob.inDynamicLoop, hloop]
        exact if_neg hin
      omega

end Mark

/-! ## Runs -/

theorem accounted_step (h : Accounted τ) (hC : WithinCaps env τ op) :
    Accounted (traceStep env τ op) := by
  have hunrun : ∀ {s' : CronStore}, Accounted ⟨s', τ.runs⟩ → Accounted ⟨s', τ.runs ++ []⟩ :=
    fun h => by rwa [List.append_nil]
  cases op with
  | addJob opts id checkedAt createdAt start =>
      refine hunrun ?_
      rw [cronStep]
      cases hadd : τ.store.addJob env opts id checkedAt createdAt start with
      | error e => exact h
      | ok added =>
          obtain ⟨hfresh, hdelay, hloop⟩ := hC added hadd
          exact accounted_addJob h hadd hfresh hdelay hloop
  | removeJob id =>
      refine hunrun (accounted_sublist h ?_)
      rw [cronStep, CronStore.removeJob]
      cases τ.store.getJob id with
      | none => exact List.Sublist.refl _
      | some job => exact List.eraseP_sublist ..
  | getDueJobs => exact hunrun h
  | claimJob id scannedAt claimedAt =>
      refine hunrun (accounted_eased h ?_)
      rw [cronStep, CronStore.claimJob]
      have hrefl : List.Forall₂ Eased τ.store.jobs τ.store.jobs :=
        List.forall₂_same.mpr fun j _ => .refl j
      cases τ.store.getJob id with
      | none => exact hrefl
      | some job =>
          dsimp only
          split
          · exact hrefl
          · split
            · exact forall₂_updateJob Eased.refl (eased_claim claimedAt) _
            · exact hrefl
  | markJobRun id status error ranAt start =>
      rw [traceStep, executed]
      cases hjob : τ.store.getJob id with
      | none =>
          refine hunrun ?_
          rw [cronStep, CronStore.markJobRun, hjob]
          exact h
      | some job => exact accounted_markJobRun h hjob (hC job hjob)
  | load =>
      refine hunrun (accounted_eased h ?_)
      have hjobs : (cronStep env τ.store .load).jobs =
          τ.store.jobs.map fun j => (j.repair env.toLowerCase).1 := by
        have hfile : τ.store.file.getD [] = τ.store.jobs := hC
        rw [cronStep, CronStore.load, CronStore.disableRunawayIntervalJobs, hfile]
        dsimp only
        split
        next hrepair => exact congrArg CronStore.jobs (Prod.mk.inj hrepair).1.symm
        next hrepair => exact congrArg CronStore.jobs (Prod.mk.inj hrepair).1.symm
      rw [hjobs, List.forall₂_map_right_iff]
      exact List.forall₂_same.mpr fun j _ => eased_repair env.toLowerCase j

/-- No polling job and no dynamic loop runs away, as long as every step stays
within the caps. -/
theorem runs_capped {ops : List CronOp} (h : Along (traceStep env) (WithinCaps env) .start ops) :
    Throughout (traceStep env) Capped .start ops :=
  (throughout_of_step (fun _ _ h hC => accounted_step h hC) accounted_start h).mono
    fun _ h => h.capped

/-! ## A loop within its caps, and a delay that is not -/

def pollLoop : WakeupLoopConfig := ⟨js "watch", .dynamic, some 50, 0⟩

def wakeup : JobRequest :=
  { zeroInterval with
    schedule := .delay 60000 (js "1m")
    kind := some .wakeup
    loop := some pollLoop }

def rescheduled : List CronOp :=
  [.addJob wakeup (js "a1") 1000 1000 1000, .claimJob (js "a1") 61000 61000,
    .markJobRun (js "a1") .ok none 62000 62000, .addJob wakeup (js "a2") 63000 63000 63000, .load]

theorem runs_capped_rescheduled :
    Throughout (traceStep ⟨fun t => t, .utc⟩) Capped .start rescheduled := by
  have hfits : ∀ loop, wakeup.loop = some loop → loop = pollLoop := fun loop h =>
    (Option.some.inj h).symm
  refine runs_capped ⟨fun _ _ => ⟨by decide +kernel, nofun, fun loop hl _ => ?_⟩, trivial,
    fun j hj _ => ?_, fun _ _ => ⟨by decide +kernel, nofun, fun loop hl _ => ?_⟩, ?_, trivial⟩
  · rw [hfits loop hl]
    exact ⟨1, rfl, by decide +kernel⟩
  · cases hj
    rfl
  · rw [hfits loop hl]
    exact ⟨1, rfl, by decide +kernel⟩
  · rfl

def repeatedDelay : JobRequest :=
  { zeroInterval with
    schedule := .delay 60000 (js "1m")
    repeatTimes := some 1000 }

def delayRuns : List CronOp :=
  .addJob repeatedDelay (js "a1") 0 0 0 ::
    List.replicate 51 (.markJobRun (js "a1") .ok none 60000 60000)

/-- A delay that is repeated is not clamped, and runs a 51st time. -/
theorem delay_runs_away :
    ¬ Throughout (traceStep ⟨fun t => t, .utc⟩) Capped .start delayRuns := by
  intro h
  have hcount : (run (traceStep ⟨fun t => t, .utc⟩) .start delayRuns).pollExecutions (js "a1") = 51 := by
    decide +kernel
  have hcapped := h.last.1 (js "a1")
  rw [hcount] at hcapped
  norm_num [hardIntervalRunawayCap] at hcapped

end Shizuha.Cron
