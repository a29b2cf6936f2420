import Shizuha.Cron.Store

/-!
# A job that has run is not due again

`markJobRun` ends a job that has reached its limit and gives any other job its
next run. The next run of a delay or an interval is the call plus its length,
so it is later only when the length is not zero; the next run of a cron
expression is the first minute it admits, and there may be none in a year, or,
in the hour that a clock change repeats, an earlier one. A date too far away is
no date, and one in the year 10000 or later has a text that sorts before the
present.

A call that finds no next run throws with the run already counted, so the
calls that throw are all failures (`markJobRun_progresses_iff`).
-/

namespace Shizuha.Cron

open Js

variable {zone : Zone} {s : CronStore} {id : Text} {status : RunStatus} {error : Option Text}
  {ranAt start : ℤ}

/-! ## What is promised -/

/-- After the call the job is off, or runs next at a later time and is not due. -/
def RunsLater (now : ℤ) (j : CronJob) : Prop :=
  j.enabled = false ∨ now < j.nextRunAt ∧ j.isDue now = false

/-- The fields of a job that a call which throws must leave alone. -/
def CronJob.progress (j : CronJob) : ℕ × Bool × ℤ := (j.repeats.completed, j.running, j.nextRunAt)

/-- Whether the call returns or throws, the job is off or runs later; and when
it throws, the job is as it was. -/
def Progresses (zone : Zone) (s : CronStore) (id : Text) (status : RunStatus)
    (error : Option Text) (ranAt start : ℤ) : Prop :=
  (∀ j ∈ (s.markJobRun zone id status error ranAt start).1.getJob id, RunsLater start j) ∧
    ∀ e, (s.markJobRun zone id status error ranAt start).2 = .error e →
      ((s.markJobRun zone id status error ranAt start).1.getJob id).map CronJob.progress =
        (s.getJob id).map CronJob.progress

/-! ## When it holds -/

/-- The run that is being marked is the last one allowed. -/
def CronJob.LastAllowed (j : CronJob) : Prop :=
  ∃ limit, j.limit = some limit ∧ limit ≤ (j.repeats.completed + 1 : ℕ)

/-- The minutes looked at for a cron expression. -/
def candidateMinute (zone : Zone) (start : ℤ) (k : ℕ) : Option ℤ :=
  (nextMinute zone)^[k] (firstCheck zone start)

/-- The first minute of the coming year that the expression admits. -/
def FirstAdmitted (zone : Zone) (expr : Text) (start t : ℤ) : Prop :=
  (splitSpaces expr).length = 5 ∧ ∃ k < searchLimit, candidateMinute zone start k = some t ∧
    matchesCron zone (splitSpaces expr) (some t) = true ∧
    ∀ i < k, matchesCron zone (splitSpaces expr) (candidateMinute zone start i) = false

/-- A date after `start` that also sorts after it. -/
def SortsLater (start t : ℤ) : Prop := start < t ∧ isoText start < isoText t

/-- The schedule names a date for the next run. -/
def CronSchedule.Continues (zone : Zone) (start : ℤ) : CronSchedule → Prop
  | .delay ms _ | .interval ms _ => |start + ms| ≤ maxTime
  | .cron expr _ => ∃ t, FirstAdmitted zone expr start t

/-- The date named is a later one. -/
def CronSchedule.Advances (zone : Zone) (start : ℤ) : CronSchedule → Prop
  | .delay ms _ | .interval ms _ =>
      0 < ms ∧ |start + ms| ≤ maxTime ∧ isoText start < isoText (start + ms)
  | .cron expr _ => ∃ t, FirstAdmitted zone expr start t ∧ SortsLater start t

/-- This run is the last one allowed, or the job is off and its schedule has a
next date, or its schedule has a later one. -/
def CronJob.MayRun (zone : Zone) (start : ℤ) (j : CronJob) : Prop :=
  j.LastAllowed ∨ j.enabled = false ∧ j.schedule.Continues zone start ∨
    j.schedule.Advances zone start

/-! ## The search -/

theorem searchCron_eq_some_iff {fields : List Text} {n : ℕ} {check found : Option ℤ} :
    searchCron zone fields n check = some found ↔
      ∃ k < n, (nextMinute zone)^[k] check = found ∧ matchesCron zone fields found = true ∧
        ∀ i < k, matchesCron zone fields ((nextMinute zone)^[i] check) = false := by
  induction n generalizing check with
  | zero =>
      rw [searchCron]
      exact ⟨nofun, fun ⟨k, hk, _⟩ => absurd hk (Nat.not_lt_zero k)⟩
  | succ n ih =>
      rw [searchCron]
      by_cases hm : matchesCron zone fields check = true
      · rw [if_pos hm]
        constructor
        · intro h
          cases h
          exact ⟨0, Nat.succ_pos n, rfl, hm, fun i hi => absurd hi (Nat.not_lt_zero i)⟩
        · rintro ⟨k, hk, hfound, hadmit, hfirst⟩
          cases k with
          | zero => exact congrArg some hfound
          | succ k =>
              have := hfirst 0 (Nat.succ_pos k)
              rw [Function.iterate_zero, id, hm] at this
              cases this
      · rw [if_neg hm, ih]
        constructor
        · rintro ⟨k, hk, hfound, hadmit, hfirst⟩
          refine ⟨k + 1, Nat.succ_lt_succ hk, hfound, hadmit, fun i hi => ?_⟩
          cases i with
          | zero => exact Bool.eq_false_iff.mpr hm
          | succ i => exact hfirst i (Nat.lt_of_succ_lt_succ hi)
        · rintro ⟨k, hk, hfound, hadmit, hfirst⟩
          cases k with
          | zero =>
              rw [Function.iterate_zero, id] at hfound
              rw [hfound] at hm
              exact absurd hadmit hm
          | succ k =>
              exact ⟨k, Nat.lt_of_succ_lt_succ hk, hfound, hadmit,
                fun i hi => hfirst (i + 1) (Nat.succ_lt_succ hi)⟩

theorem computeNextCronRun_eq_ok_iff {expr : Text} {t : ℤ} :
    computeNextCronRun zone expr start = .ok t ↔ FirstAdmitted zone expr start t := by
  have hsearch := @searchCron_eq_some_iff zone (splitSpaces expr) searchLimit
    (firstCheck zone start) (some t)
  rw [computeNextCronRun, FirstAdmitted]
  by_cases hlen : (splitSpaces expr).length = 5
  · rw [if_neg (not_not.mpr hlen)]
    refine Iff.trans ?_ (hsearch.trans (and_iff_right hlen).symm)
    cases searchCron zone (splitSpaces expr) searchLimit (firstCheck zone start) with
    | none => exact ⟨nofun, nofun⟩
    | some found =>
        cases found with
        | none => exact ⟨nofun, nofun⟩
        | some t' =>
            constructor
            · intro h
              cases h
              rfl
            · intro h
              cases h
              rfl
  · rw [if_pos hlen]
    exact ⟨nofun, fun h => absurd h.1 hlen⟩

theorem timed_eq_ok_iff {t u : ℤ} :
    (match timeClip t with
      | none => Except.error CronError.invalidTimeValue
      | some t => .ok t) = .ok u ↔ |t| ≤ maxTime ∧ t = u := by
  rw [timeClip]
  by_cases h : |t| ≤ maxTime
  · rw [if_pos h]
    exact ⟨fun hu => ⟨h, Except.ok.inj hu⟩, fun hu => congrArg Except.ok hu.2⟩
  · rw [if_neg h]
    exact ⟨nofun, fun hu => absurd hu.1 h⟩

theorem continues_iff {schedule : CronSchedule} :
    schedule.Continues zone start ↔ ∃ t, computeNextRun zone schedule start = .ok t := by
  cases schedule with
  | delay ms =>
      exact ⟨fun h => ⟨_, timed_eq_ok_iff.mpr ⟨h, rfl⟩⟩, fun ⟨_, h⟩ => (timed_eq_ok_iff.mp h).1⟩
  | interval ms =>
      exact ⟨fun h => ⟨_, timed_eq_ok_iff.mpr ⟨h, rfl⟩⟩, fun ⟨_, h⟩ => (timed_eq_ok_iff.mp h).1⟩
  | cron expr => exact exists_congr fun t => computeNextCronRun_eq_ok_iff.symm

theorem advances_iff {schedule : CronSchedule} :
    schedule.Advances zone start ↔
      ∃ t, computeNextRun zone schedule start = .ok t ∧ SortsLater start t := by
  have htimed : ∀ ms : ℕ, (0 < ms ∧ |start + ms| ≤ maxTime ∧ isoText start < isoText (start + ms)) ↔
      ∃ t, (|start + ms| ≤ maxTime ∧ start + ms = t) ∧ SortsLater start t := by
    intro ms
    constructor
    · rintro ⟨hpos, hdate, hsorts⟩
      exact ⟨_, ⟨hdate, rfl⟩, by omega, hsorts⟩
    · rintro ⟨t, ⟨hdate, rfl⟩, hlater, hsorts⟩
      exact ⟨by omega, hdate, hsorts⟩
  cases schedule with
  | delay ms =>
      exact (htimed ms).trans (exists_congr fun t => and_congr_left' timed_eq_ok_iff.symm)
  | interval ms =>
      exact (htimed ms).trans (exists_congr fun t => and_congr_left' timed_eq_ok_iff.symm)
  | cron expr =>
      exact exists_congr fun t => and_congr_left' computeNextCronRun_eq_ok_iff.symm

/-! ## One job -/

theorem limitReached_noteRun {j : CronJob} :
    (j.noteRun status error ranAt).limitReached = true ↔ j.LastAllowed := by
  have hlimit : (j.noteRun status error ranAt).limit = j.limit := rfl
  rw [CronJob.limitReached, hlimit, CronJob.LastAllowed]
  cases j.limit with
  | none => exact ⟨nofun, nofun⟩
  | some limit => exact ⟨fun h => ⟨limit, rfl, of_decide_eq_true h⟩, fun ⟨_, h, hle⟩ =>
      decide_eq_true (Option.some.inj h ▸ hle)⟩

/-- The three ways a marked run can end. -/
theorem markRun_cases (zone : Zone) (status : RunStatus) (error : Option Text) (ranAt start : ℤ)
    (j : CronJob) :
    (j.LastAllowed ∧ j.markRun zone status error ranAt start =
      ({ j.noteRun status error ranAt with enabled := false }, .ok ())) ∨
    (¬ j.LastAllowed ∧ ∃ t, computeNextRun zone j.schedule start = .ok t ∧
      j.markRun zone status error ranAt start =
        ({ j.noteRun status error ranAt with nextRunAt := t }, .ok ())) ∨
    (¬ j.LastAllowed ∧ ∃ e, computeNextRun zone j.schedule start = .error e ∧
      j.markRun zone status error ranAt start = (j.noteRun status error ranAt, .error e)) := by
  have hschedule : (j.noteRun status error ranAt).schedule = j.schedule := rfl
  rw [CronJob.markRun]
  dsimp only
  by_cases hlast : j.LastAllowed
  · rw [if_pos (limitReached_noteRun.mpr hlast)]
    exact .inl ⟨hlast, rfl⟩
  · rw [if_neg (mt limitReached_noteRun.mp hlast), hschedule]
    cases hnext : computeNextRun zone j.schedule start with
    | ok t => exact .inr (.inl ⟨hlast, t, rfl, rfl⟩)
    | error e => exact .inr (.inr ⟨hlast, e, rfl, rfl⟩)

theorem id_markRun (j : CronJob) : (j.markRun zone status error ranAt start).1.id = j.id := by
  rcases markRun_cases zone status error ranAt start j with ⟨-, h⟩ | ⟨-, _, -, h⟩ | ⟨-, _, -, h⟩ <;>
    rw [h] <;> rfl

theorem isDue_eq_false_of_sorts {j : CronJob} {now : ℤ} (h : isoText now < isoText j.nextRunAt) :
    j.isDue now = false := by
  rw [CronJob.isDue, decide_eq_true h, Bool.or_true, if_pos rfl]

theorem sorts_of_isDue_eq_false {j : CronJob} {now : ℤ} (henabled : j.enabled = true)
    (hrunning : j.running = false) (h : j.isDue now = false) :
    isoText now < isoText j.nextRunAt := by
  by_contra hnot
  rw [CronJob.isDue, henabled, hrunning, decide_eq_false hnot] at h
  cases h

theorem markRun_progresses_iff (zone : Zone) (status : RunStatus) (error : Option Text)
    (ranAt start : ℤ) (j : CronJob) :
    (RunsLater start (j.markRun zone status error ranAt start).1 ∧
      ∀ e, (j.markRun zone status error ranAt start).2 = .error e →
        (j.markRun zone status error ranAt start).1.progress = j.progress) ↔
      j.MayRun zone start := by
  rw [CronJob.MayRun, continues_iff, advances_iff]
  rcases markRun_cases zone status error ranAt start j with
    ⟨hlast, hrun⟩ | ⟨hlast, t, hnext, hrun⟩ | ⟨hlast, e, hnext, hrun⟩
  · rw [hrun]
    exact ⟨fun _ => .inl hlast, fun _ => ⟨.inl rfl, fun _ h => nomatch h⟩⟩
  · rw [hrun, hnext]
    constructor
    · rintro ⟨hoff | ⟨hlater, hdue⟩, -⟩
      · exact .inr (.inl ⟨hoff, t, rfl⟩)
      · cases henabled : j.enabled with
        | false => exact .inr (.inl ⟨rfl, t, rfl⟩)
        | true =>
            have hsorts := sorts_of_isDue_eq_false
              (j := { j.noteRun status error ranAt with nextRunAt := t }) henabled rfl hdue
            exact .inr (.inr ⟨t, rfl, hlater, hsorts⟩)
    · rintro (h | ⟨hoff, -⟩ | ⟨t', ht', hlater, hsorts⟩)
      · exact absurd h hlast
      · exact ⟨.inl hoff, fun _ h => nomatch h⟩
      · cases Except.ok.inj ht'
        exact ⟨.inr ⟨hlater, isDue_eq_false_of_sorts hsorts⟩, fun _ h => nomatch h⟩
  · rw [hrun, hnext]
    constructor
    · rintro ⟨-, hkept⟩
      -- the run has been counted
      have hcompleted := congrArg Prod.fst (hkept e rfl)
      exact absurd hcompleted (Nat.succ_ne_self _)
    · rintro (h | ⟨-, _, h⟩ | ⟨_, h, -⟩)
      · exact absurd h hlast
      · cases h
      · cases h

/-! ## The store -/

theorem getJob_markJobRun :
    (s.markJobRun zone id status error ranAt start).1.getJob id =
      (s.getJob id).map fun j => (j.markRun zone status error ranAt start).1 := by
  rw [CronStore.markJobRun]
  cases hjob : s.getJob id with
  | none => exact hjob
  | some job =>
      have hget := find?_updateJob (f := fun j => (j.markRun zone status error ranAt start).1)
        id_markRun id s.jobs
      rw [show s.jobs.find? _ = _ from hjob] at hget
      dsimp only
      cases (job.markRun zone status error ranAt start).2 with
      | error => exact hget
      | ok => exact hget

theorem result_markJobRun {job : CronJob} (hjob : s.getJob id = some job) :
    (s.markJobRun zone id status error ranAt start).2 =
      (job.markRun zone status error ranAt start).2 := by
  rw [CronStore.markJobRun, hjob]
  dsimp only
  cases (job.markRun zone status error ranAt start).2 <;> rfl

/-- A call lets the job run later, or leaves it alone, exactly when the run was
the last one allowed or the schedule has a later date. -/
theorem markJobRun_progresses_iff (zone : Zone) (s : CronStore) (id : Text) (status : RunStatus)
    (error : Option Text) (ranAt start : ℤ) :
    Progresses zone s id status error ranAt start ↔
      ∀ job, s.getJob id = some job → job.MayRun zone start := by
  rw [Progresses, getJob_markJobRun]
  cases hjob : s.getJob id with
  | none =>
      rw [CronStore.markJobRun, hjob]
      exact ⟨fun _ _ h => (nomatch h), fun _ => ⟨fun _ h => (nomatch h), fun _ h => nomatch h⟩⟩
  | some job =>
      rw [result_markJobRun hjob]
      simp only [Option.map_some, Option.mem_def, Option.some.injEq, forall_eq']
      exact markRun_progresses_iff zone status error ranAt start job

/-! ## The interval of no length -/

def zeroInterval : JobRequest where
  name := js "tick"
  prompt := js "go"
  schedule := .interval 0 (js "every 0s")
  deliver := ⟨js "c", js "t", js "http"⟩
  kind := none
  repeatTimes := none
  loop := none

/-- The schedule is accepted, and the job is due at the instant it has run. -/
theorem markJobRun_due_again :
    parseSchedule (js "every 0s") = .ok zeroInterval.schedule ∧
      ∃ s job, CronStore.empty.addJob ⟨fun t => t, .utc⟩ zeroInterval (js "a1") 1000 1000 1000 =
        .ok (s, job) ∧ ¬ Progresses .utc s job.id .ok none 2000 2000 := by
  refine ⟨by decide +kernel, _, _, rfl, fun h => ?_⟩
  rcases h.1 _ rfl with hoff | ⟨hlater, -⟩
  · cases hoff
  · exact absurd hlater (lt_irrefl _)

end Shizuha.Cron
