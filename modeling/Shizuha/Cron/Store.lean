import Mathlib.Data.Rat.Floor
import Shizuha.Cron.Schedule

/-!
# The job store

Jobs live in memory and are written to one file after every change; `load`
takes the file back and repairs what an older version left in it. Every call
does its work before its first await, so a call is one step of the store; the
file is what the last save wrote.

A stored date is a time value and is compared through its ISO text, as the
source compares the strings. A call reads the clock more than once, and each
reading comes with the call. Absent flags are false, as the source reads them.
-/

namespace Shizuha.Cron

open Js

/-! ## The data -/

structure CronDelivery where
  channelId : Text
  threadId : Text
  channelType : Text
  deriving DecidableEq

inductive CronJobKind where
  | job
  | wakeup
  deriving DecidableEq

inductive WakeupLoopMode where
  | dynamic
  | fixed
  deriving DecidableEq

structure WakeupLoopConfig where
  key : Text
  mode : WakeupLoopMode
  /-- `none` is a number that is not finite. -/
  maxIterations : Option ℚ
  cooldownMs : ℚ
  deriving DecidableEq

inductive RunStatus where
  | ok
  | error
  deriving DecidableEq

structure Repeat where
  /-- `none` is for ever. -/
  times : Option ℚ
  completed : ℕ
  deriving DecidableEq

structure CronJob where
  id : Text
  name : Text
  prompt : Text
  schedule : CronSchedule
  enabled : Bool
  kind : CronJobKind
  createdAt : ℤ
  nextRunAt : ℤ
  lastRunAt : Option ℤ
  lastStatus : Option RunStatus
  lastError : Option Text
  running : Bool
  claimedAt : Option ℤ
  repeats : Repeat
  deliver : CronDelivery
  loop : Option WakeupLoopConfig
  deriving DecidableEq

structure LoopStats where
  key : Text
  jobs : ℕ
  completed : ℕ
  active : ℕ
  lastRunAt : Option ℤ
  lastCreatedAt : Option ℤ

structure CronStore where
  jobs : List CronJob
  /-- The jobs the file holds, once there is a file. -/
  file : Option (List CronJob)

def CronStore.empty : CronStore := ⟨[], none⟩

/-- What the store takes from the machine it runs on. -/
structure CronEnv where
  toLowerCase : Text → Text
  zone : Zone

def hardWakeupRunawayCap : ℚ := 50

def hardIntervalRunawayCap : ℚ := 50

def CronSchedule.isInterval : CronSchedule → Bool
  | .interval .. => true
  | _ => false

/-! ## Admission -/

def forbiddenIntervalPollNeedles : List Text :=
  [js "merge-on-green", js "merge watch", js "re-anchor", js "commit status", js "until merged",
    js "until green", js "/pulls/", js "/api/v1/repos/", js "origin.shizuha.com/api",
    js "serving watchdog", js "approval watch"]

def isForbiddenIntervalPoll (toLowerCase : Text → Text) (name prompt : Text) : Bool :=
  let blob := toLowerCase (name ++ [newline] ++ prompt)
  forbiddenIntervalPollNeedles.any fun needle => includes blob needle

def defaultRepeatTimes (schedule : CronSchedule) (explicit : Option ℚ) : Option ℚ :=
  match explicit with
  | some times =>
      if schedule.isInterval then some (min times hardIntervalRunawayCap) else some times
  | none =>
      match schedule with
      | .delay .. => some 1
      | .interval .. => some hardIntervalRunawayCap
      | .cron .. => none

/-- `.sort().at(-1)` of the texts of some dates. -/
def latest (dates : List ℤ) : Option ℤ :=
  dates.foldl (fun last t =>
    match last with
    | none => some t
    | some last => if isoText t < isoText last then some last else some t) none

def CronStore.getLoopStats (s : CronStore) (loopKey : Text) : LoopStats :=
  let jobs := s.jobs.filter fun j => j.loop.map WakeupLoopConfig.key = some loopKey
  ⟨loopKey, jobs.length, (jobs.map fun j => j.repeats.completed).sum,
    (jobs.filter CronJob.enabled).length, latest (jobs.filterMap CronJob.lastRunAt),
    latest (jobs.map CronJob.createdAt)⟩

/-- The checks of a dynamic loop against the jobs that are stored. -/
def checkDynamicLoop (loop : WakeupLoopConfig) (maxIterations : ℚ) (stats : LoopStats) (now : ℤ) :
    Except CronError Unit :=
  if maxIterations ≤ stats.jobs then .error (.iterationsReached loop.key maxIterations)
  else if 0 < stats.active then .error (.alreadyActive loop.key)
  else
    match stats.lastRunAt <|> stats.lastCreatedAt with
    | none => .ok ()
    | some lastActivity =>
        let age := now - lastActivity
        if 0 < loop.cooldownMs ∧ 0 ≤ age ∧ (age : ℚ) < loop.cooldownMs then
          .error (.coolingDown loop.key ⌈(loop.cooldownMs - age) / 1000⌉)
        else .ok ()

def CronStore.assertLoopCanBeScheduled (s : CronStore) (loop : WakeupLoopConfig) (now : ℤ) :
    Except CronError Unit :=
  if trim loop.key = [] then .error .loopKeyRequired
  else
    match loop.maxIterations with
    | none => .error .tooFewIterations
    | some maxIterations =>
        if maxIterations < 1 then .error .tooFewIterations
        else if hardWakeupRunawayCap < maxIterations then .error .overRunawayCap
        else
          match loop.mode with
          | .fixed => .ok ()
          | .dynamic => checkDynamicLoop loop maxIterations (s.getLoopStats loop.key) now

/-! ## The operations -/

def CronStore.save (s : CronStore) : CronStore := { s with file := some s.jobs }

/-- What `addJob` is asked for. -/
structure JobRequest where
  name : Text
  prompt : Text
  schedule : CronSchedule
  deliver : CronDelivery
  kind : Option CronJobKind
  repeatTimes : Option ℚ
  loop : Option WakeupLoopConfig

def JobRequest.forbidden (toLowerCase : Text → Text) (opts : JobRequest) : Bool :=
  opts.schedule.isInterval && opts.kind.getD .job ≠ .wakeup &&
    isForbiddenIntervalPoll toLowerCase opts.name opts.prompt

def JobRequest.job (opts : JobRequest) (id : Text) (createdAt nextRunAt : ℤ) : CronJob where
  id := id
  name := opts.name
  prompt := opts.prompt
  schedule := opts.schedule
  enabled := true
  kind := opts.kind.getD .job
  createdAt := createdAt
  nextRunAt := nextRunAt
  lastRunAt := none
  lastStatus := none
  lastError := none
  running := false
  claimedAt := none
  repeats := ⟨defaultRepeatTimes opts.schedule opts.repeatTimes, 0⟩
  deliver := opts.deliver
  loop := opts.loop

/-- `checkedAt`, `createdAt` and `start` are the readings of the clock, in order. -/
def CronStore.addJob (env : CronEnv) (s : CronStore) (opts : JobRequest) (id : Text)
    (checkedAt createdAt start : ℤ) : Except CronError (CronStore × CronJob) := do
  match opts.loop with
  | none => pure ()
  | some loop => s.assertLoopCanBeScheduled loop checkedAt
  if opts.forbidden env.toLowerCase then throw .forbiddenPoll
  let nextRunAt ← computeNextRun env.zone opts.schedule start
  let job := opts.job id createdAt nextRunAt
  return (CronStore.save { s with jobs := s.jobs ++ [job] }, job)

/-- A job that is added passed the checks and has a next run. -/
theorem addJob_eq_ok {env : CronEnv} {s : CronStore} {opts : JobRequest}
    {id : Text} {checkedAt createdAt start : ℤ} {s' : CronStore} {job : CronJob} (h : s.addJob env opts id checkedAt createdAt start = .ok (s', job)) :
    (∀ loop, opts.loop = some loop → s.assertLoopCanBeScheduled loop checkedAt = .ok ()) ∧
      ∃ t, computeNextRun env.zone opts.schedule start = .ok t ∧ job = opts.job id createdAt t ∧
        s' = CronStore.save { s with jobs := s.jobs ++ [job] } := by
  have hrest : ∀ {admitted : Except CronError Unit},
      (do
        admitted
        if opts.forbidden env.toLowerCase then throw .forbiddenPoll
        let nextRunAt ← computeNextRun env.zone opts.schedule start
        return (CronStore.save { s with jobs := s.jobs ++ [opts.job id createdAt nextRunAt] },
          opts.job id createdAt nextRunAt)) = Except.ok (s', job) →
      admitted = .ok () ∧ ∃ t, computeNextRun env.zone opts.schedule start = .ok t ∧
        job = opts.job id createdAt t ∧
        s' = CronStore.save { s with jobs := s.jobs ++ [job] } := by
    intro admitted h
    cases admitted with
    | error e => cases h
    | ok =>
        cases hforbidden : opts.forbidden env.toLowerCase with
        | true =>
            rw [hforbidden] at h
            cases h
        | false =>
            rw [hforbidden] at h
            cases hnext : computeNextRun env.zone opts.schedule start with
            | error e =>
                rw [hnext] at h
                cases h
            | ok t =>
                rw [hnext] at h
                cases h
                exact ⟨rfl, t, rfl, rfl, rfl⟩
  rw [CronStore.addJob] at h
  cases hloop : opts.loop with
  | none =>
      rw [hloop] at h
      exact ⟨nofun, (@hrest (pure ()) h).2⟩
  | some loop =>
      rw [hloop] at h
      obtain ⟨hadmitted, hadded⟩ := hrest h
      exact ⟨fun _ hl => Option.some.inj hl ▸ hadmitted, hadded⟩
def CronStore.getJob (s : CronStore) (id : Text) : Option CronJob := s.jobs.find? fun j => j.id = id

theorem getJob_mem {s : CronStore} {id : Text} {j : CronJob} (h : s.getJob id = some j) :
    j ∈ s.jobs ∧ j.id = id :=
  ⟨List.mem_of_find?_eq_some h, by simpa using List.find?_some h⟩

/-- The jobs with the first one of that id changed. -/
def updateJob (f : CronJob → CronJob) (id : Text) : List CronJob → List CronJob
  | [] => []
  | j :: jobs => if j.id = id then f j :: jobs else j :: updateJob f id jobs

section UpdateJob

variable {f : CronJob → CronJob} {id id' : Text}

theorem find?_updateJob (hf : ∀ j, (f j).id = j.id) (id : Text) (jobs : List CronJob) :
    (updateJob f id jobs).find? (fun j => j.id = id) =
      (jobs.find? fun j => j.id = id).map f := by
  induction jobs with
  | nil => rfl
  | cons j jobs ih =>
      rw [updateJob]
      by_cases h : j.id = id
      · rw [if_pos h, List.find?_cons_of_pos (by simpa [hf] using h),
          List.find?_cons_of_pos (by simpa using h)]
        rfl
      · rw [if_neg h, List.find?_cons_of_neg (by simpa using h),
          List.find?_cons_of_neg (by simpa using h), ih]

theorem mem_updateJob {j : CronJob} {jobs : List CronJob} (h : j ∈ updateJob f id jobs) :
    j ∈ jobs ∨ ∃ j₀ ∈ jobs, j₀.id = id ∧ j = f j₀ := by
  induction jobs with
  | nil => exact .inl h
  | cons j₁ jobs ih =>
      rw [updateJob] at h
      split at h
      next hid =>
        rcases List.mem_cons.mp h with rfl | h
        · exact .inr ⟨j₁, List.mem_cons_self, hid, rfl⟩
        · exact .inl (List.mem_cons_of_mem _ h)
      next =>
        rcases List.mem_cons.mp h with rfl | h
        · exact .inl List.mem_cons_self
        · rcases ih h with h | ⟨j₀, hj₀, hid, rfl⟩
          · exact .inl (List.mem_cons_of_mem _ h)
          · exact .inr ⟨j₀, List.mem_cons_of_mem _ hj₀, hid, rfl⟩

theorem map_id_updateJob (hf : ∀ j, (f j).id = j.id) (id : Text) (jobs : List CronJob) :
    (updateJob f id jobs).map CronJob.id = jobs.map CronJob.id := by
  induction jobs with
  | nil => rfl
  | cons j jobs ih =>
      rw [updateJob]
      split
      · rw [List.map_cons, List.map_cons, hf]
      · rw [List.map_cons, List.map_cons, ih]

theorem sum_updateJob (w : CronJob → ℕ) {jobs : List CronJob} {job : CronJob}
    (hjob : jobs.find? (fun j => j.id = id) = some job) :
    ((updateJob f id jobs).map w).sum + w job = (jobs.map w).sum + w (f job) := by
  induction jobs with
  | nil => cases hjob
  | cons j jobs ih =>
      rw [updateJob]
      by_cases h : j.id = id
      · rw [List.find?_cons_of_pos (by simpa using h)] at hjob
        cases hjob
        rw [if_pos h, List.map_cons, List.map_cons, List.sum_cons, List.sum_cons]
        omega
      · rw [List.find?_cons_of_neg (by simpa using h)] at hjob
        rw [if_neg h, List.map_cons, List.map_cons, List.sum_cons, List.sum_cons]
        have := ih hjob
        omega

end UpdateJob

def CronStore.removeJob (s : CronStore) (id : Text) : CronStore × Bool :=
  match s.getJob id with
  | none => (s, false)
  | some _ => (CronStore.save { s with jobs := s.jobs.eraseP fun j => j.id = id }, true)

def CronStore.listJobs (s : CronStore) (includeDisabled : Bool) : List CronJob :=
  if includeDisabled then s.jobs else s.jobs.filter CronJob.enabled

/-- A claim this old counts as abandoned. -/
def staleClaimMs : ℤ := 30 * 60000

def CronJob.isDue (now : ℤ) (j : CronJob) : Bool :=
  if !j.enabled || isoText now < isoText j.nextRunAt then false
  else if !j.running then true
  else
    let claimedAt := j.claimedAt.getD 0
    0 < claimedAt && staleClaimMs < now - claimedAt

def CronStore.getDueJobs (s : CronStore) (now : ℤ) : List CronJob := s.jobs.filter (CronJob.isDue now)

def CronJob.claim (now : ℤ) (j : CronJob) : CronJob :=
  { j with running := true, claimedAt := some now }

def CronStore.claimJob (s : CronStore) (id : Text) (scannedAt claimedAt : ℤ) : CronStore × Bool :=
  match s.getJob id with
  | none => (s, false)
  | some job =>
      if !job.enabled then (s, false)
      else if (s.getDueJobs scannedAt).any fun j => j.id = id then
        (CronStore.save { s with jobs := updateJob (CronJob.claim claimedAt) id s.jobs }, true)
      else (s, false)

/-- What `markJobRun` notes before it looks at the limit. -/
def CronJob.noteRun (status : RunStatus) (error : Option Text) (now : ℤ) (j : CronJob) : CronJob :=
  { j with
    lastRunAt := some now
    lastStatus := some status
    lastError := error
    running := false
    claimedAt := none
    repeats := { j.repeats with completed := j.repeats.completed + 1 } }

def CronJob.intervalCap (j : CronJob) : Option ℚ :=
  if j.kind ≠ .wakeup ∧ j.schedule.isInterval = true then some hardIntervalRunawayCap else none

def CronJob.limit (j : CronJob) : Option ℚ := j.repeats.times <|> j.intervalCap

def CronJob.limitReached (j : CronJob) : Bool :=
  match j.limit with
  | none => false
  | some limit => limit ≤ j.repeats.completed

/-- The job after a run: over, or with its next run, or half changed when no
next run is found. -/
def CronJob.markRun (zone : Zone) (status : RunStatus) (error : Option Text) (ranAt start : ℤ)
    (j : CronJob) : CronJob × Except CronError Unit :=
  let j := j.noteRun status error ranAt
  if j.limitReached then ({ j with enabled := false }, .ok ())
  else
    match computeNextRun zone j.schedule start with
    | .error e => (j, .error e)
    | .ok nextRunAt => ({ j with nextRunAt := nextRunAt }, .ok ())

def CronStore.markJobRun (zone : Zone) (s : CronStore) (id : Text) (status : RunStatus)
    (error : Option Text) (ranAt start : ℤ) : CronStore × Except CronError Unit :=
  match s.getJob id with
  | none => (s, .ok ())
  | some job =>
      let changed : CronStore :=
        { s with
          jobs := updateJob (fun j => (j.markRun zone status error ranAt start).1) id s.jobs }
      match (job.markRun zone status error ranAt start).2 with
      | .error e => (changed, .error e)
      | .ok () => (changed.save, .ok ())

/-! ## Loading -/

/-- Without a limit, or with one above the cap of intervals. -/
def CronJob.overCap (j : CronJob) : Bool :=
  match j.repeats.times with
  | none => true
  | some times => hardIntervalRunawayCap < times

/-- One job of the repair, and whether it was changed. -/
def CronJob.repair (toLowerCase : Text → Text) (j : CronJob) : CronJob × Bool :=
  if !j.enabled || j.kind = .wakeup || !j.schedule.isInterval then (j, false)
  else
    let capped := if j.overCap then
        { j with repeats := { j.repeats with times := some hardIntervalRunawayCap } }
      else j
    if isForbiddenIntervalPoll toLowerCase j.name j.prompt then
      ({ capped with
          enabled := false
          lastError := some
            (js "forbidden interval PR/CI/serving watch — context-poisoning") }, true)
    else if hardIntervalRunawayCap ≤ j.repeats.completed then
      ({ capped with
          enabled := false
          lastError := some (js "interval runaway cap (50) reached") }, true)
    else (capped, j.overCap)

def CronStore.disableRunawayIntervalJobs (toLowerCase : Text → Text) (s : CronStore) :
    CronStore × Bool :=
  ({ s with jobs := s.jobs.map fun j => (j.repair toLowerCase).1 },
    s.jobs.any fun j => (j.repair toLowerCase).2)

def CronStore.load (toLowerCase : Text → Text) (s : CronStore) : CronStore :=
  let loaded : CronStore := { s with jobs := s.file.getD [] }
  match loaded.disableRunawayIntervalJobs toLowerCase with
  | (repaired, true) => repaired.save
  | (repaired, false) => repaired

/-! ## Runs -/

inductive CronOp where
  | addJob (opts : JobRequest) (id : Text) (checkedAt createdAt start : ℤ)
  | removeJob (id : Text)
  | getDueJobs (now : ℤ)
  | claimJob (id : Text) (scannedAt claimedAt : ℤ)
  | markJobRun (id : Text) (status : RunStatus) (error : Option Text) (ranAt start : ℤ)
  | load

/-- The readings of the clock an operation makes, in order. -/
def CronOp.readings : CronOp → List ℤ
  | .addJob _ _ checkedAt createdAt start => [checkedAt, createdAt, start]
  | .getDueJobs now => [now]
  | .claimJob _ scannedAt claimedAt => [scannedAt, claimedAt]
  | .markJobRun _ _ _ ranAt start => [ranAt, start]
  | .removeJob _ | .load => []

def cronStep (env : CronEnv) (s : CronStore) : CronOp → CronStore
  | .addJob opts id checkedAt createdAt start =>
      match s.addJob env opts id checkedAt createdAt start with
      | .ok (s, _) => s
      | .error _ => s
  | .removeJob id => (s.removeJob id).1
  | .getDueJobs _ => s
  | .claimJob id scannedAt claimedAt => (s.claimJob id scannedAt claimedAt).1
  | .markJobRun id status error ranAt start =>
      (s.markJobRun env.zone id status error ranAt start).1
  | .load => s.load env.toLowerCase

end Shizuha.Cron
