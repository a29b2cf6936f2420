import Shizuha.Js.Date
import Shizuha.Js.Regex

/-!
# Schedules

A job runs after a delay, at an interval, or at the minutes a cron expression
names. The texts of the first two are read by a pattern each; a cron
expression is only checked for its characters and kept, and the next minute it
names is searched for, one minute of local time after the other, for a year.

A date that has run out of range is no date (`none`): its parts are NaN, which
a wildcard still matches, and it has no ISO text.
-/

namespace Shizuha.Cron

open Js

inductive CronSchedule where
  | delay (ms : ℕ) (display : Text)
  | interval (ms : ℕ) (display : Text)
  | cron (expr display : Text)
  deriving DecidableEq

inductive CronError where
  | invalidSchedule (input : Text)
  | unknownUnit (unit : Text)
  | invalidCron (expr : Text)
  | noMatchingTime (expr : Text)
  | invalidTimeValue
  | loopKeyRequired
  | tooFewIterations
  | overRunawayCap
  | iterationsReached (key : Text) (maxIterations : ℚ)
  | alreadyActive (key : Text)
  | coolingDown (key : Text) (remaining : ℤ)
  | forbiddenPoll
  deriving DecidableEq

def CronError.message : CronError → Text
  | .invalidSchedule input =>
      js "Invalid schedule: \"" ++ input ++
        js "\". Use \"30m\" (delay), \"every 2h\" (interval), or \"0 9 * * *\" (cron)."
  | .unknownUnit unit => js "Unknown time unit: " ++ unit
  | .invalidCron expr => js "Invalid cron expression: \"" ++ expr ++ js "\" (need 5 fields)"
  | .noMatchingTime expr =>
      js "No matching time found for cron \"" ++ expr ++ js "\" in the next year"
  | .invalidTimeValue => js "Invalid time value"
  | .loopKeyRequired => js "loop key is required"
  | .tooFewIterations => js "maxIterations must be at least 1"
  | .overRunawayCap => js "maxIterations exceeds hard runaway cap (50)"
  | .iterationsReached key maxIterations =>
      js "loop \"" ++ key ++ js "\" has reached maxIterations (" ++ numeral maxIterations ++ js ")"
  | .alreadyActive key => js "loop \"" ++ key ++ js "\" already has an active scheduled wakeup"
  | .coolingDown key remaining =>
      js "loop \"" ++ key ++ js "\" is cooling down; retry in " ++ numeral remaining ++ js "s"
  | .forbiddenPoll =>
      js "Refused: interval PR/CI/serving watches poison the eternal session (skill " ++
        js "context-poisoning). Hook the event (Forgejo webhook, Pulse transition, CI status, " ++
        js "Cortex health) instead of polling with schedule_job. One-shot delays and calendar " ++
        js "crons are still allowed."

/-! ## Reading a schedule -/

open Regex in
def unitPattern : Regex :=
  oneOf [litI (js "s"), litI (js "sec"), .seq (litI (js "second")) (opt (litI (js "s"))),
    litI (js "m"), litI (js "min"), .seq (litI (js "minute")) (opt (litI (js "s"))),
    litI (js "h"), litI (js "hr"), .seq (litI (js "hour")) (opt (litI (js "s"))),
    litI (js "d"), .seq (litI (js "day")) (opt (litI (js "s")))]

open Regex in
/-- An amount and its unit; `group` says which of the two is captured. -/
def durationPattern (head : List Regex) (group : ℕ) : Regex :=
  let captured (k : ℕ) (r : Regex) : Regex := if group = k then .capture r else r
  cat (.bos :: head ++ [captured 1 (plus digit), star space, captured 2 unitPattern, .eos])

open Regex in
/-- `/^every\s+…/`, the head of an interval. -/
def everyPattern : List Regex := [litI (js "every"), plus space]

def isCronUnit (u : UInt16) : Bool := isDigit u || u == 42 || u == 44 || u == 47 || u == 45

open Regex in
def cronPattern : Regex :=
  cat [.bos, .rep true 4 (some 4) (.seq (plus (.unit isCronUnit)) (plus space)),
    plus (.unit isCronUnit), .eos]

def parseDuration (value : ℕ) (unit : Text) : Except CronError ℕ :=
  let raw := unit.map Regex.foldUnit
  if raw = js "s" then .ok (value * 1000)
  else
    let u := if raw.getLast? = some 115 then raw.dropLast else raw
    if u = js "sec" ∨ u = js "second" then .ok (value * 1000)
    else if u = js "min" ∨ u = js "minute" ∨ u = js "m" then .ok (value * 60000)
    else if u = js "hr" ∨ u = js "hour" ∨ u = js "h" then .ok (value * 3600000)
    else if u = js "day" ∨ u = js "d" then .ok (value * 86400000)
    else .error (.unknownUnit unit)

/-- The milliseconds of a duration with the given head, when the text is one. -/
def readDuration (head : List Regex) (s : Text) : Option (Except CronError ℕ) :=
  match (durationPattern head 1).exec s, (durationPattern head 2).exec s with
  | some amount, some unit =>
      some (parseDuration (digitsVal (amount.group.getD [])) (unit.group.getD []))
  | _, _ => none

def parseSchedule (input : Text) : Except CronError CronSchedule :=
  let trimmed := trim input
  match readDuration everyPattern trimmed with
  | some ms => ms.map fun ms => .interval ms trimmed
  | none =>
      match readDuration [] trimmed with
      | some ms => ms.map fun ms => .delay ms trimmed
      | none =>
          if cronPattern.test trimmed then .ok (.cron trimmed trimmed)
          else .error (.invalidSchedule trimmed)

/-! ## Cron fields -/

/-- The pieces between the runs of white space. -/
def splitSpaces : Text → List Text
  | [] => [[]]
  | u :: s =>
      if isSpace u then
        match s with
        | [] => [[], []]
        | v :: _ => if isSpace v then splitSpaces s else [] :: splitSpaces s
      else
        match splitSpaces s with
        | [] => [[u]]
        | l :: rest => (u :: l) :: rest

def splitComma : Text → List Text
  | [] => [[]]
  | u :: s =>
      if u = 44 then [] :: splitComma s
      else
        match splitComma s with
        | [] => [[u]]
        | l :: rest => (u :: l) :: rest

open Regex in
/-- `/^(\*|(\d+)-(\d+))\/(\d+)$/`, with one of its groups captured. -/
def stepPattern (group : ℕ) : Regex :=
  let captured (k : ℕ) (r : Regex) : Regex := if group = k then .capture r else r
  cat [.bos,
    .alt (lit (js "*")) (cat [captured 2 (plus digit), lit (js "-"), captured 3 (plus digit)]),
    lit (js "/"), captured 4 (plus digit), .eos]

open Regex in
def rangePattern (group : ℕ) : Regex :=
  let captured (k : ℕ) (r : Regex) : Regex := if group = k then .capture r else r
  cat [.bos, captured 1 (plus digit), lit (js "-"), captured 2 (plus digit), .eos]

/-- `parseInt(part, 10)`: the digits the text begins with, after white space and
a sign. -/
def parseIntPrefix (part : Text) : Option ℤ :=
  let s := part.dropWhile isSpace
  let (negative, s) :=
    match s with
    | 45 :: rest => (true, rest)
    | 43 :: rest => (false, rest)
    | _ => (false, s)
  match s.takeWhile isDigit with
  | [] => none
  | ds => some (if negative then -(digitsVal ds : ℤ) else digitsVal ds)

theorem not_space_of_digit {u : UInt16} (h : isDigit u = true) : isSpace u = false := by
  simp only [isDigit, Bool.and_eq_true, decide_eq_true_eq, UInt16.le_iff_toNat_le] at h
  simp only [isSpace, Bool.or_eq_false_iff, Bool.and_eq_false_iff, decide_eq_false_iff_not,
    UInt16.le_iff_toNat_le, beq_eq_false_iff_ne, ne_eq, ← UInt16.toNat_inj]
  simp at h ⊢
  omega

theorem parseIntPrefix_digits {ds : Text} (hne : ds ≠ []) (h : ∀ u ∈ ds, isDigit u = true) :
    parseIntPrefix ds = some (digitsVal ds : ℤ) := by
  obtain ⟨u, rest, rfl⟩ := List.exists_cons_of_ne_nil hne
  have hu : isDigit u = true := h u List.mem_cons_self
  have htake : (u :: rest).takeWhile isDigit = u :: rest := List.takeWhile_eq_self_iff.mpr h
  have hdrop : (u :: rest).dropWhile isSpace = u :: rest := by
    rw [List.dropWhile_cons_of_neg (by simp [not_space_of_digit hu])]
  have h45 : u ≠ 45 := fun heq => by rw [heq] at hu; exact absurd hu (by decide)
  have h43 : u ≠ 43 := fun heq => by rw [heq] at hu; exact absurd hu (by decide)
  rw [parseIntPrefix, hdrop]
  split
  next negative t heq =>
    have hsign : negative = false ∧ t = u :: rest := by
      split at heq
      next hcons =>
        cases hcons
        exact absurd rfl h45
      next hcons =>
        cases hcons
        exact absurd rfl h43
      next =>
        cases heq
        exact ⟨rfl, rfl⟩
    obtain ⟨rfl, rfl⟩ := hsign
    rw [htake]
    rfl

def groupOf (pattern : Regex) (s : Text) : Option ℕ :=
  (pattern.exec s).bind fun m => m.group.map digitsVal

/-- Whether one part of a field admits a value; `none` is NaN. -/
def matchCronPart (part : Text) (value : Option ℕ) (min max : ℕ) : Bool :=
  if part = js "*" then true
  else
    match value with
    | none => false
    | some value =>
        if (stepPattern 0).test part then
          let step := (groupOf (stepPattern 4) part).getD 0
          let rangeStart := (groupOf (stepPattern 2) part).getD min
          let rangeEnd := (groupOf (stepPattern 3) part).getD max
          -- a remainder by zero is NaN
          rangeStart ≤ value && value ≤ rangeEnd && step ≠ 0 && (value - rangeStart) % step = 0
        else if (rangePattern 0).test part then
          (groupOf (rangePattern 1) part).getD 0 ≤ value &&
            value ≤ (groupOf (rangePattern 2) part).getD 0
        else parseIntPrefix part = some value

def matchCronField (field : Text) (value : Option ℕ) (min max : ℕ) : Bool :=
  (splitComma field).any fun part => matchCronPart part value min max

/-! ## The next run -/

/-- `setMinutes(getMinutes() + 1)`. -/
def nextMinute (zone : Zone) (check : Option ℤ) : Option ℤ :=
  check.bind fun t => timeClip (zone.fromLocal (zone.localTime t + 60000))

/-- The first minute looked at: the one after the minute of `start`. -/
def firstCheck (zone : Zone) (start : ℤ) : Option ℤ :=
  let l := zone.localTime start
  nextMinute zone (timeClip (zone.fromLocal (l - l % 60000)))

/-- Whether the five fields admit a minute of local time. -/
def matchesCron (zone : Zone) (fields : List Text) (check : Option ℤ) : Bool :=
  let part (f : ℤ → ℕ) : Option ℕ := check.map fun t => f (zone.localTime t)
  match fields with
  | [minute, hour, date, month, weekday] =>
      matchCronField minute (part minuteOf) 0 59 && matchCronField hour (part hourOf) 0 23 &&
        matchCronField date (part dateOf) 1 31 &&
        matchCronField month (part fun l => monthOf l + 1) 1 12 &&
        matchCronField weekday (part weekdayOf) 0 6
  | _ => false

/-- The first minute admitted, among as many as the fuel says. -/
def searchCron (zone : Zone) (fields : List Text) : ℕ → Option ℤ → Option (Option ℤ)
  | 0, _ => none
  | n + 1, check =>
      if matchesCron zone fields check then some check
      else searchCron zone fields n (nextMinute zone check)

/-- A year of minutes. -/
def searchLimit : ℕ := 366 * 24 * 60

def computeNextCronRun (zone : Zone) (expr : Text) (start : ℤ) : Except CronError ℤ :=
  let fields := splitSpaces expr
  if fields.length ≠ 5 then .error (.invalidCron expr)
  else
    match searchCron zone fields searchLimit (firstCheck zone start) with
    | none => .error (.noMatchingTime expr)
    | some none => .error .invalidTimeValue
    | some (some t) => .ok t

def computeNextRun (zone : Zone) (schedule : CronSchedule) (start : ℤ) : Except CronError ℤ :=
  match schedule with
  | .delay ms _ | .interval ms _ =>
      match timeClip (start + ms) with
      | none => .error .invalidTimeValue
      | some t => .ok t
  | .cron expr _ => computeNextCronRun zone expr start

end Shizuha.Cron
