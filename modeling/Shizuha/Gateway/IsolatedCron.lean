import Shizuha.Gateway.MessageAdmission
import Shizuha.Machine

/-!
# Cron ticks apart from the eternal session

The tick of an interval job runs in the eternal session like any other message,
and when it is done its rows are to be gone. An attempt remembers how long the
history was when it started, and cuts it back to that when the message is done.
An attempt that ends with the row back in the inbox cuts nothing, and the next
one remembers the length it finds; a compaction in between puts a shorter
history in the place of the one that was measured.

A row carries whose it is, and the session the messages of before that no
summary has taken in. Both are kept for what is said of a run and read by
nothing.
-/

namespace Shizuha.Gateway

open Js Agent

inductive Origin where
  /-- Of the history, or of other work between two attempts. -/
  | earlier
  | tick
  | compaction
  deriving DecidableEq

structure Row where
  message : Message
  origin : Origin

structure CronMessage extends AdmittedMessage where
  source : Option Text
  /-- `metadata.selfInvocation` -/
  selfInvocation : Option Json

def isTrue : Option Json → Bool
  | some (.bool b) => b
  | _ => false

def cronJobShouldIsolateFromEternalSession (msg : CronMessage) : Bool :=
  msg.source = some (js "cron") && !isTrue msg.selfInvocation

/-- How an attempt at a message ends. -/
inductive AttemptEnd where
  | completed
  /-- The prefix was not warm, so nothing has been appended. -/
  | prewarmDeferred
  | runtimeRollDeferred
  | providerDeferred
  | compactionDeferred
  | compactionDiscarded
  deriving DecidableEq

def AttemptEnd.returnsRow : AttemptEnd → Bool
  | .completed => false
  | _ => true

structure CronSession where
  /-- The history in memory. -/
  rows : List Row
  stored : List Row
  /-- The earlier messages that no compaction has summarized. -/
  remaining : List Message
  /-- The snapshot count of the attempt under way. -/
  attempt : Option ℕ
  completed : Bool

def Row.isEarlier (row : Row) : Bool := row.origin = .earlier

def Row.isTick (row : Row) : Bool := row.origin = .tick

/-- The session when the message arrives. -/
def CronSession.of (history : List Message) : CronSession where
  rows := history.map (⟨·, .earlier⟩)
  stored := history.map (⟨·, .earlier⟩)
  remaining := history
  attempt := none
  completed := false

/-! ## Compaction -/

def conversationRows (rows : List Row) : List Row :=
  rows.filter fun row => !isFrameworkOperationalMessage row.message

def CompactionPass.applyRows (pass : CompactionPass) (rows : List Row) : List Row :=
  let conversation := conversationRows rows
  let summary := State.summaryMessage pass.host (conversation.map Row.message) pass.summary
  let compacted := ⟨summary, .compaction⟩ :: ⟨State.acknowledgement pass.host, .compaction⟩ ::
    slice conversation pass.suffixStart
  compacted ++ (State.planSuffix pass.host pass.planFilePath (compacted.map Row.message)).map
    (⟨·, .compaction⟩)

/-- One pass, and what it has summarized. -/
def CronSession.pass (s : CronSession) (pass : CompactionPass) : CronSession :=
  let summarized := (conversationRows s.rows).take pass.suffixStart.toNat
  { s with
    rows := pass.applyRows s.rows
    remaining := s.remaining.drop (summarized.countP Row.isEarlier) }

/-- `applySemanticCompaction`. -/
def CronSession.compact (s : CronSession) (passes : List CompactionPass) : CronSession :=
  let compacted := Machine.run CronSession.pass s passes
  { compacted with stored := compacted.rows }

/-! ## The message -/

/-- Rows that the work on the message appends. -/
def CronSession.append (s : CronSession) (rows : List Message) (persists : Bool) : CronSession :=
  let appended := rows.map (⟨·, .tick⟩)
  { s with
    rows := s.rows ++ appended
    stored := if persists then s.stored ++ appended else s.stored }

def CronSession.addUserMessage (s : CronSession) (msg : CronMessage) (persists : Bool) :
    CronSession :=
  if msg.id ≠ [] && s.rows.any fun row => msg.isRow row.message then s
  else s.append [msg.userMessage] persists

/-- The `finally` of `processMessage`. -/
def CronSession.finish (s : CronSession) (msg : CronMessage) (snapshotCount : ℕ)
    (how : AttemptEnd) (persists : Bool) : CronSession :=
  let trimmed :=
    if cronJobShouldIsolateFromEternalSession msg && !how.returnsRow then
      s.rows.take snapshotCount
    else s.rows
  { s with
    rows := trimmed
    stored := if trimmed.length ≠ s.rows.length ∧ persists then trimmed else s.stored
    attempt := none
    completed := !how.returnsRow }

/-- What else the agent works on between two attempts. -/
def CronSession.others (s : CronSession) (rows : List Message) : CronSession :=
  let appended := rows.map (⟨·, .earlier⟩)
  { s with
    rows := s.rows ++ appended
    stored := s.stored ++ appended
    remaining := s.remaining ++ rows }

inductive CronAction where
  /-- The message is taken from the inbox. -/
  | start
  | addUserMessage (persists : Bool)
  | append (rows : List Message) (persists : Bool)
  /-- Before or after a turn. -/
  | compact (passes : List CompactionPass)
  | finish (how : AttemptEnd) (persists : Bool)
  | others (rows : List Message)

def cronStep (msg : CronMessage) (s : CronSession) : CronAction → CronSession
  | .start =>
      if s.attempt = none ∧ s.completed = false then { s with attempt := some s.rows.length } else s
  | .addUserMessage persists => if s.attempt = none then s else s.addUserMessage msg persists
  | .append rows persists => if s.attempt = none then s else s.append rows persists
  | .compact passes => s.compact passes
  | .finish how persists =>
      match s.attempt with
      | none => s
      | some snapshotCount => s.finish msg snapshotCount how persists
  | .others rows => if s.attempt = none then s.others rows else s

end Shizuha.Gateway
