import Shizuha.Agent.Types
import Shizuha.Table

/-!
# The tables of the state store

One record for each row of the tables the session history lives in, and the
database as a record of its tables. Texts are what the columns hold: a string
is bound as UTF-8, so a unit that is half of no surrogate pair has become the
replacement character by then (`boundText`).

A `Store` carries one invariant, the one the archive trigger relies on: every
row of the transcript was copied from a row whose number has been given out.
The clock is part of the state. It is read call by call and promises nothing,
not even that it moves forward.
-/

namespace Shizuha.State

open Js Agent

/-- A string as a TEXT column holds it. -/
def boundText (s : Text) : Text := toWellFormed s

@[simp] theorem boundText_boundText (s : Text) : boundText (boundText s) = boundText s :=
  wellFormed_toWellFormed s

structure SessionRow where
  id : Text
  model : Text
  cwd : Text
  createdAt : Double
  updatedAt : Double

structure MessageRow where
  sessionId : Text
  messageId : Option Text
  executionId : Option Text
  role : Role
  /-- The text of a message, or the JSON of its blocks: the column does not say
  which. -/
  content : Text
  timestamp : Double
  operationalEvent : Option Text
  deriving DecidableEq

structure TranscriptRow where
  sourceMessageRowId : ℕ
  message : MessageRow

structure WirePrefixRow where
  sessionId : Text
  createdAt : Double
  sourceCount : ℕ
  messagesJson : Text

inductive ExpensiveTurnRecoveryStatus where
  | guardTripped
  | recoveryPending
  | verified
  | exhausted
  deriving DecidableEq

structure ExpensiveTurnRecoveryCounters where
  preserved : ℕ
  coalesced : ℕ
  dropped : ℕ
  deferred : ℕ
  replayed : ℕ
  deriving DecidableEq

structure RecoveryHeadRow where
  sessionId : Text
  episodeId : Text
  activeGeneration : ℕ
  fencedGeneration : ℕ
  targetGeneration : ℕ
  state : ExpensiveTurnRecoveryStatus
  attempts : ℕ
  sourceMessageCount : ℕ
  sourcePromptTokens : ℕ
  compactionOutcome : Option Text
  lastOutcome : Option Text
  counters : ExpensiveTurnRecoveryCounters
  createdAt : Double
  updatedAt : Double

structure RecoveryDeferredRow where
  sessionId : Text
  episodeId : Text
  messageId : Text
  messageClass : Text
  payload : Text
  createdAt : Double

/-- UNIQUE(session_id, episode_id, message_id). -/
def RecoveryDeferredRow.key (r : RecoveryDeferredRow) : Text × Text × Text :=
  (r.sessionId, r.episodeId, r.messageId)

inductive ToolTurnState where
  | opened
  | finalized
  | recovered
  deriving DecidableEq

structure ToolTurnRow where
  sessionId : Text
  generation : Text
  ownerId : Text
  inboundMessageId : Text
  executionId : Text
  sessionEpoch : Double
  state : ToolTurnState
  historyJson : Option Text
  createdAt : Double

def ToolTurnRow.key (r : ToolTurnRow) : Text × Text := (r.sessionId, r.generation)

inductive ToolAttemptState where
  | running
  | completed
  | interrupted
  deriving DecidableEq

structure ToolAttemptRow where
  sessionId : Text
  generation : Text
  toolCallId : Text
  invocation : Double
  name : Text
  inputJson : Text
  state : ToolAttemptState
  resultJson : Option Text
  startedAt : Double
  finishedAt : Option Double

/-- The turn an attempt belongs to. -/
def ToolAttemptRow.turn (r : ToolAttemptRow) : Text × Text := (r.sessionId, r.generation)

def ToolAttemptRow.key (r : ToolAttemptRow) : (Text × Text) × Text × Double :=
  (r.turn, r.toolCallId, r.invocation)

structure Store where
  /-- What the calls of `Date.now()` still to come will answer. -/
  clock : ℕ → Double
  sessions : Table Text SessionRow SessionRow.id
  messages : Sequence MessageRow
  transcript : Sequence TranscriptRow
  wirePrefix : Table Text WirePrefixRow WirePrefixRow.sessionId
  recoveryHeads : Table Text RecoveryHeadRow RecoveryHeadRow.sessionId
  recoveryDeferred : Table (Text × Text × Text) RecoveryDeferredRow RecoveryDeferredRow.key
  toolTurns : Table (Text × Text) ToolTurnRow ToolTurnRow.key
  toolAttempts : Table ((Text × Text) × Text × Double) ToolAttemptRow ToolAttemptRow.key
  archived : ∀ r ∈ transcript.rows, r.sourceMessageRowId < messages.next

/-- The database of a first start. -/
def Store.fresh (clock : ℕ → Double) : Store where
  clock := clock
  sessions := .empty
  messages := .empty
  transcript := .empty
  wirePrefix := .empty
  recoveryHeads := .empty
  recoveryDeferred := .empty
  toolTurns := .empty
  toolAttempts := .empty
  archived := by simp [Sequence.rows, Sequence.empty]

/-- One reading of the clock. -/
def Store.now (s : Store) : Double × Store :=
  (s.clock 0, { s with clock := fun n => s.clock (n + 1) })

/-- What a statement or a check of the store fails with. -/
inductive StoreError where
  | foreignKey
  | sessionExists
  | attemptExists
  | notAuthoritative (episodeId sessionId : Text)
  | identityIncomplete
  | sessionAbsent
  | ownerChanged
  | invalidAttempt
  | alreadyFinalized
  | attemptMismatch
  | differentOutcome
  | finalizationChanged
  | unresolvedAttempts
  | malformedResult
  deriving DecidableEq

def StoreError.message : StoreError → Text
  | .foreignKey => js "FOREIGN KEY constraint failed"
  | .sessionExists => js "UNIQUE constraint failed: sessions.id"
  | .attemptExists =>
      js "UNIQUE constraint failed: session_tool_attempts.session_id, " ++
        js "session_tool_attempts.generation, session_tool_attempts.tool_call_id, " ++
        js "session_tool_attempts.invocation"
  | .notAuthoritative episodeId sessionId =>
      js "Recovery episode " ++ episodeId ++ js " is not authoritative for " ++ sessionId
  | .identityIncomplete => js "Tool attempt identity is incomplete"
  | .sessionAbsent => js "Tool attempt session is absent"
  | .ownerChanged => js "Tool attempt owner changed"
  | .invalidAttempt => js "Invalid tool attempt"
  | .alreadyFinalized => js "Tool turn is already finalized"
  | .attemptMismatch => js "Tool attempt does not match"
  | .differentOutcome => js "Tool attempt already has a different outcome"
  | .finalizationChanged => js "Tool turn finalization changed"
  | .unresolvedAttempts => js "Tool turn still has unresolved attempts"
  | .malformedResult => js "SyntaxError"

/-! ## Inserting a message

Every path that adds a message runs the one INSERT, and with it the trigger
that copies the new row to the transcript. -/

/-- `INSERT OR IGNORE` under the unique index on the source row. -/
def archive (transcript : Sequence TranscriptRow) (row : TranscriptRow) :
    Sequence TranscriptRow :=
  if transcript.rows.any fun r => r.sourceMessageRowId = row.sourceMessageRowId then transcript
  else transcript.push row

theorem mem_archive {transcript : Sequence TranscriptRow} {row r : TranscriptRow}
    (h : r ∈ (archive transcript row).rows) : r ∈ transcript.rows ∨ r = row := by
  rw [archive] at h
  split at h
  · exact .inl h
  · simpa using h

/-- The row of a message whose session is there, and its copy. -/
def Store.pushMessage (s : Store) (row : MessageRow) : Store :=
  { s with
    messages := s.messages.push row
    transcript := archive s.transcript ⟨s.messages.next, row⟩
    archived := by
      intro r hr
      rcases mem_archive hr with hr | rfl
      · exact Nat.lt_succ_of_lt (s.archived r hr)
      · exact Nat.lt_succ_self _ }

def Store.insertMessage (s : Store) (row : MessageRow) : Except StoreError Store :=
  match s.sessions.get row.sessionId with
  | none => .error .foreignKey
  | some _ => .ok (s.pushMessage row)

/-- `DELETE FROM messages WHERE session_id = ?`. The transcript is not
touched. -/
def Store.deleteMessages (s : Store) (sessionId : Text) : Store :=
  { s with messages := s.messages.delete fun r => r.sessionId = sessionId }

/-- The number of a new row was never used before, so the trigger always
copies it. -/
theorem archive_next (s : Store) (row : MessageRow) :
    archive s.transcript ⟨s.messages.next, row⟩ =
      s.transcript.push ⟨s.messages.next, row⟩ := by
  rw [archive, if_neg]
  intro hany
  obtain ⟨r, hr, heq⟩ := List.any_eq_true.mp hany
  have := s.archived r hr
  rw [of_decide_eq_true heq] at this
  exact absurd this (lt_irrefl _)

end Shizuha.State
