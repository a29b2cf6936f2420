import Shizuha.State.Store

/-!
# Recovery from an expensive turn

A session has at most one recovery episode. Opening one while another is
unfinished joins that one; committing its successor replaces the session's
messages and makes the new generation the active one.
-/

namespace Shizuha.State

open Js Agent

structure DeferredRecoveryMessage where
  messageId : Text
  messageClass : Text
  payload : Text

def ExpensiveTurnRecoveryCounters.merge (a b : ExpensiveTurnRecoveryCounters) :
    ExpensiveTurnRecoveryCounters where
  preserved := a.preserved + b.preserved
  coalesced := a.coalesced + b.coalesced
  dropped := a.dropped + b.dropped
  deferred := a.deferred + b.deferred
  replayed := a.replayed + b.replayed

def Store.loadExpensiveTurnRecovery (s : Store) (sessionId : Text) : Option RecoveryHeadRow :=
  s.recoveryHeads.get (boundText sessionId)

def Store.insertDeferred (s : Store) (sessionId episodeId : Text) (now : Double)
    (deferred : List DeferredRecoveryMessage) : Store :=
  { s with
    recoveryDeferred := deferred.foldl
      (fun table item => table.insertOrIgnore
        ⟨boundText sessionId, boundText episodeId, boundText item.messageId,
          boundText item.messageClass, boundText item.payload, now⟩)
      s.recoveryDeferred }

/-- An episode that is not over yet. -/
def RecoveryHeadRow.unfinished (r : RecoveryHeadRow) : Bool :=
  r.state = .guardTripped || r.state = .recoveryPending

/-- The head row of a new episode. -/
def newEpisode (sessionId episodeId : Text) (activeGeneration : ℕ)
    (sourceMessageCount sourcePromptTokens : ℕ) (counters : ExpensiveTurnRecoveryCounters)
    (now : Double) : RecoveryHeadRow where
  sessionId := boundText sessionId
  episodeId := boundText episodeId
  activeGeneration := activeGeneration
  fencedGeneration := activeGeneration
  targetGeneration := activeGeneration + 1
  state := .guardTripped
  attempts := 0
  sourceMessageCount := sourceMessageCount
  sourcePromptTokens := sourcePromptTokens
  compactionOutcome := none
  lastOutcome := none
  counters := counters
  createdAt := now
  updatedAt := now

/-- What is returned is the head row of the session afterwards. -/
def Store.beginExpensiveTurnRecovery (s : Store) (sessionId episodeId : Text)
    (sourceMessageCount sourcePromptTokens : ℕ) (deferred : List DeferredRecoveryMessage)
    (counters : ExpensiveTurnRecoveryCounters) : Except StoreError Store :=
  let (now, s) := s.now
  let existing := s.loadExpensiveTurnRecovery sessionId
  match existing.filter RecoveryHeadRow.unfinished with
  | some head =>
      let s := s.insertDeferred sessionId head.episodeId now deferred
      .ok
        { s with
          recoveryHeads := s.recoveryHeads.update
            (fun r => r.sessionId = boundText sessionId ∧ r.episodeId = head.episodeId)
            (fun r => { r with counters := head.counters.merge counters, updatedAt := now })
            (fun _ => rfl) }
  | none =>
      let row := newEpisode sessionId episodeId ((existing.map (·.activeGeneration)).getD 0)
        sourceMessageCount sourcePromptTokens counters now
      match s.sessions.get row.sessionId with
      | none => .error .foreignKey
      | some _ =>
          let s :=
            { s with
              recoveryHeads := s.recoveryHeads.upsert row
                (fun r =>
                  { row with sessionId := r.sessionId, activeGeneration := r.activeGeneration })
                (fun _ => rfl) }
          .ok (s.insertDeferred sessionId episodeId now deferred)

/-- Unlike `replaceMessages` this reads the clock once, and leaves the wire
prefix alone. -/
def Store.commitExpensiveTurnSuccessor (s : Store) (sessionId episodeId : Text)
    (messages : List (Agent.Message Json)) (compactionOutcome : Text) : Except StoreError Store :=
  let (now, s) := s.now
  match s.loadExpensiveTurnRecovery sessionId with
  | none => .error (.notAuthoritative episodeId sessionId)
  | some state =>
      if state.episodeId ≠ episodeId then .error (.notAuthoritative episodeId sessionId)
      else do
        let s ← (s.deleteMessages (boundText sessionId)).insertMessages sessionId
          (messages.map fun m => { m with timestamp := some (m.timestamp.getD now) })
        .ok
          { s with
            recoveryHeads := s.recoveryHeads.update
              (fun r => r.sessionId = boundText sessionId ∧ r.episodeId = boundText episodeId)
              (fun r =>
                { r with
                  activeGeneration := r.targetGeneration
                  state := .recoveryPending
                  compactionOutcome := some (boundText compactionOutcome)
                  updatedAt := now })
              (fun _ => rfl) }

end Shizuha.State

/-!
# The recovery ledger of a session

What the two recovery tables hold for one session: its head row, and one row
for every message that was taken out of the inbox when an expensive turn was
fenced off, in the order of their ids. A row is handed out again (`releasing`)
and, when its message has been worked on, acknowledged (`replayed`). The head
names the episode that is authoritative; the rows of the others stay.

`TurnRecovery` has the same calls over the whole store, without the states of
the rows. The payload of a row is a parameter.
-/

namespace Shizuha.State

open Js

inductive DeferredRowState where
  | deferred
  | releasing
  | replayed
  deriving DecidableEq

/-- What is asked to be kept of a message, and what a listing returns. -/
structure LedgerItem (α : Type) where
  messageId : Text
  messageClass : Text
  payload : α

structure LedgerRow (α : Type) extends LedgerItem α where
  episodeId : Text
  state : DeferredRowState

structure RecoveryHead where
  episodeId : Text
  activeGeneration : ℕ
  fencedGeneration : ℕ
  targetGeneration : ℕ
  state : ExpensiveTurnRecoveryStatus
  attempts : ℕ
  counters : ExpensiveTurnRecoveryCounters
  deriving DecidableEq

structure RecoveryLedger (α : Type) where
  head : Option RecoveryHead
  rows : List (LedgerRow α)

variable {α : Type}

def RecoveryLedger.empty : RecoveryLedger α := ⟨none, []⟩

def RecoveryHead.unfinished (r : RecoveryHead) : Bool :=
  r.state = .guardTripped || r.state = .recoveryPending

/-- The row a statement names. -/
def LedgerRow.isRow (episodeId messageId : Text) (r : LedgerRow α) : Bool :=
  r.episodeId = episodeId && r.messageId = messageId

/-- `INSERT OR IGNORE`, under UNIQUE(episode_id, message_id). -/
def insertOrIgnore (episodeId : Text) (rows : List (LedgerRow α)) (item : LedgerItem α) :
    List (LedgerRow α) :=
  if rows.any (LedgerRow.isRow episodeId (boundText item.messageId)) then rows
  else
    rows ++ [{
      messageId := boundText item.messageId
      messageClass := boundText item.messageClass
      payload := item.payload
      episodeId := episodeId
      state := .deferred }]

def insertDeferred (episodeId : Text) (deferred : List (LedgerItem α))
    (rows : List (LedgerRow α)) : List (LedgerRow α) :=
  deferred.foldl (insertOrIgnore episodeId) rows

namespace RecoveryLedger

/-- The head that is returned is the one that is authoritative afterwards. -/
def beginExpensiveTurnRecovery (s : RecoveryLedger α) (episodeId : Text)
    (deferred : List (LedgerItem α)) (counters : ExpensiveTurnRecoveryCounters) :
    RecoveryHead × RecoveryLedger α :=
  match s.head.filter RecoveryHead.unfinished with
  | some existing =>
      let head := { existing with counters := existing.counters.merge counters }
      (head, ⟨some head, insertDeferred existing.episodeId deferred s.rows⟩)
  | none =>
      let activeGeneration := (s.head.map RecoveryHead.activeGeneration).getD 0
      let head : RecoveryHead :=
        { episodeId
          activeGeneration
          fencedGeneration := activeGeneration
          targetGeneration := activeGeneration + 1
          state := .guardTripped
          attempts := 0
          counters }
      (head, ⟨some head, insertDeferred episodeId deferred s.rows⟩)

/-- `loadExpensiveTurnRecovery`, for the calls that throw when another episode
is the authoritative one. -/
def authoritative (s : RecoveryLedger α) (episodeId : Text) : Option RecoveryHead :=
  s.head.filter fun head => head.episodeId = episodeId

/-- The part of the transaction that is about the head. -/
def commitExpensiveTurnSuccessor (s : RecoveryLedger α) (episodeId : Text) :
    Option (RecoveryHead × RecoveryLedger α) :=
  (s.authoritative episodeId).map fun head =>
    let head :=
      { head with activeGeneration := head.targetGeneration, state := .recoveryPending }
    (head, { s with head := some head })

def appendExpensiveTurnRecoveryDeferred (s : RecoveryLedger α) (episodeId : Text)
    (deferred : List (LedgerItem α)) (countersDelta : ExpensiveTurnRecoveryCounters) :
    Option (RecoveryLedger α) :=
  (s.authoritative episodeId).map fun head =>
    ⟨some { head with counters := head.counters.merge countersDelta },
      insertDeferred episodeId deferred s.rows⟩

def recordExpensiveTurnRecoveryAttempt (s : RecoveryLedger α) (episodeId : Text)
    (terminal : Option ExpensiveTurnRecoveryStatus) : Option (RecoveryHead × RecoveryLedger α) :=
  (s.authoritative episodeId).map fun head =>
    let head := { head with attempts := head.attempts + 1, state := terminal.getD head.state }
    (head, { s with head := some head })

def listDeferredRecoveryMessages (s : RecoveryLedger α) (episodeId : Text) :
    List (LedgerItem α) :=
  (s.rows.filter fun r => r.episodeId = episodeId && r.state ≠ .replayed).map
    LedgerRow.toLedgerItem

/-- `UPDATE … SET state WHERE … AND state != 'replayed'`, and the number of rows
it changed. -/
def setState (state : DeferredRowState) (episodeId messageId : Text)
    (rows : List (LedgerRow α)) : ℕ × List (LedgerRow α) :=
  let changed (r : LedgerRow α) : Bool := r.isRow episodeId messageId && r.state ≠ .replayed
  (rows.countP changed, rows.map fun r => if changed r then { r with state } else r)

def markDeferredRecoveryMessageReleasing (s : RecoveryLedger α) (episodeId messageId : Text) :
    Bool × RecoveryLedger α :=
  let (changes, rows) := setState .releasing episodeId (boundText messageId) s.rows
  (changes = 1, { s with rows })

def markDeferredRecoveryMessageReplayed (s : RecoveryLedger α) (episodeId messageId : Text) :
    RecoveryLedger α :=
  let (changes, rows) := setState .replayed episodeId (boundText messageId) s.rows
  if changes = 1 then
    { rows
      head := s.head.map fun head =>
        if head.episodeId = episodeId then
          { head with counters := { head.counters with replayed := head.counters.replayed + 1 } }
        else head }
  else { s with rows }

end RecoveryLedger

end Shizuha.State
