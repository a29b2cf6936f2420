import Shizuha.State.TurnRecovery

/-!
# The generation of a session

A turn, an attempt of a tool and a compaction note the generation of the
session when they start, and what they have to say later counts only as long as
it is still the generation. Two things replace the history: the rotation of a
session whose heartbeats are fruitless, which counts up in memory, and the
recovery from an expensive turn, which takes the generation from the store.

A recovery is two steps, for it waits for the compaction in between: it fences
the generation off, and it commits the successor.
-/

namespace Shizuha.Gateway

open Js State

/-- A turn, an attempt or a compaction of this process. `replaced` is what the
process does not know of it: the history is no longer the one it started on. -/
structure SessionWork where
  generation : ℕ
  replaced : Bool
  deriving DecidableEq

structure SessionProcess (μ α : Type) where
  messages : List μ
  sessionGeneration : ℕ
  store : RecoveryLedger α
  works : List SessionWork

inductive RecoveryTerminal where
  | verified
  | exhausted

def RecoveryTerminal.status : RecoveryTerminal → ExpensiveTurnRecoveryStatus
  | .verified => .verified
  | .exhausted => .exhausted

variable {μ α : Type}

namespace SessionProcess

/-- `loadEternalSession`, at the start of a process, on what the store has. -/
def loadEternalSession (messages : List μ) (store : RecoveryLedger α) : SessionProcess μ α where
  messages
  sessionGeneration := (store.head.map RecoveryHead.activeGeneration).getD 0
  store
  works := []

/-- Work that starts notes the generation. -/
def start (s : SessionProcess μ α) : SessionProcess μ α :=
  { s with works := s.works ++ [⟨s.sessionGeneration, false⟩] }

/-- The check a late event, a checkpoint or a compaction has to pass. -/
def passes (s : SessionProcess μ α) (work : SessionWork) : Prop :=
  work.generation = s.sessionGeneration

/-- Another history takes the place of the one there is. -/
def replaceHistory (s : SessionProcess μ α) (messages : List μ) : SessionProcess μ α :=
  { s with messages, works := s.works.map fun work => { work with replaced := true } }

def resetFruitlessHeartbeatSession (s : SessionProcess μ α) : SessionProcess μ α :=
  if s.messages = [] then s
  else { s.replaceHistory [] with sessionGeneration := s.sessionGeneration + 1 }

/-- `recoverSessionAfterExpensiveTurnGuard`, up to the compaction. -/
def fence (s : SessionProcess μ α) (episodeId : Text) (deferred : List (LedgerItem α))
    (counters : ExpensiveTurnRecoveryCounters) : SessionProcess μ α :=
  let (recovery, store) := s.store.beginExpensiveTurnRecovery episodeId deferred counters
  let s := { s with store, sessionGeneration := recovery.targetGeneration }
  if recovery.episodeId ≠ episodeId ∧ recovery.state = .recoveryPending then
    { s with sessionGeneration := recovery.activeGeneration }
  else s

/-- What is left of a recovery once the compaction is there, in the process that
fenced the generation or at the next startup. -/
def commitSuccessor (s : SessionProcess μ α) (episodeId : Text) (successor : List μ) :
    SessionProcess μ α :=
  match s.store.commitExpensiveTurnSuccessor episodeId with
  | none => s
  | some (recovery, store) =>
      { s.replaceHistory successor with store, sessionGeneration := recovery.activeGeneration }

end SessionProcess

inductive SessionAction (μ α : Type) where
  | append (message : μ)
  | start
  | rotate
  | fence (episodeId : Text) (deferred : List (LedgerItem α))
      (counters : ExpensiveTurnRecoveryCounters)
  | late (episodeId : Text) (deferred : List (LedgerItem α))
      (counters : ExpensiveTurnRecoveryCounters)
  | commit (episodeId : Text) (successor : List μ)
  | attempt (episodeId : Text) (terminal : Option RecoveryTerminal)
  /-- The next process, with the history as it was persisted. -/
  | restart (messages : List μ)
  /-- The next process has another model: the session is created anew. -/
  | restartAnew

def sessionStep (s : SessionProcess μ α) : SessionAction μ α → SessionProcess μ α
  | .append message => { s with messages := s.messages ++ [message] }
  | .start => s.start
  | .rotate => s.resetFruitlessHeartbeatSession
  | .fence episodeId deferred counters => s.fence episodeId deferred counters
  | .late episodeId deferred counters =>
      match s.store.appendExpensiveTurnRecoveryDeferred episodeId deferred counters with
      | none => s
      | some store => { s with store }
  | .commit episodeId successor => s.commitSuccessor episodeId successor
  | .attempt episodeId terminal =>
      match s.store.recordExpensiveTurnRecoveryAttempt episodeId
          (terminal.map RecoveryTerminal.status) with
      | none => s
      | some (_, store) => { s with store }
  | .restart messages => .loadEternalSession messages s.store
  | .restartAnew => .loadEternalSession [] .empty

end Shizuha.Gateway
