import Shizuha.Machine
import Shizuha.State.ToolJournal
import Shizuha.State.TurnRecovery

/-!
# Runs of the store

One operation after the other, by whatever processes share the database: each
is one transaction, so any interleaving of them is a list of operations. A
failed operation leaves the database as it was.
-/

namespace Shizuha.State

open Js Agent

inductive StoreOp where
  | createSession (id model cwd : Text)
  | appendMessage (sessionId : Text) (message : Agent.Message Json)
  | replaceMessages (sessionId : Text) (messages : List (Agent.Message Json))
  | saveWirePrefix (sessionId : Text) (sourceCount : ℕ) (messagesJson : Text)
  | beginExpensiveTurnRecovery (sessionId episodeId : Text)
      (sourceMessageCount sourcePromptTokens : ℕ) (deferred : List DeferredRecoveryMessage)
      (counters : ExpensiveTurnRecoveryCounters)
  | commitExpensiveTurnSuccessor (sessionId episodeId : Text) (messages : List (Agent.Message Json))
      (compactionOutcome : Text)
  | beginToolAttempt (identity : ToolAttemptIdentity) (toolCallId name : Text) (input : Json)
      (invocation : Double)
  | completeToolAttempt (identity : ToolAttemptIdentity) (toolCallId : Text)
      (invocation : Double) (result : ToolResult) (interrupted : Bool)
  | finalizeToolTurn (identity : ToolAttemptIdentity) (messages : List (Agent.Message ContentBlock))
  | recoverToolTurns (sessionId ownerId : Text) (sessionEpoch : Double)
      (generation : Option Text)
  | deleteSession (id : Text)

/-- The database after an operation, when it succeeds. -/
def Store.apply (s : Store) : StoreOp → Except StoreError Store
  | .createSession id model cwd => s.createSessionWithId id model cwd
  | .appendMessage sessionId message => s.appendMessage sessionId message
  | .replaceMessages sessionId messages => s.replaceMessages sessionId messages
  | .saveWirePrefix sessionId sourceCount messagesJson =>
      s.saveWirePrefix sessionId sourceCount messagesJson
  | .beginExpensiveTurnRecovery sessionId episodeId sourceMessageCount sourcePromptTokens
      deferred counters =>
      s.beginExpensiveTurnRecovery sessionId episodeId sourceMessageCount sourcePromptTokens
        deferred counters
  | .commitExpensiveTurnSuccessor sessionId episodeId messages compactionOutcome =>
      s.commitExpensiveTurnSuccessor sessionId episodeId messages compactionOutcome
  | .beginToolAttempt identity toolCallId name input invocation =>
      s.beginToolAttempt identity toolCallId name input invocation
  | .completeToolAttempt identity toolCallId invocation result interrupted =>
      s.completeToolAttempt identity toolCallId invocation result interrupted
  | .finalizeToolTurn identity messages =>
      (s.finalizeToolTurn identity messages).map Prod.snd
  | .recoverToolTurns sessionId ownerId sessionEpoch generation =>
      (s.recoverToolTurns sessionId ownerId sessionEpoch generation).map Prod.snd
  | .deleteSession id => .ok (s.deleteSession id).2

def storeStep (s : Store) (op : StoreOp) : Store :=
  match s.apply op with
  | .ok s' => s'
  | .error _ => s

end Shizuha.State
