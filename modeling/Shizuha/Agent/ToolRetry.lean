import Shizuha.Agent.DsmlSalvage
import Shizuha.LocalCore.Protocol

/-!
# Retrying a tool call

`executeToolWithRetry` runs a tool call again when it failed with an error that
looks transient, as long as the budget of its turn lasts. The budget is one
object that all the calls of a turn share, and the read-only ones run at the
same time: between two attempts of a call, while it sleeps, the others spend
from the same budget.

A call suspends at two places, the attempt and the sleep. Everything between
two suspensions is one step, the test of the budget and the spending of it
among them. How long an attempt or a sleep takes is left open, and so is the
outcome of an attempt.
-/

namespace Shizuha.Agent

open Js
open Js.Regex
open LocalCore (stringOf)

/-- What a promise is rejected with: an `Error` with the properties it carries
besides its message, or any other value. -/
inductive Thrown where
  | undefined
  | error (message : Text) (fields : List (Text × Json))
  | value (v : Json)

/-! ## Which errors are transient -/

def pattern (words : List String) : Regex := oneOf (words.map fun w => litI (js w))

def RETRYABLE_PATTERNS : List Regex :=
  [ oneOf
      [ cat [.wordBoundary, litI (js "time"), opt (litI (js "d")), Regex.star space, opt (lit (js "-")),
          Regex.star space, litI (js "out"), .wordBoundary],
        cat [.wordBoundary, litI (js "timeout"), .wordBoundary],
        litI (js "etimedout") ],
    oneOf
      [ cat [litI (js "rate"), opt (.unit fun u => !isLineEnd u), litI (js "limit")],
        litI (js "too many requests"),
        cat [.wordBoundary, lit (js "429"), .wordBoundary] ],
    oneOf
      [ pattern ["econnreset", "econnrefused", "enetunreach", "ehostunreach", "eai_again", "epipe"],
        cat [litI (js "socket hang"), opt (lit (js " ")), litI (js "up")],
        litI (js "network"),
        cat [litI (js "connection "), pattern ["reset", "closed", "refused", "aborted"]] ],
    oneOf
      [ pattern ["temporarily unavailable", "service unavailable"],
        cat [.wordBoundary, lit (js "50"), .unit fun u => (js "234").contains u, .wordBoundary],
        pattern ["overloaded", "try again"] ] ]

def RETRYABLE_STATUS : List ℚ := [429, 502, 503, 504]

/-- A property that `parts.join` takes. -/
def textPart : Json → Option Text
  | .str s => some s
  | .num n => stringOf (.num n)
  | _ => none

def errorText : Thrown → Text
  | .undefined => []
  | .error message fields =>
      message ++ js " " ++
        match field "code" (.obj fields) with
        | none | some .null => []
        | some code => (stringOf code).getD []
  | .value .null => []
  | .value (.str s) => s
  | .value (.obj fields) =>
      let parts := ["message", "code", "error", "reason"].filterMap fun key =>
        (field key (.obj fields)).bind textPart
      if parts ≠ [] then join (js " ") parts else (Json.obj fields).print
  | .value (.arr items) => (Json.arr items).print
  | .value v => (stringOf v).getD []

/-- A status of a property: a number, or digits. -/
def statusValue : Json → Option Number
  | .num n => some n
  | .str s => if s ≠ [] ∧ s.all isDigit then some (.ofMagnitude (digitsVal s)) else none
  | _ => none

def statusOfFields (fields : List (Text × Json)) : Option Number :=
  ["status", "statusCode", "code"].findSome? fun key =>
    (field key (.obj fields)).bind statusValue

def statusOf : Thrown → Option Number
  | .error _ fields => statusOfFields fields
  | .value (.obj fields) => statusOfFields fields
  | _ => none

def isRetryableStatus : Number → Bool
  | .finite x => RETRYABLE_STATUS.contains x.val
  | .infinite _ => false

def isRetryableToolError (err : Thrown) : Bool :=
  (statusOf err).any isRetryableStatus ||
    (let text := errorText err
     decide (text ≠ []) && RETRYABLE_PATTERNS.any fun re => re.test text)

/-! ## The budget -/

structure ToolRetryConfig where
  maxRetries : ℕ

structure ToolRetryBudget where
  config : ToolRetryConfig
  remainingAttempts : ℕ

namespace ToolRetryBudget

/-- `new ToolRetryBudget`. -/
def ofConfig (config : ToolRetryConfig) : ToolRetryBudget where
  config := config
  remainingAttempts := max 0 config.maxRetries

def canRetry (b : ToolRetryBudget) : Bool := 0 < b.remainingAttempts

/-- The budget after it, with what `consume` answers. -/
def consume (b : ToolRetryBudget) : Bool × ToolRetryBudget :=
  if b.remainingAttempts ≤ 0 then (false, b)
  else (true, { b with remainingAttempts := b.remainingAttempts - 1 })

end ToolRetryBudget

/-! ## The calls of a turn -/

/-- Where a call of `executeToolWithRetry` is suspended, or how it ended. -/
inductive RetryPhase where
  | attempting
  | sleeping
  | fulfilled
  | rejected (err : Thrown)

structure RetryCall where
  attempt : ℕ
  phase : RetryPhase

/-- What the wrapped functions see: they are invoked, and they fail. -/
inductive RetryEvent where
  | invoked (call : ℕ)
  | failed (call : ℕ) (err : Thrown)

/-- The calls that share a budget, in the order they were made. -/
structure RetryTurn where
  budget : ToolRetryBudget
  calls : List RetryCall
  log : List RetryEvent

def RetryTurn.init (config : ToolRetryConfig) : RetryTurn where
  budget := .ofConfig config
  calls := []
  log := []

/-- The `catch` block, up to the sleep: the error is thrown on, or an attempt is
spent. -/
def catchFailure (budget : ToolRetryBudget) (attempt : ℕ) (err : Thrown) :
    RetryCall × ToolRetryBudget :=
  if !isRetryableToolError err || !budget.canRetry then (⟨attempt, .rejected err⟩, budget)
  else (⟨attempt + 1, .sleeping⟩, budget.consume.2)

inductive RetryAction where
  /-- `executeToolWithRetry` is called. -/
  | execute
  /-- The attempt of the call resolves. -/
  | resolve (call : ℕ)
  | fail (call : ℕ) (err : Thrown)
  /-- The sleep of the call is over. -/
  | wake (call : ℕ)

/-- A call that is not suspended there is not resumed. -/
def retryStep (s : RetryTurn) : RetryAction → RetryTurn
  | .execute =>
      { s with
        calls := s.calls ++ [⟨0, .attempting⟩]
        log := s.log ++ [.invoked s.calls.length] }
  | .resolve i =>
      match s.calls[i]? with
      | some ⟨attempt, .attempting⟩ => { s with calls := s.calls.set i ⟨attempt, .fulfilled⟩ }
      | _ => s
  | .fail i err =>
      match s.calls[i]? with
      | some ⟨attempt, .attempting⟩ =>
          let caught := catchFailure s.budget attempt err
          { budget := caught.2
            calls := s.calls.set i caught.1
            log := s.log ++ [.failed i err] }
      | _ => s
  | .wake i =>
      match s.calls[i]? with
      | some ⟨attempt, .sleeping⟩ =>
          { s with
            calls := s.calls.set i ⟨attempt, .attempting⟩
            log := s.log ++ [.invoked i] }
      | _ => s

end Shizuha.Agent
