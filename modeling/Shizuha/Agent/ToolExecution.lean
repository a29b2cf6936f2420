import Shizuha.State.ToolJournal

/-!
# Executing one tool call

A call passes five checks before its handler runs, and each check can answer
for the handler: the result is then a new object with the call's id in it. A
handler that runs can be overtaken by the turn's abort signal or by its own
silence; then, too, the result is a new object. Only a handler that resolves
first hands back an object of its own.

Objects are what the rest is about. `executeToolCall` does not copy the object
a handler hands back: it writes the call's id and the capped content into it,
and returns it. So the results live on a heap, a call is answered by a
reference, and who else holds that reference matters.

A failure that `isRetryableToolError` takes for a transient one is tried again
as long as the turn's budget lasts.
-/

namespace Shizuha.Agent

open Js
open State (ToolResult)

structure ToolCall where
  id : Text
  name : Text
  input : Json

structure ToolHandler where
  name : Text
  readOnly : Bool
  /-- The handler is abandoned after that long a silence. -/
  silentTimeoutMs : Option ℕ

def registryGet (registry : List ToolHandler) (name : Text) : Option ToolHandler :=
  registry.find? fun handler => handler.name = name

/-! ## Checks before the execution -/

inductive Decision where
  | allow
  | ask
  | deny
  deriving DecidableEq, Repr

inductive Approval where
  | allow
  | deny
  | allowAlways
  deriving DecidableEq, Repr

structure HookResult where
  blocked : Bool
  blockReason : Option Text

/-- What the checks of one call answer: `heartbeatInboxReplayContent` and
`detectFakedMcpToolCall`, the permission engine, the user if there is anybody
to ask, and the hooks that run before a tool. -/
structure Answers where
  inboxReplay : Option Text
  fakedTool : Option Text
  decision : Decision
  approval : Option Approval
  hooks : List HookResult

/-- A result the execution makes itself. -/
def ownResult (tc : ToolCall) (content : Text) (isError : Bool) : ToolResult where
  toolUseId := tc.id
  content := content
  isError := some isError
  metadata := none
  image := none
  durationMs := none

def fakedText (tool : Text) : Text :=
  js "Do not echo or print tool names through bash. \"" ++ tool ++
    js "\" is a real tool available to you right now — " ++
    js "call it DIRECTLY as a tool call with its JSON arguments. " ++
    js "Re-issue your intended action as a real call to " ++ tool ++ js "."

/-- The result of a call that never gets as far as its handler. -/
def guardedResult (tc : ToolCall) (handler : Option ToolHandler) (a : Answers) :
    Option ToolResult :=
  match handler, a.inboxReplay, a.fakedTool with
  | none, _, _ => some (ownResult tc (js "Unknown tool: " ++ tc.name) true)
  | some _, some replay, _ => some (ownResult tc replay false)
  | some _, none, some tool => some (ownResult tc (fakedText tool) true)
  | some _, none, none =>
      if a.decision = .deny then
        some (ownResult tc
          (js "Permission denied for tool \"" ++ tc.name ++ js "\" in current mode.") true)
      else if a.decision = .ask ∧ a.approval = some .deny then
        some (ownResult tc (js "User denied permission for tool \"" ++ tc.name ++ js "\".") true)
      else
        (a.hooks.find? HookResult.blocked).map fun hook =>
          ownResult tc (js "Blocked by hook: " ++
            hook.blockReason.getD (js "PreToolUse hook returned exit code 2")) true

/-! ## Result objects -/

/-- A result object, and whether a tool made it: nothing but `executeToolCall`
holds the ones that it made itself. -/
structure Cell where
  ofTool : Bool
  result : ToolResult

abbrev Heap := List Cell

def maxChars : ℕ := 40000

def cappedToolResult (result : ToolResult) (toolUseId : Text) : ToolResult :=
  { result with
    toolUseId := toolUseId
    content :=
      if maxChars < result.content.length then
        result.content.take maxChars ++ js "\n\n[... tool output truncated: kept " ++
          decimal maxChars ++ js "/" ++ decimal result.content.length ++
          js " chars to protect the context window ...]"
      else result.content }

/-- `Object.assign(result, cappedToolResult(result, id))`. -/
def Heap.stamp (h : Heap) (ref : ℕ) (id : Text) : Heap :=
  h.modify ref fun c => { c with result := cappedToolResult c.result id }

/-- A duration is written once. -/
def Heap.time (h : Heap) (ref : ℕ) (durationMs : Double) : Heap :=
  h.modify ref fun c =>
    { c with result := { c.result with durationMs := some (c.result.durationMs.getD durationMs) } }

/-- A new object, at the end of the heap. -/
def Heap.alloc (h : Heap) (ofTool : Bool) (result : ToolResult) : Heap := h ++ [⟨ofTool, result⟩]

/-! ## Executions -/

/-- Where an execution stands: at the checks, at the handler, or settled. -/
inductive Phase where
  | guarding
  | executing
  | done (ref : ℕ)
  | rejected
  deriving DecidableEq, Repr

def Phase.settled : Phase → Bool
  | .done _ | .rejected => true
  | .guarding | .executing => false

structure Run where
  call : ToolCall
  handler : Option ToolHandler
  /-- Started while the stream was open. -/
  streamed : Bool
  phase : Phase

/-- How one attempt to run a handler ends. `unsettled` says that a journal is
kept and the attempt is still open in it. -/
inductive AttemptEnd where
  | cancelled (unsettled : Bool)
  | wedged (unsettled : Bool)
  | resolved (ref : ℕ)
  | failed (message : Text) (retryable : Bool)
  | checkpointFailed

def cancelledResult (tc : ToolCall) : ToolResult :=
  ownResult tc (js "Tool " ++ tc.name ++
    js " was cancelled: the turn was aborted while it was still running.") true

def wedgedResult (tc : ToolCall) (silentMs : ℕ) : ToolResult :=
  ownResult tc (js "Tool " ++ tc.name ++ js " produced no output for " ++
    decimal (mathRound (silentMs / 1000)).num.toNat ++ js "s and was abandoned as wedged. " ++
    js "Retry with a narrower request (smaller path, more specific pattern/filter).") true

def failedResult (tc : ToolCall) (message : Text) : ToolResult :=
  ownResult tc (js "Tool error: " ++ message) true

/-- What an attempt that the journal still has open adds to its result. -/
def withUnknownOutcome (unsettled : Bool) (result : ToolResult) : ToolResult :=
  if unsettled then
    { result with
      content := result.content ++ js "\nExecution outcome is unknown; the handler has not " ++
        js "confirmed completion and side effects may still occur."
      metadata := some (.obj
        [(js "executionOutcome", .str (js "unknown")), (js "interrupted", .bool true)]) }
  else result

/-- The object an attempt settles with before it is stamped, with the heap it
is on; `none` for one that cannot end that way. -/
def settledWith (h : Heap) (tc : ToolCall) (handler : Option ToolHandler) (aborted : Bool) :
    AttemptEnd → Option (Heap × ℕ)
  | .cancelled unsettled =>
      if aborted then some (h.alloc false (withUnknownOutcome unsettled (cancelledResult tc)), h.length)
      else none
  | .wedged unsettled =>
      (handler.bind ToolHandler.silentTimeoutMs).map fun silentMs =>
        (h.alloc false (withUnknownOutcome unsettled (wedgedResult tc silentMs)), h.length)
  | .resolved ref =>
      if (h[ref]?.map Cell.ofTool).getD false then some (h, ref) else none
  | .failed .. | .checkpointFailed => none

/-- The rest of the execution: the object is stamped, a hook that throws
afterwards has it replaced by an error, and the duration is written. -/
def returned (h : Heap) (ref : ℕ) (tc : ToolCall) (hookError : Option Text) (durationMs : Double) :
    Heap × ℕ :=
  let h := h.stamp ref tc.id
  match hookError with
  | none => (h.time ref durationMs, ref)
  | some message =>
      ((h.alloc false (failedResult tc message)).time h.length durationMs, h.length)

end Shizuha.Agent
