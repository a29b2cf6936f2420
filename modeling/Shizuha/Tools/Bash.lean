import Shizuha.Js.Utf8
import Shizuha.Js.Numeral
import Shizuha.Machine

/-!
# The foreground bash call

One call is one promise that four handlers and three timers may settle. The
state is the variables the handlers close over; an event is one callback. The
data handlers add to two texts, `exit` and the two `end` events ask whether it
is time to settle, and `close`, the drain timer and those three all end in
`onStdioSettled`, which makes the result of the texts as they are by then.

Killing the process group, progress reports and the abort listener are left
out: they change none of the variables.
-/

namespace Shizuha.Tools

open Js

def MAX_OUTPUT : ℕ := 30000

structure ToolResult where
  content : Text
  isError : Bool
  deriving DecidableEq

/-- What a call has before it runs. -/
structure BashContext where
  cwd : Text
  effectiveCwd : Text
  /-- What the wrapper has left in its file, if there is one. -/
  capturedCwd : Option Text
  hasTaskRegistry : Bool
  breakGlass : Option (Text × Text)
  timeoutMs : ℕ

/-- The registry's task of a call that was demoted. -/
structure DemotedTask where
  id : Text
  output : Text
  /-- How it ended. -/
  outcome : Option (Except Text ℕ)

/-- What the registry keeps of the output of a task. -/
def MAX_OUTPUT_BYTES : ℕ := 100000

/-- `appendOutput` of the registry. -/
def DemotedTask.appendOutput (t : DemotedTask) (chunk : Text) : DemotedTask :=
  let output := t.output ++ chunk
  if MAX_OUTPUT_BYTES < output.length then
    let trimmed := output.length - MAX_OUTPUT_BYTES
    { t with output := js "[" ++ decimal trimmed ++ js " bytes trimmed]\n" ++ output.drop trimmed }
  else { t with output := output }

/-- The data handlers of a command that was started in the background. -/
def DemotedTask.onBackgroundData (t : DemotedTask) (data : Bytes) : DemotedTask :=
  t.appendOutput (utf8Decode data)

structure BashCall where
  stdout : Text
  stderr : Text
  killed : Bool
  timedOut : Bool
  aborted : Bool
  resolved : Bool
  demoted : Option DemotedTask
  exited : Bool
  exitCode : Option ℕ
  exitSignal : Option Text
  drainTimer : Bool
  stdoutOpen : Bool
  stderrOpen : Bool
  /-- What the promise was resolved with. -/
  results : List ToolResult

inductive BashEvent where
  | stdoutData (data : Bytes)
  | stderrData (data : Bytes)
  | stdoutEnd
  | stderrEnd
  | exit (code : Option ℕ) (signal : Option Text)
  | close (code : Option ℕ) (signal : Option Text)
  | drainTimeout
  | timeout
  | abort
  | demote (taskId : Text)
  | error (message : Text)

namespace BashCall

def init : BashCall :=
  ⟨[], [], false, false, false, false, none, false, none, none, false, true, true, []⟩

def safeResolve (c : BashCall) (r : ToolResult) : BashCall :=
  if c.resolved then c else { c with resolved := true, results := c.results ++ [r] }

/-! ## The result -/

/-- The two texts, one after the other. -/
def collected (stdout stderr : Text) : Text :=
  if stderr = [] then stdout
  else if stdout = [] then stderr
  else stdout ++ js "\n" ++ stderr

def notes (ctx : BashContext) (killed timedOut aborted : Bool) : Text :=
  (if killed && !timedOut && !aborted then js "\n[Output truncated]" else []) ++
    (if aborted then
      js "\n[Command aborted — a new message was queued mid-turn; the process group was killed.]"
      else []) ++
    if timedOut then
      js "\n[Command timed out after " ++ decimal ((ctx.timeoutMs + 500) / 1000) ++
        js "s — process group was killed. The command did not finish. You should investigate: re-run with a longer timeout, or run a subset of the work.]"
    else []

def truncated (output : Text) : Text :=
  if MAX_OUTPUT < output.length then
    output.take MAX_OUTPUT ++ js "\n\n... [" ++
      decimal (lines (output.drop MAX_OUTPUT)).length ++ js " lines truncated] ..."
  else output

def finalCwd (ctx : BashContext) : Text :=
  match ctx.capturedCwd with
  | some nc => if nc = [] then ctx.effectiveCwd else nc
  | none => ctx.effectiveCwd

def exitStatus (code : Option ℕ) (signal : Option Text) : ℕ :=
  match code with
  | some n => n
  | none => if signal.isSome then 128 else 0

/-- The result of a call that collected these texts. -/
def report (ctx : BashContext) (stdout stderr : Text) (killed timedOut aborted : Bool)
    (code : Option ℕ) (signal : Option Text) : ToolResult :=
  let output := truncated (collected stdout stderr ++ notes ctx killed timedOut aborted)
  let status := exitStatus code signal
  let isError := timedOut || decide (status ≠ 0)
  let body :=
    if output = [] then js "Command completed with exit code " ++ decimal status
    else if status ≠ 0 then output ++ js "\n\nExit code: " ++ decimal status
    else output
  let located :=
    if isError || decide (finalCwd ctx ≠ ctx.cwd) then
      body ++ js "\n[cwd: " ++ finalCwd ctx ++ js "]"
    else body
  let content :=
    match ctx.breakGlass with
    | some (approval, reason) =>
        js "[Cortex guardrail break-glass] approval=" ++ approval ++ js "; reason=" ++ reason ++
          js "\n" ++ located
    | none => located
  ⟨content, isError⟩

/-! ## The handlers -/

def DemotedTask.finish (t : DemotedTask) (code : Option ℕ) (signal : Option Text) : DemotedTask :=
  match t.outcome with
  | some _ => t
  | none =>
      match code with
      | some (n + 1) =>
          { t with
            outcome := some (.error (js "Exited with code " ++ decimal (n + 1) ++
              match signal with
              | some s => js " (signal " ++ s ++ js ")"
              | none => [])) }
      | _ => { t with outcome := some (.ok 0) }

def onStdioSettled (ctx : BashContext) (c : BashCall) (code : Option ℕ) (signal : Option Text) :
    BashCall :=
  if !c.exited then c
  else
    let c := { c with drainTimer := false }
    match c.demoted with
    | some t => { c with demoted := some (DemotedTask.finish t code signal) }
    | none =>
        if c.resolved then c
        else
          let timedOut := c.timedOut || (!c.aborted && (code.isNone && signal.isSome))
          { c with timedOut := timedOut }.safeResolve
            (report ctx c.stdout c.stderr c.killed timedOut c.aborted code signal)

def settleOnExit (ctx : BashContext) (c : BashCall) : BashCall :=
  if !c.exited || c.resolved then c
  else if (c.stdoutOpen || c.stderrOpen) && !c.drainTimer then { c with drainTimer := true }
  else c.onStdioSettled ctx c.exitCode c.exitSignal

/-- The drain timer cuts the pipes. -/
def onDrainTimeout (ctx : BashContext) (c : BashCall) : BashCall :=
  if c.drainTimer then
    { c with drainTimer := false, stdoutOpen := false, stderrOpen := false }.onStdioSettled ctx
      c.exitCode c.exitSignal
  else c

def demotedResult (taskId : Text) : ToolResult :=
  ⟨js "[Demoted to background task " ++ taskId ++
      js "] The command continues running in the background. Use TaskOutput(task_id=\"" ++ taskId ++
      js "\") to read its output and TaskStop(task_id=\"" ++ taskId ++ js "\") to kill it.",
    false⟩

def demote (ctx : BashContext) (c : BashCall) (taskId : Text) : BashCall :=
  if c.resolved || c.demoted.isSome || !ctx.hasTaskRegistry then c
  else
    let task := (DemotedTask.appendOutput ⟨taskId, [], none⟩ c.stdout).appendOutput c.stderr
    { c with demoted := some task }.safeResolve (demotedResult taskId)

def handle (ctx : BashContext) (c : BashCall) : BashEvent → BashCall
  | .stdoutData data =>
      match c.demoted with
      | some t => { c with demoted := some (t.appendOutput (utf8Decode data)) }
      | none =>
          let stdout := c.stdout ++ utf8Decode data
          { c with stdout := stdout, killed := c.killed || decide (MAX_OUTPUT < stdout.length) }
  | .stderrData data =>
      match c.demoted with
      | some t => { c with demoted := some (t.appendOutput (utf8Decode data)) }
      | none =>
          let stderr := c.stderr ++ utf8Decode data
          { c with stderr := stderr, killed := c.killed || decide (MAX_OUTPUT < stderr.length) }
  | .stdoutEnd => { c with stdoutOpen := false }.settleOnExit ctx
  | .stderrEnd => { c with stderrOpen := false }.settleOnExit ctx
  | .exit code signal =>
      { c with exited := true, exitCode := code, exitSignal := signal }.settleOnExit ctx
  | .close code signal => c.onStdioSettled ctx code signal
  | .drainTimeout => c.onDrainTimeout ctx
  | .timeout => { c with timedOut := true }
  | .abort => { c with aborted := true }
  | .demote taskId => c.demote ctx taskId
  | .error message => c.safeResolve ⟨js "Command failed: " ++ message, true⟩

end BashCall

end Shizuha.Tools
