import Shizuha.Js.Map
import Shizuha.Process.Env
import Shizuha.Shared.PulseSnapshot

/-!
# What a heartbeat made of its queue

An agent that is woken by a heartbeat is to look at its Pulse queue and to move
something in it. After the turn its tool calls are read, an outcome is recorded
under the agent's name, and a count of heartbeats in a row that moved nothing is
carried from record to record. At a limit the outcome is that the agent needs
help.

The count is kept in four places: for a turn that did not list its tasks, for
one whose listing was empty, for one of these that did something nevertheless,
and for one with a listing to judge.
-/

namespace Shizuha.Shared

open Js Process
open LocalCore (stringOf)
open Cron (parseIntPrefix)

inductive HeartbeatQueueDrainOutcome where
  | queueEmpty
  | allBlocked
  | futureDue
  | workedTask
  | forwarded
  | readyNoProgress
  | needsHelp
  | notObserved
  deriving DecidableEq

inductive IncompleteReason where
  | requiredToolNotCalled
  | progressOnly
  | reasoningOnly
  | degenerateGeneration
  | semanticCompactionFailed
  deriving DecidableEq

structure HeartbeatQueueDrainInput where
  readyTaskCount : ℤ
  blockedTaskCount : Option ℤ := none
  futureDueCount : Option ℤ := none
  progressEventCount : Option ℤ := none
  forwardedEventCount : Option ℤ := none
  pulseGetMyTasksOnly : Option Bool := none
  pulseGetMyAlertsObserved : Option Bool := none
  pulseAlertTaskOrderValid : Option Bool := none
  consecutiveReadyNoProgressHeartbeats : Option ℤ := none
  needsHelpAfter : Option ℤ := none

structure HeartbeatQueueDrainRecord where
  agentId : Text
  outcome : HeartbeatQueueDrainOutcome
  reason : Text
  observedAt : Text
  readyTaskCount : ℤ
  blockedTaskCount : ℤ
  futureDueCount : ℤ
  progressEventCount : ℤ
  forwardedEventCount : ℤ
  pulseGetMyTasksOnly : Bool
  pulseGetMyAlertsObserved : Bool
  pulseAlertTaskOrderValid : Bool
  consecutiveReadyNoProgressHeartbeats : ℤ
  needsHelpAfter : ℤ
  incompleteReason : Option IncompleteReason := none
  deriving DecidableEq

structure HeartbeatQueueDrainTurnToolCall where
  name : Option Text

structure HeartbeatQueueDrainTurnToolResult where
  content : Option Json
  isError : Bool

structure HeartbeatQueueDrainTurn where
  toolCalls : List HeartbeatQueueDrainTurnToolCall
  toolResults : List HeartbeatQueueDrainTurnToolResult
  incompleteReason : Option IncompleteReason := none

structure HeartbeatQueueBlindPolicy where
  pulseQueueObligated : Option Bool := none

abbrev HeartbeatOutcomes := Map Text HeartbeatQueueDrainRecord

/-! ## Tools by their names -/

def namesTool (tool : String) (name : Option Text) : Bool :=
  (Regex.litI (js tool)).test (name.getD [])

def isPulseGetMyAlertsToolName (name : Option Text) : Bool := namesTool "pulse_get_my_alerts" name

def isPulseGetMyWorkToolName (name : Option Text) : Bool := namesTool "pulse_get_my_work" name

def isPulseGetMyTasksToolName (name : Option Text) : Bool := namesTool "pulse_get_my_tasks" name

def heartbeatSawTaskInbox (name : Option Text) : Bool :=
  isPulseGetMyWorkToolName name || isPulseGetMyTasksToolName name

def isPulseInboxListingToolName (name : Option Text) : Bool :=
  heartbeatSawTaskInbox name || isPulseGetMyAlertsToolName name

def heartbeatTurnWasPulseListingOnly (turn : HeartbeatQueueDrainTurn) : Bool :=
  !turn.toolCalls.isEmpty && turn.toolCalls.zipIdx.all fun call =>
    !turn.toolResults[call.2]?.any (·.isError) && isPulseInboxListingToolName call.1.name

/-- The result of a listing that the turn has already; `none` where the content
does not become a text. -/
def isHeartbeatInboxReplayContent (content : Option Json) : Option Bool :=
  (match content with
    | none | some .null => some []
    | some v => stringOf v).map fun text =>
      startsWith text (js "Combined inbox is already in this turn")

def dropHead (head s : Text) : Text := if startsWith s head then s.drop head.length else s

def normalizeToolName (name : Text) : Text :=
  (dropHead (js "mcp__") (dropHead (js "functions.") name)).map fun u => if u = 45 then 95 else u

def endsWith (s : Text) (last : String) : Bool := (js last).isSuffixOf s

def isPulseGetMyWorkTool (name : Text) : Bool := endsWith name "pulse_get_my_work"

def isPulseGetMyTasksTool (name : Text) : Bool := endsWith name "pulse_get_my_tasks"

def isPulseGetMyAlertsTool (name : Text) : Bool := endsWith name "pulse_get_my_alerts"

def isForwardingTool (name : Text) : Bool := endsWith name "pulse_assign_task"

def isMutatingProgressTool (name : Text) : Bool :=
  (["edit", "write", "notebook", "apply_patch", "task"].map js).contains name ||
    ["apply_patch", "pulse_add_comment", "pulse_execute_transition", "pulse_create_task",
      "pulse_link_pr", "pulse_update_task"].any (endsWith name) ||
    includes name (js "github")

def isShellProgressTool (name : Text) : Bool := name == js "bash" || endsWith name "exec_command"

/-! ## The limit -/

def DEFAULT_NEEDS_HELP_AFTER (env : Env) : ℤ :=
  match parseIntPrefix ((env (js "SHIZUHA_HEARTBEAT_NEEDS_HELP_AFTER")).getD (js "2")) with
  | none | some 0 => 2
  | some n => max 1 n

def needsHelpAfterValue (env : Env) (value : Option ℤ) : ℤ :=
  max 1 (value.getD (DEFAULT_NEEDS_HELP_AFTER env))

/-! ## Judging a queue -/

def number (n : ℤ) : Text := numeral n

def evaluateHeartbeatQueueDrainOutcome (env : Env) (input : HeartbeatQueueDrainInput) :
    HeartbeatQueueDrainOutcome × Text :=
  let readyTaskCount := max 0 input.readyTaskCount
  let blockedTaskCount := max 0 (input.blockedTaskCount.getD 0)
  let futureDueCount := max 0 (input.futureDueCount.getD 0)
  let progressEventCount := max 0 (input.progressEventCount.getD 0)
  let forwardedEventCount := max 0 (input.forwardedEventCount.getD 0)
  let consecutiveReadyNoProgressHeartbeats :=
    max 0 (input.consecutiveReadyNoProgressHeartbeats.getD 0)
  let needsHelpAfter := needsHelpAfterValue env input.needsHelpAfter
  if 0 < forwardedEventCount then
    (.forwarded, number forwardedEventCount ++ js " forwarding event(s) recorded")
  else if 0 < progressEventCount then
    (.workedTask, number progressEventCount ++ js " progress event(s) recorded")
  else if 0 < readyTaskCount ∧ needsHelpAfter ≤ consecutiveReadyNoProgressHeartbeats then
    (.needsHelp, number readyTaskCount ++ js " ready task(s) with no progress for " ++
      number consecutiveReadyNoProgressHeartbeats ++ js " heartbeat(s)")
  else if 0 < readyTaskCount then
    (.readyNoProgress, number readyTaskCount ++
      if input.pulseGetMyTasksOnly.getD false then
        js " ready task(s); heartbeat only checked Pulse queue"
      else js " ready task(s); no progress event recorded")
  else if 0 < blockedTaskCount then
    (.allBlocked, number blockedTaskCount ++ js " blocked task(s), no ready tasks")
  else if 0 < futureDueCount then
    (.futureDue, number futureDueCount ++ js " future/not-yet-due task(s), no ready tasks")
  else (.queueEmpty, js "no actionable ready, blocked, or future tasks observed")

def recordHeartbeatQueueDrainOutcome (env : Env) (latest : HeartbeatOutcomes) (agentId : Text)
    (input : HeartbeatQueueDrainInput) (observedAt : Text) :
    HeartbeatQueueDrainRecord × HeartbeatOutcomes :=
  let previous := latest.find agentId
  let noProgressWithReady := 0 < max 0 input.readyTaskCount ∧
    max 0 (input.progressEventCount.getD 0) = 0 ∧ max 0 (input.forwardedEventCount.getD 0) = 0
  let consecutiveReadyNoProgressHeartbeats :=
    if noProgressWithReady then
      (previous.map (·.consecutiveReadyNoProgressHeartbeats)).getD 0 + 1
    else 0
  let evaluated := evaluateHeartbeatQueueDrainOutcome env
    { input with
      consecutiveReadyNoProgressHeartbeats := some consecutiveReadyNoProgressHeartbeats }
  let record : HeartbeatQueueDrainRecord :=
    { agentId
      outcome := evaluated.1
      reason := evaluated.2
      observedAt
      readyTaskCount := max 0 input.readyTaskCount
      blockedTaskCount := max 0 (input.blockedTaskCount.getD 0)
      futureDueCount := max 0 (input.futureDueCount.getD 0)
      progressEventCount := max 0 (input.progressEventCount.getD 0)
      forwardedEventCount := max 0 (input.forwardedEventCount.getD 0)
      pulseGetMyTasksOnly := input.pulseGetMyTasksOnly.getD false
      pulseGetMyAlertsObserved := input.pulseGetMyAlertsObserved.getD true
      pulseAlertTaskOrderValid := input.pulseAlertTaskOrderValid.getD true
      consecutiveReadyNoProgressHeartbeats
      needsHelpAfter := needsHelpAfterValue env input.needsHelpAfter }
  (record, latest.set agentId record)

/-! ## A turn that showed no queue -/

structure Resolved where
  outcome : HeartbeatQueueDrainOutcome
  reason : Text
  consecutiveReadyNoProgressHeartbeats : ℤ

def resolveQueueBlindOutcome (env : Env) (previous : Option HeartbeatQueueDrainRecord)
    (notObservedReason : Text) (workDoneThisTurn : ℤ) (pulseQueueObligated : Bool) : Resolved :=
  if 0 < workDoneThisTurn then
    { outcome := .workedTask
      reason := number workDoneThisTurn ++
        js " progress event(s) recorded; queue snapshot skipped while working"
      consecutiveReadyNoProgressHeartbeats := 0 }
  else
    let priorReady := max 0 ((previous.map (·.readyTaskCount)).getD 0)
    if !pulseQueueObligated ∧ priorReady ≤ 0 then
      { outcome := .queueEmpty
        reason := js "no Pulse queue snapshot required; no ready work assigned"
        consecutiveReadyNoProgressHeartbeats := 0 }
    else
      let consecutive :=
        max 0 ((previous.map (·.consecutiveReadyNoProgressHeartbeats)).getD 0) + 1
      if needsHelpAfterValue env (previous.map (·.needsHelpAfter)) ≤ consecutive then
        { outcome := .needsHelp
          reason :=
            (if 0 < priorReady then number priorReady ++ js " known ready task(s) and " else []) ++
              number consecutive ++ js " consecutive heartbeat(s) exposed no Pulse queue snapshot"
          consecutiveReadyNoProgressHeartbeats := consecutive }
      else
        { outcome := .notObserved
          reason := notObservedReason
          consecutiveReadyNoProgressHeartbeats := consecutive }

/-! ## A turn's tool calls -/

/-- What a turn's calls are counted into. -/
structure Tally where
  pulseResults : List Text := []
  mutatingProgressEventCount : ℕ := 0
  shellProgressEventCount : ℕ := 0
  forwardedEventCount : ℕ := 0
  pulseGetMyTasksCallCount : ℕ := 0
  pulseGetMyAlertsCallCount : ℕ := 0

def Tally.add (t : Tally) (toolName : Text) (content : Option Json) : Tally :=
  let text := (content.map contentToText).getD []
  if isPulseGetMyWorkTool toolName then
    { t with
      pulseGetMyAlertsCallCount := t.pulseGetMyAlertsCallCount + 1
      pulseGetMyTasksCallCount := t.pulseGetMyTasksCallCount + 1
      pulseResults := t.pulseResults ++ [pulseTasksTextFromSnapshot text] }
  else if isPulseGetMyAlertsTool toolName then
    { t with pulseGetMyAlertsCallCount := t.pulseGetMyAlertsCallCount + 1 }
  else if isPulseGetMyTasksTool toolName then
    { t with
      pulseGetMyTasksCallCount := t.pulseGetMyTasksCallCount + 1
      pulseResults := t.pulseResults ++ [text] }
  else if isForwardingTool toolName then
    { t with forwardedEventCount := t.forwardedEventCount + 1 }
  else if isMutatingProgressTool toolName then
    { t with mutatingProgressEventCount := t.mutatingProgressEventCount + 1 }
  else if isShellProgressTool toolName then
    { t with shellProgressEventCount := t.shellProgressEventCount + 1 }
  else t

/-- The loop over the calls, each with its result if it has one. -/
def tally : List HeartbeatQueueDrainTurnToolCall → List HeartbeatQueueDrainTurnToolResult →
    Tally → Option Tally
  | [], _, t => some t
  | call :: calls, results, t =>
      if results.head?.any (·.isError) then tally calls results.tail t
      else
        let content := results.head?.bind (·.content)
        (isHeartbeatInboxReplayContent content).bind fun replay =>
          if replay then tally calls results.tail t
          else
            tally calls results.tail (t.add (normalizeToolName (call.name.getD [])) content)

/-- Shell calls are progress where something else is. -/
def Tally.progressEventCount (t : Tally) : ℤ :=
  if 0 < t.mutatingProgressEventCount then
    t.mutatingProgressEventCount + t.shellProgressEventCount
  else 0

/-- The last listing with something in it. -/
def Tally.pulseText (t : Tally) : Text :=
  ((t.pulseResults.reverse.find? fun result => trim result ≠ []).map trim).getD []

def countMutatingProgressEvents (turn : HeartbeatQueueDrainTurn) : ℤ :=
  let names := (turn.toolCalls.zipIdx.filter fun call =>
    !turn.toolResults[call.2]?.any (·.isError)).map fun call =>
      normalizeToolName (call.1.name.getD [])
  let mutating := names.countP isMutatingProgressTool
  if 0 < mutating then
    mutating + names.countP fun name => !isMutatingProgressTool name && isShellProgressTool name
  else 0

/-! ## Recording a turn -/

/-- The record of a turn that showed no queue. -/
def blindRecord (env : Env) (latest : HeartbeatOutcomes) (agentId : Text) (t : Tally)
    (resolved : Resolved) (observedAt : Text) (pulseGetMyTasksOnly orderValid : Bool) :
    HeartbeatQueueDrainRecord × HeartbeatOutcomes :=
  let previous := latest.find agentId
  let record : HeartbeatQueueDrainRecord :=
    { agentId
      outcome := resolved.outcome
      reason := resolved.reason
      observedAt
      readyTaskCount := (previous.map (·.readyTaskCount)).getD 0
      blockedTaskCount := (previous.map (·.blockedTaskCount)).getD 0
      futureDueCount := (previous.map (·.futureDueCount)).getD 0
      progressEventCount := t.progressEventCount
      forwardedEventCount := t.forwardedEventCount
      pulseGetMyTasksOnly
      pulseGetMyAlertsObserved := 0 < t.pulseGetMyAlertsCallCount
      pulseAlertTaskOrderValid := orderValid
      consecutiveReadyNoProgressHeartbeats := resolved.consecutiveReadyNoProgressHeartbeats
      needsHelpAfter := DEFAULT_NEEDS_HELP_AFTER env }
  (record, latest.set agentId record)

/-- What is recorded of a turn once its calls are counted. -/
def evaluateTally (env : Env) (latest : HeartbeatOutcomes) (agentId : Text) (t : Tally)
    (listingOnly : Bool) (observedAt : Text) (pulseQueueObligated : Bool) :
    HeartbeatQueueDrainRecord × HeartbeatOutcomes :=
  let previous := latest.find agentId
  let progressEventCount := t.progressEventCount
  let pulseGetMyTasksOnly := listingOnly && 0 < t.pulseGetMyTasksCallCount
  if t.pulseGetMyTasksCallCount = 0 then
    let reason :=
      if t.pulseGetMyAlertsCallCount = 0 then js "heartbeat did not expose a Pulse queue snapshot"
      else js "heartbeat reconciled alerts but did not expose a Pulse task queue snapshot"
    let resolved :=
      resolveQueueBlindOutcome env previous reason progressEventCount pulseQueueObligated
    blindRecord env latest agentId t resolved observedAt pulseGetMyTasksOnly false
  else if t.pulseText = [] then
    let resolved :=
      if 0 < progressEventCount ∨ 0 < t.forwardedEventCount then
        { outcome :=
            (evaluateHeartbeatQueueDrainOutcome env
              { readyTaskCount := (previous.map (·.readyTaskCount)).getD 0
                progressEventCount := some progressEventCount
                forwardedEventCount := some t.forwardedEventCount }).1
          reason :=
            js "heartbeat had progress/forwarding events but no Pulse queue snapshot content"
          consecutiveReadyNoProgressHeartbeats := 0 }
      else
        resolveQueueBlindOutcome env previous
          (js "heartbeat called pulse_get_my_tasks but no queue snapshot content was available")
          progressEventCount pulseQueueObligated
    blindRecord env latest agentId t resolved observedAt pulseGetMyTasksOnly true
  else
    let snapshot := parsePulseGetMyTasksResult t.pulseText
    recordHeartbeatQueueDrainOutcome env latest agentId
      { readyTaskCount := snapshot.readyTaskCount
        blockedTaskCount := some snapshot.blockedTaskCount
        futureDueCount := some snapshot.futureDueCount
        progressEventCount := some progressEventCount
        forwardedEventCount := some t.forwardedEventCount
        pulseGetMyTasksOnly := some pulseGetMyTasksOnly
        pulseGetMyAlertsObserved := some (0 < t.pulseGetMyAlertsCallCount)
        pulseAlertTaskOrderValid := some true }
      observedAt

/-- Nothing is recorded of a turn with a content that does not become a text: it
throws. -/
def evaluateHeartbeatQueueDrainTurn (env : Env) (latest : HeartbeatOutcomes) (agentId : Text)
    (turn : HeartbeatQueueDrainTurn) (observedAt : Text) (policy : HeartbeatQueueBlindPolicy) :
    Option (HeartbeatQueueDrainRecord × HeartbeatOutcomes) :=
  (tally turn.toolCalls turn.toolResults {}).map fun t =>
    evaluateTally env latest agentId t (heartbeatTurnWasPulseListingOnly turn) observedAt
      (policy.pulseQueueObligated != some false)

/-- What a turn that did not come to its end adds to its record. -/
def HeartbeatQueueDrainRecord.incomplete (record : HeartbeatQueueDrainRecord) :
    Option IncompleteReason → HeartbeatQueueDrainRecord
  | none => record
  | some .semanticCompactionFailed =>
      { record with
        incompleteReason := some .semanticCompactionFailed
        outcome := .needsHelp
        reason :=
          js "Semantic compaction failed; active conversation preserved for a later attempt" }
  | some reason => { record with incompleteReason := some reason }

/-- The record is changed in its place. -/
def recordHeartbeatQueueDrainTurn (env : Env) (latest : HeartbeatOutcomes) (agentId : Text)
    (turn : HeartbeatQueueDrainTurn) (observedAt : Text) (policy : HeartbeatQueueBlindPolicy) :
    Option (HeartbeatQueueDrainRecord × HeartbeatOutcomes) :=
  (evaluateHeartbeatQueueDrainTurn env latest agentId turn observedAt policy).map fun recorded =>
    let record := recorded.1.incomplete turn.incompleteReason
    (record, recorded.2.set agentId record)

/-! ## The other hands -/

def recordObservedEmptyPulseQueue (env : Env) (latest : HeartbeatOutcomes) (agentId : Text)
    (observedAt : Text) : HeartbeatQueueDrainRecord × HeartbeatOutcomes :=
  recordHeartbeatQueueDrainOutcome env latest agentId
    { readyTaskCount := 0, blockedTaskCount := some 0, futureDueCount := some 0 } observedAt

def recordObservedWorkProgress (env : Env) (latest : HeartbeatOutcomes) (agentId : Text)
    (turn : HeartbeatQueueDrainTurn) (observedAt : Text) :
    Option (HeartbeatQueueDrainRecord × HeartbeatOutcomes) :=
  let progressEventCount := countMutatingProgressEvents turn
  if progressEventCount ≤ 0 then none
  else
    let previous := latest.find agentId
    some (recordHeartbeatQueueDrainOutcome env latest agentId
      { readyTaskCount := (previous.map (·.readyTaskCount)).getD 0
        blockedTaskCount := some ((previous.map (·.blockedTaskCount)).getD 0)
        futureDueCount := some ((previous.map (·.futureDueCount)).getD 0)
        progressEventCount := some progressEventCount }
      observedAt)

def clearFruitlessConsecutiveAfterSessionRotate (latest : HeartbeatOutcomes) (agentId : Text) :
    HeartbeatOutcomes :=
  match latest.find agentId with
  | none => latest
  | some previous =>
      latest.set agentId { previous with consecutiveReadyNoProgressHeartbeats := 0 }

/-- What is done with the records. A record read from a log line is put in as it
is. -/
inductive Observation where
  | turn (agentId : Text) (turn : HeartbeatQueueDrainTurn) (observedAt : Text)
      (policy : HeartbeatQueueBlindPolicy)
  | outcome (agentId : Text) (input : HeartbeatQueueDrainInput) (observedAt : Text)
  | emptyQueue (agentId : Text) (observedAt : Text)
  | workProgress (agentId : Text) (turn : HeartbeatQueueDrainTurn) (observedAt : Text)
  | rotated (agentId : Text)
  | ingested (record : HeartbeatQueueDrainRecord)

def Observation.agentId : Observation → Text
  | .turn agentId .. | .outcome agentId .. | .emptyQueue agentId _ | .workProgress agentId ..
  | .rotated agentId => agentId
  | .ingested record => record.agentId

def observe (env : Env) (latest : HeartbeatOutcomes) : Observation → HeartbeatOutcomes
  | .turn agentId turn observedAt policy =>
      ((recordHeartbeatQueueDrainTurn env latest agentId turn observedAt policy).map
        Prod.snd).getD latest
  | .outcome agentId input observedAt =>
      (recordHeartbeatQueueDrainOutcome env latest agentId input observedAt).2
  | .emptyQueue agentId observedAt =>
      (recordObservedEmptyPulseQueue env latest agentId observedAt).2
  | .workProgress agentId turn observedAt =>
      ((recordObservedWorkProgress env latest agentId turn observedAt).map Prod.snd).getD latest
  | .rotated agentId => clearFruitlessConsecutiveAfterSessionRotate latest agentId
  | .ingested record => latest.set record.agentId record

def observeAll (env : Env) (latest : HeartbeatOutcomes) (run : List Observation) :
    HeartbeatOutcomes :=
  run.foldl (observe env) latest

end Shizuha.Shared
