import Shizuha.Agent.Types
import Shizuha.Js.Regex

/-!
# The task anchor and the compacted projection

Compaction replaces the oldest messages by a summary, and the task the session
began with is carried through it in the summary message, under a heading. The
reader is `extractTaskAnchor`: the section under the heading if some message
has one, else the first thing a user said. The writer is
`projectCompactedMessages`.

What the writer embeds is free text and the reader stops at the next thing
that looks like a heading; where the two disagree is settled under `Proofs`.
-/

namespace Shizuha.State

open Js Agent

abbrev Message := Agent.Message ContentBlock

def fallbackBlockText : ContentBlock → Text
  | .text s => s
  | .toolUse _ name input => js "[tool_use " ++ name ++ js " " ++ input.print.take 500 ++ js "]"
  | .toolResult toolUseId content isError _ =>
      js "[tool_result " ++ toolUseId ++ (if isError = some true then js " error" else []) ++
        js "] " ++ content
  | .reasoning .. => js "[thinking]"
  | .image _ mediaType => js "[image " ++ mediaType ++ js "]"

def fallbackMessageText (message : Message) : Text :=
  match message.content with
  | .text s => s
  | .blocks bs => join [newline] (bs.map fallbackBlockText)

def TASK_ANCHOR_HEADING : Text :=
  js "## Original task (verbatim — preserved across every compaction)"

def CURRENT_TASK_HEADING : Text :=
  js "## Current instruction (refreshed at each compaction)"

def SUMMARY_ENVELOPE : Text := js "[Conversation Summary]"

/-- `/\n#{1,3} /` -/
def headingBreak : Regex :=
  .cat [.unit (· == newline), .rep true 1 (some 3) (.unit (· == 35)), .unit (· == 32)]

/-- The text of a section: what follows the heading, up to the next line that
looks like one. -/
def sectionBody (after : Text) : Text :=
  match headingBreak.exec after with
  | none => trim after
  | some m => trim m.before

/-- A message's content when it is one string. -/
def stringContent (message : Message) : Text :=
  match message.content with
  | .text s => s
  | .blocks _ => []

/-- Read a previously emitted anchor section back out of a summary message. -/
def sectionFromPriorSummary : List Message → Text → Text
  | [], _ => []
  | m :: rest, heading =>
      match indexOf heading (stringContent m) with
      | none => sectionFromPriorSummary rest heading
      | some i =>
          let body := sectionBody ((stringContent m).drop (i + heading.length))
          if body = [] then sectionFromPriorSummary rest heading else body

/-- What a message says as a user's own request: empty when it is none. -/
def userInstruction (m : Message) : Text :=
  if m.role ≠ .user ∨ m.hasToolResult then []
  else
    let text := trim (fallbackMessageText m)
    if startsWith text SUMMARY_ENVELOPE then [] else text

/-- The first genuine user turn. -/
def firstUserInstruction : List Message → Text
  | [] => []
  | m :: rest => if userInstruction m = [] then firstUserInstruction rest else userInstruction m

/-- The newest genuine user request in this window, if any. -/
def latestUserInstruction (messages : List Message) : Text :=
  firstUserInstruction messages.reverse

def extractCurrentTask (messages : List Message) : Text :=
  if latestUserInstruction messages = [] then
    sectionFromPriorSummary messages CURRENT_TASK_HEADING
  else latestUserInstruction messages

def extractTaskAnchor (messages : List Message) : Text :=
  if sectionFromPriorSummary messages TASK_ANCHOR_HEADING = [] then firstUserInstruction messages
  else sectionFromPriorSummary messages TASK_ANCHOR_HEADING

/-! ## The projection -/

/-- What the projection reads from outside: the clock, one reading a call,
and the plan file. -/
structure ProjectionHost where
  now : ℕ → Double
  readFileSync : Text → Option Text

/-- A message the compactor writes. -/
def plainMessage (role : Role) (content : Text) (timestamp : Double) : Message :=
  ⟨none, none, none, role, .text content, some timestamp⟩

def anchorBlocks (messages : List Message) : List Text :=
  let taskAnchor := extractTaskAnchor messages
  let currentTask := extractCurrentTask messages
  [if taskAnchor ≠ [] then TASK_ANCHOR_HEADING ++ [newline] ++ taskAnchor else [],
    if currentTask ≠ [] ∧ currentTask ≠ taskAnchor then
      CURRENT_TASK_HEADING ++ [newline] ++ currentTask
    else []].filter (fun b => b ≠ [])

def summaryBody (messages : List Message) (summary : Text) : Text :=
  if anchorBlocks messages ≠ [] then
    join [newline, newline] (anchorBlocks messages) ++ js "\n\n## Summary\n" ++ summary
  else summary

def PLAN_MARKER : Text := js "[System] A plan file exists from plan mode at:"

def planAlreadyPresent (compacted : List Message) : Bool :=
  compacted.any fun m => startsWith (stringContent m) PLAN_MARKER

/-- The pair of messages that carries a plan file's content. -/
def planMessages (host : ProjectionHost) (path planContent : Text) : List Message :=
  [plainMessage .user (PLAN_MARKER ++ js " " ++ path ++ js "\n\nPlan contents:\n" ++ planContent ++
      js "\n\nIf this plan is relevant to the current work, continue working on it.") (host.now 2),
    plainMessage .assistant (js "I have the plan file context. Continuing with the plan.")
      (host.now 3)]

/-- The plan's messages, when the projection does not hold them already. -/
def planSuffix (host : ProjectionHost) (planFilePath : Option Text)
    (compacted : List Message) : List Message :=
  match planFilePath with
  | none => []
  | some path =>
      if path = [] ∨ planAlreadyPresent compacted then []
      else
        match host.readFileSync path with
        | none => []
        | some planContent => if trim planContent = [] then [] else planMessages host path planContent

def summaryMessage (host : ProjectionHost) (messages : List Message) (summary : Text) : Message :=
  plainMessage .user (SUMMARY_ENVELOPE ++ [newline] ++ summaryBody messages summary) (host.now 0)

def acknowledgement (host : ProjectionHost) : Message :=
  plainMessage .assistant
    (js "Continuing from the validated summary and preserved recent messages.") (host.now 1)

def projectCompactedMessages (host : ProjectionHost) (planFilePath : Option Text)
    (messages : List Message) (summary : Text) (suffixStart : Int) : List Message :=
  let compacted :=
    summaryMessage host messages summary :: acknowledgement host :: slice messages suffixStart
  compacted ++ planSuffix host planFilePath compacted

end Shizuha.State
