import Mathlib.Algebra.GroupWithZero.Nat
import Shizuha.Js.Regex

/-!
# What counts as a summary

The patterns that take a summary out of a model's answer, tell a degenerate
one, and strip the machinery a model copied into it.
-/

namespace Shizuha.State

open Js Regex

/-- `[\s\S]*?` -/
def anything : Regex := .lazyStar .anyUnit

/-- `/<summary>([\s\S]*?)<\/summary>/` -/
def summaryTags : Regex := .cat [.lit (js "<summary>"), .capture anything, .lit (js "</summary>")]

/-- `/^(?:\s*<analysis>[\s\S]*?<\/analysis>)?\s*<summary>([\s\S]*)$/` -/
def openSummaryTag : Regex :=
  .cat [.bos,
    .opt (.cat [.star .space, .lit (js "<analysis>"), anything, .lit (js "</analysis>")]),
    .star .space, .lit (js "<summary>"), .capture (.star .anyUnit), .eos]

/-- The content of the summary tags, when there are any. -/
def extractSummary (summary : Text) : Text :=
  match (summaryTags.exec summary).or (openSummaryTag.exec summary) with
  | some m => trim (m.group.getD [])
  | none => summary

/-- `"type"\s*:\s*"(tool_use|tool_result|text)"` -/
def serializedType : Regex :=
  .cat [.lit (js "\"type\""), .star .space, .lit (js ":"), .star .space, .lit (js "\""),
    .oneOf [.lit (js "tool_use"), .lit (js "tool_result"), .lit (js "text")], .lit (js "\"")]

/-- `[｜|]` -/
def bar : Regex := .unit fun u => u == 0xFF5C || u == 124

/-- The markers of serialized blocks that a summary must not be full of. -/
def serializedMarker : Regex :=
  .oneOf [serializedType, .lit (js "\"tool_use_id\""), .lit (js "\"toolUseId\""),
    .lit (js "[\x7b\"type\""), .cat [bar, .lit (js "DSML"), bar]]

/-- `/\[\{"type"[\s\S]{0,n}?\}\]/` -/
def serializedArray (n : ℕ) : Regex :=
  .cat [.lit (js "[\x7b\"type\""), .rep false 0 (some n) .anyUnit, .lit (js "\x7d]")]

/-- `/<tool_call>[\s\S]*?<\/tool_call>/` -/
def toolCallEnvelope : Regex := .cat [.lit (js "<tool_call>"), anything, .lit (js "</tool_call>")]

/-- `/\bthe (conversation |previous )?summary (says|said|states|mentions|indicates)\b/i` -/
def summarySays : Regex :=
  .cat [.wordBoundary, .litI (js "the "),
    .opt (.oneOf [.litI (js "conversation "), .litI (js "previous ")]), .litI (js "summary "),
    .oneOf [.litI (js "says"), .litI (js "said"), .litI (js "states"), .litI (js "mentions"),
      .litI (js "indicates")],
    .wordBoundary]

/-- `/\baccording to the (conversation )?summary\b/i` -/
def accordingToSummary : Regex :=
  .cat [.wordBoundary, .litI (js "according to the "), .opt (.litI (js "conversation ")),
    .litI (js "summary"), .wordBoundary]

/-- The reason a summary is degenerate, if it is. -/
def isDegenerateSummary (summary : Text) : Option Text :=
  let text := trim summary
  if text = [] then some (js "empty")
  else if startsWith text (js "<tool_call>")
      && trim (toolCallEnvelope.replaceAll (fun _ => []) text) = [] then
    some (js "raw_glm_tool_call_envelope")
  else if 2 ≤ (serializedMarker.matchAll text).length then
    some (js "echoed_serialized_tool_blocks")
  else if text.length < 4 * (((serializedArray 4000).matchAll text).map (·.text.length)).sum then
    some (js "dominated_by_serialized_blocks")
  else if summarySays.test text || accordingToSummary.test text then
    some (js "summarized_a_summary")
  else none

/-- `/"type"\s*:\s*"(tool_use|tool_result|text)"|"tool_use_id"|"toolUseId"/` -/
def blockMarker : Regex :=
  .oneOf [serializedType, .lit (js "\"tool_use_id\""), .lit (js "\"toolUseId\"")]

/-- A fenced code block. -/
def fence : Regex :=
  .cat [.lit (js "```"), .rep false 0 (some 20000) .anyUnit, .lit (js "```")]

/-- `[^>]`, bounded or not. -/
def untilAngle (hi : Option ℕ) : Regex := .rep true 0 hi (.unit (· != 62))

/-- `/<[｜|]DSML[｜|]invoke\b[^>]*>[\s\S]*?<\/[｜|]DSML[｜|]invoke>/` -/
def dsmlInvoke : Regex :=
  .cat [.lit (js "<"), bar, .lit (js "DSML"), bar, .lit (js "invoke"), .wordBoundary,
    untilAngle none, .lit (js ">"), anything, .lit (js "</"), bar, .lit (js "DSML"), bar,
    .lit (js "invoke>")]

/-- `/<\/?[｜|]DSML[｜|][^>]{0,200}>/` -/
def dsmlTag : Regex :=
  .cat [.lit (js "<"), .opt (.lit (js "/")), bar, .lit (js "DSML"), bar, untilAngle (some 200),
    .lit (js ">")]

/-- The model's own prose, without the transcript machinery it copied. -/
def stripEchoedToolBlocks (text : Text) : Text :=
  let blank : Match → Text := fun _ => js " "
  let out := (serializedArray 20000).replaceAll blank text
  let out := fence.replaceAll (fun m => if blockMarker.test m.text then js " " else m.text) out
  let out := join [newline] ((lines out).filter fun line => !blockMarker.test line)
  let out := dsmlTag.replaceAll blank (dsmlInvoke.replaceAll blank out)
  let out := (Regex.rep true 2 none (.unit fun u => u == 32 || u == 9)).replaceAll blank out
  let out := (Regex.rep true 3 none (.unit (· == newline))).replaceAll (fun _ => js "\n\n") out
  trim out

end Shizuha.State
