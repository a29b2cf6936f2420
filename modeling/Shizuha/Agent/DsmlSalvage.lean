import Shizuha.Js.Regex

/-!
# Tool-call markup in streamed text

A model can leak the wire form of a tool call into its text, in three
spellings: the tags with the DSML token in them, bare `invoke` and `parameter`
tags, and the `tool_call` tags of other models. `stripDsmlMarkup` takes all of
them out of a whole text, complete blocks with everything in them and stray
tags alone, and tidies the white space it leaves.

Text that is streamed goes through `holdDsmlStreamDelta` piece by piece. It
strips what it has, the carried tail and the new piece, and then holds back a
suffix that could still become a tag.
-/

namespace Shizuha.Agent

open Js Regex

/-! ## Patterns -/

/-- The fullwidth bar of the token, or the ASCII one. -/
def BAR : Regex := .unit fun u => u == 0xFF5C || u == 124

def MARKER_RE : Regex := cat [BAR, lit (js "DSML"), BAR]

def notClosing : Regex := .unit (· != 62)

def notQuote : Regex := .unit (· != 34)

def slash : Regex := opt (lit (js "/"))

/-- `name="…"` and the rest of a tag, up to its end. -/
def nameAttribute : Regex :=
  cat [lit (js "name=\""), plus notQuote, lit (js "\""), star notClosing, lit (js ">")]

def INVOKE_RE : Regex :=
  cat [lit (js "<"), MARKER_RE, lit (js "invoke"), .wordBoundary, lazyStar notClosing,
    nameAttribute, lazyStar anyUnit, lit (js "</"), MARKER_RE, lit (js "invoke>")]

def ANY_TAG_RE : Regex :=
  cat [lit (js "<"), slash, MARKER_RE, .rep true 0 (some 200) notClosing, lit (js ">")]

def BARE_INVOKE_RE : Regex :=
  cat [lit (js "<invoke"), .wordBoundary, lazyStar notClosing, .wordBoundary, nameAttribute,
    lazyStar anyUnit, lit (js "</invoke>")]

/-- The start of an opening or closing tag, in either case. -/
def tagStart (name : Text) : Regex := cat [lit (js "<"), slash, litI name, .wordBoundary]

def BARE_MARKER_RE : Regex := .alt (tagStart (js "invoke")) (tagStart (js "parameter"))

def GROK_TOOL_CALL_RE : Regex :=
  cat [lit (js "<tool_call>"), lazyStar anyUnit, lit (js "</tool_call>")]

def GROK_MARKER_RE : Regex := tagStart (js "tool_call")

/-- A tag that belongs to no complete block. -/
def strayTag (name : Text) : Regex :=
  cat [tagStart name, .rep true 0 (some 200) notClosing, lit (js ">")]

/-- The test that both functions make first. -/
def hasMarkup (source : Text) : Bool :=
  MARKER_RE.test source || BARE_MARKER_RE.test source || GROK_MARKER_RE.test source

/-! ## White space -/

def isBlank (u : UInt16) : Bool := u == 32 || u == 9

/-- What ends a line for `^` and `$` under the `m` flag. -/
def isLineEnd (u : UInt16) : Bool := u == 10 || u == 13 || u == 0x2028 || u == 0x2029

def finishLine (line : Text) : Text := if line.all isBlank then [] else line.reverse

/-- `/^[ \t]+$/gm` replaced by nothing; the line so far is kept reversed. -/
def clearBlankLines (line : Text) : Text → Text
  | [] => finishLine line
  | u :: s =>
      if isLineEnd u then finishLine line ++ u :: clearBlankLines [] s
      else clearBlankLines (u :: line) s

def collapseWhitespace (text : Text) : Text :=
  let text := (Regex.rep true 2 none (.unit isBlank)).replaceAll (fun _ => js " ") text
  let text := clearBlankLines [] text
  trim ((Regex.rep true 3 none (lit (js "\n"))).replaceAll (fun _ => js "\n\n") text)

/-! ## Stripping -/

def blankOut (r : Regex) (text : Text) : Text := r.replaceAll (fun _ => js " ") text

/-- Complete blocks, then stray tags, then one marker that is left. -/
def stripPatterns (source : Text) : Text :=
  MARKER_RE.replaceFirst (fun _ => js " ")
    ([INVOKE_RE, ANY_TAG_RE, BARE_INVOKE_RE, GROK_TOOL_CALL_RE, strayTag (js "invoke"),
      strayTag (js "parameter"), strayTag (js "tool_call")].foldl (fun text r => blankOut r text)
      source)

def stripDsmlMarkup (source : Text) : Text :=
  if hasMarkup source then collapseWhitespace (stripPatterns source) else source

/-! ## Streaming -/

def STREAM_HOLD_MARKERS : List Text :=
  [js "<｜DSML｜tool_calls>", js "<｜DSML｜toolcalls>", js "</｜DSML｜tool_calls>",
    js "<｜DSML｜invoke", js "</｜DSML｜invoke>", js "<｜DSML｜parameter", js "</｜DSML｜parameter>",
    js "<|DSML|tool_calls>", js "<|DSML|toolcalls>", js "</|DSML|tool_calls>",
    js "<|DSML|invoke", js "</|DSML|invoke>", js "<|DSML|parameter", js "</|DSML|parameter>",
    js "<invoke", js "</invoke>", js "<parameter", js "</parameter>",
    js "<tool_call", js "</tool_call>"]

def STREAM_HOLD_MAX : ℕ := (STREAM_HOLD_MARKERS.map List.length).foldl max 0

/-- The suffix could still become a marker. -/
def couldBecomeMarker (suffix : Text) : Bool :=
  STREAM_HOLD_MARKERS.any fun m => startsWith m suffix && suffix != m

/-- Where the part that is held back begins. -/
def incompleteMarkerIndex (text : Text) : ℕ :=
  let start := text.length - STREAM_HOLD_MAX
  ((List.range' start (text.length - start)).find? fun i => couldBecomeMarker (text.drop i)).getD
    text.length

/-- The text to show, and the tail to carry. -/
def holdDsmlStreamDelta (delta carry : Text) (finished : Bool) : Text × Text :=
  let source := stripDsmlMarkup (carry ++ delta)
  if finished then (source, [])
  else
    let cut := incompleteMarkerIndex source
    (source.take cut, source.drop cut)

/-- What has been shown, and the tail that is held back. -/
structure Sanitizer where
  visible : Text
  carry : Text

def Sanitizer.init : Sanitizer := ⟨[], []⟩

def Sanitizer.feed (s : Sanitizer) (delta : Text) : Sanitizer :=
  let held := holdDsmlStreamDelta delta s.carry false
  ⟨s.visible ++ held.1, held.2⟩

/-- The flush at the end of the stream. -/
def Sanitizer.finish (s : Sanitizer) : Text :=
  s.visible ++ (holdDsmlStreamDelta [] s.carry true).1

/-- The text that is shown of a stream. -/
def streamed (chunks : List Text) : Text := (chunks.foldl Sanitizer.feed .init).finish

end Shizuha.Agent
