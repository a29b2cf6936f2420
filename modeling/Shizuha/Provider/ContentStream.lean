import Shizuha.Agent.DsmlSalvage
import Shizuha.Provider.ThinkMarkup

/-!
# Content that is streamed

The content of an answer arrives in pieces and is shown as it arrives. Where tools
are enabled a first filter holds back what could become tool markup, and what it
lets through goes to the parser of the think tags, which holds back what could
become one of those. A chunk with a reason to finish flushes the two; a `[DONE]`
and the end of the body flush neither.
-/

namespace Shizuha.Provider

open Js Regex Agent

structure ContentStream where
  dsmlCarry : Text
  inThinkBlock : Bool
  thinkCarry : Text
  /-- The pieces that have been yielded as `reasoning_text`. -/
  reasoning : List Text
  /-- Those that have been yielded as `text`. -/
  text : List Text

def ContentStream.init : ContentStream := ⟨[], false, [], [], []⟩

/-- What the first filter lets through goes to the parser of the tags. -/
def ContentStream.parse (s : ContentStream) (held : Text) : ContentStream :=
  let parsed := consumeThinkStreamDelta held s.inThinkBlock s.thinkCarry
  { s with
    inThinkBlock := parsed.inThinkBlock
    thinkCarry := parsed.carry
    reasoning := s.reasoning ++ parsed.reasoning.filter (· ≠ [])
    text := s.text ++ parsed.text.filter (· ≠ []) }

/-- `choice.delta.content`. -/
def ContentStream.delta (toolsEnabled : Bool) (s : ContentStream) (content : Text) :
    ContentStream :=
  if content = [] then s
  else
    let held := if toolsEnabled then holdDsmlStreamDelta content s.dsmlCarry false else (content, [])
    { s with dsmlCarry := held.2 }.parse held.1

def ContentStream.flushDsml (s : ContentStream) : ContentStream :=
  if s.dsmlCarry = [] then s
  else
    let flushed := holdDsmlStreamDelta [] s.dsmlCarry true
    let s := { s with dsmlCarry := [] }
    if flushed.1 = [] then s else s.parse flushed.1

/-- `/^<\/?t?h?i?n?k?>?$/i`. -/
def incompleteTag : Regex :=
  cat [.bos, lit (js "<"), opt (lit (js "/")), opt (litI (js "t")), opt (litI (js "h")),
    opt (litI (js "i")), opt (litI (js "n")), opt (litI (js "k")), opt (lit (js ">")), .eos]

def ContentStream.flushThink (s : ContentStream) : ContentStream :=
  if s.thinkCarry = [] then s
  else
    let flushed := consumeThinkStreamDelta [] s.inThinkBlock
      (s.thinkCarry ++ if s.inThinkBlock then thinkClose else [])
    { s with
      inThinkBlock := false
      thinkCarry := []
      reasoning := s.reasoning ++ flushed.reasoning.filter (· ≠ [])
      text := s.text ++ flushed.text.filter fun t => t ≠ [] && !incompleteTag.test (trim t) }

inductive StreamEnd where
  /-- A chunk with a `finish_reason`. -/
  | finishReason
  /-- `[DONE]` without one. -/
  | done
  | endOfStream
  deriving DecidableEq

def ContentStream.finish (s : ContentStream) : StreamEnd → ContentStream
  | .finishReason => s.flushDsml.flushThink
  | .done | .endOfStream => s

/-- The text pieces that `chat` yields. -/
def streamContent (toolsEnabled : Bool) (deltas : List Text) (ending : StreamEnd) : List Text :=
  ((deltas.foldl (ContentStream.delta toolsEnabled) .init).finish ending).text

end Shizuha.Provider
