import Shizuha.Js.Regex

/-!
# Thinking markup in content

A model that thinks aloud sometimes puts its thoughts into the content, between
`<think>` and `</think>`. `splitThinkMarkup` takes them out of a whole answer,
`consumeThinkStreamDelta` out of one that arrives in pieces.

The first works with patterns, each of them a search for a tag whatever its
case; the second searches a lower-cased copy of what it has and cuts the
original at the index it finds. The two ways to ignore case are not the same:
the patterns fold ASCII letters, `toLowerCase` goes by Unicode, where the Kelvin
sign is a `k` and one letter becomes two units.
-/

namespace Shizuha.Provider

open Js

def thinkOpen : Text := js "<think>"

def thinkClose : Text := js "</think>"

/-! ## A whole answer -/

/-- The text before the first place that matches a tag under the `i` flag, and
the text after it. -/
def cutTag (tag s : Text) : Option (Text × Text) :=
  (indexOf tag (s.map Regex.foldUnit)).map fun k => (s.take k, s.drop (k + tag.length))

/-- `/<think>([\s\S]*?)<\/think>/gi`, deleted, with the groups: the first opening
tag and the first closing tag after it, again and again. No block starts at an
opening tag that has no closing one after it, and then none starts later. -/
def cutBlocks : ℕ → Text → Text × List Text
  | 0, s => (s, [])
  | fuel + 1, s =>
      match cutTag thinkOpen s with
      | none => (s, [])
      | some (before, rest) =>
          match cutTag thinkClose rest with
          | none => (s, [])
          | some (body, rest) =>
              let (work, bodies) := cutBlocks fuel rest
              (before ++ work, body :: bodies)

/-- `/<think>([\s\S]*)$/i`, deleted, with its group. -/
def cutOpen (s : Text) : Text × List Text :=
  match cutTag thinkOpen s with
  | none => (s, [])
  | some (before, body) => (before, [body])

/-- `/^([\s\S]*?)<\/think>\s*/i`, deleted as long as there is one, with the
groups. -/
def cutCloses : ℕ → Text → Text × List Text
  | 0, s => (s, [])
  | fuel + 1, s =>
      match cutTag thinkClose s with
      | none => (s, [])
      | some (before, rest) =>
          let (work, bodies) := cutCloses fuel (trimStart rest)
          (work, before :: bodies)

/-- `/<\/?think>/gi`, deleted. -/
def dropTags : ℕ → Text → Text
  | 0, s => s
  | _ + 1, [] => []
  | fuel + 1, u :: s =>
      if thinkOpen.isPrefixOf ((u :: s).map Regex.foldUnit) then
        dropTags fuel ((u :: s).drop thinkOpen.length)
      else if thinkClose.isPrefixOf ((u :: s).map Regex.foldUnit) then
        dropTags fuel ((u :: s).drop thinkClose.length)
      else u :: dropTags fuel s

/-- The bodies that are not blank. -/
def reasoningParts (bodies : List Text) : List Text := (bodies.map trim).filter (· ≠ [])

structure ThinkSplit where
  reasoning : Text
  content : Text

def splitThinkMarkup (text : Text) : ThinkSplit :=
  let (work, blocks) := cutBlocks (text.length + 1) text
  let (work, opened) := cutOpen work
  let (work, closes) := cutCloses (work.length + 1) work
  let work := dropTags (work.length + 1) work
  { reasoning := trim (join (js "\n") (reasoningParts (blocks ++ opened ++ closes)))
    content := trimStart work }

/-! ## An answer in pieces -/

/-- `toLowerCase`, as far as searching for ASCII goes: a unit that becomes
another one outside ASCII is kept. U+0130 becomes an `i` and a combining dot,
U+212A, the Kelvin sign, a `k`. -/
def lowerUnits (u : UInt16) : Text :=
  if u = 0x130 then [105, 0x307] else if u = 0x212A then [107] else [Regex.foldUnit u]

def lowerCase (s : Text) : Text := s.flatMap lowerUnits

/-- What can be emitted, and what may be the start of a tag. -/
def holdPartialTag (s : Text) : Text × Text :=
  match lastIndexOf 60 s s.length with
  | none => (s, [])
  | some lt =>
      let tail := s.drop lt
      if tail.isPrefixOf thinkOpen || tail.isPrefixOf thinkClose ||
          (lowerCase tail).isPrefixOf thinkClose || (lowerCase tail).isPrefixOf thinkOpen then
        (s.take lt, tail)
      else (s, [])

structure ThinkDelta where
  inThinkBlock : Bool
  carry : Text
  reasoning : List Text
  text : List Text

/-- A piece that is emitted, unless it is empty. -/
def piece (s : Text) : List Text := if s = [] then [] else [s]

/-- The loop of `consumeThinkStreamDelta`; each round takes a tag. After a
closing tag `/^\s*\n?/` is deleted, all of which the `\s*` has. -/
def thinkLoop : ℕ → Bool → Text → ThinkDelta
  | 0, thinking, _ => ⟨thinking, [], [], []⟩
  | fuel + 1, thinking, remaining =>
      if remaining = [] then ⟨thinking, [], [], []⟩
      else if thinking then
        match indexOf thinkClose (lowerCase remaining) with
        | some closeIdx =>
            let rest := thinkLoop fuel false
              (trimStart (remaining.drop (closeIdx + thinkClose.length)))
            { rest with reasoning := piece (remaining.take closeIdx) ++ rest.reasoning }
        | none =>
            let (emit, hold) := holdPartialTag remaining
            ⟨true, hold, piece emit, []⟩
      else
        match indexOf thinkOpen (lowerCase remaining), indexOf thinkClose (lowerCase remaining) with
        | none, none =>
            let (emit, hold) := holdPartialTag remaining
            ⟨false, hold, [], piece emit⟩
        | some openIdx, none =>
            let rest := thinkLoop fuel true (remaining.drop (openIdx + thinkOpen.length))
            { rest with text := piece (remaining.take openIdx) ++ rest.text }
        | none, some closeIdx =>
            let rest := thinkLoop fuel false
              (trimStart (remaining.drop (closeIdx + thinkClose.length)))
            { rest with reasoning := piece (remaining.take closeIdx) ++ rest.reasoning }
        | some openIdx, some closeIdx =>
            if closeIdx < openIdx then
              let rest := thinkLoop fuel false
                (trimStart (remaining.drop (closeIdx + thinkClose.length)))
              { rest with reasoning := piece (remaining.take closeIdx) ++ rest.reasoning }
            else
              let rest := thinkLoop fuel true (remaining.drop (openIdx + thinkOpen.length))
              { rest with text := piece (remaining.take openIdx) ++ rest.text }

def consumeThinkStreamDelta (delta : Text) (inThinkBlock : Bool) (carry : Text) : ThinkDelta :=
  thinkLoop ((carry ++ delta).length + 1) inThinkBlock (carry ++ delta)

/-- The pieces of a whole stream, from a state on. -/
def consumeThinkStream (thinking : Bool) (carry : Text) : List Text → ThinkDelta
  | [] => ⟨thinking, carry, [], []⟩
  | delta :: deltas =>
      let first := consumeThinkStreamDelta delta thinking carry
      let rest := consumeThinkStream first.inThinkBlock first.carry deltas
      { rest with
        reasoning := first.reasoning ++ rest.reasoning
        text := first.text ++ rest.text }

end Shizuha.Provider
