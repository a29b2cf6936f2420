import Shizuha.Js.Regex

/-!
# Splitting a chunk of terminal input

`splitStdinChunk` cuts what one read of the terminal delivers into key presses.
Text without an escape is one press. At an escape four patterns are tried, the
longer ones first, on what is left of the chunk; none matches an escape that is
the last unit.

The loop's index only moves forward, so the text from there on is its state.
-/

namespace Shizuha.Tui

open Js Js.Regex

def ESC : UInt16 := 27

def isParameter (u : UInt16) : Bool := isDigit u || (js ":;<>?").contains u

def isIntermediate (u : UInt16) : Bool := (js " /-").contains u

def isFinal (u : UInt16) : Bool := 64 ≤ u && u ≤ 126

def isAlphanumeric (u : UInt16) : Bool :=
  isDigit u || (65 ≤ u && u ≤ 90) || (97 ≤ u && u ≤ 122)

/-- `[`, parameters, intermediate units and a final one. -/
def csiBody : Regex :=
  cat [lit (js "["), Regex.star (.unit isParameter), Regex.star (.unit isIntermediate), .unit isFinal]

/-- `O[a-zA-Z0-9]`. -/
def ss3Body : Regex := cat [lit (js "O"), .unit isAlphanumeric]

def CSI_RE : Regex := cat [.bos, lit [ESC], csiBody]

def SS3_RE : Regex := cat [.bos, lit [ESC], ss3Body]

def ESC_ESC_SEQ_RE : Regex := cat [.bos, lit [ESC, ESC], opt (.alt csiBody ss3Body)]

def ESC_CHAR_RE : Regex := cat [.bos, lit [ESC], anyUnit]

/-- How much of what is left, which starts with an escape, is consumed. -/
def consumed (rest : Text) : ℕ :=
  match CSI_RE.exec rest <|> SS3_RE.exec rest <|> ESC_ESC_SEQ_RE.exec rest <|>
      ESC_CHAR_RE.exec rest with
  | some m => m.text.length
  | none => 1

/-- The loop. `fuel` covers one segment a unit. -/
def segmentsFrom : ℕ → Text → List Text
  | 0, _ => []
  | _ + 1, [] => []
  | fuel + 1, u :: rest =>
      if u ≠ ESC then
        -- The run ends at the next escape.
        (u :: rest).takeWhile (· ≠ ESC) ::
          segmentsFrom fuel ((u :: rest).dropWhile (· ≠ ESC))
      else
        (u :: rest).take (consumed (u :: rest)) ::
          segmentsFrom fuel ((u :: rest).drop (consumed (u :: rest)))

def splitStdinChunk (data : Text) : List Text :=
  if data = [] then []
  else if ESC ∉ data then [data]
  else segmentsFrom data.length data

end Shizuha.Tui
