import Shizuha.Cron.Schedule
import Shizuha.LocalCore.Protocol
import Shizuha.Memory.Entries

/-!
# A Pulse queue, read from its listing

A listing tool answers with text written for the model, and the counts of ready,
blocked and waiting tasks are read back from it. A combined listing has a part
under a heading for the tasks; each task there has a line for its status, and
may have one after it for what its owner is to do. A listing without status
lines is counted by what it says of itself.

Counts are kept exact: no count of tasks comes near the place where the numbers
of the language stop being so.
-/

namespace Shizuha.Shared

open Js Agent LocalCore
open Memory (isTerminator)
open Cron (parseIntPrefix)

/-! ## The text of a result -/

mutual

/-- `contentToText`. -/
def contentToText : Json → Text
  | .str s => s
  | .arr items => join [newline] (contentTexts items)
  | .obj fields =>
      ((textField "text" (.obj fields)).orElse fun _ =>
        (textField "content" (.obj fields)).orElse fun _ =>
          textField "result" (.obj fields)).getD (Json.obj fields).print
  | .null => []
  | .bool b => (stringOf (.bool b)).getD []
  | .num n => (stringOf (.num n)).getD []

def contentTexts : List Json → List Text
  | [] => []
  | v :: rest => contentToText v :: contentTexts rest

end

/-! ## Lines of a pattern -/

/-- `^`, after the unit that is before. -/
def atLineStart (before : Option UInt16) : Bool := before.all isTerminator

/-- `$`. -/
def atLineEnd (s : Text) : Bool := s.head?.all isTerminator

/-- The unit before what is left of a text. -/
def unitBefore (s rest : Text) : Option UInt16 := (s.take (s.length - rest.length)).getLast?

/-- What comes after a text that is there up to ASCII case. -/
def afterFolded (head s : Text) : Option Text :=
  if (s.take head.length).map Regex.foldUnit = head.map Regex.foldUnit then
    some (s.drop head.length)
  else none

/-! ## The tasks of a combined listing -/

/-- `/## Tasks\s*$/m`: the white space is given back down to a line end. -/
def afterHeading (s : Text) : Option Text :=
  if startsWith s (js "## Tasks") then
    let rest := s.drop (js "## Tasks").length
    let spaces := (rest.takeWhile isSpace).reverse
    match rest.dropWhile isSpace with
    | [] => some []
    | u :: after =>
        match spaces.dropWhile (fun v => !isTerminator v) with
        | [] => none
        | v :: _ => some (v :: (spaces.takeWhile (fun v => !isTerminator v)).reverse ++ u :: after)
  else none

/-- `split(/^## Tasks\s*$/m)`, after the unit that is before. -/
def splitTasks : ℕ → Option UInt16 → Text → List Text
  | 0, _, s => [s]
  | _ + 1, _, [] => [[]]
  | fuel + 1, before, u :: s =>
      match if atLineStart before then afterHeading (u :: s) else none with
      | some rest => [] :: splitTasks fuel (unitBefore (u :: s) rest) rest
      | none =>
          match splitTasks fuel (some u) s with
          | [] => [[u]]
          | l :: more => (u :: l) :: more

def pulseTasksTextFromSnapshot (raw : Text) : Text :=
  let parts := splitTasks (raw.length + 1) none raw
  if 1 < parts.length then join [newline] (parts.drop 1) else raw

/-! ## Status lines -/

structure StatusRow where
  status : Text
  ownerAwareness : Bool
  deriving DecidableEq

def isBlank (u : UInt16) : Bool := u == 32 || u == 9

def isLetter (u : UInt16) : Bool := 97 ≤ Regex.foldUnit u && Regex.foldUnit u ≤ 122

/-- `[a-z_ -]`, in either case. -/
def isStatusUnit (u : UInt16) : Bool := isLetter u || u == 95 || u == 32 || u == 45

/-- `Status:[ \t]*([a-z_ -]+)`, in either case: what is captured and what is left.
Blanks alone are given back from the last space on. -/
def statusField (s : Text) : Option (Text × Text) :=
  (afterFolded (js "Status:") s).bind fun s =>
    let rest := s.dropWhile isBlank
    match rest.takeWhile isStatusUnit with
    | [] => if (s.takeWhile isBlank).contains 32 then some ([32], rest) else none
    | status => some (status, rest.dropWhile isStatusUnit)

/-- `\r?\n[ \t]+Owner action:[ \t]*([a-z-]+)(?=[ \t(]|$)`, in either case. -/
def ownerAction (s : Text) : Option (Text × Text) :=
  match s with
  | 10 :: s | 13 :: 10 :: s =>
      if (s.takeWhile isBlank).isEmpty then none
      else
        (afterFolded (js "Owner action:") (s.dropWhile isBlank)).bind fun s =>
          let word := fun u => isLetter u || u == 45
          let rest := s.dropWhile isBlank
          let after := rest.dropWhile word
          if (rest.takeWhile word).isEmpty then none
          else if atLineEnd after || after.head?.any (fun u => isBlank u || u == 40) then
            some (rest.takeWhile word, after)
          else none
  | _ => none

/-- The pattern of a status line, where a line starts: the two groups and what is
left. -/
def statusLine (s : Text) : Option (Text × Option Text × Text) :=
  (statusField (s.dropWhile isBlank)).map fun field =>
    let rest := field.2.dropWhile fun u => !(u == 13 || u == 10)
    match ownerAction rest with
    | some action => (field.1, some action.1, action.2)
    | none => (field.1, none, rest)

/-- `matchAll`, after the unit that is before. -/
def statusLines : ℕ → Option UInt16 → Text → List (Text × Option Text)
  | 0, _, _ => []
  | _ + 1, _, [] => []
  | fuel + 1, before, u :: s =>
      match if atLineStart before then statusLine (u :: s) else none with
      | some line =>
          (line.1, line.2.1) :: statusLines fuel (unitBefore (u :: s) line.2.2) line.2.2
      | none => statusLines fuel (some u) s

/-- `toLowerCase`, of text within ASCII. -/
def lowerAscii (s : Text) : Text := s.map Regex.foldUnit

def pulseTaskStatusRows (text : Text) : List StatusRow :=
  ((statusLines (text.length + 1) none text).map fun line =>
    { status := (Regex.plus Regex.space).replaceAll (fun _ => js "_") (lowerAscii (trim line.1))
      ownerAwareness := line.2.map lowerAscii == some (js "awareness-only") }).filter
    fun row => row.status ≠ []

/-! ## The counts -/

structure PulseCounts where
  readyTaskCount : ℤ
  blockedTaskCount : ℤ
  futureDueCount : ℤ
  deriving DecidableEq

def holdingStatuses : List Text :=
  ["scheduled", "deferred", "future_due", "not_yet_due", "backlog",
    "awaiting_deploy", "awaiting_merge", "awaiting_verification",
    "verification", "deploying", "applying"].map js

def notYetDue : Regex :=
  Regex.cat [Regex.lit (js "+"), .capture (Regex.plus Regex.digit), Regex.plus Regex.space,
    Regex.litI (js "not yet due")]

def parseFutureDueCount (text : Text) : ℤ :=
  match (notYetDue.exec text).bind (·.group) with
  | some explicit => (parseIntPrefix explicit).getD 0
  | none =>
      if (Regex.alt (Regex.litI (js "not yet due")) (Regex.litI (js "future due"))).test text then 1
      else 0

def foundTasks : Regex :=
  Regex.cat [Regex.litI (js "Found"), Regex.plus Regex.space,
    .capture (Regex.plus Regex.digit), Regex.plus Regex.space, Regex.litI (js "task(s)")]

def blockedWord : Regex :=
  Regex.cat [.wordBoundary, Regex.litI (js "blocked"), .wordBoundary]

def parsePulseGetMyTasksResult (raw : Text) : PulseCounts :=
  let text := trim raw
  if text = [] ∨ (Regex.litI (js "No actionable tasks found")).test text = true then
    { readyTaskCount := 0, blockedTaskCount := 0, futureDueCount := parseFutureDueCount text }
  else
    let statusRows := pulseTaskStatusRows text
    let statusMatches := (statusRows.filter (!·.ownerAwareness)).map (·.status)
    if 0 < statusRows.length then
      let blockedTaskCount : ℤ := (statusMatches.filter (· = js "blocked")).length
      let futureStatusCount : ℤ := (statusMatches.filter (· ∈ holdingStatuses)).length
      { readyTaskCount := max 0 (statusMatches.length - blockedTaskCount - futureStatusCount)
        blockedTaskCount
        futureDueCount := max 0 (futureStatusCount + parseFutureDueCount text) }
    else
      let total := (((foundTasks.exec text).bind (·.group)).bind parseIntPrefix).getD 0
      let blocked : ℤ := (blockedWord.matchAll text).length
      let futureDueCount := parseFutureDueCount text
      { readyTaskCount := max 0 (total - blocked - futureDueCount)
        blockedTaskCount := max 0 blocked
        futureDueCount }

end Shizuha.Shared
