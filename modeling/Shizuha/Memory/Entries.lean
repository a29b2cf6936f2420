import Shizuha.Js.Number
import Shizuha.Js.Numeral
import Shizuha.Js.Split

/-!
# The entries of the memory file

`MEMORY.md` is a list of entries with a delimiter between them. Two programs
write it: the memory tool, which reads the entries and writes them all again,
and the consolidation, which adds the bullets of the session log to the end of
the file and then empties the log.

The tool's path is set, and its two actions that write nothing are left out.
-/

namespace Shizuha.Memory

open Js

/-- What is in a file, as it is read: UTF-8 has no unpaired surrogates. -/
structure FileText where
  text : Text
  wellFormed : WellFormed text

/-- A text as it is written. -/
def FileText.of (s : Text) : FileText := ⟨toWellFormed s, wellFormed_toWellFormed s⟩

/-- `appendFileSync`, which makes the file if there is none. -/
def FileText.append (file : Option FileText) (s : Text) : FileText :=
  match file with
  | none => .of s
  | some raw => ⟨raw.text ++ toWellFormed s, raw.wellFormed.append (wellFormed_toWellFormed s)⟩

/-! ## The memory tool -/

def ENTRY_DELIMITER : Text := js "\n§\n"

def CHAR_LIMIT : ℕ := 3000

def readEntries (file : Option FileText) : List Text :=
  match file with
  | none => []
  | some raw =>
      if trim raw.text = [] then []
      else (splitOn ENTRY_DELIMITER raw.text).filter fun e => trim e ≠ []

def writeEntries (entries : List Text) : FileText := .of (join ENTRY_DELIMITER entries)

inductive MemoryAction where
  | add (content : Option Text)
  | remove (old_text : Option Text)

/-- How an action ended, with what its answer is made of. -/
inductive MemoryOutcome where
  | contentRequired
  | alreadyExists (entries : List Text)
  | notEnoughSpace (trimmed : Text) (newTotal : ℕ) (entries : List Text)
  | added (newEntries : List Text)
  | oldTextRequired
  | noMatch (query : Text)
  | ambiguous (query : Text) (found : List Text)
  | removed (newEntries : List Text)
  deriving DecidableEq

def executeAdd (file : Option FileText) (content : Option Text) :
    MemoryOutcome × Option FileText :=
  let entries := readEntries file
  let trimmed := trim (content.getD [])
  if trimmed = [] then (.contentRequired, file)
  else if trimmed ∈ entries then (.alreadyExists entries, file)
  else
    let newEntries := entries ++ [trimmed]
    let newTotal := (join ENTRY_DELIMITER newEntries).length
    if CHAR_LIMIT < newTotal then (.notEnoughSpace trimmed newTotal entries, file)
    else (.added newEntries, some (writeEntries newEntries))

def executeRemove (file : Option FileText) (old_text : Option Text) :
    MemoryOutcome × Option FileText :=
  let entries := readEntries file
  let query := trim (old_text.getD [])
  if query = [] then (.oldTextRequired, file)
  else
    match entries.filter fun e => includes e query with
    | [] => (.noMatch query, file)
    | [found] =>
        let newEntries := entries.filter (· ≠ found)
        (.removed newEntries, some (writeEntries newEntries))
    | found => (.ambiguous query found, file)

def executeMemoryAction (file : Option FileText) : MemoryAction → MemoryOutcome × Option FileText
  | .add content => executeAdd file content
  | .remove old_text => executeRemove file old_text

/-! ## The tool's answer -/

structure ToolResult where
  content : Text
  isError : Bool
  deriving DecidableEq

section Answer

-- It depends on where the program runs.
variable (toLocaleString : ℕ → Text)

def usageInfo (entries : List Text) : Text :=
  let totalChars := (join ENTRY_DELIMITER entries).length
  let pct := (mathRound (fmul (fdiv totalChars CHAR_LIMIT) 100)).num.toNat
  decimal pct ++ js "% — " ++ toLocaleString totalChars ++ js "/" ++ toLocaleString CHAR_LIMIT
    ++ js " chars"

def matchLine (e : Text × ℕ) : Text :=
  js "  " ++ decimal (e.2 + 1) ++ js ". " ++ e.1.take 80 ++
    if 80 < e.1.length then js "..." else []

def MemoryOutcome.result : MemoryOutcome → ToolResult
  | .contentRequired => ⟨js "content is required for add action", true⟩
  | .alreadyExists entries =>
      ⟨js "Entry already exists. [" ++ usageInfo toLocaleString entries ++ js "]", false⟩
  | .notEnoughSpace trimmed newTotal entries =>
      ⟨js "Not enough space. Entry is " ++ decimal trimmed.length
          ++ js " chars, would bring total to " ++ decimal newTotal ++ js "/"
          ++ decimal CHAR_LIMIT ++ js ". Current usage: [" ++ usageInfo toLocaleString entries
          ++ js "]. Consider removing or consolidating existing entries first.",
        true⟩
  | .added newEntries => ⟨js "Added. [" ++ usageInfo toLocaleString newEntries ++ js "]", false⟩
  | .oldTextRequired => ⟨js "old_text is required for remove action", true⟩
  | .noMatch query => ⟨js "No entry matching \"" ++ query ++ js "\" found.", true⟩
  | .ambiguous query found =>
      ⟨js "Ambiguous: " ++ decimal found.length ++ js " entries match \"" ++ query
          ++ js "\". Be more specific.\n\nMatches:\n"
          ++ join (js "\n") (found.zipIdx.map matchLine),
        true⟩
  | .removed newEntries => ⟨js "Removed. [" ++ usageInfo toLocaleString newEntries ++ js "]", false⟩

end Answer

/-! ## Consolidation -/

/-- What `.` does not match, and where `^` and `$` do in a multiline pattern. -/
def isTerminator (u : UInt16) : Bool := u == 10 || u == 13 || u == 0x2028 || u == 0x2029

def logLines (content : Text) : List Text := content.splitOnP isTerminator

/-- A line that `/^- .+$/` matches. -/
def isBullet (line : Text) : Bool := startsWith line (js "- ") && decide (2 < line.length)

/-- `content.match(/^- .+$/gm)`: the pattern takes whole lines. -/
def factsOf (content : Text) : List Text := (logLines content).filter isBullet

section Consolidation

variable (toLowerCase : Text → Text)

/-- The pieces between white space that are long enough; the pieces between two
units of it are empty and are not. -/
def keywordsOf (fact : Text) : List Text :=
  (((toLowerCase fact).splitOnP isSpace).filter fun w => 5 < w.length).take 3

/-- The memory has the fact, as far as its keywords go. -/
def isKnown (existing fact : Text) : Bool := (keywordsOf toLowerCase fact).all (includes existing)

structure Consolidated where
  count : ℕ
  sessionLog : Option FileText
  memoryFile : Option FileText

/-- The memory in lower case, or nothing. -/
def existingOf (memoryFile : Option FileText) : Text :=
  match memoryFile with
  | none => []
  | some raw => toLowerCase raw.text

/-- The facts that are new to the memory. -/
def newFactsOf (memoryFile : Option FileText) (content : Text) : List Text :=
  (factsOf content).filter fun f => !isKnown toLowerCase (existingOf toLowerCase memoryFile) f

/-- What is appended: the facts without their dashes. -/
def sectionOf (newFacts : List Text) : Text :=
  ENTRY_DELIMITER ++ (join ENTRY_DELIMITER (newFacts.map (List.drop 2)) ++ [newline])

def consolidateMemory (sessionLog memoryFile : Option FileText) : Consolidated :=
  match sessionLog with
  | none => ⟨0, sessionLog, memoryFile⟩
  | some log =>
      if (trim log.text).length < 20 then ⟨0, sessionLog, memoryFile⟩
      else
        let newFacts := newFactsOf toLowerCase memoryFile log.text
        if newFacts = [] then ⟨0, sessionLog, memoryFile⟩
        else
          ⟨newFacts.length, some (.of []), some (.append memoryFile (sectionOf newFacts))⟩

end Consolidation

end Shizuha.Memory
