import Mathlib.Logic.Function.Basic
import Shizuha.Js.Utf8
import Shizuha.Js.Numeral
import Shizuha.Js.Text
import Shizuha.Splice

/-!
# Applying a patch

An update hunk is a list of chunks. Each is looked up in the file's lines, in
four passes that compare ever more loosely, and becomes a replacement of the
lines found; the replacements are sorted by where they start and made from the
last to the first.

The lookup of a chunk starts where the one before it ended, unless the chunk is
marked to stand at the end of the file, and a chunk without old lines goes to
the end.
-/

namespace Shizuha.Tools

open Js Splice

structure UpdateFileChunk where
  changeContext : Option Text
  oldLines : List Text
  newLines : List Text
  isEndOfFile : Bool

inductive PatchError where
  | contextNotFound (context filePath : Text)
  | linesNotFound (filePath : Text) (oldLines : List Text)
  deriving DecidableEq

def PatchError.message : PatchError → Text
  | .contextNotFound context filePath =>
      js "Failed to find context '" ++ context ++ js "' in " ++ filePath
  | .linesNotFound filePath oldLines =>
      js "Failed to find expected lines in " ++ filePath ++ js ":" ++ [newline] ++
        join [newline] oldLines

/-! ## Finding lines -/

def trimEnd (s : Text) : Text := s.rdropWhile isSpace

/-- The dashes, quotes and spaces of the fourth pass. -/
def normalUnit (u : UInt16) : UInt16 :=
  if 0x2010 ≤ u && u ≤ 0x2015 || u == 0x2212 then 45
  else if 0x2018 ≤ u && u ≤ 0x201B then 39
  else if 0x201C ≤ u && u ≤ 0x201F then 34
  else if u == 0xA0 || 0x2002 ≤ u && u ≤ 0x200A || u == 0x202F || u == 0x205F || u == 0x3000 then
    32
  else u

def normalizeUnicode (s : Text) : Text := (trim s).map normalUnit

/-- What the four passes compare. -/
def passes : List (Text → Text) := [fun s => s, trimEnd, trim, normalizeUnicode]

/-- Whether the lines from `i` on are those of the pattern, read through `f`. -/
def matchesAt (f : Text → Text) (lines pattern : List Text) (i : ℕ) : Bool :=
  ((lines.drop i).take pattern.length).map f = pattern.map f

def seekSequence (lines pattern : List Text) (start : ℕ) (eof : Bool) : Option ℕ :=
  if pattern.length = 0 then some start
  else if lines.length < pattern.length then none
  else
    let maxStart := lines.length - pattern.length
    let searchStart := if eof then maxStart else start
    passes.findSome? fun f =>
      (List.range' searchStart (maxStart + 1 - searchStart)).find? (matchesAt f lines pattern)

/-- Where a chunk without old lines goes: to the end, before a blank last line. -/
def insertionIdx (lines : List Text) : ℕ :=
  if lines.getLast? = some [] then lines.length - 1 else lines.length

/-- The chunk without its last old line, when that is blank, and without a blank
last new line. -/
def UpdateFileChunk.withoutBlank (chunk : UpdateFileChunk) : List Text × List Text :=
  (chunk.oldLines.dropLast,
    if chunk.newLines.getLast? = some [] then chunk.newLines.dropLast else chunk.newLines)

/-- The old lines of a chunk, looked up from a line on. -/
def findOldLines (lines : List Text) (filePath : Text) (lineIndex : ℕ) (chunk : UpdateFileChunk) :
    Except PatchError (Edit Text) :=
  match seekSequence lines chunk.oldLines lineIndex chunk.isEndOfFile with
  | some found => .ok ⟨found, chunk.oldLines.length, chunk.newLines⟩
  | none =>
      if chunk.oldLines.getLast? = some [] then
        let (pattern, newSlice) := chunk.withoutBlank
        match seekSequence lines pattern lineIndex chunk.isEndOfFile with
        | some found => .ok ⟨found, pattern.length, newSlice⟩
        | none => .error (.linesNotFound filePath chunk.oldLines)
      else .error (.linesNotFound filePath chunk.oldLines)

/-- The line after the context line of a chunk. -/
def afterContext (lines : List Text) (filePath : Text) (lineIndex : ℕ) (chunk : UpdateFileChunk) :
    Except PatchError ℕ :=
  match chunk.changeContext with
  | none => .ok lineIndex
  | some context =>
      match seekSequence lines [context] lineIndex false with
      | none => .error (.contextNotFound context filePath)
      | some idx => .ok (idx + 1)

/-- The replacement of one chunk, and the line the next one is looked up from. -/
def matchChunk (lines : List Text) (filePath : Text) (lineIndex : ℕ) (chunk : UpdateFileChunk) :
    Except PatchError (Edit Text × ℕ) := do
  let lineIndex ← afterContext lines filePath lineIndex chunk
  if chunk.oldLines.length = 0 then
    return (⟨insertionIdx lines, 0, chunk.newLines⟩, lineIndex)
  let replacement ← findOldLines lines filePath lineIndex chunk
  return (replacement, replacement.stop)

/-- The replacements in the order of the chunks. -/
def matchChunks (lines : List Text) (filePath : Text) : ℕ → List UpdateFileChunk →
    Except PatchError (List (Edit Text))
  | _, [] => .ok []
  | lineIndex, chunk :: chunks => do
      let (replacement, lineIndex) ← matchChunk lines filePath lineIndex chunk
      let replacements ← matchChunks lines filePath lineIndex chunks
      return replacement :: replacements

def computeReplacements (lines : List Text) (filePath : Text) (chunks : List UpdateFileChunk) :
    Except PatchError (List (Edit Text)) := do
  let replacements ← matchChunks lines filePath 0 chunks
  return replacements.insertionSort fun a b => a.start ≤ b.start

/-! ## The file -/

/-- The lines of a text, without the empty one after a final newline. -/
def originalLines (content : Text) : List Text :=
  let split := lines content
  if split.getLast? = some [] then split.dropLast else split

/-- The text of some lines, with a final newline unless the last line is blank. -/
def fileText (newLines : List Text) : Text :=
  join [newline]
    (if newLines = [] ∨ newLines.getLast? ≠ some [] then newLines ++ [[]] else newLines)

/-- What `execute` writes for an update hunk. -/
def updateFile (content filePath : Text) (chunks : List UpdateFileChunk) :
    Except PatchError Text := do
  let replacements ← computeReplacements (originalLines content) filePath chunks
  return fileText (applyEdits (originalLines content) replacements)

end Shizuha.Tools

/-!
# Reading a patch

A patch is read line by line. The text between the two markers is a list of
hunks, an update hunk is a list of chunks, and each of the three readers says
how many lines it took; the next one begins after them. The two loops that go
on with what is left run on fuel and answer `none` when it runs out.
-/

namespace Shizuha.Tools

open Js

deriving instance DecidableEq for UpdateFileChunk

inductive PatchHunk where
  | add (path contents : Text)
  | delete (path : Text)
  | update (path : Text) (movePath : Option Text) (chunks : List UpdateFileChunk)
  deriving DecidableEq

def beginPatch : Text := js "*** Begin Patch"
def endPatch : Text := js "*** End Patch"
def addFile : Text := js "*** Add File: "
def deleteFile : Text := js "*** Delete File: "
def updateFileMarker : Text := js "*** Update File: "
def moveTo : Text := js "*** Move to: "
def eofMarker : Text := js "*** End of File"
def changeContext : Text := js "@@ "
def emptyContext : Text := js "@@"

inductive PatchSyntaxError where
  | noBegin
  | noEnd
  | unexpectedEnd (lineNumber : ℕ)
  | emptyUpdate (filePath : Text) (lineNumber : ℕ)
  | invalidHeader (lineNumber : ℕ) (first : Text)
  | expectedContext (lineNumber : ℕ) (firstLine : Text)
  | noLines (lineNumber : ℕ)
  | unexpectedLine (lineNumber : ℕ) (line : Text)
  deriving DecidableEq

def PatchSyntaxError.message : PatchSyntaxError → Text
  | .noBegin => js "Invalid patch: first line must be '" ++ beginPatch ++ js "'"
  | .noEnd => js "Invalid patch: last line must be '" ++ endPatch ++ js "'"
  | .unexpectedEnd lineNumber => js "Unexpected end of patch at line " ++ decimal lineNumber
  | .emptyUpdate filePath lineNumber =>
      js "Update file hunk for '" ++ filePath ++ js "' is empty (line " ++ decimal lineNumber ++
        js ")"
  | .invalidHeader lineNumber first =>
      js "Invalid hunk header at line " ++ decimal lineNumber ++ js ": '" ++ first ++ js "'. " ++
        js "Expected '*** Add File:', '*** Delete File:', or '*** Update File:'"
  | .expectedContext lineNumber firstLine =>
      js "Expected @@ context marker at line " ++ decimal lineNumber ++ js ", got: '" ++
        firstLine ++ js "'"
  | .noLines lineNumber => js "Update hunk has no lines (line " ++ decimal lineNumber ++ js ")"
  | .unexpectedLine lineNumber line =>
      js "Unexpected line in update hunk at line " ++ decimal lineNumber ++ js ": '" ++ line ++
        js "'. " ++ js "Lines must start with ' ', '+', or '-'"

/-! ## A chunk -/

/-- The loop over the lines of a chunk, of which `parsed` have been read. -/
def parseChunkLines (lineNumber startIndex : ℕ) (parsed : ℕ) (chunk : UpdateFileChunk) :
    List Text → Except PatchSyntaxError (UpdateFileChunk × ℕ)
  | [] => .ok (chunk, parsed)
  | line :: rest =>
      if line = eofMarker then
        if parsed = 0 then .error (.noLines lineNumber)
        else .ok ({ chunk with isEndOfFile := true }, parsed + 1)
      else
        match line with
        | 32 :: text =>
            parseChunkLines lineNumber startIndex (parsed + 1)
              { chunk with
                oldLines := chunk.oldLines ++ [text], newLines := chunk.newLines ++ [text] } rest
        | 43 :: text =>
            parseChunkLines lineNumber startIndex (parsed + 1)
              { chunk with newLines := chunk.newLines ++ [text] } rest
        | 45 :: text =>
            parseChunkLines lineNumber startIndex (parsed + 1)
              { chunk with oldLines := chunk.oldLines ++ [text] } rest
        | [] =>
            -- an empty line is context
            parseChunkLines lineNumber startIndex (parsed + 1)
              { chunk with
                oldLines := chunk.oldLines ++ [[]], newLines := chunk.newLines ++ [[]] } rest
        | _ =>
            if parsed = 0 then .error (.unexpectedLine (lineNumber + startIndex) line)
            else .ok (chunk, parsed)

/-- The chunk, and how many lines it takes. -/
def parseUpdateChunk (lines : List Text) (lineNumber : ℕ) (allowMissingContext : Bool) :
    Except PatchSyntaxError (UpdateFileChunk × ℕ) := do
  let firstLine := lines.headD []
  let (context, startIndex) ←
    if firstLine = emptyContext then pure (none, 1)
    else if startsWith firstLine changeContext then
      pure (some (firstLine.drop changeContext.length), 1)
    else if !allowMissingContext then .error (.expectedContext lineNumber firstLine)
    else pure (none, 0)
  let (chunk, parsed) ← parseChunkLines lineNumber startIndex 0 ⟨context, [], [], false⟩
    (lines.drop startIndex)
  return (chunk, parsed + startIndex)

/-! ## A hunk -/

/-- The loop over the chunks of an update hunk: the chunks, and how many lines
have been taken. -/
def parseChunks (lineNumber : ℕ) : ℕ → ℕ → List UpdateFileChunk → List Text →
    Option (Except PatchSyntaxError (List UpdateFileChunk × ℕ))
  | 0, _, _, _ => none
  | fuel + 1, parsed, chunks, remaining =>
      match remaining with
      | [] => some (.ok (chunks, parsed))
      | currentLine :: rest =>
          if currentLine = [] then some (.ok (chunks, parsed))
          else if trim currentLine = [] then parseChunks lineNumber fuel (parsed + 1) chunks rest
          else if startsWith currentLine (js "***") then some (.ok (chunks, parsed))
          else
            match parseUpdateChunk remaining (lineNumber + parsed) (chunks = []) with
            | .error e => some (.error e)
            | .ok (chunk, taken) =>
                parseChunks lineNumber fuel (parsed + taken) (chunks ++ [chunk])
                  (remaining.drop taken)

def parseUpdateHunk (filePath : Text) (rest : List Text) (lineNumber : ℕ) :
    Option (Except PatchSyntaxError (PatchHunk × ℕ)) :=
  let (movePath, parsed) :=
    match rest with
    | [] => (none, 1)
    | moveCandidate :: _ =>
        if startsWith moveCandidate moveTo then (some (moveCandidate.drop moveTo.length), 2)
        else (none, 1)
  let remaining := rest.drop (parsed - 1)
  (parseChunks lineNumber (remaining.length + 1) parsed [] remaining).map fun read => do
    let (chunks, parsed) ← read
    if chunks = [] then .error (.emptyUpdate filePath lineNumber)
    else return (.update filePath movePath chunks, parsed)

def parseOneHunk (lines : List Text) (lineNumber : ℕ) :
    Option (Except PatchSyntaxError (PatchHunk × ℕ)) :=
  match lines with
  | [] | [] :: _ => some (.error (.unexpectedEnd lineNumber))
  | firstLine :: rest =>
      let first := trim firstLine
      if startsWith first addFile then
        let added := rest.takeWhile fun line => startsWith line (js "+")
        some (.ok (.add (first.drop addFile.length)
          (added.flatMap fun line => line.drop 1 ++ [newline]), added.length + 1))
      else if startsWith first deleteFile then
        some (.ok (.delete (first.drop deleteFile.length), 1))
      else if startsWith first updateFileMarker then
        parseUpdateHunk (first.drop updateFileMarker.length) rest lineNumber
      else some (.error (.invalidHeader lineNumber first))

/-! ## The patch -/

def parseHunks : ℕ → ℕ → List Text → Option (Except PatchSyntaxError (List PatchHunk))
  | 0, _, _ => none
  | fuel + 1, lineNumber, remaining =>
      match remaining with
      | [] => some (.ok [])
      | _ :: _ =>
          match parseOneHunk remaining lineNumber with
          | none => none
          | some (.error e) => some (.error e)
          | some (.ok (hunk, taken)) =>
              (parseHunks fuel (lineNumber + taken) (remaining.drop taken)).map fun read =>
                read.map (hunk :: ·)

/-- The lines without the wrapper of a heredoc, when they are in one. -/
def unwrapHeredoc (lines : List Text) : List Text :=
  let first := trim (lines.headD [])
  if first ≠ beginPatch ∧
      (first = js "<<EOF" ∨ first = js "<<'EOF'" ∨ first = js "<<\"EOF\"") ∧
      js "EOF" <:+ trim (lines.getLastD []) ∧ 4 ≤ lines.length then
    lines.tail.dropLast
  else lines

def parsePatch (patchText : Text) : Option (Except PatchSyntaxError (List PatchHunk)) :=
  let lines := unwrapHeredoc (lines (trim patchText))
  if trim (lines.headD []) ≠ beginPatch then some (.error .noBegin)
  else if trim (lines.getLastD []) ≠ endPatch then some (.error .noEnd)
  else
    let remaining := lines.tail.dropLast
    parseHunks (remaining.length + 1) 2 remaining

end Shizuha.Tools

/-!
# Running a patch

The hunks are carried out one after the other, each on what the ones before it
left. A file is the bytes under its resolved path; reading or removing one that
is not there throws, and what was done before that stays done.

Beside it stands what a patch is for: `applyHunk`, in which a move leaves the
new content at its destination whatever the two paths are.
-/

namespace Shizuha.Tools

open Js

abbrev Files := Text → Option Bytes

/-! ## Paths -/

def splitSlash : Text → List Text
  | [] => [[]]
  | u :: s =>
      if u = 47 then [] :: splitSlash s
      else
        match splitSlash s with
        | [] => [[u]]
        | l :: rest => (u :: l) :: rest

/-- The segments of an absolute path, without the empty ones and the dots. -/
def normalSegments (segments : List Text) : List Text :=
  segments.foldl
    (fun done segment =>
      if segment = [] ∨ segment = js "." then done
      else if segment = js ".." then done.dropLast
      else done ++ [segment]) []

/-- `path.resolve`, in a process whose directory is `processCwd`. -/
def pathResolve (processCwd cwd filePath : Text) : Text :=
  let absolute (s : Text) : Bool := startsWith s (js "/")
  let segments :=
    if absolute filePath then splitSlash filePath
    else if absolute cwd then splitSlash cwd ++ splitSlash filePath
    else splitSlash processCwd ++ splitSlash cwd ++ splitSlash filePath
  js "/" ++ join (js "/") (normalSegments segments)

structure ToolContext where
  processCwd : Text
  cwd : Text

def ToolContext.resolveSafePath (context : ToolContext) (filePath : Text) : Text :=
  pathResolve context.processCwd context.cwd filePath

/-! ## Executing -/

inductive PatchFailure where
  | malformed (e : PatchSyntaxError)
  | update (e : PatchError)
  /-- ENOENT, of the call that is named. -/
  | noSuchFile (call path : Text)
  deriving DecidableEq

/-- The `Error applying patch` of a patch that fails. -/
def PatchFailure.message : PatchFailure → Text
  | .malformed e => e.message
  | .update e => e.message
  | .noSuchFile call path =>
      js "ENOENT: no such file or directory, " ++ call ++ js " '" ++ path ++ js "'"

/-- The paths a run reports. -/
structure PatchSummary where
  added : List Text
  modified : List Text
  deleted : List Text
  deriving DecidableEq

def PatchSummary.text (s : PatchSummary) : Text :=
  js "Applied patch successfully:" ++ [newline] ++
    join [newline] (s.added.map (js "A " ++ ·) ++ s.modified.map (js "M " ++ ·) ++
      s.deleted.map (js "D " ++ ·))

def Files.write (files : Files) (path contents : Text) : Files :=
  Function.update files path (some (utf8Encode contents))

def Files.read (files : Files) (path : Text) : Except PatchFailure Text :=
  match files path with
  | none => .error (.noSuchFile (js "open") path)
  | some bytes => .ok (utf8Decode bytes)

def Files.unlink (files : Files) (path : Text) : Except PatchFailure Files :=
  match files path with
  | none => .error (.noSuchFile (js "unlink") path)
  | some _ => .ok (Function.update files path none)

/-- What an update hunk writes. -/
def newContent (files : Files) (resolved filePath : Text) (chunks : List UpdateFileChunk) :
    Except PatchFailure Text := do
  let content ← files.read resolved
  (updateFile content filePath chunks).mapError .update

/-- One round of the loop of `execute`. An empty path is no destination. -/
def executeHunk (context : ToolContext) (files : Files) (summary : PatchSummary) :
    PatchHunk → Except PatchFailure (Files × PatchSummary)
  | .add path contents =>
      .ok (files.write (context.resolveSafePath path) contents,
        { summary with added := summary.added ++ [path] })
  | .delete path => do
      let files ← files.unlink (context.resolveSafePath path)
      return (files, { summary with deleted := summary.deleted ++ [path] })
  | .update path movePath chunks => do
      let resolved := context.resolveSafePath path
      let content ← newContent files resolved path chunks
      match movePath.filter fun dest => dest ≠ [] with
      | some dest =>
          let files ← (files.write (context.resolveSafePath dest) content).unlink resolved
          return (files, { summary with modified := summary.modified ++ [dest] })
      | none =>
          return (files.write resolved content,
            { summary with modified := summary.modified ++ [path] })

def executeHunks (context : ToolContext) (files : Files) (summary : PatchSummary) :
    List PatchHunk → Except PatchFailure (Files × PatchSummary)
  | [] => .ok (files, summary)
  | hunk :: hunks => do
      let (files, summary) ← executeHunk context files summary hunk
      executeHunks context files summary hunks

/-- A patch without hunks is answered with an error, which is `none` here. -/
def execute (context : ToolContext) (files : Files) (patch : Text) :
    Option (Except PatchFailure (Option (Files × PatchSummary))) :=
  (parsePatch patch).map fun parsed => do
    let hunks ← parsed.mapError .malformed
    if hunks = [] then return none
    else
      let done ← executeHunks context files ⟨[], [], []⟩ hunks
      return some done

/-! ## What a patch says -/

/-- A file is written at its path. -/
def applyHunk (context : ToolContext) (files : Files) : PatchHunk → Except PatchFailure Files
  | .add path contents => .ok (files.write (context.resolveSafePath path) contents)
  | .delete path => files.unlink (context.resolveSafePath path)
  | .update path movePath chunks => do
      let source := context.resolveSafePath path
      let content ← newContent files source path chunks
      match movePath.filter fun dest => dest ≠ [] with
      | some dest =>
          let target := context.resolveSafePath dest
          if target = source then return files.write target content
          else (files.write target content).unlink source
      | none => return files.write source content

def applyHunks (context : ToolContext) (files : Files) (hunks : List PatchHunk) :
    Except PatchFailure Files :=
  hunks.foldlM (applyHunk context) files

end Shizuha.Tools
