import Mathlib.Algebra.GroupWithZero.Nat
import Mathlib.Data.Rat.Defs
import Shizuha.Js.Dict

/-!
# The memory index

The Markdown files of a workspace are cut into chunks, and the chunks are kept
twice: in a table, and in a full-text index that has a row for each of them. A
file table remembers the hash of what was indexed, and a file whose hash has
not changed is left alone.

A sync is the statements it runs, one after the other. Each commits on its own,
so a process that dies leaves what the statements before had done; only
`insertMany` is several inserts in one transaction. A chunk's uuid is a number
here that was not given out before. Embeddings are left out: they add columns
and statements that no other statement reads.
-/

namespace Shizuha.Memory

open Js

inductive MemorySource where
  | memory
  | sessions
  deriving DecidableEq

structure MemoryIndexConfig where
  chunkTokens : ℕ
  chunkOverlap : ℕ
  indexSessions : Bool

structure MemoryFile where
  path : Text
  source : MemorySource
  content : Text
  deriving DecidableEq

/-- What is on the disk: `MEMORY.md`, and the files of two directories. -/
structure Workspace where
  memoryMd : Option Text
  memory : Dict Text
  sessions : Dict Text

def endsWith (s last : Text) : Bool := last.isSuffixOf s

def discoverFiles (cfg : MemoryIndexConfig) (ws : Workspace) : List MemoryFile :=
  (ws.memoryMd.map fun content => ⟨js "MEMORY.md", .memory, content⟩).toList ++
    ((ws.memory.rows.filter fun f => endsWith f.1 (js ".md")).map fun f =>
      ⟨js "memory/" ++ f.1, .memory, f.2⟩) ++
    if cfg.indexSessions then
      (ws.sessions.rows.filter fun f =>
        endsWith f.1 (js ".jsonl") || endsWith f.1 (js ".md")).map fun f =>
          ⟨js "sessions/" ++ f.1, .sessions, f.2⟩
    else []

/-! ## Chunks -/

structure ChunkInfo where
  startLine : ℕ
  endLine : ℕ
  text : Text
  hash : Text
  deriving DecidableEq

variable (sha256Hex : Text → Text)

/-- A chunk of more than ten units. -/
def chunkOf (lines : List Text) (startLine endLine : ℕ) : List ChunkInfo :=
  let text := trim (join [newline] lines)
  if 10 < text.length then [⟨startLine, endLine, text, (sha256Hex text).take 16⟩] else []

/-- The last lines that fit, the last one first. -/
def overlapLines : ℚ → List Text → List Text
  | _, [] => []
  | room, line :: rest =>
      if room < line.length + 1 then [] else line :: overlapLines (room - (line.length + 1)) rest

def charsOf (lines : List Text) : ℕ := (lines.map fun line => line.length + 1).sum

/-- The chunks from line `i` on, with the lines of the current one. -/
def chunkLines (maxChars overlapChars : ℚ) :
    ℕ → List Text → ℕ → List Text → List ChunkInfo
  | i, current, startLine, [] => chunkOf sha256Hex current startLine i
  | i, current, startLine, line :: rest =>
      let current := current ++ [line]
      if maxChars ≤ charsOf current then
        let overlap := (overlapLines overlapChars current.reverse).reverse
        chunkOf sha256Hex current startLine (i + 1) ++
          chunkLines maxChars overlapChars (i + 1) overlap (i + 2 - overlap.length) rest
      else chunkLines maxChars overlapChars (i + 1) current startLine rest

def chunkMarkdown (content : Text) (maxChars overlapChars : ℚ) : List ChunkInfo :=
  chunkLines sha256Hex maxChars overlapChars 0 [] 1 (lines content)

/-! ## The tables -/

structure FileRow where
  path : Text
  source : MemorySource
  hash : Text
  deriving DecidableEq

/-- A row of the chunk table, its id apart. -/
structure ChunkRow where
  path : Text
  source : MemorySource
  startLine : ℕ
  endLine : ℕ
  hash : Text
  text : Text
  deriving DecidableEq

structure FtsRow where
  text : Text
  id : ℕ
  path : Text
  source : MemorySource
  startLine : ℕ
  endLine : ℕ
  deriving DecidableEq

structure MemoryIndex where
  files : Table Text FileRow FileRow.path
  chunks : Sequence ChunkRow
  fts : List FtsRow

def MemoryIndex.empty : MemoryIndex := ⟨Table.empty, Sequence.empty, []⟩

def chunkRow (file : MemoryFile) (chunk : ChunkInfo) : ChunkRow :=
  ⟨file.path, file.source, chunk.startLine, chunk.endLine, chunk.hash, chunk.text⟩

/-- The full-text row of a chunk row. -/
def ftsRow (e : ℕ × ChunkRow) : FtsRow :=
  ⟨e.2.text, e.1, e.2.path, e.2.source, e.2.startLine, e.2.endLine⟩

/-! ## Statements -/

inductive Statement where
  | deleteChunks (path : Text)
  | deleteFts (id : ℕ)
  | insertMany (rows : List ChunkRow)
  | replaceFile (row : FileRow)
  | deleteFile (path : Text)
  deriving DecidableEq

namespace MemoryIndex

def insertChunk (db : MemoryIndex) (row : ChunkRow) : MemoryIndex :=
  { db with
    chunks := db.chunks.push row
    fts := db.fts ++ [ftsRow (db.chunks.next, row)] }

def exec (db : MemoryIndex) : Statement → MemoryIndex
  | .deleteChunks path => { db with chunks := db.chunks.delete fun row => row.path = path }
  | .deleteFts id => { db with fts := db.fts.filter fun row => row.id ≠ id }
  | .insertMany rows => rows.foldl insertChunk db
  | .replaceFile row =>
      { db with files := db.files.upsert row (fun r => { row with path := r.path }) fun _ => rfl }
  | .deleteFile path => { db with files := db.files.delete fun row => row.path = path }

def execAll (db : MemoryIndex) (statements : List Statement) : MemoryIndex :=
  statements.foldl exec db

/-! ## A sync -/

def chunkIds (db : MemoryIndex) (path : Text) : List ℕ :=
  (db.chunks.entries.filter fun e => e.2.path = path).map Prod.fst

def removeFileChunks (path : Text) (db : MemoryIndex) : List Statement :=
  if db.chunkIds path = [] then []
  else .deleteChunks path :: (db.chunkIds path).map .deleteFts

variable (cfg : MemoryIndexConfig)

def fileRows (file : MemoryFile) : List ChunkRow :=
  (chunkMarkdown sha256Hex file.content (cfg.chunkTokens * 4) (cfg.chunkOverlap * 4)).map
    (chunkRow file)

def indexedHash (db : MemoryIndex) (path : Text) : Option Text :=
  (db.files.get path).map FileRow.hash

/-- A file of the workspace. -/
def indexFile (file : MemoryFile) (db : MemoryIndex) : List Statement :=
  let hash := sha256Hex file.content
  if db.indexedHash file.path = some hash then []
  else
    db.removeFileChunks file.path ++
      [.insertMany (fileRows sha256Hex cfg file), .replaceFile ⟨file.path, file.source, hash⟩]

/-- A file that is gone. -/
def removeFile (path : Text) (db : MemoryIndex) : List Statement :=
  db.removeFileChunks path ++ [.deleteFile path]

/-- Parts of a sync, each of them on what the ones before have left. -/
def sequenced : List (MemoryIndex → List Statement) → MemoryIndex → List Statement
  | [], _ => []
  | part :: parts, db => part db ++ sequenced parts (db.execAll (part db))

/-- The paths that are indexed and were not found. The database lists them in an
order of its own. -/
def oldPaths (order : List Text → List Text) (db : MemoryIndex) (files : List MemoryFile) :
    List Text :=
  (order (db.files.rows.map FileRow.path)).filter fun path => path ∉ files.map MemoryFile.path

def sync (order : List Text → List Text) (ws : Workspace) (db : MemoryIndex) : List Statement :=
  let files := discoverFiles cfg ws
  sequenced (files.map (indexFile sha256Hex cfg) ++ (db.oldPaths order files).map removeFile) db

end MemoryIndex

end Shizuha.Memory
