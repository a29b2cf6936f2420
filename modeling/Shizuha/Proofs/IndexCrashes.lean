import Mathlib.Data.List.Pairwise
import Shizuha.Machine
import Shizuha.Memory.Index

/-!
# Syncs that are cut off

A run is a list of syncs, each with the workspace it found and with the number
of statements it got to, if it did not get to the end. A path is interrupted
from the first statement that changes its chunks to the one that writes or
deletes its file row, and it stays interrupted when a sync dies in between.

Two things are enough for the two tables to be right after each sync that is
not cut off. No cut leaves a full-text row to delete: its chunk row is gone, and
no later sync finds its id. And a path that is interrupted is not one that the
sync leaves alone, because the file row has the hash of its content, or because
there is neither a file nor a file row.
-/

namespace Shizuha.Memory

open Js Machine MemoryIndex

/-- What a path has in the chunk table. -/
def MemoryIndex.rowsAt (db : MemoryIndex) (path : Text) : List ChunkRow :=
  db.chunks.rows.filter fun row => row.path = path

/-- The full-text index has a row for each chunk row, and no other. -/
def Mirrored (db : MemoryIndex) : Prop := db.fts = db.chunks.entries.map ftsRow

variable (sha256Hex : Text → Text) (cfg : MemoryIndexConfig)

/-- The chunk table has the chunks of the files, and the full-text index mirrors
it. -/
structure Consistent (db : MemoryIndex) (files : List MemoryFile) : Prop where
  chunks : ∀ path, db.rowsAt path =
    (files.filter fun file => file.path = path).flatMap (fileRows sha256Hex cfg)
  fts : Mirrored db

/-! ## Runs -/

structure SyncRun where
  workspace : Workspace
  /-- The order the database lists paths in. -/
  order : List Text → List Text
  perm : ∀ paths, (order paths).Perm paths
  /-- How many statements were run, when not all. -/
  cut : Option ℕ

/-- A database, and the paths that are interrupted. -/
structure IndexWorld where
  db : MemoryIndex
  interrupted : List Text

def IndexWorld.empty : IndexWorld := ⟨.empty, []⟩

def interruptedBy (paths : List Text) : Statement → List Text
  | .deleteChunks path => path :: paths
  | .deleteFts _ => paths
  | .insertMany rows => rows.map ChunkRow.path ++ paths
  | .replaceFile row => paths.filter fun path => path ≠ row.path
  | .deleteFile deleted => paths.filter fun path => path ≠ deleted

def IndexWorld.execAll (w : IndexWorld) (statements : List Statement) : IndexWorld :=
  ⟨w.db.execAll statements, statements.foldl interruptedBy w.interrupted⟩

/-- The statements a run gets to. -/
def SyncRun.executed (run : SyncRun) (db : MemoryIndex) : List Statement :=
  match run.cut with
  | none => db.sync sha256Hex cfg run.order run.workspace
  | some k => (db.sync sha256Hex cfg run.order run.workspace).take k

def IndexWorld.step (w : IndexWorld) (run : SyncRun) : IndexWorld :=
  w.execAll (run.executed sha256Hex cfg w.db)

/-- After a sync that was not cut off, the index is right. -/
def Indexed (w : IndexWorld) (run : SyncRun) : Prop :=
  run.cut = none →
    Consistent sha256Hex cfg (w.step sha256Hex cfg run).db (discoverFiles cfg run.workspace)

/-- A sync of these files writes the path anew. -/
def Rewritten (db : MemoryIndex) (files : List MemoryFile) (path : Text) : Prop :=
  (∃ file ∈ files, file.path = path ∧ db.indexedHash path ≠ some (sha256Hex file.content)) ∨
    path ∉ files.map MemoryFile.path ∧ db.indexedHash path ≠ none

def Careful (w : IndexWorld) (run : SyncRun) : Prop :=
  match run.cut with
  | some k => ∀ id, (w.db.sync sha256Hex cfg run.order run.workspace)[k]? ≠ some (.deleteFts id)
  | none => ∀ path ∈ w.interrupted,
      Rewritten sha256Hex w.db (discoverFiles cfg run.workspace) path

/-! ## The files -/

section Files

variable {cfg}

/-- The source of a file is in its path. -/
def sourceOf (path : Text) : MemorySource :=
  if path.head? = some 115 then .sessions else .memory

theorem source_eq {ws : Workspace} {file : MemoryFile} (h : file ∈ discoverFiles cfg ws) :
    file.source = sourceOf file.path := by
  rw [discoverFiles, List.mem_append, List.mem_append] at h
  rcases h with (h | h) | h
  · rw [Option.mem_toList, Option.map_eq_some_iff] at h
    obtain ⟨content, -, rfl⟩ := h
    rfl
  · obtain ⟨f, -, rfl⟩ := List.mem_map.mp h
    rfl
  · split_ifs at h
    · obtain ⟨f, -, rfl⟩ := List.mem_map.mp h
      rfl
    · cases h

theorem eq_memoryMd {content : Option Text} {path : Text}
    (h : path ∈ ((content.map fun content =>
      (⟨js "MEMORY.md", .memory, content⟩ : MemoryFile)).toList.map MemoryFile.path)) :
    path = js "MEMORY.md" := by
  obtain ⟨file, hfile, rfl⟩ := List.mem_map.mp h
  rw [Option.mem_toList, Option.map_eq_some_iff] at hfile
  obtain ⟨content, -, rfl⟩ := hfile
  rfl

/-- The paths of one directory. -/
theorem nodup_directory (head : Text) (source : MemorySource) (d : Dict Text)
    (p : Text × Text → Bool) :
    (((d.rows.filter p).map fun f => (⟨head ++ f.1, source, f.2⟩ : MemoryFile)).map
      MemoryFile.path).Nodup := by
  have hnames : ((d.rows.filter p).map Prod.fst).Nodup :=
    d.nodup.sublist (List.filter_sublist.map Prod.fst)
  have hpaths := hnames.map (List.append_right_injective head)
  rw [List.map_map] at hpaths ⊢
  exact hpaths

theorem nodup_append_of_head {a b : List Text} {u : UInt16} (ha : a.Nodup) (hb : b.Nodup)
    (hau : ∀ path ∈ a, path.head? ≠ some u) (hbu : ∀ path ∈ b, path.head? = some u) :
    (a ++ b).Nodup :=
  List.nodup_append.mpr ⟨ha, hb, fun x hx y hy hxy => hau x hx (hxy ▸ hbu y hy)⟩

theorem nodup_discoverFiles (ws : Workspace) :
    ((discoverFiles cfg ws).map MemoryFile.path).Nodup := by
  rw [discoverFiles, List.map_append, List.map_append]
  refine nodup_append_of_head (u := 115) (nodup_append_of_head (u := 109) ?_
    (nodup_directory _ _ _ _) ?_ ?_) ?_ ?_ ?_
  · cases ws.memoryMd with
    | none => exact List.nodup_nil
    | some content => exact List.nodup_singleton _
  · intro path hpath
    rw [eq_memoryMd hpath]
    decide
  · intro path hpath
    obtain ⟨file, hfile, rfl⟩ := List.mem_map.mp hpath
    obtain ⟨f, -, rfl⟩ := List.mem_map.mp hfile
    rfl
  · split_ifs
    · exact nodup_directory _ _ _ _
    · exact List.nodup_nil
  · intro path hpath
    rw [List.mem_append] at hpath
    rcases hpath with hpath | hpath
    · rw [eq_memoryMd hpath]
      decide
    · obtain ⟨file, hfile, rfl⟩ := List.mem_map.mp hpath
      obtain ⟨f, -, rfl⟩ := List.mem_map.mp hfile
      show (js "memory/" ++ f.1).head? ≠ some 115
      exact fun h => absurd (show some (109 : UInt16) = some 115 from h) (by decide)
  · intro path hpath
    obtain ⟨file, hfile, rfl⟩ := List.mem_map.mp hpath
    split_ifs at hfile
    · obtain ⟨f, -, rfl⟩ := List.mem_map.mp hfile
      rfl
    · cases hfile

end Files

/-! ## Statements -/

section Statements

variable {db : MemoryIndex} {path q : Text}

theorem execAll_append (db : MemoryIndex) (a b : List Statement) :
    db.execAll (a ++ b) = (db.execAll a).execAll b := List.foldl_append

/-- An id is in the chunk table once. -/
theorem eq_of_number {s : Sequence ChunkRow} {e e' : ℕ × ChunkRow} (he : e ∈ s.entries)
    (he' : e' ∈ s.entries) (h : e.1 = e'.1) : e = e' := by
  by_contra hne
  have hpair : s.entries.Pairwise fun a b => a.1 ≠ b.1 := s.ascending.imp Nat.ne_of_lt
  have hsymm : Std.Symm fun a b : ℕ × ChunkRow => a.1 ≠ b.1 := ⟨fun _ _ hab => hab.symm⟩
  exact hpair.forall he he' hne h

theorem mem_chunkIds {e : ℕ × ChunkRow} (he : e ∈ db.chunks.entries) :
    e.1 ∈ db.chunkIds path ↔ e.2.path = path := by
  rw [chunkIds, List.mem_map]
  constructor
  · rintro ⟨e', he', heq⟩
    obtain ⟨hmem, hpath⟩ := List.mem_filter.mp he'
    rw [← eq_of_number hmem he heq]
    exact of_decide_eq_true hpath
  · exact fun h => ⟨e, List.mem_filter.mpr ⟨he, decide_eq_true h⟩, rfl⟩

theorem execAll_deleteFts (db : MemoryIndex) (ids : List ℕ) :
    db.execAll (ids.map .deleteFts) =
      { db with fts := db.fts.filter fun row => row.id ∉ ids } := by
  induction ids generalizing db with
  | nil => simp [execAll]
  | cons id ids ih =>
      rw [List.map_cons, execAll, List.foldl_cons, ← execAll, ih]
      simp only [exec, List.filter_filter, List.mem_cons, not_or, Bool.decide_and,
        Bool.and_comm, ne_eq]

theorem rowsAt_eq_nil (h : db.chunkIds path = []) : db.rowsAt path = [] := by
  rw [chunkIds, List.map_eq_nil_iff] at h
  rw [rowsAt, Sequence.rows, List.filter_map]
  rw [show (fun row : ChunkRow => decide (row.path = path)) ∘ Prod.snd =
    fun e : ℕ × ChunkRow => decide (e.2.path = path) from rfl, h, List.map_nil]

/-- What statements change of one path, and leave of the others. -/
structure OnlyAt (path : Text) (db db' : MemoryIndex) : Prop where
  rows : ∀ q, q ≠ path → db'.rowsAt q = db.rowsAt q
  hash : ∀ q, q ≠ path → db'.indexedHash q = db.indexedHash q
  mirrored : Mirrored db → Mirrored db'

theorem OnlyAt.refl (path : Text) (db : MemoryIndex) : OnlyAt path db db :=
  ⟨fun _ _ => rfl, fun _ _ => rfl, id⟩

theorem OnlyAt.trans {db' db'' : MemoryIndex} (h : OnlyAt path db db') (h' : OnlyAt path db' db'') :
    OnlyAt path db db'' :=
  ⟨fun q hq => (h'.rows q hq).trans (h.rows q hq), fun q hq => (h'.hash q hq).trans (h.hash q hq),
    fun hm => h'.mirrored (h.mirrored hm)⟩

/-- Removing the chunks of a path. -/
theorem removeFileChunks_spec (db : MemoryIndex) (path : Text) :
    OnlyAt path db (db.execAll (db.removeFileChunks path)) ∧
      (db.execAll (db.removeFileChunks path)).rowsAt path = [] ∧
      (db.execAll (db.removeFileChunks path)).files = db.files := by
  rw [removeFileChunks]
  split_ifs with hids
  · exact ⟨.refl path db, rowsAt_eq_nil hids, rfl⟩
  · rw [execAll, List.foldl_cons, ← execAll, execAll_deleteFts]
    have hrows : ∀ q, (db.exec (.deleteChunks path)).rowsAt q =
        (db.rowsAt q).filter fun row => !decide (row.path = path) := fun q => by
      rw [rowsAt, exec, Sequence.rows_delete, rowsAt, List.filter_filter, List.filter_filter]
      exact List.filter_congr fun row _ => Bool.and_comm _ _
    refine ⟨⟨fun q hq => ?_, fun _ _ => rfl, fun hm => ?_⟩, ?_, rfl⟩
    · refine (hrows q).trans (List.filter_eq_self.mpr fun row hrow => ?_)
      have hpath : row.path = q := of_decide_eq_true (List.mem_filter.mp hrow).2
      simp [hpath, hq]
    · rw [Mirrored] at hm
      show db.fts.filter _ = (db.chunks.entries.filter _).map ftsRow
      rw [hm, List.filter_map]
      refine congrArg (List.map ftsRow) (List.filter_congr fun e he => ?_)
      have hid : (ftsRow e).id = e.1 := rfl
      simp only [Function.comp_apply, hid, mem_chunkIds he, decide_not]
    · refine (hrows path).trans (List.filter_eq_nil_iff.mpr fun row hrow => ?_)
      have hpath : row.path = path := of_decide_eq_true (List.mem_filter.mp hrow).2
      simp [hpath]

/-- Inserting chunks of a path. -/
theorem insertMany_spec (db : MemoryIndex) (path : Text) {rows : List ChunkRow}
    (hrows : ∀ row ∈ rows, row.path = path) :
    OnlyAt path db (db.exec (.insertMany rows)) ∧
      (db.exec (.insertMany rows)).rowsAt path = db.rowsAt path ++ rows ∧
      (db.exec (.insertMany rows)).files = db.files := by
  induction rows generalizing db with
  | nil => exact ⟨.refl path db, (List.append_nil _).symm, rfl⟩
  | cons row rows ih =>
      have hrow : row.path = path := hrows row List.mem_cons_self
      obtain ⟨honly, hat, hfiles⟩ := ih (db.insertChunk row) fun r hr =>
        hrows r (List.mem_cons_of_mem row hr)
      have hone : ∀ q, (db.insertChunk row).rowsAt q =
          db.rowsAt q ++ [row].filter fun r => r.path = q := fun q => by
        rw [rowsAt, insertChunk, Sequence.rows_push, List.filter_append, rowsAt]
      have hinsert : OnlyAt path db (db.insertChunk row) := by
        refine ⟨fun q hq => ?_, fun _ _ => rfl, fun hm => ?_⟩
        · rw [hone, List.filter_cons_of_neg (by simpa [hrow] using Ne.symm hq), List.filter_nil,
            List.append_nil]
        · rw [Mirrored] at hm ⊢
          simp only [insertChunk, hm, Sequence.push, List.map_append, List.map_singleton]
      refine ⟨hinsert.trans honly, ?_, hfiles⟩
      · refine hat.trans ?_
        rw [hone, List.filter_cons_of_pos (by simpa using hrow), List.filter_nil, List.append_assoc,
          List.singleton_append]

theorem replaceFile_spec (db : MemoryIndex) (row : FileRow) :
    OnlyAt row.path db (db.exec (.replaceFile row)) ∧
      (db.exec (.replaceFile row)).rowsAt row.path = db.rowsAt row.path ∧
      (db.exec (.replaceFile row)).indexedHash row.path = some row.hash := by
  refine ⟨⟨fun _ _ => rfl, fun q hq => ?_, id⟩, rfl, ?_⟩
  · rw [indexedHash, exec, Table.get_upsert, if_neg hq, indexedHash]
  · rw [indexedHash, exec, Table.get_upsert, if_pos rfl]
    cases db.files.get row.path <;> rfl

theorem deleteFile_spec (db : MemoryIndex) (path : Text) :
    OnlyAt path db (db.exec (.deleteFile path)) ∧
      (db.exec (.deleteFile path)).rowsAt path = db.rowsAt path ∧
      (db.exec (.deleteFile path)).indexedHash path = none := by
  refine ⟨⟨fun _ _ => rfl, fun q hq => ?_, id⟩, rfl, ?_⟩
  · rw [indexedHash, exec, Table.get_delete_ne, indexedHash]
    intro r hr
    rw [decide_eq_false_iff_not, hr]
    exact hq
  · rw [indexedHash, exec, Table.get_delete_self, Option.map_none]
    intro r hr
    exact decide_eq_true hr

end Statements

/-! ## What holds between two parts of a sync -/

section Parts

variable {sha256Hex cfg} {Seen : MemoryFile → Prop} {w w' : IndexWorld} {path : Text}

/-- A path has the chunks of the file whose hash its row has, or no row and no
chunks. -/
structure Settled (sha256Hex : Text → Text) (cfg : MemoryIndexConfig) (Seen : MemoryFile → Prop)
    (db : MemoryIndex) (path : Text) : Prop where
  absent : db.indexedHash path = none → db.rowsAt path = []
  present : ∀ hash, db.indexedHash path = some hash → ∃ file, Seen file ∧ file.path = path ∧
    sha256Hex file.content = hash ∧ db.rowsAt path = fileRows sha256Hex cfg file

structure Kept (sha256Hex : Text → Text) (cfg : MemoryIndexConfig) (Seen : MemoryFile → Prop)
    (w : IndexWorld) : Prop where
  mirrored : Mirrored w.db
  settled : ∀ path, path ∉ w.interrupted → Settled sha256Hex cfg Seen w.db path

/-- What a piece of the statements for one path does: it is interrupted, or
settled. -/
structure Piece (sha256Hex : Text → Text) (cfg : MemoryIndexConfig) (Seen : MemoryFile → Prop)
    (path : Text) (w w' : IndexWorld) : Prop where
  only : OnlyAt path w.db w'.db
  others : ∀ q, q ≠ path → (q ∈ w'.interrupted ↔ q ∈ w.interrupted)
  here : path ∈ w'.interrupted ∨ Settled sha256Hex cfg Seen w'.db path

theorem Settled.congr {db db' : MemoryIndex} (h : Settled sha256Hex cfg Seen db path)
    (hrows : db'.rowsAt path = db.rowsAt path) (hhash : db'.indexedHash path = db.indexedHash path) :
    Settled sha256Hex cfg Seen db' path where
  absent hnone := by
    rw [hrows]
    exact h.absent (hhash ▸ hnone)
  present hash hsome := by
    rw [hrows]
    exact h.present hash (hhash ▸ hsome)

theorem Kept.piece (h : Kept sha256Hex cfg Seen w) (hpiece : Piece sha256Hex cfg Seen path w w') :
    Kept sha256Hex cfg Seen w' where
  mirrored := hpiece.only.mirrored h.mirrored
  settled q hq := by
    by_cases hpath : q = path
    · subst hpath
      exact hpiece.here.resolve_left hq
    · have hbefore : q ∉ w.interrupted := fun hmem => hq ((hpiece.others q hpath).mpr hmem)
      exact (h.settled q hbefore).congr (hpiece.only.rows q hpath) (hpiece.only.hash q hpath)

theorem world_execAll_append (w : IndexWorld) (a b : List Statement) :
    w.execAll (a ++ b) = (w.execAll a).execAll b := by
  rw [IndexWorld.execAll, execAll_append, List.foldl_append]
  rfl

theorem foldl_interruptedBy_deleteFts (paths : List Text) (ids : List ℕ) :
    (ids.map Statement.deleteFts).foldl interruptedBy paths = paths := by
  induction ids with
  | nil => rfl
  | cons id ids ih => rw [List.map_cons, List.foldl_cons, interruptedBy, ih]

/-- A statement that concerns one path. -/
def Statement.At (path : Text) : Statement → Prop
  | .deleteChunks p => p = path
  | .deleteFts _ => True
  | .insertMany rows => ∀ row ∈ rows, row.path = path
  | .replaceFile row => row.path = path
  | .deleteFile p => p = path

theorem mem_interruptedBy {statements : List Statement} (h : ∀ st ∈ statements, st.At path)
    {q : Text} (hq : q ≠ path) (paths : List Text) :
    q ∈ statements.foldl interruptedBy paths ↔ q ∈ paths := by
  induction statements generalizing paths with
  | nil => exact Iff.rfl
  | cons st rest ih =>
      rw [List.foldl_cons, ih fun st' hst' => h st' (List.mem_cons_of_mem st hst')]
      have hst : st.At path := h st List.mem_cons_self
      cases st with
      | deleteChunks p =>
          have hp : p = path := hst
          rw [interruptedBy, hp, List.mem_cons, or_iff_right hq]
      | deleteFts id => exact Iff.rfl
      | insertMany rows =>
          rw [interruptedBy, List.mem_append, or_iff_right]
          intro hmem
          obtain ⟨row, hrow, rfl⟩ := List.mem_map.mp hmem
          exact hq (hst row hrow)
      | replaceFile row =>
          have hrow : row.path = path := hst
          rw [interruptedBy, hrow, List.mem_filter, decide_eq_true_iff, and_iff_left hq]
      | deleteFile p =>
          have hp : p = path := hst
          rw [interruptedBy, hp, List.mem_filter, decide_eq_true_iff, and_iff_left hq]

theorem removeFileChunks_at (db : MemoryIndex) (path : Text) :
    ∀ st ∈ db.removeFileChunks path, st.At path := by
  rw [removeFileChunks]
  split_ifs
  · simp
  · intro st hst
    rcases List.mem_cons.mp hst with rfl | hst
    · exact rfl
    · obtain ⟨id, -, rfl⟩ := List.mem_map.mp hst
      exact trivial

/-- Removing the chunks of a path interrupts it, if there are any. -/
theorem piece_removed (w : IndexWorld) (path : Text) :
    w.execAll (w.db.removeFileChunks path) = w ∨
      Piece sha256Hex cfg Seen path w (w.execAll (w.db.removeFileChunks path)) := by
  by_cases hids : w.db.chunkIds path = []
  · left
    rw [removeFileChunks, if_pos hids]
    rfl
  · right
    refine ⟨(removeFileChunks_spec w.db path).1, fun q hq => ?_, .inl ?_⟩
    · exact mem_interruptedBy (removeFileChunks_at w.db path) hq w.interrupted
    · rw [removeFileChunks, if_neg hids, IndexWorld.execAll, List.foldl_cons,
        foldl_interruptedBy_deleteFts]
      exact List.mem_cons_self

theorem path_fileRows {file : MemoryFile} {row : ChunkRow}
    (h : row ∈ fileRows sha256Hex cfg file) : row.path = file.path := by
  obtain ⟨chunk, -, rfl⟩ := List.mem_map.mp h
  rfl

/-- The chunks of a file inserted where there are none. -/
theorem piece_inserted (w : IndexWorld) (file : MemoryFile) :
    w.execAll (w.db.removeFileChunks file.path ++ [.insertMany (fileRows sha256Hex cfg file)]) =
        w.execAll (w.db.removeFileChunks file.path) ∨
      Piece sha256Hex cfg Seen file.path w
        (w.execAll (w.db.removeFileChunks file.path ++
          [.insertMany (fileRows sha256Hex cfg file)])) := by
  cases hrows : fileRows sha256Hex cfg file with
  | nil =>
      left
      rw [world_execAll_append]
      rfl
  | cons row rows =>
      right
      have hpaths : ∀ r ∈ row :: rows, r.path = file.path := fun r hr =>
        path_fileRows (hrows ▸ hr)
      rw [world_execAll_append]
      refine ⟨(removeFileChunks_spec w.db file.path).1.trans
        (insertMany_spec _ file.path hpaths).1, fun q hq => ?_, .inl ?_⟩
      · rw [← world_execAll_append]
        refine mem_interruptedBy (fun st hst => ?_) hq w.interrupted
        rcases List.mem_append.mp hst with hst | hst
        · exact removeFileChunks_at w.db file.path st hst
        · rw [List.mem_singleton.mp hst]
          exact hpaths
      · refine List.mem_append_left _ (List.mem_map.mpr ⟨row, List.mem_cons_self, ?_⟩)
        exact hpaths row List.mem_cons_self

/-- A file that is indexed to the end. -/
structure Written (sha256Hex : Text → Text) (cfg : MemoryIndexConfig) (file : MemoryFile)
    (w w' : IndexWorld) : Prop where
  only : OnlyAt file.path w.db w'.db
  others : ∀ q, q ≠ file.path → (q ∈ w'.interrupted ↔ q ∈ w.interrupted)
  rows : w'.db.rowsAt file.path = fileRows sha256Hex cfg file
  hash : w'.db.indexedHash file.path = some (sha256Hex file.content)

theorem written_indexFile (w : IndexWorld) (file : MemoryFile) :
    Written sha256Hex cfg file w (w.execAll (w.db.removeFileChunks file.path ++
      [.insertMany (fileRows sha256Hex cfg file),
        .replaceFile ⟨file.path, file.source, sha256Hex file.content⟩])) := by
  obtain ⟨honly, hempty, -⟩ := removeFileChunks_spec w.db file.path
  have hpath : ∀ row ∈ fileRows sha256Hex cfg file, row.path = file.path :=
    fun row => path_fileRows
  obtain ⟨honly', hrows, -⟩ := insertMany_spec (w.db.execAll (w.db.removeFileChunks file.path))
    file.path hpath
  obtain ⟨honly'', hsame, hhash⟩ := replaceFile_spec
    ((w.db.execAll (w.db.removeFileChunks file.path)).exec
      (.insertMany (fileRows sha256Hex cfg file)))
    ⟨file.path, file.source, sha256Hex file.content⟩
  have hdb : (w.execAll (w.db.removeFileChunks file.path ++
      [.insertMany (fileRows sha256Hex cfg file),
        .replaceFile ⟨file.path, file.source, sha256Hex file.content⟩])).db =
      ((w.db.execAll (w.db.removeFileChunks file.path)).exec
        (.insertMany (fileRows sha256Hex cfg file))).exec
          (.replaceFile ⟨file.path, file.source, sha256Hex file.content⟩) := by
    rw [world_execAll_append]
    rfl
  refine ⟨?_, fun q hq => ?_, ?_, ?_⟩
  · rw [hdb]
    exact (honly.trans honly').trans honly''
  · refine mem_interruptedBy (fun st hst => ?_) hq w.interrupted
    rcases List.mem_append.mp hst with hst | hst
    · exact removeFileChunks_at w.db file.path st hst
    · rcases List.mem_cons.mp hst with rfl | hst
      · exact fun row => path_fileRows
      · rw [List.mem_singleton.mp hst]
        exact rfl
  · rw [hdb]
    refine hsame.trans ?_
    rw [hrows, hempty, List.nil_append]
  · rw [hdb]
    exact hhash

theorem Written.piece {file : MemoryFile} (h : Written sha256Hex cfg file w w')
    (hseen : Seen file) : Piece sha256Hex cfg Seen file.path w w' where
  only := h.only
  others := h.others
  here := .inr
    { absent := fun hnone => by
        rw [h.hash] at hnone
        cases hnone
      present := fun hash hsome => by
        rw [h.hash] at hsome
        cases hsome
        exact ⟨file, hseen, rfl, rfl, h.rows⟩ }

/-- A path whose file is gone is removed to the end. -/
structure Removed (path : Text) (w w' : IndexWorld) : Prop where
  only : OnlyAt path w.db w'.db
  others : ∀ q, q ≠ path → (q ∈ w'.interrupted ↔ q ∈ w.interrupted)
  rows : w'.db.rowsAt path = []
  hash : w'.db.indexedHash path = none

theorem removed_removeFile (w : IndexWorld) (path : Text) :
    Removed path w (w.execAll (removeFile path w.db)) := by
  obtain ⟨honly, hempty, -⟩ := removeFileChunks_spec w.db path
  obtain ⟨honly', hsame, hhash⟩ :=
    deleteFile_spec (w.db.execAll (w.db.removeFileChunks path)) path
  have hdb : (w.execAll (removeFile path w.db)).db =
      (w.db.execAll (w.db.removeFileChunks path)).exec (.deleteFile path) := by
    rw [removeFile, world_execAll_append]
    rfl
  refine ⟨?_, fun q hq => ?_, ?_, ?_⟩
  · rw [hdb]
    exact honly.trans honly'
  · refine mem_interruptedBy (fun st hst => ?_) hq w.interrupted
    rcases List.mem_append.mp hst with hst | hst
    · exact removeFileChunks_at w.db path st hst
    · rw [List.mem_singleton.mp hst]
      exact rfl
  · rw [hdb]
    exact hsame.trans hempty
  · rw [hdb]
    exact hhash

theorem Removed.piece (h : Removed path w w') : Piece sha256Hex cfg Seen path w w' where
  only := h.only
  others := h.others
  here := .inr
    { absent := fun _ => h.rows
      present := fun hash hsome => by
        rw [h.hash] at hsome
        cases hsome }

/-- The pieces a part is cut into when no cut leaves a full-text row to delete. -/
theorem take_part (db : MemoryIndex) (path : Text) (rest : List Statement) (k : ℕ)
    (hk : ∀ id, (db.removeFileChunks path ++ rest)[k]? ≠ some (.deleteFts id)) :
    (db.removeFileChunks path ++ rest).take k = [] ∨
      ∃ j, (db.removeFileChunks path ++ rest).take k =
        db.removeFileChunks path ++ rest.take j := by
  rcases Nat.lt_or_ge k (db.removeFileChunks path).length with hlt | hge
  · left
    rw [List.getElem?_append_left hlt] at hk
    rw [removeFileChunks] at hlt hk
    split_ifs at hlt hk with hids
    · simp at hlt
    · cases k with
      | zero => exact List.take_zero
      | succ k =>
          have hk' : k < (db.chunkIds path).length := by simpa using hlt
          exfalso
          refine hk (db.chunkIds path)[k] ?_
          rw [List.getElem?_cons_succ, List.getElem?_map, List.getElem?_eq_getElem hk',
            Option.map_some]
  · right
    exact ⟨k - (db.removeFileChunks path).length, by rw [List.take_append, List.take_of_length_le hge]⟩

/-- A part that keeps what holds between parts, wherever it is cut off without a
full-text row to delete. -/
def Safe (sha256Hex : Text → Text) (cfg : MemoryIndexConfig) (Seen : MemoryFile → Prop)
    (part : MemoryIndex → List Statement) : Prop :=
  ∀ w, Kept sha256Hex cfg Seen w → ∀ k, (∀ id, (part w.db)[k]? ≠ some (.deleteFts id)) →
    Kept sha256Hex cfg Seen (w.execAll ((part w.db).take k))

theorem Kept.pieces (h : Kept sha256Hex cfg Seen w)
    (hpiece : w' = w ∨ Piece sha256Hex cfg Seen path w w') : Kept sha256Hex cfg Seen w' := by
  rcases hpiece with rfl | hpiece
  · exact h
  · exact h.piece hpiece

theorem safe_indexFile {file : MemoryFile} (hseen : Seen file) :
    Safe sha256Hex cfg Seen (indexFile sha256Hex cfg file) := by
  intro w h k hk
  rw [indexFile] at hk ⊢
  split_ifs at hk ⊢
  · rw [List.take_nil]
    exact h
  · rcases take_part w.db file.path _ k hk with hnil | ⟨j, hj⟩
    · rw [hnil]
      exact h
    · rw [hj]
      obtain _ | _ | j := j
      · rw [List.take_zero, List.append_nil]
        exact h.pieces (piece_removed w file.path)
      · rw [List.take_succ_cons, List.take_zero]
        rcases piece_inserted w file with heq | hpiece
        · rw [heq]
          exact h.pieces (piece_removed w file.path)
        · exact h.piece hpiece
      · rw [List.take_succ_cons, List.take_succ_cons, List.take_nil]
        exact h.piece ((written_indexFile w file).piece hseen)

theorem safe_removeFile (path : Text) : Safe sha256Hex cfg Seen (removeFile path) := by
  intro w h k hk
  rw [removeFile] at hk ⊢
  rcases take_part w.db path _ k hk with hnil | ⟨j, hj⟩
  · rw [hnil]
    exact h
  · rw [hj]
    obtain _ | j := j
    · rw [List.take_zero, List.append_nil]
      exact h.pieces (piece_removed w path)
    · rw [List.take_succ_cons, List.take_nil]
      exact h.piece (removed_removeFile w path).piece

/-- However a sequence of parts is cut off without a full-text row to delete. -/
theorem kept_sequenced {parts : List (MemoryIndex → List Statement)}
    (hsafe : ∀ part ∈ parts, Safe sha256Hex cfg Seen part) (h : Kept sha256Hex cfg Seen w) {k : ℕ}
    (hk : ∀ id, (sequenced parts w.db)[k]? ≠ some (.deleteFts id)) :
    Kept sha256Hex cfg Seen (w.execAll ((sequenced parts w.db).take k)) := by
  induction parts generalizing w k with
  | nil =>
      rw [MemoryIndex.sequenced, List.take_nil]
      exact h
  | cons part parts ih =>
      rw [MemoryIndex.sequenced] at hk ⊢
      have hpart : Safe sha256Hex cfg Seen part := hsafe part List.mem_cons_self
      rcases Nat.lt_or_ge k (part w.db).length with hlt | hge
      · rw [List.getElem?_append_left hlt] at hk
        rw [List.take_append_of_le_length hlt.le]
        exact hpart w h k hk
      · have hdone : Kept sha256Hex cfg Seen (w.execAll (part w.db)) := by
          have hall := hpart w h (part w.db).length fun id => by
            rw [List.getElem?_eq_none le_rfl]
            exact Option.some_ne_none _ |>.symm
          rwa [List.take_length] at hall
        rw [List.getElem?_append_right hge] at hk
        rw [List.take_append, List.take_of_length_le hge, world_execAll_append]
        exact ih (fun part' hpart' => hsafe part' (List.mem_cons_of_mem part hpart')) hdone hk

theorem kept_whole {parts : List (MemoryIndex → List Statement)}
    (hsafe : ∀ part ∈ parts, Safe sha256Hex cfg Seen part) (h : Kept sha256Hex cfg Seen w) :
    Kept sha256Hex cfg Seen (w.execAll (sequenced parts w.db)) := by
  have hend : ∀ id, (sequenced parts w.db)[(sequenced parts w.db).length]? ≠
      some (.deleteFts id) := fun id => by
    rw [List.getElem?_eq_none le_rfl]
    exact Option.some_ne_none _ |>.symm
  have hall := kept_sequenced hsafe h hend
  rwa [List.take_length] at hall

/-! ## A sync that is not cut off -/

theorem sequenced_append (a b : List (MemoryIndex → List Statement)) (db : MemoryIndex) :
    sequenced (a ++ b) db = sequenced a db ++ sequenced b (db.execAll (sequenced a db)) := by
  induction a generalizing db with
  | nil => rfl
  | cons part a ih =>
      rw [List.cons_append, sequenced, sequenced, ih, execAll_append, List.append_assoc]

/-- No two files that were seen under one path have one hash. -/
def Distinguished (sha256Hex : Text → Text) (Seen : MemoryFile → Prop) : Prop :=
  ∀ file file', Seen file → Seen file' → file.path = file'.path →
    sha256Hex file.content = sha256Hex file'.content → file = file'

/-- A file that is left alone has its chunks already. -/
theorem Kept.rows_of_hash (h : Kept sha256Hex cfg Seen w) (hseen : Distinguished sha256Hex Seen)
    {file : MemoryFile} (hfile : Seen file) (hpath : file.path ∉ w.interrupted)
    (hhash : w.db.indexedHash file.path = some (sha256Hex file.content)) :
    w.db.rowsAt file.path = fileRows sha256Hex cfg file := by
  obtain ⟨file', hfile', hpath', hsame, hrows⟩ := (h.settled file.path hpath).present _ hhash
  rw [hrows, hseen file' file hfile' hfile hpath' hsame]

/-- A part that was run to its end: its path has these chunks now. -/
structure Finished (path : Text) (rows : List ChunkRow) (w w' : IndexWorld) : Prop where
  only : OnlyAt path w.db w'.db
  others : ∀ q, q ≠ path → (q ∈ w'.interrupted ↔ q ∈ w.interrupted)
  rows : w'.db.rowsAt path = rows

theorem finished_indexFile (hseen : Distinguished sha256Hex Seen) {file : MemoryFile}
    (hfile : Seen file) (h : Kept sha256Hex cfg Seen w)
    (hrewritten : file.path ∈ w.interrupted →
      w.db.indexedHash file.path ≠ some (sha256Hex file.content)) :
    Finished file.path (fileRows sha256Hex cfg file) w
      (w.execAll (indexFile sha256Hex cfg file w.db)) := by
  by_cases hhash : w.db.indexedHash file.path = some (sha256Hex file.content)
  · rw [indexFile, if_pos hhash]
    exact ⟨.refl file.path w.db, fun _ _ => Iff.rfl,
      h.rows_of_hash hseen hfile (fun hmem => hrewritten hmem hhash) hhash⟩
  · rw [indexFile, if_neg hhash]
    have hwritten : Written sha256Hex cfg file w _ := written_indexFile w file
    exact ⟨hwritten.only, hwritten.others, hwritten.rows⟩

/-- Parts for different paths, each run to its end: what each of them has, and
what the paths beside them keep. -/
theorem finished_sequenced {ι : Type} (pathOf : ι → Text) (rowsOf : ι → List ChunkRow)
    (part : ι → MemoryIndex → List Statement) {items : List ι}
    (hnodup : (items.map pathOf).Nodup) (hsafe : ∀ i ∈ items, Safe sha256Hex cfg Seen (part i))
    {J : IndexWorld → ι → Prop}
    (hJ : ∀ w w' : IndexWorld, ∀ i, w'.db.indexedHash (pathOf i) = w.db.indexedHash (pathOf i) →
      (pathOf i ∈ w'.interrupted ↔ pathOf i ∈ w.interrupted) → J w i → J w' i)
    (hpart : ∀ w, ∀ i ∈ items, Kept sha256Hex cfg Seen w → J w i →
      Finished (pathOf i) (rowsOf i) w (w.execAll (part i w.db)))
    (h : Kept sha256Hex cfg Seen w) (hstart : ∀ i ∈ items, J w i) :
    (∀ i ∈ items, (w.execAll (sequenced (items.map part) w.db)).db.rowsAt (pathOf i) = rowsOf i) ∧
      (∀ q, q ∉ items.map pathOf →
        (w.execAll (sequenced (items.map part) w.db)).db.rowsAt q = w.db.rowsAt q ∧
          (w.execAll (sequenced (items.map part) w.db)).db.indexedHash q = w.db.indexedHash q) := by
  induction items generalizing w with
  | nil => exact ⟨fun i hi => absurd hi List.not_mem_nil, fun q _ => ⟨rfl, rfl⟩⟩
  | cons i items ih =>
      rw [List.map_cons, List.nodup_cons] at hnodup
      obtain ⟨hfresh, hnodup⟩ := hnodup
      have hfinished := hpart w i List.mem_cons_self h (hstart i List.mem_cons_self)
      have hkept : Kept sha256Hex cfg Seen (w.execAll (part i w.db)) := by
        have hone : ∀ p ∈ [part i], Safe sha256Hex cfg Seen p := fun p hp => by
          rw [List.mem_singleton.mp hp]
          exact hsafe i List.mem_cons_self
        have hall := kept_whole hone h
        rwa [sequenced, sequenced, List.append_nil] at hall
      have hne : ∀ j ∈ items, pathOf j ≠ pathOf i := fun j hj heq =>
        hfresh (heq ▸ List.mem_map_of_mem hj)
      obtain ⟨hrows, hothers⟩ := ih hnodup (fun j hj => hsafe j (List.mem_cons_of_mem i hj))
        (fun w j hj => hpart w j (List.mem_cons_of_mem i hj)) hkept fun j hj =>
          hJ w _ j (hfinished.only.hash _ (hne j hj)) (hfinished.others _ (hne j hj))
            (hstart j (List.mem_cons_of_mem i hj))
      rw [List.map_cons, sequenced, world_execAll_append]
      constructor
      · intro j hj
        rcases List.mem_cons.mp hj with rfl | hj
        · exact (hothers (pathOf j) hfresh).1.trans hfinished.rows
        · exact hrows j hj
      · intro q hq
        rw [List.map_cons, List.mem_cons, not_or] at hq
        obtain ⟨hrows', hhash'⟩ := hothers q hq.2
        exact ⟨hrows'.trans (hfinished.only.rows q hq.1),
          hhash'.trans (hfinished.only.hash q hq.1)⟩

theorem mem_oldPaths {order : List Text → List Text} {db : MemoryIndex} {files : List MemoryFile}
    (hperm : ∀ paths, (order paths).Perm paths) :
    path ∈ db.oldPaths order files ↔
      db.indexedHash path ≠ none ∧ path ∉ files.map MemoryFile.path := by
  rw [oldPaths, List.mem_filter, (hperm _).mem_iff, decide_eq_true_iff]
  refine and_congr_left fun _ => ?_
  rw [indexedHash, ne_eq, Option.map_eq_none_iff, Table.get_eq_none_iff, List.mem_map]
  push Not
  rfl

/-- A path is the path of one file. -/
theorem filter_path_eq {files : List MemoryFile} (hnodup : (files.map MemoryFile.path).Nodup)
    {file : MemoryFile} (hfile : file ∈ files) :
    (files.filter fun file' => file'.path = file.path) = [file] := by
  have hnodup' : files.Nodup := List.Nodup.of_map MemoryFile.path hnodup
  have heq : (files.filter fun file' => decide (file'.path = file.path)) =
      files.filter fun file' => decide (file' = file) :=
    List.filter_congr fun file' hfile' => by
      rw [decide_eq_decide]
      exact ⟨fun h => List.inj_on_of_nodup_map hnodup hfile' hfile h, fun h => by rw [h]⟩
  rw [heq, List.filter_eq, List.count_eq_one_of_mem hnodup' hfile, List.replicate_one]

/-- A sync run to its end leaves the chunks of the files it found. -/
theorem Kept.consistent (h : Kept sha256Hex cfg Seen w) (hseen : Distinguished sha256Hex Seen)
    {run : SyncRun} (hfiles : ∀ file ∈ discoverFiles cfg run.workspace, Seen file)
    (hC : ∀ path ∈ w.interrupted,
      Rewritten sha256Hex w.db (discoverFiles cfg run.workspace) path)
    (hkept : Kept sha256Hex cfg Seen
      (w.execAll (w.db.sync sha256Hex cfg run.order run.workspace))) :
    Consistent sha256Hex cfg (w.execAll (w.db.sync sha256Hex cfg run.order run.workspace)).db
      (discoverFiles cfg run.workspace) := by
  refine ⟨fun q => ?_, hkept.mirrored⟩
  have hnodup : ((discoverFiles cfg run.workspace).map MemoryFile.path).Nodup :=
    nodup_discoverFiles run.workspace
  rw [sync]
  generalize hfs : discoverFiles cfg run.workspace = files at hfiles hC hnodup ⊢
  rw [sequenced_append, world_execAll_append]
  -- first the files
  have hsafe : ∀ file ∈ files, Safe sha256Hex cfg Seen (indexFile sha256Hex cfg file) :=
    fun file hfile => safe_indexFile (hfiles file hfile)
  have hstart : ∀ file ∈ files, file.path ∈ w.interrupted →
      w.db.indexedHash file.path ≠ some (sha256Hex file.content) := by
    intro file hfile hint
    rcases hC file.path hint with ⟨file', hfile', hpath, hne⟩ | ⟨hnot, -⟩
    · rwa [List.inj_on_of_nodup_map hnodup hfile' hfile hpath] at hne
    · exact absurd (List.mem_map_of_mem hfile) hnot
  obtain ⟨hrows, hothers⟩ := finished_sequenced MemoryFile.path (fileRows sha256Hex cfg)
    (indexFile sha256Hex cfg) hnodup hsafe
    (J := fun w file => file.path ∈ w.interrupted →
      w.db.indexedHash file.path ≠ some (sha256Hex file.content))
    (fun w w' file hhash hint hJ hmem => hhash ▸ hJ (hint.mp hmem))
    (fun w file hfile hkept hJ => finished_indexFile hseen (hfiles file hfile) hkept hJ) h hstart
  have hmid : Kept sha256Hex cfg Seen
      (w.execAll (sequenced (files.map (indexFile sha256Hex cfg)) w.db)) := by
    refine kept_whole (fun part hpart => ?_) h
    obtain ⟨file, hfile, rfl⟩ := List.mem_map.mp hpart
    exact hsafe file hfile
  -- then the paths that are gone
  have hold : (w.db.oldPaths run.order files).Nodup :=
    ((run.perm _).nodup_iff.mpr w.db.files.nodup).filter _
  obtain ⟨hgone, hkeep⟩ := finished_sequenced (J := fun _ _ => True) id (fun _ => []) removeFile
    (by rwa [List.map_id]) (fun path _ => safe_removeFile path) (fun _ _ _ _ _ _ => trivial)
    (fun w path _ _ _ => ⟨(removed_removeFile w path).only, (removed_removeFile w path).others,
      (removed_removeFile w path).rows⟩) hmid fun _ _ => trivial
  rw [List.map_id] at hkeep
  by_cases hq : q ∈ files.map MemoryFile.path
  · obtain ⟨file, hfile, rfl⟩ := List.mem_map.mp hq
    have hnot : file.path ∉ w.db.oldPaths run.order files := fun hmem =>
      ((mem_oldPaths run.perm).mp hmem).2 hq
    refine (hkeep file.path hnot).1.trans ((hrows file hfile).trans ?_)
    rw [filter_path_eq hnodup hfile, List.flatMap_cons, List.flatMap_nil, List.append_nil]
  · have hnil : (files.filter fun file => file.path = q) = [] :=
      List.filter_eq_nil_iff.mpr fun file hfile hpath =>
        hq (List.mem_map.mpr ⟨file, hfile, of_decide_eq_true hpath⟩)
    rw [hnil, List.flatMap_nil]
    by_cases hindexed : w.db.indexedHash q = none
    · have hnot : q ∉ w.db.oldPaths run.order files := fun hmem =>
        ((mem_oldPaths run.perm).mp hmem).1 hindexed
      refine (hkeep q hnot).1.trans ((hothers q hq).1.trans ?_)
      refine (h.settled q fun hint => ?_).absent hindexed
      rcases hC q hint with ⟨file, hfile, hpath, -⟩ | ⟨-, hsome⟩
      · exact hq (List.mem_map.mpr ⟨file, hfile, hpath⟩)
      · exact hsome hindexed
    · exact hgone q ((mem_oldPaths run.perm).mpr ⟨hindexed, hq⟩)

/-! ## Runs -/

theorem kept_empty : Kept sha256Hex cfg Seen .empty where
  mirrored := rfl
  settled _ _ := ⟨fun _ => rfl, fun _ hsome => by cases hsome⟩

theorem Kept.step (h : Kept sha256Hex cfg Seen w) {run : SyncRun}
    (hfiles : ∀ file ∈ discoverFiles cfg run.workspace, Seen file)
    (hC : Careful sha256Hex cfg w run) : Kept sha256Hex cfg Seen (w.step sha256Hex cfg run) := by
  have hsafe : ∀ part ∈ (discoverFiles cfg run.workspace).map (indexFile sha256Hex cfg) ++
      (w.db.oldPaths run.order (discoverFiles cfg run.workspace)).map removeFile,
      Safe sha256Hex cfg Seen part := by
    intro part hpart
    rcases List.mem_append.mp hpart with hpart | hpart
    · obtain ⟨file, hfile, rfl⟩ := List.mem_map.mp hpart
      exact safe_indexFile (hfiles file hfile)
    · obtain ⟨path, -, rfl⟩ := List.mem_map.mp hpart
      exact safe_removeFile path
  rw [IndexWorld.step, SyncRun.executed]
  rw [Careful] at hC
  cases hcut : run.cut with
  | some k =>
      rw [hcut] at hC
      exact kept_sequenced hsafe h hC
  | none => exact kept_whole hsafe h

theorem Kept.indexed (h : Kept sha256Hex cfg Seen w) (hseen : Distinguished sha256Hex Seen)
    {run : SyncRun} (hfiles : ∀ file ∈ discoverFiles cfg run.workspace, Seen file)
    (hC : Careful sha256Hex cfg w run) : Indexed sha256Hex cfg w run := by
  intro hcut
  have hkept := h.step hfiles hC
  rw [IndexWorld.step, SyncRun.executed, hcut] at hkept ⊢
  rw [Careful, hcut] at hC
  exact h.consistent hseen hfiles hC hkept

end Parts

/-- In every run whose cuts leave no full-text row to delete, and whose syncs
write anew what is interrupted, the index is right after each sync that is not
cut off. -/
theorem index_consistent (sha256Hex : Text → Text) (cfg : MemoryIndexConfig) (runs : List SyncRun)
    (hhash : ∀ run ∈ runs, ∀ run' ∈ runs, ∀ file ∈ discoverFiles cfg run.workspace,
      ∀ file' ∈ discoverFiles cfg run'.workspace,
        sha256Hex file.content = sha256Hex file'.content → file.content = file'.content)
    (hC : Along (IndexWorld.step sha256Hex cfg) (Careful sha256Hex cfg) .empty runs) :
    Along (IndexWorld.step sha256Hex cfg) (Indexed sha256Hex cfg) .empty runs := by
  let Seen : MemoryFile → Prop := fun file => ∃ run ∈ runs, file ∈ discoverFiles cfg run.workspace
  have hseen : Distinguished sha256Hex Seen := by
    rintro file file' ⟨run, hrun, hfile⟩ ⟨run', hrun', hfile'⟩ hpath hsame
    have hcontent := hhash run hrun run' hrun' file hfile file' hfile' hsame
    have hsource : file.source = file'.source := by
      rw [source_eq hfile, source_eq hfile', hpath]
    cases file
    cases file'
    cases hpath
    cases hcontent
    cases hsource
    rfl
  have hfound : ∀ run ∈ runs, ∀ file ∈ discoverFiles cfg run.workspace, Seen file :=
    fun run hrun file hfile => ⟨run, hrun, hfile⟩
  exact along_of_step
    (fun w run (h : Kept sha256Hex cfg Seen w) hrun =>
      ⟨h.indexed hseen hrun.1 hrun.2, h.step hrun.1 hrun.2⟩) kept_empty
    ((along_of_forall hfound _).and hC)

/-! ## Cut off in between -/

/-- A workspace with a `MEMORY.md`. -/
def memoryOnly (content : Text) : Workspace := ⟨some content, Table.empty, Table.empty⟩

/-- Files of one chunk. -/
def smallConfig : MemoryIndexConfig := ⟨400, 80, false⟩

def syncOf (content : Text) (cut : Option ℕ) : SyncRun :=
  ⟨memoryOnly content, id, fun _ => .refl _, cut⟩

instance (db : MemoryIndex) (files : List MemoryFile) (path : Text) :
    Decidable (Rewritten id db files path) :=
  inferInstanceAs (Decidable ((∃ file ∈ files, _) ∨ _))

theorem index_consistent_edited :
    Along (IndexWorld.step id smallConfig) (Indexed id smallConfig) .empty
      [syncOf (js "first version") none, syncOf (js "second version") (some 3),
        syncOf (js "third version") none] := by
  refine index_consistent id smallConfig _ (fun _ _ _ _ _ _ _ _ h => h) ⟨?_, ?_, ?_, trivial⟩
  · intro path hpath
    cases hpath
  · have hnext : (MemoryIndex.sync id smallConfig id (memoryOnly (js "second version"))
        (IndexWorld.step id smallConfig .empty (syncOf (js "first version") none)).db)[3]? =
        some (.replaceFile ⟨js "MEMORY.md", .memory, js "second version"⟩) := by decide +kernel
    intro i hdelete
    cases hnext.symm.trans hdelete
  · show ∀ path ∈ _, Rewritten id _ _ path
    decide +kernel

/-- A sync that dies while the chunks of an edited file are removed, or before
its file row is written, and an edit that is taken back. -/
theorem index_inconsistent :
    ¬ Along (IndexWorld.step id smallConfig) (Indexed id smallConfig) .empty
        [syncOf (js "first version") none, syncOf (js "second version") (some 1),
          syncOf (js "second version") none] ∧
      ¬ Along (IndexWorld.step id smallConfig) (Indexed id smallConfig) .empty
        [syncOf (js "first version") none, syncOf (js "second version") (some 3),
          syncOf (js "first version") none] := by
  constructor
  · rintro ⟨-, -, h, -⟩
    have hfts := (h rfl).fts
    rw [Mirrored] at hfts
    revert hfts
    decide +kernel
  · rintro ⟨-, -, h, -⟩
    have hchunks := (h rfl).chunks (js "MEMORY.md")
    revert hchunks
    decide +kernel

end Shizuha.Memory
