import Mathlib.Data.List.Sort
import Mathlib.Logic.Function.Basic
import Shizuha.Js.Json
import Shizuha.Machine
import Shizuha.Postings
import Shizuha.Pulse.LocalStore

/-!
# Searching the tasks

The search reads a full-text index that has no texts of its own. Who writes a
task puts its words in and takes them out again, and the words that are taken out
are those of the row as it is then: the database reads them from the table. A
row's number is one more than the largest there is, so the number of the last
row is given again when it is deleted.

What makes words of a text, how a query is read and how its answers are ranked
are the database's. A query that it does not read throws, and the titles and the
descriptions are looked through instead.
-/

namespace Shizuha.Pulse

open Js
open LocalPulseStore (TaskOpts TaskUpdates AlertOpts ActionOpts getTask)

structure SearchStore where
  store : LocalPulseStore
  rowid : Text → ℕ
  tasksFts : Postings ℕ Text

/-- What the store takes from the full-text search of the database. -/
structure FullText where
  tokens : Text → List Text
  /-- The word that a query of one word is read as. -/
  wordOf : Text → Option Text
  /-- Whether a text has a query in it: `LIKE '%query%'`. -/
  like : Text → Text → Bool
  rank : Text → LocalTask → ℚ

namespace SearchStore

variable (env : PulseEnv) (fts : FullText) (s : SearchStore)

/-- The three columns that are indexed, the labels as JSON. -/
def indexed (task : LocalTask) : List Text :=
  fts.tokens task.title ++ fts.tokens task.description ++
    fts.tokens (Json.arr (task.labels.map Json.str)).print

def nextRowid : ℕ := (s.store.tasks.rows.map fun t => s.rowid t.id).foldr max 0 + 1

/-- `INSERT INTO tasks_fts … SELECT … FROM tasks WHERE id = ?`. -/
def indexInsert (id : Text) : SearchStore :=
  match s.store.tasks.get id with
  | none => s
  | some task => { s with tasksFts := s.tasksFts.add (s.rowid id) (indexed fts task) }

/-- `DELETE FROM tasks_fts WHERE rowid = (SELECT rowid FROM tasks WHERE id = ?)`. -/
def indexDelete (id : Text) : SearchStore :=
  match s.store.tasks.get id with
  | none => s
  | some task => { s with tasksFts := s.tasksFts.remove (s.rowid id) (indexed fts task) }

/-- The store after a row may have come in under an id. -/
def withRow (store : LocalPulseStore) (id : Text) : SearchStore :=
  if (s.store.tasks.get id).isNone ∧ (store.tasks.get id).isSome then
    { s with store, rowid := Function.update s.rowid id s.nextRowid }
  else { s with store }

/-! ## The calls -/

def createTask (id : Text) (opts : TaskOpts) (clock : ℕ → ℤ) : SearchStore :=
  match LocalPulseStore.createTask env s.store id opts clock with
  | (store, .ok _) => (s.withRow store id).indexInsert fts id
  | (store, .error _) => { s with store }

def fireAlert (id : Text) (opts : AlertOpts) (clock : ℕ → ℤ) : SearchStore :=
  s.withRow (LocalPulseStore.fireAlert env s.store id opts clock).1 id

def createAction (id : Text) (opts : ActionOpts) (now : ℤ) : SearchStore :=
  s.withRow (LocalPulseStore.createAction env s.store id opts now).1 id

def updateTask (idOrKey : Text) (updates : TaskUpdates) (clock : ℕ → ℤ) : SearchStore :=
  match getTask env s.store idOrKey with
  | none => s
  | some task =>
      match LocalPulseStore.updateTask env s.store idOrKey updates clock with
      | (store, .ok _) =>
          (({ s with store } : SearchStore).indexDelete fts task.id).indexInsert fts task.id
      | (store, .error _) => { s with store }

/-- The row is deleted first, and there is no row to take the words of. -/
def deleteTask (idOrKey : Text) : SearchStore :=
  match getTask env s.store idOrKey with
  | none => s
  | some task =>
      ({ s with store := (LocalPulseStore.deleteTask env s.store idOrKey).1 } :
        SearchStore).indexDelete fts task.id

def searchTasks (query : Text) (limit : ℕ) : List LocalTask :=
  match fts.wordOf query with
  | some word =>
      ((s.store.tasks.rows.filter fun t => (s.rowid t.id, word) ∈ s.tasksFts).insertionSort
        fun a b => fts.rank query a ≤ fts.rank query b).take limit
  | none =>
      ((s.store.tasks.rows.filter fun t => fts.like query t.title || fts.like query
        t.description).insertionSort fun a b => b.updatedAt ≤ a.updatedAt).take limit

end SearchStore

inductive SearchOp where
  | createTask (id : Text) (opts : TaskOpts) (clock : ℕ → ℤ)
  | fireAlert (id : Text) (opts : AlertOpts) (clock : ℕ → ℤ)
  | createAction (id : Text) (opts : ActionOpts) (now : ℤ)
  | updateTask (idOrKey : Text) (updates : TaskUpdates) (clock : ℕ → ℤ)
  | deleteTask (idOrKey : Text)

def SearchStore.step (env : PulseEnv) (fts : FullText) (s : SearchStore) :
    SearchOp → SearchStore
  | .createTask id opts clock => s.createTask env fts id opts clock
  | .fireAlert id opts clock => s.fireAlert env id opts clock
  | .createAction id opts now => s.createAction env id opts now
  | .updateTask idOrKey updates clock => s.updateTask env fts idOrKey updates clock
  | .deleteTask idOrKey => s.deleteTask env fts idOrKey

/-- A store opened for the first time has no tasks and an empty index. -/
def SearchStore.opened (env : PulseEnv) (id : Text) (now : ℤ) : SearchStore :=
  ⟨LocalPulseStore.opened env id now, fun _ => 0, []⟩

end Shizuha.Pulse
