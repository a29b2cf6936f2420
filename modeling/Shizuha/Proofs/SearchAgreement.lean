import Shizuha.Pulse.TaskSearch

/-!
# What a search finds

A search for a word finds the tasks that have it exactly when the index agrees
with the rows, and each call says what it needs for that. A task may come in when
its row's number has no words left that are not its own; an alert or an action,
which is not indexed, when its number has its words already; an update may add
words and take none; a task may always go.
-/

namespace Shizuha.Pulse

open Js Machine Postings
open LocalPulseStore (TaskOpts TaskUpdates AlertOpts ActionOpts getTask newTask newAlert newAction
  resolveProject insertTask alertFingerprint existingAlert)

variable {env : PulseEnv} {fts : FullText} {s : SearchStore}

/-! ## Searches and the index -/

/-- A word that a query can be read as. -/
def Askable (fts : FullText) (word : Text) : Prop := ∃ query, fts.wordOf query = some word

/-- A search for one word, with room for every task, finds the tasks that have the
word in their title, their description or their labels. -/
def SearchAgrees (fts : FullText) (s : SearchStore) : Prop :=
  ∀ query word, fts.wordOf query = some word → ∀ limit, s.store.tasks.rows.length ≤ limit →
    ∀ task, task ∈ s.searchTasks fts query limit ↔
      task ∈ s.store.tasks.rows ∧ word ∈ SearchStore.indexed fts task

def InStep (fts : FullText) (s : SearchStore) : Prop :=
  Agrees (Askable fts) (fun task => s.rowid task.id) (SearchStore.indexed fts)
    s.store.tasks.rows s.tasksFts

theorem mem_searchTasks {query word : Text} (hquery : fts.wordOf query = some word) {limit : ℕ}
    (hlimit : s.store.tasks.rows.length ≤ limit) (task : LocalTask) :
    task ∈ s.searchTasks fts query limit ↔
      task ∈ s.store.tasks.rows ∧ (s.rowid task.id, word) ∈ s.tasksFts := by
  rw [SearchStore.searchTasks, hquery]
  dsimp only
  rw [List.take_of_length_le, (List.perm_insertionSort _ _).mem_iff, List.mem_filter,
    decide_eq_true_eq]
  rw [(List.perm_insertionSort _ _).length_eq]
  exact (List.length_filter_le _ _).trans hlimit

theorem searchAgrees_iff : SearchAgrees fts s ↔ InStep fts s := by
  constructor
  · intro h task htask word hword
    obtain ⟨query, hquery⟩ := hword
    have hfound := h query word hquery _ le_rfl task
    rw [mem_searchTasks hquery le_rfl] at hfound
    simpa [htask] using hfound
  · intro h query word hquery limit hlimit task
    rw [mem_searchTasks hquery hlimit]
    exact and_congr_right fun htask => h task htask word ⟨query, hquery⟩

/-! ## Row numbers -/

/-- No two rows have one number. -/
def DistinctRows (s : SearchStore) : Prop :=
  ∀ task ∈ s.store.tasks.rows, ∀ other ∈ s.store.tasks.rows,
    s.rowid task.id = s.rowid other.id → task.id = other.id

theorem le_foldr_max {l : List ℕ} {n : ℕ} (h : n ∈ l) : n ≤ l.foldr max 0 := by
  induction l with
  | nil => exact absurd h (by simp)
  | cons m l ih =>
      rw [List.foldr_cons]
      rcases List.mem_cons.mp h with rfl | h
      · exact le_max_left _ _
      · exact (ih h).trans (le_max_right _ _)

theorem rowid_lt_next {task : LocalTask} (h : task ∈ s.store.tasks.rows) :
    s.rowid task.id < s.nextRowid :=
  Nat.lt_succ_of_le (le_foldr_max (List.mem_map_of_mem h))

/-! ## A row comes in -/

/-- The store with one more row, and a number for it. -/
def SearchStore.gained (s : SearchStore) (row : LocalTask)
    (tasks : Table Text LocalTask LocalTask.id) : SearchStore :=
  { s with
    store := { s.store with tasks }
    rowid := Function.update s.rowid row.id s.nextRowid }

theorem withRow_gained {row : LocalTask} {tasks : Table Text LocalTask LocalTask.id}
    (h : s.store.tasks.insert row = some tasks) :
    s.withRow { s.store with tasks } row.id = s.gained row tasks := by
  rw [SearchStore.withRow, if_pos]
  · rfl
  · refine ⟨by rw [(Table.insert_eq_some h).1]; rfl, ?_⟩
    rw [Table.get_insert h, if_pos rfl]
    rfl

theorem withRow_same (id : Text) : s.withRow s.store id = s := by
  rw [SearchStore.withRow, if_neg]
  rintro ⟨hnone, hsome⟩
  rw [Option.isNone_iff_eq_none] at hnone
  rw [hnone] at hsome
  exact absurd hsome (by simp)

section Gained

variable {row : LocalTask} {tasks : Table Text LocalTask LocalTask.id}
  (h : s.store.tasks.insert row = some tasks)

include h

theorem rowid_gained {task : LocalTask} (htask : task ∈ s.store.tasks.rows) :
    (s.gained row tasks).rowid task.id = s.rowid task.id := by
  refine Function.update_of_ne (fun heq => ?_) _ _
  have hget := Table.get_eq_none_iff.mp (Table.insert_eq_some h).1
  exact hget task htask heq

theorem distinct_gained (hd : DistinctRows s) : DistinctRows (s.gained row tasks) := by
  have hrows : (s.gained row tasks).store.tasks.rows = s.store.tasks.rows ++ [row] :=
    (Table.insert_eq_some h).2
  have hnew : (s.gained row tasks).rowid row.id = s.nextRowid := Function.update_self ..
  intro task htask other hother heq
  rw [hrows, List.mem_append, List.mem_singleton] at htask hother
  rcases htask with htask | rfl <;> rcases hother with hother | rfl
  · rw [rowid_gained h htask, rowid_gained h hother] at heq
    exact hd task htask other hother heq
  · rw [rowid_gained h htask, hnew] at heq
    exact absurd heq (rowid_lt_next htask).ne
  · rw [rowid_gained h hother, hnew] at heq
    exact absurd heq.symm (rowid_lt_next hother).ne
  · rfl

theorem agrees_rows_gained (hs : InStep fts s) :
    Agrees (Askable fts) (fun task => (s.gained row tasks).rowid task.id)
      (SearchStore.indexed fts) s.store.tasks.rows s.tasksFts :=
  hs.congr_key fun _ htask => rowid_gained h htask

/-- A row that is not indexed. -/
theorem inStep_gained_iff (hs : InStep fts s) :
    InStep fts (s.gained row tasks) ↔
      ∀ word, Askable fts word →
        ((s.nextRowid, word) ∈ s.tasksFts ↔ word ∈ SearchStore.indexed fts row) := by
  have hnew : (s.gained row tasks).rowid row.id = s.nextRowid := Function.update_self ..
  have hrows : (s.gained row tasks).store.tasks.rows = s.store.tasks.rows ++ [row] :=
    (Table.insert_eq_some h).2
  have hindex : (s.gained row tasks).tasksFts = s.tasksFts := rfl
  rw [InStep, hrows, hindex, agrees_skip_iff (agrees_rows_gained h hs), hnew]

/-- A row that is. -/
theorem inStep_gained_indexed_iff (hs : InStep fts s) :
    InStep fts ((s.gained row tasks).indexInsert fts row.id) ↔
      ∀ word, Askable fts word → (s.nextRowid, word) ∈ s.tasksFts →
        word ∈ SearchStore.indexed fts row := by
  have hnew : (s.gained row tasks).rowid row.id = s.nextRowid := Function.update_self ..
  have hrows : (s.gained row tasks).store.tasks.rows = s.store.tasks.rows ++ [row] :=
    (Table.insert_eq_some h).2
  have hget : (s.gained row tasks).store.tasks.get row.id = some row := by
    rw [show (s.gained row tasks).store.tasks = tasks from rfl, Table.get_insert h, if_pos rfl]
  rw [SearchStore.indexInsert, hget]
  show Agrees _ (fun task => (s.gained row tasks).rowid task.id) _
    (s.gained row tasks).store.tasks.rows (s.tasksFts.add _ _) ↔ _
  rw [hrows, agrees_add_iff ?_ (agrees_rows_gained h hs), hnew]
  intro task htask
  rw [rowid_gained h htask, hnew]
  exact (rowid_lt_next htask).ne

end Gained

/-- What a call that inserts a row does, when it does. -/
theorem insertTask_cases (env : PulseEnv) (store : LocalPulseStore) (row : LocalTask) :
    (store.tasks.get row.id ≠ none ∧ insertTask env store row = (store, .error .constraint)) ∨
      ∃ tasks result, store.tasks.insert row = some tasks ∧ store.tasks.get row.id = none ∧
        insertTask env store row = ({ store with tasks }, .ok result) := by
  rw [insertTask]
  cases hinsert : store.tasks.insert row with
  | none =>
      obtain ⟨r, hr, hkey⟩ := Table.insert_eq_none hinsert
      refine .inl ⟨?_, rfl⟩
      rw [Table.get_eq_some_iff.mpr ⟨hr, hkey⟩]
      simp
  | some tasks => exact .inr ⟨tasks, _, rfl, (Table.insert_eq_some hinsert).1, rfl⟩

/-! ## A row is changed -/

section Changed

variable {task : LocalTask} {f : LocalTask → LocalTask} (hf : ∀ t, (f t).id = t.id)

/-- The store with a row changed. -/
def SearchStore.changed (s : SearchStore) (id : Text) (f : LocalTask → LocalTask)
    (hf : ∀ t, (f t).id = t.id) : SearchStore :=
  { s with store := s.store.setTask id f hf }

theorem id_changed {other : LocalTask} (h : other ∈ (s.changed task.id f hf).store.tasks.rows) :
    ∃ t ∈ s.store.tasks.rows, t.id = other.id := by
  obtain ⟨t, ht, hid, -⟩ := LocalPulseStore.mem_setTask h
  exact ⟨t, ht, hid⟩

theorem distinct_changed (hd : DistinctRows s) : DistinctRows (s.changed task.id f hf) := by
  intro a ha b hb heq
  obtain ⟨a', ha', hida⟩ := id_changed hf ha
  obtain ⟨b', hb', hidb⟩ := id_changed hf hb
  rw [← hida, ← hidb] at heq ⊢
  exact hd a' ha' b' hb' heq

theorem mem_changed (htask : task ∈ s.store.tasks.rows) (hd : DistinctRows s) (t : LocalTask) :
    t ∈ (s.changed task.id f hf).store.tasks.rows ↔
      t = f task ∨ t ∈ s.store.tasks.rows ∧ s.rowid t.id ≠ s.rowid task.id := by
  constructor
  · intro h
    obtain ⟨old, hold, -, rfl⟩ := LocalPulseStore.mem_setTask h
    split_ifs with hid
    · left
      have hget := LocalPulseStore.get_of_mem hold
      rw [hid, LocalPulseStore.get_of_mem htask, Option.some_inj] at hget
      rw [hget]
    · exact .inr ⟨hold, fun heq => hid (hd old hold task htask heq)⟩
  · rintro (rfl | ⟨ht, hne⟩)
    · exact List.mem_map.mpr ⟨task, htask, by simp⟩
    · refine List.mem_map.mpr ⟨t, ht, ?_⟩
      rw [if_neg]
      simp only [decide_eq_true_eq]
      intro hid
      exact hne (by rw [hid])

theorem inStep_changed_same (hs : InStep fts s)
    (hsame : ∀ t, SearchStore.indexed fts (f t) = SearchStore.indexed fts t) :
    InStep fts (s.changed task.id f hf) := by
  intro t ht word hword
  obtain ⟨old, hold, hid, rfl⟩ := LocalPulseStore.mem_setTask ht
  have hindexed : SearchStore.indexed fts (if old.id = task.id then f old else old) =
      SearchStore.indexed fts old := by
    split_ifs
    · exact hsame old
    · rfl
  rw [hindexed, ← hs old hold word hword]
  dsimp only
  rw [← hid]
  rfl

/-- The words of the row are taken out and put in when it has been changed. -/
theorem inStep_refreshed_iff (htask : task ∈ s.store.tasks.rows) (hd : DistinctRows s)
    (hs : InStep fts s) :
    InStep fts (((s.changed task.id f hf).indexDelete fts task.id).indexInsert fts task.id) ↔
      ∀ word, Askable fts word → word ∈ SearchStore.indexed fts task →
        word ∈ SearchStore.indexed fts (f task) := by
  have hget : (s.changed task.id f hf).store.tasks.get task.id = some (f task) := by
    rw [SearchStore.changed, LocalPulseStore.get_setTask, LocalPulseStore.get_of_mem htask]
    simp
  have hdelete : (s.changed task.id f hf).indexDelete fts task.id =
      { s.changed task.id f hf with
        tasksFts := s.tasksFts.remove (s.rowid task.id) (SearchStore.indexed fts (f task)) } := by
    rw [SearchStore.indexDelete, hget]
    rfl
  have hinsert : ((s.changed task.id f hf).indexDelete fts task.id).indexInsert fts task.id =
      { s.changed task.id f hf with
        tasksFts := (s.tasksFts.remove (s.rowid task.id) (SearchStore.indexed fts (f task))).add
          (s.rowid task.id) (SearchStore.indexed fts (f task)) } := by
    rw [hdelete, SearchStore.indexInsert]
    dsimp only
    rw [hget]
    rfl
  rw [hinsert]
  exact agrees_refresh_iff htask (by rw [hf]) (mem_changed hf htask hd) hs

end Changed

/-! ## A step -/

variable (env fts) in
/-- What a call needs for the searches after it to find what they should. -/
def KeepsSearch (s : SearchStore) : SearchOp → Prop
  | .createTask id opts clock =>
      s.store.tasks.get id = none → ∀ word, Askable fts word →
        (s.nextRowid, word) ∈ s.tasksFts →
          word ∈ SearchStore.indexed fts
            (newTask s.store id opts clock (resolveProject env s.store opts.project))
  | .fireAlert id opts clock =>
      (truthy (alertFingerprint env opts)).bind (existingAlert s.store) = none →
        s.store.tasks.get id = none → ∀ word, Askable fts word →
          ((s.nextRowid, word) ∈ s.tasksFts ↔ word ∈ SearchStore.indexed fts
            (newAlert env s.store id opts (clock 1) (resolveProject env s.store opts.project)))
  | .createAction id opts now =>
      s.store.tasks.get id = none → ∀ word, Askable fts word →
        ((s.nextRowid, word) ∈ s.tasksFts ↔ word ∈ SearchStore.indexed fts
          (newAction s.store id opts now (resolveProject env s.store opts.project)))
  | .updateTask idOrKey updates clock =>
      ∀ task ∈ getTask env s.store idOrKey, ∀ recurrence,
        updates.recurrence task (clock 0) = .ok recurrence → ∀ word, Askable fts word →
          word ∈ SearchStore.indexed fts task →
            word ∈ SearchStore.indexed fts (updates.set clock recurrence task)
  | .deleteTask _ => True

theorem indexInsert_rows (id : Text) : (s.indexInsert fts id).store = s.store ∧
    (s.indexInsert fts id).rowid = s.rowid := by
  rw [SearchStore.indexInsert]
  cases s.store.tasks.get id with
  | none => exact ⟨rfl, rfl⟩
  | some task => exact ⟨rfl, rfl⟩

theorem indexDelete_rows (id : Text) : (s.indexDelete fts id).store = s.store ∧
    (s.indexDelete fts id).rowid = s.rowid := by
  rw [SearchStore.indexDelete]
  cases s.store.tasks.get id with
  | none => exact ⟨rfl, rfl⟩
  | some task => exact ⟨rfl, rfl⟩

theorem DistinctRows.of_rows {s' : SearchStore} (h : DistinctRows s) (hstore : s'.store = s.store)
    (hrowid : s'.rowid = s.rowid) : DistinctRows s' := by
  rw [DistinctRows, hstore, hrowid]
  exact h

/-- The index after a step, and that the rows keep their numbers apart. -/
theorem step_createTask (id : Text) (opts : TaskOpts) (clock : ℕ → ℤ) (hd : DistinctRows s)
    (hs : InStep fts s) :
    DistinctRows (s.createTask env fts id opts clock) ∧
      (InStep fts (s.createTask env fts id opts clock) ↔
        KeepsSearch env fts s (.createTask id opts clock)) := by
  rw [SearchStore.createTask, KeepsSearch, LocalPulseStore.createTask]
  generalize hrow : newTask s.store id opts clock (resolveProject env s.store opts.project) = row
  have hid : row.id = id := by rw [← hrow]; rfl
  rw [← hid]
  rcases insertTask_cases env s.store row with ⟨htaken, hinsert⟩ | ⟨tasks, result, h, hnone, hinsert⟩
  · rw [hinsert]
    exact ⟨hd, iff_of_true hs fun hnone => absurd hnone htaken⟩
  · rw [hinsert]
    dsimp only
    rw [withRow_gained h]
    refine ⟨(distinct_gained h hd).of_rows (indexInsert_rows _).1 (indexInsert_rows _).2, ?_⟩
    rw [inStep_gained_indexed_iff h hs, forall_prop_of_true hnone]

/-- A row that comes in unindexed. -/
theorem step_inserted (row : LocalTask) (hd : DistinctRows s) (hs : InStep fts s) :
    DistinctRows (s.withRow (insertTask env s.store row).1 row.id) ∧
      (InStep fts (s.withRow (insertTask env s.store row).1 row.id) ↔
        (s.store.tasks.get row.id = none → ∀ word, Askable fts word →
          ((s.nextRowid, word) ∈ s.tasksFts ↔ word ∈ SearchStore.indexed fts row))) := by
  rcases insertTask_cases env s.store row with ⟨htaken, hinsert⟩ | ⟨tasks, result, h, hnone, hinsert⟩
  · rw [hinsert, withRow_same]
    exact ⟨hd, iff_of_true hs fun hnone => absurd hnone htaken⟩
  · rw [hinsert, withRow_gained h]
    exact ⟨distinct_gained h hd, by rw [inStep_gained_iff h hs, forall_prop_of_true hnone]⟩

theorem withRow_changed (id x : Text) (f : LocalTask → LocalTask) (hf : ∀ t, (f t).id = t.id) :
    s.withRow (s.store.setTask x f hf) id = s.changed x f hf := by
  rw [SearchStore.withRow, if_neg]
  · rfl
  · rw [LocalPulseStore.get_setTask]
    rintro ⟨hnone, hsome⟩
    rw [Option.isNone_iff_eq_none] at hnone
    rw [hnone] at hsome
    exact absurd hsome (by simp)

theorem step_fireAlert (id : Text) (opts : AlertOpts) (clock : ℕ → ℤ) (hd : DistinctRows s)
    (hs : InStep fts s) :
    DistinctRows (s.fireAlert env id opts clock) ∧
      (InStep fts (s.fireAlert env id opts clock) ↔
        KeepsSearch env fts s (.fireAlert id opts clock)) := by
  rw [SearchStore.fireAlert, KeepsSearch, LocalPulseStore.fireAlert]
  cases hexisting : (truthy (alertFingerprint env opts)).bind (existingAlert s.store) with
  | some existing =>
      rw [withRow_changed]
      exact ⟨distinct_changed _ hd,
        iff_of_true (inStep_changed_same _ hs fun t => rfl) fun h => absurd h (by simp)⟩
  | none =>
      rw [forall_prop_of_true rfl]
      exact step_inserted (newAlert env s.store id opts (clock 1)
        (resolveProject env s.store opts.project)) hd hs

theorem step_createAction (id : Text) (opts : ActionOpts) (now : ℤ) (hd : DistinctRows s)
    (hs : InStep fts s) :
    DistinctRows (s.createAction env id opts now) ∧
      (InStep fts (s.createAction env id opts now) ↔
        KeepsSearch env fts s (.createAction id opts now)) :=
  step_inserted (newAction s.store id opts now (resolveProject env s.store opts.project)) hd hs

theorem step_updateTask (idOrKey : Text) (updates : TaskUpdates) (clock : ℕ → ℤ)
    (hd : DistinctRows s) (hs : InStep fts s) :
    DistinctRows (s.updateTask env fts idOrKey updates clock) ∧
      (InStep fts (s.updateTask env fts idOrKey updates clock) ↔
        KeepsSearch env fts s (.updateTask idOrKey updates clock)) := by
  rw [SearchStore.updateTask, KeepsSearch, LocalPulseStore.updateTask]
  cases htask : getTask env s.store idOrKey with
  | none => exact ⟨hd, iff_of_true hs (by simp)⟩
  | some task =>
      dsimp only
      cases hrecurrence : updates.recurrence task (clock 0) with
      | error e =>
          refine ⟨hd, iff_of_true hs ?_⟩
          intro t ht recurrence hok
          cases ht
          rw [hrecurrence] at hok
          exact absurd hok (by simp)
      | ok recurrence =>
          refine ⟨((distinct_changed _ hd).of_rows (indexDelete_rows _).1
            (indexDelete_rows _).2).of_rows (indexInsert_rows _).1 (indexInsert_rows _).2, ?_⟩
          refine (inStep_refreshed_iff (f := updates.set clock recurrence) (fun _ => rfl)
            (LocalPulseStore.mem_of_getTask htask) hd hs).trans ?_
          constructor
          · intro hkept t ht r hr
            cases ht
            rw [hrecurrence] at hr
            cases hr
            exact hkept
          · intro hkept
            exact hkept task rfl recurrence hrecurrence

theorem step_deleteTask (idOrKey : Text) (hd : DistinctRows s) (hs : InStep fts s) :
    DistinctRows (s.deleteTask env fts idOrKey) ∧ InStep fts (s.deleteTask env fts idOrKey) := by
  rw [SearchStore.deleteTask, LocalPulseStore.deleteTask]
  cases htask : getTask env s.store idOrKey with
  | none => exact ⟨hd, hs⟩
  | some task =>
      dsimp only
      have hnone : (s.store.tasks.delete fun t => t.id = task.id).get task.id = none :=
        Table.get_delete_self (by simp)
      rw [SearchStore.indexDelete]
      dsimp only
      rw [hnone]
      have hsub : ∀ t ∈ (s.store.tasks.delete fun t => t.id = task.id).rows,
          t ∈ s.store.tasks.rows := fun t ht => List.mem_of_mem_filter ht
      exact ⟨fun a ha b hb => hd a (hsub a ha) b (hsub b hb), hs.of_subset hsub⟩

theorem search_step (op : SearchOp) (hd : DistinctRows s) (hs : InStep fts s) :
    DistinctRows (s.step env fts op) ∧
      (InStep fts (s.step env fts op) ↔ KeepsSearch env fts s op) := by
  cases op with
  | createTask id opts clock => exact step_createTask id opts clock hd hs
  | fireAlert id opts clock => exact step_fireAlert id opts clock hd hs
  | createAction id opts now => exact step_createAction id opts now hd hs
  | updateTask idOrKey updates clock => exact step_updateTask idOrKey updates clock hd hs
  | deleteTask idOrKey =>
      exact ⟨(step_deleteTask idOrKey hd hs).1, iff_of_true (step_deleteTask idOrKey hd hs).2 trivial⟩

/-- Searches agree with the tasks throughout a run exactly when each of its calls
keeps them so. -/
theorem search_agrees_iff (env : PulseEnv) (fts : FullText) (id : Text) (now : ℤ)
    (ops : List SearchOp) :
    Throughout (SearchStore.step env fts) (SearchAgrees fts) (SearchStore.opened env id now) ops ↔
      Along (SearchStore.step env fts) (KeepsSearch env fts) (SearchStore.opened env id now)
        ops := by
  have hrows : (SearchStore.opened env id now).store.tasks.rows = [] := rfl
  have hin : InStep fts (SearchStore.opened env id now) := by
    intro t ht
    rw [hrows] at ht
    exact absurd ht (by simp)
  have hdistinct : DistinctRows (SearchStore.opened env id now) := by
    intro t ht
    rw [hrows] at ht
    exact absurd ht (by simp)
  have hstep : ∀ s op, DistinctRows s ∧ InStep fts s → True →
      (SearchAgrees fts (SearchStore.step env fts s op) ↔ KeepsSearch env fts s op) := by
    intro s op hs _
    rw [searchAgrees_iff]
    exact (search_step op hs.1 hs.2).2
  have hkeep : ∀ s op, DistinctRows s ∧ InStep fts s → True → KeepsSearch env fts s op →
      DistinctRows (SearchStore.step env fts s op) ∧ InStep fts (SearchStore.step env fts s op) := by
    intro s op hs _ hkeeps
    exact ⟨(search_step op hs.1 hs.2).1, (search_step op hs.1 hs.2).2.mpr hkeeps⟩
  exact throughout_iff_along_keep hstep hkeep ⟨hdistinct, hin⟩ (searchAgrees_iff.mpr hin)
    (along_true (fun _ _ => trivial) _ _)

/-! ## A word that is gone -/

def plainEnv : PulseEnv := ⟨id, id, fun _ => none⟩

/-- Words between spaces, and every query a word. -/
def plainSearch : FullText where
  tokens t := (t.splitOnP isSpace).filter (· ≠ [])
  wordOf := some
  like query text := includes text query
  rank _ _ := 0

def createAlpha : SearchOp :=
  .createTask (js "t1") ⟨js "alpha", none, none, none, none, none, none, none, none, none, none,
    none, none⟩ fun _ => 0

def renameBeta : SearchOp :=
  .updateTask (js "t1") { TaskUpdates.none with title := some (js "beta") } fun _ => 0

/-- A task is still found under the word of its old title. -/
theorem old_title_found :
    ¬ Throughout (SearchStore.step plainEnv plainSearch) (SearchAgrees plainSearch)
      (SearchStore.opened plainEnv (js "p1") 0) [createAlpha, renameBeta] := by
  intro h
  have hopened : InStep plainSearch (SearchStore.opened plainEnv (js "p1") 0) :=
    searchAgrees_iff.mp h.1
  have hdistinct : DistinctRows (SearchStore.opened plainEnv (js "p1") 0) :=
    fun t ht => absurd ht (List.not_mem_nil)
  have hcreated : DistinctRows ((SearchStore.opened plainEnv (js "p1") 0).step plainEnv plainSearch
      createAlpha) := (search_step createAlpha hdistinct hopened).1
  have hkeeps := (search_step renameBeta hcreated (searchAgrees_iff.mp h.2.1)).2.mp
    (searchAgrees_iff.mp h.2.2)
  have hold := hkeeps _ rfl _ rfl (js "alpha") ⟨_, rfl⟩ (by decide)
  revert hold
  decide

end Shizuha.Pulse
