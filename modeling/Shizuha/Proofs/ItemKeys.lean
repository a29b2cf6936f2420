import Shizuha.Machine
import Shizuha.Pulse.LocalStore

/-!
# The keys of items

A key is the key of a project, a hyphen and a number, and the number of a new
item is one more than the largest among the items of the project that are
there. So the numbers a project has given out are the first ones, and the next
one is new exactly when the item that got the last one is still stored.

A key is looked up in three columns at once and the first row with a match is
the answer, so a task is found under its key when no row before it has that key
in one of the three. `Keys` is what a row has in these columns, `Good` how the
rows, the keys given out and the numbers fit together, and the runs in which
keys stay unique and are found are those that create in no project whose last
item is gone, and in which no key of the platform is that of another task.
-/

namespace Shizuha.Pulse

open Js Machine LocalPulseStore

/-! ## Numbers in keys -/

theorem isDigit_hyphen : isDigit 45 = false := by decide

theorem dropChars_length (p rest : Text) : dropChars (length p + 1) (p ++ 45 :: rest) = rest := by
  have hone (t : Text) : dropChars 1 (45 :: t) = t := by
    cases t with
    | nil => rfl
    | cons v t => simp [dropChars, show isHighSurrogate 45 = false by decide]
  induction p using length.induct with
  | case1 => exact hone rest
  | case2 u =>
      show dropChars 2 (u :: 45 :: rest) = rest
      rw [dropChars, show isLowSurrogate 45 = false by decide, Bool.and_false]
      exact hone rest
  | case3 u v t hpair ih =>
      rw [length, if_pos hpair, Nat.add_comm 1, List.cons_append, List.cons_append, dropChars,
        if_pos hpair]
      exact ih
  | case4 u v t hpair ih =>
      rw [length, if_neg hpair, Nat.add_comm 1, List.cons_append, List.cons_append, dropChars,
        if_neg hpair]
      exact ih

theorem parseIntPrefix_decimal (n : ℕ) : Cron.parseIntPrefix (decimal n) = some (n : ℤ) := by
  rw [Cron.parseIntPrefix_digits (decimal_ne_nil n) fun u hu => isDigit_of_mem_decimal hu,
    digitsVal_decimal]

/-- The key of the `n`th item of a project. -/
def itemKeyOf (projectKey : Text) (n : ℕ) : Text := projectKey ++ 45 :: decimal n

theorem keyOf_natCast (p : Text) (n : ℕ) : keyOf p (some (n : ℤ)) = itemKeyOf p n := by
  rw [keyOf, seqText, if_neg (by omega), Int.toNat_natCast, itemKeyOf]

theorem lastPart_itemKeyOf (p : Text) (n : ℕ) : lastPart (itemKeyOf p n) = decimal n := by
  have hdigits : ∀ u ∈ (decimal n).reverse, decide (u ≠ 45) = true := by
    intro u hu
    have hd := isDigit_of_mem_decimal (List.mem_reverse.mp hu)
    refine decide_eq_true fun heq => ?_
    rw [heq, isDigit_hyphen] at hd
    cases hd
  rw [lastPart, itemKeyOf, List.reverse_append, List.reverse_cons, List.append_assoc,
    List.takeWhile_append_of_pos hdigits]
  simp

theorem itemKeyOf_inj {p q : Text} {n m : ℕ} (h : itemKeyOf p n = itemKeyOf q m) :
    p = q ∧ n = m := by
  have hlast := congrArg lastPart h
  rw [lastPart_itemKeyOf, lastPart_itemKeyOf] at hlast
  have hn : n = m := by rw [← digitsVal_decimal n, hlast, digitsVal_decimal]
  subst hn
  exact ⟨List.append_cancel_right h, rfl⟩

theorem itemNumber_itemKeyOf (p : Text) (n : ℕ) : itemNumber p (itemKeyOf p n) = n := by
  rw [itemNumber, itemKeyOf, dropChars_length, castInteger, parseIntPrefix_decimal, Option.getD_some]

theorem topItem_eq_none_iff {number : LocalTask → ℤ} {l : List LocalTask} :
    topItem number l = none ↔ l = [] := by
  cases l with
  | nil => simp [topItem]
  | cons t rest =>
      simp only [topItem, reduceCtorEq, iff_false]
      split
      · simp
      · split_ifs <;> simp

theorem topItem_spec {number : LocalTask → ℤ} {l : List LocalTask} {t : LocalTask}
    (h : topItem number l = some t) : t ∈ l ∧ ∀ u ∈ l, number u ≤ number t := by
  induction l generalizing t with
  | nil => simp [topItem] at h
  | cons a rest ih =>
      rw [topItem] at h
      cases hrest : topItem number rest with
      | none =>
          rw [topItem_eq_none_iff] at hrest
          rw [hrest, topItem] at h
          cases h
          simp [hrest]
      | some b =>
          obtain ⟨hb, hmax⟩ := ih hrest
          simp only [hrest] at h
          split_ifs at h with hlt
          · cases h
            refine ⟨List.mem_cons_of_mem _ hb, fun u hu => ?_⟩
            obtain rfl | hu := List.mem_cons.mp hu
            · exact le_of_lt hlt
            · exact hmax u hu
          · cases h
            refine ⟨List.mem_cons_self, fun u hu => ?_⟩
            obtain rfl | hu := List.mem_cons.mp hu
            · exact le_rfl
            · exact (hmax u hu).trans (Int.not_lt.mp hlt)

/-- The next key of a project whose items are numbered: one more than the
largest number there. -/
theorem nextItemKey_spec {s : LocalPulseStore} {p : Text}
    (hrows : ∀ t ∈ s.tasks.rows, t.projectKey = some p → ∃ n, t.itemKey = itemKeyOf p n) :
    ∃ m, nextItemKey s p = itemKeyOf p (m + 1) ∧
      (m = 0 ∨ ∃ t ∈ s.tasks.rows, t.projectKey = some p ∧ t.itemKey = itemKeyOf p m) ∧
      ∀ t ∈ s.tasks.rows, t.projectKey = some p → ∀ n, t.itemKey = itemKeyOf p n → n ≤ m := by
  rw [nextItemKey]
  have hmem {t : LocalTask} : t ∈ s.tasks.rows.filter (fun t => decide (t.projectKey = some p)) ↔
      t ∈ s.tasks.rows ∧ t.projectKey = some p := by simp
  cases htop : topItem (fun t => itemNumber p t.itemKey)
      (s.tasks.rows.filter fun t => decide (t.projectKey = some p)) with
  | none =>
      refine ⟨0, keyOf_natCast p 1, .inl rfl, fun t ht hp => ?_⟩
      have ht := hmem.mpr ⟨ht, hp⟩
      rw [topItem_eq_none_iff.mp htop] at ht
      cases ht
  | some u =>
      obtain ⟨hu, hmax⟩ := topItem_spec htop
      obtain ⟨hu, hup⟩ := hmem.mp hu
      obtain ⟨m, hm⟩ := hrows u hu hup
      refine ⟨m, ?_, .inr ⟨u, hu, hup, hm⟩, fun t ht hp n hn => ?_⟩
      · show keyOf p ((Cron.parseIntPrefix (lastPart u.itemKey)).map (· + 1)) = _
        rw [hm, lastPart_itemKeyOf, parseIntPrefix_decimal]
        exact keyOf_natCast p (m + 1)
      · have hle := hmax t (hmem.mpr ⟨ht, hp⟩)
        rw [hm, hn, itemNumber_itemKeyOf, itemNumber_itemKeyOf] at hle
        exact_mod_cast hle

/-! ## Runs with an account -/

/-- What a task is looked up by, and the project it is numbered in. -/
structure TaskKeys where
  id : Text
  projectKey : Option Text
  itemKey : Text
  remoteKey : Option Text
  deriving DecidableEq

def LocalTask.keys (t : LocalTask) : TaskKeys := ⟨t.id, t.projectKey, t.itemKey, t.remoteKey⟩

structure KeyWorld where
  store : LocalPulseStore
  /-- The keys given out, with the projects they were given out in. -/
  assigned : List (Option Text × Text)

/-- What upper case is relied on for: it is upper case already, it leaves digits
alone, and the two sides of a hyphen are mapped on their own. -/
structure UpperCase (f : Text → Text) : Prop where
  idem : ∀ t, f (f t) = f t
  digits : ∀ t, (∀ u ∈ t, isDigit u = true) → f t = t
  hyphen : ∀ a b, f (a ++ 45 :: b) = f a ++ 45 :: f b

namespace KeyWorld

/-- The rows of `s'` under ids that `s` does not have. -/
def created (s s' : LocalPulseStore) : List LocalTask :=
  s'.tasks.rows.filter fun t => (s.tasks.get t.id).isNone

/-- The store becomes `s`. -/
def next (w : KeyWorld) (s : LocalPulseStore) : KeyWorld where
  store := s
  assigned := w.assigned ++ (created w.store s).map fun t => (t.projectKey, t.itemKey)

def step (env : PulseEnv) (w : KeyWorld) (op : PulseOp) : KeyWorld := w.next (w.store.step env op)

def opened (env : PulseEnv) (id : Text) (now : ℤ) : KeyWorld := ⟨.opened env id now, []⟩

/-- No two stored tasks share a key, no key was given out twice, and every task
is found under its key. -/
def Safe (env : PulseEnv) (w : KeyWorld) : Prop :=
  (w.store.tasks.rows.map LocalTask.itemKey).Nodup ∧ (w.assigned.map Prod.snd).Nodup ∧
    ∀ t ∈ w.store.tasks.rows, getTask env w.store t.itemKey = some t

/-- How many keys a project has given out. -/
def given (w : KeyWorld) (projectKey : Text) : ℕ :=
  (w.assigned.filter fun a => a.1 = some projectKey).length

/-- The project a call creates an item in, when it creates one. -/
def creates (env : PulseEnv) (s : LocalPulseStore) : PulseOp → Option LocalProject
  | .createTask id opts _ =>
      if (s.tasks.get id).isSome then none else resolveProject env s opts.project
  | .fireAlert id opts _ =>
      if ((truthy (alertFingerprint env opts)).bind (existingAlert s)).isSome ∨
          (s.tasks.get id).isSome then none
      else resolveProject env s opts.project
  | .createAction id opts _ =>
      if (s.tasks.get id).isSome then none else resolveProject env s opts.project
  | _ => none

/-- An item is created in a project whose last item is still there, and no id
or platform key is the key it gets; a task gets a platform key that no later
task has as its own. -/
def Careful (env : PulseEnv) (w : KeyWorld) (op : PulseOp) : Prop :=
  match op with
  | .markSynced taskId _ remoteKey _ =>
      w.store.tasks.rows.Pairwise fun t u => t.id = taskId → u.itemKey ≠ remoteKey
  | op => ∀ p ∈ creates env w.store op,
      (w.given p.key = 0 ∨ ∃ t ∈ w.store.tasks.rows, t.itemKey = itemKeyOf p.key (w.given p.key)) ∧
        ∀ t ∈ w.store.tasks.rows, t.id ≠ itemKeyOf p.key (w.given p.key + 1) ∧
          t.remoteKey ≠ some (itemKeyOf p.key (w.given p.key + 1))

/-- A row that does not answer for the key of another. -/
def Apart (a b : TaskKeys) : Prop :=
  a.id ≠ b.itemKey ∧ a.itemKey ≠ b.itemKey ∧ a.remoteKey ≠ some b.itemKey

structure Good (env : PulseEnv) (w : KeyWorld) : Prop where
  projects : w.store.projects.rows ≠ []
  upper : ∀ p ∈ w.store.projects.rows, env.toUpperCase p.key = p.key
  named : ∀ a ∈ w.assigned, ∃ p, a.1 = some p ∧ env.toUpperCase p = p
  once : (w.assigned.map Prod.snd).Nodup
  numbered : ∀ p, w.assigned.filter (fun a => a.1 = some p) =
    (List.range (w.given p)).map fun i => (some p, itemKeyOf p (i + 1))
  stored : (w.store.tasks.rows.map fun t => (t.projectKey, t.itemKey)).Sublist w.assigned
  apart : (w.store.tasks.rows.map LocalTask.keys).Pairwise Apart

/-- What a call does to the keys: some rows may go, one may come, or one may get
a platform key. -/
inductive Effect (env : PulseEnv) (s : LocalPulseStore) : PulseOp → LocalPulseStore → Prop
  | kept {op : PulseOp} {s' : LocalPulseStore}
      (hop : ∀ w : KeyWorld, w.store = s → Careful env w op)
      (hprojects : ∀ p ∈ s.projects.rows, p ∈ s'.projects.rows)
      (hupper : ∀ p ∈ s'.projects.rows, p ∈ s.projects.rows ∨ ∃ k, p.key = env.toUpperCase k)
      (hkeys : (s'.tasks.rows.map LocalTask.keys).Sublist (s.tasks.rows.map LocalTask.keys)) :
      Effect env s op s'
  | created {op : PulseOp} {s' : LocalPulseStore} {p : LocalProject} {row : LocalTask}
      (hop : creates env s op = some p) (hp : p ∈ s.projects.rows)
      (hprojects : s'.projects = s.projects) (hrows : s'.tasks.rows = s.tasks.rows ++ [row])
      (hnew : s.tasks.get row.id = none)
      (hkeys : row.keys = ⟨row.id, some p.key, nextItemKey s p.key, none⟩) : Effect env s op s'
  | synced (taskId remoteId remoteKey : Text) (now : ℤ) :
      Effect env s (.markSynced taskId remoteId remoteKey now)
        (s.markSynced taskId remoteId remoteKey now)

/-! ## What a call does -/

/-- The keys are what they were. -/
structure Same (s s' : LocalPulseStore) : Prop where
  projects : s'.projects = s.projects
  keys : s'.tasks.rows.map LocalTask.keys = s.tasks.rows.map LocalTask.keys

section Calls

variable (env : PulseEnv) (s : LocalPulseStore)

theorem Same.refl : Same s s := ⟨rfl, rfl⟩

variable {s} in
theorem Same.trans {s' s'' : LocalPulseStore} (h : Same s s') (h' : Same s' s'') : Same s s'' :=
  ⟨h'.projects.trans h.projects, h'.keys.trans h.keys⟩

theorem same_setTask {x : Text} {f : LocalTask → LocalTask} {hf : ∀ t, (f t).id = t.id}
    (h : ∀ t, (f t).keys = t.keys) : Same s (s.setTask x f hf) := by
  refine ⟨rfl, ?_⟩
  show (s.tasks.rows.map fun t => if decide (t.id = x) then f t else t).map LocalTask.keys = _
  rw [List.map_map]
  refine List.map_congr_left fun t _ => ?_
  rw [Function.comp_apply]
  split_ifs
  · exact h t
  · rfl

theorem same_updateTask (idOrKey : Text) (updates : TaskUpdates) (clock : ℕ → ℤ) :
    Same s (updateTask env s idOrKey updates clock).1 := by
  rw [updateTask]
  split
  · exact Same.refl s
  · split
    · exact Same.refl s
    · exact same_setTask s fun _ => rfl

theorem same_completeTask (idOrKey : Text) (clock : ℕ → ℤ) :
    Same s (completeTask env s idOrKey clock).1 := by
  rw [completeTask]
  split
  · exact Same.refl s
  · split
    · split
      · exact Same.refl s
      · exact same_setTask s fun _ => rfl
    · exact same_updateTask env s _ _ _

theorem same_addComment (id taskIdOrKey author content : Text) (now : ℤ) :
    Same s (addComment env s id taskIdOrKey author content now).1 := by
  rw [addComment]
  split
  · exact Same.refl s
  · split
    · exact Same.refl s
    next comments _ =>
      have hcomments : Same s { s with comments := comments } := ⟨rfl, rfl⟩
      exact hcomments.trans (same_setTask _ fun _ => rfl)

theorem same_transitionTask (idOrKey targetStatus : Text) (actorType : ActorType)
    (actorUsername : Option Text) (workflowHelpers : Option WorkflowHelpers) (commentId : Text)
    (clock : ℕ → ℤ) :
    Same s (transitionTask env s idOrKey targetStatus actorType actorUsername workflowHelpers
      commentId clock).1 :=
  transitionTask_rule env s Same.refl (fun _ _ _ => Same.trans)
    (fun s idOrKey updates clock _ => same_updateTask env s idOrKey updates clock)
    (same_addComment env) idOrKey targetStatus actorType actorUsername workflowHelpers commentId
    clock

/-- A row that was looked up, and then written. -/
theorem same_written {task : Option LocalTask} {f : LocalTask → LocalTask}
    {hf : ∀ t, (f t).id = t.id} (h : ∀ t, (f t).keys = t.keys) :
    Same s (match task with
      | none => ((s, .ok none) : Outcome (Option LocalTask))
      | some task => writeTask env s task.id f hf).1 := by
  cases task with
  | none => exact Same.refl s
  | some task => exact same_setTask s h

theorem same_markTriggered (taskId : Text) (clock : ℕ → ℤ) :
    Same s (markTriggered env s taskId clock).1 := by
  rw [markTriggered]
  split
  · exact Same.refl s
  · split
    · split
      · exact Same.refl s
      · exact same_setTask s fun _ => rfl
    · exact same_setTask s fun _ => rfl

/-! ## Items and projects -/

variable {env s}

theorem oldestProject_spec {l : List LocalProject} {p : LocalProject}
    (h : oldestProject l = some p) : p ∈ l := by
  induction l generalizing p with
  | nil => simp [oldestProject] at h
  | cons a rest ih =>
      rw [oldestProject] at h
      cases hrest : oldestProject rest with
      | none =>
          simp only [hrest] at h
          cases h
          exact List.mem_cons_self
      | some b =>
          simp only [hrest] at h
          split_ifs at h
          · cases h
            exact List.mem_cons_of_mem _ (ih hrest)
          · cases h
            exact List.mem_cons_self

theorem oldestProject_isSome {l : List LocalProject} (h : l ≠ []) : (oldestProject l).isSome := by
  cases l with
  | nil => exact absurd rfl h
  | cons a rest =>
      rw [oldestProject]
      split
      · rfl
      · split_ifs <;> rfl

theorem mem_of_getProject {idOrKey : Text} {p : LocalProject}
    (h : getProject env s idOrKey = some p) : p ∈ s.projects.rows := by
  rw [getProject, Option.or_eq_some_iff] at h
  obtain hid | ⟨-, hkey⟩ := h
  · exact (Table.get_eq_some_iff.mp hid).1
  · exact List.mem_of_find?_eq_some hkey

/-- Once there is a project, every item is created in one. -/
theorem resolveProject_spec (h : s.projects.rows ≠ []) (project : Option Text) :
    ∃ p ∈ s.projects.rows, resolveProject env s project = some p := by
  obtain ⟨o, ho⟩ := Option.isSome_iff_exists.mp (oldestProject_isSome h)
  rw [resolveProject, ho]
  cases hbind : (truthy project).bind (getProject env s) with
  | none => exact ⟨o, oldestProject_spec ho, rfl⟩
  | some p =>
      obtain ⟨k, -, hk⟩ := Option.bind_eq_some_iff.mp hbind
      exact ⟨p, mem_of_getProject hk, rfl⟩

/-! ## The effects -/

theorem Same.effect {op : PulseOp} {s' : LocalPulseStore} (h : Same s s')
    (hop : ∀ w : KeyWorld, w.store = s → Careful env w op) : Effect env s op s' := by
  refine .kept hop ?_ ?_ ?_
  · rw [h.projects]
    exact fun _ hp => hp
  · rw [h.projects]
    exact fun _ hp => .inl hp
  · rw [h.keys]

/-- A call that creates no item and is no `markSynced` asks for nothing. -/
theorem careful_of_creates {op : PulseOp} (hcreates : creates env s op = none)
    (hop : ∀ taskId remoteId remoteKey now, op ≠ .markSynced taskId remoteId remoteKey now)
    (w : KeyWorld) (hw : w.store = s) : Careful env w op := by
  subst hw
  cases op with
  | markSynced taskId remoteId remoteKey now => exact absurd rfl (hop taskId remoteId remoteKey now)
  | _ =>
      intro p hp
      rw [hcreates] at hp
      cases hp

theorem effect_insertTask {op : PulseOp} {row : LocalTask} (project : Option Text)
    (hprojects : s.projects.rows ≠ [])
    (hop : ∀ taskId remoteId remoteKey now, op ≠ .markSynced taskId remoteId remoteKey now)
    (hcreates : creates env s op =
      if (s.tasks.get row.id).isSome then none else resolveProject env s project)
    (hkeys : row.keys = ⟨row.id, (resolveProject env s project).map LocalProject.key,
      newItemKey s (resolveProject env s project), none⟩) :
    Effect env s op (insertTask env s row).1 := by
  rw [insertTask]
  cases h : s.tasks.insert row with
  | none =>
      have htaken : (s.tasks.get row.id).isSome := by
        obtain ⟨r, hr, hid⟩ := Table.insert_eq_none h
        rw [Table.get_eq_some_iff.mpr ⟨hr, hid⟩]
        rfl
      exact (Same.refl s).effect (careful_of_creates (by rw [hcreates, if_pos htaken]) hop)
  | some tasks =>
      obtain ⟨hnew, hrows⟩ := Table.insert_eq_some h
      obtain ⟨p, hp, hproject⟩ : ∃ p ∈ s.projects.rows, resolveProject env s project = some p :=
        resolveProject_spec hprojects project
      rw [hproject] at hkeys hcreates
      exact .created (by rw [hcreates, hnew]; rfl) hp rfl hrows hnew hkeys

theorem effect_createProject {op : PulseOp} (id : Text) (opts : ProjectOpts) (now : ℤ)
    (hop : ∀ w : KeyWorld, w.store = s → Careful env w op) :
    Effect env s op (createProject env s id opts now).1 := by
  rw [createProject]
  split
  · exact (Same.refl s).effect hop
  next projects h =>
    have hrows := (Table.insert_eq_some h).2
    split
    · refine .kept hop ?_ ?_ (List.Sublist.refl _)
      · intro p hp
        show p ∈ projects.rows
        rw [hrows]
        exact List.mem_append_left _ hp
      · intro p hp
        have hp : p ∈ projects.rows := hp
        rw [hrows, List.mem_append, List.mem_singleton] at hp
        obtain hp | rfl := hp
        · exact .inl hp
        · exact .inr ⟨opts.key, rfl⟩
    · exact (Same.refl s).effect hop

theorem effect_deleteTask {op : PulseOp} (idOrKey : Text)
    (hop : ∀ w : KeyWorld, w.store = s → Careful env w op) :
    Effect env s op (deleteTask env s idOrKey).1 := by
  rw [deleteTask]
  split
  · exact (Same.refl s).effect hop
  · refine .kept hop (fun _ hp => hp) (fun _ hp => .inl hp) ?_
    exact List.filter_sublist.map _

theorem effect_fireAlert (hprojects : s.projects.rows ≠ []) (id : Text) (opts : AlertOpts)
    (clock : ℕ → ℤ) : Effect env s (.fireAlert id opts clock) (fireAlert env s id opts clock).1 := by
  rw [fireAlert]
  cases hdup : (truthy (alertFingerprint env opts)).bind (existingAlert s) with
  | some existing =>
      have hcreates : creates env s (.fireAlert id opts clock) = none := by
        rw [creates, hdup]
        simp
      refine Same.effect ?_ (careful_of_creates hcreates (by simp))
      exact same_setTask s fun _ => rfl
  | none =>
      refine effect_insertTask opts.project hprojects (by simp) ?_ rfl
      show creates env s (.fireAlert id opts clock) =
        if (s.tasks.get id).isSome then none else resolveProject env s opts.project
      rw [creates, hdup]
      by_cases htaken : (s.tasks.get id).isSome
      · simp [htaken]
      · simp [htaken]

/-- Every call, by what it does to the keys. -/
theorem effect_step (hprojects : s.projects.rows ≠ []) (op : PulseOp) :
    Effect env s op (s.step env op) := by
  cases op with
  | createProject id opts now =>
      exact effect_createProject id opts now (careful_of_creates rfl (by simp))
  | createTask id opts clock =>
      exact effect_insertTask opts.project hprojects (by simp) rfl rfl
  | updateTask idOrKey updates clock =>
      exact (same_updateTask env s idOrKey updates clock).effect (careful_of_creates rfl (by simp))
  | completeTask idOrKey clock =>
      exact (same_completeTask env s idOrKey clock).effect (careful_of_creates rfl (by simp))
  | cancelRecurring idOrKey now =>
      refine Same.effect ?_ (careful_of_creates rfl (by simp))
      exact same_written env s fun _ => rfl
  | transitionTask idOrKey targetStatus actorType actorUsername workflowHelpers commentId clock =>
      exact (same_transitionTask env s idOrKey targetStatus actorType actorUsername workflowHelpers
        commentId clock).effect (careful_of_creates rfl (by simp))
  | deleteTask idOrKey => exact effect_deleteTask idOrKey (careful_of_creates rfl (by simp))
  | addComment id taskIdOrKey author content now =>
      exact (same_addComment env s id taskIdOrKey author content now).effect
        (careful_of_creates rfl (by simp))
  | getDirtyTasks => exact (Same.refl s).effect (careful_of_creates rfl (by simp))
  | markSynced taskId remoteId remoteKey now => exact .synced taskId remoteId remoteKey now
  | markTriggered taskId clock =>
      exact (same_markTriggered env s taskId clock).effect (careful_of_creates rfl (by simp))
  | fireAlert id opts clock => exact effect_fireAlert hprojects id opts clock
  | acknowledgeAlert idOrKey by_ now =>
      refine Same.effect ?_ (careful_of_creates rfl (by simp))
      exact same_written env s fun _ => rfl
  | resolveAlert idOrKey now =>
      refine Same.effect ?_ (careful_of_creates rfl (by simp))
      exact same_written env s fun _ => rfl
  | silenceAlert idOrKey now =>
      refine Same.effect ?_ (careful_of_creates rfl (by simp))
      exact same_written env s fun _ => rfl
  | createAction id opts now =>
      exact effect_insertTask opts.project hprojects (by simp) rfl rfl
  | approveAction idOrKey by_ now =>
      refine Same.effect ?_ (careful_of_creates rfl (by simp))
      exact same_written env s fun _ => rfl
  | rejectAction idOrKey by_ reason now =>
      refine Same.effect ?_ (careful_of_creates rfl (by simp))
      exact same_written env s fun _ => rfl

end Calls

/-! ## The runs -/

/-- When everything is found by a search for it, and only then, nothing comes
before what it would be taken for. -/
theorem find_self_iff {α : Type*} {l : List α} (matching : α → α → Bool)
    (hself : ∀ a ∈ l, matching a a = true) (hnodup : l.Nodup) :
    (∀ a ∈ l, l.find? (matching a) = some a) ↔ l.Pairwise fun a b => matching b a = false := by
  induction l with
  | nil => simp
  | cons a rest ih =>
      obtain ⟨hne, hrest⟩ := List.nodup_cons.mp hnodup
      have ih := ih (fun b hb => hself b (List.mem_cons_of_mem _ hb)) hrest
      rw [List.forall_mem_cons, List.pairwise_cons, ← ih,
        List.find?_cons_of_pos (hself a List.mem_cons_self), ← forall₂_and]
      simp only [true_and]
      refine forall₂_congr fun b hb => ?_
      have hab : a ≠ b := fun heq => hne (heq ▸ hb)
      cases hm : matching b a with
      | true =>
          rw [List.find?_cons_of_pos hm]
          simp [hab]
      | false =>
          rw [List.find?_cons_of_neg (by simp [hm])]
          simp

section Runs

variable {env : PulseEnv} (hupper : UpperCase env.toUpperCase) {w : KeyWorld}

include hupper in
theorem upper_itemKeyOf {p : Text} (hp : env.toUpperCase p = p) (n : ℕ) :
    env.toUpperCase (itemKeyOf p n) = itemKeyOf p n := by
  rw [itemKeyOf, hupper.hyphen, hp, hupper.digits _ fun u hu => isDigit_of_mem_decimal hu]

theorem found_iff_apart {s : LocalPulseStore}
    (hkeys : ∀ t ∈ s.tasks.rows, env.toUpperCase t.itemKey = t.itemKey) :
    (∀ t ∈ s.tasks.rows, getTask env s t.itemKey = some t) ↔
      (s.tasks.rows.map LocalTask.keys).Pairwise Apart := by
  have hnodup : s.tasks.rows.Nodup := List.Nodup.of_map _ s.tasks.nodup
  rw [List.pairwise_map]
  refine (find_self_iff
    (fun t r => r.id = t.itemKey || r.itemKey = env.toUpperCase t.itemKey ||
      r.remoteKey = some (env.toUpperCase t.itemKey)) ?_ hnodup).trans ?_
  · intro t ht
    simp [hkeys t ht]
  · refine List.Pairwise.iff_of_mem fun {a b} _ hb => ?_
    rw [hkeys b hb]
    simp [Apart, LocalTask.keys, and_assoc]

theorem created_eq_nil {s s' : LocalPulseStore}
    (h : ∀ t' ∈ s'.tasks.rows, ∃ t ∈ s.tasks.rows, t.id = t'.id) : created s s' = [] := by
  refine List.filter_eq_nil_iff.mpr fun t' ht' => ?_
  obtain ⟨t, ht, hid⟩ := h t' ht'
  rw [← hid, get_of_mem ht]
  simp

namespace Good

variable (h : Good env w)

include h

/-- The key of a stored task is one its project has given out. -/
theorem keyed {t : LocalTask} (ht : t ∈ w.store.tasks.rows) :
    ∃ p, t.projectKey = some p ∧ env.toUpperCase p = p ∧
      ∃ n < w.given p, t.itemKey = itemKeyOf p (n + 1) := by
  have hmem : (t.projectKey, t.itemKey) ∈ w.assigned :=
    h.stored.subset (List.mem_map_of_mem (f := fun t : LocalTask => (t.projectKey, t.itemKey)) ht)
  obtain ⟨p, hp, hup⟩ := h.named _ hmem
  have hp : t.projectKey = some p := hp
  have hfilter : (t.projectKey, t.itemKey) ∈ w.assigned.filter fun a => decide (a.1 = some p) :=
    List.mem_filter.mpr ⟨hmem, decide_eq_true hp⟩
  rw [h.numbered p] at hfilter
  obtain ⟨n, hn, heq⟩ := List.mem_map.mp hfilter
  exact ⟨p, hp, hup, n, List.mem_range.mp hn, (congrArg Prod.snd heq).symm⟩

theorem safe (hupper : UpperCase env.toUpperCase) : Safe env w := by
  refine ⟨?_, h.once, ?_⟩
  · have hsub := h.stored.map Prod.snd
    rw [List.map_map] at hsub
    exact h.once.sublist hsub
  · refine (found_iff_apart fun t ht => ?_).mpr h.apart
    obtain ⟨p, -, hup, n, -, hkey⟩ := h.keyed ht
    rw [hkey, upper_itemKeyOf hupper hup]

/-- The number a project gives out next is the first that it has not given
out, as long as its last item is stored. -/
theorem nextItemKey_eq_iff (p : Text) :
    ∃ m, nextItemKey w.store p = itemKeyOf p (m + 1) ∧ m ≤ w.given p ∧
      (m = w.given p ↔
        w.given p = 0 ∨ ∃ t ∈ w.store.tasks.rows, t.itemKey = itemKeyOf p (w.given p)) := by
  have hkeyed {t : LocalTask} (ht : t ∈ w.store.tasks.rows) {m : ℕ}
      (hkey : t.itemKey = itemKeyOf p m) : t.projectKey = some p ∧ m ≤ w.given p := by
    obtain ⟨q, hq, -, n, hn, hkey'⟩ := h.keyed ht
    obtain ⟨rfl, rfl⟩ := itemKeyOf_inj (hkey'.symm.trans hkey)
    exact ⟨hq, hn⟩
  obtain ⟨m, hnext, hstored, hmax⟩ := nextItemKey_spec (s := w.store) (p := p) fun t ht hp => by
    obtain ⟨q, hq, -, n, -, hkey⟩ := h.keyed ht
    rw [hq] at hp
    cases hp
    exact ⟨n + 1, hkey⟩
  refine ⟨m, hnext, ?_, ?_, ?_⟩
  · obtain rfl | ⟨t, ht, -, hkey⟩ := hstored
    · exact Nat.zero_le _
    · exact (hkeyed ht hkey).2
  · rintro rfl
    obtain hzero | ⟨t, ht, -, hkey⟩ := hstored
    · exact .inl hzero
    · exact .inr ⟨t, ht, hkey⟩
  · have hle : m ≤ w.given p := by
      obtain rfl | ⟨t, ht, -, hkey⟩ := hstored
      · exact Nat.zero_le _
      · exact (hkeyed ht hkey).2
    intro hlast
    obtain hzero | ⟨t, ht, hkey⟩ := hlast
    · omega
    · exact le_antisymm hle (hmax t ht (hkeyed ht hkey).1 _ hkey)

/-! What the three effects do to it. -/

theorem next_kept (hupper : UpperCase env.toUpperCase) {s' : LocalPulseStore}
    (hprojects : ∀ p ∈ w.store.projects.rows, p ∈ s'.projects.rows)
    (hcase : ∀ p ∈ s'.projects.rows,
      p ∈ w.store.projects.rows ∨ ∃ k, p.key = env.toUpperCase k)
    (hkeys : (s'.tasks.rows.map LocalTask.keys).Sublist (w.store.tasks.rows.map LocalTask.keys)) :
    Good env (w.next s') := by
  have hids : ∀ t' ∈ s'.tasks.rows, ∃ t ∈ w.store.tasks.rows, t.id = t'.id := by
    intro t' ht'
    obtain ⟨t, ht, heq⟩ := List.mem_map.mp (hkeys.subset (List.mem_map_of_mem ht'))
    exact ⟨t, ht, congrArg TaskKeys.id heq⟩
  have hassigned : (w.next s').assigned = w.assigned := by
    rw [next, created_eq_nil hids, List.map_nil, List.append_nil]
  have hgiven (p : Text) : (w.next s').given p = w.given p := by rw [given, given, hassigned]
  refine ⟨fun hnil => ?_, fun p hp => ?_, ?_, ?_, fun p => ?_, ?_, h.apart.sublist hkeys⟩
  · obtain ⟨p, hp⟩ := List.exists_mem_of_ne_nil _ h.projects
    have hp := hprojects p hp
    rw [show s'.projects.rows = [] from hnil] at hp
    cases hp
  · obtain hp | ⟨k, hk⟩ := hcase p hp
    · exact h.upper p hp
    · rw [hk, hupper.idem]
  · rw [hassigned]
    exact h.named
  · rw [hassigned]
    exact h.once
  · rw [hassigned, hgiven]
    exact h.numbered p
  · rw [hassigned]
    have hpairs := hkeys.map fun k : TaskKeys => (k.projectKey, k.itemKey)
    rw [List.map_map, List.map_map] at hpairs
    exact hpairs.trans h.stored

theorem not_assigned (p : Text) : itemKeyOf p (w.given p + 1) ∉ w.assigned.map Prod.snd := by
  intro hmem
  obtain ⟨a, ha, heq⟩ := List.mem_map.mp hmem
  obtain ⟨q, hq, -⟩ := h.named a ha
  have hfilter : a ∈ w.assigned.filter fun a => decide (a.1 = some q) :=
    List.mem_filter.mpr ⟨ha, decide_eq_true hq⟩
  rw [h.numbered q] at hfilter
  obtain ⟨i, hi, rfl⟩ := List.mem_map.mp hfilter
  obtain ⟨rfl, hn⟩ := itemKeyOf_inj heq
  have hi := List.mem_range.mp hi
  omega

omit h in
theorem created_eq_row {s s' : LocalPulseStore} {row : LocalTask}
    (hrows : s'.tasks.rows = s.tasks.rows ++ [row]) (hnew : s.tasks.get row.id = none) :
    created s s' = [row] := by
  have hold : s.tasks.rows.filter (fun t => (s.tasks.get t.id).isNone) = [] :=
    List.filter_eq_nil_iff.mpr fun t ht => by simp [get_of_mem ht]
  rw [created, hrows, List.filter_append, hold]
  simp [hnew]

variable {s' : LocalPulseStore} {p : LocalProject} {row : LocalTask}

/-- A new item gets a key that was not given out and is nobody else's. -/
theorem next_created (hprojects : s'.projects = w.store.projects)
    (hp : p ∈ w.store.projects.rows)
    (hrows : s'.tasks.rows = w.store.tasks.rows ++ [row])
    (hnew : w.store.tasks.get row.id = none)
    (hkeys : row.keys = ⟨row.id, some p.key, itemKeyOf p.key (w.given p.key + 1), none⟩)
    (hfree : ∀ t ∈ w.store.tasks.rows, t.id ≠ itemKeyOf p.key (w.given p.key + 1) ∧
      t.remoteKey ≠ some (itemKeyOf p.key (w.given p.key + 1))) : Good env (w.next s') := by
  have hproject : row.projectKey = some p.key := congrArg TaskKeys.projectKey hkeys
  have hkey : row.itemKey = itemKeyOf p.key (w.given p.key + 1) := congrArg TaskKeys.itemKey hkeys
  have hassigned : (w.next s').assigned =
      w.assigned ++ [(some p.key, itemKeyOf p.key (w.given p.key + 1))] := by
    rw [next, created_eq_row hrows hnew, List.map_singleton, hproject, hkey]
  refine ⟨?_, ?_, ?_, ?_, fun q => ?_, ?_, ?_⟩
  · show s'.projects.rows ≠ []
    rw [hprojects]
    exact h.projects
  · show ∀ p ∈ s'.projects.rows, _
    rw [hprojects]
    exact h.upper
  · rw [hassigned]
    intro a ha
    rw [List.mem_append, List.mem_singleton] at ha
    obtain ha | rfl := ha
    · exact h.named a ha
    · exact ⟨p.key, rfl, h.upper p hp⟩
  · rw [hassigned, List.map_append, List.map_singleton, List.nodup_append]
    refine ⟨h.once, List.nodup_singleton _, fun k hk k' hk' heq => ?_⟩
    rw [heq, List.mem_singleton.mp hk'] at hk
    exact h.not_assigned p.key hk
  · rw [given, hassigned, List.filter_append]
    by_cases hq : p.key = q
    · subst hq
      rw [List.filter_cons_of_pos (by simp), List.filter_nil, List.length_append, ← given,
        List.length_singleton, List.range_succ, List.map_append, h.numbered p.key]
      rfl
    · rw [List.filter_cons_of_neg (by simpa using hq), List.filter_nil, List.append_nil, ← given]
      exact h.numbered q
  · show (s'.tasks.rows.map _).Sublist _
    rw [hassigned, hrows, List.map_append, List.map_singleton, hproject, hkey]
    exact h.stored.append (List.Sublist.refl _)
  · show (s'.tasks.rows.map _).Pairwise _
    rw [hrows, List.map_append, List.map_singleton, List.pairwise_append]
    refine ⟨h.apart, List.pairwise_singleton _ _, fun k hk k' hk' => ?_⟩
    obtain ⟨t, ht, rfl⟩ := List.mem_map.mp hk
    rw [List.mem_singleton.mp hk', hkeys]
    refine ⟨(hfree t ht).1, fun heq => ?_, (hfree t ht).2⟩
    have hmem : t.itemKey ∈ w.assigned.map Prod.snd := by
      have hsub := (h.stored.map Prod.snd).subset
      rw [List.map_map] at hsub
      exact hsub (List.mem_map_of_mem ht)
    have heq : t.itemKey = itemKeyOf p.key (w.given p.key + 1) := heq
    rw [heq] at hmem
    exact h.not_assigned p.key hmem

/-- A new item that leaves the keys as they should be has the next number of
its project. -/
theorem of_safe_created (hrows : s'.tasks.rows = w.store.tasks.rows ++ [row])
    (hnew : w.store.tasks.get row.id = none)
    (hkeys : row.keys = ⟨row.id, some p.key, nextItemKey w.store p.key, none⟩)
    (hupper : UpperCase env.toUpperCase) (hp : p ∈ w.store.projects.rows)
    (hsafe : Safe env (w.next s')) :
    (w.given p.key = 0 ∨ ∃ t ∈ w.store.tasks.rows, t.itemKey = itemKeyOf p.key (w.given p.key)) ∧
      ∀ t ∈ w.store.tasks.rows, t.id ≠ itemKeyOf p.key (w.given p.key + 1) ∧
        t.remoteKey ≠ some (itemKeyOf p.key (w.given p.key + 1)) := by
  obtain ⟨m, hm, hle, hiff⟩ := h.nextItemKey_eq_iff p.key
  have hkey : row.itemKey = itemKeyOf p.key (m + 1) :=
    (congrArg TaskKeys.itemKey hkeys).trans hm
  have hproject : row.projectKey = some p.key := congrArg TaskKeys.projectKey hkeys
  obtain ⟨-, honce, hfound⟩ := hsafe
  rw [next, created_eq_row hrows hnew, List.map_singleton, hproject, hkey, List.map_append,
    List.map_singleton, List.nodup_append] at honce
  have hlast : m = w.given p.key := by
    by_contra hne
    have hfilter : (some p.key, itemKeyOf p.key (m + 1)) ∈
        w.assigned.filter fun a => decide (a.1 = some p.key) := by
      rw [h.numbered p.key]
      exact List.mem_map.mpr ⟨m, List.mem_range.mpr (by omega), rfl⟩
    have hmem := List.mem_map_of_mem (f := Prod.snd) (List.mem_of_mem_filter hfilter)
    exact honce.2.2 _ hmem _ (List.mem_singleton_self _) rfl
  refine ⟨hiff.mp hlast, fun t ht => ?_⟩
  have hkeysUpper : ∀ u ∈ s'.tasks.rows, env.toUpperCase u.itemKey = u.itemKey := by
    intro u hu
    rw [hrows, List.mem_append, List.mem_singleton] at hu
    obtain hu | rfl := hu
    · obtain ⟨q, -, hq, n, -, huk⟩ := h.keyed hu
      rw [huk, upper_itemKeyOf hupper hq]
    · rw [hkey, upper_itemKeyOf hupper (h.upper p hp)]
  have hapart := (found_iff_apart hkeysUpper).mp hfound
  rw [hrows, List.map_append, List.map_singleton, List.pairwise_append] at hapart
  obtain ⟨hid, -, hremote⟩ :=
    hapart.2.2 t.keys (List.mem_map_of_mem ht) row.keys (List.mem_singleton_self _)
  have hid : t.id ≠ row.itemKey := hid
  have hremote : t.remoteKey ≠ some row.itemKey := hremote
  rw [hkey, hlast] at hid hremote
  exact ⟨hid, hremote⟩

omit h in
theorem next_markSynced_assigned (w : KeyWorld) (taskId remoteId remoteKey : Text) (now : ℤ) :
    (w.next (w.store.markSynced taskId remoteId remoteKey now)).assigned = w.assigned := by
  have hids : ∀ t' ∈ (w.store.markSynced taskId remoteId remoteKey now).tasks.rows,
      ∃ t ∈ w.store.tasks.rows, t.id = t'.id := by
    intro t' ht'
    obtain ⟨t, ht, hid, -⟩ := mem_setTask ht'
    exact ⟨t, ht, hid⟩
  rw [next, created_eq_nil hids, List.map_nil, List.append_nil]

omit h in
theorem keys_markSynced (s : LocalPulseStore) (taskId remoteId remoteKey : Text) (now : ℤ) :
    (s.markSynced taskId remoteId remoteKey now).tasks.rows.map LocalTask.keys =
      s.tasks.rows.map fun t =>
        if t.id = taskId then { t.keys with remoteKey := some remoteKey } else t.keys := by
  show (s.tasks.rows.map _).map LocalTask.keys = _
  rw [List.map_map]
  refine List.map_congr_left fun t _ => ?_
  by_cases hid : t.id = taskId
  · simp [LocalTask.keys, hid]
  · simp [LocalTask.keys, hid]

/-- Where the platform key is nobody's later key, everything stays found. -/
theorem apart_markSynced_iff {taskId remoteId remoteKey : Text} {now : ℤ} :
    ((w.store.markSynced taskId remoteId remoteKey now).tasks.rows.map
        LocalTask.keys).Pairwise Apart ↔
      w.store.tasks.rows.Pairwise fun t u => t.id = taskId → u.itemKey ≠ remoteKey := by
  have hitem (t : LocalTask) : (if t.id = taskId then
      { t.keys with remoteKey := some remoteKey } else t.keys).itemKey = t.itemKey := by
    split_ifs <;> rfl
  have hapart := List.pairwise_map.mp h.apart
  rw [keys_markSynced, List.pairwise_map]
  constructor
  · intro hpair
    refine hpair.imp fun {t u} htu hid => ?_
    have hremote := htu.2.2
    rw [hitem, if_pos hid] at hremote
    exact fun heq => hremote (congrArg some heq.symm)
  · intro hpair
    refine List.Pairwise.imp₂ (fun t u htu hfree => ?_) hapart hpair
    obtain ⟨hid, hkey, hremote⟩ := htu
    rw [Apart, hitem]
    by_cases htask : t.id = taskId
    · rw [if_pos htask]
      exact ⟨hid, hkey, fun heq => hfree htask (Option.some.inj heq).symm⟩
    · rw [if_neg htask]
      exact ⟨hid, hkey, hremote⟩

/-- A key of the platform. -/
theorem next_synced {taskId remoteId remoteKey : Text} {now : ℤ}
    (hfree : w.store.tasks.rows.Pairwise fun t u => t.id = taskId → u.itemKey ≠ remoteKey) :
    Good env (w.next (w.store.markSynced taskId remoteId remoteKey now)) := by
  have hassigned := next_markSynced_assigned w taskId remoteId remoteKey now
  have hgiven (p : Text) :
      (w.next (w.store.markSynced taskId remoteId remoteKey now)).given p = w.given p := by
    rw [given, given, hassigned]
  refine ⟨h.projects, h.upper, ?_, ?_, fun p => ?_, ?_, h.apart_markSynced_iff.mpr hfree⟩
  · rw [hassigned]
    exact h.named
  · rw [hassigned]
    exact h.once
  · rw [hassigned, hgiven]
    exact h.numbered p
  · rw [hassigned]
    have hpairs : (w.store.markSynced taskId remoteId remoteKey now).tasks.rows.map
          (fun t => (t.projectKey, t.itemKey)) =
        w.store.tasks.rows.map fun t => (t.projectKey, t.itemKey) := by
      show (w.store.tasks.rows.map _).map _ = _
      rw [List.map_map]
      refine List.map_congr_left fun t _ => ?_
      rw [Function.comp_apply]
      split_ifs <;> rfl
    show ((w.store.markSynced taskId remoteId remoteKey now).tasks.rows.map _).Sublist _
    rw [hpairs]
    exact h.stored

theorem of_safe_synced (hupper : UpperCase env.toUpperCase) {taskId remoteId remoteKey : Text}
    {now : ℤ} (hsafe : Safe env (w.next (w.store.markSynced taskId remoteId remoteKey now))) :
    w.store.tasks.rows.Pairwise fun t u => t.id = taskId → u.itemKey ≠ remoteKey := by
  refine h.apart_markSynced_iff.mp ((found_iff_apart fun t' ht' => ?_).mp hsafe.2.2)
  obtain ⟨t, ht, -, rfl⟩ := mem_setTask ht'
  obtain ⟨p, -, hp, n, -, hkey⟩ := h.keyed ht
  have hitem : ∀ t' : LocalTask, t'.itemKey = t.itemKey →
      env.toUpperCase t'.itemKey = t'.itemKey := by
    intro t' heq
    rw [heq, hkey, upper_itemKeyOf hupper hp]
  refine hitem _ ?_
  split_ifs <;> rfl

end Good

theorem safe_and_good_step (hupper : UpperCase env.toUpperCase) (h : Good env w) (op : PulseOp) :
    (Safe env (step env w op) ↔ Careful env w op) ∧
      (Careful env w op → Good env (step env w op)) := by
  suffices hgood : (Careful env w op → Good env (step env w op)) ∧
      (Safe env (step env w op) → Careful env w op) from
    ⟨⟨hgood.2, fun hC => (hgood.1 hC).safe hupper⟩, hgood.1⟩
  show (_ → Good env (w.next (w.store.step env op))) ∧
    (Safe env (w.next (w.store.step env op)) → _)
  have heffect : Effect env w.store op (w.store.step env op) := effect_step h.projects op
  cases heffect with
  | kept hop hprojects hcase hkeys =>
      exact ⟨fun _ => h.next_kept hupper hprojects hcase hkeys, fun _ => hop w rfl⟩
  | created hop hp hprojects hrows hnew hkeys =>
      rename_i p row
      have hcareful : Careful env w op ↔ (w.given p.key = 0 ∨
          ∃ t ∈ w.store.tasks.rows, t.itemKey = itemKeyOf p.key (w.given p.key)) ∧
            ∀ t ∈ w.store.tasks.rows, t.id ≠ itemKeyOf p.key (w.given p.key + 1) ∧
              t.remoteKey ≠ some (itemKeyOf p.key (w.given p.key + 1)) := by
        cases op with
        | markSynced taskId remoteId remoteKey now => cases hop
        | _ => simp [Careful, hop]
      rw [hcareful]
      refine ⟨fun hC => ?_, h.of_safe_created hrows hnew hkeys hupper hp⟩
      obtain ⟨m, hm, -, hiff⟩ := h.nextItemKey_eq_iff p.key
      rw [hm, hiff.mpr hC.1] at hkeys
      exact h.next_created hprojects hp hrows hnew hkeys hC.2
  | synced taskId remoteId remoteKey now => exact ⟨h.next_synced, h.of_safe_synced hupper⟩

theorem good_opened (hupper : UpperCase env.toUpperCase) (id : Text) (now : ℤ) :
    Good env (opened env id now) := by
  have hrows : (opened env id now).store.projects.rows =
      [⟨id, js "General", env.toUpperCase (js "GEN"), js "Default project", none, isoText now,
        none⟩] := rfl
  refine ⟨?_, ?_, by simp [opened], List.nodup_nil, fun p => rfl, List.Sublist.refl _,
    List.Pairwise.nil⟩
  · rw [hrows]
    exact List.cons_ne_nil _ _
  · rw [hrows]
    intro p hp
    rw [List.mem_singleton.mp hp]
    exact hupper.idem _

/-- Every run keeps the keys as long as its calls are careful, and no
longer. -/
theorem item_keys_iff (env : PulseEnv) (hupper : UpperCase env.toUpperCase) (id : Text) (now : ℤ)
    (ops : List PulseOp) :
    Throughout (step env) (Safe env) (opened env id now) ops ↔
      Along (step env) (Careful env) (opened env id now) ops :=
  throughout_iff_along_keep (D := fun _ _ => True)
    (fun _ op h _ => (safe_and_good_step hupper h op).1)
    (fun _ op h _ => (safe_and_good_step hupper h op).2)
    (good_opened hupper id now) ((good_opened hupper id now).safe hupper)
    (along_true (fun _ _ => trivial) _ _)

end Runs

/-! ## Two short runs, and what breaks the keys -/

instance (env : PulseEnv) (w : KeyWorld) : Decidable (Safe env w) :=
  inferInstanceAs (Decidable (_ ∧ _ ∧ ∀ t ∈ w.store.tasks.rows, _))

/-- Upper case of ASCII. -/
def asciiUpper (t : Text) : Text := t.map fun u => if 97 ≤ u && u ≤ 122 then u - 32 else u

theorem upperCase_asciiUpper : UpperCase asciiUpper where
  idem t := by
    rw [asciiUpper, asciiUpper, List.map_map]
    refine List.map_congr_left fun u _ => ?_
    rw [Function.comp_apply]
    simp only [Bool.and_eq_true, decide_eq_true_eq, UInt16.le_iff_toNat_le]
    by_cases hu : UInt16.toNat 97 ≤ u.toNat ∧ u.toNat ≤ UInt16.toNat 122
    · have hle : (32 : UInt16) ≤ u := by
        rw [UInt16.le_iff_toNat_le]
        simp at hu ⊢
        omega
      rw [if_pos hu, if_neg]
      rw [UInt16.toNat_sub_of_le _ _ hle]
      simp at hu ⊢
      omega
    · rw [if_neg hu, if_neg hu]
  digits t ht := by
    rw [asciiUpper]
    refine (List.map_congr_left fun u hu => ?_).trans t.map_id
    have hd := ht u hu
    simp only [isDigit, Bool.and_eq_true, decide_eq_true_eq, UInt16.le_iff_toNat_le] at hd
    rw [if_neg]
    · rfl
    · simp only [Bool.and_eq_true, decide_eq_true_eq, UInt16.le_iff_toNat_le]
      simp at hd ⊢
      omega
  hyphen a b := by simp [asciiUpper]

/-- An environment without teams, whose hash is not used. -/
def plainEnv : PulseEnv := ⟨asciiUpper, id, fun _ => none⟩

def taskTitled (title : Text) : TaskOpts :=
  ⟨title, none, none, none, none, none, none, none, none, none, none, none, none⟩

theorem item_keys_iff_synced :
    Throughout (step plainEnv) (Safe plainEnv) (opened plainEnv (js "p") 0)
      [.createTask (js "t1") (taskTitled (js "one")) fun _ => 0,
        .markSynced (js "t1") (js "7") (js "OPS-1") 0,
        .createTask (js "t2") (taskTitled (js "two")) fun _ => 0] := by
  refine (item_keys_iff plainEnv upperCase_asciiUpper (js "p") 0 _).mpr ⟨?_, ?_, ?_, trivial⟩
  · intro p hp
    cases hp
    decide
  · show List.Pairwise _ _
    decide
  · intro p hp
    cases hp
    decide

/-- A number is given out again after its item is deleted, and a task is not
found under its key when an earlier one has that key on the platform. -/
theorem keys_reused :
    ¬ Throughout (step plainEnv) (Safe plainEnv) (opened plainEnv (js "p") 0)
        [.createTask (js "t1") (taskTitled (js "one")) fun _ => 0,
          .createTask (js "t2") (taskTitled (js "two")) fun _ => 0,
          .deleteTask (js "t2"), .createTask (js "t3") (taskTitled (js "three")) fun _ => 0] ∧
      ¬ Throughout (step plainEnv) (Safe plainEnv) (opened plainEnv (js "p") 0)
        [.createTask (js "t1") (taskTitled (js "one")) fun _ => 0,
          .markSynced (js "t1") (js "7") (js "GEN-2") 0,
          .createTask (js "t2") (taskTitled (js "two")) fun _ => 0] := by
  constructor
  · intro h
    exact absurd h.last (by decide)
  · intro h
    exact absurd h.last (by decide)

end KeyWorld

end Shizuha.Pulse
