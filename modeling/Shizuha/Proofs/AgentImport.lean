import Shizuha.Daemon.AgentState
import Shizuha.Proofs.KillSwitch

/-!
# What one turn of the import does

An agent of the file is given a row in one of three ways, and `ImportMove` says
for each what becomes of the table: the row of its id takes the flags, the row
of its username becomes its own, or a row is added. Which of the three it is
depends on the ids and usernames of the table alone, so those have a reading of
their own (`importKeys`), which needs neither flags nor stamps.

A row is touched by an agent only through its id or as the row that the agent
takes over; everything that is said of a whole import rests on that
(`mem_importMove`, `mem_importRun`).
-/

namespace Shizuha.Daemon

open Js State

/-! ## Flags -/

structure Flags where
  desiredEnabled : Bool
  operatorDisabled : Bool
  deriving DecidableEq

def AgentRow.flags (r : AgentRow) : Flags := ⟨r.desiredEnabled, r.operatorDisabled⟩

/-- What the two sets say of an agent whose row was under `previousId`; disabled
wins. -/
def fileFlags (enabled disabled : List Text) (a : AgentInfo) (previousId : Option Text) :
    Flags where
  desiredEnabled := flagged enabled a previousId && !flagged disabled a previousId
  operatorDisabled := flagged disabled a previousId

/-- The row with other flags, at a later version. -/
def AgentRow.reflag (f : Flags) (version : ℕ) (now : Text) (r : AgentRow) : AgentRow :=
  { r with
    desiredEnabled := f.desiredEnabled
    operatorDisabled := f.operatorDisabled
    version := version
    updatedAt := now }

/-- Everything but the version and the time of the last update. -/
def AgentRow.content (r : AgentRow) : AgentRow := { r with version := 0, updatedAt := [] }

variable {s s' : AgentStateStore} {db db' : AgentStateDb} {enabled disabled : List Text}
  {actor id : Text} {stamp : Stamp} {a : AgentInfo} {r row : AgentRow}

/-! ## The statements of a turn -/

theorem rows_setOperatorDisabled {isDisabled : Bool} {reason : Option Text}
    (h : s.setOperatorDisabled stamp actor id isDisabled reason = .ok s') :
    ∃ row, s.getAgent id = some row ∧ s'.agents.rows = s.agents.rows.map fun r =>
      if r.id = boundText id then
        { r with
          operatorDisabled := isDisabled
          version := row.version + 1
          updatedAt := stamp.now }
      else r := by
  rw [AgentStateStore.setOperatorDisabled] at h
  split at h
  · cases h
  · next row hrow =>
      refine ⟨row, hrow, ?_⟩
      rw [agents_writeEvent h]
      simp [AgentStateStore.updateRow, Table.update]

theorem rows_setDesiredEnabled {isEnabled : Bool}
    (h : s.setDesiredEnabled stamp actor id isEnabled false = .ok s') :
    ∃ row, s.getAgent id = some row ∧ s'.agents.rows = s.agents.rows.map fun r =>
      if r.id = boundText id then
        { r with
          desiredEnabled := isEnabled
          operatorDisabled := row.operatorDisabled
          version := row.version + 1
          updatedAt := stamp.now }
      else r := by
  rw [AgentStateStore.setDesiredEnabled] at h
  split at h
  · cases h
  · next row hrow =>
      refine ⟨row, hrow, ?_⟩
      rw [agents_writeEvent h]
      simp [AgentStateStore.updateRow, Table.update]

theorem rows_setFlags {s₁ s₂ : AgentStateStore} {stamp' : Stamp} {isDisabled isEnabled : Bool}
    {reason : Option Text} (h₁ : s.setOperatorDisabled stamp actor id isDisabled reason = .ok s₁)
    (h₂ : s₁.setDesiredEnabled stamp' actor id isEnabled false = .ok s₂) :
    ∃ version, s₂.agents.rows = s.agents.rows.map fun r =>
      if r.id = boundText id then r.reflag ⟨isEnabled, isDisabled⟩ version stamp'.now else r := by
  obtain ⟨row₁, hrow₁, hrows₁⟩ := rows_setOperatorDisabled h₁
  obtain ⟨row₂, hrow₂, hrows₂⟩ := rows_setDesiredEnabled h₂
  -- The flag of the operator is the one that has just been set.
  have hset : row₂.operatorDisabled = isDisabled := by
    obtain ⟨hmem, hid⟩ := Table.get_eq_some_iff.mp hrow₂
    rw [hrows₁] at hmem
    obtain ⟨r, -, rfl⟩ := List.mem_map.mp hmem
    split_ifs at hid ⊢ with hr
    · rfl
    · exact absurd hid hr
  refine ⟨row₂.version + 1, ?_⟩
  rw [hrows₂, hrows₁, List.map_map]
  refine List.map_congr_left fun r hr => ?_
  rw [Function.comp_apply]
  by_cases hid : r.id = boundText id
  · rw [if_pos hid, if_pos hid, if_pos hid, hset]
    rfl
  · rw [if_neg hid, if_neg hid, if_neg hid]

theorem rows_rekey {existing : AgentRow} {isEnabled isDisabled : Bool}
    (h : db.rekeyUsernameMatchedImport stamp actor existing a isEnabled isDisabled = .ok db') :
    db'.store.agents.rows = db.store.agents.rows.map fun r =>
      if r.id = boundText existing.id then
        a.set stamp isEnabled isDisabled (existing.version + 1) r
      else r := by
  rw [AgentStateDb.rekeyUsernameMatchedImport] at h
  split at h
  · cases h
  · split at h
    · cases h
    · next agents hrekey =>
        dsimp only at h
        split at h
        · cases h
        · next store hevent =>
            cases h
            show store.agents.rows = _
            rw [agents_writeEvent hevent]
            rw [Table.rekey] at hrekey
            split_ifs at hrekey
            cases hrekey
            refine List.map_congr_left fun r _ => ?_
            simp only [decide_eq_true_eq]

theorem rows_createAgent {uuid : Text} {spec : CreateAgentSpec}
    (h : s.createAgent stamp uuid actor spec = .ok s') :
    ∃ row, row.id = boundText (spec.id.getD uuid) ∧ row.username = boundText spec.username ∧
      row.flags = ⟨spec.desiredEnabled, spec.operatorDisabled⟩ ∧
        s'.agents.rows = s.agents.rows ++ [row] := by
  rw [AgentStateStore.createAgent] at h
  split at h
  · cases h
  · split at h
    · cases h
    · next agents hinsert =>
        have hrows := congrArg Table.rows (agents_writeEvent h)
        refine ⟨_, ?_, ?_, ?_, hrows.trans (Table.insert_eq_some hinsert).2⟩
        · rfl
        · rfl
        · rfl

/-- The table after the turn of an agent. -/
inductive ImportMove (enabled disabled : List Text) (s : AgentStateStore) (a : AgentInfo)
    (s' : AgentStateStore) : Prop where
  | setFlags {row : AgentRow} {version : ℕ} {now : Text} (hrow : s.getAgent a.id = some row)
      (hrows : s'.agents.rows = s.agents.rows.map fun r =>
        if r.id = boundText a.id then r.reflag (fileFlags enabled disabled a none) version now
        else r)
  | takeOver {existing : AgentRow} {stamp : Stamp} (hnone : s.getAgent a.id = none)
      (hmatch : s.getByUsername a.username = some existing)
      (hrows : s'.agents.rows = s.agents.rows.map fun r =>
        if r.id = boundText existing.id then
          a.set stamp (fileFlags enabled disabled a (some existing.id)).desiredEnabled
            (fileFlags enabled disabled a (some existing.id)).operatorDisabled
            (existing.version + 1) r
        else r)
  | create {row : AgentRow} (hnone : s.getAgent a.id = none)
      (hmatch : s.getByUsername a.username = none) (hid : row.id = boundText a.id)
      (hname : row.username = boundText a.username)
      (hflags : row.flags = fileFlags enabled disabled a none)
      (hrows : s'.agents.rows = s.agents.rows ++ [row])

theorem importMove {imported : Imported}
    (h : db.importAgent enabled disabled actor imported = .ok db') :
    ImportMove enabled disabled db.store imported.info db'.store := by
  rw [AgentStateDb.importAgent] at h
  cases hexisting : db.store.getAgent imported.info.id with
  | some row =>
      simp only [hexisting] at h
      split at h
      · cases h
      · next store hdisabled =>
          split at h
          · cases h
          · next store' henabled =>
              cases h
              obtain ⟨version, hrows⟩ := rows_setFlags hdisabled henabled
              exact .setFlags hexisting hrows
  | none =>
      cases hmatch : db.store.getByUsername imported.info.username with
      | some existing =>
          simp only [hexisting, hmatch] at h
          exact .takeOver hexisting hmatch (rows_rekey h)
      | none =>
          simp only [hexisting, hmatch] at h
          split at h
          · cases h
          · next store hcreate =>
              cases h
              obtain ⟨row, hid, hname, hflags, hrows⟩ := rows_createAgent hcreate
              exact .create hexisting hmatch hid hname hflags hrows

/-! ## Ids and usernames -/

/-- The id and the username of every row. -/
def AgentStateStore.keys (s : AgentStateStore) : List (Text × Text) :=
  s.agents.rows.map fun r => (r.id, r.username)

/-- The id of the row that the agent takes over. -/
def previousId (keys : List (Text × Text)) (a : AgentInfo) : Option Text :=
  if keys.any fun k => k.1 = boundText a.id then none
  else (keys.find? fun k => k.2 = boundText a.username).map Prod.fst

/-- The ids and usernames after the agent's turn. -/
def importKeys (keys : List (Text × Text)) (a : AgentInfo) : List (Text × Text) :=
  if keys.any fun k => k.1 = boundText a.id then keys
  else
    match previousId keys a with
    | some previous =>
        keys.map fun k => if k.1 = previous then (boundText a.id, boundText a.username) else k
    | none => keys ++ [(boundText a.id, boundText a.username)]

/-- The ids are as the text column gives them back. -/
def StoredText (s : AgentStateStore) : Prop := ∀ r ∈ s.agents.rows, boundText r.id = r.id

theorem id_eq_of_content (h : r.content = row.content) : r.id = row.id := by
  have hid : r.content.id = row.content.id := congrArg AgentRow.id h
  exact hid

theorem flags_eq_of_content (h : r.content = row.content) : r.flags = row.flags := by
  have hflags : r.content.flags = row.content.flags := congrArg AgentRow.flags h
  exact hflags

theorem getAgent_eq_some_iff :
    s.getAgent id = some r ↔ r ∈ s.agents.rows ∧ r.id = boundText id := Table.get_eq_some_iff

theorem getAgent_eq_none_iff :
    s.getAgent id = none ↔ ∀ r ∈ s.agents.rows, r.id ≠ boundText id := Table.get_eq_none_iff

theorem any_keys : (s.keys.any fun k => k.1 = boundText id) = (s.getAgent id).isSome := by
  rw [AgentStateStore.keys, List.any_map, AgentStateStore.getAgent, Table.get,
    List.isSome_find?]
  rfl

theorem find_keys {username : Text} :
    (s.keys.find? fun k => k.2 = boundText username).map Prod.fst =
      (s.getByUsername username).map AgentRow.id := by
  rw [AgentStateStore.keys, List.find?_map, Option.map_map, AgentStateStore.getByUsername]
  rfl

theorem previousId_of_some (h : s.getAgent a.id = some row) : previousId s.keys a = none := by
  rw [previousId, any_keys, h]
  rfl

theorem previousId_of_none (h : s.getAgent a.id = none) :
    previousId s.keys a = (s.getByUsername a.username).map AgentRow.id := by
  rw [previousId, any_keys, h, ← find_keys]
  rfl

theorem getByUsername_eq_some (h : s.getByUsername id = some r) :
    r ∈ s.agents.rows ∧ r.username = boundText id :=
  ⟨List.mem_of_find?_eq_some h, by simpa using List.find?_some h⟩

theorem row_unique (hr : r ∈ s.agents.rows) (hrow : row ∈ s.agents.rows) (h : r.id = row.id) :
    r = row := List.inj_on_of_nodup_map s.agents.nodup hr hrow h

/-! ## What a turn leaves of a row, and what it places -/

theorem storedText_importMove (hstored : StoredText s) (h : ImportMove enabled disabled s a s') :
    StoredText s' := by
  intro r hr
  cases h with
  | setFlags hrow hrows =>
      rw [hrows] at hr
      obtain ⟨r', hr', rfl⟩ := List.mem_map.mp hr
      split_ifs
      · exact hstored r' hr'
      · exact hstored r' hr'
  | takeOver hnone hmatch hrows =>
      rw [hrows] at hr
      obtain ⟨r', hr', rfl⟩ := List.mem_map.mp hr
      split_ifs
      · exact boundText_boundText a.id
      · exact hstored r' hr'
  | create hnone hmatch hid hname hflags hrows =>
      rw [hrows] at hr
      rcases List.mem_append.mp hr with hr | hr
      · exact hstored r hr
      · rw [List.mem_singleton.mp hr, hid]
        exact boundText_boundText a.id

/-- A row is touched through its id, or taken over. -/
theorem mem_importMove (hstored : StoredText s) (h : ImportMove enabled disabled s a s')
    (hr : r ∈ s.agents.rows) (hid : r.id ≠ boundText a.id)
    (hprevious : previousId s.keys a ≠ some r.id) :
    r ∈ s'.agents.rows := by
  cases h with
  | setFlags hrow hrows =>
      rw [hrows]
      exact List.mem_map.mpr ⟨r, hr, if_neg hid⟩
  | @takeOver existing stamp hnone hmatch hrows =>
      rw [previousId_of_none hnone, hmatch, Option.map_some] at hprevious
      rw [hrows, hstored existing (getByUsername_eq_some hmatch).1]
      exact List.mem_map.mpr ⟨r, hr, if_neg fun heq => hprevious (congrArg some heq.symm)⟩
  | create hnone hmatch hid hname hflags hrows =>
      rw [hrows]
      exact List.mem_append_left _ hr

theorem previousId_ne_of_username (hr : r ∈ s.agents.rows)
    (hname : r.username ≠ boundText a.username) : previousId s.keys a ≠ some r.id := by
  intro hprevious
  cases hagent : s.getAgent a.id with
  | some row =>
      rw [previousId_of_some hagent] at hprevious
      cases hprevious
  | none =>
      rw [previousId_of_none hagent] at hprevious
      obtain ⟨existing, hmatch, hid⟩ := Option.map_eq_some_iff.mp hprevious
      obtain ⟨hmem, husername⟩ := getByUsername_eq_some hmatch
      exact hname (row_unique hmem hr hid ▸ husername)

/-- The row of the agent after its turn. -/
theorem placed_importMove (hstored : StoredText s) (h : ImportMove enabled disabled s a s') :
    ∃ row ∈ s'.agents.rows, row.id = boundText a.id ∧
      row.flags = fileFlags enabled disabled a (previousId s.keys a) ∧
      (s.getAgent a.id = none → row.username = boundText a.username) := by
  cases h with
  | @setFlags row version now hrow hrows =>
      obtain ⟨hmem, hid⟩ := getAgent_eq_some_iff.mp hrow
      rw [previousId_of_some hrow, hrows, hrow]
      exact ⟨_, List.mem_map.mpr ⟨row, hmem, if_pos hid⟩, hid, rfl, fun h => by cases h⟩
  | @takeOver existing stamp hnone hmatch hrows =>
      obtain ⟨hmem, hname⟩ := getByUsername_eq_some hmatch
      rw [previousId_of_none hnone, hmatch, hrows]
      exact ⟨_, List.mem_map.mpr ⟨existing, hmem, if_pos (hstored existing hmem).symm⟩, rfl, rfl,
        fun _ => rfl⟩
  | @create row hnone hmatch hid hname hflags hrows =>
      rw [previousId_of_none hnone, hmatch, hrows]
      exact ⟨row, List.mem_append_right _ (List.mem_singleton_self _), hid, hflags, fun _ => hname⟩

theorem keys_importMove (hstored : StoredText s) (h : ImportMove enabled disabled s a s') :
    s'.keys = importKeys s.keys a := by
  rw [importKeys, any_keys]
  cases h with
  | setFlags hrow hrows =>
      rw [hrow, AgentStateStore.keys, hrows, List.map_map]
      refine List.map_congr_left fun r _ => ?_
      rw [Function.comp_apply]
      split_ifs <;> rfl
  | @takeOver existing stamp hnone hmatch hrows =>
      obtain ⟨hmem, hname⟩ := getByUsername_eq_some hmatch
      rw [previousId_of_none hnone, hnone, hmatch, AgentStateStore.keys, hrows, List.map_map,
        hstored existing hmem]
      show _ = List.map _ (List.map _ _)
      rw [List.map_map]
      refine List.map_congr_left fun r _ => ?_
      rw [Function.comp_apply, Function.comp_apply]
      split_ifs <;> rfl
  | create hnone hmatch hid hname hflags hrows =>
      rw [previousId_of_none hnone, hnone, hmatch, AgentStateStore.keys, hrows, List.map_append]
      simp [hid, hname, AgentStateStore.keys]

/-! ## A whole import -/

/-- The turns of the agents, one after the other. -/
inductive ImportRun (enabled disabled : List Text) :
    AgentStateStore → List AgentInfo → AgentStateStore → Prop where
  | nil (s : AgentStateStore) : ImportRun enabled disabled s [] s
  | cons {s s' s'' : AgentStateStore} {a : AgentInfo} {rest : List AgentInfo}
      (hmove : ImportMove enabled disabled s a s') (h : ImportRun enabled disabled s' rest s'') :
      ImportRun enabled disabled s (a :: rest) s''

variable {agents pre post : List AgentInfo}

theorem importRun {imported : List Imported}
    (h : db.importAgents enabled disabled actor imported = .ok db') :
    ImportRun enabled disabled db.store (imported.map Imported.info) db'.store := by
  induction imported generalizing db with
  | nil =>
      cases h
      exact .nil _
  | cons a rest ih =>
      rw [AgentStateDb.importAgents] at h
      split at h
      · cases h
      · next db₁ hone => exact .cons (importMove hone) (ih h)

theorem importRun_of_importFromJson {imported : List Imported}
    {result : AgentStateDb × ℕ × List Text}
    (h : db.importFromJson imported enabled disabled actor = .ok result) :
    ImportRun enabled disabled db.store (imported.map Imported.info) result.1.store := by
  rw [AgentStateDb.importFromJson] at h
  split at h
  · cases h
  · next hok =>
      cases h
      exact importRun hok

theorem importRun_append (h : ImportRun enabled disabled s (pre ++ post) s') :
    ∃ t, ImportRun enabled disabled s pre t ∧ ImportRun enabled disabled t post s' := by
  induction pre generalizing s with
  | nil => exact ⟨s, .nil s, h⟩
  | cons a pre ih =>
      cases h with
      | cons hmove h =>
          obtain ⟨t, hpre, hpost⟩ := ih h
          exact ⟨t, .cons hmove hpre, hpost⟩

theorem storedText_importRun (hstored : StoredText s) (h : ImportRun enabled disabled s agents s') :
    StoredText s' := by
  induction h with
  | nil => exact hstored
  | cons hmove h ih => exact ih (storedText_importMove hstored hmove)

theorem keys_importRun (hstored : StoredText s) (h : ImportRun enabled disabled s agents s') :
    s'.keys = agents.foldl importKeys s.keys := by
  induction h with
  | nil => rfl
  | cons hmove h ih =>
      rw [List.foldl_cons, ← keys_importMove hstored hmove]
      exact ih (storedText_importMove hstored hmove)

/-- A row that no agent of the list has by its id and none takes over. -/
theorem mem_importRun (hstored : StoredText s) (h : ImportRun enabled disabled s agents s')
    (hr : r ∈ s.agents.rows) (hids : ∀ a ∈ agents, r.id ≠ boundText a.id)
    (hprevious : ∀ pre a post, agents = pre ++ a :: post →
      previousId (pre.foldl importKeys s.keys) a ≠ some r.id) : r ∈ s'.agents.rows := by
  induction h with
  | nil => exact hr
  | @cons s s' s'' a rest hmove h ih =>
      have hone := mem_importMove hstored hmove hr (hids a List.mem_cons_self)
        (hprevious [] a rest rfl)
      refine ih (storedText_importMove hstored hmove) hone
        (fun b hb => hids b (List.mem_cons_of_mem a hb)) fun pre b post hsplit => ?_
      have hlater := hprevious (a :: pre) b post (by rw [hsplit]; rfl)
      rwa [List.foldl_cons, ← keys_importMove hstored hmove] at hlater

/-- A row of another username is not taken over. -/
theorem mem_importRun_of_username (hstored : StoredText s)
    (h : ImportRun enabled disabled s agents s') (hr : r ∈ s.agents.rows)
    (hids : ∀ a ∈ agents, r.id ≠ boundText a.id)
    (hnames : ∀ a ∈ agents, r.username ≠ boundText a.username) : r ∈ s'.agents.rows := by
  induction h with
  | nil => exact hr
  | @cons s s' s'' a rest hmove h ih =>
      have hone := mem_importMove hstored hmove hr (hids a List.mem_cons_self)
        (previousId_ne_of_username hr (hnames a List.mem_cons_self))
      exact ih (storedText_importMove hstored hmove) hone
        (fun b hb => hids b (List.mem_cons_of_mem a hb))
        fun b hb => hnames b (List.mem_cons_of_mem a hb)

/-- An id that has gone is not given again but to an agent of the list. -/
theorem id_gone_importRun (hstored : StoredText s) (h : ImportRun enabled disabled s agents s')
    (hids : ∀ a ∈ agents, boundText a.id ≠ id) (hgone : ∀ r ∈ s.agents.rows, r.id ≠ id) :
    ∀ r ∈ s'.agents.rows, r.id ≠ id := by
  induction h with
  | nil => exact hgone
  | @cons s s' s'' a rest hmove h ih =>
      have ha := hids a List.mem_cons_self
      refine ih (storedText_importMove hstored hmove)
        (fun b hb => hids b (List.mem_cons_of_mem a hb)) fun r hr => ?_
      cases hmove with
      | setFlags hrow hrows =>
          rw [hrows] at hr
          obtain ⟨r', hr', rfl⟩ := List.mem_map.mp hr
          split_ifs
          · exact hgone r' hr'
          · exact hgone r' hr'
      | takeOver hnone hmatch hrows =>
          rw [hrows] at hr
          obtain ⟨r', hr', rfl⟩ := List.mem_map.mp hr
          split_ifs
          · exact ha
          · exact hgone r' hr'
      | create hnone hmatch hid hname hflags hrows =>
          rw [hrows] at hr
          rcases List.mem_append.mp hr with hr | hr
          · exact hgone r hr
          · rw [List.mem_singleton.mp hr, hid]
            exact ha

/-! ## Importing twice -/

/-- In no turn is the row of an earlier agent taken over, and the id of a row
that is taken over adds nothing to the flags. -/
def Settles (enabled disabled : List Text) (keys : List (Text × Text)) (agents : List AgentInfo) :
    Prop :=
  ∀ pre a post previous, agents = pre ++ a :: post →
    previousId (pre.foldl importKeys keys) a = some previous →
      (∀ b ∈ pre, boundText b.id ≠ previous) ∧
        fileFlags enabled disabled a (some previous) = fileFlags enabled disabled a none

/-- What an import of the agents, and a second one, are to do: every agent has a
row with its flags, the rows that the list does not name are left alone, and the
second import changes nothing but versions and times. -/
structure ImportedOnce (enabled disabled : List Text) (s s₁ s₂ : AgentStateStore)
    (agents : List AgentInfo) : Prop where
  complete : ∀ pre a post, agents = pre ++ a :: post →
    ∃ row, s₁.getAgent a.id = some row ∧
      row.flags = fileFlags enabled disabled a (previousId (pre.foldl importKeys s.keys) a)
  others : ∀ r ∈ s.agents.rows,
    (∀ a ∈ agents, r.id ≠ boundText a.id ∧ r.username ≠ boundText a.username) → r ∈ s₁.agents.rows
  idempotent : (s₂.agents.rows.map AgentRow.content).Perm (s₁.agents.rows.map AgentRow.content)

variable {s₁ s₂ : AgentStateStore}

/-- Distinct ids and distinct usernames, as the columns hold them. -/
def DistinctKeys (a b : AgentInfo) : Prop :=
  boundText a.id ≠ boundText b.id ∧ boundText a.username ≠ boundText b.username

/-- Where there is a row with its flags for every agent, an import changes
nothing of them. -/
theorem content_importRun (hall : ∀ a ∈ agents, ∃ row ∈ s.agents.rows, row.id = boundText a.id ∧
    row.flags = fileFlags enabled disabled a none) (h : ImportRun enabled disabled s agents s') :
    s'.agents.rows.map AgentRow.content = s.agents.rows.map AgentRow.content := by
  induction h with
  | nil => rfl
  | @cons s s' s'' a rest hmove h ih =>
      obtain ⟨row, hrow, hid, hflags⟩ := hall a List.mem_cons_self
      have hagent : s.getAgent a.id = some row := getAgent_eq_some_iff.mpr ⟨hrow, hid⟩
      have hsame : s'.agents.rows.map AgentRow.content = s.agents.rows.map AgentRow.content := by
        cases hmove with
        | @setFlags row' version now hrow' hrows =>
            rw [hrows, List.map_map]
            refine List.map_congr_left fun r hr => ?_
            rw [Function.comp_apply]
            split_ifs with hrid
            · have hrow : r = row := row_unique hr hrow (hrid.trans hid.symm)
              rw [AgentRow.reflag, ← hflags, hrow]
              rfl
            · rfl
        | takeOver hnone hmatch hrows =>
            rw [hagent] at hnone
            cases hnone
        | create hnone hmatch hid hname hflags hrows =>
            rw [hagent] at hnone
            cases hnone
      rw [← hsame]
      refine ih fun b hb => ?_
      obtain ⟨rowb, hrowb, hidb, hflagsb⟩ := hall b (List.mem_cons_of_mem a hb)
      have hmem : rowb.content ∈ s'.agents.rows.map AgentRow.content :=
        hsame ▸ List.mem_map_of_mem hrowb
      obtain ⟨r, hr, hcontent⟩ := List.mem_map.mp hmem
      exact ⟨r, hr, (id_eq_of_content hcontent).trans hidb,
        (flags_eq_of_content hcontent).trans hflagsb⟩

/-- The row of an agent stays as its turn has left it. -/
theorem complete_of_settles (hstored : StoredText s) (hapart : agents.Pairwise DistinctKeys)
    (h : ImportRun enabled disabled s agents s₁)
    (hsettles : Settles enabled disabled s.keys agents) (hsplit : agents = pre ++ a :: post) :
    ∃ row ∈ s₁.agents.rows, row.id = boundText a.id ∧
      row.flags = fileFlags enabled disabled a (previousId (pre.foldl importKeys s.keys) a) := by
  rw [hsplit] at h hapart
  obtain ⟨t, hpre, hrest⟩ := importRun_append h
  have htstored := storedText_importRun hstored hpre
  have htkeys := keys_importRun hstored hpre
  cases hrest with
  | cons hmove hpost =>
      obtain ⟨row, hrow, hid, hflags, -⟩ := placed_importMove htstored hmove
      rw [htkeys] at hflags
      refine ⟨row, ?_, hid, hflags⟩
      have hlater := (List.pairwise_cons.mp (List.pairwise_append.mp hapart).2.1).1
      refine mem_importRun (storedText_importMove htstored hmove) hpost hrow
        (fun b hb => hid ▸ (hlater b hb).1) fun pre' c post' hsplit' hprevious => ?_
      -- The agent that takes it over comes later in the list.
      have hkeys : (pre ++ a :: pre').foldl importKeys s.keys =
          pre'.foldl importKeys (importKeys t.keys a) := by
        rw [List.foldl_append, List.foldl_cons, htkeys]
      rw [keys_importMove htstored hmove, ← hkeys] at hprevious
      have hswallowed := (hsettles (pre ++ a :: pre') c post' row.id
        (by rw [hsplit, hsplit']; simp) hprevious).1 a (by simp)
      exact hswallowed hid.symm

theorem idempotent_of_settles (hstored : StoredText s) (hapart : agents.Pairwise DistinctKeys)
    (h : ImportRun enabled disabled s agents s₁) (h' : ImportRun enabled disabled s₁ agents s₂)
    (hsettles : Settles enabled disabled s.keys agents) :
    s₂.agents.rows.map AgentRow.content = s₁.agents.rows.map AgentRow.content := by
  refine content_importRun (fun a ha => ?_) h'
  obtain ⟨pre, post, hsplit⟩ := List.append_of_mem ha
  obtain ⟨row, hrow, hid, hflags⟩ := complete_of_settles hstored hapart h hsettles hsplit
  refine ⟨row, hrow, hid, hflags.trans ?_⟩
  cases hprevious : previousId (pre.foldl importKeys s.keys) a with
  | none => rfl
  | some previous => exact (hsettles pre a post previous hsplit hprevious).2

/-- The row that is taken over has the new id and no longer the old one. -/
theorem gone_of_takeOver (hstored : StoredText s) (h : ImportMove enabled disabled s a s')
    {previous : Text} (hprevious : previousId s.keys a = some previous) :
    ∀ r ∈ s'.agents.rows, r.id ≠ previous := by
  cases h with
  | setFlags hrow hrows =>
      rw [previousId_of_some hrow] at hprevious
      cases hprevious
  | @takeOver existing stamp hnone hmatch hrows =>
      obtain ⟨hmem, -⟩ := getByUsername_eq_some hmatch
      rw [previousId_of_none hnone, hmatch, Option.map_some, Option.some.injEq] at hprevious
      intro r hr
      rw [hrows, hstored existing hmem] at hr
      obtain ⟨r', hr', rfl⟩ := List.mem_map.mp hr
      rw [← hprevious]
      split_ifs with hid
      · exact fun heq => getAgent_eq_none_iff.mp hnone existing hmem heq.symm
      · exact hid
  | create hnone hmatch hid hname hflags hrows =>
      rw [previousId_of_none hnone, hmatch] at hprevious
      cases hprevious

theorem getAgent_of_previousId {previous : Text} (h : previousId s.keys a = some previous) :
    s.getAgent a.id = none := by
  cases hagent : s.getAgent a.id with
  | none => rfl
  | some row =>
      rw [previousId_of_some hagent] at h
      cases h

/-- A row that is there under the agent's id takes its flags. -/
theorem reflagged_importMove (h : ImportMove enabled disabled s a s')
    (hagent : s.getAgent a.id = some row) :
    ∃ version now, row.reflag (fileFlags enabled disabled a none) version now ∈ s'.agents.rows := by
  obtain ⟨hmem, hid⟩ := getAgent_eq_some_iff.mp hagent
  cases h with
  | setFlags hrow hrows =>
      rw [hrows]
      exact ⟨_, _, List.mem_map.mpr ⟨row, hmem, if_pos hid⟩⟩
  | takeOver hnone hmatch hrows =>
      rw [hagent] at hnone
      cases hnone
  | create hnone hmatch hid hname hflags hrows =>
      rw [hagent] at hnone
      cases hnone

theorem settles_of_imported (hstored : StoredText s) (hapart : agents.Pairwise DistinctKeys)
    (h : ImportRun enabled disabled s agents s₁) (h' : ImportRun enabled disabled s₁ agents s₂)
    (himported : ImportedOnce enabled disabled s s₁ s₂ agents) :
    Settles enabled disabled s.keys agents := by
  intro pre a post previous hsplit hprevious
  have hrun := h
  rw [hsplit] at hrun
  have hapart' := hsplit ▸ hapart
  obtain ⟨hpreApart, hrestApart, hacross⟩ := List.pairwise_append.mp hapart'
  have hlater := (List.pairwise_cons.mp hrestApart).1
  obtain ⟨t, hpre, hrest⟩ := importRun_append hrun
  have htstored := storedText_importRun hstored hpre
  rw [← keys_importRun hstored hpre] at hprevious
  cases hrest with
  | @cons _ u _ _ _ hmove hpost =>
      have hustored := storedText_importMove htstored hmove
      constructor
      · -- The agent would be left without a row.
        intro b hb hid
        obtain ⟨before, between, hsplitb⟩ := List.append_of_mem hb
        have hbsplit : agents = before ++ b :: (between ++ a :: post) := by
          rw [hsplit, hsplitb]
          simp
        obtain ⟨row, hrow, -⟩ := himported.complete before b _ hbsplit
        obtain ⟨hmem, hrowid⟩ := getAgent_eq_some_iff.mp hrow
        refine id_gone_importRun hustored hpost (fun c hc heq => ?_)
          (gone_of_takeOver htstored hmove hprevious) row hmem (hrowid.trans hid)
        exact (hacross b hb c (List.mem_cons_of_mem a hc)).1 (hid.trans heq.symm)
      · -- The second import finds the row under its new id.
        obtain ⟨row, hrow, hid, hflags, hname⟩ := placed_importMove htstored hmove
        have hname := hname (getAgent_of_previousId hprevious)
        rw [hprevious] at hflags
        have hrow₁ := mem_importRun_of_username hustored hpost hrow
          (fun c hc => hid ▸ (hlater c hc).1) fun c hc => hname ▸ (hlater c hc).2
        have hstored₁ := storedText_importRun hstored h
        rw [hsplit] at h'
        obtain ⟨t', hpre', hrest'⟩ := importRun_append h'
        have hrowt : row ∈ t'.agents.rows := mem_importRun_of_username hstored₁ hpre' hrow₁
          (fun c hc => hid ▸ (hacross c hc a List.mem_cons_self).1.symm)
          fun c hc => hname ▸ (hacross c hc a List.mem_cons_self).2.symm
        have ht'stored := storedText_importRun hstored₁ hpre'
        cases hrest' with
        | @cons _ u' _ _ _ hmove' hpost' =>
            have hagent : t'.getAgent a.id = some row := getAgent_eq_some_iff.mpr ⟨hrowt, hid⟩
            obtain ⟨version, now, hrow'⟩ := reflagged_importMove hmove' hagent
            have hrow₂ := mem_importRun_of_username (storedText_importMove ht'stored hmove') hpost'
              hrow' (fun c hc => hid ▸ (hlater c hc).1) fun c hc => hname ▸ (hlater c hc).2
            have hcontent : row.content ∈ s₂.agents.rows.map AgentRow.content :=
              himported.idempotent.mem_iff.mpr (List.mem_map_of_mem hrow₁)
            obtain ⟨r, hr, hsame⟩ := List.mem_map.mp hcontent
            have hrid := id_eq_of_content hsame
            have hrrow := row_unique hr hrow₂ hrid
            have hrflags := flags_eq_of_content hsame
            rw [← hflags, ← hrflags, hrrow]
            rfl

/-- An import of agents with distinct ids and usernames, and a second one of the
same, do what they are to do exactly when no row of an earlier agent is taken
over and old ids add nothing to the flags. -/
theorem importFromJson_imported_iff {agents again : List Imported} {db₁ db₂ : AgentStateDb}
    {n n' : ℕ} {orphans orphans' : List Text} (hstored : StoredText db.store)
    (hids : (agents.map fun a => boundText a.info.id).Nodup)
    (hnames : (agents.map fun a => boundText a.info.username).Nodup)
    (h : db.importFromJson agents enabled disabled actor = .ok (db₁, n, orphans))
    (hagain : again.map Imported.info = agents.map Imported.info)
    (h' : db₁.importFromJson again enabled disabled actor = .ok (db₂, n', orphans')) :
    ImportedOnce enabled disabled db.store db₁.store db₂.store (agents.map Imported.info) ↔
      Settles enabled disabled db.store.keys (agents.map Imported.info) := by
  have hrun : ImportRun enabled disabled db.store (agents.map Imported.info) db₁.store :=
    importRun_of_importFromJson h
  have hrun' : ImportRun enabled disabled db₁.store (agents.map Imported.info) db₂.store :=
    hagain ▸ importRun_of_importFromJson h'
  have hapart : (agents.map Imported.info).Pairwise DistinctKeys := by
    have hidsApart := List.pairwise_map.mp hids
    have hnamesApart := List.pairwise_map.mp hnames
    exact List.pairwise_map.mpr (hidsApart.and hnamesApart)
  constructor
  · exact settles_of_imported hstored hapart hrun hrun'
  · intro hsettles
    refine ⟨fun pre a post hsplit => ?_, fun r hr hothers => ?_,
      .of_eq (idempotent_of_settles hstored hapart hrun hrun' hsettles)⟩
    · obtain ⟨row, hrow, hid, hflags⟩ := complete_of_settles hstored hapart hrun hsettles hsplit
      exact ⟨row, getAgent_eq_some_iff.mpr ⟨hrow, hid⟩, hflags⟩
    · exact mem_importRun_of_username hstored hrun hr (fun a ha => (hothers a ha).1)
        fun a ha => (hothers a ha).2

/-! ## The row of an earlier agent

The clerk's row is under `a1`. In the file that is the id of the cook, and the
clerk has one of its own. -/

def plainInfo (id username : String) : AgentInfo :=
  { id := js id, username := js username, email := none, name := js username, role := none
    team := none, runtimeEnvironment := none, executionMethod := none, model := none
    modelFallbacks := none, modelOverrides := none, skills := [], env := none
    resourceLimits := none }

def arriving (stamp nextStamp : String) (a : AgentInfo) : Imported :=
  ⟨a, ⟨[], js stamp⟩, ⟨[], js nextStamp⟩⟩

@[simp] theorem arriving_info (stamp nextStamp : String) (a : AgentInfo) :
    (arriving stamp nextStamp a).info = a := rfl

instance : Decidable (StoredText s) :=
  inferInstanceAs (Decidable (∀ r ∈ s.agents.rows, boundText r.id = r.id))

theorem storedText_clerk : StoredText clerkStore := by decide +kernel

theorem imports_of_isOk {agents again : List Imported}
    (h : ((db.importFromJson agents enabled disabled actor).bind fun first =>
      first.1.importFromJson again enabled disabled actor).isOk = true) :
    ∃ db₁ n orphans db₂ n' orphans',
      db.importFromJson agents enabled disabled actor = .ok (db₁, n, orphans) ∧
        db₁.importFromJson again enabled disabled actor = .ok (db₂, n', orphans') := by
  cases hfirst : db.importFromJson agents enabled disabled actor with
  | error e =>
      rw [hfirst] at h
      cases h
  | ok first =>
      obtain ⟨db₁, n, orphans⟩ := first
      have hsecond : (db₁.importFromJson again enabled disabled actor).isOk = true := by
        rw [hfirst] at h
        exact h
      cases hagain : db₁.importFromJson again enabled disabled actor with
      | error e =>
          rw [hagain] at hsecond
          cases hsecond
      | ok second =>
          obtain ⟨db₂, n', orphans'⟩ := second
          exact ⟨db₁, n, orphans, db₂, n', orphans', rfl, hagain⟩

/-- The clerk comes under another id, and is enabled under that. -/
theorem importFromJson_imported_iff_clerk :
    ∃ db₁ n orphans db₂ n' orphans',
      AgentStateDb.importFromJson ⟨clerkStore, .empty⟩
        [arriving "e2" "e3" (plainInfo "a2" "clerk")] [js "a2"] [] (js "migration") =
          .ok (db₁, n, orphans) ∧
      db₁.importFromJson [arriving "e4" "e5" (plainInfo "a2" "clerk")] [js "a2"] []
        (js "migration") = .ok (db₂, n', orphans') ∧
      ImportedOnce [js "a2"] [] clerkStore db₁.store db₂.store [plainInfo "a2" "clerk"] := by
  obtain ⟨db₁, n, orphans, db₂, n', orphans', hfirst, hsecond⟩ :=
    @imports_of_isOk ⟨clerkStore, .empty⟩ [js "a2"] [] (js "migration")
      [arriving "e2" "e3" (plainInfo "a2" "clerk")] [arriving "e4" "e5" (plainInfo "a2" "clerk")]
      (by decide +kernel)
  have hsettles : Settles [js "a2"] [] clerkStore.keys [plainInfo "a2" "clerk"] := by
    intro pre a post previous hsplit hprevious
    cases pre with
    | cons b pre => simp at hsplit
    | nil =>
        obtain ⟨rfl, -⟩ := List.cons.inj hsplit
        have hclerk : previousId clerkStore.keys (plainInfo "a2" "clerk") = some (js "a1") := by
          decide +kernel
        obtain rfl : js "a1" = previous := Option.some.inj (hclerk.symm.trans hprevious)
        exact ⟨by simp, by decide +kernel⟩
  exact ⟨db₁, n, orphans, db₂, n', orphans', hfirst, hsecond,
    (importFromJson_imported_iff storedText_clerk (by decide +kernel) (by decide +kernel) hfirst
      (by simp only [List.map_cons, List.map_nil, arriving_info]) hsecond).mpr hsettles⟩

/-- The cook takes the flags of the row under its id, and the clerk then takes
that row over. -/
theorem listed_agent_without_row : ¬ ∀ (db db₁ db₂ : AgentStateDb) (agents again : List Imported)
    (enabled disabled orphans orphans' : List Text) (actor : Text) (n n' : ℕ),
    StoredText db.store → (agents.map fun a => boundText a.info.id).Nodup →
      (agents.map fun a => boundText a.info.username).Nodup →
        db.importFromJson agents enabled disabled actor = .ok (db₁, n, orphans) →
          again.map Imported.info = agents.map Imported.info →
            db₁.importFromJson again enabled disabled actor = .ok (db₂, n', orphans') →
              ImportedOnce enabled disabled db.store db₁.store db₂.store
                (agents.map Imported.info) := by
  intro h
  obtain ⟨db₁, n, orphans, db₂, n', orphans', hfirst, hsecond⟩ :=
    @imports_of_isOk ⟨clerkStore, .empty⟩ [] [] (js "migration")
      [arriving "e2" "e3" (plainInfo "a1" "cook"), arriving "e4" "e5" (plainInfo "a2" "clerk")]
      [arriving "e6" "e7" (plainInfo "a1" "cook"), arriving "e8" "e9" (plainInfo "a2" "clerk")]
      (by decide +kernel)
  have himported := h _ _ _ _ _ _ _ _ _ _ _ _ storedText_clerk (by decide +kernel)
    (by decide +kernel) hfirst (by simp only [List.map_cons, List.map_nil, arriving_info]) hsecond
  obtain ⟨row, hrow, -⟩ :=
    himported.complete [] (plainInfo "a1" "cook") [plainInfo "a2" "clerk"] rfl
  have hnone : (AgentStateDb.importFromJson ⟨clerkStore, .empty⟩
      [arriving "e2" "e3" (plainInfo "a1" "cook"), arriving "e4" "e5" (plainInfo "a2" "clerk")]
      [] [] (js "migration")).toOption.map
        (fun first => (first.1.store.getAgent (js "a1")).isNone) = some true := by
    decide +kernel
  rw [hfirst] at hnone
  have hgone : (db₁.store.getAgent (js "a1")).isNone = true := Option.some.inj hnone
  have hthere : db₁.store.getAgent (js "a1") = some row := hrow
  rw [hthere] at hgone
  cases hgone

end Shizuha.Daemon
