import Shizuha.Daemon.AgentState
import Shizuha.Proofs.AgentImport
import Shizuha.Proofs.MergedExport

/-!
# What the seeding leaves of the store

Every read and every write of the agents may import the whole list, which
writes the flags of the two files over the rows of the agents. Rows keep their
places in the table, so what becomes of a row is read at its place: an agent
that does not name the row leaves it, and one that does gives it its own id and
flags (`row_importRun`).
-/

namespace Shizuha.Daemon

open Js State

variable {s s' : AgentStateStore} {db : AgentStateDb} {enabled disabled : List Text}
  {a : AgentInfo} {agents : List AgentInfo} {r : AgentRow} {i : ℕ}

/-- The agent names the row, by its id or by its username. -/
def AgentInfo.Names (a : AgentInfo) (r : AgentRow) : Prop :=
  r.id = boundText a.id ∨ r.username = boundText a.username

/-- The row has the id of the agent and the flags that the files give it. -/
structure Assigned (enabled disabled : List Text) (keys : List (Text × Text)) (a : AgentInfo)
    (r : AgentRow) : Prop where
  id : r.id = boundText a.id
  flags : r.flags = fileFlags enabled disabled a (previousId keys a)

theorem row_importMove (hstored : StoredText s) (h : ImportMove enabled disabled s a s')
    (hr : s.agents.rows[i]? = some r) :
    ∃ r', s'.agents.rows[i]? = some r' ∧
      (r' = r ∨ a.Names r ∧ Assigned enabled disabled s.keys a r') := by
  cases h with
  | @setFlags row version now hrow hrows =>
      rw [hrows, List.getElem?_map, hr]
      refine ⟨_, rfl, ?_⟩
      dsimp only
      split_ifs with hid
      · exact .inr ⟨.inl hid, hid, by rw [previousId_of_some hrow]; rfl⟩
      · exact .inl rfl
  | @takeOver existing stamp hnone hmatch hrows =>
      obtain ⟨hmem, hname⟩ := getByUsername_eq_some hmatch
      rw [hrows, List.getElem?_map, hr, hstored existing hmem]
      refine ⟨_, rfl, ?_⟩
      dsimp only
      split_ifs with hid
      · have hrow : r = existing := row_unique (List.mem_of_getElem? hr) hmem hid
        refine .inr ⟨.inr (hrow ▸ hname), rfl, ?_⟩
        rw [previousId_of_none hnone, hmatch]
        rfl
      · exact .inl rfl
  | create hnone hmatch hid hname hflags hrows =>
      rw [hrows]
      exact ⟨r, List.getElem?_append_left (List.getElem?_eq_some_iff.mp hr).1 ▸ hr, .inl rfl⟩

theorem row_importRun (hstored : StoredText s) (h : ImportRun enabled disabled s agents s')
    (hr : s.agents.rows[i]? = some r) :
    ∃ r', s'.agents.rows[i]? = some r' ∧
      (r' = r ∨ (∃ a ∈ agents, a.Names r) ∧ ∃ pre a post, agents = pre ++ a :: post ∧
        Assigned enabled disabled (pre.foldl importKeys s.keys) a r') := by
  induction h generalizing r with
  | nil => exact ⟨r, hr, .inl rfl⟩
  | @cons s s' s'' a rest hmove h ih =>
      obtain ⟨r₁, hr₁, hone⟩ := row_importMove hstored hmove hr
      obtain ⟨r₂, hr₂, hrest⟩ := ih (storedText_importMove hstored hmove) hr₁
      refine ⟨r₂, hr₂, ?_⟩
      rcases hrest with rfl | ⟨⟨b, hb, hnames⟩, pre, c, post, hsplit, hassigned⟩
      · rcases hone with rfl | ⟨hnames, hassigned⟩
        · exact .inl rfl
        · exact .inr ⟨⟨a, List.mem_cons_self, hnames⟩, [], a, rest, rfl, hassigned⟩
      · -- A later agent has touched it last.
        rw [keys_importMove hstored hmove] at hassigned
        refine .inr ⟨?_, a :: pre, c, post, by rw [hsplit]; rfl, hassigned⟩
        rcases hone with rfl | ⟨hnames', -⟩
        · exact ⟨b, List.mem_cons_of_mem a hb, hnames⟩
        · exact ⟨a, List.mem_cons_self, hnames'⟩

theorem info_stamped (stamps : ℕ → Stamp) (agents : List AgentInfo) :
    (stamped stamps agents).map Imported.info = agents := by
  refine List.ext_getElem? fun i => ?_
  rw [List.getElem?_map, stamped, List.getElem?_mapIdx]
  cases agents[i]? <;> rfl

/-- The seeding imports the list when an agent of it has no row. -/
theorem seededStore_cases (db : AgentStateDb) (stamps : ℕ → Stamp) (files : CompatFiles)
    (existingAgents : List AgentRecord) :
    seededStore db stamps files existingAgents = db ∨
      (existingAgents ≠ [] ∧ ∃ a ∈ existingAgents, db.store.getAgent a.id = none) ∧
        ImportRun files.enabled files.disabled db.store (existingAgents.map AgentRecord.normalized)
          (seededStore db stamps files existingAgents).store := by
  rw [seededStore, ensureAgentStoreSeeded]
  by_cases hnil : existingAgents = []
  · rw [if_pos hnil]
    exact .inl rfl
  · rw [if_neg hnil]
    dsimp only
    split_ifs with hmissing
    · exact .inl rfl
    · have hany : existingAgents.any (fun a => (db.store.getAgent a.id).isNone) = true := by
        simpa using hmissing
      cases himport : db.importFromJson (stamped stamps (existingAgents.map AgentRecord.normalized))
          files.enabled files.disabled (js "readAgents-cutover") with
      | error e => exact .inl rfl
      | ok result =>
          obtain ⟨a, ha, hnone⟩ := List.any_eq_true.mp hany
          have hrun := importRun_of_importFromJson himport
          rw [info_stamped] at hrun
          exact .inr ⟨⟨hnil, a, ha, Option.isNone_iff_eq_none.mp hnone⟩, hrun⟩

/-- The seeding changes nothing when every agent of the list has a row. When one
has none, a row is left as it is, or an agent names it and it has the id of an
agent of the list and the flags that the files give that agent at its turn. -/
theorem seededStore_rows (hstored : StoredText db.store) (stamps : ℕ → Stamp)
    (files : CompatFiles) (existingAgents : List AgentRecord) :
    ((∀ a ∈ existingAgents, (db.store.getAgent a.id).isSome = true) →
        seededStore db stamps files existingAgents = db) ∧
      ∀ (i : ℕ) (r : AgentRow), db.store.agents.rows[i]? = some r →
        ∃ r', (seededStore db stamps files existingAgents).store.agents.rows[i]? = some r' ∧
          (r' = r ∨ (∃ a ∈ existingAgents.map AgentRecord.normalized, a.Names r) ∧
            ∃ pre a post, existingAgents.map AgentRecord.normalized = pre ++ a :: post ∧
              Assigned files.enabled files.disabled (pre.foldl importKeys db.store.keys) a r') := by
  rcases seededStore_cases db stamps files existingAgents with hsame | ⟨⟨-, a, ha, hnone⟩, hrun⟩
  · rw [hsame]
    exact ⟨fun _ => rfl, fun i r hr => ⟨r, hr, .inl rfl⟩⟩
  · refine ⟨fun hall => ?_, fun i r hr => row_importRun hstored hrun hr⟩
    have hsome := hall a ha
    rw [hnone] at hsome
    cases hsome

/-! ## The calls that seed -/

theorem store_deriveAgentsFromStore (f : DaemonFiles) (stamps : ℕ → Stamp)
    (agents : List AgentRecord) :
    (deriveAgentsFromStore f stamps agents).1.store =
      f.store.map fun db => seededStore db stamps f.compat agents := by
  rw [deriveAgentsFromStore]
  cases hstore : f.store with
  | none => exact hstore
  | some db =>
      dsimp only
      rw [Option.map_some, seededStore]
      cases ensureAgentStoreSeeded db stamps f.compat agents with
      | error e => exact hstore
      | ok db' => rfl

theorem store_readAgents (f : DaemonFiles) (stamps : ℕ → Stamp) :
    (readAgents f stamps).1.store =
      f.store.map fun db => seededStore db stamps f.compat f.agentsJson :=
  store_deriveAgentsFromStore f stamps f.agentsJson

theorem store_writeAgents (f : DaemonFiles) (stamps : ℕ → Stamp) (agents : List AgentRecord) :
    (writeAgents f stamps agents).store =
      f.store.map fun db => seededStore db stamps f.compat agents :=
  store_deriveAgentsFromStore f stamps agents

/-! ## The clerk is enabled again

The operator has stopped the clerk, and the file of enabled agents still names
it. An agent that is new to the list is enough for the flags of that file. -/

def newcomers : List AgentRecord :=
  [plainRecord "a1" "clerk" "active", plainRecord "a2" "cook" "active"]

def eventStamps (i : ℕ) : Stamp := ⟨[], List.replicate (i + 3) 101⟩

theorem seededStore_rows_clerk :
    seededStore ⟨clerkStore, .empty⟩ eventStamps ⟨[js "a1"], []⟩
        [plainRecord "a1" "clerk" "active"] = ⟨clerkStore, .empty⟩ ∧
      ∃ r', (seededStore ⟨clerkStore, .empty⟩ eventStamps ⟨[js "a1"], []⟩
        newcomers).store.agents.rows[0]? = some r' := by
  obtain ⟨row, hrow⟩ : ∃ row, clerkStore.agents.rows[0]? = some row := ⟨_, rfl⟩
  obtain ⟨r', hr', -⟩ := (@seededStore_rows ⟨clerkStore, .empty⟩ storedText_clerk eventStamps
    ⟨[js "a1"], []⟩ newcomers).2 0 row hrow
  refine ⟨?_, r', hr'⟩
  exact (@seededStore_rows ⟨clerkStore, .empty⟩ storedText_clerk eventStamps ⟨[js "a1"], []⟩
    [plainRecord "a1" "clerk" "active"]).1 (by decide +kernel)

theorem stale_file_enables : ¬ ∀ (db : AgentStateDb) (stamps : ℕ → Stamp) (files : CompatFiles)
    (existingAgents : List AgentRecord) (id : Text) (r r' : AgentRow), StoredText db.store →
      db.store.getAgent id = some r →
        (seededStore db stamps files existingAgents).store.getAgent id = some r' →
          r'.flags = r.flags := by
  intro h
  have hbefore : (clerkStore.getAgent (js "a1")).map AgentRow.flags = some ⟨true, true⟩ := by
    decide +kernel
  have hafter : ((seededStore ⟨clerkStore, .empty⟩ eventStamps ⟨[js "a1"], []⟩
      newcomers).store.getAgent (js "a1")).map AgentRow.flags = some ⟨true, false⟩ := by
    decide +kernel
  obtain ⟨r, hr, hflags⟩ := Option.map_eq_some_iff.mp hbefore
  obtain ⟨r', hr', hflags'⟩ := Option.map_eq_some_iff.mp hafter
  have hsame := h ⟨clerkStore, .empty⟩ eventStamps ⟨[js "a1"], []⟩ newcomers (js "a1") r r'
    storedText_clerk hr hr'
  rw [hflags, hflags'] at hsame
  cases hsame

end Shizuha.Daemon
