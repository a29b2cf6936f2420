import Shizuha.Daemon.AgentState
import Shizuha.Proofs.KillSwitch

/-!
# What a version stands for

A client reads the row of an agent and later writes it with the version that it
read. `row_after` says once where the row of an agent comes from: it is the row
of before, or its successor, or one that was given the id when there was none.
The first two keep the client safe, since a version that has been passed does
not come back. The third starts the versions of the id again, at 1 when the
agent is created, and is what a run has to spare.
-/

namespace Shizuha.Daemon

open Js State Machine

/-- An update of the agent at this version that goes through. -/
def WritesOver (agentId : Text) (version : ℕ) (db : AgentStateDb) (op : AgentDbOp) : Prop :=
  ∃ stamp actor patch s', op = .mutation stamp (.updateAgent actor agentId patch (some version)) ∧
    db.store.updateAgent stamp actor agentId patch (some version) = .ok s'

/-- An update that throws. -/
def Refused (db : AgentStateDb) (op : AgentDbOp) : Prop :=
  ∃ stamp actor agentId patch expectedVersion e,
    op = .mutation stamp (.updateAgent actor agentId patch expectedVersion) ∧
      db.store.updateAgent stamp actor agentId patch expectedVersion = .error e

/-- What the version of a row that was read is good for, in the run that
follows. -/
structure NoLostUpdate (db : AgentStateDb) (agentId : Text) (row : AgentRow)
    (ops : List AgentDbOp) : Prop where
  /-- What is written over is the row that was read. -/
  asRead : ∀ before op after, ops = before ++ op :: after →
    WritesOver agentId row.version (run agentDbStep db before) op →
      (run agentDbStep db before).store.getAgent agentId = some row
  /-- Of two that write over this version the second fails. -/
  once : ∀ before first between second after,
    ops = before ++ first :: between ++ second :: after →
      WritesOver agentId row.version (run agentDbStep db before) first →
        ¬ WritesOver agentId row.version (run agentDbStep db (before ++ first :: between)) second
  rejected : ∀ before op after, ops = before ++ op :: after →
    Refused (run agentDbStep db before) op →
      (agentDbStep (run agentDbStep db before) op).store = (run agentDbStep db before).store

/-- The id is not given to a new row: when it has none, the agent to be created
is another, or its username is taken. -/
def SparesCreate (agentId : Text) (s : AgentStateStore) (id username : Text) : Prop :=
  SameAgent id agentId → s.getAgent agentId = none → s.getByUsername username ≠ none

/-- As for a created agent, and the row that is taken over has no version below
the one that was read. -/
def SparesImport (agentId : Text) (version : ℕ) (db : AgentStateDb) (a : Imported) : Prop :=
  SameAgent a.info.id agentId → db.store.getAgent agentId = none →
    ∃ existing, db.store.getByUsername a.info.username = some existing ∧ version ≤ existing.version

/-- One turn of the import; one that throws ends it. -/
def importStep (enabled disabled : List Text) (actor : Text) (db : AgentStateDb) (a : Imported) :
    AgentStateDb :=
  match db.importAgent enabled disabled actor a with
  | .ok db' => db'
  | .error _ => db

/-- The versions of the id do not start again below the one that was read. -/
def SparesVersion (agentId : Text) (version : ℕ) (db : AgentStateDb) : AgentDbOp → Prop
  | .mutation _ (.createAgent uuid _ spec) =>
      SparesCreate agentId db.store (spec.id.getD uuid) spec.username
  | .mutation _ _ => True
  | .importFromJson agents enabled disabled actor =>
      Along (importStep enabled disabled actor) (SparesImport agentId version) db agents

variable {s s' : AgentStateStore} {stamp : Stamp} {actor id agentId : Text} {r r' : AgentRow}

/-! ## Where a row comes from -/

/-- The row of before, or the next one. -/
def Follows (s : AgentStateStore) (agentId : Text) (r' : AgentRow) : Prop :=
  s.getAgent agentId = some r' ∨
    ∃ r, s.getAgent agentId = some r ∧ r'.version = r.version + 1

/-- An update of a row that bumps its version, with its event. -/
theorem follows_written {row : AgentRow} {f : AgentRow → AgentRow} {hf : ∀ r, (f r).id = r.id}
    {type : Text} {version : ℕ} {reason : Option Text} {payload : Option Json}
    (h : (s.updateRow id f hf).writeEvent stamp id type version actor reason payload = .ok s')
    (hrow : s.getAgent id = some row) (hversion : ∀ r, (f r).version = row.version + 1)
    (hr' : s'.getAgent agentId = some r') : Follows s agentId r' := by
  cases hr : s.getAgent agentId with
  | none =>
      rw [getAgent_writeEvent h, getAgent_updateRow, hr] at hr'
      simp at hr'
  | some r =>
      rw [getAgent_written h hr, Option.some.injEq] at hr'
      split_ifs at hr' with hsame
      · have hrow' : r = row := by
          rw [getAgent_same hsame, hr] at hrow
          exact Option.some.inj hrow
        exact .inr ⟨r, hr, by rw [← hr', hversion, hrow']⟩
      · exact .inl (hr.trans (congrArg some hr'))

theorem row_after_updateAgent {patch : AgentPatch} {expectedVersion : Option ℕ}
    (h : s.updateAgent stamp actor id patch expectedVersion = .ok s')
    (hr' : s'.getAgent agentId = some r') : Follows s agentId r' := by
  rw [AgentStateStore.updateAgent] at h
  split at h
  · cases h
  · next row hrow =>
      split at h
      · cases h
      · exact follows_written h hrow (fun _ => rfl) hr'

theorem row_after_setDesiredEnabled {enabled overrideKillSwitch : Bool}
    (h : s.setDesiredEnabled stamp actor id enabled overrideKillSwitch = .ok s')
    (hr' : s'.getAgent agentId = some r') : Follows s agentId r' := by
  rw [AgentStateStore.setDesiredEnabled] at h
  split at h
  · cases h
  · next row hrow => exact follows_written h hrow (fun _ => rfl) hr'

theorem row_after_setLifecycleState {lifecycleState : AgentLifecycleState}
    {overrideKillSwitch : Bool}
    (h : s.setLifecycleState stamp actor id lifecycleState overrideKillSwitch = .ok s')
    (hr' : s'.getAgent agentId = some r') : Follows s agentId r' := by
  rw [AgentStateStore.setLifecycleState] at h
  split at h
  · cases h
  · next row hrow =>
      split at h
      · cases h
      · dsimp only at h
        split at h
        · cases h
          exact .inl hr'
        · exact follows_written h hrow (fun _ => rfl) hr'

theorem row_after_setOperatorDisabled {disabled : Bool} {reason : Option Text}
    (h : s.setOperatorDisabled stamp actor id disabled reason = .ok s')
    (hr' : s'.getAgent agentId = some r') : Follows s agentId r' := by
  rw [AgentStateStore.setOperatorDisabled] at h
  split at h
  · cases h
  · next row hrow => exact follows_written h hrow (fun _ => rfl) hr'

theorem row_after_deleteAgent (h : s.deleteAgent stamp actor id = .ok s')
    (hr' : s'.getAgent agentId = some r') : Follows s agentId r' := by
  rw [AgentStateStore.deleteAgent] at h
  split at h
  · cases h
  · rw [getAgent_writeEvent h] at hr'
    obtain ⟨hmem, hkey⟩ := Table.get_eq_some_iff.mp hr'
    exact .inl (Table.get_eq_some_iff.mpr ⟨List.mem_of_mem_filter hmem, hkey⟩)

/-- A created agent has a username of its own. -/
theorem row_after_createAgent {uuid : Text} {spec : CreateAgentSpec}
    (h : s.createAgent stamp uuid actor spec = .ok s') (hr' : s'.getAgent agentId = some r') :
    s.getAgent agentId = some r' ∨
      (SameAgent (spec.id.getD uuid) agentId ∧ s.getAgent agentId = none ∧
        s.getByUsername spec.username = none) := by
  rw [AgentStateStore.createAgent] at h
  split at h
  · cases h
  · next husername =>
      split at h
      · cases h
      · next agents hinsert =>
          rw [getAgent_writeEvent h] at hr'
          have hget : agents.get (boundText agentId) = some r' := hr'
          rw [Table.get_insert hinsert] at hget
          split_ifs at hget with hid
          · have hsame : SameAgent (spec.id.getD uuid) agentId := hid.symm
            have hnone : s.getAgent agentId = none := by
              rw [← getAgent_same hsame]
              exact (Table.insert_eq_some hinsert).1
            refine .inr ⟨hsame, hnone, List.find?_eq_none.mpr fun r hr heq => husername ?_⟩
            exact List.any_eq_true.mpr ⟨r, hr, heq⟩
          · exact .inl hget

/-! ## What one call leaves of it -/

/-- The row of the agent, if there is one, is as `P` says or of a later
version. -/
def Kept (agentId : Text) (version : ℕ) (P : AgentRow → Prop) (s : AgentStateStore) : Prop :=
  ∀ r', s.getAgent agentId = some r' → P r' ∨ version < r'.version

variable {version : ℕ} {P : AgentRow → Prop} {db db' : AgentStateDb}

theorem Kept.follows (h : Kept agentId version P s) (hP : ∀ r, P r → version ≤ r.version)
    (hfollows : ∀ r', s'.getAgent agentId = some r' → Follows s agentId r') :
    Kept agentId version P s' := by
  intro r' hr'
  rcases hfollows r' hr' with hsame | ⟨r, hr, hnext⟩
  · exact h r' hsame
  · right
    rcases h r hr with hr | hlater
    · have hversion := hP r hr
      omega
    · omega

/-- A row that is given the id comes with a later version. -/
theorem Kept.createAgent {uuid : Text} {spec : CreateAgentSpec} (h : Kept agentId version P s)
    (hspares : SparesCreate agentId s (spec.id.getD uuid) spec.username)
    (hcreate : s.createAgent stamp uuid actor spec = .ok s') : Kept agentId version P s' := by
  intro r' hr'
  rcases row_after_createAgent hcreate hr' with hsame | ⟨hid, hnone, husername⟩
  · exact h r' hsame
  · exact absurd husername (hspares hid hnone)

theorem Kept.apply {op : AgentStateOp} (h : Kept agentId version P db.store)
    (hP : ∀ r, P r → version ≤ r.version)
    (hspares : SparesVersion agentId version db (.mutation stamp op))
    (hok : db.store.apply stamp op = .ok s') : Kept agentId version P s' := by
  cases op with
  | createAgent uuid actor spec => exact h.createAgent hspares hok
  | updateAgent => exact h.follows hP fun _ => row_after_updateAgent hok
  | setDesiredEnabled => exact h.follows hP fun _ => row_after_setDesiredEnabled hok
  | setLifecycleState => exact h.follows hP fun _ => row_after_setLifecycleState hok
  | setOperatorDisabled => exact h.follows hP fun _ => row_after_setOperatorDisabled hok
  | deleteAgent => exact h.follows hP fun _ => row_after_deleteAgent hok

theorem row_after_rekey {existing : AgentRow} {spec : AgentInfo}
    {desiredEnabled operatorDisabled : Bool}
    (h : db.rekeyUsernameMatchedImport stamp actor existing spec desiredEnabled operatorDisabled =
      .ok db')
    (hr' : db'.store.getAgent agentId = some r') :
    db.store.getAgent agentId = some r' ∨
      (SameAgent spec.id agentId ∧ r'.version = existing.version + 1) := by
  rw [AgentStateDb.rekeyUsernameMatchedImport] at h
  dsimp only at h
  split at h
  · cases h
  · split at h
    · cases h
    · next agents hrekey =>
        split at h
        · cases h
        · next store hevent =>
            cases h
            rw [getAgent_writeEvent hevent] at hr'
            rcases Table.get_rekey hrekey hr' with hsame | ⟨r, -, -, rfl⟩
            · exact .inl hsame
            · exact .inr ⟨(Table.get_eq_some_iff.mp hr').2, rfl⟩

theorem Kept.importAgent {enabled disabled : List Text} {a : Imported}
    (h : Kept agentId version P db.store) (hP : ∀ r, P r → version ≤ r.version)
    (hspares : SparesImport agentId version db a)
    (hok : db.importAgent enabled disabled actor a = .ok db') :
    Kept agentId version P db'.store := by
  rw [AgentStateDb.importAgent] at hok
  cases hexisting : db.store.getAgent a.info.id with
  | some row =>
      simp only [hexisting] at hok
      split at hok
      · cases hok
      · next store hdisabled =>
          split at hok
          · cases hok
          · next store' henabled =>
              cases hok
              have hkept := h.follows hP fun _ => row_after_setOperatorDisabled hdisabled
              exact hkept.follows hP fun _ => row_after_setDesiredEnabled henabled
  | none =>
      cases hmatch : db.store.getByUsername a.info.username with
      | some existing =>
          simp only [hexisting, hmatch] at hok
          intro r' hr'
          rcases row_after_rekey hok hr' with hsame | ⟨hid, hnext⟩
          · exact h r' hsame
          · right
            obtain ⟨taken, htaken, hversion⟩ := hspares hid (by rwa [← getAgent_same hid])
            rw [hmatch, Option.some.injEq] at htaken
            subst htaken
            omega
      | none =>
          simp only [hexisting, hmatch] at hok
          split at hok
          · cases hok
          · next store hcreate =>
              cases hok
              refine h.createAgent (fun hid hnone => ?_) hcreate
              obtain ⟨taken, htaken, -⟩ := hspares hid hnone
              exact absurd htaken (by simp [hmatch])

theorem Kept.importAgents {enabled disabled : List Text} {agents : List Imported}
    (h : Kept agentId version P db.store) (hP : ∀ r, P r → version ≤ r.version)
    (hspares : Along (importStep enabled disabled actor) (SparesImport agentId version) db agents)
    (hok : db.importAgents enabled disabled actor agents = .ok db') :
    Kept agentId version P db'.store := by
  induction agents generalizing db with
  | nil =>
      cases hok
      exact h
  | cons a rest ih =>
      obtain ⟨hfirst, hrest⟩ := hspares
      rw [AgentStateDb.importAgents] at hok
      split at hok
      · cases hok
      · next db₁ hone =>
          rw [importStep, hone] at hrest
          exact ih (h.importAgent hP hfirst hone) hrest hok

theorem Kept.step {op : AgentDbOp} (h : Kept agentId version P db.store)
    (hP : ∀ r, P r → version ≤ r.version) (hspares : SparesVersion agentId version db op) :
    Kept agentId version P (agentDbStep db op).store := by
  cases op with
  | mutation stamp op =>
      show Kept agentId version P (agentStateStep db.store (stamp, op))
      rw [agentStateStep]
      split
      · next s' hok => exact h.apply hP hspares hok
      · exact h
  | importFromJson agents enabled disabled actor =>
      simp only [agentDbStep, AgentStateDb.importFromJson]
      cases hok : db.importAgents enabled disabled actor agents with
      | error e => exact h
      | ok db' => exact h.importAgents hP hspares hok

theorem Kept.run {ops : List AgentDbOp} (h : Kept agentId version P db.store)
    (hP : ∀ r, P r → version ≤ r.version)
    (hspares : Along agentDbStep (SparesVersion agentId version) db ops) :
    Kept agentId version P (Machine.run agentDbStep db ops).store := by
  let Inv (db : AgentStateDb) := Kept agentId version P db.store
  have hstep (db : AgentStateDb) (op : AgentDbOp) (hkept : Inv db)
      (hspared : SparesVersion agentId version db op) : Inv (agentDbStep db op) :=
    Kept.step hkept hP hspared
  exact run_invariant hstep h hspares

/-! ## What is written over -/

/-- It was at that version, and is at the next. -/
theorem WritesOver.versions {op : AgentDbOp} (h : WritesOver agentId version db op) :
    (∃ r, db.store.getAgent agentId = some r ∧ r.version = version) ∧
      ∃ r', (agentDbStep db op).store.getAgent agentId = some r' ∧ r'.version = version + 1 := by
  obtain ⟨stamp, actor, patch, s', rfl, hok⟩ := h
  have hstep : (agentDbStep db (.mutation stamp (.updateAgent actor agentId patch
      (some version)))).store = s' := by
    show agentStateStep db.store _ = s'
    rw [agentStateStep]
    simp only [AgentStateStore.apply, hok]
  rw [hstep]
  rw [AgentStateStore.updateAgent] at hok
  split at hok
  · cases hok
  · next row hrow =>
      split at hok
      · cases hok
      · next hversion =>
          have hsame : row.version = version := by
            by_contra hne
            exact hversion ⟨rfl, fun heq => hne (Option.some.inj heq).symm⟩
          refine ⟨⟨row, hrow, hsame⟩, _, getAgent_written hok hrow, ?_⟩
          rw [if_pos (show SameAgent agentId agentId from rfl)]
          exact congrArg (· + 1) hsame

/-- In a run that spares the version, a client that writes with it loses no
update. -/
theorem updateAgent_loses_nothing {row : AgentRow} {ops : List AgentDbOp}
    (hread : db.store.getAgent agentId = some row)
    (hspares : Along agentDbStep (SparesVersion agentId row.version) db ops) :
    NoLostUpdate db agentId row ops where
  asRead := by
    rintro before op after rfl hwrites
    have hbefore := ((along_append _ _ _).mp hspares).1
    have hkept : Kept agentId row.version (· = row) (run agentDbStep db before).store :=
      Kept.run (fun r' hr' => .inl (Option.some.inj (hr'.symm.trans hread)))
        (fun r hr => by rw [hr]) hbefore
    obtain ⟨⟨r, hr, hversion⟩, -⟩ := hwrites.versions
    rcases hkept r hr with rfl | hlater
    · exact hr
    · omega
  once := by
    rintro before first between second after rfl hfirst hsecond
    have hbefore := ((along_append _ _ _).mp hspares).1
    have hbetween := ((along_append _ _ _).mp hbefore).2.2
    obtain ⟨-, r, hr, hversion⟩ := hfirst.versions
    have hkept : Kept agentId row.version (fun _ => False)
        (run agentDbStep (agentDbStep (run agentDbStep db before) first) between).store :=
      Kept.run (fun r' hr' => by
          right
          rw [Option.some.inj (hr'.symm.trans hr), hversion]
          exact Nat.lt_succ_self _)
        (fun _ hfalse => hfalse.elim) hbetween
    rw [run_append, run_cons] at hsecond
    obtain ⟨⟨r', hr', hversion'⟩, -⟩ := hsecond.versions
    rcases hkept r' hr' with hfalse | hlater
    · exact hfalse
    · omega
  rejected := by
    rintro before op after - ⟨stamp, actor, id, patch, expectedVersion, e, rfl, herror⟩
    show agentStateStep _ _ = _
    rw [agentStateStep]
    simp only [AgentStateStore.apply, herror]

/-! ## The id that came back

A client has read the clerk's row at version 1. The clerk is deleted and a
cook is created under the id, at version 1. -/

def clerkDb : AgentStateDb := ⟨clerkStore, .empty⟩

/-- The patch the client writes: a name. -/
def renamePatch : AgentPatch :=
  { name := some (js "Chief clerk"), email := none, role := none, team := none
    runtimeEnvironment := none, executionMethod := none, model := none, modelFallbacks := none
    modelOverrides := none, skills := none, env := none, resourceLimits := none }

def renameClerk : AgentDbOp :=
  .mutation ⟨[], js "e4"⟩ (.updateAgent (js "user") (js "a1") renamePatch (some 1))

def dismissClerk : AgentDbOp := .mutation ⟨[], js "e5"⟩ (.deleteAgent (js "op") (js "a1"))

def hireCook (id : Text) : AgentDbOp :=
  .mutation ⟨[], js "e6"⟩
    (.createAgent [] (js "op")
      { clerkSpec with id := some id, username := js "cook", name := js "Cook" })

/-- The cook has an id of his own. -/
theorem updateAgent_loses_nothing_clerk :
    ∃ row, clerkDb.store.getAgent (js "a1") = some row ∧
      NoLostUpdate clerkDb (js "a1") row [hireCook (js "a2"), renameClerk, dismissClerk] := by
  refine ⟨_, rfl, updateAgent_loses_nothing rfl ⟨?_, trivial, trivial, trivial⟩⟩
  intro hsame
  exact absurd hsame (by decide)

/-- The rename of the clerk goes through, on the cook. -/
theorem recreated_overwritten :
    ∃ row, clerkDb.store.getAgent (js "a1") = some row ∧
      ¬ NoLostUpdate clerkDb (js "a1") row [dismissClerk, hireCook (js "a1"), renameClerk] := by
  refine ⟨_, rfl, fun h => ?_⟩
  have hread := h.asRead [dismissClerk, hireCook (js "a1")] renameClerk [] rfl ⟨_, _, _, _, rfl, rfl⟩
  have hname := congrArg (Option.map AgentRow.name) hread
  exact absurd hname (by decide)

end Shizuha.Daemon
