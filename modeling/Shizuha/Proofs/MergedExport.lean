import Shizuha.Daemon.AgentState
import Shizuha.Proofs.KillSwitch

/-!
# Which agent of the file is given which row

Each agent of the file looks for its row by itself. Two of them find the same
row in one way only: the row has the id of the one and the username of the
other, whose own id no row has. Everything that is asked of the merged list
comes down to that not being so (`Claimed`): then each row is given to one
agent, or comes behind them.
-/

namespace Shizuha.Daemon

open Js State

variable {rows : List AgentJsonExport} {row row' : AgentJsonExport}
  {existingAgents : List AgentRecord} {a b : AgentRecord} {s : AgentStateStore}

/-! ## The rows -/

/-- The rows have distinct keys, as the primary key and the unique column of the
table say. -/
structure Keyed (rows : List AgentJsonExport) : Prop where
  ids : (rows.map AgentJsonExport.id).Nodup
  usernames : (rows.map AgentJsonExport.username).Nodup

theorem rowById_eq_some_iff (h : Keyed rows) {id : Text} :
    rowById rows id = some row ↔ row ∈ rows ∧ row.id = id := by
  constructor
  · intro hrow
    exact ⟨List.mem_reverse.mp (List.mem_of_find?_eq_some hrow), by simpa using List.find?_some hrow⟩
  · intro ⟨hmem, hid⟩
    have hsome : (rowById rows id).isSome := by
      rw [rowById, List.find?_isSome]
      exact ⟨row, List.mem_reverse.mpr hmem, by simpa using hid⟩
    obtain ⟨found, hfound⟩ := Option.isSome_iff_exists.mp hsome
    have hfound' := List.mem_reverse.mp (List.mem_of_find?_eq_some hfound)
    have hid' : found.id = id := by simpa using List.find?_some hfound
    rw [hfound, List.inj_on_of_nodup_map h.ids hfound' hmem (hid'.trans hid.symm)]

theorem rowById_eq_none_iff {id : Text} : rowById rows id = none ↔ ∀ row ∈ rows, row.id ≠ id := by
  rw [rowById, List.find?_eq_none]
  simp

theorem rowByUsername_eq_some_iff (h : Keyed rows) {username : Option Text} :
    rowByUsername rows username = some row ↔ row ∈ rows ∧ username = some row.username := by
  cases username with
  | none => simp [rowByUsername]
  | some username =>
      rw [rowByUsername, Option.bind_some]
      constructor
      · intro hrow
        have hname : row.username = username := by simpa using List.find?_some hrow
        exact ⟨List.mem_reverse.mp (List.mem_of_find?_eq_some hrow), by rw [hname]⟩
      · intro ⟨hmem, hname⟩
        have hname : row.username = username := (Option.some.inj hname).symm
        have hsome : (rows.reverse.find? fun row => row.username = username).isSome := by
          rw [List.find?_isSome]
          exact ⟨row, List.mem_reverse.mpr hmem, by simpa using hname⟩
        obtain ⟨found, hfound⟩ := Option.isSome_iff_exists.mp hsome
        have hfound' := List.mem_reverse.mp (List.mem_of_find?_eq_some hfound)
        have hname' : found.username = username := by simpa using List.find?_some hfound
        rw [hfound, List.inj_on_of_nodup_map h.usernames hfound' hmem (hname'.trans hname.symm)]

/-- The row has the agent's id, or its username when no row has its id. -/
theorem rowOf_eq_some_iff (h : Keyed rows) :
    rowOf rows a = some row ↔ row ∈ rows ∧
      (row.id = a.id ∨ (∀ row' ∈ rows, row'.id ≠ a.id) ∧ a.username = some row.username) := by
  rw [rowOf]
  cases hid : rowById rows a.id with
  | some found =>
      obtain ⟨hfound, hfoundId⟩ := (rowById_eq_some_iff h).mp hid
      show some found = some row ↔ _
      rw [Option.some.injEq]
      constructor
      · rintro rfl
        exact ⟨hfound, .inl hfoundId⟩
      · rintro ⟨hrow, hrowId | ⟨hnone, -⟩⟩
        · exact List.inj_on_of_nodup_map h.ids hfound hrow (hfoundId.trans hrowId.symm)
        · exact absurd hfoundId (hnone found hfound)
  | none =>
      have hnone := rowById_eq_none_iff.mp hid
      show rowByUsername rows a.username = some row ↔ _
      rw [rowByUsername_eq_some_iff h]
      constructor
      · exact fun ⟨hrow, hname⟩ => ⟨hrow, .inr ⟨hnone, hname⟩⟩
      · rintro ⟨hrow, hrowId | ⟨-, hname⟩⟩
        · exact absurd hrowId (hnone row hrow)
        · exact ⟨hrow, hname⟩

/-! ## What a merge is for -/

/-- Every row is in the list once, no id is there twice, an agent without a row
is left alone, and no two of the agents of the file (the list begins with them,
each with the credentials, the keypair and the status it had) are given the same
row. -/
structure Bijective (s : AgentStateStore) (existingAgents out : List AgentRecord) : Prop where
  once : ∀ r ∈ s.agents.rows, (out.map AgentRecord.id).count r.id = 1
  distinct : (out.map AgentRecord.id).Nodup
  unmatched : ∀ a ∈ existingAgents, (∀ r ∈ s.agents.rows, r.id ≠ a.id ∧ a.username ≠ some r.username) →
    a ∈ out
  apart : (out.take existingAgents.length).Pairwise fun x y =>
    ∀ r ∈ s.agents.rows, x.id = r.id → y.id ≠ r.id

/-- An agent that has the username of a row with the id of an agent of the file
has a row under its own id. -/
def NoDrift (s : AgentStateStore) (existingAgents : List AgentRecord) : Prop :=
  ∀ a ∈ existingAgents, ∀ b ∈ existingAgents, ∀ r ∈ s.agents.rows, r.id = a.id →
    b.username = some r.username → ∃ r' ∈ s.agents.rows, r'.id = b.id

theorem toJson_keys {r : AgentRow} (h : r.toJson = some row) :
    row.id = r.id ∧ row.username = r.username := by
  simp only [AgentRow.toJson, Option.bind_eq_bind, Option.bind_eq_some_iff] at h
  obtain ⟨_, _, _, _, _, _, _, _, _, _, h⟩ := h
  cases h
  exact ⟨rfl, rfl⟩

theorem mapM_toJson {l : List AgentRow} (h : l.mapM AgentRow.toJson = some rows) :
    rows.map (fun row => (row.id, row.username)) = l.map fun r => (r.id, r.username) := by
  induction l generalizing rows with
  | nil =>
      cases h
      rfl
  | cons r l ih =>
      simp only [List.mapM_cons, Option.bind_eq_bind, Option.bind_eq_some_iff] at h
      obtain ⟨row, hrow, rest, hrest, h⟩ := h
      cases h
      obtain ⟨hid, hname⟩ := toJson_keys hrow
      rw [List.map_cons, List.map_cons, hid, hname, ih hrest]

/-- The rows of the export have the keys of the table's, in another order. -/
theorem exportToJson_keys (h : s.exportToJson = some rows) :
    (rows.map fun row => (row.id, row.username)).Perm
      (s.agents.rows.map fun r => (r.id, r.username)) := by
  rw [mapM_toJson h]
  exact (List.perm_insertionSort _ _).map _

theorem exists_export (h : s.exportToJson = some rows) {r : AgentRow} (hr : r ∈ s.agents.rows) :
    ∃ row ∈ rows, row.id = r.id ∧ row.username = r.username := by
  have hmem := (exportToJson_keys h).mem_iff.mpr (List.mem_map_of_mem hr)
  obtain ⟨row, hrow, hkeys⟩ := List.mem_map.mp hmem
  exact ⟨row, hrow, congrArg Prod.fst hkeys, congrArg Prod.snd hkeys⟩

theorem exists_row (h : s.exportToJson = some rows) (hrow : row ∈ rows) :
    ∃ r ∈ s.agents.rows, r.id = row.id ∧ r.username = row.username := by
  have hmem := (exportToJson_keys h).mem_iff.mp (List.mem_map_of_mem hrow)
  obtain ⟨r, hr, hkeys⟩ := List.mem_map.mp hmem
  exact ⟨r, hr, congrArg Prod.fst hkeys, congrArg Prod.snd hkeys⟩

theorem keyed_export (h : s.exportToJson = some rows)
    (husernames : (s.agents.rows.map AgentRow.username).Nodup) : Keyed rows := by
  have hkeys := exportToJson_keys h
  have hids := hkeys.map Prod.fst
  have hnames := hkeys.map Prod.snd
  rw [List.map_map, List.map_map] at hids hnames
  exact ⟨hids.nodup_iff.mpr s.agents.nodup, hnames.nodup_iff.mpr husernames⟩

/-! ## The merged list -/

/-- The id an agent of the file ends up with. -/
theorem mergeAgent_id (rows : List AgentJsonExport) (a : AgentRecord) :
    (mergeAgent rows a).id = ((rowOf rows a).map AgentJsonExport.id).getD a.id := by
  rw [mergeAgent]
  cases rowOf rows a with
  | none => rfl
  | some row => rfl

/-- Two agents of the file are given the same row. -/
def Claimed (rows : List AgentJsonExport) (a b : AgentRecord) : Prop :=
  ∃ row, rowOf rows a = some row ∧ rowOf rows b = some row

theorem id_ne_of_not_claimed (h : Keyed rows) (hids : a.id ≠ b.id) (hclaimed : ¬ Claimed rows a b) :
    (mergeAgent rows a).id ≠ (mergeAgent rows b).id := by
  rw [mergeAgent_id, mergeAgent_id]
  cases ha : rowOf rows a with
  | none =>
      cases hb : rowOf rows b with
      | none => exact hids
      | some row' =>
          -- A row with the id would have been found.
          intro heq
          have hrow' := ((rowOf_eq_some_iff h).mp hb).1
          have hfound : rowOf rows a = some row' := (rowOf_eq_some_iff h).mpr ⟨hrow', .inl heq.symm⟩
          rw [ha] at hfound
          cases hfound
  | some row =>
      cases hb : rowOf rows b with
      | none =>
          intro heq
          have hrow := ((rowOf_eq_some_iff h).mp ha).1
          have hfound : rowOf rows b = some row := (rowOf_eq_some_iff h).mpr ⟨hrow, .inl heq⟩
          rw [hb] at hfound
          cases hfound
      | some row' =>
          intro heq
          have hrow := ((rowOf_eq_some_iff h).mp ha).1
          have hrow' := ((rowOf_eq_some_iff h).mp hb).1
          have hsame : row = row' := List.inj_on_of_nodup_map h.ids hrow hrow' heq
          exact hclaimed ⟨row, ha, hsame ▸ hb⟩

theorem Claimed.symm (h : Claimed rows a b) : Claimed rows b a := by
  obtain ⟨row, ha, hb⟩ := h
  exact ⟨row, hb, ha⟩

/-- One has the id of the row and the other its username. -/
theorem not_mixed (hexport : s.exportToJson = some rows) (hdrift : NoDrift s existingAgents)
    (ha : a ∈ existingAgents) (hb : b ∈ existingAgents) (hrow : row ∈ rows) (hid : row.id = a.id)
    (hnone : ∀ row' ∈ rows, row'.id ≠ b.id) : b.username ≠ some row.username := by
  intro hname
  obtain ⟨r, hr, hrid, hrname⟩ := exists_row hexport hrow
  obtain ⟨r', hr', hid'⟩ := hdrift a ha b hb r hr (hrid.trans hid) (hrname ▸ hname)
  obtain ⟨row', hrow', hrow'id, -⟩ := exists_export hexport hr'
  exact hnone row' hrow' (hrow'id.trans hid')

/-- Distinct agents without a drift find different rows. -/
theorem not_claimed (h : Keyed rows) (hexport : s.exportToJson = some rows)
    (hdrift : NoDrift s existingAgents) (ha : a ∈ existingAgents) (hb : b ∈ existingAgents)
    (hids : a.id ≠ b.id) (hnames : a.username = b.username → a.username = none) :
    ¬ Claimed rows a b := by
  intro ⟨row, hrowa, hrowb⟩
  obtain ⟨hrow, hbya⟩ := (rowOf_eq_some_iff h).mp hrowa
  obtain ⟨-, hbyb⟩ := (rowOf_eq_some_iff h).mp hrowb
  rcases hbya with hida | ⟨hnonea, hnamea⟩ <;> rcases hbyb with hidb | ⟨hnoneb, hnameb⟩
  · exact hids (hida.symm.trans hidb)
  · exact not_mixed hexport hdrift ha hb hrow hida hnoneb hnameb
  · exact not_mixed hexport hdrift hb ha hrow hidb hnonea hnamea
  · have hnone := hnames (hnamea.trans hnameb.symm)
    rw [hnamea] at hnone
    cases hnone

/-- Distinct ids and distinct usernames, where there are any. -/
def Apart (a b : AgentRecord) : Prop :=
  a.id ≠ b.id ∧ (a.username = b.username → a.username = none)

theorem pairwise_apart (hids : (existingAgents.map AgentRecord.id).Nodup)
    (hnames : (existingAgents.filterMap AgentRecord.username).Nodup) :
    existingAgents.Pairwise Apart := by
  induction existingAgents with
  | nil => exact .nil
  | cons a rest ih =>
      obtain ⟨haid, hrestids⟩ := List.nodup_cons.mp hids
      have hrest : (rest.filterMap AgentRecord.username).Nodup :=
        hnames.sublist ((List.sublist_cons_self a rest).filterMap _)
      refine List.pairwise_cons.mpr ⟨fun b hb => ⟨fun heq => haid ?_, fun heq => ?_⟩,
        ih hrestids hrest⟩
      · exact heq ▸ List.mem_map_of_mem hb
      · cases hname : a.username with
        | none => rfl
        | some username =>
            rw [List.filterMap_cons, hname] at hnames
            have hb' : username ∈ rest.filterMap AgentRecord.username :=
              List.mem_filterMap.mpr ⟨b, hb, heq.symm.trans hname⟩
            exact absurd hb' (List.nodup_cons.mp hnames).1

/-- In a list where no two are given one row, the ids of the agents and of the
rows behind them are all different. -/
theorem nodup_mergeAgents (h : Keyed rows)
    (hapart : existingAgents.Pairwise fun a b => a.id ≠ b.id ∧ ¬ Claimed rows a b) :
    ((mergeAgents rows existingAgents).map AgentRecord.id).Nodup := by
  rw [mergeAgents, List.map_append, List.nodup_append]
  refine ⟨?_, ?_, ?_⟩
  · rw [List.map_map]
    exact List.pairwise_map.mpr (hapart.imp fun ⟨hid, hnot⟩ => id_ne_of_not_claimed h hid hnot)
  · rw [List.map_map]
    exact h.ids.sublist (List.filter_sublist.map _)
  · intro id hid id' hid' heq
    subst heq
    obtain ⟨a', ha', rfl⟩ := List.mem_map.mp hid
    obtain ⟨a, ha, rfl⟩ := List.mem_map.mp ha'
    obtain ⟨x, hx, hxid⟩ := List.mem_map.mp hid'
    obtain ⟨row, hrow, rfl⟩ := List.mem_map.mp hx
    obtain ⟨hmem, hunused⟩ := List.mem_filter.mp hrow
    have hunused : row.id ∉ existingAgents.filterMap fun agent =>
        (rowOf rows agent).map AgentJsonExport.id := by simpa using hunused
    have hxid : row.id = (mergeAgent rows a).id := hxid
    rw [mergeAgent_id] at hxid
    cases hrowa : rowOf rows a with
    | none =>
        rw [hrowa] at hxid
        have hfound : rowOf rows a = some row := (rowOf_eq_some_iff h).mpr ⟨hmem, .inl hxid⟩
        rw [hrowa] at hfound
        cases hfound
    | some row' =>
        rw [hrowa] at hxid
        exact hunused (List.mem_filterMap.mpr ⟨a, ha, by rw [hrowa]; exact congrArg some hxid.symm⟩)

/-- Every row is somewhere. -/
theorem mem_mergeAgents (hrow : row ∈ rows) :
    row.id ∈ (mergeAgents rows existingAgents).map AgentRecord.id := by
  rw [mergeAgents, List.map_append, List.mem_append]
  by_cases hused : row.id ∈ existingAgents.filterMap fun agent =>
      (rowOf rows agent).map AgentJsonExport.id
  · left
    obtain ⟨a, ha, hid⟩ := List.mem_filterMap.mp hused
    rw [List.map_map]
    refine List.mem_map.mpr ⟨a, ha, ?_⟩
    show (mergeAgent rows a).id = row.id
    rw [mergeAgent_id, hid]
    rfl
  · right
    have hmem : row ∈ rows.filter fun row => !(existingAgents.filterMap fun agent =>
        (rowOf rows agent).map AgentJsonExport.id).contains row.id :=
      List.mem_filter.mpr ⟨hrow, by simpa using hused⟩
    rw [List.map_map]
    exact List.mem_map.mpr ⟨row, hmem, rfl⟩

theorem take_mergeAgents (rows : List AgentJsonExport) (existingAgents : List AgentRecord) :
    (mergeAgents rows existingAgents).take existingAgents.length =
      existingAgents.map (mergeAgent rows) := by
  rw [mergeAgents]
  exact List.take_left' (List.length_map _)

theorem rowOf_eq_none (h : Keyed rows) (hexport : s.exportToJson = some rows)
    (hnone : ∀ r ∈ s.agents.rows, r.id ≠ a.id ∧ a.username ≠ some r.username) :
    rowOf rows a = none := by
  cases hrow : rowOf rows a with
  | none => rfl
  | some row =>
      obtain ⟨hmem, hkey⟩ := (rowOf_eq_some_iff h).mp hrow
      obtain ⟨r, hr, hid, hname⟩ := exists_row hexport hmem
      obtain ⟨hnotId, hnotName⟩ := hnone r hr
      rcases hkey with hkey | ⟨-, hkey⟩
      · exact absurd (hid.trans hkey) hnotId
      · exact absurd (hname ▸ hkey) hnotName

/-- With distinct keys on both sides, the merged list is a bijection exactly
when no agent of the file has drifted. -/
theorem exportMergedAgentsJson_bijective {out : List AgentRecord}
    (husernames : (s.agents.rows.map AgentRow.username).Nodup)
    (hids : (existingAgents.map AgentRecord.id).Nodup)
    (hnames : (existingAgents.filterMap AgentRecord.username).Nodup)
    (h : s.exportMergedAgentsJson existingAgents = some out) :
    Bijective s existingAgents out ↔ NoDrift s existingAgents := by
  obtain ⟨rows, hexport, rfl⟩ := Option.map_eq_some_iff.mp h
  have hkeyed := keyed_export hexport husernames
  have hdistinct := pairwise_apart hids hnames
  constructor
  · intro hbijective a ha b hb r hr hid hname
    by_contra hnone
    obtain ⟨row, hrow, hrowId, hrowName⟩ := exists_export hexport hr
    have hrowa : rowOf rows a = some row :=
      (rowOf_eq_some_iff hkeyed).mpr ⟨hrow, .inl (hrowId.trans hid)⟩
    have hrowb : rowOf rows b = some row := by
      refine (rowOf_eq_some_iff hkeyed).mpr ⟨hrow, .inr ⟨fun row' hrow' heq => hnone ?_, ?_⟩⟩
      · obtain ⟨r', hr', hid', -⟩ := exists_row hexport hrow'
        exact ⟨r', hr', hid'.trans heq⟩
      · rw [hname, hrowName]
    have hne : a ≠ b := fun hab => hnone ⟨r, hr, hab ▸ hid⟩
    have hapart := hbijective.apart
    rw [take_mergeAgents, List.pairwise_map] at hapart
    have hsymm : Std.Symm fun a b : AgentRecord => ∀ r ∈ s.agents.rows,
        (mergeAgent rows a).id = r.id → (mergeAgent rows b).id ≠ r.id :=
      ⟨fun a b hab r hr hb ha => hab r hr ha hb⟩
    refine hapart.forall ha hb hne r hr ?_ ?_
    · rw [mergeAgent_id, hrowa]
      exact hrowId
    · rw [mergeAgent_id, hrowb]
      exact hrowId
  · intro hdrift
    have hapart : existingAgents.Pairwise fun a b => a.id ≠ b.id ∧ ¬ Claimed rows a b := by
      refine hdistinct.imp_of_mem fun ha hb hab => ⟨hab.1, ?_⟩
      exact not_claimed hkeyed hexport hdrift ha hb hab.1 hab.2
    have hnodup := nodup_mergeAgents hkeyed hapart
    refine ⟨fun r hr => ?_, hnodup, fun a ha hnone => ?_, ?_⟩
    · obtain ⟨row, hrow, hid, -⟩ := exists_export hexport hr
      exact hid ▸ List.count_eq_one_of_mem hnodup (mem_mergeAgents hrow)
    · have hunmatched := rowOf_eq_none hkeyed hexport hnone
      refine List.mem_append_left _ (List.mem_map.mpr ⟨a, ha, ?_⟩)
      rw [mergeAgent, hunmatched]
    · rw [take_mergeAgents, List.pairwise_map]
      refine hapart.imp fun ⟨hid, hnot⟩ r _ ha hb => ?_
      exact id_ne_of_not_claimed hkeyed hid hnot (ha.trans hb.symm)

/-! ## A drift

The database has the clerk under the id of the cook of the file, and the file
has the clerk under an id of its own. -/

def plainRecord (id username status : String) : AgentRecord :=
  { id := js id, username := some (js username), email := none, name := some (js username)
    role := none, team := none, runtimeEnvironment := none, executionMethod := none, model := none
    modelFallbacks := none, modelOverrides := none, skills := none, env := none
    resourceLimits := none, status := some (js status), credentials := none, keypair := none
    mcpServers := none, personalityTraits := none, rest := [] }

theorem nodup_clerkStore : (clerkStore.agents.rows.map AgentRow.username).Nodup := by decide +kernel

theorem exportMergedAgentsJson_bijective_clerk :
    ∃ out, clerkStore.exportMergedAgentsJson [plainRecord "a1" "clerk" "active"] = some out ∧
      Bijective clerkStore [plainRecord "a1" "clerk" "active"] out := by
  have hsome : (clerkStore.exportMergedAgentsJson
      [plainRecord "a1" "clerk" "active"]).isSome = true := by decide +kernel
  obtain ⟨out, hout⟩ := Option.isSome_iff_exists.mp hsome
  have hdrift : NoDrift clerkStore [plainRecord "a1" "clerk" "active"] := by
    intro a ha b hb r hr hid _
    rw [List.mem_singleton.mp ha] at hid
    rw [List.mem_singleton.mp hb]
    exact ⟨r, hr, hid⟩
  have hids : ([plainRecord "a1" "clerk" "active"].map AgentRecord.id).Nodup :=
    List.nodup_singleton _
  have hnames : ([plainRecord "a1" "clerk" "active"].filterMap AgentRecord.username).Nodup :=
    List.nodup_singleton _
  exact ⟨out, hout,
    (exportMergedAgentsJson_bijective nodup_clerkStore hids hnames hout).mpr hdrift⟩

/-- Both agents of the file are given the clerk's row. -/
theorem row_exported_twice : ¬ ∀ (s : AgentStateStore) (existingAgents out : List AgentRecord),
    (s.agents.rows.map AgentRow.username).Nodup → (existingAgents.map AgentRecord.id).Nodup →
      (existingAgents.filterMap AgentRecord.username).Nodup →
        s.exportMergedAgentsJson existingAgents = some out → Bijective s existingAgents out := by
  intro h
  let existingAgents := [plainRecord "a1" "cook" "active", plainRecord "a2" "clerk" "active"]
  have hids : (clerkStore.exportMergedAgentsJson existingAgents).map
      (fun out => out.map AgentRecord.id) = some [js "a1", js "a1"] := by decide +kernel
  obtain ⟨out, hout, hout'⟩ := Option.map_eq_some_iff.mp hids
  have hdistinct := (h clerkStore existingAgents out nodup_clerkStore (by decide +kernel)
    (by decide +kernel) hout).distinct
  rw [hout'] at hdistinct
  exact absurd hdistinct (by decide)

end Shizuha.Daemon
