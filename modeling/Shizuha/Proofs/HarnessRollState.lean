import Shizuha.Daemon.HarnessRollState
import Shizuha.Js.JsonRoundTrip

/-!
# What a roll state comes back as

The file is JSON with keys of the program's own, so it parses back to what was
written, and what is left is the reader's filter. A key of the written target
passes it and is moved to the target of today; a time passes; a record passes
exactly when its protocol is in the reader's set, and the set lacks
`drain-v2`. So an agent that a `drain-v2` bridge deferred comes back without
its record, and its wait starts again.
-/

namespace Shizuha.Daemon

open Js Agent

/-! ## The file -/

/-- The key of an agent under a target. -/
def keyed {α : Type} (image : Text) (e : Text × α) : Text × α := (e.1 ++ 0 :: image, e.2)

/-- What the callers keep in a state: keys of the state's target, agents that
have an id, a time that is not negative. -/
structure Persistable (s : HarnessRollState) : Prop where
  drift : ∀ e ∈ s.driftSince.rows, ∃ agentId ≠ [], e.1 = agentId ++ 0 :: s.desiredImage
  deferral : ∀ e ∈ s.deferrals.rows, ∃ agentId ≠ [], e.1 = agentId ++ 0 :: s.desiredImage
  inFlight : ∀ id ∈ s.inFlightAgentIds, id ≠ []
  lastRollAt : 0 ≤ s.lastRollAt.val

theorem indexKey_keyed (agentId image : Text) : indexKey (agentId ++ 0 :: image) = none :=
  indexKey_eq_none (u := 0) (by simp) rfl

theorem representable_time (x : Double) : (timeJson x).Representable := ⟨rfl, rfl⟩

theorem deferral_keys_plain :
    (["since", "agent", "reason", "protocol", "alerted"].map js).Nodup ∧
      ∀ k ∈ ["since", "agent", "reason", "protocol", "alerted"].map js, indexKey k = none := by
  decide +kernel

theorem state_keys_plain :
    (["desiredImage", "lastRollAt", "inFlightAgentIds", "driftSince", "deferrals"].map js).Nodup ∧
      ∀ k ∈ ["desiredImage", "lastRollAt", "inFlightAgentIds", "driftSince", "deferrals"].map js,
        indexKey k = none := by
  decide +kernel

/-- An object with these fields is in order and comes back. -/
theorem representable_fields {keys : List Text} {fields : List (Text × Json)}
    (hkeys : keys.Nodup ∧ ∀ k ∈ keys, indexKey k = none) (hfst : fields.map Prod.fst = keys)
    (h : ∀ f ∈ fields, f.2.Representable) : (Json.obj fields).Representable := by
  refine representable_obj (by rw [hfst]; exact hkeys.1) (fun f hf => hkeys.2 f.1 ?_) h
  rw [← hfst]
  exact List.mem_map_of_mem hf

theorem representable_deferral (d : PersistedRuntimeRollDeferral) : d.json.Representable := by
  refine representable_fields deferral_keys_plain rfl fun f hf => ?_
  simp only [List.mem_cons, List.not_mem_nil, or_false] at hf
  obtain rfl | rfl | rfl | rfl | rfl := hf <;> exact ⟨rfl, rfl⟩

/-- The entries of a target, as the object they are written as. -/
theorem representable_entries {α : Type} {d : Dict α} {image : Text} {json : α → Json}
    (hkey : ∀ e ∈ d.rows, ∃ agentId ≠ [], e.1 = agentId ++ 0 :: image)
    (h : ∀ a, (json a).Representable) :
    (Json.obj (d.rows.map fun e => (e.1, json e.2))).Representable := by
  refine representable_obj ?_ ?_ ?_
  · rw [List.map_map]
    exact d.nodup
  · intro f hf
    obtain ⟨e, he, rfl⟩ := List.mem_map.mp hf
    obtain ⟨agentId, -, hk⟩ := hkey e he
    show indexKey e.1 = none
    rw [hk]
    exact indexKey_keyed agentId image
  · intro f hf
    obtain ⟨e, -, rfl⟩ := List.mem_map.mp hf
    exact h e.2

theorem representable_state {s : HarnessRollState} (h : Persistable s) :
    s.json.Representable := by
  refine representable_fields state_keys_plain rfl fun f hf => ?_
  simp only [List.mem_cons, List.not_mem_nil, or_false] at hf
  obtain rfl | rfl | rfl | rfl | rfl := hf
  · exact ⟨rfl, rfl⟩
  · exact representable_time s.lastRollAt
  · refine representable_arr fun v hv => ?_
    obtain ⟨id, -, rfl⟩ := List.mem_map.mp hv
    exact ⟨rfl, rfl⟩
  · exact representable_entries h.drift representable_time
  · exact representable_entries h.deferral representable_deferral

theorem parse_write {s : HarnessRollState} (h : Persistable s) :
    Json.parse (writeHarnessRollState s) = some s.json := by
  have hwf : WellFormed (s.json.print ++ [newline]) := (wellFormed_print s.json).append (by decide)
  rw [writeHarnessRollState, show js "\n" = [newline] from rfl, hwf]
  exact (representable_state h).parse_line

/-! ## The entries -/

theorem rekey_keyed (image image' : Text) {agentId : Text} (h : agentId ≠ []) :
    rekey image image' (agentId ++ 0 :: image) = some (agentId ++ 0 :: image') := by
  have hsuffix : (0 :: image).isSuffixOf (agentId ++ 0 :: image) = true :=
    List.isSuffixOf_iff_suffix.mpr ⟨agentId, rfl⟩
  have hlen : (agentId ++ 0 :: image).length - (0 :: image).length = agentId.length := by
    rw [List.length_append]
    omega
  rw [rekey, if_pos hsuffix, hlen, List.take_left']
  · split_ifs with heq
    · rw [heq]
    · exact if_neg h
  · rfl

theorem keyed_nodup {α : Type} {byAgent : List (Text × α)} (image : Text) :
    ((byAgent.map (keyed image)).map Prod.fst).Nodup ↔ (byAgent.map Prod.fst).Nodup := by
  have hcomp : (byAgent.map (keyed image)).map Prod.fst =
      (byAgent.map Prod.fst).map (· ++ 0 :: image) := by
    rw [List.map_map, List.map_map]
    rfl
  rw [hcomp]
  exact List.nodup_map_iff fun a b hab => List.append_cancel_right hab

/-- The entries under a target, by the agents they are for. -/
theorem exists_byAgent {α : Type} {d : Dict α} {image : Text}
    (hkey : ∀ e ∈ d.rows, ∃ agentId ≠ [], e.1 = agentId ++ 0 :: image) :
    ∃ byAgent : List (Text × α), d.rows = byAgent.map (keyed image) ∧
      (∀ e ∈ byAgent, e.1 ≠ []) ∧ (byAgent.map Prod.fst).Nodup := by
  have hlist : ∀ l : List (Text × α), (∀ e ∈ l, ∃ agentId ≠ [], e.1 = agentId ++ 0 :: image) →
      ∃ byAgent : List (Text × α), l = byAgent.map (keyed image) ∧ ∀ e ∈ byAgent, e.1 ≠ [] := by
    intro l hl
    induction l with
    | nil => exact ⟨[], rfl, by simp⟩
    | cons e rest ih =>
        obtain ⟨agentId, hne, hk⟩ := hl e (by simp)
        obtain ⟨byAgent, hrest, hall⟩ := ih fun e' he' => hl e' (by simp [he'])
        refine ⟨(agentId, e.2) :: byAgent, ?_, ?_⟩
        · rw [List.map_cons, ← hrest]
          exact congrArg (· :: rest) (Prod.ext hk rfl)
        · intro e' he'
          rcases List.mem_cons.mp he' with rfl | he'
          · exact hne
          · exact hall e' he'
  obtain ⟨byAgent, hrows, hne⟩ := hlist d.rows hkey
  refine ⟨byAgent, hrows, hne, (keyed_nodup image).mp ?_⟩
  rw [← hrows]
  exact d.nodup

/-- What is read of the entries of a target: those whose values pass, under the
target of today. -/
theorem readEntries_rows {α : Type} {read : Json → Option α} {json : α → Json} {p : α → Bool}
    {byAgent : List (Text × α)} (image image' : Text)
    (hread : ∀ e ∈ byAgent, read (json e.2) = if p e.2 then some e.2 else none)
    (hne : ∀ e ∈ byAgent, e.1 ≠ []) (hnodup : (byAgent.map Prod.fst).Nodup) :
    (readEntries read image image'
        ((byAgent.map (keyed image)).map fun e => (e.1, json e.2))).rows =
      (byAgent.filter fun e => p e.2).map (keyed image') := by
  have hentries : ((byAgent.map (keyed image)).map fun e => (e.1, json e.2)).filterMap
      (fun e => do
        let key ← rekey image image' e.1
        let value ← read e.2
        return (key, value)) = (byAgent.filter fun e => p e.2).map (keyed image') := by
    clear hnodup
    induction byAgent with
    | nil => rfl
    | cons e rest ih =>
        have hrest := ih (fun e' he' => hread e' (by simp [he'])) fun e' he' => hne e' (by simp [he'])
        have hkey : rekey image image' (keyed image e).1 = some (e.1 ++ 0 :: image') :=
          rekey_keyed image image' (hne e (by simp))
        have hvalue : read (json (keyed image e).2) = if p e.2 then some e.2 else none :=
          hread e (by simp)
        rw [List.map_cons, List.map_cons, List.filterMap_cons, hrest, hkey, hvalue]
        by_cases hp : p e.2 = true
        · simp [hp, keyed]
        · simp [hp]
  rw [readEntries, hentries, Dict.rows_fromEntries]
  rw [keyed_nodup]
  exact hnodup.sublist (List.filter_sublist.map Prod.fst)

/-! ## The records -/

/-- The protocols the reader knows. -/
def RuntimeRollDeferralProtocol.known (p : RuntimeRollDeferralProtocol) : Bool :=
  decide (p ≠ .drainV2)

theorem reasonOf_text (r : RuntimeRollDeferralReason) :
    reasonOf r.text = some r ∧ deferralReasons.contains r.text = true := by
  cases r <;> exact ⟨rfl, rfl⟩

theorem protocolOf_text (p : RuntimeRollDeferralProtocol) :
    protocolOf p.text = some p ∧ deferralProtocols.contains p.text = p.known := by
  cases p <;> exact ⟨rfl, rfl⟩

/-- A record comes back when its protocol is one the reader knows. -/
theorem readDeferral_json {d : PersistedRuntimeRollDeferral} (h : d.agent ≠ []) :
    readDeferral d.json = if d.protocol.known then some d else none := by
  have hagent : 0 < d.agent.length := List.length_pos_iff.mpr h
  have hsince : (field "since" d.json).bind finiteOf = some d.since := rfl
  have hlabel : textField "agent" d.json = some d.agent := rfl
  have hreason : textField "reason" d.json = some d.reason.text := rfl
  have hprotocol : textField "protocol" d.json = some d.protocol.text := rfl
  have halerted : boolField "alerted" d.json = some d.alerted := rfl
  have hvalid : validDeferral d.json = d.protocol.known := by
    simp only [validDeferral, hsince, hlabel, hreason, hprotocol, halerted, Option.getD_some,
      (reasonOf_text d.reason).2, (protocolOf_text d.protocol).2, Option.isSome_some,
      Option.any_some, decide_eq_true hagent, Bool.true_and, Bool.and_true]
  have hvalue : deferralOf d.json = some d := by
    simp only [deferralOf, hsince, hlabel, hreason, hprotocol, halerted, Option.bind_some,
      (reasonOf_text d.reason).1, (protocolOf_text d.protocol).1, Option.bind_eq_bind]
    rfl
  rw [readDeferral, hvalid, hvalue]

/-! ## The state -/

/-- The state that is read, field by field. -/
theorem read_write {s : HarnessRollState} (h : Persistable s) (himage : s.desiredImage ≠ [])
    (image : Text) {byDrift : List (Text × Double)}
    {byDeferral : List (Text × PersistedRuntimeRollDeferral)}
    (hdrift : s.driftSince.rows = byDrift.map (keyed s.desiredImage) ∧
      (∀ e ∈ byDrift, e.1 ≠ []) ∧ (byDrift.map Prod.fst).Nodup)
    (hdeferral : s.deferrals.rows = byDeferral.map (keyed s.desiredImage) ∧
      (∀ e ∈ byDeferral, e.1 ≠ []) ∧ (byDeferral.map Prod.fst).Nodup)
    (hagent : ∀ e ∈ byDeferral, e.2.agent ≠ []) :
    ∃ s', readHarnessRollState (writeHarnessRollState s) image = some s' ∧
      s'.desiredImage = image ∧ s'.lastRollAt = s.lastRollAt ∧
      s'.inFlightAgentIds = (if s.desiredImage = image then s.inFlightAgentIds else []) ∧
      s'.driftSince.rows = byDrift.map (keyed image) ∧
      s'.deferrals.rows = (byDeferral.filter fun e => e.2.protocol.known).map (keyed image) := by
  have hdesired : (textField "desiredImage" s.json).getD [] = s.desiredImage := rfl
  refine ⟨⟨image, readLastRollAt s.json,
    if s.desiredImage = image then readInFlight s.json else [],
    readEntries finiteOf s.desiredImage image (entriesField "driftSince" s.json),
    readEntries readDeferral s.desiredImage image (entriesField "deferrals" s.json)⟩,
    ?_, rfl, ?_, ?_, ?_, ?_⟩
  · rw [readHarnessRollState, parse_write h]
    simp only [hdesired, if_neg himage]
  · show readLastRollAt s.json = s.lastRollAt
    rw [readLastRollAt, show (field "lastRollAt" s.json).bind finiteOf = some s.lastRollAt from rfl]
    exact if_neg (not_lt.mpr h.lastRollAt)
  · show (if s.desiredImage = image then readInFlight s.json else []) = _
    have hids : readInFlight s.json = s.inFlightAgentIds := by
      rw [readInFlight, show field "inFlightAgentIds" s.json =
        some (.arr (s.inFlightAgentIds.map .str)) from rfl]
      simp only [List.filterMap_map]
      rw [List.filterMap_congr (g := some)]
      · exact List.filterMap_some
      · intro id hid
        simp [h.inFlight id hid]
    rw [hids]
  · show (readEntries finiteOf s.desiredImage image
      (s.driftSince.rows.map fun e => (e.1, timeJson e.2))).rows = _
    rw [hdrift.1, readEntries_rows (p := fun _ => true) s.desiredImage image (fun e _ => rfl)
      hdrift.2.1 hdrift.2.2]
    simp
  · show (readEntries readDeferral s.desiredImage image
      (s.deferrals.rows.map fun e => (e.1, e.2.json))).rows = _
    rw [hdeferral.1]
    exact readEntries_rows (p := fun d => d.protocol.known) s.desiredImage image
      (fun e he => readDeferral_json (hagent e he)) hdeferral.2.1 hdeferral.2.2

/-- The entries of one target under another. -/
def Rekeyed {α : Type} (image image' : Text) (d d' : Dict α) : Prop :=
  ∃ byAgent : List (Text × α), d.rows = byAgent.map (keyed image) ∧
    d'.rows = byAgent.map (keyed image')

/-- The state is there after a restart with this target. -/
def Survives (s : HarnessRollState) (image : Text) : Prop :=
  if image = s.desiredImage then readHarnessRollState (writeHarnessRollState s) image = some s
  else
    ∃ s', readHarnessRollState (writeHarnessRollState s) image = some s' ∧
      s'.desiredImage = image ∧ s'.inFlightAgentIds = [] ∧
      Rekeyed s.desiredImage image s.driftSince s'.driftSince ∧
      Rekeyed s.desiredImage image s.deferrals s'.deferrals

theorem read_without_image {s : HarnessRollState} (h : Persistable s) (himage : s.desiredImage = [])
    (image : Text) : readHarnessRollState (writeHarnessRollState s) image = none := by
  rw [readHarnessRollState, parse_write h]
  exact if_pos himage

/-- Nothing that survives lost a record. -/
theorem Survives.length_eq {s : HarnessRollState} {image : Text} (h : Survives s image) :
    ∃ s', readHarnessRollState (writeHarnessRollState s) image = some s' ∧
      s'.deferrals.rows.length = s.deferrals.rows.length := by
  rw [Survives] at h
  split_ifs at h with heq
  · exact ⟨s, h, rfl⟩
  · obtain ⟨s', hread, -, -, -, byAgent, hrows, hrows'⟩ := h
    refine ⟨s', hread, ?_⟩
    rw [hrows, hrows', List.length_map, List.length_map]

theorem survives_iff_of_named {s : HarnessRollState} (h : Persistable s) (image : Text)
    (hnamed : ∀ e ∈ s.deferrals.rows, e.2.agent ≠ []) :
    Survives s image ↔
      s.desiredImage ≠ [] ∧ ∀ e ∈ s.deferrals.rows, e.2.protocol ≠ .drainV2 := by
  obtain ⟨byDrift, hdrift⟩ := exists_byAgent h.drift
  obtain ⟨byDeferral, hdeferral⟩ := exists_byAgent h.deferral
  have hagent : ∀ e ∈ byDeferral, e.2.agent ≠ [] := by
    intro e he
    exact hnamed (keyed s.desiredImage e) (by rw [hdeferral.1]; exact List.mem_map_of_mem he)
  -- The records lost are those of the protocol the reader lacks.
  have hall : (∀ e ∈ s.deferrals.rows, e.2.protocol ≠ .drainV2) ↔
      (byDeferral.filter fun e => e.2.protocol.known).length = byDeferral.length := by
    rw [hdeferral.1, List.length_filter_eq_length_iff, List.forall_mem_map]
    simp [keyed, RuntimeRollDeferralProtocol.known]
  by_cases himage : s.desiredImage = []
  · refine iff_of_false (fun hs => ?_) fun hs => hs.1 himage
    obtain ⟨s', hread, -⟩ := hs.length_eq
    rw [read_without_image h himage] at hread
    cases hread
  obtain ⟨s', hread, hs'image, hs'roll, hs'flight, hs'drift, hs'deferral⟩ :=
    read_write h himage image hdrift hdeferral hagent
  constructor
  · intro hs
    refine ⟨himage, hall.mpr ?_⟩
    obtain ⟨s'', hread', hlen⟩ := hs.length_eq
    rw [hread] at hread'
    cases hread'
    rwa [hs'deferral, hdeferral.1, List.length_map, List.length_map] at hlen
  · intro hs
    have hkept : byDeferral.filter (fun e => e.2.protocol.known) = byDeferral :=
      List.filter_eq_self.mpr (List.length_filter_eq_length_iff.mp (hall.mp hs.2))
    rw [hkept] at hs'deferral
    rw [Survives]
    split_ifs with heq
    · subst heq
      rw [if_pos rfl] at hs'flight
      rw [hread]
      exact congrArg some (HarnessRollState.ext hs'image hs'roll hs'flight
        (Dict.ext_rows (hs'drift.trans hdrift.1.symm))
        (Dict.ext_rows (hs'deferral.trans hdeferral.1.symm)))
    · rw [if_neg (Ne.symm heq)] at hs'flight
      exact ⟨s', hread, hs'image, hs'flight, ⟨byDrift, hdrift.1, hs'drift⟩,
        ⟨byDeferral, hdeferral.1, hs'deferral⟩⟩

/-! ## After any run of the tracker -/

/-- A state whose deferrals are what a tracker has after a run survives exactly
when it has a target and none of its records is of the protocol the reader's
set lacks. -/
theorem rollState_survives_iff (alertAfterMs : Double) (ops : List RollTrackerOp)
    (hops : ∀ op ∈ ops, op.Labelled) (s : HarnessRollState) (h : Persistable s)
    (hsnapshot : s.deferrals =
      (Machine.run rollTrackerStep (.create alertAfterMs) ops).snapshot) (image : Text) :
    Survives s image ↔
      s.desiredImage ≠ [] ∧ ∀ e ∈ s.deferrals.rows, e.2.protocol ≠ .drainV2 := by
  refine survives_iff_of_named h image ?_
  rw [hsnapshot, snapshot_rows]
  exact named_run (fun e he => by cases he) hops

def deferredKey (agent : Text) : Text := agent ++ 0 :: js "v1"

def deferredPass (agent : Text) (protocol : RuntimeRollDeferralProtocol) : RollTrackerOp :=
  .reconcilePass (.deferred (deferredKey agent) agent (.ofInt 0 zero_small) .bridgeBusy
    (some protocol))

/-- Two agents, the second deferred by a bridge of the given protocol. -/
def deferredPasses (protocol : RuntimeRollDeferralProtocol) : List RollTrackerOp :=
  [deferredPass (js "kai") .drainV1, deferredPass (js "ren") protocol]

def deferredState (protocol : RuntimeRollDeferralProtocol) : HarnessRollState :=
  ⟨js "v1", .ofInt 0 zero_small, [], Table.empty,
    (Machine.run rollTrackerStep (.create (.ofInt 0 zero_small))
      (deferredPasses protocol)).snapshot⟩

theorem labelled_deferredPasses (protocol : RuntimeRollDeferralProtocol) :
    ∀ op ∈ deferredPasses protocol, op.Labelled := by
  intro op hop
  simp only [deferredPasses, List.mem_cons, List.not_mem_nil, or_false] at hop
  obtain rfl | rfl := hop
  · show js "kai" ≠ []
    decide
  · show js "ren" ≠ []
    decide

theorem persistable_deferredState (protocol : RuntimeRollDeferralProtocol) :
    Persistable (deferredState protocol) where
  drift := by
    intro e he
    cases he
  deferral := by
    have hkeys : (deferredState protocol).deferrals.rows.map Prod.fst =
        [deferredKey (js "kai"), deferredKey (js "ren")] := by
      cases protocol <;> decide +kernel
    intro e he
    have hmem := List.mem_map_of_mem (f := Prod.fst) he
    rw [hkeys] at hmem
    simp only [List.mem_cons, List.not_mem_nil, or_false] at hmem
    obtain hk | hk := hmem
    · exact ⟨js "kai", by decide, hk⟩
    · exact ⟨js "ren", by decide, hk⟩
  inFlight := by
    intro id hid
    cases hid
  lastRollAt := by
    show (0 : ℚ) ≤ ((0 : ℤ) : ℚ)
    simp

theorem rollState_survives_drainV1 :
    Survives (deferredState .drainV1) (js "v2") :=
  (rollState_survives_iff (.ofInt 0 zero_small) (deferredPasses .drainV1)
    (labelled_deferredPasses .drainV1) (deferredState .drainV1)
    (persistable_deferredState .drainV1) rfl (js "v2")).mpr
    ⟨by decide, by decide +kernel⟩

/-- The record of the second agent is written and not read. -/
theorem drainV2_vanishes :
    (∀ op ∈ deferredPasses .drainV2, op.Labelled) ∧ Persistable (deferredState .drainV2) ∧
      ¬ Survives (deferredState .drainV2) (js "v1") := by
  refine ⟨labelled_deferredPasses .drainV2, persistable_deferredState .drainV2, fun h => ?_⟩
  have hread : ((readHarnessRollState (writeHarnessRollState (deferredState .drainV2))
      (js "v1")).map fun s => s.deferrals.rows.length) = some 1 := by decide +kernel
  have hlen : (deferredState .drainV2).deferrals.rows.length = 2 := by decide +kernel
  obtain ⟨s', hs', heq⟩ := h.length_eq
  rw [hs', Option.map_some, heq, hlen] at hread
  cases hread

end Shizuha.Daemon
