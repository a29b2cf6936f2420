import Shizuha.Daemon.DaemonLinkClient

/-!
# The lane fence is monotone when nothing overtakes

A fence is compared when its frame arrives and recorded when the config has
been applied, so between the two another frame of the agent may be recorded.
The comparison is not made again. A step therefore keeps the fences monotone
exactly when the frame it records still succeeds the recorded one, and a whole
run does exactly when every step does. The file follows the record through
every step, failed writes included.
-/

namespace Shizuha.Daemon

open Js Machine

namespace RuntimeLaneFence

/-- `g` may be recorded after `f`: a higher generation, or the same lane. -/
def Precedes (f g : RuntimeLaneFence) : Prop :=
  f.generation < g.generation ∨ (f.generation = g.generation ∧ f.digest = g.digest)

instance (f g : RuntimeLaneFence) : Decidable (f.Precedes g) :=
  inferInstanceAs (Decidable (_ ∨ _))

theorem Precedes.refl (f : RuntimeLaneFence) : f.Precedes f := .inr ⟨rfl, rfl⟩

theorem Precedes.le {f g : RuntimeLaneFence} (h : f.Precedes g) : f.generation ≤ g.generation := by
  rcases h with h | h <;> omega

theorem Precedes.trans {f g k : RuntimeLaneFence} (h : f.Precedes g) (h' : g.Precedes k) :
    f.Precedes k := by
  rcases h with h | ⟨hgen, hdigest⟩
  · left
    have := h'.le
    omega
  · rcases h' with h' | ⟨hgen', hdigest'⟩
    · left
      omega
    · exact .inr ⟨hgen.trans hgen', hdigest.trans hdigest'⟩

end RuntimeLaneFence

section

variable {sha256Hex : Json → Text} {c : DaemonLinkClient}

/-! ## What a step does -/

theorem recorded_record (c : DaemonLinkClient) (agentId : Text) (fence : RuntimeLaneFence)
    (writeError : Option Text) (a : Text) :
    (c.record agentId fence writeError).recorded a =
      if writeError = none ∧ a = agentId then some fence else c.recorded a := by
  unfold DaemonLinkClient.record
  cases writeError with
  | none =>
      show Dict.find (Dict.set _ _ _) a = _
      rw [Dict.find_set]
      by_cases ha : a = agentId
      · simp [ha]
      · simp [ha, DaemonLinkClient.recorded]
  | some error =>
      cases hprev : c.recorded agentId with
      | some previous =>
          show Dict.find (Dict.set _ _ _) a = _
          rw [Dict.find_set, Dict.find_set]
          by_cases ha : a = agentId
          · simp [ha, hprev]
          · simp [ha, DaemonLinkClient.recorded]
      | none =>
          show Dict.find (Dict.remove _ _) a = _
          rw [Dict.find_remove, Dict.find_set]
          by_cases ha : a = agentId
          · simp [ha, hprev]
          · simp [ha, DaemonLinkClient.recorded]

theorem against_eq_true {check : RuntimeLaneFence → RuntimeLaneFence → Bool}
    {fence current : Option RuntimeLaneFence} (h : DaemonLinkClient.against check fence current) :
    ∃ f g, fence = some f ∧ current = some g ∧ check f g = true := by
  cases fence with
  | none => cases h
  | some f => cases current with
    | none => cases h
    | some g => exact ⟨f, g, rfl, rfl, h⟩

/-- A frame that arrives is answered, and with `ok` only as a replay of what is
recorded, or waits for its config. -/
theorem config_cases (frame : ConfigFrame) :
    (∃ r, c.handleConfigFrame sha256Hex frame = c.send r ∧ (r.ok = true →
        ∃ f g, r.fence = some f ∧ c.recorded r.agentId = some g ∧ f.generation = g.generation)) ∨
      ∃ p, c.handleConfigFrame sha256Hex frame =
        { c with pending := c.pending ++ [p], nextId := c.nextId + 1 } := by
  unfold DaemonLinkClient.handleConfigFrame
  by_cases hagent : frame.agentId = []
  · rw [if_pos hagent]
    exact .inl ⟨_, rfl, by simp⟩
  rw [if_neg hagent]
  cases runtimeLaneFence sha256Hex frame with
  | error error => exact .inl ⟨_, rfl, by simp⟩
  | ok laneFence =>
      dsimp only
      split_ifs with hstale hreplay hconf
      · exact .inl ⟨_, rfl, by simp⟩
      · obtain ⟨f, g, hf, hg, hfg⟩ := against_eq_true hreplay
        simp only [DaemonLinkClient.isReplay, Bool.and_eq_true, beq_iff_eq] at hfg
        exact .inl ⟨_, rfl, fun _ => ⟨f, g, hf, hg, hfg.1⟩⟩
      · exact .inr ⟨_, rfl⟩
      · exact .inl ⟨_, rfl, by simp⟩

/-- A frame that is recorded. -/
structure Recorded where
  pending : PendingApply
  fence : RuntimeLaneFence

/-- The frame that a step records, if its file can be written. -/
def recordedBy (c : DaemonLinkClient) : DaemonLinkOp → Option Recorded
  | .settle id (.returned true _) _ => do
      let p ← c.pending.find? fun p => p.id = id
      let fence ← p.fence
      if c.isCurrentSocket p.socketGeneration then some ⟨p, fence⟩ else none
  | _ => none

/-- A promise that settles records the frame's fence and answers with what came
of it; or there is nothing to record, and `ok` is said of no fence. -/
theorem settle_cases (id : ℕ) (outcome : ApplyOutcome) (writeError : Option Text) :
    ∃ rest : DaemonLinkClient, rest.appliedRuntimeLanes = c.appliedRuntimeLanes ∧
      rest.stateFile = c.stateFile ∧ rest.sent = c.sent ∧
      match recordedBy c (.settle id outcome writeError) with
      | some r => c.settle id outcome writeError =
          (rest.record r.pending.agentId r.fence writeError).send ⟨r.pending.seq,
            r.pending.agentId, writeError.isNone, writeError.getD [], some r.fence⟩
      | none => c.settle id outcome writeError = rest ∨
          ∃ a, c.settle id outcome writeError = rest.send a ∧ (a.ok = true → a.fence = none) := by
  unfold DaemonLinkClient.settle
  cases hfind : c.pending.find? fun p => p.id = id with
  | none =>
      refine ⟨c, rfl, rfl, rfl, ?_⟩
      cases outcome with
      | threw => exact .inl rfl
      | returned ok error => cases ok <;> simp [recordedBy, hfind]
  | some p =>
      refine ⟨{ c with pending := c.pending.filter fun q => q.id ≠ id }, rfl, rfl, rfl, ?_⟩
      cases outcome with
      | threw => exact .inl rfl
      | returned ok error =>
          have hsocket : ({ c with pending := c.pending.filter fun q => q.id ≠ id } :
              DaemonLinkClient).isCurrentSocket p.socketGeneration =
              c.isCurrentSocket p.socketGeneration := rfl
          simp only [DaemonLinkClient.applied, hsocket]
          cases hcur : c.isCurrentSocket p.socketGeneration with
          | false => cases ok <;> cases hf : p.fence <;> simp [recordedBy, hfind, hcur, hf]
          | true =>
              cases ok with
              | false => exact .inr ⟨_, rfl, by simp⟩
              | true => cases hf : p.fence with
                | none =>
                    have hnone : recordedBy c (.settle id (.returned true error) writeError) =
                        none := by simp [recordedBy, hfind, hf]
                    rw [hnone]
                    exact .inr ⟨_, rfl, fun _ => rfl⟩
                | some fence => simp [recordedBy, hfind, hf, hcur]

/-- The recorded fences after a step are those of before and the one the step
records. -/
theorem recorded_step (op : DaemonLinkOp) (a : Text) :
    (daemonLinkStep sha256Hex c op).recorded a =
      match op, recordedBy c op with
      | .settle _ _ none, some r => if a = r.pending.agentId then some r.fence else c.recorded a
      | _, _ => c.recorded a := by
  cases op with
  | connect => rfl
  | closed => rfl
  | stop => rfl
  | config frame =>
      show (if c.live then c.handleConfigFrame sha256Hex frame else c).recorded a = c.recorded a
      split_ifs
      · obtain ⟨r, heq, -⟩ | ⟨p, heq⟩ := @config_cases sha256Hex c frame
        · rw [heq]
          rfl
        · rw [heq]
          rfl
      · rfl
  | settle id outcome writeError =>
      obtain ⟨rest, hrec, -, -, hcases⟩ := settle_cases (c := c) id outcome writeError
      have hrest : ∀ a, rest.recorded a = c.recorded a := fun a => by
        rw [DaemonLinkClient.recorded, hrec]
        rfl
      show (c.settle id outcome writeError).recorded a = _
      cases hby : recordedBy c (.settle id outcome writeError) with
      | none =>
          rw [hby] at hcases
          have hsame : (c.settle id outcome writeError).recorded a = c.recorded a := by
            obtain heq | ⟨r, heq, -⟩ := hcases
            · rw [heq, hrest]
            · rw [heq]
              exact hrest a
          rw [hsame]
          cases writeError <;> rfl
      | some r =>
          rw [hby] at hcases
          rw [hcases]
          show (rest.record r.pending.agentId r.fence writeError).recorded a = _
          rw [recorded_record]
          cases writeError with
          | none => simp [hrest]
          | some e => simp [hrest]

/-- The file holds what is recorded. -/
def FileCurrent (c : DaemonLinkClient) : Prop :=
  ∀ a, Dict.find c.stateFile a = c.recorded a

theorem fileCurrent_step (h : FileCurrent c) (op : DaemonLinkOp) :
    FileCurrent (daemonLinkStep sha256Hex c op) := by
  cases op with
  | connect => exact h
  | closed => exact h
  | stop => exact h
  | config frame =>
      show FileCurrent (if c.live then c.handleConfigFrame sha256Hex frame else c)
      split_ifs
      · obtain ⟨r, heq, -⟩ | ⟨p, heq⟩ := @config_cases sha256Hex c frame
        · rw [heq]
          exact h
        · rw [heq]
          exact h
      · exact h
  | settle id outcome writeError =>
      obtain ⟨rest, hrec, hfile, -, hcases⟩ := settle_cases (c := c) id outcome writeError
      have hrest : FileCurrent rest := fun a => by
        rw [hfile, DaemonLinkClient.recorded, hrec]
        exact h a
      show FileCurrent (c.settle id outcome writeError)
      cases hby : recordedBy c (.settle id outcome writeError) with
      | none =>
          rw [hby] at hcases
          obtain heq | ⟨r, heq, -⟩ := hcases
          · rw [heq]
            exact hrest
          · rw [heq]
            exact hrest
      | some r =>
          rw [hby] at hcases
          rw [hcases]
          cases writeError with
          | none => exact fun a => rfl
          | some e =>
              intro a
              show Dict.find (rest.record r.pending.agentId r.fence (some e)).stateFile a =
                (rest.record r.pending.agentId r.fence (some e)).recorded a
              rw [recorded_record, if_neg (by simp)]
              have hkept : (rest.record r.pending.agentId r.fence (some e)).stateFile =
                  rest.stateFile := by
                unfold DaemonLinkClient.record
                cases rest.recorded r.pending.agentId <;> rfl
              rw [hkept]
              exact hrest a

/-- Whatever happens, a restart reads the fences that were recorded. -/
theorem fileCurrent_run (configured : Bool) (fences : Dict RuntimeLaneFence)
    (ops : List DaemonLinkOp) :
    FileCurrent (run (daemonLinkStep sha256Hex) (.create configured fences) ops) :=
  run_invariant (C := fun _ _ => True) (fun _ op h _ => fileCurrent_step h op) (fun _ => rfl)
    (along_true (fun _ _ => trivial) _ ops)

/-! ## What is asked of a run -/

/-- No recorded fence is lost, nor followed by one that may not follow it. -/
def Advances (c c' : DaemonLinkClient) : Prop :=
  ∀ a f, c.recorded a = some f → ∃ g, c'.recorded a = some g ∧ f.Precedes g

theorem Advances.refl (c : DaemonLinkClient) : Advances c c :=
  fun _ f hf => ⟨f, hf, .refl f⟩

theorem Advances.trans {c c' c'' : DaemonLinkClient} (h : Advances c c') (h' : Advances c' c'') :
    Advances c c'' := by
  intro a f hf
  obtain ⟨g, hg, hfg⟩ := h a f hf
  obtain ⟨k, hk, hgk⟩ := h' a g hg
  exact ⟨k, hk, hfg.trans hgk⟩

/-- The answers of a step. -/
def answers (sha256Hex : Json → Text) (c : DaemonLinkClient) (op : DaemonLinkOp) :
    List ConfigResult :=
  (daemonLinkStep sha256Hex c op).sent.drop c.sent.length

/-- No frame is accepted below the recorded generation. -/
def Honest (sha256Hex : Json → Text) (c : DaemonLinkClient) (op : DaemonLinkOp) : Prop :=
  ∀ r ∈ answers sha256Hex c op, r.ok = true → ∀ f, r.fence = some f →
    ∀ g, c.recorded r.agentId = some g → g.generation ≤ f.generation

/-- The fence that a step records, with its file written, may follow the one
recorded by now. -/
def NotOvertaken (c : DaemonLinkClient) : DaemonLinkOp → Prop
  | .settle id outcome none => ∀ r, recordedBy c (.settle id outcome none) = some r →
      ∀ f, c.recorded r.pending.agentId = some f → f.Precedes r.fence
  | _ => True

theorem advances_iff (op : DaemonLinkOp) :
    Advances c (daemonLinkStep sha256Hex c op) ↔ NotOvertaken c op := by
  have hsame : (∀ a, (daemonLinkStep sha256Hex c op).recorded a = c.recorded a) →
      Advances c (daemonLinkStep sha256Hex c op) :=
    fun h a f hf => ⟨f, (h a).trans hf, .refl f⟩
  cases op with
  | connect => exact iff_of_true (hsame fun a => recorded_step .connect a) trivial
  | closed => exact iff_of_true (hsame fun a => recorded_step .closed a) trivial
  | stop => exact iff_of_true (hsame fun a => recorded_step .stop a) trivial
  | config frame => exact iff_of_true (hsame fun a => recorded_step (.config frame) a) trivial
  | settle id outcome writeError =>
      cases writeError with
      | some e => exact iff_of_true (hsame fun a => recorded_step (.settle id outcome (some e)) a) trivial
      | none =>
          cases hby : recordedBy c (.settle id outcome none) with
          | none =>
              refine iff_of_true (hsame fun a => ?_) fun r hr => by rw [hby] at hr; cases hr
              rw [recorded_step, hby]
          | some r =>
              have hrec : ∀ a, (daemonLinkStep sha256Hex c (.settle id outcome none)).recorded a =
                  if a = r.pending.agentId then some r.fence else c.recorded a := fun a => by
                rw [recorded_step, hby]
              constructor
              · intro hadv r' hr' f hf
                rw [hby] at hr'
                cases hr'
                obtain ⟨g, hg, hfg⟩ := hadv _ f hf
                rw [hrec] at hg
                simp only [if_true, Option.some.injEq] at hg
                rw [hg]
                exact hfg
              · intro hnot a f hf
                rw [hrec]
                by_cases ha : a = r.pending.agentId
                · rw [if_pos ha]
                  rw [ha] at hf
                  exact ⟨r.fence, rfl, hnot r hby f hf⟩
                · rw [if_neg ha]
                  exact ⟨f, hf, .refl f⟩

theorem answers_of_send {r : ConfigResult} {op : DaemonLinkOp} {rest : DaemonLinkClient}
    (hrest : rest.sent = c.sent) (h : daemonLinkStep sha256Hex c op = rest.send r) :
    answers sha256Hex c op = [r] := by
  rw [answers, h]
  show (rest.sent ++ [r]).drop c.sent.length = [r]
  rw [hrest, List.drop_left]

theorem answers_of_silent {op : DaemonLinkOp} (h : (daemonLinkStep sha256Hex c op).sent = c.sent) :
    answers sha256Hex c op = [] := by
  rw [answers, h, List.drop_length]

theorem honest_of_notOvertaken {op : DaemonLinkOp} (h : NotOvertaken c op) :
    Honest sha256Hex c op := by
  have hsilent : (daemonLinkStep sha256Hex c op).sent = c.sent → Honest sha256Hex c op := by
    intro hs r hr
    rw [answers_of_silent hs] at hr
    cases hr
  cases op with
  | connect => exact hsilent rfl
  | closed => exact hsilent rfl
  | stop => exact hsilent rfl
  | config frame =>
      by_cases hlive : c.live = true
      · have hstep : daemonLinkStep sha256Hex c (.config frame) =
            c.handleConfigFrame sha256Hex frame := if_pos hlive
        obtain ⟨r, heq, hok⟩ | ⟨p, heq⟩ := @config_cases sha256Hex c frame
        · intro r' hr' hok' f hf g hg
          rw [answers_of_send rfl (hstep.trans heq), List.mem_singleton] at hr'
          rw [hr'] at hok' hf hg
          obtain ⟨f', g', hf', hg', hgen⟩ := hok hok'
          rw [hf] at hf'
          rw [hg] at hg'
          cases hf'
          cases hg'
          omega
        · exact hsilent (by rw [hstep, heq])
      · have hstep : daemonLinkStep sha256Hex c (.config frame) = c := if_neg hlive
        exact hsilent (by rw [hstep])
  | settle id outcome writeError =>
      obtain ⟨rest, -, -, hsent, hcases⟩ := settle_cases (c := c) id outcome writeError
      cases hby : recordedBy c (.settle id outcome writeError) with
      | none =>
          rw [hby] at hcases
          obtain heq | ⟨r, heq, hok⟩ := hcases
          · refine hsilent ?_
            rw [daemonLinkStep, heq, hsent]
          · intro r' hr' hok' f hf
            have hone : answers sha256Hex c (.settle id outcome writeError) = [r] :=
              answers_of_send hsent heq
            rw [hone, List.mem_singleton] at hr'
            rw [hr'] at hok' hf
            rw [hok hok'] at hf
            cases hf
      | some r =>
          rw [hby] at hcases
          have hsettle : daemonLinkStep sha256Hex c (.settle id outcome writeError) = _ := hcases
          have hsent' : (rest.record r.pending.agentId r.fence writeError).sent = c.sent := by
            rw [← hsent]
            unfold DaemonLinkClient.record
            cases writeError <;> cases rest.recorded r.pending.agentId <;> rfl
          intro r' hr' hok' f hf g hg
          rw [answers_of_send hsent' hsettle, List.mem_singleton] at hr'
          rw [hr'] at hok' hf hg
          cases writeError with
          | some e => cases hok'
          | none =>
              cases hf
              exact (h r hby g hg).le

end

/-! ## The runs -/

/-- What the fence promises of a run: the recorded generation of an agent does
not go down, a generation has one digest, and no answer accepts less than is
recorded. -/
structure LaneSafe (sha256Hex : Json → Text) (c : DaemonLinkClient) (ops : List DaemonLinkOp) :
    Prop where
  monotone : ∀ before between after, ops = before ++ between ++ after → ∀ a f,
    (run (daemonLinkStep sha256Hex) c before).recorded a = some f →
      ∃ g, (run (daemonLinkStep sha256Hex) c (before ++ between)).recorded a = some g ∧
        f.generation ≤ g.generation
  oneDigest : ∀ before between after, ops = before ++ between ++ after → ∀ a f g,
    (run (daemonLinkStep sha256Hex) c before).recorded a = some f →
      (run (daemonLinkStep sha256Hex) c (before ++ between)).recorded a = some g →
        f.generation = g.generation → f.digest = g.digest
  honest : Along (daemonLinkStep sha256Hex) (Honest sha256Hex) c ops

theorem advances_run {sha256Hex : Json → Text} {c : DaemonLinkClient} {ops : List DaemonLinkOp}
    (h : Along (daemonLinkStep sha256Hex) NotOvertaken c ops) :
    Advances c (run (daemonLinkStep sha256Hex) c ops) := by
  induction ops generalizing c with
  | nil => exact .refl c
  | cons op ops ih => exact ((advances_iff op).mpr h.1).trans (ih h.2)

theorem advances_of_laneSafe {sha256Hex : Json → Text} {c : DaemonLinkClient}
    {ops before after : List DaemonLinkOp} {op : DaemonLinkOp} (h : LaneSafe sha256Hex c ops)
    (hops : ops = before ++ [op] ++ after) :
    Advances (run (daemonLinkStep sha256Hex) c before)
      (run (daemonLinkStep sha256Hex) c (before ++ [op])) := by
  intro a f hf
  obtain ⟨g, hg, hle⟩ := h.monotone before [op] after hops a f hf
  refine ⟨g, hg, ?_⟩
  rcases hle.lt_or_eq with hlt | heq
  · exact .inl hlt
  · exact .inr ⟨heq, h.oneDigest before [op] after hops a f g hf hg heq⟩

/-- The fence of a run is safe exactly when every frame that is recorded may
still follow what is recorded by then. -/
theorem laneFence_safe_iff (sha256Hex : Json → Text) (configured : Bool)
    (fences : Dict RuntimeLaneFence) (ops : List DaemonLinkOp) :
    LaneSafe sha256Hex (.create configured fences) ops ↔
      Along (daemonLinkStep sha256Hex) NotOvertaken (.create configured fences) ops := by
  generalize DaemonLinkClient.create configured fences = c
  constructor
  · intro hsafe
    have hall : ∀ before rest, ops = before ++ rest →
        Along (daemonLinkStep sha256Hex) NotOvertaken (run (daemonLinkStep sha256Hex) c before)
          rest := by
      intro before rest
      induction rest generalizing before with
      | nil => intro _; trivial
      | cons op rest ih =>
          intro hops
          have hadv := advances_of_laneSafe hsafe
            (show ops = before ++ [op] ++ rest by rw [hops]; simp)
          have hnext := ih (before ++ [op]) (by rw [hops]; simp)
          rw [run_append, run_cons, run_nil] at hadv hnext
          exact ⟨(advances_iff op).mp hadv, hnext⟩
    exact hall [] ops rfl
  · intro hall
    have hbetween : ∀ before between after, ops = before ++ between ++ after →
        Advances (run (daemonLinkStep sha256Hex) c before)
          (run (daemonLinkStep sha256Hex) c (before ++ between)) := by
      intro before between after hops
      rw [hops, along_append, along_append] at hall
      rw [run_append]
      exact advances_run hall.1.2
    refine ⟨fun before between after hops a f hf => ?_, fun before between after hops a f g hf hg
      hgen => ?_, hall.mono fun c op h => honest_of_notOvertaken h⟩
    · obtain ⟨g, hg, hfg⟩ := hbetween before between after hops a f hf
      exact ⟨g, hg, hfg.le⟩
    · obtain ⟨g', hg', hfg⟩ := hbetween before between after hops a f hf
      rw [hg] at hg'
      cases hg'
      rcases hfg with hlt | ⟨-, hdigest⟩
      · omega
      · exact hdigest

/-! ## Two runs -/

/-- The digest of the empty lane. -/
def emptyLaneDigest : Text :=
  js "44136fa355b3678a1146ad16f7e8649e94fb4fc21fe77e8310c060f61caaff8a"

def laneFrame (generation : ℕ) : ConfigFrame :=
  ⟨generation, js "mio", some ⟨some generation, emptyLaneDigest, some (.obj []), []⟩⟩

/-- Two frames whose configs are applied one after the other. -/
def inTurn : List DaemonLinkOp :=
  [.connect, .config (laneFrame 2), .settle 0 (.returned true []) none, .config (laneFrame 3),
    .settle 1 (.returned true []) none]

/-- The second is applied while the first is still being applied. -/
def overtaking : List DaemonLinkOp :=
  [.connect, .config (laneFrame 2), .config (laneFrame 3), .settle 1 (.returned true []) none,
    .settle 0 (.returned true []) none]

/-- The generation recorded for the agent of the frames, after a run. -/
def recordedAfter (ops : List DaemonLinkOp) : Option ℕ :=
  ((run (daemonLinkStep fun _ => emptyLaneDigest) (.create true Table.empty) ops).recorded
    (js "mio")).map RuntimeLaneFence.generation

example : recordedAfter inTurn = some 3 := by decide +kernel

theorem overtaking_lowers :
    ¬ LaneSafe (fun _ => emptyLaneDigest) (.create true Table.empty) overtaking := by
  intro h
  have hbefore : recordedAfter (overtaking.take 4) = some 3 := by decide +kernel
  have hafter : recordedAfter overtaking = some 2 := by decide +kernel
  obtain ⟨f, hf, hgen⟩ := Option.map_eq_some_iff.mp hbefore
  obtain ⟨g, hg, hle⟩ := h.monotone (overtaking.take 4) (overtaking.drop 4) [] rfl _ f hf
  have hg' : recordedAfter overtaking = some g.generation := congrArg (Option.map _) hg
  rw [hafter] at hg'
  have hlow : 2 = g.generation := Option.some.inj hg'
  omega

end Shizuha.Daemon
