import Shizuha.Shared.HeartbeatOutcome
import Shizuha.Machine

/-!
# Needing help is a streak

A turn is stuck when nothing in it changed anything, and its listing, if it had
one, left tasks that could have been. Of an agent whose heartbeats are recorded
turn by turn, the count in its record is the number of stuck turns in a row, and
the outcome is that it needs help exactly when that has reached the limit.

What the turns of other agents do is a matter of the map alone.
-/

namespace Shizuha.Shared

open Js Process

variable {env : Env} {latest : HeartbeatOutcomes} {agentId : Text}

/-! ## The calls that count -/

inductive ToolKind where
  | work
  | alerts
  | tasks
  | forwarding
  | mutating
  | shell
  | other
  deriving DecidableEq

def toolKind (toolName : Text) : ToolKind :=
  if isPulseGetMyWorkTool toolName then .work
  else if isPulseGetMyAlertsTool toolName then .alerts
  else if isPulseGetMyTasksTool toolName then .tasks
  else if isForwardingTool toolName then .forwarding
  else if isMutatingProgressTool toolName then .mutating
  else if isShellProgressTool toolName then .shell
  else .other

/-- A call by its name, with what it answered. -/
structure MadeCall where
  toolName : Text
  content : Option Json

def MadeCall.kind (call : MadeCall) : ToolKind := toolKind call.toolName

def MadeCall.text (call : MadeCall) : Text := (call.content.map contentToText).getD []

/-- The calls that succeeded and did not answer with a listing that the turn had
already; `none` where an answer does not become a text. -/
def madeCalls : List HeartbeatQueueDrainTurnToolCall → List HeartbeatQueueDrainTurnToolResult →
    Option (List MadeCall)
  | [], _ => some []
  | call :: calls, results =>
      if results.head?.any (·.isError) then madeCalls calls results.tail
      else
        let content := results.head?.bind (·.content)
        (isHeartbeatInboxReplayContent content).bind fun replay =>
          if replay then madeCalls calls results.tail
          else
            (madeCalls calls results.tail).map
              (⟨normalizeToolName (call.name.getD []), content⟩ :: ·)

def HeartbeatQueueDrainTurn.made (turn : HeartbeatQueueDrainTurn) : Option (List MadeCall) :=
  madeCalls turn.toolCalls turn.toolResults

/-- The task listing that a call shows. -/
def MadeCall.listing (call : MadeCall) : Option Text :=
  match call.kind with
  | .work => some (pulseTasksTextFromSnapshot call.text)
  | .tasks => some call.text
  | _ => none

def Made (kind : ToolKind) (calls : List MadeCall) : Prop := ∃ call ∈ calls, call.kind = kind

instance (kind : ToolKind) (calls : List MadeCall) : Decidable (Made kind calls) :=
  inferInstanceAs (Decidable (∃ call ∈ calls, call.kind = kind))

/-- The last listing with something in it. -/
def snapshotOf (calls : List MadeCall) : Text :=
  (((calls.filterMap MadeCall.listing).reverse.find? fun text => trim text ≠ []).map trim).getD []

/-- Nothing was changed, and there was no listing to go by, or one with tasks to
be moved. Handing a task on does not count where tasks were not even listed. -/
def StuckCalls (calls : List MadeCall) : Prop :=
  ¬ Made .mutating calls ∧
    if snapshotOf calls = [] then Made .forwarding calls → calls.filterMap MadeCall.listing = []
    else
      0 < (parsePulseGetMyTasksResult (snapshotOf calls)).readyTaskCount ∧
        ¬ Made .forwarding calls

instance (calls : List MadeCall) : Decidable (StuckCalls calls) := by
  unfold StuckCalls
  infer_instance

def stuck (turn : HeartbeatQueueDrainTurn) : Bool := turn.made.any fun calls => StuckCalls calls

/-- A turn with shell calls and no others. -/
def ShellOnly (turn : HeartbeatQueueDrainTurn) : Prop :=
  ∃ calls, turn.made = some calls ∧ ∀ call ∈ calls, call.kind = .shell

/-! ## Counting them -/

def countKind (kind : ToolKind) (calls : List MadeCall) : ℕ :=
  calls.countP fun call => call.kind = kind

def tallyOf (t : Tally) (calls : List MadeCall) : Tally :=
  calls.foldl (fun t call => t.add call.toolName call.content) t

theorem tally_eq (calls : List HeartbeatQueueDrainTurnToolCall)
    (results : List HeartbeatQueueDrainTurnToolResult) (t : Tally) :
    tally calls results t = (madeCalls calls results).map (tallyOf t) := by
  induction calls generalizing results t with
  | nil => rfl
  | cons call calls ih =>
      rw [tally, madeCalls]
      split_ifs with herror
      · exact ih results.tail t
      · cases hreplay : isHeartbeatInboxReplayContent (results.head?.bind (·.content)) with
        | none => simp [hreplay]
        | some replay =>
            cases replay with
            | true => simp [hreplay, ih]
            | false =>
                simp only [hreplay, Option.bind_some, Bool.false_eq_true, if_false, ih,
                  Option.map_map]
                rfl

/-- What the calls of a turn add up to. -/
theorem tallyOf_eq (t : Tally) (calls : List MadeCall) :
    tallyOf t calls =
      { pulseResults := t.pulseResults ++ calls.filterMap MadeCall.listing
        mutatingProgressEventCount := t.mutatingProgressEventCount + countKind .mutating calls
        shellProgressEventCount := t.shellProgressEventCount + countKind .shell calls
        forwardedEventCount := t.forwardedEventCount + countKind .forwarding calls
        pulseGetMyTasksCallCount :=
          t.pulseGetMyTasksCallCount + (calls.filterMap MadeCall.listing).length
        pulseGetMyAlertsCallCount := t.pulseGetMyAlertsCallCount + countKind .work calls +
          countKind .alerts calls } := by
  induction calls generalizing t with
  | nil => simp [tallyOf, countKind]
  | cons call calls ih =>
      have hstep : tallyOf t (call :: calls) = tallyOf (t.add call.toolName call.content) calls :=
        rfl
      rw [hstep, ih]
      have hkind : call.kind = toolKind call.toolName := rfl
      rw [toolKind] at hkind
      rw [Tally.add]
      split_ifs at hkind ⊢ <;>
        simp only [countKind, List.countP_cons, List.filterMap_cons, MadeCall.listing, hkind,
          List.append_assoc, List.cons_append, List.nil_append, List.length_cons, decide_true,
          if_true, reduceCtorEq, decide_false, Bool.false_eq_true, if_false, MadeCall.text] <;>
        simp <;> omega

theorem countKind_pos {kind : ToolKind} {calls : List MadeCall} :
    0 < countKind kind calls ↔ Made kind calls := by
  rw [countKind, List.countP_pos_iff]
  simp [Made]

theorem progressEventCount_pos {calls : List MadeCall} :
    0 < (tallyOf {} calls).progressEventCount ↔ Made .mutating calls := by
  rw [Tally.progressEventCount, tallyOf_eq, ← countKind_pos]
  split_ifs with h
  · simp only [Nat.zero_add] at h ⊢
    omega
  · simp only [Nat.zero_add] at h
    omega

theorem progressEventCount_nonneg (t : Tally) : 0 ≤ t.progressEventCount := by
  rw [Tally.progressEventCount]
  split_ifs <;> omega

theorem pulseText_tallyOf (calls : List MadeCall) :
    (tallyOf {} calls).pulseText = snapshotOf calls := by
  rw [Tally.pulseText, tallyOf_eq, snapshotOf]
  rfl

/-- A turn that listed nothing has no snapshot. -/
theorem snapshotOf_nil {calls : List MadeCall} (h : calls.filterMap MadeCall.listing = []) :
    snapshotOf calls = [] := by
  rw [snapshotOf, h]
  rfl

/-! ## One turn -/

theorem default_pos (env : Env) : 1 ≤ DEFAULT_NEEDS_HELP_AFTER env := by
  rw [DEFAULT_NEEDS_HELP_AFTER]
  split <;> omega

theorem needsHelpAfterValue_default {value : Option ℤ}
    (h : ∀ n ∈ value, n = DEFAULT_NEEDS_HELP_AFTER env) :
    needsHelpAfterValue env value = DEFAULT_NEEDS_HELP_AFTER env := by
  have hpos := default_pos env
  rw [needsHelpAfterValue]
  cases value with
  | none => exact max_eq_right hpos
  | some n =>
      rw [h n rfl]
      exact max_eq_right hpos

/-- The record of the agent counts `n` heartbeats, up to the default limit. -/
def Counts (env : Env) (n : ℕ) (previous : Option HeartbeatQueueDrainRecord) : Prop :=
  (previous.map (·.consecutiveReadyNoProgressHeartbeats)).getD 0 = n ∧
    ∀ record ∈ previous, record.needsHelpAfter = DEFAULT_NEEDS_HELP_AFTER env

/-- What a record says of its turn, after `n` stuck turns in a row. -/
def Judged (env : Env) (n : ℕ) (isStuck : Prop) [Decidable isStuck]
    (outcome : HeartbeatQueueDrainOutcome) (consecutive : ℤ) : Prop :=
  consecutive = (if isStuck then n + 1 else 0 : ℕ) ∧
    (outcome = .needsHelp ↔ isStuck ∧ DEFAULT_NEEDS_HELP_AFTER env ≤ consecutive)

theorem evaluate_needsHelp_iff (input : HeartbeatQueueDrainInput)
    (h : input.needsHelpAfter = none) :
    (evaluateHeartbeatQueueDrainOutcome env input).1 = .needsHelp ↔
      input.forwardedEventCount.getD 0 ≤ 0 ∧ input.progressEventCount.getD 0 ≤ 0 ∧
        0 < input.readyTaskCount ∧
          DEFAULT_NEEDS_HELP_AFTER env ≤
            max 0 (input.consecutiveReadyNoProgressHeartbeats.getD 0) := by
  rw [evaluateHeartbeatQueueDrainOutcome, h, needsHelpAfterValue_default (by simp)]
  split_ifs with hforwarded hprogress hhelp <;>
    simp only [true_iff, false_iff, not_and] <;>
    omega

/-- A turn that did nothing and showed no queue is one more of them. -/
theorem resolve_stuck {previous : Option HeartbeatQueueDrainRecord} {n : ℕ}
    (h : Counts env n previous) (reason : Text) {workDone : ℤ} (hwork : workDone ≤ 0) :
    Judged env n True (resolveQueueBlindOutcome env previous reason workDone true).outcome
      (resolveQueueBlindOutcome env previous reason workDone
        true).consecutiveReadyNoProgressHeartbeats := by
  rw [resolveQueueBlindOutcome, if_neg (by omega), h.1, needsHelpAfterValue_default (by
    intro m hm
    obtain ⟨record, hrecord, rfl⟩ := Option.map_eq_some_iff.mp hm
    exact h.2 record hrecord)]
  dsimp only
  rw [if_neg (by simp)]
  have hmax : max 0 (n : ℤ) + 1 = ((n + 1 : ℕ) : ℤ) := by omega
  rw [hmax]
  by_cases hlimit : DEFAULT_NEEDS_HELP_AFTER env ≤ ((n + 1 : ℕ) : ℤ)
  · rw [if_pos hlimit]
    refine ⟨by rw [if_pos trivial], ?_⟩
    simp only [true_and, true_iff]
    exact hlimit
  · rw [if_neg hlimit]
    refine ⟨by rw [if_pos trivial], ?_⟩
    simp only [reduceCtorEq, true_and, false_iff]
    exact hlimit

/-- One that did something is not. -/
theorem resolve_worked (previous : Option HeartbeatQueueDrainRecord) (n : ℕ) (reason : Text)
    {workDone : ℤ} (hwork : 0 < workDone) (obligated : Bool) :
    Judged env n False (resolveQueueBlindOutcome env previous reason workDone obligated).outcome
      (resolveQueueBlindOutcome env previous reason workDone
        obligated).consecutiveReadyNoProgressHeartbeats := by
  rw [resolveQueueBlindOutcome, if_pos hwork]
  exact ⟨by simp, by simp⟩

/-- One whose empty listing came with something that was done. -/
theorem evaluate_worked (env : Env) (n : ℕ) (ready : ℤ) {progress forwarded : ℤ}
    (h : 0 < progress ∨ 0 < forwarded) :
    Judged env n False
      (evaluateHeartbeatQueueDrainOutcome env
        { readyTaskCount := ready
          progressEventCount := some progress
          forwardedEventCount := some forwarded }).1 0 := by
  refine ⟨by simp, ?_⟩
  rw [evaluate_needsHelp_iff _ rfl]
  simp only [Option.getD_some, false_and, iff_false, not_and]
  omega

/-- One with a listing to judge. -/
theorem recordOutcome_judged {n : ℕ} (h : Counts env n (latest.find agentId))
    (input : HeartbeatQueueDrainInput) (hlimit : input.needsHelpAfter = none)
    (observedAt : Text) :
    Judged env n
      (0 < input.readyTaskCount ∧ input.progressEventCount.getD 0 ≤ 0 ∧
        input.forwardedEventCount.getD 0 ≤ 0)
      (recordHeartbeatQueueDrainOutcome env latest agentId input observedAt).1.outcome
      (recordHeartbeatQueueDrainOutcome env latest agentId input
        observedAt).1.consecutiveReadyNoProgressHeartbeats := by
  rw [recordHeartbeatQueueDrainOutcome, h.1]
  dsimp only
  have hstuck : (0 < max 0 input.readyTaskCount ∧ max 0 (input.progressEventCount.getD 0) = 0 ∧
      max 0 (input.forwardedEventCount.getD 0) = 0) ↔
      0 < input.readyTaskCount ∧ input.progressEventCount.getD 0 ≤ 0 ∧
        input.forwardedEventCount.getD 0 ≤ 0 := by
    omega
  simp only [hstuck]
  refine ⟨by split_ifs <;> simp, ?_⟩
  rw [evaluate_needsHelp_iff _ (by exact hlimit)]
  dsimp only
  rw [Option.getD_some]
  split_ifs with hif
  · have hmax : max 0 ((n : ℤ) + 1) = n + 1 := by omega
    rw [hmax]
    exact ⟨fun hall => ⟨hif, hall.2.2.2⟩, fun hall => ⟨hif.2.2, hif.2.1, hif.1, hall.2⟩⟩
  · exact ⟨fun hall => absurd ⟨hall.2.2.1, hall.2.1, hall.1⟩ hif, fun hall => absurd hall.1 hif⟩

/-- A record is stored under the agent that it is of, with the default limit. -/
def Stored (env : Env) (agentId : Text)
    (recorded : HeartbeatQueueDrainRecord × HeartbeatOutcomes) : Prop :=
  recorded.2.find agentId = some recorded.1 ∧
    recorded.1.needsHelpAfter = DEFAULT_NEEDS_HELP_AFTER env

theorem stored_blindRecord (t : Tally) (resolved : Resolved) (observedAt : Text)
    (listingOnly orderValid : Bool) :
    Stored env agentId
      (blindRecord env latest agentId t resolved observedAt listingOnly orderValid) := by
  refine ⟨?_, rfl⟩
  rw [blindRecord, Map.find_set, if_pos rfl]

theorem stored_recordOutcome (input : HeartbeatQueueDrainInput)
    (hlimit : input.needsHelpAfter = none) (observedAt : Text) :
    Stored env agentId
      (recordHeartbeatQueueDrainOutcome env latest agentId input observedAt) := by
  constructor
  · rw [recordHeartbeatQueueDrainOutcome, Map.find_set, if_pos rfl]
  · rw [recordHeartbeatQueueDrainOutcome, hlimit]
    exact needsHelpAfterValue_default (by simp)

theorem stored_evaluateTally (t : Tally) (listingOnly : Bool) (observedAt : Text)
    (obligated : Bool) :
    Stored env agentId
      (evaluateTally env latest agentId t listingOnly observedAt obligated) := by
  rw [evaluateTally]
  by_cases htasks : t.pulseGetMyTasksCallCount = 0
  · rw [if_pos htasks]
    exact stored_blindRecord ..
  rw [if_neg htasks]
  by_cases htext : t.pulseText = []
  · rw [if_pos htext]
    exact stored_blindRecord ..
  rw [if_neg htext]
  exact stored_recordOutcome _ rfl _

theorem Judged.congr {n : ℕ} {P Q : Prop} [Decidable P] [Decidable Q]
    {outcome : HeartbeatQueueDrainOutcome} {consecutive : ℤ}
    (h : Judged env n P outcome consecutive) (hiff : P ↔ Q) :
    Judged env n Q outcome consecutive := by
  obtain ⟨hconsecutive, houtcome⟩ := h
  refine ⟨?_, by rw [houtcome, hiff]⟩
  rw [hconsecutive]
  by_cases hP : P
  · rw [if_pos hP, if_pos (hiff.mp hP)]
  · rw [if_neg hP, if_neg (fun hQ => hP (hiff.mpr hQ))]

/-- The turn is judged by its calls. Where it showed no queue what it did decides,
and where it did the queue does. -/
theorem evaluateTally_judged {n : ℕ} (h : Counts env n (latest.find agentId))
    (calls : List MadeCall) (listingOnly : Bool) (observedAt : Text) :
    Judged env n (StuckCalls calls)
      (evaluateTally env latest agentId (tallyOf {} calls) listingOnly observedAt true).1.outcome
      (evaluateTally env latest agentId (tallyOf {} calls) listingOnly observedAt
        true).1.consecutiveReadyNoProgressHeartbeats := by
  have htasks : (tallyOf {} calls).pulseGetMyTasksCallCount =
      (calls.filterMap MadeCall.listing).length := by
    rw [tallyOf_eq]
    exact Nat.zero_add _
  have hforwarded : 0 < (tallyOf {} calls).forwardedEventCount ↔ Made .forwarding calls := by
    rw [tallyOf_eq, ← countKind_pos]
    exact iff_of_eq (congrArg (0 < ·) (Nat.zero_add _))
  have hprogress : 0 < (tallyOf {} calls).progressEventCount ↔ Made .mutating calls :=
    progressEventCount_pos
  have hnonneg := progressEventCount_nonneg (tallyOf {} calls)
  rw [evaluateTally, htasks, pulseText_tallyOf]
  dsimp only
  by_cases hlisted : calls.filterMap MadeCall.listing = []
  · rw [if_pos (by rw [hlisted]; rfl)]
    by_cases hmade : Made .mutating calls
    · refine (resolve_worked _ n _ (hprogress.mpr hmade) true).congr ?_
      simp [StuckCalls, hmade]
    · refine (resolve_stuck h _ (not_lt.mp (hprogress.not.mpr hmade))).congr ?_
      simp [StuckCalls, hmade, snapshotOf_nil hlisted, hlisted]
  rw [if_neg (by simpa using hlisted)]
  by_cases hsnapshot : snapshotOf calls = []
  · rw [if_pos hsnapshot]
    by_cases hmade : Made .mutating calls ∨ Made .forwarding calls
    · rw [← hprogress, ← hforwarded] at hmade
      rw [if_pos hmade]
      have hdone : 0 < (tallyOf {} calls).progressEventCount ∨
          0 < ((tallyOf {} calls).forwardedEventCount : ℤ) := by omega
      refine (evaluate_worked env n _ hdone).congr ?_
      rw [hprogress, hforwarded] at hmade
      rw [StuckCalls, if_pos hsnapshot, false_iff, not_and]
      intro hmutating hforward
      exact hlisted (hforward (hmade.resolve_left hmutating))
    · rw [← hprogress, ← hforwarded] at hmade
      rw [if_neg hmade]
      refine (resolve_stuck h _ (by omega)).congr ?_
      rw [hprogress, hforwarded, not_or] at hmade
      rw [StuckCalls, if_pos hsnapshot, true_iff]
      exact ⟨hmade.1, fun hforward => absurd hforward hmade.2⟩
  · rw [if_neg hsnapshot]
    refine (recordOutcome_judged h _ rfl observedAt).congr ?_
    rw [StuckCalls, if_neg hsnapshot, ← hprogress, ← hforwarded]
    dsimp only
    rw [Option.getD_some, Option.getD_some]
    omega

/-! ## A run -/

/-- The turn is recorded for an agent that is to look at its queue, and came to its
end. -/
def Observation.Obligated : Observation → Prop
  | .turn _ made _ policy =>
      made.incompleteReason = none ∧ policy.pulseQueueObligated ≠ some false
  | _ => False

/-- The turns that were recorded of an agent. -/
def turnsOf (agentId : Text) (run : List Observation) : List HeartbeatQueueDrainTurn :=
  run.filterMap fun
    | .turn agent turn _ _ => if agent = agentId ∧ turn.made.isSome then some turn else none
    | _ => none

theorem turnsOf_concat (agentId : Text) (run : List Observation) (o : Observation) :
    turnsOf agentId (run ++ [o]) = turnsOf agentId run ++ turnsOf agentId [o] := by
  rw [turnsOf, List.filterMap_append]
  rfl

theorem turnsOf_other {o : Observation} (h : o.agentId ≠ agentId) : turnsOf agentId [o] = [] := by
  cases o with
  | turn agent turn observedAt policy =>
      have hagent : agent ≠ agentId := h
      simp [turnsOf, hagent]
  | outcome agent input observedAt => rfl
  | emptyQueue agent observedAt => rfl
  | workProgress agent turn observedAt => rfl
  | rotated agent => rfl
  | ingested record => rfl

theorem find_recordOutcome_other {other : Text} (h : other ≠ agentId)
    (input : HeartbeatQueueDrainInput) (observedAt : Text) :
    (recordHeartbeatQueueDrainOutcome env latest other input observedAt).2.find agentId =
      latest.find agentId := by
  rw [recordHeartbeatQueueDrainOutcome, Map.find_set, if_neg h.symm]

theorem find_evaluateTally_other {other : Text} (h : other ≠ agentId) (t : Tally)
    (listingOnly : Bool) (observedAt : Text) (obligated : Bool) :
    (evaluateTally env latest other t listingOnly observedAt obligated).2.find agentId =
      latest.find agentId := by
  rw [evaluateTally]
  by_cases htasks : t.pulseGetMyTasksCallCount = 0
  · rw [if_pos htasks, blindRecord, Map.find_set, if_neg h.symm]
  rw [if_neg htasks]
  by_cases htext : t.pulseText = []
  · rw [if_pos htext, blindRecord, Map.find_set, if_neg h.symm]
  · rw [if_neg htext]
    exact find_recordOutcome_other h _ _

/-- Nothing that is done for another agent touches the record of this one. -/
theorem find_observe_other {o : Observation} (h : o.agentId ≠ agentId) :
    (observe env latest o).find agentId = latest.find agentId := by
  cases o with
  | turn other turn observedAt policy =>
      have hother : agentId ≠ other := Ne.symm h
      rw [observe, recordHeartbeatQueueDrainTurn, evaluateHeartbeatQueueDrainTurn]
      cases tally turn.toolCalls turn.toolResults {} with
      | none => rfl
      | some t =>
          simp only [Option.map_some, Option.getD_some]
          rw [Map.find_set, if_neg hother]
          exact find_evaluateTally_other h _ _ _ _
  | outcome other input observedAt => exact find_recordOutcome_other h _ _
  | emptyQueue other observedAt => exact find_recordOutcome_other h _ _
  | workProgress other turn observedAt =>
      rw [observe, recordObservedWorkProgress]
      dsimp only
      split_ifs with hnone
      · rfl
      · exact find_recordOutcome_other h _ _
  | rotated other =>
      rw [observe, clearFruitlessConsecutiveAfterSessionRotate]
      cases latest.find other with
      | none => rfl
      | some previous => exact (Map.find_set ..).trans (if_neg (Ne.symm h))
  | ingested record => exact (Map.find_set ..).trans (if_neg (Ne.symm h))

/-- The record of the agent after turns of which it was last stuck `streak` times
in a row. -/
structure Streak (env : Env) (turns : List HeartbeatQueueDrainTurn)
    (last : Option HeartbeatQueueDrainRecord) : Prop where
  counts : Counts env (streak stuck turns) last
  needsHelp : last.map (·.outcome) = some .needsHelp ↔
    DEFAULT_NEEDS_HELP_AFTER env ≤ streak stuck turns

theorem Streak.nil (env : Env) : Streak env [] none := by
  refine ⟨⟨rfl, by simp⟩, ?_⟩
  have hpos := default_pos env
  simp only [Option.map_none, reduceCtorEq, streak_nil, false_iff]
  omega

theorem Streak.concat {turns : List HeartbeatQueueDrainTurn} {turn : HeartbeatQueueDrainTurn}
    {isStuck : Prop} [Decidable isStuck] (hstuck : stuck turn = decide isStuck)
    {record : HeartbeatQueueDrainRecord}
    (h : Judged env (streak stuck turns) isStuck record.outcome
      record.consecutiveReadyNoProgressHeartbeats)
    (hlimit : record.needsHelpAfter = DEFAULT_NEEDS_HELP_AFTER env) :
    Streak env (turns ++ [turn]) (some record) := by
  obtain ⟨hconsecutive, houtcome⟩ := h
  have hstreak : streak stuck (turns ++ [turn]) =
      if isStuck then streak stuck turns + 1 else 0 := by
    rw [streak_concat, hstuck]
    simp only [decide_eq_true_eq]
  rw [← hstreak] at hconsecutive
  refine ⟨⟨hconsecutive, ?_⟩, ?_⟩
  · intro r hr
    cases hr
    exact hlimit
  · rw [Option.map_some, Option.some_inj, houtcome, hconsecutive, and_iff_right_iff_imp]
    intro hle
    -- a turn that is not stuck sets the count back below every limit
    have hpos := default_pos env
    by_contra hnot
    rw [if_neg hnot] at hstreak
    omega

/-- A turn of the agent is counted. -/
theorem Streak.turn {turns : List HeartbeatQueueDrainTurn}
    (h : Streak env turns (latest.find agentId)) {turn : HeartbeatQueueDrainTurn}
    (observedAt : Text) {policy : HeartbeatQueueBlindPolicy}
    (hown : (Observation.turn agentId turn observedAt policy).Obligated) :
    Streak env (turns ++ turnsOf agentId [.turn agentId turn observedAt policy])
      ((observe env latest (.turn agentId turn observedAt policy)).find agentId) := by
  obtain ⟨hcomplete, hpolicy⟩ := hown
  have hobligated : (policy.pulseQueueObligated != some false) = true := by
    simpa using hpolicy
  rw [observe, recordHeartbeatQueueDrainTurn, evaluateHeartbeatQueueDrainTurn, tally_eq,
    hobligated, hcomplete]
  cases hmade : madeCalls turn.toolCalls turn.toolResults with
  | none =>
      have hnone : turnsOf agentId [.turn agentId turn observedAt policy] = [] := by
        simp [turnsOf, HeartbeatQueueDrainTurn.made, hmade]
      rw [hnone, List.append_nil]
      exact h
  | some calls =>
      have hturn : turnsOf agentId [.turn agentId turn observedAt policy] = [turn] := by
        simp [turnsOf, HeartbeatQueueDrainTurn.made, hmade]
      have hstuck : stuck turn = decide (StuckCalls calls) := by
        rw [stuck, HeartbeatQueueDrainTurn.made, hmade]
        rfl
      have hjudged := evaluateTally_judged h.counts calls (heartbeatTurnWasPulseListingOnly turn)
        observedAt
      have hstored : Stored env agentId (evaluateTally env latest agentId (tallyOf {} calls)
        (heartbeatTurnWasPulseListingOnly turn) observedAt true) := stored_evaluateTally ..
      simp only [Option.map_some, Option.getD_some]
      rw [hturn, Map.find_set, if_pos rfl]
      exact Streak.concat hstuck hjudged hstored.2

/-- What is recorded of the agent follows its own turns, whatever is done for
others in between. -/
theorem streak_run (hfresh : latest.find agentId = none) (run : List Observation)
    (hown : ∀ o ∈ run, o.agentId = agentId → o.Obligated) :
    Streak env (turnsOf agentId run) ((observeAll env latest run).find agentId) := by
  induction run using List.reverseRecOn with
  | nil =>
      rw [observeAll, List.foldl_nil, hfresh]
      exact Streak.nil env
  | append_singleton run o ih =>
      have ih := ih fun o' ho' => hown o' (List.mem_append_left _ ho')
      have hown := hown o (by simp)
      have hfold : observeAll env latest (run ++ [o]) =
          observe env (observeAll env latest run) o := by
        rw [observeAll, List.foldl_append]
        rfl
      rw [hfold, turnsOf_concat]
      by_cases hagent : o.agentId = agentId
      · cases o with
        | turn agent turn observedAt policy =>
            cases hagent
            exact ih.turn observedAt (hown rfl)
        | outcome agent input observedAt => exact (hown hagent).elim
        | emptyQueue agent observedAt => exact (hown hagent).elim
        | workProgress agent turn observedAt => exact (hown hagent).elim
        | rotated agent => exact (hown hagent).elim
        | ingested record => exact (hown hagent).elim
      · rw [find_observe_other hagent, turnsOf_other hagent, List.append_nil]
        exact ih

/-! ## Shell calls -/

theorem snapshotOf_filter (calls : List MadeCall) :
    (calls.filter fun call => call.kind ≠ .shell).filterMap MadeCall.listing =
      calls.filterMap MadeCall.listing := by
  rw [List.filterMap_filter]
  refine List.filterMap_congr fun call _ => ?_
  rw [MadeCall.listing]
  cases call.kind <;> simp

theorem made_filter {kind : ToolKind} (hkind : kind ≠ .shell) (calls : List MadeCall) :
    Made kind (calls.filter fun call => call.kind ≠ .shell) ↔ Made kind calls := by
  constructor
  · rintro ⟨call, hcall, rfl⟩
    exact ⟨call, List.mem_of_mem_filter hcall, rfl⟩
  · rintro ⟨call, hcall, rfl⟩
    exact ⟨call, List.mem_filter.mpr ⟨hcall, by simpa using hkind⟩, rfl⟩

/-- Shell calls are nothing that a turn is unstuck by. -/
theorem stuckCalls_filter (calls : List MadeCall) :
    StuckCalls (calls.filter fun call => call.kind ≠ .shell) ↔ StuckCalls calls := by
  rw [StuckCalls, StuckCalls, made_filter (by decide), made_filter (by decide), snapshotOf,
    snapshotOf_filter, ← snapshotOf]

theorem stuck_of_shellOnly {turn : HeartbeatQueueDrainTurn} (h : ShellOnly turn) :
    stuck turn = true := by
  obtain ⟨calls, hcalls, hshell⟩ := h
  rw [stuck, hcalls, Option.any_some, decide_eq_true_eq, ← stuckCalls_filter,
    List.filter_eq_nil_iff.mpr fun call hcall => by simp [hshell call hcall]]
  exact ⟨by simp [Made], by simp [Made, snapshotOf]⟩

/-- The outcome after the last turn is that help is needed exactly when the last
turns, as many as the limit says, were all stuck. A turn with shell calls alone
goes on with the streak, and one that is not stuck ends it. -/
theorem needs_help_iff_streak (hfresh : latest.find agentId = none) (run : List Observation)
    (hown : ∀ o ∈ run, o.agentId = agentId → o.Obligated) :
    (((observeAll env latest run).find agentId).map (·.outcome) = some .needsHelp ↔
        (DEFAULT_NEEDS_HELP_AFTER env).toNat ≤ (turnsOf agentId run).length ∧
          ∀ turn ∈ (turnsOf agentId run).drop
            ((turnsOf agentId run).length - (DEFAULT_NEEDS_HELP_AFTER env).toNat),
            stuck turn = true) ∧
      (((observeAll env latest run).find agentId).map
          (·.consecutiveReadyNoProgressHeartbeats)).getD 0 = streak stuck (turnsOf agentId run) ∧
      ∀ turns turn, turnsOf agentId run = turns ++ [turn] →
        (ShellOnly turn → streak stuck (turnsOf agentId run) = streak stuck turns + 1) ∧
        (stuck turn = false → streak stuck (turnsOf agentId run) = 0) := by
  have hrun : Streak env (turnsOf agentId run) ((observeAll env latest run).find agentId) :=
    streak_run hfresh run hown
  refine ⟨?_, hrun.counts.1, ?_⟩
  · have hpos := default_pos env
    rw [hrun.needsHelp, ← le_streak_iff]
    omega
  · intro turns turn hlast
    rw [hlast, streak_concat]
    refine ⟨?_, ?_⟩
    · intro hshell
      rw [if_pos (stuck_of_shellOnly hshell)]
    · intro hfree
      rw [if_neg (by simp [hfree])]

/-- A heartbeat of nothing but a shell command, and one that moved a task on. -/
def shellTurn : HeartbeatQueueDrainTurn :=
  { toolCalls := [⟨some (js "functions.bash")⟩], toolResults := [⟨some (.str (js "ok")), false⟩] }

def commentTurn : HeartbeatQueueDrainTurn :=
  { toolCalls := [⟨some (js "mcp__pulse-add-comment")⟩, ⟨some (js "bash")⟩], toolResults := [] }

/-- Two heartbeats of shell commands after one that moved something, and another
agent's in between. -/
def shellRun : List Observation :=
  [.turn (js "sato") commentTurn [] {}, .turn (js "sato") shellTurn [] {},
    .emptyQueue (js "ren") [], .turn (js "sato") shellTurn [] {}]

theorem needs_help_iff_streak_shell :
    ((observeAll (fun _ => none) Table.empty shellRun).find (js "sato")).map (·.outcome) =
      some .needsHelp := by
  refine (needs_help_iff_streak rfl shellRun ?_).1.mpr ⟨by decide, by decide⟩
  simp only [shellRun, List.forall_mem_cons, List.not_mem_nil, false_implies, implies_true,
    and_true]
  refine ⟨fun _ => ⟨rfl, by simp⟩, fun _ => ⟨rfl, by simp⟩, fun h => ?_, fun _ => ⟨rfl, by simp⟩⟩
  exact absurd h (by decide)

end Shizuha.Shared
