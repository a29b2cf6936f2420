import Shizuha.Proofs.StoreFrame
import Shizuha.Proofs.ToolOutcome
import Shizuha.State.StoreRuns

/-!
# What the tool journal changes

One lemma for each function of the journal, saying all that it does: which
turn's row is found or made, which attempt rows are added or settled, which
messages are appended. The message tables only ever grow, by rows of the
caller's session.
-/

namespace Shizuha.State

open Js Agent

variable {s s' : Store} {identity : ToolAttemptIdentity} {turn : ToolTurnRow}

/-- The turn is there afterwards: as it was, or open and new. -/
structure Ensured (s s' : Store) (identity : ToolAttemptIdentity) (turn : ToolTurnRow) : Prop
    extends Extended s s' [] where
  toolAttempts : s'.toolAttempts = s.toolAttempts
  found : s'.toolTurns.get identity.turn = some turn
  before : s.toolTurns.get identity.turn = some turn ∨
    s.toolTurns.get identity.turn = none ∧ turn.state = .opened
  others : ∀ k, k ≠ identity.turn → s'.toolTurns.get k = s.toolTurns.get k

theorem Ensured.key_eq (h : Ensured s s' identity turn) : turn.key = identity.turn :=
  (Table.get_eq_some_iff.mp h.found).2

theorem ensureToolTurn_ok (h : s.ensureToolTurn identity = .ok (turn, s')) :
    Ensured s s' identity turn := by
  rw [Store.ensureToolTurn] at h
  split_ifs at h with hcomplete
  split at h
  · cases h
  · simp only [] at h
    split_ifs at h with howner
    cases h
    have hget (k : Text × Text) := Table.get_insertOrIgnore (t := s.now.2.toolTurns)
      (r := identity.newTurn s.now.1) k
    have hkey : (identity.newTurn s.now.1).key = identity.turn := rfl
    refine
      { toExtended := .of_same (fun _ h => h) rfl rfl rfl
        toolAttempts := rfl, found := ?_, before := ?_, others := ?_ }
    · rw [hget, if_pos hkey.symm]
      rfl
    · rw [hget, if_pos hkey.symm]
      show s.toolTurns.get identity.turn = _ ∨ _
      have hnow : s.now.2.toolTurns.get identity.turn = s.toolTurns.get identity.turn := rfl
      rw [hkey, hnow]
      cases s.toolTurns.get identity.turn with
      | none => exact .inr ⟨rfl, rfl⟩
      | some row => exact .inl rfl
    · intro k hk
      rw [hget, if_neg (by rwa [hkey])]
      rfl

/-! ## Attempts -/

/-- A result column holds what the store wrote there: a result for this very
call. -/
def Recorded (r : ToolAttemptRow) : Prop :=
  ∀ text, r.resultJson = some text →
    ∃ result : ToolResult, text = result.toJson.print ∧ result.toolUseId = r.toolCallId

/-- What is left of an attempt row once the attempts under `keys` are
settled. -/
structure Settled (keys : List ((Text × Text) × Text × Double)) (r r' : ToolAttemptRow) :
    Prop where
  key : r'.key = r.key
  untouched : r.key ∉ keys → r' = r
  settled : r.key ∈ keys → r'.state ≠ .running
  final : r.state ≠ .running → r' = r
  recorded : Recorded r → Recorded r'

theorem Settled.refl (r : ToolAttemptRow) : Settled [] r r :=
  ⟨rfl, fun _ => rfl, fun h => absurd h List.not_mem_nil, fun _ => rfl, id⟩

theorem Settled.trans {keys keys' : List ((Text × Text) × Text × Double)}
    {r r' r'' : ToolAttemptRow} (h : Settled keys r r') (h' : Settled keys' r' r'') :
    Settled (keys ++ keys') r r'' where
  key := h'.key.trans h.key
  untouched := by
    intro hr
    rw [List.mem_append, not_or] at hr
    rw [h'.untouched (by rw [h.key]; exact hr.2), h.untouched hr.1]
  settled := by
    intro hr
    by_cases hr' : r'.key ∈ keys'
    · exact h'.settled hr'
    · rw [h'.untouched hr']
      rw [h.key] at hr'
      exact h.settled ((List.mem_append.mp hr).resolve_right hr')
  final := by
    intro hr
    have heq := h.final hr
    rw [h'.final (by rwa [heq]), heq]
  recorded := h'.recorded ∘ h.recorded

/-- The attempts under `keys` are settled, and no row comes or goes. -/
def AttemptsSettled (keys : List ((Text × Text) × Text × Double)) (s s' : Store) : Prop :=
  List.Forall₂ (Settled keys) s.toolAttempts.rows s'.toolAttempts.rows

theorem forall₂_trans {α : Type} {R S T : α → α → Prop} {l l' l'' : List α}
    (h : ∀ a b c, R a b → S b c → T a c) (hl : List.Forall₂ R l l')
    (hl' : List.Forall₂ S l' l'') : List.Forall₂ T l l'' := by
  induction hl generalizing l'' with
  | nil =>
      cases hl'
      exact .nil
  | cons hab hrest ih =>
      cases hl' with
      | cons hbc hrest' => exact .cons (h _ _ _ hab hbc) (ih hrest')

theorem AttemptsSettled.of_eq {s s' : Store} (h : s'.toolAttempts = s.toolAttempts) :
    AttemptsSettled [] s s' := by
  rw [AttemptsSettled, h]
  exact List.forall₂_same.mpr fun r _ => Settled.refl r

theorem AttemptsSettled.trans {keys keys' : List ((Text × Text) × Text × Double)}
    {s s' s'' : Store} (h : AttemptsSettled keys s s') (h' : AttemptsSettled keys' s' s'') :
    AttemptsSettled (keys ++ keys') s s'' :=
  forall₂_trans (fun _ _ _ hr hr' => hr.trans hr') h h'

theorem recorded_unknownOutcome {r : ToolAttemptRow} (h : Recorded r) :
    ∃ result : ToolResult, settledText r = result.toJson.print ∧
      result.toolUseId = r.toolCallId := by
  rw [settledText]
  cases hr : r.resultJson.filter (· ≠ []) with
  | none => exact ⟨unknownOutcome r.toolCallId, rfl, rfl⟩
  | some text => exact h text (Option.filter_eq_some_iff.mp hr).1

variable {attempt : ToolAttemptRow} {result : Text} {state : ToolAttemptState}

theorem extended_settle : Extended s (s.settle attempt state result) [] :=
  .of_same (fun _ h => h) rfl rfl rfl

/-- Settling an attempt that is in the table. -/
theorem attemptsSettled_settle (hmem : attempt ∈ s.toolAttempts.rows)
    (hrunning : attempt.state = .running) (hstate : state ≠ .running)
    (hresult : Recorded attempt → ∃ r : ToolResult, result = r.toJson.print ∧
      r.toolUseId = attempt.toolCallId) :
    AttemptsSettled [attempt.key] s (s.settle attempt state result) := by
  have hunique (r : ToolAttemptRow) (hr : r ∈ s.toolAttempts.rows) (hkey : r.key = attempt.key) :
      r = attempt := List.inj_on_of_nodup_map s.toolAttempts.nodup hr hmem hkey
  refine List.forall₂_map_right_iff.mpr (List.forall₂_same.mpr fun r hr => ?_)
  by_cases hkey : r.key = attempt.key
  · obtain rfl := hunique r hr hkey
    simp only [decide_true, if_true]
    refine ⟨rfl, fun h => absurd (List.mem_singleton.mpr rfl) h, fun _ => hstate,
      fun h => absurd hrunning h, fun hrec text htext => ?_⟩
    cases htext
    exact hresult hrec
  · simp only [hkey, decide_false, Bool.false_eq_true, if_false]
    exact ⟨rfl, fun _ => rfl, fun h => absurd (List.mem_singleton.mp h) hkey, fun _ => rfl, id⟩

/-- An attempt that is over needs no settling. -/
theorem attemptsSettled_of_over (hmem : attempt ∈ s.toolAttempts.rows)
    (hover : attempt.state ≠ .running) : AttemptsSettled [attempt.key] s s := by
  refine List.forall₂_same.mpr fun r hr => ⟨rfl, fun _ => rfl, fun h => ?_, fun _ => rfl, id⟩
  rwa [List.inj_on_of_nodup_map s.toolAttempts.nodup hr hmem (List.mem_singleton.mp h)]

/-! ## The latest attempt of every call -/

theorem map_setLatest (latest : List (ToolAttemptRow × ℕ)) (attempt : ToolAttemptRow) :
    (setLatest latest attempt).map (fun a => a.1.toolCallId) =
      if attempt.toolCallId ∈ latest.map (fun a => a.1.toolCallId) then
        latest.map fun a => a.1.toolCallId
      else latest.map (fun a => a.1.toolCallId) ++ [attempt.toolCallId] := by
  induction latest with
  | nil => rfl
  | cons a rest ih =>
      obtain ⟨a, count⟩ := a
      rw [setLatest]
      split_ifs with h h' h'
      · rw [List.map_cons, List.map_cons, h]
      · exact absurd (by simp [h]) h'
      · rw [List.map_cons, ih, if_pos (by simpa [Ne.symm h] using h'), List.map_cons]
      · rw [List.map_cons, ih, if_neg (by simpa [Ne.symm h] using h'), List.map_cons,
          List.cons_append]

theorem mem_setLatest {latest : List (ToolAttemptRow × ℕ)} {attempt : ToolAttemptRow}
    {a : ToolAttemptRow × ℕ} (h : a ∈ setLatest latest attempt) :
    a.1 = attempt ∨ ∃ b ∈ latest, b.1 = a.1 := by
  induction latest with
  | nil =>
      rw [setLatest, List.mem_singleton] at h
      exact .inl (congrArg Prod.fst h)
  | cons b rest ih =>
      obtain ⟨b, count⟩ := b
      rw [setLatest] at h
      split_ifs at h
      · rcases List.mem_cons.mp h with rfl | h
        · exact .inl rfl
        · exact .inr ⟨a, List.mem_cons_of_mem _ h, rfl⟩
      · rcases List.mem_cons.mp h with rfl | h
        · exact .inr ⟨(b, count), List.mem_cons_self, rfl⟩
        · rcases ih h with h | ⟨c, hc, heq⟩
          · exact .inl h
          · exact .inr ⟨c, List.mem_cons_of_mem _ hc, heq⟩

/-- Every call among the attempts has one entry, and entries are attempts. -/
theorem foldl_setLatest (attempts : List ToolAttemptRow) (latest : List (ToolAttemptRow × ℕ))
    (h : (latest.map fun a => a.1.toolCallId).Nodup) :
    ((attempts.foldl setLatest latest).map fun a => a.1.toolCallId).Nodup ∧
      (∀ c, c ∈ (attempts.foldl setLatest latest).map (fun a => a.1.toolCallId) ↔
        c ∈ latest.map (fun a => a.1.toolCallId) ∨ c ∈ attempts.map ToolAttemptRow.toolCallId) ∧
      ∀ a ∈ attempts.foldl setLatest latest, a.1 ∈ attempts ∨ ∃ b ∈ latest, b.1 = a.1 := by
  induction attempts generalizing latest with
  | nil => exact ⟨h, by simp, fun a ha => .inr ⟨a, ha, rfl⟩⟩
  | cons attempt rest ih =>
      have hset : ((setLatest latest attempt).map fun a => a.1.toolCallId).Nodup := by
        rw [map_setLatest]
        split_ifs with hmem
        · exact h
        · rw [List.nodup_append]
          exact ⟨h, List.nodup_singleton _, by grind⟩
      obtain ⟨hnodup, hmem, hrows⟩ := ih (setLatest latest attempt) hset
      refine ⟨hnodup, fun c => ?_, fun a ha => ?_⟩
      · rw [List.foldl_cons, hmem, map_setLatest, List.map_cons, List.mem_cons]
        split_ifs with hc
        · grind
        · rw [List.mem_append, List.mem_singleton, or_assoc]
      · rcases hrows a ha with ha | ⟨b, hb, heq⟩
        · exact .inl (List.mem_cons_of_mem _ ha)
        · rcases mem_setLatest hb with hb | ⟨c, hc, hcb⟩
          · exact .inl (by rw [← heq, hb]; exact List.mem_cons_self)
          · exact .inr ⟨c, hc, hcb.trans heq⟩

theorem mem_attemptsOf {k : Text × Text} {r : ToolAttemptRow} :
    r ∈ s.attemptsOf k ↔ r ∈ s.toolAttempts.rows ∧ r.turn = k := by
  rw [Store.attemptsOf, (List.perm_insertionSort _ _).mem_iff, List.mem_filter, decide_eq_true_eq]

/-- The calls with an attempt in a turn. -/
def Attempted (s : Store) (k : Text × Text) (c : Text) : Prop :=
  ∃ r ∈ s.toolAttempts.rows, r.turn = k ∧ r.toolCallId = c

theorem latestToolAttempts_calls (s : Store) (k : Text × Text) :
    ((s.latestToolAttempts k).map fun a => a.1.toolCallId).Nodup ∧
      ∀ c, c ∈ (s.latestToolAttempts k).map (fun a => a.1.toolCallId) ↔ Attempted s k c := by
  obtain ⟨hnodup, hmem, -⟩ := foldl_setLatest (s.attemptsOf k) [] List.nodup_nil
  refine ⟨hnodup, fun c => (hmem c).trans ?_⟩
  rw [List.map_nil, or_iff_right List.not_mem_nil, List.mem_map]
  simp only [mem_attemptsOf, and_assoc]
  rfl

theorem mem_latestToolAttempts {k : Text × Text} {a : ToolAttemptRow × ℕ}
    (h : a ∈ s.latestToolAttempts k) : a.1 ∈ s.toolAttempts.rows ∧ a.1.turn = k := by
  obtain ⟨-, -, hrows⟩ := foldl_setLatest (s.attemptsOf k) [] List.nodup_nil
  rcases hrows a h with h | ⟨b, hb, -⟩
  · exact mem_attemptsOf.mp h
  · exact absurd hb List.not_mem_nil

/-! ## Messages for attempts -/

variable {attempts : List (ToolAttemptRow × ℕ)} {blocks : List ContentBlock} {count : ℕ}
  {outcome : ToolOutcome} {messages persisted : List (Agent.Message ContentBlock)}

@[simp] theorem outcomeBlock_ids (outcome : ToolOutcome) (count : ℕ) :
    (outcomeBlock outcome count).useId? = none ∧
      (outcomeBlock outcome count).resultId? = some outcome.toolUseId := by
  rw [outcomeBlock]
  split <;> exact ⟨rfl, rfl⟩

/-- The outcome of a recorded attempt is that of its own call. -/
theorem attemptOutcome_toolUseId (hrec : Recorded attempt)
    (h : attemptOutcome attempt = .ok outcome) : outcome.toolUseId = attempt.toolCallId := by
  rw [attemptOutcome] at h
  split at h
  · cases h
    rfl
  · next text htext =>
    obtain ⟨result, rfl, hcall⟩ := hrec text (Option.filter_eq_some_iff.mp htext).1
    rw [readOutcome_toJson] at h
    cases h
    exact hcall

/-- The store after one attempt of the loop. -/
def settleRunning (s : Store) (attempt : ToolAttemptRow) : Store :=
  if attempt.state = .running then s.settle attempt .interrupted (settledText attempt) else s

theorem extended_settleRunning : Extended s (settleRunning s attempt) [] := by
  rw [settleRunning]
  split_ifs
  · exact extended_settle
  · exact Extended.refl s

theorem toolTurns_settleRunning : (settleRunning s attempt).toolTurns = s.toolTurns := by
  rw [settleRunning]
  split_ifs <;> rfl

theorem attemptsSettled_settleRunning (hmem : attempt ∈ s.toolAttempts.rows) :
    AttemptsSettled [attempt.key] s (settleRunning s attempt) := by
  rw [settleRunning]
  split_ifs with hrunning
  · exact attemptsSettled_settle hmem hrunning (by decide) recorded_unknownOutcome
  · exact attemptsSettled_of_over hmem hrunning

theorem attemptResults_cons {rest : List (ToolAttemptRow × ℕ)}
    (h : s.attemptResults ((attempt, count) :: rest) = .ok (blocks, s')) :
    ∃ outcome tail, attemptOutcome attempt = .ok outcome ∧
      (settleRunning s attempt).attemptResults rest = .ok (tail, s') ∧
      blocks = outcomeBlock outcome count :: tail := by
  rw [Store.attemptResults, Except.bind_ok_iff] at h
  obtain ⟨outcome, houtcome, h⟩ := h
  rw [Except.bind_ok_iff] at h
  obtain ⟨⟨tail, s₁⟩, hrest, h⟩ := h
  cases h
  exact ⟨outcome, tail, houtcome, hrest, rfl⟩

theorem attemptResults_extended (h : s.attemptResults attempts = .ok (blocks, s')) :
    Extended s s' [] ∧ s'.toolTurns = s.toolTurns ∧
      blocks.filterMap ContentBlock.useId? = [] := by
  induction attempts generalizing s blocks with
  | nil =>
      cases h
      exact ⟨Extended.refl _, rfl, rfl⟩
  | cons a rest ih =>
      obtain ⟨outcome, tail, -, hrest, rfl⟩ := attemptResults_cons h
      obtain ⟨hextended, hturns, huses⟩ := ih hrest
      refine ⟨extended_settleRunning.trans hextended, hturns.trans toolTurns_settleRunning, ?_⟩
      rw [List.filterMap_cons_none (outcomeBlock_ids outcome a.2).1, huses]

/-- Settling one attempt leaves the rows of the others in the table. -/
theorem mem_settleRunning (hmem : attempt ∈ s.toolAttempts.rows) {r : ToolAttemptRow}
    (hr : r ∈ s.toolAttempts.rows) (hkey : r.key ≠ attempt.key) :
    r ∈ (settleRunning s attempt).toolAttempts.rows := by
  have hsettled := attemptsSettled_settleRunning hmem
  obtain ⟨i, hi, rfl⟩ := List.getElem_of_mem hr
  have hlength := hsettled.length_eq
  have hrow := List.Forall₂.get hsettled hi (hlength ▸ hi)
  rw [List.get_eq_getElem, List.get_eq_getElem] at hrow
  rw [← hrow.untouched (by simpa using hkey)]
  exact List.getElem_mem _

theorem attemptResults_settled (hmem : ∀ a ∈ attempts, a.1 ∈ s.toolAttempts.rows)
    (hkeys : (attempts.map fun a => a.1.key).Nodup) (hrec : ∀ a ∈ attempts, Recorded a.1)
    (h : s.attemptResults attempts = .ok (blocks, s')) :
    AttemptsSettled (attempts.map fun a => a.1.key) s s' ∧
      blocks.filterMap ContentBlock.resultId? = attempts.map fun a => a.1.toolCallId := by
  induction attempts generalizing s blocks with
  | nil =>
      cases h
      exact ⟨AttemptsSettled.of_eq rfl, rfl⟩
  | cons a rest ih =>
      obtain ⟨attempt, count⟩ := a
      obtain ⟨outcome, tail, houtcome, hrest, rfl⟩ := attemptResults_cons h
      rw [List.map_cons, List.nodup_cons] at hkeys
      have hattempt : attempt ∈ s.toolAttempts.rows := hmem (attempt, count) List.mem_cons_self
      obtain ⟨hsettled, hids⟩ := ih
        (fun b hb => mem_settleRunning hattempt (hmem b (List.mem_cons_of_mem _ hb))
          fun heq => hkeys.1 (heq ▸ List.mem_map_of_mem (f := fun a => a.1.key) hb))
        hkeys.2 (fun b hb => hrec b (List.mem_cons_of_mem _ hb)) hrest
      refine ⟨(attemptsSettled_settleRunning hattempt).trans hsettled, ?_⟩
      rw [List.filterMap_cons_some (outcomeBlock_ids outcome count).2, hids,
        attemptOutcome_toolUseId (hrec (attempt, count) List.mem_cons_self) houtcome,
        List.map_cons]

theorem attemptCalls_ids (h : attemptCalls attempts = .ok blocks) :
    blocks.filterMap ContentBlock.useId? = attempts.map (fun a => a.1.toolCallId) ∧
      blocks.filterMap ContentBlock.resultId? = [] := by
  induction attempts generalizing blocks with
  | nil =>
      cases h
      exact ⟨rfl, rfl⟩
  | cons a rest ih =>
      rw [attemptCalls] at h
      split at h
      · cases h
      · rw [Except.bind_ok_iff] at h
        obtain ⟨tail, hrest, h⟩ := h
        cases h
        obtain ⟨huses, hresults⟩ := ih hrest
        exact ⟨by rw [List.filterMap_cons_some (f := ContentBlock.useId?) rfl, huses, List.map_cons],
          by rw [List.filterMap_cons_none (f := ContentBlock.resultId?) rfl, hresults]⟩

/-- The tool uses and the tool results of a list of messages. -/
def usesOf (messages : List (Agent.Message ContentBlock)) : List Text := messages.flatMap toolUseIds

def resultsOf (messages : List (Agent.Message ContentBlock)) : List Text :=
  messages.flatMap toolResultIds

theorem toolAttemptMessages_cases (h : s.toolAttemptMessages turn attempts = .ok (messages, s')) :
    attempts = [] ∧ messages = [] ∧ s' = s ∨
      ∃ results calls s₁ t t', s.attemptResults attempts = .ok (results, s₁) ∧
        attemptCalls attempts = .ok calls ∧ s' = s₁.now.2.now.2 ∧
        messages = [recoveryMessage turn ":calls" .assistant calls t,
          recoveryMessage turn ":results" .user results t'] := by
  rw [Store.toolAttemptMessages.eq_def] at h
  split at h
  · cases h
    exact .inl ⟨rfl, rfl, rfl⟩
  · rw [Except.bind_ok_iff] at h
    obtain ⟨⟨results, s₁⟩, hresults, h⟩ := h
    rw [Except.bind_ok_iff] at h
    obtain ⟨calls, hcalls, h⟩ := h
    cases h
    exact .inr ⟨results, calls, s₁, _, _, hresults, hcalls, rfl, rfl⟩

theorem toolAttemptMessages_extended
    (h : s.toolAttemptMessages turn attempts = .ok (messages, s')) :
    Extended s s' [] ∧ s'.toolTurns = s.toolTurns ∧
      usesOf messages = attempts.map fun a => a.1.toolCallId := by
  rcases toolAttemptMessages_cases h with
    ⟨rfl, rfl, rfl⟩ | ⟨results, calls, s₁, t, t', hresults, hcalls, rfl, rfl⟩
  · exact ⟨Extended.refl _, rfl, rfl⟩
  · obtain ⟨hextended, hturns, huses⟩ := attemptResults_extended hresults
    refine ⟨(hextended.trans (appended_now s₁).toExtended).trans
      (appended_now s₁.now.2).toExtended, hturns, ?_⟩
    simp only [usesOf, List.flatMap_cons, List.flatMap_nil, List.append_nil, toolUseIds, blocksOf,
      recoveryMessage, (attemptCalls_ids hcalls).1, huses]

theorem toolAttemptMessages_settled (hmem : ∀ a ∈ attempts, a.1 ∈ s.toolAttempts.rows)
    (hkeys : (attempts.map fun a => a.1.key).Nodup) (hrec : ∀ a ∈ attempts, Recorded a.1)
    (h : s.toolAttemptMessages turn attempts = .ok (messages, s')) :
    AttemptsSettled (attempts.map fun a => a.1.key) s s' ∧
      resultsOf messages = attempts.map fun a => a.1.toolCallId := by
  rcases toolAttemptMessages_cases h with
    ⟨rfl, rfl, rfl⟩ | ⟨results, calls, s₁, t, t', hresults, hcalls, rfl, rfl⟩
  · exact ⟨AttemptsSettled.of_eq rfl, rfl⟩
  · obtain ⟨hsettled, hids⟩ := attemptResults_settled hmem hkeys hrec hresults
    refine ⟨hsettled, ?_⟩
    simp only [resultsOf, List.flatMap_cons, List.flatMap_nil, List.append_nil, toolResultIds,
      blocksOf, recoveryMessage, (attemptCalls_ids hcalls).2, hids, List.nil_append]

/-! ## The operations -/

theorem appendMessages_appended {sessionId : Text}
    (h : s.appendMessages sessionId messages = .ok s') :
    ∃ rows, List.Forall₂ (RowOf sessionId) (messages.map Agent.Message.toJson) rows ∧
      Appended s s' rows := by
  induction messages generalizing s with
  | nil =>
      cases h
      exact ⟨[], .nil, Appended.refl _⟩
  | cons m rest ih =>
      rw [Store.appendMessages, Except.bind_ok_iff] at h
      obtain ⟨s₁, hm, hrest⟩ := h
      obtain ⟨row, hrow, happend⟩ := appendMessage_appended hm
      obtain ⟨rows, hrows, happends⟩ := ih hrest
      exact ⟨row :: rows, .cons hrow hrows, happend.trans happends⟩

theorem beginToolAttempt_ok {toolCallId name : Text} {input : Json} {invocation : Double}
    (h : s.beginToolAttempt identity toolCallId name input invocation = .ok s') :
    ∃ turn s₁ row, Ensured s s₁ identity turn ∧ turn.state = .opened ∧
      row.turn = identity.turn ∧ row.resultJson = none ∧
      s'.toolAttempts.rows = s.toolAttempts.rows ++ [row] ∧ s'.toolTurns = s₁.toolTurns ∧
      Extended s s' [] := by
  rw [Store.beginToolAttempt] at h
  split_ifs at h
  rw [Except.bind_ok_iff] at h
  obtain ⟨⟨turn, s₁⟩, hensure, h⟩ := h
  have hensured := ensureToolTurn_ok hensure
  simp only [] at h
  split_ifs at h with hopen
  · split at h
    · cases h
    · next attempts hinsert =>
      cases h
      obtain ⟨-, hrows⟩ := Table.insert_eq_some hinsert
      have hbefore : s₁.now.2.toolAttempts = s.toolAttempts := hensured.toolAttempts
      rw [hbefore] at hrows
      have hextended : Extended s₁ { s₁.now.2 with toolAttempts := attempts } [] :=
        .of_same (fun _ h => h) rfl rfl rfl
      refine ⟨turn, s₁, _, hensured, not_not.mp hopen, ?_, ?_, hrows, rfl,
        hensured.toExtended.trans hextended⟩ <;> rfl

theorem completeToolAttempt_ok {toolCallId : Text} {invocation : Double} {result : ToolResult}
    {interrupted : Bool}
    (h : s.completeToolAttempt identity toolCallId invocation result interrupted = .ok s') :
    ∃ turn s₁, Ensured s s₁ identity turn ∧ turn.state = .opened ∧
      result.toolUseId = toolCallId ∧ s'.toolTurns = s₁.toolTurns ∧ Extended s s' [] ∧
      (s'.toolAttempts = s.toolAttempts ∨
        ∃ attempt state, attempt ∈ s₁.toolAttempts.rows ∧ attempt.turn = identity.turn ∧
          attempt.toolCallId = boundText toolCallId ∧ attempt.state = .running ∧
          state ≠ .running ∧ s' = s₁.settle attempt state result.toJson.print) := by
  rw [Store.completeToolAttempt, Except.bind_ok_iff] at h
  obtain ⟨⟨turn, s₁⟩, hensure, h⟩ := h
  have hensured := ensureToolTurn_ok hensure
  simp only [] at h
  by_cases hopen : turn.state = .opened
  swap
  · rw [if_pos hopen] at h
    cases h
  rw [if_neg (not_not.mpr hopen)] at h
  refine ⟨turn, s₁, hensured, hopen, ?_⟩
  have hstate : (if interrupted then .interrupted else .completed : ToolAttemptState) ≠ .running := by
    split_ifs <;> decide
  generalize (if interrupted then .interrupted else .completed : ToolAttemptState) = state
    at h hstate
  split at h
  · cases h
  · next attempt hget =>
    obtain ⟨hmem, hkey⟩ := Table.get_eq_some_iff.mp hget
    split_ifs at h with hcall hover hsame
    · cases h
      exact ⟨not_not.mp hcall, rfl, hensured.toExtended, .inl hensured.toolAttempts⟩
    · cases h
      exact ⟨not_not.mp hcall, rfl, hensured.toExtended.trans extended_settle,
        .inr ⟨attempt, _, hmem, congrArg Prod.fst hkey, congrArg (fun k => k.2.1) hkey,
          not_not.mp hover, hstate, rfl⟩⟩

theorem finalizeToolTurn_ok (h : s.finalizeToolTurn identity messages = .ok (persisted, s')) :
    ∃ turn s₁, Ensured s s₁ identity turn ∧
      (turn.state = .finalized ∧ persisted = [] ∧ s' = s₁ ∨
        turn.state = .opened ∧ ∃ synthesized s₂ s₃ history,
          s₁.toolAttemptMessages turn ((s₁.latestToolAttempts identity.turn).filter
            fun a => a.1.toolCallId ∉ usesOf messages) = .ok (synthesized, s₂) ∧
          s₂.appendMessages identity.sessionId persisted = .ok s₃ ∧
          persisted = messages ++ synthesized ∧
          s' = s₃.closeToolTurn identity.turn .finalized history) := by
  rw [Store.finalizeToolTurn, Except.bind_ok_iff] at h
  obtain ⟨⟨turn, s₁⟩, hensure, h⟩ := h
  refine ⟨turn, s₁, ensureToolTurn_ok hensure, ?_⟩
  simp only [] at h
  split_ifs at h with hreplay hopen hresolved
  · cases h
    exact .inl ⟨hreplay.1, rfl, rfl⟩
  · rw [Except.bind_ok_iff] at h
    obtain ⟨⟨synthesized, s₂⟩, hsynthesized, h⟩ := h
    rw [Except.bind_ok_iff] at h
    obtain ⟨s₃, happend, h⟩ := h
    cases h
    exact .inr ⟨not_not.mp hopen, synthesized, s₂, s₃, _, hsynthesized, happend, rfl, rfl⟩

theorem recoverTurn_ok {sessionId : Text}
    (h : s.recoverTurn sessionId turn = .ok (messages, s')) :
    ∃ s₁ s₂, s.toolAttemptMessages turn
        (s.latestToolAttempts (boundText sessionId, turn.generation)) = .ok (messages, s₁) ∧
      s₁.appendMessages sessionId messages = .ok s₂ ∧
      s' = s₂.closeToolTurn (boundText sessionId, turn.generation) .recovered none := by
  rw [Store.recoverTurn, Except.bind_ok_iff] at h
  obtain ⟨⟨messages, s₁⟩, hsynthesized, h⟩ := h
  rw [Except.bind_ok_iff] at h
  obtain ⟨s₂, happend, h⟩ := h
  cases h
  exact ⟨s₁, s₂, hsynthesized, happend, rfl⟩

theorem extended_closeToolTurn {k : Text × Text} {state : ToolTurnState} {history : Option Text} :
    Extended s (s.closeToolTurn k state history) [] := .of_same (fun _ h => h) rfl rfl rfl

/-! ## Only messages of the caller's session are added -/

theorem finalizeToolTurn_extended
    (h : s.finalizeToolTurn identity messages = .ok (persisted, s')) :
    ∃ rows, (∀ r ∈ rows, r.sessionId = boundText identity.sessionId) ∧ Extended s s' rows := by
  obtain ⟨turn, s₁, hensured, ⟨-, -, rfl⟩ |
    ⟨-, synthesized, s₂, s₃, history, hsynthesized, happend, -, rfl⟩⟩ := finalizeToolTurn_ok h
  · exact ⟨[], by simp, hensured.toExtended⟩
  · obtain ⟨rows, hof, hrows⟩ := appendMessages_appended happend
    refine ⟨rows, RowOf.forall_sessionId hof, ?_⟩
    have hclosed : Extended s₂ (s₃.closeToolTurn identity.turn .finalized history) (rows ++ []) :=
      hrows.toExtended.trans extended_closeToolTurn
    simpa using
      (hensured.toExtended.trans (toolAttemptMessages_extended hsynthesized).1).trans hclosed

theorem recoverTurns_extended {sessionId : Text} {turns : List ToolTurnRow}
    {recovered : List (List (Agent.Message ContentBlock))}
    (h : s.recoverTurns sessionId turns = .ok (recovered, s')) :
    ∃ rows, (∀ r ∈ rows, r.sessionId = boundText sessionId) ∧ Extended s s' rows := by
  induction turns generalizing s recovered with
  | nil =>
      cases h
      exact ⟨[], by simp, Extended.refl _⟩
  | cons turn rest ih =>
      rw [Store.recoverTurns, Except.bind_ok_iff] at h
      obtain ⟨⟨messages, s₁⟩, hturn, h⟩ := h
      rw [Except.bind_ok_iff] at h
      obtain ⟨⟨tail, s₂⟩, hrest, h⟩ := h
      cases h
      obtain ⟨s₃, s₄, hsynthesized, happend, rfl⟩ := recoverTurn_ok hturn
      obtain ⟨rows, hof, hrows⟩ := appendMessages_appended happend
      obtain ⟨rows', hrows', hextended⟩ := ih hrest
      refine ⟨rows ++ rows', fun r hr => ?_, ?_⟩
      · exact (List.mem_append.mp hr).elim (RowOf.forall_sessionId hof r) (hrows' r)
      · have hclosed : Extended s₃ (s₄.closeToolTurn (boundText sessionId, turn.generation)
            .recovered none) (rows ++ []) := hrows.toExtended.trans extended_closeToolTurn
        simpa using ((toolAttemptMessages_extended hsynthesized).1.trans hclosed).trans hextended

end Shizuha.State
