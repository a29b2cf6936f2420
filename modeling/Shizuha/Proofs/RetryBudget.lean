import Shizuha.Agent.ToolRetry
import Shizuha.Machine

/-!
# One budget for a whole turn

However the calls of a turn are interleaved, one sum never changes but with the
number of calls: the invocations so far, the calls that sleep (each has paid for
an invocation to come) and what is left of the budget. The bound on the
invocations is read off it.

That an error which is not transient ends its call is a property of the log, and
needs to know of each such error in it that its call is rejected: a rejected
call is resumed by nothing.
-/

namespace Shizuha.Agent

open Js Machine

def RetryEvent.isInvocation : RetryEvent → Bool
  | .invoked _ => true
  | .failed .. => false

def RetryCall.isSleeping (c : RetryCall) : Bool :=
  match c.phase with
  | .sleeping => true
  | _ => false

/-- How often the wrapped functions have been invoked. -/
def RetryTurn.invocations (s : RetryTurn) : ℕ := s.log.countP RetryEvent.isInvocation

def RetryTurn.sleepers (s : RetryTurn) : ℕ := s.calls.countP RetryCall.isSleeping

def RetryTurn.phaseOf (s : RetryTurn) (i : ℕ) : Option RetryPhase :=
  s.calls[i]?.map RetryCall.phase

variable {s s' : RetryTurn} {a : RetryAction} {i : ℕ} {c d : RetryCall} {err : Thrown}

/-! ## What a step can do -/

inductive RetryMove (s : RetryTurn) : RetryAction → RetryTurn → Prop where
  | none (a : RetryAction) : RetryMove s a s
  | execute : RetryMove s .execute
      { s with
        calls := s.calls ++ [⟨0, .attempting⟩]
        log := s.log ++ [.invoked s.calls.length] }
  | resolve {i attempt : ℕ} (hi : s.calls[i]? = some ⟨attempt, .attempting⟩) :
      RetryMove s (.resolve i) { s with calls := s.calls.set i ⟨attempt, .fulfilled⟩ }
  | reject {i attempt : ℕ} {err : Thrown} (hi : s.calls[i]? = some ⟨attempt, .attempting⟩)
      (hspent : isRetryableToolError err = true → s.budget.canRetry = false) :
      RetryMove s (.fail i err)
        { s with
          calls := s.calls.set i ⟨attempt, .rejected err⟩
          log := s.log ++ [.failed i err] }
  | retry {i attempt : ℕ} {err : Thrown} (hi : s.calls[i]? = some ⟨attempt, .attempting⟩)
      (hretryable : isRetryableToolError err = true) (hleft : 0 < s.budget.remainingAttempts) :
      RetryMove s (.fail i err)
        { budget := { s.budget with remainingAttempts := s.budget.remainingAttempts - 1 }
          calls := s.calls.set i ⟨attempt + 1, .sleeping⟩
          log := s.log ++ [.failed i err] }
  | wake {i attempt : ℕ} (hi : s.calls[i]? = some ⟨attempt, .sleeping⟩) :
      RetryMove s (.wake i)
        { s with
          calls := s.calls.set i ⟨attempt, .attempting⟩
          log := s.log ++ [.invoked i] }

theorem retryMove (s : RetryTurn) (a : RetryAction) : RetryMove s a (retryStep s a) := by
  cases a with
  | execute => exact .execute
  | resolve i =>
      rw [retryStep]
      split
      · exact .resolve ‹_›
      · exact .none _
  | fail i err =>
      rw [retryStep]
      split
      · rename_i attempt hi
        rw [catchFailure]
        split_ifs with h
        · refine .reject hi fun hretryable => ?_
          simpa [hretryable] using h
        · simp only [Bool.or_eq_true, Bool.not_eq_true', not_or, Bool.not_eq_false] at h
          have hleft : 0 < s.budget.remainingAttempts := of_decide_eq_true h.2
          rw [ToolRetryBudget.consume, if_neg (by omega)]
          exact .retry hi h.1 hleft
      · exact .none _
  | wake i =>
      rw [retryStep]
      split
      · exact .wake ‹_›
      · exact .none _

/-! ## The sum -/

/-- The invocations made and paid for, and those that can still be paid for. -/
def Counted (maxRetries : ℕ) (s : RetryTurn) : Prop :=
  s.invocations + s.sleepers + s.budget.remainingAttempts = s.calls.length + maxRetries

theorem counted_init (config : ToolRetryConfig) : Counted config.maxRetries (.init config) := by
  show 0 + 0 + max 0 config.maxRetries = 0 + config.maxRetries
  omega

/-- One call changes, and the number of sleepers with it. -/
theorem countP_set_call {calls : List RetryCall} (hi : calls[i]? = some c) :
    (calls.set i d).countP RetryCall.isSleeping + c.isSleeping.toNat =
      calls.countP RetryCall.isSleeping + d.isSleeping.toNat := by
  obtain ⟨hlt, rfl⟩ := List.getElem?_eq_some_iff.mp hi
  have hpos : calls[i].isSleeping = true → 0 < calls.countP RetryCall.isSleeping := fun h =>
    List.countP_pos_iff.mpr ⟨_, List.getElem_mem hlt, h⟩
  rw [List.countP_set hlt]
  cases hc : calls[i].isSleeping with
  | true =>
      have := hpos hc
      cases d.isSleeping <;> simp <;> omega
  | false => cases d.isSleeping <;> simp

theorem counted_move {n : ℕ} (h : Counted n s) (hmove : RetryMove s a s') : Counted n s' := by
  unfold Counted RetryTurn.invocations RetryTurn.sleepers at *
  cases hmove with
  | none => exact h
  | execute =>
      simp only [List.countP_append, List.length_append]
      show _ + 1 + (_ + 0) + _ = _ + 1 + _
      omega
  | resolve hi =>
      rename_i i attempt
      have hset := countP_set_call (d := ⟨attempt, .fulfilled⟩) hi
      simp only [List.length_set]
      change _ + 0 = _ + 0 at hset
      omega
  | reject hi =>
      rename_i i attempt err hspent
      have hset := countP_set_call (d := ⟨attempt, .rejected err⟩) hi
      simp only [List.countP_append, List.length_set]
      change _ + 0 = _ + 0 at hset
      show _ + 0 + _ + _ = _
      omega
  | retry hi hretryable hleft =>
      rename_i i attempt err
      have hset := countP_set_call (d := ⟨attempt + 1, .sleeping⟩) hi
      simp only [List.countP_append, List.length_set]
      change _ + 0 = _ + 1 at hset
      show _ + 0 + _ + (_ - 1) = _
      omega
  | wake hi =>
      rename_i i attempt
      have hset := countP_set_call (d := ⟨attempt, .attempting⟩) hi
      simp only [List.countP_append, List.length_set]
      change _ + 1 = _ + 0 at hset
      show _ + 1 + _ + _ = _
      omega

theorem counted_run (config : ToolRetryConfig) (actions : List RetryAction) :
    Counted config.maxRetries (run retryStep (.init config) actions) :=
  run_invariant (C := fun _ _ => True) (fun s a h _ => counted_move h (retryMove s a))
    (counted_init config) (along_true (fun _ _ => trivial) _ _)

/-! ## Errors that are not transient -/

/-- What comes later in the log is no new attempt of a call whose attempt
failed with an error that is not transient. -/
def NotAfter (e f : RetryEvent) : Prop :=
  ∀ i err, e = .failed i err → isRetryableToolError err = false → f ≠ .invoked i

/-- The calls of such errors are rejected, and nothing came after them. -/
structure Ended (s : RetryTurn) : Prop where
  rejected : ∀ i err, .failed i err ∈ s.log → isRetryableToolError err = false →
    s.phaseOf i = some (.rejected err)
  last : s.log.Pairwise NotAfter

theorem phaseOf_lt {phase : RetryPhase} (h : s.phaseOf i = some phase) : i < s.calls.length := by
  obtain ⟨c, hc, -⟩ := Option.map_eq_some_iff.mp h
  exact (List.getElem?_eq_some_iff.mp hc).1

theorem pairwise_notAfter {log : List RetryEvent} {f : RetryEvent} (h : log.Pairwise NotAfter)
    (hf : ∀ e ∈ log, NotAfter e f) : (log ++ [f]).Pairwise NotAfter := by
  refine List.pairwise_append.mpr ⟨h, List.pairwise_singleton _ _, fun e he g hg => ?_⟩
  rw [List.mem_singleton.mp hg]
  exact hf e he

/-- A call that is suspended is not rejected. -/
theorem ne_of_rejected {j attempt : ℕ} {phase : RetryPhase} (hj : s.phaseOf j = some (.rejected err))
    (hi : s.calls[i]? = some ⟨attempt, phase⟩) (hphase : ∀ err, phase ≠ .rejected err) : j ≠ i := by
  intro h
  rw [h, RetryTurn.phaseOf, hi] at hj
  exact hphase err (Option.some.inj hj)

theorem ended_move (h : Ended s) (hmove : RetryMove s a s') : Ended s' := by
  -- A rejected call is not the one that is set.
  have hkeep : ∀ {i attempt : ℕ} {phase : RetryPhase} {d : RetryCall},
      s.calls[i]? = some ⟨attempt, phase⟩ → (∀ err, phase ≠ .rejected err) →
      ∀ j err, .failed j err ∈ s.log → isRetryableToolError err = false →
        ((s.calls.set i d)[j]?).map RetryCall.phase = some (.rejected err) := by
    intro i attempt phase d hi hphase j err hfailed hnot
    have hj := h.rejected j err hfailed hnot
    have hne := ne_of_rejected hj hi hphase
    rw [List.getElem?_set_ne (Ne.symm hne)]
    exact hj
  cases hmove with
  | none => exact h
  | execute =>
      constructor
      · intro j err hfailed hnot
        have hold : RetryEvent.failed j err ∈ s.log := by simpa using hfailed
        have hj := h.rejected j err hold hnot
        show ((s.calls ++ _)[j]?).map RetryCall.phase = _
        rw [List.getElem?_append_left (phaseOf_lt hj)]
        exact hj
      · refine pairwise_notAfter h.last fun e he j err hfailed hnot hinvoked => ?_
        subst hfailed
        have hlt := phaseOf_lt (h.rejected j err he hnot)
        injection hinvoked with hinvoked
        omega
  | resolve hi => exact ⟨hkeep hi fun err => by simp, h.last⟩
  | reject hi hspent =>
      rename_i i attempt err
      constructor
      · intro j err' hfailed hnot
        rcases List.mem_append.mp hfailed with hold | hnew
        · exact hkeep hi (fun err => by simp) j err' hold hnot
        · obtain ⟨rfl, rfl⟩ : j = i ∧ err' = err := by simpa using hnew
          have hlt := (List.getElem?_eq_some_iff.mp hi).1
          show ((s.calls.set j _)[j]?).map RetryCall.phase = _
          rw [List.getElem?_set_self hlt]
          rfl
      · exact pairwise_notAfter h.last fun e _ j err' _ _ => by simp
  | retry hi hretryable hleft =>
      rename_i i attempt err
      constructor
      · intro j err' hfailed hnot
        rcases List.mem_append.mp hfailed with hold | hnew
        · exact hkeep hi (fun err => by simp) j err' hold hnot
        · obtain ⟨rfl, rfl⟩ : j = i ∧ err' = err := by simpa using hnew
          rw [hretryable] at hnot
          cases hnot
      · exact pairwise_notAfter h.last fun e _ j err' _ _ => by simp
  | wake hi =>
      rename_i i attempt
      constructor
      · intro j err hfailed hnot
        have hold : RetryEvent.failed j err ∈ s.log := by simpa using hfailed
        exact hkeep hi (fun err => by simp) j err hold hnot
      · refine pairwise_notAfter h.last fun e he j err hfailed hnot hinvoked => ?_
        subst hfailed
        injection hinvoked with hinvoked
        exact ne_of_rejected (h.rejected j err he hnot) hi (fun err => by simp) hinvoked.symm

theorem ended_run (config : ToolRetryConfig) (actions : List RetryAction) :
    Ended (run retryStep (.init config) actions) :=
  run_invariant (C := fun _ _ => True) (fun s a h _ => ended_move h (retryMove s a))
    ⟨fun _ _ h => absurd h List.not_mem_nil, List.Pairwise.nil⟩
    (along_true (fun _ _ => trivial) _ _)

/-! ## Rejections -/

theorem phaseOf_set {calls : List RetryCall} {j : ℕ} {phase : RetryPhase}
    (h : ((calls.set i d)[j]?).map RetryCall.phase = some phase) :
    (calls[j]?).map RetryCall.phase = some phase ∨ j = i ∧ d.phase = phase := by
  by_cases hji : i = j
  · subst hji
    rw [List.getElem?_set_self'] at h
    obtain ⟨c, hc, hphase⟩ := Option.map_eq_some_iff.mp h
    obtain ⟨_, _, rfl⟩ := Option.map_eq_some_iff.mp hc
    exact .inr ⟨rfl, hphase⟩
  · rw [List.getElem?_set_ne hji] at h
    exact .inl h

/-- A call that is rejected by a step with a transient error finds the budget
empty. -/
theorem canRetry_of_rejected (hmove : RetryMove s a s') {j : ℕ}
    (h : s'.phaseOf j = some (.rejected err)) (hnew : s.phaseOf j ≠ some (.rejected err))
    (hretryable : isRetryableToolError err = true) : s.budget.canRetry = false := by
  cases hmove with
  | none => exact absurd h hnew
  | execute =>
      rcases Nat.lt_trichotomy j s.calls.length with hlt | rfl | hgt
      · refine absurd ?_ hnew
        rw [← h]
        show _ = ((s.calls ++ _)[j]?).map RetryCall.phase
        rw [List.getElem?_append_left hlt]
        rfl
      · simp [RetryTurn.phaseOf] at h
      · have hlt := phaseOf_lt h
        simp only [List.length_append, List.length_singleton] at hlt
        omega
  | resolve hi =>
      rcases phaseOf_set h with hold | ⟨-, hphase⟩
      · exact absurd hold hnew
      · cases hphase
  | reject hi hspent =>
      rcases phaseOf_set h with hold | ⟨-, hphase⟩
      · exact absurd hold hnew
      · cases hphase
        exact hspent hretryable
  | retry hi _ _ =>
      rcases phaseOf_set h with hold | ⟨-, hphase⟩
      · exact absurd hold hnew
      · cases hphase
  | wake hi =>
      rcases phaseOf_set h with hold | ⟨-, hphase⟩
      · exact absurd hold hnew
      · cases hphase

/-- Whatever the calls of a turn do: the wrapped functions are invoked at most
once a call and once a retry of the budget, an attempt that failed with an error
that is not transient is the last of its call, and a call that rejects with a
transient error does so when the budget is empty. -/
theorem retry_budget_bounds_turn (config : ToolRetryConfig) (actions : List RetryAction) :
    let s := run retryStep (.init config) actions
    s.invocations ≤ s.calls.length + config.maxRetries ∧
      s.log.Pairwise NotAfter ∧
      ∀ a i err, (retryStep s a).phaseOf i = some (.rejected err) →
        s.phaseOf i ≠ some (.rejected err) → isRetryableToolError err = true →
        s.budget.canRetry = false := by
  intro s
  have hcounted : Counted config.maxRetries s := counted_run config actions
  refine ⟨?_, (ended_run config actions).last, fun a i err h hnew hretryable => ?_⟩
  · rw [Counted] at hcounted
    omega
  · exact canRetry_of_rejected (retryMove s a) h hnew hretryable

end Shizuha.Agent
