import Shizuha.Gateway.SessionGeneration
import Shizuha.Machine

/-!
# What a generation fences off

The generation in memory and the one in the store agree when a process starts
and after every recovery. A rotation counts up in memory alone, so the
generation a recovery takes from the store afterwards is one that work of this
process may already have; and while a generation is fenced off, it is the one
the successor will have, so work that starts then keeps it.

Where neither happens, all work that a replaced history leaves behind has a
smaller generation than the session (`Behind`).
-/

namespace Shizuha.Gateway

open Js State Machine

variable {μ α : Type} {s : SessionProcess μ α} {action : SessionAction μ α}

/-- No work that started on a history that has been replaced passes the check. -/
def Fences (s : SessionProcess μ α) : Prop :=
  ∀ work ∈ s.works, work.replaced = true → ¬ s.passes work

/-- A generation is fenced off and its successor has not been committed. -/
def SessionProcess.fencing (s : SessionProcess μ α) : Bool :=
  s.store.head.any fun head => head.state = .guardTripped

/-- The generation as the store has it. -/
def SessionProcess.storedGeneration (s : SessionProcess μ α) : ℕ :=
  match s.store.head with
  | none => 0
  | some head =>
      if head.state = .guardTripped then head.targetGeneration else head.activeGeneration

/-- A recovery begins on the generation the store has; between the fence and the
commit of its successor no work starts and no rotation runs, and the successor
is committed once. -/
def KeepsFence (s : SessionProcess μ α) : SessionAction μ α → Prop
  | .start => s.fencing = false
  | .rotate => s.messages ≠ [] → s.fencing = false
  | .fence _ _ _ => s.sessionGeneration = s.storedGeneration
  | .commit episodeId _ => s.store.authoritative episodeId ≠ none → s.fencing = true
  | _ => True

/-- What a replaced history leaves behind is of an earlier generation, and so is
all work while a generation is fenced off. -/
structure Behind (s : SessionProcess μ α) : Prop where
  started : ∀ work ∈ s.works, work.generation ≤ s.sessionGeneration
  replaced : ∀ work ∈ s.works, work.replaced = true → work.generation < s.sessionGeneration
  fenced : ∀ head, s.store.head = some head → head.state = .guardTripped →
    ∀ work ∈ s.works, work.generation < head.targetGeneration
  pending : ∀ head, s.store.head = some head → head.state = .recoveryPending →
    head.targetGeneration = head.activeGeneration

theorem Behind.fences (h : Behind s) : Fences s :=
  fun work hwork hreplaced => (h.replaced work hwork hreplaced).ne

theorem behind_load (messages : List μ) {store : RecoveryLedger α}
    (hpending : ∀ head, store.head = some head → head.state = .recoveryPending →
      head.targetGeneration = head.activeGeneration) :
    Behind (SessionProcess.loadEternalSession messages store) :=
  ⟨fun _ h => absurd h List.not_mem_nil, fun _ h => absurd h List.not_mem_nil,
    fun _ _ _ _ h => absurd h List.not_mem_nil, hpending⟩

theorem fencing_eq_false {head : RecoveryHead} (h : s.fencing = false)
    (hhead : s.store.head = some head) : head.state ≠ .guardTripped := by
  intro hstate
  rw [SessionProcess.fencing, hhead, Option.any_some, hstate] at h
  cases h

/-! ## One step -/

theorem behind_start (h : Behind s) (hfree : s.fencing = false) : Behind s.start := by
  have hworks : ∀ work ∈ s.start.works, work ∈ s.works ∨ work = ⟨s.sessionGeneration, false⟩ := by
    intro work hwork
    rcases List.mem_append.mp hwork with hwork | hwork
    · exact .inl hwork
    · exact .inr (List.mem_singleton.mp hwork)
  refine ⟨fun work hwork => ?_, fun work hwork hreplaced => ?_, fun head hhead hstate => ?_,
    h.pending⟩
  · rcases hworks work hwork with hwork | rfl
    · exact h.started work hwork
    · exact le_rfl
  · rcases hworks work hwork with hwork | rfl
    · exact h.replaced work hwork hreplaced
    · cases hreplaced
  · exact absurd hstate (fencing_eq_false hfree hhead)

theorem behind_replace {messages : List μ} {generation : ℕ} {store : RecoveryLedger α}
    (hlater : ∀ work ∈ s.works, work.generation < generation)
    (hhead : ∀ head, store.head = some head → head.state ≠ .guardTripped)
    (hpending : ∀ head, store.head = some head → head.state = .recoveryPending →
      head.targetGeneration = head.activeGeneration) :
    Behind { s.replaceHistory messages with store, sessionGeneration := generation } := by
  have hworks : ∀ work ∈ (s.replaceHistory messages).works, work.generation < generation := by
    intro work hwork
    obtain ⟨before, hbefore, rfl⟩ := List.mem_map.mp hwork
    exact hlater before hbefore
  exact ⟨fun work hwork => (hworks work hwork).le, fun work hwork _ => hworks work hwork,
    fun head hsome hstate => absurd hstate (hhead head hsome), hpending⟩

theorem behind_rotate (h : Behind s) (hfree : s.messages ≠ [] → s.fencing = false) :
    Behind s.resetFruitlessHeartbeatSession := by
  rw [SessionProcess.resetFruitlessHeartbeatSession]
  split_ifs with hempty
  · exact h
  · exact behind_replace (fun work hwork => Nat.lt_succ_of_le (h.started work hwork))
      (fun head hhead => fencing_eq_false (hfree hempty) hhead) h.pending

theorem storedGeneration_finished (h : s.store.head.filter RecoveryHead.unfinished = none) :
    s.storedGeneration = (s.store.head.map RecoveryHead.activeGeneration).getD 0 := by
  rw [SessionProcess.storedGeneration]
  cases hhead : s.store.head with
  | none => rfl
  | some head =>
      have hfinished : head.state ≠ .guardTripped := by
        intro hstate
        rw [hhead, Option.filter_some, RecoveryHead.unfinished, hstate] at h
        cases h
      exact if_neg hfinished

/-- The fence leaves the generation where it was, or moves it past all work. -/
theorem behind_fence {episodeId : Text} {deferred : List (LedgerItem α)}
    {counters : ExpensiveTurnRecoveryCounters} (h : Behind s)
    (hstored : s.sessionGeneration = s.storedGeneration) :
    Behind (s.fence episodeId deferred counters) := by
  rw [SessionProcess.fence, RecoveryLedger.beginExpensiveTurnRecovery]
  cases hexisting : s.store.head.filter RecoveryHead.unfinished with
  | none =>
      dsimp only
      rw [if_neg (by simp), ← storedGeneration_finished hexisting, ← hstored]
      refine ⟨fun work hwork => ?_, fun work hwork _ => ?_, fun head hhead _ work hwork => ?_,
        fun head hhead hstate => ?_⟩
      · exact (h.started work hwork).trans (Nat.le_succ _)
      · exact Nat.lt_succ_of_le (h.started work hwork)
      · cases hhead
        exact Nat.lt_succ_of_le (h.started work hwork)
      · cases hhead
        cases hstate
  | some existing =>
      obtain ⟨hhead, hunfinished⟩ := Option.filter_eq_some_iff.mp hexisting
      have hsame : existing.state = .guardTripped ∧ s.sessionGeneration = existing.targetGeneration ∨
          existing.state = .recoveryPending ∧ s.sessionGeneration = existing.targetGeneration ∧
            s.sessionGeneration = existing.activeGeneration := by
        rw [SessionProcess.storedGeneration, hhead] at hstored
        dsimp only at hstored
        rw [RecoveryHead.unfinished, Bool.or_eq_true, decide_eq_true_eq, decide_eq_true_eq]
          at hunfinished
        rcases hunfinished with hstate | hstate
        · rw [if_pos hstate] at hstored
          exact .inl ⟨hstate, hstored⟩
        · rw [if_neg (by simp [hstate])] at hstored
          exact .inr ⟨hstate, hstored.trans (h.pending existing hhead hstate).symm, hstored⟩
      have hkept : ∀ generation, s.sessionGeneration = generation → Behind
          { s with
            sessionGeneration := generation
            store := ⟨some { existing with counters := existing.counters.merge counters },
              insertDeferred existing.episodeId deferred s.store.rows⟩ } := by
        rintro _ rfl
        refine ⟨h.started, h.replaced, fun head hsome hstate => ?_, fun head hsome hstate => ?_⟩
        · cases hsome
          exact h.fenced existing hhead hstate
        · cases hsome
          exact h.pending existing hhead hstate
      dsimp only
      obtain ⟨hstate, htarget⟩ | ⟨hstate, htarget, hactive⟩ := hsame
      · rw [if_neg (by simp [hstate])]
        exact hkept _ htarget
      · split_ifs
        · exact hkept _ hactive
        · exact hkept _ htarget

theorem behind_commit {episodeId : Text} {successor : List μ} (h : Behind s)
    (hfencing : s.store.authoritative episodeId ≠ none → s.fencing = true) :
    Behind (s.commitSuccessor episodeId successor) := by
  rw [SessionProcess.commitSuccessor, RecoveryLedger.commitExpensiveTurnSuccessor]
  cases hhead : s.store.authoritative episodeId with
  | none => exact h
  | some head =>
      have hsome : s.store.head = some head := (Option.filter_eq_some_iff.mp hhead).1
      have hfence := hfencing (by rw [hhead]; simp)
      rw [SessionProcess.fencing, hsome, Option.any_some, decide_eq_true_eq] at hfence
      refine behind_replace (h.fenced head hsome hfence) (fun head' hhead' => ?_)
        fun head' hhead' _ => ?_
      · cases hhead'
        nofun
      · cases hhead'
        rfl

/-- What changes the rows and the counters of the head, and may close the
episode, leaves everything as it was. -/
theorem behind_store {store : RecoveryLedger α} {head : RecoveryHead} (h : Behind s)
    (hhead : s.store.head = some head)
    (hstore : ∀ head', store.head = some head' →
      (head'.state = head.state ∨ head'.state = .verified ∨ head'.state = .exhausted) ∧
        head'.targetGeneration = head.targetGeneration ∧
        head'.activeGeneration = head.activeGeneration) : Behind { s with store } := by
  refine ⟨h.started, h.replaced, fun head' hhead' hstate => ?_, fun head' hhead' hstate => ?_⟩
  · obtain ⟨hsame, htarget, -⟩ := hstore head' hhead'
    rw [hstate] at hsame
    rw [htarget]
    rcases hsame with hsame | hsame | hsame
    · exact h.fenced head hhead hsame.symm
    · cases hsame
    · cases hsame
  · obtain ⟨hsame, htarget, hactive⟩ := hstore head' hhead'
    rw [hstate] at hsame
    rw [htarget, hactive]
    rcases hsame with hsame | hsame | hsame
    · exact h.pending head hhead hsame.symm
    · cases hsame
    · cases hsame

theorem behind_step (h : Behind s) (hkeeps : KeepsFence s action) :
    Behind (sessionStep s action) := by
  cases action with
  | append message => exact ⟨h.started, h.replaced, h.fenced, h.pending⟩
  | start => exact behind_start h hkeeps
  | rotate => exact behind_rotate h hkeeps
  | fence episodeId deferred counters => exact behind_fence h hkeeps
  | late episodeId deferred counters =>
      rw [sessionStep, RecoveryLedger.appendExpensiveTurnRecoveryDeferred]
      cases hhead : s.store.authoritative episodeId with
      | none => exact h
      | some head =>
          refine behind_store h (Option.filter_eq_some_iff.mp hhead).1 fun head' hhead' => ?_
          cases hhead'
          exact ⟨.inl rfl, rfl, rfl⟩
  | commit episodeId successor => exact behind_commit h hkeeps
  | attempt episodeId terminal =>
      rw [sessionStep, RecoveryLedger.recordExpensiveTurnRecoveryAttempt]
      cases hhead : s.store.authoritative episodeId with
      | none => exact h
      | some head =>
          refine behind_store h (Option.filter_eq_some_iff.mp hhead).1 fun head' hhead' => ?_
          cases hhead'
          refine ⟨?_, rfl, rfl⟩
          cases terminal with
          | none => exact .inl rfl
          | some terminal =>
              cases terminal with
              | verified => exact .inr (.inl rfl)
              | exhausted => exact .inr (.inr rfl)
  | restart messages => exact behind_load messages h.pending
  | restartAnew => exact behind_load [] nofun

/-- From the first process on, as long as every step keeps the fence, what has
started on a history that was replaced never passes the check again. -/
theorem replaced_work_fenced (actions : List (SessionAction μ α))
    (h : Along sessionStep KeepsFence
      (SessionProcess.loadEternalSession [] RecoveryLedger.empty) actions) :
    Throughout sessionStep Fences
      (SessionProcess.loadEternalSession [] RecoveryLedger.empty) actions := by
  have hfirst : Behind (SessionProcess.loadEternalSession ([] : List μ)
      (RecoveryLedger.empty : RecoveryLedger α)) := behind_load [] nofun
  exact (throughout_of_step (fun s action hbehind hkeeps => behind_step hbehind hkeeps) hfirst h).mono
    fun s hbehind => hbehind.fences

/-! ## Where it does not hold -/

/-- A recovery one rotation after the last one: the work of the generation in
memory passes the check on the history of the successor. -/
theorem rotated_work_passes {work : SessionWork} {episodeId : Text} {successor : List μ}
    (hfinished : s.store.head.filter RecoveryHead.unfinished = none)
    (hrotated : s.sessionGeneration = s.storedGeneration + 1) (hwork : work ∈ s.works)
    (hcurrent : work.generation = s.sessionGeneration) :
    ¬ Fences ((s.fence episodeId [] ⟨0, 0, 0, 0, 0⟩).commitSuccessor episodeId successor) := by
  intro h
  rw [SessionProcess.fence, RecoveryLedger.beginExpensiveTurnRecovery, hfinished] at h
  dsimp only at h
  rw [if_neg (by simp), ← storedGeneration_finished hfinished, SessionProcess.commitSuccessor,
    RecoveryLedger.commitExpensiveTurnSuccessor, RecoveryLedger.authoritative, Option.filter_some,
    if_pos (by simp)] at h
  exact h { work with replaced := true } (List.mem_map.mpr ⟨work, hwork, rfl⟩) rfl
    (hcurrent.trans hrotated)

/-- A recovery, a rotation, and a second guard in the next process. -/
def exchanged : List (SessionAction Text Text) :=
  [.append (js "hello"), .start, .fence (js "e1") [] ⟨0, 0, 0, 0, 0⟩, .commit (js "e1") [js "capsule"],
    .start, .rotate, .append (js "again"), .start, .restart [js "again"], .start,
    .fence (js "e2") [] ⟨0, 0, 0, 0, 0⟩]

theorem replaced_work_fenced_exchanged :
    Throughout sessionStep Fences
      (SessionProcess.loadEternalSession [] RecoveryLedger.empty) exchanged :=
  replaced_work_fenced exchanged
    ⟨trivial, rfl, rfl, fun _ => rfl, rfl, fun _ => rfl, trivial, rfl, trivial, rfl, rfl, trivial⟩

/-- A rotation, a turn, and the recovery that the turn calls for. -/
def rotatedFirst : List (SessionAction Text Text) :=
  [.append (js "hello"), .rotate, .append (js "again"), .start,
    .fence (js "e1") [] ⟨0, 0, 0, 0, 0⟩, .commit (js "e1") [js "capsule"]]

theorem replaced_work_passes :
    ¬ Throughout sessionStep Fences
      (SessionProcess.loadEternalSession [] RecoveryLedger.empty) rotatedFirst := by
  intro h
  exact h.last ⟨1, true⟩ (List.mem_singleton.mpr rfl) rfl rfl

end Shizuha.Gateway
