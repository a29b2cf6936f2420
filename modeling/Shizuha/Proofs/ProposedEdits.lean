import Shizuha.Vscode.FileDiff

/-!
# When an edit still belongs to its owner

A diff is edited into the workspace after three checks of its ownership, the
last one under the commit lock. But between that check and `applyEdit` the
target is read once more, and while the call waits for it `rejectAll` may be
called and the session, the connection or the workspace may change: those
happen outside the lock. The edit is fenced exactly if none of that has
happened when the second reading comes back.

The rest holds in every run: the lock has one holder, what the holder commits
is still pending, and so each identifier gets one result at most, `accepted`
for the edits that were applied.
-/

namespace Shizuha.Vscode

open Js LocalCore Machine FileDiffHandler

/-! ## What an event does -/

namespace Call

/-- The place in the line. -/
def ticket : Call → Option ℕ
  | .waiting ticket _ => some ticket
  | .committing ticket _ _ => some ticket
  | .applying ticket _ _ => some ticket
  | .rejecting ticket _ _ => some ticket
  | _ => none

/-- The call is in the lock. -/
def holds : Call → Bool
  | .committing _ _ _ => true
  | .applying _ _ _ => true
  | .rejecting _ _ _ => true
  | _ => false

/-- The diff a call of `acceptDiff` is about. -/
def accepting : Call → Option (Text × PendingDiff)
  | .resolving diffId pending => some (diffId, pending)
  | .preflight diffId pending => some (diffId, pending)
  | .waiting _ (.accept diffId pending) => some (diffId, pending)
  | .committing _ diffId pending => some (diffId, pending)
  | .applying _ diffId pending => some (diffId, pending)
  | _ => none

def proposal : Call → Option Proposal
  | .proposing p => some p
  | _ => none

end Call

/-- Something comes back to a call. -/
def FileDiffEvent.returns : FileDiffEvent → Bool
  | .targetResolved _ _ _ => true
  | .targetRead _ _ => true
  | .lockReleased _ => true
  | .editApplied _ _ => true
  | .nextRejected _ => true
  | _ => false

/-- A call without a place that goes on about the same diff, or is over. -/
inductive Goes : Call → Call → Prop where
  | preflight (diffId : Text) (pending : PendingDiff) :
      Goes (.resolving diffId pending) (.preflight diffId pending)
  | settled {c : Call} (h : c.ticket = none) (result : CallResult) : Goes c (.settled result)

/-- The outcomes of an event. -/
inductive Moved (h : FileDiffHandler) : FileDiffEvent → FileDiffHandler → Prop where
  | stays {e : FileDiffEvent} (he : e.returns = true) : Moved h e h
  | reserves : Moved h .reserveDiffId h.nextId
  | proposes {diff : DiffProposedPayload} {preassignedId sessionId : Option Text}
      {generation : Option ℕ} {c : Call}
      (hc : (∃ message, c = .settled (.failed message)) ∨
        ∃ p : Proposal, c = .proposing p ∧ p.id = (h.identify preassignedId).1 ∧
          p.invalidationEpoch = h.invalidationEpoch ∧ p.proposal = h.proposals) :
      Moved h (.handleDiffProposed diff preassignedId sessionId generation)
        ((h.identify preassignedId).2.call c)
  | calls {e : FileDiffEvent} {c : Call} {diffId : Text}
      (he : e = .acceptDiff diffId ∨ e = .rejectDiff diffId)
      (hc : c = .settled (.action none) ∨
        ∃ pending, c = .resolving diffId pending ∧
          Dict.find h.pendingDiffs diffId = some pending) : Moved h e (h.call c)
  | queues {diffId : Text} {pending : PendingDiff}
      (hpending : Dict.find h.pendingDiffs diffId = some pending) :
      Moved h (.rejectDiff diffId) (h.withCommitLock call (.reject diffId pending))
  | invalidates : Moved h .rejectAll h.rejectAll
  | goes {e : FileDiffEvent} {i : ℕ} {c c' : Call} (he : e.returns = true) (hi : h.calls[i]? = some c) (hc : Goes c c') :
      Moved h e (h.resume i c')
  | pends {i : ℕ} {target : Text} {owner : Option Text} {p : Proposal}
      (hi : h.calls[i]? = some (.proposing p)) :
      Moved h (.targetResolved i (.ok target) owner)
        ({ h with pendingDiffs := Dict.set h.pendingDiffs p.id (p.pending target) }.resume i
          (.settled (.proposed (p.pending target))))
  | lines {i : ℕ} {diffId : Text} {pending : PendingDiff} {answer : TargetAnswer}
      (hi : h.calls[i]? = some (.preflight diffId pending)) :
      Moved h (.targetRead i answer)
        (h.withCommitLock (fun h => h.resume i) (.accept diffId pending))
  | enters {i ticket : ℕ} {diffId : Text} {pending : PendingDiff}
      (hi : h.calls[i]? = some (.waiting ticket (.accept diffId pending)))
      (hturn : ticket = h.released) (hpending : h.IsPending diffId pending)
      (hepoch : h.invalidationEpoch = pending.invalidationEpoch)
      (howns : h.host.Owns pending.sessionId pending.connectionGeneration
        pending.workspaceRootUri) :
      Moved h (.lockReleased i) (h.resume i (.committing ticket diffId pending))
  | edits {i ticket : ℕ} {diffId : Text} {pending : PendingDiff} {answer : TargetAnswer}
      (hi : h.calls[i]? = some (.committing ticket diffId pending))
      (hanswer : Unchanged pending answer) :
      Moved h (.targetRead i answer)
        ({ h with edits := h.edits ++ [pending] }.resume i (.applying ticket diffId pending))
  | leaves {e : FileDiffEvent} {i ticket : ℕ} {c : Call} (he : e.returns = true)
      (hi : h.calls[i]? = some c) (hticket : c.ticket = some ticket)
      (hturn : ticket = h.released ∨ c.holds = true) (result : CallResult) :
      Moved h e (h.leave i result)
  | accepts {i ticket : ℕ} {diffId : Text} {pending : PendingDiff}
      (hi : h.calls[i]? = some (.applying ticket diffId pending)) (result : CallResult) :
      Moved h (.editApplied i (some true)) ((h.report diffId pending .accepted).leave i result)
  | rejects {i : ℕ} {ticket : ℕ} {diffId : Text} {pending : PendingDiff}
      (hi : h.calls[i]? = some (.waiting ticket (.reject diffId pending)))
      (hturn : ticket = h.released) (hpending : h.IsPending diffId pending) (result : CallResult) :
      Moved h (.lockReleased i) ((h.report diffId pending .rejected).leave i result)
  | loops {e : FileDiffEvent} {i ticket : ℕ} {c : Call} {diffId : Text} {pending : PendingDiff}
      (he : e.returns = true) (hi : h.calls[i]? = some c) (hticket : c.ticket = some ticket)
      (hturn : ticket = h.released ∨ c.holds = true) (h' : FileDiffHandler)
      (hh : h' = h ∨ h.IsPending diffId pending ∧ h' = h.report diffId pending .rejected)
      (rest : List (Text × PendingDiff)) (results : List DiffActionResult) :
      Moved h e (h'.resume i (.rejecting ticket rest results))
  | hosts (host : Host) : Moved h (.hostChanged host) { h with host := host }

theorem moved_handleDiffProposed (h : FileDiffHandler) (diff : DiffProposedPayload)
    (preassignedId sessionId : Option Text) (generation : Option ℕ) :
    Moved h (.handleDiffProposed diff preassignedId sessionId generation)
      (h.handleDiffProposed diff preassignedId sessionId generation) := by
  unfold FileDiffHandler.handleDiffProposed
  simp only
  split
  · exact .proposes (.inl ⟨_, rfl⟩)
  · split_ifs
    · exact .proposes (.inl ⟨_, rfl⟩)
    · split
      · exact .proposes (.inl ⟨_, rfl⟩)
      · split_ifs
        · exact .proposes (.inl ⟨_, rfl⟩)
        · exact .proposes (.inr ⟨_, rfl, rfl, rfl, rfl⟩)

theorem moved_acceptDiff (h : FileDiffHandler) (diffId : Text) :
    Moved h (.acceptDiff diffId) (h.acceptDiff diffId) := by
  unfold FileDiffHandler.acceptDiff
  simp only
  split_ifs
  · exact .calls (.inl rfl) (.inl rfl)
  · cases hfind : Dict.find h.pendingDiffs diffId with
    | none => exact .calls (.inl rfl) (.inl rfl)
    | some pending =>
        simp only
        split_ifs
        · exact .calls (.inl rfl) (.inl rfl)
        · exact .calls (.inl rfl) (.inr ⟨pending, rfl, hfind⟩)
        · exact .calls (.inl rfl) (.inl rfl)

theorem moved_rejectNext {h : FileDiffHandler} {e : FileDiffEvent} {i ticket : ℕ} {c : Call}
    (he : e.returns = true) (hi : h.calls[i]? = some c) (hticket : c.ticket = some ticket)
    (hturn : ticket = h.released ∨ c.holds = true) (rest : List (Text × PendingDiff))
    (results : List DiffActionResult) : Moved h e (h.rejectNext i ticket results rest) := by
  cases rest with
  | nil => exact .leaves he hi hticket hturn _
  | cons next rest =>
      obtain ⟨diffId, pending⟩ := next
      have hrejected : (h.rejectPending diffId pending).1 = h ∨ h.IsPending diffId pending ∧
          (h.rejectPending diffId pending).1 = h.report diffId pending .rejected := by
        rw [rejectPending]
        split_ifs with hpending
        · exact .inr ⟨hpending, rfl⟩
        · exact .inl rfl
      exact .loops he hi hticket hturn _ hrejected rest _

theorem moved_enter {h : FileDiffHandler} {i ticket : ℕ} {operation : CommitOperation}
    (hi : h.calls[i]? = some (.waiting ticket operation)) (hturn : ticket = h.released) :
    Moved h (.lockReleased i) (h.enter i ticket operation) := by
  have hleave : ∀ result, Moved h (.lockReleased i) (h.leave i result) :=
    fun result => .leaves rfl hi rfl (.inl hturn) result
  cases operation with
  | accept diffId pending =>
      rw [enter, beginCommit]
      split_ifs with hcheck
      · exact .enters hi hturn hcheck.1 hcheck.2.1 hcheck.2.2
      · exact hleave _
  | reject diffId pending =>
      rw [enter, rejectPending]
      split_ifs with hpending
      · exact .rejects hi hturn hpending _
      · exact hleave _
  | rejectAll => exact moved_rejectNext rfl hi rfl (.inl hturn) _ _

/-- What an event can do. -/
theorem moved_step (h : FileDiffHandler) (e : FileDiffEvent) : Moved h e (h.step e) := by
  cases e with
  | reserveDiffId => exact .reserves
  | handleDiffProposed diff preassignedId sessionId generation =>
      exact moved_handleDiffProposed h diff preassignedId sessionId generation
  | acceptDiff diffId => exact moved_acceptDiff h diffId
  | rejectDiff diffId =>
      rw [step, FileDiffHandler.rejectDiff]
      cases hfind : Dict.find h.pendingDiffs diffId with
      | none => exact .calls (.inr rfl) (.inl rfl)
      | some pending => exact .queues hfind
  | rejectAll => exact .invalidates
  | targetResolved i target owner =>
      rw [step]
      split
      · rename_i p hi
        cases target with
        | error message => exact .goes rfl hi (.settled rfl _)
        | ok target =>
            rw [propose]
            split_ifs
            · exact .pends hi
            · exact .goes rfl hi (.settled rfl _)
      · rename_i diffId pending hi
        cases target with
        | error message => exact .goes rfl hi (.settled rfl _)
        | ok target =>
            rw [resolveTarget]
            split_ifs
            · exact .goes rfl hi (.preflight diffId pending)
            · exact .goes rfl hi (.settled rfl _)
      · exact .stays rfl
  | targetRead i answer =>
      rw [step]
      split
      · rename_i diffId pending hi
        rw [FileDiffHandler.preflight]
        split_ifs
        · exact .lines hi
        · exact .goes rfl hi (.settled rfl _)
      · rename_i ticket diffId pending hi
        rw [commit]
        split_ifs with hanswer
        · exact .edits hi hanswer
        · exact .leaves rfl hi rfl (.inr rfl) _
      · exact .stays rfl
  | lockReleased i =>
      rw [step]
      split
      · rename_i ticket operation hi
        split_ifs with hturn
        · exact moved_enter hi hturn
        · exact .stays rfl
      · exact .stays rfl
  | editApplied i applied =>
      rw [step]
      split
      · rename_i ticket diffId pending hi
        rw [finishEdit]
        split_ifs with happlied
        · rw [happlied]
          exact .accepts hi _
        · exact .leaves rfl hi rfl (.inr rfl) _
      · exact .stays rfl
  | nextRejected i =>
      rw [step]
      split
      · rename_i ticket rest results hi
        exact moved_rejectNext rfl hi rfl (.inr rfl) rest results
      · exact .stays rfl
  | hostChanged host => exact .hosts host

/-! ## Calls -/

section Calls

variable {calls : List Call} {i : ℕ} {c : Call}

/-- A new call, or one of before. -/
theorem getElem?_concat_cases {j : ℕ} {d : Call} (h : (calls ++ [c])[j]? = some d) :
    calls[j]? = some d ∨ j = calls.length ∧ d = c := by
  rcases Nat.lt_trichotomy j calls.length with hlt | heq | hgt
  · left
    rwa [List.getElem?_append_left hlt] at h
  · right
    rw [heq, List.getElem?_concat_length] at h
    exact ⟨heq, (Option.some.inj h).symm⟩
  · rw [List.getElem?_eq_none (by simp; omega)] at h
    cases h

theorem getElem?_set_cases {c' : Call} {j : ℕ} {d : Call} (h : (calls.set i c')[j]? = some d) :
    calls[j]? = some d ∧ j ≠ i ∨ j = i ∧ d = c' := by
  by_cases hij : i = j
  · right
    rw [List.getElem?_set, if_pos hij] at h
    split_ifs at h
    exact ⟨hij.symm, (Option.some.inj h).symm⟩
  · left
    rw [List.getElem?_set_ne hij] at h
    exact ⟨h, Ne.symm hij⟩

theorem exists_split (hi : calls[i]? = some c) (c' : Call) :
    ∃ a b, calls = a ++ c :: b ∧ calls.set i c' = a ++ c' :: b := by
  obtain ⟨hlt, rfl⟩ := List.getElem?_eq_some_iff.mp hi
  refine ⟨calls.take i, calls.drop (i + 1), ?_, ?_⟩
  · rw [List.getElem_cons_drop, List.take_append_drop]
  · rw [List.set_eq_take_append_cons_drop, if_pos hlt]

end Calls

/-! ## The lock -/

/-- The places in the line are distinct, and who holds the lock has the first. -/
structure LockInv (calls : List Call) (issued released : ℕ) : Prop where
  line : released ≤ issued
  places : ∀ (i : ℕ) (c : Call) (t : ℕ), calls[i]? = some c → c.ticket = some t → released ≤ t ∧ t < issued
  turn : ∀ (i : ℕ) (c : Call) (t : ℕ), calls[i]? = some c → c.ticket = some t → c.holds = true → t = released
  distinct : ∀ (i j : ℕ) (c d : Call) (t : ℕ), calls[i]? = some c → calls[j]? = some d →
    c.ticket = some t → d.ticket = some t → i = j

section Lock

variable {calls : List Call} {issued released i : ℕ} {c c' : Call}

theorem LockInv.concat (h : LockInv calls issued released) (hc : c.ticket = none) :
    LockInv (calls ++ [c]) issued released := by
  have hold : ∀ {j : ℕ} {d : Call} {t : ℕ}, (calls ++ [c])[j]? = some d → d.ticket = some t → calls[j]? = some d := by
    intro j d t hj ht
    rcases getElem?_concat_cases hj with hj | ⟨-, rfl⟩
    · exact hj
    · rw [hc] at ht
      cases ht
  exact
    { line := h.line
      places := fun j d t hj ht => h.places j d t (hold hj ht) ht
      turn := fun j d t hj ht => h.turn j d t (hold hj ht) ht
      distinct := fun j k d d' t hj hk ht ht' =>
        h.distinct j k d d' t (hold hj ht) (hold hk ht') ht ht' }

/-- A call goes to the end of the line. -/
theorem LockInv.concat_line (h : LockInv calls issued released) (operation : CommitOperation) :
    LockInv (calls ++ [.waiting issued operation]) (issued + 1) released where
  line := Nat.le_succ_of_le h.line
  places := by
    intro j d t hj ht
    rcases getElem?_concat_cases hj with hj | ⟨-, rfl⟩
    · have := h.places j d t hj ht
      omega
    · cases ht
      have := h.line
      omega
  turn := by
    intro j d t hj ht hd
    rcases getElem?_concat_cases hj with hj | ⟨-, rfl⟩
    · exact h.turn j d t hj ht hd
    · cases hd
  distinct := by
    intro j k d d' t hj hk ht ht'
    rcases getElem?_concat_cases hj with hj | ⟨hj, rfl⟩ <;>
      rcases getElem?_concat_cases hk with hk | ⟨hk, rfl⟩
    · exact h.distinct j k d d' t hj hk ht ht'
    · cases ht'
      have := h.places j d _ hj ht
      omega
    · cases ht
      have := h.places k d' _ hk ht'
      omega
    · omega

/-- A call keeps its place, or gives up one that it does not have. -/
theorem LockInv.set (h : LockInv calls issued released) (hi : calls[i]? = some c)
    (hticket : ∀ t, c'.ticket = some t → c.ticket = some t ∧ (c'.holds = true → t = released)) :
    LockInv (calls.set i c') issued released := by
  have hold : ∀ {j : ℕ} {d : Call} {t : ℕ}, (calls.set i c')[j]? = some d → d.ticket = some t →
      ∃ d', calls[j]? = some d' ∧ d'.ticket = some t := by
    intro j d t hj ht
    rcases getElem?_set_cases hj with ⟨hj, -⟩ | ⟨rfl, rfl⟩
    · exact ⟨d, hj, ht⟩
    · exact ⟨c, hi, (hticket t ht).1⟩
  refine ⟨h.line, ?_, ?_, ?_⟩
  · intro j d t hj ht
    obtain ⟨d', hj', ht'⟩ := hold hj ht
    exact h.places j d' t hj' ht'
  · intro j d t hj ht hd
    rcases getElem?_set_cases hj with ⟨hj, -⟩ | ⟨rfl, rfl⟩
    · exact h.turn j d t hj ht hd
    · exact (hticket t ht).2 hd
  · intro j k d d' t hj hk ht ht'
    obtain ⟨e, hj', he⟩ := hold hj ht
    obtain ⟨e', hk', he'⟩ := hold hk ht'
    exact h.distinct j k e e' t hj' hk' he he'

theorem LockInv.set_line (h : LockInv calls issued released) (operation : CommitOperation) :
    LockInv (calls.set i (.waiting issued operation)) (issued + 1) released where
  line := Nat.le_succ_of_le h.line
  places := by
    intro j d t hj ht
    rcases getElem?_set_cases hj with ⟨hj, -⟩ | ⟨-, rfl⟩
    · have := h.places j d t hj ht
      omega
    · cases ht
      have := h.line
      omega
  turn := by
    intro j d t hj ht hd
    rcases getElem?_set_cases hj with ⟨hj, -⟩ | ⟨-, rfl⟩
    · exact h.turn j d t hj ht hd
    · cases hd
  distinct := by
    intro j k d d' t hj hk ht ht'
    rcases getElem?_set_cases hj with ⟨hj, -⟩ | ⟨hj, rfl⟩ <;>
      rcases getElem?_set_cases hk with ⟨hk, -⟩ | ⟨hk, rfl⟩
    · exact h.distinct j k d d' t hj hk ht ht'
    · cases ht'
      have := h.places j d _ hj ht
      omega
    · cases ht
      have := h.places k d' _ hk ht'
      omega
    · omega

/-- The holder leaves. -/
theorem LockInv.leave (h : LockInv calls issued released) (hi : calls[i]? = some c)
    (hticket : c.ticket = some released) (result : CallResult) :
    LockInv (calls.set i (.settled result)) issued (released + 1) := by
  have hold : ∀ {j : ℕ} {d : Call} {t : ℕ}, (calls.set i (.settled result))[j]? = some d → d.ticket = some t →
      calls[j]? = some d ∧ t ≠ released := by
    intro j d t hj ht
    rcases getElem?_set_cases hj with ⟨hj, hne⟩ | ⟨-, rfl⟩
    · refine ⟨hj, fun heq => hne ?_⟩
      rw [heq] at ht
      exact h.distinct j i d c released hj hi ht hticket
    · cases ht
  refine ⟨(h.places i c released hi hticket).2, ?_, ?_, ?_⟩
  · intro j d t hj ht
    obtain ⟨hj', hne⟩ := hold hj ht
    have := h.places j d t hj' ht
    omega
  · intro j d t hj ht hd
    obtain ⟨hj', hne⟩ := hold hj ht
    exact absurd (h.turn j d t hj' ht hd) hne
  · intro j k d d' t hj hk ht ht'
    exact h.distinct j k d d' t (hold hj ht).1 (hold hk ht').1 ht ht'

/-- Who has the turn has the first place. -/
theorem LockInv.first (h : LockInv calls issued released) (hi : calls[i]? = some c) {ticket : ℕ}
    (hticket : c.ticket = some ticket) (hturn : ticket = released ∨ c.holds = true) :
    c.ticket = some released := by
  rcases hturn with rfl | hholds
  · exact hticket
  · rw [← h.turn i c ticket hi hticket hholds]
    exact hticket

end Lock

theorem lock_moved {h h' : FileDiffHandler} {e : FileDiffEvent} (hm : Moved h e h')
    (hl : LockInv h.calls h.issued h.released) : LockInv h'.calls h'.issued h'.released := by
  cases hm with
  | stays => exact hl
  | reserves => exact hl
  | @proposes diff preassignedId sessionId generation c hc =>
      have hnone : c.ticket = none := by
        rcases hc with ⟨_, rfl⟩ | ⟨_, rfl, -⟩
        · rfl
        · rfl
      cases preassignedId with
      | none => exact hl.concat hnone
      | some id => exact hl.concat hnone
  | calls _ hc =>
      refine hl.concat ?_
      rcases hc with rfl | ⟨_, rfl, -⟩
      · rfl
      · rfl
  | queues => exact hl.concat_line _
  | invalidates => exact hl.concat_line _
  | goes _ hi hc =>
      refine hl.set hi fun t ht => ?_
      cases hc <;> cases ht
  | pends hi =>
      refine hl.set hi fun t ht => ?_
      cases ht
  | lines => exact hl.set_line _
  | enters hi hturn =>
      refine hl.set hi fun t ht => ?_
      cases ht
      exact ⟨rfl, fun _ => hturn⟩
  | edits hi =>
      refine hl.set hi fun t ht => ?_
      cases ht
      exact ⟨rfl, fun _ => hl.turn _ _ _ hi rfl rfl⟩
  | leaves _ hi hticket hturn => exact hl.leave hi (hl.first hi hticket hturn) _
  | accepts hi => exact hl.leave hi (hl.first hi rfl (.inr rfl)) _
  | rejects hi hturn => exact hl.leave hi (hl.first hi rfl (.inl hturn)) _
  | @loops _ i ticket _ _ _ _ hi hticket hturn h' hh rest results =>
      have hset : LockInv (h.calls.set i (.rejecting ticket rest results)) h.issued h.released := by
        refine hl.set hi fun t ht => ?_
        cases ht
        refine ⟨hticket, fun _ => ?_⟩
        have hfirst := hl.first hi hticket hturn
        rw [hticket] at hfirst
        exact Option.some.inj hfirst
      rcases hh with rfl | ⟨-, rfl⟩
      · exact hset
      · exact hset
  | hosts => exact hl

/-! ## Dates -/

/-- An object made before now; its epoch is the current one as long as nothing
was rejected since its proposal. -/
structure Dated (cutoff epoch proposals : ℕ) (invalidationEpoch proposal : ℕ) : Prop where
  made : proposal < proposals
  past : invalidationEpoch ≤ epoch
  current : invalidationEpoch = epoch ↔ cutoff ≤ proposal

/-- The epoch and the proposal of what a call is about. -/
def Call.date : Call → Option (ℕ × ℕ)
  | .proposing p => some (p.invalidationEpoch, p.proposal)
  | c => c.accepting.map fun a => (a.2.invalidationEpoch, a.2.proposal)

structure DatesInv (cutoff : ℕ) (h : FileDiffHandler) : Prop where
  cutoff_le : cutoff ≤ h.proposals
  pending : ∀ k p, Dict.find h.pendingDiffs k = some p →
    Dated cutoff h.invalidationEpoch h.proposals p.invalidationEpoch p.proposal
  call : ∀ c ∈ h.calls, ∀ d ∈ c.date, Dated cutoff h.invalidationEpoch h.proposals d.1 d.2

theorem Dated.proposes {cutoff epoch proposals e p : ℕ} (h : Dated cutoff epoch proposals e p) :
    Dated cutoff epoch (proposals + 1) e p := ⟨Nat.lt_succ_of_lt h.made, h.past, h.current⟩

/-- After `rejectAll` nothing made before is current. -/
theorem Dated.rejects {cutoff epoch proposals e p : ℕ} (h : Dated cutoff epoch proposals e p) :
    Dated proposals (epoch + 1) proposals e p := by
  obtain ⟨hmade, hpast, -⟩ := h
  exact ⟨hmade, by omega, by omega⟩

/-- How many proposals had been made when `rejectAll` was called last. -/
def cutoffAfter (h : FileDiffHandler) (cutoff : ℕ) : FileDiffEvent → ℕ
  | .rejectAll => h.proposals
  | _ => cutoff

theorem cutoffAfter_of_returns {h : FileDiffHandler} {cutoff : ℕ} {e : FileDiffEvent}
    (he : e.returns = true) : cutoffAfter h cutoff e = cutoff := by
  cases e <;> first | rfl | cases he

section Dates

variable {cutoff : ℕ} {h h' : FileDiffHandler}

/-- Nothing new but dated objects. -/
theorem DatesInv.of (hd : DatesInv cutoff h) (hepoch : h'.invalidationEpoch = h.invalidationEpoch)
    (hproposals : h'.proposals = h.proposals)
    (hpending : ∀ k p, Dict.find h'.pendingDiffs k = some p →
      Dated cutoff h.invalidationEpoch h.proposals p.invalidationEpoch p.proposal)
    (hcalls : ∀ c ∈ h'.calls, c ∈ h.calls ∨
      ∀ d ∈ c.date, Dated cutoff h.invalidationEpoch h.proposals d.1 d.2) : DatesInv cutoff h' where
  cutoff_le := by rw [hproposals]; exact hd.cutoff_le
  pending := by
    intro k p hp
    rw [hepoch, hproposals]
    exact hpending k p hp
  call := by
    intro c hc d hdate
    rw [hepoch, hproposals]
    rcases hcalls c hc with hc | hc
    · exact hd.call c hc d hdate
    · exact hc d hdate

/-- A call that goes on is about what it was about. -/
theorem DatesInv.resume (hd : DatesInv cutoff h) {i : ℕ} {c c' : Call}
    (hi : h.calls[i]? = some c) (hc : ∀ d ∈ c'.date, c.date = some d) (c'' : Call)
    (hmem : c'' ∈ h.calls.set i c') : c'' ∈ h.calls ∨
      ∀ d ∈ c''.date, Dated cutoff h.invalidationEpoch h.proposals d.1 d.2 := by
  rcases List.mem_or_eq_of_mem_set hmem with hold | rfl
  · exact .inl hold
  · right
    intro d hdate
    exact hd.call c (List.mem_of_getElem? hi) d (hc d hdate)

theorem DatesInv.report (hd : DatesInv cutoff h) (diffId : Text) (k : Text) (p : PendingDiff)
    (hp : Dict.find (Dict.remove h.pendingDiffs diffId) k = some p) :
    Dated cutoff h.invalidationEpoch h.proposals p.invalidationEpoch p.proposal := by
  rw [Dict.find_remove] at hp
  split_ifs at hp
  exact hd.pending k p hp

end Dates

theorem dates_moved {cutoff : ℕ} {h h' : FileDiffHandler} {e : FileDiffEvent} (hm : Moved h e h')
    (hd : DatesInv cutoff h) : DatesInv (cutoffAfter h cutoff e) h' := by
  have hconcat : ∀ {c : Call}, (∀ d ∈ c.date, Dated cutoff h.invalidationEpoch h.proposals d.1 d.2) →
      ∀ c' ∈ h.calls ++ [c], c' ∈ h.calls ∨
        ∀ d ∈ c'.date, Dated cutoff h.invalidationEpoch h.proposals d.1 d.2 := by
    intro c hc c' hmem
    rcases List.mem_append.mp hmem with hold | hnew
    · exact .inl hold
    · rw [List.mem_singleton.mp hnew]
      exact .inr hc
  cases hm with
  | stays he =>
      rw [cutoffAfter_of_returns he]
      exact hd
  | reserves => exact hd.of rfl rfl hd.pending fun c hc => .inl hc
  | @proposes diff preassignedId sessionId generation c hc =>
      have hdates : ∀ c' ∈ h.calls ++ [c], ∀ d ∈ c'.date,
          Dated cutoff h.invalidationEpoch (h.proposals + 1) d.1 d.2 := by
        intro c' hmem d hdate
        rcases List.mem_append.mp hmem with hold | hnew
        · exact (hd.call c' hold d hdate).proposes
        · rw [List.mem_singleton.mp hnew] at hdate
          rcases hc with ⟨_, rfl⟩ | ⟨p, rfl, -, hepoch, hproposal⟩
          · cases hdate
          · cases hdate
            have hle := hd.cutoff_le
            exact ⟨by omega, by omega, by omega⟩
      have hpending : ∀ k p, Dict.find h.pendingDiffs k = some p →
          Dated cutoff h.invalidationEpoch (h.proposals + 1) p.invalidationEpoch p.proposal :=
        fun k p hp => (hd.pending k p hp).proposes
      have hle : cutoff ≤ h.proposals + 1 := Nat.le_succ_of_le hd.cutoff_le
      cases preassignedId with
      | none => exact ⟨hle, hpending, hdates⟩
      | some id => exact ⟨hle, hpending, hdates⟩
  | calls he hc =>
      have hcut : cutoffAfter h cutoff e = cutoff := by
        rcases he with rfl | rfl
        · rfl
        · rfl
      rw [hcut]
      refine hd.of rfl rfl hd.pending (hconcat ?_)
      rcases hc with rfl | ⟨pending, rfl, hpending⟩
      · intro d hdate
        cases hdate
      · intro d hdate
        cases hdate
        exact hd.pending _ pending hpending
  | queues =>
      refine hd.of rfl rfl hd.pending (hconcat ?_)
      intro d hdate
      cases hdate
  | invalidates =>
      refine ⟨le_refl _, fun k p hp => (hd.pending k p hp).rejects, ?_⟩
      intro c hmem d hdate
      rcases List.mem_append.mp hmem with hold | hnew
      · exact (hd.call c hold d hdate).rejects
      · rw [List.mem_singleton.mp hnew] at hdate
        cases hdate
  | goes he hi hc =>
      rw [cutoffAfter_of_returns he]
      refine hd.of rfl rfl hd.pending (hd.resume hi fun d hdate => ?_)
      cases hc with
      | preflight => exact hdate
      | settled => cases hdate
  | @pends i target owner p hi =>
      refine hd.of rfl rfl ?_ (hd.resume hi fun d hdate => by cases hdate)
      intro k q hq
      have hfind : Dict.find (Dict.set h.pendingDiffs p.id (p.pending target)) k = some q := hq
      rw [Dict.find_set] at hfind
      split_ifs at hfind
      · cases hfind
        exact hd.call _ (List.mem_of_getElem? hi) _ rfl
      · exact hd.pending k q hfind
  | lines hi => exact hd.of rfl rfl hd.pending (hd.resume hi fun d hdate => hdate)
  | enters hi => exact hd.of rfl rfl hd.pending (hd.resume hi fun d hdate => hdate)
  | edits hi => exact hd.of rfl rfl hd.pending (hd.resume hi fun d hdate => hdate)
  | leaves he hi =>
      rw [cutoffAfter_of_returns he]
      exact hd.of rfl rfl hd.pending (hd.resume hi fun d hdate => by cases hdate)
  | accepts hi =>
      exact hd.of rfl rfl (hd.report _) (hd.resume hi fun d hdate => by cases hdate)
  | rejects hi =>
      exact hd.of rfl rfl (hd.report _) (hd.resume hi fun d hdate => by cases hdate)
  | loops he hi _ _ h' hh =>
      rw [cutoffAfter_of_returns he]
      rcases hh with rfl | ⟨-, rfl⟩
      · exact hd.of rfl rfl hd.pending (hd.resume hi fun d hdate => by cases hdate)
      · exact hd.of rfl rfl (hd.report _) (hd.resume hi fun d hdate => by cases hdate)
  | hosts => exact hd.of rfl rfl hd.pending fun c hc => .inl hc

/-! ## Identifiers -/

def proposingIds (calls : List Call) : List Text := (calls.filterMap Call.proposal).map Proposal.id

/-- In how many places an identifier is: in a result, pending, being proposed,
or reserved and not used yet. -/
def tally (h : FileDiffHandler) (unused : List Text) (id : Text) : ℕ :=
  (h.results.map DiffActionResult.diffId).count id + h.pendingDiffs.keys.count id +
    (proposingIds h.calls).count id + unused.count id

structure IdsInv (h : FileDiffHandler) (unused : List Text) : Prop where
  once : ∀ id, tally h unused id ≤ 1
  known : ∀ id, 0 < tally h unused id → ∃ k ≤ h.seq, id = diffId k

/-- The identifiers that are reserved and not used. -/
def unusedAfter (h : FileDiffHandler) (unused : List Text) : FileDiffEvent → List Text
  | .reserveDiffId => unused ++ [diffId (h.seq + 1)]
  | .handleDiffProposed _ (some id) _ _ => unused.erase id
  | _ => unused

def preassigned : FileDiffEvent → Option Text
  | .handleDiffProposed _ preassignedId _ _ => preassignedId
  | _ => none

/-- A proposal comes with an identifier that was reserved for it, if with one. -/
def Reserved (unused : List Text) (e : FileDiffEvent) : Prop := ∀ id ∈ preassigned e, id ∈ unused

instance (unused : List Text) (e : FileDiffEvent) : Decidable (Reserved unused e) :=
  inferInstanceAs (Decidable (∀ id ∈ preassigned e, _))

theorem unusedAfter_of_returns {h : FileDiffHandler} {unused : List Text} {e : FileDiffEvent}
    (he : e.returns = true) : unusedAfter h unused e = unused := by
  cases e <;> first | rfl | cases he

theorem diffId_injective {m n : ℕ} (h : diffId m = diffId n) : m = n := by
  have hdecimal : decimal m = decimal n := List.append_cancel_left h
  rw [← digitsVal_decimal m, hdecimal, digitsVal_decimal]

section Ids

variable {h h' : FileDiffHandler} {unused unused' : List Text}

theorem IdsInv.of (hi : IdsInv h unused) (hseq : h.seq ≤ h'.seq)
    (htally : ∀ id, tally h' unused' id ≤ tally h unused id) : IdsInv h' unused' where
  once := fun id => (htally id).trans (hi.once id)
  known := by
    intro id hpos
    obtain ⟨k, hk, hid⟩ := hi.known id (hpos.trans_le (htally id))
    exact ⟨k, hk.trans hseq, hid⟩

/-- The next identifier is in no place yet. -/
theorem IdsInv.fresh (hi : IdsInv h unused) (hseq : h'.seq = h.seq + 1)
    (htally : ∀ id, tally h' unused' id ≤ tally h unused id + [diffId (h.seq + 1)].count id) :
    IdsInv h' unused' := by
  have hnew : tally h unused (diffId (h.seq + 1)) = 0 := by
    refine Nat.eq_zero_of_not_pos fun hpos => ?_
    obtain ⟨k, hk, hid⟩ := hi.known _ hpos
    have := diffId_injective hid
    omega
  refine ⟨fun id => ?_, fun id hpos => ?_⟩
  · have hle := htally id
    have hone := hi.once id
    by_cases hid : id = diffId (h.seq + 1)
    · rw [hid, List.count_singleton_self, hnew] at hle
      rw [hid]
      exact hle
    · rw [List.count_singleton, if_neg (by simpa using Ne.symm hid)] at hle
      omega
  · by_cases hid : id = diffId (h.seq + 1)
    · exact ⟨h.seq + 1, by omega, hid⟩
    · have hle := htally id
      rw [List.count_singleton, if_neg (by simpa using Ne.symm hid)] at hle
      obtain ⟨k, hk, hid'⟩ := hi.known id (by omega)
      exact ⟨k, by omega, hid'⟩

theorem proposingIds_concat (calls : List Call) (c : Call) (id : Text) :
    (proposingIds (calls ++ [c])).count id =
      (proposingIds calls).count id + (proposingIds [c]).count id := by
  rw [proposingIds, List.filterMap_append, List.map_append, List.count_append]
  rfl

theorem proposingIds_set {calls : List Call} {i : ℕ} {c : Call} (hi : calls[i]? = some c)
    (c' : Call) (id : Text) :
    (proposingIds (calls.set i c')).count id + (proposingIds [c]).count id =
      (proposingIds calls).count id + (proposingIds [c']).count id := by
  obtain ⟨a, b, hcalls, hset⟩ := exists_split hi c'
  have hsplit : ∀ x : Call, (proposingIds (a ++ x :: b)).count id =
      (proposingIds a).count id + (proposingIds [x]).count id + (proposingIds b).count id := by
    intro x
    rw [← List.singleton_append, ← List.append_assoc]
    rw [proposingIds, List.filterMap_append, List.filterMap_append, List.map_append,
      List.map_append, List.count_append, List.count_append]
    rfl
  rw [hset, hcalls, hsplit, hsplit]
  omega

/-- A call that proposes nothing after a step. -/
theorem proposingIds_set_le {calls : List Call} {i : ℕ} {c c' : Call} (hi : calls[i]? = some c)
    (hc : c'.proposal = none) (id : Text) :
    (proposingIds (calls.set i c')).count id ≤ (proposingIds calls).count id := by
  have hset := proposingIds_set hi c' id
  have hnil : proposingIds [c'] = [] := by rw [proposingIds, List.filterMap_cons_none hc]; rfl
  rw [hnil, List.count_nil] at hset
  omega

theorem mem_keys_of_isPending {diffId : Text} {pending : PendingDiff}
    (hp : h.IsPending diffId pending) : diffId ∈ h.pendingDiffs.keys := by
  obtain ⟨p, hfind, -⟩ := Option.map_eq_some_iff.mp hp
  exact Dict.mem_keys_of_find hfind

/-- A pending diff becomes a result. -/
theorem tally_report (unused : List Text) {diffId : Text} {pending : PendingDiff}
    (hp : h.IsPending diffId pending) (action : DiffAction) (id : Text) :
    tally (h.report diffId pending action) unused id = tally h unused id := by
  have hkeys := Dict.count_keys_remove (mem_keys_of_isPending hp) id
  have hresults : ((h.report diffId pending action).results.map DiffActionResult.diffId).count id =
      (h.results.map DiffActionResult.diffId).count id + [diffId].count id := by
    rw [report, List.map_append, List.count_append]
    rfl
  rw [tally, tally, hresults]
  show _ + (Dict.remove h.pendingDiffs diffId).keys.count id + (proposingIds h.calls).count id + _ = _
  omega

theorem tally_call (h : FileDiffHandler) (unused : List Text) (c : Call) (id : Text) :
    tally (h.call c) unused id = tally h unused id + (proposingIds [c]).count id := by
  have hcalls := proposingIds_concat h.calls c id
  rw [tally, tally]
  show _ + _ + (proposingIds (h.calls ++ [c])).count id + _ = _
  rw [hcalls]
  show _ + h.pendingDiffs.keys.count id + _ + _ = _
  show (h.results.map DiffActionResult.diffId).count id + _ + _ + _ = _
  omega

theorem tally_resume_le (unused : List Text) {i : ℕ} {c c' : Call} (hi : h.calls[i]? = some c)
    (hc : c'.proposal = none) (id : Text) :
    tally (h.resume i c') unused id ≤ tally h unused id := by
  have hset := proposingIds_set_le hi hc id
  rw [tally, tally]
  show (h.results.map DiffActionResult.diffId).count id + h.pendingDiffs.keys.count id +
    (proposingIds (h.calls.set i c')).count id + _ ≤ _
  omega

end Ids

/-- The diff the holder of the lock is about is still pending. -/
def HolderInv (h : FileDiffHandler) : Prop :=
  ∀ (i : ℕ) (c : Call) (diffId : Text) (pending : PendingDiff), h.calls[i]? = some c →
    c.holds = true → c.accepting = some (diffId, pending) → h.IsPending diffId pending

/-- An identifier that is being proposed is not pending. -/
theorem not_mem_keys_of_proposing {h : FileDiffHandler} {unused : List Text}
    (hi : IdsInv h unused) {i : ℕ} {p : Proposal} (hcall : h.calls[i]? = some (.proposing p)) :
    p.id ∉ h.pendingDiffs.keys := by
  intro hmem
  have hone := hi.once p.id
  have hpos := List.count_pos_iff.mpr hmem
  have hcount : 0 < (proposingIds h.calls).count p.id := by
    refine List.count_pos_iff.mpr (List.mem_map_of_mem (List.mem_filterMap.mpr ?_))
    exact ⟨_, List.mem_of_getElem? hcall, rfl⟩
  rw [tally] at hone
  omega

theorem ids_moved {h h' : FileDiffHandler} {unused : List Text} {e : FileDiffEvent}
    (hm : Moved h e h') (hr : Reserved unused e) (hh : HolderInv h)
    (hi : IdsInv h unused) : IdsInv h' (unusedAfter h unused e) := by
  cases hm with
  | stays he =>
      rw [unusedAfter_of_returns he]
      exact hi
  | reserves =>
      refine hi.fresh rfl fun id => ?_
      rw [unusedAfter, tally, tally, List.count_append]
      show (h.results.map DiffActionResult.diffId).count id + h.pendingDiffs.keys.count id +
        (proposingIds h.calls).count id + _ ≤ _
      omega
  | @proposes diff preassignedId sessionId generation c hc =>
      -- The call is over, or proposes with the identifier that was found for it.
      have hnew : ∀ id, (proposingIds [c]).count id ≤ [(h.identify preassignedId).1].count id := by
        intro id
        rcases hc with ⟨_, rfl⟩ | ⟨p, rfl, hid, -, -⟩
        · exact Nat.zero_le _
        · rw [← hid]
          exact le_refl _
      cases preassignedId with
      | none =>
          refine hi.fresh rfl fun id => ?_
          have hcall := tally_call (h.identify none).2 unused c id
          have hsame : tally (h.identify none).2 unused id = tally h unused id := rfl
          have hid := hnew id
          rw [show (h.identify none).1 = diffId (h.seq + 1) from rfl] at hid
          show tally ((h.identify none).2.call c) unused id ≤ _
          omega
      | some id' =>
          refine hi.of (le_refl _) fun id => ?_
          have hcall := tally_call (h.identify (some id')).2 (unused.erase id') c id
          have hmem : id' ∈ unused := hr id' rfl
          have herase : (unused.erase id').count id + [id'].count id = unused.count id := by
            rw [List.count_erase, List.count_singleton]
            by_cases hid : id' = id
            · have hpos : 0 < unused.count id := by
                rw [← hid]
                exact List.count_pos_iff.mpr hmem
              simp [hid]
              omega
            · simp [hid]
          have hid := hnew id
          rw [show (h.identify (some id')).1 = id' from rfl] at hid
          have hbase : tally (h.identify (some id')).2 (unused.erase id') id + [id'].count id =
              tally h unused id := by
            rw [tally, tally, ← herase]
            show (h.results.map DiffActionResult.diffId).count id + h.pendingDiffs.keys.count id +
              (proposingIds h.calls).count id + _ + _ = _
            omega
          show tally ((h.identify (some id')).2.call c) (unused.erase id') id ≤ _
          omega
  | calls he hc =>
      have hunused : unusedAfter h unused e = unused := by
        rcases he with rfl | rfl
        · rfl
        · rfl
      rw [hunused]
      refine hi.of (le_refl _) fun id => ?_
      rw [tally_call]
      rcases hc with rfl | ⟨_, rfl, -⟩
      · exact le_refl _
      · exact le_refl _
  | queues =>
      refine hi.of (le_refl _) fun id => ?_
      exact (tally_call h unused (.waiting h.issued _) id).le
  | invalidates =>
      refine hi.of (le_refl _) fun id => ?_
      exact (tally_call h unused (.waiting h.issued .rejectAll) id).le
  | goes he hcall hc =>
      rw [unusedAfter_of_returns he]
      refine hi.of (le_refl _) (tally_resume_le unused hcall ?_)
      cases hc <;> rfl
  | @pends i target owner p hcall =>
      -- The identifier goes from the call to the pending diffs.
      refine hi.of (le_refl _) fun id => ?_
      have hkey := not_mem_keys_of_proposing hi hcall
      have hkeys := Dict.count_keys_set hkey (p.pending target) id
      have hset' := proposingIds_set hcall (.settled (.proposed (p.pending target))) id
      have hp : (proposingIds [.proposing p]).count id = [p.id].count id := rfl
      have hnone : (proposingIds [.settled (.proposed (p.pending target))]).count id = 0 := rfl
      rw [tally, tally]
      show (h.results.map DiffActionResult.diffId).count id +
        (Dict.set h.pendingDiffs p.id (p.pending target)).keys.count id +
        (proposingIds (h.calls.set i _)).count id + unused.count id ≤ _
      omega
  | lines hcall => exact hi.of (le_refl _) (tally_resume_le unused hcall rfl)
  | enters hcall => exact hi.of (le_refl _) (tally_resume_le unused hcall rfl)
  | edits hcall => exact hi.of (le_refl _) (tally_resume_le unused hcall rfl)
  | leaves he hcall =>
      rw [unusedAfter_of_returns he]
      exact hi.of (le_refl _) (tally_resume_le unused hcall rfl)
  | accepts hcall =>
      have hpending : h.IsPending _ _ := hh _ _ _ _ hcall rfl rfl
      refine hi.of (le_refl _) fun id => ?_
      rw [← tally_report unused hpending .accepted id]
      exact tally_resume_le (h := h.report _ _ .accepted) unused hcall rfl id
  | rejects hcall _ hpending =>
      refine hi.of (le_refl _) fun id => ?_
      rw [← tally_report unused hpending .rejected id]
      exact tally_resume_le (h := h.report _ _ .rejected) unused hcall rfl id
  | loops he hcall _ _ h' hh =>
      rw [unusedAfter_of_returns he]
      rcases hh with rfl | ⟨hpending, rfl⟩
      · exact hi.of (le_refl _) (tally_resume_le unused hcall rfl)
      · refine hi.of (le_refl _) fun id => ?_
        rw [← tally_report unused hpending .rejected id]
        exact tally_resume_le (h := h.report _ _ .rejected) unused hcall rfl id
  | hosts => exact hi.of (le_refl _) fun id => le_refl _

section Holder

variable {h h' : FileDiffHandler} {i : ℕ} {c c' : Call}

/-- A new call holds nothing. -/
theorem HolderInv.call (hh : HolderInv h) (hcalls : h'.calls = h.calls ++ [c])
    (hsame : h'.pendingDiffs = h.pendingDiffs) (hc : c.holds = false) : HolderInv h' := by
  intro j d diffId pending hj hholds hacc
  rw [hcalls] at hj
  rw [IsPending, hsame]
  rcases getElem?_concat_cases hj with hj | ⟨-, rfl⟩
  · exact hh j d diffId pending hj hholds hacc
  · rw [hc] at hholds
    cases hholds

theorem HolderInv.resume (hh : HolderInv h) (hcalls : h'.calls = h.calls.set i c')
    (hsame : h'.pendingDiffs = h.pendingDiffs)
    (hc : c'.holds = true → ∀ diffId pending, c'.accepting = some (diffId, pending) →
      h.IsPending diffId pending) : HolderInv h' := by
  intro j d diffId pending hj hholds hacc
  rw [hcalls] at hj
  rw [IsPending, hsame]
  rcases getElem?_set_cases hj with ⟨hj, -⟩ | ⟨-, rfl⟩
  · exact hh j d diffId pending hj hholds hacc
  · exact hc hholds diffId pending hacc

/-- The holder itself goes on, and nobody else holds the lock. -/
theorem HolderInv.holder (hl : LockInv h.calls h.issued h.released)
    (hi : h.calls[i]? = some c) (hticket : c.ticket = some h.released)
    (hcalls : h'.calls = h.calls.set i c') (hnone : c'.accepting = none) : HolderInv h' := by
  intro j d diffId pending hj hholds hacc
  rw [hcalls] at hj
  rcases getElem?_set_cases hj with ⟨hj, hne⟩ | ⟨-, rfl⟩
  · obtain ⟨t, ht⟩ : ∃ t, d.ticket = some t := by
      cases d <;> first | exact ⟨_, rfl⟩ | cases hholds
    have hturn := hl.turn j d t hj ht hholds
    rw [hturn] at ht
    exact absurd (hl.distinct j i d c h.released hj hi ht hticket) hne
  · rw [hnone] at hacc
    cases hacc

end Holder

theorem holder_moved {h h' : FileDiffHandler} {unused : List Text} {e : FileDiffEvent}
    (hm : Moved h e h') (hl : LockInv h.calls h.issued h.released) (hi : IdsInv h unused)
    (hh : HolderInv h) : HolderInv h' := by
  cases hm with
  | stays => exact hh
  | reserves => exact hh
  | @proposes diff preassignedId sessionId generation c hc =>
      have hnone : c.holds = false := by
        rcases hc with ⟨_, rfl⟩ | ⟨_, rfl, -⟩
        · rfl
        · rfl
      cases preassignedId with
      | none => exact hh.call rfl rfl hnone
      | some id => exact hh.call rfl rfl hnone
  | calls _ hc =>
      refine hh.call rfl rfl ?_
      rcases hc with rfl | ⟨_, rfl, -⟩
      · rfl
      · rfl
  | queues => exact hh.call rfl rfl rfl
  | invalidates => exact hh.call rfl rfl rfl
  | goes _ _ hc =>
      refine hh.resume rfl rfl fun hholds => ?_
      cases hc <;> cases hholds
  | @pends i target owner p hcall =>
      intro j d diffId pending hj hholds hacc
      have hold : h.IsPending diffId pending := by
        rcases getElem?_set_cases hj with ⟨hj, -⟩ | ⟨-, rfl⟩
        · exact hh j d diffId pending hj hholds hacc
        · cases hholds
      have hne : diffId ≠ p.id := by
        intro heq
        apply not_mem_keys_of_proposing hi hcall
        rw [← heq]
        exact mem_keys_of_isPending hold
      show (Dict.find (Dict.set h.pendingDiffs p.id (p.pending target)) diffId).map _ = _
      rw [Dict.find_set, if_neg hne]
      exact hold
  | lines => exact hh.resume rfl rfl fun hholds => by cases hholds
  | enters _ _ hpending =>
      refine hh.resume rfl rfl fun _ diffId pending hacc => ?_
      cases hacc
      exact hpending
  | edits hcall =>
      refine hh.resume rfl rfl fun _ diffId pending hacc => ?_
      exact hh _ _ diffId pending hcall rfl hacc
  | leaves => exact hh.resume rfl rfl fun hholds => by cases hholds
  | accepts hcall => exact HolderInv.holder hl hcall (hl.first hcall rfl (.inr rfl)) rfl rfl
  | rejects hcall hturn => exact HolderInv.holder hl hcall (hl.first hcall rfl (.inl hturn)) rfl rfl
  | loops _ hcall hticket hturn h' hpending =>
      rcases hpending with rfl | ⟨-, rfl⟩
      · exact HolderInv.holder hl hcall (hl.first hcall hticket hturn) rfl rfl
      · exact HolderInv.holder hl hcall (hl.first hcall hticket hturn) rfl rfl
  | hosts => exact hh

/-! ## Results and edits -/

def acceptedIds (results : List DiffActionResult) : List Text :=
  (results.filter fun r => r.action = .accepted).map DiffActionResult.diffId

/-- The diffs whose `applyEdit` has returned `true`. -/
def returnedAfter (h : FileDiffHandler) (returned : List Text) : FileDiffEvent → List Text
  | .editApplied i (some true) =>
      match h.calls[i]? with
      | some (.applying _ diffId _) => returned ++ [diffId]
      | _ => returned
  | _ => returned

/-- The commit whose target comes back unchanged, and its diff. -/
def committed (h : FileDiffHandler) : FileDiffEvent → Option (ℕ × PendingDiff)
  | .targetRead i answer =>
      match h.calls[i]? with
      | some (.committing _ _ pending) =>
          if Unchanged pending answer then some (i, pending) else none
      | _ => none
  | _ => none

theorem acceptedIds_concat (results : List DiffActionResult) (diffId : Text)
    (pending : PendingDiff) (action : DiffAction) :
    acceptedIds (results ++ [result diffId pending action]) =
      acceptedIds results ++ if action = .accepted then [diffId] else [] := by
  rw [acceptedIds, List.filter_append, List.map_append]
  cases action <;> rfl

section Outcomes

variable {h h' : FileDiffHandler} {e : FileDiffEvent}

theorem accepted_moved (hm : Moved h e h') (he : ∀ i, e ≠ .editApplied i (some true)) :
    acceptedIds h'.results = acceptedIds h.results := by
  have hrejected : ∀ diffId pending,
      acceptedIds (h.report diffId pending .rejected).results = acceptedIds h.results := by
    intro diffId pending
    rw [report, acceptedIds_concat, if_neg (by decide), List.append_nil]
  cases hm with
  | proposes =>
      rename_i preassignedId _ _ _ _
      cases preassignedId <;> rfl
  | accepts => exact absurd rfl (he _)
  | rejects => exact hrejected _ _
  | loops _ _ _ _ h' hh =>
      rcases hh with rfl | ⟨-, rfl⟩
      · rfl
      · exact hrejected _ _
  | _ => rfl

theorem edits_moved (hm : Moved h e h') (he : ∀ i answer, e ≠ .targetRead i answer) :
    h'.edits = h.edits := by
  cases hm with
  | proposes =>
      rename_i preassignedId _ _ _ _
      cases preassignedId <;> rfl
  | lines => exact absurd rfl (he _ _)
  | edits => exact absurd rfl (he _ _)
  | loops _ _ _ _ h' hh =>
      rcases hh with rfl | ⟨-, rfl⟩
      · rfl
      · rfl
  | _ => rfl

theorem accepted_step (h : FileDiffHandler) (e : FileDiffEvent) :
    acceptedIds (h.step e).results = returnedAfter h (acceptedIds h.results) e := by
  by_cases he : ∃ i, e = .editApplied i (some true)
  · obtain ⟨i, rfl⟩ := he
    by_cases hi : ∃ ticket diffId pending,
        h.calls[i]? = some (.applying ticket diffId pending)
    · obtain ⟨ticket, diffId, pending, hi⟩ := hi
      have hstep : h.step (.editApplied i (some true)) =
          h.finishEdit i diffId pending (some true) := by simp only [step, hi]
      have hreturned : returnedAfter h (acceptedIds h.results) (.editApplied i (some true)) =
          acceptedIds h.results ++ [diffId] := by simp only [returnedAfter, hi]
      rw [hstep, hreturned, finishEdit, if_pos rfl]
      show acceptedIds (h.results ++ [result diffId pending .accepted]) = _
      rw [acceptedIds_concat, if_pos rfl]
    · have hstep : h.step (.editApplied i (some true)) = h := by
        rw [step]
        split
        · exact absurd ⟨_, _, _, ‹_›⟩ hi
        · rfl
      have hreturned : returnedAfter h (acceptedIds h.results) (.editApplied i (some true)) =
          acceptedIds h.results := by
        rw [returnedAfter]
        split
        · exact absurd ⟨_, _, _, ‹_›⟩ hi
        · rfl
      rw [hstep, hreturned]
  · have hne : ∀ i, e ≠ .editApplied i (some true) := fun i hi => he ⟨i, hi⟩
    rw [accepted_moved (moved_step h e) hne, returnedAfter]
    exact fun i hi => hne i hi

theorem edits_step (h : FileDiffHandler) (e : FileDiffEvent) :
    (h.step e).edits = h.edits ++ ((committed h e).map Prod.snd).toList := by
  by_cases he : ∃ i answer, e = .targetRead i answer
  · obtain ⟨i, answer, rfl⟩ := he
    rw [step, committed]
    split
    · rename_i diffId pending hi
      rw [hi, FileDiffHandler.preflight]
      split_ifs
      · exact (List.append_nil _).symm
      · exact (List.append_nil _).symm
    · rename_i ticket diffId pending hi
      rw [hi, commit]
      simp only
      split_ifs
      · rfl
      · exact (List.append_nil _).symm
    · rename_i hpre hcom
      split
      · rename_i ticket diffId pending hi
        exact absurd hi (hcom _ _ _)
      · exact (List.append_nil _).symm
  · have hne : ∀ i answer, e ≠ .targetRead i answer := fun i answer hi => he ⟨i, answer, hi⟩
    rw [edits_moved (moved_step h e) hne, committed]
    · exact (List.append_nil _).symm
    · exact fun i answer hi => hne i answer hi

end Outcomes

/-! ## Runs -/

/-- What was so when a call entered the lock. -/
structure Entry where
  invalidationEpoch : ℕ
  host : Host

/-- The handler, and beside it the proposals made when `rejectAll` was called
last, the identifiers that are reserved, what was so when each call entered the
lock, and the diffs whose edits were applied. -/
structure DiffRun where
  handler : FileDiffHandler
  cutoff : ℕ
  unused : List Text
  entered : ℕ → Entry
  returned : List Text

def DiffRun.create (host : Host) : DiffRun := ⟨.create host, 0, [], fun _ => ⟨0, host⟩, []⟩

/-- What is so when a call enters the lock is noted. -/
def enteredAfter (h : FileDiffHandler) (entered : ℕ → Entry) : FileDiffEvent → ℕ → Entry
  | .lockReleased i =>
      match h.calls[i]? with
      | some (.waiting ticket _) =>
          if ticket = h.released then Function.update entered i ⟨h.invalidationEpoch, h.host⟩
          else entered
      | _ => entered
  | _ => entered

def diffStep (r : DiffRun) (e : FileDiffEvent) : DiffRun where
  handler := r.handler.step e
  cutoff := cutoffAfter r.handler r.cutoff e
  unused := unusedAfter r.handler r.unused e
  entered := enteredAfter r.handler r.entered e
  returned := returnedAfter r.handler r.returned e

/-- The proposal of the diff is not followed by a `rejectAll`, and the session,
the connection and the workspace are its own. -/
def DiffRun.Fenced (r : DiffRun) (pending : PendingDiff) : Prop :=
  r.cutoff ≤ pending.proposal ∧
    r.handler.host.Owns pending.sessionId pending.connectionGeneration pending.workspaceRootUri

/-- Each edit that is started is fenced. -/
def EditsFenced (r : DiffRun) (e : FileDiffEvent) : Prop :=
  ∀ pending ∈ (diffStep r e).handler.edits.drop r.handler.edits.length, r.Fenced pending

/-- Each identifier has one result at most, and `accepted` are the diffs whose
edits were applied. -/
def ReportedOnce (r : DiffRun) : Prop :=
  (r.handler.results.map DiffActionResult.diffId).Nodup ∧
    acceptedIds r.handler.results = r.returned

/-- Nothing has been rejected in between, and the session, the connection and
the workspace are the same. -/
def Entry.Same (a b : Entry) : Prop :=
  a.invalidationEpoch = b.invalidationEpoch ∧
    a.host.currentSessionId = b.host.currentSessionId ∧
    a.host.currentConnectionGeneration = b.host.currentConnectionGeneration ∧
    a.host.workspaceFolder.map WorkspaceFolder.uri = b.host.workspaceFolder.map WorkspaceFolder.uri

/-- When the target of a commit comes back unchanged, all is as it was when the
commit entered the lock. -/
def Unmoved (r : DiffRun) (e : FileDiffEvent) : Prop :=
  ∀ c ∈ committed r.handler e,
    (r.entered c.1).Same ⟨r.handler.invalidationEpoch, r.handler.host⟩

instance (r : DiffRun) (pending : PendingDiff) : Decidable (r.Fenced pending) :=
  inferInstanceAs (Decidable (_ ∧ _))

instance (r : DiffRun) (e : FileDiffEvent) : Decidable (EditsFenced r e) :=
  inferInstanceAs (Decidable (∀ pending ∈ _, _))

instance (a b : Entry) : Decidable (a.Same b) := inferInstanceAs (Decidable (_ ∧ _ ∧ _ ∧ _))

instance (r : DiffRun) (e : FileDiffEvent) : Decidable (Unmoved r e) :=
  inferInstanceAs (Decidable (∀ c ∈ committed r.handler e, _))

/-- A commit in the lock owned its diff when it entered. -/
def EntriesInv (h : FileDiffHandler) (entered : ℕ → Entry) : Prop :=
  ∀ (i ticket : ℕ) (diffId : Text) (pending : PendingDiff),
    h.calls[i]? = some (.committing ticket diffId pending) →
    (entered i).invalidationEpoch = pending.invalidationEpoch ∧
      (entered i).host.Owns pending.sessionId pending.connectionGeneration
        pending.workspaceRootUri

structure DiffInv (r : DiffRun) : Prop where
  lock : LockInv r.handler.calls r.handler.issued r.handler.released
  dates : DatesInv r.cutoff r.handler
  ids : IdsInv r.handler r.unused
  holder : HolderInv r.handler
  entries : EntriesInv r.handler r.entered
  accepted : acceptedIds r.handler.results = r.returned

/-- A commit that was in the lock before keeps its entry. -/
theorem enteredAfter_committing {h : FileDiffHandler} {entered : ℕ → Entry} {e : FileDiffEvent}
    {i ticket : ℕ} {diffId : Text} {pending : PendingDiff}
    (hi : h.calls[i]? = some (.committing ticket diffId pending)) :
    enteredAfter h entered e i = entered i := by
  rw [enteredAfter.eq_def]
  split
  · rename_i j
    cases hj : h.calls[j]? with
    | none => rfl
    | some c =>
        cases c with
        | waiting ticket' operation =>
            simp only
            split_ifs
            · rw [Function.update_of_ne]
              intro hij
              rw [hij, hj] at hi
              cases hi
            · rfl
        | _ => rfl
  · rfl

/-- Only `enters` makes a call a commit. -/
theorem entries_moved {h h' : FileDiffHandler} {entered : ℕ → Entry} {e : FileDiffEvent}
    (hm : Moved h e h') (hentries : EntriesInv h entered) :
    EntriesInv h' (enteredAfter h entered e) := by
  have hold : ∀ {i ticket diffId pending},
      h.calls[i]? = some (.committing ticket diffId pending) →
      (enteredAfter h entered e i).invalidationEpoch = pending.invalidationEpoch ∧
        (enteredAfter h entered e i).host.Owns pending.sessionId pending.connectionGeneration
          pending.workspaceRootUri := by
    intro i ticket diffId pending hi
    rw [enteredAfter_committing hi]
    exact hentries i ticket diffId pending hi
  -- A call that is new, or has gone on, to anything but a commit.
  have hconcat : ∀ {c : Call}, c.holds = false → h'.calls = h.calls ++ [c] →
      EntriesInv h' (enteredAfter h entered e) := by
    intro c hc hcalls i ticket diffId pending hi
    rw [hcalls] at hi
    rcases getElem?_concat_cases hi with hi | ⟨-, rfl⟩
    · exact hold hi
    · cases hc
  have hset : ∀ {i : ℕ} {c : Call}, (∀ ticket diffId pending, c ≠ .committing ticket diffId pending) →
      h'.calls = h.calls.set i c → EntriesInv h' (enteredAfter h entered e) := by
    intro j c hc hcalls i ticket diffId pending hi
    rw [hcalls] at hi
    rcases getElem?_set_cases hi with ⟨hi, -⟩ | ⟨-, rfl⟩
    · exact hold hi
    · exact absurd rfl (hc ticket diffId pending)
  cases hm with
  | stays => exact fun i ticket diffId pending hi => hold hi
  | reserves => exact fun i ticket diffId pending hi => hold hi
  | @proposes diff preassignedId sessionId generation c hc =>
      have hnone : c.holds = false := by
        rcases hc with ⟨_, rfl⟩ | ⟨_, rfl, -⟩
        · rfl
        · rfl
      cases preassignedId with
      | none => exact hconcat hnone rfl
      | some id => exact hconcat hnone rfl
  | calls _ hc =>
      refine hconcat ?_ rfl
      rcases hc with rfl | ⟨_, rfl, -⟩
      · rfl
      · rfl
  | queues => exact hconcat (c := .waiting _ _) rfl rfl
  | invalidates => exact hconcat (c := .waiting _ _) rfl rfl
  | goes _ _ hc =>
      refine hset (fun _ _ _ heq => ?_) rfl
      subst heq
      cases hc
  | pends => exact hset (fun _ _ _ heq => by cases heq) rfl
  | lines => exact hset (fun _ _ _ heq => by cases heq) rfl
  | @enters i ticket diffId pending hi hturn hpending hepoch howns =>
      intro j ticket' diffId' pending' hj
      rcases getElem?_set_cases hj with ⟨hj, -⟩ | ⟨rfl, heq⟩
      · exact hold hj
      · cases heq
        have hentered : enteredAfter h entered (.lockReleased j) j =
            ⟨h.invalidationEpoch, h.host⟩ := by
          rw [enteredAfter, hi]
          simp only
          rw [if_pos hturn, Function.update_self]
        rw [hentered]
        exact ⟨hepoch, howns⟩
  | edits => exact hset (fun _ _ _ heq => by cases heq) rfl
  | leaves => exact hset (fun _ _ _ heq => by cases heq) rfl
  | accepts => exact hset (fun _ _ _ heq => by cases heq) rfl
  | rejects => exact hset (fun _ _ _ heq => by cases heq) rfl
  | loops _ _ _ _ h' hh =>
      rcases hh with rfl | ⟨-, rfl⟩
      · exact hset (fun _ _ _ heq => by cases heq) rfl
      · exact hset (fun _ _ _ heq => by cases heq) rfl
  | hosts => exact fun i ticket diffId pending hi => hold hi

/-- The callers keep to the identifiers they have reserved. -/
def WellCalled (r : DiffRun) (e : FileDiffEvent) : Prop := Reserved r.unused e

instance (r : DiffRun) (e : FileDiffEvent) : Decidable (WellCalled r e) :=
  inferInstanceAs (Decidable (Reserved _ _))

theorem inv_diff_create (host : Host) : DiffInv (.create host) where
  lock := ⟨le_refl _, by simp [DiffRun.create, FileDiffHandler.create],
    by simp [DiffRun.create, FileDiffHandler.create],
    by simp [DiffRun.create, FileDiffHandler.create]⟩
  dates := ⟨le_refl _, by simp [DiffRun.create, FileDiffHandler.create],
    by simp [DiffRun.create, FileDiffHandler.create]⟩
  ids := ⟨fun _ => Nat.zero_le _, fun _ (hpos : 0 < 0) => absurd hpos (by decide)⟩
  holder := by simp [HolderInv, DiffRun.create, FileDiffHandler.create]
  entries := by simp [EntriesInv, DiffRun.create, FileDiffHandler.create]
  accepted := rfl

theorem inv_diffStep {r : DiffRun} {e : FileDiffEvent} (h : DiffInv r) (hr : WellCalled r e) :
    DiffInv (diffStep r e) := by
  have hm := moved_step r.handler e
  exact
    { lock := lock_moved hm h.lock
      dates := dates_moved hm h.dates
      ids := ids_moved hm hr h.holder h.ids
      holder := holder_moved hm h.lock h.ids h.holder
      entries := entries_moved hm h.entries
      accepted := by
        show acceptedIds (r.handler.step e).results = returnedAfter r.handler r.returned e
        rw [accepted_step, h.accepted] }

theorem reportedOnce_of_inv {r : DiffRun} (h : DiffInv r) : ReportedOnce r := by
  refine ⟨List.nodup_iff_count_le_one.mpr fun id => ?_, h.accepted⟩
  have hone := h.ids.once id
  rw [tally] at hone
  omega

/-- What a commit is about, when its target comes back. -/
theorem committed_eq_some {h : FileDiffHandler} {e : FileDiffEvent} {i : ℕ} {pending : PendingDiff}
    (hc : committed h e = some (i, pending)) :
    ∃ ticket diffId, h.calls[i]? = some (.committing ticket diffId pending) := by
  rw [committed.eq_def] at hc
  split at hc
  · split at hc
    · rename_i ticket diffId pending' hi
      split_ifs at hc
      cases hc
      exact ⟨ticket, diffId, hi⟩
    · cases hc
  · cases hc

/-- An edit that is started is fenced exactly if nothing has moved. -/
theorem editsFenced_iff {r : DiffRun} {e : FileDiffEvent} (h : DiffInv r) :
    EditsFenced r e ↔ Unmoved r e := by
  have hedits : (diffStep r e).handler.edits.drop r.handler.edits.length =
      ((committed r.handler e).map Prod.snd).toList := by
    show (r.handler.step e).edits.drop _ = _
    rw [edits_step, List.drop_left]
  rw [EditsFenced, hedits, Unmoved]
  cases hc : committed r.handler e with
  | none => exact iff_of_true (by simp) (by simp)
  | some c =>
      obtain ⟨i, pending⟩ := c
      obtain ⟨ticket, diffId, hi⟩ := committed_eq_some hc
      obtain ⟨hepoch, hsession, hgeneration, hroot⟩ := h.entries i ticket diffId pending hi
      have hcurrent : pending.invalidationEpoch = r.handler.invalidationEpoch ↔
          r.cutoff ≤ pending.proposal :=
        (h.dates.call _ (List.mem_of_getElem? hi) _ rfl).current
      have hsame : (r.entered i).Same ⟨r.handler.invalidationEpoch, r.handler.host⟩ ↔
          r.Fenced pending := by
        rw [Entry.Same, DiffRun.Fenced, ← hcurrent, Host.Owns, hepoch, hsession, hgeneration,
          hroot, eq_comm (a := r.handler.host.currentSessionId),
          eq_comm (a := r.handler.host.currentConnectionGeneration),
          eq_comm (b := some pending.workspaceRootUri)]
      simpa using hsame.symm

/-- In every run each identifier gets one result at most, `accepted` exactly
for the edits that were applied; and every edit is fenced exactly if nothing
moves between a commit's entry into the lock and its edit. -/
theorem edits_fenced_iff (host : Host) (events : List FileDiffEvent)
    (hcalls : Along diffStep WellCalled (.create host) events) :
    (Along diffStep EditsFenced (.create host) events ∧
      Throughout diffStep ReportedOnce (.create host) events) ↔
    Along diffStep Unmoved (.create host) events := by
  have hfenced : Along diffStep EditsFenced (.create host) events ↔
      Along diffStep Unmoved (.create host) events :=
    along_congr (fun _ _ h hr => inv_diffStep h hr) (fun _ _ h _ => editsFenced_iff h)
      (inv_diff_create host) hcalls
  have honce : Throughout diffStep ReportedOnce (.create host) events :=
    (throughout_of_step (fun _ _ h hr => inv_diffStep h hr) (inv_diff_create host) hcalls).mono
      fun _ h => reportedOnce_of_inv h
  exact ⟨fun h => hfenced.mp h.1, fun h => ⟨hfenced.mpr h, honce⟩⟩

/-! ## Two commits -/

def editorHost : Host where
  isTrusted := true
  workspaceFolder := some ⟨js "file:///w", js "file"⟩
  currentSessionId := some (js "s")
  currentConnectionGeneration := 1

def proposedEdit : DiffProposedPayload where
  filePath := js "a"
  originalContent := some (js "x")
  proposedContent := js "y"
  description := none
  language := none
  isUnsupported := false
  unsupportedReason := none

/-- A diff is proposed under a reserved identifier and accepted, up to the
second reading of its target. -/
def untilCommit : List FileDiffEvent :=
  [.reserveDiffId,
    .handleDiffProposed proposedEdit (some (diffId 1)) (some (js "s")) (some 1),
    .targetResolved 0 (.ok (js "/w/a")) none, .acceptDiff (diffId 1),
    .targetResolved 1 (.ok (js "/w/a")) (some (js "file:///w")), .targetRead 1 (.opened (js "x")),
    .lockReleased 1]

/-- The diff is edited in and reported. -/
theorem edits_fenced_accepted :
    (run diffStep (.create editorHost)
      (untilCommit ++ [.targetRead 1 (.opened (js "x")), .editApplied 1 (some true)])).returned =
        [diffId 1] ∧
    Along diffStep EditsFenced (.create editorHost)
      (untilCommit ++ [.targetRead 1 (.opened (js "x")), .editApplied 1 (some true)]) ∧
    Throughout diffStep ReportedOnce (.create editorHost)
      (untilCommit ++ [.targetRead 1 (.opened (js "x")), .editApplied 1 (some true)]) :=
  ⟨by decide, (edits_fenced_iff editorHost _ (by decide)).mpr (by decide)⟩

/-- Everything is rejected while the commit reads its target, and the edit is
started. -/
theorem rejected_edit_starts :
    ∃ host events, Along diffStep WellCalled (.create host) events ∧
      ¬ (Along diffStep EditsFenced (.create host) events ∧
        Throughout diffStep ReportedOnce (.create host) events) := by
  refine ⟨editorHost, untilCommit ++ [.rejectAll, .targetRead 1 (.opened (js "x"))], by decide, ?_⟩
  intro h
  exact absurd h.1 (by decide)

end Shizuha.Vscode
