import Shizuha.Proofs.InboxLedger

/-!
# Heartbeats are queued or counted

A heartbeat that is not queued is counted while one is queued, and the count
ends with the one that is handed out. While the consumer waits nothing but
notices is queued, so there is nothing to count. A resumed heartbeat is the one
that leaves the count as it was.
-/

namespace Shizuha.Gateway

open Js Machine

variable {upper : Text → Text} {fresh : Fresh} {s s' : Inbox} {m row : InboundMessage}
  {op : InboxOp} {t : InboxTrace} {after : Inbox × Outcome}
  {handed merged gone : List InboundMessage} {used : List ℕ}

/-! ## A consumer that waits -/

/-- Nothing but notices is queued while the consumer waits. -/
def Inbox.Idle (s : Inbox) : Prop :=
  s.waiting = true → ∀ r ∈ s.queue, isWorkingDeferredTaskNotification r = true

theorem idle_of_not_waiting (h : s.waiting = false) : s.Idle := by
  intro hwaiting
  rw [h] at hwaiting
  cases hwaiting

theorem idle_pushDeferred (h : s.Idle) (hm : isWorkingDeferredTaskNotification m = true) :
    (s.pushDeferred upper fresh m).1.Idle := by
  have hidle : (s.enqueueMessage upper m).Idle := by
    obtain ⟨henqueued, hflags⟩ := enqueued upper s m
    intro hwaiting r hr
    rcases henqueued.mem.2 r hr with rfl | hr
    · exact hm
    · exact h (hflags.waiting ▸ hwaiting) r hr
  rw [Inbox.pushDeferred]
  split_ifs
  · have hadmission := admission upper fresh (s.enqueueMessage upper m)
    have hsub := hadmission.sublist
    have hwait := hadmission.waiting
    generalize (s.enqueueMessage upper m).takeWorkingDeferredAdmission upper fresh = o
      at hsub hwait
    obtain ⟨x, s'⟩ := o
    cases x with
    | some x => exact idle_of_not_waiting rfl
    | none => exact fun hwaiting r hr => hidle (hwait ▸ hwaiting) r (hsub.subset hr)
  · exact hidle

theorem idle_tryPush (h : s.Idle) : (s.tryPush upper fresh m).1.Idle := by
  rw [Inbox.tryPush]
  by_cases hsealed : s.ingressSealed = true
  · rw [if_pos hsealed]
    exact h
  rw [if_neg hsealed]
  dsimp only
  split_ifs with hdeferred hwaiting hheartbeat hcoalesced
  · exact idle_pushDeferred h hdeferred
  · exact idle_of_not_waiting rfl
  · exact idle_of_not_waiting rfl
  · exact idle_of_not_waiting (eq_false_of_ne_true hwaiting)
  · exact idle_of_not_waiting
      ((enqueued upper { s with admissionVersion := s.admissionVersion + 1 } m).2.waiting.trans
        (eq_false_of_ne_true hwaiting))

theorem idle_pushFront (h : s.Idle) (messages : List InboundMessage) :
    (s.pushFront messages).1.Idle := by
  cases messages with
  | nil => exact h
  | cons first rest =>
      obtain ⟨places, heq⟩ := pushFront_cons s first rest
      rw [heq]
      split_ifs with hwaiting
      · exact idle_of_not_waiting rfl
      · exact idle_of_not_waiting (eq_false_of_ne_true hwaiting)

theorem idle_next (h : s.Idle) : (s.next upper fresh).1.Idle := by
  have htaken := taken upper fresh s
  have hsub := htaken.sublist
  have hwait := htaken.waiting
  rw [Inbox.next]
  generalize s.takeAdmissible upper fresh = o at htaken hsub hwait
  obtain ⟨x, s'⟩ := o
  cases x with
  | some x => exact fun hwaiting r hr => h (hwait ▸ hwaiting) r (hsub.subset hr)
  | none =>
      intro _ r hr
      cases htaken with
      | nothing _ hparked => exact (parked_iff.mp (hparked r hr)).1
      | admitted _ hqueue _ hholds _ ho =>
          obtain ⟨x, heq⟩ := ho.isSome (mem_of_split hqueue) hholds
          cases heq

theorem idle_step (h : s.Idle) (op : InboxOp) : (inboxStep upper s op).Idle := by
  cases op with
  | tryPush fresh m => exact idle_tryPush h
  | pushFront messages => exact idle_pushFront h messages
  | resumeAdmitted messages =>
      have hmarked : { s with
          admittedContinuations :=
            messages.map InboundMessage.ref ++ s.admittedContinuations }.Idle := h
      exact idle_pushFront hmarked messages
  | next fresh => exact idle_next h
  | drainForRecovery => exact fun _ r hr => absurd hr List.not_mem_nil
  | sealIngress | unsealIngress => exact h

/-! ## Marks -/

/-- The rows that a call marks as admitted before. -/
def InboxOp.marks : InboxOp → List ℕ
  | .resumeAdmitted messages => messages.map InboundMessage.ref
  | _ => []

theorem marks_pushFront (s : Inbox) (messages : List InboundMessage) :
    (s.pushFront messages).1.admittedContinuations = s.admittedContinuations := by
  cases messages with
  | nil => rfl
  | cons first rest =>
      obtain ⟨places, heq⟩ := pushFront_cons s first rest
      rw [heq]
      split_ifs <;> rfl

theorem Admission.marks {o : Option InboundMessage × Inbox} (h : Admission upper fresh s o) :
    o.2.admittedContinuations = s.admittedContinuations := by
  cases h <;> rfl

theorem marks_tryPush (upper : Text → Text) (fresh : Fresh) (s : Inbox) (m : InboundMessage) :
    (s.tryPush upper fresh m).1.admittedContinuations = s.admittedContinuations := by
  have hplaced (s : Inbox) := (enqueued upper s m).2.continuations
  have hdeferred (s : Inbox) :
      (s.pushDeferred upper fresh m).1.admittedContinuations = s.admittedContinuations := by
    rw [Inbox.pushDeferred]
    split_ifs
    · have hmarks := (admission upper fresh (s.enqueueMessage upper m)).marks
      generalize (s.enqueueMessage upper m).takeWorkingDeferredAdmission upper fresh = o at hmarks
      obtain ⟨x, s'⟩ := o
      cases x <;> exact hmarks.trans (hplaced s)
    · exact hplaced s
  rw [Inbox.tryPush]
  by_cases hsealed : s.ingressSealed = true
  · rw [if_pos hsealed]
  rw [if_neg hsealed]
  dsimp only
  split_ifs
  · exact hdeferred _
  · rfl
  · rfl
  · rfl
  · exact hplaced _

theorem marks_step {ref : ℕ} (h : ref ∈ (inboxStep upper s op).admittedContinuations) :
    ref ∈ s.admittedContinuations ∨ ref ∈ op.marks := by
  cases op with
  | tryPush fresh m => exact .inl (marks_tryPush upper fresh s m ▸ h)
  | pushFront messages => exact .inl (marks_pushFront s messages ▸ h)
  | resumeAdmitted messages =>
      rw [inboxStep, Inbox.call, Inbox.resumeAdmitted, marks_pushFront] at h
      exact (List.mem_append.mp h).symm
  | next fresh =>
      have hmarks : ref ∈ (s.takeAdmissible upper fresh).2.admittedContinuations := by
        rw [inboxStep, Inbox.call, Inbox.next] at h
        generalize s.takeAdmissible upper fresh = o at h
        obtain ⟨x, s'⟩ := o
        cases x <;> exact h
      have htaken := taken upper fresh s
      generalize s.takeAdmissible upper fresh = o at htaken hmarks
      cases htaken with
      | continuation => exact .inl (List.mem_filter.mp hmarks).1
      | admitted _ _ _ _ _ ho => exact .inl (ho.marks ▸ hmarks)
      | nothing | heartbeat | ordinary => exact .inl hmarks
  | drainForRecovery | sealIngress | unsealIngress => exact .inl h

/-! ## The count -/

/-- What the count needs to be right: a queued heartbeat to begin with, none that
was resumed, and objects that are new when they come. -/
structure Ticking (t : InboxTrace) (used : List ℕ) : Prop where
  covered : t.inbox.coalescedHeartbeatCount ≠ 0 → ∃ r ∈ t.inbox.queue, isHeartbeat r = true
  idle : t.inbox.Idle
  unmarked : ∀ r ∈ t.inbox.queue, t.inbox.isContinuation r = true → isHeartbeat r = false
  queued : ∀ r ∈ t.inbox.queue, r.ref ∈ used
  marked : ∀ ref ∈ t.inbox.admittedContinuations, ref ∈ used
  ticked : ∀ ref ∈ t.heartbeats, ref ∈ used
  counted : t.TicksCounted

theorem Ticking.nothing_counted (h : Ticking t used) (hwaiting : t.inbox.waiting = true) :
    t.inbox.coalescedHeartbeatCount = 0 := by
  by_contra hcount
  obtain ⟨r, hr, hheartbeat⟩ := h.covered hcount
  rw [isHeartbeat_of_deferred (h.idle hwaiting r hr)] at hheartbeat
  cases hheartbeat

theorem refs_of_given (hrow : row ∈ op.given s) : row.ref ∈ op.refs :=
  (refs_of_op s op).subset (List.mem_append_left _ (List.mem_map_of_mem hrow))

theorem refs_of_marks {ref : ℕ} (h : ref ∈ op.marks) : ref ∈ op.refs := by
  cases op with
  | resumeAdmitted messages => exact h
  | tryPush | pushFront | next | drainForRecovery | sealIngress | unsealIngress =>
      exact absurd h List.not_mem_nil

theorem refs_of_ticks {ref : ℕ} (h : ref ∈ op.ticks s) : ref ∈ op.refs := by
  cases op with
  | tryPush fresh m =>
      obtain ⟨r, hr, rfl⟩ := List.mem_map.mp h
      exact refs_of_given (List.mem_filter.mp hr).1
  | pushFront | resumeAdmitted | next | drainForRecovery | sealIngress | unsealIngress =>
      exact absurd h List.not_mem_nil

theorem restarts_of_beats {o : Outcome} (h : o.Beats) : restarts op o = true := by
  obtain ⟨x, hx, hheartbeat⟩ := h
  cases op with
  | drainForRecovery => rfl
  | tryPush | pushFront | resumeAdmitted | next | sealIngress | unsealIngress =>
      show o.returned.any isHeartbeat = true
      rw [hx]
      exact hheartbeat

theorem not_restarts {o : Outcome} (h : ¬ o.Beats) (hop : op ≠ .drainForRecovery) :
    restarts op o = false := by
  have hnone : o.returned.any isHeartbeat = false := by
    cases hreturned : o.returned with
    | none => rfl
    | some x =>
        rw [Option.any_some, Bool.eq_false_iff]
        exact fun hheartbeat => h ⟨x, hreturned, hheartbeat⟩
  cases op with
  | drainForRecovery => exact absurd rfl hop
  | tryPush | pushFront | resumeAdmitted | next | sealIngress | unsealIngress => exact hnone

/-- Of the messages that a call accepts, those it ticks are counted. -/
theorem countP_given (hnew : ∀ r ∈ op.given t.inbox, r.ref ∉ t.heartbeats) :
    (op.given t.inbox).countP (fun r => isHeartbeat r &&
      (t.heartbeats ++ op.ticks t.inbox).contains r.ref) = (op.ticks t.inbox).length := by
  cases op with
  | tryPush fresh m =>
      rw [InboxOp.ticks, List.length_map, ← List.countP_eq_length_filter]
      refine List.countP_congr fun r hr => ?_
      rw [Bool.and_eq_true, List.contains_iff_mem, List.mem_append]
      refine ⟨And.left, fun hheartbeat => ⟨hheartbeat, .inr ?_⟩⟩
      exact List.mem_map_of_mem (List.mem_filter.mpr ⟨hr, hheartbeat⟩)
  | pushFront | resumeAdmitted | next | drainForRecovery | sealIngress | unsealIngress =>
      show List.countP (fun r => isHeartbeat r && (t.heartbeats ++ []).contains r.ref) _ = 0
      rw [List.append_nil, List.countP_eq_zero]
      intro r hr hticked
      rw [Bool.and_eq_true, List.contains_iff_mem] at hticked
      exact hnew r hr hticked.2

/-- The heartbeats stay in the queue when none is handed out. -/
theorem Moved.countP {p : InboundMessage → Bool} (h : Moved upper s op after handed merged gone)
    (hp : ∀ r, p r = true → isHeartbeat r = true) (hbeats : ¬ after.2.Beats)
    (hdrained : after.2.drained = []) (hgone : ∀ r ∈ gone, isHeartbeat r = false) :
    after.1.queue.countP p = s.queue.countP p + (op.given s).countP p := by
  have hzero : ∀ {rows : List InboundMessage}, (∀ r ∈ rows, isHeartbeat r = false) →
      rows.countP p = 0 := by
    intro rows hrows
    rw [List.countP_eq_zero]
    intro r hr hpr
    have hheartbeat := hp r hpr
    rw [hrows r hr] at hheartbeat
    cases hheartbeat
  have hhanded : ∀ r ∈ handed, isHeartbeat r = false := by
    intro r hr
    rw [Bool.eq_false_iff]
    exact fun hheartbeat => hbeats ⟨r, h.returns.of_handed hr, hheartbeat⟩
  have hmerged : ∀ r ∈ merged, isHeartbeat r = false :=
    fun r hr => isHeartbeat_of_deferred (h.returns.of_merged hr).1
  have hrows := h.rows.countP_eq p
  rw [hdrained] at hrows
  simp only [List.countP_append, List.countP_nil] at hrows
  rw [hzero hhanded, hzero hmerged, hzero hgone] at hrows
  omega

/-- A new heartbeat is no queued one. -/
theorem Ticking.countP_queue (h : Ticking t used) (hnew : (used ++ op.refs).Nodup) :
    t.inbox.queue.countP (fun r => isHeartbeat r &&
      (t.heartbeats ++ op.ticks t.inbox).contains r.ref) = t.inbox.queue.countP t.ticked := by
  refine List.countP_congr fun r hr => ?_
  rw [InboxTrace.ticked, Bool.and_eq_true, Bool.and_eq_true, List.contains_iff_mem,
    List.contains_iff_mem, List.mem_append]
  have hold : r.ref ∉ op.ticks t.inbox := fun hticks =>
    (List.nodup_append.mp hnew).2.2 _ (h.queued r hr) _ (refs_of_ticks hticks) rfl
  tauto

theorem Ticking.new_given (h : Ticking t used) (hnew : (used ++ op.refs).Nodup) :
    ∀ r ∈ op.given t.inbox, r.ref ∉ t.heartbeats := fun _ hr href =>
  (List.nodup_append.mp hnew).2.2 _ (h.ticked _ href) _ (refs_of_given hr) rfl

theorem ticksCounted_anew (hheartbeats : t.heartbeats = [])
    (hcount : t.inbox.coalescedHeartbeatCount = 0) : t.TicksCounted := by
  have hnone : t.inbox.queue.countP t.ticked = 0 := by
    rw [List.countP_eq_zero]
    intro r _ hticked
    rw [InboxTrace.ticked, hheartbeats, Bool.and_eq_true] at hticked
    cases hticked.2
  rw [InboxTrace.TicksCounted, hheartbeats, hnone, hcount]
  rfl

theorem heartbeats_restarted (h : restarts op (t.inbox.call upper op).2 = true) :
    (traceStep upper t op).heartbeats = [] := if_pos h

theorem heartbeats_kept (h : restarts op (t.inbox.call upper op).2 = false) :
    (traceStep upper t op).heartbeats = t.heartbeats ++ op.ticks t.inbox := by
  rw [traceStep, h]
  rfl

theorem ticksCounted_kept (h : Ticking t used)
    (hkept : restarts op (t.inbox.call upper op).2 = false)
    (hcount : (inboxStep upper t.inbox op).queue.countP (fun r => isHeartbeat r &&
        (t.heartbeats ++ op.ticks t.inbox).contains r.ref) +
          (inboxStep upper t.inbox op).coalescedHeartbeatCount =
      t.inbox.queue.countP t.ticked + t.inbox.coalescedHeartbeatCount +
        (op.ticks t.inbox).length) : (traceStep upper t op).TicksCounted := by
  have hticked : (traceStep upper t op).ticked = fun r => isHeartbeat r &&
      (t.heartbeats ++ op.ticks t.inbox).contains r.ref := by
    funext r
    rw [InboxTrace.ticked, heartbeats_kept hkept]
  have hbefore : t.heartbeats.length = _ := h.counted
  rw [InboxTrace.TicksCounted, hticked, heartbeats_kept hkept, List.length_append, hbefore]
  exact hcount.symm

theorem ticksCounted_step (h : Ticking t used) (hnew : (used ++ op.refs).Nodup) :
    (traceStep upper t op).TicksCounted := by
  obtain ⟨handed, merged, gone, hmoved⟩ := moved_call upper t op
  cases hmoved.counted with
  | stays hcount hbeats hdrained hgone =>
      by_cases hop : op = .drainForRecovery
      · rw [hop]
        exact ticksCounted_anew (heartbeats_restarted rfl) rfl
      · refine ticksCounted_kept h (not_restarts hbeats hop) ?_
        have hrows := hmoved.countP (p := fun r => isHeartbeat r &&
          (t.heartbeats ++ op.ticks t.inbox).contains r.ref)
          (fun r hr => (Bool.and_eq_true _ _ ▸ hr).1) hbeats hdrained hgone
        rw [h.countP_queue hnew, countP_given (h.new_given hnew)] at hrows
        rw [inboxStep, hrows, hcount]
        omega
  | @grows fresh m hop hopen hm hcount hreturned hqueue =>
      subst hop
      refine ticksCounted_kept h (not_restarts (not_beats_none hreturned) ?_) ?_
      · exact fun hop => by cases hop
      · have hticks : (InboxOp.ticks t.inbox (.tryPush fresh m)).length = 1 := by
          rw [InboxOp.ticks, InboxOp.given, hopen, List.length_map]
          simp [hm]
        rw [inboxStep, hqueue, hcount, h.countP_queue hnew, hticks]
        omega
  | ends hcount hends =>
      refine ticksCounted_anew (heartbeats_restarted ?_) hcount
      rcases hends with hop | ⟨-, hbeats⟩
      · rw [hop]
        rfl
      · exact restarts_of_beats hbeats
  | waited hcount hwaiting hbeats =>
      exact ticksCounted_anew (heartbeats_restarted (restarts_of_beats hbeats))
        (hcount.trans (h.nothing_counted hwaiting))
  | @resumed row hrow hmark hheartbeat =>
      rw [h.unmarked row hrow hmark] at hheartbeat
      cases hheartbeat

theorem covered_step (h : Ticking t used)
    (hcount : (inboxStep upper t.inbox op).coalescedHeartbeatCount ≠ 0) :
    ∃ r ∈ (inboxStep upper t.inbox op).queue, isHeartbeat r = true := by
  obtain ⟨handed, merged, gone, hmoved⟩ := moved_call upper t op
  cases hmoved.counted with
  | stays hsame hbeats hdrained hgone =>
      obtain ⟨r, hr, hheartbeat⟩ := h.covered (hsame ▸ hcount)
      rw [inboxStep, ← List.countP_pos_iff, hmoved.countP (fun _ => id) hbeats hdrained hgone]
      have hpos : 0 < t.inbox.queue.countP isHeartbeat :=
        List.countP_pos_iff.mpr ⟨r, hr, hheartbeat⟩
      omega
  | grows hop hopen hm hgrows hreturned hqueue hqueued =>
      rw [inboxStep, hqueue]
      exact hqueued
  | ends hzero => exact absurd hzero hcount
  | waited hsame hwaiting => exact absurd (hsame.trans (h.nothing_counted hwaiting)) hcount
  | @resumed row hrow hmark hheartbeat =>
      rw [h.unmarked row hrow hmark] at hheartbeat
      cases hheartbeat

theorem unmarked_step (h : Ticking t used) (hnew : (used ++ op.refs).Nodup)
    (hop : op.resumesHeartbeat = false) (hrow : row ∈ (inboxStep upper t.inbox op).queue)
    (hmark : (inboxStep upper t.inbox op).isContinuation row = true) :
    isHeartbeat row = false := by
  obtain ⟨handed, merged, gone, hmoved⟩ := moved_call upper t op
  have hapart : ∀ {ref : ℕ}, ref ∈ used → ref ∈ op.refs → False :=
    fun hused hrefs => (List.nodup_append.mp hnew).2.2 _ hused _ hrefs rfl
  rw [Inbox.isContinuation, List.contains_iff_mem] at hmark
  rcases hmoved.mem_iff.mpr (.inl hrow) with hold | hgiven <;>
    rcases marks_step hmark with hbefore | hmarked
  · exact h.unmarked row hold (List.contains_iff_mem.mpr hbefore)
  · exact (hapart (h.queued row hold) (refs_of_marks hmarked)).elim
  · exact (hapart (h.marked _ hbefore) (refs_of_given hgiven)).elim
  · cases op with
    | resumeAdmitted messages =>
        rw [Bool.eq_false_iff]
        intro hheartbeat
        have hany : messages.any isHeartbeat = true :=
          List.any_eq_true.mpr ⟨row, hgiven, hheartbeat⟩
        rw [InboxOp.resumesHeartbeat, hany] at hop
        cases hop
    | tryPush | pushFront | next | drainForRecovery | sealIngress | unsealIngress =>
        exact absurd hmarked List.not_mem_nil

/-- A call keeps the count right, unless it resumes a heartbeat. -/
theorem ticking_step (h : Ticking t used) (hnew : (used ++ op.refs).Nodup)
    (hop : op.resumesHeartbeat = false) :
    Ticking (traceStep upper t op) (used ++ op.refs) where
  covered := covered_step h
  idle := idle_step h.idle op
  unmarked := fun r hr => unmarked_step h hnew hop hr
  queued := by
    obtain ⟨handed, merged, gone, hmoved⟩ := moved_call upper t op
    intro r hr
    rcases hmoved.mem_iff.mpr (.inl hr) with hold | hgiven
    · exact List.mem_append_left _ (h.queued r hold)
    · exact List.mem_append_right _ (refs_of_given hgiven)
  marked := by
    intro ref href
    rcases marks_step href with hbefore | hmarked
    · exact List.mem_append_left _ (h.marked ref hbefore)
    · exact List.mem_append_right _ (refs_of_marks hmarked)
  ticked := by
    intro ref href
    cases hrestarts : restarts op (t.inbox.call upper op).2 with
    | true =>
        rw [heartbeats_restarted hrestarts] at href
        exact absurd href List.not_mem_nil
    | false =>
        rw [heartbeats_kept hrestarts, List.mem_append] at href
        exact List.mem_append.mpr (href.imp (h.ticked ref) refs_of_ticks)
  counted := ticksCounted_step h hnew

/-! ## One heartbeat at a time -/

/-- As long as none is put in front, one heartbeat is queued at most, and it was
pushed since the last one was handed out. -/
structure OneHeartbeat (t : InboxTrace) : Prop where
  single : t.inbox.queue.countP isHeartbeat ≤ 1
  recent : ∀ r ∈ t.inbox.queue, isHeartbeat r = true → r.ref ∈ t.heartbeats

theorem resumes_of_fronts (h : op.frontsHeartbeat = false) : op.resumesHeartbeat = false := by
  cases op with
  | resumeAdmitted messages => exact h
  | tryPush | pushFront | next | drainForRecovery | sealIngress | unsealIngress => rfl

/-- What is accepted and is a heartbeat was pushed. -/
theorem given_heartbeat (hop : op.frontsHeartbeat = false) (hrow : row ∈ op.given s)
    (hheartbeat : isHeartbeat row = true) : ∃ fresh, op = .tryPush fresh row ∧
      s.ingressSealed = false := by
  cases op with
  | tryPush fresh m =>
      rw [InboxOp.given] at hrow
      split_ifs at hrow with hsealed
      · exact absurd hrow List.not_mem_nil
      · rw [List.mem_singleton.mp hrow]
        exact ⟨fresh, rfl, eq_false_of_ne_true hsealed⟩
  | pushFront messages | resumeAdmitted messages =>
      have hany : messages.any isHeartbeat = true := List.any_eq_true.mpr ⟨row, hrow, hheartbeat⟩
      rw [InboxOp.frontsHeartbeat, hany] at hop
      cases hop
  | next | drainForRecovery | sealIngress | unsealIngress => exact absurd hrow List.not_mem_nil

theorem countP_given_le (hop : op.frontsHeartbeat = false) :
    (op.given s).countP isHeartbeat ≤ 1 := by
  cases op with
  | tryPush fresh m =>
      rw [InboxOp.given]
      split_ifs
      · exact Nat.zero_le 1
      · exact List.countP_le_length
  | pushFront messages | resumeAdmitted messages =>
      have hnone : messages.countP isHeartbeat = 0 := by
        rw [List.countP_eq_zero]
        intro r hr hheartbeat
        have hany : messages.any isHeartbeat = true := List.any_eq_true.mpr ⟨r, hr, hheartbeat⟩
        rw [InboxOp.frontsHeartbeat, hany] at hop
        cases hop
      exact hnone.le.trans (Nat.zero_le 1)
  | next | drainForRecovery | sealIngress | unsealIngress => exact Nat.zero_le 1

/-- A heartbeat that is handed out leaves the queue without one. -/
theorem Moved.countP_beats (h : Moved upper s op after handed merged gone)
    (hbeats : after.2.Beats)
    (hone : s.queue.countP isHeartbeat + (op.given s).countP isHeartbeat ≤ 1) :
    after.1.queue.countP isHeartbeat = 0 := by
  obtain ⟨x, hx, hheartbeat⟩ := hbeats
  have hhanded : 0 < handed.countP isHeartbeat := by
    have hreturns := h.returns
    rw [hx] at hreturns
    cases hreturns with
    | row => exact List.countP_pos_iff.mpr ⟨x, List.mem_cons_self, hheartbeat⟩
    | digest hread hfirst hheld =>
        rw [isHeartbeat_digest _ (hheld _ hfirst)] at hheartbeat
        cases hheartbeat
  have hrows := h.rows.countP_eq isHeartbeat
  simp only [List.countP_append] at hrows
  omega

theorem oneHeartbeat_anew (h : t.inbox.queue.countP isHeartbeat = 0) : OneHeartbeat t where
  single := by
    rw [h]
    exact Nat.zero_le 1
  recent := fun r hr hheartbeat => absurd hheartbeat (List.countP_eq_zero.mp h r hr)

theorem oneHeartbeat_step (hone : OneHeartbeat t) (h : Ticking t used)
    (hop : op.frontsHeartbeat = false) : OneHeartbeat (traceStep upper t op) := by
  obtain ⟨handed, merged, gone, hmoved⟩ := moved_call upper t op
  have hkept (hkept : restarts op (t.inbox.call upper op).2 = false) :
      ∀ r ∈ (inboxStep upper t.inbox op).queue, isHeartbeat r = true →
        r.ref ∈ (traceStep upper t op).heartbeats := by
    intro r hr hheartbeat
    rw [heartbeats_kept hkept]
    rcases hmoved.mem_iff.mpr (.inl hr) with hold | hgiven
    · exact List.mem_append_left _ (hone.recent r hold hheartbeat)
    · refine List.mem_append_right _ ?_
      obtain ⟨fresh, rfl, hopen⟩ := given_heartbeat hop hgiven hheartbeat
      exact List.mem_map_of_mem (List.mem_filter.mpr ⟨hgiven, hheartbeat⟩)
  cases hmoved.counted with
  | stays hcount hbeats hdrained hgone hfirst =>
      by_cases hdrain : op = .drainForRecovery
      · rw [hdrain]
        exact oneHeartbeat_anew rfl
      · refine ⟨?_, hkept (not_restarts hbeats hdrain)⟩
        show (t.inbox.call upper op).1.queue.countP isHeartbeat ≤ 1
        rw [hmoved.countP (fun _ => id) hbeats hdrained hgone]
        by_cases hgiven : (op.given t.inbox).countP isHeartbeat = 0
        · rw [hgiven]
          exact hone.single
        · obtain ⟨r, hr, hheartbeat⟩ := List.countP_pos_iff.mp (Nat.pos_of_ne_zero hgiven)
          obtain ⟨fresh, hpush, hopen⟩ := given_heartbeat hop hr hheartbeat
          have hnone : t.inbox.queue.countP isHeartbeat = 0 := by
            rw [List.countP_eq_zero]
            intro q hq
            rw [hfirst fresh r hpush hheartbeat hopen q hq]
            exact Bool.false_ne_true
          rw [hnone, Nat.zero_add]
          exact countP_given_le hop
  | grows hpush hopen hm hcount hreturned hqueue =>
      refine ⟨?_, hkept (not_restarts (not_beats_none hreturned) ?_)⟩
      · show (t.inbox.call upper op).1.queue.countP isHeartbeat ≤ 1
        rw [hqueue]
        exact hone.single
      · rw [hpush]
        exact fun hdrain => by cases hdrain
  | ends hcount hends =>
      rcases hends with hdrain | ⟨hgiven, hbeats⟩
      · rw [hdrain]
        exact oneHeartbeat_anew rfl
      · refine oneHeartbeat_anew (hmoved.countP_beats hbeats ?_)
        rw [hgiven]
        exact hone.single
  | waited hcount hwaiting hbeats =>
      have hnone : t.inbox.queue.countP isHeartbeat = 0 := by
        rw [List.countP_eq_zero]
        intro r hr
        rw [isHeartbeat_of_deferred (h.idle hwaiting r hr)]
        exact Bool.false_ne_true
      refine oneHeartbeat_anew (hmoved.countP_beats hbeats ?_)
      rw [hnone, Nat.zero_add]
      exact countP_given_le hop
  | @resumed row hrow hmark hheartbeat =>
      rw [h.unmarked row hrow hmark] at hheartbeat
      cases hheartbeat

theorem allTicksCounted_of_one (hone : OneHeartbeat t) (h : t.TicksCounted) :
    t.AllTicksCounted := by
  have hsame : t.inbox.queue.countP t.ticked = t.inbox.queue.countP isHeartbeat := by
    refine List.countP_congr fun r hr => ?_
    rw [InboxTrace.ticked, Bool.and_eq_true, List.contains_iff_mem]
    exact ⟨And.left, fun hheartbeat => ⟨hheartbeat, hone.recent r hr hheartbeat⟩⟩
  rw [InboxTrace.AllTicksCounted, ← hsame]
  exact h

/-! ## Runs -/

/-- The objects that the calls bring are new each time. -/
theorem run_used (upper : Text → Text) {I : InboxTrace → List ℕ → Prop} {D : InboxOp → Prop}
    (hstep : ∀ t used op, I t used → (used ++ op.refs).Nodup → D op →
      I (traceStep upper t op) (used ++ op.refs))
    (ops : List InboxOp) (t : InboxTrace) (used : List ℕ) (h : I t used)
    (hnew : (used ++ ops.flatMap InboxOp.refs).Nodup) (hops : ∀ op ∈ ops, D op) :
    I (run (traceStep upper) t ops) (used ++ ops.flatMap InboxOp.refs) := by
  induction ops generalizing t used with
  | nil =>
      rw [List.flatMap_nil, List.append_nil]
      exact h
  | cons op ops ih =>
      rw [List.flatMap_cons, ← List.append_assoc] at hnew ⊢
      rw [List.forall_mem_cons] at hops
      have hfirst := (List.nodup_append.mp hnew).1
      exact ih (traceStep upper t op) (used ++ op.refs) (hstep t used op h hfirst hops.1) hnew hops.2

theorem ticking_start : Ticking .start [] where
  covered := fun h => absurd rfl h
  idle := fun h => by cases h
  unmarked := fun r hr => absurd hr List.not_mem_nil
  queued := fun r hr => absurd hr List.not_mem_nil
  marked := fun ref href => absurd href List.not_mem_nil
  ticked := fun ref href => absurd href List.not_mem_nil
  counted := rfl

/-- A direct-control or cron message that is no notice is in one place. The
heartbeats are queued or counted as long as none is resumed, and they are all
that is queued of them as long as none is put in front. A routine notice leaves
by a newer one, in a digest, or for a heartbeat. -/
theorem inbox_conserves (upper : Text → Text) (ops : List InboxOp)
    (hdistinct : (ops.flatMap InboxOp.refs).Nodup) :
    (∀ m ∈ (run (traceStep upper) .start ops).accepted, Lasting m →
      (run (traceStep upper) .start ops).InOnePlace m) ∧
    ((∀ op ∈ ops, op.resumesHeartbeat = false) →
      (run (traceStep upper) .start ops).TicksCounted) ∧
    ((∀ op ∈ ops, op.frontsHeartbeat = false) →
      (run (traceStep upper) .start ops).AllTicksCounted) ∧
    Along (traceStep upper) (NoticeLeaves upper) .start ops := by
  refine ⟨fun m hm hlasting => ?_, fun hops => ?_, fun hops => ?_, along_true (noticeLeaves upper) _ _⟩
  · obtain ⟨digests, gone, hledger⟩ := run_used upper (D := fun _ => True)
      (I := fun t used => ∃ digests gone, Ledger t used digests gone)
      (fun t used op h _ _ => ledger_step h.choose_spec.choose_spec upper op) ops .start []
      ⟨[], [], .refl _, fun r hr => absurd hr List.not_mem_nil, .refl _⟩ hdistinct fun _ _ => trivial
    exact inOnePlace_of_ledger hledger hdistinct hm hlasting
  · exact (run_used upper (fun t used op h hnew hop => ticking_step h hnew hop) ops .start []
      ticking_start hdistinct hops).counted
  · have hrun := run_used upper (I := fun t used => Ticking t used ∧ OneHeartbeat t)
      (fun t used op h hnew hop => ⟨ticking_step h.1 hnew (resumes_of_fronts hop),
        oneHeartbeat_step h.2 h.1 hop⟩) ops .start []
      ⟨ticking_start, oneHeartbeat_anew rfl⟩ hdistinct hops
    exact allTicksCounted_of_one hrun.2 hrun.1.counted

/-! ## A cron message that is dropped -/

/-- Two heartbeats come in while the user's message is queued. -/
def heartbeatLater : InboundMessage := ⟨4, js "m4", some .heartbeat, none, 0, none⟩

theorem inbox_conserves_userMessage :
    let t := run (traceStep id) .start [.tryPush ⟨0, 10⟩ userMessage,
      .tryPush ⟨0, 11⟩ heartbeatTick, .tryPush ⟨0, 12⟩ heartbeatLater, .next ⟨0, 13⟩]
    (∀ m ∈ t.accepted, Lasting m → t.InOnePlace m) ∧ t.TicksCounted ∧ t.AllTicksCounted := by
  obtain ⟨hplaces, hticks, hall, -⟩ := inbox_conserves id [.tryPush ⟨0, 10⟩ userMessage,
    .tryPush ⟨0, 11⟩ heartbeatTick, .tryPush ⟨0, 12⟩ heartbeatLater, .next ⟨0, 13⟩] (by decide)
  exact ⟨hplaces, hticks (by decide), hall (by decide)⟩

/-- A cron job whose prompt reads like a task notice. -/
def cronNotice : InboundMessage :=
  ⟨1, js "m1", some .cron, some (js "[system] [Task Assigned] PLS-7"), 0, none⟩

theorem cronNotice_dropped :
    ¬ ∀ (upper : Text → Text) (ops : List InboxOp), (ops.flatMap InboxOp.refs).Nodup →
      ∀ m ∈ (run (traceStep upper) .start ops).accepted,
        (gatewayInboxClass m = .directControl ∨ gatewayInboxClass m = .cron) →
          (run (traceStep upper) .start ops).InOnePlace m := by
  intro h
  have hone := h id [.tryPush ⟨0, 10⟩ cronNotice, .tryPush ⟨0, 11⟩ heartbeatTick,
    .next ⟨0, 12⟩] (by decide) cronNotice List.mem_cons_self (.inr rfl)
  rw [InboxTrace.InOnePlace] at hone
  exact absurd hone (by decide +kernel)

end Shizuha.Gateway
