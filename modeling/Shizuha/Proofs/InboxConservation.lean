import Mathlib.Data.List.Perm.Basic
import Shizuha.Proofs.InboxOrder

/-!
# What becomes of a message

One lemma says of a call where the rows go that were queued or that it is given
(`moved`): they stay, they are handed out or drained, or they are gone. A row is
gone when a notice with its key takes its place, when it is let in as a part of a
digest, when a heartbeat is handed out, or when it is a heartbeat and one is
queued already. All but the last are notices, so a message that is no notice is
always in one place.

Heartbeats are counted instead (`Counted`). The count of those that were not
queued stays, grows by one, or ends when a heartbeat is handed out. It does not
end for one that was resumed, nor while the consumer waits, when there is
nothing to count.
-/

namespace Shizuha.Gateway

open Js Machine

/-! ## The fates of a row -/

/-- The messages that a call accepts. -/
def InboxOp.given (s : Inbox) : InboxOp → List InboundMessage
  | .tryPush _ m => if s.ingressSealed then [] else [m]
  | .pushFront messages | .resumeAdmitted messages => messages
  | _ => []

/-- What the call reads off the machine for a digest. -/
def InboxOp.fresh : InboxOp → Option Fresh
  | .tryPush fresh _ | .next fresh => some fresh
  | _ => none

/-- The objects that a call brings. -/
def InboxOp.refs : InboxOp → List ℕ
  | .tryPush fresh m => [fresh.ref, m.ref]
  | .pushFront messages | .resumeAdmitted messages => messages.map InboundMessage.ref
  | .next fresh => [fresh.ref]
  | _ => []

/-- A message is handed out as it is, or several notices as a digest. -/
inductive Returns (upper : Text → Text) (fresh : Option Fresh) :
    Option InboundMessage → List InboundMessage → List InboundMessage → Prop where
  | nothing : Returns upper fresh none [] []
  | row (m : InboundMessage) : Returns upper fresh (some m) [m] []
  | digest {read : Fresh} {first : InboundMessage} {held : List InboundMessage}
      (hread : fresh = some read) (hfirst : first ∈ held)
      (hheld : ∀ r ∈ held, isWorkingDeferredTaskNotification r = true) :
      Returns upper fresh (some (digest upper read first held)) [] held

/-- A notice with the row's key comes in. -/
def Replaced (upper : Text → Text) (op : InboxOp) (row : InboundMessage) : Prop :=
  ∃ fresh m, op = .tryPush fresh m ∧
    gatewayTaskNotificationKey upper row = gatewayTaskNotificationKey upper m ∧
      gatewayTaskNotificationKey upper m ≠ none

/-- A heartbeat is handed out, and the row is a notice. -/
def Dropped (o : Outcome) (row : InboundMessage) : Prop :=
  isWorkingDeferredTaskNotification row = true ∧
    ∃ h, o.returned = some h ∧ gatewayInboxClass h = .heartbeat

/-- The row is a heartbeat that is not queued. -/
def Coalesced (op : InboxOp) (row : InboundMessage) : Prop :=
  gatewayInboxClass row = .heartbeat ∧ ∃ fresh, op = .tryPush fresh row

def isHeartbeat (m : InboundMessage) : Bool := decide (gatewayInboxClass m = .heartbeat)

/-- A heartbeat is handed out. -/
def Outcome.Beats (o : Outcome) : Prop := ∃ h, o.returned = some h ∧ isHeartbeat h = true

/-- What becomes of the count of heartbeats that were not queued. -/
inductive Counted (s : Inbox) (op : InboxOp) (after : Inbox × Outcome)
    (gone : List InboundMessage) : Prop where
  | stays (hcount : after.1.coalescedHeartbeatCount = s.coalescedHeartbeatCount)
      (hbeats : ¬ after.2.Beats) (hdrained : after.2.drained = [])
      (hgone : ∀ r ∈ gone, isHeartbeat r = false)
      (halone : ∀ fresh m, op = .tryPush fresh m → isHeartbeat m = true →
        s.ingressSealed = false → ∀ r ∈ s.queue, isHeartbeat r = false)
  | grows {fresh : Fresh} {m : InboundMessage} (hop : op = .tryPush fresh m)
      (hopen : s.ingressSealed = false) (hm : isHeartbeat m = true)
      (hcount : after.1.coalescedHeartbeatCount = s.coalescedHeartbeatCount + 1)
      (hreturned : after.2.returned = none) (hqueue : after.1.queue = s.queue)
      (hqueued : ∃ r ∈ s.queue, isHeartbeat r = true)
  | ends (hcount : after.1.coalescedHeartbeatCount = 0)
      (hends : op = .drainForRecovery ∨ op.given s = [] ∧ after.2.Beats)
  | waited (hcount : after.1.coalescedHeartbeatCount = s.coalescedHeartbeatCount)
      (hwaiting : s.waiting = true) (hbeats : after.2.Beats)
  | resumed {row : InboundMessage} (hrow : row ∈ s.queue)
      (hcontinuation : s.isContinuation row = true) (hheartbeat : isHeartbeat row = true)

/-- Every row that was queued or given stays, is handed out, is drained, is
merged, or is gone. -/
structure Moved (upper : Text → Text) (s : Inbox) (op : InboxOp) (after : Inbox × Outcome)
    (handed merged gone : List InboundMessage) : Prop where
  returns : Returns upper op.fresh after.2.returned handed merged
  rows : (s.queue ++ op.given s).Perm
    (after.1.queue ++ (handed ++ after.2.drained) ++ (merged ++ gone))
  lost : ∀ r ∈ gone, Replaced upper op r ∨ Dropped after.2 r ∨ Coalesced op r
  counted : Counted s op after gone

variable {upper : Text → Text} {fresh : Fresh} {s s' : Inbox} {m row : InboundMessage}
  {op : InboxOp} {handed merged gone queue : List InboundMessage}

/-! ## Heartbeats -/

theorem isHeartbeat_iff : isHeartbeat m = true ↔ m.source = some .heartbeat := by
  rw [isHeartbeat, decide_eq_true_eq, gatewayInboxClass]
  split_ifs with h
  · exact iff_of_true rfl h
  all_goals exact iff_of_false (by simp) h

theorem isHeartbeat_of_deferred (h : isWorkingDeferredTaskNotification m = true) :
    isHeartbeat m = false := by
  rw [Bool.eq_false_iff, ne_eq, isHeartbeat_iff]
  intro hsource
  rw [isWorkingDeferredTaskNotification, if_pos hsource] at h
  cases h

theorem isHeartbeat_of_routine (h : gatewayInboxClass m = .routineTask) :
    isHeartbeat m = false := by
  rw [isHeartbeat, h]
  rfl

theorem isHeartbeat_digest {first : InboundMessage} (held : List InboundMessage)
    (h : isWorkingDeferredTaskNotification first = true) :
    isHeartbeat (digest upper fresh first held) = false := by
  have hfirst := isHeartbeat_of_deferred h
  rw [Bool.eq_false_iff, ne_eq, isHeartbeat_iff] at hfirst ⊢
  exact hfirst

theorem not_beats_none {o : Outcome} (h : o.returned = none) : ¬ o.Beats := by
  rintro ⟨x, hx, _⟩
  rw [h] at hx
  cases hx

theorem Replaced.quiet (h : Replaced upper op row) : isHeartbeat row = false := by
  obtain ⟨fresh, m, -, hkey, hsome⟩ := h
  rw [← hkey] at hsome
  exact isHeartbeat_of_routine (class_of_key hsome)

theorem Admission.quiet {o : Option InboundMessage × Inbox} (h : Admission upper fresh s o) :
    o.2.coalescedHeartbeatCount = s.coalescedHeartbeatCount ∧
      ∀ x, o.1 = some x → isHeartbeat x = false := by
  have hdeferred : ∀ r ∈ s.queue.filter s.holds, isWorkingDeferredTaskNotification r = true :=
    fun r hr => (holds_iff.mp (List.mem_filter.mp hr).2).1
  cases h with
  | none => exact ⟨rfl, fun x hx => by cases hx⟩
  | one hheld =>
      rw [hheld] at hdeferred
      refine ⟨rfl, fun x hx => ?_⟩
      cases hx
      exact isHeartbeat_of_deferred (hdeferred _ List.mem_cons_self)
  | merged hheld =>
      rw [hheld] at hdeferred
      refine ⟨rfl, fun x hx => ?_⟩
      cases hx
      exact isHeartbeat_digest _ (hdeferred _ List.mem_cons_self)

/-- Taking a message leaves the count, unless it is a heartbeat. -/
theorem Taken.counts {o : Option InboundMessage × Inbox} (h : Taken upper fresh s o) :
    (o.2.coalescedHeartbeatCount = s.coalescedHeartbeatCount ∧
      ∀ x, o.1 = some x → isHeartbeat x = false) ∨
    (o.2.coalescedHeartbeatCount = 0 ∧ ∃ x, o.1 = some x ∧ isHeartbeat x = true) ∨
    ∃ row ∈ s.queue, s.isContinuation row = true ∧ isHeartbeat row = true := by
  cases h with
  | nothing => exact .inl ⟨rfl, fun x hx => by cases hx⟩
  | @continuation before after row hqueue hrow =>
      cases hheartbeat : isHeartbeat row with
      | true => exact .inr (.inr ⟨row, mem_of_split hqueue, hrow, hheartbeat⟩)
      | false =>
          refine .inl ⟨rfl, fun x hx => ?_⟩
          cases hx
          exact hheartbeat
  | admitted _ _ _ _ _ ho => exact .inl ho.quiet
  | @heartbeat before after row _ _ _ _ hclass =>
      exact .inr (.inl ⟨rfl, row, rfl, decide_eq_true hclass⟩)
  | ordinary _ _ _ _ hclass =>
      refine .inl ⟨rfl, fun x hx => ?_⟩
      cases hx
      exact decide_eq_false hclass

/-! ## Where the rows go -/

theorem Enqueued.rows (h : Enqueued upper s m queue) :
    ∃ gone, (s.queue ++ [m]).Perm (queue ++ gone) ∧
      ∀ r ∈ gone, Replaced upper (.tryPush fresh m) r := by
  cases h with
  | @placed before after hqueue hplaced =>
      refine ⟨[], ?_, fun r hr => absurd hr List.not_mem_nil⟩
      rw [hqueue, hplaced, List.append_nil, List.append_assoc]
      exact (List.perm_append_singleton m after).append_left before
  | @replaced before after row hqueue hplaced _ hkey hsome =>
      refine ⟨[row], ?_, fun r hr => ?_⟩
      · rw [hqueue, hplaced, List.append_assoc, List.append_assoc]
        refine List.Perm.append_left before ?_
        refine (List.perm_append_singleton m (row :: after)).trans ?_
        refine (List.Perm.swap row m after).trans ?_
        exact (List.perm_append_singleton row (m :: after)).symm
      · rw [List.mem_singleton.mp hr]
        exact ⟨fresh, m, rfl, hkey, hsome⟩

theorem Admission.rows {o : Option InboundMessage × Inbox} (h : Admission upper fresh s o) :
    ∃ handed merged, Returns upper (some fresh) o.1 handed merged ∧
      s.queue.Perm (o.2.queue ++ handed ++ merged) := by
  have hparts : s.queue.Perm (s.queue.filter (fun r => !s.holds r) ++ s.queue.filter s.holds) :=
    (List.filter_append_perm s.holds s.queue).symm.trans List.perm_append_comm
  cases h with
  | none =>
      refine ⟨[], [], .nothing, ?_⟩
      rw [List.append_nil, List.append_nil]
  | @one row hheld =>
      refine ⟨[row], [], .row row, ?_⟩
      rwa [List.append_nil, ← hheld]
  | @merged first second rest hheld =>
      refine ⟨[], first :: second :: rest,
        .digest rfl List.mem_cons_self fun r hr => ?_, ?_⟩
      · rw [← hheld] at hr
        exact (holds_iff.mp (List.mem_filter.mp hr).2).1
      · rwa [List.append_nil, ← hheld]

theorem Taken.rows {o : Option InboundMessage × Inbox} (h : Taken upper fresh s o) :
    ∃ handed merged gone, Returns upper (some fresh) o.1 handed merged ∧
      s.queue.Perm (o.2.queue ++ handed ++ (merged ++ gone)) ∧
        ∀ r ∈ gone, isWorkingDeferredTaskNotification r = true ∧
          ∃ h, o.1 = some h ∧ gatewayInboxClass h = .heartbeat := by
  have hone : ∀ {before after : List InboundMessage} {row : InboundMessage},
      s.queue = before ++ row :: after → s.queue.Perm (before ++ after ++ [row]) := by
    intro before after row hqueue
    rw [hqueue, List.append_assoc]
    exact ((List.perm_append_singleton row after).symm).append_left before
  cases h with
  | nothing =>
      refine ⟨[], [], [], .nothing, ?_, fun r hr => absurd hr List.not_mem_nil⟩
      simp
  | continuation hqueue =>
      refine ⟨_, [], [], .row _, ?_, fun r hr => absurd hr List.not_mem_nil⟩
      rw [List.append_nil, List.append_nil]
      exact hone hqueue
  | admitted _ _ _ _ _ ho =>
      obtain ⟨handed, merged, hreturns, hrows⟩ := ho.rows
      refine ⟨handed, merged, [], hreturns, ?_, fun r hr => absurd hr List.not_mem_nil⟩
      rwa [List.append_nil]
  | @heartbeat before after row hfirst hqueue _ _ hclass =>
      refine ⟨[row], [], (before ++ after).filter s.droppable, .row row, ?_, fun r hr => ?_⟩
      · have hparts := (List.filter_append_perm s.droppable (before ++ after)).symm
        refine (hone hqueue).trans ((hparts.append_right [row]).trans ?_)
        rw [List.nil_append, List.append_assoc, List.append_assoc]
        refine List.perm_append_comm.trans ?_
        rw [List.append_assoc]
      · have hdroppable := (List.mem_filter.mp hr).2
        rw [Inbox.droppable, Bool.and_eq_true] at hdroppable
        exact ⟨hdroppable.1, row, rfl, hclass⟩
  | ordinary _ hqueue =>
      refine ⟨_, [], [], .row _, ?_, fun r hr => absurd hr List.not_mem_nil⟩
      rw [List.append_nil, List.append_nil]
      exact hone hqueue

/-- Nothing goes anywhere. -/
theorem Moved.stay {after : Inbox × Outcome} (hqueue : after.1.queue = s.queue)
    (hgiven : op.given s = []) (hreturned : after.2.returned = none)
    (hdrained : after.2.drained = [])
    (hcount : after.1.coalescedHeartbeatCount = s.coalescedHeartbeatCount) :
    Moved upper s op after [] [] [] where
  returns := by
    rw [hreturned]
    exact .nothing
  rows := by
    rw [hgiven, hdrained, hqueue, List.append_nil, List.append_nil, List.append_nil,
      List.append_nil]
  lost := fun r hr => absurd hr List.not_mem_nil
  counted := by
    refine .stays hcount (not_beats_none hreturned) hdrained
      (fun r hr => absurd hr List.not_mem_nil) fun fresh m hop _ hsealed => ?_
    rw [hop, InboxOp.given, hsealed] at hgiven
    cases hgiven

theorem moved_pushDeferred (hsealed : s.ingressSealed = false)
    (hdeferred : isWorkingDeferredTaskNotification m = true)
    (hcount : s'.coalescedHeartbeatCount = s.coalescedHeartbeatCount)
    (hsame : ∀ {queue}, Enqueued upper s' m queue → Enqueued upper s m queue) :
    ∃ handed merged gone,
      Moved upper s (.tryPush fresh m) (s'.pushDeferred upper fresh m) handed merged gone := by
  have hgiven : (InboxOp.tryPush fresh m).given s = [m] := by
    rw [InboxOp.given, hsealed]
    rfl
  obtain ⟨gone, hrows, hgone⟩ : ∃ gone, (s.queue ++ [m]).Perm
      ((s'.enqueueMessage upper m).queue ++ gone) ∧
        ∀ r ∈ gone, Replaced upper (.tryPush fresh m) r := (hsame (enqueued upper s' m).1).rows
  have hflags := (enqueued upper s' m).2.coalesced.trans hcount
  -- the message is a notice
  have halone : ∀ fresh' m', InboxOp.tryPush fresh m = .tryPush fresh' m' →
      isHeartbeat m' = true → s.ingressSealed = false → ∀ r ∈ s.queue, isHeartbeat r = false := by
    intro fresh' m' hop hm'
    cases hop
    rw [isHeartbeat_of_deferred hdeferred] at hm'
    cases hm'
  rw [Inbox.pushDeferred]
  split_ifs
  · have hadmission := admission upper fresh (s'.enqueueMessage upper m)
    obtain ⟨handed, merged, hreturns, hadmitted⟩ := hadmission.rows
    obtain ⟨hsamecount, hquiet⟩ := hadmission.quiet
    generalize (s'.enqueueMessage upper m).takeWorkingDeferredAdmission upper fresh = o
      at hreturns hadmitted hsamecount hquiet
    obtain ⟨x, s₂⟩ := o
    have hall : (s.queue ++ (InboxOp.tryPush fresh m).given s).Perm
        (s₂.queue ++ (handed ++ []) ++ (merged ++ gone)) := by
      rw [hgiven, List.append_nil, ← List.append_assoc]
      exact hrows.trans (hadmitted.append_right gone)
    cases x with
    | none =>
        exact ⟨handed, merged, gone, hreturns, hall, fun r hr => .inl (hgone r hr),
          .stays (hsamecount.trans hflags) (not_beats_none rfl) rfl
            (fun r hr => (hgone r hr).quiet) halone⟩
    | some x =>
        refine ⟨handed, merged, gone, hreturns, hall, fun r hr => .inl (hgone r hr),
          .stays (hsamecount.trans hflags) ?_ rfl (fun r hr => (hgone r hr).quiet) halone⟩
        rintro ⟨y, hy, hheartbeat⟩
        rw [hquiet y hy] at hheartbeat
        cases hheartbeat
  · refine ⟨[], [], gone, .nothing, ?_, fun r hr => .inl (hgone r hr),
      .stays hflags (not_beats_none rfl) rfl (fun r hr => (hgone r hr).quiet) halone⟩
    rw [hgiven]
    show (s.queue ++ [m]).Perm ((s'.enqueueMessage upper m).queue ++ [] ++ gone)
    rwa [List.append_nil]

theorem moved_tryPush (upper : Text → Text) (s : Inbox) (fresh : Fresh) (m : InboundMessage) :
    ∃ handed merged gone,
      Moved upper s (.tryPush fresh m) (s.tryPush upper fresh m) handed merged gone := by
  have hsame : ∀ {queue}, Enqueued upper { s with admissionVersion := s.admissionVersion + 1 } m
      queue → Enqueued upper s m queue := enqueued_version
  rw [Inbox.tryPush]
  by_cases hsealed : s.ingressSealed = true
  · rw [if_pos hsealed]
    exact ⟨[], [], [], .stay rfl (if_pos hsealed) rfl rfl rfl⟩
  have hgiven : (InboxOp.tryPush fresh m).given s = [m] := if_neg hsealed
  rw [if_neg hsealed]
  dsimp only
  split_ifs with hdeferred hwaiting hheartbeat hcoalesced
  · exact moved_pushDeferred (eq_false_of_ne_true hsealed) hdeferred rfl hsame
  · refine ⟨[m], [], s.queue.filter s.droppable, .row m, ?_, fun r hr => .inr (.inl ?_),
      .waited rfl hwaiting ⟨m, rfl, decide_eq_true hheartbeat⟩⟩
    · have hparts := (List.filter_append_perm s.droppable s.queue).symm.append_right [m]
      rw [hgiven]
      refine hparts.trans ?_
      rw [List.append_assoc]
      exact List.perm_append_comm.trans (List.Perm.refl _)
    · have hdroppable := (List.mem_filter.mp hr).2
      rw [Inbox.droppable, Bool.and_eq_true] at hdroppable
      exact ⟨hdroppable.1, m, rfl, hheartbeat⟩
  · have hordinary : isHeartbeat m = false := decide_eq_false hheartbeat
    refine ⟨[m], [], [], .row m, ?_, fun r hr => absurd hr List.not_mem_nil,
      .stays rfl ?_ rfl (fun r hr => absurd hr List.not_mem_nil) ?_⟩
    · rw [hgiven]
      show (s.queue ++ [m]).Perm (s.queue ++ [m] ++ [])
      rw [List.append_nil]
    · rintro ⟨x, hx, hbeats⟩
      cases hx
      rw [hordinary] at hbeats
      cases hbeats
    · intro fresh' m' hop hm'
      cases hop
      rw [hordinary] at hm'
      cases hm'
  · refine ⟨[], [], [m], .nothing, ?_, fun r hr => .inr (.inr ?_),
      .grows rfl (eq_false_of_ne_true hsealed) (decide_eq_true hcoalesced.1) rfl rfl rfl ?_⟩
    · rw [hgiven]
      show (s.queue ++ [m]).Perm (s.queue ++ [] ++ [m])
      rw [List.append_nil]
    · rw [List.mem_singleton.mp hr]
      exact ⟨hcoalesced.1, fresh, rfl⟩
    · obtain ⟨r, hr, hclass⟩ := List.any_eq_true.mp hcoalesced.2
      exact ⟨r, hr, hclass⟩
  · have henqueued := enqueued upper { s with admissionVersion := s.admissionVersion + 1 } m
    obtain ⟨gone, hrows, hgone⟩ : ∃ gone, (s.queue ++ [m]).Perm
        (({ s with admissionVersion := s.admissionVersion + 1 }.enqueueMessage upper m).queue ++
          gone) ∧ ∀ r ∈ gone, Replaced upper (.tryPush fresh m) r := (hsame henqueued.1).rows
    refine ⟨[], [], gone, .nothing, ?_, fun r hr => .inl (hgone r hr),
      .stays henqueued.2.coalesced (not_beats_none rfl) rfl (fun r hr => (hgone r hr).quiet) ?_⟩
    · rw [hgiven]
      show (s.queue ++ [m]).Perm (_ ++ [] ++ gone)
      rwa [List.append_nil]
    · intro fresh' m' hop hm' _ r hr
      cases hop
      rw [Bool.eq_false_iff]
      intro hheartbeat
      exact hcoalesced ⟨of_decide_eq_true hm', List.any_eq_true.mpr ⟨r, hr, hheartbeat⟩⟩

theorem moved_pushFront {messages : List InboundMessage} (hgiven : op.given s = messages)
    (hop : ∀ fresh m, op ≠ .tryPush fresh m) (h : s'.queue = s.queue)
    (hcount : s'.coalescedHeartbeatCount = s.coalescedHeartbeatCount)
    (hwait : s'.waiting = s.waiting) :
    ∃ handed, Moved upper s op (s'.pushFront messages) handed [] [] := by
  cases messages with
  | nil => exact ⟨[], .stay h hgiven rfl rfl hcount⟩
  | cons first rest =>
      obtain ⟨places, heq⟩ := pushFront_cons s' first rest
      rw [heq]
      split_ifs with hwaiting
      · refine ⟨[first], .row first, ?_, fun r hr => absurd hr List.not_mem_nil, ?_⟩
        · rw [hgiven]
          show (s.queue ++ first :: rest).Perm (rest ++ s'.queue ++ [first] ++ [])
          rw [h, List.append_nil]
          refine List.perm_append_comm.trans ?_
          exact (List.perm_append_singleton first (rest ++ s.queue)).symm
        · cases hfirst : isHeartbeat first with
          | true => exact .waited hcount (hwait ▸ hwaiting) ⟨first, rfl, hfirst⟩
          | false =>
              refine .stays hcount ?_ rfl (fun r hr => absurd hr List.not_mem_nil)
                fun fresh m h => absurd h (hop fresh m)
              rintro ⟨x, hx, hbeats⟩
              cases hx
              rw [hfirst] at hbeats
              cases hbeats
      · refine ⟨[], .nothing, ?_, fun r hr => absurd hr List.not_mem_nil,
          .stays hcount (not_beats_none rfl) rfl (fun r hr => absurd hr List.not_mem_nil)
            fun fresh m h => absurd h (hop fresh m)⟩
        rw [hgiven]
        show (s.queue ++ first :: rest).Perm (first :: rest ++ s'.queue ++ [] ++ [])
        rw [h, List.append_nil, List.append_nil]
        exact List.perm_append_comm

theorem moved_next (upper : Text → Text) (s : Inbox) (fresh : Fresh) :
    ∃ handed merged gone,
      Moved upper s (.next fresh) (s.next upper fresh) handed merged gone := by
  have htaken := taken upper fresh s
  obtain ⟨handed, merged, gone, hreturns, hrows, hgone⟩ := htaken.rows
  have hcounts := htaken.counts
  rw [Inbox.next]
  generalize s.takeAdmissible upper fresh = o at hreturns hrows hgone hcounts
  obtain ⟨x, s₂⟩ := o
  have hall : (s.queue ++ (InboxOp.next fresh).given s).Perm
      (s₂.queue ++ (handed ++ []) ++ (merged ++ gone)) := by
    rw [List.append_nil]
    exact (List.append_nil s.queue).symm ▸ hrows
  have hquiet : ∀ r ∈ gone, isHeartbeat r = false :=
    fun r hr => isHeartbeat_of_deferred (hgone r hr).1
  cases x with
  | none =>
      refine ⟨handed, merged, gone, hreturns, hall, fun r hr => ?_, ?_⟩
      · obtain ⟨-, x, hx, -⟩ := hgone r hr
        cases hx
      · rcases hcounts with ⟨hcount, -⟩ | ⟨-, x, hx, -⟩ | ⟨row, hrow, hmark, hheartbeat⟩
        · exact .stays hcount (not_beats_none rfl) rfl hquiet fun _ _ h => by cases h
        · cases hx
        · exact .resumed hrow hmark hheartbeat
  | some x =>
      refine ⟨handed, merged, gone, hreturns, hall, fun r hr => .inr (.inl ?_), ?_⟩
      · obtain ⟨hdeferred, y, hy, hclass⟩ := hgone r hr
        exact ⟨hdeferred, y, hy, hclass⟩
      · rcases hcounts with ⟨hcount, hnone⟩ | ⟨hcount, hbeats⟩ | ⟨row, hrow, hmark, hheartbeat⟩
        · refine .stays hcount ?_ rfl hquiet fun _ _ h => by cases h
          rintro ⟨y, hy, hbeats⟩
          rw [hnone y hy] at hbeats
          cases hbeats
        · exact .ends hcount (.inr ⟨rfl, hbeats⟩)
        · exact .resumed hrow hmark hheartbeat

theorem moved_drainForRecovery (upper : Text → Text) (s : Inbox) :
    Moved upper s .drainForRecovery s.drainForRecovery [] [] [] where
  returns := .nothing
  rows := by
    show (s.queue ++ []).Perm ([] ++ ([] ++ s.drainForRecovery.2.drained) ++ ([] ++ []))
    rw [List.append_nil, List.append_nil, List.append_nil, List.nil_append, List.nil_append]
    exact (List.perm_insertionSort _ s.queue).symm
  lost := fun r hr => absurd hr List.not_mem_nil
  counted := .ends rfl (.inl rfl)

theorem moved (upper : Text → Text) (s : Inbox) (op : InboxOp) :
    ∃ handed merged gone, Moved upper s op (s.call upper op) handed merged gone := by
  cases op with
  | tryPush fresh m => exact moved_tryPush upper s fresh m
  | pushFront messages =>
      have hmoved : ∃ handed, Moved upper s (.pushFront messages) (s.pushFront messages)
          handed [] [] := moved_pushFront rfl (fun _ _ h => by cases h) rfl rfl rfl
      exact hmoved.imp fun handed hmoved => ⟨[], [], hmoved⟩
  | resumeAdmitted messages =>
      have hmoved : ∃ handed, Moved upper s (.resumeAdmitted messages)
          (s.resumeAdmitted messages) handed [] [] :=
        moved_pushFront rfl (fun _ _ h => by cases h) rfl rfl rfl
      exact hmoved.imp fun handed hmoved => ⟨[], [], hmoved⟩
  | next fresh => exact moved_next upper s fresh
  | drainForRecovery => exact ⟨[], [], [], moved_drainForRecovery upper s⟩
  | sealIngress | unsealIngress => exact ⟨[], [], [], .stay rfl rfl rfl rfl rfl⟩

end Shizuha.Gateway
