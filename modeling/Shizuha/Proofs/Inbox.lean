import Shizuha.Gateway.Inbox
import Shizuha.KeySorted

/-!
# What the calls of the inbox do

Three parts of the inbox decide what happens to the queue: putting a message
in, letting the held notices in together, and taking the next message. Each has
one lemma that says in cases what it does, with the queue split where it acts,
and everything about the inbox is a case analysis over these.
-/

namespace Shizuha.Gateway

open Js

variable {upper : Text → Text} {fresh : Fresh} {s s' : Inbox} {m row x : InboundMessage}

/-- A notice that waits: for the work session to end, or, an alert, for good. -/
def Inbox.parked (s : Inbox) (row : InboundMessage) : Bool :=
  isWorkingDeferredTaskNotification row &&
    (s.workSessionActive || isConnectAlertNotificationContent row.content)

theorem parked_iff : s.parked row = true ↔ isWorkingDeferredTaskNotification row = true ∧
    (s.workSessionActive = true ∨ isConnectAlertNotificationContent row.content = true) := by
  rw [Inbox.parked, Bool.and_eq_true, Bool.or_eq_true]

theorem holds_iff : s.holds row = true ↔ isWorkingDeferredTaskNotification row = true ∧
    s.isContinuation row = false ∧ isConnectAlertNotificationContent row.content = false := by
  rw [Inbox.holds, Inbox.droppable, Bool.and_eq_true, Bool.and_eq_true, Bool.not_eq_true',
    Bool.not_eq_true', and_assoc]

theorem mem_of_split {l before after : List InboundMessage} (h : l = before ++ row :: after) :
    row ∈ l := by
  rw [h]
  simp

/-! ## Putting a message in -/

/-- Everything but the queue and the places. -/
structure SameFlags (s s' : Inbox) : Prop where
  continuations : s'.admittedContinuations = s.admittedContinuations
  waiting : s'.waiting = s.waiting
  coalesced : s'.coalescedHeartbeatCount = s.coalescedHeartbeatCount
  sealed : s'.ingressSealed = s.ingressSealed
  working : s'.workSessionActive = s.workSessionActive

inductive Enqueued (upper : Text → Text) (s : Inbox) (m : InboundMessage)
    (queue : List InboundMessage) : Prop where
  | placed {before after : List InboundMessage} (hqueue : s.queue = before ++ after)
      (hplaced : queue = before ++ m :: after)
      (hbefore : ∀ r ∈ before, gatewayInboxPriority r ≤ gatewayInboxPriority m)
      (hafter : ∀ r ∈ after.head?, gatewayInboxPriority m < gatewayInboxPriority r)
  | replaced {before after : List InboundMessage} {row : InboundMessage}
      (hqueue : s.queue = before ++ row :: after) (hplaced : queue = before ++ m :: after)
      (hrow : s.isContinuation row = false)
      (hkey : gatewayTaskNotificationKey upper row = gatewayTaskNotificationKey upper m)
      (hsome : gatewayTaskNotificationKey upper m ≠ none)

/-- Only notices have a key. -/
theorem class_of_key (h : gatewayTaskNotificationKey upper m ≠ none) :
    gatewayInboxClass m = .routineTask := by
  by_contra hclass
  rw [gatewayTaskNotificationKey, if_pos hclass] at h
  exact h rfl

theorem insertByPriority_split (m : InboundMessage) (queue : List InboundMessage) :
    ∃ before after, queue = before ++ after ∧ insertByPriority m queue = before ++ m :: after ∧
      (∀ r ∈ before, gatewayInboxPriority r ≤ gatewayInboxPriority m) ∧
      ∀ r ∈ after.head?, gatewayInboxPriority m < gatewayInboxPriority r := by
  rw [insertByPriority]
  split
  · next hnone =>
      refine ⟨queue, [], (List.append_nil _).symm, rfl, fun r hr => ?_, by simp⟩
      simpa using List.findIdx?_eq_none_iff.mp hnone r hr
  · next i hfound =>
      obtain ⟨a, e, b, rfl, rfl, he, ha⟩ := findIdx?_first hfound
      refine ⟨a, e :: b, rfl, by simp, fun r hr => by simpa using ha r hr, fun r hr => ?_⟩
      rw [List.head?_cons, Option.mem_some_iff] at hr
      rw [← hr]
      exact of_decide_eq_true he

theorem enqueued (upper : Text → Text) (s : Inbox) (m : InboundMessage) :
    Enqueued upper s m (s.enqueueMessage upper m).queue ∧
      SameFlags s (s.enqueueMessage upper m) := by
  rw [Inbox.enqueueMessage]
  split
  · next i hduplicate =>
      rw [Inbox.duplicateIndex] at hduplicate
      split at hduplicate
      · cases hduplicate
      · cases hduplicate
      · next taskKey _ hkey =>
          obtain ⟨a, e, b, hqueue, rfl, he, -⟩ := findIdx?_first hduplicate
          rw [Bool.and_eq_true, decide_eq_true_eq] at he
          have hget : s.queue[a.length]? = some e := by rw [hqueue]; simp
          have hset : s.queue.set a.length m = a ++ m :: b := by rw [hqueue, set_split]
          have hreplaced : Enqueued upper s m (s.queue.set a.length m) :=
            .replaced hqueue hset (by simpa using he.1) (he.2.trans hkey.symm) (by simp [hkey])
          rw [hget]
          dsimp only
          split <;> exact ⟨hreplaced, rfl, rfl, rfl, rfl, rfl⟩
  · obtain ⟨before, after, hqueue, hplaced, hbefore, hafter⟩ := insertByPriority_split m s.queue
    exact ⟨.placed hqueue hplaced hbefore hafter, rfl, rfl, rfl, rfl, rfl⟩

theorem Enqueued.mem {queue : List InboundMessage} (h : Enqueued upper s m queue) :
    m ∈ queue ∧ ∀ r ∈ queue, r = m ∨ r ∈ s.queue := by
  cases h with
  | placed hqueue hplaced =>
      rw [hplaced, hqueue]
      simp only [List.mem_append, List.mem_cons]
      tauto
  | replaced hqueue hplaced =>
      rw [hplaced, hqueue]
      simp only [List.mem_append, List.mem_cons]
      tauto

/-! ## Letting the notices in -/

inductive Admission (upper : Text → Text) (fresh : Fresh) (s : Inbox) :
    Option InboundMessage × Inbox → Prop where
  | none (hheld : s.queue.filter s.holds = []) : Admission upper fresh s (none, s)
  | one {row : InboundMessage} (hheld : s.queue.filter s.holds = [row]) :
      Admission upper fresh s
        (some row, { s with queue := s.queue.filter fun r => !s.holds r })
  | merged {first second : InboundMessage} {rest : List InboundMessage}
      (hheld : s.queue.filter s.holds = first :: second :: rest) :
      Admission upper fresh s
        (some (digest upper fresh first (first :: second :: rest)),
          { s with queue := s.queue.filter fun r => !s.holds r })

theorem admission (upper : Text → Text) (fresh : Fresh) (s : Inbox) :
    Admission upper fresh s (s.takeWorkingDeferredAdmission upper fresh) := by
  rw [Inbox.takeWorkingDeferredAdmission]
  split
  · next hheld => exact .none hheld
  · next hheld => exact .one hheld
  · next first rest hone hheld =>
      cases rest with
      | nil => exact absurd rfl hone
      | cons second rest => exact .merged hheld

/-- Something is let in when something is held. -/
theorem Admission.isSome {o : Option InboundMessage × Inbox} (h : Admission upper fresh s o)
    (hmem : row ∈ s.queue) (hholds : s.holds row = true) :
    ∃ x, o = (some x, { s with queue := s.queue.filter fun r => !s.holds r }) := by
  cases h with
  | none hheld =>
      have hrow : row ∈ s.queue.filter s.holds := List.mem_filter.mpr ⟨hmem, hholds⟩
      rw [hheld] at hrow
      exact absurd hrow List.not_mem_nil
  | one => exact ⟨_, rfl⟩
  | merged => exact ⟨_, rfl⟩

/-! ## Taking the next message -/

inductive Taken (upper : Text → Text) (fresh : Fresh) (s : Inbox) :
    Option InboundMessage × Inbox → Prop where
  | nothing (hfirst : ∀ r ∈ s.queue, s.isContinuation r = false)
      (hparked : ∀ r ∈ s.queue, s.parked r = true) : Taken upper fresh s (none, s)
  | continuation {before after : List InboundMessage} {row : InboundMessage}
      (hqueue : s.queue = before ++ row :: after) (hrow : s.isContinuation row = true) :
      Taken upper fresh s
        (some row,
          { s with
            queue := before ++ after
            admittedContinuations := s.admittedContinuations.filter fun ref => row.ref ≠ ref })
  | admitted {before after : List InboundMessage} {row : InboundMessage}
      {o : Option InboundMessage × Inbox}
      (hfirst : ∀ r ∈ s.queue, s.isContinuation r = false)
      (hqueue : s.queue = before ++ row :: after) (hparked : ∀ r ∈ before, s.parked r = true)
      (hholds : s.holds row = true) (hidle : s.workSessionActive = false)
      (ho : Admission upper fresh s o) : Taken upper fresh s o
  | heartbeat {before after : List InboundMessage} {row : InboundMessage}
      (hfirst : ∀ r ∈ s.queue, s.isContinuation r = false)
      (hqueue : s.queue = before ++ row :: after) (hparked : ∀ r ∈ before, s.parked r = true)
      (hrow : isWorkingDeferredTaskNotification row = false)
      (hclass : gatewayInboxClass row = .heartbeat) :
      Taken upper fresh s
        (some row,
          { s with
            queue := (before ++ after).filter fun r => !s.droppable r
            workSessionActive := false
            coalescedHeartbeatCount := 0 })
  | ordinary {before after : List InboundMessage} {row : InboundMessage}
      (hfirst : ∀ r ∈ s.queue, s.isContinuation r = false)
      (hqueue : s.queue = before ++ row :: after) (hparked : ∀ r ∈ before, s.parked r = true)
      (hrow : isWorkingDeferredTaskNotification row = false)
      (hclass : gatewayInboxClass row ≠ .heartbeat) :
      Taken upper fresh s
        (some row, { s with queue := before ++ after, workSessionActive := true })

theorem takenFrom (hfirst : ∀ r ∈ s.queue, s.isContinuation r = false)
    (before rows : List InboundMessage) (hqueue : s.queue = before ++ rows)
    (hparked : ∀ r ∈ before, s.parked r = true) :
    Taken upper fresh s (s.takeFrom upper fresh before.length rows) := by
  induction rows generalizing before with
  | nil =>
      rw [Inbox.takeFrom]
      rw [List.append_nil] at hqueue
      exact .nothing hfirst (hqueue ▸ hparked)
  | cons row rest ih =>
      have hmore (hrow : s.parked row = true) :
          Taken upper fresh s (s.takeFrom upper fresh (before.length + 1) rest) := by
        have hnext := ih (before ++ [row]) (by rw [hqueue, List.append_assoc]; rfl)
          (by simpa [or_imp, forall_and] using ⟨hparked, hrow⟩)
        rwa [List.length_append] at hnext
      rw [Inbox.takeFrom]
      split_ifs with hdeferred hworking halert hclass
      · exact hmore (by simp [Inbox.parked, hdeferred, hworking])
      · exact hmore (by simp [Inbox.parked, hdeferred, halert])
      · have hrow : s.isContinuation row = false := hfirst row (by simp [hqueue])
        exact .admitted hfirst hqueue hparked
          (by simp [Inbox.holds, Inbox.droppable, hdeferred, hrow, halert])
          (eq_false_of_ne_true hworking) (admission upper fresh s)
      · have herase : s.queue.eraseIdx before.length = before ++ rest := by
          rw [hqueue, eraseIdx_split]
        have htaken : Taken upper fresh s _ :=
          .heartbeat hfirst hqueue hparked (eq_false_of_ne_true hdeferred) hclass
        rw [← herase] at htaken
        exact htaken
      · have herase : s.queue.eraseIdx before.length = before ++ rest := by
          rw [hqueue, eraseIdx_split]
        rw [herase]
        exact .ordinary hfirst hqueue hparked (eq_false_of_ne_true hdeferred) hclass

/-- `takeAdmissible` in cases. -/
theorem taken (upper : Text → Text) (fresh : Fresh) (s : Inbox) :
    Taken upper fresh s (s.takeAdmissible upper fresh) := by
  rw [Inbox.takeAdmissible]
  split
  · next i hfound =>
      obtain ⟨a, e, b, hqueue, rfl, he, -⟩ := findIdx?_first hfound
      have hget : s.queue[a.length]? = some e := by rw [hqueue]; simp
      have herase : s.queue.eraseIdx a.length = a ++ b := by rw [hqueue, eraseIdx_split]
      rw [hget, herase]
      simpa using Taken.continuation hqueue he
  · next hnone =>
      have hfirst (r : InboundMessage) (hr : r ∈ s.queue) : s.isContinuation r = false := by
        simpa using List.findIdx?_eq_none_iff.mp hnone r hr
      exact takenFrom hfirst [] s.queue rfl (by simp)

theorem Admission.waiting {o : Option InboundMessage × Inbox} (h : Admission upper fresh s o) :
    o.2.waiting = s.waiting := by
  cases h <;> rfl

theorem Taken.waiting {o : Option InboundMessage × Inbox} (h : Taken upper fresh s o) :
    o.2.waiting = s.waiting := by
  cases h with
  | admitted _ _ _ _ _ ho => exact ho.waiting
  | nothing | continuation | heartbeat | ordinary => rfl

/-! ## Putting messages in front -/

theorem arrived (messages : List (InboundMessage × ℕ)) (start : ℤ) (s : Inbox) :
    ∃ places, messages.foldl (fun s m => s.arrive m.1 (start + m.2)) s =
      { s with arrivalSequence := places } := by
  induction messages generalizing s with
  | nil => exact ⟨s.arrivalSequence, rfl⟩
  | cons m rest ih =>
      obtain ⟨places, heq⟩ := ih (s.arrive m.1 (start + m.2))
      exact ⟨places, by rw [List.foldl_cons, heq]; rfl⟩

/-- `pushFront` hands the first message to a consumer that waits, and puts the
others before the queue. -/
theorem pushFront_cons (s : Inbox) (first : InboundMessage) (rest : List InboundMessage) :
    ∃ places, s.pushFront (first :: rest) =
      if s.waiting = true then
        ({ s with arrivalSequence := places, waiting := false, queue := rest ++ s.queue },
          .handed first)
      else ({ s with arrivalSequence := places, queue := first :: rest ++ s.queue }, .nothing) := by
  obtain ⟨places, heq⟩ := arrived (first :: rest).zipIdx
    (s.earliestQueued - (first :: rest).length) s
  refine ⟨places, ?_⟩
  rw [Inbox.pushFront]
  simp only [heq]

end Shizuha.Gateway
