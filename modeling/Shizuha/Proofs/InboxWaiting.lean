import Shizuha.Proofs.Inbox
import Shizuha.Machine

/-!
# A consumer that waits has nothing to take

While a consumer waits, every row of the queue is parked: a message that is not
a notice resolves the wait, and a notice is let in unless the work session or
its being an alert holds it. The flags that decide this change only in calls
that end the wait.

The exception is a row that was resumed while the consumer waited. It is handed
over at once, and its mark stays. When the same message comes in again as a
notice, the mark keeps it from being let in, and `next` would take it.
-/

namespace Shizuha.Gateway

open Js Machine

/-- No call of `next` would get a message. -/
def NothingToTake (upper : Text → Text) (s : Inbox) : Prop :=
  ∀ fresh, (s.takeAdmissible upper fresh).1 = none

/-- Notices only, each an alert or held by the work session, and none of them
admitted before. -/
def OnlyParked (s : Inbox) : Prop :=
  ∀ r ∈ s.queue, s.isContinuation r = false ∧ s.parked r = true

def NeverStranded (upper : Text → Text) (s : Inbox) : Prop :=
  s.waiting = true → NothingToTake upper s ∧ OnlyParked s

/-- A notice comes in, with the mark of an earlier admission. -/
def MarkedNotice (s : Inbox) : InboxOp → Prop
  | .tryPush _ m => s.ingressSealed = false ∧ s.waiting = true ∧
      isWorkingDeferredTaskNotification m = true ∧ s.isContinuation m = true
  | _ => False

variable {upper : Text → Text} {fresh : Fresh} {s s' : Inbox} {m row : InboundMessage}

theorem nothingToTake_iff : NothingToTake upper s ↔ OnlyParked s := by
  constructor
  · intro h
    have hnone := h ⟨0, 0⟩
    have htaken := taken upper ⟨0, 0⟩ s
    generalize s.takeAdmissible upper ⟨0, 0⟩ = o at hnone htaken
    cases htaken with
    | nothing hfirst hparked => exact fun r hr => ⟨hfirst r hr, hparked r hr⟩
    | continuation | heartbeat | ordinary => cases hnone
    | admitted _ hqueue _ hholds _ ho =>
        obtain ⟨x, rfl⟩ := ho.isSome (by simp [hqueue]) hholds
        cases hnone
  · intro h fresh
    have htaken := taken upper fresh s
    generalize s.takeAdmissible upper fresh = o at htaken
    cases htaken with
    | nothing => rfl
    | continuation hqueue hrow =>
        have hnot := (h _ (mem_of_split hqueue)).1
        rw [hrow] at hnot
        cases hnot
    | admitted _ hqueue _ hholds hidle =>
        obtain ⟨-, hworking | halert⟩ := parked_iff.mp (h _ (mem_of_split hqueue)).2
        · rw [hidle] at hworking
          cases hworking
        · rw [(holds_iff.mp hholds).2.2] at halert
          cases halert
    | heartbeat _ hqueue _ hrow | ordinary _ hqueue _ hrow =>
        have hdeferred := (parked_iff.mp (h _ (mem_of_split hqueue)).2).1
        rw [hrow] at hdeferred
        cases hdeferred

/-- Whoever does not wait is not stranded. -/
theorem neverStranded_of_not_waiting (h : s.waiting = false) : NeverStranded upper s := by
  intro hwaiting
  rw [h] at hwaiting
  cases hwaiting

theorem neverStranded_iff (h : s.waiting = true) : NeverStranded upper s ↔ OnlyParked s := by
  constructor
  · exact fun hnever => (hnever h).2
  · exact fun hparked _ => ⟨nothingToTake_iff.mpr hparked, hparked⟩

/-- What `OnlyParked` looks at. -/
theorem OnlyParked.congr (h : OnlyParked s) (hqueue : ∀ r ∈ s'.queue, r ∈ s.queue)
    (hcontinuations : s'.admittedContinuations = s.admittedContinuations)
    (hworking : s'.workSessionActive = s.workSessionActive) : OnlyParked s' := by
  intro r hr
  obtain ⟨hfirst, hparked⟩ := h r (hqueue r hr)
  rw [Inbox.isContinuation, hcontinuations, Inbox.parked, hworking]
  exact ⟨hfirst, hparked⟩

/-! ## One call -/

/-- A notice that comes in while the consumer waits. -/
theorem neverStranded_pushDeferred_iff (hnever : NeverStranded upper s)
    (hdeferred : isWorkingDeferredTaskNotification m = true) :
    NeverStranded upper (s.pushDeferred upper fresh m).1 ↔
      ¬ (s.waiting = true ∧ s.isContinuation m = true) := by
  obtain ⟨henqueued, hflags⟩ := enqueued upper s m
  rw [Inbox.pushDeferred]
  generalize s.enqueueMessage upper m = e at henqueued hflags
  obtain ⟨hm, hothers⟩ := henqueued.mem
  have hmark (r : InboundMessage) : e.isContinuation r = s.isContinuation r := by
    rw [Inbox.isContinuation, hflags.continuations, Inbox.isContinuation]
  cases hwaiting : s.waiting with
  | false =>
      have hstill : e.waiting = false := hflags.waiting.trans hwaiting
      simp only [hstill, Bool.false_and, Bool.false_eq_true, if_false]
      exact iff_of_true (neverStranded_of_not_waiting hstill) (by simp)
  | true =>
      have hstill : e.waiting = true := hflags.waiting.trans hwaiting
      have hparked : OnlyParked s := (hnever hwaiting).2
      cases hcontinuation : s.isContinuation m with
      | true =>
          -- the mark keeps the notice out of what is held, and nothing else is held
          have hstranded : ¬ NeverStranded upper e := by
            intro hsafe
            have hfirst := ((hsafe hstill).2 m hm).1
            rw [hmark, hcontinuation] at hfirst
            cases hfirst
          have hnone (hidle : e.workSessionActive = false) : e.queue.filter e.holds = [] := by
            refine List.filter_eq_nil_iff.mpr fun r hr hholds => ?_
            obtain ⟨-, hfirst, halert⟩ := holds_iff.mp hholds
            rcases hothers r hr with rfl | hold
            · rw [hmark, hcontinuation] at hfirst
              cases hfirst
            · obtain ⟨-, hworking | halert'⟩ := parked_iff.mp (hparked r hold).2
              · rw [← hflags.working, hidle] at hworking
                cases hworking
              · rw [halert] at halert'
                cases halert'
          refine iff_of_false ?_ (by simp)
          split
          · next hguard =>
              rw [Bool.and_eq_true, Bool.and_eq_true, Bool.not_eq_true', Bool.not_eq_true'] at hguard
              have hadmission := admission upper fresh e
              generalize e.takeWorkingDeferredAdmission upper fresh = o at hadmission
              cases hadmission with
              | none => exact hstranded
              | one hheld | merged hheld =>
                  rw [hnone hguard.1.2] at hheld
                  cases hheld
          · exact hstranded
      | false =>
          refine iff_of_true ?_ (by simp)
          split
          · next hguard =>
              rw [Bool.and_eq_true, Bool.and_eq_true, Bool.not_eq_true', Bool.not_eq_true'] at hguard
              have hholds : e.holds m = true :=
                holds_iff.mpr ⟨hdeferred, (hmark m).trans hcontinuation, hguard.2⟩
              obtain ⟨x, heq⟩ := (admission upper fresh e).isSome hm hholds
              rw [heq]
              exact neverStranded_of_not_waiting rfl
          · next hguard =>
              refine (neverStranded_iff hstill).mpr fun r hr => ?_
              rcases hothers r hr with rfl | hold
              · refine ⟨(hmark r).trans hcontinuation, parked_iff.mpr ⟨hdeferred, ?_⟩⟩
                by_contra hneither
                rw [not_or, Bool.not_eq_true, Bool.not_eq_true] at hneither
                exact hguard (by simp [hstill, hneither.1, hneither.2])
              · obtain ⟨hfirst, hpark⟩ := hparked r hold
                refine ⟨(hmark r).trans hfirst, ?_⟩
                rw [Inbox.parked, hflags.working]
                exact hpark

theorem neverStranded_tryPush_iff (h : NeverStranded upper s) :
    NeverStranded upper (inboxStep upper s (.tryPush fresh m)) ↔
      ¬ MarkedNotice s (.tryPush fresh m) := by
  show NeverStranded upper (s.tryPush upper fresh m).1 ↔ _
  rw [Inbox.tryPush]
  by_cases hsealed : s.ingressSealed = true
  · rw [if_pos hsealed]
    exact iff_of_true h (by simp [MarkedNotice, hsealed])
  rw [if_neg hsealed]
  obtain ⟨s₁, hs₁⟩ : ∃ s₁, s₁ = { s with admissionVersion := s.admissionVersion + 1 } := ⟨_, rfl⟩
  rw [← hs₁]
  have hwait : s₁.waiting = s.waiting := by rw [hs₁]
  have hcounted : NeverStranded upper s₁ := by
    rw [hs₁]
    exact fun hwaiting => ⟨nothingToTake_iff.mpr (h hwaiting).2, (h hwaiting).2⟩
  cases hdeferred : isWorkingDeferredTaskNotification m with
  | true =>
      have hmark : s₁.isContinuation m = s.isContinuation m := by
        rw [hs₁, Inbox.isContinuation, Inbox.isContinuation]
      simp only [if_true]
      rw [neverStranded_pushDeferred_iff hcounted hdeferred, hwait, hmark]
      simp [MarkedNotice, hsealed, hdeferred]
  | false =>
      refine iff_of_true ?_ (by simp [MarkedNotice, hdeferred])
      simp only [Bool.false_eq_true, if_false]
      split_ifs with hwaiting hclass hcoalesced
      · exact neverStranded_of_not_waiting rfl
      · exact neverStranded_of_not_waiting rfl
      · exact neverStranded_of_not_waiting (eq_false_of_ne_true hwaiting)
      · exact neverStranded_of_not_waiting
          ((enqueued upper s₁ m).2.waiting.trans (eq_false_of_ne_true hwaiting))

/-- What is put in front ends the wait. -/
theorem neverStranded_pushFront (h : NeverStranded upper s) (messages : List InboundMessage) :
    NeverStranded upper (s.pushFront messages).1 := by
  cases messages with
  | nil => exact h
  | cons first rest =>
      obtain ⟨places, heq⟩ := pushFront_cons s first rest
      rw [heq]
      split_ifs with hwaiting
      · exact neverStranded_of_not_waiting rfl
      · exact neverStranded_of_not_waiting (eq_false_of_ne_true hwaiting)

theorem neverStranded_resumeAdmitted (h : NeverStranded upper s)
    (messages : List InboundMessage) : NeverStranded upper (s.resumeAdmitted messages).1 := by
  rw [Inbox.resumeAdmitted]
  cases messages with
  | nil => exact h
  | cons first rest =>
      obtain ⟨places, heq⟩ := pushFront_cons { s with
        admittedContinuations :=
          (first :: rest).map InboundMessage.ref ++ s.admittedContinuations } first rest
      rw [heq]
      split_ifs with hwaiting
      · exact neverStranded_of_not_waiting rfl
      · exact neverStranded_of_not_waiting (eq_false_of_ne_true hwaiting)

/-- A wait begins when there was nothing to take. -/
theorem neverStranded_next (h : NeverStranded upper s) :
    NeverStranded upper (s.next upper fresh).1 := by
  rw [Inbox.next]
  have htaken := taken upper fresh s
  cases hwaiting : s.waiting with
  | true =>
      have hnone := (h hwaiting).1 fresh
      generalize s.takeAdmissible upper fresh = o at htaken hnone
      obtain ⟨x, s'⟩ := o
      obtain rfl : x = none := hnone
      cases htaken with
      | nothing hfirst hparked =>
          exact (neverStranded_iff rfl).mpr fun r hr => ⟨hfirst r hr, hparked r hr⟩
      | admitted _ hqueue _ hholds _ ho =>
          obtain ⟨x, heq⟩ := ho.isSome (mem_of_split hqueue) hholds
          cases heq
  | false =>
      generalize s.takeAdmissible upper fresh = o at htaken
      obtain ⟨x, s'⟩ := o
      cases x with
      | some x => exact neverStranded_of_not_waiting (htaken.waiting.trans hwaiting)
      | none =>
          cases htaken with
          | nothing hfirst hparked =>
              exact (neverStranded_iff rfl).mpr fun r hr => ⟨hfirst r hr, hparked r hr⟩
          | admitted _ hqueue _ hholds _ ho =>
              obtain ⟨x, heq⟩ := ho.isSome (mem_of_split hqueue) hholds
              cases heq

theorem neverStranded_step_iff (h : NeverStranded upper s) (op : InboxOp) :
    NeverStranded upper (inboxStep upper s op) ↔ ¬ MarkedNotice s op := by
  cases op with
  | tryPush fresh m => exact neverStranded_tryPush_iff h
  | pushFront messages => exact iff_of_true (neverStranded_pushFront h messages) id
  | resumeAdmitted messages => exact iff_of_true (neverStranded_resumeAdmitted h messages) id
  | next fresh => exact iff_of_true (neverStranded_next h) id
  | drainForRecovery =>
      have hempty : OnlyParked (inboxStep upper s .drainForRecovery) :=
        fun r hr => absurd hr List.not_mem_nil
      exact iff_of_true (fun _ => ⟨nothingToTake_iff.mpr hempty, hempty⟩) id
  | sealIngress | unsealIngress =>
      exact iff_of_true (fun hwaiting => ⟨nothingToTake_iff.mpr (h hwaiting).2, (h hwaiting).2⟩) id

/-- No wake-up is lost, in exactly the runs in which no notice comes in with the
mark of an earlier admission while the consumer waits. -/
theorem inbox_never_strands_iff (upper : Text → Text) (ops : List InboxOp) :
    Throughout (inboxStep upper) (NeverStranded upper) .empty ops ↔
      Along (inboxStep upper) (fun s op => ¬ MarkedNotice s op) .empty ops :=
  throughout_iff_along (fun _ op h => neverStranded_step_iff h op)
    (neverStranded_of_not_waiting rfl)

/-! ## A notice that comes back -/

/-- A task notice. -/
def assigned : InboundMessage :=
  ⟨1, js "m1", none, some (js "[system] [Task Assigned] PLS-7"), 0, none⟩

/-- It is handed to the waiting consumer as a continuation, and pushed again. -/
def noticeReturns : List InboxOp :=
  [.next ⟨0, 10⟩, .resumeAdmitted [assigned], .next ⟨0, 11⟩, .tryPush ⟨0, 12⟩ assigned]

theorem assigned_deferred : isWorkingDeferredTaskNotification assigned = true := by decide

theorem marked_notice_stranded :
    ¬ Throughout (inboxStep id) (NeverStranded id) .empty noticeReturns := by
  rintro ⟨-, -, -, hwaits, hstranded⟩
  exact (neverStranded_step_iff hwaits _).mp hstranded ⟨rfl, rfl, assigned_deferred, rfl⟩

end Shizuha.Gateway
