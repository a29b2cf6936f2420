import Shizuha.Proofs.Inbox
import Shizuha.Machine

/-!
# The order in which messages are taken

A push goes before the first row of a lower class, which is the right place in a
queue that is sorted. `pushFront` puts rows of any class at the front, and from
then on the first row of a lower class can be one of them, with rows of higher
classes behind it. A notice that replaces one of them has the same trouble.

What remains of the order is that a row which was not put in front has none of
a higher class behind it. It holds as long as no push goes in front of a row of
a higher class (`InPlace`), and `next` then takes the highest of the rows that
it does not pass over (`ReadyInOrder`).
-/

namespace Shizuha.Gateway

open Js Regex Machine

/-! ## The statement -/

/-- The inbox, with the rows that `pushFront` has ever placed. -/
structure FrontedInbox where
  inbox : Inbox
  fronted : List ℕ

def frontedStep (upper : Text → Text) (s : FrontedInbox) (op : InboxOp) : FrontedInbox where
  inbox := inboxStep upper s.inbox op
  fronted :=
    match op with
    | .pushFront messages | .resumeAdmitted messages =>
        messages.map InboundMessage.ref ++ s.fronted
    | _ => s.fronted

/-- What `next` takes from the queue is of no lower class than what stays. -/
def TakesHighest (upper : Text → Text) (s : FrontedInbox) : InboxOp → Prop
  | .next fresh => ∀ m, (s.inbox.next upper fresh).2.returned = some m →
      s.inbox.isContinuation m = false → m.ref ∉ s.fronted →
        ∀ r ∈ (s.inbox.next upper fresh).1.queue, gatewayInboxPriority m ≤ gatewayInboxPriority r
  | _ => True

/-- The message goes into the queue. -/
def Inbox.enqueues (s : Inbox) (m : InboundMessage) : Bool :=
  !s.ingressSealed && (isWorkingDeferredTaskNotification m || !s.waiting &&
    !(gatewayInboxClass m = .heartbeat &&
      s.queue.any fun queued => gatewayInboxClass queued = .heartbeat))

/-- The message comes before this row, or in its place. -/
def Inbox.Yields (upper : Text → Text) (s : Inbox) (m row : InboundMessage) : Prop :=
  gatewayInboxPriority m < gatewayInboxPriority row ∨
    s.isContinuation row = false ∧ gatewayTaskNotificationKey upper m ≠ none ∧
      gatewayTaskNotificationKey upper row = gatewayTaskNotificationKey upper m

/-- No row of a higher class stands behind one that the message comes before. -/
def Inbox.InPlace (upper : Text → Text) (s : Inbox) (m : InboundMessage) : Prop :=
  s.queue.Pairwise fun row r =>
    s.Yields upper m row → gatewayInboxPriority m ≤ gatewayInboxPriority r

/-- No notice that has to wait is of a higher class than the first row that has
not. Where that row is let in with other notices, it was not put in front. -/
def FrontedInbox.ReadyInOrder (s : FrontedInbox) : Prop :=
  (∀ r ∈ s.inbox.queue, s.inbox.isContinuation r = false) →
    ∀ ready, s.inbox.queue.find? (fun r => !s.inbox.parked r) = some ready →
      (∀ r ∈ s.inbox.queue, s.inbox.parked r = true →
        gatewayInboxPriority ready ≤ gatewayInboxPriority r) ∧
      (1 < (s.inbox.queue.filter s.inbox.holds).length → s.inbox.holds ready = true →
        ready.ref ∉ s.fronted)

def KeepsOrder (upper : Text → Text) (s : FrontedInbox) : InboxOp → Prop
  | .tryPush _ m => s.inbox.enqueues m = true → s.inbox.InPlace upper m
  | .next _ => s.ReadyInOrder
  | _ => True

/-- A row that was not put in front has none of a higher class behind it. -/
def Sorted (fronted : List ℕ) (queue : List InboundMessage) : Prop :=
  queue.Pairwise fun a b =>
    a.ref ∉ fronted → gatewayInboxPriority a ≤ gatewayInboxPriority b

variable {upper : Text → Text} {fresh : Fresh} {s : Inbox} {f : FrontedInbox}
  {m row : InboundMessage} {fronted : List ℕ} {queue : List InboundMessage}

/-! ## Classes of notices -/

theorem execFrom_mono {a b : Regex} (h : ∀ c, b.run c = [] → a.run c = []) (left s : Text)
    (ha : (a.execFrom left s).isSome = true) : (b.execFrom left s).isSome = true := by
  induction s generalizing left with
  | nil =>
      rw [Regex.execFrom] at ha ⊢
      cases hb : b.run ⟨left, [], none⟩ with
      | nil =>
          rw [h _ hb] at ha
          exact ha
      | cons d ds => rfl
  | cons u s ih =>
      rw [Regex.execFrom] at ha ⊢
      cases hb : b.run ⟨left, u :: s, none⟩ with
      | nil =>
          rw [h _ hb] at ha
          exact ih (u :: left) ha
      | cons d ds => rfl

/-- A notice that waits is a routine one, unless a cron job sent it. -/
theorem routine_of_deferred (h : isWorkingDeferredTaskNotification m = true)
    (hcron : m.source ≠ some .cron) : gatewayInboxClass m = .routineTask := by
  rw [isWorkingDeferredTaskNotification] at h
  split_ifs at h with hheartbeat
  have hroutine : isRoutineTaskNotificationContent m.content = true := by
    cases hcontent : m.content with
    | none =>
        rw [hcontent] at h
        exact absurd h (by decide)
    | some content =>
        rw [hcontent, Option.getD_some, Bool.or_eq_true] at h
        rw [isRoutineTaskNotificationContent, Bool.or_eq_true]
        refine h.imp (fun htag => ?_) id
        refine execFrom_mono (fun c hrun => ?_) [] content htag
        rw [List.eq_nil_iff_forall_not_mem] at hrun ⊢
        intro d hd
        obtain ⟨e, he, hd⟩ := List.mem_flatMap.mp hd
        exact hrun d (List.mem_flatMap.mpr ⟨e, he, List.mem_append_left _ hd⟩)
  rw [gatewayInboxClass, if_neg hheartbeat, if_neg hcron, if_pos (.inr hroutine)]

theorem priority_le (m : InboundMessage) : gatewayInboxPriority m ≤ 3 := by
  rw [gatewayInboxPriority]
  cases gatewayInboxClass m <;> decide

theorem priority_of_routine (h : gatewayInboxClass m = .routineTask) :
    gatewayInboxPriority m = 3 := by
  rw [gatewayInboxPriority, h]

/-- A digest is of no lower class than the first of its notices. -/
theorem priority_digest_le (upper : Text → Text) (fresh : Fresh) {first : InboundMessage}
    (held : List InboundMessage) (h : isWorkingDeferredTaskNotification first = true) :
    gatewayInboxPriority (digest upper fresh first held) ≤ gatewayInboxPriority first := by
  by_cases hcron : first.source = some .cron
  · have hclass : ∀ m : InboundMessage, m.source = some .cron → gatewayInboxPriority m = 2 := by
      intro m hm
      rw [gatewayInboxPriority, gatewayInboxClass, hm]
      rfl
    rw [hclass first hcron, hclass (digest upper fresh first held) hcron]
  · rw [priority_of_routine (routine_of_deferred h hcron)]
    exact priority_le _

/-! ## What the calls do to the queue -/

theorem Admission.sublist {o : Option InboundMessage × Inbox} (h : Admission upper fresh s o) :
    o.2.queue.Sublist s.queue := by
  cases h with
  | none => exact .refl _
  | one | merged => exact List.filter_sublist

theorem Taken.sublist {o : Option InboundMessage × Inbox} (h : Taken upper fresh s o) :
    o.2.queue.Sublist s.queue := by
  have hrest : ∀ {before after : List InboundMessage} {row : InboundMessage},
      s.queue = before ++ row :: after → (before ++ after).Sublist s.queue := by
    intro before after row hqueue
    rw [hqueue]
    exact (List.sublist_cons_self row after).append_left before
  cases h with
  | nothing => exact .refl _
  | admitted _ _ _ _ _ ho => exact ho.sublist
  | continuation hqueue => exact hrest hqueue
  | heartbeat _ hqueue => exact List.filter_sublist.trans (hrest hqueue)
  | ordinary _ hqueue => exact hrest hqueue

theorem sublist_pushDeferred : (s.pushDeferred upper fresh m).1.queue.Sublist
    (s.enqueueMessage upper m).queue := by
  rw [Inbox.pushDeferred]
  split_ifs
  · have hadmission := admission upper fresh (s.enqueueMessage upper m)
    have hsub := hadmission.sublist
    generalize (s.enqueueMessage upper m).takeWorkingDeferredAdmission upper fresh = o at hsub
    obtain ⟨x, s'⟩ := o
    cases x <;> exact hsub
  · exact .refl _

theorem enqueued_version {n : ℕ} (h : Enqueued upper { s with admissionVersion := n } m queue) :
    Enqueued upper s m queue := by
  cases h with
  | placed hqueue hplaced hbefore hafter => exact .placed hqueue hplaced hbefore hafter
  | replaced hqueue hplaced hrow hkey hsome => exact .replaced hqueue hplaced hrow hkey hsome

/-- A push leaves a part of the queue, with the message in it if it goes in. -/
theorem sublist_tryPush (upper : Text → Text) (fresh : Fresh) (s : Inbox) (m : InboundMessage) :
    (s.tryPush upper fresh m).1.queue.Sublist s.queue ∨
      s.enqueues m = true ∧ ∃ queue, Enqueued upper s m queue ∧
        (s.tryPush upper fresh m).1.queue.Sublist queue := by
  have henqueued := (enqueued upper { s with admissionVersion := s.admissionVersion + 1 } m).1
  rw [Inbox.tryPush]
  by_cases hsealed : s.ingressSealed = true
  · rw [if_pos hsealed]
    exact .inl (.refl _)
  rw [if_neg hsealed]
  dsimp only
  split_ifs with hdeferred hwaiting hheartbeat hcoalesced
  · exact .inr ⟨by simp [Inbox.enqueues, hsealed, hdeferred], _, enqueued_version henqueued,
      sublist_pushDeferred⟩
  · exact .inl List.filter_sublist
  · exact .inl (.refl _)
  · exact .inl (.refl _)
  · refine .inr ⟨?_, _, enqueued_version henqueued, .refl _⟩
    have halone : (decide (gatewayInboxClass m = .heartbeat) &&
        s.queue.any fun queued => gatewayInboxClass queued = .heartbeat) = false := by
      rw [Bool.eq_false_iff, ne_eq, Bool.and_eq_true, decide_eq_true_eq]
      exact hcoalesced
    rw [Inbox.enqueues, eq_false_of_ne_true hsealed, eq_false_of_ne_true hwaiting, halone]
    exact Bool.or_true _

/-! ## The order is kept -/

theorem sorted_enqueued (h : Sorted fronted s.queue) (hplace : s.InPlace upper m)
    (henqueued : Enqueued upper s m queue) : Sorted fronted queue := by
  cases henqueued with
  | @placed before after hqueue hplaced hbefore hafter =>
      rw [Sorted, hqueue, List.pairwise_append] at h
      rw [Inbox.InPlace, hqueue, List.pairwise_append] at hplace
      obtain ⟨hfront, hback, hcross⟩ := h
      have hbehind : ∀ r ∈ after, gatewayInboxPriority m ≤ gatewayInboxPriority r := by
        cases after with
        | nil => exact fun r hr => absurd hr List.not_mem_nil
        | cons x rest =>
            have hx := hafter x rfl
            rw [List.forall_mem_cons]
            exact ⟨hx.le, fun r hr => (List.pairwise_cons.mp hplace.2.1).1 r hr (.inl hx)⟩
      rw [Sorted, hplaced, List.pairwise_append, List.pairwise_cons]
      refine ⟨hfront, ⟨fun r hr _ => hbehind r hr, hback⟩, fun a ha b hb hfronted => ?_⟩
      rcases List.mem_cons.mp hb with rfl | hb
      · exact hbefore a ha
      · exact hcross a ha b hb hfronted
  | @replaced before after row hqueue hplaced hrow hkey hsome =>
      rw [Sorted, hqueue, List.pairwise_append, List.pairwise_cons] at h
      rw [Inbox.InPlace, hqueue, List.pairwise_append, List.pairwise_cons] at hplace
      obtain ⟨hfront, ⟨-, hback⟩, hcross⟩ := h
      rw [Sorted, hplaced, List.pairwise_append, List.pairwise_cons]
      refine ⟨hfront, ⟨fun r hr _ => hplace.2.1.1 r hr (.inr ⟨hrow, hsome, hkey⟩), hback⟩,
        fun a ha b hb hfronted => ?_⟩
      rcases List.mem_cons.mp hb with rfl | hb
      · rw [priority_of_routine (class_of_key hsome)]
        exact priority_le a
      · exact hcross a ha b (List.mem_cons_of_mem _ hb) hfronted

theorem sorted_pushFront (h : Sorted fronted s.queue) (messages : List InboundMessage) :
    Sorted (messages.map InboundMessage.ref ++ fronted) (s.pushFront messages).1.queue := by
  have hqueue : Sorted (messages.map InboundMessage.ref ++ fronted) s.queue := by
    refine h.imp fun hab hnot => hab fun hmem => hnot (List.mem_append_right _ hmem)
  have hput : ∀ rows : List InboundMessage, (∀ r ∈ rows, r ∈ messages) →
      Sorted (messages.map InboundMessage.ref ++ fronted) (rows ++ s.queue) := by
    intro rows hrows
    have hexempt : ∀ r ∈ rows, r.ref ∈ messages.map InboundMessage.ref ++ fronted :=
      fun r hr => List.mem_append_left _ (List.mem_map_of_mem (hrows r hr))
    rw [Sorted, List.pairwise_append]
    refine ⟨?_, hqueue, fun a ha b _ hnot => absurd (hexempt a ha) hnot⟩
    exact List.Pairwise.imp_of_mem (fun ha _ _ hnot => absurd (hexempt _ ha) hnot)
      (List.pairwise_of_forall_mem_list fun _ _ _ _ => trivial)
  cases messages with
  | nil => exact hqueue
  | cons first rest =>
      obtain ⟨places, heq⟩ := pushFront_cons s first rest
      rw [heq]
      split_ifs
      · exact hput rest fun r hr => List.mem_cons_of_mem _ hr
      · exact hput (first :: rest) fun r hr => hr

/-- The first row that does not wait is of no lower class than the others. -/
theorem ready_highest {before after : List InboundMessage} (h : Sorted f.fronted f.inbox.queue)
    (hqueue : f.inbox.queue = before ++ row :: after)
    (hparked : ∀ r ∈ before, f.inbox.parked r = true) (hfronted : row.ref ∉ f.fronted)
    (hwaiting : ∀ r ∈ f.inbox.queue, f.inbox.parked r = true →
      gatewayInboxPriority row ≤ gatewayInboxPriority r) :
    ∀ r ∈ before ++ after, gatewayInboxPriority row ≤ gatewayInboxPriority r := by
  intro r hr
  rcases List.mem_append.mp hr with hr | hr
  · exact hwaiting r (by simp [hqueue, hr]) (hparked r hr)
  · rw [Sorted, hqueue, List.pairwise_append, List.pairwise_cons] at h
    exact h.2.1.1 r hr hfronted

theorem find?_ready {before after : List InboundMessage}
    (hqueue : s.queue = before ++ row :: after) (hparked : ∀ r ∈ before, s.parked r = true)
    (hrow : s.parked row = false) : s.queue.find? (fun r => !s.parked r) = some row := by
  rw [List.find?_eq_some_iff_append]
  exact ⟨by rw [hrow]; rfl, before, after, hqueue, fun r hr => by rw [hparked r hr]; rfl⟩

theorem takesHighest_next (h : Sorted f.fronted f.inbox.queue) (hready : f.ReadyInOrder) :
    TakesHighest upper f (.next fresh) := by
  have htaken := taken upper fresh f.inbox
  intro m hm hcontinuation hfronted
  rw [Inbox.next] at hm ⊢
  generalize f.inbox.takeAdmissible upper fresh = o at htaken hm
  obtain ⟨x, s'⟩ := o
  cases x with
  | none => cases hm
  | some x =>
      obtain rfl : x = m := Option.some.inj hm
      dsimp only
      cases htaken with
      | continuation hqueue hrow =>
          rw [hrow] at hcontinuation
          cases hcontinuation
      | heartbeat hfirst hqueue hparked hrow =>
          have hnot : f.inbox.parked x = false := by rw [Inbox.parked, hrow, Bool.false_and]
          obtain ⟨hwaiting, -⟩ := hready hfirst x (find?_ready hqueue hparked hnot)
          exact fun r hr => ready_highest h hqueue hparked hfronted hwaiting r
            (List.mem_of_mem_filter hr)
      | ordinary hfirst hqueue hparked hrow =>
          have hnot : f.inbox.parked x = false := by rw [Inbox.parked, hrow, Bool.false_and]
          obtain ⟨hwaiting, -⟩ := hready hfirst x (find?_ready hqueue hparked hnot)
          exact ready_highest h hqueue hparked hfronted hwaiting
      | @admitted before after row _ hfirst hqueue hparked hholds hidle ho =>
          obtain ⟨hdeferred, -, hnotice⟩ := holds_iff.mp hholds
          have hnot : f.inbox.parked row = false := by
            rw [Inbox.parked, hidle, hnotice, Bool.or_false, Bool.and_false]
          obtain ⟨hwaiting, hmerged⟩ := hready hfirst row (find?_ready hqueue hparked hnot)
          -- the notices let in are those from the row on
          have hskip : before.filter f.inbox.holds = [] := by
            rw [List.filter_eq_nil_iff]
            intro r hr hheld
            obtain ⟨-, hworking | halert⟩ := parked_iff.mp (hparked r hr)
            · rw [hidle] at hworking
              cases hworking
            · rw [(holds_iff.mp hheld).2.2] at halert
              cases halert
          have hheld : f.inbox.queue.filter f.inbox.holds =
              row :: after.filter f.inbox.holds := by
            rw [hqueue, List.filter_append, hskip, List.filter_cons_of_pos hholds, List.nil_append]
          have hrest : ∀ r ∈ f.inbox.queue.filter (fun r => !f.inbox.holds r),
              r ∈ before ++ after := by
            intro r hr
            obtain ⟨hmem, hr⟩ := List.mem_filter.mp hr
            rw [hqueue, List.mem_append, List.mem_cons] at hmem
            rcases hmem with hmem | rfl | hmem
            · exact List.mem_append_left _ hmem
            · rw [hholds] at hr
              cases hr
            · exact List.mem_append_right _ hmem
          cases ho with
          | one hone =>
              rw [hheld] at hone
              obtain ⟨rfl, -⟩ := List.cons.inj hone
              exact fun r hr => ready_highest h hqueue hparked hfronted hwaiting r (hrest r hr)
          | merged hmany =>
              have hlength : 1 < (f.inbox.queue.filter f.inbox.holds).length := by
                rw [hmany, List.length_cons, List.length_cons]
                omega
              rw [hheld] at hmany
              obtain ⟨rfl, -⟩ := List.cons.inj hmany
              intro r hr
              exact (priority_digest_le upper fresh _ hdeferred).trans
                (ready_highest h hqueue hparked (hmerged hlength hholds) hwaiting r (hrest r hr))

/-- One call. -/
theorem takesHighest_step (h : Sorted f.fronted f.inbox.queue) (op : InboxOp)
    (hop : KeepsOrder upper f op) : TakesHighest upper f op ∧
      Sorted (frontedStep upper f op).fronted (frontedStep upper f op).inbox.queue := by
  cases op with
  | tryPush fresh m =>
      refine ⟨trivial, ?_⟩
      rcases sublist_tryPush upper fresh f.inbox m with hsub | ⟨hgoes, queue, hqueue, hsub⟩
      · exact h.sublist hsub
      · exact (sorted_enqueued h (hop hgoes) hqueue).sublist hsub
  | pushFront messages => exact ⟨trivial, sorted_pushFront h messages⟩
  | resumeAdmitted messages =>
      have hmarked : Sorted f.fronted { f.inbox with
          admittedContinuations :=
            messages.map InboundMessage.ref ++ f.inbox.admittedContinuations }.queue := h
      exact ⟨trivial, sorted_pushFront hmarked messages⟩
  | next fresh =>
      refine ⟨takesHighest_next h hop, ?_⟩
      have htaken := taken upper fresh f.inbox
      have hsub := htaken.sublist
      show Sorted f.fronted (f.inbox.next upper fresh).1.queue
      rw [Inbox.next]
      generalize f.inbox.takeAdmissible upper fresh = o at hsub
      obtain ⟨x, s'⟩ := o
      cases x <;> exact h.sublist hsub
  | drainForRecovery => exact ⟨trivial, List.Pairwise.nil⟩
  | sealIngress | unsealIngress => exact ⟨trivial, h⟩

/-- As long as no push goes in front of a row of a higher class, and no notice
that waits is of a higher class than what is taken, `next` takes the highest. -/
theorem next_takes_highest (upper : Text → Text) (ops : List InboxOp)
    (h : Along (frontedStep upper) (KeepsOrder upper) ⟨.empty, []⟩ ops) :
    Along (frontedStep upper) (TakesHighest upper) ⟨.empty, []⟩ ops :=
  along_of_step (fun _ op hsorted hop => takesHighest_step hsorted op hop) List.Pairwise.nil h

/-! ## A message that is overtaken -/

def cronWatch : InboundMessage := ⟨1, js "m1", some .cron, some (js "Watch it"), 0, none⟩

def userMessage : InboundMessage := ⟨2, js "m2", some .user, some (js "Stop"), 0, none⟩

def heartbeatTick : InboundMessage := ⟨3, js "m3", some .heartbeat, none, 0, none⟩

theorem next_takes_userMessage :
    Along (frontedStep id) (TakesHighest id) ⟨.empty, []⟩
      [.tryPush ⟨0, 10⟩ cronWatch, .tryPush ⟨0, 11⟩ userMessage, .next ⟨0, 12⟩] := by
  have hready : ∀ r ∈ [userMessage, cronWatch], isWorkingDeferredTaskNotification r = false := by
    decide +kernel
  refine next_takes_highest id _ ⟨fun _ => .nil, fun _ => List.pairwise_singleton _ _, ?_, trivial⟩
  intro _ ready _
  refine ⟨fun r hr hparked => ?_, fun hlength => ?_⟩
  · rw [Inbox.parked, hready r hr] at hparked
    cases hparked
  · exact absurd hlength (by decide +kernel)

/-- The cron row is put back after the user has written, and the heartbeat that
comes then goes in front of both. -/
theorem userMessage_overtaken :
    ¬ ∀ (upper : Text → Text) (ops : List InboxOp),
      Along (frontedStep upper) (TakesHighest upper) ⟨.empty, []⟩ ops := by
  intro h
  obtain ⟨-, -, -, -, hlast, -⟩ := h id [.tryPush ⟨0, 10⟩ userMessage, .resumeAdmitted [cronWatch],
    .tryPush ⟨0, 11⟩ heartbeatTick, .next ⟨0, 12⟩, .next ⟨0, 13⟩]
  have hovertaken := hlast heartbeatTick rfl rfl (by decide) userMessage List.mem_cons_self
  exact absurd hovertaken (by decide)

end Shizuha.Gateway
