import Shizuha.Proofs.RuntimeRollMoves

/-!
# What becomes of a row that is put back

A row that the loop has taken is held by it, or its processing has ended, or it
is in the queue again. Only the inbox can break this: a row that was put back in
front is a task notice like any other there, so a newer notice of the task takes
its place, a heartbeat drops it, and a digest swallows it. The mark that keeps
an admitted row from this is set for a row that waits for the provider, and not
for one that gives way to a roll.
-/

namespace Shizuha.Gateway

open Js Shared Machine

variable {upper : Text → Text} {fresh : Fresh} {s : Inbox} {m row : InboundMessage}
  {p q : AgentProcess}

/-! ## What a call leaves in the queue -/

/-- A push loses this row of the queue. -/
inductive LostByPush (upper : Text → Text) (s : Inbox) (m row : InboundMessage) : Prop where
  /-- The newer notice takes its place. -/
  | replaced {i : ℕ} (hqueued : isWorkingDeferredTaskNotification m = true ∨ s.waiting = false)
      (hi : s.duplicateIndex upper m = some i) (hrow : s.queue[i]? = some row)
  /-- The heartbeat drops it. -/
  | dropped (hwaits : s.waiting = true) (hclass : gatewayInboxClass m = .heartbeat)
      (hrow : s.droppable row = true)
  /-- It is let in as part of a digest. -/
  | merged (hwaits : s.waiting = true) (hidle : s.workSessionActive = false)
      (hm : isWorkingDeferredTaskNotification m = true)
      (halert : isConnectAlertNotificationContent m.content = false) (hrow : s.holds row = true)

/-- What `next` hands over loses this row of the queue. -/
structure LostByNext (s : Inbox) (row : InboundMessage) : Prop where
  first : ∀ r ∈ s.queue, s.isContinuation r = false
  lost : ∃ x, s.queue.find? (fun r => !s.parked r) = some x ∧
    (gatewayInboxClass x = .heartbeat ∧ s.droppable row = true ∨
      s.holds x = true ∧ s.holds row = true ∧ s.queue.filter s.holds ≠ [row])

theorem kept_enqueue (hrow : row ∈ s.queue)
    (hnot : ∀ i, s.duplicateIndex upper m = some i → s.queue[i]? ≠ some row) :
    row ∈ (s.enqueueMessage upper m).queue := by
  rw [Inbox.enqueueMessage]
  cases hduplicate : s.duplicateIndex upper m with
  | none =>
      obtain ⟨before, after, hqueue, hplaced, -⟩ := insertByPriority_split m s.queue
      dsimp only
      rw [hplaced]
      rw [hqueue] at hrow
      rcases List.mem_append.1 hrow with hbefore | hafter
      · exact List.mem_append_left _ hbefore
      · exact List.mem_append_right _ (List.mem_cons_of_mem _ hafter)
  | some i =>
      have hset : row ∈ s.queue.set i m := by
        obtain ⟨j, hj⟩ := List.mem_iff_getElem?.1 hrow
        have hne : i ≠ j := by
          intro heq
          rw [heq] at hduplicate
          exact hnot j hduplicate hj
        refine List.mem_iff_getElem?.2 ⟨j, ?_⟩
        rw [List.getElem?_set_ne hne, hj]
      dsimp only
      split
      · exact hrow
      · split
        · exact hset
        · exact hset

theorem find?_split {before after : List InboundMessage} {x : InboundMessage}
    {f : InboundMessage → Bool} (hbefore : ∀ r ∈ before, f r = false) (hx : f x = true) :
    (before ++ x :: after).find? f = some x := by
  have hnone : before.find? f = none :=
    List.find?_eq_none.2 fun r hr => by rw [hbefore r hr]; exact Bool.false_ne_true
  rw [List.find?_append, hnone, List.find?_cons_of_pos hx]
  rfl

/-- The notices that are let in: a single one is handed over, and others go. -/
theorem kept_admission {o : Option InboundMessage × Inbox} (h : Admission upper fresh s o)
    (hrow : row ∈ s.queue) (hnot : s.holds row = true → s.queue.filter s.holds = [row]) :
    row ∈ o.2.queue ∨ o.1 = some row := by
  have hkept (hholds : s.holds row = false) :
      row ∈ s.queue.filter fun r => !s.holds r :=
    List.mem_filter.2 ⟨hrow, by rw [hholds]; rfl⟩
  cases hholds : s.holds row with
  | false =>
      cases h with
      | none => exact .inl hrow
      | one => exact .inl (hkept hholds)
      | merged => exact .inl (hkept hholds)
  | true =>
      have honly := hnot hholds
      cases h with
      | none => exact .inl hrow
      | one hheld =>
          rw [honly] at hheld
          cases hheld
          exact .inr rfl
      | merged hheld =>
          rw [honly] at hheld
          cases hheld

theorem kept_next (hrow : row ∈ s.queue) (hnot : ¬ LostByNext s row) :
    row ∈ (s.next upper fresh).1.queue ∨ (s.next upper fresh).2.returned = some row := by
  have htaken := taken upper fresh s
  have hkept : row ∈ (s.takeAdmissible upper fresh).2.queue ∨
      (s.takeAdmissible upper fresh).1 = some row := by
    generalize s.takeAdmissible upper fresh = o at htaken
    cases htaken with
    | nothing => exact .inl hrow
    | continuation hqueue hfirst =>
        rw [hqueue, List.mem_append, List.mem_cons] at hrow
        rcases hrow with hrow | rfl | hrow
        · exact .inl (List.mem_append_left _ hrow)
        · exact .inr rfl
        · exact .inl (List.mem_append_right _ hrow)
    | @admitted before after x o hfirst hqueue hparked hholds hidle ho =>
        refine kept_admission ho hrow fun hrowHolds => ?_
        by_contra hmore
        obtain ⟨-, -, halert⟩ := holds_iff.1 hholds
        have hx : (!s.parked x) = true := by
          rw [Inbox.parked, hidle, halert, Bool.or_false, Bool.and_false]
          rfl
        refine hnot ⟨hfirst, x, ?_, .inr ⟨hholds, hrowHolds, hmore⟩⟩
        rw [hqueue]
        exact find?_split (fun r hr => by rw [hparked r hr]; rfl) hx
    | @heartbeat before after x hfirst hqueue hparked hdeferred hclass =>
        have hx : (!s.parked x) = true := by
          rw [Inbox.parked, hdeferred, Bool.false_and]
          rfl
        have hfind : s.queue.find? (fun r => !s.parked r) = some x := by
          rw [hqueue]
          exact find?_split (fun r hr => by rw [hparked r hr]; rfl) hx
        have hkeep : (!s.droppable row) = true := by
          rw [Bool.not_eq_true']
          exact Bool.eq_false_iff.2 fun hdrop => hnot ⟨hfirst, x, hfind, .inl ⟨hclass, hdrop⟩⟩
        rw [hqueue, List.mem_append, List.mem_cons] at hrow
        rcases hrow with hrow | rfl | hrow
        · exact .inl (List.mem_filter.2 ⟨List.mem_append_left _ hrow, hkeep⟩)
        · exact .inr rfl
        · exact .inl (List.mem_filter.2 ⟨List.mem_append_right _ hrow, hkeep⟩)
    | ordinary hfirst hqueue hparked hdeferred hclass =>
        rw [hqueue, List.mem_append, List.mem_cons] at hrow
        rcases hrow with hrow | rfl | hrow
        · exact .inl (List.mem_append_left _ hrow)
        · exact .inr rfl
        · exact .inl (List.mem_append_right _ hrow)
  rw [Inbox.next]
  generalize s.takeAdmissible upper fresh = o at hkept
  obtain ⟨returned, s'⟩ := o
  cases returned with
  | none => exact .inl (hkept.resolve_right fun h => by cases h)
  | some x => exact hkept

theorem kept_pushDeferred (hrow : row ∈ s.queue) (hm : isWorkingDeferredTaskNotification m = true)
    (hnot : ¬ LostByPush upper s m row) :
    row ∈ (s.pushDeferred upper fresh m).1.queue ∨
      (s.pushDeferred upper fresh m).2.returned = some row := by
  have hqueued : row ∈ (s.enqueueMessage upper m).queue :=
    kept_enqueue hrow fun i hi hat => hnot (.replaced (.inl hm) hi hat)
  have hflags := (enqueued upper s m).2
  rw [Inbox.pushDeferred]
  split_ifs with hwake
  · rw [Bool.and_eq_true, Bool.and_eq_true, Bool.not_eq_true', Bool.not_eq_true', hflags.waiting,
      hflags.working] at hwake
    have hnotHeld : (s.enqueueMessage upper m).holds row = false := by
      refine Bool.eq_false_iff.2 fun hholds => ?_
      rw [Inbox.holds, Inbox.droppable, Inbox.isContinuation, hflags.continuations] at hholds
      exact hnot (.merged hwake.1.1 hwake.1.2 hm hwake.2 hholds)
    have hkept := kept_admission (admission upper fresh (s.enqueueMessage upper m)) hqueued
      fun hholds => by rw [hnotHeld] at hholds; cases hholds
    generalize (s.enqueueMessage upper m).takeWorkingDeferredAdmission upper fresh = o at hkept
    obtain ⟨admitted, s'⟩ := o
    cases admitted with
    | none => exact .inl (hkept.resolve_right fun h => by cases h)
    | some x => exact hkept
  · exact .inl hqueued

theorem kept_tryPush (hrow : row ∈ s.queue)
    (hnot : s.ingressSealed = false → ¬ LostByPush upper s m row) :
    row ∈ (s.tryPush upper fresh m).1.queue ∨
      (s.tryPush upper fresh m).2.returned = some row := by
  rw [Inbox.tryPush]
  by_cases hsealed : s.ingressSealed = true
  · rw [if_pos hsealed]
    exact .inl hrow
  · have hnot := hnot (Bool.eq_false_iff.2 hsealed)
    rw [if_neg hsealed]
    dsimp only
    by_cases hdeferred : isWorkingDeferredTaskNotification m = true
    · rw [if_pos hdeferred]
      refine kept_pushDeferred hrow hdeferred fun hlost => hnot ?_
      cases hlost with
      | replaced hqueued hi hat => exact .replaced hqueued hi hat
      | dropped hwaits hclass hdrop => exact .dropped hwaits hclass hdrop
      | merged hwaits hidle hm halert hholds => exact .merged hwaits hidle hm halert hholds
    · rw [if_neg hdeferred]
      by_cases hwaits : s.waiting = true
      · rw [if_pos hwaits]
        split_ifs with hclass
        · refine .inl (List.mem_filter.2 ⟨hrow, ?_⟩)
          rw [Bool.not_eq_true']
          exact Bool.eq_false_iff.2 fun hdrop => hnot (.dropped hwaits hclass hdrop)
        · exact .inl hrow
      · rw [if_neg hwaits]
        split_ifs
        · exact .inl hrow
        · refine .inl (kept_enqueue hrow fun i hi hat => ?_)
          exact hnot (.replaced (.inr (Bool.eq_false_iff.2 hwaits)) hi hat)

theorem kept_pushFront (hrow : row ∈ s.queue) (messages : List InboundMessage) :
    row ∈ (s.pushFront messages).1.queue := by
  cases messages with
  | nil => exact hrow
  | cons first rest =>
      obtain ⟨places, hpush⟩ := pushFront_cons s first rest
      rw [hpush]
      split_ifs
      · exact List.mem_append_right _ hrow
      · exact List.mem_append_right _ hrow

theorem kept_resumeAdmitted (hrow : row ∈ s.queue) (messages : List InboundMessage) :
    row ∈ (s.resumeAdmitted messages).1.queue :=
  kept_pushFront (s :=
    { s with
      admittedContinuations := messages.map InboundMessage.ref ++ s.admittedContinuations })
    hrow messages

theorem mem_pushFront (hwaiting : s.waiting = false) : m ∈ (s.pushFront [m]).1.queue := by
  obtain ⟨places, hpush⟩ := pushFront_cons s m []
  rw [hpush, if_neg (by rw [hwaiting]; exact Bool.false_ne_true)]
  exact List.mem_cons_self

/-! ## The rows of the loop -/

/-- The loop has this row, and has not put it back. -/
def Held (p : AgentProcess) (row : InboundMessage) : Prop :=
  p.loop = .inbox (some row) ∨ p.loop = .processing row false

/-- Every row that was taken has been processed, is in the inbox, or is still
with the loop. -/
def RowsKept (p : AgentProcess) : Prop :=
  ∀ row ∈ p.taken, row ∈ p.completed ∨ row ∈ p.inbox.queue ∨ Held p row

/-- A row that was taken before and waits to be taken again. -/
structure PutBack (p : AgentProcess) (row : InboundMessage) : Prop where
  taken : row ∈ p.taken
  notCompleted : row ∉ p.completed
  queued : row ∈ p.inbox.queue

/-- No row that was put back is lost to the inbox. -/
def KeepsPutBack (upper : Text → Text) (p : AgentProcess) : ProcessAction → Prop
  | .push _ msg => p.inbox.ingressSealed = false →
      ∀ row, PutBack p row → ¬ LostByPush upper p.inbox msg row
  | .loop _ => p.loop = .admission true → ∀ row, PutBack p row → ¬ LostByNext p.inbox row
  | _ => True

theorem RowsKept.call {op : InboxOp} (h : RowsKept p)
    (hkept : ∀ row, PutBack p row → row ∈ (p.inbox.call upper op).1.queue ∨
      (p.inbox.call upper op).2.returned = some row)
    (hheld : (p.inbox.call upper op).2.returned ≠ none → ∀ row, ¬ Held p row) :
    RowsKept (p.callInbox upper op) := by
  rw [callInbox_eq]
  generalize p.inbox.call upper op = o at hkept hheld
  obtain ⟨inbox, outcome⟩ := o
  dsimp only at hkept hheld ⊢
  intro row hrow
  cases hreturned : outcome.returned with
  | none =>
      rw [hreturned] at hrow
      rcases h row hrow with hcompleted | hqueued | hrowHeld
      · exact .inl hcompleted
      · by_cases hcompleted : row ∈ p.completed
        · exact .inl hcompleted
        · have hstays := hkept row ⟨hrow, hcompleted, hqueued⟩
          rw [hreturned] at hstays
          exact .inr (.inl (hstays.resolve_right fun heq => by cases heq))
      · exact .inr (.inr hrowHeld)
  | some msg =>
      rw [hreturned, AgentProcess.hand, List.mem_append, List.mem_singleton] at hrow
      rcases hrow with hrow | rfl
      · rcases h row hrow with hcompleted | hqueued | hrowHeld
        · exact .inl hcompleted
        · by_cases hcompleted : row ∈ p.completed
          · exact .inl hcompleted
          · rcases hkept row ⟨hrow, hcompleted, hqueued⟩ with hstays | hhanded
            · exact .inr (.inl hstays)
            · rw [hreturned] at hhanded
              exact .inr (.inr (.inl (congrArg LoopAt.inbox hhanded)))
        · have hsome : outcome.returned ≠ none := by
            rw [hreturned]
            exact Option.some_ne_none msg
          exact absurd hrowHeld (hheld hsome row)
      · exact .inr (.inr (.inl rfl))

/-- A loop that waits for the inbox holds no row. -/
theorem not_held_of_handed {op : InboxOp} (hinv : RollInv p)
    (hcall : CallFlags p.inbox (p.inbox.call upper op))
    (hsome : (p.inbox.call upper op).2.returned ≠ none) (row : InboundMessage) : ¬ Held p row := by
  have hloop := hinv.waiting.1 (hcall.handed hsome).1
  rintro (hheld | hheld)
  · rw [hloop] at hheld
    cases hheld
  · rw [hloop] at hheld
    cases hheld

/-- What a row that is put back finds. -/
theorem queued_giveBack {op : InboxOp} {msg : InboundMessage}
    (hop : op = .pushFront [msg] ∨ op = .resumeAdmitted [msg]) (hwaiting : p.inbox.waiting = false) :
    msg ∈ (p.inbox.call upper op).1.queue ∧
      ∀ row ∈ p.inbox.queue, row ∈ (p.inbox.call upper op).1.queue := by
  rcases hop with rfl | rfl
  · exact ⟨mem_pushFront hwaiting, fun row hrow => kept_pushFront hrow [msg]⟩
  · refine ⟨?_, fun row hrow => kept_resumeAdmitted hrow [msg]⟩
    exact mem_pushFront (s :=
      { p.inbox with
        admittedContinuations := [msg].map InboundMessage.ref ++ p.inbox.admittedContinuations })
      hwaiting

theorem GivesBack.held {msg : InboundMessage} {a b : LoopAt} (h : GivesBack msg a b)
    (hheld : a = .inbox (some row) ∨ a = .processing row false) : row = msg := by
  cases h with
  | handed => simpa [eq_comm] using hheld
  | processed => simpa [eq_comm] using hheld

theorem RowsKept.giveBack {op : InboxOp} {msg : InboundMessage} {loop : LoopAt} (h : RowsKept p)
    (hinv : RollInv p) (hop : op = .pushFront [msg] ∨ op = .resumeAdmitted [msg])
    (hback : GivesBack msg p.loop loop) : RowsKept { p.callInbox upper op with loop } := by
  have hnot : p.loop ≠ .inbox none := by
    intro hloop
    rw [hloop] at hback
    cases hback
  have hwaiting : p.inbox.waiting = false :=
    Bool.eq_false_iff.2 fun hwaits => hnot (hinv.waiting.1 hwaits)
  obtain ⟨hmsg, hqueue⟩ := @queued_giveBack upper p op msg hop hwaiting
  rw [callInbox_kept hinv (callFlags_giveBack hop) hnot]
  intro row hrow
  rcases h row hrow with hcompleted | hqueued | hrowHeld
  · exact .inl hcompleted
  · exact .inr (.inl (hqueue row hqueued))
  · rw [hback.held hrowHeld]
    exact .inr (.inl hmsg)

/-- A loop that holds no row goes to another place. -/
theorem RowsKept.turn {loop : LoopAt} (h : RowsKept p) (hp : Free p.loop) :
    RowsKept { p with loop } := by
  intro row hrow
  rcases h row hrow with hcompleted | hqueued | hheld | hheld
  · exact .inl hcompleted
  · exact .inr (.inl hqueued)
  · exact absurd hheld (hp.row row)
  · exact absurd hheld (hp.processing row false)

theorem RowsKept.drain (h : RowsKept p) (hmove : DrainMove p q) : RowsKept q := by
  obtain ⟨ingressSealed, hinbox⟩ := hmove.inbox
  intro row hrow
  rw [hmove.taken] at hrow
  rw [hmove.completed, hinbox]
  rcases h row hrow with hcompleted | hqueued | hheld | hheld
  · exact .inl hcompleted
  · exact .inr (.inl hqueued)
  · exact .inr (.inr (.inl (hmove.loop.inbox_iff.2 hheld)))
  · exact .inr (.inr (.inr (hmove.loop.processing_iff.2 hheld)))

/-- A move that takes nothing out of the queue loses no row. -/
theorem RowsKept.move (h : RowsKept p) (hinv : RollInv p) (hmove : ProcessMove upper False p q) :
    RowsKept q := by
  cases hmove with
  | drain hstep => exact h.drain hstep.move
  | turn loop hp => exact h.turn hp
  | park hp => exact h.turn hp
  | next htakes => exact htakes.elim
  | push htakes => exact htakes.elim
  | pushFront messages =>
      exact h.call (fun row hrow => .inl (kept_pushFront hrow.queued messages))
        (not_held_of_handed hinv (callFlags_pushFront messages))
  | resumeAdmitted messages =>
      exact h.call (fun row hrow => .inl (kept_resumeAdmitted hrow.queued messages))
        (not_held_of_handed hinv (callFlags_resumeAdmitted messages))
  | takeUp msg hloop =>
      intro row hrow
      rcases h row hrow with hcompleted | hqueued | hheld | hheld
      · exact .inl hcompleted
      · exact .inr (.inl hqueued)
      · rw [hloop] at hheld
        cases hheld
        exact .inr (.inr (.inr rfl))
      · rw [hloop] at hheld
        cases hheld
  | giveBack msg loop op hop hback => exact h.giveBack hinv hop hback
  | settle msg requeued hloop =>
      intro row hrow
      rcases h row hrow with hcompleted | hqueued | hheld | hheld
      · refine .inl ?_
        dsimp only
        split_ifs
        · exact hcompleted
        · exact List.mem_append_left _ hcompleted
      · exact .inr (.inl hqueued)
      · rw [hloop] at hheld
        cases hheld
      · rw [hloop] at hheld
        cases hheld
        exact .inl (List.mem_append_right _ (List.mem_singleton_self _))
  | setBusy => exact h
  | register => exact h

theorem RowsKept.moves {takes : Prop} (h : RowsKept p) (hinv : RollInv p) (hnot : ¬ takes)
    (hmoves : ProcessMoves upper takes p q) : RowsKept q := by
  have hfalse : takes = False := eq_false hnot
  subst hfalse
  have hboth : RollInv q ∧ RowsKept q := by
    induction hmoves with
    | refl => exact ⟨hinv, h⟩
    | tail _ hmove ih => exact ⟨ih.1.move hmove, ih.2.move ih.1 hmove⟩
  exact hboth.2

/-- A step loses no row, when the inbox loses none that was put back. -/
theorem RowsKept.step {action : ProcessAction} (h : RowsKept p) (hinv : RollInv p)
    (hkeeps : KeepsPutBack upper p action) : RowsKept (processStep upper p action) := by
  by_cases htakes : Takes p action
  · cases action with
    | loop reads =>
        have hloop : p.loop = .admission true := htakes
        have hstep : p.loopStep upper reads =
            { p with loop := .inbox none }.callInbox upper (.next reads.fresh) := by
          rw [AgentProcess.loopStep, hloop]
        have hfree : Free p.loop := by
          rw [hloop]
          exact free_admission true
        have hturn : RowsKept { p with loop := .inbox none } := h.turn hfree
        have hkept (row : InboundMessage) (hrow : PutBack { p with loop := .inbox none } row) :=
          @kept_next upper reads.fresh p.inbox row hrow.queued
            (hkeeps hloop row ⟨hrow.taken, hrow.notCompleted, hrow.queued⟩)
        have hnone (row : InboundMessage) : ¬ Held { p with loop := .inbox none } row := by
          rintro (hheld | hheld)
          · cases hheld
          · cases hheld
        rw [processStep, hstep]
        exact hturn.call hkept fun _ => hnone
    | push fresh msg =>
        exact h.call
          (fun row hrow => kept_tryPush hrow.queued fun hopen => hkeeps hopen row hrow)
          (not_held_of_handed hinv callFlags_tryPush)
    | processing action => exact htakes.elim
    | arm request clock => exact htakes.elim
    | report now => exact htakes.elim
    | leaseTimer now => exact htakes.elim
    | providerTimer => exact htakes.elim
    | pushFront messages => exact htakes.elim
    | resumeAdmitted messages => exact htakes.elim
    | register fences => exact htakes.elim
  · exact h.moves hinv htakes (moves_step hinv action)

/-- The run. -/
theorem rows_kept (channels : List Bool) (actions : List ProcessAction)
    (hkeeps : Along (processStep upper) (KeepsPutBack upper) (.start channels) actions) :
    Throughout (processStep upper) RowsKept (.start channels) actions := by
  have hstart : RollInv (.start channels) ∧ RowsKept (.start channels) :=
    ⟨rollInv_start channels, fun row hrow => by cases hrow⟩
  have hstep (p : AgentProcess) (action : ProcessAction) (h : RollInv p ∧ RowsKept p)
      (hkeeps : KeepsPutBack upper p action) :
      RollInv (processStep upper p action) ∧ RowsKept (processStep upper p action) :=
    ⟨h.1.moves (moves_step h.1 action), h.2.step h.1 hkeeps⟩
  exact (throughout_of_step hstep hstart hkeeps).mono fun _ h => h.2

/-- In every run a lease that reports ready has no row, an idle one has neither a
wait nor a fence, and once it is ready no row is admitted before it has run out.
A row that was taken is processed or in the inbox, as long as the inbox loses
none that was put back. -/
theorem runtime_roll_drain_safe (upper : Text → Text) (channels : List Bool)
    (before after : List ProcessAction) :
    Throughout (processStep upper) DrainSafe (.start channels) (before ++ after) ∧
      ((run (processStep upper) (.start channels) before).runtimeRollDrain.state = .ready →
        (run (processStep upper) (.start channels) (before ++ after)).expiries =
          (run (processStep upper) (.start channels) before).expiries →
        NoRowAdmitted (run (processStep upper) (.start channels) (before ++ after))) ∧
      (Along (processStep upper) (KeepsPutBack upper) (.start channels) (before ++ after) →
        Throughout (processStep upper) RowsKept (.start channels) (before ++ after)) := by
  have hinv : Throughout (processStep upper) RollInv (.start channels) (before ++ after) :=
    throughout_of_step (fun _ action h _ => h.moves (moves_step h action))
      (rollInv_start channels) (along_true (fun _ _ => trivial) _ _)
  exact ⟨hinv.mono fun _ h => h.drainSafe, no_admission_before_expiry channels before after,
    rows_kept channels (before ++ after)⟩

/-! ## A notice and a newer one -/

/-- A notice of one task. -/
def taskNotice (ref : ℕ) : InboundMessage :=
  ⟨ref, js "m1", none, some (js "[system] [Task Assigned] PLS-7"), 0, none⟩

def readsAt (now : ℤ) : LoopReads := ⟨fun _ => now, some 0, ⟨0, 100⟩⟩

def rollRequest : RuntimeRollDrainRequest := ⟨js "roll-1", js "image:2", none⟩

/-- The roll is asked for when the loop has been handed the notice. -/
def armedInBetween : List ProcessAction :=
  [.push ⟨0, 100⟩ (taskNotice 1), .loop (readsAt 0), .loop (readsAt 0),
    .arm rollRequest fun _ => 0, .loop (readsAt 0)]

theorem keepsPutBack_of_none {action : ProcessAction} (h : p.taken.map InboundMessage.ref = []) :
    KeepsPutBack upper p action := by
  have hnone (row : InboundMessage) (hrow : PutBack p row) : False := by
    have hmem := hrow.taken
    rw [List.map_eq_nil_iff.1 h] at hmem
    cases hmem
  cases action with
  | push fresh msg => exact fun _ row hrow => (hnone row hrow).elim
  | loop reads => exact fun _ row hrow => (hnone row hrow).elim
  | processing action => trivial
  | arm request clock => trivial
  | report now => trivial
  | leaseTimer now => trivial
  | providerTimer => trivial
  | pushFront messages => trivial
  | resumeAdmitted messages => trivial
  | register fences => trivial

def LoopAt.admits : LoopAt → Bool
  | .admission granted => granted
  | _ => false

theorem keepsPutBack_of_admits {reads : LoopReads} (h : p.loop.admits = false) :
    KeepsPutBack upper p (.loop reads) := by
  intro hloop
  rw [hloop] at h
  cases h

theorem runtime_roll_drain_safe_armed :
    Along (processStep id) (KeepsPutBack id) (.start [true]) armedInBetween ∧
      Throughout (processStep id) RowsKept (.start [true]) armedInBetween := by
  have hkeeps : Along (processStep id) (KeepsPutBack id) (.start [true]) armedInBetween :=
    ⟨keepsPutBack_of_none (by decide +kernel), keepsPutBack_of_none (by decide +kernel),
      keepsPutBack_of_none (by decide +kernel), trivial,
      keepsPutBack_of_admits (by decide +kernel), trivial⟩
  exact ⟨hkeeps, (runtime_roll_drain_safe id [true] armedInBetween []).2.2 hkeeps⟩

/-- The notice is put back at the end of a turn, and a newer one comes in. -/
def newerNotice : List ProcessAction :=
  [.push ⟨0, 100⟩ (taskNotice 1), .loop (readsAt 0), .loop (readsAt 0), .loop (readsAt 0),
    .arm rollRequest fun _ => 0, .processing (.checkpoint true 0),
    .push ⟨0, 101⟩ (taskNotice 2)]

def LoopAt.putsBack : LoopAt → Bool
  | .processing _ requeued => requeued
  | _ => false

theorem requeued_notice_lost :
    ¬ Throughout (processStep id) RowsKept (.start [true]) newerNotice := by
  intro hrun
  have hkept := hrun.last
  generalize hp : run (processStep id) (.start [true]) newerNotice = p at hkept
  have htaken : p.taken.map InboundMessage.ref = [1] := by
    rw [← hp]
    decide +kernel
  have hcompleted : p.completed.map InboundMessage.ref = [] := by
    rw [← hp]
    decide +kernel
  have hqueue : p.inbox.queue.map InboundMessage.ref = [2] := by
    rw [← hp]
    decide +kernel
  have hrequeued : p.loop.putsBack = true := by
    rw [← hp]
    decide +kernel
  obtain ⟨row, hrow, href⟩ : ∃ row ∈ p.taken, row.ref = 1 := by
    rw [← List.mem_map, htaken]
    exact List.mem_singleton_self 1
  rcases hkept row hrow with hmem | hmem | hheld | hheld
  · have hnone := List.mem_map_of_mem (f := InboundMessage.ref) hmem
    rw [hcompleted] at hnone
    cases hnone
  · have htwo := List.mem_map_of_mem (f := InboundMessage.ref) hmem
    rw [hqueue, href, List.mem_singleton] at htwo
    cases htwo
  · rw [hheld] at hrequeued
    cases hrequeued
  · rw [hheld] at hrequeued
    cases hrequeued

end Shizuha.Gateway
