import Mathlib.Logic.Relation
import Shizuha.Machine
import Shizuha.Proofs.Inbox
import Shizuha.Proofs.RuntimeRollDrain

/-!
# The moves of the process

A step of the process runs from one await to the next, and it asks the lease
several times on the way. It is taken apart into moves (`ProcessMove`), each of
which does one thing: the drain moves, the loop goes from one place to another,
the inbox is called, a row is admitted, given back or settled. What is to hold
in every run is then shown for one move.
-/

namespace Shizuha.Gateway

open Js Shared

variable {p q r : AgentProcess} {now : ℤ} {clock : ℕ → ℤ} {upper : Text → Text}

/-! ## Calls of the inbox -/

/-- A row is handed to a loop that waits, and its wait is over. -/
structure CallFlags (s : Inbox) (o : Inbox × Outcome) : Prop where
  fenced : o.1.ingressSealed = s.ingressSealed
  handed : o.2.returned ≠ none → s.waiting = true ∧ o.1.waiting = false
  kept : o.2.returned = none → o.1.waiting = s.waiting

variable {s : Inbox} {fresh : Fresh} {m : InboundMessage}

theorem callFlags_same {s' : Inbox} {accepted : Bool} (hfenced : s'.ingressSealed = s.ingressSealed)
    (hwaiting : s'.waiting = s.waiting) :
    CallFlags s (s', { Outcome.nothing with accepted }) :=
  ⟨hfenced, fun h => absurd rfl h, fun _ => hwaiting⟩

theorem callFlags_handed {s' : Inbox} (hfenced : s'.ingressSealed = s.ingressSealed)
    (hwaits : s.waiting = true) (hwaiting : s'.waiting = false) :
    CallFlags s (s', .handed m) :=
  ⟨hfenced, fun _ => ⟨hwaits, hwaiting⟩, fun h => by cases h⟩

theorem Admission.fenced {o : Option InboundMessage × Inbox} (h : Admission upper fresh s o) :
    o.2.ingressSealed = s.ingressSealed := by
  cases h <;> rfl

theorem callFlags_pushDeferred : CallFlags s (s.pushDeferred upper fresh m) := by
  have hflags := (enqueued upper s m).2
  rw [Inbox.pushDeferred]
  split_ifs with hwake
  · have hadmission := admission upper fresh (s.enqueueMessage upper m)
    have hwaits : s.waiting = true := by
      rw [Bool.and_eq_true, Bool.and_eq_true, hflags.waiting] at hwake
      exact hwake.1.1
    have hsealed := hadmission.fenced
    have hwaiting := hadmission.waiting
    generalize (s.enqueueMessage upper m).takeWorkingDeferredAdmission upper fresh = o
      at hsealed hwaiting
    obtain ⟨admitted, s'⟩ := o
    cases admitted with
    | none => exact callFlags_same (hsealed.trans hflags.sealed) (hwaiting.trans hflags.waiting)
    | some row => exact callFlags_handed (hsealed.trans hflags.sealed) hwaits rfl
  · exact callFlags_same hflags.sealed hflags.waiting

theorem callFlags_tryPush : CallFlags s (s.tryPush upper fresh m) := by
  rw [Inbox.tryPush]
  by_cases hsealed : s.ingressSealed = true
  · rw [if_pos hsealed]
    exact callFlags_same rfl rfl
  · rw [if_neg hsealed]
    dsimp only
    by_cases hdeferred : isWorkingDeferredTaskNotification m = true
    · rw [if_pos hdeferred]
      have hpush := @callFlags_pushDeferred upper
        { s with admissionVersion := s.admissionVersion + 1 } fresh m
      exact ⟨hpush.fenced, hpush.handed, hpush.kept⟩
    · rw [if_neg hdeferred]
      by_cases hwaits : s.waiting = true
      · rw [if_pos hwaits]
        split_ifs
        · exact callFlags_handed rfl hwaits rfl
        · exact callFlags_handed rfl hwaits rfl
      · rw [if_neg hwaits]
        split_ifs
        · exact callFlags_same rfl rfl
        · have hflags := (enqueued upper { s with admissionVersion := s.admissionVersion + 1 } m).2
          exact callFlags_same hflags.sealed hflags.waiting

theorem callFlags_pushFront (messages : List InboundMessage) :
    CallFlags s (s.pushFront messages) := by
  cases messages with
  | nil => exact callFlags_same rfl rfl
  | cons first rest =>
      obtain ⟨places, hpush⟩ := pushFront_cons s first rest
      rw [hpush]
      split_ifs with hwaits
      · exact callFlags_handed rfl hwaits rfl
      · exact callFlags_same rfl rfl

theorem callFlags_resumeAdmitted (messages : List InboundMessage) :
    CallFlags s (s.resumeAdmitted messages) := by
  have hpush := @callFlags_pushFront
    { s with admittedContinuations := messages.map InboundMessage.ref ++ s.admittedContinuations }
    messages
  exact ⟨hpush.fenced, hpush.handed, hpush.kept⟩

theorem Taken.fenced {o : Option InboundMessage × Inbox} (h : Taken upper fresh s o) :
    o.2.ingressSealed = s.ingressSealed := by
  cases h with
  | admitted _ _ _ _ _ ho => exact ho.fenced
  | nothing | continuation | heartbeat | ordinary => rfl

/-- `next` hands a row over, or waits. -/
theorem next_flags (hwaiting : s.waiting = false) :
    (s.next upper fresh).1.ingressSealed = s.ingressSealed ∧
      ((s.next upper fresh).1.waiting = true ↔ (s.next upper fresh).2.returned = none) := by
  have htaken := taken upper fresh s
  have hfenced := htaken.fenced
  have hwaits := htaken.waiting
  rw [Inbox.next]
  generalize s.takeAdmissible upper fresh = o at hfenced hwaits
  obtain ⟨row, s'⟩ := o
  cases row with
  | none => exact ⟨hfenced, iff_of_true rfl rfl⟩
  | some row =>
      refine ⟨hfenced, iff_of_false ?_ (Option.some_ne_none row)⟩
      rw [hwaits, hwaiting]
      exact Bool.false_ne_true

/-! ## What a step does -/

/-- The loop is at a place to which no flag is tied. -/
structure Resting (loop : LoopAt) : Prop where
  release : loop ≠ .release false
  processing : ∀ msg requeued, loop ≠ .processing msg requeued
  inbox : loop ≠ .inbox none

/-- And it holds no row. -/
structure Free (loop : LoopAt) : Prop extends Resting loop where
  row : ∀ msg, loop ≠ .inbox (some msg)

theorem Resting.woken {a b : LoopAt} (h : Resting a) (hwoken : Woken a b) : Resting b where
  release := by
    intro hb
    subst hb
    cases hwoken with
    | same => exact h.release rfl
  processing := fun msg requeued hb => h.processing msg requeued (hwoken.processing_iff.1 hb)
  inbox := fun hb => h.inbox (hwoken.inbox_iff.1 hb)

theorem Free.woken {a b : LoopAt} (h : Free a) (hwoken : Woken a b) : Free b :=
  ⟨h.toResting.woken hwoken, fun msg hb => h.row msg (hwoken.inbox_iff.1 hb)⟩

theorem free_top : Free .top := ⟨⟨by simp, by simp, by simp⟩, by simp⟩

theorem free_released : Free (.release true) := ⟨⟨by simp, by simp, by simp⟩, by simp⟩

theorem free_provider (resolved : Bool) : Free (.providerAdmission resolved) :=
  ⟨⟨by simp, by simp, by simp⟩, by simp⟩

theorem free_admission (granted : Bool) : Free (.admission granted) :=
  ⟨⟨by simp, by simp, by simp⟩, by simp⟩

theorem resting_handed (msg : InboundMessage) : Resting (.inbox (some msg)) :=
  ⟨by simp, by simp, by simp⟩

/-- The row that the loop holds, and where it is when it has put it back. -/
inductive GivesBack (msg : InboundMessage) : LoopAt → LoopAt → Prop where
  | handed : GivesBack msg (.inbox (some msg)) .top
  | processed : GivesBack msg (.processing msg false) (.processing msg true)

/-- A move of the process; a step is some of them. `takes` says that the step
is one that may take rows out of the queue. -/
inductive ProcessMove (upper : Text → Text) (takes : Prop) (p : AgentProcess) :
    AgentProcess → Prop where
  | drain {q : AgentProcess} (h : DrainStep p q) : ProcessMove upper takes p q
  | turn (loop : LoopAt) (hp : Free p.loop) (hloop : Resting loop) :
      ProcessMove upper takes p { p with loop }
  | park (hp : Free p.loop) (hidle : ¬ p.Idle) :
      ProcessMove upper takes p { p with waiter := true, loop := .release false }
  | next (htakes : takes) (fresh : Fresh) (hloop : p.loop = .admission true) :
      ProcessMove upper takes p ({ p with loop := .inbox none }.callInbox upper (.next fresh))
  | push (htakes : takes) (fresh : Fresh) (msg : InboundMessage) :
      ProcessMove upper takes p (p.callInbox upper (.tryPush fresh msg))
  | pushFront (messages : List InboundMessage) :
      ProcessMove upper takes p (p.callInbox upper (.pushFront messages))
  | resumeAdmitted (messages : List InboundMessage) :
      ProcessMove upper takes p (p.callInbox upper (.resumeAdmitted messages))
  | takeUp (msg : InboundMessage) (hloop : p.loop = .inbox (some msg)) (hidle : p.Idle) :
      ProcessMove upper takes p { p with inboxMessageAdmitted := true, loop := .processing msg false }
  | giveBack (msg : InboundMessage) (loop : LoopAt) (op : InboxOp)
      (hop : op = .pushFront [msg] ∨ op = .resumeAdmitted [msg]) (hback : GivesBack msg p.loop loop) :
      ProcessMove upper takes p { p.callInbox upper op with loop }
  | settle (msg : InboundMessage) (requeued : Bool) (hloop : p.loop = .processing msg requeued) :
      ProcessMove upper takes p { p with
        inboxMessageAdmitted := false
        loop := .top
        completed := if requeued then p.completed else p.completed ++ [msg] }
  | setBusy (busy : Bool) : ProcessMove upper takes p { p with busy }
  | register (channels : List RollChannel) : ProcessMove upper takes p { p with channels }

variable {takes : Prop}

theorem RollInv.resting_admitted (h : RollInv p) (hp : Resting p.loop) :
    p.inboxMessageAdmitted = false := by
  refine Bool.eq_false_iff.2 fun hadmitted => ?_
  obtain ⟨msg, requeued, hloop⟩ := h.admitted.1 hadmitted
  exact hp.processing msg requeued hloop

theorem RollInv.resting_waiter (h : RollInv p) (hp : Resting p.loop) : p.waiter = false :=
  Bool.eq_false_iff.2 fun hwaiter => hp.release (h.waiter.1 hwaiter)

theorem RollInv.resting_waiting (h : RollInv p) (hp : Resting p.loop) : p.inbox.waiting = false :=
  Bool.eq_false_iff.2 fun hwaiting => hp.inbox (h.waiting.1 hwaiting)

/-- The loop is moved between two places to which nothing is tied. -/
theorem RollInv.turn {loop : LoopAt} (h : RollInv p) (hp : Resting p.loop) (hloop : Resting loop) :
    RollInv { p with loop } where
  admitted := by
    refine iff_of_false ?_ ?_
    · rw [h.resting_admitted hp]
      exact Bool.false_ne_true
    · rintro ⟨msg, requeued, heq⟩
      exact hloop.processing msg requeued heq
  ready := h.ready
  waiter := by
    refine iff_of_false ?_ hloop.release
    rw [h.resting_waiter hp]
    exact Bool.false_ne_true
  release := fun heq => absurd heq hloop.release
  fenced := h.fenced
  timer := h.timer
  waiting := by
    refine iff_of_false ?_ hloop.inbox
    rw [h.resting_waiting hp]
    exact Bool.false_ne_true

theorem callInbox_eq (op : InboxOp) : p.callInbox upper op =
    { p with inbox := (p.inbox.call upper op).1 }.hand (p.inbox.call upper op).2.returned := rfl

/-- A call of the inbox, which may hand a row over. -/
theorem RollInv.call {op : InboxOp} (h : RollInv p)
    (hcall : CallFlags p.inbox (p.inbox.call upper op)) : RollInv (p.callInbox upper op) := by
  rw [callInbox_eq]
  generalize p.inbox.call upper op = o at hcall
  obtain ⟨inbox, outcome⟩ := o
  have hfenced := hcall.fenced
  have hhanded := hcall.handed
  have hkept := hcall.kept
  dsimp only at hfenced hhanded hkept ⊢
  cases hreturned : outcome.returned with
  | none =>
      exact
        { admitted := h.admitted
          ready := h.ready
          waiter := h.waiter
          release := h.release
          fenced := fun heq => h.fenced (hfenced ▸ heq)
          timer := h.timer
          waiting := by
            rw [AgentProcess.hand, hkept hreturned]
            exact h.waiting }
  | some msg =>
      obtain ⟨hwaits, hwaiting⟩ := hhanded (by rw [hreturned]; exact Option.some_ne_none msg)
      have hloop := h.waiting.1 hwaits
      have hadmitted := h.admitted
      have hwaiter := h.waiter
      rw [hloop] at hadmitted hwaiter
      exact
        { admitted := by simpa [AgentProcess.hand] using hadmitted
          ready := h.ready
          waiter := by simpa [AgentProcess.hand] using hwaiter
          release := fun heq => by cases heq
          fenced := fun heq => h.fenced (hfenced ▸ heq)
          timer := h.timer
          waiting := by simp [AgentProcess.hand, hwaiting] }

theorem RollInv.next (h : RollInv p) (fresh : Fresh) (hp : Resting p.loop) :
    RollInv ({ p with loop := .inbox none }.callInbox upper (.next fresh)) := by
  obtain ⟨hfenced, hwaits⟩ := @next_flags upper p.inbox fresh (h.resting_waiting hp)
  have hadmitted := h.resting_admitted hp
  have hwaiter := h.resting_waiter hp
  rw [callInbox_eq]
  dsimp only [Inbox.call]
  generalize p.inbox.next upper fresh = o at hfenced hwaits
  obtain ⟨inbox, outcome⟩ := o
  dsimp only at hfenced hwaits ⊢
  cases hreturned : outcome.returned with
  | none =>
      rw [hreturned] at hwaits
      exact
        { admitted := by simp [AgentProcess.hand, hadmitted]
          ready := h.ready
          waiter := by simp [AgentProcess.hand, hwaiter]
          release := fun heq => by cases heq
          fenced := fun heq => h.fenced (hfenced ▸ heq)
          timer := h.timer
          waiting := iff_of_true (hwaits.2 rfl) rfl }
  | some msg =>
      rw [hreturned] at hwaits
      exact
        { admitted := by simp [AgentProcess.hand, hadmitted]
          ready := h.ready
          waiter := by simp [AgentProcess.hand, hwaiter]
          release := fun heq => by cases heq
          fenced := fun heq => h.fenced (hfenced ▸ heq)
          timer := h.timer
          waiting := by simpa [AgentProcess.hand] using hwaits }

theorem callFlags_giveBack {op : InboxOp} {msg : InboundMessage}
    (hop : op = .pushFront [msg] ∨ op = .resumeAdmitted [msg]) :
    CallFlags p.inbox (p.inbox.call upper op) := by
  rcases hop with rfl | rfl
  · exact callFlags_pushFront [msg]
  · exact callFlags_resumeAdmitted [msg]

/-- A loop that does not wait for the inbox is handed nothing. -/
theorem callInbox_kept {op : InboxOp} (h : RollInv p)
    (hcall : CallFlags p.inbox (p.inbox.call upper op)) (hloop : p.loop ≠ .inbox none) :
    p.callInbox upper op = { p with inbox := (p.inbox.call upper op).1 } := by
  have hnone : (p.inbox.call upper op).2.returned = none := by
    by_contra hsome
    exact hloop (h.waiting.1 (hcall.handed hsome).1)
  rw [callInbox_eq, hnone]
  rfl

theorem RollInv.giveBack {op : InboxOp} {msg : InboundMessage} {loop : LoopAt} (h : RollInv p)
    (hop : op = .pushFront [msg] ∨ op = .resumeAdmitted [msg]) (hback : GivesBack msg p.loop loop) :
    RollInv { p.callInbox upper op with loop } := by
  have hcall := @callFlags_giveBack p upper op msg hop
  have hinv := h.call hcall
  generalize hp : p.loop = at' at hback
  cases hback with
  | handed =>
      have hkept := callInbox_kept h hcall (by rw [hp]; simp)
      rw [hkept] at hinv ⊢
      have hresting : Resting p.loop := by
        rw [hp]
        exact resting_handed msg
      exact hinv.turn hresting free_top.toResting
  | processed =>
      have hkept := callInbox_kept h hcall (by rw [hp]; simp)
      rw [hkept] at hinv ⊢
      have hadmitted := hinv.admitted
      have hwaiter := hinv.waiter
      have hwaiting := hinv.waiting
      dsimp only at hadmitted hwaiter hwaiting
      rw [hp] at hadmitted hwaiter hwaiting
      exact
        { admitted := by simpa using hadmitted
          ready := hinv.ready
          waiter := by simpa using hwaiter
          release := fun heq => by cases heq
          fenced := hinv.fenced
          timer := hinv.timer
          waiting := by simpa using hwaiting }

theorem RollInv.move (h : RollInv p) (hmove : ProcessMove upper takes p q) : RollInv q := by
  cases hmove with
  | drain hstep => exact hstep.inv
  | turn loop hp hloop => exact h.turn hp.toResting hloop
  | park hp hidle =>
      exact
        { admitted := by simp [h.resting_admitted hp.toResting]
          ready := h.ready
          waiter := iff_of_true rfl rfl
          release := fun _ => hidle
          fenced := h.fenced
          timer := h.timer
          waiting := by simp [h.resting_waiting hp.toResting] }
  | next htakes fresh hloop =>
      refine h.next fresh ?_
      rw [hloop]
      exact (free_admission true).toResting
  | push htakes fresh msg => exact h.call callFlags_tryPush
  | pushFront messages => exact h.call (callFlags_pushFront messages)
  | resumeAdmitted messages => exact h.call (callFlags_resumeAdmitted messages)
  | takeUp msg hloop hidle =>
      have hresting : Resting p.loop := by
        rw [hloop]
        exact resting_handed msg
      have hready : p.runtimeRollDrain.state ≠ .ready := by
        rw [hidle]
        decide
      exact
        { admitted := iff_of_true rfl ⟨msg, false, rfl⟩
          ready := fun heq => absurd heq hready
          waiter := by simp [h.resting_waiter hresting]
          release := fun heq => by cases heq
          fenced := h.fenced
          timer := h.timer
          waiting := by simp [h.resting_waiting hresting] }
  | giveBack msg loop op hop hback => exact h.giveBack hop hback
  | settle msg requeued hloop =>
      have hwaiter := h.waiter
      have hwaiting := h.waiting
      rw [hloop] at hwaiter hwaiting
      exact
        { admitted := by simp
          ready := fun _ => rfl
          waiter := by simpa using hwaiter
          release := fun heq => by cases heq
          fenced := h.fenced
          timer := h.timer
          waiting := by simpa using hwaiting }
  | setBusy busy => exact ⟨h.admitted, h.ready, h.waiter, h.release, h.fenced, h.timer, h.waiting⟩
  | register channels =>
      exact ⟨h.admitted, h.ready, h.waiter, h.release, h.fenced, h.timer, h.waiting⟩

/-! ## A step is made of moves -/

abbrev ProcessMoves (upper : Text → Text) (takes : Prop) : AgentProcess → AgentProcess → Prop :=
  Relation.ReflTransGen (ProcessMove upper takes)

theorem moves_drain (h : DrainStep p q) : ProcessMoves upper takes p q := .single (.drain h)

theorem RollInv.moves (h : RollInv p) (hmoves : ProcessMoves upper takes p q) : RollInv q := by
  induction hmoves with
  | refl => exact h
  | tail _ hmove ih => exact ih.move hmove

theorem moves_waitForProviderAdmission (h : RollInv p) (hp : Free p.loop) (reads : LoopReads)
    (clock : ℕ → ℤ) : ProcessMoves upper takes p (p.waitForProviderAdmission reads clock) := by
  rw [AgentProcess.waitForProviderAdmission]
  have hasked := asked p (clock 0)
  generalize p.active (clock 0) = answer at hasked
  obtain ⟨active, q⟩ := answer
  have hstep := hasked.step h
  have hq : Free q.loop := hp.woken hstep.move.loop
  have hmoves : ProcessMoves upper takes p q := moves_drain hstep
  cases active with
  | true => exact hmoves.tail (.turn _ hq (free_admission false).toResting)
  | false =>
      dsimp only
      cases reads.remaining with
      | none =>
          have hadmitted := hstep.inv.resting_admitted hq.toResting
          have hthrown : { q with inboxMessageAdmitted := false, loop := .top } =
              { q with loop := .top } := by rw [← hadmitted]
          dsimp only
          rw [hthrown]
          exact hmoves.tail (.turn _ hq free_top.toResting)
      | some remaining =>
          dsimp only
          split_ifs
          · exact hmoves.tail (.turn _ hq (free_admission true).toResting)
          · have hwait := hstep.inv.turn hq.toResting (free_provider false).toResting
            have hmoves' : ProcessMoves upper takes p { q with loop := .providerAdmission false } :=
              hmoves.tail (.turn _ hq (free_provider false).toResting)
            have hasked' := asked { q with loop := .providerAdmission false } (clock 1)
            generalize AgentProcess.active { q with loop := .providerAdmission false } (clock 1) =
              answer' at hasked'
            obtain ⟨active', r⟩ := answer'
            have hstep' := hasked'.step hwait
            cases active' with
            | true => exact (hmoves'.tail (.drain hstep')).tail (.drain (drainStep_cancel hstep'.inv))
            | false => exact hmoves'.tail (.drain hstep')

/-- The waiter is installed; the lease may have run out until then, or runs out
now. -/
theorem moves_park (h : RollInv p) (hp : Free p.loop) (now : ℤ) :
    ProcessMoves upper takes p
      (match { p with waiter := true, loop := .release false }.active now with
      | (true, p) => p
      | (false, p) => { p with waiter := false, loop := p.loop.released }) := by
  by_cases hidle : p.Idle
  · have hasked := asked { p with waiter := true, loop := .release false } now
    generalize AgentProcess.active { p with waiter := true, loop := .release false } now = answer
      at hasked
    have hwaiter : { p with waiter := false, loop := LoopAt.release true } =
        { p with loop := .release true } := by rw [← h.resting_waiter hp.toResting]
    cases hasked with
    | active hnot => exact absurd hidle hnot
    | idle =>
        dsimp only [LoopAt.released]
        rw [hwaiter]
        exact .single (.turn _ hp free_released.toResting)
    | expired hnot => exact absurd hidle hnot
  · have hpark : ProcessMove upper takes p { p with waiter := true, loop := .release false } :=
      .park hp hidle
    have hinv := h.move hpark
    have hasked := asked { p with waiter := true, loop := .release false } now
    generalize AgentProcess.active { p with waiter := true, loop := .release false } now = answer
      at hasked
    cases hasked with
    | active => exact .single hpark
    | idle hnow => exact absurd hnow hidle
    | expired =>
        have hstep := drainStep_expired hinv
        have hwaiter : (AgentProcess.expired { p with waiter := true, loop := .release false }).waiter =
          false := rfl
        have hloop : (AgentProcess.expired { p with waiter := true, loop := .release false }).loop =
          .release true := rfl
        dsimp only
        rw [hloop, LoopAt.released, ← hloop, ← hwaiter]
        exact (Relation.ReflTransGen.single hpark).tail (.drain hstep)

theorem moves_waitForRuntimeRollDrainRelease (h : RollInv p) (hp : Free p.loop)
    (clock : ℕ → ℤ) : ProcessMoves upper takes p (p.waitForRuntimeRollDrainRelease clock) := by
  rw [AgentProcess.waitForRuntimeRollDrainRelease]
  have hasked := asked p (clock 0)
  generalize p.active (clock 0) = answer at hasked
  obtain ⟨active, q⟩ := answer
  have hstep := hasked.step h
  cases active with
  | false => exact moves_drain hstep
  | true =>
      have hmark := hstep.trans
        (drainStep_markRuntimeRollReadyIfIdle hstep.inv fun i => clock (i + 1))
      exact (moves_drain hmark).trans (moves_park hmark.inv (hp.woken hmark.move.loop) (clock 3))

theorem moves_loopStep (h : RollInv p) (reads : LoopReads) :
    ProcessMoves upper (p.loop = .admission true) p (p.loopStep upper reads) := by
  rw [AgentProcess.loopStep]
  dsimp only
  cases hloop : p.loop with
  | top =>
      have hp : Free p.loop := by
        rw [hloop]
        exact free_top
      have hasked := asked p (reads.clock 0)
      generalize p.active (reads.clock 0) = answer at hasked
      obtain ⟨active, q⟩ := answer
      have hstep := hasked.step h
      have hq := hp.woken hstep.move.loop
      cases active with
      | true => exact (moves_drain hstep).trans (moves_waitForRuntimeRollDrainRelease hstep.inv hq _)
      | false => exact (moves_drain hstep).trans (moves_waitForProviderAdmission hstep.inv hq reads _)
  | release resolved =>
      cases resolved with
      | true =>
          have hp : Free p.loop := by
            rw [hloop]
            exact free_released
          exact .single (.turn _ hp free_top.toResting)
      | false => exact .refl
  | providerAdmission resolved =>
      cases resolved with
      | true =>
          have hp : Free p.loop := by
            rw [hloop]
            exact free_provider true
          exact moves_waitForProviderAdmission h hp reads reads.clock
      | false => exact .refl
  | admission granted =>
      cases granted with
      | true => exact .single (.next rfl reads.fresh hloop)
      | false =>
          have hp : Free p.loop := by
            rw [hloop]
            exact free_admission false
          exact .single (.turn _ hp free_top.toResting)
  | inbox handed =>
      cases handed with
      | none => exact .refl
      | some msg =>
          have hasked := asked p (reads.clock 0)
          generalize p.active (reads.clock 0) = answer at hasked
          obtain ⟨active, q⟩ := answer
          have hstep := hasked.step h
          have hq : q.loop = .inbox (some msg) := hstep.move.loop.inbox_iff.2 hloop
          cases active with
          | true =>
              have hback : ProcessMove upper (LoopAt.inbox (some msg) = .admission true) q
                  { q.callInbox upper (.pushFront [msg]) with loop := .top } := by
                refine .giveBack msg .top _ (.inl rfl) ?_
                rw [hq]
                exact .handed
              have hinv := hstep.inv.move hback
              exact ((moves_drain hstep).tail hback).tail
                (.drain (drainStep_markRuntimeRollReadyIfIdle hinv _))
          | false => exact (moves_drain hstep).tail (.takeUp msg hq hasked.idle_of_false)
  | processing msg requeued => exact .refl

theorem moves_process (h : RollInv p) {msg : InboundMessage} {requeued : Bool}
    (hloop : p.loop = .processing msg requeued) (action : ProcessingAction) :
    ProcessMoves upper takes p (p.process upper msg requeued action) := by
  have hback {q : AgentProcess} {op : InboxOp} (hq : q.loop = .processing msg false)
      (hop : op = .pushFront [msg] ∨ op = .resumeAdmitted [msg]) :
      ProcessMove upper takes q { q.callInbox upper op with loop := .processing msg true } := by
    refine .giveBack msg _ op hop ?_
    rw [hq]
    exact .processed
  cases action with
  | setBusy busy => exact .single (.setBusy busy)
  | settle => exact .single (.settle msg requeued hloop)
  | requeue =>
      cases requeued with
      | true => exact .refl
      | false => exact .single (hback hloop (.inl rfl))
  | deferToProvider =>
      cases requeued with
      | true => exact .refl
      | false => exact .single (hback hloop (.inr rfl))
  | checkpoint continuing now =>
      rw [AgentProcess.process]
      split_ifs with hskip
      · exact .refl
      · have hnot : requeued = false := by
          rw [Bool.or_eq_true, not_or] at hskip
          exact Bool.eq_false_iff.2 hskip.1
        subst hnot
        have hasked := asked p now
        generalize p.active now = answer at hasked
        obtain ⟨active, q⟩ := answer
        have hstep := hasked.step h
        cases active with
        | true =>
            exact (moves_drain hstep).tail
              (hback (hstep.move.loop.processing_iff.2 hloop) (.inl rfl))
        | false => exact moves_drain hstep

/-- The steps that may take rows out of the queue. -/
def Takes (p : AgentProcess) : ProcessAction → Prop
  | .loop _ => p.loop = .admission true
  | .push _ _ => True
  | _ => False

theorem moves_step (h : RollInv p) (action : ProcessAction) :
    ProcessMoves upper (Takes p action) p (processStep upper p action) := by
  cases action with
  | loop reads => exact moves_loopStep h reads
  | processing action =>
      rw [processStep]
      split
      · next msg requeued hloop => exact moves_process h hloop action
      · exact .refl
  | arm request clock =>
      rw [processStep]
      cases harm : p.armRuntimeRollDrain request clock with
      | error e => exact .refl
      | ok answer => exact moves_drain (drainStep_armRuntimeRollDrain h harm)
  | report now => exact moves_drain (drainStep_snapshot h now)
  | leaseTimer now => exact moves_drain (drainStep_leaseTimer h now)
  | providerTimer => exact moves_drain (drainStep_cancel h)
  | push fresh msg => exact .single (.push trivial fresh msg)
  | pushFront messages => exact .single (.pushFront messages)
  | resumeAdmitted messages => exact .single (.resumeAdmitted messages)
  | register fences => exact .single (.register _)

end Shizuha.Gateway

/-!
# A drain that is ready has no row

The lease can only be marked ready while no row is admitted, a row is only
admitted while the lease is idle, and it becomes idle by running out and in no
other way.
-/

namespace Shizuha.Gateway

open Js Shared Machine

variable {p q : AgentProcess} {now : ℤ} {upper : Text → Text} {takes : Prop}

/-! ## Every run -/

theorem rollInv_start (channels : List Bool) : RollInv (.start channels) where
  admitted := by simp [AgentProcess.start]
  ready := fun _ => rfl
  waiter := by simp [AgentProcess.start]
  release := fun heq => by cases heq
  fenced := fun heq => by cases heq
  timer := fun hidle => absurd rfl hidle
  waiting := by simp [AgentProcess.start, Inbox.empty]

theorem rollInv_run (channels : List Bool) (actions : List ProcessAction) :
    RollInv (run (processStep upper) (.start channels) actions) :=
  run_invariant (fun _ action h _ => h.moves (moves_step h action)) (rollInv_start channels)
    (along_true (fun _ _ => trivial) _ actions)

/-- No row is admitted or processed. -/
structure NoRowAdmitted (p : AgentProcess) : Prop where
  flag : p.inboxMessageAdmitted = false
  loop : ∀ msg requeued, p.loop ≠ .processing msg requeued

/-- A lease that reports ready has no row, and a lease that is idle has no wait
and no fence; any other has a timer that will end it. -/
structure DrainSafe (p : AgentProcess) : Prop where
  ready : ∀ now, (p.ready now).1 = true → NoRowAdmitted p
  release : p.Idle → p.loop ≠ .release false
  fenced : p.Idle → p.inbox.ingressSealed = false
  timer : ¬ p.Idle → p.runtimeRollDrain.expiryTimer = true

theorem RollInv.noRowAdmitted (h : RollInv p) (hadmitted : p.inboxMessageAdmitted = false) :
    NoRowAdmitted p := by
  refine ⟨hadmitted, fun msg requeued hloop => ?_⟩
  rw [h.admitted.2 ⟨msg, requeued, hloop⟩] at hadmitted
  cases hadmitted

theorem ready_of_reported (h : (p.ready now).1 = true) : p.runtimeRollDrain.state = .ready := by
  have hready : (p.expireIfNeeded now).runtimeRollDrain.state = .ready := of_decide_eq_true h
  rw [AgentProcess.expireIfNeeded, AgentProcess.expire] at hready
  split_ifs at hready with hdue hidle
  · exact hready
  · cases hready
  · exact hready

theorem RollInv.drainSafe (h : RollInv p) : DrainSafe p where
  ready := fun _ hreported => h.noRowAdmitted (h.ready (ready_of_reported hreported))
  release := fun hidle hloop => h.release hloop hidle
  fenced := fun hidle => Bool.eq_false_iff.2 fun hfenced => h.fenced hfenced hidle
  timer := h.timer

/-! ## From readiness to expiry -/

/-- The lease has run out since, or it has not and no row has been admitted. -/
def Pledged (n : ℕ) (p : AgentProcess) : Prop :=
  n < p.expiries ∨ p.expiries = n ∧ ¬ p.Idle ∧ p.inboxMessageAdmitted = false

theorem expiries_hand (returned : Option InboundMessage) (p : AgentProcess) :
    (p.hand returned).expiries = p.expiries ∧
      (p.hand returned).runtimeRollDrain = p.runtimeRollDrain ∧
      (p.hand returned).inboxMessageAdmitted = p.inboxMessageAdmitted := by
  cases returned <;> exact ⟨rfl, rfl, rfl⟩

theorem Pledged.call {n : ℕ} (h : Pledged n p) (op : InboxOp) :
    Pledged n (p.callInbox upper op) := by
  obtain ⟨hexpiries, hdrain, hadmitted⟩ := expiries_hand (p.inbox.call upper op).2.returned
    { p with inbox := (p.inbox.call upper op).1 }
  rw [callInbox_eq, Pledged, AgentProcess.Idle, hexpiries, hdrain, hadmitted]
  exact h

theorem Pledged.move {n : ℕ} (h : Pledged n p) (hmove : ProcessMove upper takes p q) : Pledged n q := by
  cases hmove with
  | drain hstep =>
      have hle := hstep.move.expiries
      rcases h with hlt | ⟨heq, hidle, hadmitted⟩
      · exact .inl (hlt.trans_le hle)
      · rcases hle.lt_or_eq with hlt | hsame
        · exact .inl (heq ▸ hlt)
        · exact .inr ⟨hsame ▸ heq, hstep.move.lease hsame.symm hidle,
            hstep.move.admitted.trans hadmitted⟩
  | turn => exact h
  | park => exact h
  | next htakes fresh => exact Pledged.call (p := { p with loop := .inbox none }) h (.next fresh)
  | push htakes fresh msg => exact h.call (.tryPush fresh msg)
  | pushFront messages => exact h.call (.pushFront messages)
  | resumeAdmitted messages => exact h.call (.resumeAdmitted messages)
  | takeUp msg hloop hidle => exact .inl (h.resolve_right fun hpledged => hpledged.2.1 hidle)
  | giveBack msg loop op => exact h.call op
  | settle => exact h.imp_right fun hpledged => ⟨hpledged.1, hpledged.2.1, rfl⟩
  | setBusy => exact h
  | register => exact h

theorem Pledged.moves {n : ℕ} (h : Pledged n p) (hmoves : ProcessMoves upper takes p q) : Pledged n q := by
  induction hmoves with
  | refl => exact h
  | tail _ hmove ih => exact ih.move hmove

/-- Once the lease is ready no row is admitted before it has run out. -/
theorem no_admission_before_expiry (channels : List Bool) (before after : List ProcessAction)
    (hready : (run (processStep upper) (.start channels) before).runtimeRollDrain.state = .ready)
    (hexpiries : (run (processStep upper) (.start channels) (before ++ after)).expiries =
      (run (processStep upper) (.start channels) before).expiries) :
    NoRowAdmitted (run (processStep upper) (.start channels) (before ++ after)) := by
  have hbefore := @rollInv_run upper channels before
  have hpledged : Pledged (run (processStep upper) (.start channels) before).expiries
      (run (processStep upper) (.start channels) (before ++ after)) := by
    rw [run_append]
    generalize run (processStep upper) (.start channels) before = p at hready hbefore
    have hidle : ¬ p.Idle := by
      rw [AgentProcess.Idle, hready]
      decide
    have hstart : RollInv p ∧ Pledged p.expiries p :=
      ⟨hbefore, .inr ⟨rfl, hidle, hbefore.ready hready⟩⟩
    have hstep (q : AgentProcess) (action : ProcessAction)
        (h : RollInv q ∧ Pledged p.expiries q) (_ : True) :
        RollInv (processStep upper q action) ∧ Pledged p.expiries (processStep upper q action) :=
      ⟨h.1.moves (moves_step h.1 action), h.2.moves (moves_step h.1 action)⟩
    have hrun := run_invariant hstep hstart (along_true (fun _ _ => trivial) p after)
    exact hrun.2
  have hafter := @rollInv_run upper channels (before ++ after)
  rcases hpledged with hlt | ⟨-, -, hadmitted⟩
  · omega
  · exact hafter.noRowAdmitted hadmitted

end Shizuha.Gateway
