import Shizuha.Gateway.RuntimeRoll

/-!
# What the drain does to the process

Whoever asks the lease for its state may find it run out, so what the drain does
is a move of its own: it changes the lease, the fences and a wait of the loop,
and nothing of a row (`DrainMove`). The invariant `RollInv` ties the flags to
where the loop is, and every function of the drain is shown to be such a move
that keeps it (`DrainStep`).
-/

namespace Shizuha.Gateway

open Js Shared

variable {p q r : AgentProcess} {now : ℤ} {clock : ℕ → ℤ} {upper : Text → Text}

abbrev AgentProcess.Idle (p : AgentProcess) : Prop := p.runtimeRollDrain.state = .idle

/-! ## What the drain moves -/

/-- A wait of the loop is over. -/
inductive Woken : LoopAt → LoopAt → Prop where
  | same (loop : LoopAt) : Woken loop loop
  | release : Woken (.release false) (.release true)
  | provider (resolved : Bool) : Woken (.providerAdmission resolved) (.providerAdmission true)

theorem Woken.trans {a b c : LoopAt} (h : Woken a b) (h' : Woken b c) : Woken a c := by
  cases h with
  | same => exact h'
  | release =>
      cases h' with
      | same => exact .release
  | provider resolved =>
      cases h' with
      | same => exact .provider resolved
      | provider => exact .provider resolved

theorem Woken.processing_iff {a b : LoopAt} (h : Woken a b) {msg : InboundMessage}
    {requeued : Bool} : b = .processing msg requeued ↔ a = .processing msg requeued := by
  cases h with
  | same => rfl
  | release => simp
  | provider => simp

theorem Woken.inbox_iff {a b : LoopAt} (h : Woken a b) {handed : Option InboundMessage} :
    b = .inbox handed ↔ a = .inbox handed := by
  cases h with
  | same => rfl
  | release => simp
  | provider => simp

/-- A move of the drain. -/
structure DrainMove (p q : AgentProcess) : Prop where
  inbox : ∃ ingressSealed, q.inbox = { p.inbox with ingressSealed }
  admitted : q.inboxMessageAdmitted = p.inboxMessageAdmitted
  busy : q.busy = p.busy
  taken : q.taken = p.taken
  completed : q.completed = p.completed
  loop : Woken p.loop q.loop
  expiries : p.expiries ≤ q.expiries
  lease : q.expiries = p.expiries → ¬ p.Idle → ¬ q.Idle

theorem DrainMove.refl (p : AgentProcess) : DrainMove p p :=
  ⟨⟨p.inbox.ingressSealed, rfl⟩, rfl, rfl, rfl, rfl, .same _, le_rfl, fun _ h => h⟩

theorem DrainMove.trans (h : DrainMove p q) (h' : DrainMove q r) : DrainMove p r where
  inbox := by
    obtain ⟨a, ha⟩ := h.inbox
    obtain ⟨b, hb⟩ := h'.inbox
    exact ⟨b, by rw [hb, ha]⟩
  admitted := h'.admitted.trans h.admitted
  busy := h'.busy.trans h.busy
  taken := h'.taken.trans h.taken
  completed := h'.completed.trans h.completed
  loop := h.loop.trans h'.loop
  expiries := h.expiries.trans h'.expiries
  lease := by
    intro heq hp
    have hle := h.expiries
    have hle' := h'.expiries
    exact h'.lease (by omega) (h.lease (by omega) hp)

/-- The ties between the flags and the loop. -/
structure RollInv (p : AgentProcess) : Prop where
  admitted : p.inboxMessageAdmitted = true ↔ ∃ msg requeued, p.loop = .processing msg requeued
  ready : p.runtimeRollDrain.state = .ready → p.inboxMessageAdmitted = false
  waiter : p.waiter = true ↔ p.loop = .release false
  release : p.loop = .release false → ¬ p.Idle
  fenced : p.inbox.ingressSealed = true → ¬ p.Idle
  timer : ¬ p.Idle → p.runtimeRollDrain.expiryTimer = true
  waiting : p.inbox.waiting = true ↔ p.loop = .inbox none

/-! ## The lease runs out -/

theorem woken_released (loop : LoopAt) : Woken loop loop.released := by
  cases loop with
  | release resolved =>
      cases resolved with
      | false => exact .release
      | true => exact .same _
  | top => exact .same _
  | providerAdmission resolved => exact .same _
  | admission granted => exact .same _
  | inbox handed => exact .same _
  | processing msg requeued => exact .same _

theorem released_of_ne {loop : LoopAt} (h : loop ≠ .release false) : loop.released = loop := by
  cases loop with
  | release resolved =>
      cases resolved with
      | false => exact absurd rfl h
      | true => rfl
  | top => rfl
  | providerAdmission resolved => rfl
  | admission granted => rfl
  | inbox handed => rfl
  | processing msg requeued => rfl

theorem released_ne (loop : LoopAt) : loop.released ≠ .release false := by
  cases loop <;> simp [LoopAt.released]

/-- The process once the lease has run out. -/
def AgentProcess.expired (p : AgentProcess) : AgentProcess :=
  { p with runtimeRollDrain := .unarmed, expiries := p.expiries + 1 }.onLeaseExpired

theorem expired_loop (h : RollInv p) : p.expired.loop = p.loop.released := by
  cases hwaiter : p.waiter with
  | true =>
      have hloop : p.expired.loop = if p.waiter then p.loop.released else p.loop := rfl
      rw [hloop, if_pos hwaiter]
  | false =>
      have hloop : p.expired.loop = if p.waiter then p.loop.released else p.loop := rfl
      have hnot : p.loop ≠ .release false := by
        intro hrelease
        rw [h.waiter.2 hrelease] at hwaiter
        cases hwaiter
      rw [hloop, if_neg (by rw [hwaiter]; exact Bool.false_ne_true)]
      exact (released_of_ne hnot).symm

theorem drainMove_expired (h : RollInv p) : DrainMove p p.expired where
  inbox := ⟨false, rfl⟩
  admitted := rfl
  busy := rfl
  taken := rfl
  completed := rfl
  loop := by
    rw [expired_loop h]
    exact woken_released p.loop
  expiries := Nat.le_succ _
  lease := fun heq => absurd heq (Nat.succ_ne_self _)

theorem rollInv_expired (h : RollInv p) : RollInv p.expired where
  admitted := by
    simp only [expired_loop h, (woken_released p.loop).processing_iff]
    exact h.admitted
  ready := fun hready => by cases hready
  waiter := by
    rw [expired_loop h]
    exact iff_of_false Bool.false_ne_true (released_ne p.loop)
  release := by
    rw [expired_loop h]
    exact fun hrelease => absurd hrelease (released_ne p.loop)
  fenced := fun hfenced => absurd hfenced Bool.false_ne_true
  timer := fun hidle => absurd rfl hidle
  waiting := by
    rw [expired_loop h, (woken_released p.loop).inbox_iff]
    exact h.waiting

/-! ## The getters -/

/-- What asking the lease answers and does. -/
inductive Asked (p : AgentProcess) (now : ℤ) : Bool × AgentProcess → Prop where
  | active (hidle : ¬ p.Idle) (hlease : now < p.runtimeRollDrain.leaseUntil) : Asked p now (true, p)
  | idle (hidle : p.Idle) : Asked p now (false, p)
  | expired (hidle : ¬ p.Idle) : Asked p now (false, p.expired)

theorem asked (p : AgentProcess) (now : ℤ) : Asked p now (p.active now) := by
  have hactive : p.active now = (decide ((p.expireIfNeeded now).runtimeRollDrain.state ≠ .idle),
    p.expireIfNeeded now) := rfl
  rw [hactive, AgentProcess.expireIfNeeded]
  by_cases hidle : p.Idle
  · have hdue : ¬ p.runtimeRollDrain.due now = true := by
      rw [RuntimeRollDrainLease.due, hidle]
      exact Bool.false_ne_true
    rw [if_neg hdue, decide_eq_false (not_not.2 hidle)]
    exact .idle hidle
  · by_cases hlease : p.runtimeRollDrain.leaseUntil ≤ now
    · have hdue : p.runtimeRollDrain.due now = true := by
        rw [RuntimeRollDrainLease.due, decide_eq_true hlease, Bool.and_true]
        exact decide_eq_true hidle
      have hexpire : p.expire = p.expired := if_neg hidle
      rw [if_pos hdue, hexpire]
      exact .expired hidle
    · have hdue : ¬ p.runtimeRollDrain.due now = true := by
        rw [RuntimeRollDrainLease.due, decide_eq_false hlease, Bool.and_false]
        exact Bool.false_ne_true
      rw [if_neg hdue, decide_eq_true hidle]
      exact .active hidle (not_le.1 hlease)

/-- A move of the drain that keeps the invariant. -/
structure DrainStep (p q : AgentProcess) : Prop where
  move : DrainMove p q
  inv : RollInv q

theorem DrainStep.refl (h : RollInv p) : DrainStep p p := ⟨.refl p, h⟩

theorem DrainStep.trans (h : DrainStep p q) (h' : DrainStep q r) : DrainStep p r :=
  ⟨h.move.trans h'.move, h'.inv⟩

theorem drainStep_expired (h : RollInv p) : DrainStep p p.expired :=
  ⟨drainMove_expired h, rollInv_expired h⟩

theorem Asked.step {a : Bool} (h : RollInv p) (ha : Asked p now (a, q)) : DrainStep p q := by
  cases ha with
  | active => exact .refl h
  | idle => exact .refl h
  | expired => exact drainStep_expired h

theorem Asked.not_idle (ha : Asked p now (true, q)) : ¬ q.Idle := by
  cases ha with
  | active hidle => exact hidle

theorem Asked.idle_of_false (ha : Asked p now (false, q)) : q.Idle := by
  cases ha with
  | idle hidle => exact hidle
  | expired => rfl

/-! ## Readiness -/

theorem drainStep_state {state : RuntimeRollDrainState} (h : RollInv p) (hidle : ¬ p.Idle)
    (hstate : state ≠ .idle) (hready : state = .ready → p.inboxMessageAdmitted = false) :
    DrainStep p { p with runtimeRollDrain := { p.runtimeRollDrain with state } } where
  move := ⟨⟨p.inbox.ingressSealed, rfl⟩, rfl, rfl, rfl, rfl, .same _, le_rfl, fun _ _ => hstate⟩
  inv :=
    { admitted := h.admitted
      ready := hready
      waiter := h.waiter
      release := fun _ => hstate
      fenced := fun _ => hstate
      timer := fun _ => h.timer hidle
      waiting := h.waiting }

theorem drainStep_markReady (h : RollInv p) (hadmitted : p.inboxMessageAdmitted = false) :
    DrainStep p (p.markReady now) := by
  rw [AgentProcess.markReady]
  have hasked := asked p now
  generalize p.active now = answer at hasked
  cases hasked with
  | active hidle => exact drainStep_state h hidle (by decide) fun _ => hadmitted
  | idle => exact .refl h
  | expired => exact drainStep_expired h

theorem drainStep_fenceIngress (h : RollInv p) (hidle : ¬ p.Idle) :
    DrainStep p p.fenceIngress := by
  rw [AgentProcess.fenceIngress]
  split_ifs
  · exact
      { move := ⟨⟨true, rfl⟩, rfl, rfl, rfl, rfl, .same _, le_rfl, fun _ h => h⟩
        inv :=
          { admitted := h.admitted
            ready := h.ready
            waiter := h.waiter
            release := h.release
            fenced := fun _ => hidle
            timer := h.timer
            waiting := h.waiting } }
  · exact .refl h

theorem drainStep_markRuntimeRollReadyIfIdle (h : RollInv p) (clock : ℕ → ℤ) :
    DrainStep p (p.markRuntimeRollReadyIfIdle clock) := by
  rw [AgentProcess.markRuntimeRollReadyIfIdle]
  have hasked := asked p (clock 0)
  generalize p.active (clock 0) = answer at hasked
  cases hasked with
  | active hidle =>
      dsimp only
      split_ifs with hbusy
      · exact .refl h
      · have hadmitted : p.inboxMessageAdmitted = false := by
          rw [AgentProcess.isBusy, Bool.or_eq_true, not_or] at hbusy
          exact Bool.eq_false_iff.2 hbusy.2
        have hfence := drainStep_fenceIngress h hidle
        exact hfence.trans (drainStep_markReady hfence.inv (hfence.move.admitted.trans hadmitted))
  | idle => exact .refl h
  | expired => exact drainStep_expired h

/-! ## A request to roll -/

theorem reserve_not_idle (lease : RuntimeRollDrainLease) (requestId targetImage : Text)
    (leaseMs : Option Double) (now : ℤ) {active : Bool} (h : active = true → lease.state ≠ .idle) :
    (lease.reserve requestId targetImage leaseMs active now).state ≠ .idle := by
  rw [RuntimeRollDrainLease.reserve]
  dsimp only
  split_ifs with hsame
  · rw [Bool.and_eq_true, Bool.and_eq_true] at hsame
    exact h hsame.1.1
  · decide

theorem reserve_ready {lease : RuntimeRollDrainLease} {requestId targetImage : Text}
    {leaseMs : Option Double} {active : Bool}
    (h : (lease.reserve requestId targetImage leaseMs active now).state = .ready) :
    lease.state = .ready := by
  rw [RuntimeRollDrainLease.reserve] at h
  dsimp only at h
  split_ifs at h
  exact h

theorem drainStep_reserve {a : Bool} (h : RollInv p) (requestId targetImage : Text)
    (leaseMs : Option Double) (now : ℤ) (ha : a = true → ¬ p.Idle) :
    DrainStep p { p with
      runtimeRollDrain := p.runtimeRollDrain.reserve requestId targetImage leaseMs a now } := by
  have hnot := reserve_not_idle p.runtimeRollDrain requestId targetImage leaseMs now ha
  exact
    { move := ⟨⟨p.inbox.ingressSealed, rfl⟩, rfl, rfl, rfl, rfl, .same _, le_rfl, fun _ _ => hnot⟩
      inv :=
        { admitted := h.admitted
          ready := fun hready => h.ready (reserve_ready hready)
          waiter := h.waiter
          release := fun _ => hnot
          fenced := fun _ => hnot
          timer := fun _ => rfl
          waiting := h.waiting } }

theorem drainStep_active (h : RollInv p) (now : ℤ) : DrainStep p (p.active now).2 :=
  (asked p now).step h

theorem drainStep_arm {request : RuntimeRollDrainRequest} (h : RollInv p)
    (harm : p.arm request clock = .ok q) : DrainStep p q := by
  rw [AgentProcess.arm] at harm
  cases hnames : request.names with
  | error e =>
      rw [hnames] at harm
      cases harm
  | ok names =>
      rw [hnames] at harm
      have hasked := asked p (clock 0)
      generalize p.active (clock 0) = answer at hasked harm
      obtain ⟨active, asked⟩ := answer
      have hstep := hasked.step h
      have hactive : active = true → ¬ asked.Idle := by
        intro heq
        rw [heq] at hasked
        exact hasked.not_idle
      have hreserve := drainStep_reserve hstep.inv names.1 names.2 request.leaseMs (clock 1)
        hactive
      cases harm
      exact (hstep.trans hreserve).trans (drainStep_active hreserve.inv (clock 2))

theorem drainStep_cancel (h : RollInv p) : DrainStep p p.cancelProviderAdmissionWait := by
  rw [AgentProcess.cancelProviderAdmissionWait]
  split
  · next resolved hloop =>
      refine ⟨⟨⟨p.inbox.ingressSealed, rfl⟩, rfl, rfl, rfl, rfl, ?_, le_rfl, fun _ h => h⟩, ?_⟩
      · rw [hloop]
        exact .provider resolved
      · have hadmitted := h.admitted
        have hwaiter := h.waiter
        have hwaiting := h.waiting
        rw [hloop] at hadmitted hwaiter hwaiting
        exact
          { admitted := by simpa using hadmitted
            ready := h.ready
            waiter := by simpa using hwaiter
            release := fun hrelease => by cases hrelease
            fenced := h.fenced
            timer := h.timer
            waiting := by simpa using hwaiting }
  · exact .refl h

theorem drainStep_snapshot (h : RollInv p) (now : ℤ) :
    DrainStep p (p.runtimeRollDrainSnapshot now).2 := by
  have hsnapshot : (p.runtimeRollDrainSnapshot now).2 = (p.active now).2 := by
    rw [AgentProcess.runtimeRollDrainSnapshot]
    split
    · next heq => rw [heq]
    · next heq =>
        rw [heq]
        dsimp only
        split_ifs <;> rfl
  rw [hsnapshot]
  exact drainStep_active h now

theorem drainStep_armRuntimeRollDrain {request : RuntimeRollDrainRequest}
    {answer : Option RuntimeRollDrainSnapshot × AgentProcess} (h : RollInv p)
    (harm : p.armRuntimeRollDrain request clock = .ok answer) : DrainStep p answer.2 := by
  rw [AgentProcess.armRuntimeRollDrain] at harm
  cases hread : p.arm request clock with
  | error e =>
      rw [hread] at harm
      cases harm
  | ok armed =>
      rw [hread] at harm
      cases harm
      have harmed := drainStep_arm h hread
      have hcancel := drainStep_cancel harmed.inv
      have hbefore := harmed.trans hcancel
      split_ifs
      · exact hbefore.trans (drainStep_snapshot hbefore.inv _)
      · have hmark := hbefore.trans (drainStep_markRuntimeRollReadyIfIdle hbefore.inv
          fun i => clock (i + 3))
        exact hmark.trans (drainStep_snapshot hmark.inv _)

theorem drainStep_leaseTimer (h : RollInv p) (now : ℤ) : DrainStep p (p.leaseTimer now) := by
  rw [AgentProcess.leaseTimer, AgentProcess.expire]
  split_ifs with htimer hlease hidle
  · exact .refl h
  · exact .refl h
  · exact drainStep_expired h
  · exact .refl h

end Shizuha.Gateway
