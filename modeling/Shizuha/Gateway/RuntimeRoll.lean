import Shizuha.Gateway.Inbox
import Shizuha.Shared.RuntimeRollDrain

/-!
# The main loop under a runtime roll

The main loop takes one row at a time from the inbox and processes it. A roll is
asked for from outside, and the loop gives way to it: between two rows, before a
row it has just taken, and inside a row at the end of a turn. It then waits to
be released by the lease.

The state says where the loop awaits something. What runs between two awaits is
one step; the clock is read several times in it, and each reading may find the
lease run out, so a step brings its own readings. Everything else comes in
between: messages, the timers, requests to roll, and what the processing of a
row does.
-/

namespace Shizuha.Gateway

open Js Shared

/-- A channel, by whether it can be fenced for a roll. -/
structure RollChannel where
  fences : Bool
  fenced : Bool

/-- What the main loop awaits. -/
inductive LoopAt where
  /-- It is before its check of the drain. -/
  | top
  | release (resolved : Bool)
  | providerAdmission (resolved : Bool)
  /-- `waitForProviderAdmission` has returned. -/
  | admission (granted : Bool)
  | inbox (handed : Option InboundMessage)
  /-- A row is processed; `requeued` when it has been put back. -/
  | processing (msg : InboundMessage) (requeued : Bool)

structure AgentProcess where
  runtimeRollDrain : RuntimeRollDrainLease
  inbox : Inbox
  channels : List RollChannel
  inboxMessageAdmitted : Bool
  /-- `inbox.busy`. -/
  busy : Bool
  /-- `runtimeRollDrainWaiter` is set. -/
  waiter : Bool
  loop : LoopAt
  /-- The rows that the loop has taken. -/
  taken : List InboundMessage
  /-- The rows whose processing has ended by itself. -/
  completed : List InboundMessage
  /-- How often the lease has run out. -/
  expiries : ℕ

def AgentProcess.start (channels : List Bool) : AgentProcess where
  runtimeRollDrain := .unarmed
  inbox := .empty
  channels := channels.map fun fences => ⟨fences, false⟩
  inboxMessageAdmitted := false
  busy := false
  waiter := false
  loop := .top
  taken := []
  completed := []
  expiries := 0

/-! ## The lease -/

def LoopAt.released : LoopAt → LoopAt
  | .release _ => .release true
  | loop => loop

/-- The callback of the lease. -/
def AgentProcess.onLeaseExpired (p : AgentProcess) : AgentProcess :=
  { p with
    inbox := { p.inbox with ingressSealed := false }
    channels := p.channels.map fun c => if c.fences then { c with fenced := false } else c
    waiter := false
    loop := if p.waiter then p.loop.released else p.loop }

def AgentProcess.expire (p : AgentProcess) : AgentProcess :=
  if p.runtimeRollDrain.state = .idle then p
  else { p with runtimeRollDrain := .unarmed, expiries := p.expiries + 1 }.onLeaseExpired

def AgentProcess.expireIfNeeded (p : AgentProcess) (now : ℤ) : AgentProcess :=
  if p.runtimeRollDrain.due now then p.expire else p

/-- The getters of the lease: the answer, and what asking has done. -/
def AgentProcess.active (p : AgentProcess) (now : ℤ) : Bool × AgentProcess :=
  let p := p.expireIfNeeded now
  (p.runtimeRollDrain.state ≠ .idle, p)

def AgentProcess.ready (p : AgentProcess) (now : ℤ) : Bool × AgentProcess :=
  let p := p.expireIfNeeded now
  (p.runtimeRollDrain.state = .ready, p)

def AgentProcess.markReady (p : AgentProcess) (now : ℤ) : AgentProcess :=
  match p.active now with
  | (false, p) => p
  | (true, p) => { p with runtimeRollDrain := { p.runtimeRollDrain with state := .ready } }

def AgentProcess.isBusy (p : AgentProcess) : Bool := p.busy || p.inboxMessageAdmitted

def AgentProcess.fenceIngress (p : AgentProcess) : AgentProcess :=
  if p.channels ≠ [] ∧ ∀ c ∈ p.channels, c.fences = true then
    { p with
      channels := p.channels.map fun c => { c with fenced := true }
      inbox := { p.inbox with ingressSealed := true } }
  else p

def AgentProcess.markRuntimeRollReadyIfIdle (p : AgentProcess) (clock : ℕ → ℤ) : AgentProcess :=
  match p.active (clock 0) with
  | (false, p) => p
  | (true, p) => if p.isBusy then p else p.fenceIngress.markReady (clock 1)

/-- `cancelProviderAdmissionWait`. -/
def AgentProcess.cancelProviderAdmissionWait (p : AgentProcess) : AgentProcess :=
  match p.loop with
  | .providerAdmission _ => { p with loop := .providerAdmission true }
  | _ => p

/-- `arm` of the lease, with the snapshot it ends with. -/
def AgentProcess.arm (p : AgentProcess) (request : RuntimeRollDrainRequest) (clock : ℕ → ℤ) :
    Except RuntimeRollDrainError AgentProcess :=
  match request.names with
  | .error e => .error e
  | .ok (requestId, targetImage) =>
      let (active, p) := p.active (clock 0)
      let drain := p.runtimeRollDrain.reserve requestId targetImage request.leaseMs active (clock 1)
      .ok ({ p with runtimeRollDrain := drain }.active (clock 2)).2

def AgentProcess.runtimeRollDrainSnapshot (p : AgentProcess) (now : ℤ) :
    Option RuntimeRollDrainSnapshot × AgentProcess :=
  match p.active now with
  | (false, p) => (none, p)
  | (true, p) =>
      let snapshot := p.runtimeRollDrain.snapshot p.isBusy p.inbox.queue.length
      if p.inbox.ingressSealed then
        (some { snapshot with
          protocol := 2
          ingressFenced := some true
          admissionVersion := some p.inbox.admissionVersion }, p)
      else (some snapshot, p)

def AgentProcess.armRuntimeRollDrain (p : AgentProcess) (request : RuntimeRollDrainRequest)
    (clock : ℕ → ℤ) :
    Except RuntimeRollDrainError (Option RuntimeRollDrainSnapshot × AgentProcess) :=
  match p.arm request clock with
  | .error e => .error e
  | .ok p =>
      let p := p.cancelProviderAdmissionWait
      let p := if p.isBusy then p else p.markRuntimeRollReadyIfIdle fun i => clock (i + 3)
      .ok (p.runtimeRollDrainSnapshot (clock 5))

/-! ## The inbox -/

/-- A row is handed to the loop. -/
def AgentProcess.hand (p : AgentProcess) : Option InboundMessage → AgentProcess
  | none => p
  | some msg => { p with loop := .inbox (some msg), taken := p.taken ++ [msg] }

/-- A call of the inbox. -/
def AgentProcess.callInbox (upper : Text → Text) (p : AgentProcess) (op : InboxOp) :
    AgentProcess :=
  let (inbox, outcome) := p.inbox.call upper op
  { p with inbox }.hand outcome.returned

/-! ## The main loop -/

/-- What a step of the loop reads: the clock, how long the provider has to be
waited for, if that is a number, and what the inbox reads. -/
structure LoopReads where
  clock : ℕ → ℤ
  remaining : Option ℤ
  fresh : Fresh

/-- `waitForProviderAdmission`, from the head of its loop on. -/
def AgentProcess.waitForProviderAdmission (p : AgentProcess) (reads : LoopReads)
    (clock : ℕ → ℤ) : AgentProcess :=
  match p.active (clock 0) with
  | (true, p) => { p with loop := .admission false }
  | (false, p) =>
      match reads.remaining with
      | none =>
          -- it throws, and the main loop goes on
          { p with inboxMessageAdmitted := false, loop := .top }
      | some remaining =>
          if remaining ≤ 0 then { p with loop := .admission true }
          else
            match { p with loop := .providerAdmission false }.active (clock 1) with
            | (false, p) => p
            | (true, p) => p.cancelProviderAdmissionWait

def AgentProcess.waitForRuntimeRollDrainRelease (p : AgentProcess) (clock : ℕ → ℤ) :
    AgentProcess :=
  match p.active (clock 0) with
  | (false, p) => p
  | (true, p) =>
      let p := p.markRuntimeRollReadyIfIdle fun i => clock (i + 1)
      match { p with waiter := true, loop := .release false }.active (clock 3) with
      | (true, p) => p
      | (false, p) => { p with waiter := false, loop := p.loop.released }

/-- The loop goes on, where what it awaits has come. -/
def AgentProcess.loopStep (upper : Text → Text) (p : AgentProcess) (reads : LoopReads) :
    AgentProcess :=
  let clock := reads.clock
  match p.loop with
  | .top =>
      match p.active (clock 0) with
      | (true, p) => p.waitForRuntimeRollDrainRelease fun i => clock (i + 1)
      | (false, p) => p.waitForProviderAdmission reads fun i => clock (i + 1)
  | .release resolved => if resolved then { p with loop := .top } else p
  | .providerAdmission resolved =>
      if resolved then p.waitForProviderAdmission reads clock else p
  | .admission false => { p with loop := .top }
  | .admission true => { p with loop := .inbox none }.callInbox upper (.next reads.fresh)
  | .inbox none => p
  | .inbox (some msg) =>
      match p.active (clock 0) with
      | (true, p) =>
          { p.callInbox upper (.pushFront [msg]) with loop := .top }.markRuntimeRollReadyIfIdle
            fun i => clock (i + 1)
      | (false, p) => { p with inboxMessageAdmitted := true, loop := .processing msg false }
  | .processing _ _ => p

/-! ## What happens in between -/

/-- What the processing of a row does. -/
inductive ProcessingAction where
  | setBusy (busy : Bool)
  /-- `checkpointRuntimeRollAfterTurn`. -/
  | checkpoint (continuing : Bool) (now : ℤ)
  /-- The row is put in front, to be tried again. -/
  | requeue
  /-- The row waits for the provider. -/
  | deferToProvider
  /-- Processing ends, with or without an error. -/
  | settle

def AgentProcess.process (upper : Text → Text) (p : AgentProcess) (msg : InboundMessage)
    (requeued : Bool) : ProcessingAction → AgentProcess
  | .setBusy busy => { p with busy }
  | .checkpoint continuing now =>
      if requeued || !continuing then p
      else
        match p.active now with
        | (false, p) => p
        | (true, p) =>
            { p.callInbox upper (.pushFront [msg]) with loop := .processing msg true }
  | .requeue =>
      if requeued then p
      else { p.callInbox upper (.pushFront [msg]) with loop := .processing msg true }
  | .deferToProvider =>
      if requeued then p
      else { p.callInbox upper (.resumeAdmitted [msg]) with loop := .processing msg true }
  | .settle =>
      { p with
        inboxMessageAdmitted := false
        loop := .top
        completed := if requeued then p.completed else p.completed ++ [msg] }

inductive ProcessAction where
  | loop (reads : LoopReads)
  | processing (action : ProcessingAction)
  | arm (request : RuntimeRollDrainRequest) (clock : ℕ → ℤ)
  /-- A request for the state of the drain. -/
  | report (now : ℤ)
  /-- The timer of the lease. -/
  | leaseTimer (now : ℤ)
  /-- The timer of the wait for the provider. -/
  | providerTimer
  | push (fresh : Fresh) (msg : InboundMessage)
  /-- Rows of a recovery. -/
  | pushFront (messages : List InboundMessage)
  /-- Rows that had been deferred. -/
  | resumeAdmitted (messages : List InboundMessage)
  | register (fences : Bool)

/-- The callback of the timer of the lease. -/
def AgentProcess.leaseTimer (p : AgentProcess) (now : ℤ) : AgentProcess :=
  if p.runtimeRollDrain.expiryTimer then
    if now < p.runtimeRollDrain.leaseUntil then p else p.expire
  else p

def processStep (upper : Text → Text) (p : AgentProcess) : ProcessAction → AgentProcess
  | .loop reads => p.loopStep upper reads
  | .processing action =>
      match p.loop with
      | .processing msg requeued => p.process upper msg requeued action
      | _ => p
  | .arm request clock =>
      match p.armRuntimeRollDrain request clock with
      | .error _ => p
      | .ok (_, p) => p
  | .report now => (p.runtimeRollDrainSnapshot now).2
  | .leaseTimer now => p.leaseTimer now
  | .providerTimer => p.cancelProviderAdmissionWait
  | .push fresh msg => p.callInbox upper (.tryPush fresh msg)
  | .pushFront messages => p.callInbox upper (.pushFront messages)
  | .resumeAdmitted messages => p.callInbox upper (.resumeAdmitted messages)
  | .register fences => { p with channels := p.channels ++ [⟨fences, false⟩] }

end Shizuha.Gateway
