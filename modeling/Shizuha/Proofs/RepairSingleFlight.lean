import Shizuha.Daemon.RuntimeReconcileBackoff
import Shizuha.Machine

/-!
# One repair of an agent at a time

The gate is run with an account beside it: the attempts that were admitted and
have not completed, and for each agent the times before which its key must not
be tried again, as its failures and successes set them. An attempt completes
once, with its own action and revision.

The latch is one field of the record and `clear` deletes the record, so a clear
in the middle of an attempt forgets the attempt. If the agent is asked for
again before it completes, a second one starts beside it. Nothing else goes
wrong: `Account` says per agent how record, account and running attempt fit
together, every call keeps it, and the runs that stay single-flight are exactly
those that never ask for an agent whose running attempt was forgotten.
-/

namespace Shizuha.Daemon

open Js Machine RuntimeRepairState

structure RepairAttempt where
  id : ℕ
  agentId : Text
  action : RuntimeRepairAction
  desiredRevision : Text
  deriving DecidableEq

/-- What happened to a key of an agent since it was first asked for, with no
other key and no clear between. -/
structure RepairSpell where
  action : RuntimeRepairAction
  desiredRevision : Text
  failures : ℕ
  /-- No attempt is to start before any of these. -/
  due : List ℚ

structure RepairWorld where
  gate : RuntimeReconcileRepairBackoff
  outstanding : List RepairAttempt
  nextId : ℕ
  clock : ℚ
  spells : Text → Option RepairSpell

inductive RepairOp where
  | tryBegin (agentId : Text) (action : RuntimeRepairAction) (desiredRevision : Text) (now : ℚ)
  | complete (id : ℕ) (failed : Bool) (now : ℚ)
  | clear (agentId : Text)

namespace RepairSpell

def Wants (p : RepairSpell) (action : RuntimeRepairAction) (desiredRevision : Text) : Prop :=
  p.action = action ∧ p.desiredRevision = desiredRevision

instance (p : RepairSpell) (action : RuntimeRepairAction) (desiredRevision : Text) :
    Decidable (p.Wants action desiredRevision) := inferInstanceAs (Decidable (_ ∧ _))

def current (old : Option RepairSpell) (action : RuntimeRepairAction) (desiredRevision : Text) :
    RepairSpell :=
  match old with
  | none => ⟨action, desiredRevision, 0, []⟩
  | some p => if p.Wants action desiredRevision then p else ⟨action, desiredRevision, 0, []⟩

/-- An attempt of the key has completed. -/
def completed (p : RepairSpell) (delays : RepairDelays) (failed : Bool) (now : ℚ) : RepairSpell :=
  if failed then
    { p with
      failures := p.failures + 1
      due := (now + delays.delayMs (p.failures + 1)) :: p.due }
  else { p with failures := 0, due := (now + delays.settleDelayMs) :: p.due }

end RepairSpell

/-- The call an attempt ends with. -/
def RuntimeReconcileRepairBackoff.complete (g : RuntimeReconcileRepairBackoff) (a : RepairAttempt)
    (failed : Bool) (now : ℚ) : RuntimeReconcileRepairBackoff :=
  if failed then (g.markFailed a.agentId a.action a.desiredRevision now).2
  else (g.markSucceeded a.agentId a.action a.desiredRevision now).2

namespace RepairWorld

def init (delays : RepairDelays) : RepairWorld := ⟨.create delays, [], 0, 0, fun _ => none⟩

/-- The first attempt of an agent that has not completed. -/
def running (w : RepairWorld) (agentId : Text) : Option RepairAttempt :=
  w.outstanding.find? fun a => a.agentId = agentId

end RepairWorld

/-- A request that was answered. -/
def RepairWorld.requested (w : RepairWorld) (agentId : Text) (action : RuntimeRepairAction)
    (desiredRevision : Text) (now : ℚ) (allowed : Bool) (gate : RuntimeReconcileRepairBackoff) :
    RepairWorld where
  gate := gate
  outstanding :=
    if allowed then w.outstanding ++ [⟨w.nextId, agentId, action, desiredRevision⟩]
    else w.outstanding
  nextId := w.nextId + 1
  clock := now
  spells := Function.update w.spells agentId
    (some (RepairSpell.current (w.spells agentId) action desiredRevision))

/-- An attempt that completed. -/
def RepairWorld.completed (w : RepairWorld) (a : RepairAttempt) (failed : Bool) (now : ℚ) :
    RepairWorld where
  gate := w.gate.complete a failed now
  outstanding := w.outstanding.filter fun b => b.id ≠ a.id
  nextId := w.nextId
  clock := now
  spells := Function.update w.spells a.agentId
    ((w.spells a.agentId).map fun p =>
      if p.Wants a.action a.desiredRevision then p.completed w.gate.delays failed now else p)

def repairStep (w : RepairWorld) : RepairOp → RepairWorld
  | .tryBegin agentId action desiredRevision now =>
      let r := w.gate.tryBegin agentId action desiredRevision now
      w.requested agentId action desiredRevision now r.1.allowed r.2
  | .complete id failed now =>
      match w.outstanding.find? fun a => a.id = id with
      | none => w
      | some a => w.completed a failed now
  | .clear agentId =>
      { w with
        gate := (w.gate.clear agentId).2
        spells := Function.update w.spells agentId none }

/-! ## What is asked of a run -/

/-- No agent has two attempts. -/
def RepairWorld.SingleFlight (w : RepairWorld) : Prop :=
  (w.outstanding.map RepairAttempt.agentId).Nodup

/-- The gate holds the latch of an attempt. -/
def Latched (g : RuntimeReconcileRepairBackoff) (a : RepairAttempt) : Prop :=
  ∃ s, g.find a.agentId = some s ∧ s.Runs a.action a.desiredRevision

instance (g : RuntimeReconcileRepairBackoff) (a : RepairAttempt) : Decidable (Latched g a) :=
  decidable_of_iff ((g.find a.agentId).any (fun s => s.Runs a.action a.desiredRevision) = true)
    (by simp [Latched, Option.any_eq_true])

/-- A completion leaves the latches of the other attempts alone. -/
def KeepsOthers (w : RepairWorld) : RepairOp → Prop
  | .complete id failed now => ∀ a ∈ w.outstanding, a.id ≠ id → Latched w.gate a →
      Latched (repairStep w (.complete id failed now)).gate a
  | _ => True

/-- An attempt that is admitted starts no earlier than its key allows. -/
def Waits (w : RepairWorld) : RepairOp → Prop
  | .tryBegin agentId action desiredRevision now =>
      (w.gate.tryBegin agentId action desiredRevision now).1.allowed = true →
        ∀ d ∈ (RepairSpell.current (w.spells agentId) action desiredRevision).due, d ≤ now
  | _ => True

/-- The clock does not go back. -/
def Timely (w : RepairWorld) : RepairOp → Prop
  | .tryBegin _ _ _ now => w.clock ≤ now
  | .complete _ _ now => w.clock ≤ now
  | .clear _ => True

/-- No agent is asked for whose running attempt the gate has forgotten. -/
def NotForgotten (w : RepairWorld) : RepairOp → Prop
  | .tryBegin agentId _ _ _ => ∀ a ∈ w.outstanding, a.agentId = agentId → Latched w.gate a
  | _ => True

instance (w : RepairWorld) : (op : RepairOp) → Decidable (Timely w op)
  | .tryBegin _ _ _ now => inferInstanceAs (Decidable (w.clock ≤ now))
  | .complete _ _ now => inferInstanceAs (Decidable (w.clock ≤ now))
  | .clear _ => inferInstanceAs (Decidable True)

instance (w : RepairWorld) : (op : RepairOp) → Decidable (NotForgotten w op)
  | .tryBegin agentId _ _ _ =>
      inferInstanceAs (Decidable (∀ a ∈ w.outstanding, a.agentId = agentId → Latched w.gate a))
  | .complete _ _ _ => inferInstanceAs (Decidable True)
  | .clear _ => inferInstanceAs (Decidable True)

/-! ## Record and account -/

/-- A record, the account of its key and the attempt that runs. -/
def Account (clock : ℚ) (s : RuntimeRepairState) (p : RepairSpell) (running : Option RepairAttempt) :
    Prop :=
  p.Wants s.action s.desiredRevision ∧ p.failures = s.failureCount ∧
    match running with
    | some a => s.Runs a.action a.desiredRevision ∧ ∀ d ∈ p.due, d ≤ clock
    | none => s.inFlightRevision = none ∧
        ∀ d ∈ p.due, d ≤ clock ∨ d ≤ s.nextRetryAt ∨ d ≤ s.settlingUntil

/-- An agent without a record has no account, whatever it runs. -/
def AgentAccount (clock : ℚ) (s : Option RuntimeRepairState) (p : Option RepairSpell)
    (running : Option RepairAttempt) : Prop :=
  match s with
  | none => p = none
  | some s => ∃ p', p = some p' ∧ Account clock s p' running

theorem Account.mono {clock now : ℚ} {s : RuntimeRepairState} {p : RepairSpell}
    {running : Option RepairAttempt} (h : Account clock s p running) (hle : clock ≤ now) :
    Account now s p running := by
  obtain ⟨hkey, hcount, hrest⟩ := h
  refine ⟨hkey, hcount, ?_⟩
  cases running with
  | some a => exact ⟨hrest.1, fun d hd => (hrest.2 d hd).trans hle⟩
  | none => exact ⟨hrest.1, fun d hd => (hrest.2 d hd).imp_left fun h => h.trans hle⟩

theorem AgentAccount.mono {clock now : ℚ} {s : Option RuntimeRepairState} {p : Option RepairSpell}
    {running : Option RepairAttempt} (h : AgentAccount clock s p running) (hle : clock ≤ now) :
    AgentAccount now s p running := by
  cases s with
  | none => exact h
  | some s =>
      obtain ⟨p', hp, hacc⟩ := h
      exact ⟨p', hp, hacc.mono hle⟩

theorem wants_of_spell {s : RuntimeRepairState} {p : RepairSpell}
    (h : p.Wants s.action s.desiredRevision) (action : RuntimeRepairAction)
    (desiredRevision : Text) : p.Wants action desiredRevision ↔ s.Wants action desiredRevision := by
  rw [RepairSpell.Wants, RuntimeRepairState.Wants, h.1, h.2]

/-- The record a request works on, with its account. -/
theorem account_current {clock : ℚ} {s : Option RuntimeRepairState} {p : Option RepairSpell}
    {running : Option RepairAttempt} (h : AgentAccount clock s p running)
    (hnone : s = none → running = none) (action : RuntimeRepairAction) (desiredRevision : Text) :
    Account clock (current s action desiredRevision) (RepairSpell.current p action desiredRevision)
      running := by
  cases s with
  | none =>
      rw [show p = none from h, hnone rfl]
      exact ⟨⟨rfl, rfl⟩, rfl, rfl, by simp [RepairSpell.current]⟩
  | some s =>
      obtain ⟨p', rfl, hacc⟩ := h
      have hwants := wants_of_spell hacc.1 action desiredRevision
      rw [current, RepairSpell.current]
      simp only [hwants]
      split_ifs with hkey
      · exact hacc
      · refine ⟨⟨rfl, rfl⟩, rfl, ?_⟩
        obtain ⟨-, -, hrest⟩ := hacc
        cases running with
        | some a => exact ⟨hrest.1, by simp⟩
        | none => exact ⟨hrest.1, by simp⟩

/-- A request that is refused changes nothing the account looks at. -/
theorem account_refused {clock now : ℚ} {s : RuntimeRepairState} {p : RepairSpell}
    {running : Option RepairAttempt} {old : Option RuntimeRepairAction}
    (h : Account clock s p running) (hno : (s.request old now).1.allowed = false) :
    Account clock (s.request old now).2 p running := by
  rw [request] at hno ⊢
  split_ifs at hno ⊢
  · exact h
  · exact h
  · exact h

/-- A request that is admitted had nothing to wait for. -/
theorem account_admitted {clock now : ℚ} {s : RuntimeRepairState} {p : RepairSpell}
    {running : Option RepairAttempt} {old : Option RuntimeRepairAction}
    (h : Account clock s p running) (hle : clock ≤ now)
    (hyes : (s.request old now).1.allowed = true) (a : RepairAttempt)
    (ha : s.Wants a.action a.desiredRevision) :
    running = none ∧ (∀ d ∈ p.due, d ≤ now) ∧ Account now (s.request old now).2 p (some a) := by
  obtain ⟨hkey, hcount, hrest⟩ := h
  rw [request] at hyes ⊢
  split_ifs at hyes ⊢ with hlatch hsettle hretry
  cases running with
  | some b =>
      obtain ⟨⟨-, hrev⟩, -⟩ := hrest
      simp [hrev] at hlatch
  | none =>
      have hdue : ∀ d ∈ p.due, d ≤ now := by
        intro d hd
        rcases hrest.2 d hd with h | h | h
        · exact h.trans hle
        · exact h.trans (not_lt.mp hretry)
        · exact h.trans (not_lt.mp hsettle)
      exact ⟨rfl, hdue, hkey, hcount, ⟨congrArg some ha.1, congrArg some ha.2⟩, hdue⟩

/-- A request for an agent with no record is admitted. -/
theorem request_none {action : RuntimeRepairAction} {desiredRevision : Text} {now : ℚ}
    (hnow : 0 ≤ now) (old : Option RuntimeRepairAction) :
    ((current none action desiredRevision).request old now).1.allowed = true := by
  have hlt : ¬ now < 0 := not_lt.mpr hnow
  simp [request, current, forKey, hlt]

/-- The record after its attempt completed. -/
theorem account_completed {clock now : ℚ} {s : RuntimeRepairState} {p : RepairSpell}
    {delays : RepairDelays} {a : RepairAttempt} (h : Account clock s p (some a))
    (hle : clock ≤ now) (failed : Bool) :
    Account now (if failed then s.failed delays now else s.succeeded delays now)
      (p.completed delays failed now) none := by
  obtain ⟨hwants, hcount, -, hdue⟩ := h
  cases failed with
  | true =>
      refine ⟨hwants, congrArg (· + 1) hcount, rfl, fun d hd => ?_⟩
      rcases List.mem_cons.mp hd with rfl | hd
      · right
        left
        show now + delays.delayMs (p.failures + 1) ≤ now + delays.delayMs (s.failureCount + 1)
        rw [hcount]
      · exact .inl ((hdue d hd).trans hle)
  | false =>
      refine ⟨hwants, rfl, rfl, fun d hd => ?_⟩
      rcases List.mem_cons.mp hd with rfl | hd
      · exact .inr (.inr le_rfl)
      · exact .inl ((hdue d hd).trans hle)

/-! ## The gate after a completion -/

/-- What a completion does to a record: nothing, unless the record runs the
attempt; then it releases the latch, and counts the result for the key it is
about. -/
theorem complete_cases {g : RuntimeReconcileRepairBackoff} {a : RepairAttempt}
    {s : RuntimeRepairState} (h : g.find a.agentId = some s) (failed : Bool) (now : ℚ) :
    (¬ s.Runs a.action a.desiredRevision ∧ g.complete a failed now = g) ∨
      ∃ s', s.Runs a.action a.desiredRevision ∧ g.complete a failed now = g.put a.agentId s' ∧
        (s.Wants a.action a.desiredRevision →
          s' = if failed then s.failed g.delays now else s.succeeded g.delays now) ∧
        (¬ s.Wants a.action a.desiredRevision → s'.action = s.action ∧
          s'.desiredRevision = s.desiredRevision ∧ s'.failureCount = s.failureCount ∧
          s'.inFlightRevision = none) := by
  by_cases hruns : s.Runs a.action a.desiredRevision
  · right
    by_cases hkey : s.Wants a.action a.desiredRevision
    · refine ⟨if failed then s.failed g.delays now else s.succeeded g.delays now, hruns, ?_,
        fun _ => rfl, fun hnot => absurd hkey hnot⟩
      cases failed <;>
        simp [RuntimeReconcileRepairBackoff.complete, RuntimeReconcileRepairBackoff.markFailed,
          RuntimeReconcileRepairBackoff.markSucceeded, h, hruns, hkey]
    · refine ⟨if failed then { s.release with settlingUntil := 0, inFlightDeferralLogged := false }
        else { s.release with inFlightDeferralLogged := false }, hruns, ?_,
        fun hpos => absurd hpos hkey, fun _ => ?_⟩
      · cases failed <;>
          simp [RuntimeReconcileRepairBackoff.complete, RuntimeReconcileRepairBackoff.markFailed,
            RuntimeReconcileRepairBackoff.markSucceeded, h, hruns, hkey]
      · cases failed <;> exact ⟨rfl, rfl, rfl, rfl⟩
  · left
    refine ⟨hruns, ?_⟩
    cases failed <;>
      simp [RuntimeReconcileRepairBackoff.complete, RuntimeReconcileRepairBackoff.markFailed,
        RuntimeReconcileRepairBackoff.markSucceeded, h, hruns]

/-- The completion of an attempt that the gate forgot does nothing. -/
theorem complete_forgotten {g : RuntimeReconcileRepairBackoff} {a : RepairAttempt}
    (h : g.find a.agentId = none) (failed : Bool) (now : ℚ) : g.complete a failed now = g := by
  rw [RuntimeReconcileRepairBackoff.complete, RuntimeReconcileRepairBackoff.markFailed,
    RuntimeReconcileRepairBackoff.markSucceeded, h]
  cases failed <;> rfl

theorem find_complete (g : RuntimeReconcileRepairBackoff) (a : RepairAttempt) (failed : Bool)
    (now : ℚ) {agentId : Text} (hne : agentId ≠ a.agentId) :
    (g.complete a failed now).find agentId = g.find agentId := by
  cases hfind : g.find a.agentId with
  | none => rw [complete_forgotten hfind]
  | some s =>
      obtain ⟨-, heq⟩ | ⟨s', -, heq, -⟩ := complete_cases hfind failed now
      · rw [heq]
      · rw [heq, RuntimeReconcileRepairBackoff.find_put, if_neg hne]

/-- The record and the account after the running attempt completed. -/
theorem account_complete {clock now : ℚ} {g : RuntimeReconcileRepairBackoff} {a : RepairAttempt}
    {p : Option RepairSpell} (h : AgentAccount clock (g.find a.agentId) p (some a))
    (hle : clock ≤ now) (failed : Bool) :
    AgentAccount now ((g.complete a failed now).find a.agentId)
      (p.map fun p => if p.Wants a.action a.desiredRevision then p.completed g.delays failed now
        else p) none := by
  cases hfind : g.find a.agentId with
  | none =>
      rw [complete_forgotten hfind, hfind]
      rw [hfind] at h
      rw [show p = none from h]
      rfl
  | some s =>
      rw [hfind] at h
      obtain ⟨p', rfl, hacc⟩ := h
      have hwants := wants_of_spell hacc.1 a.action a.desiredRevision
      obtain ⟨hnot, -⟩ | ⟨s', hruns, heq, hown, hstale⟩ := complete_cases hfind failed now
      · exact absurd hacc.2.2.1 hnot
      rw [heq, RuntimeReconcileRepairBackoff.find_put, if_pos rfl, Option.map_some]
      refine ⟨_, rfl, ?_⟩
      simp only [hwants]
      by_cases hkey : s.Wants a.action a.desiredRevision
      · rw [if_pos hkey, hown hkey]
        exact account_completed hacc hle failed
      · -- The wanted key is another one by now: the latch is released and that is all.
        obtain ⟨hp, hcount, -, hdue⟩ := hacc
        obtain ⟨haction, hrevision, hfailures, hlatch⟩ := hstale hkey
        rw [if_neg hkey]
        refine ⟨?_, hcount.trans hfailures.symm, hlatch, fun d hd => .inl ((hdue d hd).trans hle)⟩
        rw [haction, hrevision]
        exact hp

/-! ## The world -/

structure RepairInv (w : RepairWorld) : Prop where
  single : w.SingleFlight
  ids : (w.outstanding.map RepairAttempt.id).Nodup
  fresh : ∀ a ∈ w.outstanding, a.id < w.nextId
  clock : 0 ≤ w.clock
  account : ∀ agentId, AgentAccount w.clock (w.gate.find agentId) (w.spells agentId)
    (w.running agentId)

theorem running_eq_some {w : RepairWorld} (h : w.SingleFlight) {agentId : Text}
    {a : RepairAttempt} : w.running agentId = some a ↔ a ∈ w.outstanding ∧ a.agentId = agentId :=
  Table.get_eq_some_iff (t := ⟨w.outstanding, h⟩)

theorem running_eq_none {w : RepairWorld} {agentId : Text} :
    w.running agentId = none ↔ agentId ∉ w.outstanding.map RepairAttempt.agentId := by
  rw [RepairWorld.running, List.find?_eq_none]
  simp

/-- With one attempt an agent, an agent is forgotten when it runs an attempt
and has no record. -/
theorem notForgotten_iff {w : RepairWorld} (h : RepairInv w) {agentId : Text}
    {action : RuntimeRepairAction} {desiredRevision : Text} {now : ℚ} :
    NotForgotten w (.tryBegin agentId action desiredRevision now) ↔
      (w.gate.find agentId = none → w.running agentId = none) := by
  constructor
  · intro hall hnone
    by_contra hrun
    obtain ⟨a, ha⟩ := Option.ne_none_iff_exists'.mp hrun
    obtain ⟨hmem, rfl⟩ := (running_eq_some h.single).mp ha
    obtain ⟨s, hs, -⟩ := hall a hmem rfl
    rw [hnone] at hs
    cases hs
  · intro himp a ha hagent
    have hrun : w.running agentId = some a := (running_eq_some h.single).mpr ⟨ha, hagent⟩
    cases hfind : w.gate.find agentId with
    | none =>
        rw [himp hfind] at hrun
        cases hrun
    | some s =>
        have hacc := h.account agentId
        rw [hfind, hrun] at hacc
        obtain ⟨p, -, hacc⟩ := hacc
        exact ⟨s, by rw [hagent]; exact hfind, hacc.2.2.1⟩

theorem running_filter {w : RepairWorld} (h : RepairInv w) {a : RepairAttempt}
    (ha : a ∈ w.outstanding) (agentId : Text) :
    (w.outstanding.filter fun b => b.id ≠ a.id).find? (fun b => b.agentId = agentId) =
      if agentId = a.agentId then none else w.running agentId := by
  have hsingle : ((w.outstanding.filter fun b => b.id ≠ a.id).map RepairAttempt.agentId).Nodup :=
    h.single.sublist (List.filter_sublist.map _)
  split_ifs with hagent
  · rw [List.find?_eq_none]
    intro b hb
    obtain ⟨hmem, hid⟩ := List.mem_filter.mp hb
    have hne : b.agentId ≠ a.agentId := by
      intro heq
      rw [List.inj_on_of_nodup_map h.single hmem ha heq] at hid
      simp at hid
    simpa [hagent] using hne
  · refine Option.ext fun b => ?_
    have hleft := Table.get_eq_some_iff (t := (⟨_, hsingle⟩ : Table Text RepairAttempt _))
      (k := agentId) (r := b)
    refine hleft.trans (Iff.trans ?_ (running_eq_some h.single).symm)
    rw [List.mem_filter]
    constructor
    · intro hb
      exact ⟨hb.1.1, hb.2⟩
    · intro hb
      refine ⟨⟨hb.1, ?_⟩, hb.2⟩
      have hid : b.id ≠ a.id := by
        intro heq
        rw [List.inj_on_of_nodup_map h.ids hb.1 ha heq] at hb
        exact hagent hb.2.symm
      simpa using hid

/-! ## The steps -/

theorem inv_init (delays : RepairDelays) : RepairInv (.init delays) where
  single := List.nodup_nil
  ids := List.nodup_nil
  fresh := by simp [RepairWorld.init]
  clock := le_rfl
  account := fun _ => rfl

theorem inv_clear {w : RepairWorld} (h : RepairInv w) (agentId : Text) :
    RepairInv (repairStep w (.clear agentId)) where
  single := h.single
  ids := h.ids
  fresh := h.fresh
  clock := h.clock
  account := by
    intro a
    show AgentAccount w.clock ((w.gate.clear agentId).2.find a)
      (Function.update w.spells agentId none a) (w.running a)
    rw [RuntimeReconcileRepairBackoff.find_clear]
    by_cases ha : a = agentId
    · rw [if_pos ha, ha, Function.update_self]
      rfl
    · rw [if_neg ha, Function.update_of_ne ha]
      exact h.account a

theorem inv_completed {w : RepairWorld} (h : RepairInv w) {a : RepairAttempt}
    (ha : a ∈ w.outstanding) (failed : Bool) {now : ℚ} (hle : w.clock ≤ now) :
    RepairInv (w.completed a failed now) where
  single := h.single.sublist (List.filter_sublist.map _)
  ids := h.ids.sublist (List.filter_sublist.map _)
  fresh := fun b hb => h.fresh b (List.mem_of_mem_filter hb)
  clock := h.clock.trans hle
  account := by
    intro agentId
    have hrun : (w.completed a failed now).running agentId =
        if agentId = a.agentId then none else w.running agentId := running_filter h ha agentId
    have hmine : w.running a.agentId = some a := (running_eq_some h.single).mpr ⟨ha, rfl⟩
    rw [hrun]
    show AgentAccount now ((w.gate.complete a failed now).find agentId)
      (Function.update w.spells a.agentId _ agentId) _
    by_cases hagent : agentId = a.agentId
    · have hacc := h.account a.agentId
      rw [hmine] at hacc
      rw [if_pos hagent, hagent, Function.update_self]
      exact account_complete hacc hle failed
    · rw [if_neg hagent, find_complete _ _ _ _ hagent, Function.update_of_ne hagent]
      exact (h.account agentId).mono hle

theorem inv_complete {w : RepairWorld} (h : RepairInv w) (id : ℕ) (failed : Bool) {now : ℚ}
    (hle : w.clock ≤ now) : RepairInv (repairStep w (.complete id failed now)) := by
  rw [repairStep]
  split
  · exact h
  · next a hfind => exact inv_completed h (List.mem_of_find?_eq_some hfind) failed hle

section Request

variable {w : RepairWorld} {agentId : Text} {action : RuntimeRepairAction} {desiredRevision : Text}
  {now : ℚ}

theorem running_requested (w : RepairWorld) (agentId : Text) (action : RuntimeRepairAction)
    (desiredRevision : Text) (now : ℚ) (allowed : Bool) (gate : RuntimeReconcileRepairBackoff)
    (hnone : allowed = true → w.running agentId = none) (a : Text) :
    (w.requested agentId action desiredRevision now allowed gate).running a =
      if allowed = true ∧ a = agentId then some ⟨w.nextId, agentId, action, desiredRevision⟩
      else w.running a := by
  rw [RepairWorld.running, RepairWorld.requested]
  cases allowed with
  | false => simp [RepairWorld.running]
  | true =>
      rw [if_pos rfl, List.find?_append]
      by_cases ha : a = agentId
      · have hnone := hnone rfl
        rw [RepairWorld.running] at hnone
        rw [if_pos ⟨rfl, ha⟩, ha, hnone]
        simp
      · rw [if_neg (fun hand => ha hand.2), ← RepairWorld.running]
        cases w.running a <;> simp [Ne.symm ha]

theorem wants_current (old : Option RuntimeRepairState) (action : RuntimeRepairAction)
    (desiredRevision : Text) :
    (current old action desiredRevision).Wants action desiredRevision := by
  cases old with
  | none => exact ⟨rfl, rfl⟩
  | some s =>
      rw [current]
      split_ifs with hkey
      · exact hkey
      · exact ⟨rfl, rfl⟩

/-- What is admitted found nothing running. -/
theorem admitted (h : RepairInv w) (hle : w.clock ≤ now)
    (hnone : w.gate.find agentId = none → w.running agentId = none)
    (hyes : (w.gate.tryBegin agentId action desiredRevision now).1.allowed = true) :
    w.running agentId = none := by
  have hacc := account_current (h.account agentId) hnone action desiredRevision
  exact (account_admitted hacc hle hyes ⟨0, agentId, action, desiredRevision⟩
    (wants_current _ _ _)).1

/-- An admission waits for what is due, whatever was forgotten. -/
theorem waits (h : RepairInv w) (hle : w.clock ≤ now) :
    Waits w (.tryBegin agentId action desiredRevision now) := by
  intro hyes
  have hwants := wants_current (w.gate.find agentId) action desiredRevision
  cases hfind : w.gate.find agentId with
  | none =>
      have hspell : w.spells agentId = none := by
        have hacc := h.account agentId
        rw [hfind] at hacc
        exact hacc
      simp [hspell, RepairSpell.current]
  | some s =>
      have hacc := account_current (h.account agentId) (by simp [hfind]) action desiredRevision
      exact (account_admitted hacc hle hyes ⟨0, agentId, action, desiredRevision⟩ hwants).2.1

/-- The request of an agent keeps the flight single exactly when the agent is
not one that runs an attempt without a record. -/
theorem singleFlight_iff (h : RepairInv w) (hle : w.clock ≤ now) :
    (repairStep w (.tryBegin agentId action desiredRevision now)).SingleFlight ↔
      (w.gate.find agentId = none → w.running agentId = none) := by
  have hadd : (repairStep w (.tryBegin agentId action desiredRevision now)).SingleFlight ↔
      ((w.gate.tryBegin agentId action desiredRevision now).1.allowed = true →
        w.running agentId = none) := by
    have hbefore : (w.outstanding.map RepairAttempt.agentId).Nodup := h.single
    rw [repairStep, RepairWorld.SingleFlight, RepairWorld.requested]
    split_ifs with hyes
    · rw [List.map_append, List.nodup_append, running_eq_none]
      simpa [hyes] using fun _ => hbefore
    · simpa [hyes] using hbefore
  rw [hadd]
  constructor
  · intro himp hnone
    refine himp ?_
    show ((current (w.gate.find agentId) action desiredRevision).request _ now).1.allowed = true
    rw [hnone]
    exact request_none (h.clock.trans hle) _
  · exact fun hnone hyes => admitted h hle hnone hyes

theorem inv_tryBegin (h : RepairInv w) (hle : w.clock ≤ now)
    (hnone : w.gate.find agentId = none → w.running agentId = none) :
    RepairInv (repairStep w (.tryBegin agentId action desiredRevision now)) where
  single := (singleFlight_iff h hle).mpr hnone
  ids := by
    show ((RepairWorld.requested ..).outstanding.map RepairAttempt.id).Nodup
    rw [RepairWorld.requested]
    split_ifs
    · rw [List.map_append, List.nodup_append]
      refine ⟨h.ids, by simp, ?_⟩
      intro i hi j hj
      obtain ⟨a, ha, rfl⟩ := List.mem_map.mp hi
      have hlt := h.fresh a ha
      simp at hj
      omega
    · exact h.ids
  fresh := by
    intro a ha
    show a.id < w.nextId + 1
    have ha : a ∈ (if (w.gate.tryBegin agentId action desiredRevision now).1.allowed then
        w.outstanding ++ [⟨w.nextId, agentId, action, desiredRevision⟩] else w.outstanding) := ha
    split_ifs at ha
    · rcases List.mem_append.mp ha with ha | ha
      · exact Nat.lt_succ_of_lt (h.fresh a ha)
      · rw [List.mem_singleton.mp ha]
        exact Nat.lt_succ_self _
    · exact Nat.lt_succ_of_lt (h.fresh a ha)
  clock := h.clock.trans hle
  account := by
    intro a
    have hacc := account_current (h.account agentId) hnone action desiredRevision
    rw [repairStep, running_requested _ _ _ _ _ _ _ fun hyes => admitted h hle hnone hyes]
    show AgentAccount now ((w.gate.put agentId _).find a)
      (Function.update w.spells agentId _ a) _
    rw [RuntimeReconcileRepairBackoff.find_put]
    by_cases ha : a = agentId
    · rw [if_pos ha, ha, Function.update_self]
      refine ⟨_, rfl, ?_⟩
      cases hallowed : (w.gate.tryBegin agentId action desiredRevision now).1.allowed with
      | true =>
          rw [if_pos ⟨rfl, rfl⟩]
          exact (account_admitted hacc hle hallowed ⟨w.nextId, agentId, action, desiredRevision⟩
            (wants_current _ _ _)).2.2
      | false =>
          rw [if_neg (by simp)]
          exact (account_refused hacc hallowed).mono hle
    · rw [if_neg ha, Function.update_of_ne ha, if_neg (fun hand => ha hand.2)]
      exact (h.account a).mono hle

end Request

theorem inv_step {w : RepairWorld} {op : RepairOp} (h : RepairInv w) (htime : Timely w op)
    (hop : NotForgotten w op) : RepairInv (repairStep w op) := by
  cases op with
  | tryBegin agentId action desiredRevision now =>
      exact inv_tryBegin h htime ((notForgotten_iff h).mp hop)
  | complete id failed now => exact inv_complete h id failed htime
  | clear agentId => exact inv_clear h agentId

theorem keepsOthers {w : RepairWorld} (h : RepairInv w) (op : RepairOp) : KeepsOthers w op := by
  cases op with
  | tryBegin agentId action desiredRevision now => trivial
  | clear agentId => trivial
  | complete id failed now =>
      intro a ha hid hlatched
      rw [repairStep]
      split
      · exact hlatched
      · next b hfind =>
          have hb : b ∈ w.outstanding := List.mem_of_find?_eq_some hfind
          have hbid : b.id = id := by simpa using List.find?_some hfind
          have hne : a.agentId ≠ b.agentId := by
            intro heq
            rw [List.inj_on_of_nodup_map h.single ha hb heq, hbid] at hid
            exact hid rfl
          obtain ⟨s, hs, hruns⟩ := hlatched
          exact ⟨s, (find_complete w.gate b failed now hne).trans hs, hruns⟩

theorem waits_step {w : RepairWorld} (h : RepairInv w) {op : RepairOp} (htime : Timely w op) :
    Waits w op := by
  cases op with
  | tryBegin agentId action desiredRevision now => exact waits h htime
  | complete id failed now => trivial
  | clear agentId => trivial

/-! ## The runs -/

/-- What the gate promises of a run. -/
structure RepairSafe (w : RepairWorld) (ops : List RepairOp) : Prop where
  single : Throughout repairStep RepairWorld.SingleFlight w ops
  others : Along repairStep KeepsOthers w ops
  waits : Along repairStep Waits w ops

/-- A run is safe exactly when no agent is asked for while an attempt of it
runs that a clear has made the gate forget. -/
theorem repair_safe_iff (delays : RepairDelays) (ops : List RepairOp)
    (htime : Along repairStep Timely (.init delays) ops) :
    RepairSafe (.init delays) ops ↔ Along repairStep NotForgotten (.init delays) ops := by
  have hstep : ∀ w op, RepairInv w → Timely w op →
      ((repairStep w op).SingleFlight ↔ NotForgotten w op) := by
    intro w op h ht
    cases op with
    | tryBegin agentId action desiredRevision now =>
        exact (singleFlight_iff h ht).trans (notForgotten_iff h).symm
    | complete id failed now => exact iff_of_true (inv_complete h id failed ht).single trivial
    | clear agentId => exact iff_of_true (inv_clear h agentId).single trivial
  have hiff := throughout_iff_along_keep hstep (fun w op h ht hop => inv_step h ht hop)
    (inv_init delays) (inv_init delays).single htime
  constructor
  · exact fun hsafe => hiff.mp hsafe.single
  · intro hall
    have hboth := htime.and hall
    refine ⟨hiff.mpr hall, ?_, ?_⟩
    · exact along_of_step (C := fun w op => Timely w op ∧ NotForgotten w op)
        (fun w op h hc => ⟨keepsOthers h op, inv_step h hc.1 hc.2⟩) (inv_init delays) hboth
    · exact along_of_step (C := fun w op => Timely w op ∧ NotForgotten w op)
        (fun w op h hc => ⟨waits_step h hc.1, inv_step h hc.1 hc.2⟩) (inv_init delays) hboth

/-! ## Two runs -/

/-- The defaults of the constructor. -/
def defaultDelays : RepairDelays :=
  ⟨60000, 300000, 120000, by norm_num, by norm_num, by norm_num⟩

/-- A failure, a request that is put off, and one that is admitted a minute
later. -/
def retried : List RepairOp :=
  [.tryBegin (js "mio") .refresh (js "hash-a") 0, .complete 0 true 10,
    .tryBegin (js "mio") .refresh (js "hash-a") 500,
    .tryBegin (js "mio") .refresh (js "hash-a") 60010]

theorem repair_safe_retried : RepairSafe (.init defaultDelays) retried :=
  (repair_safe_iff defaultDelays retried
    ⟨by decide +kernel, by decide +kernel, by decide +kernel, by decide +kernel, trivial⟩).mpr
    ⟨by decide +kernel, trivial, by decide +kernel, by decide +kernel, trivial⟩

/-- An attempt is forgotten by a clear and a second one admitted beside it. -/
def cleared : List RepairOp :=
  [.tryBegin (js "mio") .refresh (js "hash-a") 0, .clear (js "mio"),
    .tryBegin (js "mio") .refresh (js "hash-a") 1]

theorem cleared_runs_twice :
    Along repairStep Timely (.init defaultDelays) cleared ∧
      ¬ RepairSafe (.init defaultDelays) cleared := by
  refine ⟨⟨by decide +kernel, trivial, by decide +kernel, trivial⟩, fun h => ?_⟩
  have hagents : ((run repairStep (.init defaultDelays) cleared).outstanding.map
      RepairAttempt.agentId) = [js "mio", js "mio"] := by decide +kernel
  have hlast : ((run repairStep (.init defaultDelays) cleared).outstanding.map
      RepairAttempt.agentId).Nodup := h.single.last
  rw [hagents] at hlast
  simp at hlast

end Shizuha.Daemon
