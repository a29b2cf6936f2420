import Mathlib.Data.List.Nodup
import Mathlib.Data.Multiset.AddSub
import Mathlib.Tactic.Abel
import Shizuha.Proofs.InboxConservation

/-!
# No message is lost or doubled

The accepted messages and the digests balance with what is queued, handed out,
drained and gone, and no object is in the balance twice. A message that is no
notice is never gone, so it is in one of the other places, once.

The heartbeats accepted since the last one was handed out are queued or counted.
That needs the count to end whenever a heartbeat is handed out, and it does but
for one that was resumed.
-/

namespace Shizuha.Gateway

open Js Machine

/-! ## Traces -/

/-- The inbox, with the messages it has accepted, handed out and given up to be
drained, and the heartbeats pushed since one was handed out or all was drained. -/
structure InboxTrace where
  inbox : Inbox
  accepted : List InboundMessage
  returned : List InboundMessage
  drained : List InboundMessage
  heartbeats : List ℕ

def InboxTrace.start : InboxTrace := ⟨.empty, [], [], [], []⟩

/-- The heartbeats that a push accepts. -/
def InboxOp.ticks (s : Inbox) (op : InboxOp) : List ℕ :=
  match op with
  | .tryPush _ _ => ((op.given s).filter isHeartbeat).map InboundMessage.ref
  | _ => []

/-- The count of heartbeats begins anew. -/
def restarts (op : InboxOp) (o : Outcome) : Bool :=
  match op with
  | .drainForRecovery => true
  | _ => o.returned.any isHeartbeat

def traceStep (upper : Text → Text) (t : InboxTrace) (op : InboxOp) : InboxTrace where
  inbox := inboxStep upper t.inbox op
  accepted := t.accepted ++ op.given t.inbox
  returned := t.returned ++ (t.inbox.call upper op).2.returned.toList
  drained := t.drained ++ (t.inbox.call upper op).2.drained
  heartbeats :=
    if restarts op (t.inbox.call upper op).2 then [] else t.heartbeats ++ op.ticks t.inbox

/-! ## The statements -/

/-- Direct-control or cron, and no notice by its text. -/
def Lasting (m : InboundMessage) : Prop :=
  (gatewayInboxClass m = .directControl ∨ gatewayInboxClass m = .cron) ∧
    isWorkingDeferredTaskNotification m = false

/-- The message is queued, or handed out, or drained, and only one of these, and once. -/
def InboxTrace.InOnePlace (t : InboxTrace) (m : InboundMessage) : Prop :=
  ((t.inbox.queue ++ (t.returned ++ t.drained)).map InboundMessage.ref).count m.ref = 1

/-- A heartbeat pushed since one was handed out. -/
def InboxTrace.ticked (t : InboxTrace) (m : InboundMessage) : Bool :=
  isHeartbeat m && t.heartbeats.contains m.ref

/-- The heartbeats pushed since then are those of them that are queued, and those
that are counted. -/
def InboxTrace.TicksCounted (t : InboxTrace) : Prop :=
  t.heartbeats.length = t.inbox.queue.countP t.ticked + t.inbox.coalescedHeartbeatCount

/-- They are the heartbeats that are queued, and those that are counted. -/
def InboxTrace.AllTicksCounted (t : InboxTrace) : Prop :=
  t.heartbeats.length = t.inbox.queue.countP isHeartbeat + t.inbox.coalescedHeartbeatCount

def coalescedCount (m : InboundMessage) : Option Json :=
  ((m.metadata.getD []).find? fun f => f.1 = js "coalescedCount").map Prod.snd

/-- The message is one of those that the digest counts. -/
def MergedInto (s : Inbox) (op : InboxOp) (o : Outcome) (m : InboundMessage) : Prop :=
  ∃ (digest : InboundMessage) (held : List InboundMessage), o.returned = some digest ∧
    m ∈ held ∧ held.Subperm (s.queue ++ op.given s) ∧
      coalescedCount digest = some (.num (.ofMagnitude held.length))

/-- A routine notice stays or is handed on, or it is replaced, merged or dropped. -/
def NoticeLeaves (upper : Text → Text) (t : InboxTrace) (op : InboxOp) : Prop :=
  ∀ m ∈ t.inbox.queue ++ op.given t.inbox, gatewayInboxClass m = .routineTask →
    m ∈ (t.inbox.call upper op).1.queue ∨ (t.inbox.call upper op).2.returned = some m ∨
      m ∈ (t.inbox.call upper op).2.drained ∨ Replaced upper op m ∨
        MergedInto t.inbox op (t.inbox.call upper op).2 m ∨ Dropped (t.inbox.call upper op).2 m

/-- A heartbeat is resumed. -/
def InboxOp.resumesHeartbeat : InboxOp → Bool
  | .resumeAdmitted messages => messages.any isHeartbeat
  | _ => false

/-- A heartbeat is put in front. -/
def InboxOp.frontsHeartbeat : InboxOp → Bool
  | .pushFront messages | .resumeAdmitted messages => messages.any isHeartbeat
  | _ => false

variable {upper : Text → Text} {fresh : Fresh} {s s' : Inbox} {m row : InboundMessage}
  {op : InboxOp} {t : InboxTrace} {after : Inbox × Outcome}
  {handed merged gone : List InboundMessage} {used : List ℕ}

/-! ## The count of a digest -/

theorem find?_setField_same (k : Text) (v : Json) (fields : List (Text × Json)) :
    (setField k v fields).find? (fun f => f.1 = k) = some (k, v) := by
  induction fields with
  | nil => rw [setField, List.find?_cons_of_pos (by simp)]
  | cons f rest ih =>
      rw [setField]
      split_ifs with hf
      · rw [List.find?_cons_of_pos (by simp)]
      · rwa [List.find?_cons_of_neg (by simpa using hf)]

theorem find?_setField_other {k k' : Text} (v : Json) (fields : List (Text × Json))
    (h : k ≠ k') :
    (setField k v fields).find? (fun f => f.1 = k') = fields.find? fun f => f.1 = k' := by
  induction fields with
  | nil => rw [setField, List.find?_cons_of_neg (by simpa using h)]
  | cons f rest ih =>
      rw [setField]
      split_ifs with hf
      · rw [List.find?_cons_of_neg (by simpa using h),
          List.find?_cons_of_neg (by simpa [hf] using h)]
      · rw [List.find?_cons, List.find?_cons, ih]

theorem coalescedCount_digest (upper : Text → Text) (fresh : Fresh) (first : InboundMessage)
    (held : List InboundMessage) :
    coalescedCount (digest upper fresh first held) = some (.num (.ofMagnitude held.length)) := by
  have hother : js "coalescedTaskKeys" ≠ js "coalescedCount" := by
    rw [js_ofList, js_ofList]
    decide
  rw [coalescedCount, digest]
  simp only [Option.getD_some, List.foldl_cons, List.foldl_nil]
  rw [find?_setField_other _ _ hother, find?_setField_same]
  rfl

/-! ## A call in the trace -/

theorem moved_call (upper : Text → Text) (t : InboxTrace) (op : InboxOp) :
    ∃ handed merged gone,
      Moved upper t.inbox op (t.inbox.call upper op) handed merged gone :=
  moved upper t.inbox op

theorem Moved.mem_iff (h : Moved upper s op after handed merged gone) :
    row ∈ s.queue ∨ row ∈ op.given s ↔ row ∈ after.1.queue ∨ row ∈ handed ∨
      row ∈ after.2.drained ∨ row ∈ merged ∨ row ∈ gone := by
  have hmem := h.rows.mem_iff (a := row)
  simp only [List.mem_append] at hmem
  rw [hmem]
  tauto

theorem Returns.of_handed {o : Option InboundMessage} {read : Option Fresh}
    (h : Returns upper read o handed merged) (hrow : row ∈ handed) : o = some row := by
  cases h with
  | row m => rw [List.mem_singleton.mp hrow]
  | nothing | digest => exact absurd hrow List.not_mem_nil

theorem Returns.of_merged {o : Option InboundMessage} {read : Option Fresh}
    (h : Returns upper read o handed merged) (hrow : row ∈ merged) :
    isWorkingDeferredTaskNotification row = true ∧ ∃ d, o = some d ∧
      coalescedCount d = some (.num (.ofMagnitude merged.length)) := by
  cases h with
  | digest hread hfirst hheld =>
      exact ⟨hheld row hrow, _, rfl, coalescedCount_digest _ _ _ _⟩
  | nothing | row => exact absurd hrow List.not_mem_nil

theorem noticeLeaves (upper : Text → Text) (t : InboxTrace) (op : InboxOp) :
    NoticeLeaves upper t op := by
  obtain ⟨handed, merged, gone, hmoved⟩ := moved_call upper t op
  intro m hm hclass
  rw [List.mem_append] at hm
  rcases hmoved.mem_iff.mp hm with hm | hm | hm | hm | hm
  · exact .inl hm
  · exact .inr (.inl (hmoved.returns.of_handed hm))
  · exact .inr (.inr (.inl hm))
  · obtain ⟨-, d, hreturned, hcount⟩ := hmoved.returns.of_merged hm
    refine .inr (.inr (.inr (.inr (.inl ⟨d, merged, hreturned, hm, ?_, hcount⟩))))
    refine List.Subperm.trans ?_ hmoved.rows.symm.subperm
    exact ((List.sublist_append_left merged gone).trans
      (List.sublist_append_right _ (merged ++ gone))).subperm
  · rcases hmoved.lost m hm with hlost | hlost | ⟨hheartbeat, -⟩
    · exact .inr (.inr (.inr (.inl hlost)))
    · exact .inr (.inr (.inr (.inr (.inr hlost))))
    · rw [hclass] at hheartbeat
      cases hheartbeat

/-! ## The balance -/

/-- The accepted messages and the digests are in the queue, handed out, drained
or gone, and what is gone is not lasting. -/
structure Ledger (t : InboxTrace) (used : List ℕ) (digests gone : List InboundMessage) :
    Prop where
  balance : (t.accepted ++ digests).Perm (t.inbox.queue ++ (t.returned ++ t.drained) ++ gone)
  lost : ∀ r ∈ gone, ¬ Lasting r
  refs : ((t.accepted ++ digests).map InboundMessage.ref).Subperm used

theorem not_lasting_of_deferred (h : isWorkingDeferredTaskNotification m = true) : ¬ Lasting m := by
  intro ⟨_, hm⟩
  rw [h] at hm
  cases hm

theorem not_lasting_of_class (h : gatewayInboxClass m = .routineTask ∨
    gatewayInboxClass m = .heartbeat) : ¬ Lasting m := by
  intro ⟨hclass, _⟩
  rcases h with h | h <;> rw [h] at hclass <;> rcases hclass with hclass | hclass <;> cases hclass

theorem Moved.not_lasting (h : Moved upper s op after handed merged gone)
    (hrow : row ∈ merged ++ gone) : ¬ Lasting row := by
  rcases List.mem_append.mp hrow with hrow | hrow
  · exact not_lasting_of_deferred (h.returns.of_merged hrow).1
  · rcases h.lost row hrow with ⟨fresh, m, -, hkey, hsome⟩ | hdropped | ⟨hclass, -⟩
    · exact not_lasting_of_class (.inl (class_of_key (hkey ▸ hsome)))
    · exact not_lasting_of_deferred hdropped.1
    · exact not_lasting_of_class (.inr hclass)

/-- What is handed out was queued or given, or it is a digest. -/
theorem Returns.digests {o : Option InboundMessage} {read : Option Fresh}
    (h : Returns upper read o handed merged) : ∃ digests, o.toList = handed ++ digests ∧
      (digests.map InboundMessage.ref).Subperm (read.toList.map Fresh.ref) := by
  cases h with
  | nothing => exact ⟨[], rfl, (List.nil_sublist _).subperm⟩
  | row m => exact ⟨[], rfl, (List.nil_sublist _).subperm⟩
  | digest hread =>
      rw [hread]
      exact ⟨[_], rfl, .refl _⟩

theorem refs_of_op (s : Inbox) (op : InboxOp) :
    ((op.given s).map InboundMessage.ref ++ op.fresh.toList.map Fresh.ref).Subperm op.refs := by
  cases op with
  | tryPush fresh m =>
      rw [InboxOp.given]
      split_ifs
      · exact (List.sublist_append_left [fresh.ref] [m.ref]).subperm
      · exact (List.Perm.swap fresh.ref m.ref []).subperm
  | pushFront messages | resumeAdmitted messages =>
      show (messages.map InboundMessage.ref ++ []).Subperm _
      rw [List.append_nil]
      exact .refl _
  | next | drainForRecovery | sealIngress | unsealIngress => exact .refl _

theorem ledger_step {digests gone : List InboundMessage} (h : Ledger t used digests gone)
    (upper : Text → Text) (op : InboxOp) :
    ∃ digests gone, Ledger (traceStep upper t op) (used ++ op.refs) digests gone := by
  obtain ⟨handed, merged, lost, hmoved⟩ := moved_call upper t op
  obtain ⟨made, hreturned, hmade⟩ := hmoved.returns.digests
  refine ⟨digests ++ made, gone ++ (merged ++ lost), ?_, ?_, ?_⟩
  · have hbefore := Multiset.coe_eq_coe.mpr h.balance
    have hcall := Multiset.coe_eq_coe.mpr hmoved.rows
    rw [← Multiset.coe_eq_coe]
    simp only [traceStep, inboxStep, hreturned, ← Multiset.coe_add] at hbefore hcall ⊢
    calc _ = ((t.accepted : Multiset InboundMessage) + digests) +
          ((op.given t.inbox : Multiset InboundMessage) + made) := by abel
      _ = ((t.inbox.queue : Multiset InboundMessage) + op.given t.inbox) +
          ((t.returned : Multiset InboundMessage) + t.drained + gone + made) := by
        rw [hbefore]
        abel
      _ = _ := by
        rw [hcall]
        abel
  · intro r hr
    rcases List.mem_append.mp hr with hr | hr
    · exact h.lost r hr
    · exact hmoved.not_lasting hr
  · have hnew : ((op.given t.inbox).map InboundMessage.ref ++
        made.map InboundMessage.ref).Subperm op.refs :=
      ((List.Subperm.refl _).append hmade).trans (refs_of_op t.inbox op)
    have hall := h.refs.append hnew
    refine List.Perm.subperm ?_ |>.trans hall
    rw [← Multiset.coe_eq_coe]
    simp only [traceStep, List.map_append, ← Multiset.coe_add]
    abel

/-- What is lasting and in the balance is in one place. -/
theorem inOnePlace_of_ledger {digests gone : List InboundMessage}
    (h : Ledger t used digests gone) (hused : used.Nodup) (hm : m ∈ t.accepted) (hlasting : Lasting m) :
    t.InOnePlace m := by
  have hnodup : ((t.accepted ++ digests).map InboundMessage.ref).Nodup := by
    obtain ⟨l, hperm, hsub⟩ := h.refs
    exact hperm.nodup_iff.mp (hused.sublist hsub)
  have hmem : m ∈ t.accepted ++ digests := List.mem_append_left _ hm
  have hgone : (gone.map InboundMessage.ref).count m.ref = 0 := by
    rw [List.count_eq_zero]
    intro href
    obtain ⟨r, hr, href⟩ := List.mem_map.mp href
    have hr' : r ∈ t.accepted ++ digests := h.balance.mem_iff.mpr (List.mem_append_right _ hr)
    obtain rfl := List.inj_on_of_nodup_map hnodup hr' hmem href
    exact h.lost r hr hlasting
  have hone : ((t.accepted ++ digests).map InboundMessage.ref).count m.ref = 1 :=
    List.count_eq_one_of_mem hnodup (List.mem_map_of_mem hmem)
  rw [(h.balance.map InboundMessage.ref).count_eq, List.map_append, List.count_append, hgone] at hone
  exact hone

end Shizuha.Gateway
