import Shizuha.Machine
import Shizuha.Proofs.ConnectStore

/-!
# What has been read

Runs of sends and read receipts on one conversation, on a clock that moves.
Beside the store a run keeps the receipts it gave: who asked, the number of the
message that was named, and the ids that came back as newly read.

The receipts are exact when each message of somebody else comes back in the
first receipt of a participant that reaches it, and the counter counts what no
receipt has reached yet. The store remembers the time of the last receipt
instead of its number, so exactness is lost by a receipt that names an older
message while newer ones of somebody else are there, and by nothing else.
-/

namespace Shizuha.ConnectStore

open Js State Machine

structure Receipt where
  userId : ℕ
  upTo : ℕ
  newlyRead : List Uuid

structure ReceiptState where
  store : Store
  clock : ℕ
  /-- The oldest one first. -/
  receipts : List Receipt

/-- A call, so long after the one before it. -/
inductive ReceiptCall where
  | createMessage (wait : ℕ) (messageId : Uuid) (senderId : ℕ) (senderIsAgent : Bool)
      (agentId : Option Text) (content : Text) (clientMessageId : Option Text)
  | markAsRead (wait userId : ℕ) (messageId : Text)

/-- The message a call of this participant marks as read. -/
def Store.marks (s : Store) (id : Uuid) (userId : ℕ) (messageId : Text) : Option DirectMessage :=
  (s.messageIn id.val messageId).filter fun target =>
    (s.participants.get (target.conversationId, userId)).isSome

def receiptStep (id : Uuid) (s : ReceiptState) : ReceiptCall → ReceiptState
  | .createMessage wait messageId senderId senderIsAgent agentId content clientMessageId =>
      let now := s.clock + wait + 1
      let o : MessageOpts := ⟨id.val, senderId, senderIsAgent, agentId, content, clientMessageId⟩
      { s with
        store :=
          match s.store.createMessage ⟨now, id, messageId⟩ o with
          | .ok (_, store) => store
          | .error _ => s.store
        clock := now }
  | .markAsRead wait userId messageId =>
      let now := s.clock + wait + 1
      let (newlyRead, store) := s.store.markAsRead now id.val userId messageId
      { store := store
        clock := now
        receipts := s.receipts ++ ((s.store.marks id userId messageId).map fun target =>
          ⟨userId, target.seqNum, newlyRead⟩).toList }

/-- The largest number a participant has marked. -/
def largestMarked (userId : ℕ) (receipts : List Receipt) : ℕ :=
  ((receipts.filter fun r => r.userId = userId).map Receipt.upTo).foldr max 0

/-- Each message of somebody else is newly read in the first receipt that reaches
it, and the counters count those that none has. -/
structure ReceiptsExact (id : Uuid) (s : ReceiptState) : Prop where
  newlyRead : ∀ before r after, s.receipts = before ++ r :: after → ∀ i,
    i ∈ r.newlyRead ↔ ∃ m ∈ s.store.messagesOf id, m.id = i ∧ m.senderId ≠ r.userId ∧
      m.seqNum ≤ r.upTo ∧ largestMarked r.userId before < m.seqNum
  unread : ∀ p ∈ s.store.participants.rows, p.conversationId = id →
    p.unreadCount = ((s.store.messagesOf id).filter fun m =>
      m.senderId ≠ p.userId ∧ largestMarked p.userId s.receipts < m.seqNum).length

/-- Nobody else has a message in the conversation that is newer than all that the
participant will have marked. -/
def NothingNewer (id : Uuid) (s : ReceiptState) : ReceiptCall → Prop
  | .createMessage .. => True
  | .markAsRead _ userId messageId =>
      ∀ target ∈ s.store.marks id userId messageId, ∀ m ∈ s.store.messagesOf id,
        m.senderId ≠ userId → m.seqNum ≤ max (largestMarked userId s.receipts) target.seqNum

/-- A conversation as it is made, in some store. -/
structure NewConversation where
  store : Store
  clock : ℕ
  id : Uuid
  empty : store.messagesOf id = []
  unread : ∀ p ∈ store.participants.rows, p.conversationId = id →
    p.lastReadAt = none ∧ p.unreadCount = 0 ∧ p.hasLeft = false

def NewConversation.start (c : NewConversation) : ReceiptState := ⟨c.store, c.clock, []⟩

/-! ## What the store does remember -/

/-- What a participant has not seen, by the clock. -/
def unseen (p : Participant) (m : DirectMessage) : Bool :=
  decide (m.senderId ≠ p.userId) && decide (∀ t ∈ p.lastReadAt, t < m.createdAt)

/-- What no receipt of a participant has reached. -/
def unreached (receipts : List Receipt) (p : Participant) (m : DirectMessage) : Bool :=
  decide (m.senderId ≠ p.userId) && decide (largestMarked p.userId receipts < m.seqNum)

structure ParticipantKept (id : Uuid) (s : ReceiptState) (p : Participant) : Prop where
  here : p.hasLeft = false
  never : p.lastReadAt = none → ∀ r ∈ s.receipts, r.userId ≠ p.userId
  past : ∀ t ∈ p.lastReadAt, t ≤ s.clock
  later : ∀ t ∈ p.lastReadAt, ∀ m ∈ s.store.messagesOf id, t < m.createdAt →
    ∀ r ∈ s.receipts, r.userId = p.userId → r.upTo < m.seqNum
  unread : p.unreadCount = ((s.store.messagesOf id).filter (unseen p)).length

/-- What holds of every run. -/
structure ClockKept (id : Uuid) (s : ReceiptState) : Prop where
  ascending : (s.store.messagesOf id).Pairwise fun a b => a.seqNum < b.seqNum
  numbered : ∀ m ∈ s.store.messagesOf id, 0 < m.seqNum
  old : ∀ m ∈ s.store.messagesOf id, m.createdAt ≤ s.clock
  targets : ∀ r ∈ s.receipts, ∃ m ∈ s.store.messagesOf id, m.seqNum = r.upTo
  participants : ∀ p ∈ s.store.participants.rows, p.conversationId = id → ParticipantKept id s p

variable {id : Uuid} {s : ReceiptState} {p : Participant} {m : DirectMessage} {call : ReceiptCall}
  {receipts : List Receipt} {r : Receipt} {userId n : ℕ}

theorem largestMarked_lt_iff (hn : 0 < n) :
    largestMarked userId receipts < n ↔ ∀ r ∈ receipts, r.userId = userId → r.upTo < n := by
  obtain ⟨k, rfl⟩ : ∃ k, n = k + 1 := ⟨n - 1, by omega⟩
  simp only [Nat.lt_succ_iff, largestMarked, foldr_max_le_iff, List.forall_mem_map, List.mem_filter,
    decide_eq_true_eq, and_imp]

theorem largestMarked_append (receipts : List Receipt) (r : Receipt) :
    largestMarked userId (receipts ++ [r]) =
      if r.userId = userId then max (largestMarked userId receipts) r.upTo
      else largestMarked userId receipts := by
  have hmax : ∀ l : List ℕ, (l ++ [r.upTo]).foldr max 0 = max (l.foldr max 0) r.upTo := by
    intro l
    induction l with
    | nil => simp
    | cons k rest ih => rw [List.cons_append, List.foldr_cons, ih, List.foldr_cons, max_assoc]
  rw [largestMarked, List.filter_append]
  split_ifs with h
  · rw [List.filter_cons_of_pos (by simpa using h), List.filter_nil, List.map_append]
    exact hmax _
  · rw [List.filter_cons_of_neg (by simpa using h), List.filter_nil, List.append_nil]
    rfl

theorem ReceiptsExact.unread_eq (h : ReceiptsExact id s) (hp : p ∈ s.store.participants.rows)
    (hid : p.conversationId = id) :
    p.unreadCount = ((s.store.messagesOf id).filter (unreached s.receipts p)).length := by
  rw [h.unread p hp hid]
  congr 2
  funext m
  simp [unreached]

/-- What the clock calls new, no receipt has reached. -/
theorem ClockKept.unreached_of_unseen (h : ClockKept id s) (hp : p ∈ s.store.participants.rows)
    (hid : p.conversationId = id) (hm : m ∈ s.store.messagesOf id) (hunseen : unseen p m = true) :
    unreached s.receipts p m = true := by
  have hkept := h.participants p hp hid
  rw [unseen, Bool.and_eq_true, decide_eq_true_eq, decide_eq_true_eq] at hunseen
  rw [unreached, Bool.and_eq_true, decide_eq_true_eq, decide_eq_true_eq,
    largestMarked_lt_iff (h.numbered m hm)]
  refine ⟨hunseen.1, fun r hr heq => ?_⟩
  cases hread : p.lastReadAt with
  | none => exact absurd heq (hkept.never hread r hr)
  | some t => exact hkept.later t hread m hm (hunseen.2 t hread) r hr heq

/-- Of two properties one implies, the same number of elements has both only when
they agree. -/
theorem eq_of_length_filter {α : Type} {l : List α} {p q : α → Bool}
    (himp : ∀ a ∈ l, p a = true → q a = true)
    (hlen : (l.filter p).length = (l.filter q).length) {a : α} (ha : a ∈ l) : p a = q a := by
  have hfilter : (l.filter q).filter p = l.filter p := by
    rw [List.filter_filter]
    refine List.filter_congr fun b hb => ?_
    rw [Bool.and_eq_left_iff_imp]
    exact himp b hb
  have hall : ∀ b ∈ l.filter q, p b = true :=
    List.length_filter_eq_length_iff.mp (by rw [hfilter, hlen])
  cases hq : q a with
  | true => exact hall a (List.mem_filter.mpr ⟨ha, hq⟩)
  | false => exact eq_false_of_ne_true fun hp => by simp [himp a ha hp] at hq

/-- With the counters right, the clock and the numbers agree. -/
theorem ClockKept.unseen_eq (h : ClockKept id s) (hexact : ReceiptsExact id s)
    (hp : p ∈ s.store.participants.rows) (hid : p.conversationId = id)
    (hm : m ∈ s.store.messagesOf id) : unseen p m = unreached s.receipts p m :=
  eq_of_length_filter (fun _ hm' => h.unreached_of_unseen hp hid hm')
    ((h.participants p hp hid).unread.symm.trans (hexact.unread_eq hp hid)) hm

/-! ## A message more -/

/-- The messages of the conversation grow by one, and so does what each of the
others has not read. -/
structure Sent (id : Uuid) (s s' : ReceiptState) (new : DirectMessage) : Prop where
  clock : s.clock < s'.clock
  receipts : s'.receipts = s.receipts
  messages : s'.store.messagesOf id = s.store.messagesOf id ++ [new]
  number : ∀ m ∈ s.store.messagesOf id, m.seqNum < new.seqNum
  positive : 0 < new.seqNum
  time : new.createdAt = s'.clock
  participants : ∀ p' ∈ s'.store.participants.rows, p'.conversationId = id →
    ∃ p ∈ s.store.participants.rows, p.conversationId = id ∧ p'.userId = p.userId ∧
      p'.lastReadAt = p.lastReadAt ∧ p'.hasLeft = p.hasLeft ∧
      (p.hasLeft = false →
        p'.unreadCount = p.unreadCount + if new.senderId = p.userId then 0 else 1)

theorem receiptStep_send (id : Uuid) (s : ReceiptState) (wait : ℕ) (messageId : Uuid)
    (senderId : ℕ) (senderIsAgent : Bool) (agentId : Option Text) (content : Text)
    (clientMessageId : Option Text) {s' : ReceiptState}
    (h : receiptStep id s (.createMessage wait messageId senderId senderIsAgent agentId content
      clientMessageId) = s') :
    (s' = { s with clock := s'.clock } ∧ s.clock < s'.clock) ∨ ∃ new, Sent id s s' new := by
  subst h
  rcases createMessage_cases s.store ⟨s.clock + wait + 1, id, messageId⟩
      ⟨id.val, senderId, senderIsAgent, agentId, content, clientMessageId⟩ with
    ⟨m, -, heq⟩ | ⟨c, store, hinserted, heq⟩ | ⟨-, e, heq⟩
  · exact .inl (by simp only [receiptStep, heq]; exact ⟨trivial, by omega⟩)
  · refine .inr ⟨newMessage s.store ⟨s.clock + wait + 1, id, messageId⟩ id
      ⟨id.val, senderId, senderIsAgent, agentId, content, clientMessageId⟩, ?_⟩
    have hc : c = id := Subtype.ext (by rw [hinserted.conversation, boundText_uuid])
    subst hc
    simp only [receiptStep, heq]
    refine ⟨by show s.clock < s.clock + wait + 1; omega, rfl, hinserted.messagesOf,
      seqNum_newMessage _ _ _ _, Nat.succ_pos _, rfl, fun p' hp' hid => ?_⟩
    rw [hinserted.participants] at hp'
    obtain ⟨p, hp, rfl⟩ := List.mem_map.mp hp'
    refine ⟨p, hp, ?_⟩
    by_cases hbump : p.conversationId = c ∧ p.userId ≠ senderId ∧ p.hasLeft = false
    · simp only [if_pos hbump]
      refine ⟨hbump.1, trivial, trivial, trivial, fun _ => ?_⟩
      show p.unreadCount + 1 = p.unreadCount + if senderId = p.userId then 0 else 1
      rw [if_neg (Ne.symm hbump.2.1)]
    · simp only [if_neg hbump] at hid ⊢
      refine ⟨hid, trivial, trivial, trivial, fun hleft => ?_⟩
      show p.unreadCount = p.unreadCount + if senderId = p.userId then 0 else 1
      rw [if_pos (by by_contra hne; exact hbump ⟨hid, Ne.symm hne, hleft⟩), Nat.add_zero]
  · exact .inl (by simp only [receiptStep, heq]; exact ⟨trivial, by omega⟩)

/-- Only the time goes on. -/
theorem ClockKept.wait (h : ClockKept id s) {s' : ReceiptState}
    (heq : s' = { s with clock := s'.clock }) (hclock : s.clock < s'.clock) : ClockKept id s' := by
  rw [heq]
  refine ⟨h.ascending, h.numbered, fun m hm => (h.old m hm).trans hclock.le, h.targets,
    fun p hp hid => ?_⟩
  obtain ⟨hhere, hnever, hpast, hlater, hunread⟩ := h.participants p hp hid
  exact ⟨hhere, hnever, fun t ht => (hpast t ht).trans hclock.le, hlater, hunread⟩

variable {s' : ReceiptState} {new : DirectMessage}

theorem Sent.mem (h : Sent id s s' new) :
    m ∈ s'.store.messagesOf id ↔ m ∈ s.store.messagesOf id ∨ m = new := by
  rw [h.messages, List.mem_append, List.mem_singleton]

/-- A new message has a greater number than any that was marked. -/
theorem Sent.beyond (h : Sent id s s' new) (hkept : ClockKept id s) (hr : r ∈ s.receipts) :
    r.upTo < new.seqNum := by
  obtain ⟨m, hm, heq⟩ := hkept.targets r hr
  rw [← heq]
  exact h.number m hm

theorem length_filter_append_singleton {α : Type} (l : List α) (p : α → Bool) (a : α) :
    ((l ++ [a]).filter p).length = (l.filter p).length + if p a = true then 1 else 0 := by
  rw [List.filter_append, List.length_append]
  cases hp : p a <;> simp [hp]

theorem ClockKept.sent (h : ClockKept id s) (hsent : Sent id s s' new) : ClockKept id s' := by
  refine ⟨?_, fun m hm => ?_, fun m hm => ?_, fun r hr => ?_, fun p' hp' hid' => ?_⟩
  · rw [hsent.messages]
    refine List.pairwise_append.mpr ⟨h.ascending, List.pairwise_singleton _ _, fun m hm n hn => ?_⟩
    rw [List.mem_singleton.mp hn]
    exact hsent.number m hm
  · rcases hsent.mem.mp hm with hm | rfl
    · exact h.numbered m hm
    · exact hsent.positive
  · rcases hsent.mem.mp hm with hm | rfl
    · exact (h.old m hm).trans hsent.clock.le
    · exact hsent.time.le
  · rw [hsent.receipts] at hr
    obtain ⟨m, hm, heq⟩ := h.targets r hr
    exact ⟨m, hsent.mem.mpr (.inl hm), heq⟩
  · obtain ⟨p, hp, hid, huser, hread, hleft, hunread⟩ := hsent.participants p' hp' hid'
    have hkept := h.participants p hp hid
    have hunseen : unseen p' = unseen p := by
      funext m
      rw [unseen, unseen, huser, hread]
    refine ⟨hleft.trans hkept.here, ?_, ?_, ?_, ?_⟩
    · rw [hread, hsent.receipts, huser]
      exact hkept.never
    · rw [hread]
      exact fun t ht => (hkept.past t ht).trans hsent.clock.le
    · rw [hread, hsent.receipts, huser]
      intro t ht m hm htime r hr hr'
      rcases hsent.mem.mp hm with hm | rfl
      · exact hkept.later t ht m hm htime r hr hr'
      · exact hsent.beyond h hr
    · have hnew : unseen p new = !decide (new.senderId = p.userId) := by
        have hpast : ∀ t ∈ p.lastReadAt, t < new.createdAt := by
          intro t ht
          rw [hsent.time]
          exact (hkept.past t ht).trans_lt hsent.clock
        rw [unseen, decide_eq_true hpast, Bool.and_true, decide_not]
      rw [hunread hkept.here, hkept.unread, hsent.messages, hunseen,
        length_filter_append_singleton, hnew]
      by_cases heq : new.senderId = p.userId <;> simp [heq]

theorem ReceiptsExact.sent (h : ReceiptsExact id s) (hkept : ClockKept id s)
    (hsent : Sent id s s' new) : ReceiptsExact id s' := by
  constructor
  · intro before r after heq i
    rw [hsent.receipts] at heq
    rw [h.newlyRead before r after heq i]
    constructor
    · rintro ⟨m, hm, hrest⟩
      exact ⟨m, hsent.mem.mpr (.inl hm), hrest⟩
    · rintro ⟨m, hm, hid, hsender, hupTo, hrest⟩
      rcases hsent.mem.mp hm with hm | rfl
      · exact ⟨m, hm, hid, hsender, hupTo, hrest⟩
      · have hbeyond : r.upTo < m.seqNum := hsent.beyond hkept (by rw [heq]; simp)
        omega
  · intro p' hp' hid'
    obtain ⟨p, hp, hid, huser, hread, hleft, hunread⟩ := hsent.participants p' hp' hid'
    have hnew : largestMarked p.userId s.receipts < new.seqNum :=
      (largestMarked_lt_iff hsent.positive).mpr fun r hr _ => hsent.beyond hkept hr
    rw [hunread (hkept.participants p hp hid).here, h.unread p hp hid, huser, hsent.receipts,
      hsent.messages, length_filter_append_singleton]
    by_cases heq : new.senderId = p.userId <;> simp [heq, hnew]

/-! ## A receipt -/

/-- The participant's time is now and the counter is back at zero. -/
structure Marked (id : Uuid) (s s' : ReceiptState) (userId : ℕ) (target : DirectMessage)
    (part : Participant) (newlyRead : List Uuid) : Prop where
  clock : s.clock < s'.clock
  target_mem : target ∈ s.store.messagesOf id
  part_mem : part ∈ s.store.participants.rows
  part_key : part.key = (id, userId)
  messages : s'.store.messagesOf id = s.store.messagesOf id
  receipts : s'.receipts = s.receipts ++ [⟨userId, target.seqNum, newlyRead⟩]
  newlyRead : ∀ i, i ∈ newlyRead ↔
    ∃ m ∈ s.store.messagesOf id, m.id = i ∧ m.seqNum ≤ target.seqNum ∧ unseen part m = true
  participants : s'.store.participants.rows = s.store.participants.rows.map fun p =>
    if p.conversationId = id ∧ p.userId = userId then
      { p with lastReadAt := some s'.clock, unreadCount := 0 }
    else p

theorem mem_unreadUpTo {st : Store} {lastReadAt : Option ℕ} :
    m ∈ st.unreadUpTo id userId n lastReadAt ↔ m ∈ st.messagesOf id ∧ m.seqNum ≤ n ∧
      m.senderId ≠ userId ∧ ∀ t ∈ lastReadAt, t < m.createdAt := by
  rw [Store.unreadUpTo, (List.perm_insertionSort _ _).mem_iff, List.mem_filter, decide_eq_true_eq]

theorem receiptStep_mark (id : Uuid) (s : ReceiptState) (wait userId : ℕ) (messageId : Text)
    {s' : ReceiptState} (h : receiptStep id s (.markAsRead wait userId messageId) = s') :
    (s.store.marks id userId messageId = none ∧ s' = { s with clock := s'.clock } ∧
        s.clock < s'.clock) ∨
      ∃ target part newlyRead, s.store.marks id userId messageId = some target ∧
        Marked id s s' userId target part newlyRead := by
  subst h
  cases hin : s.store.messageIn id.val messageId with
  | none =>
      have hmarks : s.store.marks id userId messageId = none := by
        rw [Store.marks, hin, Option.filter_none]
      refine .inl ⟨hmarks, ?_, ?_⟩ <;> simp only [receiptStep, Store.markAsRead, hin, hmarks]
      · simp
      · omega
  | some target =>
      have htarget : target ∈ s.store.messagesOf id := by
        have hfound := List.find?_some hin
        rw [decide_eq_true_eq, boundText_uuid] at hfound
        exact mem_messagesOf.mpr ⟨List.mem_of_find?_eq_some hin, Subtype.ext hfound.2⟩
      have hconv := (mem_messagesOf.mp htarget).2
      cases hpart : s.store.participants.get (target.conversationId, userId) with
      | none =>
          have hmarks : s.store.marks id userId messageId = none := by
            rw [Store.marks, hin, Option.filter_some, hpart]
            rfl
          refine .inl ⟨hmarks, ?_, ?_⟩ <;>
            simp only [receiptStep, Store.markAsRead, hin, hpart, hmarks]
          · simp
          · omega
      | some part =>
          have hmarks : s.store.marks id userId messageId = some target := by
            rw [Store.marks, hin, Option.filter_some, hpart]
            rfl
          obtain ⟨hmem, hkey⟩ := Table.get_eq_some_iff.mp hpart
          rw [hconv] at hkey hpart
          refine .inr ⟨target, part, (s.store.unreadUpTo id userId target.seqNum
            part.lastReadAt).map DirectMessage.id, hmarks, ?_⟩
          simp only [receiptStep, Store.markAsRead, hin, hconv, hpart, hmarks]
          refine ⟨by show s.clock < s.clock + wait + 1; omega, htarget, hmem, hkey, rfl, rfl,
            fun i => ?_, ?_⟩
          · have huser : part.userId = userId := congrArg Prod.snd hkey
            simp only [List.mem_map, mem_unreadUpTo, unseen, Bool.and_eq_true, decide_eq_true_eq,
              huser]
            exact exists_congr fun m => by tauto
          · simp only [Table.update, decide_eq_true_eq]

variable {target : DirectMessage} {part : Participant} {newlyRead : List Uuid}

theorem ClockKept.marked (h : ClockKept id s)
    (hmarked : Marked id s s' userId target part newlyRead) : ClockKept id s' := by
  have hclock := hmarked.clock.le
  refine ⟨by rw [hmarked.messages]; exact h.ascending, by rw [hmarked.messages]; exact h.numbered,
    fun m hm => ?_, fun r hr => ?_, fun p' hp' hid => ?_⟩
  · rw [hmarked.messages] at hm
    exact (h.old m hm).trans hclock
  · rw [hmarked.messages]
    rw [hmarked.receipts, List.mem_append, List.mem_singleton] at hr
    rcases hr with hr | rfl
    · exact h.targets r hr
    · exact ⟨target, hmarked.target_mem, rfl⟩
  · rw [hmarked.participants] at hp'
    obtain ⟨p, hp, rfl⟩ := List.mem_map.mp hp'
    by_cases hmine : p.conversationId = id ∧ p.userId = userId
    · simp only [if_pos hmine] at hid ⊢
      have hold : ∀ m ∈ s'.store.messagesOf id, ¬ s'.clock < m.createdAt := by
        intro m hm
        rw [hmarked.messages] at hm
        exact not_lt.mpr ((h.old m hm).trans hclock)
      refine ⟨(h.participants p hp hmine.1).here, fun hnone => (nomatch hnone), ?_, ?_, ?_⟩
      · rintro t ht
        exact (Option.mem_some_iff.mp ht).ge
      · rintro t ht m hm htime
        rw [← Option.mem_some_iff.mp ht] at htime
        exact absurd htime (hold m hm)
      · -- nothing is later than now
        refine (List.length_eq_zero_iff.mpr (List.filter_eq_nil_iff.mpr fun m hm hunseen => ?_)).symm
        rw [unseen, Bool.and_eq_true, decide_eq_true_eq, decide_eq_true_eq] at hunseen
        exact hold m hm (hunseen.2 _ rfl)
    · simp only [if_neg hmine] at hid ⊢
      obtain ⟨hhere, hnever, hpast, hlater, hunread⟩ := h.participants p hp hid
      have hothers : ∀ r ∈ s'.receipts, r.userId = p.userId → r ∈ s.receipts := by
        intro r hr huser
        rw [hmarked.receipts, List.mem_append, List.mem_singleton] at hr
        rcases hr with hr | rfl
        · exact hr
        · exact absurd ⟨hid, huser.symm⟩ hmine
      refine ⟨hhere, fun hnone r hr huser => hnever hnone r (hothers r hr huser) huser,
        fun t ht => (hpast t ht).trans hclock, fun t ht m hm htime r hr huser => ?_, ?_⟩
      · rw [hmarked.messages] at hm
        exact hlater t ht m hm htime r (hothers r hr huser) huser
      · rw [hmarked.messages]
        exact hunread

/-- The counter of somebody who marked is back at zero, so all of somebody else's
messages have to be reached. -/
theorem ReceiptsExact.nothingNewer (h : ReceiptsExact id s')
    (hmarked : Marked id s s' userId target part newlyRead) :
    ∀ m ∈ s.store.messagesOf id, m.senderId ≠ userId →
      m.seqNum ≤ max (largestMarked userId s.receipts) target.seqNum := by
  obtain ⟨hconv, huser⟩ : part.conversationId = id ∧ part.userId = userId :=
    Prod.mk.inj hmarked.part_key
  have hzero : { part with lastReadAt := some s'.clock, unreadCount := 0 } ∈
      s'.store.participants.rows := by
    rw [hmarked.participants]
    exact List.mem_map.mpr ⟨part, hmarked.part_mem, if_pos ⟨hconv, huser⟩⟩
  have hnone := List.filter_eq_nil_iff.mp
    (List.length_eq_zero_iff.mp (h.unread _ hzero hconv).symm)
  intro m hm hsender
  rw [hmarked.messages, hmarked.receipts, largestMarked_append, if_pos huser.symm] at hnone
  have hm' := hnone m hm
  rw [decide_eq_true_eq, not_and, not_lt, huser] at hm'
  exact hm' hsender

theorem ReceiptsExact.marked (h : ReceiptsExact id s) (hkept : ClockKept id s)
    (hmarked : Marked id s s' userId target part newlyRead)
    (hnewer : ∀ m ∈ s.store.messagesOf id, m.senderId ≠ userId →
      m.seqNum ≤ max (largestMarked userId s.receipts) target.seqNum) : ReceiptsExact id s' := by
  obtain ⟨hconv, huser⟩ : part.conversationId = id ∧ part.userId = userId :=
    Prod.mk.inj hmarked.part_key
  constructor
  · intro before r after heq i
    rw [hmarked.receipts] at heq
    rw [hmarked.messages]
    rcases List.eq_nil_or_concat after with rfl | ⟨after', r', rfl⟩
    · -- the receipt is the new one
      obtain ⟨rfl, hr⟩ := List.append_inj' heq rfl
      obtain rfl := List.singleton_inj.mp hr
      rw [hmarked.newlyRead]
      refine exists_congr fun m => and_congr_right fun hm => and_congr_right fun _ => ?_
      rw [hkept.unseen_eq h hmarked.part_mem hconv hm, unreached, Bool.and_eq_true,
        decide_eq_true_eq, decide_eq_true_eq, huser]
      tauto
    · refine h.newlyRead before r after' ?_ i
      rw [List.concat_eq_append, ← List.cons_append, ← List.append_assoc] at heq
      exact (List.append_inj' heq rfl).1
  · intro p' hp' hid
    rw [hmarked.participants] at hp'
    obtain ⟨p, hp, rfl⟩ := List.mem_map.mp hp'
    rw [hmarked.messages, hmarked.receipts, largestMarked_append]
    by_cases hmine : p.conversationId = id ∧ p.userId = userId
    · simp only [if_pos hmine, if_pos hmine.2.symm]
      refine (List.length_eq_zero_iff.mpr (List.filter_eq_nil_iff.mpr fun m hm hbeyond => ?_)).symm
      rw [decide_eq_true_eq] at hbeyond
      rw [hmine.2] at hbeyond
      exact absurd (hnewer m hm hbeyond.1) (not_le.mpr hbeyond.2)
    · simp only [if_neg hmine] at hid ⊢
      rw [if_neg (fun heq => hmine ⟨hid, heq.symm⟩)]
      exact h.unread p hp hid

/-! ## Runs -/

theorem ClockKept.step (h : ClockKept id s) (call : ReceiptCall) :
    ClockKept id (receiptStep id s call) := by
  cases call with
  | createMessage wait messageId senderId senderIsAgent agentId content clientMessageId =>
      rcases receiptStep_send id s wait messageId senderId senderIsAgent agentId content
        clientMessageId rfl with ⟨heq, hclock⟩ | ⟨new, hsent⟩
      · exact h.wait heq hclock
      · exact h.sent hsent
  | markAsRead wait userId messageId =>
      rcases receiptStep_mark id s wait userId messageId rfl with
        ⟨-, heq, hclock⟩ | ⟨target, part, newlyRead, -, hmarked⟩
      · exact h.wait heq hclock
      · exact h.marked hmarked

theorem ReceiptsExact.wait (h : ReceiptsExact id s) (heq : s' = { s with clock := s'.clock }) :
    ReceiptsExact id s' := by
  rw [heq]
  exact ⟨h.newlyRead, h.unread⟩

theorem receiptsExact_step_iff (hkept : ClockKept id s) (h : ReceiptsExact id s) :
    ReceiptsExact id (receiptStep id s call) ↔ NothingNewer id s call := by
  cases call with
  | createMessage wait messageId senderId senderIsAgent agentId content clientMessageId =>
      refine iff_of_true ?_ trivial
      rcases receiptStep_send id s wait messageId senderId senderIsAgent agentId content
        clientMessageId rfl with ⟨heq, -⟩ | ⟨new, hsent⟩
      · exact h.wait heq
      · exact h.sent hkept hsent
  | markAsRead wait userId messageId =>
      rcases receiptStep_mark id s wait userId messageId rfl with
        ⟨hnone, heq, -⟩ | ⟨target, part, newlyRead, hsome, hmarked⟩
      · refine iff_of_true (h.wait heq) fun target htarget => ?_
        rw [hnone] at htarget
        cases htarget
      · constructor
        · intro hexact target' htarget'
          obtain rfl : target = target' := Option.some.inj (hsome.symm.trans htarget')
          exact hexact.nothingNewer hmarked
        · exact fun hnewer => h.marked hkept hmarked (hnewer target hsome)

theorem NewConversation.kept (c : NewConversation) : ClockKept c.id c.start := by
  have hempty : c.start.store.messagesOf c.id = [] := c.empty
  refine ⟨by rw [hempty]; exact List.Pairwise.nil, by simp [hempty], by simp [hempty],
    by simp [NewConversation.start], fun p hp hid => ?_⟩
  obtain ⟨hread, hcount, hleft⟩ := c.unread p hp hid
  refine ⟨hleft, by simp [NewConversation.start], by simp [hread], by simp [hread], ?_⟩
  rw [hcount, hempty]
  rfl

theorem NewConversation.exact (c : NewConversation) : ReceiptsExact c.id c.start := by
  have hempty : c.start.store.messagesOf c.id = [] := c.empty
  refine ⟨fun before r after heq => ?_, fun p hp hid => ?_⟩
  · simp [NewConversation.start] at heq
  · rw [(c.unread p hp hid).2.1, hempty]
    rfl

/-- The receipts of a run are exact as long as, and only as long as, no receipt
leaves a newer message of somebody else behind. -/
theorem receiptsExact_iff (c : NewConversation) (calls : List ReceiptCall) :
    Throughout (receiptStep c.id) (ReceiptsExact c.id) c.start calls ↔
      Along (receiptStep c.id) (NothingNewer c.id) c.start calls :=
  throughout_iff_along_of (J := ClockKept c.id) (D := fun _ _ => True)
    (fun _ call h => h.step call) (fun _ _ hkept _ h => receiptsExact_step_iff hkept h)
    c.kept c.exact (along_true (fun _ _ => trivial) _ _)

/-! ## An older message marked

Two messages, the first of them marked: the counter says that nothing is unread,
and marking the second one then brings nothing back.
-/

theorem chat_ascii : ∀ u ∈ js "chat", u < 128 := ascii_of_all rfl

theorem first_ascii : ∀ u ∈ js "m1", u < 128 := ascii_of_all rfl

theorem second_ascii : ∀ u ∈ js "m2", u < 128 := ascii_of_all rfl

def chatId : Uuid := ⟨js "chat", chat_ascii⟩

def noOptions : DirectOpts := ⟨none, fun _ => none, fun _ => none⟩

theorem chatKeys_nodup :
    ([newParticipant chatId 0 noOptions 1, newParticipant chatId 0 noOptions 2].map
      Participant.key).Nodup := by decide

def chatStore : Store where
  users := .empty
  conversations := ⟨[newDirect chatId 0 (buildDirectKey 1 2) none], List.nodup_singleton _⟩
  participants :=
    ⟨[newParticipant chatId 0 noOptions 1, newParticipant chatId 0 noOptions 2], chatKeys_nodup⟩
  messages := .empty
  clientKeys := clientKeys_empty

theorem chatStore_unread : ∀ p ∈ chatStore.participants.rows, p.conversationId = chatId →
    p.lastReadAt = none ∧ p.unreadCount = 0 ∧ p.hasLeft = false := by
  decide

def chat : NewConversation := ⟨chatStore, 0, chatId, rfl, chatStore_unread⟩

def olderMarked : List ReceiptCall :=
  [.createMessage 0 ⟨js "m1", first_ascii⟩ 1 false none (js "one") none,
    .createMessage 0 ⟨js "m2", second_ascii⟩ 1 false none (js "two") none,
    .markAsRead 0 2 (js "m1"), .markAsRead 0 2 (js "m2")]

theorem older_marked_not_exact :
    ¬ Throughout (receiptStep chat.id) (ReceiptsExact chat.id) chat.start olderMarked := by
  intro h
  have hunread := h.2.2.2.1.unread
  revert hunread
  decide +kernel

end Shizuha.ConnectStore
