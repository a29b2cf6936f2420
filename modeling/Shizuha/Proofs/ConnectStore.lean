import Shizuha.ConnectStore.Sqlite
import Shizuha.Js.JsonRoundTrip

/-!
# What the calls of the Connect store do

A new message comes after every message of its conversation, under the next
number. `createMessage_cases` says once what a send does: it finds the message
that was sent under the client's id before, or it inserts one row and bumps the
counters of the others, or it throws.
-/

namespace Shizuha.ConnectStore

open Js State

variable {s s' : Store} {stamp : Stamp} {o : MessageOpts} {id : Uuid} {m : DirectMessage}

/-- A uuid is what a column holds of it. -/
@[simp] theorem boundText_uuid (u : Uuid) : boundText u.val = u.val :=
  wellFormed_of_ascii u.property

/-- An id that a column takes for a uuid is that uuid. -/
theorem eq_uuid_of_bound {t : Text} {u : Uuid} (h : u.val = boundText t) : t = u.val := by
  have hformed : WellFormed t := wellFormed_of_ascii_result fun v hv => u.property v (h ▸ hv)
  exact hformed.symm.trans h.symm

theorem mem_messagesOf : m ∈ s.messagesOf id ↔ m ∈ s.messages.rows ∧ m.conversationId = id := by
  simp [Store.messagesOf]

/-- What is found under a client's id has one. -/
theorem findSent_some {conversationId : Text} {clientMessageId : Option Text}
    (h : s.findSent conversationId clientMessageId = some m) :
    m ∈ s.messages.rows ∧ m.conversationId.val = boundText conversationId ∧
      ∃ key, m.clientKey = some key ∧ key.1 = m.conversationId := by
  unfold Store.findSent at h
  split at h
  · cases h
  · split_ifs at h
    have hfound := List.find?_some h
    rw [decide_eq_true_eq] at hfound
    exact ⟨List.mem_of_find?_eq_some h, hfound.1, _, by rw [DirectMessage.clientKey, hfound.2]; rfl,
      rfl⟩

/-- One row more, and a higher counter for everyone but the sender. -/
structure Inserted (s s' : Store) (stamp : Stamp) (o : MessageOpts) (id : Uuid) : Prop where
  unsent : s.findSent o.conversationId o.clientMessageId = none
  conversation : id.val = boundText o.conversationId
  users : s'.users = s.users
  home : id ∈ s.conversations.rows.map Conversation.id
  conversations : s'.conversations.rows = s.conversations.rows.map fun r =>
    if r.id = id then r.rollUp stamp.now o.content else r
  messages : s'.messages.rows = s.messages.rows ++ [newMessage s stamp id o]
  participants : s'.participants.rows = s.participants.rows.map fun p =>
    if p.conversationId = id ∧ p.userId ≠ o.senderId ∧ p.hasLeft = false then
      { p with unreadCount := p.unreadCount + 1 }
    else p

/-- The conversations are the same ones. -/
theorem Inserted.ids (h : Inserted s s' stamp o id) :
    s'.conversations.rows.map Conversation.id = s.conversations.rows.map Conversation.id := by
  rw [h.conversations, List.map_map]
  refine List.map_congr_left fun r _ => ?_
  rw [Function.comp_apply]
  split_ifs <;> rfl

theorem insertMessage_ok (h : s.insertMessage m = .ok s') :
    s'.messages.rows = s.messages.rows ++ [m] ∧ s'.users = s.users ∧
      s'.conversations = s.conversations ∧ s'.participants = s.participants := by
  rw [Store.insertMessage] at h
  split at h
  · cases h
  · next messages hinsert =>
      split at h
      · cases h
        exact ⟨(Table.insert_eq_some hinsert).2, rfl, rfl, rfl⟩
      · cases h

theorem createMessage_cases (s : Store) (stamp : Stamp) (o : MessageOpts) :
    (∃ m, s.findSent o.conversationId o.clientMessageId = some m ∧
        s.createMessage stamp o = .ok (m, s)) ∨
      (∃ id s', Inserted s s' stamp o id ∧
        s.createMessage stamp o = .ok (newMessage s stamp id o, s')) ∨
      (s.findSent o.conversationId o.clientMessageId = none ∧
        ∃ e, s.createMessage stamp o = .error e) := by
  cases hsent : s.findSent o.conversationId o.clientMessageId with
  | some m => exact .inl ⟨m, rfl, by rw [Store.createMessage, hsent]⟩
  | none =>
      refine .inr ?_
      rw [Store.createMessage, hsent]
      cases hconv : s.conversations.rows.find? fun c =>
          c.id.val = boundText o.conversationId with
      | none => exact .inr ⟨rfl, _, rfl⟩
      | some c =>
          cases hinsert : s.insertMessage (newMessage s stamp c.id o) with
          | error e => exact .inr ⟨rfl, e, by simp [hinsert, Except.map]⟩
          | ok s₁ =>
              obtain ⟨hmessages, husers, hconversations, hparticipants⟩ := insertMessage_ok hinsert
              refine .inl ⟨c.id, _, ?_, by simp only [hinsert, Except.map]; rfl⟩
              refine ⟨hsent, by simpa using List.find?_some hconv, husers,
                List.mem_map_of_mem (List.mem_of_find?_eq_some hconv), ?_, hmessages, ?_⟩
              · simp only [hconversations, Table.update, decide_eq_true_eq]
              · simp only [hparticipants, Table.update, decide_eq_true_eq]

/-! ## Numbers -/

theorem foldr_max_le_iff {l : List ℕ} {n : ℕ} : l.foldr max 0 ≤ n ↔ ∀ k ∈ l, k ≤ n := by
  induction l with
  | nil => simp
  | cons k rest ih => rw [List.foldr_cons, max_le_iff, ih, List.forall_mem_cons]

theorem le_maxSeqNum (hm : m ∈ s.messagesOf id) : m.seqNum ≤ s.maxSeqNum id :=
  foldr_max_le_iff.mp (le_refl _) _ (List.mem_map_of_mem hm)

/-- The new message is the last one of its conversation. -/
theorem Inserted.messagesOf (h : Inserted s s' stamp o id) :
    s'.messagesOf id = s.messagesOf id ++ [newMessage s stamp id o] := by
  rw [Store.messagesOf, h.messages, List.filter_append]
  simp [Store.messagesOf, newMessage]

theorem seqNum_newMessage (s : Store) (stamp : Stamp) (id : Uuid) (o : MessageOpts) :
    ∀ m ∈ s.messagesOf id, m.seqNum < (newMessage s stamp id o).seqNum :=
  fun _ hm => Nat.lt_succ_of_le (le_maxSeqNum hm)

end Shizuha.ConnectStore
