import Shizuha.Machine
import Shizuha.Paging
import Shizuha.Proofs.ConnectStore

/-!
# The log of a conversation

However its messages come in, a conversation numbers them from one in the order
they were created, and its counter is the last number. A client's id names one
message, and a send under it comes back with that message and leaves the store
as it is. A list numbered like that can be paged back through, from the last
page to the first, and what comes back is the whole conversation.
-/

namespace Shizuha.ConnectStore

open Js State Machine Paging

/-- The calls that write. -/
inductive LogCall where
  | findOrCreateDirectConversation (stamp : Stamp) (a b : ℕ) (opts : DirectOpts)
  | createMessage (stamp : Stamp) (opts : MessageOpts)
  | markAsRead (now : ℕ) (conversationId : Text) (userId : ℕ) (messageId : Text)

/-- A call that throws leaves the store. -/
def logStep (s : Store) : LogCall → Store
  | .findOrCreateDirectConversation stamp a b opts =>
      match s.findOrCreateDirectConversation stamp a b opts with
      | .ok (_, s') => s'
      | .error _ => s
  | .createMessage stamp opts =>
      match s.createMessage stamp opts with
      | .ok (_, s') => s'
      | .error _ => s
  | .markAsRead now conversationId userId messageId =>
      (s.markAsRead now conversationId userId messageId).2

/-- The pages of a conversation, asked for one after the other: first without
`before`, then with the first number of the page before, until one is empty. -/
def Store.pagesBack (s : Store) (id : Uuid) (limit : Option ℕ) (fuel : ℕ) :
    Option (List (List DirectMessage)) :=
  walk DirectMessage.seqNum (s.listMessages id limit) fuel none

/-- The messages of each conversation are numbered from one, the counter counts
them, a client's id names one of them, and the pages are all of them, each once. -/
structure Gapless (s : Store) : Prop where
  numbered : ∀ c ∈ s.conversations.rows,
    (s.messagesOf c.id).map DirectMessage.seqNum = List.range' 1 c.messageCount
  once : ∀ m ∈ s.messages.rows, ∀ m' ∈ s.messages.rows, m.conversationId = m'.conversationId →
    m.clientMessageId ≠ none → m.clientMessageId = m'.clientMessageId → m = m'
  paged : ∀ c ∈ s.conversations.rows, ∀ limit : Option ℕ, (∀ k ∈ limit, 1 ≤ k) →
    ∃ pages, pages.reverse.flatten = s.messagesOf c.id ∧
      ∀ fuel, c.messageCount < fuel → s.pagesBack c.id limit fuel = some pages

/-- Messages stay as they were created, and a send under an id that was used
comes back with the message it was used for. -/
def Replayed (s : Store) (call : LogCall) : Prop :=
  s.messages.rows <+: (logStep s call).messages.rows ∧
    match call with
    | .createMessage stamp opts =>
        ∀ k ∈ opts.clientMessageId, k ≠ [] → ∀ m ∈ s.messages.rows,
          m.conversationId.val = boundText opts.conversationId →
            m.clientMessageId = some (boundText k) → s.createMessage stamp opts = .ok (m, s)
    | _ => True

/-- A store before its first message. -/
structure NewLog where
  store : Store
  empty : store.messages.rows = []
  uncounted : ∀ c ∈ store.conversations.rows, c.messageCount = 0

/-! ## What holds of every run -/

structure LogKept (s : Store) : Prop where
  numbered : ∀ c ∈ s.conversations.rows, (s.messagesOf c.id).length = c.messageCount ∧
    Numbered DirectMessage.seqNum (s.messagesOf c.id)
  homes : ∀ m ∈ s.messages.rows, m.conversationId ∈ s.conversations.rows.map Conversation.id

variable {s s' : Store} {stamp : Stamp} {o : MessageOpts} {id : Uuid} {m : DirectMessage}

theorem NewLog.kept (l : NewLog) : LogKept l.store where
  numbered c hc := by
    have hnone : l.store.messagesOf c.id = [] := by rw [Store.messagesOf, l.empty, List.filter_nil]
    rw [hnone, l.uncounted c hc]
    exact ⟨rfl, numbered_nil⟩
  homes m hm := by
    rw [l.empty] at hm
    cases hm

theorem maxSeqNum_of_numbered (h : Numbered DirectMessage.seqNum (s.messagesOf id)) :
    s.maxSeqNum id = (s.messagesOf id).length := h.foldr_max

/-- Another conversation keeps its messages. -/
theorem Inserted.messagesOf_ne (h : Inserted s s' stamp o id) {other : Uuid} (hne : other ≠ id) :
    s'.messagesOf other = s.messagesOf other := by
  have hmessage : (newMessage s stamp id o).conversationId = id := rfl
  rw [Store.messagesOf, h.messages, List.filter_append, Store.messagesOf]
  simp [hmessage, Ne.symm hne]

theorem LogKept.inserted (h : LogKept s) (hins : Inserted s s' stamp o id) : LogKept s' where
  numbered c' hc' := by
    rw [hins.conversations] at hc'
    obtain ⟨c, hc, rfl⟩ := List.mem_map.mp hc'
    obtain ⟨hcount, hnumbered⟩ := h.numbered c hc
    by_cases hid : c.id = id
    · rw [if_pos hid]
      show (s'.messagesOf c.id).length = c.messageCount + 1 ∧
        Numbered DirectMessage.seqNum (s'.messagesOf c.id)
      rw [hid, hins.messagesOf, List.length_append, ← hid, hcount]
      refine ⟨rfl, hnumbered.concat ?_⟩
      show s.maxSeqNum c.id + 1 = _
      rw [maxSeqNum_of_numbered hnumbered]
    · rw [if_neg hid, hins.messagesOf_ne hid]
      exact ⟨hcount, hnumbered⟩
  homes m hm := by
    rw [hins.ids]
    rw [hins.messages, List.mem_append, List.mem_singleton] at hm
    rcases hm with hm | rfl
    · exact h.homes m hm
    · exact hins.home

/-- More conversations, without messages. -/
theorem LogKept.conversations (h : LogKept s) (hmessages : s'.messages = s.messages)
    (hrows : ∃ new, s'.conversations.rows = s.conversations.rows ++ new ∧
      ∀ c ∈ new, c.messageCount = 0 ∧ c.id ∉ s.conversations.rows.map Conversation.id) :
    LogKept s' := by
  obtain ⟨new, hrows, hnew⟩ := hrows
  have hsame : ∀ id, s'.messagesOf id = s.messagesOf id := fun id => by
    rw [Store.messagesOf, hmessages, Store.messagesOf]
  refine ⟨fun c hc => ?_, fun m hm => ?_⟩
  · rw [hsame]
    rw [hrows, List.mem_append] at hc
    rcases hc with hc | hc
    · exact h.numbered c hc
    · obtain ⟨hcount, hfresh⟩ := hnew c hc
      have hnone : s.messagesOf c.id = [] := by
        rw [Store.messagesOf, List.filter_eq_nil_iff]
        intro m hm hid
        exact hfresh (of_decide_eq_true hid ▸ h.homes m hm)
      rw [hnone, hcount]
      exact ⟨rfl, numbered_nil⟩
  · rw [hmessages] at hm
    rw [hrows, List.map_append]
    exact List.mem_append_left _ (h.homes m hm)

theorem findOrCreate_conversations {a b : ℕ} {dopts : DirectOpts} {conv : Conversation}
    (h : s.findOrCreateDirectConversation stamp a b dopts = .ok (conv, s')) :
    s'.messages = s.messages ∧ ∃ new, s'.conversations.rows = s.conversations.rows ++ new ∧
      ∀ c ∈ new, c.messageCount = 0 ∧ c.id ∉ s.conversations.rows.map Conversation.id := by
  rw [Store.findOrCreateDirectConversation] at h
  split at h
  · cases h
    exact ⟨rfl, [], (List.append_nil _).symm, fun c hc => by cases hc⟩
  · dsimp only at h
    split at h
    · cases h
    · next conversations hinsert =>
        split at h
        · cases h
        · cases h
          obtain ⟨hfresh, hrows⟩ := Table.insert_eq_some hinsert
          refine ⟨rfl, _, hrows, fun c hc => ?_⟩
          rw [List.mem_singleton.mp hc]
          refine ⟨rfl, fun hmem => ?_⟩
          obtain ⟨c, hc, heq⟩ := List.mem_map.mp hmem
          exact Table.get_eq_none_iff.mp hfresh c hc heq

theorem markAsRead_rows (s : Store) (now : ℕ) (conversationId : Text) (userId : ℕ)
    (messageId : Text) :
    (s.markAsRead now conversationId userId messageId).2.messages = s.messages ∧
      (s.markAsRead now conversationId userId messageId).2.conversations = s.conversations := by
  rw [Store.markAsRead]
  split
  · exact ⟨rfl, rfl⟩
  · split <;> exact ⟨rfl, rfl⟩

/-- What a call does to the log: a message more at the end, or none. -/
theorem logStep_cases (s : Store) (call : LogCall) :
    (∃ stamp o id, Inserted s (logStep s call) stamp o id) ∨
      (logStep s call).messages = s.messages ∧
        ∃ new, (logStep s call).conversations.rows = s.conversations.rows ++ new ∧
          ∀ c ∈ new, c.messageCount = 0 ∧ c.id ∉ s.conversations.rows.map Conversation.id := by
  have hsame : ∃ new, s.conversations.rows = s.conversations.rows ++ new ∧
      ∀ c ∈ new, c.messageCount = 0 ∧ c.id ∉ s.conversations.rows.map Conversation.id :=
    ⟨[], (List.append_nil _).symm, fun c hc => by cases hc⟩
  cases call with
  | findOrCreateDirectConversation stamp a b opts =>
      right
      rw [logStep]
      cases h : s.findOrCreateDirectConversation stamp a b opts with
      | error e => exact ⟨rfl, hsame⟩
      | ok r => exact findOrCreate_conversations h
  | createMessage stamp o =>
      rw [logStep]
      rcases createMessage_cases s stamp o with ⟨m, -, heq⟩ | ⟨id, s', hins, heq⟩ | ⟨-, e, heq⟩
      · rw [heq]
        exact .inr ⟨rfl, hsame⟩
      · rw [heq]
        exact .inl ⟨stamp, o, id, hins⟩
      · rw [heq]
        exact .inr ⟨rfl, hsame⟩
  | markAsRead now conversationId userId messageId =>
      obtain ⟨hmessages, hconversations⟩ := markAsRead_rows s now conversationId userId messageId
      right
      rw [logStep]
      exact ⟨hmessages, by rw [hconversations]; exact hsame⟩

theorem LogKept.step (h : LogKept s) (call : LogCall) : LogKept (logStep s call) := by
  rcases logStep_cases s call with ⟨stamp, o, id, hins⟩ | ⟨hmessages, hrows⟩
  · exact h.inserted hins
  · exact h.conversations hmessages hrows

/-! ## What follows -/

/-- A client's id names one message of a conversation. -/
theorem eq_of_clientKey {m' : DirectMessage} (hm : m ∈ s.messages.rows)
    (hm' : m' ∈ s.messages.rows) {key : Uuid × Text} (hkey : m.clientKey = some key)
    (hkey' : m'.clientKey = some key) : m = m' := by
  have hpair := List.pairwise_filterMap.mp s.clientKeys
  have hsymm : Std.Symm fun a b : DirectMessage =>
      ∀ x, a.clientKey = some x → ∀ y, b.clientKey = some y → x ≠ y :=
    ⟨fun a b hab x hx y hy => (hab y hy x hx).symm⟩
  by_contra hne
  exact hpair.forall hm hm' hne key hkey key hkey' rfl

theorem LogKept.gapless (h : LogKept s) : Gapless s where
  numbered c hc := by
    obtain ⟨hcount, hnumbered⟩ := h.numbered c hc
    rw [← hcount]
    exact hnumbered
  once m hm m' hm' hconv hsome heq := by
    obtain ⟨k, hk⟩ := Option.ne_none_iff_exists'.mp hsome
    have hkey : m.clientKey = some (m.conversationId, k) := by
      rw [DirectMessage.clientKey, hk, Option.map_some]
    have hkey' : m'.clientKey = some (m.conversationId, k) := by
      rw [DirectMessage.clientKey, ← heq, hk, Option.map_some, hconv]
    exact eq_of_clientKey hm hm' hkey hkey'
  paged c hc limit hlimit := by
    obtain ⟨hcount, hnumbered⟩ := h.numbered c hc
    rw [← hcount]
    have hsize : 1 ≤ min (limit.getD 200) 1000 := by
      cases limit with
      | none => decide
      | some k =>
          have := hlimit k rfl
          rw [Option.getD_some]
          omega
    exact walk_numbered hnumbered hsize

theorem replayed_step (s : Store) (call : LogCall) : Replayed s call := by
  constructor
  · rcases logStep_cases s call with ⟨stamp, o, id, hins⟩ | ⟨hmessages, -⟩
    · rw [hins.messages]
      exact List.prefix_append _ _
    · rw [hmessages]
  · cases call with
    | createMessage stamp o =>
        intro k hk hne m hm hconv hclient
        have hsent : s.findSent o.conversationId o.clientMessageId = some m := by
          unfold Store.findSent
          rw [show o.clientMessageId = some k from hk]
          dsimp only
          rw [if_neg hne]
          cases hfind : s.messages.rows.find? fun m =>
              m.conversationId.val = boundText o.conversationId ∧
                m.clientMessageId = some (boundText k) with
          | none =>
              have hnot := List.find?_eq_none.mp hfind m hm
              exact absurd (decide_eq_true ⟨hconv, hclient⟩) hnot
          | some m' =>
              have hfound := List.find?_some hfind
              rw [decide_eq_true_eq] at hfound
              have hid : m'.conversationId = m.conversationId :=
                Subtype.ext (hfound.1.trans hconv.symm)
              have hkey' : m'.clientKey = some (m.conversationId, boundText k) := by
                rw [DirectMessage.clientKey, hfound.2, Option.map_some, hid]
              have hkey : m.clientKey = some (m.conversationId, boundText k) := by
                rw [DirectMessage.clientKey, hclient, Option.map_some]
              rw [eq_of_clientKey (List.mem_of_find?_eq_some hfind) hm hkey' hkey]
        rw [Store.createMessage, hsent]
    | _ => trivial

/-- In every run the log of each conversation is gapless and can be paged back
through, and what is sent again comes back. -/
theorem log_gapless (l : NewLog) (calls : List LogCall) :
    Throughout logStep Gapless l.store calls ∧ Along logStep Replayed l.store calls := by
  constructor
  · exact (throughout_of_step (C := fun _ _ => True) (fun s call h _ => h.step call) l.kept
      (along_true (fun _ _ => trivial) _ _)).mono fun s h => h.gapless
  · exact along_true replayed_step _ _

end Shizuha.ConnectStore
