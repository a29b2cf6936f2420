import Shizuha.Machine
import Shizuha.ConnectStore.Server
import Shizuha.Proofs.ConnectStore

/-!
# Told once

Runs of sends over the three ways to send, with what they told the groups kept
beside the store. A message under a client's id is told once when exactly one
`new_message` for it went to the group of its conversation, and it is one row.

The store never makes a second row. The socket's two ways tell the group
whether the row is new or not, and the POST looks for it among the newest
messages only, so a message is told again by a send that repeats an id unless
it is a POST that finds it there. That is also the only way to tell one twice.
-/

namespace Shizuha.ConnectStore

open Js State Machine

inductive Request where
  | postDm (stamp : Stamp) (userId : Option ℕ) (body : DmBody)
  | sendMessage (stamp : Stamp) (c : ConnectChannel) (data : SendFrame)
  | streamEvent (stamp : Stamp) (c : ConnectChannel) (data : StreamFrame)

/-- The store, what was told so far, and the messages the requests were about. -/
structure Traffic where
  store : Store
  sent : List GroupSend
  handled : List DirectMessage

def Traffic.after {ρ : Type} (t : Traffic) (o : Outcome ρ) : Traffic :=
  ⟨o.store, t.sent ++ o.sent, t.handled ++ o.msg.toList⟩

def trafficStep (lower : Text → Text) (t : Traffic) : Request → Traffic
  | .postDm stamp userId body => t.after (postDm lower t.store stamp userId body)
  | .sendMessage stamp c data => t.after (c.handleSendMessage t.store stamp data)
  | .streamEvent stamp c data => t.after (c.handleStreamEvent t.store stamp data)

/-- A new_message for the message under this key, to the group of its
conversation. -/
def announces (key : Uuid × Text) (g : GroupSend) : Bool :=
  match g.event with
  | .newMessage m _ => decide (g.group = chatGroup key.1.val ∧ m.clientKey = some key)
  | _ => false

/-- One row and one new_message for every client's id that was used. -/
def SentOnce (t : Traffic) : Prop :=
  ∀ m ∈ t.handled, ∀ key, m.clientKey = some key →
    t.store.messages.rows.countP (fun r => r.clientKey = some key) = 1 ∧
      t.sent.countP (announces key) = 1

/-- The request uses an id again, and the code does not keep silent. -/
def Repeats (lower : Text → Text) (s : Store) : Request → Prop
  | .postDm _ userId body =>
      ∃ dm conv, dmRequest lower s userId body = .ok dm ∧
        s.directConversation dm.sender.id dm.recipient.id = some conv ∧
        s.findSent conv.id.val dm.clientMessageId ≠ none ∧
        s.recentlySent conv.id dm.clientMessageId = none
  | .sendMessage _ c data =>
      ∃ o, c.sendOpts s data = .ok o ∧ s.findSent o.conversationId o.clientMessageId ≠ none
  | .streamEvent _ c data =>
      c.isAgent = true ∧ data.conversationId.getD [] ≠ [] ∧ data.eventType = some (js "complete") ∧
        ∃ o, c.completeOpts s data = some o ∧
          s.findSent o.conversationId o.clientMessageId ≠ none

/-- A store in which no client's id has been used. -/
structure Unsent where
  store : Store
  unused : ∀ m ∈ store.messages.rows, m.clientMessageId = none

def Unsent.start (u : Unsent) : Traffic := ⟨u.store, [], []⟩

/-! ## What a request may do -/

variable {lower : Text → Text} {s s' : Store} {t : Traffic} {ρ : Type} {o : Outcome ρ}
  {new : Option DirectMessage} {told : List DirectMessage} {key : Uuid × Text}
  {m : DirectMessage} {stamp : Stamp}

/-- What the request inserted and what it told. -/
structure Served (s : Store) (o : Outcome ρ) (new : Option DirectMessage)
    (told : List DirectMessage) : Prop where
  rows : o.store.messages.rows = s.messages.rows ++ new.toList
  ids : s.conversations.rows.map Conversation.id ⊆ o.store.conversations.rows.map Conversation.id
  home : ∀ m ∈ new, m.conversationId ∈ o.store.conversations.rows.map Conversation.id
  sent : ∀ key, o.sent.countP (announces key) = told.countP fun m => m.clientKey = some key

/-- It inserts and tells, or neither. -/
inductive ToldOnce (s : Store) (o : Outcome ρ) : Prop where
  | nothing (hserved : Served s o none []) (hmsg : o.msg = none)
  | silent {m : DirectMessage} (hserved : Served s o none []) (hmsg : o.msg = some m)
      (hm : m ∈ s.messages.rows)
  | fresh {m : DirectMessage} (hserved : Served s o (some m) [m]) (hmsg : o.msg = some m)

/-- It tells of a message that is there already. -/
structure ToldAgain (s : Store) (o : Outcome ρ) (m : DirectMessage) (key : Uuid × Text) :
    Prop where
  served : Served s o none [m]
  msg : o.msg = some m
  row : m ∈ s.messages.rows
  key : m.clientKey = some key

theorem announces_newMessage {text origin : Text} (hgroup : text = m.conversationId.val)
    (key : Uuid × Text) :
    announces key ⟨chatGroup text, .newMessage m origin⟩ = decide (m.clientKey = some key) := by
  subst hgroup
  rw [announces, decide_eq_decide, and_iff_right_iff_imp]
  intro hkey
  obtain ⟨k, -, rfl⟩ := Option.map_eq_some_iff.mp hkey
  rfl

theorem countP_quiet {sent : List GroupSend} (h : ∀ g ∈ sent, announces key g = false) :
    sent.countP (announces key) = 0 :=
  List.countP_eq_zero.mpr fun g hg => by simp [h g hg]

theorem served_same (s : Store) {sent : List GroupSend} (reply : ρ) (msg : Option DirectMessage)
    (hquiet : ∀ key, ∀ g ∈ sent, announces key g = false) :
    Served s ⟨s, sent, reply, msg⟩ none [] :=
  ⟨(List.append_nil _).symm, List.Subset.refl _, by simp, fun key => by simp [countP_quiet (hquiet key)]⟩

/-- What the store did, told to the group under the text of the request. -/
theorem Inserted.served {mo : MessageOpts} {id : Uuid} (h : Inserted s s' stamp mo id)
    {sent : List GroupSend} (hsent : ∀ key, sent.countP (announces key) =
      [newMessage s stamp id mo].countP fun m => m.clientKey = some key) (reply : ρ)
    (msg : Option DirectMessage) :
    Served s ⟨s', sent, reply, msg⟩ (some (newMessage s stamp id mo))
      [newMessage s stamp id mo] := by
  refine ⟨h.messages, by rw [h.ids]; exact List.Subset.refl _, fun m hm => ?_, hsent⟩
  rw [h.ids, ← Option.mem_some_iff.mp hm]
  exact h.home

theorem sendPersisted_told (s : Store) (stamp : Stamp) (channelName : Text) (mo : MessageOpts) :
    (s.findSent mo.conversationId mo.clientMessageId ≠ none →
        ∃ m key, ToldAgain s (sendPersisted s stamp channelName mo) m key) ∧
      (s.findSent mo.conversationId mo.clientMessageId = none →
        ToldOnce s (sendPersisted s stamp channelName mo)) := by
  rcases createMessage_cases s stamp mo with ⟨m, hsent, heq⟩ | ⟨id, s', hinserted, heq⟩ |
    ⟨hnone, e, heq⟩
  · refine ⟨fun _ => ?_, fun hnone => by rw [hnone] at hsent; cases hsent⟩
    obtain ⟨hm, hconv, key, hkey, -⟩ := findSent_some hsent
    refine ⟨m, key, ?_, ?_, hm, hkey⟩ <;> rw [sendPersisted, heq]
    refine ⟨(List.append_nil _).symm, List.Subset.refl _, by simp, fun key => ?_⟩
    rw [List.countP_singleton, List.countP_singleton, announces_newMessage (eq_uuid_of_bound hconv)]
  · refine ⟨fun hsome => absurd hinserted.unsent hsome, fun _ => ?_⟩
    refine .fresh (m := newMessage s stamp id mo) ?_ ?_ <;> rw [sendPersisted, heq]
    refine hinserted.served (fun key => ?_) _ _
    rw [List.countP_singleton, List.countP_singleton,
      announces_newMessage (eq_uuid_of_bound hinserted.conversation)]
  · refine ⟨fun hsome => absurd hnone hsome, fun _ => .nothing ?_ ?_⟩ <;> rw [sendPersisted, heq]
    exact served_same s _ _ (by simp)

/-! ## The POST -/

theorem recentlySent_mem {id : Uuid} {k : Option Text} (h : s.recentlySent id k = some m) :
    m ∈ s.messages.rows := by
  obtain ⟨k, -, hfind⟩ := Option.bind_eq_some_iff.mp h
  have hlist := List.mem_reverse.mp (List.mem_of_find?_eq_some hfind)
  have hrows := (List.perm_insertionSort _ _).mem_iff.mp (List.mem_of_mem_take hlist)
  exact (mem_messagesOf.mp (List.mem_of_mem_filter hrows)).1

theorem quiet_created (s : Store) (c : Conversation) (key : Uuid × Text) :
    ∀ g ∈ if c.messageCount = 0 then broadcastConversationCreated s c else [],
      announces key g = false := by
  intro g hg
  split_ifs at hg
  · obtain ⟨p, -, rfl⟩ := List.mem_map.mp hg
    rfl
  · cases hg

theorem dmPersist_told (s : Store) (stamp : Stamp) (dm : Dm) (conv : Conversation) :
    (s.findSent conv.id.val dm.clientMessageId ≠ none →
        s.recentlySent conv.id dm.clientMessageId = none →
        ∃ m key, ToldAgain s (dmPersist s stamp dm conv) m key) ∧
      ((s.findSent conv.id.val dm.clientMessageId ≠ none →
          s.recentlySent conv.id dm.clientMessageId ≠ none) →
        ToldOnce s (dmPersist s stamp dm conv)) := by
  have hquiet := quiet_created s conv
  cases hrecent : s.recentlySent conv.id dm.clientMessageId with
  | some msg =>
      refine ⟨fun _ hnone => (nomatch hnone), fun _ => ?_⟩
      refine .silent ?_ (by rw [dmPersist, hrecent]) (recentlySent_mem hrecent)
      rw [dmPersist, hrecent]
      exact served_same s _ _ hquiet
  | none =>
      have hcount {m : DirectMessage} {text : Text} (hconv : text = m.conversationId.val)
          (key : Uuid × Text) :
          ((if conv.messageCount = 0 then broadcastConversationCreated s conv else []) ++
              ([⟨chatGroup text, .newMessage m []⟩] : List GroupSend)).countP (announces key) =
            [m].countP fun m => m.clientKey = some key := by
        rw [List.countP_append, countP_quiet (hquiet key), zero_add, List.countP_singleton,
          List.countP_singleton, announces_newMessage hconv]
      rcases createMessage_cases s stamp (dm.messageOpts conv.id) with
        ⟨m, hsent, heq⟩ | ⟨id, s', hinserted, heq⟩ | ⟨hnone, e, heq⟩
      · have hsent' : s.findSent conv.id.val dm.clientMessageId = some m := hsent
        refine ⟨fun _ _ => ?_, fun hfound => absurd rfl (hfound (by simp [hsent']))⟩
        obtain ⟨hm, hconv, key, hkey, -⟩ := findSent_some hsent'
        refine ⟨m, key, ?_, ?_, hm, hkey⟩ <;> simp only [dmPersist, hrecent, heq]
        exact ⟨(List.append_nil _).symm, List.Subset.refl _, by simp,
          hcount (eq_uuid_of_bound hconv)⟩
      · refine ⟨fun hsome => absurd hinserted.unsent hsome, fun _ => ?_⟩
        refine .fresh (m := newMessage s stamp id (dm.messageOpts conv.id)) ?_ ?_ <;>
          simp only [dmPersist, hrecent, heq]
        exact hinserted.served (hcount (eq_uuid_of_bound hinserted.conversation)) _ _
      · refine ⟨fun hsome => absurd hnone hsome, fun _ => .nothing ?_ ?_⟩ <;>
          simp only [dmPersist, hrecent, heq]
        exact served_same s _ _ hquiet

/-- The conversation that is there, or a new one beside the others. -/
theorem findOrCreate_cases {a b : ℕ} {dopts : DirectOpts} {conv : Conversation}
    (h : s.findOrCreateDirectConversation stamp a b dopts = .ok (conv, s')) :
    (s.directConversation a b = some conv ∧ s' = s) ∨
      (s.directConversation a b = none ∧ s'.messages = s.messages ∧
        conv.id ∉ s.conversations.rows.map Conversation.id ∧
        s.conversations.rows.map Conversation.id ⊆ s'.conversations.rows.map Conversation.id) := by
  rw [Store.findOrCreateDirectConversation] at h
  split at h
  · next c hc =>
      cases h
      exact .inl ⟨hc, rfl⟩
  · next hnone =>
      simp only [] at h
      split at h
      · cases h
      · next conversations hinsert =>
          split at h
          · cases h
          · cases h
            obtain ⟨hfresh, hrows⟩ := Table.insert_eq_some hinsert
            refine .inr ⟨hnone, rfl, fun hmem => ?_, ?_⟩
            · obtain ⟨c, hc, heq⟩ := List.mem_map.mp hmem
              exact Table.get_eq_none_iff.mp hfresh c hc heq
            · rw [hrows, List.map_append]
              exact List.subset_append_left _ _

theorem Served.weaken (h : Served s' o new told) (hmessages : s'.messages = s.messages)
    (hids : s.conversations.rows.map Conversation.id ⊆ s'.conversations.rows.map Conversation.id) :
    Served s o new told := by
  refine ⟨?_, List.Subset.trans hids h.ids, h.home, h.sent⟩
  rw [← hmessages]
  exact h.rows

theorem ToldOnce.weaken (h : ToldOnce s' o) (hmessages : s'.messages = s.messages)
    (hids : s.conversations.rows.map Conversation.id ⊆ s'.conversations.rows.map Conversation.id) :
    ToldOnce s o := by
  cases h with
  | nothing hserved hmsg => exact .nothing (hserved.weaken hmessages hids) hmsg
  | silent hserved hmsg hm =>
      rw [hmessages] at hm
      exact .silent (hserved.weaken hmessages hids) hmsg hm
  | fresh hserved hmsg => exact .fresh (hserved.weaken hmessages hids) hmsg

/-! ## Every request -/

/-- What holds of every run: the messages with a client's id are those the
requests were about, in conversations that are there. -/
structure TrafficKept (t : Traffic) : Prop where
  rows : ∀ m ∈ t.handled, m ∈ t.store.messages.rows
  handled : ∀ m ∈ t.store.messages.rows, m.clientKey ≠ none → m ∈ t.handled
  homes : ∀ m ∈ t.store.messages.rows, m.clientKey ≠ none →
    m.conversationId ∈ t.store.conversations.rows.map Conversation.id
  sent : ∀ key, t.sent.countP (announces key) ≠ 0 → ∃ m ∈ t.handled, m.clientKey = some key

/-- A request keeps the messages told once or tells one again. -/
structure RequestTold (s : Store) (repeats : Prop) (o : Outcome ρ) : Prop where
  again : repeats → ∃ m key, ToldAgain s o m key
  once : ¬ repeats → ToldOnce s o

theorem requestTold_sendMessage (s : Store) (stamp : Stamp) (c : ConnectChannel)
    (data : SendFrame) :
    RequestTold s (Repeats lower s (.sendMessage stamp c data))
      (c.handleSendMessage s stamp data) := by
  rw [ConnectChannel.handleSendMessage]
  cases hopts : c.sendOpts s data with
  | error reply =>
      refine ⟨fun ⟨o, ho, _⟩ => ?_, fun _ => .nothing (served_same s _ _ (by simp)) rfl⟩
      rw [hopts] at ho
      cases ho
  | ok mo =>
      obtain ⟨hagain, honce⟩ := sendPersisted_told s stamp c.channelName mo
      refine ⟨fun ⟨o, ho, hsent⟩ => ?_, fun hno => honce ?_⟩
      · rw [hopts] at ho
        cases ho
        exact hagain hsent
      · by_contra hsent
        exact hno ⟨mo, hopts, hsent⟩

theorem requestTold_streamEvent (s : Store) (stamp : Stamp) (c : ConnectChannel)
    (data : StreamFrame) :
    RequestTold s (Repeats lower s (.streamEvent stamp c data))
      (c.handleStreamEvent s stamp data) := by
  have hcomplete : data.eventType = some (js "complete") ↔
      data.eventType.getD [] = js "complete" := by
    cases data.eventType with
    | none => exact iff_of_false (by simp) (by decide)
    | some e => simp
  have hquiet (sent : List GroupSend) (hsent : ∀ key, ∀ g ∈ sent, announces key g = false) :
      ToldOnce s (⟨s, sent, .nothing, none⟩ : Outcome SocketReply) :=
    .nothing (served_same s _ _ hsent) rfl
  rw [ConnectChannel.handleStreamEvent]
  split_ifs with hrefused hkind
  · refine ⟨fun ⟨hagent, hconv, htype, _⟩ => ?_, fun _ => hquiet [] (by simp)⟩
    rw [hcomplete] at htype
    rw [htype, hagent] at hrefused
    exact absurd hrefused (by simpa using ⟨hconv, by decide⟩)
  · rw [not_or, not_or, Bool.not_eq_false] at hrefused
    cases hopts : c.completeOpts s data with
    | none =>
        refine ⟨fun ⟨_, _, _, o, ho, _⟩ => ?_, fun _ => hquiet [] (by simp)⟩
        rw [hopts] at ho
        cases ho
    | some mo =>
        obtain ⟨hagain, honce⟩ := sendPersisted_told s stamp c.channelName mo
        refine ⟨fun ⟨_, _, _, o, ho, hsent⟩ => ?_, fun hno => honce ?_⟩
        · rw [hopts] at ho
          cases ho
          exact hagain hsent
        · by_contra hsent
          exact hno ⟨hrefused.1, hrefused.2.1, hcomplete.mpr hkind, mo, hopts, hsent⟩
  · refine ⟨fun ⟨_, _, htype, _⟩ => absurd (hcomplete.mp htype) hkind, fun _ => hquiet _ ?_⟩
    intro key g hg
    rw [List.mem_singleton.mp hg]
    rfl

theorem requestTold_postDm (hkept : TrafficKept t) (stamp : Stamp) (userId : Option ℕ)
    (body : DmBody) :
    RequestTold t.store (Repeats lower t.store (.postDm stamp userId body))
      (postDm lower t.store stamp userId body) := by
  rw [postDm]
  cases hrequest : dmRequest lower t.store userId body with
  | error reply =>
      refine ⟨fun ⟨dm, _, hdm, _⟩ => ?_, fun _ => .nothing (served_same _ _ _ (by simp)) rfl⟩
      rw [hrequest] at hdm
      cases hdm
  | ok dm =>
      simp only []
      cases hconv : t.store.findOrCreateDirectConversation stamp dm.sender.id dm.recipient.id
          (dm.directOpts t.store) with
      | error e =>
          refine ⟨fun ⟨dm', conv, hdm, hdirect, _⟩ => ?_,
            fun _ => .nothing (served_same _ _ _ (by simp)) rfl⟩
          rw [hrequest] at hdm
          cases hdm
          rw [Store.findOrCreateDirectConversation, hdirect] at hconv
          cases hconv
      | ok r =>
          obtain ⟨conv, s'⟩ := r
          obtain ⟨hagain, honce⟩ := dmPersist_told s' stamp dm conv
          rcases findOrCreate_cases hconv with ⟨hdirect, rfl⟩ | ⟨hdirect, hmessages, hfresh, hids⟩
          · refine ⟨fun ⟨dm', conv', hdm, hdirect', hsent, hrecent⟩ => ?_, fun hno => honce ?_⟩
            · rw [hrequest] at hdm
              cases hdm
              rw [hdirect] at hdirect'
              cases hdirect'
              exact hagain hsent hrecent
            · intro hsent hrecent
              exact hno ⟨dm, conv, hrequest, hdirect, hsent, hrecent⟩
          · -- nothing was sent in a conversation that was not there
            have hunsent : s'.findSent conv.id.val dm.clientMessageId = none := by
              by_contra hsome
              obtain ⟨m, hm⟩ := Option.ne_none_iff_exists'.mp hsome
              obtain ⟨hrow, hid, key, hkey, -⟩ := findSent_some hm
              rw [hmessages] at hrow
              have hhome := hkept.homes m hrow (by rw [hkey]; exact Option.some_ne_none _)
              rw [boundText_uuid] at hid
              exact hfresh (Subtype.ext hid ▸ hhome)
            refine ⟨fun ⟨dm', conv', hdm, hdirect', _⟩ => ?_, fun _ => ?_⟩
            · rw [hrequest] at hdm
              cases hdm
              rw [hdirect] at hdirect'
              cases hdirect'
            · exact (honce fun hsome => absurd hunsent hsome).weaken hmessages hids

/-! ## Runs -/

theorem countP_clientKey (s : Store) (hm : m ∈ s.messages.rows) (hkey : m.clientKey = some key) :
    s.messages.rows.countP (fun r => r.clientKey = some key) = 1 := by
  have hcount := List.count_eq_one_of_mem s.clientKeys (List.mem_filterMap.mpr ⟨m, hm, hkey⟩)
  rw [List.count_filterMap] at hcount
  rw [← hcount]
  refine List.countP_congr fun r _ => ?_
  rw [decide_eq_true_eq, beq_iff_eq]

theorem TrafficKept.after (h : TrafficKept t) (hserved : Served t.store o new told)
    (hmsg : ∀ m ∈ o.msg, m ∈ o.store.messages.rows) (hnew : ∀ m ∈ new, o.msg = some m)
    (htold : ∀ m ∈ told, o.msg = some m) : TrafficKept (t.after o) := by
  have hold : ∀ m ∈ t.store.messages.rows, m ∈ o.store.messages.rows := by
    rw [hserved.rows]
    exact fun m hm => List.mem_append_left _ hm
  have hhandled : ∀ {m : DirectMessage}, o.msg = some m → m ∈ (t.after o).handled := by
    intro m heq
    rw [Traffic.after, heq]
    simp
  refine ⟨fun m hm => ?_, fun m hm hkey => ?_, fun m hm hkey => ?_, fun key hcount => ?_⟩
  · rcases List.mem_append.mp hm with hm | hm
    · exact hold m (h.rows m hm)
    · exact hmsg m (Option.mem_toList.mp hm)
  · have hrows : m ∈ t.store.messages.rows ++ new.toList := hserved.rows ▸ hm
    rcases List.mem_append.mp hrows with hm | hm
    · exact List.mem_append_left _ (h.handled m hm hkey)
    · exact hhandled (hnew m (Option.mem_toList.mp hm))
  · have hrows : m ∈ t.store.messages.rows ++ new.toList := hserved.rows ▸ hm
    rcases List.mem_append.mp hrows with hm | hm
    · exact hserved.ids (h.homes m hm hkey)
    · exact hserved.home m (Option.mem_toList.mp hm)
  · rw [Traffic.after, List.countP_append, hserved.sent key] at hcount
    by_cases hbefore : t.sent.countP (announces key) = 0
    · rw [hbefore, zero_add] at hcount
      obtain ⟨m, hm, hkey⟩ := List.countP_pos_iff.mp (Nat.pos_of_ne_zero hcount)
      exact ⟨m, hhandled (htold m hm), of_decide_eq_true hkey⟩
    · obtain ⟨m, hm, hkey⟩ := h.sent key hbefore
      exact ⟨m, List.mem_append_left _ hm, hkey⟩

theorem TrafficKept.request (h : TrafficKept t) {repeats : Prop}
    (htold : RequestTold t.store repeats o) : TrafficKept (t.after o) := by
  by_cases hrepeats : repeats
  · obtain ⟨m, key, hagain⟩ := htold.again hrepeats
    refine h.after hagain.served (fun m' hm' => ?_) (by simp) (fun m' hm' => ?_)
    · obtain rfl : m = m' := Option.some.inj (hagain.msg.symm.trans hm')
      rw [hagain.served.rows]
      exact List.mem_append_left _ hagain.row
    · rw [List.mem_singleton.mp hm', hagain.msg]
  · cases htold.once hrepeats with
    | nothing hserved hmsg => exact h.after hserved (by simp [hmsg]) (by simp) (by simp)
    | @silent m hserved hmsg hm =>
        refine h.after hserved (fun m' hm' => ?_) (by simp) (by simp)
        obtain rfl : m = m' := Option.some.inj (hmsg.symm.trans hm')
        rw [hserved.rows]
        exact List.mem_append_left _ hm
    | @fresh m hserved hmsg =>
        refine h.after hserved (fun m' hm' => ?_) (fun m' hm' => ?_) (fun m' hm' => ?_)
        · obtain rfl : m = m' := Option.some.inj (hmsg.symm.trans hm')
          rw [hserved.rows]
          simp
        · rw [hmsg, Option.mem_some_iff.mp hm']
        · rw [List.mem_singleton.mp hm', hmsg]

/-- A message told again was told before. -/
theorem not_sentOnce_again (hkept : TrafficKept t) (h : SentOnce t)
    (hagain : ToldAgain t.store o m key) : ¬ SentOnce (t.after o) := by
  intro hafter
  have hm := hkept.handled m hagain.row (by rw [hagain.key]; exact Option.some_ne_none _)
  have hbefore := (h m hm key hagain.key).2
  have hcount := (hafter m (List.mem_append_left _ hm) key hagain.key).2
  rw [Traffic.after, List.countP_append, hagain.served.sent key, hbefore, List.countP_singleton,
    if_pos (decide_eq_true hagain.key)] at hcount
  omega

theorem SentOnce.after (h : SentOnce t) (hkept : TrafficKept t) (honce : ToldOnce t.store o) :
    SentOnce (t.after o) := by
  have hrows : ∀ m' ∈ t.handled, m' ∈ o.store.messages.rows := by
    intro m' hm'
    have hold := hkept.rows m' hm'
    cases honce with
    | nothing hserved | silent hserved | fresh hserved =>
        rw [hserved.rows]
        exact List.mem_append_left _ hold
  cases honce with
  | nothing hserved hmsg =>
      intro m hm key hkey
      rw [Traffic.after, hmsg, Option.toList_none, List.append_nil] at hm
      refine ⟨countP_clientKey _ (hrows m hm) hkey, ?_⟩
      rw [Traffic.after, List.countP_append, hserved.sent, (h m hm key hkey).2]
      rfl
  | @silent m₀ hserved hmsg hrow =>
      intro m hm key hkey
      have hm : m ∈ t.handled := by
        rw [Traffic.after, hmsg] at hm
        rcases List.mem_append.mp hm with hm | hm
        · exact hm
        · rw [Option.toList_some, List.mem_singleton] at hm
          subst hm
          exact hkept.handled m hrow (by rw [hkey]; exact Option.some_ne_none _)
      refine ⟨countP_clientKey _ (hrows m hm) hkey, ?_⟩
      rw [Traffic.after, List.countP_append, hserved.sent, (h m hm key hkey).2]
      rfl
  | @fresh m₀ hserved hmsg =>
      have hnew : m₀ ∈ o.store.messages.rows := by
        rw [hserved.rows]
        simp
      intro m hm key hkey
      have hrow : m ∈ o.store.messages.rows := by
        rw [Traffic.after, hmsg] at hm
        rcases List.mem_append.mp hm with hm | hm
        · exact hrows m hm
        · rw [Option.toList_some, List.mem_singleton] at hm
          exact hm ▸ hnew
      refine ⟨countP_clientKey _ hrow hkey, ?_⟩
      rw [Traffic.after, List.countP_append, hserved.sent, List.countP_singleton]
      -- the key of the new message is nobody else's
      have hothers : m₀.clientKey = some key → ∀ m' ∈ t.handled, m'.clientKey ≠ some key := by
        intro hkey₀ m' hm' hkey'
        have hcount := countP_clientKey o.store hnew hkey₀
        rw [hserved.rows, List.countP_append, Option.toList_some, List.countP_singleton,
          if_pos (decide_eq_true hkey₀), Nat.add_eq_right, List.countP_eq_zero] at hcount
        exact hcount m' (hkept.rows m' hm') (decide_eq_true hkey')
      by_cases hkey₀ : m₀.clientKey = some key
      · rw [if_pos (decide_eq_true hkey₀), Nat.add_eq_right]
        by_contra hsent
        obtain ⟨m', hm', hkey'⟩ := hkept.sent key hsent
        exact hothers hkey₀ m' hm' hkey'
      · rw [if_neg (by simpa using hkey₀), Nat.add_zero]
        rw [Traffic.after, hmsg] at hm
        rcases List.mem_append.mp hm with hm | hm
        · exact (h m hm key hkey).2
        · rw [Option.toList_some, List.mem_singleton] at hm
          exact absurd (hm ▸ hkey) hkey₀

theorem requestTold (lower : Text → Text) (hkept : TrafficKept t) (r : Request) :
    ∃ (ρ : Type) (o : Outcome ρ), trafficStep lower t r = t.after o ∧
      RequestTold t.store (Repeats lower t.store r) o := by
  cases r with
  | postDm stamp userId body => exact ⟨_, _, rfl, requestTold_postDm hkept stamp userId body⟩
  | sendMessage stamp c data => exact ⟨_, _, rfl, requestTold_sendMessage t.store stamp c data⟩
  | streamEvent stamp c data => exact ⟨_, _, rfl, requestTold_streamEvent t.store stamp c data⟩

theorem TrafficKept.step (h : TrafficKept t) (r : Request) :
    TrafficKept (trafficStep lower t r) := by
  obtain ⟨ρ, o, heq, htold⟩ := requestTold lower h r
  rw [heq]
  exact h.request htold

theorem sentOnce_step_iff (hkept : TrafficKept t) (h : SentOnce t) (r : Request) :
    SentOnce (trafficStep lower t r) ↔ ¬ Repeats lower t.store r := by
  obtain ⟨ρ, o, heq, htold⟩ := requestTold lower hkept r
  rw [heq]
  constructor
  · intro hafter hrepeats
    obtain ⟨m, key, hagain⟩ := htold.again hrepeats
    exact not_sentOnce_again hkept h hagain hafter
  · exact fun hno => h.after hkept (htold.once hno)

theorem Unsent.kept (u : Unsent) : TrafficKept u.start := by
  have hnone : ∀ m ∈ u.store.messages.rows, m.clientKey = none := by
    intro m hm
    rw [DirectMessage.clientKey, u.unused m hm]
    rfl
  refine ⟨by simp [Unsent.start], fun m hm hkey => absurd (hnone m hm) hkey,
    fun m hm hkey => absurd (hnone m hm) hkey, by simp [Unsent.start]⟩

theorem Unsent.sentOnce (u : Unsent) : SentOnce u.start := by
  intro m hm
  cases hm

/-- Every message with a client's id is one row and told once, as long as no
request repeats an id in a way that the code does not notice, and no longer. -/
theorem sentOnce_iff (lower : Text → Text) (u : Unsent) (requests : List Request) :
    Throughout (trafficStep lower) SentOnce u.start requests ↔
      Along (trafficStep lower) (fun t r => ¬ Repeats lower t.store r) u.start requests :=
  throughout_iff_along_of (J := TrafficKept) (D := fun _ _ => True)
    (fun _ r h => h.step r) (fun _ r hkept _ h => sentOnce_step_iff hkept h r)
    u.kept u.sentOnce (along_true (fun _ _ => trivial) _ _)

/-! ## A frame sent again

The answer was lost and the client sends its frame again: the store returns the
row that is there, and the group is told a second time.
-/

theorem lobby_ascii : ∀ u ∈ js "lobby", u < 128 := ascii_of_all rfl

theorem hello_ascii : ∀ u ∈ js "m1", u < 128 := ascii_of_all rfl

theorem again_ascii : ∀ u ∈ js "m2", u < 128 := ascii_of_all rfl

def lobbyId : Uuid := ⟨js "lobby", lobby_ascii⟩

def lobbyStore : Store where
  users := .empty
  conversations := ⟨[newDirect lobbyId 0 (buildDirectKey 1 2) none], List.nodup_singleton _⟩
  participants :=
    ⟨[newParticipant lobbyId 0 ⟨none, fun _ => none, fun _ => none⟩ 1], List.nodup_singleton _⟩
  messages := .empty
  clientKeys := clientKeys_empty

def lobby : Unsent := ⟨lobbyStore, fun _ hm => nomatch hm⟩

def lobbyChannel : ConnectChannel :=
  ⟨js "ch1", ⟨1, js "ada", none, false, none, none⟩, false⟩

/-- Once with each of two fresh uuids. -/
def sentTwice : List Request :=
  [.sendMessage ⟨1, lobbyId, ⟨js "m1", hello_ascii⟩⟩ lobbyChannel
      ⟨some (js "lobby"), some (js "hi"), some (js "k1")⟩,
    .sendMessage ⟨2, lobbyId, ⟨js "m2", again_ascii⟩⟩ lobbyChannel
      ⟨some (js "lobby"), some (js "hi"), some (js "k1")⟩]

theorem resent_told_twice :
    ¬ Throughout (trafficStep fun t => t) SentOnce lobby.start sentTwice := by
  intro h
  have hhandled : (run (trafficStep fun t => t) lobby.start sentTwice).handled.any
      (fun m => m.clientKey = some (lobbyId, js "k1")) = true := by decide +kernel
  obtain ⟨m, hm, hkey⟩ := List.any_eq_true.mp hhandled
  have htold := (h.last m hm _ (of_decide_eq_true hkey)).2
  revert htold
  decide +kernel

end Shizuha.ConnectStore
