import Shizuha.Proofs.ConnectMembership

/-!
# Who gets a message

Every message that is stored is sent to the group of its conversation, so by who
the members are it reaches the live sockets of the participants, each of them
once, but for the socket it came from and those of an agent that said it. And
whatever a socket was ever sent about a conversation, its user takes part in it.

A message may follow the announcement of the conversation it is the first of:
the groups are looked at when it is sent, after the announcement.
-/

namespace Shizuha.ConnectStore

open Js State
open Machine (Along)

variable {s s' : ConnectServer} {store store' : Store} {event : LayerEvent} {group name : Text}
  {c : LiveChannel}

/-! ## What a socket was sent -/

def Frame.message? : Frame → Option DirectMessage
  | .newMessage m => some m
  | _ => none

def LiveChannel.messages (c : LiveChannel) : List DirectMessage := c.frames.filterMap Frame.message?

/-- The conversation a frame is about. -/
def Frame.about : Frame → Option Text
  | .newMessage m => some m.conversationId.val
  | .agentStream conversationId _ _ _ => some conversationId
  | .typing conversationId _ _ => some conversationId
  | .messageRead conversationId _ _ => some conversationId
  | .conversationCreated conversation _ => some conversation.id.val
  | .sendError _ _ _ => none

def LayerEvent.about : LayerEvent → Text
  | .sent (.newMessage m _) => m.conversationId.val
  | .sent (.agentStreamEvent conversationId _ _ _) => conversationId
  | .sent (.conversationCreated conversation _) => conversation.id.val
  | .typingIndicator conversationId _ _ => conversationId
  | .messageReadReceipt conversationId _ _ => conversationId

/-- The message of an event, with the socket it came from. -/
def LayerEvent.post : LayerEvent → Option (DirectMessage × Text)
  | .sent (.newMessage m originChannel) => some (m, originChannel)
  | _ => none

/-- What a socket passes on of the messages of its groups. -/
def LiveChannel.passes (c : LiveChannel) (p : DirectMessage × Text) : Bool :=
  c.alive && c.isOpen && p.2 ≠ c.channel.channelName &&
    !(c.channel.isAgent && p.1.senderId = c.user.id)

/-- It is passed on to a socket of a participant. -/
def LiveChannel.wants (store : Store) (c : LiveChannel) (p : DirectMessage × Text) : Bool :=
  store.isParticipant p.1.conversationId.val c.user.id && c.passes p

theorem frames_send (c : LiveChannel) (f : Frame) :
    (c.send f).frames = if c.isOpen then c.frames ++ [f] else c.frames := by
  rw [LiveChannel.send]
  split_ifs <;> rfl

theorem messages_send (c : LiveChannel) {f : Frame} (h : f.message? = none) :
    (c.send f).messages = c.messages := by
  rw [LiveChannel.messages, frames_send]
  split_ifs
  · rw [List.filterMap_append, List.filterMap_cons, h]
    exact List.append_nil _
  · rfl

theorem messages_onEvent (c : LiveChannel) (event : LayerEvent) :
    (c.onEvent event).1.messages =
      c.messages ++ ((event.post.toList.filter c.passes).map Prod.fst) := by
  have hnone : ∀ l : List DirectMessage, l = l ++ [] := fun l => (List.append_nil l).symm
  unfold LiveChannel.onEvent
  split_ifs with halive
  · cases hpost : event.post with
    | none => exact hnone _
    | some p =>
        have hpasses : c.passes p = false := by rw [LiveChannel.passes, halive]; rfl
        simp [hpasses]
  · rw [Bool.not_eq_false] at halive
    cases event with
    | typingIndicator conversationId userId isTyping =>
        dsimp only
        split_ifs
        · exact hnone _
        · exact (messages_send c rfl).trans (hnone _)
    | messageReadReceipt conversationId userId messageId =>
        exact (messages_send c rfl).trans (hnone _)
    | sent event =>
        cases event with
        | agentStreamEvent conversationId eventType agentId data =>
            exact (messages_send c rfl).trans (hnone _)
        | conversationCreated conversation participants =>
            dsimp only
            rw [LiveChannel.onConversationCreated]
            split_ifs
            · dsimp only
              split_ifs
              · exact (messages_send c rfl).trans (hnone _)
              · exact (messages_send _ rfl).trans (hnone _)
            · exact hnone _
        | newMessage m origin =>
            dsimp only [LayerEvent.post, Option.toList_some]
            rw [LiveChannel.onNewMessage]
            split_ifs with horigin hown
            · simp [LiveChannel.passes, horigin]
            · simp [LiveChannel.passes, hown]
            · rw [LiveChannel.messages, frames_send]
              have hpasses : c.passes (m, origin) = c.isOpen := by
                rw [not_and] at hown
                by_cases hagent : c.channel.isAgent = true
                · simp [LiveChannel.passes, halive, horigin, hagent, hown hagent]
                · simp [LiveChannel.passes, halive, horigin, hagent]
              split_ifs with hopen
              · simp [hpasses, hopen, LiveChannel.messages, Frame.message?]
              · simp [hpasses, hopen, LiveChannel.messages]

/-- A frame that an event brings is about what the event is, and an announcement
goes to participants only. -/
theorem mem_frames_onEvent {f : Frame} (h : f ∈ (c.onEvent event).1.frames) :
    f ∈ c.frames ∨ f.about = some event.about ∧ ∀ conversation participants,
      event = .sent (.conversationCreated conversation participants) →
        c.user.id ∈ participants.map Participant.userId := by
  have hsend : ∀ {d : LiveChannel} {g : Frame}, f ∈ (d.send g).frames → f ∈ d.frames ∨ f = g := by
    intro d g hf
    rw [frames_send] at hf
    split_ifs at hf
    · exact (List.mem_append.mp hf).imp_right List.mem_singleton.mp
    · exact Or.inl hf
  unfold LiveChannel.onEvent at h
  split_ifs at h
  · exact Or.inl h
  · cases event with
    | typingIndicator conversationId userId isTyping =>
        dsimp only at h
        split_ifs at h
        · exact Or.inl h
        · refine (hsend h).imp_right ?_
          rintro rfl
          exact ⟨rfl, fun _ _ he => by cases he⟩
    | messageReadReceipt conversationId userId messageId =>
        refine (hsend h).imp_right ?_
        rintro rfl
        exact ⟨rfl, fun _ _ he => by cases he⟩
    | sent event =>
        cases event with
        | agentStreamEvent conversationId eventType agentId data =>
            refine (hsend h).imp_right ?_
            rintro rfl
            exact ⟨rfl, fun _ _ he => by cases he⟩
        | newMessage m origin =>
            dsimp only at h
            rw [LiveChannel.onNewMessage] at h
            split_ifs at h
            · exact Or.inl h
            · exact Or.inl h
            · refine (hsend h).imp_right ?_
              rintro rfl
              exact ⟨rfl, fun _ _ he => by cases he⟩
        | conversationCreated conversation participants =>
            dsimp only at h
            rw [LiveChannel.onConversationCreated] at h
            split_ifs at h with hin
            · have hthis : f = .conversationCreated conversation participants →
                  f.about = some conversation.id.val ∧ ∀ conversation' participants',
                    LayerEvent.sent (.conversationCreated conversation participants) =
                      .sent (.conversationCreated conversation' participants') →
                    c.user.id ∈ participants'.map Participant.userId := by
                rintro rfl
                refine ⟨rfl, fun _ _ he => ?_⟩
                cases he
                exact hin
              dsimp only at h
              split_ifs at h
              · exact (hsend h).imp_right hthis
              · exact (hsend h).imp_right hthis
            · exact Or.inl h

/-! ## Sending to a group -/

/-- Each member hears of it once. -/
theorem foldl_deliver_channels {names : List Text} (hnodup : names.Nodup) (n : Text) :
    (names.foldl (fun s name => s.deliver event name) s).channels.find n =
      if n ∈ names then (s.channels.find n).map fun c => (c.onEvent event).1
      else s.channels.find n := by
  have hdeliver : ∀ (s : ConnectServer) name, (s.deliver event name).channels.find n =
      if n = name then (s.channels.find n).map fun c => (c.onEvent event).1
      else s.channels.find n := by
    intro s name
    rw [ConnectServer.deliver]
    cases hfind : s.channels.find name with
    | none =>
        split_ifs with hn
        · rw [hn, hfind]
          rfl
        · rfl
    | some c =>
        dsimp only
        rw [Map.find_set]
        split_ifs with hn
        · rw [hn, hfind]
          rfl
        · rfl
  induction names generalizing s with
  | nil => rw [if_neg List.not_mem_nil, List.foldl_nil]
  | cons name names ih =>
      rw [List.nodup_cons] at hnodup
      rw [List.foldl_cons, ih hnodup.2, hdeliver]
      by_cases hn : n = name
      · rw [hn, if_neg hnodup.1, if_pos rfl, if_pos List.mem_cons_self]
      · rw [if_neg hn]
        by_cases hmem : n ∈ names
        · rw [if_pos hmem, if_pos (List.mem_cons_of_mem name hmem)]
        · rw [if_neg hmem, if_neg fun h => (List.mem_cons.mp h).elim hn hmem]

theorem groupSend_channels (s : ConnectServer) (group : Text) (event : LayerEvent) (n : Text) :
    (s.groupSend group event).channels.find n =
      if n ∈ s.layer.members group then (s.channels.find n).map fun c => (c.onEvent event).1
      else s.channels.find n :=
  foldl_deliver_channels (TwoWay.nodup_members s.layer group) n

/-! ## Messages -/

/-- The sockets are the same, and `posts` came to those that want it. -/
def Passed (s s' : ConnectServer) (posts : LiveChannel → List (DirectMessage × Text)) : Prop :=
  ∀ name c, s.channels.find name = some c → ∃ c', s'.channels.find name = some c' ∧
    c'.channel = c.channel ∧ c'.alive = c.alive ∧ c'.isOpen = c.isOpen ∧
      c'.messages = c.messages ++ (posts c).map Prod.fst

theorem Passed.refl (s : ConnectServer) : Passed s s fun _ => [] :=
  fun _ c hc => ⟨c, hc, rfl, rfl, rfl, (List.append_nil _).symm⟩

theorem Passed.trans_nothing {s₁ s₂ s₃ : ConnectServer} (h : Passed s₁ s₂ fun _ => [])
    (h' : Passed s₂ s₃ fun _ => []) : Passed s₁ s₃ fun _ => [] := by
  intro name c hc
  obtain ⟨c₂, hc₂, hchannel, halive, hopen, hmessages⟩ := h name c hc
  obtain ⟨c₃, hc₃, hchannel', halive', hopen', hmessages'⟩ := h' name c₂ hc₂
  refine ⟨c₃, hc₃, hchannel'.trans hchannel, halive'.trans halive, hopen'.trans hopen, ?_⟩
  rw [hmessages', hmessages]
  exact List.append_nil _

theorem passed_groupSend (s : ConnectServer) (group : Text) {event : LayerEvent}
    (h : event.post = none) : Passed s (s.groupSend group event) fun _ => [] := by
  intro name c hc
  rw [groupSend_channels, hc]
  have hheard := c.heard_onEvent event
  split_ifs
  · refine ⟨_, rfl, hheard.channel, hheard.alive, hheard.isOpen, ?_⟩
    rw [messages_onEvent, h]
    rfl
  · exact ⟨c, rfl, rfl, rfl, rfl, (List.append_nil _).symm⟩

theorem passed_foldl {ι : Type} {f : ConnectServer → ι → ConnectServer} {l : List ι}
    (h : ∀ s, ∀ x ∈ l, Passed s (f s x) fun _ => []) (s : ConnectServer) :
    Passed s (l.foldl f s) fun _ => [] := by
  induction l generalizing s with
  | nil => exact Passed.refl s
  | cons x l ih =>
      exact (h s x List.mem_cons_self).trans_nothing
        (ih (fun s y hy => h s y (List.mem_cons_of_mem x hy)) (f s x))

theorem passed_broadcast {sends : List GroupSend}
    (h : ∀ x ∈ sends, (LayerEvent.sent x.event).post = none) (s : ConnectServer) :
    Passed s (s.broadcast sends) fun _ => [] :=
  passed_foldl (fun s x hx => passed_groupSend s x.group (h x hx)) s

/-- A message to its conversation comes to the sockets of the participants. -/
theorem passed_message (hjoined : Joined s) (m : DirectMessage) (origin : Text) :
    Passed s (s.groupSend (chatGroup m.conversationId.val) (.sent (.newMessage m origin)))
      fun c => [(m, origin)].filter (c.wants s.store) := by
  intro name c hc
  rw [groupSend_channels, hc]
  have hheard := c.heard_onEvent (.sent (.newMessage m origin))
  by_cases halive : c.alive = true
  · have hmem := hjoined.chat name c hc halive m.conversationId.val
    split_ifs with hin
    · refine ⟨_, rfl, hheard.channel, hheard.alive, hheard.isOpen, ?_⟩
      rw [messages_onEvent]
      have hwants : c.wants s.store (m, origin) = c.passes (m, origin) := by
        rw [LiveChannel.wants, hmem.mp hin, Bool.true_and]
      simp [LayerEvent.post, List.filter_cons, hwants]
    · refine ⟨c, rfl, rfl, rfl, rfl, ?_⟩
      have hno : s.store.isParticipant m.conversationId.val c.user.id = false :=
        Bool.eq_false_iff.mpr fun hpart => hin (hmem.mpr hpart)
      have hwants : c.wants s.store (m, origin) = false := by
        rw [LiveChannel.wants, hno, Bool.false_and]
      simp [hwants]
  · have hin : name ∉ s.layer.members (chatGroup m.conversationId.val) := by
      intro hmem
      obtain ⟨d, hd, hlive⟩ := hjoined.live _ name hmem
      cases hc.symm.trans hd
      exact halive hlive
    rw [if_neg hin]
    refine ⟨c, rfl, rfl, rfl, rfl, ?_⟩
    rw [Bool.not_eq_true] at halive
    have hwants : c.wants s.store (m, origin) = false := by
      simp [LiveChannel.wants, LiveChannel.passes, halive]
    simp [hwants]

/-! ## What a request posts -/

def GroupSend.post (x : GroupSend) : Option (DirectMessage × Text) := (LayerEvent.sent x.event).post

/-- A request posts one message at most, to the group of its conversation and
after everything else; and it stores no other one. -/
inductive Posting (store store' : Store) : List GroupSend → Prop where
  | nothing (sent : List GroupSend) (quiet : ∀ x ∈ sent, x.post = none)
      (rows : store'.messages.rows = store.messages.rows) : Posting store store' sent
  | message (rest : List GroupSend) (m : DirectMessage) (origin : Text)
      (quiet : ∀ x ∈ rest, x.post = none) (stored : m ∈ store'.messages.rows)
      (rows : ∀ r ∈ store'.messages.rows, r ∈ store.messages.rows ∨ r = m) :
      Posting store store' (rest ++ [⟨chatGroup m.conversationId.val, .newMessage m origin⟩])

theorem createMessage_row {stamp : Stamp} {o : MessageOpts} {m : DirectMessage}
    (h : store.createMessage stamp o = .ok (m, store')) :
    m.conversationId.val = boundText o.conversationId ∧ m ∈ store'.messages.rows ∧
      ∀ r ∈ store'.messages.rows, r ∈ store.messages.rows ∨ r = m := by
  rcases createMessage_cases store stamp o with ⟨m', hsent, hfound⟩ | ⟨id, s', hinserted, hmade⟩ |
    ⟨-, e, hfailed⟩
  · cases hfound.symm.trans h
    obtain ⟨hmem, hconversation, -⟩ := findSent_some hsent
    exact ⟨hconversation, hmem, fun r hr => Or.inl hr⟩
  · cases hmade.symm.trans h
    refine ⟨hinserted.conversation, ?_, fun r hr => ?_⟩
    · rw [hinserted.messages]
      exact List.mem_append_right _ List.mem_cons_self
    · rw [hinserted.messages] at hr
      exact (List.mem_append.mp hr).imp_right List.mem_singleton.mp
  · cases hfailed.symm.trans h

theorem sendPersisted_posting (store : Store) (stamp : Stamp) (channelName : Text)
    {o : MessageOpts} {u : Uuid} (hconversation : o.conversationId = u.val) :
    Posting store (sendPersisted store stamp channelName o).store
      (sendPersisted store stamp channelName o).sent := by
  rw [sendPersisted]
  split
  · exact .nothing _ (fun _ hx => absurd hx List.not_mem_nil) rfl
  · next m s' hmade =>
      obtain ⟨hbound, hstored, hrows⟩ := createMessage_row hmade
      rw [hconversation, boundText_uuid] at hbound
      dsimp only
      rw [hconversation, ← hbound]
      exact .message [] m channelName (fun _ hx => absurd hx List.not_mem_nil) hstored hrows

theorem exists_uuid {t : Text} {u : ℕ} (h : store.isParticipant t u = true) :
    ∃ id : Uuid, t = id.val := by
  obtain ⟨p, -, ht, -⟩ := isParticipant_iff.mp h
  exact ⟨p.conversationId, ht.symm⟩

theorem sendOpts_uuid {c : ConnectChannel} {data : SendFrame} {o : MessageOpts}
    (h : c.sendOpts store data = .ok o) : ∃ u : Uuid, o.conversationId = u.val := by
  rw [ConnectChannel.sendOpts] at h
  split at h
  · cases h
  · split at h
    · cases h
    · next hpart =>
        cases h
        rw [Bool.not_eq_false] at hpart
        exact exists_uuid hpart

theorem completeOpts_uuid {c : ConnectChannel} {data : StreamFrame} {o : MessageOpts}
    (h : c.completeOpts store data = some o) : ∃ u : Uuid, o.conversationId = u.val := by
  rw [ConnectChannel.completeOpts] at h
  split_ifs at h with hnone
  cases h
  rw [not_or, Bool.not_eq_false] at hnone
  exact exists_uuid hnone.2

theorem handleSendMessage_posting (c : ConnectChannel) (store : Store) (stamp : Stamp)
    (data : SendFrame) :
    Posting store (c.handleSendMessage store stamp data).store
      (c.handleSendMessage store stamp data).sent := by
  rw [ConnectChannel.handleSendMessage]
  split
  · exact .nothing _ (fun _ hx => absurd hx List.not_mem_nil) rfl
  · next o ho =>
      obtain ⟨u, hu⟩ := sendOpts_uuid ho
      exact sendPersisted_posting store stamp _ hu

theorem handleStreamEvent_posting (c : ConnectChannel) (store : Store) (stamp : Stamp)
    (data : StreamFrame) :
    Posting store (c.handleStreamEvent store stamp data).store
      (c.handleStreamEvent store stamp data).sent := by
  rw [ConnectChannel.handleStreamEvent]
  split_ifs
  · exact .nothing _ (fun _ hx => absurd hx List.not_mem_nil) rfl
  · split
    · exact .nothing _ (fun _ hx => absurd hx List.not_mem_nil) rfl
    · next o ho =>
        obtain ⟨u, hu⟩ := completeOpts_uuid ho
        exact sendPersisted_posting store stamp _ hu
  · refine .nothing _ (fun x hx => ?_) rfl
    rw [List.mem_singleton.mp hx]
    rfl

theorem created_quiet (store : Store) (conv : Conversation) :
    ∀ x ∈ broadcastConversationCreated store conv, x.post = none := by
  intro x hx
  obtain ⟨p, -, rfl⟩ := List.mem_map.mp hx
  rfl

theorem dmPersist_posting (store : Store) (stamp : Stamp) (dm : Dm) (conv : Conversation) :
    Posting store (dmPersist store stamp dm conv).store (dmPersist store stamp dm conv).sent := by
  have hquiet : ∀ x ∈ (if conv.messageCount = 0 then broadcastConversationCreated store conv else []),
      x.post = none := by
    split_ifs
    · exact created_quiet store conv
    · exact fun _ hx => absurd hx List.not_mem_nil
  rw [dmPersist]
  split
  · exact .nothing _ hquiet rfl
  · split
    · exact .nothing _ hquiet rfl
    · next m s' hmade =>
        obtain ⟨hbound, hstored, hrows⟩ := createMessage_row hmade
        have hconversation : m.conversationId.val = conv.id.val := hbound.trans (boundText_uuid _)
        dsimp only
        rw [← hconversation]
        exact .message _ m [] hquiet hstored hrows

/-! ## One step -/

/-- Every message that was posted came to the sockets that want it, once and to
no other; and what is new in the store was posted. -/
structure Delivered (s s' : ConnectServer) (posts : List (DirectMessage × Text)) : Prop where
  came : ∀ name c, s.channels.find name = some c → ∃ c', s'.channels.find name = some c' ∧
    c'.messages = c.messages ++ (posts.filter (c.wants s'.store)).map Prod.fst
  posted : ∀ m ∈ s'.store.messages.rows, m ∈ s.store.messages.rows ∨ ∃ origin, (m, origin) ∈ posts
  stored : ∀ p ∈ posts, p.1 ∈ s'.store.messages.rows

theorem Passed.delivered {posts : List (DirectMessage × Text)}
    (h : Passed s s' fun c => posts.filter (c.wants s'.store))
    (hposted : ∀ m ∈ s'.store.messages.rows,
      m ∈ s.store.messages.rows ∨ ∃ origin, (m, origin) ∈ posts)
    (hstored : ∀ p ∈ posts, p.1 ∈ s'.store.messages.rows) : Delivered s s' posts where
  came name c hc := by
    obtain ⟨c', hc', -, -, -, hmessages⟩ := h name c hc
    exact ⟨c', hc', hmessages⟩
  posted := hposted
  stored := hstored

theorem filterMap_quiet {sent : List GroupSend} (h : ∀ x ∈ sent, x.post = none) :
    sent.filterMap GroupSend.post = [] := List.filterMap_eq_nil_iff.mpr h

theorem store_broadcast (s : ConnectServer) (sends : List GroupSend) :
    (s.broadcast sends).store = s.store :=
  (grown_broadcast (A := fun _ _ => True) (fun _ _ _ _ _ _ _ => trivial) s).store

theorem Posting.delivered {sent : List GroupSend} {base : ConnectServer}
    (h : Posting s.store base.store sent) (hpassed : Passed s base fun _ => [])
    (hjoined : ∀ rest g m origin, sent = rest ++ [⟨g, .newMessage m origin⟩] →
      Joined (base.broadcast rest)) :
    Delivered s (base.broadcast sent) (sent.filterMap GroupSend.post) := by
  cases h with
  | nothing sent quiet rows =>
      rw [filterMap_quiet quiet]
      refine (hpassed.trans_nothing (passed_broadcast quiet base)).delivered (fun m hm => ?_)
        (fun _ hp => absurd hp List.not_mem_nil)
      rw [store_broadcast, rows] at hm
      exact Or.inl hm
  | message rest m origin quiet stored rows =>
      have hrest := hpassed.trans_nothing (passed_broadcast quiet base)
      let last : GroupSend := ⟨chatGroup m.conversationId.val, .newMessage m origin⟩
      have hposts : (rest ++ [last]).filterMap GroupSend.post = [(m, origin)] := by
        rw [List.filterMap_append, filterMap_quiet quiet]
        rfl
      have hlast := passed_message (hjoined rest _ m origin rfl) m origin
      rw [hposts]
      refine Passed.delivered (fun name c hc => ?_) (fun r hr => ?_) fun p hp => ?_
      · obtain ⟨c₁, hc₁, hchannel, halive, hopen, hmessages⟩ := hrest name c hc
        obtain ⟨c₂, hc₂, hchannel', halive', hopen', hmessages'⟩ := hlast name c₁ hc₁
        refine ⟨c₂, ?_, hchannel'.trans hchannel, halive'.trans halive, hopen'.trans hopen, ?_⟩
        · rw [ConnectServer.broadcast, List.foldl_append]
          exact hc₂
        · show _ = _ ++ ([(m, origin)].filter (c.wants
            (base.broadcast (rest ++ [last])).store)).map Prod.fst
          have hwants : c₁.wants (base.broadcast rest).store =
              c.wants (base.broadcast
                (rest ++ [⟨chatGroup m.conversationId.val, .newMessage m origin⟩])).store := by
            funext p
            rw [store_broadcast, store_broadcast, LiveChannel.wants, LiveChannel.wants,
              LiveChannel.passes, LiveChannel.passes, LiveChannel.user, LiveChannel.user, hchannel,
              halive, hopen]
          rw [hmessages', hmessages]
          dsimp only
          rw [hwants, List.map_nil, List.append_nil]
      · rw [store_broadcast] at hr
        rcases rows r hr with hr | rfl
        · exact Or.inl hr
        · exact Or.inr ⟨origin, List.mem_cons_self⟩
      · rw [List.mem_singleton.mp hp, store_broadcast]
        exact stored

theorem Posting.congr {mid : Store} {sent : List GroupSend} (h : Posting mid store' sent)
    (hmid : mid.messages = store.messages) : Posting store store' sent := by
  cases h with
  | nothing sent quiet rows => exact .nothing sent quiet (rows.trans (by rw [hmid]))
  | message rest m origin quiet stored rows =>
      exact .message rest m origin quiet stored (by rw [← hmid]; exact rows)

theorem grown_sendError (s : ConnectServer) (name t : Text) (k : Option Text) (e : Text) :
    Grown (fun _ _ => False) s (s.setChannel name fun c => c.send (.sendError t k e)) :=
  grown_setChannel (fun c => ⟨c.send_channel _, c.send_alive _, c.send_groups _⟩) _ s name

/-- What a frame of a socket sends to groups comes after the reply to it. -/
theorem answer_base (s : ConnectServer) (name : Text) (o : Outcome SocketReply) :
    ∃ base, s.answer name o = base.broadcast o.sent ∧ base.store = o.store ∧
      Passed s base (fun _ => []) ∧
      Grown (fun _ _ => False) { s with store := o.store } base := by
  have hsame : ∀ store, Passed s { s with store := store } fun _ => [] :=
    fun _ name c hc => Passed.refl s name c hc
  rw [ConnectServer.answer]
  split
  · next t k e _ =>
      have hgrown := grown_sendError { s with store := o.store } name t k e
      refine ⟨_, rfl, hgrown.store, fun n c hc => ?_, hgrown⟩
      rw [ConnectServer.setChannel]
      cases hfind : s.channels.find name with
      | none => exact hsame o.store n c hc
      | some d =>
          dsimp only
          rw [Map.find_set]
          split_ifs with hn
          · rw [hn, hfind] at hc
            cases hc
            refine ⟨_, rfl, c.send_channel _, c.send_alive _, c.send_isOpen _, ?_⟩
            rw [messages_send c rfl]
            exact (List.append_nil _).symm
          · exact hsame o.store n c hc
  · exact ⟨_, rfl, rfl, hsame o.store, Grown.refl _ _⟩

theorem Joined.answer_delivered (h : Joined s) {o : Outcome SocketReply}
    (hplain : Plain s.store o) (hposting : Posting s.store o.store o.sent) (name : Text) :
    Delivered s (s.answer name o) (o.sent.filterMap GroupSend.post) := by
  obtain ⟨base, hanswer, hstore, hpassed, hgrown⟩ := answer_base s name o
  rw [hanswer]
  rw [← hstore] at hposting
  refine hposting.delivered hpassed fun rest g m origin hsent => ?_
  have hrest : ∀ x ∈ rest, Tells (fun _ _ => False) (.sent x.event) :=
    fun x hx => hplain.tells x (by rw [hsent]; exact List.mem_append_left _ hx)
  exact h.quiet hplain.same (hgrown.trans (grown_broadcast hrest base))

/-- A POST tells of a new conversation before it sends the message. -/
theorem dmPersist_before {stamp : Stamp} {dm : Dm} {conv : Conversation} {rest : List GroupSend}
    {g : Text} {m : DirectMessage} {origin : Text}
    (h : (dmPersist store stamp dm conv).sent = rest ++ [⟨g, .newMessage m origin⟩]) :
    rest = if conv.messageCount = 0 then broadcastConversationCreated store conv else [] := by
  have hno : (if conv.messageCount = 0 then broadcastConversationCreated store conv else []) ≠
      rest ++ [⟨g, .newMessage m origin⟩] := by
    intro heq
    have hmem : (⟨g, .newMessage m origin⟩ : GroupSend) ∈
        if conv.messageCount = 0 then broadcastConversationCreated store conv else [] := by
      rw [heq]
      exact List.mem_append_right _ List.mem_cons_self
    split_ifs at hmem
    · exact absurd (created_quiet store conv _ hmem) (Option.some_ne_none _)
    · cases hmem
  rw [dmPersist] at h
  split at h
  · exact absurd h hno
  · split at h
    · exact absurd h hno
    · exact (List.append_inj_left' h rfl).symm

theorem Joined.postDm_delivered (lower : Text → Text) (h : Joined s) (stamp : Stamp)
    (userId : Option ℕ) (body : DmBody) :
    let o := ConnectStore.postDm lower s.store stamp userId body
    Delivered s ({ s with store := o.store }.broadcast o.sent)
      (o.sent.filterMap GroupSend.post) := by
  intro o
  have hpassed : Passed s { s with store := o.store } fun _ => [] :=
    fun name c hc => Passed.refl s name c hc
  have hnothing : ∀ {o : Outcome DmReply}, o.sent = [] → o.store = s.store →
      Posting s.store o.store o.sent ∧
        ∀ rest g m origin, o.sent = rest ++ [⟨g, .newMessage m origin⟩] →
          Joined ({ s with store := o.store }.broadcast rest) := by
    intro o hsent hstore
    rw [hsent, hstore]
    refine ⟨.nothing [] (fun _ hx => absurd hx List.not_mem_nil) rfl, fun rest g m origin he => ?_⟩
    exact absurd he.symm (List.append_ne_nil_of_right_ne_nil _ (List.cons_ne_nil _ _))
  have hboth : Posting s.store o.store o.sent ∧
      ∀ rest g m origin, o.sent = rest ++ [⟨g, .newMessage m origin⟩] →
        Joined ({ s with store := o.store }.broadcast rest) := by
    show Posting s.store (ConnectStore.postDm lower s.store stamp userId body).store
      (ConnectStore.postDm lower s.store stamp userId body).sent ∧ _
    subst o
    rw [ConnectStore.postDm]
    split
    · exact hnothing rfl rfl
    · next dm hdm =>
        split
        · exact hnothing rfl rfl
        · next conv mid hconv =>
            have hmid := findOrCreateDirect_cases hconv
            refine ⟨(dmPersist_posting mid stamp dm conv).congr ?_, fun rest g m origin hsent => ?_⟩
            · rcases hmid with rfl | hopened
              · rfl
              · exact hopened.messages
            · rw [dmPersist_before hsent, ← List.append_nil (ite _ _ _)]
              refine h.conversation hmid ?_ (dmPersist_spec mid stamp dm conv).1
                fun _ hx => absurd hx List.not_mem_nil
              split_ifs with hcount
              · exact Or.inl rfl
              · exact Or.inr ⟨rfl, hcount⟩
  exact hboth.1.delivered hpassed hboth.2

theorem postConversation_quiet (store : Store) (stamp : Stamp) (userId : Option ℕ)
    (body : ConversationBody) :
    Posting store (postConversation store stamp userId body).store
        (postConversation store stamp userId body).sent ∧
      ∀ x ∈ (postConversation store stamp userId body).sent, x.post = none := by
  have hnone : ∀ x ∈ ([] : List GroupSend), x.post = none := fun _ hx => absurd hx List.not_mem_nil
  rw [ConnectStore.postConversation]
  split
  · exact ⟨.nothing [] hnone rfl, hnone⟩
  · dsimp only
    split_ifs
    · split
      · split
        · exact ⟨.nothing [] hnone rfl, hnone⟩
        · next conv mid hconv =>
            refine ⟨.nothing _ (created_quiet mid conv) ?_, created_quiet mid conv⟩
            rcases findOrCreateDirect_cases hconv with rfl | hopened
            · rfl
            · rw [hopened.messages]
      · exact ⟨.nothing [] hnone rfl, hnone⟩
    · split
      · exact ⟨.nothing [] hnone rfl, hnone⟩
      · split
        · exact ⟨.nothing [] hnone rfl, hnone⟩
        · next conv mid hconv =>
            refine ⟨.nothing _ (created_quiet mid conv) ?_, created_quiet mid conv⟩
            rw [(createGroup_opened hconv).messages]

theorem Passed.quiet (h : Passed s s' fun _ => [])
    (hrows : s'.store.messages.rows = s.store.messages.rows) : Delivered s s' [] := by
  refine Passed.delivered (fun name c hc => h name c hc) (fun m hm => ?_)
    (fun _ hp => absurd hp List.not_mem_nil)
  rw [hrows] at hm
  exact Or.inl hm

/-- The sends of an operation, for the sockets there are. -/
def ConnectOp.sends (lower : Text → Text) (s : ConnectServer) : ConnectOp → List GroupSend
  | .sendMessage channelName stamp data =>
      (s.channels.find channelName).elim [] fun c =>
        (c.channel.handleSendMessage s.store stamp data).sent
  | .streamEvent channelName stamp data =>
      (s.channels.find channelName).elim [] fun c =>
        (c.channel.handleStreamEvent s.store stamp data).sent
  | .postDm stamp userId body => (ConnectStore.postDm lower s.store stamp userId body).sent
  | _ => []

def ConnectOp.posts (lower : Text → Text) (s : ConnectServer) (op : ConnectOp) :
    List (DirectMessage × Text) := (op.sends lower s).filterMap GroupSend.post

theorem delivered_self (s : ConnectServer) : Delivered s s [] := (Passed.refl s).quiet rfl

theorem fromSocket_sends {f : LiveChannel → ConnectServer} {g : LiveChannel → List GroupSend}
    (hf : ∀ c, Delivered s (f c) ((g c).filterMap GroupSend.post)) :
    Delivered s (s.fromSocket name f)
      (((s.channels.find name).elim [] g).filterMap GroupSend.post) := by
  rw [ConnectServer.fromSocket]
  cases s.channels.find name with
  | none => exact delivered_self s
  | some c => exact hf c

theorem fromSocket_quiet {f : LiveChannel → ConnectServer} (hf : ∀ c, Delivered s (f c) []) :
    Delivered s (s.fromSocket name f) [] := by
  rw [ConnectServer.fromSocket]
  cases s.channels.find name with
  | none => exact delivered_self s
  | some c => exact hf c

/-- One socket changes, and not in what it was sent. -/
theorem delivered_set (hfind : s.channels.find name = some c) {d : LiveChannel}
    (hchannels : ∀ n, s'.channels.find n = if n = name then some d else s.channels.find n)
    (hmessages : d.messages = c.messages) (hrows : s'.store.messages = s.store.messages) :
    Delivered s s' [] := by
  refine ⟨fun n e he => ?_, fun m hm => Or.inl (by rw [← hrows]; exact hm),
    fun _ hp => absurd hp List.not_mem_nil⟩
  rw [hchannels]
  split_ifs with hn
  · rw [hn, hfind] at he
    cases he
    exact ⟨d, rfl, by rw [hmessages]; exact (List.append_nil _).symm⟩
  · exact ⟨e, he, (List.append_nil _).symm⟩

theorem delivered_start {channel : ConnectChannel}
    (hfresh : s.channels.find channel.channelName = none) : Delivered s (s.start channel) [] := by
  rw [ConnectServer.start, ConnectServer.joinAllGroups]
  dsimp only
  rw [Map.find_set, if_pos rfl]
  refine ⟨fun n c hc => ⟨c, ?_, (List.append_nil _).symm⟩, fun m hm => Or.inl hm,
    fun _ hp => absurd hp List.not_mem_nil⟩
  have hn : n ≠ channel.channelName := by
    rintro rfl
    cases hc.symm.trans hfresh
  dsimp only
  rw [Map.find_set, if_neg hn, Map.find_set, if_neg hn]
  exact hc

theorem markAsRead_messages (store : Store) (now : ℕ) (t : Text) (u : ℕ) (id : Text) :
    (store.markAsRead now t u id).2.messages = store.messages := by
  rw [Store.markAsRead]
  split
  · rfl
  · split
    · rfl
    · rfl

theorem delivered_messageRead (s : ConnectServer) (c : LiveChannel) (now : ℕ)
    (conversationId messageId : Option Text) :
    Delivered s (s.onMessageRead c now conversationId messageId) [] := by
  rw [ConnectServer.onMessageRead]
  dsimp only
  split_ifs
  · exact delivered_self s
  · let marked := s.store.markAsRead now (conversationId.getD []) c.user.id (messageId.getD [])
    have hpassed : Passed s { s with store := marked.2 } fun _ => [] :=
      fun name d hd => Passed.refl s name d hd
    refine (hpassed.trans_nothing (passed_foldl (fun s mid _ =>
      passed_groupSend s _ rfl) { s with store := marked.2 })).quiet ?_
    have hstore := (grown_foldl (A := fun _ _ => True)
      (f := fun s mid => s.groupSend (chatGroup (conversationId.getD []))
        (.messageReadReceipt (conversationId.getD []) c.user.id mid))
      (l := ConnectServer.readIds marked.1 (messageId.getD []))
      (fun s _ _ => grown_groupSend (fun _ _ he => by cases he) s _)
      { s with store := marked.2 }).store
    rw [hstore]
    show marked.2.messages.rows = _
    rw [markAsRead_messages]

theorem delivered_step (lower : Text → Text) {op : ConnectOp} (h : Joined s)
    (hfresh : OpensFresh s op) : Delivered s (s.step lower op) (op.posts lower s) := by
  cases op with
  | opened channel => exact delivered_start hfresh
  | refresh name =>
      show Delivered s (s.refresh name) []
      rw [ConnectServer.refresh]
      cases hfind : s.channels.find name with
      | none => exact delivered_self s
      | some c =>
          dsimp only
          split_ifs
          · rw [ConnectServer.joinAllGroups, hfind]
            exact delivered_set hfind (fun n => Map.find_set _ _ _ n) rfl rfl
          · exact delivered_self s
  | sendMessage name stamp data =>
      exact fromSocket_sends fun c => h.answer_delivered (handleSendMessage_plain _ _ _ _)
        (handleSendMessage_posting _ _ _ _) name
  | streamEvent name stamp data =>
      exact fromSocket_sends fun c => h.answer_delivered (handleStreamEvent_plain _ _ _ _)
        (handleStreamEvent_posting _ _ _ _) name
  | typing name conversationId isTyping =>
      refine fromSocket_quiet fun c => ?_
      rw [ConnectServer.onTyping]
      split_ifs
      · exact delivered_self s
      · refine (passed_groupSend s _ rfl).quiet ?_
        rw [(grown_groupSend (A := fun _ _ => True) (fun _ _ _ _ _ => trivial) s _).store]
  | messageRead name now conversationId messageId =>
      exact fromSocket_quiet fun c => delivered_messageRead s c now conversationId messageId
  | postDm stamp userId body => exact h.postDm_delivered lower stamp userId body
  | postConversation stamp userId body =>
      obtain ⟨hposting, hquiet⟩ := postConversation_quiet s.store stamp userId body
      have hpassed : Passed s
          { s with store := (ConnectStore.postConversation s.store stamp userId body).store }
          fun _ => [] := fun name c hc => Passed.refl s name c hc
      have hdelivered := hposting.delivered hpassed fun rest g m origin hsent => by
        have hmem := hquiet ⟨g, .newMessage m origin⟩
          (hsent ▸ List.mem_append_right rest List.mem_cons_self)
        cases hmem
      rw [filterMap_quiet hquiet] at hdelivered
      exact hdelivered
  | closing name =>
      show Delivered s (s.setChannel name _) []
      rw [ConnectServer.setChannel]
      cases hfind : s.channels.find name with
      | none => exact delivered_self s
      | some c => exact delivered_set hfind (fun n => Map.find_set _ _ _ n) rfl rfl
  | closed name =>
      show Delivered s (s.onClose name) []
      rw [ConnectServer.onClose]
      cases hfind : s.channels.find name with
      | none => exact delivered_self s
      | some c =>
          dsimp only
          split_ifs
          · exact delivered_set hfind (fun n => Map.find_set _ _ _ n) rfl rfl
          · exact delivered_self s
  | users users =>
      exact ⟨fun _ c hc => ⟨c, hc, (List.append_nil _).symm⟩, fun _ hm => Or.inl hm,
        fun _ hp => absurd hp List.not_mem_nil⟩

/-- In every run, each step delivers what it posts: to every socket that there
is, exactly the messages it wants, each once, and no message is stored that was
not posted. -/
theorem messages_delivered (lower : Text → Text) (store : Store) (ops : List ConnectOp)
    (hintact : store.Intact)
    (hfresh : Along (ConnectServer.step lower) OpensFresh (.init store) ops) :
    Along (ConnectServer.step lower)
      (fun s op => Delivered s (s.step lower op) (op.posts lower s)) (.init store) ops := by
  have hstep : ∀ s op, Joined s → OpensFresh s op →
      Delivered s (s.step lower op) (op.posts lower s) ∧ Joined (s.step lower op) :=
    fun _ _ h hop => ⟨delivered_step lower h hop, joined_step lower h hop⟩
  exact Machine.along_of_step hstep (joined_init hintact) hfresh

theorem messages_delivered_room :
    (roomServer.channels.find (js "c2")).map (fun c => c.messages.map DirectMessage.content) =
        some [js "dinner?", js "hello?"] ∧
      Along (ConnectServer.step id) (fun s op => Delivered s (s.step id op) (op.posts id s))
        (.init emptyRoom) roomOps :=
  ⟨by decide +kernel, messages_delivered id emptyRoom roomOps emptyRoom_intact roomOps_fresh⟩

/-! ## Nobody else hears of it -/

/-- Whatever a socket was ever sent about a conversation, its user takes part in
it. -/
def Private (s : ConnectServer) : Prop :=
  ∀ name c, s.channels.find name = some c → ∀ f ∈ c.frames, ∀ t, f.about = some t →
    s.store.isParticipant t c.user.id = true

/-- And so does who is in its group. -/
structure Discreet (s : ConnectServer) : Prop where
  theirs : ∀ name c t, s.channels.find name = some c → name ∈ s.layer.members (chatGroup t) →
    s.store.isParticipant t c.user.id = true
  heard : Private s

/-- An announcement names only participants, and anything else goes to the group
of the conversation it is about. -/
def Addressed (store : Store) (group : Text) (event : LayerEvent) : Prop :=
  Tells (fun t u => store.isParticipant t u = true) event ∧
    (group = chatGroup event.about ∨ ∃ conversation participants,
      event = .sent (.conversationCreated conversation participants))

theorem Discreet.groupSend (h : Discreet s) (haddressed : Addressed s.store group event) :
    Discreet (s.groupSend group event) := by
  have hgrown := grown_groupSend haddressed.1 s group
  constructor
  · intro n c' t hc' hmem
    obtain ⟨c, hc, hchannel, -⟩ := hgrown.back n c' hc'
    rw [LiveChannel.user, hchannel, hgrown.store]
    rcases hgrown.only _ n hmem with hmem | ⟨t', d, ht, hd, -, htold⟩
    · exact h.theirs n c t hc hmem
    · cases hc.symm.trans hd
      rw [chatGroup_inj ht]
      exact htold
  · intro n c' hc' f hf t ht
    obtain ⟨c, hc, hchannel, -⟩ := hgrown.back n c' hc'
    rw [LiveChannel.user, hchannel, hgrown.store]
    rw [groupSend_channels, hc] at hc'
    split_ifs at hc' with hmem
    · cases hc'
      rcases mem_frames_onEvent hf with hold | ⟨habout, hnamed⟩
      · exact h.heard n c hc f hold t ht
      · have ht' : t = event.about := Option.some.inj (ht.symm.trans habout)
        rw [ht']
        rcases haddressed.2 with hgroup | ⟨conversation, participants, hevent⟩
        · exact h.theirs n c event.about hc (hgroup ▸ hmem)
        · have htold := haddressed.1 conversation participants hevent c.user.id
            (hnamed conversation participants hevent)
          rw [hevent]
          exact htold
    · cases hc'
      exact h.heard n c' hc f hf t ht

theorem Discreet.foldl {ι : Type} {f : ConnectServer → ι → ConnectServer} {l : List ι}
    (h : Discreet s) (hf : ∀ s', s'.store = s.store → Discreet s' → ∀ x ∈ l,
      Discreet (f s' x) ∧ (f s' x).store = s.store) : Discreet (l.foldl f s) := by
  have hboth : ∀ (l' : List ι) s', (∀ x ∈ l', x ∈ l) → s'.store = s.store → Discreet s' →
      Discreet (l'.foldl f s') := by
    intro l'
    induction l' with
    | nil => exact fun s' _ _ hs' => hs'
    | cons x l' ih =>
        intro s' hsub hstore hs'
        obtain ⟨hnext, hstore'⟩ := hf s' hstore hs' x (hsub x List.mem_cons_self)
        exact ih _ (fun y hy => hsub y (List.mem_cons_of_mem x hy)) hstore' hnext
  exact hboth l s (fun _ hx => hx) rfl h

theorem store_groupSend (s : ConnectServer) (group : Text) (event : LayerEvent) :
    (s.groupSend group event).store = s.store :=
  (grown_groupSend (A := fun _ _ => True) (fun _ _ _ _ _ => trivial) s group).store

theorem Discreet.broadcast {sends : List GroupSend} (h : Discreet s)
    (haddressed : ∀ x ∈ sends, Addressed s.store x.group (.sent x.event)) :
    Discreet (s.broadcast sends) := by
  refine h.foldl fun s' hstore hs' x hx => ⟨hs'.groupSend ?_, (store_groupSend _ _ _).trans hstore⟩
  rw [hstore]
  exact haddressed x hx

/-- Whoever took part still does. -/
theorem Discreet.stored (h : Discreet s)
    (hkept : ∀ t u, s.store.isParticipant t u = true → store'.isParticipant t u = true) :
    Discreet { s with store := store' } where
  theirs name c t hc hmem := hkept t _ (h.theirs name c t hc hmem)
  heard name c hc f hf t ht := hkept t _ (h.heard name c hc f hf t ht)

theorem Joined.discreet (h : Joined s) (hheard : Private s) : Discreet s where
  theirs name c t hc hmem := by
    obtain ⟨d, hd, halive⟩ := h.live _ name hmem
    cases hc.symm.trans hd
    exact (h.chat name c hc halive t).mp hmem
  heard := hheard

/-- The sockets are those there were, and what they were sent since is about no
conversation. -/
def Silent (s s' : ConnectServer) : Prop :=
  ∀ name d, s'.channels.find name = some d → d.frames = [] ∨
    ∃ e, s.channels.find name = some e ∧ d.channel = e.channel ∧
      ∀ f ∈ d.frames, f ∈ e.frames ∨ f.about = none

theorem Private.silent (h : Private s) (hsilent : Silent s s') (hstore : s'.store = s.store) :
    Private s' := by
  intro name d hd f hf t ht
  rcases hsilent name d hd with hnone | ⟨e, he, hchannel, hframes⟩
  · rw [hnone] at hf
    cases hf
  · rw [LiveChannel.user, hchannel, hstore]
    rcases hframes f hf with hold | hnone
    · exact h name e he f hold t ht
    · cases hnone.symm.trans ht

theorem silent_set (hfind : s.channels.find name = some c) {d : LiveChannel}
    (hchannels : ∀ n, s'.channels.find n = if n = name then some d else s.channels.find n)
    (hchannel : d.channel = c.channel) (hframes : ∀ f ∈ d.frames, f ∈ c.frames ∨ f.about = none) :
    Silent s s' := by
  intro n e he
  rw [hchannels] at he
  split_ifs at he with hn
  · cases he
    exact Or.inr ⟨c, by rw [hn, hfind], hchannel, hframes⟩
  · exact Or.inr ⟨e, he, rfl, fun f hf => Or.inl hf⟩

theorem Discreet.setChannel (h : Discreet s) {f : LiveChannel → LiveChannel}
    (hchannel : ∀ c, (f c).channel = c.channel)
    (hframes : ∀ c, ∀ x ∈ (f c).frames, x ∈ c.frames ∨ x.about = none) (name : Text) :
    Discreet (s.setChannel name f) := by
  rw [ConnectServer.setChannel]
  cases hfind : s.channels.find name with
  | none => exact h
  | some c =>
      refine ⟨fun n d t hd hmem => ?_, h.heard.silent (silent_set hfind
        (fun n => Map.find_set _ _ _ n) (hchannel c) (hframes c)) rfl⟩
      dsimp only at hd
      rw [Map.find_set] at hd
      split_ifs at hd with hn
      · cases hd
        rw [LiveChannel.user, hchannel]
        exact h.theirs n c t (by rw [hn, hfind]) hmem
      · exact h.theirs n d t hd hmem

/-! ### What a request sends -/

/-- Nobody is put out of a conversation, and everything is addressed as it
should be. -/
structure Proper (store store' : Store) (sent : List GroupSend) : Prop where
  kept : ∀ t u, store.isParticipant t u = true → store'.isParticipant t u = true
  addressed : ∀ x ∈ sent, Addressed store' x.group (.sent x.event)

theorem Proper.nothing (store : Store) : Proper store store [] :=
  ⟨fun _ _ hp => hp, fun _ hx => absurd hx List.not_mem_nil⟩

theorem addressed_home (store : Store) (event : LayerEvent) (h : ∀ conversation participants,
      event ≠ .sent (.conversationCreated conversation participants)) :
    Addressed store (chatGroup event.about) event :=
  ⟨fun _ _ he => absurd he (h _ _), Or.inl rfl⟩

theorem addressed_created (hs : store.Intact) (conv : Conversation) :
    ∀ x ∈ broadcastConversationCreated store conv, Addressed store x.group (.sent x.event) := by
  intro x hx
  refine ⟨tells_created hs conv x hx, Or.inr ?_⟩
  obtain ⟨p, -, rfl⟩ := List.mem_map.mp hx
  exact ⟨conv, _, rfl⟩

theorem sendPersisted_proper (store : Store) (stamp : Stamp) (channelName : Text)
    {o : MessageOpts} {u : Uuid} (hconversation : o.conversationId = u.val) :
    Proper store (sendPersisted store stamp channelName o).store
      (sendPersisted store stamp channelName o).sent := by
  rw [sendPersisted]
  split
  · exact Proper.nothing store
  · next m s' hmade =>
      have hsame := createMessage_sameParticipants hmade
      refine ⟨fun t u hp => (hsame.same t u).trans hp, fun x hx => ?_⟩
      rw [List.mem_singleton.mp hx]
      have hbound := (createMessage_row hmade).1
      rw [hconversation, boundText_uuid] at hbound
      dsimp only
      rw [hconversation, ← hbound]
      exact addressed_home s' (.sent (.newMessage m channelName)) fun _ _ he => by cases he

theorem handleSendMessage_proper (c : ConnectChannel) (store : Store) (stamp : Stamp)
    (data : SendFrame) :
    Proper store (c.handleSendMessage store stamp data).store
      (c.handleSendMessage store stamp data).sent := by
  rw [ConnectChannel.handleSendMessage]
  split
  · exact Proper.nothing store
  · next o ho =>
      obtain ⟨u, hu⟩ := sendOpts_uuid ho
      exact sendPersisted_proper store stamp _ hu

theorem handleStreamEvent_proper (c : ConnectChannel) (store : Store) (stamp : Stamp)
    (data : StreamFrame) :
    Proper store (c.handleStreamEvent store stamp data).store
      (c.handleStreamEvent store stamp data).sent := by
  rw [ConnectChannel.handleStreamEvent]
  split_ifs
  · exact Proper.nothing store
  · split
    · exact Proper.nothing store
    · next o ho =>
        obtain ⟨u, hu⟩ := completeOpts_uuid ho
        exact sendPersisted_proper store stamp _ hu
  · refine ⟨fun _ _ hp => hp, fun x hx => ?_⟩
    rw [List.mem_singleton.mp hx]
    exact addressed_home store (.sent (.agentStreamEvent _ _ _ _)) fun _ _ he => by cases he

/-- A conversation was looked up or made. -/
theorem looked_kept {mid : Store} {conv : Conversation} (hs : store.Intact)
    (hmid : mid = store ∨ Opened store mid conv) :
    mid.Intact ∧ ∀ t u, store.isParticipant t u = true → mid.isParticipant t u = true := by
  rcases hmid with rfl | hopened
  · exact ⟨hs, fun _ _ hp => hp⟩
  · exact ⟨hopened.intact hs, fun t u hp => (hopened.isParticipant hs).mpr (Or.inl hp)⟩

theorem dmPersist_proper (hs : store.Intact) (stamp : Stamp) (dm : Dm) (conv : Conversation) :
    Proper store (dmPersist store stamp dm conv).store (dmPersist store stamp dm conv).sent := by
  have hcreated : ∀ x ∈ (if conv.messageCount = 0 then broadcastConversationCreated store conv
      else []), Addressed store x.group (.sent x.event) := by
    split_ifs
    · exact addressed_created hs conv
    · exact fun _ hx => absurd hx List.not_mem_nil
  rw [dmPersist]
  split
  · exact ⟨fun _ _ hp => hp, hcreated⟩
  · split
    · exact ⟨fun _ _ hp => hp, hcreated⟩
    · next m s' hmade =>
        have hkept : ∀ t u, store.isParticipant t u = true → s'.isParticipant t u = true :=
          fun t u hp => ((createMessage_sameParticipants hmade).same t u).trans hp
        refine ⟨hkept, fun x hx => ?_⟩
        rcases List.mem_append.mp hx with hx | hx
        · refine ⟨fun conversation participants he u hu => hkept _ _ ?_, (hcreated x hx).2⟩
          exact (hcreated x hx).1 conversation participants he u hu
        · rw [List.mem_singleton.mp hx]
          have hconversation : m.conversationId.val = conv.id.val :=
            (createMessage_row hmade).1.trans (boundText_uuid _)
          dsimp only
          rw [← hconversation]
          exact addressed_home s' (.sent (.newMessage m [])) fun _ _ he => by cases he

theorem postDm_proper (lower : Text → Text) (hs : store.Intact) (stamp : Stamp)
    (userId : Option ℕ) (body : DmBody) :
    Proper store (ConnectStore.postDm lower store stamp userId body).store
      (ConnectStore.postDm lower store stamp userId body).sent := by
  rw [ConnectStore.postDm]
  split
  · exact Proper.nothing store
  · next dm hdm =>
      split
      · exact Proper.nothing store
      · next conv mid hconv =>
          obtain ⟨hintact, hkept⟩ := looked_kept hs (findOrCreateDirect_cases hconv)
          have hproper := dmPersist_proper hintact stamp dm conv
          exact ⟨fun t u hp => hproper.kept t u (hkept t u hp), hproper.addressed⟩

theorem postConversation_proper (hs : store.Intact) (stamp : Stamp) (userId : Option ℕ)
    (body : ConversationBody) :
    Proper store (postConversation store stamp userId body).store
      (postConversation store stamp userId body).sent := by
  have hmade : ∀ {mid conv}, mid = store ∨ Opened store mid conv →
      Proper store mid (broadcastConversationCreated mid conv) := by
    intro mid conv hmid
    obtain ⟨hintact, hkept⟩ := looked_kept hs hmid
    exact ⟨hkept, addressed_created hintact conv⟩
  rw [ConnectStore.postConversation]
  split
  · exact Proper.nothing store
  · dsimp only
    split_ifs
    · split
      · split
        · exact Proper.nothing store
        · next conv mid hconv => exact hmade (findOrCreateDirect_cases hconv)
      · exact Proper.nothing store
    · split
      · exact Proper.nothing store
      · split
        · exact Proper.nothing store
        · next conv mid hconv => exact hmade (Or.inr (createGroup_opened hconv))

/-! ### Runs -/

theorem frames_sendError (c : LiveChannel) (t : Text) (k : Option Text) (e : Text) :
    ∀ f ∈ (c.send (.sendError t k e)).frames, f ∈ c.frames ∨ f.about = none := by
  intro f hf
  rw [frames_send] at hf
  split_ifs at hf
  · refine (List.mem_append.mp hf).imp_right fun hlast => ?_
    rw [List.mem_singleton.mp hlast]
    rfl
  · exact Or.inl hf

theorem Discreet.answer (h : Discreet s) {o : Outcome SocketReply}
    (hproper : Proper s.store o.store o.sent) (name : Text) : Discreet (s.answer name o) := by
  have hstored := h.stored hproper.kept
  rw [ConnectServer.answer]
  split
  · next t k e _ =>
      have hgrown := grown_sendError { s with store := o.store } name t k e
      refine (hstored.setChannel (fun c => c.send_channel _)
        (fun c => frames_sendError c t k e) name).broadcast ?_
      rw [hgrown.store]
      exact hproper.addressed
  · exact hstored.broadcast hproper.addressed

theorem Discreet.fromSocket {f : LiveChannel → ConnectServer} (h : Discreet s)
    (hf : ∀ c, Discreet (f c)) : Discreet (s.fromSocket name f) := by
  rw [ConnectServer.fromSocket]
  split
  · exact h
  · next c _ => exact hf c

theorem Discreet.onMessageRead (h : Discreet s) (c : LiveChannel) (now : ℕ)
    (conversationId messageId : Option Text) :
    Discreet (s.onMessageRead c now conversationId messageId) := by
  rw [ConnectServer.onMessageRead]
  dsimp only
  split_ifs
  · exact h
  · have hsame := markAsRead_sameParticipants s.store now (conversationId.getD []) c.user.id
      (messageId.getD [])
    refine (h.stored fun t u hp => (hsame.same t u).trans hp).foldl fun s' hstore hs' mid _ =>
      ⟨hs'.groupSend ?_, (store_groupSend _ _ _).trans hstore⟩
    exact addressed_home s'.store (.messageReadReceipt (conversationId.getD []) c.user.id mid)
      fun _ _ he => by cases he

theorem silent_start (s : ConnectServer) (channel : ConnectChannel) :
    Silent s (s.start channel) ∧ (s.start channel).store = s.store := by
  rw [ConnectServer.start, ConnectServer.joinAllGroups]
  dsimp only
  rw [Map.find_set, if_pos rfl]
  refine ⟨fun n d hd => ?_, rfl⟩
  dsimp only at hd
  rw [Map.find_set] at hd
  split_ifs at hd with hn
  · cases hd
    exact Or.inl rfl
  · rw [Map.find_set, if_neg hn] at hd
    exact Or.inr ⟨d, hd, rfl, fun f hf => Or.inl hf⟩

theorem private_step (lower : Text → Text) {op : ConnectOp} (h : Joined s) (hheard : Private s) :
    Private (s.step lower op) := by
  have hdiscreet := h.discreet hheard
  have hself : ∀ c : LiveChannel, ∀ f ∈ c.frames, f ∈ c.frames ∨ f.about = none :=
    fun _ _ hf => Or.inl hf
  cases op with
  | opened channel =>
      obtain ⟨hsilent, hstore⟩ := silent_start s channel
      exact hheard.silent hsilent hstore
  | refresh name =>
      rw [ConnectServer.step, ConnectServer.refresh]
      cases hfind : s.channels.find name with
      | none => exact hheard
      | some c =>
          dsimp only
          split_ifs
          · rw [ConnectServer.joinAllGroups, hfind]
            exact hheard.silent
              (silent_set hfind (fun n => Map.find_set _ _ _ n) rfl (hself c)) rfl
          · exact hheard
  | sendMessage name stamp data =>
      exact (hdiscreet.fromSocket fun c =>
        hdiscreet.answer (handleSendMessage_proper c.channel _ stamp data) name).heard
  | streamEvent name stamp data =>
      exact (hdiscreet.fromSocket fun c =>
        hdiscreet.answer (handleStreamEvent_proper c.channel _ stamp data) name).heard
  | typing name conversationId isTyping =>
      refine (hdiscreet.fromSocket fun c => ?_).heard
      rw [ConnectServer.onTyping]
      split_ifs
      · exact hdiscreet
      · exact hdiscreet.groupSend (addressed_home s.store
          (.typingIndicator (conversationId.getD []) c.user.id isTyping) fun _ _ he => by cases he)
  | messageRead name now conversationId messageId =>
      exact (hdiscreet.fromSocket fun c =>
        hdiscreet.onMessageRead c now conversationId messageId).heard
  | postDm stamp userId body =>
      have hproper := postDm_proper lower h.intact stamp userId body
      exact ((hdiscreet.stored hproper.kept).broadcast hproper.addressed).heard
  | postConversation stamp userId body =>
      have hproper := postConversation_proper h.intact stamp userId body
      exact ((hdiscreet.stored hproper.kept).broadcast hproper.addressed).heard
  | closing name =>
      exact (hdiscreet.setChannel (f := fun c => { c with isOpen := false }) (fun _ => rfl) hself
        name).heard
  | closed name =>
      rw [ConnectServer.step, ConnectServer.onClose]
      cases hfind : s.channels.find name with
      | none => exact hheard
      | some c =>
          dsimp only
          split_ifs
          · exact hheard.silent
              (silent_set hfind (fun n => Map.find_set _ _ _ n) rfl (hself c)) rfl
          · exact hheard
  | users users => exact hheard

/-- In no run is a socket sent anything about a conversation that its user does
not take part in. -/
theorem nobody_overhears (lower : Text → Text) (store : Store) (ops : List ConnectOp)
    (hintact : store.Intact)
    (hfresh : Along (ConnectServer.step lower) OpensFresh (.init store) ops) :
    Private (Machine.run (ConnectServer.step lower) (.init store) ops) := by
  have hstep : ∀ s op, Joined s ∧ Private s → OpensFresh s op →
      Joined (s.step lower op) ∧ Private (s.step lower op) :=
    fun _ _ h hop => ⟨joined_step lower h.1 hop, private_step lower h.1 h.2⟩
  have hfirst : Private (.init store) := by
    intro name c hc
    cases hc
  exact (Machine.run_invariant hstep ⟨joined_init hintact, hfirst⟩ hfresh).2

theorem nobody_overhears_room :
    (roomServer.channels.find (js "c2")).map (fun c => c.frames.length) = some 3 ∧
      (roomServer.channels.find (js "c3")).map (fun c => c.frames.length) = some 0 ∧
      Private roomServer :=
  ⟨by decide +kernel, by decide +kernel,
    nobody_overhears id emptyRoom roomOps emptyRoom_intact roomOps_fresh⟩

end Shizuha.ConnectStore
