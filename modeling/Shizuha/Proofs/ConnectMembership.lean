import Shizuha.ConnectStore.Connections
import Shizuha.Proofs.ConnectStore

/-!
# A socket is in the groups of its conversations

Over any run, a live socket is in the group of a conversation exactly when its
user takes part in it. What has to be shown is that a conversation that is made
reaches all sockets of its participants: it is announced in their inboxes, and
whoever hears of it joins. Everything else that is sent to a group leaves the
groups alone.

What sending does to the groups is said once (`Grown`): sockets stay what they
are, no socket leaves a group, and who joins one takes part in what was
announced.
-/

namespace Shizuha.ConnectStore

open Js State
open Machine (Along)

variable {s s' : ConnectServer} {store store' : Store} {event : LayerEvent} {group name : Text}
  {c : LiveChannel} {A P : Text → ℕ → Prop}

/-! ## Groups by their names -/

theorem chatGroup_inj {t t' : Text} (h : chatGroup t = chatGroup t') : t = t' :=
  List.append_cancel_left h

theorem userInboxGroup_ne_chatGroup (u : ℕ) (t : Text) : userInboxGroup u ≠ chatGroup t := by
  have hinbox : js "user_inbox_" = 117 :: js "ser_inbox_" := by decide
  have hchat : js "chat_" = 99 :: js "hat_" := by decide
  rw [userInboxGroup, chatGroup, hinbox, hchat, List.cons_append, List.cons_append]
  intro h
  exact absurd (List.cons.inj h).1 (by decide)

/-! ## Who takes part -/

theorem isParticipant_iff {t : Text} {u : ℕ} :
    store.isParticipant t u = true ↔
      ∃ p ∈ store.participants.rows, p.conversationId.val = t ∧ p.userId = u ∧ p.hasLeft = false := by
  rw [Store.isParticipant, List.any_eq_true]
  constructor
  · rintro ⟨p, hp, h⟩
    simp only [Bool.and_eq_true, decide_eq_true_eq, Bool.not_eq_true'] at h
    obtain ⟨⟨hid, hu⟩, hleft⟩ := h
    exact ⟨p, hp, (eq_uuid_of_bound hid).symm, hu, hleft⟩
  · rintro ⟨p, hp, rfl, rfl, hleft⟩
    exact ⟨p, hp, by simp [hleft]⟩

/-- Nobody has left, and nobody takes part in a conversation that is not there:
no call of the store changes that. -/
structure Store.Intact (store : Store) : Prop where
  stayed : ∀ p ∈ store.participants.rows, p.hasLeft = false
  home : ∀ p ∈ store.participants.rows,
    p.conversationId ∈ store.conversations.rows.map Conversation.id

/-- The groups that a socket of the user joins. -/
theorem mem_groupsToJoin (h : store.Intact) {u : ℕ} :
    group ∈ ConnectServer.groupsToJoin store u ↔
      ∃ t, group = chatGroup t ∧ store.isParticipant t u = true := by
  rw [ConnectServer.groupsToJoin, List.mem_map, Store.listUserConversations]
  constructor
  · rintro ⟨conv, hconv, rfl⟩
    rw [List.mem_insertionSort, List.mem_filter, List.any_eq_true] at hconv
    obtain ⟨-, p, hp, hmatch⟩ := hconv
    simp only [Bool.and_eq_true, decide_eq_true_eq, Bool.not_eq_true'] at hmatch
    obtain ⟨⟨hid, hu⟩, hleft⟩ := hmatch
    exact ⟨conv.id.val, rfl, isParticipant_iff.mpr ⟨p, hp, by rw [hid], hu, hleft⟩⟩
  · rintro ⟨t, rfl, hpart⟩
    obtain ⟨p, hp, rfl, hu, hleft⟩ := isParticipant_iff.mp hpart
    obtain ⟨conv, hconv, hid⟩ := List.mem_map.mp (h.home p hp)
    refine ⟨conv, ?_, by rw [hid]⟩
    rw [List.mem_insertionSort, List.mem_filter, List.any_eq_true]
    exact ⟨hconv, p, hp, by simp [hid, hu, hleft]⟩

/-! ## What an event does to a socket -/

namespace LiveChannel

@[simp] theorem send_channel (c : LiveChannel) (f : Frame) : (c.send f).channel = c.channel := by
  rw [send]
  split_ifs <;> rfl

@[simp] theorem send_alive (c : LiveChannel) (f : Frame) : (c.send f).alive = c.alive := by
  rw [send]
  split_ifs <;> rfl

@[simp] theorem send_isOpen (c : LiveChannel) (f : Frame) : (c.send f).isOpen = c.isOpen := by
  rw [send]
  split_ifs <;> rfl

@[simp] theorem send_groups (c : LiveChannel) (f : Frame) :
    (c.send f).conversationGroups = c.conversationGroups := by
  rw [send]
  split_ifs <;> rfl

/-- The socket is the same one, and joins at most the group it is told of. -/
structure Heard (c : LiveChannel) (event : LayerEvent) (r : LiveChannel × Option Text) : Prop where
  channel : r.1.channel = c.channel
  alive : r.1.alive = c.alive
  isOpen : r.1.isOpen = c.isOpen
  joins : ∀ g, r.2 = some g → c.alive = true ∧ ∃ conversation participants,
    event = .sent (.conversationCreated conversation participants) ∧
      g = chatGroup conversation.id.val ∧ c.user.id ∈ participants.map Participant.userId
  groups : ∀ g ∈ r.1.conversationGroups, g ∈ c.conversationGroups ∨ r.2 = some g

theorem Heard.same {c c' : LiveChannel} {event : LayerEvent} (hchannel : c'.channel = c.channel)
    (halive : c'.alive = c.alive) (hopen : c'.isOpen = c.isOpen)
    (hgroups : c'.conversationGroups = c.conversationGroups) : Heard c event (c', none) where
  channel := hchannel
  alive := halive
  isOpen := hopen
  joins := by
    intro g h
    cases h
  groups := by
    intro g hg
    exact Or.inl (hgroups ▸ hg)

theorem Heard.sent (c : LiveChannel) (event : LayerEvent) (f : Frame) :
    Heard c event (c.send f, none) :=
  .same (send_channel c f) (send_alive c f) (send_isOpen c f) (send_groups c f)

theorem heard_onEvent (c : LiveChannel) (event : LayerEvent) : Heard c event (c.onEvent event) := by
  unfold onEvent
  split_ifs with halive
  · exact .same rfl rfl rfl rfl
  · rw [Bool.not_eq_false] at halive
    cases event with
    | typingIndicator conversationId userId isTyping =>
        dsimp only
        split_ifs
        · exact .same rfl rfl rfl rfl
        · exact .sent c _ _
    | messageReadReceipt conversationId userId messageId => exact .sent c _ _
    | sent event =>
        cases event with
        | newMessage m origin =>
            dsimp only
            rw [onNewMessage]
            split_ifs
            · exact .same rfl rfl rfl rfl
            · exact .same rfl rfl rfl rfl
            · exact .sent c _ _
        | agentStreamEvent conversationId eventType agentId data => exact .sent c _ _
        | conversationCreated conversation participants =>
            dsimp only
            rw [onConversationCreated]
            split_ifs with hin
            · dsimp only
              split_ifs with hhas
              · exact .sent c _ _
              · refine ⟨send_channel _ _, send_alive _ _, send_isOpen _ _, ?_, ?_⟩
                · intro g hg
                  cases hg
                  exact ⟨halive, conversation, participants, rfl, rfl, hin⟩
                · intro g hg
                  rw [send_groups] at hg
                  rcases List.mem_append.mp hg with hg | hg
                  · exact Or.inl hg
                  · exact Or.inr (by rw [List.mem_singleton.mp hg])
            · exact .same rfl rfl rfl rfl

end LiveChannel

/-! ## What sending does to the groups -/

/-- The sockets of the server are in the groups they think they are in. -/
def Consistent (s : ConnectServer) : Prop :=
  ∀ name c, s.channels.find name = some c → c.alive = true →
    ∀ g ∈ c.conversationGroups, name ∈ s.layer.members g

/-- The sockets are the same, and who joins a group was told of it: `A` is what
may be told of. -/
structure Grown (A : Text → ℕ → Prop) (s s' : ConnectServer) : Prop where
  store : s'.store = s.store
  keeps : ∀ name c, s.channels.find name = some c →
    ∃ c', s'.channels.find name = some c' ∧ c'.channel = c.channel ∧ c'.alive = c.alive
  back : ∀ name c', s'.channels.find name = some c' →
    ∃ c, s.channels.find name = some c ∧ c'.channel = c.channel ∧ c'.alive = c.alive
  mono : ∀ g name, name ∈ s.layer.members g → name ∈ s'.layer.members g
  only : ∀ g name, name ∈ s'.layer.members g → name ∈ s.layer.members g ∨
    ∃ t c, g = chatGroup t ∧ s.channels.find name = some c ∧ c.alive = true ∧ A t c.user.id
  consistent : Consistent s → Consistent s'

theorem Grown.refl (A : Text → ℕ → Prop) (s : ConnectServer) : Grown A s s where
  store := rfl
  keeps _ c h := ⟨c, h, rfl, rfl⟩
  back _ c h := ⟨c, h, rfl, rfl⟩
  mono _ _ h := h
  only _ _ h := Or.inl h
  consistent h := h

theorem Grown.trans {s₁ s₂ s₃ : ConnectServer} (h : Grown A s₁ s₂) (h' : Grown A s₂ s₃) :
    Grown A s₁ s₃ where
  store := h'.store.trans h.store
  keeps name c hc := by
    obtain ⟨c₂, hc₂, hchannel, halive⟩ := h.keeps name c hc
    obtain ⟨c₃, hc₃, hchannel', halive'⟩ := h'.keeps name c₂ hc₂
    exact ⟨c₃, hc₃, hchannel'.trans hchannel, halive'.trans halive⟩
  back name c hc := by
    obtain ⟨c₂, hc₂, hchannel, halive⟩ := h'.back name c hc
    obtain ⟨c₁, hc₁, hchannel', halive'⟩ := h.back name c₂ hc₂
    exact ⟨c₁, hc₁, hchannel.trans hchannel', halive.trans halive'⟩
  mono g name hmem := h'.mono g name (h.mono g name hmem)
  only g name hmem := by
    rcases h'.only g name hmem with hmem | ⟨t, c₂, hg, hc₂, halive, hA⟩
    · exact h.only g name hmem
    · obtain ⟨c₁, hc₁, hchannel, halive'⟩ := h.back name c₂ hc₂
      refine Or.inr ⟨t, c₁, hg, hc₁, halive' ▸ halive, ?_⟩
      rw [LiveChannel.user, ← hchannel]
      exact hA
  consistent hs := h'.consistent (h.consistent hs)

/-- The event tells of what `A` allows. -/
def Tells (A : Text → ℕ → Prop) (event : LayerEvent) : Prop :=
  ∀ conversation participants, event = .sent (.conversationCreated conversation participants) →
    ∀ u ∈ participants.map Participant.userId, A conversation.id.val u

theorem mem_joins {layer : ChannelLayer} {name' : Text} {r : Option Text} :
    name' ∈ (ConnectServer.joins layer name r).members group ↔
      name' ∈ layer.members group ∨ r = some group ∧ name' = name := by
  cases r with
  | none => simp [ConnectServer.joins]
  | some g =>
      rw [ConnectServer.joins, ChannelLayer.groupAdd, TwoWay.mem_members_add, Option.some.injEq,
        @eq_comm _ g]

theorem grown_deliver (h : Tells A event) (s : ConnectServer) (name : Text) :
    Grown A s (s.deliver event name) := by
  rw [ConnectServer.deliver]
  cases hfind : s.channels.find name with
  | none => exact Grown.refl A s
  | some c =>
      have hheard := c.heard_onEvent event
      have hchannels : ∀ n, (s.channels.set name (c.onEvent event).1).find n =
          if n = name then some (c.onEvent event).1 else s.channels.find n := Map.find_set _ _ _
      refine ⟨rfl, ?_, ?_, ?_, ?_, ?_⟩
      · intro n c' hc'
        dsimp only
        rw [hchannels]
        split_ifs with hn
        · rw [hn, hfind] at hc'
          cases hc'
          exact ⟨_, rfl, hheard.channel, hheard.alive⟩
        · exact ⟨c', hc', rfl, rfl⟩
      · intro n c' hc'
        dsimp only at hc'
        rw [hchannels] at hc'
        split_ifs at hc' with hn
        · cases hc'
          exact ⟨c, by rw [hn, hfind], hheard.channel, hheard.alive⟩
        · exact ⟨c', hc', rfl, rfl⟩
      · intro g n hmem
        exact mem_joins.mpr (Or.inl hmem)
      · intro g n hmem
        rcases mem_joins.mp hmem with hmem | ⟨hjoins, rfl⟩
        · exact Or.inl hmem
        · obtain ⟨halive, conversation, participants, hevent, rfl, hin⟩ := hheard.joins g hjoins
          exact Or.inr ⟨_, c, rfl, hfind, halive, h _ _ hevent _ hin⟩
      · intro hs n c' hc' halive g hg
        dsimp only at hc'
        rw [hchannels] at hc'
        refine mem_joins.mpr ?_
        split_ifs at hc' with hn
        · cases hc'
          rcases hheard.groups g hg with hg | hjoins
          · exact Or.inl (hn ▸ hs name c hfind (hheard.alive ▸ halive) g hg)
          · exact Or.inr ⟨hjoins, hn⟩
        · exact Or.inl (hs n c' hc' halive g hg)

theorem grown_foldl {ι : Type} {f : ConnectServer → ι → ConnectServer} {l : List ι}
    (h : ∀ s, ∀ x ∈ l, Grown A s (f s x)) (s : ConnectServer) : Grown A s (l.foldl f s) := by
  induction l generalizing s with
  | nil => exact Grown.refl A s
  | cons x l ih =>
      exact (h s x List.mem_cons_self).trans
        (ih (fun s y hy => h s y (List.mem_cons_of_mem x hy)) (f s x))

theorem grown_groupSend (h : Tells A event) (s : ConnectServer) (group : Text) :
    Grown A s (s.groupSend group event) :=
  grown_foldl (fun s name _ => grown_deliver h s name) s

theorem grown_broadcast {sends : List GroupSend} (h : ∀ x ∈ sends, Tells A (.sent x.event))
    (s : ConnectServer) : Grown A s (s.broadcast sends) :=
  grown_foldl (fun s x hx => grown_groupSend (h x hx) s x.group) s

theorem grown_setChannel {f : LiveChannel → LiveChannel}
    (hf : ∀ c, (f c).channel = c.channel ∧ (f c).alive = c.alive ∧
      (f c).conversationGroups = c.conversationGroups) (A : Text → ℕ → Prop) (s : ConnectServer)
    (name : Text) : Grown A s (s.setChannel name f) := by
  rw [ConnectServer.setChannel]
  cases hfind : s.channels.find name with
  | none => exact Grown.refl A s
  | some c =>
      refine ⟨rfl, ?_, ?_, fun _ _ h => h, fun _ _ h => Or.inl h, ?_⟩
      · intro n c' hc'
        dsimp only
        rw [Map.find_set]
        split_ifs with hn
        · rw [hn, hfind] at hc'
          cases hc'
          exact ⟨_, rfl, (hf c).1, (hf c).2.1⟩
        · exact ⟨c', hc', rfl, rfl⟩
      · intro n c' hc'
        dsimp only at hc'
        rw [Map.find_set] at hc'
        split_ifs at hc' with hn
        · cases hc'
          exact ⟨c, by rw [hn, hfind], (hf c).1, (hf c).2.1⟩
        · exact ⟨c', hc', rfl, rfl⟩
      · intro hs n c' hc' halive g hg
        dsimp only at hc'
        rw [Map.find_set] at hc'
        split_ifs at hc' with hn
        · cases hc'
          rw [(hf c).2.2] at hg
          exact hn ▸ hs name c hfind ((hf c).2.1 ▸ halive) g hg
        · exact hs n c' hc' halive g hg

/-- Whoever is told of a conversation of theirs is in its group then. -/
theorem deliver_joins {conversation : Conversation} {participants : List Participant}
    (hs : Consistent s) (hfind : s.channels.find name = some c) (halive : c.alive = true)
    (hin : c.user.id ∈ participants.map Participant.userId) :
    name ∈ (s.deliver (.sent (.conversationCreated conversation participants)) name).layer.members
      (chatGroup conversation.id.val) := by
  have hheard : (c.onEvent (.sent (.conversationCreated conversation participants))) =
      c.onConversationCreated conversation participants := by
    unfold LiveChannel.onEvent
    rw [if_neg (by rw [halive]; exact Bool.noConfusion)]
  rw [ConnectServer.deliver, hfind]
  dsimp only
  rw [mem_joins, hheard, LiveChannel.onConversationCreated, if_pos hin]
  dsimp only
  split_ifs with hhas
  · exact Or.inl (hs name c hfind halive _ hhas)
  · exact Or.inr ⟨rfl, rfl⟩

/-- All sockets in the inbox hear of it. -/
theorem groupSend_joins {conversation : Conversation} {participants : List Participant}
    (hs : Consistent s) (hfind : s.channels.find name = some c) (halive : c.alive = true)
    (hin : c.user.id ∈ participants.map Participant.userId) (hmem : name ∈ s.layer.members group) :
    name ∈ (s.groupSend group (.sent (.conversationCreated conversation participants))).layer.members
      (chatGroup conversation.id.val) := by
  have htells : Tells (fun _ _ => True) (.sent (.conversationCreated conversation participants)) :=
    fun _ _ _ _ _ => trivial
  rw [ConnectServer.groupSend]
  generalize s.layer.members group = names at hmem
  induction names generalizing s c with
  | nil => cases hmem
  | cons n names ih =>
      rw [List.foldl_cons]
      have hgrown := grown_deliver htells s n
      by_cases hn : name = n
      · subst hn
        exact (grown_foldl (fun s n _ => grown_deliver htells s n) _).mono _ _
          (deliver_joins hs hfind halive hin)
      · obtain ⟨c', hc', hchannel, halive'⟩ := hgrown.keeps name c hfind
        refine ih (hgrown.consistent hs) hc' (halive'.trans halive) ?_
          (List.mem_of_ne_of_mem hn hmem)
        rw [LiveChannel.user, hchannel]
        exact hin

theorem broadcast_joins {conversation : Conversation} {participants : List Participant}
    {groups : List Text} (hs : Consistent s) (hfind : s.channels.find name = some c)
    (halive : c.alive = true) (hin : c.user.id ∈ participants.map Participant.userId)
    (hgroup : group ∈ groups) (hmem : name ∈ s.layer.members group) :
    name ∈ (s.broadcast (groups.map fun g =>
      ⟨g, .conversationCreated conversation participants⟩)).layer.members
        (chatGroup conversation.id.val) := by
  have htells : Tells (fun _ _ => True) (.sent (.conversationCreated conversation participants)) :=
    fun _ _ _ _ _ => trivial
  rw [ConnectServer.broadcast, List.foldl_map]
  dsimp only
  induction groups generalizing s c with
  | nil => cases hgroup
  | cons g groups ih =>
      rw [List.foldl_cons]
      have hgrown := grown_groupSend htells s g
      by_cases hg : group = g
      · subst hg
        exact (grown_foldl (fun s g _ => grown_groupSend htells s g) _).mono _ _
          (groupSend_joins hs hfind halive hin hmem)
      · obtain ⟨c', hc', hchannel, halive'⟩ := hgrown.keeps name c hfind
        refine ih (hgrown.consistent hs) hc' (halive'.trans halive) ?_
          (List.mem_of_ne_of_mem hg hgroup) (hgrown.mono _ _ hmem)
        rw [LiveChannel.user, hchannel]
        exact hin

/-! ## Making conversations -/

/-- One conversation more, and its participants. -/
structure Opened (store store' : Store) (conv : Conversation) : Prop where
  users : store'.users = store.users
  messages : store'.messages = store.messages
  conversations : store'.conversations.rows = store.conversations.rows ++ [conv]
  participants : ∃ new, store'.participants.rows = store.participants.rows ++ new ∧
    ∀ p ∈ new, p.conversationId = conv.id ∧ p.hasLeft = false
  empty : conv.messageCount = 0

theorem insertAll_rows {κ ρ ι : Type} [DecidableEq κ] {key : ρ → κ} {f : ι → ρ} {l : List ι}
    {t t' : Table κ ρ key} (h : l.foldlM (fun t x => t.insert (f x)) t = some t') :
    t'.rows = t.rows ++ l.map f := by
  induction l generalizing t with
  | nil =>
      cases h
      exact (List.append_nil _).symm
  | cons x l ih =>
      rw [List.foldlM_cons, Option.bind_eq_bind, Option.bind_eq_some_iff] at h
      obtain ⟨t₁, hinsert, hrest⟩ := h
      rw [ih hrest, (Table.insert_eq_some hinsert).2, List.append_assoc]
      rfl

theorem findOrCreateDirect_cases {stamp : Stamp} {a b : ℕ} {o : DirectOpts} {conv : Conversation}
    (h : store.findOrCreateDirectConversation stamp a b o = .ok (conv, store')) :
    store' = store ∨ Opened store store' conv := by
  rw [Store.findOrCreateDirectConversation] at h
  split at h
  · cases h
    exact Or.inl rfl
  · dsimp only at h
    split at h
    · cases h
    · next conversations hconv =>
        split at h
        · cases h
        · next participants hpart =>
            cases h
            obtain ⟨t, hfirst, hsecond⟩ := Option.bind_eq_some_iff.mp hpart
            have hrows := (Table.insert_eq_some hsecond).2
            rw [(Table.insert_eq_some hfirst).2, List.append_assoc] at hrows
            refine Or.inr ⟨rfl, rfl, (Table.insert_eq_some hconv).2, ⟨_, hrows, ?_⟩, rfl⟩
            intro p hp
            rcases List.mem_append.mp hp with hp | hp
            · rw [List.mem_singleton.mp hp]
              exact ⟨rfl, rfl⟩
            · rw [List.mem_singleton.mp hp]
              exact ⟨rfl, rfl⟩

theorem createGroup_opened {stamp : Stamp} {title : Text} {creatorId : ℕ} {ids : List ℕ}
    {o : DirectOpts} {conv : Conversation}
    (h : store.createGroupConversation stamp title creatorId ids o = .ok (conv, store')) :
    Opened store store' conv := by
  rw [Store.createGroupConversation] at h
  split at h
  · cases h
  · next conversations hconv =>
      split at h
      · cases h
      · next participants hpart =>
          cases h
          refine ⟨rfl, rfl, (Table.insert_eq_some hconv).2, ⟨_, insertAll_rows hpart, ?_⟩, rfl⟩
          intro p hp
          obtain ⟨uid, -, rfl⟩ := List.mem_map.mp hp
          exact ⟨rfl, rfl⟩

theorem Opened.intact {conv : Conversation} (h : Opened store store' conv) (hs : store.Intact) :
    store'.Intact := by
  obtain ⟨new, hrows, hnew⟩ := h.participants
  constructor
  · intro p hp
    rw [hrows] at hp
    rcases List.mem_append.mp hp with hp | hp
    · exact hs.stayed p hp
    · exact (hnew p hp).2
  · intro p hp
    rw [hrows] at hp
    rw [h.conversations, List.map_append]
    rcases List.mem_append.mp hp with hp | hp
    · exact List.mem_append_left _ (hs.home p hp)
    · rw [(hnew p hp).1]
      exact List.mem_append_right _ List.mem_cons_self

/-- Who takes part afterwards: who did, and the participants of the new one. -/
theorem Opened.isParticipant {conv : Conversation} (h : Opened store store' conv)
    (hs : store.Intact) {t : Text} {u : ℕ} :
    store'.isParticipant t u = true ↔ store.isParticipant t u = true ∨
      t = conv.id.val ∧ u ∈ (store'.listParticipants conv.id).map Participant.userId := by
  obtain ⟨new, hrows, hnew⟩ := h.participants
  rw [isParticipant_iff, isParticipant_iff, Store.listParticipants, hrows]
  constructor
  · rintro ⟨p, hp, rfl, rfl, hleft⟩
    rcases List.mem_append.mp hp with hold | hadded
    · exact Or.inl ⟨p, hold, rfl, rfl, hleft⟩
    · refine Or.inr ⟨by rw [(hnew p hadded).1], List.mem_map_of_mem ?_⟩
      exact List.mem_filter.mpr ⟨hp, decide_eq_true (hnew p hadded).1⟩
  · rintro (⟨p, hp, rfl, rfl, hleft⟩ | ⟨rfl, hu⟩)
    · exact ⟨p, List.mem_append_left _ hp, rfl, rfl, hleft⟩
    · obtain ⟨p, hp, rfl⟩ := List.mem_map.mp hu
      obtain ⟨hp, hid⟩ := List.mem_filter.mp hp
      have hall := (h.intact hs).stayed p (hrows ▸ hp)
      exact ⟨p, hp, by rw [of_decide_eq_true hid], rfl, hall⟩

/-- The same people take part in the same conversations. -/
structure SameParticipants (store store' : Store) : Prop where
  same : ∀ t u, store'.isParticipant t u = store.isParticipant t u
  intact : store.Intact → store'.Intact

theorem SameParticipants.refl (store : Store) : SameParticipants store store :=
  ⟨fun _ _ => rfl, id⟩

theorem sameParticipants_map {f : Participant → Participant}
    (hf : ∀ p, (f p).conversationId = p.conversationId ∧ (f p).userId = p.userId ∧
      (f p).hasLeft = p.hasLeft)
    (hrows : store'.participants.rows = store.participants.rows.map f)
    (hids : store'.conversations.rows.map Conversation.id =
      store.conversations.rows.map Conversation.id) : SameParticipants store store' := by
  constructor
  · intro t u
    rw [Store.isParticipant, Store.isParticipant, hrows, List.any_map]
    refine congrArg store.participants.rows.any (funext fun p => ?_)
    rw [Function.comp_apply, (hf p).1, (hf p).2.1, (hf p).2.2]
  · intro h
    constructor
    · intro p hp
      rw [hrows] at hp
      obtain ⟨q, hq, rfl⟩ := List.mem_map.mp hp
      rw [(hf q).2.2]
      exact h.stayed q hq
    · intro p hp
      rw [hrows] at hp
      obtain ⟨q, hq, rfl⟩ := List.mem_map.mp hp
      rw [hids, (hf q).1]
      exact h.home q hq

theorem createMessage_sameParticipants {stamp : Stamp} {o : MessageOpts} {m : DirectMessage}
    (h : store.createMessage stamp o = .ok (m, store')) : SameParticipants store store' := by
  rcases createMessage_cases store stamp o with ⟨m', -, hfound⟩ | ⟨id, s', hinserted, hmade⟩ |
    ⟨-, e, hfailed⟩
  · cases hfound.symm.trans h
    exact SameParticipants.refl store
  · cases hmade.symm.trans h
    refine sameParticipants_map ?_ hinserted.participants hinserted.ids
    intro p
    split_ifs
    · exact ⟨rfl, rfl, rfl⟩
    · exact ⟨rfl, rfl, rfl⟩
  · cases hfailed.symm.trans h

theorem markAsRead_sameParticipants (store : Store) (now : ℕ) (t : Text) (u : ℕ) (id : Text) :
    SameParticipants store (store.markAsRead now t u id).2 := by
  rw [Store.markAsRead]
  split
  · exact SameParticipants.refl store
  · split
    · exact SameParticipants.refl store
    · refine sameParticipants_map ?_ rfl rfl
      intro p
      split_ifs
      · exact ⟨rfl, rfl, rfl⟩
      · exact ⟨rfl, rfl, rfl⟩

/-! ## The groups of a server -/

structure Joined (s : ConnectServer) : Prop where
  intact : s.store.Intact
  named : ∀ name c, s.channels.find name = some c → c.channel.channelName = name
  live : ∀ g name, name ∈ s.layer.members g → ∃ c, s.channels.find name = some c ∧ c.alive = true
  inbox : ∀ name c, s.channels.find name = some c → c.alive = true →
    name ∈ s.layer.members (userInboxGroup c.user.id)
  chat : ∀ name c, s.channels.find name = some c → c.alive = true → ∀ t,
    (name ∈ s.layer.members (chatGroup t) ↔ s.store.isParticipant t c.user.id = true)
  consistent : Consistent s

/-- The store went on, something was sent, and who came to take part in a
conversation was told of it. -/
theorem Joined.grown {A : Text → ℕ → Prop} (h : Joined s) (hintact : store'.Intact)
    (hold : ∀ t u, s.store.isParticipant t u = true → store'.isParticipant t u = true)
    (hA : ∀ t u, A t u → store'.isParticipant t u = true)
    (hgrown : Grown A { s with store := store' } s')
    (hnew : ∀ name c t, s.channels.find name = some c → c.alive = true →
      store'.isParticipant t c.user.id = true → s.store.isParticipant t c.user.id = true ∨
        name ∈ s'.layer.members (chatGroup t)) : Joined s' := by
  have hstore : s'.store = store' := hgrown.store
  refine ⟨by rw [hstore]; exact hintact, ?_, ?_, ?_, ?_, hgrown.consistent h.consistent⟩
  · intro name c' hc'
    obtain ⟨c, hc, hchannel, -⟩ := hgrown.back name c' hc'
    rw [hchannel]
    exact h.named name c hc
  · intro g name hmem
    rcases hgrown.only g name hmem with hmem | ⟨t, c, -, hc, halive, -⟩
    · obtain ⟨c, hc, halive⟩ := h.live g name hmem
      obtain ⟨c', hc', -, halive'⟩ := hgrown.keeps name c hc
      exact ⟨c', hc', halive'.trans halive⟩
    · obtain ⟨c', hc', -, halive'⟩ := hgrown.keeps name c hc
      exact ⟨c', hc', halive'.trans halive⟩
  · intro name c' hc' halive
    obtain ⟨c, hc, hchannel, halive'⟩ := hgrown.back name c' hc'
    rw [LiveChannel.user, hchannel]
    exact hgrown.mono _ _ (h.inbox name c hc (halive' ▸ halive))
  · intro name c' hc' halive t
    obtain ⟨c, hc, hchannel, halive'⟩ := hgrown.back name c' hc'
    have hlive : c.alive = true := halive' ▸ halive
    rw [LiveChannel.user, hchannel, hstore, ← LiveChannel.user]
    constructor
    · intro hmem
      rcases hgrown.only _ name hmem with hmem | ⟨t', c₁, ht, hc₁, -, htold⟩
      · exact hold t _ ((h.chat name c hc hlive t).mp hmem)
      · cases hc.symm.trans hc₁
        rw [chatGroup_inj ht]
        exact hA t' _ htold
    · intro hpart
      rcases hnew name c t hc hlive hpart with hpart | hmem
      · exact hgrown.mono _ _ ((h.chat name c hc hlive t).mpr hpart)
      · exact hmem

/-- Nobody came to take part in anything. -/
theorem Joined.same {A : Text → ℕ → Prop} (h : Joined s)
    (hsame : SameParticipants s.store store')
    (hA : ∀ t u, A t u → store'.isParticipant t u = true)
    (hgrown : Grown A { s with store := store' } s') : Joined s' := by
  refine h.grown (hsame.intact h.intact) ?_ hA hgrown ?_
  · intro t u hpart
    rw [hsame.same]
    exact hpart
  · intro name c t _ _ hpart
    rw [hsame.same] at hpart
    exact Or.inl hpart

/-- And nobody was told of anything. -/
theorem Joined.quiet (h : Joined s) (hsame : SameParticipants s.store store')
    (hgrown : Grown (fun _ _ => False) { s with store := store' } s') : Joined s' :=
  h.same hsame (fun _ _ hno => hno.elim) hgrown

theorem tells_nothing {e : LayerEvent}
    (h : ∀ conversation participants, e ≠ .sent (.conversationCreated conversation participants)) :
    Tells (fun _ _ => False) e := fun _ _ he => absurd he (h _ _)

theorem broadcastCreated_eq (store : Store) (conv : Conversation) :
    broadcastConversationCreated store conv =
      ((store.listParticipants conv.id).map fun p => userInboxGroup p.userId).map fun g =>
        ⟨g, .conversationCreated conv (store.listParticipants conv.id)⟩ := by
  rw [broadcastConversationCreated, List.map_map]
  rfl

theorem tells_created (hs : store.Intact) (conv : Conversation) :
    ∀ x ∈ broadcastConversationCreated store conv,
      Tells (fun t u => store.isParticipant t u = true) (.sent x.event) := by
  intro x hx
  obtain ⟨p, -, rfl⟩ := List.mem_map.mp hx
  intro conversation participants he u hu
  cases he
  obtain ⟨q, hq, rfl⟩ := List.mem_map.mp hu
  obtain ⟨hq, hid⟩ := List.mem_filter.mp hq
  exact isParticipant_iff.mpr ⟨q, hq, by rw [of_decide_eq_true hid], rfl, hs.stayed q hq⟩

/-- A conversation was made, and all its participants are told. -/
theorem Joined.opened {mid : Store} {conv : Conversation} {rest : List GroupSend} (h : Joined s)
    (hopened : Opened s.store mid conv) (hsame : SameParticipants mid store')
    (hrest : ∀ x ∈ rest, Tells (fun _ _ => False) (.sent x.event)) :
    Joined ({ s with store := store' }.broadcast
      (broadcastConversationCreated mid conv ++ rest)) := by
  have hmid : mid.Intact := hopened.intact h.intact
  have hpart : ∀ t u, store'.isParticipant t u = true ↔ s.store.isParticipant t u = true ∨
      t = conv.id.val ∧ u ∈ (mid.listParticipants conv.id).map Participant.userId := by
    intro t u
    rw [hsame.same]
    exact hopened.isParticipant h.intact
  have htells : ∀ x ∈ broadcastConversationCreated mid conv ++ rest,
      Tells (fun t u => store'.isParticipant t u = true) (.sent x.event) := by
    intro x hx
    rcases List.mem_append.mp hx with hx | hx
    · intro conversation participants he u hu
      rw [hsame.same]
      exact tells_created hmid conv x hx conversation participants he u hu
    · intro conversation participants he u hu
      exact (hrest x hx conversation participants he u hu).elim
  refine h.grown (hsame.intact hmid) (fun t u hold => (hpart t u).mpr (Or.inl hold))
    (fun _ _ hp => hp) (grown_broadcast htells _) ?_
  intro name c t hc halive hp
  rcases (hpart t c.user.id).mp hp with hold | ⟨rfl, hin⟩
  · exact Or.inl hold
  · right
    rw [ConnectServer.broadcast, List.foldl_append, ← ConnectServer.broadcast,
      ← ConnectServer.broadcast, broadcastCreated_eq]
    have hafter : ∀ x ∈ rest, Tells (fun _ _ => True) (.sent x.event) :=
      fun x _ _ _ _ _ _ => trivial
    refine (grown_broadcast hafter _).mono _ _ ?_
    obtain ⟨p, hp, hu⟩ := List.mem_map.mp hin
    refine broadcast_joins (s := { s with store := store' }) h.consistent hc halive hin
      (List.mem_map_of_mem hp) ?_
    rw [hu]
    exact h.inbox name c hc halive

/-! ## One step -/

theorem members_joinGroups {layer : ChannelLayer} (groups : List Text) {n : Text} :
    n ∈ (groups.foldl (fun layer g => ChannelLayer.groupAdd layer g name) layer).members group ↔
      n ∈ layer.members group ∨ group ∈ groups ∧ n = name := by
  induction groups generalizing layer with
  | nil => simp
  | cons g groups ih =>
      rw [List.foldl_cons, ih, ChannelLayer.groupAdd, TwoWay.mem_members_add, List.mem_cons]
      tauto

theorem mem_addGroups (groups l : List Text) {g : Text} :
    g ∈ groups.foldl (fun l g => if g ∈ l then l else l ++ [g]) l ↔ g ∈ l ∨ g ∈ groups := by
  induction groups generalizing l with
  | nil => simp
  | cons g' groups ih =>
      rw [List.foldl_cons, ih, List.mem_cons]
      split_ifs with hin
      · constructor
        · tauto
        · rintro (h | rfl | h)
          · exact Or.inl h
          · exact Or.inl hin
          · exact Or.inr h
      · rw [List.mem_append, List.mem_singleton]
        tauto

/-- A socket that joins what it should be in, and that was in nothing else. -/
theorem Joined.joins (h : Joined s) {e : LiveChannel} {extra : List Text}
    (hstore : s'.store = s.store)
    (hfind : ∀ n, s'.channels.find n = if n = name then some e else s.channels.find n)
    (hmembers : ∀ g n, n ∈ s'.layer.members g ↔ n ∈ s.layer.members g ∨
      g ∈ ConnectServer.groupsToJoin s.store e.user.id ++ extra ∧ n = name)
    (hname : e.channel.channelName = name) (halive : e.alive = true)
    (hextra : ∀ g ∈ extra, ∀ t, g ≠ chatGroup t)
    (hinbox : userInboxGroup e.user.id ∈ extra ∨
      name ∈ s.layer.members (userInboxGroup e.user.id))
    (honly : ∀ t, name ∈ s.layer.members (chatGroup t) →
      s.store.isParticipant t e.user.id = true)
    (hgroups : ∀ g ∈ e.conversationGroups,
      g ∈ ConnectServer.groupsToJoin s.store e.user.id ∨ name ∈ s.layer.members g) :
    Joined s' := by
  refine ⟨by rw [hstore]; exact h.intact, ?_, ?_, ?_, ?_, ?_⟩
  · intro n d hd
    rw [hfind] at hd
    split_ifs at hd with hn
    · cases hd
      rw [hn, hname]
    · exact h.named n d hd
  · intro g n hmem
    rw [hmembers] at hmem
    rw [hfind]
    split_ifs with hn
    · exact ⟨e, rfl, halive⟩
    · rcases hmem with hmem | ⟨-, rfl⟩
      · exact h.live g n hmem
      · exact absurd rfl hn
  · intro n d hd hlive
    rw [hfind] at hd
    rw [hmembers]
    split_ifs at hd with hn
    · cases hd
      rcases hinbox with hinbox | hinbox
      · exact Or.inr ⟨List.mem_append_right _ hinbox, hn⟩
      · exact Or.inl (hn ▸ hinbox)
    · exact Or.inl (h.inbox n d hd hlive)
  · intro n d hd hlive t
    rw [hfind] at hd
    rw [hmembers, hstore]
    split_ifs at hd with hn
    · cases hd
      subst hn
      rw [List.mem_append, mem_groupsToJoin h.intact]
      constructor
      · rintro (hmem | ⟨⟨t', ht, hpart⟩ | hin, -⟩)
        · exact honly t hmem
        · rw [chatGroup_inj ht]
          exact hpart
        · exact absurd rfl (hextra _ hin t)
      · intro hpart
        exact Or.inr ⟨Or.inl ⟨t, rfl, hpart⟩, rfl⟩
    · rw [← h.chat n d hd hlive t]
      constructor
      · rintro (hmem | ⟨-, hthis⟩)
        · exact hmem
        · exact absurd hthis hn
      · exact Or.inl
  · intro n d hd hlive g hg
    rw [hfind] at hd
    rw [hmembers]
    split_ifs at hd with hn
    · cases hd
      rcases hgroups g hg with hg | hg
      · exact Or.inr ⟨List.mem_append_left _ hg, hn⟩
      · exact Or.inl (hn ▸ hg)
    · exact Or.inl (h.consistent n d hd hlive g hg)

theorem Joined.start (h : Joined s) {channel : ConnectChannel}
    (hfresh : s.channels.find channel.channelName = none) : Joined (s.start channel) := by
  have hset : ∀ (m : Map Text LiveChannel) (k : Text) (v : LiveChannel) (n : Text),
      (m.set k v).find n = if n = k then some v else m.find n := Map.find_set
  have hnone : ∀ g, channel.channelName ∉ s.layer.members g := by
    intro g hmem
    obtain ⟨c, hc, -⟩ := h.live g _ hmem
    cases hfresh.symm.trans hc
  rw [ConnectServer.start, ConnectServer.joinAllGroups]
  dsimp only
  rw [hset, if_pos rfl]
  dsimp only
  have hextra : ∀ g ∈ [userInboxGroup channel.user.id], ∀ t, g ≠ chatGroup t := by
    intro g hg t
    rw [List.mem_singleton.mp hg]
    exact userInboxGroup_ne_chatGroup _ t
  refine h.joins (e := ⟨channel, (ConnectServer.groupsToJoin s.store channel.user.id).foldl
    (fun l g => if g ∈ l then l else l ++ [g]) [], true, true, []⟩) rfl ?_ ?_ rfl rfl hextra
    (Or.inl List.mem_cons_self) ?_ ?_
  · intro n
    dsimp only
    rw [hset, hset]
    split_ifs <;> rfl
  · intro g n
    dsimp only
    rw [ChannelLayer.groupAdd, TwoWay.mem_members_add, members_joinGroups, List.mem_append,
      List.mem_singleton]
    show (_ ∨ g ∈ ConnectServer.groupsToJoin s.store channel.user.id ∧ _) ∨ _ ↔ _ ∨
      (g ∈ ConnectServer.groupsToJoin s.store channel.user.id ∨ _) ∧ _
    tauto
  · exact fun t hmem => absurd hmem (hnone _)
  · intro g hg
    rw [mem_addGroups] at hg
    exact Or.inl (hg.resolve_left List.not_mem_nil)

theorem Joined.refresh (h : Joined s) (name : Text) : Joined (s.refresh name) := by
  rw [ConnectServer.refresh]
  cases hc : s.channels.find name with
  | none => exact h
  | some c =>
      dsimp only
      split_ifs with halive
      · rw [ConnectServer.joinAllGroups, hc]
        have hextra : ∀ g ∈ ([] : List Text), ∀ t, g ≠ chatGroup t :=
          fun g hg => absurd hg List.not_mem_nil
        refine h.joins rfl (fun n => Map.find_set _ _ _ n) ?_ (h.named name c hc)
          halive hextra (Or.inr (h.inbox name c hc halive)) ?_ ?_
        · intro g n
          rw [members_joinGroups, List.append_nil]
          exact Iff.rfl
        · intro t hmem
          exact (h.chat name c hc halive t).mp hmem
        · intro g hg
          rcases (mem_addGroups _ _).mp hg with hg | hg
          · exact Or.inr (h.consistent name c hc halive g hg)
          · exact Or.inl hg
      · exact h

theorem Joined.onClose (h : Joined s) (name : Text) : Joined (s.onClose name) := by
  rw [ConnectServer.onClose]
  cases hc : s.channels.find name with
  | none => exact h
  | some c =>
      dsimp only
      split_ifs with halive
      · have hother : ∀ n d, (s.channels.set name { c with alive := false, isOpen := false }).find n =
            some d → d.alive = true → n ≠ name ∧ s.channels.find n = some d := by
          intro n d hd hlive
          rw [Map.find_set] at hd
          split_ifs at hd with hn
          · cases hd
            cases hlive
          · exact ⟨hn, hd⟩
        refine ⟨h.intact, ?_, ?_, ?_, ?_, ?_⟩
        · intro n d hd
          dsimp only at hd
          rw [Map.find_set] at hd
          split_ifs at hd with hn
          · cases hd
            rw [hn]
            exact h.named name c hc
          · exact h.named n d hd
        · intro g n hmem
          obtain ⟨hmem, hn⟩ := TwoWay.mem_members_remove.mp hmem
          obtain ⟨d, hd, hlive⟩ := h.live g n hmem
          refine ⟨d, ?_, hlive⟩
          dsimp only
          rw [Map.find_set, if_neg hn]
          exact hd
        · intro n d hd hlive
          obtain ⟨hn, hd⟩ := hother n d hd hlive
          exact TwoWay.mem_members_remove.mpr ⟨h.inbox n d hd hlive, hn⟩
        · intro n d hd hlive t
          obtain ⟨hn, hd⟩ := hother n d hd hlive
          rw [← h.chat n d hd hlive t]
          exact TwoWay.mem_members_remove.trans (and_iff_left hn)
        · intro n d hd hlive g hg
          obtain ⟨hn, hd⟩ := hother n d hd hlive
          exact TwoWay.mem_members_remove.mpr ⟨h.consistent n d hd hlive g hg, hn⟩
      · exact h

/-- A request that makes no conversation. -/
structure Plain {ρ : Type} (store : Store) (o : Outcome ρ) : Prop where
  same : SameParticipants store o.store
  tells : ∀ x ∈ o.sent, Tells (fun _ _ => False) (.sent x.event)

theorem Plain.nothing {ρ : Type} (store : Store) (reply : ρ) (msg : Option DirectMessage) :
    Plain store ⟨store, [], reply, msg⟩ :=
  ⟨SameParticipants.refl store, fun _ hx => absurd hx List.not_mem_nil⟩

theorem sendPersisted_plain (store : Store) (stamp : Stamp) (channelName : Text)
    (o : MessageOpts) : Plain store (sendPersisted store stamp channelName o) := by
  rw [sendPersisted]
  split
  · exact Plain.nothing store _ _
  · next msg s' hmade =>
      refine ⟨createMessage_sameParticipants hmade, fun x hx => ?_⟩
      rw [List.mem_singleton.mp hx]
      exact tells_nothing fun _ _ he => by cases he

theorem handleSendMessage_plain (c : ConnectChannel) (store : Store) (stamp : Stamp)
    (data : SendFrame) : Plain store (c.handleSendMessage store stamp data) := by
  rw [ConnectChannel.handleSendMessage]
  split
  · exact Plain.nothing store _ _
  · exact sendPersisted_plain store stamp _ _

theorem handleStreamEvent_plain (c : ConnectChannel) (store : Store) (stamp : Stamp)
    (data : StreamFrame) : Plain store (c.handleStreamEvent store stamp data) := by
  rw [ConnectChannel.handleStreamEvent]
  split_ifs
  · exact Plain.nothing store _ _
  · split
    · exact Plain.nothing store _ _
    · exact sendPersisted_plain store stamp _ _
  · refine ⟨SameParticipants.refl store, fun x hx => ?_⟩
    rw [List.mem_singleton.mp hx]
    exact tells_nothing fun _ _ he => by cases he

theorem grown_answer {o : Outcome SocketReply} (h : Plain s.store o) (name : Text) :
    Grown (fun _ _ => False) { s with store := o.store } (s.answer name o) := by
  rw [ConnectServer.answer]
  split
  · exact (grown_setChannel (fun c => ⟨c.send_channel _, c.send_alive _, c.send_groups _⟩) _ _
      name).trans (grown_broadcast h.tells _)
  · exact grown_broadcast h.tells _

theorem Joined.answer (h : Joined s) {o : Outcome SocketReply} (hplain : Plain s.store o)
    (name : Text) : Joined (s.answer name o) :=
  h.quiet hplain.same (grown_answer hplain name)

theorem dmPersist_spec (store : Store) (stamp : Stamp) (dm : Dm) (conv : Conversation) :
    SameParticipants store (dmPersist store stamp dm conv).store ∧
      ∃ rest, (dmPersist store stamp dm conv).sent =
          (if conv.messageCount = 0 then broadcastConversationCreated store conv else []) ++ rest ∧
        ∀ x ∈ rest, Tells (fun _ _ => False) (.sent x.event) := by
  rw [dmPersist]
  split
  · exact ⟨SameParticipants.refl store, [], (List.append_nil _).symm,
      fun _ hx => absurd hx List.not_mem_nil⟩
  · split
    · exact ⟨SameParticipants.refl store, [], (List.append_nil _).symm,
        fun _ hx => absurd hx List.not_mem_nil⟩
    · next msg s' hmade =>
        refine ⟨createMessage_sameParticipants hmade, _, rfl, fun x hx => ?_⟩
        rw [List.mem_singleton.mp hx]
        exact tells_nothing fun _ _ he => by cases he

/-- A conversation was looked up or made, and told of as the caller says. -/
theorem Joined.conversation {mid : Store} {conv : Conversation} {told rest : List GroupSend}
    (h : Joined s) (hmid : mid = s.store ∨ Opened s.store mid conv)
    (htold : told = broadcastConversationCreated mid conv ∨ told = [] ∧ conv.messageCount ≠ 0)
    (hsame : SameParticipants mid store')
    (hrest : ∀ x ∈ rest, Tells (fun _ _ => False) (.sent x.event)) :
    Joined ({ s with store := store' }.broadcast (told ++ rest)) := by
  rcases hmid with rfl | hopened
  · refine h.same hsame (A := fun t u => store'.isParticipant t u = true) (fun _ _ hp => hp)
      (grown_broadcast (fun x hx => ?_) _)
    rcases List.mem_append.mp hx with hx | hx
    · rcases htold with rfl | ⟨rfl, -⟩
      · intro conversation participants he u hu
        rw [hsame.same]
        exact tells_created h.intact conv x hx conversation participants he u hu
      · cases hx
    · intro conversation participants he u hu
      exact (hrest x hx conversation participants he u hu).elim
  · rcases htold with rfl | ⟨-, hne⟩
    · exact h.opened hopened hsame hrest
    · exact absurd hopened.empty hne

theorem Joined.postDm (lower : Text → Text) (h : Joined s) (stamp : Stamp) (userId : Option ℕ)
    (body : DmBody) : Joined ({ s with
      store := (ConnectStore.postDm lower s.store stamp userId body).store }.broadcast
        (ConnectStore.postDm lower s.store stamp userId body).sent) := by
  rw [ConnectStore.postDm]
  split
  · exact h
  · next dm hdm =>
      split
      · exact h
      · next conv mid hconv =>
          obtain ⟨hsame, rest, hsent, hrest⟩ := dmPersist_spec mid stamp dm conv
          rw [hsent]
          refine h.conversation (findOrCreateDirect_cases hconv) ?_ hsame hrest
          split_ifs with hcount
          · exact Or.inl rfl
          · exact Or.inr ⟨rfl, hcount⟩

theorem Joined.postConversation (h : Joined s) (stamp : Stamp) (userId : Option ℕ)
    (body : ConversationBody) : Joined ({ s with
      store := (ConnectStore.postConversation s.store stamp userId body).store }.broadcast
        (ConnectStore.postConversation s.store stamp userId body).sent) := by
  have hcreated : ∀ mid conv, mid = s.store ∨ Opened s.store mid conv →
      Joined ({ s with store := mid }.broadcast (broadcastConversationCreated mid conv)) := by
    intro mid conv hmid
    have hjoined := h.conversation hmid (Or.inl rfl) (SameParticipants.refl mid)
      fun _ hx => absurd hx List.not_mem_nil
    rw [List.append_nil] at hjoined
    exact hjoined
  rw [ConnectStore.postConversation]
  split
  · exact h
  · dsimp only
    split_ifs
    · split
      · split
        · exact h
        · next conv mid hconv => exact hcreated mid conv (findOrCreateDirect_cases hconv)
      · exact h
    · split
      · exact h
      · split
        · exact h
        · next conv mid hconv => exact hcreated mid conv (Or.inr (createGroup_opened hconv))

/-- A new socket has a name of its own. -/
def OpensFresh (s : ConnectServer) : ConnectOp → Prop
  | .opened channel => s.channels.find channel.channelName = none
  | _ => True

theorem Joined.fromSocket {f : LiveChannel → ConnectServer} (h : Joined s)
    (hf : ∀ c, s.channels.find name = some c → Joined (f c)) : Joined (s.fromSocket name f) := by
  rw [ConnectServer.fromSocket]
  split
  · exact h
  · next c hc => exact hf c hc

theorem joined_step (lower : Text → Text) {op : ConnectOp} (h : Joined s)
    (hfresh : OpensFresh s op) : Joined (s.step lower op) := by
  cases op with
  | opened channel => exact h.start hfresh
  | refresh name => exact h.refresh name
  | sendMessage name stamp data =>
      exact h.fromSocket fun c _ => h.answer (handleSendMessage_plain _ _ _ _) name
  | streamEvent name stamp data =>
      exact h.fromSocket fun c _ => h.answer (handleStreamEvent_plain _ _ _ _) name
  | typing name conversationId isTyping =>
      refine h.fromSocket fun c _ => ?_
      rw [ConnectServer.onTyping]
      split_ifs
      · exact h
      · exact h.quiet (SameParticipants.refl _)
          (grown_groupSend (tells_nothing fun _ _ he => by cases he) s _)
  | messageRead name now conversationId messageId =>
      refine h.fromSocket fun c _ => ?_
      rw [ConnectServer.onMessageRead]
      dsimp only
      split_ifs
      · exact h
      · exact h.quiet (markAsRead_sameParticipants _ _ _ _ _)
          (grown_foldl (fun s _ _ =>
            grown_groupSend (tells_nothing fun _ _ he => by cases he) s _) _)
  | postDm stamp userId body => exact h.postDm lower stamp userId body
  | postConversation stamp userId body => exact h.postConversation stamp userId body
  | closing name =>
      have hgrown : Grown (fun _ _ => False) s
          (s.setChannel name fun c => { c with isOpen := false }) := by
        refine grown_setChannel ?_ _ s name
        exact fun _ => ⟨rfl, rfl, rfl⟩
      exact h.quiet (SameParticipants.refl _) hgrown
  | closed name => exact h.onClose name
  | users users =>
      have hsame : SameParticipants s.store { s.store with users := users } :=
        ⟨fun _ _ => rfl, fun hs => ⟨hs.stayed, hs.home⟩⟩
      exact h.quiet hsame (Grown.refl _ _)

/-- Nobody is connected yet. -/
def ConnectServer.init (store : Store) : ConnectServer := ⟨store, TwoWay.empty, Table.empty⟩

theorem joined_init (hintact : store.Intact) : Joined (ConnectServer.init store) where
  intact := hintact
  named name c hc := by cases hc
  live g name hmem := by cases hmem
  inbox name c hc := by cases hc
  chat name c hc := by cases hc
  consistent name c hc := by cases hc

/-- In every reachable state the members of the groups are live sockets, and a
live socket is in the group of a conversation exactly when its user takes part. -/
theorem sockets_in_their_groups (lower : Text → Text) (store : Store) (ops : List ConnectOp)
    (hintact : store.Intact)
    (hfresh : Along (ConnectServer.step lower) OpensFresh (.init store) ops) :
    let s := Machine.run (ConnectServer.step lower) (.init store) ops
    (∀ group name, name ∈ s.layer.members group →
      ∃ c, s.channels.find name = some c ∧ c.alive = true) ∧
    ∀ name c, s.channels.find name = some c → c.alive = true → ∀ t,
      (name ∈ s.layer.members (chatGroup t) ↔ s.store.isParticipant t c.user.id = true) := by
  have hstep : ∀ s op, Joined s → OpensFresh s op → Joined (s.step lower op) :=
    fun _ _ h hop => joined_step lower h hop
  have hjoined := Machine.run_invariant hstep (joined_init hintact) hfresh
  exact ⟨hjoined.live, hjoined.chat⟩

/-! Ada writes to an agent that is connected, then somebody else connects, and
Ada writes again. -/

theorem room_ascii : ∀ u ∈ js "room", u < 128 := ascii_of_all rfl

theorem opening_ascii : ∀ u ∈ js "m1", u < 128 := ascii_of_all rfl

theorem reminder_ascii : ∀ u ∈ js "m2", u < 128 := ascii_of_all rfl

def roomId : Uuid := ⟨js "room", room_ascii⟩

def ada : User := ⟨1, js "ada", none, false, none, none⟩

def cook : User := ⟨2, js "cook", none, true, some (js "a1"), none⟩

def bob : User := ⟨3, js "bob", none, false, none, none⟩

def emptyRoom : Store where
  users := ⟨[ada, cook, bob], by decide⟩
  conversations := .empty
  participants := .empty
  messages := .empty
  clientKeys := clientKeys_empty

theorem emptyRoom_intact : emptyRoom.Intact := by
  constructor
  · intro p hp
    cases hp
  · intro p hp
    cases hp

def roomOps : List ConnectOp :=
  [.opened ⟨js "c1", ada, false⟩, .opened ⟨js "c2", cook, true⟩,
    .postDm ⟨1, roomId, ⟨js "m1", opening_ascii⟩⟩ (some 1)
      ⟨some (js "dinner?"), some (js "cook"), none, none⟩,
    .opened ⟨js "c3", bob, false⟩,
    .sendMessage (js "c1") ⟨2, roomId, ⟨js "m2", reminder_ascii⟩⟩
      ⟨some (js "room"), some (js "hello?"), none⟩]

theorem roomOps_fresh :
    Along (ConnectServer.step id) OpensFresh (.init emptyRoom) roomOps := by
  refine ⟨rfl, ?_, trivial, ?_, trivial, trivial⟩
  · show _ = none
    decide +kernel
  · show _ = none
    decide +kernel

def roomServer : ConnectServer := Machine.run (ConnectServer.step id) (.init emptyRoom) roomOps

theorem sockets_in_their_groups_room :
    roomServer.layer.members (chatGroup (js "room")) = [js "c1", js "c2"] ∧
      ∀ name c, roomServer.channels.find name = some c → c.alive = true →
        (name ∈ roomServer.layer.members (chatGroup (js "room")) ↔
          roomServer.store.isParticipant (js "room") c.user.id = true) :=
  ⟨by decide +kernel, fun name c hc halive =>
    (sockets_in_their_groups id emptyRoom roomOps emptyRoom_intact roomOps_fresh).2 name c hc halive
      (js "room")⟩

end Shizuha.ConnectStore
