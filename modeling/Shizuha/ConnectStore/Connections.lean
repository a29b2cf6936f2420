import Shizuha.ConnectStore.Server
import Shizuha.Machine
import Shizuha.TwoWay

/-!
# The connections of the Connect server

A socket that was opened for a user joins the group of every conversation the
user takes part in, and the user's inbox. What is sent to a group goes to each
member in turn, and each decides what it passes on: not what it sent itself, and
an agent nothing that it said. A new conversation is announced in the inboxes of
its participants, and their sockets join its group on that.

A group is kept from both sides, its members and the groups of a member; a
socket goes by its name, which is unique. The frames a socket was sent stay with
it. Keepalive pings and the replies to them are left out.
-/

namespace Shizuha.ConnectStore

open Js State

/-! ## The channel layer -/

abbrev ChannelLayer := TwoWay Text Text

def ChannelLayer.groupAdd (layer : ChannelLayer) (group channel : Text) : ChannelLayer :=
  TwoWay.add layer group channel

def ChannelLayer.removeChannel (layer : ChannelLayer) (channel : Text) : ChannelLayer :=
  TwoWay.remove layer channel

/-- What is sent to a group, with the two events that no message comes of. -/
inductive LayerEvent where
  | sent (event : ChannelEvent)
  | typingIndicator (conversationId : Text) (userId : ℕ) (isTyping : Bool)
  | messageReadReceipt (conversationId : Text) (userId : ℕ) (messageId : Text)

/-! ## A socket -/

inductive Frame where
  | newMessage (message : DirectMessage)
  | agentStream (conversationId eventType : Text) (agentId : Option Text) (data : Json)
  | typing (conversationId : Text) (userId : ℕ) (isTyping : Bool)
  | messageRead (conversationId : Text) (userId : ℕ) (messageId : Text)
  | conversationCreated (conversation : Conversation) (participants : List Participant)
  | sendError (conversationId : Text) (clientMessageId : Option Text) (error : Text)

structure LiveChannel where
  channel : ConnectChannel
  conversationGroups : List Text
  alive : Bool
  /-- `ws.readyState === WS.OPEN`. -/
  isOpen : Bool
  frames : List Frame

namespace LiveChannel

def user (c : LiveChannel) : User := c.channel.user

def send (c : LiveChannel) (frame : Frame) : LiveChannel :=
  if c.isOpen then { c with frames := c.frames ++ [frame] } else c

def onNewMessage (c : LiveChannel) (m : DirectMessage) (originChannel : Text) : LiveChannel :=
  if originChannel = c.channel.channelName then c
  else if c.channel.isAgent ∧ m.senderId = c.user.id then c
  else c.send (.newMessage m)

/-- The socket afterwards, and the group it joins. -/
def onConversationCreated (c : LiveChannel) (conversation : Conversation)
    (participants : List Participant) : LiveChannel × Option Text :=
  if c.user.id ∈ participants.map Participant.userId then
    let groupName := chatGroup conversation.id.val
    if groupName ∈ c.conversationGroups then
      (c.send (.conversationCreated conversation participants), none)
    else
      ({ c with conversationGroups := c.conversationGroups ++ [groupName] }.send
        (.conversationCreated conversation participants), some groupName)
  else (c, none)

def onEvent (c : LiveChannel) (event : LayerEvent) : LiveChannel × Option Text :=
  if c.alive = false then (c, none)
  else
    match event with
    | .sent (.newMessage m originChannel) => (c.onNewMessage m originChannel, none)
    | .sent (.agentStreamEvent conversationId eventType agentId data) =>
        (c.send (.agentStream conversationId eventType agentId data), none)
    | .typingIndicator conversationId userId isTyping =>
        (if userId = c.user.id then c else c.send (.typing conversationId userId isTyping), none)
    | .messageReadReceipt conversationId userId messageId =>
        (c.send (.messageRead conversationId userId messageId), none)
    | .sent (.conversationCreated conversation participants) =>
        c.onConversationCreated conversation participants

end LiveChannel

/-! ## The server -/

structure ConnectServer where
  store : Store
  layer : ChannelLayer
  channels : Map Text LiveChannel

namespace ConnectServer

def joins (layer : ChannelLayer) (channelName : Text) : Option Text → ChannelLayer
  | none => layer
  | some group => layer.groupAdd group channelName

def deliver (s : ConnectServer) (event : LayerEvent) (channelName : Text) : ConnectServer :=
  match s.channels.find channelName with
  | none => s
  | some c =>
      { s with
        channels := s.channels.set channelName (c.onEvent event).1
        layer := joins s.layer channelName (c.onEvent event).2 }

def groupSend (s : ConnectServer) (group : Text) (event : LayerEvent) : ConnectServer :=
  (s.layer.members group).foldl (fun s channelName => s.deliver event channelName) s

def broadcast (s : ConnectServer) (sends : List GroupSend) : ConnectServer :=
  sends.foldl (fun s x => s.groupSend x.group (.sent x.event)) s

/-- The groups of the conversations that the user takes part in. -/
def groupsToJoin (store : Store) (userId : ℕ) : List Text :=
  (store.listUserConversations userId).map fun c => chatGroup c.id.val

def joinAllGroups (s : ConnectServer) (channelName : Text) : ConnectServer :=
  match s.channels.find channelName with
  | none => s
  | some c =>
      let groups := groupsToJoin s.store c.user.id
      { s with
        layer := groups.foldl (fun layer g => layer.groupAdd g channelName) s.layer
        channels := s.channels.set channelName
          { c with
            conversationGroups := groups.foldl (fun l g => if g ∈ l then l else l ++ [g])
              c.conversationGroups } }

/-- A socket that passed the upgrade's checks. -/
def start (s : ConnectServer) (channel : ConnectChannel) : ConnectServer :=
  let joined :=
    { s with channels := s.channels.set channel.channelName ⟨channel, [], true, true, []⟩
      : ConnectServer }.joinAllGroups channel.channelName
  { joined with layer := joined.layer.groupAdd (userInboxGroup channel.user.id) channel.channelName }

/-- The keepalive's refresh. -/
def refresh (s : ConnectServer) (channelName : Text) : ConnectServer :=
  match s.channels.find channelName with
  | none => s
  | some c => if c.alive then s.joinAllGroups channelName else s

def onClose (s : ConnectServer) (channelName : Text) : ConnectServer :=
  match s.channels.find channelName with
  | none => s
  | some c =>
      if c.alive then
        { s with
          layer := s.layer.removeChannel channelName
          channels := s.channels.set channelName { c with alive := false, isOpen := false } }
      else s

def setChannel (s : ConnectServer) (channelName : Text) (f : LiveChannel → LiveChannel) :
    ConnectServer :=
  match s.channels.find channelName with
  | none => s
  | some c => { s with channels := s.channels.set channelName (f c) }

/-- What a frame of a socket leaves: a reply to it, or what is sent to groups. -/
def answer (s : ConnectServer) (channelName : Text) (o : Outcome SocketReply) : ConnectServer :=
  let stored := { s with store := o.store }
  let replied :=
    match o.reply with
    | .sendError conversationId clientMessageId error =>
        stored.setChannel channelName fun c =>
          c.send (.sendError conversationId clientMessageId error)
    | _ => stored
  replied.broadcast o.sent

def onTyping (s : ConnectServer) (c : LiveChannel) (conversationId : Option Text)
    (isTyping : Bool) : ConnectServer :=
  if conversationId.getD [] = [] then s
  else s.groupSend (chatGroup (conversationId.getD []))
    (.typingIndicator (conversationId.getD []) c.user.id isTyping)

/-- Without anything newly read, the one message that was named. -/
def readIds (newlyRead : List Uuid) (messageId : Text) : List Text :=
  if newlyRead = [] then [messageId] else newlyRead.map Subtype.val

def onMessageRead (s : ConnectServer) (c : LiveChannel) (now : ℕ)
    (conversationId messageId : Option Text) : ConnectServer :=
  let convId := conversationId.getD []
  let id := messageId.getD []
  if convId = [] ∨ id = [] then s
  else
    let marked := s.store.markAsRead now convId c.user.id id
    (readIds marked.1 id).foldl
      (fun s mid => s.groupSend (chatGroup convId) (.messageReadReceipt convId c.user.id mid))
      { s with store := marked.2 }

end ConnectServer

/-! ## Making conversations -/

structure ConversationBody where
  participantUserIds : List ℕ
  type : Option Text
  name : Option Text

inductive ConversationReply where
  | error (status : ℕ) (error : Text)
  | created (conversation : Conversation) (participants : List Participant)
  /-- An exception of the store. -/
  | failed

def postConversation (s : Store) (stamp : Stamp) (userId : Option ℕ) (body : ConversationBody) :
    Outcome ConversationReply :=
  match userId.bind s.getUserById with
  | none => ⟨s, [], .error 401 (js "unauthorized"), none⟩
  | some user =>
      let others := body.participantUserIds.filter (· ≠ user.id)
      let direct : Bool := body.type.elim (others.length = 1) (· = js "direct")
      let opts : DirectOpts := ⟨some user.id, participantTypeMap s, participantAgentIdMap s⟩
      let reply (r : Except StoreError (Conversation × Store)) : Outcome ConversationReply :=
        match r with
        | .error _ => ⟨s, [], .failed, none⟩
        | .ok (conv, s') =>
            ⟨s', broadcastConversationCreated s' conv,
              .created conv (s'.listParticipants conv.id), none⟩
      if direct then
        match others with
        | [other] => reply (s.findOrCreateDirectConversation stamp user.id other opts)
        | _ => ⟨s, [], .error 400 (js "direct requires exactly one other participant"), none⟩
      else
        match body.name.bind orNull with
        | none => ⟨s, [], .error 400 (js "group conversation requires name"), none⟩
        | some name => reply (s.createGroupConversation stamp name user.id others opts)

/-! ## Runs -/

inductive ConnectOp where
  | opened (channel : ConnectChannel)
  | refresh (channelName : Text)
  | sendMessage (channelName : Text) (stamp : Stamp) (data : SendFrame)
  | streamEvent (channelName : Text) (stamp : Stamp) (data : StreamFrame)
  | typing (channelName : Text) (conversationId : Option Text) (isTyping : Bool)
  | messageRead (channelName : Text) (now : ℕ) (conversationId messageId : Option Text)
  | postDm (stamp : Stamp) (userId : Option ℕ) (body : DmBody)
  | postConversation (stamp : Stamp) (userId : Option ℕ) (body : ConversationBody)
  /-- The socket is closing, and the close event has not come yet. -/
  | closing (channelName : Text)
  | closed (channelName : Text)
  /-- The daemon keeps the users. -/
  | users (users : Table ℕ User User.id)

namespace ConnectServer

/-- A handler of a socket's frames, for the sockets there are. -/
def fromSocket (s : ConnectServer) (channelName : Text) (f : LiveChannel → ConnectServer) :
    ConnectServer :=
  match s.channels.find channelName with
  | none => s
  | some c => f c

/-- How a text looks in lower case is a parameter. -/
def step (lower : Text → Text) (s : ConnectServer) : ConnectOp → ConnectServer
  | .opened channel => s.start channel
  | .refresh channelName => s.refresh channelName
  | .sendMessage channelName stamp data =>
      s.fromSocket channelName fun c =>
        s.answer channelName (c.channel.handleSendMessage s.store stamp data)
  | .streamEvent channelName stamp data =>
      s.fromSocket channelName fun c =>
        s.answer channelName (c.channel.handleStreamEvent s.store stamp data)
  | .typing channelName conversationId isTyping =>
      s.fromSocket channelName fun c => s.onTyping c conversationId isTyping
  | .messageRead channelName now conversationId messageId =>
      s.fromSocket channelName fun c => s.onMessageRead c now conversationId messageId
  | .postDm stamp userId body =>
      let o := ConnectStore.postDm lower s.store stamp userId body
      { s with store := o.store }.broadcast o.sent
  | .postConversation stamp userId body =>
      let o := ConnectStore.postConversation s.store stamp userId body
      { s with store := o.store }.broadcast o.sent
  | .closing channelName => s.setChannel channelName fun c => { c with isOpen := false }
  | .closed channelName => s.onClose channelName
  | .users users => { s with store := { s.store with users := users } }

end ConnectServer

end Shizuha.ConnectStore
