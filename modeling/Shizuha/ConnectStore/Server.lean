import Shizuha.ConnectStore.Sqlite
import Shizuha.Js.Json

/-!
# Sending through the Connect server

Three ways to send a message: a POST, a frame of a socket, and the last frame of
an agent's stream. Each persists through the one idempotent call of the store
and then decides for itself whether to tell the group of the conversation. A
reply of the transport that the claims of a token do not let through is modelled
with the rest; how a token is verified is not, a request comes with the user id
its token gave, and a socket with the user it was opened for.

How a text looks in lower case is a parameter.
-/

namespace Shizuha.ConnectStore

open Js State

/-! ## Events -/

/-- What is sent to a group. A message and a conversation are sent column by
column. -/
inductive ChannelEvent where
  | newMessage (messageData : DirectMessage) (originChannel : Text)
  | conversationCreated (conversation : Conversation) (participants : List Participant)
  | agentStreamEvent (conversationId eventType : Text) (agentId : Option Text) (data : Json)

structure GroupSend where
  group : Text
  event : ChannelEvent

def chatGroup (conversationId : Text) : Text := js "chat_" ++ conversationId

def userInboxGroup (userId : ℕ) : Text := js "user_inbox_" ++ decimal userId

/-- What a request leaves behind: the store, what was sent to groups in this
order, the reply, and the message it was about, once it has one. -/
structure Outcome (ρ : Type) where
  store : Store
  sent : List GroupSend
  reply : ρ
  msg : Option DirectMessage

def broadcastConversationCreated (s : Store) (c : Conversation) : List GroupSend :=
  (s.listParticipants c.id).map fun p =>
    ⟨userInboxGroup p.userId, .conversationCreated c (s.listParticipants c.id)⟩

/-! ## The POST -/

structure DmBody where
  content : Option Text
  recipientUsername : Option Text
  recipientEmail : Option Text
  clientMessageId : Option Text

structure Recipient where
  userId : ℕ
  email : Option Text
  name : Text

inductive DmReply where
  | error (status : ℕ) (error : Text)
  | sent (status : ℕ) (messageId conversationId : Uuid)
      (createdNewConversation idempotentReplay : Bool) (recipient : Recipient)
  /-- An exception of the store. -/
  | failed

/-- A request that passed the checks. -/
structure Dm where
  sender : User
  recipient : User
  content : Text
  clientMessageId : Option Text

/-- `… || null`. -/
def orNull (t : Text) : Option Text := if t = [] then none else some t

def participantTypeMap (s : Store) (uid : ℕ) : Option ParticipantType :=
  some (if (s.getUserById uid).any User.isAgent then .agent else .human)

def participantAgentIdMap (s : Store) (uid : ℕ) : Option Text :=
  (s.getUserById uid).bind fun u => if u.isAgent then u.agentId.bind orNull else none

section

variable (lower : Text → Text)

def recipientOf (s : Store) (username email : Text) : Option User :=
  (if username = [] then none else s.getUserByUsername username) <|>
    if email = [] then none
    else s.listUsers.find? fun u => lower (u.email.getD []) = lower email

def dmRequest (s : Store) (userId : Option ℕ) (body : DmBody) : Except DmReply Dm :=
  match userId.bind s.getUserById with
  | none => .error (.error 401 (js "unauthorized"))
  | some sender =>
      let content := trim (body.content.getD [])
      let username := trim (body.recipientUsername.getD [])
      let email := trim (body.recipientEmail.getD [])
      if content = [] then .error (.error 400 (js "content is required"))
      else if username = [] ∧ email = [] then
        .error (.error 400 (js "recipient_username or recipient_email is required"))
      else
        match recipientOf lower s username email with
        | none =>
            .error (.error 404 (js "No user found with " ++
              (if username = [] then js "email " ++ email else js "username " ++ username)))
        | some recipient =>
            if recipient.id = sender.id then
              .error (.error 400 (js "Cannot send a direct message to yourself"))
            else
              .ok ⟨sender, recipient, content, orNull (trim (body.clientMessageId.getD []))⟩

def Dm.directOpts (s : Store) (dm : Dm) : DirectOpts where
  creatorId := some dm.sender.id
  participantTypes := participantTypeMap s
  agentIds := participantAgentIdMap s

def Dm.messageOpts (dm : Dm) (conversationId : Uuid) : MessageOpts where
  conversationId := conversationId.val
  senderId := dm.sender.id
  senderIsAgent := dm.sender.isAgent
  agentId := if dm.sender.isAgent then dm.sender.agentId else none
  content := dm.content
  clientMessageId := dm.clientMessageId

def Dm.reply (dm : Dm) (conv : Conversation) (msg : DirectMessage) (replay : Bool) : DmReply :=
  .sent (if replay then 200 else 201) msg.id conv.id (conv.messageCount = 0) replay
    ⟨dm.recipient.id, dm.recipient.email, dm.recipient.displayName.getD dm.recipient.username⟩

/-- The message with the client's id among the newest of the conversation. -/
def Store.recentlySent (s : Store) (id : Uuid) (clientMessageId : Option Text) :
    Option DirectMessage :=
  clientMessageId.bind fun k =>
    (s.listMessages id none none).find? fun m => m.clientMessageId = some k

/-- The part of the POST after the conversation is there. -/
def dmPersist (s : Store) (stamp : Stamp) (dm : Dm) (conv : Conversation) : Outcome DmReply :=
  let created := if conv.messageCount = 0 then broadcastConversationCreated s conv else []
  match s.recentlySent conv.id dm.clientMessageId with
  | some msg => ⟨s, created, dm.reply conv msg true, some msg⟩
  | none =>
      match s.createMessage stamp (dm.messageOpts conv.id) with
      | .error _ => ⟨s, created, .failed, none⟩
      | .ok (msg, s') =>
          ⟨s', created ++ [⟨chatGroup conv.id.val, .newMessage msg []⟩],
            dm.reply conv msg false, some msg⟩

def postDm (s : Store) (stamp : Stamp) (userId : Option ℕ) (body : DmBody) : Outcome DmReply :=
  match dmRequest lower s userId body with
  | .error reply => ⟨s, [], reply, none⟩
  | .ok dm =>
      match s.findOrCreateDirectConversation stamp dm.sender.id dm.recipient.id
          (dm.directOpts s) with
      | .error _ => ⟨s, [], .failed, none⟩
      | .ok (conv, s') => dmPersist s' stamp dm conv

end

/-! ## The socket -/

structure ConnectChannel where
  channelName : Text
  user : User
  isAgent : Bool

/-- A frame the socket sends back. -/
inductive SocketReply where
  | sendError (conversationId : Text) (clientMessageId : Option Text) (error : Text)
  | nothing
  /-- An exception of the store, which nothing catches. -/
  | failed

/-- Persist and tell the group, whatever the store found. -/
def sendPersisted (s : Store) (stamp : Stamp) (channelName : Text) (o : MessageOpts) :
    Outcome SocketReply :=
  match s.createMessage stamp o with
  | .error _ => ⟨s, [], .failed, none⟩
  | .ok (msg, s') =>
      ⟨s', [⟨chatGroup o.conversationId, .newMessage msg channelName⟩], .nothing, some msg⟩

structure SendFrame where
  conversationId : Option Text
  content : Option Text
  clientMessageId : Option Text

/-- What `handleSendMessage` hands to the store once its checks have passed. -/
def ConnectChannel.sendOpts (c : ConnectChannel) (s : Store) (data : SendFrame) :
    Except SocketReply MessageOpts :=
  let convId := data.conversationId.getD []
  let content := trim (data.content.getD [])
  if convId = [] ∨ content = [] then
    .error (.sendError convId data.clientMessageId
      (js "conversation_id and content are required"))
  else if s.isParticipant convId c.user.id = false then
    .error (.sendError convId data.clientMessageId
      (js "conversation_not_found_or_not_participant"))
  else
    .ok
      { conversationId := convId
        senderId := c.user.id
        senderIsAgent := c.isAgent
        agentId := if c.isAgent then c.user.agentId else none
        content := content
        clientMessageId := data.clientMessageId }

def ConnectChannel.handleSendMessage (c : ConnectChannel) (s : Store) (stamp : Stamp)
    (data : SendFrame) : Outcome SocketReply :=
  match c.sendOpts s data with
  | .error reply => ⟨s, [], reply, none⟩
  | .ok o => sendPersisted s stamp c.channelName o

/-- The frame of a stream event, with the two members of its data that are
read. -/
structure StreamFrame where
  conversationId : Option Text
  eventType : Option Text
  content : Option Text
  clientMessageId : Option Text
  data : Json

/-- What a complete frame hands to the store once its checks have passed. -/
def ConnectChannel.completeOpts (c : ConnectChannel) (s : Store) (data : StreamFrame) :
    Option MessageOpts :=
  let convId := data.conversationId.getD []
  let content := data.content.getD []
  if content = [] ∨ s.isParticipant convId c.user.id = false then none
  else some
    { conversationId := convId
      senderId := c.user.id
      senderIsAgent := true
      agentId := c.user.agentId
      content := content
      clientMessageId := data.clientMessageId }

/-- Only agents may send stream events. -/
def ConnectChannel.handleStreamEvent (c : ConnectChannel) (s : Store) (stamp : Stamp)
    (data : StreamFrame) : Outcome SocketReply :=
  let convId := data.conversationId.getD []
  let eventType := data.eventType.getD []
  if c.isAgent = false ∨ convId = [] ∨ eventType = [] then ⟨s, [], .nothing, none⟩
  else if eventType = js "complete" then
    match c.completeOpts s data with
    | none => ⟨s, [], .nothing, none⟩
    | some o => sendPersisted s stamp c.channelName o
  else
    ⟨s, [⟨chatGroup convId, .agentStreamEvent convId eventType c.user.agentId data.data⟩],
      .nothing, none⟩

end Shizuha.ConnectStore
