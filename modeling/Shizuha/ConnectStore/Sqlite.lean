import Shizuha.State.Tables
import Shizuha.Js.Numeral
import Mathlib.Data.List.Sort

/-!
# The store of the daemon's own Connect

Users, conversations with their participants, and the messages of each
conversation, numbered from one. A call is one transaction: one that throws
leaves the database as it was.

The ids the store makes are uuids, ASCII texts. A string a call brings is
compared as its column would hold it, so an id that names a row is the text of
that row's uuid. What a call reads off the machine, the time and the fresh
uuids, comes with it as a `Stamp`. A time is a number here: the texts of the
source sort as the times do.
-/

namespace Shizuha.ConnectStore

open Js State

abbrev Uuid := { t : Text // ∀ u ∈ t, u < 128 }

theorem ascii_of_all {t : Text} (h : t.all (fun u => u < 128) = true) : ∀ u ∈ t, u < 128 :=
  fun u hu => of_decide_eq_true (List.all_eq_true.mp h u hu)

structure User where
  id : ℕ
  username : Text
  email : Option Text
  isAgent : Bool
  agentId : Option Text
  displayName : Option Text

inductive ConversationType where
  | direct
  | group
  deriving DecidableEq

structure Conversation where
  id : Uuid
  conversationType : ConversationType
  name : Option Text
  directKey : Option Text
  createdById : Option ℕ
  messageCount : ℕ
  lastMessageAt : Option ℕ
  lastMessagePreview : Option Text
  createdAt : ℕ
  updatedAt : ℕ

inductive ParticipantType where
  | human
  | agent
  | system
  deriving DecidableEq

structure Participant where
  conversationId : Uuid
  userId : ℕ
  participantType : ParticipantType
  agentId : Option Text
  isAdmin : Bool
  lastReadAt : Option ℕ
  unreadCount : ℕ
  hasLeft : Bool
  joinedAt : ℕ

def Participant.key (p : Participant) : Uuid × ℕ := (p.conversationId, p.userId)

structure DirectMessage where
  id : Uuid
  conversationId : Uuid
  senderId : ℕ
  senderIsAgent : Bool
  agentId : Option Text
  content : Text
  clientMessageId : Option Text
  seqNum : ℕ
  createdAt : ℕ
  editedAt : Option ℕ
  isDeleted : Bool

/-- What UNIQUE (conversation_id, client_message_id) compares: a NULL is equal to
nothing. -/
def DirectMessage.clientKey (m : DirectMessage) : Option (Uuid × Text) :=
  m.clientMessageId.map fun k => (m.conversationId, k)

structure Store where
  users : Table ℕ User User.id
  conversations : Table Uuid Conversation Conversation.id
  participants : Table (Uuid × ℕ) Participant Participant.key
  messages : Table Uuid DirectMessage DirectMessage.id
  clientKeys : (messages.rows.filterMap DirectMessage.clientKey).Nodup

theorem clientKeys_empty :
    ((Table.empty : Table Uuid DirectMessage DirectMessage.id).rows.filterMap
      DirectMessage.clientKey).Nodup :=
  List.nodup_nil

structure Stamp where
  now : ℕ
  /-- The uuids the call makes, the first one for a conversation. -/
  conversationId : Uuid
  messageId : Uuid

inductive StoreError where
  | conversationIdTaken
  | participantTaken
  | messageIdTaken
  | clientMessageIdTaken
  | unknownConversation
  deriving DecidableEq

/-! ## Users -/

def Store.getUserById (s : Store) (id : ℕ) : Option User := s.users.get id

def Store.getUserByUsername (s : Store) (username : Text) : Option User :=
  s.users.rows.find? fun u => u.username = boundText username

def Store.listUsers (s : Store) : List User :=
  s.users.rows.insertionSort fun a b => a.id ≤ b.id

/-! ## Conversations -/

def buildDirectKey (a b : ℕ) : Text :=
  if a < b then decimal a ++ js ":" ++ decimal b else decimal b ++ js ":" ++ decimal a

def Store.directConversation (s : Store) (a b : ℕ) : Option Conversation :=
  s.conversations.rows.find? fun c =>
    c.conversationType = .direct ∧ c.directKey = some (buildDirectKey a b)

/-- The options, a function for each of the source's records. -/
structure DirectOpts where
  creatorId : Option ℕ
  participantTypes : ℕ → Option ParticipantType
  agentIds : ℕ → Option Text

def newParticipant (id : Uuid) (now : ℕ) (o : DirectOpts) (uid : ℕ) : Participant where
  conversationId := id
  userId := uid
  participantType := (o.participantTypes uid).getD .human
  agentId := (o.agentIds uid).map boundText
  isAdmin := false
  lastReadAt := none
  unreadCount := 0
  hasLeft := false
  joinedAt := now

def newDirect (id : Uuid) (now : ℕ) (key : Text) (creatorId : Option ℕ) : Conversation where
  id := id
  conversationType := .direct
  name := none
  directKey := some key
  createdById := creatorId
  messageCount := 0
  lastMessageAt := none
  lastMessagePreview := none
  createdAt := now
  updatedAt := now

def Store.findOrCreateDirectConversation (s : Store) (stamp : Stamp) (a b : ℕ) (o : DirectOpts) :
    Except StoreError (Conversation × Store) :=
  match s.directConversation a b with
  | some c => .ok (c, s)
  | none =>
      let c := newDirect stamp.conversationId stamp.now (buildDirectKey a b) o.creatorId
      match s.conversations.insert c with
      | none => .error .conversationIdTaken
      | some conversations =>
          match (s.participants.insert (newParticipant c.id stamp.now o a)).bind fun t =>
              t.insert (newParticipant c.id stamp.now o b) with
          | none => .error .participantTaken
          | some participants =>
              .ok (c, { s with conversations := conversations, participants := participants })

/-- The conversations of a user, the one with the newest message first. -/
def Store.listUserConversations (s : Store) (userId : ℕ) : List Conversation :=
  (s.conversations.rows.filter fun c => s.participants.rows.any fun p =>
      p.conversationId = c.id && p.userId = userId && !p.hasLeft).insertionSort
    fun a b => b.lastMessageAt.getD b.createdAt ≤ a.lastMessageAt.getD a.createdAt

def newGroup (id : Uuid) (now : ℕ) (name : Text) (creatorId : ℕ) : Conversation where
  id := id
  conversationType := .group
  name := some (boundText name)
  directKey := none
  createdById := some creatorId
  messageCount := 0
  lastMessageAt := none
  lastMessagePreview := none
  createdAt := now
  updatedAt := now

/-- The creator is a participant too, and the one who is an admin. -/
def Store.createGroupConversation (s : Store) (stamp : Stamp) (name : Text) (creatorId : ℕ)
    (participantUserIds : List ℕ) (o : DirectOpts) : Except StoreError (Conversation × Store) :=
  let c := newGroup stamp.conversationId stamp.now name creatorId
  match s.conversations.insert c with
  | none => .error .conversationIdTaken
  | some conversations =>
      match (creatorId :: participantUserIds).eraseDups.foldlM (fun t uid =>
          t.insert { newParticipant c.id stamp.now o uid with isAdmin := uid = creatorId })
          s.participants with
      | none => .error .participantTaken
      | some participants =>
          .ok (c, { s with conversations := conversations, participants := participants })

def Store.listParticipants (s : Store) (conversationId : Uuid) : List Participant :=
  s.participants.rows.filter fun p => p.conversationId = conversationId

def Store.isParticipant (s : Store) (conversationId : Text) (userId : ℕ) : Bool :=
  s.participants.rows.any fun p =>
    decide (p.conversationId.val = boundText conversationId ∧ p.userId = userId) && !p.hasLeft

/-! ## Messages -/

structure MessageOpts where
  conversationId : Text
  senderId : ℕ
  senderIsAgent : Bool
  agentId : Option Text
  content : Text
  clientMessageId : Option Text

/-- The messages of a conversation, as they were inserted. -/
def Store.messagesOf (s : Store) (id : Uuid) : List DirectMessage :=
  s.messages.rows.filter fun m => m.conversationId = id

/-- `COALESCE(MAX(seq_num), 0)`. -/
def Store.maxSeqNum (s : Store) (id : Uuid) : ℕ :=
  ((s.messagesOf id).map DirectMessage.seqNum).foldr max 0

/-- The message of the conversation that has the client's id, looked for only
when that id is not empty. -/
def Store.findSent (s : Store) (conversationId : Text) (clientMessageId : Option Text) :
    Option DirectMessage :=
  match clientMessageId with
  | none => none
  | some k =>
      if k = [] then none
      else s.messages.rows.find? fun m =>
        m.conversationId.val = boundText conversationId ∧ m.clientMessageId = some (boundText k)

def newMessage (s : Store) (stamp : Stamp) (conversationId : Uuid) (o : MessageOpts) :
    DirectMessage where
  id := stamp.messageId
  conversationId := conversationId
  senderId := o.senderId
  senderIsAgent := o.senderIsAgent
  agentId := o.agentId.map boundText
  content := boundText o.content
  clientMessageId := o.clientMessageId.map boundText
  seqNum := s.maxSeqNum conversationId + 1
  createdAt := stamp.now
  editedAt := none
  isDeleted := false

/-- The conversation after one more message. -/
def Conversation.rollUp (c : Conversation) (now : ℕ) (content : Text) : Conversation :=
  { c with
    messageCount := c.messageCount + 1
    lastMessageAt := some now
    lastMessagePreview := some (boundText (content.take 100))
    updatedAt := now }

/-- INSERT INTO direct_messages. -/
def Store.insertMessage (s : Store) (m : DirectMessage) : Except StoreError Store :=
  match s.messages.insert m with
  | none => .error .messageIdTaken
  | some messages =>
      if h : (messages.rows.filterMap DirectMessage.clientKey).Nodup then
        .ok { s with messages := messages, clientKeys := h }
      else .error .clientMessageIdTaken

def Store.createMessage (s : Store) (stamp : Stamp) (o : MessageOpts) :
    Except StoreError (DirectMessage × Store) :=
  match s.findSent o.conversationId o.clientMessageId with
  | some m => .ok (m, s)
  | none =>
      match s.conversations.rows.find? fun c => c.id.val = boundText o.conversationId with
      | none => .error .unknownConversation
      | some c =>
          let m := newMessage s stamp c.id o
          (s.insertMessage m).map fun s' =>
            (m, { s' with
              conversations := s'.conversations.update (fun r => r.id = c.id)
                (fun r => r.rollUp stamp.now o.content) fun _ => rfl
              participants := s'.participants.update
                (fun p => p.conversationId = c.id ∧ p.userId ≠ o.senderId ∧ p.hasLeft = false)
                (fun p => { p with unreadCount := p.unreadCount + 1 }) fun _ => rfl })

/-- The newest messages of a conversation, or of those before a number that is
not zero, the oldest first. -/
def Store.listMessages (s : Store) (id : Uuid) (limit before : Option ℕ) : List DirectMessage :=
  let rows := (s.messagesOf id).filter fun m => ∀ n ∈ before, n ≠ 0 → m.seqNum < n
  ((rows.insertionSort fun a b => b.seqNum ≤ a.seqNum).take (min (limit.getD 200) 1000)).reverse

/-- The messages up to a sequence number that others sent and that came after
the last time something was read. -/
def Store.unreadUpTo (s : Store) (id : Uuid) (userId seqNum : ℕ) (lastReadAt : Option ℕ) :
    List DirectMessage :=
  ((s.messagesOf id).filter fun m =>
    m.seqNum ≤ seqNum ∧ m.senderId ≠ userId ∧ ∀ t ∈ lastReadAt, t < m.createdAt).insertionSort
      fun a b => a.seqNum ≤ b.seqNum

def Store.messageIn (s : Store) (conversationId messageId : Text) : Option DirectMessage :=
  s.messages.rows.find? fun m =>
    m.id.val = boundText messageId ∧ m.conversationId.val = boundText conversationId

/-- The ids of the messages this call marks as read, and the store after it. -/
def Store.markAsRead (s : Store) (now : ℕ) (conversationId : Text) (userId : ℕ)
    (messageId : Text) : List Uuid × Store :=
  match s.messageIn conversationId messageId with
  | none => ([], s)
  | some target =>
      match s.participants.get (target.conversationId, userId) with
      | none => ([], s)
      | some part =>
          ((s.unreadUpTo target.conversationId userId target.seqNum part.lastReadAt).map
              DirectMessage.id,
            { s with
              participants := s.participants.update
                (fun p => p.conversationId = target.conversationId ∧ p.userId = userId)
                (fun p => { p with lastReadAt := some now, unreadCount := 0 }) fun _ => rfl })

end Shizuha.ConnectStore
