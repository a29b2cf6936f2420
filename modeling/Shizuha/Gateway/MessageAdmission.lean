import Shizuha.Agent.Types
import Shizuha.State.Anchor

/-!
# Admitting a message to the session

A message is admitted more than once: a turn is cut short by a runtime roll or
by a provider that is not there, and the message is put back or comes again from
upstream. `processMessage` appends it as a user row unless the history in memory
has one with its id, and then goes on where the row stands.

The history is kept in memory and in the store. What rewrites it keeps some of
its rows as they are and writes others, which have no id.
-/

namespace Shizuha.Gateway

open Js Agent

abbrev Message := State.Message

/-- What a message is appended as. -/
structure AdmittedMessage where
  id : Text
  threadId : Text
  content : Content ContentBlock
  timestamp : Double

structure EternalSession where
  /-- The history in memory. -/
  messages : List Message
  stored : List Message
  /-- The ids of the messages that have been appended, one for each time. -/
  appended : List Text

def AdmittedMessage.isRow (msg : AdmittedMessage) (message : Message) : Bool :=
  message.role = .user && message.id = some msg.id

def AdmittedMessage.userMessage (msg : AdmittedMessage) : Message where
  id := some msg.id
  executionId := some msg.threadId
  operationalEvent := none
  role := .user
  content := msg.content
  timestamp := some msg.timestamp

/-- `userMessageAlreadyPersisted`. An empty id is none. -/
def EternalSession.alreadyPersisted (s : EternalSession) (msg : AdmittedMessage) : Bool :=
  msg.id ≠ [] && s.messages.any msg.isRow

/-- The part of `processMessage` that is about the user row; `persists` is
whether the store takes it. -/
def EternalSession.processMessage (s : EternalSession) (msg : AdmittedMessage) (persists : Bool) :
    EternalSession :=
  if s.alreadyPersisted msg then s
  else
    { messages := s.messages ++ [msg.userMessage]
      stored := if persists then s.stored ++ [msg.userMessage] else s.stored
      appended := s.appended ++ [msg.id] }

/-! ## Rewrites -/

/-- One pass of a compaction: the rows up to `suffixStart` become a summary. -/
structure CompactionPass where
  host : State.ProjectionHost
  planFilePath : Option Text
  summary : Text
  suffixStart : Int

def CompactionPass.apply (messages : List Message) (pass : CompactionPass) : List Message :=
  State.projectCompactedMessages pass.host pass.planFilePath (modelConversationMessages messages)
    pass.summary pass.suffixStart

def compactPasses (messages : List Message) (passes : List CompactionPass) : List Message :=
  passes.foldl CompactionPass.apply messages

/-- `trimIsolatedCronTranscript`. -/
def trimIsolatedCronTranscript (messages : List Message) (snapshotCount : ℕ) : List Message :=
  messages.take snapshotCount

/-- A row as it is loaded. -/
def loadedRow (message : Message) : Message :=
  { message with id := message.id.filter fun id => id ≠ [] }

inductive AdmissionAction where
  | message (msg : AdmittedMessage) (persists : Bool)
  /-- The rows of a turn, and those of tools that a turn has left open. -/
  | turn (rows : List Message)
  /-- Before or after a turn. -/
  | compact (passes : List CompactionPass)
  /-- The rotation of a session whose heartbeats are fruitless. -/
  | rotate (persists : Bool)
  /-- The successor of a session that was too expensive. -/
  | recover (capsule : Text) (now : Double) (passes : List CompactionPass)
  | trimCron (snapshotCount : ℕ) (persists : Bool)
  /-- The next process. -/
  | restart
  /-- The next process, whose model is another one. -/
  | restartAnew

def EternalSession.rewrite (s : EternalSession) (messages : List Message) (persists : Bool) :
    EternalSession :=
  { s with messages, stored := if persists then messages else s.stored }

def admissionStep (s : EternalSession) : AdmissionAction → EternalSession
  | .message msg persists => s.processMessage msg persists
  | .turn rows => { s with messages := s.messages ++ rows, stored := s.stored ++ rows }
  | .compact passes => s.rewrite (compactPasses s.messages passes) true
  | .rotate persists => s.rewrite [] persists
  | .recover capsule now passes =>
      s.rewrite (State.plainMessage .user capsule now :: compactPasses s.messages passes) true
  | .trimCron snapshotCount persists =>
      s.rewrite (trimIsolatedCronTranscript s.messages snapshotCount) persists
  | .restart => { s with messages := s.stored.map loadedRow }
  | .restartAnew => { s with messages := [], stored := [] }

end Shizuha.Gateway
