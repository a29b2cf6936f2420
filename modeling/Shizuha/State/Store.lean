import Shizuha.Distinct
import Shizuha.State.Tables
import Shizuha.Telemetry.PrefixFingerprint

/-!
# The state store: sessions, messages, transcript, wire prefix

Every operation is one statement or one transaction, so it is a function that
either gives the database after it or fails, and a failure leaves the database
as it was. A message goes into one row and comes out of it again: `messageRow`
and `deserializeMessage` are the two directions, and the second one has to
guess from the text alone whether the first one wrote a text or blocks.
-/

namespace Shizuha.State

open Js Agent Telemetry

/-! ## Messages and rows -/

/-- A content as its column has it. -/
def contentText : Content Json → Text
  | .text s => s
  | .blocks bs => (Json.arr bs).print

/-- Whether a value passes a bare `if`. -/
def truthy : Json → Bool
  | .null => false
  | .bool b => b
  | .num (.finite x) => x.val ≠ 0
  | .num (.infinite _) => true
  | .str s => s ≠ []
  | .arr _ => true
  | .obj _ => true

def eventText (event : Option Json) : Option Text := (event.filter truthy).map Json.print

def messageRow (sessionId : Text) (message : Agent.Message Json) (timestamp : Double) :
    MessageRow where
  sessionId := boundText sessionId
  messageId := message.id.map boundText
  executionId := message.executionId.map boundText
  role := message.role
  content := boundText (contentText message.content)
  timestamp := timestamp
  operationalEvent := (eventText message.operationalEvent).map boundText

/-- A stored text is blocks when it happens to be the JSON of an array. -/
def decodeContent (text : Text) : Content Json :=
  match Json.parse text with
  | some (.arr items) => .blocks items
  | _ => .text text

/-- Provenance that does not parse is dropped. -/
def decodeEvent (text : Option Text) : Option Json :=
  ((text.filter (· ≠ [])).bind Json.parse).filter truthy

def deserializeMessage (r : MessageRow) : Agent.Message Json where
  id := r.messageId.filter (· ≠ [])
  executionId := r.executionId.filter (· ≠ [])
  operationalEvent := decodeEvent r.operationalEvent
  role := r.role
  content := decodeContent r.content
  timestamp := some r.timestamp

def deserializeMessages (rows : List MessageRow) : List (Agent.Message Json) :=
  rows.map deserializeMessage

/-! ## Sessions -/

structure Session where
  row : SessionRow
  messages : List (Agent.Message Json)

/-- `id` is the caller's, or a fresh UUID. -/
def Store.createSessionWithId (s : Store) (id model cwd : Text) : Except StoreError Store :=
  let (now, s) := s.now
  match s.sessions.insert ⟨boundText id, boundText model, boundText cwd, now, now⟩ with
  | none => .error .sessionExists
  | some sessions => .ok { s with sessions }

/-- The rows of a session, oldest number first: the provider's context. -/
def Store.projection (s : Store) (sessionId : Text) : List MessageRow :=
  s.messages.rows.filter fun r => r.sessionId = boundText sessionId

def Store.loadMessages (s : Store) (sessionId : Text) : List (Agent.Message Json) :=
  deserializeMessages (s.projection sessionId)

def Store.loadSession (s : Store) (id : Text) : Option Session :=
  (s.sessions.get (boundText id)).map fun row => ⟨row, s.loadMessages id⟩

/-- `message.timestamp ?? Date.now()`. -/
def Store.timestampOf (s : Store) (message : Agent.Message Json) : Double × Store :=
  match message.timestamp with
  | some timestamp => (timestamp, s)
  | none => s.now

def Store.insertMessageOf (s : Store) (sessionId : Text) (message : Agent.Message Json) :
    Except StoreError Store :=
  let (timestamp, s) := s.timestampOf message
  s.insertMessage (messageRow sessionId message timestamp)

def Store.touchSession (s : Store) (sessionId : Text) : Store :=
  let (now, s) := s.now
  { s with
    sessions := s.sessions.update (fun r => r.id = boundText sessionId)
      (fun r => { r with updatedAt := now }) (fun _ => rfl) }

def Store.appendMessage (s : Store) (sessionId : Text) (message : Agent.Message Json) :
    Except StoreError Store := do
  let s ← s.insertMessageOf sessionId message
  .ok (s.touchSession sessionId)

def Store.insertMessages (s : Store) (sessionId : Text) :
    List (Agent.Message Json) → Except StoreError Store
  | [] => .ok s
  | message :: rest => do
      let s ← s.insertMessageOf sessionId message
      s.insertMessages sessionId rest

/-! ## The wire prefix -/

def Store.loadWirePrefix (s : Store) (sessionId : Text) : Option (ℕ × Text) :=
  (s.wirePrefix.get (boundText sessionId)).map fun r => (r.sourceCount, r.messagesJson)

def Store.saveWirePrefix (s : Store) (sessionId : Text) (sourceCount : ℕ)
    (messagesJson : Text) : Except StoreError Store :=
  let (now, s) := s.now
  let row : WirePrefixRow :=
    ⟨boundText sessionId, now, sourceCount, boundText messagesJson⟩
  match s.sessions.get row.sessionId with
  | none => .error .foreignKey
  | some _ =>
      .ok
        { s with
          wirePrefix := s.wirePrefix.upsert row
            (fun r => { row with sessionId := r.sessionId }) (fun _ => rfl) }

def Store.clearWirePrefix (s : Store) (sessionId : Text) : Store :=
  { s with wirePrefix := s.wirePrefix.delete fun r => r.sessionId = boundText sessionId }

/-! ## Rewriting a session's messages -/

def Store.replaceMessages (s : Store) (sessionId : Text) (messages : List (Agent.Message Json)) :
    Except StoreError Store :=
  ((s.clearWirePrefix sessionId).deleteMessages (boundText sessionId)).insertMessages
    sessionId messages

def Store.deleteSession (s : Store) (id : Text) : Bool × Store :=
  let id := boundText id
  let transcript := s.transcript.delete fun r => r.message.sessionId = id
  ((s.sessions.get id).isSome,
    { s with
      sessions := s.sessions.delete fun r => r.id = id
      messages := s.messages.delete fun r => r.sessionId = id
      transcript := transcript
      wirePrefix := s.wirePrefix.delete fun r => r.sessionId = id
      recoveryHeads := s.recoveryHeads.delete fun r => r.sessionId = id
      recoveryDeferred := s.recoveryDeferred.delete fun r => r.sessionId = id
      toolTurns := s.toolTurns.delete fun r => r.sessionId = id
      toolAttempts := s.toolAttempts.delete fun r => r.sessionId = id
      archived := by
        intro r hr
        rw [Sequence.rows_delete] at hr
        exact s.archived r (List.mem_of_mem_filter hr) })

/-! ## The transcript -/

def contentJson : Content Json → Json
  | .text t => .str t
  | .blocks bs => .arr bs

/-- `s ?? null`. -/
def textJson (s : Option Text) : Json := (s.map Json.str).getD .null

def timestampJson (timestamp : Option Double) : Json :=
  (timestamp.map fun t => .num (.finite t)).getD .null

/-- What a transcript entry is compared by. -/
def transcriptKey (message : Agent.Message Json) : Text :=
  stableJson
    (.obj [(js "id", textJson message.id), (js "executionId", textJson message.executionId),
      (js "role", .str message.role.name), (js "content", contentJson message.content),
      (js "timestamp", timestampJson message.timestamp)])

/-- The transcript rows of a session, numbered in the order they came in. -/
def Store.archivedEntries (s : Store) (sessionId : Text) : List (ℕ × MessageRow) :=
  (s.transcript.entries.filter fun e => e.2.message.sessionId = boundText sessionId).map
    fun e => (e.1, e.2.message)

def Store.loadTranscriptMessages (s : Store) (sessionId : Text) : List (Agent.Message Json) :=
  let rows := inOrder (fun e => e.2.timestamp.val) Prod.fst (s.archivedEntries sessionId)
  keepFirst transcriptKey [] (deserializeMessages (rows.map Prod.snd))

end Shizuha.State
