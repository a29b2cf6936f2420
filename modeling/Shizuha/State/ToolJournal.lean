import Shizuha.Agent.Types
import Shizuha.State.Store

/-!
# The tool journal

A tool turn is opened by the first call that names it and is closed once: by
`finalizeToolTurn`, with the messages of the turn, or by `recoverToolTurns`,
by somebody else, without them. Either way the calls that were attempted and
that no message speaks for get messages of their own, made from the rows of
their latest attempts.

A result is kept as JSON and read back as a `ToolOutcome`, the part of it that
goes into a message. The texts the store itself wrote always parse; for others
there is `malformedResult`, the exception of `JSON.parse`.
-/

namespace Shizuha.State

open Js Agent

structure ToolAttemptIdentity where
  sessionId : Text
  generation : Text
  ownerId : Text
  inboundMessageId : Text
  executionId : Text
  sessionEpoch : Double

structure ToolResult where
  toolUseId : Text
  content : Text
  isError : Option Bool
  metadata : Option Json
  image : Option ImageData
  durationMs : Option Double

def ToolResult.toJson (r : ToolResult) : Json :=
  .obj ([(js "toolUseId", .str r.toolUseId), (js "content", .str r.content)] ++
    optField "isError" (r.isError.map .bool) ++ optField "metadata" r.metadata ++
    optField "image" (r.image.map ImageData.toJson) ++
    optField "durationMs" (r.durationMs.map fun x => .num (.finite x)))

/-- The fields of a result that are read again. -/
structure ToolOutcome where
  toolUseId : Text
  content : Text
  isError : Option Bool
  image : Option ImageData

def isInteger (x : Double) : Bool := x.val.isInt

def ToolAttemptIdentity.complete (i : ToolAttemptIdentity) : Bool :=
  [i.sessionId, i.generation, i.ownerId, i.inboundMessageId, i.executionId].all
      (fun value => trim value ≠ []) &&
    isInteger i.sessionEpoch

/-- The key of the turn an identity names. -/
def ToolAttemptIdentity.turn (i : ToolAttemptIdentity) : Text × Text :=
  (boundText i.sessionId, boundText i.generation)

def ToolAttemptIdentity.newTurn (i : ToolAttemptIdentity) (now : Double) : ToolTurnRow where
  sessionId := boundText i.sessionId
  generation := boundText i.generation
  ownerId := boundText i.ownerId
  inboundMessageId := boundText i.inboundMessageId
  executionId := boundText i.executionId
  sessionEpoch := i.sessionEpoch
  state := .opened
  historyJson := none
  createdAt := now

/-- The turn's row, made when it is not there. -/
def Store.ensureToolTurn (s : Store) (identity : ToolAttemptIdentity) :
    Except StoreError (ToolTurnRow × Store) :=
  if identity.complete then
    match s.sessions.get (boundText identity.sessionId) with
    | none => .error .sessionAbsent
    | some _ =>
        let (now, s) := s.now
        let row := identity.newTurn now
        let s := { s with toolTurns := s.toolTurns.insertOrIgnore row }
        let turn := (s.toolTurns.get identity.turn).getD row
        if turn.ownerId ≠ identity.ownerId ∨ turn.inboundMessageId ≠ identity.inboundMessageId
            ∨ turn.executionId ≠ identity.executionId
            ∨ turn.sessionEpoch ≠ identity.sessionEpoch then
          .error .ownerChanged
        else .ok (turn, s)
  else .error .identityIncomplete

def Store.beginToolAttempt (s : Store) (identity : ToolAttemptIdentity) (toolCallId name : Text)
    (input : Json) (invocation : Double) : Except StoreError Store :=
  if toolCallId = [] ∨ name = [] ∨ !isInteger invocation ∨ invocation.val < 1 then
    .error .invalidAttempt
  else do
    let (turn, s) ← s.ensureToolTurn identity
    if turn.state ≠ .opened then .error .alreadyFinalized
    else
      let (now, s) := s.now
      let row : ToolAttemptRow :=
        { sessionId := boundText identity.sessionId
          generation := boundText identity.generation
          toolCallId := boundText toolCallId
          invocation := invocation
          name := boundText name
          inputJson := boundText input.print
          state := .running
          resultJson := none
          startedAt := now
          finishedAt := none }
      match s.toolAttempts.insert row with
      | none => .error .attemptExists
      | some toolAttempts => .ok { s with toolAttempts }

/-- The update that records how an attempt ended. -/
def Store.settle (s : Store) (attempt : ToolAttemptRow) (state : ToolAttemptState)
    (result : Text) : Store :=
  let (now, s) := s.now
  { s with
    toolAttempts := s.toolAttempts.update (fun r => r.key = attempt.key)
      (fun r => { r with state := state, resultJson := some result, finishedAt := some now })
      (fun _ => rfl) }

def Store.completeToolAttempt (s : Store) (identity : ToolAttemptIdentity) (toolCallId : Text)
    (invocation : Double) (result : ToolResult) (interrupted : Bool) :
    Except StoreError Store := do
  let (turn, s) ← s.ensureToolTurn identity
  if turn.state ≠ .opened then .error .alreadyFinalized
  else
    match s.toolAttempts.get (identity.turn, boundText toolCallId, invocation) with
    | none => .error .attemptMismatch
    | some attempt =>
        if result.toolUseId ≠ toolCallId then .error .attemptMismatch
        else
          let serialized := result.toJson.print
          let state : ToolAttemptState := if interrupted then .interrupted else .completed
          if attempt.state ≠ .running then
            if attempt.state = state ∧ attempt.resultJson = some serialized then .ok s
            else .error .differentOutcome
          else .ok (s.settle attempt state serialized)

/-! ## The latest attempts -/

/-- Setting a call's entry in a map: a call that is there keeps its place and
is counted once more. -/
def setLatest (latest : List (ToolAttemptRow × ℕ)) (attempt : ToolAttemptRow) :
    List (ToolAttemptRow × ℕ) :=
  match latest with
  | [] => [(attempt, 1)]
  | (a, count) :: rest =>
      if a.toolCallId = attempt.toolCallId then (attempt, count + 1) :: rest
      else (a, count) :: setLatest rest attempt

/-- The attempts of a turn in the order they were started in. -/
def Store.attemptsOf (s : Store) (turn : Text × Text) : List ToolAttemptRow :=
  (s.toolAttempts.rows.filter fun r => r.turn = turn).insertionSort
    fun a b => a.startedAt.val ≤ b.startedAt.val

/-- The last attempt of every call, with the number of its attempts. -/
def Store.latestToolAttempts (s : Store) (turn : Text × Text) : List (ToolAttemptRow × ℕ) :=
  (s.attemptsOf turn).foldl setLatest []

/-! ## Messages for attempts -/

def unknownOutcome (toolCallId : Text) : ToolResult where
  toolUseId := toolCallId
  content := js "This tool attempt has no durable completion record. Outcome is unknown; " ++
    js "side effects may have occurred. Inspect current state before deciding whether to retry."
  isError := some true
  metadata := some
    (.obj [(js "executionOutcome", .str (js "unknown")), (js "interrupted", .bool true)])
  image := none
  durationMs := none

def ToolResult.outcome (r : ToolResult) : ToolOutcome :=
  ⟨r.toolUseId, r.content, r.isError, r.image⟩

def readImage (v : Json) : Option ImageData := do
  let base64 ← textField "base64" v
  let mediaType ← textField "mediaType" v
  some ⟨base64, mediaType⟩

def readOutcome (text : Text) : Option ToolOutcome := do
  let v ← Json.parse text
  let toolUseId ← textField "toolUseId" v
  let content ← textField "content" v
  some ⟨toolUseId, content, boolField "isError" v, (field "image" v).bind readImage⟩

/-- 128 KiB of base64. -/
def imageCap : ℕ := 128 * 1024

def oversized (image : Option ImageData) : Option ImageData :=
  image.filter fun i => imageCap < i.base64.length

def omittedImage (i : ImageData) : Text :=
  js "\n[Image omitted from session history: " ++
    decimal (mathRound (i.base64.length * (3 / 4) / 1024)).num.toNat ++
    js "KB exceeds the persistence cap. Re-capture if needed.]"

def retryNote (count : ℕ) : Text :=
  if 1 < count then
    js "This call had " ++ decimal count ++
      js " recorded execution attempts. The latest outcome follows; earlier attempts may also " ++
      js "have produced side effects.\n"
  else []

/-- The result block of an attempt. -/
def outcomeBlock (outcome : ToolOutcome) (count : ℕ) : ContentBlock :=
  match oversized outcome.image with
  | some image =>
      .toolResult outcome.toolUseId
        (retryNote count ++ (outcome.content ++ omittedImage image)) outcome.isError none
  | none =>
      .toolResult outcome.toolUseId (retryNote count ++ outcome.content) outcome.isError
        outcome.image

/-- What an attempt's row says happened. -/
def attemptOutcome (attempt : ToolAttemptRow) : Except StoreError ToolOutcome :=
  match attempt.resultJson.filter (· ≠ []) with
  | none => .ok (unknownOutcome attempt.toolCallId).outcome
  | some text =>
      match readOutcome text with
      | some outcome => .ok outcome
      | none => .error .malformedResult

/-- A running attempt is settled with what is known of it: the text of its
result, or that it is unknown. -/
def settledText (attempt : ToolAttemptRow) : Text :=
  (attempt.resultJson.filter (· ≠ [])).getD (unknownOutcome attempt.toolCallId).toJson.print

def Store.attemptResults (s : Store) :
    List (ToolAttemptRow × ℕ) → Except StoreError (List ContentBlock × Store)
  | [] => .ok ([], s)
  | (attempt, count) :: rest => do
      let outcome ← attemptOutcome attempt
      let s :=
        if attempt.state = .running then s.settle attempt .interrupted (settledText attempt)
        else s
      let (blocks, s) ← s.attemptResults rest
      .ok (outcomeBlock outcome count :: blocks, s)

def attemptCalls : List (ToolAttemptRow × ℕ) → Except StoreError (List ContentBlock)
  | [] => .ok []
  | (attempt, _) :: rest =>
      match Json.parse attempt.inputJson with
      | none => .error .malformedResult
      | some input => do
          let blocks ← attemptCalls rest
          .ok (.toolUse attempt.toolCallId attempt.name input :: blocks)

def recoveryMessage (turn : ToolTurnRow) (part : String) (role : Role)
    (blocks : List ContentBlock) (timestamp : Double) : Agent.Message ContentBlock where
  id := some (js "tool-recovery:" ++ turn.generation ++ js part)
  executionId := some turn.executionId
  operationalEvent := none
  role := role
  content := .blocks blocks
  timestamp := some timestamp

def Store.toolAttemptMessages (s : Store) (turn : ToolTurnRow)
    (attempts : List (ToolAttemptRow × ℕ)) :
    Except StoreError (List (Agent.Message ContentBlock) × Store) :=
  match attempts with
  | [] => .ok ([], s)
  | _ => do
      let (results, s) ← s.attemptResults attempts
      let calls ← attemptCalls attempts
      let (callsAt, s) := s.now
      let (resultsAt, s) := s.now
      .ok ([recoveryMessage turn ":calls" .assistant calls callsAt,
        recoveryMessage turn ":results" .user results resultsAt], s)

def Store.appendMessages (s : Store) (sessionId : Text) :
    List (Agent.Message ContentBlock) → Except StoreError Store
  | [] => .ok s
  | message :: rest => do
      let s ← s.appendMessage sessionId message.toJson
      s.appendMessages sessionId rest

/-! ## The two ways a turn closes -/

def messageJson (m : Agent.Message ContentBlock) : Json :=
  .obj (optField "id" (m.id.map .str) ++ optField "executionId" (m.executionId.map .str) ++
    optField "operationalEvent" m.operationalEvent ++
    [(js "role", .str m.role.name), (js "content", contentJson m.content.toJson)] ++
    optField "timestamp" (m.timestamp.map fun t => .num (.finite t)))

def Store.closeToolTurn (s : Store) (turn : Text × Text) (state : ToolTurnState)
    (historyJson : Option Text) : Store :=
  { s with
    toolTurns := s.toolTurns.update (fun r => r.key = turn)
      (fun r => { r with state := state, historyJson := historyJson.or r.historyJson })
      (fun _ => rfl) }

def Store.finalizeToolTurn (s : Store) (identity : ToolAttemptIdentity)
    (messages : List (Agent.Message ContentBlock)) :
    Except StoreError (List (Agent.Message ContentBlock) × Store) := do
  let (turn, s) ← s.ensureToolTurn identity
  let serialized := (Json.arr (messages.map messageJson)).print
  if turn.state = .finalized ∧ turn.historyJson = some serialized then .ok ([], s)
  else if turn.state ≠ .opened then .error .finalizationChanged
  else
    let includedCalls := messages.flatMap toolUseIds
    let latest := s.latestToolAttempts identity.turn
    if latest.any fun a => a.1.toolCallId ∈ includedCalls && a.1.state = .running then
      .error .unresolvedAttempts
    else do
      let attempts := latest.filter fun a => a.1.toolCallId ∉ includedCalls
      let (synthesized, s) ← s.toolAttemptMessages turn attempts
      let persisted := messages ++ synthesized
      let s ← s.appendMessages identity.sessionId persisted
      .ok (persisted, s.closeToolTurn identity.turn .finalized (some serialized))

/-- The open turns a caller may recover: the one it names, or everybody
else's. -/
def Store.recoverableTurns (s : Store) (sessionId ownerId : Text) (sessionEpoch : Double)
    (generation : Option Text) : List ToolTurnRow :=
  (s.toolTurns.rows.filter fun r =>
    r.sessionId = boundText sessionId && r.sessionEpoch = sessionEpoch && r.state = .opened &&
      match generation.filter (· ≠ []) with
      | some g => r.generation = boundText g && r.ownerId = boundText ownerId
      | none => r.ownerId ≠ boundText ownerId).insertionSort
    fun a b => a.createdAt.val ≤ b.createdAt.val

/-- One round of the loop over the turns. -/
def Store.recoverTurn (s : Store) (sessionId : Text) (turn : ToolTurnRow) :
    Except StoreError (List (Agent.Message ContentBlock) × Store) := do
  let (messages, s) ← s.toolAttemptMessages turn
    (s.latestToolAttempts (boundText sessionId, turn.generation))
  let s ← s.appendMessages sessionId messages
  .ok (messages, s.closeToolTurn (boundText sessionId, turn.generation) .recovered none)

/-- The loop, with the messages of each turn kept apart. -/
def Store.recoverTurns (s : Store) (sessionId : Text) :
    List ToolTurnRow → Except StoreError (List (List (Agent.Message ContentBlock)) × Store)
  | [] => .ok ([], s)
  | turn :: rest => do
      let (messages, s) ← s.recoverTurn sessionId turn
      let (recovered, s) ← s.recoverTurns sessionId rest
      .ok (messages :: recovered, s)

def Store.recoverToolTurns (s : Store) (sessionId ownerId : Text) (sessionEpoch : Double)
    (generation : Option Text) : Except StoreError (List (Agent.Message ContentBlock) × Store) := do
  let (recovered, s) ← s.recoverTurns sessionId
    (s.recoverableTurns sessionId ownerId sessionEpoch generation)
  .ok (recovered.flatten, s)

end Shizuha.State
