import Shizuha.Js.Json
import Shizuha.Js.Regex
import Shizuha.Distinct

/-!
# The inbox of an agent

One consumer takes messages one at a time. A message is classed by where it
comes from and, for the notices of the task board, by its text; the queue is
kept in the order of the classes, and a consumer that finds nothing waits for a
resolver to be called.

A message is an object: it carries the reference it is known by, and the marks
and arrival numbers the inbox keeps beside the queue are kept under it. A digest
is a new object, whose reference and time the call brings.
-/

namespace Shizuha.Gateway

open Js Regex

inductive MessageSource where
  | user
  | cron
  | interAgent
  | heartbeat
  deriving DecidableEq

structure InboundMessage where
  ref : ℕ
  id : Text
  source : Option MessageSource
  /-- Content that is a string. -/
  content : Option Text
  timestamp : ℕ
  metadata : Option (List (Text × Json))

/-- A property of the metadata that is a string. -/
def InboundMessage.metadataText (m : InboundMessage) (key : String) : Option Text :=
  match (m.metadata.getD []).find? fun f => f.1 = js key with
  | some (_, .str s) => some s
  | _ => none

/-! ## Classes -/

inductive GatewayInboxClass where
  | directControl
  | heartbeat
  | cron
  | routineTask
  deriving DecidableEq

/-- `/^\s*\[system\]\s+/i`. -/
def systemHead : Regex := cat [.bos, star space, litI (js "[system]"), plus space]

/-- `\[Task (?:Assigned|Update)\]`. -/
def taskTag : Regex :=
  cat [litI (js "[Task "), oneOf [litI (js "Assigned"), litI (js "Update")], litI (js "]")]

/-- `\[(?:Review Seat Starvation|Routability Hold)\]`. -/
def seatTag : Regex :=
  cat [litI (js "["), oneOf [litI (js "Review Seat Starvation"), litI (js "Routability Hold")],
    litI (js "]")]

/-- `/^\s*(?:\[system\]\s+)?\[Alert(?: Resolved)?\]/i`. -/
def alertHead : Regex :=
  cat [.bos, star space, opt (cat [litI (js "[system]"), plus space]), litI (js "[Alert"),
    opt (litI (js " Resolved")), litI (js "]")]

def isConnectAlertNotificationContent : Option Text → Bool
  | none => false
  | some content => alertHead.test content

def isRoutineTaskNotificationContent : Option Text → Bool
  | none => false
  | some content =>
      (cat [systemHead, oneOf [taskTag, seatTag]]).test content || alertHead.test content

def isWorkingDeferredTaskNotification (m : InboundMessage) : Bool :=
  if m.source = some .heartbeat then false
  else
    let content := m.content.getD []
    (cat [systemHead, taskTag]).test content || isConnectAlertNotificationContent (some content)

def gatewayInboxClass (m : InboundMessage) : GatewayInboxClass :=
  if m.source = some .heartbeat then .heartbeat
  else if m.source = some .cron then .cron
  else if m.metadataText "schedulerClass" = some (js "routine-task") ∨
      isRoutineTaskNotificationContent m.content = true then .routineTask
  else .directControl

def gatewayInboxPriority (m : InboundMessage) : ℕ :=
  match gatewayInboxClass m with
  | .directControl => 0
  | .heartbeat => 1
  | .cron => 2
  | .routineTask => 3

def isUpper (u : UInt16) : Bool := 65 ≤ u && u ≤ 90

def isAlphanumeric (u : UInt16) : Bool := isDigit u || isUpper u || (97 ≤ u && u ≤ 122)

/-- `/\balertname=([A-Za-z0-9_]+)/i`. -/
def alertLabel : Regex :=
  cat [.wordBoundary, litI (js "alertname="), .capture (plus (.unit isWord))]

/-- `/\[Alert(?: Resolved)?\][^\n]*\b([A-Z][A-Za-z0-9]{8,})\b/`. -/
def alertTitle : Regex :=
  cat [lit (js "[Alert"), opt (lit (js " Resolved")), lit (js "]"),
    star (.unit fun u => u != newline), .wordBoundary,
    .capture (.seq (.unit isUpper) (.rep true 8 none (.unit isAlphanumeric))), .wordBoundary]

/-- `/\b[A-Z][A-Z0-9]*-\d+\b/i`. -/
def ticket : Regex :=
  cat [.wordBoundary, .unit (fun u => isUpper u || (97 ≤ u && u ≤ 122)),
    star (.unit isAlphanumeric), lit (js "-"), plus digit, .wordBoundary]

/-- The key notices of one task share. -/
def gatewayTaskNotificationKey (upper : Text → Text) (m : InboundMessage) : Option Text :=
  if gatewayInboxClass m ≠ .routineTask then none
  else
    match (m.metadataText "schedulerTaskKey").filter fun k => trim k ≠ [] with
    | some explicit => some (upper (trim explicit))
    | none =>
        match m.content with
        | none => none
        | some content =>
            match ((alertLabel.exec content).bind Match.group).orElse fun _ =>
                (alertTitle.exec content).bind Match.group with
            | some alertName => some (js "ALERT:" ++ upper alertName)
            | none => (ticket.exec content).map fun found => upper found.text

/-! ## The inbox -/

structure Inbox where
  queue : List InboundMessage
  /-- The rows that were admitted before. -/
  admittedContinuations : List ℕ
  /-- A consumer waits for the resolver. -/
  waiting : Bool
  arrivalSequence : ℕ → Option ℤ
  nextArrivalSequence : ℕ
  coalescedHeartbeatCount : ℕ
  ingressSealed : Bool
  admissionVersion : ℕ
  workSessionActive : Bool

def Inbox.empty : Inbox where
  queue := []
  admittedContinuations := []
  waiting := false
  arrivalSequence := fun _ => none
  nextArrivalSequence := 0
  coalescedHeartbeatCount := 0
  ingressSealed := false
  admissionVersion := 0
  workSessionActive := false

def Inbox.isContinuation (s : Inbox) (row : InboundMessage) : Bool :=
  s.admittedContinuations.contains row.ref

/-- What a call reads off the machine: the time, and the object a digest is. -/
structure Fresh where
  now : ℕ
  ref : ℕ

/-- `arrivalSequence.set`. -/
def Inbox.arrive (s : Inbox) (m : InboundMessage) (place : ℤ) : Inbox :=
  { s with arrivalSequence := fun ref => if ref = m.ref then some place else s.arrivalSequence ref }

/-- Before the first row of a lower class. -/
def insertByPriority (m : InboundMessage) (queue : List InboundMessage) : List InboundMessage :=
  match queue.findIdx? fun queued => gatewayInboxPriority m < gatewayInboxPriority queued with
  | none => queue ++ [m]
  | some i => queue.take i ++ m :: queue.drop i

/-- The row a notice takes the place of. -/
def Inbox.duplicateIndex (upper : Text → Text) (s : Inbox) (m : InboundMessage) : Option ℕ :=
  match gatewayTaskNotificationKey upper m with
  | none | some [] => none
  | some taskKey =>
      s.queue.findIdx? fun queued => !s.isContinuation queued &&
        decide (gatewayTaskNotificationKey upper queued = some taskKey)

def Inbox.enqueueMessage (upper : Text → Text) (s : Inbox) (m : InboundMessage) : Inbox :=
  match s.duplicateIndex upper m with
  | some i =>
      match s.queue[i]? with
      | none => s
      | some replaced =>
          match s.arrivalSequence replaced.ref with
          | some place => { s.arrive m place with queue := s.queue.set i m }
          | none =>
              { s.arrive m s.nextArrivalSequence with
                nextArrivalSequence := s.nextArrivalSequence + 1
                queue := s.queue.set i m }
  | none =>
      { s.arrive m s.nextArrivalSequence with
        nextArrivalSequence := s.nextArrivalSequence + 1
        queue := insertByPriority m s.queue }

def Inbox.droppable (s : Inbox) (row : InboundMessage) : Bool :=
  isWorkingDeferredTaskNotification row && !s.isContinuation row

def Inbox.dropWorkingDeferred (s : Inbox) : Inbox :=
  { s with queue := s.queue.filter fun row => !s.droppable row }

/-- The notices that are let in together. -/
def Inbox.holds (s : Inbox) (row : InboundMessage) : Bool :=
  s.droppable row && !isConnectAlertNotificationContent row.content

def digestText (held : ℕ) (keys : List Text) : Text :=
  js "[system] [Task notifications] " ++ decimal held ++ js " Pulse assignment/update notice" ++
    (if held = 1 then [] else js "s") ++ js " arrived while idle" ++
    (if keys = [] then [] else js ": " ++ join (js ", ") keys) ++ js ". " ++
    js "They are already on your Pulse queue — call mcp__shizuha-pulse__pulse_get_my_tasks. " ++
    js "Do not abandon in-progress work to chase these."

/-- One message for several notices. -/
def digest (upper : Text → Text) (fresh : Fresh) (first : InboundMessage)
    (held : List InboundMessage) : InboundMessage :=
  let keys := keepFirst id []
    ((held.filterMap (gatewayTaskNotificationKey upper)).filter fun key => key ≠ [])
  let named := if keys = [] then first.id else join (js ",") keys
  let fields := [(js "schedulerClass", Json.str (js "routine-task")),
    (js "syntheticDigest", .bool true), (js "coalescedCount", .num (.ofMagnitude held.length)),
    (js "coalescedTaskKeys", .arr (keys.map .str))]
  { first with
    ref := fresh.ref
    id := js "task-notification-digest:" ++ named
    content := some (digestText held.length keys)
    timestamp := fresh.now
    metadata :=
      some (fields.foldl (fun acc f => setField f.1 f.2 acc) (first.metadata.getD [])) }

def Inbox.takeWorkingDeferredAdmission (upper : Text → Text) (fresh : Fresh) (s : Inbox) :
    Option InboundMessage × Inbox :=
  match s.queue.filter s.holds with
  | [] => (none, s)
  | [row] => (some row, { s with queue := s.queue.filter fun row => !s.holds row })
  | first :: rest =>
      (some (digest upper fresh first (first :: rest)),
        { s with queue := s.queue.filter fun row => !s.holds row })

/-- The loop of `takeAdmissible`, from the row at index `i` on. -/
def Inbox.takeFrom (upper : Text → Text) (fresh : Fresh) (s : Inbox) :
    ℕ → List InboundMessage → Option InboundMessage × Inbox
  | _, [] => (none, s)
  | i, row :: rest =>
      if isWorkingDeferredTaskNotification row then
        if s.workSessionActive then s.takeFrom upper fresh (i + 1) rest
        else if isConnectAlertNotificationContent row.content then
          s.takeFrom upper fresh (i + 1) rest
        else s.takeWorkingDeferredAdmission upper fresh
      else
        let s := { s with queue := s.queue.eraseIdx i }
        if gatewayInboxClass row = .heartbeat then
          (some row,
            { s.dropWorkingDeferred with workSessionActive := false, coalescedHeartbeatCount := 0 })
        else (some row, { s with workSessionActive := true })

def Inbox.takeAdmissible (upper : Text → Text) (fresh : Fresh) (s : Inbox) :
    Option InboundMessage × Inbox :=
  match s.queue.findIdx? s.isContinuation with
  | some i =>
      (s.queue[i]?,
        { s with
          queue := s.queue.eraseIdx i
          admittedContinuations :=
            s.admittedContinuations.filter fun ref => (s.queue[i]?).map InboundMessage.ref ≠ some ref })
  | none => s.takeFrom upper fresh 0 s.queue

/-! ## Calls -/

/-- What a call hands out. A message is handed to the consumer by `next`, or by
the call that resolves its wait. -/
structure Outcome where
  returned : Option InboundMessage
  drained : List InboundMessage
  coalescedHeartbeats : ℕ
  accepted : Bool

def Outcome.nothing : Outcome := ⟨none, [], 0, true⟩

def Outcome.handed (m : InboundMessage) : Outcome := { Outcome.nothing with returned := some m }

def Inbox.pushDeferred (upper : Text → Text) (fresh : Fresh) (s : Inbox) (m : InboundMessage) :
    Inbox × Outcome :=
  let s := s.enqueueMessage upper m
  if s.waiting && !s.workSessionActive && !isConnectAlertNotificationContent m.content then
    match s.takeWorkingDeferredAdmission upper fresh with
    | (some admitted, s) => ({ s with waiting := false }, .handed admitted)
    | (none, s) => (s, .nothing)
  else (s, .nothing)

def Inbox.tryPush (upper : Text → Text) (fresh : Fresh) (s : Inbox) (m : InboundMessage) :
    Inbox × Outcome :=
  if s.ingressSealed then (s, { Outcome.nothing with accepted := false })
  else
    let s := { s with admissionVersion := s.admissionVersion + 1 }
    if isWorkingDeferredTaskNotification m then s.pushDeferred upper fresh m
    else if s.waiting then
      let s := { s with waiting := false }
      if gatewayInboxClass m = .heartbeat then
        ({ s.dropWorkingDeferred with workSessionActive := false }, .handed m)
      else ({ s with workSessionActive := true }, .handed m)
    else if gatewayInboxClass m = .heartbeat ∧
        s.queue.any (fun queued => gatewayInboxClass queued = .heartbeat) = true then
      ({ s with coalescedHeartbeatCount := s.coalescedHeartbeatCount + 1 }, .nothing)
    else (s.enqueueMessage upper m, .nothing)

/-- The place before everything that is queued. -/
def Inbox.earliestQueued (s : Inbox) : ℤ :=
  s.queue.foldl (fun earliest m => min earliest ((s.arrivalSequence m.ref).getD earliest))
    s.nextArrivalSequence

def Inbox.pushFront (s : Inbox) (messages : List InboundMessage) : Inbox × Outcome :=
  match messages with
  | [] => (s, .nothing)
  | first :: rest =>
      let replayStart := s.earliestQueued - messages.length
      let s := messages.zipIdx.foldl (fun s m => s.arrive m.1 (replayStart + m.2)) s
      if s.waiting then
        ({ s with waiting := false, queue := rest ++ s.queue }, .handed first)
      else ({ s with queue := messages ++ s.queue }, .nothing)

def Inbox.resumeAdmitted (s : Inbox) (messages : List InboundMessage) : Inbox × Outcome :=
  { s with
    admittedContinuations :=
      messages.map InboundMessage.ref ++ s.admittedContinuations }.pushFront messages

def Inbox.drainForRecovery (s : Inbox) : Inbox × Outcome :=
  let place (m : InboundMessage) : ℤ := (s.arrivalSequence m.ref).getD 0
  ({ s with queue := [], coalescedHeartbeatCount := 0 },
    { Outcome.nothing with
      drained := s.queue.insertionSort fun left right => place left ≤ place right
      coalescedHeartbeats := s.coalescedHeartbeatCount })

def Inbox.next (upper : Text → Text) (fresh : Fresh) (s : Inbox) : Inbox × Outcome :=
  match s.takeAdmissible upper fresh with
  | (some admitted, s) => (s, .handed admitted)
  | (none, s) => ({ s with waiting := true }, .nothing)

inductive InboxOp where
  | tryPush (fresh : Fresh) (m : InboundMessage)
  | pushFront (messages : List InboundMessage)
  | resumeAdmitted (messages : List InboundMessage)
  | next (fresh : Fresh)
  | drainForRecovery
  | sealIngress
  | unsealIngress

def Inbox.call (upper : Text → Text) (s : Inbox) : InboxOp → Inbox × Outcome
  | .tryPush fresh m => s.tryPush upper fresh m
  | .pushFront messages => s.pushFront messages
  | .resumeAdmitted messages => s.resumeAdmitted messages
  | .next fresh => s.next upper fresh
  | .drainForRecovery => s.drainForRecovery
  | .sealIngress => ({ s with ingressSealed := true }, .nothing)
  | .unsealIngress => ({ s with ingressSealed := false }, .nothing)

def inboxStep (upper : Text → Text) (s : Inbox) (op : InboxOp) : Inbox := (s.call upper op).1

end Shizuha.Gateway
