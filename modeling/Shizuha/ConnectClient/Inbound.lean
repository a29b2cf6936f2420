import Shizuha.Js.Number
import Shizuha.Js.Regex

/-!
# Messages coming in

A frame of the socket brings a message, live or replayed after a reconnect.
What becomes of it is decided in this order: it does not parse, its id was seen
before, its content asks for no turn, or it is a replay past the cap or the age
of this connection. Only then is it handed to `onMessage`.

Four things of the language and of Unicode are parameters: lower case, how a
date text reads, and two classes of code points.
-/

namespace Shizuha.ConnectClient

open Js Regex

/-! ## Frames -/

inductive ConversationType where
  | direct
  | group
  | unknown
  deriving DecidableEq

/-- The members of the `message` object that are read. The sender's id is the
text that `String` makes of it. -/
structure ConnectMessage where
  conversationId : Option Text
  content : Option Text
  senderName : Option Text
  senderId : Text
  senderUsername : Option Text
  senderEmail : Option Text
  id : Option Text
  createdAt : Option Text
  conversationType : Option Text
  senderSameOrg : Option Bool

/-- A `new_message`, or a `missed_message` when it is replayed. -/
structure InboundFrame where
  replayed : Bool
  conversationId : Option Text
  message : Option ConnectMessage

structure ParsedConnectInboundMessage where
  conversationId : Text
  content : Text
  senderId : Text
  senderName : Text
  messageId : Text
  createdAt : Option Text
  conversationType : ConversationType
  senderSameOrg : Option Bool

inductive ConnectIngressReason where
  | ackOnly
  | noReplyRequested
  | threadClose
  | reactionOnly
  deriving DecidableEq

inductive ConnectReplyObligation where
  | required
  | optional
  deriving DecidableEq

/-- A call of `onMessage`. -/
structure Delivered where
  conversationId : Text
  content : Text
  senderId : Text
  senderName : Text
  messageId : Text
  conversationType : ConversationType
  replyObligation : ConnectReplyObligation

/-- What the client takes from the language and from its environment: the limits
as the environment sets them, `none` where the number is not finite. -/
structure Platform where
  toLowerCase : Text → Text
  dateParse : Text → Option ℤ
  formatControl : ℕ → Bool
  /-- `\p{Extended_Pictographic}` and `\p{Emoji_Modifier}`. -/
  extendedPictographic : ℕ → Bool
  emojiModifier : ℕ → Bool
  selfUserId : Text
  maxMissedMessages : Option ℤ
  maxMissedAgeHours : Option ℚ

/-! ## Code points -/

def pairValue (u v : UInt16) : ℕ := 0x10000 + (u.toNat - 0xD800) * 0x400 + (v.toNat - 0xDC00)

/-- The text, code point by code point, with the units of each. -/
def codePoints : Text → List (ℕ × Text)
  | [] => []
  | [u] => [(u.toNat, [u])]
  | u :: v :: s =>
      if isHighSurrogate u && isLowSurrogate v then (pairValue u v, [u, v]) :: codePoints s
      else (u.toNat, [u]) :: codePoints (v :: s)

def isLineTerminator (u : UInt16) : Bool := u == 10 || u == 13 || u == 0x2028 || u == 0x2029

/-! ## Patterns -/

def words (ws : List Text) : Regex := oneOf (ws.map litI)

def among (s : Text) : Regex := .unit fun u => s.contains u

def spaceOr (s : Text) : Regex := .unit fun u => isSpace u || s.contains u

def spaces : Regex := plus space

def notTerminator : Regex := .unit fun u => !isLineTerminator u

/-- `^\[[^\]\s]+\]\s*`. -/
def SENDER_PREFIX_RE : Regex :=
  cat [.bos, lit (js "["), plus (.unit fun u => !(u == 93 || isSpace u)), lit (js "]"), star space]

def ACK_NO_ACTION_RE : Regex :=
  cat [.bos, words [js "acknowledged", js "confirmed", js "noted"], plus (spaceOr (js ",;:-")),
    words [js "no further action", js "no action needed"], .eos]

def BRIDGE_REPLY_RE : Regex :=
  cat [.bos, litI (js "bridge-mandated reply only"), .alt .wordBoundary (among (js ";:,.")),
    star notTerminator, .eos]

def NO_REPLY_RE : Regex :=
  cat [.bos, opt (cat [words [js "thanks", js "thank you"], star (spaceOr (js ",;:.!-"))]),
    words [js "no", js "do not", js "don't"], spaces, opt (cat [litI (js "further"), spaces]),
    oneOf [litI (js "reply"), litI (js "response"),
      cat [litI (js "acknowledg"), words [js "e", js "ement"]]],
    spaces, opt (cat [litI (js "is"), spaces]),
    words [js "needed", js "required", js "intended"], opt (among (js ".!")), .eos]

def THREAD_CLOSED_RE : Regex :=
  cat [.bos, words [js "thread", js "conversation"], spaces, opt (cat [litI (js "is"), spaces]),
    words [js "closed", js "resolved", js "archived"], opt (among (js ".!")), .eos]

def CLOSING_THREAD_RE : Regex :=
  cat [.bos, litI (js "closing"), spaces, opt (cat [litI (js "this"), spaces]),
    litI (js "thread"), opt (among (js ".!")), .eos]

def QUESTION_RE : Regex := cat [lit (js "?"), .alt space .eos]

def PLEASE_RE : Regex :=
  cat [.wordBoundary, words [js "please", js "kindly"], spaces,
    words [js "reply", js "respond", js "inspect", js "check", js "review", js "verify", js "send",
      js "run", js "fix", js "deploy", js "proceed"], .wordBoundary]

def REPLY_WITH_RE : Regex :=
  cat [.wordBoundary, litI (js "reply"), spaces,
    .alt (litI (js "exactly"))
      (cat [litI (js "with"), spaces, opt (cat [litI (js "the"), spaces]),
        words [js "word", js "phrase", js "text"]]), .wordBoundary]

def CONNECT_ACK_ONLY : List Text :=
  ["ack", "acknowledged", "confirmed", "closed", "done", "got it", "noted", "ok", "okay",
    "received", "resolved", "sounds good", "thanks", "thank you", "understood", "all set",
    "no action needed", "no further action", "no further action needed", "no change",
    "no gate-state change", "response path ended", "stopped", "loop ended"].map js

section

variable (env : Platform)

/-! ## Classification -/

def connectMessageBody (content : Text) : Text :=
  let visible := ((codePoints content).filter fun c => !env.formatControl c.1).flatMap Prod.snd
  trim (SENDER_PREFIX_RE.replaceFirst (fun _ => []) (trim visible))

/-- Nothing but emoji, modifiers, joiners and white space, and an emoji on the
first line. -/
def isEmojiOnly (body : Text) : Bool :=
  let points := codePoints body
  decide (points ≠ []) &&
    (points.takeWhile fun c => !c.2.any isLineTerminator).any
      (fun c => env.extendedPictographic c.1) &&
    points.all fun c => env.extendedPictographic c.1 || env.emojiModifier c.1 ||
      c.1 == 0xFE0F || c.1 == 0x200D || c.2.all isSpace

def classifyConnectTurnSuppression (content : Text) : Option ConnectIngressReason :=
  let body := connectMessageBody env content
  let normalized := trim ((env.toLowerCase body).rdropWhile fun u => (js ".!").contains u)
  if body = [] then some .ackOnly
  else if CONNECT_ACK_ONLY.contains normalized then some .ackOnly
  else if ACK_NO_ACTION_RE.test normalized then some .ackOnly
  else if BRIDGE_REPLY_RE.test body then some .noReplyRequested
  else if NO_REPLY_RE.test body then some .noReplyRequested
  else if THREAD_CLOSED_RE.test body || CLOSING_THREAD_RE.test body then some .threadClose
  else if body = js "+1" ∨ body = js "-1" ∨ isEmojiOnly env body = true then some .reactionOnly
  else none

def classifyConnectReplyObligation (content : Text) : ConnectReplyObligation :=
  let body := connectMessageBody env content
  if QUESTION_RE.test body || PLEASE_RE.test body || REPLY_WITH_RE.test body then .required
  else .optional

/-! ## Parsing -/

def ConversationType.ofText (t : Option Text) : ConversationType :=
  if t = some (js "direct") then .direct else if t = some (js "group") then .group else .unknown

/-- The name in front of the content: the username, else the local part of the
address, else the first word of the name. -/
def senderUsernameOf (m : ConnectMessage) : Text :=
  let username := trim (m.senderUsername.getD [])
  let email := m.senderEmail.getD []
  let name := m.senderName.getD []
  let username := if username = [] ∧ email ≠ [] then trim (email.takeWhile (· != 64)) else username
  if username = [] ∧ name ≠ [] then env.toLowerCase (name.takeWhile fun u => !isSpace u)
  else username

def parseConnectInboundMessageEvent (msg : InboundFrame) : Option ParsedConnectInboundMessage :=
  match msg.message with
  | none => none
  | some m =>
      let convId := trim ((msg.conversationId <|> m.conversationId).getD [])
      let rawContent := trim (m.content.getD [])
      let username := senderUsernameOf env m
      if convId = [] ∨ rawContent = [] then none
      else if env.selfUserId ≠ [] ∧ m.senderId ≠ [] ∧ m.senderId = env.selfUserId then none
      else some
        { conversationId := convId
          content := if username = [] then rawContent
            else js "[" ++ username ++ js "] " ++ rawContent
          senderId := m.senderId
          senderName := if username = [] then m.senderName.getD [] else username
          messageId := m.id.getD []
          createdAt := m.createdAt
          conversationType := .ofText m.conversationType
          senderSameOrg := m.senderSameOrg }

/-! ## The limits of a replay -/

def DEFAULT_MAX_MISSED_REPLAY_MESSAGES : ℤ := 100

def DEFAULT_MAX_MISSED_REPLAY_AGE_HOURS : ℚ := 24 * 7

inductive ReplayRefusal where
  | replayCap
  | replayTooOld
  deriving DecidableEq

/-- `none` when the replay is accepted. -/
def shouldAcceptMissedMessageReplay (createdAt : Option Text) (acceptedCount : ℕ) (nowMs : ℤ) :
    Option ReplayRefusal :=
  let max := max 0 (env.maxMissedMessages.getD DEFAULT_MAX_MISSED_REPLAY_MESSAGES)
  let ageHours := env.maxMissedAgeHours.getD DEFAULT_MAX_MISSED_REPLAY_AGE_HOURS
  if max ≤ acceptedCount then some .replayCap
  else
    match createdAt.bind fun t => if t = [] then none else env.dateParse t with
    | none => none
    | some createdMs =>
        if 0 < ageHours ∧ fmul (fmul (fmul ageHours 60) 60) 1000 < ((nowMs - createdMs : ℤ) : ℚ)
        then some .replayTooOld
        else none

/-! ## The client -/

/-- What the client keeps about messages, and the calls of `onMessage` so far. -/
structure InboundState where
  missedReplayAccepted : ℕ
  /-- In the order of insertion. -/
  recentInboundMessageIds : List Text
  delivered : List Delivered

/-- The open event of a socket. -/
def InboundState.opened (s : InboundState) : InboundState := { s with missedReplayAccepted := 0 }

/-- `add`, and the oldest one out when there are too many. -/
def InboundState.remember (s : InboundState) (messageId : Text) : InboundState :=
  if messageId = [] then s
  else
    let ids := s.recentInboundMessageIds ++ [messageId]
    { s with recentInboundMessageIds := if 2048 < ids.length then ids.tail else ids }

def suppressionReason (p : ParsedConnectInboundMessage) : Option ConnectIngressReason :=
  if p.conversationType ≠ .unknown ∧ p.senderSameOrg = some true then
    classifyConnectTurnSuppression env p.content
  else none

def replyObligation (p : ParsedConnectInboundMessage) : ConnectReplyObligation :=
  if p.conversationType = .unknown then .optional
  else if p.senderSameOrg = some true ∨ p.conversationType = .group then
    classifyConnectReplyObligation env p.content
  else .optional

def InboundState.deliver (s : InboundState) (p : ParsedConnectInboundMessage) : InboundState :=
  { s with
    delivered := s.delivered ++
      [⟨p.conversationId, p.content, p.senderId, p.senderName, p.messageId, p.conversationType,
        replyObligation env p⟩] }

/-- Past the duplicates: the content, then the limits of a replay. -/
def InboundState.admitNew (s : InboundState) (nowMs : ℤ) (replayed : Bool)
    (p : ParsedConnectInboundMessage) : InboundState :=
  if (suppressionReason env p).isSome then s
  else if replayed then
    match shouldAcceptMissedMessageReplay env p.createdAt s.missedReplayAccepted nowMs with
    | some _ => s
    | none => { s with missedReplayAccepted := s.missedReplayAccepted + 1 }.deliver env p
  else s.deliver env p

/-- The `new_message` and `missed_message` branch of `handleMessage`. -/
def InboundState.handleMessage (s : InboundState) (nowMs : ℤ) (msg : InboundFrame) :
    InboundState :=
  match parseConnectInboundMessageEvent env msg with
  | none => s
  | some p =>
      if p.messageId ≠ [] ∧ p.messageId ∈ s.recentInboundMessageIds then s
      else (s.remember p.messageId).admitNew env nowMs msg.replayed p

end

end Shizuha.ConnectClient
