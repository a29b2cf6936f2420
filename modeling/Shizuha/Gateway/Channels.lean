import Shizuha.Js.Regex
import Shizuha.Gateway.DeliveryQueue

/-!
# Streaming a reply to a chat

The Discord and the Telegram channel show a reply while it is written: one
message is posted, edited as the text grows, and followed by more messages once
a long reply is complete. The two differ in their limits, their decorations and
in what they try again without markdown; the flush is the same.

A flush awaits one API call after the other, and several flushes are under way
at once. So a flush is given as its calls and what follows the answer to each of
them: `startCalls` is what it does before its first `await`, `next` what it does
after a later one. What it has to remember is the chunks of its text.
-/

namespace Shizuha.Gateway

open Js

/-! ## Texts -/

structure ChatStyle where
  /-- `MAX_MESSAGE_LENGTH` -/
  maxLength : ℕ
  maxLength_pos : 0 < maxLength
  errorText : Text → Text
  /-- The line of the tools at work. -/
  toolLine : List Text → Text
  /-- The streaming indicator. -/
  indicator : Text
  /-- What a call is repeated with when its markdown fails, where it is. -/
  stripMarkdown : Option (Text → Text)

/-- Where a text over the limit is cut. -/
def ChatStyle.splitAt (style : ChatStyle) (remaining : Text) : ℕ :=
  let atNewline := lastIndexOf newline remaining style.maxLength
  let atSpace :=
    if atNewline.all (· * 2 < style.maxLength) then lastIndexOf 32 remaining style.maxLength
    else atNewline
  match atSpace with
  | none => style.maxLength
  | some k => if k * 10 < style.maxLength * 3 then style.maxLength else k

/-- The loop of `splitMessage`; a cut is never empty, so the length is enough
fuel. -/
def ChatStyle.splitLoop (style : ChatStyle) : ℕ → Text → List Text
  | 0, _ => []
  | fuel + 1, remaining =>
      if remaining = [] then []
      else if remaining.length ≤ style.maxLength then [remaining]
      else
        remaining.take (style.splitAt remaining) ::
          style.splitLoop fuel (trimStart (remaining.drop (style.splitAt remaining)))

def ChatStyle.splitMessage (style : ChatStyle) (text : Text) : List Text :=
  if text.length ≤ style.maxLength then [text]
  else style.splitLoop (text.length + 1) text

/-! ## The two channels -/

/-- `_*[]()~>#+=|\x7b\x7d.!\-` -/
def markdownUnits : Text := js "_*[]()~>#+=|\x7b\x7d.!\\-"

def groupOf (m : Match) : Text := m.group.getD []

open Regex in
def telegramStripMarkdown (text : Text) : Text :=
  let text := (cat [lit (js "\\"), capture (unit fun u => markdownUnits.contains u)]).replaceAll
    groupOf text
  let text := (cat [lit (js "```"), lazyStar anyUnit, lit (js "```")]).replaceAll
    (fun m => (m.text.drop 3).dropLast.dropLast.dropLast) text
  let text := (cat [lit (js "`"), capture (plus (unit (· ≠ 96))), lit (js "`")]).replaceAll
    groupOf text
  let text := (cat [lit (js "**"), capture (plus (unit (· ≠ 42))), lit (js "**")]).replaceAll
    groupOf text
  let text := (cat [lit (js "*"), capture (plus (unit (· ≠ 42))), lit (js "*")]).replaceAll
    groupOf text
  (cat [lit (js " ▍"), eos]).replaceAll (fun _ => []) text

def discord : ChatStyle where
  maxLength := 2000
  maxLength_pos := by decide
  errorText error := js "\n\n> **Error:** " ++ error
  toolLine tools := js "-# Working: " ++ join (js " ") (tools.map fun t => js "`" ++ t ++ js "`")
  indicator := js " **|**"
  stripMarkdown := none

def telegram : ChatStyle where
  maxLength := 4096
  maxLength_pos := by decide
  errorText error := js "\n\n⚠️ Error: " ++ error
  toolLine tools := join (js " ") (tools.map fun t => js "⚙️ " ++ t)
  indicator := js " ▍"
  stripMarkdown := some telegramStripMarkdown

/-! ## A flush -/

structure ActiveResponse where
  sentMessageId : Option ℕ
  accumulated : Text
  toolCalls : List Text
  complete : Bool
  /-- Whether the timer is set. -/
  editTimer : Bool

def ChatStyle.formatResponse (style : ChatStyle) (resp : ActiveResponse) : Text :=
  if resp.accumulated = [] ∧ resp.toolCalls = [] then []
  else
    let text :=
      if resp.toolCalls ≠ [] ∧ !resp.complete then
        if resp.accumulated = [] then style.toolLine resp.toolCalls
        else resp.accumulated ++ js "\n\n" ++ style.toolLine resp.toolCalls
      else resp.accumulated
    if !resp.complete ∧ text ≠ [] then text ++ style.indicator else text

/-- The API calls of a flush. The first chunk is posted, or edited into the
message that is there; the others are always posted. -/
inductive FlushCall where
  | post
  | postPlain
  | edit
  | editPlain
  | more (i : ℕ)
  | morePlain (i : ℕ)
  deriving DecidableEq

/-- How a call ends: the API answers that it is done, with the message's id, or
answers something else, or the call throws. -/
inductive ApiOutcome where
  | accepted (id : ℕ)
  | errorBody
  | rejected
  deriving DecidableEq

def ApiOutcome.ok : ApiOutcome → Bool
  | .accepted _ => true
  | _ => false

/-- The chunk a call carries. -/
def FlushCall.index : FlushCall → ℕ
  | .post | .postPlain | .edit | .editPlain => 0
  | .more i | .morePlain i => i

def FlushCall.isPlain : FlushCall → Bool
  | .postPlain | .editPlain | .morePlain _ => true
  | .post | .edit | .more _ => false

/-- The text a call sends. -/
def FlushCall.content (style : ChatStyle) (chunks : List Text) (call : FlushCall) : Text :=
  let chunk := chunks.getD call.index []
  if call.isPlain then (style.stripMarkdown.getD id) chunk else chunk

/-- Posts of the chunks from one on, made when the response is complete. -/
def moreCalls (complete : Bool) (chunks : List Text) (i : ℕ) : List FlushCall :=
  if complete ∧ i < chunks.length then [.more i] else []

/-- What a flush calls first: nothing when there is nothing to show. -/
def ChatStyle.startCalls (style : ChatStyle) (resp : ActiveResponse) : List FlushCall :=
  if resp.accumulated = [] ∧ !resp.complete then []
  else if style.formatResponse resp = [] then []
  else
    let chunks := style.splitMessage (style.formatResponse resp)
    match resp.sentMessageId with
    | none => [.post]
    | some _ => if chunks.length = 1 then [.edit] else moreCalls resp.complete chunks 1

/-- The calls a flush makes on the answer to one. -/
def ChatStyle.next (style : ChatStyle) (complete : Bool) (chunks : List Text) :
    FlushCall → ApiOutcome → List FlushCall
  | .post, .accepted _ => moreCalls complete chunks 1
  | .post, .errorBody =>
      if style.stripMarkdown.isSome then [.postPlain] else moreCalls complete chunks 1
  | .post, .rejected => []
  | .postPlain, .accepted _ => moreCalls complete chunks 1
  | .postPlain, .errorBody => moreCalls complete chunks 1
  | .postPlain, .rejected => []
  | .edit, .rejected => if style.stripMarkdown.isSome then [.editPlain] else []
  | .edit, _ => []
  | .editPlain, _ => []
  | .more i, .rejected =>
      (if style.stripMarkdown.isSome then [.morePlain i] else []) ++
        moreCalls complete chunks (i + 1)
  | .more i, _ => moreCalls complete chunks (i + 1)
  | .morePlain _, _ => []

/-- A call with all the calls that follow it, when the API answers like this. -/
def ChatStyle.calls (style : ChatStyle) (complete : Bool) (chunks : List Text)
    (api : FlushCall → ApiOutcome) : ℕ → FlushCall → List FlushCall
  | 0, _ => []
  | fuel + 1, call =>
      call ::
        (style.next complete chunks call (api call)).flatMap (style.calls complete chunks api fuel)

/-- The calls of a flush: a post, the same without markdown, and the other
chunks. -/
def ChatStyle.flushEdit (style : ChatStyle) (api : FlushCall → ApiOutcome)
    (resp : ActiveResponse) : List FlushCall :=
  let chunks := style.splitMessage (style.formatResponse resp)
  (style.startCalls resp).flatMap (style.calls resp.complete chunks api (chunks.length + 2))

/-- The message id a flush notes on an answer. -/
def FlushCall.noted : FlushCall → ApiOutcome → Option ℕ
  | .post, .accepted id => some id
  | .postPlain, .accepted id => some id
  | _, _ => none

/-! ## The end of a response -/

/-- `enqueue`, on a disk that takes the file or does not. -/
def Disk.enqueue (disk : Disk) (entry : DeliveryEntry) (writable : Bool) : Disk × Option Text :=
  if writable then (disk.write (.json entry.id) entry, some entry.id) else (disk, none)

/-- The steps of `ack`, one after the other. -/
def Disk.ack (disk : Disk) (id : Text) : Disk :=
  match disk.rename (.json id) (.delivered id) with
  | none => disk
  | some disk => disk.unlink (.delivered id)

/-- What the event `complete` leaves behind. -/
structure Completed where
  calls : List FlushCall
  disk : Disk
  acked : Option Text

/-- `sendEvent` with `complete`, on a channel with a delivery queue; the entry
is the one `enqueue` makes for the accumulated text. -/
def ChatStyle.sendEventComplete (style : ChatStyle) (api : FlushCall → ApiOutcome)
    (resp : ActiveResponse) (disk : Disk) (entry : DeliveryEntry) (writable : Bool) : Completed :=
  let resp := { resp with complete := true }
  let calls := style.flushEdit api resp
  if resp.accumulated = [] then ⟨calls, disk, none⟩
  else
    match disk.enqueue entry writable with
    | (disk, none) => ⟨calls, disk, none⟩
    | (disk, some id) => ⟨calls, disk.ack id, some id⟩

/-! ## Flushes side by side

Every call succeeds here. What a call does to the chat it does when it is
answered; in between, anything else can happen.
-/

structure PendingCall where
  call : FlushCall
  /-- The chunks of its flush. -/
  chunks : List Text
  /-- The message it edits, where it edits one. -/
  messageId : ℕ
  deriving DecidableEq

structure ReplyState where
  resp : ActiveResponse
  /-- Whether the channel still has the response. -/
  active : Bool
  /-- Whether `complete` waits for the queue. -/
  enqueuing : Bool
  /-- The calls under way, in the order they were made. -/
  calls : List PendingCall
  /-- The messages posted for the response; an id is a position. -/
  messages : List Text

inductive ReplyAction where
  | content (text : Text)
  | toolStart (toolName : Text)
  | toolComplete (toolName : Text)
  | error (error : Text)
  /-- With a delivery queue or without. -/
  | complete (queue : Bool)
  | enqueued
  | sendComplete
  /-- The edit timer fires. -/
  | timer
  /-- The answer to one of the calls under way arrives. -/
  | answered (k : ℕ)

def opened : ReplyState := ⟨⟨none, [], [], false, false⟩, true, false, [], []⟩

/-- The messages after a call, and its answer. -/
def PendingCall.perform (style : ChatStyle) (pending : PendingCall) (messages : List Text) :
    List Text × ApiOutcome :=
  let text := pending.call.content style pending.chunks
  match pending.call with
  | .edit | .editPlain => (messages.set pending.messageId text, .accepted pending.messageId)
  | _ => (messages ++ [text], .accepted messages.length)

/-- A flush up to its first `await`. -/
def ChatStyle.startFlush (style : ChatStyle) (s : ReplyState) : ReplyState :=
  { s with
    calls := s.calls ++ (style.startCalls s.resp).map fun call =>
      ⟨call, style.splitMessage (style.formatResponse s.resp), s.resp.sentMessageId.getD 0⟩ }

/-- What an event does, when the channel has the response. -/
def ChatStyle.event (style : ChatStyle) (s : ReplyState) : ReplyAction → ReplyState
  | .content text =>
      { s with resp := { s.resp with
          accumulated := s.resp.accumulated ++ text, editTimer := true } }
  | .toolStart toolName =>
      { s with resp := { s.resp with toolCalls := s.resp.toolCalls ++ [toolName] } }
  | .toolComplete toolName =>
      { s with resp := { s.resp with toolCalls := s.resp.toolCalls.erase toolName } }
  | .error error =>
      style.startFlush { s with resp := { s.resp with
          accumulated := s.resp.accumulated ++ style.errorText error } }
  | .complete queue =>
      let s := { s with resp := { s.resp with complete := true } }
      if queue ∧ s.resp.accumulated ≠ [] then { s with enqueuing := true } else style.startFlush s
  | .sendComplete => { s with active := false, resp := { s.resp with editTimer := false } }
  | _ => s

def ChatStyle.replyStep (style : ChatStyle) (s : ReplyState) : ReplyAction → ReplyState
  | .enqueued => if s.enqueuing then style.startFlush { s with enqueuing := false } else s
  | .timer =>
      if s.resp.editTimer then
        style.startFlush { s with resp := { s.resp with editTimer := false } }
      else s
  | .answered k =>
      match s.calls[k]? with
      | none => s
      | some pending =>
          let (messages, outcome) := pending.perform style s.messages
          let more := style.next s.resp.complete pending.chunks pending.call outcome
          { s with
            messages := messages
            resp := { s.resp with
              sentMessageId := (pending.call.noted outcome).or s.resp.sentMessageId }
            calls := s.calls.eraseIdx k ++ more.map fun call =>
              ⟨call, pending.chunks, pending.messageId⟩ }
  | event => if s.active then style.event s event else s

end Shizuha.Gateway
