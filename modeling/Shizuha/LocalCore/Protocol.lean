import Shizuha.Agent.Types
import Shizuha.Js.Stream

/-!
# The local core's event stream

`parseCoreStreamEvent` reads one event, `consumeSse` a response body: it
decodes the chunks as they come, cuts the text at every empty line and hands
the data of each piece to the handler. A piece whose data is no event ends the
reading with an exception.
-/

namespace Shizuha.LocalCore

open Js Agent

/-! ## Events -/

structure StructuredCoreErrorPayload where
  code : Text
  message : Text
  retryable : Bool
  details : Option Json
  requestId : Option Text

structure DiffProposedPayload where
  filePath : Text
  originalContent : Option Text
  proposedContent : Text
  description : Option Text
  language : Option Text
  isUnsupported : Bool
  unsupportedReason : Option Text

inductive CoreStreamEvent where
  | token (text : Text)
  | toolCall (id : Text) (name : Option Text) (content : Option Json)
  | toolResult (id : Text) (name : Option Text) (content : Option Json)
  | diffProposed (diff : DiffProposedPayload)
  | runStatus (status : Text)
  | error (error : StructuredCoreErrorPayload)
  | done

/-- What reading an event throws. -/
inductive CoreStreamException where
  | syntaxError
  | typeError
  | error (message : Text)

/-- `a ?? b`. -/
def coalesce (a b : Option Json) : Option Json :=
  match a with
  | none | some .null => b
  | some v => some v

mutual

/-- `String(v)` of a value read from JSON. An object whose own `toString` is
no function, and with no other way to become a primitive, makes it throw. -/
def stringOf : Json → Option Text
  | .null => some (js "null")
  | .bool true => some (js "true")
  | .bool false => some (js "false")
  | .num (.finite x) => some (finiteText x)
  | .num (.infinite false) => some (js "Infinity")
  | .num (.infinite true) => some (js "-Infinity")
  | .str s => some s
  | .arr items => (joinedItems items).map (join (js ","))
  | .obj fields => if (field "toString" (.obj fields)).isSome then none else some (js "[object Object]")

/-- The items as `join` writes them: nothing for `null`. -/
def joinedItems : List Json → Option (List Text)
  | [] => some []
  | .null :: rest => (joinedItems rest).map ([] :: ·)
  | v :: rest => do
      let s ← stringOf v
      let more ← joinedItems rest
      some (s :: more)

end

def structuredErrorPayload (value : Option Json) : StructuredCoreErrorPayload :=
  let row := value.getD .null
  { code := (textField "code" row).getD (js "CORE_STREAM_ERROR")
    message := (textField "message" row).getD (js "Local core stream returned an error")
    retryable := (boolField "retryable" row).getD false
    details := field "details" row
    requestId := textField "request_id" row }

def proposedDiff (diff : Json) : DiffProposedPayload :=
  { filePath := (textField "file_path" diff).getD (js "unknown")
    originalContent := textField "original_content" diff
    proposedContent := (textField "proposed_content" diff).getD []
    description := textField "description" diff
    language := textField "language" diff
    isUnsupported := boolField "unsupported" diff == some true
    unsupportedReason := textField "unsupported_reason" diff }

/-- An event of a row with a type. -/
def eventOfType (type : Text) (row : Json) : Except CoreStreamException CoreStreamEvent :=
  if type = js "token" then
    match textField "text" row with
    | some text => .ok (.token text)
    | none =>
        match stringOf ((coalesce (field "content" row) none).getD (.str [])) with
        | some text => .ok (.token text)
        | none => .error .typeError
  else if type = js "tool_call" then
    .ok (.toolCall ((textField "id" row).getD (type ++ js "-unknown")) (textField "name" row)
      (coalesce (field "content" row) (field "payload" row)))
  else if type = js "tool_result" then
    .ok (.toolResult ((textField "id" row).getD (type ++ js "-unknown")) (textField "name" row)
      (coalesce (field "content" row) (field "payload" row)))
  else if type = js "run_status" then
    .ok (.runStatus ((textField "status" row).getD (js "running")))
  else if type = js "error" then
    .ok (.error (structuredErrorPayload (coalesce (field "error" row) (some row))))
  else if type = js "diff_proposed" then
    .ok (.diffProposed (proposedDiff ((coalesce (field "diff" row) none).getD row)))
  else if type = js "done" then .ok .done
  -- The names of the core's own events.
  else if type = js "content" ∨ type = js "reasoning_text" then
    .ok (.token ((textField "text" row).getD []))
  else if type = js "tool_start" then
    .ok (.toolCall ((textField "toolCallId" row).getD (js "tool-start-unknown"))
      (textField "toolName" row) (field "input" row))
  else if type = js "tool_progress" ∨ type = js "tool_complete" then
    .ok (.toolResult ((textField "toolCallId" row).getD (js "tool-result-unknown"))
      (textField "toolName" row)
      (coalesce (field "result" row) (coalesce (field "output" row) (field "metadata" row))))
  else if type = js "session_start" ∨ type = js "turn_start" ∨ type = js "turn_complete" ∨
      type = js "thinking" ∨ type = js "reasoning" then .ok (.runStatus (js "running"))
  else if type = js "complete" then .ok .done
  else .error (.error (js "unsupported stream event type: " ++ type))

/-- `parseCoreStreamEvent` of a text. -/
def parseCoreStreamEvent (value : Text) : Except CoreStreamException CoreStreamEvent :=
  match Json.parse value with
  | none => .error .syntaxError
  | some row =>
      match textField "type" row with
      | some type => eventOfType type row
      | none => .error (.error (js "stream event must be an object with a type"))

/-! ## Frames -/

/-- `split(/\r?\n/)`. -/
def splitLines : Text → List Text
  | [] => [[]]
  | u :: s =>
      if u = 10 then [] :: splitLines s
      else if u = 13 ∧ s.head? = some 10 then splitLines s
      else
        match splitLines s with
        | [] => [[u]]
        | l :: rest => (u :: l) :: rest

def trimStart (s : Text) : Text := s.dropWhile isSpace

/-- What a data line carries. -/
def dataValue (line : Text) : Option Text :=
  if startsWith line (js "data:") then some (trimStart (line.drop 5)) else none

def frameData (frame : Text) : Text :=
  join (js "\n") ((splitLines frame).filterMap dataValue)

/-- The exception, and the events handed over before it. -/
structure SseFailure where
  calls : List CoreStreamEvent
  exception : CoreStreamException

def onFrame (calls : List CoreStreamEvent) (frame : Text) :
    Except SseFailure (List CoreStreamEvent) :=
  if frameData frame = [] then .ok calls
  else
    match parseCoreStreamEvent (frameData frame) with
    | .ok event => .ok (calls ++ [event])
    | .error exception => .error ⟨calls, exception⟩

structure SseReader where
  buffer : Text
  calls : List CoreStreamEvent

namespace SseReader

/-- The loop of `flush`. A round takes two units from the buffer at least. -/
def flushLoop : ℕ → SseReader → Except SseFailure SseReader
  | 0, r => .ok r
  | fuel + 1, r =>
      match indexOf (js "\n\n") r.buffer with
      | none => .ok r
      | some boundary =>
          match onFrame r.calls (r.buffer.take boundary) with
          | .error failure => .error failure
          | .ok calls => flushLoop fuel ⟨r.buffer.drop (boundary + 2), calls⟩

def flush (r : SseReader) (chunk : Text) : Except SseFailure SseReader :=
  flushLoop (r.buffer ++ chunk).length ⟨r.buffer ++ chunk, r.calls⟩

end SseReader

def consumeFrom (decoder : TextDecoder) (r : SseReader) :
    List Bytes → Except SseFailure (List CoreStreamEvent)
  | [] => (r.flush decoder.finish).map SseReader.calls
  | value :: rest =>
      match r.flush (decoder.decode value).1 with
      | .error failure => .error failure
      | .ok r => consumeFrom (decoder.decode value).2 r rest

/-- The events handed to the handler, of a body that comes in these chunks. -/
def consumeSse (chunks : List Bytes) : Except SseFailure (List CoreStreamEvent) :=
  consumeFrom .init ⟨[], []⟩ chunks

end Shizuha.LocalCore
