import Shizuha.Agent.Types
import Shizuha.Js.Map
import Shizuha.Js.Regex
import Shizuha.Js.Stream
import Shizuha.Process.Env

/-!
# Streamed tool calls

The streaming branch of `VLlmProvider.chat`: the body is decoded as it comes and
cut into lines, a data line is a chunk, and the tool calls of a chunk's choices
are deltas. The deltas of one call come under one index, so the calls are rebuilt
in a map under the index, and a delta that reuses an index with another id or
another name moves the call that is there to a key of its own, from 1000 up. A
call is closed when a finish reason comes, at `[DONE]` or where the body ends.

A field of another type than the interface has for it reads as one that is not
there. The text, reasoning, usage and status events are left out.
-/

namespace Shizuha.Provider

open Js Agent Process

/-! ## Chunks -/

structure ToolCallDelta where
  index : Option ℚ
  id : Option Text
  /-- `function?.name`. -/
  name : Option Text
  /-- `function?.arguments`. -/
  arguments : Option Text
  deriving DecidableEq

structure SSEChoice where
  reasoning : Option Text
  reasoningContent : Option Text
  content : Option Text
  toolCalls : Option (List ToolCallDelta)
  finishReason : Option Text
  stopReason : Option Json

structure SSEChunk where
  error : Bool
  /-- `usage.completion_tokens`. -/
  completionTokens : Option ℚ
  choices : List SSEChoice

/-- A property that is a finite number. Minus zero reads as zero, as it does
when it is a key. -/
def numberField (key : String) (v : Json) : Option ℚ :=
  match field key v with
  | some (.num (.finite x)) => some x.val
  | _ => none

/-- A property that is an array. -/
def arrayField (key : String) (v : Json) : Option (List Json) :=
  match field key v with
  | some (.arr items) => some items
  | _ => none

def ToolCallDelta.ofJson (v : Json) : ToolCallDelta :=
  let function := (field "function" v).getD .null
  { index := numberField "index" v
    id := textField "id" v
    name := textField "name" function
    arguments := textField "arguments" function }

def SSEChoice.ofJson (v : Json) : SSEChoice :=
  let delta := (field "delta" v).getD .null
  { reasoning := textField "reasoning" delta
    reasoningContent := textField "reasoning_content" delta
    content := textField "content" delta
    toolCalls := (arrayField "tool_calls" delta).map fun items => items.map ToolCallDelta.ofJson
    finishReason := textField "finish_reason" v
    stopReason := field "stop_reason" v }

def isObject : Json → Bool
  | .obj _ => true
  | _ => false

def SSEChunk.ofJson (v : Json) : SSEChunk :=
  { error := (field "error" v).any isObject
    completionTokens := (field "usage" v).bind (numberField "completion_tokens")
    choices := ((arrayField "choices" v).getD []).map SSEChoice.ofJson }

/-- What a line of the body is to the reader. -/
inductive Frame where
  | ignored
  | done
  /-- A payload that is `null`. -/
  | null
  | chunk (chunk : SSEChunk)

def readFrame (line : Text) : Frame :=
  let trimmed := trim line
  if startsWith trimmed (js "data:") then
    let payload := trim (trimmed.drop 5)
    if payload = js "[DONE]" then .done
    else
      match Json.parse payload with
      | none => .ignored
      | some .null => .null
      | some v => .chunk (SSEChunk.ofJson v)
  else .ignored

/-! ## Deltas -/

structure ToolCallBuilder where
  id : Text
  name : Text
  args : Text
  deriving DecidableEq

inductive ToolEvent where
  | toolUseStart (id name : Text)
  | toolUseDelta (id input : Text)
  | toolUseEnd (id : Text) (input : Json)

def ToolEvent.id : ToolEvent → Text
  | .toolUseStart id _ => id
  | .toolUseDelta id _ => id
  | .toolUseEnd id _ => id

/-- `/<\/?[a-z0-9_]+>/gi`. -/
def tagPattern : Regex :=
  Regex.cat [.unit (· == 60), Regex.opt (.unit (· == 47)), Regex.plus (.unit isWord),
    .unit (· == 62)]

/-- A name without the fragments of tags that leak into it. -/
def bareName (name : Option Text) : Text :=
  trim (tagPattern.replaceAll (fun _ => []) (name.getD []))

def streamedToolCallIdentityChanged (builder : ToolCallBuilder) (id name : Option Text) : Bool :=
  let incomingId := trim (id.getD [])
  let incomingName := bareName name
  (incomingId ≠ [] && incomingId ≠ builder.id) ||
    (incomingName ≠ [] && builder.name ≠ [] && incomingName ≠ builder.name)

/-- `generated` is the id there is made up for a builder that gets none. -/
def streamedToolCallIdForNewBuilder (parked : Option ToolCallBuilder) (incomingId : Option Text)
    (generated : Text) : Text :=
  let id := trim (incomingId.getD [])
  if id ≠ [] && !parked.any (fun p => p.id = id) then id else generated

/-- A text with something in it. -/
def isPresent (s : Option Text) : Bool := s.any (· ≠ [])

def glmStreamedToolCallDeltasAreReal (toolCalls : Option (List ToolCallDelta)) : Bool :=
  (toolCalls.getD []).any fun tc =>
    isPresent tc.id || isPresent (tc.name.map trim) || isPresent tc.arguments

/-- A call that was not put together from deltas. -/
structure GlmToolCall where
  name : Text
  args : Json

structure SalvagedToolCall where
  id : Text
  name : Text
  args : Json

/-- What a request comes with, and what is asked of the outside while its answer
is read. -/
structure VLlmTurn where
  toolsEnabled : Bool
  isGlmModel : Bool
  /-- Whether the headers for a second request are there. -/
  salvageHeaders : Bool
  /-- What `reverseAliases[name]` finds; the members every object inherits are
  found as well. -/
  reverseAliases : Text → Option Text
  /-- No profile has an alias without a name. -/
  namedAliases : reverseAliases [] = none
  /-- The ids made up from the time and a random number. -/
  generatedId : ℕ → Text
  /-- The calls read out of the markup in a text with `<tool_call>` in it. -/
  leakedCalls : Text → List GlmToolCall
  /-- `salvageGlmToolCall` of a name, the arguments and the content. -/
  salvageGlmToolCall : Text → Text → Text → Option GlmToolCall
  /-- `shouldDiscardSalvagedInboxListing`. -/
  discards : Text → Bool
  /-- The calls in the answers to the same request without streaming. -/
  resend : ℕ → List SalvagedToolCall

namespace VLlmTurn

def resolve (t : VLlmTurn) (name : Text) : Text := (t.reverseAliases name).getD name

end VLlmTurn

/-! ## The state between two frames -/

abbrev ToolCallBuilders := Map (Option ℚ) ToolCallBuilder

structure StreamState where
  toolCallBuilders : ToolCallBuilders
  everBuiltToolCall : Bool
  sawStreamedToolCall : Bool
  toolCallsFinalized : Bool
  recoveredLeakedToolCall : Bool
  accReasoning : Text
  accContent : Text
  completionTokens : ℚ
  lastVisibleCompletionTokens : ℚ
  idsMade : ℕ
  resends : ℕ
  /-- The tool events so far. -/
  events : List ToolEvent

def StreamState.init : StreamState :=
  ⟨Table.empty, false, false, false, false, [], [], 0, 0, 0, 0, []⟩

/-- The keys of the calls that were moved. -/
def parkedKey (n : ℕ) : Option ℚ := some n

/-- The call under an index goes to the first free key. -/
def park (builders : ToolCallBuilders) (index : Option ℚ) : ToolCallBuilders :=
  match builders.find index with
  | none => builders
  | some opened =>
      let parked := builders.firstFree parkedKey builders.size (1000 + builders.size)
      (builders.set (parkedKey parked) opened).remove index

def addStart (id name : Text) : List ToolEvent := if name = [] then [] else [.toolUseStart id name]

/-- The call a delta goes to is there: as it was, or new. -/
def openBuilder (t : VLlmTurn) (s : StreamState) (tc : ToolCallDelta) : StreamState :=
  let name := t.resolve (bareName tc.name)
  let opened := s.toolCallBuilders.find tc.index
  let builders :=
    if opened.any fun b => streamedToolCallIdentityChanged b tc.id (some name) then
      park s.toolCallBuilders tc.index
    else s.toolCallBuilders
  if (builders.find tc.index).isSome then { s with toolCallBuilders := builders }
  else
    let id := streamedToolCallIdForNewBuilder opened tc.id (t.generatedId s.idsMade)
    { s with
      toolCallBuilders := builders.set tc.index ⟨id, name, []⟩
      everBuiltToolCall := true
      idsMade := s.idsMade + 1
      events := s.events ++ addStart id name }

/-- What a delta adds to the call it goes to: a name that came late, a piece of
the arguments. -/
def extendBuilder (t : VLlmTurn) (tc : ToolCallDelta) (b : ToolCallBuilder) :
    ToolCallBuilder × List ToolEvent :=
  let name := t.resolve (bareName tc.name)
  let late := b.name = [] ∧ isPresent tc.name = true ∧ name ≠ []
  let named : ToolCallBuilder := if late then { b with name := name } else b
  let input := tc.arguments.getD []
  ({ named with args := named.args ++ input },
    (if late then [.toolUseStart b.id name] else []) ++
      if input = [] then [] else [.toolUseDelta b.id input])

def onToolCallDelta (t : VLlmTurn) (s : StreamState) (tc : ToolCallDelta) : StreamState :=
  let s := openBuilder t s tc
  match s.toolCallBuilders.find tc.index with
  | none => s
  | some builder =>
      let extended := extendBuilder t tc builder
      { s with
        toolCallBuilders := s.toolCallBuilders.set tc.index extended.1
        events := s.events ++ extended.2 }

/-! ## Closing the calls -/

/-- `JSON.parse(args || '{}')`. -/
def parseArguments (args : Text) : Option Json :=
  Json.parse (if args = [] then js "\x7b\x7d" else args)

/-- The end of a call whose arguments are `{}` when they cannot be parsed. -/
def closeBuilder (b : ToolCallBuilder) : ToolEvent :=
  .toolUseEnd b.id ((parseArguments b.args).getD (.obj []))

def toolCallMarker : Text := js "<tool_call>"

def VLlmTurn.extractGlmToolCalls (t : VLlmTurn) (text : Text) : List GlmToolCall :=
  if includes text toolCallMarker then t.leakedCalls text else []

/-- `!input || Object.keys(input).length === 0`. -/
def isEmptyInput : Json → Bool
  | .str s => s.isEmpty
  | .arr items => items.isEmpty
  | .obj fields => fields.isEmpty
  | _ => true

/-- The first recovered call of a name that is not used up. -/
def VLlmTurn.recoveryIndex (t : VLlmTurn) (recovery : List GlmToolCall) (consumed : List ℕ)
    (name : Text) : Option (GlmToolCall × ℕ) :=
  recovery.zipIdx.find? fun call => !consumed.contains call.2 && t.resolve call.1.name = name

/-- The end of a call at a finish reason, when nothing was recovered for it. -/
def closeAtFinish (t : VLlmTurn) (accContent : Text) (b : ToolCallBuilder) : List ToolEvent :=
  match parseArguments b.args with
  | some input => [.toolUseEnd b.id input]
  | none =>
      if trim b.args = [] then [.toolUseEnd b.id (.obj [])]
      else
        match t.salvageGlmToolCall b.name b.args accContent with
        | some salvaged =>
            (if salvaged.name ≠ b.name then [.toolUseStart b.id salvaged.name] else []) ++
              [.toolUseEnd b.id salvaged.args]
        | none => [.toolUseEnd b.id (.obj [])]

def flushAtFinish (t : VLlmTurn) (accContent : Text) (shellRecovery : List GlmToolCall) :
    List ℕ → List ToolCallBuilder → List ToolEvent
  | _, [] => []
  | consumed, b :: rest =>
      match t.recoveryIndex shellRecovery consumed b.name with
      | some (call, index) =>
          let parsed := parseArguments b.args
          let input := if parsed.all isEmptyInput then call.args else parsed.getD call.args
          .toolUseEnd b.id input :: flushAtFinish t accContent shellRecovery (index :: consumed) rest
      | none => closeAtFinish t accContent b ++ flushAtFinish t accContent shellRecovery consumed rest

/-- A call that is started and ended at once. -/
def wholeCall (id name : Text) (args : Json) : List ToolEvent :=
  [.toolUseStart id name, .toolUseEnd id args]

def addRecovered (t : VLlmTurn) (s : StreamState) (call : GlmToolCall) : StreamState :=
  { s with
    idsMade := s.idsMade + 1
    events := s.events ++ wholeCall (t.generatedId s.idsMade) (t.resolve call.name) call.args }

def buildRecoveredToolEvents (t : VLlmTurn) (s : StreamState) : StreamState :=
  if !t.toolsEnabled || s.toolCallsFinalized then s
  else
    let s := { s with toolCallsFinalized := true }
    if s.sawStreamedToolCall then s
    else
      let combined := s.accReasoning ++ js "\n" ++ s.accContent
      let kept := (t.extractGlmToolCalls combined).filter fun call => !t.discards call.name
      if kept.isEmpty then s else kept.foldl (addRecovered t) { s with recoveredLeakedToolCall := true }

/-- At `[DONE]`, and where the body ends without it. -/
def closeStream (t : VLlmTurn) (s : StreamState) : StreamState :=
  buildRecoveredToolEvents t
    { s with
      toolCallBuilders := Table.empty
      events := s.events ++ s.toolCallBuilders.values.map closeBuilder }

/-! ## A finish reason -/

def glmObservationTokenId : ℚ := 154829

def isGlmObservationStopToken (stopReason : Option Json) : Bool :=
  match stopReason with
  | some (.num (.finite x)) => x.val = glmObservationTokenId
  | some (.str s) =>
      match toNumber s with
      | some (.finite x) => s ≠ [] && x.val = glmObservationTokenId
      | _ => false
  | _ => false

def shouldTreatGlmStopAsDroppedToolCall (t : VLlmTurn) (finishReason : Text)
    (stopReason : Option Json) (eatenTokens : ℚ) (hasParsedTools : Bool) : Bool :=
  if !t.isGlmModel || !t.toolsEnabled || hasParsedTools then false
  else if finishReason ≠ js "stop" then false
  else isGlmObservationStopToken stopReason || decide (8 ≤ eatenTokens)

def shouldSalvageGlmObservationNonStream (s : StreamState) (eatenTokens : ℚ) : Bool :=
  if includes s.accContent toolCallMarker || includes s.accReasoning toolCallMarker then true
  else if 200 < s.accContent.length + s.accReasoning.length then false
  else decide (8 ≤ eatenTokens)

/-- The same request is sent again, without streaming. -/
def salvageNonStream (t : VLlmTurn) (s : StreamState) : StreamState :=
  let kept := (t.resend s.resends).filter fun tc => !t.discards tc.name
  { s with
    resends := s.resends + 1
    recoveredLeakedToolCall := s.recoveredLeakedToolCall || !kept.isEmpty
    events := s.events ++ kept.flatMap fun tc => wholeCall tc.id (t.resolve tc.name) tc.args }

def flushBuilders (t : VLlmTurn) (s : StreamState) : StreamState :=
  let shellRecovery := t.extractGlmToolCalls s.accContent ++ t.extractGlmToolCalls s.accReasoning
  buildRecoveredToolEvents t
    { s with
      toolCallBuilders := Table.empty
      events := s.events ++
        flushAtFinish t s.accContent shellRecovery [] s.toolCallBuilders.values }

def onFinishReason (t : VLlmTurn) (s : StreamState) (finishReason : Text)
    (stopReason : Option Json) : StreamState :=
  let s :=
    if finishReason = js "tool_calls" ∨ finishReason = js "stop" then flushBuilders t s else s
  let eatenTokens := max 0 (s.completionTokens - s.lastVisibleCompletionTokens)
  let hasParsedTools :=
    s.recoveredLeakedToolCall || s.sawStreamedToolCall || decide (0 < s.toolCallBuilders.size)
  let droppedObservation :=
    shouldTreatGlmStopAsDroppedToolCall t finishReason stopReason eatenTokens hasParsedTools
  let s :=
    if droppedObservation && t.salvageHeaders && shouldSalvageGlmObservationNonStream s eatenTokens
    then salvageNonStream t s
    else s
  if finishReason = js "tool_calls" && s.toolCallBuilders.size == 0 && !s.everBuiltToolCall &&
      !s.recoveredLeakedToolCall && !droppedObservation && t.salvageHeaders
  then salvageNonStream t s
  else s

/-! ## Reading the body -/

inductive ChatError where
  /-- `chunk.error`. -/
  | stream
  /-- `TOOL_CALLS_DISABLED`. -/
  | toolCallsDisabled
  /-- A property of `null`. -/
  | typeError
  deriving DecidableEq

/-- Why no more of the body is read. -/
inductive Halt where
  | returned (s : StreamState)
  | thrown (error : ChatError) (s : StreamState)

def hearText (s : StreamState) (choice : SSEChoice) : StreamState :=
  let reasoning := (choice.reasoning <|> choice.reasoningContent).getD []
  let content := choice.content.getD []
  { s with
    accReasoning := s.accReasoning ++ reasoning
    accContent := s.accContent ++ content
    lastVisibleCompletionTokens :=
      if reasoning = [] ∧ content = [] then s.lastVisibleCompletionTokens else s.completionTokens }

def onToolCalls (t : VLlmTurn) (s : StreamState) (toolCalls : Option (List ToolCallDelta)) :
    Except Halt StreamState :=
  if glmStreamedToolCallDeltasAreReal toolCalls then
    if !t.toolsEnabled then .error (.thrown .toolCallsDisabled s)
    else
      .ok ((toolCalls.getD []).foldl (onToolCallDelta t)
        { s with
          sawStreamedToolCall := true
          lastVisibleCompletionTokens := s.completionTokens })
  else .ok s

def onChoice (t : VLlmTurn) (s : StreamState) (choice : SSEChoice) : Except Halt StreamState := do
  let s ← onToolCalls t (hearText s choice) choice.toolCalls
  match choice.finishReason with
  | none => .ok s
  | some finishReason =>
      if finishReason = [] then .ok s
      else .ok (onFinishReason t s finishReason choice.stopReason)

def onChunk (t : VLlmTurn) (s : StreamState) (chunk : SSEChunk) : Except Halt StreamState :=
  if chunk.error then .error (.thrown .stream s)
  else
    chunk.choices.foldlM (onChoice t)
      { s with completionTokens := chunk.completionTokens.getD s.completionTokens }

def onFrame (t : VLlmTurn) (s : StreamState) : Frame → Except Halt StreamState
  | .ignored => .ok s
  | .done => .error (.returned (closeStream t s))
  | .null => .error (.thrown .typeError s)
  | .chunk chunk => onChunk t s chunk

def onLine (t : VLlmTurn) (s : StreamState) (line : Text) : Except Halt StreamState :=
  onFrame t s (readFrame line)

/-- `while (true) { … reader.read() … }` over the chunks of the body. -/
def readLoop (t : VLlmTurn) (decoder : TextDecoder) (buffer : Text) (s : StreamState) :
    List Bytes → Except Halt StreamState
  | [] => .ok s
  | value :: rest => do
      let decoded := decoder.decode value
      let lines := cut [newline] (buffer ++ decoded.1)
      let s ← lines.1.foldlM (onLine t) s
      readLoop t decoded.2 lines.2 s rest

/-- The tool events of a whole answer, and the error it ended with. -/
def chat (t : VLlmTurn) (chunks : List Bytes) : List ToolEvent × Option ChatError :=
  match readLoop t .init [] .init chunks with
  | .ok s => ((closeStream t s).events, none)
  | .error (.returned s) => (s.events, none)
  | .error (.thrown error s) => (s.events, some error)

end Shizuha.Provider
