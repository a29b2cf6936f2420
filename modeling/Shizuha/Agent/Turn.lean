import Shizuha.Agent.ToolExecution

/-!
# One turn

`executeTurn` consumes the provider's stream, starts the read-only calls while
it does, and when the stream is over builds the assistant's message, runs what
is left and sorts the results by call. Between any two of its awaits tools
finish, fail or are tried again, the registry is refreshed and the abort signal
fires, in any order; `Turn.step` takes one such event at a time, and the turn
itself goes on (`resume`) when what it waits for is there.

What the turn asks of text (the sanitizer, the salvage of leaked calls, the
guards against degenerate output) is in `TurnEnv`, as functions nothing is
assumed of. Token counts, telemetry and the events for the interface are left
out.
-/

namespace Shizuha.Agent

open Js
open State (ToolResult)

structure ReasoningBlock where
  id : Text
  encryptedContent : Option (Option Text)
  rawContent : Option Text
  signature : Option Text
  summary : Option (List Text)

/-- What the provider streams; `other` is for the chunks that only telemetry
and the interface look at. -/
inductive StreamChunk where
  | text (text : Text)
  | finalText (text : Text)
  | toolUseStart (id name : Text)
  | toolUseDelta (id input : Text)
  | toolUseEnd (id : Text) (input : Json)
  | reasoning (block : ReasoningBlock)
  | reasoningText (text : Text)
  | stopReason (reason : Text)
  | other

def StreamChunk.isToolUse : StreamChunk → Bool
  | .toolUseStart .. | .toolUseDelta .. | .toolUseEnd .. => true
  | _ => false

structure Verdict where
  degenerate : Bool
  reason : Option Text
  evidence : Option Text

structure SalvagedCall where
  name : Text
  input : Json

structure Salvage where
  hadMarkup : Bool
  calls : List SalvagedCall
  cleaned : Text

structure TurnEnv where
  providerName : Text
  toolsEnabled : Bool
  /-- The name in `toolChoice`, when it names a function. -/
  requiredTool : Option Text
  paramCoercion : Option (Json → Json)
  talkSeatSuppressesTools : Bool
  /-- Delta, carry and whether the stream is over to text and carry. -/
  holdDsmlStreamDelta : Text → Text → Bool → Text × Text
  salvageDsmlToolCalls : Text → Salvage
  detectScriptCollapse : Text → Verdict
  /-- Of a text, and whether it is judged while it streams. -/
  detectOutputDegeneracy : Text → Bool → Verdict
  formatDegeneracyStopNotice : Text → Option Text → Text

/-- An empty name requires nothing. -/
def TurnEnv.requiredToolName (e : TurnEnv) : Option Text := e.requiredTool.filter (· ≠ [])

structure RequiredToolFailure where
  toolName : Text
  /-- No call at all, or one with another name. -/
  missing : Bool
  receivedToolNames : List Text

structure TurnResult where
  assistantMessage : Message ContentBlock
  toolCalls : List ToolCall
  toolResults : List ToolResult
  stopReason : Option Text
  incompleteStreamReason : Option Text
  outputDegeneracyReason : Option Text
  requiredToolFailure : Option RequiredToolFailure

/-- The abort signal: whether it fired, and whether the stream was open then. -/
inductive AbortSignal where
  | quiet
  | firedInStream
  | firedLater
  deriving DecidableEq, Repr

/-- What the turn is at: the stream, or an await after it. -/
inductive Stage where
  | streaming
  /-- The calls of a truncated stream are let finish. -/
  | dropping
  | inflight (readOnly writes : List ToolCall)
  | readOnly (started : List ℕ) (writes : List ToolCall)
  | writing (current : ℕ) (rest : List ToolCall)
  | returned (r : TurnResult)
  | thrown

structure Turn where
  registry : List ToolHandler
  signal : AbortSignal
  text : Text
  markupCarry : Text
  leakedToolCallTags : ℕ
  finalText : Option Text
  toolCalls : List ToolCall
  /-- The calls among them that were read out of the text. -/
  salvaged : List ToolCall
  reasoningBlocks : List ReasoningBlock
  rawReasoningText : Text
  stopReason : Option Text
  incompleteStreamReason : Option Text
  outputDegeneracyReason : Option Text
  outputDegeneracyEvidence : Option Text
  pendingToolInputs : List (Text × Text × Text)
  inflightResults : List (Text × ℕ)
  resultMap : List (Text × ℕ)
  runs : List Run
  heap : Heap
  /-- What is left of the turn's retries. -/
  remainingRetries : ℕ
  assistantMessage : Option (Message ContentBlock)
  stage : Stage

def Turn.aborted (t : Turn) : Bool := t.signal ≠ .quiet

/-- A turn at its start. There are result objects already: the ones that tools
keep between turns. -/
def Turn.init (registry : List ToolHandler) (aborted : Bool) (kept : List ToolResult)
    (maxRetries : ℕ) : Turn where
  registry := registry
  signal := if aborted then .firedInStream else .quiet
  text := []
  markupCarry := []
  leakedToolCallTags := 0
  finalText := none
  toolCalls := []
  salvaged := []
  reasoningBlocks := []
  rawReasoningText := []
  stopReason := none
  incompleteStreamReason := none
  outputDegeneracyReason := none
  outputDegeneracyEvidence := none
  pendingToolInputs := []
  inflightResults := []
  resultMap := []
  runs := []
  heap := kept.map fun result => ⟨true, result⟩
  remainingRetries := maxRetries
  assistantMessage := none
  stage := .streaming

/-- `Map.set`: a key that is there keeps its place. -/
def mapSet {β : Type} (key : Text) (value : β) : List (Text × β) → List (Text × β)
  | [] => [(key, value)]
  | (k, v) :: rest => if k = key then (k, value) :: rest else (k, v) :: mapSet key value rest

def mapGet {β : Type} (key : Text) (m : List (Text × β)) : Option β :=
  (m.find? fun entry => entry.1 = key).map Prod.snd

/-! ## Tool names -/

/-- The longest known name the candidate starts with. -/
def repairFusedToolName (candidate : Text) (knownTools : List Text) : Option Text :=
  knownTools.foldl
    (fun best tool =>
      if !startsWith candidate tool then best
      else
        match best with
        | none => some tool
        | some b => if b.length < tool.length then some tool else some b)
    none

def dispatchToolName (rawName : Text) (knownTools : List Text) : Text :=
  let name := trim rawName
  if name = [] ∨ name ∈ knownTools then name
  else (repairFusedToolName name knownTools).getD name

/-! ## Starting a call -/

/-- A call is started: its handler is looked up, and the checks are to come. -/
def Turn.startCall (t : Turn) (tc : ToolCall) (streamed : Bool) : Turn :=
  { t with runs := t.runs ++ [⟨tc, registryGet t.registry tc.name, streamed, .guarding⟩] }

/-- The calls started from the stream that have not settled. -/
def Turn.inflightCount (t : Turn) : ℕ :=
  t.runs.countP fun run => run.streamed && !run.phase.settled

def MAX_CONCURRENT_STREAMING_TOOLS : ℕ := 8

/-- The call that a chunk completes. -/
def Turn.decode (e : TurnEnv) (t : Turn) (id : Text) (input : Json) : ToolCall where
  id := id
  name := dispatchToolName (((mapGet id t.pendingToolInputs).map Prod.fst).getD [])
    (t.registry.map ToolHandler.name)
  input := match e.paramCoercion with
    | none => input
    | some coerce => coerce input

def Turn.takeCall (t : Turn) (tc : ToolCall) : Turn :=
  { t with
    toolCalls := t.toolCalls ++ [tc]
    pendingToolInputs := t.pendingToolInputs.filter fun entry => entry.1 ≠ tc.id }

/-- Started while the stream goes on, and found again under its id. -/
def Turn.startStreamed (t : Turn) (tc : ToolCall) : Turn :=
  { t.startCall tc true with inflightResults := mapSet tc.id t.runs.length t.inflightResults }

def Turn.isReadOnly (t : Turn) (tc : ToolCall) : Bool :=
  ((registryGet t.registry tc.name).map ToolHandler.readOnly).getD false

def Turn.toolUseEnd (e : TurnEnv) (t : Turn) (id : Text) (input : Json) : Turn :=
  let tc := t.decode e id input
  let t := t.takeCall tc
  if e.requiredToolName.isNone ∧ t.isReadOnly tc ∧
      t.inflightCount < MAX_CONCURRENT_STREAMING_TOOLS then
    t.startStreamed tc
  else t

/-! ## After the stream -/

/-- A verdict against the output stops the generation. -/
def Turn.stopDegenerate (t : Turn) (v : Verdict) (fallback : Text) : Turn :=
  { t with
    outputDegeneracyReason := some (v.reason.getD fallback)
    outputDegeneracyEvidence := v.evidence
    stopReason := some (js "degenerate_generation") }

/-- The held-back tail of the text is let go. -/
def Turn.flush (e : TurnEnv) (t : Turn) : Turn :=
  if t.markupCarry = [] then t
  else { t with
    text := t.text ++ (e.holdDsmlStreamDelta [] t.markupCarry true).1
    markupCarry := [] }

/-- A turn that saw its stream aborted. -/
def Turn.interrupted (e : TurnEnv) (t : Turn) (now : Double) : Turn :=
  let t := t.flush e
  let spoken := trim t.text
  { t with
    stage := .returned
      { assistantMessage :=
          ⟨none, none, none, .assistant,
            .text (if spoken = [] then js "(interrupted)" else spoken), some now⟩
        toolCalls := []
        toolResults := []
        stopReason := some (js "interrupted")
        incompleteStreamReason := none
        outputDegeneracyReason := none
        requiredToolFailure := none } }

/-- Calls that leaked into the text are taken out of it, and become the turn's
calls if it has no others. -/
def Turn.salvage (e : TurnEnv) (t : Turn) (marks : ℕ → Text) : Turn :=
  let raw := t.finalText.getD t.text
  let dsml := e.salvageDsmlToolCalls raw
  if e.toolsEnabled ∧ raw ≠ [] ∧ dsml.hadMarkup then
    let t :=
      if t.finalText.isSome then { t with finalText := some dsml.cleaned }
      else { t with text := dsml.cleaned }
    if t.toolCalls.isEmpty ∧ !t.aborted ∧ !e.talkSeatSuppressesTools then
      let calls := dsml.calls.mapIdx fun i call =>
        ⟨js "dsml_salvaged_" ++ marks i, call.name, call.input⟩
      { t with toolCalls := calls, salvaged := calls }
    else t
  else t

/-- With a call in hand the text is not held against the turn. -/
def Turn.clearChatter (t : Turn) : Turn :=
  if !t.toolCalls.isEmpty ∧ t.outputDegeneracyReason.isSome then
    { t with
      outputDegeneracyReason := none
      outputDegeneracyEvidence := none
      stopReason :=
        if t.stopReason = some (js "degenerate_generation") then some (js "tool_calls")
        else t.stopReason }
  else t

/-- The verdict at the end of a stream without calls. -/
def Turn.judge (e : TurnEnv) (t : Turn) : Turn :=
  let said := t.finalText.getD t.text
  let providerRepetition := t.stopReason = some (js "repetition")
  if t.outputDegeneracyReason.isNone ∧ t.toolCalls.isEmpty ∧ (providerRepetition ∨ said ≠ []) then
    let soup := e.detectScriptCollapse said
    let verdict : Verdict :=
      if providerRepetition then
        ⟨true, some (js "provider_repetition"), some (js "provider finish_reason=repetition")⟩
      else if soup.degenerate then soup
      else e.detectOutputDegeneracy said false
    if verdict.degenerate then t.stopDegenerate verdict (js "repeated_output") else t
  else t

/-- A block whose reasoning was streamed already is not kept a second time. -/
def ReasoningBlock.duplicate (persisted : Text) (block : ReasoningBlock) : Bool :=
  let raw := trim (block.rawContent.getD [])
  raw ≠ [] && persisted ≠ [] && (persisted = raw || includes persisted raw)

def ReasoningBlock.block (b : ReasoningBlock) : ContentBlock :=
  .reasoning b.id b.encryptedContent b.rawContent b.signature b.summary

def ToolCall.block (tc : ToolCall) : ContentBlock := .toolUse tc.id tc.name tc.input

def Turn.contentBlocks (e : TurnEnv) (t : Turn) (clock : ℕ) : List ContentBlock :=
  let assistantText :=
    match t.outputDegeneracyReason with
    | some reason => e.formatDegeneracyStopNotice reason t.outputDegeneracyEvidence
    | none => t.finalText.getD t.text
  let persisted := trim t.rawReasoningText
  (if persisted = [] then []
    else [.reasoning (js "vllm_reasoning_" ++ decimal clock) none (some t.rawReasoningText)
      none none]) ++
    (t.reasoningBlocks.filter fun b => !b.duplicate persisted).map ReasoningBlock.block ++
    (if assistantText = [] then [] else [.text assistantText]) ++
    t.toolCalls.map ToolCall.block

/-- A single text is a content of its own. -/
def contentOf : List ContentBlock → Content ContentBlock
  | [.text s] => .text s
  | blocks => .blocks blocks

def Turn.message (e : TurnEnv) (t : Turn) (now : Double) (clock : ℕ) : Message ContentBlock :=
  ⟨none, none, none, .assistant, contentOf (t.contentBlocks e clock), some now⟩

/-- The rejection of a turn that was required to call one tool. -/
def Turn.requiredToolFailure (e : TurnEnv) (t : Turn) : Option RequiredToolFailure :=
  e.requiredToolName.bind fun name =>
    if t.toolCalls.isEmpty ∨ t.toolCalls.any (fun tc => tc.name ≠ name) then
      some ⟨name, t.toolCalls.isEmpty, t.toolCalls.map ToolCall.name⟩
    else none

def Turn.result (t : Turn) (m : Message ContentBlock) (calls : List ToolCall)
    (results : List ToolResult) (failure : Option RequiredToolFailure) : TurnResult where
  assistantMessage := m
  toolCalls := calls
  toolResults := results
  stopReason := t.stopReason
  incompleteStreamReason := t.incompleteStreamReason
  outputDegeneracyReason := t.outputDegeneracyReason
  requiredToolFailure := failure

/-! ## The results -/

/-- The results in the order of the calls, as they read now. -/
def Turn.toolResults (t : Turn) : List ToolResult :=
  t.toolCalls.filterMap fun tc =>
    (mapGet tc.id t.resultMap).bind fun ref => t.heap[ref]?.map Cell.result

def Turn.finish (t : Turn) (m : Message ContentBlock) : Turn :=
  { t with stage := .returned (t.result m t.toolCalls t.toolResults none) }

/-- The next write, or the end. -/
def Turn.nextWrite (t : Turn) (m : Message ContentBlock) : List ToolCall → Turn
  | [] => t.finish m
  | tc :: rest => { t.startCall tc false with stage := .writing t.runs.length rest }

/-- The object an execution was answered with. -/
def Turn.doneRef (t : Turn) (k : ℕ) : Option ℕ :=
  match t.runs[k]?.map Run.phase with
  | some (.done ref) => some ref
  | _ => none

def Turn.anyRejected (t : Turn) (started : List ℕ) : Bool :=
  started.any fun k => t.runs[k]?.map Run.phase = some .rejected

/-- The map with one more result in it. -/
def Turn.recordOne (t : Turn) (m : List (Text × ℕ)) (entry : Text × ℕ) : List (Text × ℕ) :=
  match t.doneRef entry.2 with
  | some ref => mapSet entry.1 ref m
  | none => m

def Turn.record (t : Turn) (started : List (Text × ℕ)) : Turn :=
  { t with resultMap := started.foldl t.recordOne t.resultMap }

/-- `Promise.all`: the turn throws with the first rejection, and goes on when
everything is done. -/
def Turn.awaitAll (t : Turn) (started : List (Text × ℕ)) (next : Turn → Turn) : Turn :=
  if t.anyRejected (started.map Prod.snd) then { t with stage := .thrown }
  else if started.all fun entry => (t.doneRef entry.2).isSome then next (t.record started)
  else t

/-- The started executions by the ids of their calls. -/
def Turn.idsOf (t : Turn) (started : List ℕ) : List (Text × ℕ) :=
  started.filterMap fun k => t.runs[k]?.map fun run => (run.call.id, k)

/-- The read-only calls that the stream did not start are started together. -/
def Turn.startReadOnly (t : Turn) (readOnly writes : List ToolCall) : Turn :=
  { readOnly.foldl (fun t tc => t.startCall tc false) t with
    stage := .readOnly ((List.range readOnly.length).map (t.runs.length + ·)) writes }

/-- The calls that are not running yet, apart by what their tools may do. -/
def Turn.remaining (t : Turn) : List ToolCall × List ToolCall :=
  (t.toolCalls.filter fun tc => (mapGet tc.id t.inflightResults).isNone).partition t.isReadOnly

/-- From the end of the stream to the first await on results. -/
def Turn.afterStream (e : TurnEnv) (t : Turn) (now : Double) (clock : ℕ) (marks : ℕ → Text) :
    Turn :=
  let t := ((t.salvage e marks).clearChatter).judge e
  let m := t.message e now clock
  match t.requiredToolFailure e with
  | some failure => { t with stage := .returned (t.result m [] [] (some failure)) }
  | none =>
      if t.toolCalls.isEmpty then t.finish m
      else { t with
        assistantMessage := some m
        stage := .inflight t.remaining.1 t.remaining.2 }

/-- What follows the loop over the stream when no abort was seen. -/
def Turn.closeStream (e : TurnEnv) (t : Turn) (now : Double) (clock : ℕ) (marks : ℕ → Text) :
    Turn :=
  let t := t.flush e
  if e.requiredToolName.isNone ∧ t.stopReason = some (js "tool_calls") ∧ t.toolCalls.isEmpty then
    { t with stage := .thrown }
  else if t.stopReason = some (js "max_tokens") ∧ !t.toolCalls.isEmpty then
    { t with stage := .dropping }
  else t.afterStream e now clock marks

/-! ## Chunks -/

def upperUnit (u : UInt16) : UInt16 := if 97 ≤ u && u ≤ 122 then u - 32 else u

/-- The opening tags of another model's calls, in either case. -/
def countLeakedTags : Text → ℕ
  | [] => 0
  | u :: s =>
      (if startsWith ((u :: s).map upperUnit) ((js "<tool_call>").map upperUnit) then 1 else 0) +
        countLeakedTags s

def LEAKED_TAG_LIMIT : ℕ := 6

/-- A piece of text; the flag says that the loop over the stream is left. -/
def Turn.onText (e : TurnEnv) (t : Turn) (piece : Text) : Turn × Bool :=
  let t := if e.toolsEnabled then
      { t with leakedToolCallTags := t.leakedToolCallTags + countLeakedTags piece }
    else t
  if LEAKED_TAG_LIMIT ≤ t.leakedToolCallTags then
    (t.stopDegenerate ⟨true, some (js "repeated_line"),
      some (decimal t.leakedToolCallTags ++ js " leaked <tool_call> tags")⟩ [], true)
  else
    let held := if e.toolsEnabled then e.holdDsmlStreamDelta piece t.markupCarry false
      else (piece, [])
    let t := { t with markupCarry := held.2 }
    if held.1 = [] then (t, false)
    else
      let t := { t with text := t.text ++ held.1 }
      let soup := e.detectScriptCollapse t.text
      if soup.degenerate then (t.stopDegenerate soup (js "script_collapse"), true)
      else
        let verdict := e.detectOutputDegeneracy t.text true
        if t.toolCalls.isEmpty ∧ verdict.degenerate then
          (t.stopDegenerate verdict (js "repeated_output"), true)
        else (t, false)

def Turn.onFinalText (e : TurnEnv) (t : Turn) (said : Text) : Turn :=
  let t := { t with finalText := some said }
  let soup := e.detectScriptCollapse said
  let verdict := if soup.degenerate then soup else e.detectOutputDegeneracy said false
  if t.toolCalls.isEmpty ∧ verdict.degenerate then t.stopDegenerate verdict (js "repeated_output")
  else t

def Turn.onStopReason (t : Turn) (reason : Text) : Turn :=
  { t with
    stopReason := some reason
    incompleteStreamReason :=
      if reason = js "max_tokens" ∨ reason = js "stall_salvage" then some reason
      else t.incompleteStreamReason }

def Turn.onChunk (e : TurnEnv) (t : Turn) : StreamChunk → Turn × Bool
  | .text piece => t.onText e piece
  | .finalText said => (t.onFinalText e said, false)
  | .toolUseStart id name =>
      ({ t with pendingToolInputs := mapSet id (name, []) t.pendingToolInputs }, false)
  | .toolUseDelta id input =>
      match mapGet id t.pendingToolInputs with
      | none => (t, false)
      | some (name, inputStr) =>
          ({ t with
            pendingToolInputs := mapSet id (name, inputStr ++ input) t.pendingToolInputs }, false)
  | .toolUseEnd id input => (t.toolUseEnd e id input, false)
  | .reasoning block => ({ t with reasoningBlocks := t.reasoningBlocks ++ [block] }, false)
  | .reasoningText piece =>
      (if e.providerName = js "vllm" ∨ e.providerName = js "cortex" then
        { t with rawReasoningText := t.rawReasoningText ++ piece } else t, false)
  | .stopReason reason => (t.onStopReason reason, false)
  | .other => (t, false)

/-! ## Steps -/

inductive Op where
  /-- The registry's tools are replaced. -/
  | refresh (registry : List ToolHandler)
  | abort
  | chunk (c : StreamChunk) (now : Double) (clock : ℕ) (marks : ℕ → Text)
  | streamEnds (now : Double) (clock : ℕ) (marks : ℕ → Text)
  | streamFails (now : Double)
  /-- The checks of an execution are through, or one of them threw. -/
  | guards (k : ℕ) (answers : Option Answers) (durationMs : Double)
  /-- An attempt of an execution ends; what a hook throws afterwards. -/
  | attemptEnds (k : ℕ) (ending : AttemptEnd) (hookError : Option Text) (durationMs : Double)
  /-- A tool makes a result object. -/
  | toolMakes (result : ToolResult)
  /-- A tool writes to an object that a tool has made. -/
  | toolWrites (ref : ℕ) (result : ToolResult)
  | resume (now : Double) (clock : ℕ) (marks : ℕ → Text)

def Turn.setPhase (t : Turn) (k : ℕ) (phase : Phase) : Turn :=
  { t with runs := t.runs.modify k fun run => { run with phase := phase } }

/-- The execution is answered by an object on the heap. -/
def Turn.answer (t : Turn) (k : ℕ) (heapAndRef : Heap × ℕ) : Turn :=
  { t with heap := heapAndRef.1 }.setPhase k (.done heapAndRef.2)

def Turn.onGuards (t : Turn) (k : ℕ) (answers : Option Answers) (durationMs : Double) : Turn :=
  match t.runs[k]? with
  | some ⟨tc, handler, _, .guarding⟩ =>
      match answers with
      | none => t.setPhase k .rejected
      | some a =>
          match guardedResult tc handler a with
          | some result =>
              t.answer k ((t.heap.alloc false result).time t.heap.length durationMs, t.heap.length)
          | none => t.setPhase k .executing
  | _ => t

def Turn.onAttemptEnds (t : Turn) (k : ℕ) (ending : AttemptEnd) (hookError : Option Text)
    (durationMs : Double) : Turn :=
  match t.runs[k]? with
  | some ⟨tc, handler, _, .executing⟩ =>
      match ending with
      | .failed message retryable =>
          if retryable ∧ 0 < t.remainingRetries then
            { t with remainingRetries := t.remainingRetries - 1 }
          else
            t.answer k ((t.heap.alloc false (failedResult tc message)).time t.heap.length
              durationMs, t.heap.length)
      | .checkpointFailed => t.setPhase k .rejected
      | ending =>
          match settledWith t.heap tc handler t.aborted ending with
          | none => t
          | some (heap, ref) => t.answer k (returned heap ref tc hookError durationMs)
  | _ => t

def Turn.onChunkSeen (e : TurnEnv) (t : Turn) (c : StreamChunk) (now : Double) (clock : ℕ)
    (marks : ℕ → Text) : Turn :=
  if t.aborted then t.interrupted e now
  else if !e.toolsEnabled ∧ c.isToolUse then { t with stage := .thrown }
  else
    let (t, left) := t.onChunk e c
    if left then t.closeStream e now clock marks else t

def Turn.onResume (e : TurnEnv) (t : Turn) (now : Double) (clock : ℕ) (marks : ℕ → Text) : Turn :=
  match t.stage, t.assistantMessage with
  | .dropping, _ =>
      if t.inflightResults.all fun entry =>
          (t.runs[entry.2]?.map fun run => run.phase.settled).getD true then
        { t with toolCalls := [], pendingToolInputs := [] }.afterStream e now clock marks
      else t
  | .inflight readOnly writes, some m =>
      t.awaitAll t.inflightResults fun t =>
        if readOnly.isEmpty then t.nextWrite m writes else t.startReadOnly readOnly writes
  | .readOnly started writes, some m =>
      t.awaitAll (t.idsOf started) fun t => t.nextWrite m writes
  | .writing current rest, some m =>
      t.awaitAll (t.idsOf [current]) fun t => t.nextWrite m rest
  | _, _ => t

def Turn.step (e : TurnEnv) (t : Turn) : Op → Turn
  | .refresh registry => { t with registry := registry }
  | .abort =>
      match t.signal, t.stage with
      | .quiet, .streaming => { t with signal := .firedInStream }
      | .quiet, _ => { t with signal := .firedLater }
      | _, _ => t
  | .chunk c now clock marks =>
      match t.stage with
      | .streaming => t.onChunkSeen e c now clock marks
      | _ => t
  | .streamEnds now clock marks =>
      match t.stage with
      | .streaming => t.closeStream e now clock marks
      | _ => t
  | .streamFails now =>
      match t.stage with
      | .streaming => if t.aborted then t.interrupted e now else { t with stage := .thrown }
      | _ => t
  | .guards k answers durationMs => t.onGuards k answers durationMs
  | .attemptEnds k ending hookError durationMs => t.onAttemptEnds k ending hookError durationMs
  | .toolMakes result => { t with heap := t.heap.alloc true result }
  | .toolWrites ref result =>
      { t with heap := t.heap.modify ref fun c => if c.ofTool then ⟨true, result⟩ else c }
  | .resume now clock marks => t.onResume e now clock marks

end Shizuha.Agent
