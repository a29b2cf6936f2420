import Shizuha.Js.Json

/-!
# Messages

The message type the agent, the store and the compactor share. A message's
content is one string or a list of blocks. The agent's own blocks are the five
kinds of `ContentBlock`; what comes back from a column of JSON is any list of
values, so `Message` leaves the type of its blocks open and `Message.toJson`
goes from the first to the second.

Optional fields that a writer leaves out of an object are left out here too:
an absent field and a `null` one are different JSON.
-/

namespace Shizuha.Agent

open Js

inductive Role where
  | system
  | user
  | assistant
  | tool
  deriving DecidableEq, Repr

def Role.name : Role → Text
  | .system => js "system"
  | .user => js "user"
  | .assistant => js "assistant"
  | .tool => js "tool"

structure ImageData where
  base64 : Text
  mediaType : Text

inductive ContentBlock where
  | text (text : Text)
  | toolUse (id name : Text) (input : Json)
  | toolResult (toolUseId content : Text) (isError : Option Bool) (image : Option ImageData)
  | reasoning (id : Text) (encryptedContent : Option (Option Text))
      (rawContent signature : Option Text) (summary : Option (List Text))
  | image (data mediaType : Text)

inductive Content (β : Type) where
  | text (s : Text)
  | blocks (bs : List β)

structure Message (β : Type) where
  id : Option Text
  executionId : Option Text
  /-- A framework failure notice, as the JSON value it is kept as. -/
  operationalEvent : Option Json
  role : Role
  content : Content β
  timestamp : Option Double

/-! ## Blocks as JSON -/

/-- A field that is there only when it has a value. -/
def optField (key : String) : Option Json → List (Text × Json)
  | none => []
  | some v => [(js key, v)]

def ImageData.toJson (image : ImageData) : Json :=
  .obj [(js "base64", .str image.base64), (js "mediaType", .str image.mediaType)]

def ContentBlock.toJson : ContentBlock → Json
  | .text s => .obj [(js "type", .str (js "text")), (js "text", .str s)]
  | .toolUse id name input =>
      .obj [(js "type", .str (js "tool_use")), (js "id", .str id), (js "name", .str name),
        (js "input", input)]
  | .toolResult toolUseId content isError picture =>
      .obj ([(js "type", .str (js "tool_result")), (js "toolUseId", .str toolUseId),
        (js "content", .str content)] ++ optField "isError" (isError.map .bool) ++
        optField "image" (picture.map ImageData.toJson))
  | .reasoning id encryptedContent rawContent signature summary =>
      .obj ([(js "type", .str (js "reasoning")), (js "id", .str id)] ++
        optField "encryptedContent" (encryptedContent.map fun
          | none => .null
          | some s => .str s) ++
        optField "rawContent" (rawContent.map .str) ++
        optField "signature" (signature.map .str) ++
        optField "summary" (summary.map fun texts =>
          .arr (texts.map fun t => .obj [(js "text", .str t)])))
  | .image data mediaType =>
      .obj [(js "type", .str (js "image")),
        (js "source", .obj [(js "type", .str (js "base64")), (js "data", .str data),
          (js "media_type", .str mediaType)])]

def Content.toJson : Content ContentBlock → Content Json
  | .text s => .text s
  | .blocks bs => .blocks (bs.map ContentBlock.toJson)

def Message.toJson (m : Message ContentBlock) : Message Json :=
  ⟨m.id, m.executionId, m.operationalEvent, m.role, m.content.toJson, m.timestamp⟩

def ContentBlock.isToolResult : ContentBlock → Bool
  | .toolResult .. => true
  | _ => false

/-- The `tool_result` blocks of a content that is a list of blocks. -/
def Message.hasToolResult (m : Message ContentBlock) : Bool :=
  match m.content with
  | .text _ => false
  | .blocks bs => bs.any ContentBlock.isToolResult

/-- The blocks of a message, none for a text. -/
def blocksOf (m : Message ContentBlock) : List ContentBlock :=
  match m.content with
  | .text _ => []
  | .blocks bs => bs

def ContentBlock.useId? : ContentBlock → Option Text
  | .toolUse id _ _ => some id
  | _ => none

def ContentBlock.resultId? : ContentBlock → Option Text
  | .toolResult id _ _ _ => some id
  | _ => none

/-- The ids of the tool uses a message makes. -/
def toolUseIds (m : Message ContentBlock) : List Text :=
  (blocksOf m).filterMap ContentBlock.useId?

/-- The ids of the tool uses a message answers. -/
def toolResultIds (m : Message ContentBlock) : List Text :=
  (blocksOf m).filterMap ContentBlock.resultId?

end Shizuha.Agent

/-!
# Message provenance

Whether a message is the framework's own notice of a failure and no part of
the conversation. Nothing but the typed event decides it.
-/

namespace Shizuha.Agent

open Js

/-- A property read: `none` for `undefined`. -/
def field (key : String) : Json → Option Json
  | .obj fields => (fields.find? fun f => f.1 = js key).map Prod.snd
  | _ => none

/-- A property that is a string. -/
def textField (key : String) (v : Json) : Option Text :=
  match field key v with
  | some (.str s) => some s
  | _ => none

/-- A property that is a Boolean. -/
def boolField (key : String) (v : Json) : Option Bool :=
  match field key v with
  | some (.bool b) => some b
  | _ => none

def isFrameworkOperationalMessage {β : Type} (message : Message β) : Bool :=
  match message.operationalEvent with
  | none => false
  | some event =>
      message.role == .assistant
        && textField "kind" event == some (js "framework_terminal_failure")
        && ((textField "id" event).any fun id => 0 < id.length)
        && (textField "code" event == some (js "provider_failure")
          || textField "code" event == some (js "context_capacity"))

/-- The conversation without the framework's notices. The source returns its
argument when there are none, which is the filter's value too. -/
def modelConversationMessages {β : Type} (messages : List (Message β)) : List (Message β) :=
  if messages.any isFrameworkOperationalMessage then
    messages.filter fun m => !isFrameworkOperationalMessage m
  else messages

theorem modelConversationMessages_eq_filter {β : Type} (messages : List (Message β)) :
    modelConversationMessages messages =
      messages.filter fun m => !isFrameworkOperationalMessage m := by
  rw [modelConversationMessages]
  split_ifs with h
  · rfl
  · symm
    rw [List.filter_eq_self]
    intro m hm
    simp only [List.any_eq_true, not_exists, not_and, Bool.not_eq_true] at h
    simp [h m hm]

end Shizuha.Agent
