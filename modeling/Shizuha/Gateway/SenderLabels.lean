import Shizuha.LocalCore.Protocol
import Shizuha.Machine
import Shizuha.State.Store
import Mathlib.Logic.Function.Basic

/-!
# The label in front of a message

What the model is told of a message's sender is a label in front of its text:
the channel, the sender's name and the name of the room, in brackets. A message
may be signed, and then its sender's name says whether the signature was
accepted.

The name is changed in the message itself, and so is the text of a message in
blocks, so a message that is admitted again comes as the last time has left it.
A message that is in the session under its number is not appended again.
-/

namespace Shizuha.Gateway.Labels

open Js LocalCore
open State (truthy)

inductive ChannelType where
  | http
  | shizuhaWs
  | connect
  | telegram
  | discord
  | whatsapp
  | slack
  | signal
  | line
  | imessage
  | cli
  deriving DecidableEq

def ChannelType.text : ChannelType → String
  | .http => "http"
  | .shizuhaWs => "shizuha-ws"
  | .connect => "connect"
  | .telegram => "telegram"
  | .discord => "discord"
  | .whatsapp => "whatsapp"
  | .slack => "slack"
  | .signal => "signal"
  | .line => "line"
  | .imessage => "imessage"
  | .cli => "cli"

def CHANNEL_LABELS : ChannelType → Option String
  | .http => some "Web"
  | .shizuhaWs => some "Shizuha"
  | .connect => none
  | .telegram => some "Telegram"
  | .discord => some "Discord"
  | .whatsapp => some "WhatsApp"
  | .slack => some "Slack"
  | .signal => some "Signal"
  | .line => some "LINE"
  | .imessage => some "iMessage"
  | .cli => some "CLI"

/-- A block of content: a text, or a value that is none. -/
inductive ContentBlock where
  | text (text : Text)
  | other (block : Json)

inductive Content where
  | text (s : Text)
  | blocks (blocks : List ContentBlock)
  | other (v : Json)

def ContentBlock.json : ContentBlock → Json
  | .text s => .obj [(js "type", .str (js "text")), (js "text", .str s)]
  | .other block => block

def Content.json : Content → Json
  | .text s => .str s
  | .blocks items => .arr (items.map ContentBlock.json)
  | .other v => v

/-- `channelName` is the one field of the metadata that is read. -/
structure InboundMessage where
  id : Text
  channelType : ChannelType
  userId : Text
  userName : Option Text
  senderPublicKey : Option Text
  signature : Option Text
  content : Content
  timestamp : Double
  channelName : Option Json

/-! ## The label -/

def given (t : Option Text) : Option Text := t.filter (· ≠ [])

/-- The parts of a label; `none` where the room's name does not become a text. -/
def labelParts (msg : InboundMessage) : Option (List Text) :=
  if msg.channelType = .http ∧ given msg.userName = none then some []
  else
    let channel :=
      if msg.channelType = .http then []
      else [js ((CHANNEL_LABELS msg.channelType).getD msg.channelType.text)]
    let user :=
      match given msg.userName with
      | some userName => [userName]
      | none => if msg.userId ≠ [] ∧ msg.channelType ≠ .http then [msg.userId] else []
    match msg.channelName.filter truthy with
    | none => some (channel ++ user)
    | some channelName =>
        (stringOf channelName).map fun name => channel ++ user ++ [js "#" ++ name]

def formatChannelPrefix (msg : InboundMessage) : Option Text :=
  (labelParts msg).map fun parts =>
    if parts = [] then [] else js "[" ++ join (js " · ") parts ++ js "]"

/-! ## Signatures -/

section Signatures

-- what the library says of a payload, a public key and a signature, if it does not throw
variable (cryptoVerify : Text → Text → Text → Option Bool)

def verifySignature (content : Text) (timestamp : Double) (publicKeyHex signatureHex : Text) :
    Bool :=
  (cryptoVerify (content ++ newline :: finiteText timestamp) publicKeyHex signatureHex).getD false

inductive Verification where
  | unsigned
  | accepted (publicKeyHex : Text)
  | rejected
  deriving DecidableEq

def Verification.isAccepted : Verification → Bool
  | .accepted _ => true
  | _ => false

def verification (msg : InboundMessage) : Verification :=
  match given msg.senderPublicKey, given msg.signature with
  | some publicKeyHex, some signatureHex =>
      let content :=
        match msg.content with
        | .text s => s
        | content => content.json.print
      if verifySignature cryptoVerify content msg.timestamp publicKeyHex signatureHex then
        .accepted publicKeyHex
      else .rejected
  | _, _ => .unsigned

def verifiedMark : Text := js " ✓"

/-- The name a verification leaves. -/
def InboundMessage.named (msg : InboundMessage) : Verification → InboundMessage
  | .unsigned => msg
  | .accepted publicKeyHex =>
      { msg with userName := some (msg.userName.getD (publicKeyHex.take 8) ++ verifiedMark) }
  | .rejected =>
      { msg with userName := some (msg.userName.getD (js "unknown") ++ js " ⚠️ unverified") }

/-! ## The content -/

/-- The label goes in front of the first text there is. -/
def labelFirst (label : Text) : List ContentBlock → Option (List ContentBlock)
  | [] => none
  | .text s :: rest => some (.text (label ++ js " " ++ s) :: rest)
  | .other block :: rest => (labelFirst label rest).map (.other block :: ·)

/-- The content that is appended, and the one that the message is left with. -/
def labelled (label : Text) (content : Content) : Option (Content × Content) :=
  match content with
  | .text s => some (.text (if label = [] then s else label ++ js " " ++ s), content)
  | .blocks items =>
      if label = [] then some (content, content)
      else
        match labelFirst label items with
        | some items => some (.blocks items, .blocks items)
        | none => some (.blocks (.text label :: items), content)
  | .other v => (stringOf v).map fun s => (.text s, content)

def ContentBlock.said : ContentBlock → Option Text
  | .text s => some s
  | .other _ => none

/-- The first text of a content. -/
def Content.leading : Content → Option Text
  | .text s => some s
  | .blocks items => items.findSome? ContentBlock.said
  | .other _ => none

/-! ## Admission -/

structure Appended where
  object : ℕ
  content : Content

/-- The messages that may be admitted, the numbers of the user's messages in the
session, all that was ever appended, and which messages had their signature
accepted. -/
structure ProcessState where
  objects : ℕ → InboundMessage
  messages : List Text
  appended : List Appended
  accepted : ℕ → Bool

/-- A message is admitted, and may then be kept from the model by a limit or an
automatic reply; or the session is compacted or begun anew. -/
inductive ProcessEvent where
  | arrive (object : ℕ) (passes : Bool)
  | rewrite (messages : List Text)

def alreadyPersisted (messages : List Text) (id : Text) : Bool := id ≠ [] && messages.contains id

/-- What is appended for a message whose verification is over. -/
def messageContent (msg : InboundMessage) : Option (Content × Content) :=
  (formatChannelPrefix msg).bind fun label => labelled label msg.content

def processMessage (g : ProcessState) (object : ℕ) (passes : Bool) : ProcessState :=
  let msg := g.objects object
  let verdict := verification cryptoVerify msg
  let named := msg.named verdict
  let g := { g with
    objects := Function.update g.objects object named
    accepted := Function.update g.accepted object
      (g.accepted object || verdict.isAccepted) }
  if passes then
    match messageContent named with
    | none => g
    | some (content, left) =>
        let g := { g with
          objects := Function.update g.objects object { named with content := left } }
        if alreadyPersisted g.messages named.id then g
        else
          { g with
            messages := g.messages ++ [named.id]
            appended := g.appended ++ [⟨object, content⟩] }
  else g

def processStep (g : ProcessState) : ProcessEvent → ProcessState
  | .arrive object passes => processMessage cryptoVerify g object passes
  | .rewrite messages => { g with messages }

end Signatures

end Shizuha.Gateway.Labels
