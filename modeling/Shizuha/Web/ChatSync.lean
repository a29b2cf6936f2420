import Shizuha.Js.Text
import Mathlib.Data.List.Sort
import Mathlib.Data.Prod.Lex
import Mathlib.Data.List.Lex
import Mathlib.Order.WithBot
import Mathlib.Algebra.Order.Ring.Rat

/-!
# The chat list

One list of messages, kept in order, into which live events, replays and pages
of history are folded message by message. `insertOrdered` tries four rules
before it inserts: the client's own id of the message, the id, an echo of a
message that is still pending, and a duplicate of an assistant's message that
only this client knows.

How a date text reads is a parameter, the time in milliseconds or nothing.
Sequence numbers are finite.
-/

namespace Shizuha.Web

open Js

inductive ChatRole where
  | user
  | assistant
  | system
  deriving DecidableEq

/-- An optional property: left out, set to undefined, or a value. -/
abbrev Optional (α : Type) := Option (Option α)

structure ChatMessage where
  id : Text
  role : ChatRole
  content : Text
  createdAt : Text
  seqNum : Optional ℚ
  pending : Optional Bool
  clientMessageId : Optional Text
  deriving DecidableEq

/-- `{ ...existing, ...msg }`. -/
def ChatMessage.spread (existing msg : ChatMessage) : ChatMessage :=
  { msg with
    seqNum := msg.seqNum <|> existing.seqNum
    pending := msg.pending <|> existing.pending
    clientMessageId := msg.clientMessageId <|> existing.clientMessageId }

def ChatMessage.isPending (m : ChatMessage) : Bool := m.pending.join = some true

/-- The client's id of a message, when it has one that is not empty. -/
def ChatMessage.cmid (m : ChatMessage) : Option Text :=
  m.clientMessageId.join.bind fun t => if t = [] then none else some t

def clientOnlyMessageIdPrefixes : List Text :=
  ["assistant-", "assistant-interrupted-", "failed-", "proactive-", "sys-", "auth-", "auth-code-",
    "auth-done-", "auth-err-", "user-"].map js

def isClientOnlyMessageId (id : Text) : Bool :=
  clientOnlyMessageIdPrefixes.any fun head => startsWith id head

structure InsertOptions where
  isReplay : Bool
  isServerEcho : Bool

section

variable (time : Text → Option ℤ)

/-! ## The order -/

/-- A message without a sequence number comes after those with one. -/
def orderKey (m : ChatMessage) : WithTop ℚ × ℤ × Text :=
  (match m.seqNum.join with
    | some n => (n : WithTop ℚ)
    | none => ⊤,
    (time m.createdAt).getD 0, m.id)

/-- The order of `<` on strings. -/
def textBefore (s t : Text) : Prop := s.map UInt16.toNat < t.map UInt16.toNat

instance (s t : Text) : Decidable (textBefore s t) := inferInstanceAs (Decidable (_ < _))

/-- The sign of the source's number. -/
def compareMessages (a b : ChatMessage) : Ordering :=
  let (as, ats, ai) := orderKey time a
  let (bs, bts, bi) := orderKey time b
  if as ≠ bs then if as < bs then .lt else .gt
  else if ats ≠ bts then if ats < bts then .lt else .gt
  else if textBefore ai bi then .lt else if textBefore bi ai then .gt else .eq

/-- `sort(compareMessages)`, which is stable. -/
def sortMessages (l : List ChatMessage) : List ChatMessage :=
  l.insertionSort fun a b => compareMessages time a b ≠ .gt

/-! ## Insertion -/

/-- The binary search of the source between `lo` and `hi`, which come closer in
each of the `fuel` rounds. -/
def searchSlot (l : List ChatMessage) (msg : ChatMessage) : ℕ → ℕ → ℕ → ℕ
  | 0, lo, _ => lo
  | fuel + 1, lo, hi =>
      if lo < hi then
        let mid := (lo + hi) / 2
        match l[mid]? with
        | some m =>
            if compareMessages time m msg = .lt then searchSlot l msg fuel (mid + 1) hi
            else searchSlot l msg fuel lo mid
        | none => lo
      else lo

def binaryInsert (l : List ChatMessage) (msg : ChatMessage) : List ChatMessage :=
  let slot := searchSlot time l msg l.length 0 l.length
  l.take slot ++ msg :: l.drop slot

/-- The place of the entry with the message's client id. -/
def sameCmid (l : List ChatMessage) (msg : ChatMessage) : Option ℕ :=
  match msg.cmid with
  | none => none
  | some _ => l.findIdx? fun m => m.clientMessageId.join = msg.clientMessageId.join

def sameId (l : List ChatMessage) (msg : ChatMessage) : Option ℕ :=
  l.findIdx? fun m => m.id = msg.id

/-- A pending entry of the user's that the message is the echo of. -/
def ChatMessage.echoes (msg m : ChatMessage) : Bool :=
  m.isPending && decide (m.role = .user ∧ m.content = msg.content)

def pendingEcho (opts : InsertOptions) (l : List ChatMessage) (msg : ChatMessage) : Option ℕ :=
  if opts.isServerEcho ∧ msg.role = .user then l.findIdx? msg.echoes else none

/-- An assistant's message of this client's own making that is there already,
with a time within five seconds of now. -/
def isDuplicate (now : ℤ) (opts : InsertOptions) (l : List ChatMessage) (msg : ChatMessage) :
    Bool :=
  !opts.isReplay && decide (msg.content ≠ []) && isClientOnlyMessageId msg.id &&
    decide (msg.role = .assistant) &&
    l.any fun m => decide (m.role = .assistant ∧ m.content = msg.content) &&
      (match time m.createdAt with
        | some t => decide (|t - now| < 5000)
        | none => false)

/-- The entry and its neighbours are out of order. -/
def outOfOrder (l : List ChatMessage) (i : ℕ) (merged : ChatMessage) : Bool :=
  (match (if 0 < i then l[i - 1]? else none) with
    | some left => compareMessages time left merged = .gt
    | none => false) ||
  (match l[i + 1]? with
    | some right => compareMessages time merged right = .gt
    | none => false)

/-- The message put in the place of the one with its id. -/
def updateInPlace (l : List ChatMessage) (i : ℕ) (merged : ChatMessage) : List ChatMessage :=
  let updated := l.set i merged
  if outOfOrder time updated i merged then sortMessages time updated else updated

def insertOrdered (now : ℤ) (prev : List ChatMessage) (msg : ChatMessage)
    (opts : InsertOptions) : List ChatMessage :=
  match sameCmid prev msg with
  | some i =>
      let existing := prev.getD i msg
      sortMessages time
        (prev.set i { existing.spread msg with id := msg.id, pending := some (some false) })
  | none =>
      match sameId prev msg with
      | some i => updateInPlace time prev i ((prev.getD i msg).spread msg)
      | none =>
          match pendingEcho opts prev msg with
          | some i => sortMessages time (prev.set i { msg with pending := some (some false) })
          | none =>
              if isDuplicate time now opts prev msg then prev else binaryInsert time prev msg

end

end Shizuha.Web
