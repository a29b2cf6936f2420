import Shizuha.Js.Dict
import Shizuha.Js.Json
import Shizuha.Machine

/-!
# Config frames of the daemon link

A config frame may carry a fence: the generation and the digest of the lane it
wants. The fence is compared with the one recorded for the agent when the frame
arrives, and recorded when the config has been applied. Applying is the
caller's promise, so frames overlap: a frame that waits is a `PendingApply`, and
`applied` is what is left of `handleConfigFrame` after its await, all of it
synchronous. Both halves do nothing once their socket is not the current one.

Of a frame the model keeps what the fence is made of, after the conversions of
`Number` and `String`; the config itself goes to the caller and comes back only
as its verdict.
-/

namespace Shizuha.Daemon

open Js

structure RuntimeLaneFence where
  generation : ℕ
  digest : Text
  changeId : Text
  deriving DecidableEq

/-- The lane fields of a frame that has any. -/
structure LaneFields where
  /-- `Number(frame.desired_generation)`; `none` when it is not finite. -/
  desiredGeneration : Option ℚ
  /-- `String(frame.runtime_lane_digest ?? '').toLowerCase()`. -/
  digest : Text
  /-- `none` when it is no object. -/
  runtimeLane : Option Json
  changeId : Text

structure ConfigFrame where
  seq : ℤ
  agentId : Text
  lane : Option LaneFields

def isHexDigit (u : UInt16) : Bool := isDigit u || (97 ≤ u && u ≤ 102)

/-- `/^[a-f0-9]{64}$/`. -/
def isDigest (t : Text) : Bool := t.length == 64 && t.all isHexDigit

section Fence

variable (sha256Hex : Json → Text)

/-- A positive integer. -/
def laneGeneration (x : Option ℚ) : Option ℕ :=
  match x with
  | some q => if q.den = 1 ∧ 0 < q.num then some q.num.toNat else none
  | none => none

def runtimeLaneFence (frame : ConfigFrame) : Except Text (Option RuntimeLaneFence) :=
  match frame.lane with
  | none => .ok none
  | some fields =>
      match laneGeneration fields.desiredGeneration, fields.runtimeLane with
      | none, _ => .error (js "invalid_runtime_lane_generation")
      | some _, none => .error (js "missing_runtime_lane")
      | some generation, some lane =>
          if isDigest fields.digest && sha256Hex lane == fields.digest then
            .ok (some ⟨generation, fields.digest, fields.changeId⟩)
          else .error (js "runtime_lane_digest_mismatch")

end Fence

structure ConfigResult where
  ackSeq : ℤ
  agentId : Text
  ok : Bool
  error : Text
  fence : Option RuntimeLaneFence

/-- A frame whose config is being applied. -/
structure PendingApply where
  id : ℕ
  socketGeneration : ℕ
  seq : ℤ
  agentId : Text
  fence : Option RuntimeLaneFence

inductive ApplyOutcome where
  | returned (ok : Bool) (error : Text)
  | threw

structure DaemonLinkClient where
  /-- Whether the caller gave an `applyConfig`. -/
  configured : Bool
  appliedRuntimeLanes : Dict RuntimeLaneFence
  /-- What a restart would read. -/
  stateFile : Dict RuntimeLaneFence
  socketGeneration : ℕ
  /-- There is a socket and the client was not stopped. -/
  live : Bool
  pending : List PendingApply
  nextId : ℕ
  sent : List ConfigResult

namespace DaemonLinkClient

/-- The constructor, with the fences the file holds. -/
def create (configured : Bool) (fences : Dict RuntimeLaneFence) : DaemonLinkClient :=
  ⟨configured, fences, fences, 0, false, [], 0, []⟩

def recorded (c : DaemonLinkClient) (agentId : Text) : Option RuntimeLaneFence :=
  Dict.find c.appliedRuntimeLanes agentId

def isCurrentSocket (c : DaemonLinkClient) (generation : ℕ) : Bool :=
  c.live && c.socketGeneration == generation

def send (c : DaemonLinkClient) (r : ConfigResult) : DaemonLinkClient :=
  { c with sent := c.sent ++ [r] }

/-- Older than the recorded fence, or the same generation of another lane. -/
def staleOrConflicting (fence current : RuntimeLaneFence) : Bool :=
  fence.generation < current.generation
    || (fence.generation == current.generation && fence.digest != current.digest)

def isReplay (fence current : RuntimeLaneFence) : Bool :=
  fence.generation == current.generation && fence.digest == current.digest

/-- The fence of a frame against the one recorded for its agent. -/
def against (check : RuntimeLaneFence → RuntimeLaneFence → Bool) (fence current :
    Option RuntimeLaneFence) : Bool :=
  match fence, current with
  | some f, some g => check f g
  | _, _ => false

/-- `handleConfigFrame` up to its await. -/
def handleConfigFrame (sha256Hex : Json → Text) (c : DaemonLinkClient) (frame : ConfigFrame) :
    DaemonLinkClient :=
  if frame.agentId = [] then
    c.send ⟨frame.seq, [], false, js "agent_id/child_id is required", none⟩
  else
    match runtimeLaneFence sha256Hex frame with
    | .error error => c.send ⟨frame.seq, frame.agentId, false, error, none⟩
    | .ok laneFence =>
        if against staleOrConflicting laneFence (c.recorded frame.agentId) then
          c.send ⟨frame.seq, frame.agentId, false,
            js "stale_or_conflicting_runtime_lane_generation", laneFence⟩
        else if against isReplay laneFence (c.recorded frame.agentId) then
          c.send ⟨frame.seq, frame.agentId, true, [], laneFence⟩
        else if c.configured then
          { c with
            pending := c.pending ++
              [⟨c.nextId, c.socketGeneration, frame.seq, frame.agentId, laneFence⟩]
            nextId := c.nextId + 1 }
        else
          c.send ⟨frame.seq, frame.agentId, false,
            js "daemon config apply callback is not configured", laneFence⟩

/-- Recording a fence. When the file cannot be written the old one is put back
and the error is the result. -/
def record (c : DaemonLinkClient) (agentId : Text) (fence : RuntimeLaneFence)
    (writeError : Option Text) : DaemonLinkClient :=
  let previousFence := c.recorded agentId
  let recorded := Dict.set c.appliedRuntimeLanes agentId fence
  match writeError with
  | none => { c with appliedRuntimeLanes := recorded, stateFile := recorded }
  | some _ =>
      match previousFence with
      | some previous => { c with appliedRuntimeLanes := Dict.set recorded agentId previous }
      | none => { c with appliedRuntimeLanes := Dict.remove recorded agentId }

/-- `handleConfigFrame` after its await. -/
def applied (c : DaemonLinkClient) (p : PendingApply) (ok : Bool) (error : Text)
    (writeError : Option Text) : DaemonLinkClient :=
  if !c.isCurrentSocket p.socketGeneration then c
  else
    match ok, p.fence with
    | true, some fence =>
        (c.record p.agentId fence writeError).send
          ⟨p.seq, p.agentId, writeError.isNone, writeError.getD [], some fence⟩
    | ok, fence => c.send ⟨p.seq, p.agentId, ok, error, fence⟩

/-- A promise of `applyConfig` settles. -/
def settle (c : DaemonLinkClient) (id : ℕ) (outcome : ApplyOutcome) (writeError : Option Text) :
    DaemonLinkClient :=
  match c.pending.find? fun p => p.id = id with
  | none => c
  | some p =>
      let rest := { c with pending := c.pending.filter fun q => q.id ≠ id }
      match outcome with
      | .threw => rest
      | .returned ok error => rest.applied p ok error writeError

end DaemonLinkClient

/-! ## Runs -/

inductive DaemonLinkOp where
  | connect
  | closed
  | stop
  | config (frame : ConfigFrame)
  | settle (id : ℕ) (outcome : ApplyOutcome) (writeError : Option Text)

def daemonLinkStep (sha256Hex : Json → Text) (c : DaemonLinkClient) :
    DaemonLinkOp → DaemonLinkClient
  | .connect => { c with socketGeneration := c.socketGeneration + 1, live := true }
  | .closed => { c with live := false }
  | .stop => { c with socketGeneration := c.socketGeneration + 1, live := false }
  | .config frame => if c.live then c.handleConfigFrame sha256Hex frame else c
  | .settle id outcome writeError => c.settle id outcome writeError

end Shizuha.Daemon
