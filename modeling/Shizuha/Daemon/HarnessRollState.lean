import Shizuha.Agent.Types
import Shizuha.Daemon.RuntimeRollDeferral

/-!
# The roll state on disk

What a daemon knows of a rollout is written to one file and read back when it
starts again, possibly for another target image. The reader goes through the
file record by record and drops what it does not know: a key of another target,
a time that is not finite, a reason or a protocol outside its two sets.
-/

namespace Shizuha.Daemon

open Js Agent

@[ext]
structure HarnessRollState where
  desiredImage : Text
  lastRollAt : Double
  inFlightAgentIds : List Text
  driftSince : Dict Double
  deferrals : Dict PersistedRuntimeRollDeferral

/-! ## Writing -/

def PersistedRuntimeRollDeferral.json (d : PersistedRuntimeRollDeferral) : Json :=
  .obj [(js "since", .num (.finite d.since)), (js "agent", .str d.agent),
    (js "reason", .str d.reason.text), (js "protocol", .str d.protocol.text),
    (js "alerted", .bool d.alerted)]

def timeJson (x : Double) : Json := .num (.finite x)

def HarnessRollState.json (s : HarnessRollState) : Json :=
  .obj [(js "desiredImage", .str s.desiredImage), (js "lastRollAt", timeJson s.lastRollAt),
    (js "inFlightAgentIds", .arr (s.inFlightAgentIds.map .str)),
    (js "driftSince", .obj (s.driftSince.rows.map fun e => (e.1, timeJson e.2))),
    (js "deferrals", .obj (s.deferrals.rows.map fun e => (e.1, e.2.json)))]

/-- The file, as it is read back. -/
def writeHarnessRollState (s : HarnessRollState) : Text := toWellFormed (s.json.print ++ js "\n")

/-! ## Reading -/

/-- `Object.entries` of what a file may hold. -/
def entriesOf : Json → List (Text × Json)
  | .obj fields => fields
  | .arr items => items.mapIdx fun i v => (decimal i, v)
  | .str s => s.mapIdx fun i u => (decimal i, .str [u])
  | _ => []

def entriesField (key : String) (parsed : Json) : List (Text × Json) :=
  match field key parsed with
  | some v => entriesOf v
  | none => []

def finiteOf : Json → Option Double
  | .num (.finite x) => some x
  | _ => none

def deferralReasons : List Text := [js "bridge-busy", js "probe-failed"]

def deferralProtocols : List Text := [js "drain-v1", js "legacy-health", js "unknown"]

def reasonOf (t : Text) : Option RuntimeRollDeferralReason :=
  [.bridgeBusy, .probeFailed].find? fun r : RuntimeRollDeferralReason => r.text = t

def protocolOf (t : Text) : Option RuntimeRollDeferralProtocol :=
  [.drainV1, .drainV2, .legacyHealth, .unknown].find? fun p : RuntimeRollDeferralProtocol =>
    p.text = t

def validDeferral (value : Json) : Bool :=
  ((field "since" value).bind finiteOf).isSome
    && ((textField "agent" value).any fun agent => 0 < agent.length)
    && deferralReasons.contains ((textField "reason" value).getD [])
    && deferralProtocols.contains ((textField "protocol" value).getD [])
    && (boolField "alerted" value).isSome

/-- A value of the file, as the record its type says it is. -/
def deferralOf (value : Json) : Option PersistedRuntimeRollDeferral := do
  let since ← (field "since" value).bind finiteOf
  let agent ← textField "agent" value
  let reason ← (textField "reason" value).bind reasonOf
  let protocol ← (textField "protocol" value).bind protocolOf
  let alerted ← boolField "alerted" value
  return ⟨since, agent, reason, protocol, alerted⟩

def readDeferral (value : Json) : Option PersistedRuntimeRollDeferral :=
  if validDeferral value then deferralOf value else none

/-- The key of an entry under the target of today, unless it is not one of the
target the file was written for. -/
def rekey (previousDesiredImage desiredImage key : Text) : Option Text :=
  let previousTargetSuffix := 0 :: previousDesiredImage
  if previousTargetSuffix.isSuffixOf key then
    if previousDesiredImage = desiredImage then some key
    else
      let agentId := key.take (key.length - previousTargetSuffix.length)
      if agentId = [] then none else some (agentId ++ 0 :: desiredImage)
  else none

def readEntries {α : Type} (read : Json → Option α) (previousDesiredImage desiredImage : Text)
    (entries : List (Text × Json)) : Dict α :=
  Dict.fromEntries (entries.filterMap fun e => do
    let key ← rekey previousDesiredImage desiredImage e.1
    let value ← read e.2
    return (key, value))

def readLastRollAt (parsed : Json) : Double :=
  match (field "lastRollAt" parsed).bind finiteOf with
  | some x => if x.val < 0 then .ofInt 0 zero_small else x
  | none => .ofInt 0 zero_small

def readInFlight (parsed : Json) : List Text :=
  match field "inFlightAgentIds" parsed with
  | some (.arr items) => items.filterMap fun
      | .str id => if id = [] then none else some id
      | _ => none
  | _ => []

/-- `none` for no state; `file` is what could be read of it. -/
def readHarnessRollState (file desiredImage : Text) : Option HarnessRollState :=
  match Json.parse file with
  | none => none
  | some parsed =>
      let previousDesiredImage := (textField "desiredImage" parsed).getD []
      if previousDesiredImage = [] then none
      else
        some
          { desiredImage := desiredImage
            lastRollAt := readLastRollAt parsed
            inFlightAgentIds := if previousDesiredImage = desiredImage then readInFlight parsed else []
            driftSince := readEntries finiteOf previousDesiredImage desiredImage
              (entriesField "driftSince" parsed)
            deferrals := readEntries readDeferral previousDesiredImage desiredImage
              (entriesField "deferrals" parsed) }

end Shizuha.Daemon
