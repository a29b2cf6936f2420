import Shizuha.State.Store

/-!
# The permission engine

A request is decided by the first of five stages that has something to say:
plan mode, the configured rules, the network policy, what was approved in the
session, and the default of the mode. Only the third one looks at the network
policy, and only for the tools that go out to the network.

What the engine asks of the runtime is `PermissionEnv`: `toLowerCase`, the
hostname of `new URL(…)` and `path.resolve`. The last two throw on some values,
which is `none`. The callback of an approval is left out: nothing is read back.
-/

namespace Shizuha.Permissions

open Js State

inductive PermissionMode where
  | plan
  | supervised
  | autonomous
  deriving DecidableEq

inductive PermissionDecision where
  | allow
  | deny
  | ask
  deriving DecidableEq

inductive RiskLevel where
  | low
  | medium
  | high
  deriving DecidableEq

structure PermissionRule where
  tool : Text
  decision : PermissionDecision

structure PermissionRequest where
  toolName : Text
  input : List (Text × Json)
  riskLevel : RiskLevel

structure NetworkPolicy where
  /-- Whether outbound access is allowed at all. -/
  networkAccess : Bool
  /-- Destination hosts; empty is all of them. -/
  allowedHosts : List Text

structure PermissionEnv where
  toLowerCase : Text → Text
  hostname : Json → Option Text
  resolve : Json → Option Text

/-- Tools that make outbound network requests. -/
def networkTools : List Text := [js "web_fetch", js "web_search"]

/-- The default rules for supervised mode. -/
def DEFAULT_RULES : List PermissionRule :=
  [⟨js "read", .allow⟩, ⟨js "glob", .allow⟩, ⟨js "grep", .allow⟩, ⟨js "ask_user", .allow⟩,
    ⟨js "write", .ask⟩, ⟨js "edit", .ask⟩, ⟨js "bash", .ask⟩,
    ⟨js "web_fetch", .allow⟩, ⟨js "web_search", .allow⟩]

/-- A property of the input. -/
def PermissionRequest.get (request : PermissionRequest) (name : Text) : Option Json :=
  (request.input.find? fun f => f.1 = name).map Prod.snd

/-- A glob on the tool name, where only a last `*` is one. -/
def matchesRule (rule : PermissionRule) (request : PermissionRequest) : Bool :=
  rule.tool = js "*" || rule.tool = request.toolName ||
    (rule.tool.getLast? = some 42 && startsWith request.toolName rule.tool.dropLast)

section

variable (env : PermissionEnv)

/-- `*.example.com` is every host below it, and `example.com`. -/
def matchHost (pattern hostname : Text) : Bool :=
  let p := env.toLowerCase pattern
  p = hostname ||
    (startsWith p (js "*.") &&
      ((p.drop 1).isSuffixOf hostname || hostname = p.drop 2))

structure PermissionEngine where
  mode : PermissionMode
  rules : List PermissionRule
  sessionApprovals : List Text
  planFilePath : Option Text
  networkPolicy : Option NetworkPolicy

namespace PermissionEngine

def create (mode : PermissionMode) (rules : List PermissionRule) (persistedApprovals : List Text)
    (networkPolicy : Option NetworkPolicy) : PermissionEngine :=
  ⟨mode, rules, persistedApprovals, none, networkPolicy⟩

variable (e : PermissionEngine)

/-- `write` and `edit` of the plan file; `none` when a path cannot be resolved. -/
def isPlanFileAccess (request : PermissionRequest) : Option Bool :=
  if request.toolName ≠ js "write" ∧ request.toolName ≠ js "edit" then some false
  else
    match (request.get (js "file_path")).filter truthy, e.planFilePath.filter (· ≠ []) with
    | some filePath, some planFilePath => do
        let resolved ← env.resolve filePath
        let resolvedPlan ← env.resolve (.str planFilePath)
        some (resolved = resolvedPlan)
    | _, _ => some false

/-- The host of a URL against the allowed ones. -/
def checkUrl (policy : NetworkPolicy) (url : Json) : PermissionDecision :=
  match env.hostname url with
  | none => .deny
  | some hostname =>
      if policy.allowedHosts.any fun pattern =>
          matchHost env pattern (env.toLowerCase hostname) then .allow
      else .deny

def checkNetworkAccess (policy : NetworkPolicy) (request : PermissionRequest) :
    PermissionDecision :=
  if !policy.networkAccess then .deny
  else if policy.allowedHosts = [] then .allow
  else
    match (request.get (js "url")).filter truthy with
    -- no URL to check
    | none => .allow
    | some url => checkUrl env policy url

/-- What is left to the mode when no rule, policy or approval decides. -/
def modeDefault (request : PermissionRequest) : PermissionDecision :=
  match e.mode with
  | .autonomous => .allow
  | .supervised => if request.riskLevel = .low then .allow else .ask
  | .plan => .ask

/-- The stages after the rules. -/
def checkUnruled (request : PermissionRequest) : PermissionDecision :=
  if (e.networkPolicy.any fun policy => checkNetworkAccess env policy request = .deny) ∧
      request.toolName ∈ networkTools then .deny
  else if request.toolName ∈ e.sessionApprovals then .allow
  else e.modeDefault request

/-- `none` is a call that throws. -/
def check (request : PermissionRequest) : Option PermissionDecision :=
  if e.mode = .plan then
    if request.riskLevel = .low then some .allow
    else if request.toolName = js "exit_plan_mode" then some .ask
    else (e.isPlanFileAccess env request).map fun access => if access then .allow else .deny
  else
    match e.rules.find? fun rule => matchesRule rule request with
    | some rule => some rule.decision
    | none => some (e.checkUnruled env request)

def approve (toolName : Text) : PermissionEngine :=
  { e with sessionApprovals := toolName :: e.sessionApprovals }

end PermissionEngine

end

/-- The calls of an engine. -/
inductive EngineOp where
  | approve (toolName : Text)
  | setMode (mode : PermissionMode)
  | setPlanFilePath (filePath : Option Text)
  | setNetworkPolicy (policy : Option NetworkPolicy)
  | check (request : PermissionRequest)

def PermissionEngine.step (e : PermissionEngine) : EngineOp → PermissionEngine
  | .approve toolName => e.approve toolName
  | .setMode mode => { e with mode := mode }
  | .setPlanFilePath filePath => { e with planFilePath := filePath }
  | .setNetworkPolicy policy => { e with networkPolicy := policy }
  | .check _ => e

end Shizuha.Permissions
