import Shizuha.LocalCore.Protocol

/-!
# Agent credentials

The scopes are a closed list, and a text from a request is checked against it;
what is stored has the types that the source gives it. An agent's permissions
are four lists: the scopes it may grant, the custom services it may grant, the
scopes whose payloads it may read, and its audit roles.
-/

namespace Shizuha.Credentials

open Js Agent LocalCore

inductive AgentCredentialScope where
  | fleetSsh
  | kubeconfig
  | vaultToken
  | shizuhaId
  | github
  | gitlab
  | aws
  | npm
  | docker
  | custom
  deriving DecidableEq

def AgentCredentialScope.text : AgentCredentialScope → Text
  | .fleetSsh => js "fleet-ssh"
  | .kubeconfig => js "kubeconfig"
  | .vaultToken => js "vault-token"
  | .shizuhaId => js "shizuha-id"
  | .github => js "github"
  | .gitlab => js "gitlab"
  | .aws => js "aws"
  | .npm => js "npm"
  | .docker => js "docker"
  | .custom => js "custom"

def AGENT_CREDENTIAL_SCOPES : List AgentCredentialScope :=
  [.fleetSsh, .kubeconfig, .vaultToken, .shizuhaId, .github, .gitlab, .aws, .npm, .docker, .custom]

inductive AgentCredentialAuditRole where
  | metadataAudit
  | securityLead
  deriving DecidableEq

/-- `AgentCredentialScope | '*'`. -/
inductive PayloadReadScope where
  | all
  | scope (scope : AgentCredentialScope)
  deriving DecidableEq

structure AgentCredential where
  id : Text
  grantId : Option Text
  grantorId : Option Text
  scope : Option AgentCredentialScope
  service : Option AgentCredentialScope
  customService : Option Text
  label : Text
  credentialData : List (Text × Text)
  expiresAt : Option Text
  injectAsEnv : Bool
  envMapping : Option (List (Text × Text))
  isActive : Bool
  deriving DecidableEq

inductive AgentCredentialRequestStatus where
  | pending
  | fulfilled
  | denied
  | expired
  deriving DecidableEq

structure AgentCredentialRequest where
  id : Text
  requesterId : Text
  requesterUsername : Text
  requesterRole : Option Text
  scope : AgentCredentialScope
  reason : Text
  requestedAt : Text
  expiry : Option Text
  status : AgentCredentialRequestStatus
  deriving DecidableEq

/-- What the broker reads of an agent. -/
structure AgentInfo where
  id : Text
  username : Text
  email : Text
  role : Option Text
  credentialBrokerPeerUid : Option ℤ
  credentials : List AgentCredential
  credentialRequests : List AgentCredentialRequest
  credentialGrantScopes : List AgentCredentialScope
  credentialCustomGrantServices : List Text
  credentialPayloadReadScopes : List PayloadReadScope
  credentialAuditRoles : List AgentCredentialAuditRole
  deriving DecidableEq

/-- The id that a credential and a grant go by. -/
def AgentCredential.grant (c : AgentCredential) : Text := c.grantId.getD c.id

/-- `scope ?? service`. -/
def AgentCredential.scoped (c : AgentCredential) : Option AgentCredentialScope := c.scope.or c.service

/-! ## Checks -/

/-- `if (p) throw new Error(message)`. -/
def refuseIf (p : Prop) [Decidable p] (message : Text) : Except Text Unit :=
  if p then throw message else pure ()

/-- `if (!value) throw new Error(message)`. -/
def orThrow {α : Type} (value : Option α) (message : Text) : Except Text α :=
  match value with
  | some a => pure a
  | none => throw message

/-- `String(value)` in an error's message. -/
def shown (head : String) : Option Json → Text
  | none => js head ++ js "undefined"
  | some v =>
      match stringOf v with
      | some t => js head ++ t
      | none => js "Cannot convert object to primitive value"

def assertAgentCredentialScope (value : Option Json) : Except Text AgentCredentialScope :=
  match value with
  | some (.str t) =>
      if t = js "reserved" then
        throw (js "AgentCredential scope \"reserved\" is a sentinel and cannot be instantiated")
      else
        match AGENT_CREDENTIAL_SCOPES.find? fun s => s.text = t with
        | some scope => pure scope
        | none => throw (shown "Unknown AgentCredential scope: " value)
  | _ => throw (shown "Unknown AgentCredential scope: " value)

/-- The check of a credential that is stored. -/
def AgentCredential.assertScope (c : AgentCredential) : Except Text AgentCredentialScope :=
  orThrow c.scoped (shown "Unknown AgentCredential scope: " none)

def isServiceHead (u : UInt16) : Bool := isDigit u || (97 ≤ u && u ≤ 122)

def isServiceUnit (u : UInt16) : Bool := isServiceHead u || u = 95 || u = 46 || u = 45

/-- `/^[a-z0-9][a-z0-9_.-]{0,127}$/`. -/
def isCustomService : Text → Bool
  | [] => false
  | u :: rest => isServiceHead u && rest.all isServiceUnit && rest.length ≤ 127

def normalizeCredentialCustomService (toLowerCase : Text → Text) (value : Option Json) :
    Except Text Text :=
  match value with
  | some (.str t) =>
      if trim t = [] then throw (js "custom credential grant service must be a non-empty string")
      else
        let service := toLowerCase (trim t)
        if service = js "*" then pure service
        else if isCustomService service then pure service
        else throw (js "Invalid custom credential grant service: " ++ t)
  | _ => throw (js "custom credential grant service must be a non-empty string")

/-! ## Permissions -/

def resolveCredentialGrantScopes (agent : AgentInfo) : List AgentCredentialScope :=
  agent.credentialGrantScopes.eraseDups

def resolveCredentialCustomGrantServices (toLowerCase : Text → Text) (agent : AgentInfo) :
    Except Text (List Text) :=
  (agent.credentialCustomGrantServices.mapM fun service =>
    normalizeCredentialCustomService toLowerCase (some (.str service))).map List.eraseDups

def resolveCredentialAuditRoles (agent : AgentInfo) : List AgentCredentialAuditRole :=
  agent.credentialAuditRoles.eraseDups

def resolveCredentialPayloadReadScopes (agent : AgentInfo) : List PayloadReadScope :=
  let seen : List PayloadReadScope :=
    if (resolveCredentialAuditRoles agent).contains .securityLead then [.all] else []
  (seen ++ agent.credentialPayloadReadScopes).eraseDups

def hasGrantPermission (toLowerCase : Text → Text) (agent : AgentInfo)
    (scope : AgentCredentialScope) (customService : Option Text) : Except Text Bool :=
  if scope = .custom then
    match customService.filter (· ≠ []) with
    | none => pure false
    | some service => do
        let services ← resolveCredentialCustomGrantServices toLowerCase agent
        pure (services.contains (js "*") || services.contains service)
  else pure (agent.credentialGrantScopes.contains scope)

def hasPayloadReadPermission (agent : AgentInfo) (scope : AgentCredentialScope) : Bool :=
  let scopes := resolveCredentialPayloadReadScopes agent
  scopes.contains .all || scopes.contains (.scope scope)

def hasFleetMetadataAuditPermission (agent : AgentInfo) : Bool :=
  let roles := resolveCredentialAuditRoles agent
  roles.contains .metadataAudit || roles.contains .securityLead

def hasMetadataAuditPermission (agent : AgentInfo) : Bool :=
  hasFleetMetadataAuditPermission agent || resolveCredentialGrantScopes agent ≠ []

/-- The scopes whose metadata an agent may see of others. -/
def grantorMetadataScopeFilter (agent : AgentInfo) (scope : AgentCredentialScope) : Bool :=
  hasFleetMetadataAuditPermission agent || (resolveCredentialGrantScopes agent).contains scope

/-- `email || username || id`. -/
def grantorIdFor (agent : AgentInfo) : Text :=
  if agent.email ≠ [] then agent.email else if agent.username ≠ [] then agent.username else agent.id

def isAgentCredentialGrantCurrentlyActive (parse : Text → Option ℤ) (now : ℤ)
    (credential : AgentCredential) : Bool :=
  credential.isActive &&
    match credential.expiresAt.filter (· ≠ []) with
    | none => true
    | some expiresAt => (parse expiresAt).any fun t => now < t

end Shizuha.Credentials
