import Shizuha.Daemon.CredentialBroker
import Shizuha.Effect
import Shizuha.Machine

/-!
# Who may put a credential there

The broker is the one that writes credentials, and what it writes was asked for
by somebody. Over any run, an active credential is one that was there before,
exactly as it was, or one that a call issued: on the grant plane by an agent
with the permission for its scope, or by its owner for itself. Nothing that was
revoked becomes active again.

What a call does to the agents is said once, in `Decides`, a constructor for
each action, and the rest is by cases on it.
-/

namespace Shizuha.Credentials

open Js Agent
open Machine (Along)

variable {env : BrokerEnv} {s : Broker} {call : Call} {caller : AgentInfo}
  {agents : List AgentInfo} {request : Json} {change : Change}

theorem refuseIf_ok {p : Prop} [Decidable p] {message : Text} {u : Unit} :
    refuseIf p message = .ok u ↔ ¬ p := by
  rw [refuseIf]
  split_ifs with h
  · exact iff_of_false (by intro h'; cases h') (not_not_intro h)
  · exact iff_of_true rfl h

theorem orThrow_ok {α : Type} {value : Option α} {message : Text} {a : α} :
    orThrow value message = .ok a ↔ value = some a := by
  cases value with
  | none => exact iff_of_false (by intro h; cases h) (by intro h; cases h)
  | some b =>
      constructor
      · intro h
        cases h
        rfl
      · intro h
        cases h
        rfl

/-! ## What an action decides -/

def AgentInfo.asked (a : AgentInfo) (r : AgentCredentialRequest) : AgentInfo :=
  { a with credentialRequests := a.credentialRequests ++ [r] }

def AgentCredential.revoked (c : AgentCredential) : AgentCredential := { c with isActive := false }

/-- The first credential of the kind is revoked. -/
def AgentInfo.revoke (a : AgentInfo) (p : AgentCredential → Bool) : AgentInfo :=
  { a with credentials := modifyFirst p AgentCredential.revoked a.credentials }

/-- The requests of the kind get a status. -/
def AgentInfo.mark (a : AgentInfo) (p : AgentCredentialRequest → Bool)
    (v : AgentCredentialRequestStatus) : AgentInfo :=
  { a with
    credentialRequests := a.credentialRequests.map fun r =>
      if p r then { r with status := v } else r }

def AgentInfo.issue (a : AgentInfo) (c : AgentCredential) : AgentInfo :=
  { a with credentials := a.credentials ++ [c] }

def AgentInfo.deny (a : AgentInfo) (p : AgentCredentialRequest → Bool) : AgentInfo :=
  { a with
    credentialRequests := modifyFirst p (fun r => { r with status := .denied })
      a.credentialRequests }

/-- A credential that the call makes. -/
structure Made (call : Call) (caller : AgentInfo) (c : AgentCredential) : Prop where
  grantId : c.grantId = some call.uuid
  grantorId : c.grantorId = some (grantorIdFor caller)
  active : c.isActive = true

inductive Decides (env : BrokerEnv) (call : Call) (caller : AgentInfo) (agents : List AgentInfo) :
    Change → Prop where
  | opens (r : AgentCredentialRequest) (updatedCaller : AgentInfo)
      (found : agents.find? (fun a => a.id = caller.id) = some updatedCaller)
      (id : r.id = call.uuid) (requester : r.requesterId = caller.id)
      (pending : r.status = .pending) :
      Decides env call caller agents
        ⟨modifyFirst (fun a => a.id = caller.id) (fun a => a.asked r) agents,
          [.requestOpened r.id (granteeOf caller) r.scope r.reason r.requestedAt r.expiry],
          .recorded r.id caller.username r.scope r.reason r.expiry, false⟩
  | upserts (service label : Text) (updatedCaller : AgentInfo) (c : AgentCredential)
      (keys : List Text)
      (found : agents.find? (fun a => a.id = caller.id) = some updatedCaller)
      (made : Made call caller c) (scope : c.scope = some .custom) :
      Decides env call caller agents
        ⟨modifyFirst (fun a => a.id = caller.id) (fun a => (a.revoke (isReplaced service label)).issue c)
            agents,
          ((updatedCaller.credentials.find? (isReplaced service label)).map fun c =>
              AuditEvent.grantRevoked c.grant (actorOf caller) (granteeOf caller) .custom
                (some service) (js "replaced by upsert_self_credential(" ++ service ++ js ")")
                call.nowIso).toList ++
            [.grantIssued call.uuid (actorOf caller) (granteeOf caller) .custom (some service)
              (.self label keys) call.nowIso],
          .granted (metadataCredential c) caller.username, false⟩
  | grants (ref : Text) (grantee : AgentInfo) (scope : AgentCredentialScope) (c : AgentCredential)
      (details : GrantDetails)
      (plane : call.socketKind = .grant)
      (permitted : hasGrantPermission env.toLowerCase caller scope c.customService = .ok true)
      (found : agents.find? (isRef ref) = some grantee) (made : Made call caller c)
      (ofScope : c.scope = some scope) :
      Decides env call caller agents
        ⟨modifyFirst (isRef ref)
            (fun a => (a.issue c).mark (fun r => r.status = .pending && r.scope = scope) .fulfilled)
            agents,
          .grantIssued call.uuid (actorOf caller) (granteeOf grantee) scope c.customService details
            call.nowIso ::
            (grantee.credentialRequests.filter fun r => r.status = .pending && r.scope = scope).map
              fun r => .requestApproved r.id call.uuid (actorOf caller) (granteeOf grantee) scope
                c.customService r.reason call.nowIso,
          .granted (metadataCredential c) grantee.username, true⟩
  | revokes (grantId reason : Text) (target updatedTarget : AgentInfo) (credential : AgentCredential)
      (scope : AgentCredentialScope)
      (found : agents.find? (fun a => a.credentials.any fun c => c.grant = grantId) = some target)
      (ofScope : credential.scoped = some scope)
      (held : target.credentials.find? (fun c => c.grant = grantId) = some credential)
      (may : mayRevoke env call caller target scope
        (if scope = .custom then credential.customService else none) = .ok ())
      (updated : agents.find? (fun a => a.id = target.id) = some updatedTarget) :
      Decides env call caller agents
        ⟨modifyFirst (fun a => a.id = target.id) (fun a => a.revoke fun c => c.grant = grantId)
            agents,
          [.grantRevoked grantId (actorOf caller) (granteeOf updatedTarget) scope
            (credential.customService.filter (· ≠ [])) reason call.nowIso],
          .revoked grantId updatedTarget.username, false⟩
  | denies (requestId reason : Text) (target updatedTarget : AgentInfo) (r : AgentCredentialRequest)
      (plane : call.socketKind = .grant)
      (found : agents.find? (fun a => a.credentialRequests.any fun r => r.id = requestId) =
        some target)
      (held : target.credentialRequests.find? (fun r => r.id = requestId) = some r)
      (pending : r.status = .pending)
      (permitted : hasGrantPermission env.toLowerCase caller r.scope none = .ok true)
      (updated : agents.find? (fun a => a.id = target.id) = some updatedTarget) :
      Decides env call caller agents
        ⟨modifyFirst (fun a => a.id = target.id) (fun a => a.deny fun r => r.id = requestId) agents,
          [.requestDenied requestId (actorOf caller) (granteeOf updatedTarget) r.scope reason
            call.nowIso], .denied requestId updatedTarget.username, false⟩
  | expires (ids : List Text) (plane : call.socketKind = .grant)
      (permitted : hasMetadataAuditPermission caller = true) :
      Decides env call caller agents
        ⟨agents.map fun a => a.mark (expires env call caller) .expired,
          (agents.flatMap fun a => (a.credentialRequests.filter (expires env call caller)).map
            fun r => (r, a)).map fun e =>
              .requestExpired e.1.id (actorOf caller) (granteeOf e.2) e.1.scope call.nowIso,
          .expired ids, false⟩

theorem requestCredential_decides
    (h : requestCredential env call caller agents request = .ok change) :
    Decides env call caller agents change := by
  simp only [requestCredential, Except.bind_ok_iff, orThrow_ok] at h
  obtain ⟨scope, -, reason, -, expiry, -, agent, hfound, h⟩ := h
  cases h
  exact .opens _ agent hfound rfl rfl rfl

theorem upsertSelfCredential_decides
    (h : upsertSelfCredential env call caller agents request = .ok change) :
    Decides env call caller agents change := by
  simp only [upsertSelfCredential, Except.bind_ok_iff, orThrow_ok, refuseIf_ok] at h
  obtain ⟨service, -, -, -, payload, -, expiresAt, -, envMapping, -, -, -, agent, hfound, h⟩ := h
  cases h
  exact .upserts service _ agent _ _ hfound ⟨rfl, rfl, rfl⟩ rfl

theorem grantCredential_decides (h : grantCredential env call caller agents request = .ok change) :
    Decides env call caller agents change := by
  simp only [grantCredential, Except.bind_ok_iff, orThrow_ok, refuseIf_ok, not_not] at h
  obtain ⟨-, hplane, scope, -, customService, -, permitted, hpermitted, -, hrefused, ref, -,
    grantee, hfound, payload, -, expiresAt, -, envMapping, -, rateLimit, -, h⟩ := h
  have hyes : permitted = true := Bool.eq_true_of_not_eq_false hrefused
  subst hyes
  cases h
  exact .grants ref grantee scope _ _ hplane hpermitted hfound ⟨rfl, rfl, rfl⟩ rfl

theorem revokeCredential_decides
    (h : revokeCredential env call caller agents request = .ok change) :
    Decides env call caller agents change := by
  simp only [revokeCredential, AgentCredential.assertScope, Except.bind_ok_iff, orThrow_ok,
    refuseIf_ok] at h
  obtain ⟨grantId, -, reason, -, target, hfound, credential, hheld, scope, hscope, u, hmay,
    updatedTarget, hupdated, -, -, h⟩ := h
  cases h
  exact .revokes grantId reason target updatedTarget credential scope hfound hscope hheld hmay
    hupdated

theorem denyRequest_decides (h : denyRequest env call caller agents request = .ok change) :
    Decides env call caller agents change := by
  simp only [denyRequest, Except.bind_ok_iff, orThrow_ok, refuseIf_ok, not_not] at h
  obtain ⟨-, hplane, requestId, -, reason, -, target, hfound, r, hheld, -, hpending, permitted,
    hpermitted, -, hrefused, updatedTarget, hupdated, -, -, h⟩ := h
  have hyes : permitted = true := Bool.eq_true_of_not_eq_false hrefused
  subst hyes
  cases h
  exact .denies requestId reason target updatedTarget r hplane hfound hheld hpending hpermitted
    hupdated

theorem expireRequests_decides (h : expireRequests env call caller agents = .ok change) :
    Decides env call caller agents change := by
  simp only [expireRequests, Except.bind_ok_iff, refuseIf_ok, not_not] at h
  obtain ⟨-, hplane, -, hpermitted, h⟩ := h
  cases h
  exact .expires _ hplane (Bool.eq_true_of_not_eq_false hpermitted)

theorem of_map_ok {ε α β : Type} {x : Except ε α} {f : α → β} {b : β} (h : x.map f = .ok b) :
    ∃ a, x = .ok a ∧ f a = b := by
  cases x with
  | error e => cases h
  | ok a => exact ⟨a, rfl, by cases h; rfl⟩

theorem of_map_write {x : Except Text Change} (h : x.map .write = .ok (Decision.write change)) :
    x = .ok change := by
  obtain ⟨c, hc, hchange⟩ := of_map_ok h
  cases hchange
  exact hc

theorem decideAction_write {action : Json}
    (h : decideAction env s call caller action request = .ok (.write change)) :
    Decides env call caller s.agents change := by
  unfold decideAction at h
  split at h
  · split_ifs at h
    · exact requestCredential_decides (of_map_write h)
    · exact upsertSelfCredential_decides (of_map_write h)
    · exact grantCredential_decides (of_map_write h)
    · obtain ⟨r, -, hread⟩ := of_map_ok h
      cases hread
    · exact revokeCredential_decides (of_map_write h)
    · exact denyRequest_decides (of_map_write h)
    · exact expireRequests_decides (of_map_write h)
    · obtain ⟨r, -, hread⟩ := of_map_ok h
      cases hread
  · cases h

theorem decision_write (h : call.decision env s = .ok (caller, .write change)) :
    peerAgentFor env call.identity s.agents = .ok caller ∧
      Decides env call caller s.agents change := by
  simp only [Call.decision, Except.bind_ok_iff] at h
  obtain ⟨⟨action, request⟩, -, caller', hcaller, decision, hdecision, h⟩ := h
  cases h
  exact ⟨hcaller, decideAction_write hdecision⟩

/-- What an action reads, and what it logs for it. -/
inductive Reads (env : BrokerEnv) (call : Call) (caller : AgentInfo) (agents : List AgentInfo) :
    List AuditEvent → Response → Prop where
  | payload (target : AgentInfo) (reason mode : Text) (scopes : List AgentCredentialScope)
      (credentials : List AgentCredential) (plane : call.socketKind = .grant)
      (reasoned : reason ≠ [])
      (ofScopes : (activeCredentials env call.now target).mapM AgentCredential.assertScope =
        .ok scopes)
      (permitted : ∀ scope ∈ scopes, hasPayloadReadPermission caller scope = true)
      (among : ∀ c ∈ credentials, c ∈ activeCredentials env call.now target)
      (known : target = caller ∨ target ∈ agents) :
      Reads env call caller agents
        [.payloadRead (actorOf caller) (granteeOf target) scopes reason call.nowIso]
        (.listed target.username mode (credentials.map .payload) [])
  | metadata (name mode : Text) (credentials : List AgentCredential)
      (requests : List RequestMetadata) :
      Reads env call caller agents []
        (.listed name mode (credentials.map fun c => .metadata (metadataCredential c)) requests)
  | audited (events : List AuditEvent) : Reads env call caller agents [] (.audited events)

theorem writeAgentsThenAudit_agents (s : Broker) (faults : Faults) (change : Change) :
    (writeAgentsThenAudit s faults change).1.agents = s.agents ∨
      (writeAgentsThenAudit s faults change).1.agents = change.agents := by
  rw [writeAgentsThenAudit]
  cases faults.write with
  | some message => exact Or.inl rfl
  | none =>
      dsimp only
      cases (appendRows change.rows faults.sink).2 with
      | none => exact Or.inr rfl
      | some message =>
          dsimp only
          split_ifs with hnone hfails
          · exact Or.inr rfl
          · exact Or.inl rfl
          · exact Or.inr rfl
          · exact Or.inr rfl

/-- The agents are as they were, or as the action decided. -/
theorem handle_agents (env : BrokerEnv) (s : Broker) (call : Call) :
    (handleCredentialBrokerRequest env s call).1.agents = s.agents ∨
      ∃ caller change, peerAgentFor env call.identity s.agents = .ok caller ∧
        Decides env call caller s.agents change ∧
        (handleCredentialBrokerRequest env s call).1.agents = change.agents := by
  rw [handleCredentialBrokerRequest]
  cases hdecision : call.decision env s with
  | error message => exact Or.inl rfl
  | ok r =>
      obtain ⟨caller, decision⟩ := r
      cases decision with
      | read rows response => exact Or.inl rfl
      | write change =>
          obtain ⟨hcaller, hdecides⟩ := decision_write hdecision
          rcases writeAgentsThenAudit_agents s call.faults change with hsame | hchange
          · exact Or.inl hsame
          · exact Or.inr ⟨caller, change, hcaller, hdecides, hchange⟩

/-! ## Credentials -/

/-- The agent has the credential. -/
def Holds (agents : List AgentInfo) (owner : Text) (c : AgentCredential) : Prop :=
  ∃ a ∈ agents, a.id = owner ∧ c ∈ a.credentials

theorem mem_modifyFirst {α : Type} {p : α → Bool} {f : α → α} {l : List α} {b : α}
    (h : b ∈ modifyFirst p f l) : b ∈ l ∨ ∃ a, l.find? p = some a ∧ b = f a := by
  induction l with
  | nil => cases h
  | cons a l ih =>
      rw [modifyFirst] at h
      rw [List.find?_cons]
      split_ifs at h with hp
      · rcases List.mem_cons.mp h with rfl | h
        · exact Or.inr ⟨a, by rw [hp], rfl⟩
        · exact Or.inl (List.mem_cons_of_mem a h)
      · rcases List.mem_cons.mp h with rfl | h
        · exact Or.inl List.mem_cons_self
        · rw [Bool.not_eq_true] at hp
          rw [hp]
          exact (ih h).imp_left (List.mem_cons_of_mem a)

/-- What an agent has after one agent was changed. -/
theorem holds_modifyFirst {p : AgentInfo → Bool} {f : AgentInfo → AgentInfo} {owner : Text}
    {c : AgentCredential} (h : Holds (modifyFirst p f agents) owner c) (hid : ∀ a, (f a).id = a.id) :
    Holds agents owner c ∨
      ∃ a ∈ agents, p a = true ∧ a.id = owner ∧ c ∈ (f a).credentials := by
  obtain ⟨b, hb, howner, hc⟩ := h
  rcases mem_modifyFirst hb with hb | ⟨a, hfound, rfl⟩
  · exact Or.inl ⟨b, hb, howner, hc⟩
  · exact Or.inr ⟨a, List.mem_of_find?_eq_some hfound, List.find?_some hfound,
      by rw [← hid a, howner], hc⟩

theorem mem_revoke {a : AgentInfo} {p : AgentCredential → Bool} {c : AgentCredential}
    (hactive : c.isActive = true) (h : c ∈ (a.revoke p).credentials) : c ∈ a.credentials := by
  rcases mem_modifyFirst h with h | ⟨c', -, rfl⟩
  · exact h
  · cases hactive

/-- The caller may give the owner the credential. -/
def Authorised (env : BrokerEnv) (call : Call) (caller : AgentInfo) (owner : Text)
    (c : AgentCredential) : Prop :=
  (call.socketKind = .grant ∧ ∃ scope, c.scope = some scope ∧
    hasGrantPermission env.toLowerCase caller scope c.customService = .ok true) ∨
  (caller.id = owner ∧ c.scope = some .custom)

theorem Decides.credentials {owner : Text} {c : AgentCredential}
    (h : Decides env call caller agents change) (hactive : c.isActive = true)
    (hholds : Holds change.agents owner c) :
    Holds agents owner c ∨ Made call caller c ∧ Authorised env call caller owner c := by
  cases h with
  | opens r updatedCaller found id requester pending =>
      rcases holds_modifyFirst hholds fun _ => rfl with hold | ⟨a, ha, -, howner, hc⟩
      · exact Or.inl hold
      · exact Or.inl ⟨a, ha, howner, hc⟩
  | upserts service label updatedCaller c' keys found made scope =>
      rcases holds_modifyFirst hholds fun _ => rfl with hold | ⟨a, ha, hcaller, howner, hc⟩
      · exact Or.inl hold
      · rcases List.mem_append.mp hc with hc | hc
        · exact Or.inl ⟨a, ha, howner, mem_revoke hactive hc⟩
        · obtain rfl := List.mem_singleton.mp hc
          exact Or.inr ⟨made, Or.inr ⟨by rw [← howner, of_decide_eq_true hcaller], scope⟩⟩
  | grants ref grantee scope c' details plane permitted found made ofScope =>
      rcases holds_modifyFirst hholds fun _ => rfl with hold | ⟨a, ha, -, howner, hc⟩
      · exact Or.inl hold
      · rcases List.mem_append.mp hc with hc | hc
        · exact Or.inl ⟨a, ha, howner, hc⟩
        · obtain rfl := List.mem_singleton.mp hc
          exact Or.inr ⟨made, Or.inl ⟨plane, scope, ofScope, permitted⟩⟩
  | revokes grantId reason target updatedTarget credential scope found ofScope held may
      updated =>
      rcases holds_modifyFirst hholds fun _ => rfl with hold | ⟨a, ha, -, howner, hc⟩
      · exact Or.inl hold
      · exact Or.inl ⟨a, ha, howner, mem_revoke hactive hc⟩
  | denies requestId reason target updatedTarget r plane found held pending permitted
      updated =>
      rcases holds_modifyFirst hholds fun _ => rfl with hold | ⟨a, ha, -, howner, hc⟩
      · exact Or.inl hold
      · exact Or.inl ⟨a, ha, howner, hc⟩
  | expires ids plane permitted =>
      obtain ⟨b, hb, howner, hc⟩ := hholds
      obtain ⟨a, ha, rfl⟩ := List.mem_map.mp hb
      exact Or.inl ⟨a, ha, howner, hc⟩

/-- The call, in this state, issues the credential to the owner. -/
def Issues (env : BrokerEnv) (s : Broker) (call : Call) (owner : Text) (c : AgentCredential) :
    Prop :=
  ∃ caller, peerAgentFor env call.identity s.agents = .ok caller ∧ Made call caller c ∧
    Authorised env call caller owner c

/-- Somewhere in the run a call issued the credential. -/
def IssuedIn (env : BrokerEnv) (s : Broker) (ops : List BrokerOp) (owner : Text)
    (c : AgentCredential) : Prop :=
  ∃ before call after, ops = before ++ .call call :: after ∧
    Issues env (Machine.run (Broker.step env) s before) call owner c

theorem handle_credentials {owner : Text} {c : AgentCredential} (hactive : c.isActive = true)
    (h : Holds (handleCredentialBrokerRequest env s call).1.agents owner c) :
    Holds s.agents owner c ∨ Issues env s call owner c := by
  rcases handle_agents env s call with hsame | ⟨caller, change, hcaller, hdecides, hchange⟩
  · rw [hsame] at h
    exact Or.inl h
  · rw [hchange] at h
    rcases hdecides.credentials hactive h with hold | ⟨hmade, hauthorised⟩
    · exact Or.inl hold
    · exact Or.inr ⟨caller, hcaller, hmade, hauthorised⟩

/-- An active credential was there before, exactly as it is, or was brought in
from outside the broker, or a call issued it that had the permission. -/
theorem active_credentials_authorised (env : BrokerEnv) (s : Broker) (ops : List BrokerOp)
    (owner : Text) (c : AgentCredential) (hactive : c.isActive = true)
    (h : Holds (Machine.run (Broker.step env) s ops).agents owner c) :
    Holds s.agents owner c ∨ (∃ agents, .edited agents ∈ ops ∧ Holds agents owner c) ∨
      IssuedIn env s ops owner c := by
  induction ops generalizing s with
  | nil => exact Or.inl h
  | cons op ops ih =>
      rcases ih (s.step env op) h with hold | ⟨agents, hmem, hold⟩ |
        ⟨before, call, after, hops, hissues⟩
      · cases op with
        | call call =>
            rcases handle_credentials hactive hold with hold | hissues
            · exact Or.inl hold
            · exact Or.inr (Or.inr ⟨[], call, ops, rfl, hissues⟩)
        | edited agents => exact Or.inr (Or.inl ⟨agents, List.mem_cons_self, hold⟩)
      · exact Or.inr (Or.inl ⟨agents, List.mem_cons_of_mem op hmem, hold⟩)
      · exact Or.inr (Or.inr ⟨op :: before, call, after, by rw [hops]; rfl, hissues⟩)

def sampleEnv : BrokerEnv where
  nfkc := fun t => t
  toLowerCase := fun t => t
  dateParse := fun _ => none
  uidToAgent := defaultUidToAgent
  queryAuditEvents := fun _ rows => rows
  rateLimitsEnabled := false

/-- May grant and read what is for the forge. -/
def sampleLead : AgentInfo where
  id := js "a"
  username := js "lead"
  email := []
  role := none
  credentialBrokerPeerUid := none
  credentials := []
  credentialRequests := []
  credentialGrantScopes := [.github]
  credentialCustomGrantServices := []
  credentialPayloadReadScopes := [.scope .github]
  credentialAuditRoles := []

def sampleRequest : AgentCredentialRequest where
  id := js "q"
  requesterId := js "b"
  requesterUsername := js "dev"
  requesterRole := none
  scope := .github
  reason := js "clone"
  requestedAt := js "t"
  expiry := none
  status := .pending

def sampleDev : AgentInfo :=
  { sampleLead with
    id := js "b"
    username := js "dev"
    credentialRequests := [sampleRequest]
    credentialGrantScopes := []
    credentialPayloadReadScopes := [] }

def sampleBroker : Broker := ⟨[sampleLead, sampleDev], []⟩

def sampleCall (action : String) (uuid : Text) (fields : List (Text × Json)) : Call where
  identity := .bound (js "a")
  plane := .grant
  envelope := .obj [(js "action", .str (js action)), (js "request", .obj fields)]
  uuid := uuid
  now := 0
  nowIso := js "t"
  limits := .ok []
  faults := ⟨none, [], false⟩

def sampleGrant : Call :=
  sampleCall "grant_credential" (js "g")
    [(js "scope", .str (js "github")), (js "grantee", .str (js "dev")), (js "payload", .obj [])]

def sampleCredential : AgentCredential where
  id := js "g"
  grantId := some (js "g")
  grantorId := some (js "lead")
  scope := some .github
  service := some .github
  customService := none
  label := js "github grant"
  credentialData := []
  expiresAt := none
  injectAsEnv := true
  envMapping := none
  isActive := true

theorem active_credentials_authorised_sample :
    Holds sampleBroker.agents (js "b") sampleCredential ∨
      (∃ agents, .edited agents ∈ [BrokerOp.call sampleGrant] ∧
        Holds agents (js "b") sampleCredential) ∨
      IssuedIn sampleEnv sampleBroker [.call sampleGrant] (js "b") sampleCredential := by
  refine active_credentials_authorised sampleEnv sampleBroker [.call sampleGrant] (js "b")
    sampleCredential rfl ?_
  rw [Holds]
  decide +kernel

end Shizuha.Credentials
