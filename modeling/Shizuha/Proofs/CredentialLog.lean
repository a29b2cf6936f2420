import Mathlib.Data.List.Nodup
import Mathlib.Logic.Function.Basic
import Shizuha.Proofs.CredentialAuthority

/-!
# The audit log tells the whole story

Read from its first new row on, the audit log says which grants of which agent
are active and where each request stands: replaying it gives what the agents
say. A call writes the agents first and its rows after, so this is where the
order of the two, the write-back and the sink matter. It rests on a sink that
takes all rows of a call or none, and on ids that no agent has yet.

The ledger keeps a book for each agent, and every row is about one agent, so a
replay is taken apart agent by agent.
-/

namespace Shizuha.Credentials

open Js Agent
open Machine (Along)

variable {env : BrokerEnv} {s : Broker} {call : Call} {caller : AgentInfo}
  {agents : List AgentInfo} {change : Change}

/-! ## Lists whose entries have keys of their own -/

section Keyed

variable {α κ : Type} {key : α → κ} {p : α → Bool} {f : α → α} {l : List α} {a : α}

theorem map_modifyFirst (hkey : ∀ a, key (f a) = key a) :
    (modifyFirst p f l).map key = l.map key := by
  induction l with
  | nil => rfl
  | cons b l ih =>
      rw [modifyFirst]
      split_ifs
      · rw [List.map_cons, List.map_cons, hkey]
      · rw [List.map_cons, List.map_cons, ih]

variable [DecidableEq κ]

end Keyed

/-! ## The ledger -/

/-- What an agent has, and where its requests stand. -/
structure Book where
  active : Text → Bool
  status : Text → Option AgentCredentialRequestStatus

def Book.setActive (b : Book) (g : Text) (v : Bool) : Book :=
  { b with active := Function.update b.active g v }

def Book.setStatus (b : Book) (id : Text) (v : AgentCredentialRequestStatus) : Book :=
  { b with status := Function.update b.status id (some v) }

/-- The agent a row is about. -/
def AuditEvent.owner : AuditEvent → Text
  | .requestOpened _ grantee _ _ _ _ => grantee.granteeId
  | .grantIssued _ _ grantee _ _ _ _ => grantee.granteeId
  | .grantRevoked _ _ grantee _ _ _ _ => grantee.granteeId
  | .requestApproved _ _ _ grantee _ _ _ _ => grantee.granteeId
  | .requestDenied _ _ grantee _ _ _ => grantee.granteeId
  | .requestExpired _ _ grantee _ _ => grantee.granteeId
  | .payloadRead _ target _ _ _ => target.granteeId

def Book.apply (b : Book) : AuditEvent → Book
  | .requestOpened id _ _ _ _ _ => b.setStatus id .pending
  | .grantIssued g _ _ _ _ _ _ => b.setActive g true
  | .grantRevoked g _ _ _ _ _ _ => b.setActive g false
  | .requestApproved id _ _ _ _ _ _ _ => b.setStatus id .fulfilled
  | .requestDenied id _ _ _ _ _ => b.setStatus id .denied
  | .requestExpired id _ _ _ _ => b.setStatus id .expired
  | .payloadRead _ _ _ _ _ => b

abbrev Ledger := Text → Book

def Ledger.apply (L : Ledger) (e : AuditEvent) : Ledger :=
  Function.update L e.owner ((L e.owner).apply e)

def Ledger.replay (L : Ledger) (rows : List AuditEvent) : Ledger := rows.foldl Ledger.apply L

def AgentInfo.book (a : AgentInfo) : Book where
  active g := a.credentials.any fun c => c.grant = g && c.isActive
  status id := (a.credentialRequests.find? fun r => r.id = id).map AgentCredentialRequest.status

def Book.empty : Book := ⟨fun _ => false, fun _ => none⟩

/-- What the agents say. -/
def ledger (agents : List AgentInfo) : Ledger := fun owner =>
  ((agents.find? fun a => a.id = owner).map AgentInfo.book).getD Book.empty

/-! ## One agent -/

/-- The ids of an agent are distinct. -/
structure AgentInfo.Distinct (a : AgentInfo) : Prop where
  grants : (a.credentials.map AgentCredential.grant).Nodup
  requests : (a.credentialRequests.map AgentCredentialRequest.id).Nodup

structure Distinct (agents : List AgentInfo) : Prop where
  ids : (agents.map AgentInfo.id).Nodup
  each : ∀ a ∈ agents, a.Distinct

theorem grant_revoked (c : AgentCredential) : c.revoked.grant = c.grant := rfl

def Book.mark (b : Book) (ids : List Text) (v : AgentCredentialRequestStatus) : Book :=
  { b with status := fun id => if id ∈ ids then some v else b.status id }

theorem deny_id {r : AgentCredentialRequest} :
    ({ r with status := .denied } : AgentCredentialRequest).id = r.id := rfl

/-- No agent has the id yet. -/
def Fresh (call : Call) (agents : List AgentInfo) : Prop :=
  ∀ a ∈ agents, call.uuid ∉ a.credentials.map AgentCredential.grant ∧
    call.uuid ∉ a.credentialRequests.map AgentCredentialRequest.id

theorem Made.grant {c : AgentCredential} (h : Made call caller c) : c.grant = call.uuid := by
  rw [AgentCredential.grant, h.grantId, Option.getD_some]

theorem nodup_add {α : Type} {l : List α} {x : α} (hnodup : l.Nodup) (hnew : x ∉ l) :
    (l ++ [x]).Nodup :=
  List.nodup_append.mpr ⟨hnodup, List.nodup_singleton x, fun y hy z hz h =>
    hnew (by rw [← List.mem_singleton.mp hz, ← h]; exact hy)⟩

namespace AgentInfo.Distinct

variable {a : AgentInfo}

theorem asked {r : AgentCredentialRequest} (h : a.Distinct)
    (hnew : r.id ∉ a.credentialRequests.map AgentCredentialRequest.id) : (a.asked r).Distinct := by
  refine ⟨h.grants, ?_⟩
  rw [AgentInfo.asked, List.map_append]
  exact nodup_add h.requests hnew

theorem issue {c : AgentCredential} (h : a.Distinct)
    (hnew : c.grant ∉ a.credentials.map AgentCredential.grant) : (a.issue c).Distinct := by
  refine ⟨?_, h.requests⟩
  rw [AgentInfo.issue, List.map_append]
  exact nodup_add h.grants hnew

theorem revoke (h : a.Distinct) (p : AgentCredential → Bool) : (a.revoke p).Distinct := by
  refine ⟨?_, h.requests⟩
  rw [AgentInfo.revoke, map_modifyFirst grant_revoked]
  exact h.grants

theorem mark (h : a.Distinct) (p : AgentCredentialRequest → Bool)
    (v : AgentCredentialRequestStatus) : (a.mark p v).Distinct := by
  refine ⟨h.grants, ?_⟩
  have hids : (a.mark p v).credentialRequests.map AgentCredentialRequest.id =
      a.credentialRequests.map AgentCredentialRequest.id := by
    rw [AgentInfo.mark, List.map_map]
    refine List.map_congr_left fun r _ => ?_
    rw [Function.comp_apply]
    split_ifs <;> rfl
  rw [hids]
  exact h.requests

theorem deny (h : a.Distinct) (p : AgentCredentialRequest → Bool) : (a.deny p).Distinct := by
  refine ⟨h.grants, ?_⟩
  rw [AgentInfo.deny, map_modifyFirst fun r => deny_id (r := r)]
  exact h.requests

end AgentInfo.Distinct

theorem Distinct.modifyFirst {p : AgentInfo → Bool} {f : AgentInfo → AgentInfo}
    (h : Distinct agents) (hid : ∀ a, (f a).id = a.id)
    (hkeep : ∀ a ∈ agents, (f a).Distinct) : Distinct (modifyFirst p f agents) := by
  refine ⟨?_, fun b hb => ?_⟩
  · rw [map_modifyFirst hid]
    exact h.ids
  · rcases mem_modifyFirst hb with hb | ⟨a, hfound, rfl⟩
    · exact h.each b hb
    · exact hkeep a (List.mem_of_find?_eq_some hfound)

theorem revoked_grants (a : AgentInfo) (p : AgentCredential → Bool) :
    (a.revoke p).credentials.map AgentCredential.grant =
      a.credentials.map AgentCredential.grant :=
  map_modifyFirst grant_revoked

theorem Decides.distinct (h : Decides env call caller agents change) (hdistinct : Distinct agents)
    (hfresh : Fresh call agents) : Distinct change.agents := by
  cases h with
  | opens r updatedCaller found id requester pending =>
      refine hdistinct.modifyFirst (fun _ => rfl) fun a ha => ?_
      exact (hdistinct.each a ha).asked (by rw [id]; exact (hfresh a ha).2)
  | upserts service label updatedCaller c keys found made scope =>
      refine hdistinct.modifyFirst (fun _ => rfl) fun a ha => ?_
      refine ((hdistinct.each a ha).revoke _).issue ?_
      rw [revoked_grants, made.grant]
      exact (hfresh a ha).1
  | grants ref grantee scope c details plane permitted found made ofScope =>
      refine hdistinct.modifyFirst (fun _ => rfl) fun a ha => ?_
      refine ((hdistinct.each a ha).issue ?_).mark _ _
      rw [made.grant]
      exact (hfresh a ha).1
  | revokes grantId reason target updatedTarget credential scope found ofScope held may
      updated =>
      exact hdistinct.modifyFirst (fun _ => rfl) fun a ha => (hdistinct.each a ha).revoke _
  | denies requestId reason target updatedTarget r plane found held pending permitted
      updated =>
      exact hdistinct.modifyFirst (fun _ => rfl) fun a ha => (hdistinct.each a ha).deny _
  | expires ids plane permitted =>
      refine ⟨?_, fun b hb => ?_⟩
      · rw [List.map_map]
        exact hdistinct.ids
      · obtain ⟨a, ha, rfl⟩ := List.mem_map.mp hb
        exact (hdistinct.each a ha).mark _ _

/-! ## Runs -/

/-- The sink takes all of the rows or none, and the former agents can be written
back. -/
def Faults.Whole (faults : Faults) (rows : List AuditEvent) : Prop :=
  faults.rollback = false ∧
    ((appendRows rows faults.sink).1 = rows ∨ (appendRows rows faults.sink).1 = [])

theorem appendRows_fails {rows : List AuditEvent} {sink : List SinkOutcome} {message : Text}
    (h : (appendRows rows sink).2 = some message) : rows ≠ [] := by
  intro hrows
  rw [hrows] at h
  cases h

/-- The call's id is new, and its rows get to the log together; who edits the
agents leaves credentials and requests alone. -/
def Told (env : BrokerEnv) (s : Broker) : BrokerOp → Prop
  | .call call =>
      Fresh call s.agents ∧ ∀ caller change,
        call.decision env s = .ok (caller, .write change) → call.faults.Whole change.rows
  | .edited agents => Distinct agents ∧ ledger agents = ledger s.agents

theorem replay_payloadRead (L : Ledger) (actor : AuditActor) (target : AuditGrantee)
    (scopes : List AgentCredentialScope) (reason time : Text) :
    L.apply (.payloadRead actor target scopes reason time) = L := Function.update_eq_self _ _

/-- What a read logs is in no book. -/
theorem Reads.replay {rows : List AuditEvent} {response : Response}
    (h : Reads env call caller agents rows response) (L : Ledger) (sink : List SinkOutcome) :
    L.replay (appendRows rows sink).1 = L := by
  cases h with
  | payload target reason mode scopes credentials plane reasoned ofScopes permitted among known =>
      rw [appendRows]
      cases sink.headD .committed with
      | committed => exact replay_payloadRead L _ _ _ _ _
      | committedThenFailed message => exact replay_payloadRead L _ _ _ _ _
      | failed message => rfl
  | metadata name mode credentials requests => rfl
  | audited events => rfl

end Shizuha.Credentials
