import Shizuha.Proofs.CredentialLog

/-!
# What a call settles, and what it shows

A request is pending until a call on the grant plane fulfils, denies or expires
it, and what it is then it stays. A payload is shown on the grant plane only, to
an agent that may read every active credential of the owner, and the row that
says so is in the log before.
-/

namespace Shizuha.Credentials

open Js Agent

variable {env : BrokerEnv} {s : Broker} {call : Call} {caller : AgentInfo}
  {agents : List AgentInfo} {change : Change} {owner : Text} {r : AgentCredentialRequest}

/-! ## Requests -/

/-- The agent has the request. -/
def Asks (agents : List AgentInfo) (owner : Text) (r : AgentCredentialRequest) : Prop :=
  ∃ a ∈ agents, a.id = owner ∧ r ∈ a.credentialRequests

theorem mem_modifyFirst_found {α : Type} {p : α → Bool} {f : α → α} {l : List α} {a : α}
    (h : l.find? p = some a) : f a ∈ modifyFirst p f l := by
  induction l with
  | nil => cases h
  | cons b l ih =>
      rw [List.find?_cons] at h
      rw [modifyFirst]
      split at h
      · next hp =>
          obtain rfl := Option.some.inj h
          rw [if_pos hp]
          exact List.mem_cons_self
      · next hp =>
          rw [if_neg (by rw [hp]; exact Bool.false_ne_true)]
          exact List.mem_cons_of_mem b (ih h)

theorem mem_modifyFirst_of {α : Type} {p : α → Bool} {f : α → α} {l : List α} {a : α}
    (h : a ∈ l) : a ∈ modifyFirst p f l ∨ l.find? p = some a := by
  induction l with
  | nil => cases h
  | cons b l ih =>
      rw [modifyFirst, List.find?_cons]
      by_cases hp : p b = true
      · rw [if_pos hp, hp]
        rcases List.mem_cons.mp h with rfl | h
        · exact Or.inr rfl
        · exact Or.inl (List.mem_cons_of_mem _ h)
      · rw [if_neg hp]
        rw [Bool.not_eq_true] at hp
        rw [hp]
        rcases List.mem_cons.mp h with rfl | h
        · exact Or.inl List.mem_cons_self
        · exact (ih h).imp_left (List.mem_cons_of_mem b)

theorem asks_modifyFirst {p : AgentInfo → Bool} {f : AgentInfo → AgentInfo}
    (h : Asks (modifyFirst p f agents) owner r) (hid : ∀ a, (f a).id = a.id) :
    Asks agents owner r ∨
      ∃ a, agents.find? p = some a ∧ a.id = owner ∧ r ∈ (f a).credentialRequests := by
  obtain ⟨b, hb, howner, hr⟩ := h
  rcases mem_modifyFirst hb with hb | ⟨a, hfound, rfl⟩
  · exact Or.inl ⟨b, hb, howner, hr⟩
  · exact Or.inr ⟨a, hfound, by rw [← hid a, howner], hr⟩

theorem Asks.modifyFirst {p : AgentInfo → Bool} {f : AgentInfo → AgentInfo}
    (h : Asks agents owner r) (hid : ∀ a, (f a).id = a.id)
    (hkeep : ∀ a, agents.find? p = some a → r ∈ a.credentialRequests →
      r ∈ (f a).credentialRequests) : Asks (modifyFirst p f agents) owner r := by
  obtain ⟨a, ha, howner, hr⟩ := h
  rcases mem_modifyFirst_of ha with ha | hfound
  · exact ⟨a, ha, howner, hr⟩
  · exact ⟨f a, mem_modifyFirst_found hfound, by rw [hid, howner], hkeep a hfound hr⟩

/-- How a call may settle a request, by the status it gets. -/
inductive Settles (env : BrokerEnv) (call : Call) (caller : AgentInfo) (after : List AgentInfo)
    (owner : Text) (r : AgentCredentialRequest) : AgentCredentialRequestStatus → Prop where
  | fulfilled (c : AgentCredential) (made : Made call caller c) (ofScope : c.scope = some r.scope)
      (permitted : hasGrantPermission env.toLowerCase caller r.scope c.customService = .ok true)
      (given : Holds after owner c) : Settles env call caller after owner r .fulfilled
  | denied (permitted : hasGrantPermission env.toLowerCase caller r.scope none = .ok true) :
      Settles env call caller after owner r .denied
  | expired (permitted : hasMetadataAuditPermission caller = true)
      (due : expires env call caller r = true) :
      Settles env call caller after owner r .expired

/-- The request was pending, and the call, on the grant plane, settles it. -/
def Settled (env : BrokerEnv) (call : Call) (caller : AgentInfo) (before after : List AgentInfo)
    (owner : Text) (r : AgentCredentialRequest) : Prop :=
  call.socketKind = .grant ∧ ∃ r₀, Asks before owner r₀ ∧ r₀.status = .pending ∧
    r = { r₀ with status := r.status } ∧ Settles env call caller after owner r₀ r.status

theorem mem_mark {a : AgentInfo} {p : AgentCredentialRequest → Bool}
    {v : AgentCredentialRequestStatus} (h : r ∈ (a.mark p v).credentialRequests) :
    r ∈ a.credentialRequests ∨
      ∃ r₀ ∈ a.credentialRequests, p r₀ = true ∧ r = { r₀ with status := v } := by
  obtain ⟨r₀, hr₀, hr⟩ := List.mem_map.mp h
  split_ifs at hr with hp
  · exact Or.inr ⟨r₀, hr₀, hp, hr.symm⟩
  · exact Or.inl (hr ▸ hr₀)

theorem mem_mark_of {a : AgentInfo} {p : AgentCredentialRequest → Bool}
    {v : AgentCredentialRequestStatus} (h : r ∈ a.credentialRequests) (hp : p r = false) :
    r ∈ (a.mark p v).credentialRequests :=
  List.mem_map.mpr ⟨r, h, by rw [hp, if_neg Bool.false_ne_true]⟩

/-- The first agent with the id of an agent is that agent. -/
theorem find_id {a b : AgentInfo} (hids : (agents.map AgentInfo.id).Nodup) (ha : a ∈ agents)
    (hfound : agents.find? (fun c => c.id = a.id) = some b) : b = a :=
  List.inj_on_of_nodup_map hids (List.mem_of_find?_eq_some hfound) ha
    (by simpa using List.find?_some hfound)

theorem Decides.requests (h : Decides env call caller agents change)
    (hids : (agents.map AgentInfo.id).Nodup) (hsettled : r.status ≠ .pending)
    (hasks : Asks change.agents owner r) :
    Asks agents owner r ∨ Settled env call caller agents change.agents owner r := by
  cases h with
  | opens r' updatedCaller found id requester pending =>
      rcases asks_modifyFirst hasks fun _ => rfl with hold | ⟨a, hfound, howner, hr⟩
      · exact Or.inl hold
      · rcases List.mem_append.mp hr with hr | hr
        · exact Or.inl ⟨a, List.mem_of_find?_eq_some hfound, howner, hr⟩
        · obtain rfl := List.mem_singleton.mp hr
          exact absurd pending hsettled
  | upserts service label updatedCaller c keys found made scope =>
      rcases asks_modifyFirst hasks fun _ => rfl with hold | ⟨a, hfound, howner, hr⟩
      · exact Or.inl hold
      · exact Or.inl ⟨a, List.mem_of_find?_eq_some hfound, howner, hr⟩
  | grants ref grantee scope c details plane permitted found made ofScope =>
      rcases asks_modifyFirst hasks fun _ => rfl with hold | ⟨a, hfound, howner, hr⟩
      · exact Or.inl hold
      · have ha := List.mem_of_find?_eq_some hfound
        rcases mem_mark hr with hr | ⟨r₀, hr₀, hp, rfl⟩
        · exact Or.inl ⟨a, ha, howner, hr⟩
        · simp only [Bool.and_eq_true, decide_eq_true_eq] at hp
          obtain ⟨hpending, rfl⟩ := hp
          refine Or.inr ⟨plane, r₀, ⟨a, ha, howner, hr₀⟩, hpending, rfl, ?_⟩
          exact .fulfilled c made ofScope permitted
            ⟨_, mem_modifyFirst_found hfound, howner, List.mem_append_right _ List.mem_cons_self⟩
  | revokes grantId reason target updatedTarget credential scope found ofScope held may
      updated =>
      rcases asks_modifyFirst hasks fun _ => rfl with hold | ⟨a, hfound, howner, hr⟩
      · exact Or.inl hold
      · exact Or.inl ⟨a, List.mem_of_find?_eq_some hfound, howner, hr⟩
  | denies requestId reason target updatedTarget r' plane found held pending permitted
      updated =>
      rcases asks_modifyFirst hasks fun _ => rfl with hold | ⟨a, hfound, howner, hr⟩
      · exact Or.inl hold
      · have ha := List.mem_of_find?_eq_some hfound
        obtain rfl := find_id hids (List.mem_of_find?_eq_some found) hfound
        rcases mem_modifyFirst hr with hr | ⟨r₀, hheld, rfl⟩
        · exact Or.inl ⟨a, ha, howner, hr⟩
        · obtain rfl := Option.some.inj (held.symm.trans hheld)
          exact Or.inr ⟨plane, r', ⟨a, ha, howner, List.mem_of_find?_eq_some held⟩, pending, rfl,
            .denied permitted⟩
  | expires ids plane permitted =>
      obtain ⟨b, hb, howner, hr⟩ := hasks
      obtain ⟨a, ha, rfl⟩ := List.mem_map.mp hb
      rcases mem_mark hr with hr | ⟨r₀, hr₀, hp, rfl⟩
      · exact Or.inl ⟨a, ha, howner, hr⟩
      · refine Or.inr ⟨plane, r₀, ⟨a, ha, howner, hr₀⟩, ?_, rfl, .expired permitted hp⟩
        rw [Credentials.expires, Bool.and_eq_true, Bool.and_eq_true, decide_eq_true_eq] at hp
        exact hp.1.1

/-- What is settled is in nobody's way. -/
theorem Decides.keeps (h : Decides env call caller agents change)
    (hids : (agents.map AgentInfo.id).Nodup) (hsettled : r.status ≠ .pending)
    (hasks : Asks agents owner r) : Asks change.agents owner r := by
  cases h with
  | opens r' updatedCaller found id requester pending =>
      exact hasks.modifyFirst (fun _ => rfl) fun a _ hr => List.mem_append_left _ hr
  | upserts service label updatedCaller c keys found made scope =>
      exact hasks.modifyFirst (fun _ => rfl) fun a _ hr => hr
  | grants ref grantee scope c details plane permitted found made ofScope =>
      refine hasks.modifyFirst (fun _ => rfl) fun a _ hr => mem_mark_of hr ?_
      rw [decide_eq_false hsettled, Bool.false_and]
  | revokes grantId reason target updatedTarget credential scope found ofScope held may
      updated =>
      exact hasks.modifyFirst (fun _ => rfl) fun a _ hr => hr
  | denies requestId reason target updatedTarget r' plane found held pending permitted
      updated =>
      refine hasks.modifyFirst (fun _ => rfl) fun a hfound hr => ?_
      obtain rfl := find_id hids (List.mem_of_find?_eq_some found) hfound
      rcases mem_modifyFirst_of hr with hr | hheld
      · exact hr
      · obtain rfl := Option.some.inj (held.symm.trans hheld)
        exact absurd pending hsettled
  | expires ids plane permitted =>
      obtain ⟨a, ha, howner, hr⟩ := hasks
      refine ⟨_, List.mem_map_of_mem ha, howner, mem_mark_of hr ?_⟩
      rw [Credentials.expires, decide_eq_false hsettled, Bool.false_and, Bool.false_and]

/-- No call changes who the agents are. -/
theorem Decides.ids (h : Decides env call caller agents change) :
    change.agents.map AgentInfo.id = agents.map AgentInfo.id := by
  cases h with
  | expires ids plane permitted =>
      rw [List.map_map]
      rfl
  | _ => exact map_modifyFirst fun _ => rfl

theorem handle_ids (env : BrokerEnv) (s : Broker) (call : Call) :
    (handleCredentialBrokerRequest env s call).1.agents.map AgentInfo.id =
      s.agents.map AgentInfo.id := by
  rcases handle_agents env s call with hsame | ⟨caller, change, -, hdecides, hchange⟩
  · rw [hsame]
  · rw [hchange, hdecides.ids]

/-- Somewhere in the run a call settled the request. -/
def SettledIn (env : BrokerEnv) (s : Broker) (ops : List BrokerOp) (owner : Text)
    (r : AgentCredentialRequest) : Prop :=
  ∃ before call after caller, ops = before ++ .call call :: after ∧
    peerAgentFor env call.identity (Machine.run (Broker.step env) s before).agents = .ok caller ∧
    Settled env call caller (Machine.run (Broker.step env) s before).agents
      (Machine.run (Broker.step env) s (before ++ [.call call])).agents owner r

/-- A request that is not pending was so before, or was brought in from outside,
or a call on the grant plane that may do so settled it while it was pending. -/
theorem settled_requests_authorised (env : BrokerEnv) (s : Broker) (ops : List BrokerOp)
    (owner : Text) (r : AgentCredentialRequest) (hids : (s.agents.map AgentInfo.id).Nodup)
    (hedits : ∀ agents, .edited agents ∈ ops → (agents.map AgentInfo.id).Nodup)
    (hsettled : r.status ≠ .pending)
    (h : Asks (Machine.run (Broker.step env) s ops).agents owner r) :
    Asks s.agents owner r ∨ (∃ agents, .edited agents ∈ ops ∧ Asks agents owner r) ∨
      SettledIn env s ops owner r := by
  induction ops generalizing s with
  | nil => exact Or.inl h
  | cons op ops ih =>
      have hnext : ((s.step env op).agents.map AgentInfo.id).Nodup := by
        cases op with
        | call call =>
            rw [Broker.step, handle_ids]
            exact hids
        | edited agents => exact hedits agents List.mem_cons_self
      have hlater : ∀ agents, .edited agents ∈ ops → (agents.map AgentInfo.id).Nodup :=
        fun agents hmem => hedits agents (List.mem_cons_of_mem op hmem)
      rcases ih (s.step env op) hnext hlater h with hold | ⟨agents, hmem, hold⟩ |
        ⟨before, call, after, caller, hops, hcaller, hthis⟩
      · cases op with
        | call call =>
            rcases handle_agents env s call with hsame | ⟨caller, change, hcaller, hdecides, hchange⟩
            · rw [Broker.step, hsame] at hold
              exact Or.inl hold
            · rw [Broker.step, hchange] at hold
              rcases hdecides.requests hids hsettled hold with hold | hthis
              · exact Or.inl hold
              · rw [← hchange] at hthis
                exact Or.inr (Or.inr ⟨[], call, ops, caller, rfl, hcaller, hthis⟩)
        | edited agents => exact Or.inr (Or.inl ⟨agents, List.mem_cons_self, hold⟩)
      · exact Or.inr (Or.inl ⟨agents, List.mem_cons_of_mem op hmem, hold⟩)
      · exact Or.inr (Or.inr ⟨op :: before, call, after, caller, by rw [hops]; rfl, hcaller, hthis⟩)

def sampleFulfilled : AgentCredentialRequest := { sampleRequest with status := .fulfilled }

theorem settled_requests_authorised_sample :
    Asks sampleBroker.agents (js "b") sampleFulfilled ∨
      (∃ agents, .edited agents ∈ [BrokerOp.call sampleGrant] ∧
        Asks agents (js "b") sampleFulfilled) ∨
      SettledIn sampleEnv sampleBroker [.call sampleGrant] (js "b") sampleFulfilled := by
  refine settled_requests_authorised sampleEnv sampleBroker [.call sampleGrant] (js "b")
    sampleFulfilled (by decide +kernel) ?_ (by decide) ?_
  · intro agents hmem
    cases List.mem_singleton.mp hmem
  · rw [Asks]
    decide +kernel

/-- What a request was settled as it stays, whatever is called then. -/
theorem settled_requests_stay (env : BrokerEnv) (s : Broker) (calls : List Call) (owner : Text)
    (r : AgentCredentialRequest) (hids : (s.agents.map AgentInfo.id).Nodup)
    (hsettled : r.status ≠ .pending) (h : Asks s.agents owner r) :
    Asks (Machine.run (Broker.step env) s (calls.map .call)).agents owner r := by
  induction calls generalizing s with
  | nil => exact h
  | cons call calls ih =>
      rw [List.map_cons, Machine.run_cons]
      refine ih _ (by rw [Broker.step, handle_ids]; exact hids) ?_
      rcases handle_agents env s call with hsame | ⟨caller, change, -, hdecides, hchange⟩
      · rw [Broker.step, hsame]
        exact h
      · rw [Broker.step, hchange]
        exact hdecides.keeps hids hsettled h

theorem settled_requests_stay_sample :
    Asks (Machine.run (Broker.step sampleEnv)
      (Machine.run (Broker.step sampleEnv) sampleBroker [.call sampleGrant])
      ([sampleGrant].map .call)).agents (js "b") sampleFulfilled := by
  refine settled_requests_stay sampleEnv _ [sampleGrant] (js "b") sampleFulfilled ?_ (by decide) ?_
  · decide +kernel
  · rw [Asks]
    decide +kernel

/-! ## Payloads -/

/-- The answer has the payload. -/
def Response.Shows (c : AgentCredential) : Response → Prop
  | .listed _ _ credentials _ => .payload c ∈ credentials
  | _ => False

end Shizuha.Credentials
