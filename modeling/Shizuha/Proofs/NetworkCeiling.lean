import Shizuha.Machine
import Shizuha.Permissions.Engine

/-!
# Is the network policy a ceiling?

It is one for what the third stage gets to see. The two stages before it do not
look at the policy, so in plan mode a request of low risk goes out whatever the
policy says, and so does one that a rule allows: with the default rules, every
one. After it, what was approved or is allowed by the mode goes out under a URL
the third stage takes for none: the empty text, or a value that is no text and
not truthy.

`Capped` says which of these a request meets, from the request and the engine
alone.
-/

namespace Shizuha.Permissions

open Js State Machine

variable {env : PermissionEnv} {e : PermissionEngine} {request : PermissionRequest}
  {policy : NetworkPolicy}

/-- The policy denies a request: access is off, or there are allowed hosts and
the request names a URL that is malformed or has none of them as its host. -/
def NetworkPolicy.Denies (env : PermissionEnv) (policy : NetworkPolicy)
    (request : PermissionRequest) : Prop :=
  policy.networkAccess = false ∨
    policy.allowedHosts ≠ [] ∧ ∃ url, request.get (js "url") = some url ∧
      ∀ hostname, env.hostname url = some hostname → ∀ pattern ∈ policy.allowedHosts,
        matchHost env pattern (env.toLowerCase hostname) = false

/-- What the policy in force denies is not allowed. -/
def Ceiling (env : PermissionEnv) (e : PermissionEngine) : EngineOp → Prop
  | .check request =>
      request.toolName ∈ networkTools → ∀ policy ∈ e.networkPolicy, policy.Denies env request →
        e.check env request ≠ some .allow
  | _ => True

/-- The third stage gets to see the policy, and takes the URL for one; or no
stage allows the request. -/
def Seen (e : PermissionEngine) (policy : NetworkPolicy) (request : PermissionRequest) : Prop :=
  policy.networkAccess = false ∨ (∀ url, request.get (js "url") = some url → truthy url = true) ∨
    request.toolName ∉ e.sessionApprovals ∧ e.mode = .supervised ∧ request.riskLevel ≠ .low

def Capped (env : PermissionEnv) (e : PermissionEngine) : EngineOp → Prop
  | .check request =>
      request.toolName ∈ networkTools → ∀ policy ∈ e.networkPolicy, policy.Denies env request →
        if e.mode = .plan then request.riskLevel ≠ .low
        else
          match e.rules.find? fun rule => matchesRule rule request with
          | some rule => rule.decision ≠ .allow
          | none => Seen e policy request
  | _ => True

/-! ## The stages -/

theorem checkUrl_eq_deny {url : Json}
    (h : ∀ hostname, env.hostname url = some hostname → ∀ pattern ∈ policy.allowedHosts,
      matchHost env pattern (env.toLowerCase hostname) = false) :
    PermissionEngine.checkUrl env policy url = .deny := by
  rw [PermissionEngine.checkUrl]
  cases hhost : env.hostname url with
  | none => rfl
  | some hostname =>
      dsimp only
      rw [if_neg]
      intro hany
      obtain ⟨pattern, hpattern, hmatch⟩ := List.any_eq_true.mp hany
      rw [h hostname hhost pattern hpattern] at hmatch
      cases hmatch

/-- The third stage denies what the policy denies, when it takes the URL for
one. -/
theorem checkNetworkAccess_eq_deny_iff (hdenies : policy.Denies env request) :
    PermissionEngine.checkNetworkAccess env policy request = .deny ↔
      policy.networkAccess = false ∨
        ∀ url, request.get (js "url") = some url → truthy url = true := by
  rw [PermissionEngine.checkNetworkAccess]
  cases haccess : policy.networkAccess with
  | false => simp
  | true =>
      rcases hdenies with hoff | ⟨hhosts, url, hurl, hunmatched⟩
      · rw [haccess] at hoff
        cases hoff
      rw [if_neg (by simp), if_neg hhosts, hurl]
      cases htruthy : truthy url with
      | false => simp [Option.filter, htruthy]
      | true => simp [Option.filter, htruthy, checkUrl_eq_deny hunmatched]

theorem modeDefault_eq_allow_iff (hmode : e.mode ≠ .plan) :
    e.modeDefault request = .allow ↔ ¬ (e.mode = .supervised ∧ request.riskLevel ≠ .low) := by
  rw [PermissionEngine.modeDefault]
  cases hm : e.mode with
  | plan => exact absurd hm hmode
  | autonomous => simp
  | supervised =>
      by_cases hrisk : request.riskLevel = .low
      · simp [hrisk]
      · simp [hrisk]

/-- Past the rules, what the policy denies is allowed only unseen. -/
theorem checkUnruled_ne_allow_iff (hmode : e.mode ≠ .plan)
    (htool : request.toolName ∈ networkTools) (hpolicy : e.networkPolicy = some policy)
    (hdenies : policy.Denies env request) :
    e.checkUnruled env request ≠ .allow ↔ Seen e policy request := by
  have hnetwork := checkNetworkAccess_eq_deny_iff hdenies
  simp only [PermissionEngine.checkUnruled, hpolicy, Option.any_some, decide_eq_true_iff, Seen,
    ← or_assoc, ← hnetwork]
  by_cases hdeny : PermissionEngine.checkNetworkAccess env policy request = .deny
  · rw [if_pos ⟨hdeny, htool⟩]
    simp [hdeny]
  · rw [if_neg fun h => hdeny h.1]
    by_cases happroved : request.toolName ∈ e.sessionApprovals
    · rw [if_pos happroved]
      simp [hdeny, happroved]
    · rw [if_neg happroved, ne_eq, modeDefault_eq_allow_iff hmode, not_not]
      simp [hdeny, happroved]

/-- A plan file is never reached over the network. -/
theorem isPlanFileAccess_of_network (htool : request.toolName ∈ networkTools) :
    e.isPlanFileAccess env request = some false := by
  rw [PermissionEngine.isPlanFileAccess, if_pos]
  rcases List.mem_cons.mp htool with htool | htool
  · rw [htool]
    decide
  · rw [List.mem_singleton.mp htool]
    decide

theorem ceiling_iff_capped (op : EngineOp) : Ceiling env e op ↔ Capped env e op := by
  cases op with
  | check request =>
      refine forall_congr' fun htool => forall_congr' fun policy => forall_congr' fun hpolicy =>
        forall_congr' fun hdenies => ?_
      rw [PermissionEngine.check]
      by_cases hmode : e.mode = .plan
      · rw [if_pos hmode, if_pos hmode, isPlanFileAccess_of_network htool]
        by_cases hrisk : request.riskLevel = .low
        · simp [hrisk]
        · rw [if_neg hrisk]
          split_ifs <;> simp [hrisk]
      · rw [if_neg hmode, if_neg hmode]
        cases hrule : e.rules.find? fun rule => matchesRule rule request with
        | some rule => simp
        | none =>
            simp only [ne_eq, Option.some.injEq]
            exact checkUnruled_ne_allow_iff hmode htool hpolicy hdenies
  | _ => exact Iff.rfl

/-- In every run the policy is a ceiling exactly for what it gets to see. -/
theorem network_ceiling_iff (env : PermissionEnv) (mode : PermissionMode)
    (rules : List PermissionRule) (persistedApprovals : List Text)
    (networkPolicy : Option NetworkPolicy) (ops : List EngineOp) :
    Along PermissionEngine.step (Ceiling env)
        (.create mode rules persistedApprovals networkPolicy) ops ↔
      Along PermissionEngine.step (Capped env)
        (.create mode rules persistedApprovals networkPolicy) ops :=
  along_congr (J := fun _ => True) (D := fun _ _ => True) (fun _ _ _ _ => trivial)
    (fun _ op _ _ => ceiling_iff_capped op) trivial (along_true (fun _ _ => trivial) _ ops)

/-- With the default rules no network tool is ever denied. -/
theorem check_defaultRules (hrules : e.rules = DEFAULT_RULES) (hmode : e.mode ≠ .plan)
    (htool : request.toolName ∈ networkTools) : e.check env request = some .allow := by
  obtain ⟨toolName, input, riskLevel⟩ := request
  rw [PermissionEngine.check, if_neg hmode, hrules]
  rcases List.mem_cons.mp htool with htool | htool
  · dsimp only at htool
    subst htool
    rfl
  · have htool := List.mem_singleton.mp htool
    dsimp only at htool
    subst htool
    rfl

/-- With access off, a fetch under the default rules and a search in plan mode. -/
theorem network_ceiling_broken :
    ¬ Along PermissionEngine.step (Ceiling ⟨id, fun _ => none, fun _ => none⟩)
        (.create .autonomous DEFAULT_RULES [] (some ⟨false, []⟩))
        [.check ⟨js "web_fetch", [(js "url", .str (js "https://example.com"))], .medium⟩] ∧
      ¬ Along PermissionEngine.step (Ceiling ⟨id, fun _ => none, fun _ => none⟩)
        (.create .plan [] [] (some ⟨false, []⟩))
        [.check ⟨js "web_search", [(js "query", .str (js "weather"))], .low⟩] := by
  constructor
  · rintro ⟨h, -⟩
    exact h (by decide) ⟨false, []⟩ rfl (.inl rfl) rfl
  · rintro ⟨h, -⟩
    exact h (by decide) ⟨false, []⟩ rfl (.inl rfl) rfl

end Shizuha.Permissions
