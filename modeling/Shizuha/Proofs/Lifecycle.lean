import Shizuha.ConnectClient.Lifecycle
import Shizuha.Machine

/-!
# One connection, and one thing pending

A client that runs has a socket, or a timer, or an authentication of its
generation, never two of them: `Mode` lists what it can be doing. An event ends
what there is and begins the next thing, so each event has one case to look at.

The exception is a socket that cannot be made. The schedulers catch that and
try again; `start` and a timer that does not authenticate do not, and the client
is left running with nothing pending.
-/

namespace Shizuha.ConnectClient

open Js Machine

/-- The authentications that were begun in this generation. -/
def Client.current (s : Client) : List PendingAuth :=
  s.auths.filter fun a => a.generation = s.lifecycleGeneration

/-- A client that runs has a socket, an armed timer or an authentication of its
generation. -/
def Alive (s : Client) : Prop :=
  s.running = true →
    s.ws ≠ none ∨ (∃ t ∈ s.timers, s.reconnectTimer = some t.handle) ∨ s.current ≠ []

/-- An event of a socket that is not owned changes nothing. -/
def OthersIgnored (c : Setup) (s : Client) (e : ClientEvent) : Prop :=
  match e with
  | .socketOpen socket _ | .socketMessage socket | .socketError socket _ | .socketClose socket _ _ =>
      s.ws ≠ some socket → clientStep c s e = s
  | _ => True

/-- While a socket is owned no other is made. -/
def NeverDoubled (c : Setup) (s : Client) (e : ClientEvent) : Prop :=
  s.ws ≠ none → (clientStep c s e).sockets = s.sockets

def ClientEvent.isStart : ClientEvent → Bool
  | .start _ => true
  | _ => false

/-- After a stop with no later start no socket is made. -/
def StoppedForGood (c : Setup) (events : List ClientEvent) : Prop :=
  ∀ before after, events = before ++ .stop :: after → (∀ e ∈ after, e.isStart = false) →
    (run (clientStep c) c.client events).sockets =
      (run (clientStep c) c.client (before ++ [.stop])).sockets

/-- Never doubled and never silently dead. -/
def OneConnection (c : Setup) (events : List ClientEvent) : Prop :=
  Along (clientStep c) (fun s e => OthersIgnored c s e ∧ NeverDoubled c s e) c.client events ∧
    StoppedForGood c events ∧ Throughout (clientStep c) Alive c.client events

/-- Where nothing would catch it, the socket can be made: in a start, at once or
when its authentication has ended, and in a timer that does not authenticate. -/
def NoThrow (c : Setup) (s : Client) : ClientEvent → Prop
  | .start _ => s.running = false → c.wsUrl ≠ [] → s.token ≠ [] → c.opens s.token = true
  | .timer handle _ => ∀ t ∈ s.timers, t.handle = handle → t.kind = .reconnect →
      s.forceTokenRefresh = false → s.reconnectAttempt ≤ 3 → c.opens s.token = true
  | .authEnd index result _ => ∀ a, s.auths[index]? = some a → a.caller = .start →
      a.generation = s.lifecycleGeneration → (s.settle a result).token ≠ [] →
      c.opens (s.settle a result).token = true
  | _ => True

/-! ## What a client can be doing -/

structure Nothing (s : Client) : Prop where
  ws : s.ws = none
  timers : s.timers = []
  slot : s.reconnectTimer = none
  current : s.current = []

/-- A token that was dropped will be asked for anew. -/
def Ready (s : Client) : Prop := s.token ≠ [] ∨ s.forceTokenRefresh = true

inductive Mode (s : Client) : Prop where
  | idle (hrunning : s.running = false) (hnothing : Nothing s)
  | socket {k : ℕ} (hrunning : s.running = true) (hready : Ready s) (hws : s.ws = some k)
      (howned : s.sockets[k]? = some s.lifecycleGeneration) (htimers : s.timers = [])
      (hslot : s.reconnectTimer = none) (hcurrent : s.current = [])
  | waiting {t : ReconnectTimer} (hrunning : s.running = true)
      (hready : t.kind = .reconnect → Ready s) (hws : s.ws = none) (htimers : s.timers = [t])
      (hslot : s.reconnectTimer = some t.handle) (hgeneration : t.generation = s.lifecycleGeneration)
      (hcurrent : s.current = [])
  | authenticating {a : PendingAuth} (hrunning : s.running = true)
      (hready : a.caller = .reconnect → Ready s) (hws : s.ws = none) (htimers : s.timers = [])
      (hslot : s.reconnectTimer = none) (hcurrent : s.current = [a])

/-- Running, with nothing pending. -/
structure Dead (s : Client) : Prop where
  running : s.running = true
  nothing : Nothing s

structure ClientKept (c : Setup) (s : Client) : Prop where
  older : ∀ a ∈ s.auths, a.generation ≤ s.lifecycleGeneration
  url : s.running = true → c.wsUrl ≠ []
  mode : Mode s ∨ Dead s

variable {c : Setup} {s : Client} {e : ClientEvent}

theorem Mode.alive (h : Mode s) : Alive s := by
  intro hrunning
  cases h with
  | idle hidle => simp [hidle] at hrunning
  | socket _ _ hws => exact .inl (by rw [hws]; exact Option.some_ne_none _)
  | @waiting t _ _ _ htimers hslot => exact .inr (.inl ⟨t, by simp [htimers], hslot⟩)
  | authenticating _ _ _ _ _ hcurrent => exact .inr (.inr (by simp [hcurrent]))

theorem Dead.not_alive (h : Dead s) : ¬ Alive s := by
  intro halive
  rcases halive h.running with hws | ⟨t, ht, -⟩ | hcurrent
  · exact hws h.nothing.ws
  · simp [h.nothing.timers] at ht
  · exact hcurrent h.nothing.current

/-! ## Beginning something -/

theorem Nothing.maySchedule (h : Nothing s) (hrunning : s.running = true) :
    s.maySchedule = true := by
  simp [Client.maySchedule, hrunning, h.slot, h.ws]

theorem Nothing.scheduleAuthRetry (h : Nothing s) (hrunning : s.running = true) :
    Mode s.scheduleAuthRetry := by
  rw [Client.scheduleAuthRetry, if_pos (h.maySchedule hrunning)]
  exact .waiting (t := ⟨s.nextHandle, .authRetry, s.lifecycleGeneration⟩) hrunning
    (fun hkind => nomatch hkind) h.ws (by simp [Client.arm, h.timers]) rfl rfl h.current

theorem Nothing.scheduleReconnect (h : Nothing s) (hrunning : s.running = true)
    (hready : Ready s) : Mode s.scheduleReconnect := by
  rw [Client.scheduleReconnect, if_pos (h.maySchedule hrunning)]
  exact .waiting (t := ⟨s.nextHandle, .reconnect, s.lifecycleGeneration⟩) hrunning
    (fun _ => hready) h.ws (by simp [Client.arm, h.timers]) rfl rfl h.current

theorem selfAuthenticate_eq (s : Client) (caller : AuthCaller) (environment : Option Token) :
    ∃ token settled, s.selfAuthenticate caller environment =
        { s with
          token := token
          auths := s.auths ++ [⟨caller, s.lifecycleGeneration, settled⟩] } ∧
      (token = s.token ∨ token ≠ []) := by
  unfold Client.selfAuthenticate
  split
  · next t =>
      split_ifs
      · exact ⟨s.token, false, rfl, .inl rfl⟩
      · exact ⟨t.val, true, rfl, .inr t.property⟩
  · exact ⟨s.token, false, rfl, .inl rfl⟩

theorem selfAuthenticate_older (older : ∀ a ∈ s.auths, a.generation ≤ s.lifecycleGeneration)
    (caller : AuthCaller) (environment : Option Token) :
    ∀ a ∈ (s.selfAuthenticate caller environment).auths,
      a.generation ≤ (s.selfAuthenticate caller environment).lifecycleGeneration := by
  obtain ⟨token, settled, heq, -⟩ := selfAuthenticate_eq s caller environment
  rw [heq]
  intro a ha
  rcases List.mem_append.mp ha with ha | ha
  · exact older a ha
  · rw [List.mem_singleton.mp ha]

theorem Nothing.selfAuthenticate (h : Nothing s) (hrunning : s.running = true)
    (caller : AuthCaller) (environment : Option Token)
    (hready : caller = .reconnect → Ready s) : Mode (s.selfAuthenticate caller environment) := by
  obtain ⟨token, settled, heq, htoken⟩ := selfAuthenticate_eq s caller environment
  rw [heq]
  have hcurrent : s.auths.filter (fun a => a.generation = s.lifecycleGeneration) = [] := h.current
  refine .authenticating (a := ⟨caller, s.lifecycleGeneration, settled⟩) hrunning
    (fun hcaller => ?_) h.ws h.timers h.slot ?_
  · rcases htoken with rfl | htoken
    · exact hready hcaller
    · exact .inl htoken
  · simp [Client.current, List.filter_append, hcurrent]

/-- A socket, or an exception and nothing changed. -/
theorem Nothing.connect (h : Nothing s) (hrunning : s.running = true) (hurl : c.wsUrl ≠ [])
    (htoken : s.token ≠ []) :
    (c.opens s.token = true → (s.connect c).2 = false ∧ Mode (s.connect c).1) ∧
      (c.opens s.token = false → s.connect c = (s, true)) := by
  have hclear : s.clearReconnectTimer = s := by rw [Client.clearReconnectTimer, h.slot]
  have hguard : ¬ (s.running = false ∨ s.token = [] ∨ c.wsUrl = [] ∨ s.ws ≠ none) := by
    simp [hrunning, htoken, hurl, h.ws]
  rw [Client.connect, if_neg hguard, hclear]
  constructor
  · intro hopens
    simp only [hopens, if_true]
    exact ⟨trivial, .socket hrunning (.inl htoken) rfl (by simp) h.timers h.slot h.current⟩
  · intro hopens
    simp [hopens]

/-! ## What stays through a call -/

/-- The same authentications in the same generation. -/
structure SameEra (s s' : Client) : Prop where
  auths : s'.auths = s.auths
  generation : s'.lifecycleGeneration = s.lifecycleGeneration
  running : s'.running = s.running

theorem SameEra.refl (s : Client) : SameEra s s := ⟨rfl, rfl, rfl⟩

theorem SameEra.trans {s s' s'' : Client} (h : SameEra s s') (h' : SameEra s' s'') :
    SameEra s s'' :=
  ⟨h'.auths.trans h.auths, h'.generation.trans h.generation, h'.running.trans h.running⟩

theorem sameEra_clear (s : Client) : SameEra s s.clearReconnectTimer := by
  rw [Client.clearReconnectTimer]
  split <;> exact ⟨rfl, rfl, rfl⟩

theorem sameEra_scheduleAuthRetry (s : Client) : SameEra s s.scheduleAuthRetry := by
  rw [Client.scheduleAuthRetry]
  split <;> exact ⟨rfl, rfl, rfl⟩

theorem sameEra_scheduleReconnect (s : Client) : SameEra s s.scheduleReconnect := by
  rw [Client.scheduleReconnect]
  split <;> exact ⟨rfl, rfl, rfl⟩

theorem sameEra_connect (c : Setup) (s : Client) : SameEra s (s.connect c).1 := by
  rw [Client.connect]
  split
  · exact .refl s
  · have hclear := sameEra_clear s
    simp only []
    split
    · exact ⟨hclear.auths, hclear.generation, hclear.running⟩
    · exact hclear

theorem sameEra_settle (s : Client) (a : PendingAuth) (result : Option Token) :
    SameEra s (s.settle a result) := by
  unfold Client.settle
  split
  · split_ifs <;> exact ⟨rfl, rfl, rfl⟩
  · exact .refl s

theorem sameEra_handleSocketClose (s : Client) (code now : ℕ) :
    SameEra s (s.handleSocketClose code now) := by
  rw [Client.handleSocketClose]
  simp only []
  split_ifs <;> first
    | exact ⟨rfl, rfl, rfl⟩
    | exact ⟨(sameEra_scheduleReconnect _).auths, (sameEra_scheduleReconnect _).generation,
        (sameEra_scheduleReconnect _).running⟩

/-- A call that has come back goes on, in its generation, to end it or to begin
something. -/
theorem resume_era (c : Setup) (s : Client) (a : PendingAuth) (brokerExpected : Bool) :
    (s.resume c a brokerExpected).auths = s.auths ∧
      (s.resume c a brokerExpected).lifecycleGeneration = s.lifecycleGeneration ∧
      ((s.resume c a brokerExpected).running = true → s.running = true) := by
  have hsame {s' : Client} (h : SameEra s s') : s'.auths = s.auths ∧
      s'.lifecycleGeneration = s.lifecycleGeneration ∧ (s'.running = true → s.running = true) :=
    ⟨h.auths, h.generation, fun hrunning => h.running ▸ hrunning⟩
  unfold Client.resume
  split
  · exact hsame (.refl s)
  · next hguard =>
      split
      · split_ifs
        · exact hsame (sameEra_scheduleAuthRetry s)
        · exact ⟨rfl, rfl, fun hrunning => absurd hrunning (by decide)⟩
        · exact hsame (sameEra_connect c s)
      · split_ifs
        · exact hsame (sameEra_scheduleAuthRetry s)
        · have hconnect := sameEra_connect c { s with authRetryAttempt := 0 }
          have hconnect : SameEra s (Client.connect c { s with authRetryAttempt := 0 }).1 :=
            ⟨hconnect.auths, hconnect.generation, hconnect.running⟩
          split
          · next s' heq =>
              rw [heq] at hconnect
              exact hsame (hconnect.trans (sameEra_scheduleAuthRetry s'))
          · next s' heq =>
              rw [heq] at hconnect
              exact hsame hconnect
      · split_ifs
        · exact hsame (sameEra_scheduleReconnect s)
        · have hconnect := sameEra_connect c s
          split
          · next s' heq =>
              rw [heq] at hconnect
              exact hsame (hconnect.trans (sameEra_scheduleReconnect s'))
          · next s' heq =>
              rw [heq] at hconnect
              exact hsame hconnect

/-! ## Ending an authentication -/

theorem mem_current {a : PendingAuth} {index : ℕ} (hget : s.auths[index]? = some a)
    (hgeneration : a.generation = s.lifecycleGeneration) : a ∈ s.current :=
  List.mem_filter.mpr ⟨List.mem_of_getElem? hget, decide_eq_true hgeneration⟩

theorem filter_eraseIdx_eq {α : Type} {l : List α} {i : ℕ} {a : α} (p : α → Bool)
    (hget : l[i]? = some a) :
    l.filter p = (l.take i).filter p ++ (if p a = true then [a] else []) ++
        (l.drop (i + 1)).filter p ∧
      (l.eraseIdx i).filter p = (l.take i).filter p ++ (l.drop (i + 1)).filter p := by
  obtain ⟨hi, rfl⟩ := List.getElem?_eq_some_iff.mp hget
  constructor
  · conv_lhs => rw [← List.take_append_drop i l, List.drop_eq_getElem_cons hi, List.filter_append]
    rw [List.filter_cons, List.append_assoc]
    split_ifs <;> simp
  · rw [List.eraseIdx_eq_take_drop_succ, List.filter_append]

/-- The only authentication of its generation is gone when it has ended. -/
theorem current_erase_eq_nil {a a' : PendingAuth} {index : ℕ} (hcurrent : s.current = [a'])
    (hget : s.auths[index]? = some a) (hgeneration : a.generation = s.lifecycleGeneration) :
    a = a' ∧ (s.auths.eraseIdx index).filter (fun a => a.generation = s.lifecycleGeneration) = [] := by
  obtain ⟨hall, herased⟩ :=
    filter_eraseIdx_eq (fun a => decide (a.generation = s.lifecycleGeneration)) hget
  rw [if_pos (decide_eq_true hgeneration)] at hall
  have hlist := hall.symm.trans hcurrent
  have hmem : a ∈ [a'] := by
    rw [← hlist]
    simp
  have hlength := congrArg List.length hlist
  rw [List.length_append, List.length_append, List.length_singleton, List.length_singleton] at hlength
  refine ⟨List.mem_singleton.mp hmem, ?_⟩
  rw [herased, List.append_eq_nil_iff, ← List.length_eq_zero_iff, ← List.length_eq_zero_iff]
  omega

theorem current_erase_eq {a : PendingAuth} {index : ℕ} (hget : s.auths[index]? = some a)
    (hgeneration : a.generation ≠ s.lifecycleGeneration) :
    (s.auths.eraseIdx index).filter (fun a => a.generation = s.lifecycleGeneration) =
      s.current := by
  obtain ⟨hall, herased⟩ :=
    filter_eraseIdx_eq (fun a => decide (a.generation = s.lifecycleGeneration)) hget
  rw [if_neg (by simpa using hgeneration), List.append_nil] at hall
  exact herased.trans hall.symm

/-! ## Every event -/

/-- What an event leads to: something pending, unless nobody catches what the
making of a socket throws. -/
structure Next (c : Setup) (s : Client) (caught : Prop) : Prop where
  older : ∀ a ∈ s.auths, a.generation ≤ s.lifecycleGeneration
  url : s.running = true → c.wsUrl ≠ []
  mode : caught → Mode s
  dead : ¬ caught → Dead s

theorem Next.of_mode {s : Client} {caught : Prop} (hcaught : caught)
    (older : ∀ a ∈ s.auths, a.generation ≤ s.lifecycleGeneration)
    (url : s.running = true → c.wsUrl ≠ []) (hmode : Mode s) : Next c s caught :=
  ⟨older, url, fun _ => hmode, fun hnot => absurd hcaught hnot⟩

/-- The socket is made where nobody would catch it. -/
theorem Nothing.next_connect (h : Nothing s) (hrunning : s.running = true) (hurl : c.wsUrl ≠ [])
    (htoken : s.token ≠ []) (older : ∀ a ∈ s.auths, a.generation ≤ s.lifecycleGeneration) :
    Next c (s.connect c).1 (c.opens s.token = true) := by
  obtain ⟨hopen, hthrow⟩ := h.connect hrunning hurl htoken
  have hsame := sameEra_connect c s
  refine ⟨?_, fun _ => hurl, fun hopens => (hopen hopens).2, fun hopens => ?_⟩
  · rw [hsame.auths, hsame.generation]
    exact older
  · rw [hthrow (eq_false_of_ne_true hopens)]
    exact ⟨hrunning, h⟩

theorem Nothing.next_selfAuthenticate {caught : Prop} (h : Nothing s)
    (hrunning : s.running = true) (hurl : c.wsUrl ≠ [])
    (older : ∀ a ∈ s.auths, a.generation ≤ s.lifecycleGeneration) (caller : AuthCaller)
    (environment : Option Token) (hready : caller = .reconnect → Ready s) (hcaught : caught) :
    Next c (s.selfAuthenticate caller environment) caught :=
  .of_mode hcaught (selfAuthenticate_older older caller environment) (fun _ => hurl)
    (h.selfAuthenticate hrunning caller environment hready)

theorem Mode.ownsSocket (h : Mode s) {k : ℕ} (howns : s.ownsSocket k = true) :
    s.running = true ∧ Ready s ∧ s.ws = some k ∧ s.timers = [] ∧ s.reconnectTimer = none ∧
      s.current = [] := by
  rw [Client.ownsSocket, Bool.and_eq_true, decide_eq_true_eq] at howns
  obtain ⟨hrunning, -, hws⟩ := howns
  cases h with
  | idle hidle => simp [hidle] at hrunning
  | socket _ hready _ _ htimers hslot hcurrent =>
      exact ⟨hrunning, hready, hws, htimers, hslot, hcurrent⟩
  | waiting _ _ hnone => simp [hnone] at hws
  | authenticating _ _ hnone => simp [hnone] at hws

theorem handleSocketClose_mode (hrunning : s.running = true) (hready : Ready s)
    (htimers : s.timers = []) (hslot : s.reconnectTimer = none) (hcurrent : s.current = [])
    (code now : ℕ) : Mode (s.handleSocketClose code now) := by
  rw [Client.handleSocketClose]
  simp only []
  split_ifs <;> first
    | exact Nothing.scheduleReconnect ⟨rfl, htimers, hslot, hcurrent⟩ hrunning (.inr rfl)
    | exact Nothing.scheduleReconnect ⟨rfl, htimers, hslot, hcurrent⟩ hrunning hready

/-- A generation that has not begun has no authentications. -/
theorem current_next_eq_nil (older : ∀ a ∈ s.auths, a.generation ≤ s.lifecycleGeneration) :
    s.auths.filter (fun a => a.generation = s.lifecycleGeneration + 1) = [] := by
  refine List.filter_eq_nil_iff.mpr fun a ha heq => ?_
  have hold := older a ha
  rw [of_decide_eq_true heq] at hold
  omega

theorem stop_era (s : Client) :
    s.stop.auths = s.auths ∧ s.stop.lifecycleGeneration = s.lifecycleGeneration + 1 ∧
      s.stop.running = false := by
  have hclear := sameEra_clear { s with
    running := false, lifecycleGeneration := s.lifecycleGeneration + 1 }
  exact ⟨hclear.auths, hclear.generation, hclear.running⟩

theorem Mode.stop (h : Mode s ∨ Dead s)
    (older : ∀ a ∈ s.auths, a.generation ≤ s.lifecycleGeneration) : Mode s.stop := by
  obtain ⟨hauths, hgeneration, hrunning⟩ := stop_era s
  have hcurrent : s.stop.current = [] := by
    rw [Client.current, hauths, hgeneration]
    exact current_next_eq_nil older
  have hslot : s.stop.reconnectTimer = none ∧ s.stop.timers = [] := by
    rw [Client.stop, Client.clearReconnectTimer]
    rcases h with h | h
    · cases h with
      | idle _ hnothing => simp [hnothing.slot, hnothing.timers]
      | socket _ _ _ _ htimers hslot => simp [hslot, htimers]
      | waiting _ _ _ htimers hslot => simp [hslot, htimers]
      | authenticating _ _ _ htimers hslot => simp [hslot, htimers]
    · simp [h.nothing.slot, h.nothing.timers]
  exact .idle hrunning ⟨rfl, hslot.2, hslot.1, hcurrent⟩

/-- The client is idle, so nothing is left of the generations before. -/
theorem next_start (h : ClientKept c s) (environment : Option Token)
    (hmode : Mode s) : Next c (s.start c environment) (NoThrow c s (.start environment)) := by
  by_cases hrunning : s.running = true
  · rw [Client.start, if_pos hrunning]
    exact .of_mode (fun hidle => absurd hidle (by simp [hrunning])) h.older h.url hmode
  have hidle : s.running = false := eq_false_of_ne_true hrunning
  have hnothing : Nothing s := by
    cases hmode with
    | idle _ hnothing => exact hnothing
    | socket h' | waiting h' | authenticating h' => exact absurd h' hrunning
  obtain ⟨s', hs'⟩ : ∃ s' : Client, s' =
    { s with running := true, lifecycleGeneration := s.lifecycleGeneration + 1 } := ⟨_, rfl⟩
  have hstart : s.start c environment =
      if c.wsUrl = [] then { s' with running := false }
      else if s'.token = [] then s'.selfAuthenticate .start environment
      else (s'.connect c).1 := by
    rw [Client.start, if_neg hrunning, hs']
  have hnothing' : Nothing s' := by
    rw [hs']
    exact ⟨hnothing.ws, hnothing.timers, hnothing.slot, current_next_eq_nil h.older⟩
  have hrunning' : s'.running = true := by rw [hs']
  have htoken' : s'.token = s.token := by rw [hs']
  have holder' : ∀ a ∈ s'.auths, a.generation ≤ s'.lifecycleGeneration := by
    rw [hs']
    exact fun a ha => (h.older a ha).trans (Nat.le_succ _)
  rw [hstart]
  split_ifs with hurl htoken
  · exact .of_mode (fun _ hne => absurd hurl hne) holder' (fun hrunning => nomatch hrunning)
      (.idle rfl ⟨hnothing'.ws, hnothing'.timers, hnothing'.slot, hnothing'.current⟩)
  · exact hnothing'.next_selfAuthenticate hrunning' hurl holder' .start environment
      (fun hcaller => nomatch hcaller) fun _ _ hne => absurd (htoken'.symm.trans htoken) hne
  · have hnext := hnothing'.next_connect hrunning' hurl htoken holder'
    rw [htoken'] at hnext htoken
    exact ⟨hnext.older, hnext.url, fun hcaught => hnext.mode (hcaught hidle hurl htoken),
      fun hnot => hnext.dead fun hopens => hnot fun _ _ _ => hopens⟩

theorem Mode.with_auths (h : Mode s) {auths : List PendingAuth}
    (hauths : auths.filter (fun a => a.generation = s.lifecycleGeneration) = s.current) :
    Mode { s with auths := auths } := by
  cases h with
  | idle hrunning hnothing =>
      exact .idle hrunning ⟨hnothing.ws, hnothing.timers, hnothing.slot,
        hauths.trans hnothing.current⟩
  | socket hrunning hready hws howned htimers hslot hcurrent =>
      exact .socket hrunning hready hws howned htimers hslot (hauths.trans hcurrent)
  | waiting hrunning hready hws htimers hslot hgeneration hcurrent =>
      exact .waiting hrunning hready hws htimers hslot hgeneration (hauths.trans hcurrent)
  | authenticating hrunning hready hws htimers hslot hcurrent =>
      exact .authenticating hrunning hready hws htimers hslot (hauths.trans hcurrent)

theorem Mode.with_connectedAt (h : Mode s) (now : ℕ) : Mode { s with connectedAt := now } := by
  cases h with
  | idle hrunning hnothing =>
      exact .idle hrunning ⟨hnothing.ws, hnothing.timers, hnothing.slot, hnothing.current⟩
  | socket hrunning hready hws howned htimers hslot hcurrent =>
      exact .socket hrunning hready hws howned htimers hslot hcurrent
  | waiting hrunning hready hws htimers hslot hgeneration hcurrent =>
      exact .waiting hrunning hready hws htimers hslot hgeneration hcurrent
  | authenticating hrunning hready hws htimers hslot hcurrent =>
      exact .authenticating hrunning hready hws htimers hslot hcurrent

theorem next_stop (h : ClientKept c s) : Next c s.stop True := by
  obtain ⟨hauths, hgeneration, hrunning⟩ := stop_era s
  refine .of_mode trivial ?_ (fun hstopped => absurd hstopped (by simp [hrunning]))
    (.stop h.mode h.older)
  rw [hauths, hgeneration]
  exact fun a ha => (h.older a ha).trans (Nat.le_succ _)

theorem next_socketOpen (h : ClientKept c s) (hmode : Mode s) (socket now : ℕ) :
    Next c (clientStep c s (.socketOpen socket now)) True := by
  simp only [clientStep]
  split_ifs
  · exact .of_mode trivial h.older h.url (hmode.with_connectedAt now)
  · exact .of_mode trivial h.older h.url hmode

/-- A token that the server refuses is dropped, the socket is closed later. -/
theorem next_socketError (h : ClientKept c s) (hmode : Mode s) (socket : ℕ) (message : Text) :
    Next c (clientStep c s (.socketError socket message)) True := by
  simp only [clientStep]
  split_ifs with howns
  · refine .of_mode trivial h.older h.url ?_
    rw [Bool.and_eq_true] at howns
    obtain ⟨hrunning, -, hws, htimers, hslot, hcurrent⟩ := hmode.ownsSocket howns.1
    have howned := howns.1
    rw [Client.ownsSocket, Bool.and_eq_true, decide_eq_true_eq] at howned
    exact .socket hrunning (.inr rfl) hws howned.2.1 htimers hslot hcurrent
  · exact .of_mode trivial h.older h.url hmode

theorem next_socketClose (h : ClientKept c s) (hmode : Mode s) (socket code now : ℕ) :
    Next c (clientStep c s (.socketClose socket code now)) True := by
  simp only [clientStep]
  split_ifs with howns
  · obtain ⟨hrunning, hready, -, htimers, hslot, hcurrent⟩ := hmode.ownsSocket howns
    have hsame := sameEra_handleSocketClose s code now
    refine .of_mode trivial ?_ (fun _ => h.url hrunning)
      (handleSocketClose_mode hrunning hready htimers hslot hcurrent code now)
    rw [hsame.auths, hsame.generation]
    exact h.older
  · exact .of_mode trivial h.older h.url hmode

/-- The only timer there is has fired. -/
theorem next_timer (h : ClientKept c s) (hmode : Mode s) (handle : ℕ)
    (environment : Option Token) :
    Next c (clientStep c s (.timer handle environment))
      (NoThrow c s (.timer handle environment)) := by
  simp only [clientStep]
  cases hfind : s.timers.find? fun t => t.handle = handle with
  | none =>
      refine .of_mode (fun t ht heq => ?_) h.older h.url hmode
      exact absurd (decide_eq_true heq) (by simpa using List.find?_eq_none.mp hfind t ht)
  | some t =>
      have hmem : t ∈ s.timers := List.mem_of_find?_eq_some hfind
      have hhandle : t.handle = handle := by simpa using List.find?_some hfind
      cases hmode with
      | idle _ hnothing => simp [hnothing.timers] at hmem
      | socket _ _ _ _ htimers => simp [htimers] at hmem
      | authenticating _ _ _ htimers => simp [htimers] at hmem
      | @waiting t' hrunning hready hws htimers hslot hgeneration hcurrent =>
          obtain rfl : t = t' := by simpa [htimers] using hmem
          have hleft : s.timers.filter (fun t => t.handle ≠ handle) = [] := by
            simp [htimers, hhandle]
          have hfired : Nothing { s with
              timers := s.timers.filter fun t => t.handle ≠ handle, reconnectTimer := none } :=
            ⟨hws, hleft, rfl, hcurrent⟩
          simp only [Client.fire]
          rw [if_neg (by simp [hrunning, hgeneration])]
          cases hkind : t.kind with
          | authRetry =>
              simp only [Client.retry]
              refine hfired.next_selfAuthenticate hrunning (h.url hrunning) h.older .authRetry
                environment (fun hcaller => nomatch hcaller) fun t' ht' _ hreconnect => ?_
              rw [htimers, List.mem_singleton] at ht'
              rw [ht', hkind] at hreconnect
              exact nomatch hreconnect
          | reconnect =>
              have hagain := hready hkind
              simp only [Client.retry]
              split_ifs with hforce
              · refine hfired.next_selfAuthenticate hrunning (h.url hrunning) h.older .reconnect
                  environment (fun _ => hagain) fun _ _ _ _ hkeep hattempt => ?_
                rcases hforce with hforce | hforce
                · exact absurd hforce (by simp [hkeep])
                · exact absurd hforce (by omega)
              · have hkeep : s.forceTokenRefresh = false :=
                  eq_false_of_ne_true fun hforced => hforce (.inl hforced)
                have hattempt : s.reconnectAttempt ≤ 3 := by
                  by_contra hmore
                  exact hforce (.inr (by omega))
                have htoken : s.token ≠ [] := by
                  rcases hagain with htoken | hforced
                  · exact htoken
                  · exact absurd hforced (by simp [hkeep])
                have hnext := hfired.next_connect hrunning (h.url hrunning) htoken h.older
                exact ⟨hnext.older, hnext.url,
                  fun hcaught => hnext.mode (hcaught t hmem hhandle hkind hkeep hattempt),
                  fun hnot => hnext.dead fun hopens => hnot fun _ _ _ _ _ _ => hopens⟩

/-- What comes back to a later generation changes nothing. -/
theorem authEnd_older {a : PendingAuth} {index : ℕ} (hget : s.auths[index]? = some a)
    (hgeneration : a.generation ≠ s.lifecycleGeneration) (result : Option Token)
    (brokerExpected : Bool) :
    clientStep c s (.authEnd index result brokerExpected) =
      { s with auths := s.auths.eraseIdx index } := by
  have hsettle : ({ s with auths := s.auths.eraseIdx index } : Client).settle a result =
      { s with auths := s.auths.eraseIdx index } := by
    unfold Client.settle
    split
    · exact if_neg fun hsame => hgeneration hsame.2
    · rfl
  simp only [clientStep, hget]
  rw [hsettle, Client.resume, if_pos (.inr hgeneration)]

/-- A socket, or another attempt where the exception is caught. -/
theorem Nothing.connect_or (h : Nothing s) (hrunning : s.running = true) (hurl : c.wsUrl ≠ [])
    (htoken : s.token ≠ []) {again : Client → Client} (hagain : Mode (again s)) :
    Mode (match s.connect c with
      | (s, true) => again s
      | (s, false) => s) := by
  obtain ⟨hopen, hthrow⟩ := h.connect hrunning hurl htoken
  cases hopens : c.opens s.token with
  | true =>
      obtain ⟨hcaught, hmode⟩ := hopen hopens
      split
      · next heq =>
          rw [heq] at hcaught
          exact Bool.noConfusion hcaught
      · next heq =>
          rw [heq] at hmode
          exact hmode
  | false =>
      rw [hthrow hopens]
      exact hagain

/-- What a scheduler does with the end of its authentication it does whether the
socket can be made or not. -/
theorem Nothing.resume {a : PendingAuth} (h : Nothing s) (hrunning : s.running = true)
    (hurl : c.wsUrl ≠ []) (hgeneration : a.generation = s.lifecycleGeneration)
    (hcaller : a.caller ≠ .start) (hready : a.caller = .reconnect → Ready s)
    (brokerExpected : Bool) : Mode (s.resume c a brokerExpected) := by
  rw [Client.resume, if_neg (by simp [hrunning, hgeneration])]
  cases hkind : a.caller with
  | start => exact absurd hkind hcaller
  | authRetry =>
      dsimp only
      split_ifs with htoken
      · exact h.scheduleAuthRetry hrunning
      · have hreset : Nothing { s with authRetryAttempt := 0 } :=
          ⟨h.ws, h.timers, h.slot, h.current⟩
        exact hreset.connect_or hrunning hurl htoken (hreset.scheduleAuthRetry hrunning)
  | reconnect =>
      dsimp only
      split_ifs with htoken
      · exact h.scheduleReconnect hrunning (hready hkind)
      · exact h.connect_or hrunning hurl htoken (h.scheduleReconnect hrunning (hready hkind))

/-- A start that has its token, or is without one for good. -/
theorem Nothing.next_resume_start {a : PendingAuth} (h : Nothing s) (hrunning : s.running = true)
    (hurl : c.wsUrl ≠ []) (older : ∀ a ∈ s.auths, a.generation ≤ s.lifecycleGeneration)
    (hgeneration : a.generation = s.lifecycleGeneration) (hcaller : a.caller = .start)
    (brokerExpected : Bool) :
    Next c (s.resume c a brokerExpected) (s.token ≠ [] → c.opens s.token = true) := by
  rw [Client.resume, if_neg (by simp [hrunning, hgeneration]), hcaller]
  dsimp only
  split_ifs with htoken
  · have hsame := sameEra_scheduleAuthRetry s
    refine .of_mode (fun hne => absurd htoken hne) ?_ (fun _ => hurl) (h.scheduleAuthRetry hrunning)
    rw [hsame.auths, hsame.generation]
    exact older
  · exact .of_mode (fun hne => absurd htoken hne) older (fun _ => hurl)
      (.idle rfl ⟨h.ws, h.timers, h.slot, h.current⟩)
  · have hnext := h.next_connect hrunning hurl htoken older
    exact ⟨hnext.older, hnext.url, fun hcaught => hnext.mode (hcaught htoken),
      fun hnot => hnext.dead fun hopens => hnot fun _ => hopens⟩

theorem settle_ready (s : Client) (a : PendingAuth) (result : Option Token) (h : Ready s) :
    Ready (s.settle a result) := by
  unfold Client.settle
  split
  · next t =>
      split_ifs
      · exact .inl t.property
      · exact h
  · exact h

theorem Nothing.settle (h : Nothing s) (a : PendingAuth) (result : Option Token) :
    Nothing (s.settle a result) := by
  unfold Client.settle
  split
  · split_ifs
    · exact ⟨h.ws, h.timers, h.slot, h.current⟩
    · exact h
  · exact h

theorem settle_token (s : Client) (auths : List PendingAuth) (a : PendingAuth)
    (result : Option Token) :
    (({ s with auths := auths } : Client).settle a result).token = (s.settle a result).token := by
  unfold Client.settle
  split
  · split_ifs <;> rfl
  · rfl

/-- The only authentication there is has ended. -/
theorem next_authEnd (h : ClientKept c s) (hmode : Mode s) (index : ℕ) (result : Option Token)
    (brokerExpected : Bool) :
    Next c (clientStep c s (.authEnd index result brokerExpected))
      (NoThrow c s (.authEnd index result brokerExpected)) := by
  cases hget : s.auths[index]? with
  | none =>
      simp only [clientStep, hget]
      exact .of_mode (fun a ha => nomatch ha.symm.trans hget) h.older h.url hmode
  | some a =>
      have holder : ∀ a ∈ s.auths.eraseIdx index, a.generation ≤ s.lifecycleGeneration :=
        fun a ha => h.older a (List.mem_of_mem_eraseIdx ha)
      by_cases hgeneration : a.generation = s.lifecycleGeneration
      · have hmem := mem_current hget hgeneration
        cases hmode with
        | idle _ hnothing => simp [hnothing.current] at hmem
        | socket _ _ _ _ _ _ hcurrent => simp [hcurrent] at hmem
        | waiting _ _ _ _ _ _ hcurrent => simp [hcurrent] at hmem
        | @authenticating a' hrunning hready hws htimers hslot hcurrent =>
            obtain ⟨rfl, hnone⟩ := current_erase_eq_nil hcurrent hget hgeneration
            have hended : Nothing { s with auths := s.auths.eraseIdx index } :=
              ⟨hws, htimers, hslot, hnone⟩
            have hsettled := hended.settle a result
            have hsame := sameEra_settle { s with auths := s.auths.eraseIdx index } a result
            have htoken := settle_token s (s.auths.eraseIdx index) a result
            have hagain : a.caller = .reconnect →
                Ready (({ s with auths := s.auths.eraseIdx index } : Client).settle a result) :=
              fun hcaller => settle_ready _ a result (hready hcaller)
            simp only [clientStep, hget]
            generalize ({ s with auths := s.auths.eraseIdx index } : Client).settle a result = s'
              at hsettled hsame htoken hagain ⊢
            have hrunning' : s'.running = true := hsame.running.trans hrunning
            have hgeneration' : a.generation = s'.lifecycleGeneration :=
              hgeneration.trans hsame.generation.symm
            have holder' : ∀ a ∈ s'.auths, a.generation ≤ s'.lifecycleGeneration := by
              rw [hsame.auths, hsame.generation]
              exact holder
            by_cases hcaller : a.caller = .start
            · have hnext := hsettled.next_resume_start hrunning' (h.url hrunning) holder'
                hgeneration' hcaller brokerExpected
              refine ⟨hnext.older, hnext.url, fun hcaught => hnext.mode fun hne => ?_,
                fun hnot => hnext.dead fun hopens => hnot fun a' ha' _ _ hne => ?_⟩
              · rw [htoken] at hne ⊢
                exact hcaught a hget hcaller hgeneration hne
              · rw [hget, Option.some.injEq] at ha'
                subst ha'
                rw [← htoken] at hne ⊢
                exact hopens hne
            · have hera := resume_era c s' a brokerExpected
              refine .of_mode (fun a' ha' hstart => ?_) ?_ (fun _ => h.url hrunning)
                (hsettled.resume hrunning' (h.url hrunning) hgeneration' hcaller hagain
                  brokerExpected)
              · rw [hget, Option.some.injEq] at ha'
                exact absurd (ha' ▸ hstart) hcaller
              · rw [hera.1, hera.2.1]
                exact holder'
      · rw [authEnd_older hget hgeneration]
        refine .of_mode (fun a' ha' _ hsame => ?_) holder h.url
          (hmode.with_auths (current_erase_eq hget hgeneration))
        rw [hget, Option.some.injEq] at ha'
        exact absurd hsame (ha' ▸ hgeneration)

theorem next_step (h : ClientKept c s) (hmode : Mode s) (e : ClientEvent) :
    Next c (clientStep c s e) (NoThrow c s e) := by
  cases e with
  | start environment => exact next_start h environment hmode
  | stop => exact next_stop h
  | socketOpen socket now => exact next_socketOpen h hmode socket now
  | socketMessage socket => exact .of_mode trivial h.older h.url hmode
  | socketError socket message => exact next_socketError h hmode socket message
  | socketClose socket code now => exact next_socketClose h hmode socket code now
  | timer handle environment => exact next_timer h hmode handle environment
  | authEnd index result brokerExpected => exact next_authEnd h hmode index result brokerExpected

/-- Only a stop ends it. -/
theorem Dead.step (h : Dead s) (hkept : ClientKept c s) (e : ClientEvent) :
    ClientKept c (clientStep c s e) := by
  have hunowned (socket : ℕ) : s.ownsSocket socket = false := by
    simp [Client.ownsSocket, h.nothing.ws]
  cases e with
  | start environment =>
      simp only [clientStep, Client.start, if_pos h.running]
      exact hkept
  | stop =>
      have hstop := next_stop hkept
      exact ⟨hstop.older, hstop.url, .inl (hstop.mode trivial)⟩
  | socketOpen socket now => simpa [clientStep, hunowned] using hkept
  | socketMessage socket => exact hkept
  | socketError socket message => simpa [clientStep, hunowned] using hkept
  | socketClose socket code now => simpa [clientStep, hunowned] using hkept
  | timer handle environment => simpa [clientStep, h.nothing.timers] using hkept
  | authEnd index result brokerExpected =>
      cases hget : s.auths[index]? with
      | none =>
          simp only [clientStep, hget]
          exact hkept
      | some a =>
          have hgeneration : a.generation ≠ s.lifecycleGeneration := by
            intro hsame
            have hmem := mem_current hget hsame
            simp [h.nothing.current] at hmem
          rw [authEnd_older hget hgeneration]
          exact ⟨fun a ha => hkept.older a (List.mem_of_mem_eraseIdx ha), hkept.url,
            .inr ⟨h.running, h.nothing.ws, h.nothing.timers, h.nothing.slot,
              (current_erase_eq hget hgeneration).trans h.nothing.current⟩⟩

theorem ClientKept.step (h : ClientKept c s) (e : ClientEvent) :
    ClientKept c (clientStep c s e) := by
  rcases h.mode with hmode | hdead
  · have hnext := next_step h hmode e
    refine ⟨hnext.older, hnext.url, ?_⟩
    by_cases hcaught : NoThrow c s e
    · exact .inl (hnext.mode hcaught)
    · exact .inr (hnext.dead hcaught)
  · exact hdead.step h e

theorem ClientKept.mode_of_alive (h : ClientKept c s) (halive : Alive s) : Mode s :=
  h.mode.resolve_right fun hdead => hdead.not_alive halive

theorem alive_step_iff (h : ClientKept c s) (halive : Alive s) :
    Alive (clientStep c s e) ↔ NoThrow c s e := by
  have hnext := next_step h (h.mode_of_alive halive) e
  constructor
  · intro hstays
    by_contra hthrown
    exact (hnext.dead hthrown).not_alive hstays
  · intro hcaught
    exact (hnext.mode hcaught).alive

/-! ## One socket -/

theorem othersIgnored (c : Setup) (s : Client) (e : ClientEvent) : OthersIgnored c s e := by
  have hunowned {socket : ℕ} (hws : s.ws ≠ some socket) : s.ownsSocket socket = false := by
    simp [Client.ownsSocket, hws]
  cases e with
  | socketOpen socket now => exact fun hws => by simp [clientStep, hunowned hws]
  | socketMessage socket => exact fun _ => rfl
  | socketError socket message => exact fun hws => by simp [clientStep, hunowned hws]
  | socketClose socket code now => exact fun hws => by simp [clientStep, hunowned hws]
  | start | stop | timer | authEnd => trivial

theorem sockets_clear (s : Client) : s.clearReconnectTimer.sockets = s.sockets := by
  rw [Client.clearReconnectTimer]
  split <;> rfl

theorem sockets_handleSocketClose (s : Client) (code now : ℕ) :
    (s.handleSocketClose code now).sockets = s.sockets := by
  have hschedule (s : Client) : s.scheduleReconnect.sockets = s.sockets := by
    rw [Client.scheduleReconnect]
    split <;> rfl
  rw [Client.handleSocketClose]
  dsimp only
  split_ifs <;> first | rfl | exact hschedule _

/-- With no timer and no authentication only a start makes a socket, and it
does not in a client that runs. -/
theorem sockets_step (htimers : s.timers = []) (hcurrent : s.current = [])
    (hstart : e.isStart = true → s.running = true) :
    (clientStep c s e).sockets = s.sockets ∧
      (e.isStart = false → s.running = false → (clientStep c s e).running = false) := by
  have hunowned (hstopped : s.running = false) (socket : ℕ) : s.ownsSocket socket = false := by
    simp [Client.ownsSocket, hstopped]
  cases e with
  | start environment =>
      simp only [clientStep, Client.start, if_pos (hstart rfl)]
      exact ⟨trivial, fun hnot => nomatch hnot⟩
  | stop => exact ⟨sockets_clear _, fun _ _ => (stop_era s).2.2⟩
  | socketOpen socket now =>
      simp only [clientStep]
      split_ifs <;> exact ⟨rfl, fun _ hstopped => hstopped⟩
  | socketMessage socket => exact ⟨rfl, fun _ hstopped => hstopped⟩
  | socketError socket message =>
      simp only [clientStep]
      split_ifs <;> exact ⟨rfl, fun _ hstopped => hstopped⟩
  | socketClose socket code now =>
      simp only [clientStep]
      split_ifs with howns
      · exact ⟨sockets_handleSocketClose s code now, fun _ hstopped =>
          absurd howns (by simp [hunowned hstopped])⟩
      · exact ⟨rfl, fun _ hstopped => hstopped⟩
  | timer handle environment =>
      simp only [clientStep, htimers, List.find?_nil]
      exact ⟨trivial, fun _ hstopped => hstopped⟩
  | authEnd index result brokerExpected =>
      cases hget : s.auths[index]? with
      | none =>
          simp only [clientStep, hget]
          exact ⟨trivial, fun _ hstopped => hstopped⟩
      | some a =>
          have hgeneration : a.generation ≠ s.lifecycleGeneration := by
            intro hsame
            have hmem := mem_current hget hsame
            simp [hcurrent] at hmem
          rw [authEnd_older hget hgeneration]
          exact ⟨rfl, fun _ hstopped => hstopped⟩

theorem ClientKept.neverDoubled (h : ClientKept c s) (e : ClientEvent) : NeverDoubled c s e := by
  intro hws
  rcases h.mode with hmode | hdead
  · cases hmode with
    | idle _ hnothing => exact absurd hnothing.ws hws
    | socket hrunning _ _ _ htimers _ hcurrent =>
        exact (sockets_step htimers hcurrent fun _ => hrunning).1
    | waiting _ _ hnone => exact absurd hnone hws
    | authenticating _ _ hnone => exact absurd hnone hws
  · exact absurd hdead.nothing.ws hws

theorem ClientKept.stopped_step (h : ClientKept c s) (hstopped : s.running = false)
    (hstart : e.isStart = false) :
    (clientStep c s e).sockets = s.sockets ∧ (clientStep c s e).running = false := by
  rcases h.mode with hmode | hdead
  · cases hmode with
    | idle _ hnothing =>
        have hstep := sockets_step (c := c) (e := e) hnothing.timers hnothing.current
          fun hisStart => absurd hisStart (by simp [hstart])
        exact ⟨hstep.1, hstep.2 hstart hstopped⟩
    | socket hrunning | waiting hrunning | authenticating hrunning =>
        simp [hstopped] at hrunning
  · exact absurd hdead.running (by simp [hstopped])

theorem ClientKept.stopped_run (h : ClientKept c s) (hstopped : s.running = false)
    {after : List ClientEvent} (hstart : ∀ e ∈ after, e.isStart = false) :
    (run (clientStep c) s after).sockets = s.sockets := by
  induction after generalizing s with
  | nil => rfl
  | cons e after ih =>
      obtain ⟨hsockets, hrunning⟩ := h.stopped_step hstopped (hstart e List.mem_cons_self)
      rw [run_cons, ih (h.step e) hrunning fun e he => hstart e (List.mem_cons_of_mem _ he)]
      exact hsockets

/-! ## Runs -/

theorem clientKept_client (c : Setup) : ClientKept c c.client where
  older := fun _ ha => absurd ha List.not_mem_nil
  url := fun hrunning => nomatch hrunning
  mode := .inl (.idle rfl ⟨rfl, rfl, rfl, rfl⟩)

theorem clientKept_run (c : Setup) (events : List ClientEvent) :
    ClientKept c (run (clientStep c) c.client events) :=
  run_invariant (C := fun _ _ => True) (fun _ e h _ => h.step e) (clientKept_client c)
    (along_true (fun _ _ => trivial) _ _)

theorem stoppedForGood (c : Setup) (events : List ClientEvent) : StoppedForGood c events := by
  rintro before after rfl hstart
  rw [run_append, run_append, run_cons, run_cons, run_nil]
  have hkept := clientKept_run c before
  exact (hkept.step .stop).stopped_run (stop_era _).2.2 hstart

theorem oneSocket (c : Setup) (events : List ClientEvent) :
    Along (clientStep c) (fun s e => OthersIgnored c s e ∧ NeverDoubled c s e) c.client events :=
  along_of_step (C := fun _ _ => True)
    (fun s e h _ => ⟨⟨othersIgnored c s e, h.neverDoubled e⟩, h.step e⟩) (clientKept_client c)
    (along_true (fun _ _ => trivial) _ _)

/-- The client has one connection, and while it runs it has one or is about to
get one, in exactly the runs where the making of a socket throws only where it
is caught. -/
theorem oneConnection_iff (c : Setup) (events : List ClientEvent) :
    OneConnection c events ↔ Along (clientStep c) (NoThrow c) c.client events := by
  have halive : Throughout (clientStep c) Alive c.client events ↔
      Along (clientStep c) (NoThrow c) c.client events :=
    throughout_iff_along_of (J := ClientKept c) (D := fun _ _ => True) (fun _ e h => h.step e)
      (fun _ _ h _ halive => alive_step_iff h halive) (clientKept_client c)
      (fun hrunning => nomatch hrunning) (along_true (fun _ _ => trivial) _ _)
  exact ⟨fun h => halive.mp h.2.2,
    fun h => ⟨oneSocket c events, stoppedForGood c events, halive.mpr h⟩⟩

/-- The URL has no scheme: the client says that it runs, and nothing will ever
happen. -/
theorem start_threw_dead :
    ¬ OneConnection ⟨js "connect.example/agent/", js "t", fun _ => false⟩ [.start none] := by
  rintro ⟨-, -, -, halive⟩
  rcases halive rfl with hws | ⟨t, ht, -⟩ | hcurrent
  · exact hws rfl
  · exact absurd ht List.not_mem_nil
  · exact hcurrent rfl

end Shizuha.ConnectClient
