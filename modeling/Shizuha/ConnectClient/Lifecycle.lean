import Shizuha.Js.Text
import Mathlib.Data.Nat.Basic

/-!
# The connection of a client

One socket at a time, one timer slot that two schedulers share, and
authentications that come back when they come back. A start or a stop begins a
new generation, and whatever was begun in an older one finds out when it comes
back: an authentication keeps its token to itself, a timer and an event of a
socket do nothing.

Timers fire and authentications end in any order, so the delays are left out.
An authentication is what it is to its caller: the moment it is called, when a
token of the environment may settle it, and the moment it ends. Making a socket
can throw, for the URL or in the constructor; whether it does for a token is a
parameter.
-/

namespace Shizuha.ConnectClient

open Js

structure Setup where
  wsUrl : Text
  token : Text
  /-- Whether the socket of this token can be made. -/
  opens : Text → Bool

abbrev Token := { t : Text // t ≠ [] }

inductive TimerKind where
  | authRetry
  | reconnect
  deriving DecidableEq

structure ReconnectTimer where
  handle : ℕ
  kind : TimerKind
  generation : ℕ

inductive AuthCaller where
  | start
  | authRetry
  | reconnect
  deriving DecidableEq

/-- A call of `selfAuthenticate` that has not come back. -/
structure PendingAuth where
  caller : AuthCaller
  generation : ℕ
  /-- The token of the environment was taken. -/
  settled : Bool

structure Client where
  ws : Option ℕ
  /-- The generation each socket was made in. -/
  sockets : List ℕ
  connectedAt : ℕ
  token : Text
  /-- The handle in the slot. -/
  reconnectTimer : Option ℕ
  /-- The timers that are going to fire. -/
  timers : List ReconnectTimer
  nextHandle : ℕ
  auths : List PendingAuth
  reconnectAttempt : ℕ
  authRetryAttempt : ℕ
  running : Bool
  lifecycleGeneration : ℕ
  forceTokenRefresh : Bool

def Setup.client (c : Setup) : Client where
  ws := none
  sockets := []
  connectedAt := 0
  token := c.token
  reconnectTimer := none
  timers := []
  nextHandle := 0
  auths := []
  reconnectAttempt := 0
  authRetryAttempt := 0
  running := false
  lifecycleGeneration := 0
  forceTokenRefresh := false

def STABLE_CONNECTION_MS : ℕ := 30000

def isAuthCloseCode (code : ℕ) : Bool :=
  code == 4401 || code == 4403 || code == 4001 || code == 4003 || code == 1008

/-- `/Unexpected server response: (401|403|502)/`. -/
def looksLikeAuth (message : Text) : Bool :=
  ["401", "403", "502"].any fun code =>
    includes message (js "Unexpected server response: " ++ js code)

/-! ## The timer slot -/

def Client.clearReconnectTimer (s : Client) : Client :=
  match s.reconnectTimer with
  | none => s
  | some h =>
      { s with reconnectTimer := none, timers := s.timers.filter fun t => t.handle ≠ h }

def Client.arm (s : Client) (kind : TimerKind) : Client :=
  { s with
    reconnectTimer := some s.nextHandle
    timers := s.timers ++ [⟨s.nextHandle, kind, s.lifecycleGeneration⟩]
    nextHandle := s.nextHandle + 1 }

/-- The slot is free and there is something to do. -/
def Client.maySchedule (s : Client) : Bool :=
  s.running && s.reconnectTimer.isNone && s.ws.isNone

def Client.scheduleAuthRetry (s : Client) : Client :=
  if s.maySchedule then
    { s with authRetryAttempt := s.authRetryAttempt + 1 }.arm .authRetry
  else s

def Client.scheduleReconnect (s : Client) : Client :=
  if s.maySchedule then
    { s with reconnectAttempt := s.reconnectAttempt + 1 }.arm .reconnect
  else s

/-! ## Sockets and authentications -/

/-- The client, and whether the call threw. -/
def Client.connect (c : Setup) (s : Client) : Client × Bool :=
  if s.running = false ∨ s.token = [] ∨ c.wsUrl = [] ∨ s.ws ≠ none then (s, false)
  else
    let s := s.clearReconnectTimer
    if c.opens s.token then
      ({ s with
        ws := some s.sockets.length
        sockets := s.sockets ++ [s.lifecycleGeneration] }, false)
    else (s, true)

/-- The call, up to its first wait. -/
def Client.selfAuthenticate (s : Client) (caller : AuthCaller) (environment : Option Token) :
    Client :=
  match environment with
  | some t =>
      if s.forceTokenRefresh then
        { s with auths := s.auths ++ [⟨caller, s.lifecycleGeneration, false⟩] }
      else
        { s with
          token := t.val
          auths := s.auths ++ [⟨caller, s.lifecycleGeneration, true⟩] }
  | none => { s with auths := s.auths ++ [⟨caller, s.lifecycleGeneration, false⟩] }

/-- The end of the call: a token is kept when the generation is still the same. -/
def Client.settle (s : Client) (a : PendingAuth) (result : Option Token) : Client :=
  match result with
  | some t =>
      if a.settled = false ∧ a.generation = s.lifecycleGeneration then
        { s with token := t.val, forceTokenRefresh := false }
      else s
  | none => s

/-- What the caller does next. The two schedulers catch what `connect` throws,
`start` does not. -/
def Client.resume (c : Setup) (s : Client) (a : PendingAuth) (brokerExpected : Bool) : Client :=
  if s.running = false ∨ a.generation ≠ s.lifecycleGeneration then s
  else
    match a.caller with
    | .start =>
        if s.token = [] then
          if brokerExpected then s.scheduleAuthRetry else { s with running := false }
        else (s.connect c).1
    | .authRetry =>
        if s.token = [] then s.scheduleAuthRetry
        else
          match ({ s with authRetryAttempt := 0 } : Client).connect c with
          | (s, true) => s.scheduleAuthRetry
          | (s, false) => s
    | .reconnect =>
        if s.token = [] then s.scheduleReconnect
        else
          match s.connect c with
          | (s, true) => s.scheduleReconnect
          | (s, false) => s

/-! ## Events -/

inductive ClientEvent where
  /-- With the token of the environment, when it is set and has not expired. -/
  | start (environment : Option Token)
  | stop
  | socketOpen (socket now : ℕ)
  | socketMessage (socket : ℕ)
  | socketError (socket : ℕ) (message : Text)
  | socketClose (socket code now : ℕ)
  | timer (handle : ℕ) (environment : Option Token)
  | authEnd (index : ℕ) (result : Option Token) (brokerExpected : Bool)

def Client.start (c : Setup) (s : Client) (environment : Option Token) : Client :=
  if s.running then s
  else
    let s := { s with running := true, lifecycleGeneration := s.lifecycleGeneration + 1 }
    if c.wsUrl = [] then { s with running := false }
    else if s.token = [] then s.selfAuthenticate .start environment
    else (s.connect c).1

def Client.stop (s : Client) : Client :=
  { s with running := false, lifecycleGeneration := s.lifecycleGeneration + 1 }.clearReconnectTimer
    |> fun s => { s with ws := none, connectedAt := 0 }

def Client.ownsSocket (s : Client) (socket : ℕ) : Bool :=
  s.running && decide (s.sockets[socket]? = some s.lifecycleGeneration ∧ s.ws = some socket)

def Client.handleSocketClose (s : Client) (code now : ℕ) : Client :=
  let lifetime := if s.connectedAt = 0 then 0 else now - s.connectedAt
  let s := { s with ws := none, connectedAt := 0 }
  let s :=
    if isAuthCloseCode code then { s with forceTokenRefresh := true, token := [] }
    else if STABLE_CONNECTION_MS ≤ lifetime then { s with reconnectAttempt := 0 }
    else s
  if s.running then s.scheduleReconnect else s

/-- What a timer was armed for. -/
def Client.retry (c : Setup) (s : Client) (kind : TimerKind) (environment : Option Token) :
    Client :=
  match kind with
  | .authRetry => s.selfAuthenticate .authRetry environment
  | .reconnect =>
      if s.forceTokenRefresh = true ∨ 3 < s.reconnectAttempt then
        s.selfAuthenticate .reconnect environment
      else (s.connect c).1

/-- The callback of a timer, whose slot it frees. -/
def Client.fire (c : Setup) (s : Client) (t : ReconnectTimer) (environment : Option Token) :
    Client :=
  if s.running = false ∨ t.generation ≠ s.lifecycleGeneration then s
  else ({ s with reconnectTimer := none } : Client).retry c t.kind environment

def clientStep (c : Setup) (s : Client) : ClientEvent → Client
  | .start environment => s.start c environment
  | .stop => s.stop
  | .socketOpen socket now => if s.ownsSocket socket then { s with connectedAt := now } else s
  | .socketMessage _ => s
  | .socketError socket message =>
      if s.ownsSocket socket && looksLikeAuth message then
        { s with forceTokenRefresh := true, token := [] }
      else s
  | .socketClose socket code now =>
      if s.ownsSocket socket then s.handleSocketClose code now else s
  | .timer handle environment =>
      match s.timers.find? fun t => t.handle = handle with
      | none => s
      | some t =>
          { s with timers := s.timers.filter fun t => t.handle ≠ handle }.fire c t environment
  | .authEnd index result brokerExpected =>
      match s.auths[index]? with
      | none => s
      | some a =>
          (({ s with auths := s.auths.eraseIdx index } : Client).settle a result).resume c a
            brokerExpected

end Shizuha.ConnectClient
