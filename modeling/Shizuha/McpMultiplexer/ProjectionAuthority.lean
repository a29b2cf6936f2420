import Shizuha.McpMultiplexer.Projection
import Shizuha.Machine

/-!
# The authority that holds a projection

`start`, `stop` and `refresh` overlap across waits, and what keeps them apart
is a lifecycle number: a suspended call that comes back in another lifecycle
than its own does nothing. A refresh is shared by everyone who asks while it is
in flight, and it stays in flight until the call that made it has seen it
settle, so there is never a second one.

The machine has a step for each thing that can happen between two waits. The
monotonic clock is part of the state and only goes forward; the wall clock is
read with the response and promises nothing. What `randomBytes` gives is the
nonce of the step.
-/

namespace Shizuha.McpMultiplexer

open Js

/-- Where the highest generation is kept. `mark` is what the medium vouches
for: a load never answers less, and a store takes it no lower than the
generation stored. A fault is what may go wrong with one call. -/
structure HighWater where
  Medium : Type
  Fault : Type
  load : Medium → Fault → Except Text ℤ
  store : Medium → ℤ → Fault → Medium × Except Text Unit
  mark : Medium → ℤ
  mark_le_load : ∀ m fault g, load m fault = .ok g → mark m ≤ g
  mark_store : ∀ m g fault, min (mark m) g ≤ mark (store m g fault).1
  mark_stored : ∀ m g fault, (store m g fault).2 = .ok () → g ≤ mark (store m g fault).1

/-! ## The high-water file -/

inductive FileFault where
  | none
  /-- The file could not be read, or the new one not be written or moved. -/
  | failed (message : Text)
  /-- The new file is in place, and its mode could not be set. -/
  | moved (message : Text)

/-- The generation in the file, -1 when there is none. -/
def loadProjectionHighWater (file : Option ℤ) : FileFault → Except Text ℤ
  | .none => .ok (file.getD (-1))
  | .failed message | .moved message => .error message

def storeProjectionHighWater (file : Option ℤ) (generation : ℤ) (fault : FileFault) :
    Option ℤ × Except Text Unit :=
  if isSafeInteger generation && decide (0 ≤ generation) then
    match fault with
    | .none => (some generation, .ok ())
    | .failed message => (file, .error message)
    | .moved message => (some generation, .error message)
  else (file, reject (js "projection high-water generation invalid"))

def highWaterFile : HighWater where
  Medium := Option ℤ
  Fault := FileFault
  load := loadProjectionHighWater
  store := storeProjectionHighWater
  mark := fun file => file.getD (-1)
  mark_le_load := by
    intro file fault g h
    cases fault with
    | none =>
        cases h
        exact le_refl _
    | failed | moved => cases h
  mark_store := by
    intro file g fault
    unfold storeProjectionHighWater
    split_ifs
    · cases fault with
      | none | moved => exact min_le_right _ _
      | failed => exact min_le_left _ _
    · exact min_le_left _ _
  mark_stored := by
    intro file g fault h
    unfold storeProjectionHighWater at h ⊢
    split_ifs at h ⊢
    · cases fault with
      | none => exact le_refl _
      | failed | moved => cases h
    · cases h

/-! ## The state -/

inductive ProjectionAuthorityState where
  | verified
  | expired
  | fenced
  | unverified
  deriving DecidableEq

structure ProjectionAuthoritySnapshot where
  state : ProjectionAuthorityState
  reason : Text
  verified : Option VerifiedMcpProjection

/-- A `doRefresh` whose promise is in flight: settled once its response has
been dealt with. -/
structure RefreshWork where
  number : ℕ
  lifecycle : ℕ
  nonce : Bytes
  settled : Bool

structure ProjectionOptions where
  agentAudience : Text
  pinnedKeyringJson : Text
  sSlowMs : Option ℚ
  refreshMarginMs : Option ℚ

structure ProjectionAuthority (hw : HighWater) where
  snapshotValue : ProjectionAuthoritySnapshot
  highestGeneration : ℤ
  /-- The delay of the armed timer. -/
  refreshTimer : Option ℚ
  refreshInFlight : Option RefreshWork
  stopped : Bool
  lifecycle : ℕ
  highWaterLoaded : Bool
  /-- The `start` calls that wait for a refresh of an earlier lifecycle: their
  own lifecycle, and the number of the refresh. -/
  starting : List (ℕ × ℕ)
  nextRefresh : ℕ
  medium : hw.Medium
  mono : ℚ

/-- A call of the high-water functions that returned. -/
inductive HighWaterCall where
  | loaded (generation : ℤ)
  | stored (generation : ℤ)

namespace ProjectionAuthority

variable {hw : HighWater} (a : ProjectionAuthority hw)

def clear (state : ProjectionAuthorityState) (reason : Text) : ProjectionAuthority hw :=
  { a with snapshotValue := ⟨state, reason, none⟩ }

def snapshot : ProjectionAuthority hw :=
  match a.snapshotValue.verified with
  | some verified =>
      if verified.monoDeadlineMs ≤ a.mono then a.clear .expired (js "monotonic_deadline_elapsed")
      else a
  | none => a

/-- Whether `isAllowed` answers true. It leaves `a.snapshot` behind. -/
def isAllowed (service : Text) : Bool :=
  let current := a.snapshot.snapshotValue
  current.state = .verified &&
    (match current.verified with
      | some verified => decide (service ∈ verified.allowedServices)
      | none => false)

/-- Up to the wait for the response. -/
def doRefresh (nonce : Bytes) : ProjectionAuthority hw :=
  let work : RefreshWork := ⟨a.nextRefresh, a.lifecycle, nonce, false⟩
  if a.stopped || !a.highWaterLoaded then
    { a with refreshInFlight := some { work with settled := true }
             nextRefresh := a.nextRefresh + 1 }
  else
    { a with refreshInFlight := some work
             nextRefresh := a.nextRefresh + 1
             refreshTimer := none }

def refresh (nonce : Bytes) : ProjectionAuthority hw :=
  match a.refreshInFlight with
  | some _ => a
  | none => a.doRefresh nonce

/-- `start` from where it has waited. -/
def launch (lifecycle : ℕ) (fault : hw.Fault) (nonce : Bytes) :
    ProjectionAuthority hw × List HighWaterCall :=
  if a.stopped || lifecycle != a.lifecycle then (a, [])
  else
    match hw.load a.medium fault with
    | .error message => (a.clear .fenced message, [])
    | .ok generation =>
        (refresh { a with highestGeneration := generation, highWaterLoaded := true } nonce,
          [.loaded generation])

def start (fault : hw.Fault) (nonce : Bytes) : ProjectionAuthority hw × List HighWaterCall :=
  let a := clear { a with
    lifecycle := a.lifecycle + 1, stopped := false, highWaterLoaded := false
    refreshTimer := none } .unverified (js "starting")
  match a.refreshInFlight with
  | none => a.launch a.lifecycle fault nonce
  | some work => ({ a with starting := a.starting ++ [(a.lifecycle, work.number)] }, [])

/-- A refresh is over for those who wait for it. -/
def awaits (number : ℕ) : Bool :=
  match a.refreshInFlight with
  | some work => work.number = number && !work.settled
  | none => false

def stop : ProjectionAuthority hw :=
  clear { a with
    stopped := true, lifecycle := a.lifecycle + 1, highWaterLoaded := false
    refreshTimer := none } .fenced (js "authority_stopped")

/-- The `finally` of a refresh in its own lifecycle. -/
def rearm (delay : ℚ) : ProjectionAuthority hw :=
  if a.highWaterLoaded then { a with refreshTimer := some delay } else a

/-- A refresh that threw in its own lifecycle. -/
def refused (options : ProjectionOptions) (message : Text) : ProjectionAuthority hw :=
  (a.clear .fenced message).rearm (max 1 (options.refreshMarginMs.getD refreshMarginMs))

def accept (options : ProjectionOptions) (verified : VerifiedMcpProjection) :
    ProjectionAuthority hw :=
  let left := verified.monoDeadlineMs - a.mono
  let margin := max 1 (min (left - 1) (options.refreshMarginMs.getD refreshMarginMs))
  rearm { a with snapshotValue := ⟨.verified, js "ok", some verified⟩ } (max 1 (left - margin))

/-- A response whose envelope verifies. -/
def settle (options : ProjectionOptions) (verified : VerifiedMcpProjection) (fault : hw.Fault) :
    ProjectionAuthority hw × List HighWaterCall :=
  let generation := verified.claims.generation
  if generation < a.highestGeneration then
    (a.refused options (js "mcp_projection_invalid: generation rollback"), [])
  else if a.highestGeneration < generation then
    let (medium, stored) := hw.store a.medium generation fault
    match stored with
    | .error message => (refused { a with medium := medium } options message, [])
    | .ok () =>
        (accept { a with medium := medium, highestGeneration := generation } options verified,
          [.stored generation])
  else (a.accept options verified, [])

/-- `doRefresh` from its response on. -/
def respond (crypto : Crypto) (options : ProjectionOptions) (work : RefreshWork)
    (response : Except Text RawEnvelope) (wallNowMs : ℚ) (fault : hw.Fault) :
    ProjectionAuthority hw × List HighWaterCall :=
  if a.stopped || work.lifecycle != a.lifecycle then (a, [])
  else
    match response with
    | .error message => (a.refused options message, [])
    | .ok raw =>
        match verifyMcpProjectionEnvelope crypto raw work.nonce options.agentAudience
            options.pinnedKeyringJson options.sSlowMs wallNowMs a.mono with
        | .error message => (a.refused options message, [])
        | .ok verified => a.settle options verified fault

end ProjectionAuthority

/-! ## Steps -/

inductive ProjectionEvent (hw : HighWater) where
  | start (fault : hw.Fault) (nonce : Bytes)
  /-- A `start` that waited for a refresh goes on. -/
  | startResumes (lifecycle number : ℕ) (fault : hw.Fault) (nonce : Bytes)
  | stop
  | refresh (nonce : Bytes)
  | timerFires (nonce : Bytes)
  /-- The fetch of the refresh in flight settles. -/
  | response (result : Except Text RawEnvelope) (wallNowMs : ℚ) (fault : hw.Fault)
  /-- The call that made the refresh in flight sees it settled. -/
  | refreshSeen
  | snapshot
  | isAllowed (service : Text)
  | tick (elapsed : NNRat)

namespace ProjectionAuthority

variable {hw : HighWater}

def advance (crypto : Crypto) (options : ProjectionOptions) (a : ProjectionAuthority hw) :
    ProjectionEvent hw → ProjectionAuthority hw × List HighWaterCall
  | .start fault nonce => a.start fault nonce
  | .startResumes lifecycle number fault nonce =>
      if (lifecycle, number) ∈ a.starting ∧ a.awaits number = false then
        launch { a with starting := a.starting.erase (lifecycle, number) } lifecycle fault nonce
      else (a, [])
  | .stop => (a.stop, [])
  | .refresh nonce => (a.refresh nonce, [])
  | .timerFires nonce =>
      if a.refreshTimer.isSome then (refresh { a with refreshTimer := none } nonce, [])
      else (a, [])
  | .response result wallNowMs fault =>
      match a.refreshInFlight with
      | some work =>
          if work.settled then (a, [])
          else
            respond { a with refreshInFlight := some { work with settled := true } } crypto options
              work result wallNowMs fault
      | none => (a, [])
  | .refreshSeen =>
      match a.refreshInFlight with
      | some work => if work.settled then ({ a with refreshInFlight := none }, []) else (a, [])
      | none => (a, [])
  | .snapshot | .isAllowed _ => (a.snapshot, [])
  | .tick elapsed => ({ a with mono := a.mono + elapsed }, [])

def init (medium : hw.Medium) (mono : ℚ) : ProjectionAuthority hw where
  snapshotValue := ⟨.unverified, js "not_started", none⟩
  highestGeneration := -1
  refreshTimer := none
  refreshInFlight := none
  stopped := false
  lifecycle := 0
  highWaterLoaded := false
  starting := []
  nextRefresh := 0
  medium := medium
  mono := mono

end ProjectionAuthority

end Shizuha.McpMultiplexer
