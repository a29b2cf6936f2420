import Shizuha.Gateway.DeliveryQueue

/-!
# Recovery and the retry loop

At startup every entry that is waiting is looked at once, and from then on by
each tick of the retry loop. Both scans load the directory and take the entries
in turn, the oldest first; a turn is what the loop finds when it comes to an
entry, the clock and the handlers that are registered.

The two do not pass over the same entries. Recovery passes over those it has no
time for, those that are waiting for their backoff and those whose channel is
not there yet; a tick over the last two and over whatever was never attempted.
-/

namespace Shizuha.Gateway

open Js

/-- What a handler throws, if it throws. -/
abbrev DeliveryHandler := DeliveryEntry → Option Text

structure RetryOptions extends DeliveryQueueOptions where
  backoffMs : List ℤ
  backoffCapMs : ℤ
  staleTtlMs : ℤ
  maxRecoveryMs : ℤ

/-- The clock as a turn reads it, and the handlers. -/
structure Turn where
  budget : ℤ
  stale : ℤ
  backoff : ℤ
  /-- When a failure is recorded. -/
  failure : ℤ
  handlers : Text → Option DeliveryHandler

/-! ## Calls that nothing interrupts -/

def Call.settle (options : DeliveryQueueOptions) (now : ℤ) : ℕ → Disk × Call → Disk × Call
  | 0, s => s
  | n + 1, (disk, call) => settle options now n (call.advance options disk now)

def Disk.settleAck (disk : Disk) (options : RetryOptions) (now : ℤ) (id : Text) : Disk :=
  (Call.settle options.toDeliveryQueueOptions now 2 (disk, .ack id)).1

def Disk.failDelivery (disk : Disk) (options : RetryOptions) (now : ℤ) (id error : Text) : Disk :=
  (Call.settle options.toDeliveryQueueOptions now 6 (disk, .failDelivery id error)).1

def Disk.moveToFailed (disk : Disk) (options : RetryOptions) (now : ℤ) (entry : DeliveryEntry) :
    Disk :=
  (Call.settle options.toDeliveryQueueOptions now 5 (disk, .moveToFailed entry.id entry .write)).1

def Disk.loadPending (disk : Disk) (options : RetryOptions) (now : ℤ) :
    Disk × List DeliveryEntry :=
  match Call.settle options.toDeliveryQueueOptions now (disk.readdir.length + 2)
      (disk, .loadPending) with
  | (disk, .loaded entries) => (disk, entries)
  | (disk, _) => (disk, [])

/-! ## When an entry is due -/

def computeBackoffMs (options : RetryOptions) (retryCount : ℕ) : ℤ :=
  if retryCount = 0 then 0 else (options.backoffMs[retryCount]?).getD options.backoffCapMs

/-- The backoff has not elapsed. An attempt at time 0 counts as none. -/
def DeliveryEntry.waits (options : RetryOptions) (entry : DeliveryEntry) (now : ℤ) : Bool :=
  match entry.lastAttemptAt with
  | none => false
  | some last => last ≠ 0 && now - last < computeBackoffMs options entry.retryCount

def DeliveryEntry.isStale (options : RetryOptions) (entry : DeliveryEntry) (now : ℤ) : Bool :=
  now - entry.enqueuedAt > options.staleTtlMs

/-! ## Recovery -/

/-- What recovery has done so far: the counts it reports, the entries it has
called a handler on, and those it has put off without calling one. -/
structure Recovery where
  disk : Disk
  recovered : ℕ
  failed : ℕ
  deferred : ℕ
  handled : List DeliveryEntry
  putOff : List DeliveryEntry

/-- An attempt, and what comes of it. -/
def Recovery.attempt (options : RetryOptions) (turn : Turn) (r : Recovery) (entry : DeliveryEntry)
    (handler : DeliveryHandler) : Recovery :=
  match handler entry with
  | none =>
      { r with
        disk := r.disk.settleAck options turn.failure entry.id
        recovered := r.recovered + 1
        handled := r.handled ++ [entry] }
  | some error =>
      let disk := r.disk.failDelivery options turn.failure entry.id error
      if entry.retryCount + 1 ≥ options.maxRetries || options.isPermanentError error then
        { r with disk, failed := r.failed + 1, handled := r.handled ++ [entry] }
      else { r with disk, deferred := r.deferred + 1, handled := r.handled ++ [entry] }

/-- The loop over the entries, of which there are `total`; `none` when the time
is over. -/
def Recovery.next (options : RetryOptions) (startTime : ℤ) (turn : Turn) (entry : DeliveryEntry)
    (r : Recovery) : Option Recovery :=
  if turn.budget - startTime > options.maxRecoveryMs then none
  else if entry.isStale options turn.stale then
    some { r with
      disk := r.disk.moveToFailed options turn.failure entry
      failed := r.failed + 1 }
  else if entry.retryCount ≥ options.maxRetries then
    some { r with
      disk := r.disk.moveToFailed options turn.failure entry
      failed := r.failed + 1 }
  else if entry.waits options turn.backoff then
    some { r with deferred := r.deferred + 1, putOff := r.putOff ++ [entry] }
  else
    match turn.handlers entry.channel with
    | none => some { r with deferred := r.deferred + 1, putOff := r.putOff ++ [entry] }
    | some handler => some (r.attempt options turn entry handler)

def recoverEntries (options : RetryOptions) (startTime : ℤ) (turns : ℕ → Turn) (total : ℕ) :
    ℕ → List DeliveryEntry → Recovery → Recovery
  | _, [], r => r
  | i, entry :: entries, r =>
      match r.next options startTime (turns i) entry with
      | none =>
          { r with
            deferred := r.deferred + (total - r.recovered - r.failed - r.deferred)
            putOff := r.putOff ++ entry :: entries }
      | some r => recoverEntries options startTime turns total (i + 1) entries r

def recoverPending (options : RetryOptions) (startTime : ℤ) (turns : ℕ → Turn) (disk : Disk) :
    Recovery :=
  let (disk, entries) := disk.loadPending options startTime
  recoverEntries options startTime turns entries.length 0 entries ⟨disk, 0, 0, 0, [], []⟩

/-! ## The retry loop -/

/-- What a tick has done: the entries it has called a handler on, and those it
has moved to `failed/`. -/
structure Retried where
  disk : Disk
  handled : List DeliveryEntry
  moved : List DeliveryEntry

def Retried.next (options : RetryOptions) (now : ℤ) (turn : Turn) (entry : DeliveryEntry)
    (r : Retried) : Retried :=
  if entry.retryCount = 0 then r
  else if entry.waits options now then r
  else if entry.isStale options now then
    { r with
      disk := r.disk.moveToFailed options turn.failure entry
      moved := r.moved ++ [entry] }
  else
    match turn.handlers entry.channel with
    | none => r
    | some handler =>
        match handler entry with
        | none =>
            { r with
              disk := r.disk.settleAck options turn.failure entry.id
              handled := r.handled ++ [entry] }
        | some error =>
            { r with
              disk := r.disk.failDelivery options turn.failure entry.id error
              handled := r.handled ++ [entry] }

def retryEntries (options : RetryOptions) (now : ℤ) (turns : ℕ → Turn) :
    ℕ → List DeliveryEntry → Retried → Retried
  | _, [], r => r
  | i, entry :: entries, r =>
      retryEntries options now turns (i + 1) entries (r.next options now (turns i) entry)

/-- A tick of the loop. -/
def retryTick (options : RetryOptions) (now : ℤ) (turns : ℕ → Turn) (disk : Disk) : Retried :=
  let (disk, entries) := disk.loadPending options now
  retryEntries options now turns 0 entries ⟨disk, [], []⟩

end Shizuha.Gateway
