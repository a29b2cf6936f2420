import Shizuha.Js.Json
import Shizuha.Table

/-!
# The delivery queue

Outbound messages wait as files, one for each, until their channel has sent
them. Nothing holds a lock: the retry loop starts a tick whether or not the
last one is still sending, recovery runs beside it, and the channel that
enqueued a message acknowledges it on its own. So a call is modelled as what
it is between two steps of the file system, a program counter with the data it
holds, and the machine lets any call that is under way take its next step.

A file's content is the entry it is the JSON of. An id is a uuid, so the
files of two entries never share a name.
-/

namespace Shizuha.Gateway

open Js

structure DeliveryEntry where
  id : Text
  channel : Text
  /-- `to` in the file. -/
  recipient : Text
  payload : Json
  enqueuedAt : ℤ
  retryCount : ℕ
  lastAttemptAt : Option ℤ
  lastError : Option Text

/-- The files of one entry in the queue directory, and the one in `failed/`. -/
inductive QueueFile where
  | json (id : Text)
  | delivered (id : Text)
  | tmp (id : Text)
  | movingTmp (id : Text)
  | failed (id : Text)
  deriving DecidableEq

def QueueFile.entryId : QueueFile → Text
  | .json id => id
  | .delivered id => id
  | .tmp id => id
  | .movingTmp id => id
  | .failed id => id

structure DeliveryQueueOptions where
  maxRetries : ℕ
  toLowerCase : Text → Text

/-- Patterns of errors that are not retried. -/
def permanentErrorPatterns : List Text :=
  [js "user not found", js "chat not found", js "bot was blocked", js "bot was kicked",
    js "chat_id is empty", js "recipient is not valid", js "invalid phone number",
    js "number is not registered", js "outbound not configured", js "message is too long",
    js "403", js "deregistered"]

def DeliveryQueueOptions.isPermanentError (options : DeliveryQueueOptions) (error : Text) : Bool :=
  permanentErrorPatterns.any fun p => includes (options.toLowerCase error) p

/-! ## Steps of the file system -/

abbrev Disk := Table QueueFile (QueueFile × DeliveryEntry) Prod.fst

def Disk.read (disk : Disk) (file : QueueFile) : Option DeliveryEntry :=
  (disk.get file).map Prod.snd

def Disk.write (disk : Disk) (file : QueueFile) (entry : DeliveryEntry) : Disk :=
  disk.upsert (file, entry) (fun old => (old.1, entry)) fun _ => rfl

def Disk.unlink (disk : Disk) (file : QueueFile) : Disk := disk.delete fun f => f.1 = file

/-- A rename takes the place of what was there; it fails when there is nothing
to rename. -/
def Disk.rename (disk : Disk) (source target : QueueFile) : Option Disk :=
  (disk.read source).map fun entry => (disk.unlink source).write target entry

/-- The files of the queue directory itself. -/
def Disk.readdir (disk : Disk) : List QueueFile :=
  (disk.rows.map Prod.fst).filter fun f =>
    match f with
    | .failed _ => false
    | _ => true

section

variable {disk disk' : Disk} {file other source target : QueueFile} {entry : DeliveryEntry}

@[simp] theorem read_write : (disk.write file entry).read other =
    if other = file then some entry else disk.read other := by
  rw [Disk.read, Disk.write, Table.get_upsert]
  split_ifs
  · cases disk.get file <;> rfl
  · rfl

@[simp] theorem read_unlink :
    (disk.unlink file).read other = if other = file then none else disk.read other := by
  rw [Disk.read, Disk.unlink]
  split_ifs with h
  · rw [Table.get_delete_self fun r hr => decide_eq_true (hr.trans h)]
    rfl
  · rw [Table.get_delete_ne fun r hr => decide_eq_false fun hr' => h (hr.symm.trans hr')]
    rfl

theorem read_rename (h : disk.rename source target = some disk') :
    ∃ entry, disk.read source = some entry ∧ ∀ file, disk'.read file =
      if file = target then some entry else if file = source then none else disk.read file := by
  rw [Disk.rename] at h
  obtain ⟨entry, hentry, rfl⟩ := Option.map_eq_some_iff.mp h
  exact ⟨entry, hentry, fun file => by rw [read_write, read_unlink]⟩

theorem mem_readdir (h : file ∈ disk.readdir) : (disk.read file).isSome = true := by
  obtain ⟨f, hf, rfl⟩ := List.mem_map.mp (List.mem_filter.mp h).1
  rw [Disk.read, Table.get_eq_some_iff.mpr ⟨hf, rfl⟩]
  rfl

end

/-! ## Calls under way -/

inductive MoveStep where
  | write
  | renameTmp
  | renameFailed
  | writeFailed
  | unlinkSource

inductive Call where
  | ack (id : Text)
  | ackUnlink (id : Text)
  /-- Whether it was this call that renamed the entry. -/
  | acked (id : Text) (renamed : Bool)
  | failDelivery (id error : Text)
  | retryWrite (id : Text) (entry : DeliveryEntry)
  | retryRename (id : Text)
  | moveToFailed (id : Text) (entry : DeliveryEntry) (pc : MoveStep)
  | loadPending
  | loading (files : List QueueFile) (entries : List DeliveryEntry)
  | loadUnlink (file : QueueFile) (files : List QueueFile) (entries : List DeliveryEntry)
  | loaded (entries : List DeliveryEntry)
  | done

/-- What `failDelivery` makes of the entry it has read. -/
def DeliveryEntry.failedAttempt (entry : DeliveryEntry) (error : Text) (now : ℤ) : DeliveryEntry :=
  { entry with
    retryCount := entry.retryCount + 1, lastAttemptAt := some now, lastError := some error }

def oldestFirst (entries : List DeliveryEntry) : List DeliveryEntry :=
  entries.insertionSort fun a b => a.enqueuedAt ≤ b.enqueuedAt

/-- The next step of a call, with the time it reads. -/
def Call.advance (options : DeliveryQueueOptions) (disk : Disk) (now : ℤ) : Call → Disk × Call
  | .ack id =>
      match disk.rename (.json id) (.delivered id) with
      | none => (disk, .acked id false)
      | some disk => (disk, .ackUnlink id)
  | .ackUnlink id => (disk.unlink (.delivered id), .acked id true)
  | .failDelivery id error =>
      match disk.read (.json id) with
      | none => (disk, .done)
      | some entry =>
          let entry := entry.failedAttempt error now
          if entry.retryCount ≥ options.maxRetries || options.isPermanentError error then
            (disk, .moveToFailed id entry .write)
          else (disk, .retryWrite id entry)
  | .retryWrite id entry => (disk.write (.tmp id) entry, .retryRename id)
  | .retryRename id =>
      match disk.rename (.tmp id) (.json id) with
      | none => (disk, .done)
      | some disk => (disk, .done)
  | .moveToFailed id entry .write =>
      (disk.write (.movingTmp id) entry, .moveToFailed id entry .renameTmp)
  | .moveToFailed id entry .renameTmp =>
      match disk.rename (.movingTmp id) (.json id) with
      | none => (disk, .moveToFailed id entry .writeFailed)
      | some disk => (disk, .moveToFailed id entry .renameFailed)
  | .moveToFailed id entry .renameFailed =>
      match disk.rename (.json id) (.failed id) with
      | none => (disk, .moveToFailed id entry .writeFailed)
      | some disk => (disk, .done)
  | .moveToFailed id entry .writeFailed =>
      (disk.write (.failed id) entry, .moveToFailed id entry .unlinkSource)
  | .moveToFailed id _ .unlinkSource => (disk.unlink (.json id), .done)
  | .loadPending => (disk, .loading disk.readdir [])
  | .loading [] entries => (disk, .loaded (oldestFirst entries))
  | .loading (.delivered id :: files) entries =>
      (disk.unlink (.delivered id), .loading files entries)
  | .loading (.json id :: files) entries =>
      match disk.read (.json id) with
      | none => (disk, .loadUnlink (.json id) files entries)
      | some entry => (disk, .loading files (entries ++ [entry]))
  | .loading (.tmp _ :: files) entries => (disk, .loading files entries)
  | .loading (.movingTmp _ :: files) entries => (disk, .loading files entries)
  | .loading (.failed _ :: files) entries => (disk, .loading files entries)
  | .loadUnlink file files entries => (disk.unlink file, .loading files entries)
  | .acked id renamed => (disk, .acked id renamed)
  | .loaded entries => (disk, .loaded entries)
  | .done => (disk, .done)

/-! ## The machine -/

/-- The calls of the queue, as its users make them: `moveToFailed` comes from a
loop that holds an entry it loaded. -/
inductive Request where
  | ack (id : Text)
  | failDelivery (id error : Text)
  | moveToFailed (entry : DeliveryEntry)
  | loadPending

def Request.call : Request → Call
  | .ack id => .ack id
  | .failDelivery id error => .failDelivery id error
  | .moveToFailed entry => .moveToFailed entry.id entry .write
  | .loadPending => .loadPending

structure DeliveryQueue where
  disk : Disk
  /-- Every call made so far, in the order they were made. -/
  calls : List Call

inductive QueueAction where
  | request (r : Request)
  | advance (k : ℕ) (now : ℤ)

def queueStep (options : DeliveryQueueOptions) (q : DeliveryQueue) : QueueAction → DeliveryQueue
  | .request r => { q with calls := q.calls ++ [r.call] }
  | .advance k now =>
      match q.calls[k]? with
      | none => q
      | some call =>
          let (disk, call) := call.advance options q.disk now
          ⟨disk, q.calls.set k call⟩

end Shizuha.Gateway
