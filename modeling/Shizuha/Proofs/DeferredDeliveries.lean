import Shizuha.Gateway.DeliveryRecovery
import Shizuha.Proofs.DeliveredOnce

/-!
# Entries that recovery has put off

An entry recovery puts off is left as it was, for the retry loop to come back
to. A tick that finds it due, with a handler for its channel, calls the handler
or gives the entry up, unless it was never attempted: such an entry is passed
over by every tick, and stays where it is until the next startup.

A scan takes its entries from the directory as it was when it was loaded, and a
turn touches the files of its own entry alone (`Touches`), so an entry that no
turn has taken is still there at the end.
-/

namespace Shizuha.Gateway

open Js

variable {options : RetryOptions} {plain : DeliveryQueueOptions} {disk disk' : Disk}
  {now startTime : ℤ} {turn : Turn} {turns : ℕ → Turn} {id : Text} {call : Call}
  {e entry : DeliveryEntry} {entries : List DeliveryEntry} {i total : ℕ}

/-- Every file is of the entry its name says. -/
def FilesNamed (disk : Disk) : Prop :=
  ∀ file entry, disk.read file = some entry → entry.id = file.entryId

/-- The states of the queue, over restarts that may come at any step. -/
inductive ReachableQueue (options : DeliveryQueueOptions) : DeliveryQueue → Prop where
  | start : ReachableQueue options ⟨Table.empty, []⟩
  | enqueueWrite {q : DeliveryQueue} (id channel recipient : Text) (payload : Json)
      (enqueuedAt : ℤ) :
      ReachableQueue options q → ReachableQueue options
        ⟨q.disk.write (.tmp id) ⟨id, channel, recipient, payload, enqueuedAt, 0, none, none⟩,
          q.calls⟩
  | enqueueRename {q : DeliveryQueue} {disk : Disk} (id : Text) :
      ReachableQueue options q → q.disk.rename (.tmp id) (.json id) = some disk →
        ReachableQueue options ⟨disk, q.calls⟩
  | step {q : DeliveryQueue} (action : QueueAction) :
      ReachableQueue options q → ReachableQueue options (queueStep options q action)
  | restart {q : DeliveryQueue} : ReachableQueue options q → ReachableQueue options ⟨q.disk, []⟩

theorem named_queueStep {q : DeliveryQueue} (h : Named q) (action : QueueAction) :
    Named (queueStep plain q action) := by
  cases action with
  | request r =>
      refine ⟨h.files, fun call hcall => ?_⟩
      rcases List.mem_append.mp hcall with hcall | hcall
      · exact h.calls call hcall
      · rw [List.mem_singleton.mp hcall]
        cases r <;> trivial
  | advance k now =>
      rw [queueStep]
      cases hk : q.calls[k]? with
      | none => exact h
      | some call =>
          have hadvanced := @named_advance plain q.disk now call h.files
            (h.calls call (List.mem_of_getElem? hk))
          refine ⟨hadvanced.1, fun c hc => ?_⟩
          rcases List.mem_or_eq_of_mem_set hc with hc | rfl
          · exact h.calls c hc
          · exact hadvanced.2

theorem ReachableQueue.named {q : DeliveryQueue} (h : ReachableQueue plain q) : Named q := by
  induction h with
  | start =>
      refine ⟨fun file entry hread => ?_, fun call hcall => absurd hcall List.not_mem_nil⟩
      cases hread
  | enqueueWrite id channel recipient payload enqueuedAt _ ih =>
      exact ⟨named_write ih.files rfl, ih.calls⟩
  | enqueueRename id _ hrename ih => exact ⟨named_rename ih.files hrename rfl, ih.calls⟩
  | step action _ ih => exact named_queueStep ih action
  | restart _ ih => exact ⟨ih.files, fun call hcall => absurd hcall List.not_mem_nil⟩

theorem ReachableQueue.run {q : DeliveryQueue} (h : ReachableQueue plain q)
    (actions : List QueueAction) :
    ReachableQueue plain (Machine.run (queueStep plain) q actions) := by
  induction actions generalizing q with
  | nil => exact h
  | cons action actions ih => exact ih (h.step action)

/-! ## Calls that nothing interrupts -/

/-- The call works on the files of one entry. -/
def Call.About (id : Text) : Call → Prop
  | .ack id' | .ackUnlink id' | .failDelivery id' _ | .retryWrite id' _ | .retryRename id'
  | .moveToFailed id' _ _ => id' = id
  | .acked _ _ | .done => True
  | .loadPending | .loading _ _ | .loadUnlink _ _ _ | .loaded _ => False

/-- Only the files of one entry differ, and the files have their names still. -/
structure Touches (id : Text) (disk disk' : Disk) : Prop where
  others : ∀ file, file.entryId ≠ id → disk'.read file = disk.read file
  named : FilesNamed disk → FilesNamed disk'

theorem Touches.refl (id : Text) (disk : Disk) : Touches id disk disk :=
  ⟨fun _ _ => rfl, fun h => h⟩

theorem Touches.trans {disk'' : Disk} (h : Touches id disk disk') (h' : Touches id disk' disk'') :
    Touches id disk disk'' :=
  ⟨fun file hfile => (h'.others file hfile).trans (h.others file hfile),
    fun hnamed => h'.named (h.named hnamed)⟩

theorem touches_write {file : QueueFile} (hfile : file.entryId = id) :
    ∀ other : QueueFile, other.entryId ≠ id → (disk.write file entry).read other =
      disk.read other := by
  intro other hother
  rw [read_write, if_neg]
  exact fun heq => hother (heq ▸ hfile)

theorem touches_unlink {file : QueueFile} (hfile : file.entryId = id) :
    ∀ other : QueueFile, other.entryId ≠ id → (disk.unlink file).read other = disk.read other := by
  intro other hother
  rw [read_unlink, if_neg]
  exact fun heq => hother (heq ▸ hfile)

theorem touches_rename {source target : QueueFile} (h : disk.rename source target = some disk')
    (hsource : source.entryId = id) (htarget : target.entryId = id) :
    ∀ other : QueueFile, other.entryId ≠ id → disk'.read other = disk.read other := by
  intro other hother
  obtain ⟨entry, -, hread⟩ := read_rename h
  have hne : other ≠ source ∧ other ≠ target :=
    ⟨fun heq => hother (heq ▸ hsource), fun heq => hother (heq ▸ htarget)⟩
  rw [hread, if_neg hne.2, if_neg hne.1]

theorem about_advance (h : call.About id) :
    (call.advance plain disk now).2.About id ∧
      ∀ file : QueueFile, file.entryId ≠ id →
        (call.advance plain disk now).1.read file = disk.read file := by
  cases call with
  | ack id' =>
      cases h
      rw [Call.advance]
      cases hrename : disk.rename (.json id) (.delivered id) with
      | none => exact ⟨trivial, fun _ _ => rfl⟩
      | some disk' => exact ⟨rfl, touches_rename hrename rfl rfl⟩
  | ackUnlink id' =>
      cases h
      exact ⟨trivial, touches_unlink rfl⟩
  | failDelivery id' error =>
      cases h
      rw [Call.advance]
      cases disk.read (.json id) with
      | none => exact ⟨trivial, fun _ _ => rfl⟩
      | some entry =>
          dsimp only
          split_ifs
          · exact ⟨rfl, fun _ _ => rfl⟩
          · exact ⟨rfl, fun _ _ => rfl⟩
  | retryWrite id' entry =>
      cases h
      exact ⟨rfl, touches_write rfl⟩
  | retryRename id' =>
      cases h
      rw [Call.advance]
      cases hrename : disk.rename (.tmp id) (.json id) with
      | none => exact ⟨trivial, fun _ _ => rfl⟩
      | some disk' => exact ⟨trivial, touches_rename hrename rfl rfl⟩
  | moveToFailed id' entry pc =>
      cases h
      cases pc with
      | write => exact ⟨rfl, touches_write rfl⟩
      | renameTmp =>
          rw [Call.advance]
          cases hrename : disk.rename (.movingTmp id) (.json id) with
          | none => exact ⟨rfl, fun _ _ => rfl⟩
          | some disk' => exact ⟨rfl, touches_rename hrename rfl rfl⟩
      | renameFailed =>
          rw [Call.advance]
          cases hrename : disk.rename (.json id) (.failed id) with
          | none => exact ⟨rfl, fun _ _ => rfl⟩
          | some disk' => exact ⟨trivial, touches_rename hrename rfl rfl⟩
      | writeFailed => exact ⟨rfl, touches_write rfl⟩
      | unlinkSource => exact ⟨trivial, touches_unlink rfl⟩
  | acked id' renamed => exact ⟨trivial, fun _ _ => rfl⟩
  | done => exact ⟨trivial, fun _ _ => rfl⟩
  | loadPending => exact h.elim
  | loading files entries => exact h.elim
  | loadUnlink file files entries => exact h.elim
  | loaded entries => exact h.elim

theorem others_settle {n : ℕ} (h : call.About id) {file : QueueFile} (hfile : file.entryId ≠ id) :
    (Call.settle plain now n (disk, call)).1.read file = disk.read file := by
  induction n generalizing disk call with
  | zero => rfl
  | succ n ih =>
      obtain ⟨habout, hothers⟩ := @about_advance plain disk now id call h
      rw [Call.settle]
      exact (ih habout).trans (hothers file hfile)

theorem named_settle {n : ℕ} (hfiles : FilesNamed disk) (hcall : call.Named) :
    FilesNamed (Call.settle plain now n (disk, call)).1 := by
  induction n generalizing disk call with
  | zero => exact hfiles
  | succ n ih =>
      obtain ⟨hfiles', hcall'⟩ := @named_advance plain disk now call hfiles hcall
      rw [Call.settle]
      exact ih hfiles' hcall'

theorem touches_settle {n : ℕ} (habout : call.About id) (hnamed : call.Named) :
    Touches id disk (Call.settle plain now n (disk, call)).1 :=
  ⟨fun _ hfile => others_settle habout hfile, fun hfiles => named_settle hfiles hnamed⟩

theorem touches_settleAck : Touches id disk (disk.settleAck options now id) :=
  touches_settle rfl trivial

theorem touches_failDelivery {error : Text} :
    Touches id disk (disk.failDelivery options now id error) :=
  touches_settle rfl trivial

theorem touches_moveToFailed : Touches entry.id disk (disk.moveToFailed options now entry) :=
  touches_settle rfl rfl

theorem rename_of_read {source target : QueueFile} (h : disk.read source = some entry) :
    disk.rename source target = some ((disk.unlink source).write target entry) := by
  rw [Disk.rename, h]
  rfl

/-- An entry that is given up is in `failed/`, and waits no longer. -/
theorem read_moveToFailed :
    (disk.moveToFailed options now entry).read (.failed entry.id) = some entry ∧
      (disk.moveToFailed options now entry).read (.json entry.id) = none := by
  have hmoving := @rename_of_read (disk.write (.movingTmp entry.id) entry) entry
    (.movingTmp entry.id) (.json entry.id) (by simp)
  have hfailed := @rename_of_read (((disk.write (.movingTmp entry.id) entry).unlink
    (.movingTmp entry.id)).write (.json entry.id) entry) entry (.json entry.id)
    (.failed entry.id) (by simp)
  rw [Disk.moveToFailed]
  simp only [Call.settle, Call.advance, hmoving, hfailed]
  simp

/-! ## Loading -/

/-- What a scan loads: the entries of the directory, each once. -/
structure Loads (disk disk' : Disk) (entries : List DeliveryEntry) : Prop where
  complete : ∀ id e, disk.read (.json id) = some e → e ∈ entries
  sound : ∀ e ∈ entries, ∃ id, disk.read (.json id) = some e
  nodup : FilesNamed disk → (entries.map DeliveryEntry.id).Nodup
  json : ∀ id, disk'.read (.json id) = disk.read (.json id)
  named : FilesNamed disk → FilesNamed disk'

/-- The entries of these files. -/
def entriesOf (disk : Disk) (files : List QueueFile) : List DeliveryEntry :=
  files.filterMap fun file =>
    match file with
    | .json id => disk.read (.json id)
    | _ => none

theorem entriesOf_json {files : List QueueFile} (h : disk.read (.json id) = some e) :
    entriesOf disk (.json id :: files) = e :: entriesOf disk files :=
  List.filterMap_cons_some h

theorem entriesOf_congr (h : ∀ id, disk'.read (.json id) = disk.read (.json id))
    (files : List QueueFile) : entriesOf disk' files = entriesOf disk files := by
  refine congrArg (fun f => files.filterMap f) (funext fun file => ?_)
  cases file with
  | json id => exact h id
  | _ => rfl

theorem settle_loading {files : List QueueFile} {acc : List DeliveryEntry}
    (hthere : ∀ id, QueueFile.json id ∈ files → (disk.read (.json id)).isSome = true) :
    ∃ disk', Call.settle plain now (files.length + 1) (disk, .loading files acc) =
        (disk', .loaded (oldestFirst (acc ++ entriesOf disk files))) ∧
      (∀ id, disk'.read (.json id) = disk.read (.json id)) ∧
      (FilesNamed disk → FilesNamed disk') := by
  induction files generalizing disk acc with
  | nil => exact ⟨disk, by rw [entriesOf, List.filterMap_nil, List.append_nil]; rfl,
      fun _ => rfl, fun h => h⟩
  | cons file files ih =>
      have hrest : ∀ id, QueueFile.json id ∈ files → (disk.read (.json id)).isSome = true :=
        fun id hid => hthere id (List.mem_cons_of_mem _ hid)
      rw [List.length_cons, Call.settle]
      cases file with
      | json id =>
          obtain ⟨entry, hentry⟩ := Option.isSome_iff_exists.mp (hthere id List.mem_cons_self)
          rw [Call.advance, hentry]
          obtain ⟨disk', hsettle, hread, hnamed⟩ := @ih disk (acc ++ [entry]) hrest
          refine ⟨disk', ?_, hread, hnamed⟩
          dsimp only
          rw [hsettle, entriesOf_json hentry, List.append_assoc]
          rfl
      | delivered id =>
          rw [Call.advance]
          have hkept : ∀ id', (disk.unlink (.delivered id)).read (.json id') =
              disk.read (.json id') := by
            intro id'
            rw [read_unlink, if_neg (by simp)]
          obtain ⟨disk', hsettle, hread, hnamed⟩ := @ih (disk.unlink (.delivered id)) acc
            fun id' hid => by rw [hkept]; exact hrest id' hid
          refine ⟨disk', ?_, fun id' => (hread id').trans (hkept id'),
            fun hfiles => hnamed (named_unlink hfiles)⟩
          rw [hsettle, entriesOf_congr hkept]
          rfl
      | tmp id => exact ih hrest
      | movingTmp id => exact ih hrest
      | failed id => exact ih hrest

theorem mem_entriesOf {files : List QueueFile} :
    e ∈ entriesOf disk files ↔ ∃ id, QueueFile.json id ∈ files ∧ disk.read (.json id) = some e := by
  rw [entriesOf, List.mem_filterMap]
  constructor
  · rintro ⟨file, hfile, hread⟩
    cases file with
    | json id => exact ⟨id, hfile, hread⟩
    | _ => cases hread
  · rintro ⟨id, hfile, hread⟩
    exact ⟨.json id, hfile, hread⟩

theorem nodup_entriesOf {files : List QueueFile} (hnamed : FilesNamed disk) (h : files.Nodup) :
    ((entriesOf disk files).map DeliveryEntry.id).Nodup := by
  induction files with
  | nil => exact List.nodup_nil
  | cons file files ih =>
      obtain ⟨hnew, hrest⟩ := List.nodup_cons.mp h
      cases file with
      | json id =>
          cases hread : disk.read (.json id) with
          | none =>
              have hsame : entriesOf disk (.json id :: files) = entriesOf disk files :=
                List.filterMap_cons_none hread
              rw [hsame]
              exact ih hrest
          | some entry =>
              rw [entriesOf_json hread, List.map_cons, List.nodup_cons]
              refine ⟨fun hmem => hnew ?_, ih hrest⟩
              obtain ⟨other, hother, hid⟩ := List.mem_map.mp hmem
              obtain ⟨id', hfile, hread'⟩ := mem_entriesOf.mp hother
              have hsame : id' = id :=
                calc id' = other.id := (hnamed _ _ hread').symm
                  _ = entry.id := hid
                  _ = id := hnamed _ _ hread
              rwa [← hsame]
      | delivered id => exact ih hrest
      | tmp id => exact ih hrest
      | movingTmp id => exact ih hrest
      | failed id => exact ih hrest

theorem loadPending_loads : Loads disk (disk.loadPending options now).1
    (disk.loadPending options now).2 := by
  have hthere : ∀ id, QueueFile.json id ∈ disk.readdir → (disk.read (.json id)).isSome = true :=
    fun id hid => mem_readdir hid
  obtain ⟨disk', hsettle, hread, hnamed⟩ :=
    @settle_loading options.toDeliveryQueueOptions disk now disk.readdir [] hthere
  have hload : disk.loadPending options now =
      (disk', oldestFirst (entriesOf disk disk.readdir)) := by
    rw [Disk.loadPending, Call.settle, Call.advance, hsettle]
    rfl
  rw [hload]
  refine ⟨fun id e he => ?_, fun e he => ?_, fun hfiles => ?_, hread, hnamed⟩
  · rw [mem_oldestFirst, mem_entriesOf]
    refine ⟨id, List.mem_filter.mpr ⟨?_, rfl⟩, he⟩
    obtain ⟨row, hrow, -⟩ := Option.map_eq_some_iff.mp he
    obtain ⟨hmem, hkey⟩ := Table.get_eq_some_iff.mp hrow
    exact List.mem_map.mpr ⟨row, hmem, hkey⟩
  · rw [mem_oldestFirst, mem_entriesOf] at he
    obtain ⟨id, -, he⟩ := he
    exact ⟨id, he⟩
  · have hperm := (List.perm_insertionSort (fun a b : DeliveryEntry => a.enqueuedAt ≤ b.enqueuedAt)
      (entriesOf disk disk.readdir)).map DeliveryEntry.id
    exact hperm.nodup_iff.mpr (nodup_entriesOf hfiles (disk.nodup.filter _))

/-! ## Recovery -/

variable {r r' : Recovery}

/-- A turn puts its entry off and leaves the directory alone, or works on the
files of its entry. -/
theorem recovery_next (h : r.next options startTime turn entry = some r') :
    (r'.putOff = r.putOff ++ [entry] ∧ r'.disk = r.disk) ∨
      (r'.putOff = r.putOff ∧ Touches entry.id r.disk r'.disk) := by
  rw [Recovery.next] at h
  split_ifs at h with hbudget hstale hretries hwaits
  · cases h
    exact .inr ⟨rfl, touches_moveToFailed⟩
  · cases h
    exact .inr ⟨rfl, touches_moveToFailed⟩
  · cases h
    exact .inl ⟨rfl, rfl⟩
  · cases hhandler : turn.handlers entry.channel with
    | none =>
        rw [hhandler] at h
        cases h
        exact .inl ⟨rfl, rfl⟩
    | some handler =>
        rw [hhandler] at h
        cases h
        refine .inr ?_
        rw [Recovery.attempt]
        cases handler entry with
        | none => exact ⟨rfl, touches_settleAck⟩
        | some error =>
            dsimp only
            split_ifs
            · exact ⟨rfl, touches_failDelivery⟩
            · exact ⟨rfl, touches_failDelivery⟩

theorem touches_next (h : r.next options startTime turn entry = some r') :
    Touches entry.id r.disk r'.disk := by
  rcases recovery_next h with ⟨-, hdisk⟩ | ⟨-, htouches⟩
  · rw [hdisk]
    exact .refl _ _
  · exact htouches

theorem recoverEntries_others (hids : ∀ x ∈ entries, x.id ≠ id) :
    (recoverEntries options startTime turns total i entries r).disk.read (.json id) =
      r.disk.read (.json id) := by
  induction entries generalizing i r with
  | nil => rfl
  | cons x entries ih =>
      rw [recoverEntries]
      cases hnext : r.next options startTime (turns i) x with
      | none => rfl
      | some r' =>
          have hx : id ≠ x.id := (hids x List.mem_cons_self).symm
          exact (ih fun y hy => hids y (List.mem_cons_of_mem _ hy)).trans
            ((touches_next hnext).others (.json id) hx)

theorem recoverEntries_named (h : FilesNamed r.disk) :
    FilesNamed (recoverEntries options startTime turns total i entries r).disk := by
  induction entries generalizing i r with
  | nil => exact h
  | cons x entries ih =>
      rw [recoverEntries]
      cases hnext : r.next options startTime (turns i) x with
      | none => exact h
      | some r' => exact ih ((touches_next hnext).named h)

/-- An entry that is put off stays as it was. -/
theorem recoverEntries_putOff (hnodup : (entries.map DeliveryEntry.id).Nodup) (hnew : e ∉ r.putOff)
    (h : e ∈ (recoverEntries options startTime turns total i entries r).putOff) :
    e ∈ entries ∧ (recoverEntries options startTime turns total i entries r).disk.read
      (.json e.id) = r.disk.read (.json e.id) := by
  induction entries generalizing i r with
  | nil => exact absurd h hnew
  | cons x entries ih =>
      rw [List.map_cons, List.nodup_cons] at hnodup
      have hothers : ∀ y ∈ entries, y.id ≠ x.id :=
        fun y hy heq => hnodup.1 (heq ▸ List.mem_map_of_mem hy)
      rw [recoverEntries] at h ⊢
      cases hnext : r.next options startTime (turns i) x with
      | none =>
          rw [hnext] at h
          rcases List.mem_append.mp h with h | h
          · exact absurd h hnew
          · exact ⟨h, rfl⟩
      | some r' =>
          rw [hnext] at h
          dsimp only at h ⊢
          by_cases hx : e = x
          · subst hx
            refine ⟨List.mem_cons_self, (recoverEntries_others hothers).trans ?_⟩
            rcases recovery_next hnext with ⟨-, hdisk⟩ | ⟨hput, -⟩
            · rw [hdisk]
            · -- it is not among the others
              have hmem := (ih hnodup.2 (hput ▸ hnew) h).1
              exact absurd rfl (hothers e hmem)
          · have hstill : e ∉ r'.putOff := by
              rcases recovery_next hnext with ⟨hput, -⟩ | ⟨hput, -⟩
              · rw [hput]
                simpa [hx] using hnew
              · rwa [hput]
            obtain ⟨hmem, hread⟩ := ih hnodup.2 hstill h
            exact ⟨List.mem_cons_of_mem _ hmem,
              hread.trans ((touches_next hnext).others (.json e.id) (hothers e hmem))⟩

theorem recoverPending_named (h : FilesNamed disk) :
    FilesNamed (recoverPending options startTime turns disk).disk :=
  recoverEntries_named (loadPending_loads.named h)

theorem recoverPending_putOff (hnamed : FilesNamed disk)
    (h : e ∈ (recoverPending options startTime turns disk).putOff) :
    (recoverPending options startTime turns disk).disk.read (.json e.id) = some e := by
  have hloads := @loadPending_loads options disk startTime
  obtain ⟨hmem, hread⟩ := recoverEntries_putOff (hloads.nodup hnamed) List.not_mem_nil h
  obtain ⟨id, he⟩ := hloads.sound e hmem
  have hid : e.id = id := hnamed _ _ he
  calc (recoverPending options startTime turns disk).disk.read (.json e.id)
      = (disk.loadPending options startTime).1.read (.json e.id) := hread
    _ = disk.read (.json e.id) := hloads.json e.id
    _ = some e := by rw [hid, he]

theorem counts_next (h : r.next options startTime turn entry = some r') :
    r'.recovered + r'.failed + r'.deferred = r.recovered + r.failed + r.deferred + 1 ∧
      r'.putOff.length + r.deferred ≤ r.putOff.length + r'.deferred := by
  rw [Recovery.next] at h
  split_ifs at h with hbudget hstale hretries hwaits
  · cases h
    exact ⟨by dsimp only; omega, le_rfl⟩
  · cases h
    exact ⟨by dsimp only; omega, le_rfl⟩
  · cases h
    exact ⟨by dsimp only; omega, by simp; omega⟩
  · cases hhandler : turn.handlers entry.channel with
    | none =>
        rw [hhandler] at h
        cases h
        exact ⟨by dsimp only; omega, by simp; omega⟩
    | some handler =>
        rw [hhandler] at h
        cases h
        rw [Recovery.attempt]
        cases handler entry with
        | none => exact ⟨by dsimp only; omega, le_rfl⟩
        | some error =>
            dsimp only
            split_ifs
            · exact ⟨by dsimp only; omega, le_rfl⟩
            · exact ⟨by dsimp only; omega, by dsimp only; omega⟩

/-- Every entry is counted once, and those that are put off as deferred. -/
theorem recoverEntries_counts (hsum : r.recovered + r.failed + r.deferred + entries.length = total)
    (hput : r.putOff.length ≤ r.deferred) :
    (recoverEntries options startTime turns total i entries r).recovered +
        (recoverEntries options startTime turns total i entries r).failed +
        (recoverEntries options startTime turns total i entries r).deferred = total ∧
      (recoverEntries options startTime turns total i entries r).putOff.length ≤
        (recoverEntries options startTime turns total i entries r).deferred := by
  induction entries generalizing i r with
  | nil => exact ⟨hsum, hput⟩
  | cons x entries ih =>
      rw [List.length_cons] at hsum
      rw [recoverEntries]
      cases hnext : r.next options startTime (turns i) x with
      | none =>
          dsimp only
          rw [List.length_append, List.length_cons]
          omega
      | some r' =>
          obtain ⟨hcount, hlength⟩ := counts_next hnext
          exact ih (by omega) (by omega)

/-! ## A tick -/

variable {t : Retried}

/-- The handler has been called on the entry, or the entry was given up. -/
def Retried.Took (t : Retried) (e : DeliveryEntry) : Prop := e ∈ t.handled ∨ e ∈ t.moved

/-- A turn of a tick passes over its entry, or takes it. -/
theorem retried_next : (t.next options now turn entry = t) ∨
    (entry.retryCount ≠ 0 ∧ Touches entry.id t.disk (t.next options now turn entry).disk ∧
      ∀ e, (t.next options now turn entry).Took e ↔ t.Took e ∨ e = entry) := by
  rw [Retried.next]
  split_ifs with hnever hwaits hstale
  · exact .inl rfl
  · exact .inl rfl
  · refine .inr ⟨hnever, touches_moveToFailed, fun e => ?_⟩
    simp only [Retried.Took, List.mem_append, List.mem_singleton, or_assoc]
  · have hhandled : ∀ e : DeliveryEntry, (e ∈ t.handled ++ [entry] ∨ e ∈ t.moved) ↔
        t.Took e ∨ e = entry := by
      intro e
      rw [List.mem_append, List.mem_singleton, Retried.Took, or_right_comm]
    cases turn.handlers entry.channel with
    | none => exact .inl rfl
    | some handler =>
        refine .inr ⟨hnever, ?_⟩
        dsimp only
        cases handler entry with
        | none => exact ⟨touches_settleAck, hhandled⟩
        | some error => exact ⟨touches_failDelivery, hhandled⟩

/-- An entry that is due is taken when its channel has a handler. -/
theorem took_next (hattempted : e.retryCount ≠ 0) (helapsed : e.waits options now = false)
    (hregistered : (turn.handlers e.channel).isSome = true) :
    (t.next options now turn e).Took e := by
  rw [Retried.next, if_neg hattempted, helapsed, if_neg (by simp)]
  split_ifs with hstale
  · exact .inr (List.mem_append_right _ List.mem_cons_self)
  · obtain ⟨handler, hhandler⟩ := Option.isSome_iff_exists.mp hregistered
    rw [hhandler]
    refine .inl ?_
    dsimp only
    cases handler e with
    | none => exact List.mem_append_right _ List.mem_cons_self
    | some error => exact List.mem_append_right _ List.mem_cons_self

theorem touches_retried : Touches entry.id t.disk (t.next options now turn entry).disk := by
  rcases @retried_next options now turn entry t with hsame | ⟨-, htouches, -⟩
  · rw [hsame]
    exact .refl _ _
  · exact htouches

theorem took_mono (h : t.Took e) : (t.next options now turn entry).Took e := by
  rcases @retried_next options now turn entry t with hsame | ⟨-, -, htook⟩
  · rwa [hsame]
  · exact (htook e).mpr (.inl h)

theorem retryEntries_mono (h : t.Took e) : (retryEntries options now turns i entries t).Took e := by
  induction entries generalizing i t with
  | nil => exact h
  | cons x entries ih => exact ih (took_mono h)

theorem retryEntries_named (h : FilesNamed t.disk) :
    FilesNamed (retryEntries options now turns i entries t).disk := by
  induction entries generalizing i t with
  | nil => exact h
  | cons x entries ih => exact ih (touches_retried.named h)

/-- What is taken was attempted before. -/
theorem retryEntries_attempted (h : (retryEntries options now turns i entries t).Took e) :
    t.Took e ∨ e.retryCount ≠ 0 := by
  induction entries generalizing i t with
  | nil => exact .inl h
  | cons x entries ih =>
      rcases ih h with h | h
      · rcases @retried_next options now (turns i) x t with hsame | ⟨hattempted, -, htook⟩
        · rw [hsame] at h
          exact .inl h
        · rcases (htook e).mp h with h | rfl
          · exact .inl h
          · exact .inr hattempted
      · exact .inr h

theorem retryEntries_took (hmem : e ∈ entries) (hattempted : e.retryCount ≠ 0)
    (helapsed : e.waits options now = false)
    (hregistered : ∀ j, ((turns j).handlers e.channel).isSome = true) :
    (retryEntries options now turns i entries t).Took e := by
  induction entries generalizing i t with
  | nil => exact absurd hmem List.not_mem_nil
  | cons x entries ih =>
      rcases List.mem_cons.mp hmem with rfl | hmem
      · rw [retryEntries]
        exact retryEntries_mono (took_next hattempted helapsed (hregistered i))
      · exact ih hmem

theorem retryEntries_kept (hids : ∀ x ∈ entries, x.id = e.id → x = e) :
    (retryEntries options now turns i entries t).Took e ∨
      (retryEntries options now turns i entries t).disk.read (.json e.id) =
        t.disk.read (.json e.id) := by
  induction entries generalizing i t with
  | nil => exact .inr rfl
  | cons x entries ih =>
      rw [retryEntries]
      have hrest := @ih (i + 1) (t.next options now (turns i) x)
        fun y hy => hids y (List.mem_cons_of_mem _ hy)
      by_cases hx : x.id = e.id
      · obtain rfl := hids x List.mem_cons_self hx
        rcases @retried_next options now (turns i) x t with hsame | ⟨-, -, htook⟩
        · rwa [hsame] at hrest ⊢
        · exact .inl (retryEntries_mono ((htook x).mpr (.inr rfl)))
      · rcases hrest with htook | hread
        · exact .inl htook
        · exact .inr (hread.trans (touches_retried.others (.json e.id) fun h => hx h.symm))

theorem retryTick_named (h : FilesNamed disk) : FilesNamed (retryTick options now turns disk).disk :=
  retryEntries_named (loadPending_loads.named h)

theorem retryTick_attempted (h : (retryTick options now turns disk).Took e) : e.retryCount ≠ 0 := by
  rcases retryEntries_attempted h with htook | hattempted
  · exact absurd htook (by simp [Retried.Took])
  · exact hattempted

theorem retryTick_took (hpending : disk.read (.json e.id) = some e) (hattempted : e.retryCount ≠ 0)
    (helapsed : e.waits options now = false)
    (hregistered : ∀ j, ((turns j).handlers e.channel).isSome = true) :
    (retryTick options now turns disk).Took e :=
  retryEntries_took (loadPending_loads.complete _ e hpending) hattempted helapsed hregistered

theorem retryTick_kept (hnamed : FilesNamed disk) (hpending : disk.read (.json e.id) = some e) :
    (retryTick options now turns disk).Took e ∨
      (retryTick options now turns disk).disk.read (.json e.id) = some e := by
  have hloads := @loadPending_loads options disk now
  have hids : ∀ x ∈ (disk.loadPending options now).2, x.id = e.id → x = e := by
    intro x hx hid
    obtain ⟨id, hread⟩ := hloads.sound x hx
    have hname : e.id = id := hid.symm.trans (hnamed _ _ hread)
    rw [← hname, hpending] at hread
    exact (Option.some.inj hread).symm
  rcases retryEntries_kept hids with htook | hread
  · exact .inl htook
  · exact .inr (hread.trans ((hloads.json e.id).trans hpending))

/-! ## What comes after recovery -/

/-- A tick, or what other calls do to the directory between two ticks. -/
inductive Pass where
  | tick (now : ℤ) (turns : ℕ → Turn)
  | others (change : Disk → Disk)

def Pass.run (options : RetryOptions) (disk : Disk) : Pass → Retried
  | .tick now turns => retryTick options now turns disk
  | .others change => ⟨change disk, [], []⟩

def runPasses (options : RetryOptions) : Disk → List Pass → Retried
  | disk, [] => ⟨disk, [], []⟩
  | disk, pass :: passes =>
      let first := pass.run options disk
      let rest := runPasses options first.disk passes
      ⟨rest.disk, first.handled ++ rest.handled, first.moved ++ rest.moved⟩

/-- Nobody else sends the entry. -/
def LeavesAlone (e : DeliveryEntry) (change : Disk → Disk) : Prop :=
  ∀ disk, FilesNamed disk →
    FilesNamed (change disk) ∧ (change disk).read (.json e.id) = disk.read (.json e.id)

theorem took_runPasses {pass : Pass} {passes : List Pass} :
    (runPasses options disk (pass :: passes)).Took e ↔
      (pass.run options disk).Took e ∨
        (runPasses options (pass.run options disk).disk passes).Took e := by
  rw [runPasses]
  simp only [Retried.Took, List.mem_append]
  exact or_or_or_comm

theorem runPasses_attempted {passes : List Pass} (h : (runPasses options disk passes).Took e) :
    e.retryCount ≠ 0 := by
  induction passes generalizing disk with
  | nil => exact absurd h (by simp [runPasses, Retried.Took])
  | cons pass passes ih =>
      rcases took_runPasses.mp h with h | h
      · cases pass with
        | tick now turns => exact retryTick_attempted h
        | others change => exact absurd h (by simp [Pass.run, Retried.Took])
      · exact ih h

theorem runPasses_took {passes : List Pass} (hnamed : FilesNamed disk)
    (hpending : disk.read (.json e.id) = some e)
    (halone : ∀ change, Pass.others change ∈ passes → LeavesAlone e change)
    (hattempted : e.retryCount ≠ 0) (helapsed : e.waits options now = false)
    (hregistered : ∀ j, ((turns j).handlers e.channel).isSome = true) :
    (runPasses options disk (passes ++ [.tick now turns])).Took e := by
  induction passes generalizing disk with
  | nil => exact took_runPasses.mpr (.inl (retryTick_took hpending hattempted helapsed hregistered))
  | cons pass passes ih =>
      have hrest : ∀ change, Pass.others change ∈ passes → LeavesAlone e change :=
        fun change hmem => halone change (List.mem_cons_of_mem _ hmem)
      rw [List.cons_append, took_runPasses]
      cases pass with
      | tick now' turns' =>
          rcases @retryTick_kept options disk now' turns' e hnamed hpending with htook | hkept
          · exact .inl htook
          · exact .inr (ih (retryTick_named hnamed) hkept hrest)
      | others change =>
          obtain ⟨hnamed', hread⟩ := halone change List.mem_cons_self disk hnamed
          exact .inr (ih hnamed' (hread.trans hpending) hrest)

/-- An entry that recovery has put off is retried, at the latest by the first
tick that finds it due and its channel there, exactly when it has been attempted
before. -/
theorem putOff_retried_iff {q : DeliveryQueue} (options : RetryOptions) (startTime now : ℤ)
    (turns turns' : ℕ → Turn) (e : DeliveryEntry) (passes : List Pass)
    (hreachable : ReachableQueue options.toDeliveryQueueOptions q)
    (hdeferred : e ∈ (recoverPending options startTime turns q.disk).putOff)
    (halone : ∀ change, Pass.others change ∈ passes → LeavesAlone e change)
    (hregistered : ∀ i, ((turns' i).handlers e.channel).isSome = true)
    (helapsed : e.waits options now = false) :
    (runPasses options (recoverPending options startTime turns q.disk).disk
      (passes ++ [.tick now turns'])).Took e ↔ e.retryCount ≠ 0 := by
  have hnamed : FilesNamed q.disk := hreachable.named.files
  constructor
  · exact runPasses_attempted
  · intro hattempted
    exact runPasses_took (recoverPending_named hnamed) (recoverPending_putOff hnamed hdeferred)
      halone hattempted helapsed hregistered

/-! ## A message that was never attempted

The process ends after the message was enqueued and before it was sent, and at
the next startup its channel registers after recovery.
-/

def defaultRetryOptions : RetryOptions where
  toDeliveryQueueOptions := plainOptions
  backoffMs := [0, 5000, 25000, 120000, 600000]
  backoffCapMs := 600000
  staleTtlMs := 86400000
  maxRecoveryMs := 60000

/-- A turn with a clock that stands, without handlers or with one that sends
everything. -/
def quietTurn (now : ℤ) : Turn := ⟨now, now, now, now, fun _ => none⟩

def sendingTurn (now : ℤ) : Turn := ⟨now, now, now, now, fun _ => some fun _ => none⟩

def enqueuedQueue : DeliveryQueue :=
  ⟨(Disk.write Table.empty (.tmp (js "m1")) greeting |>.unlink (.tmp (js "m1"))).write
    (.json (js "m1")) greeting, []⟩

theorem enqueuedQueue_reachable : ReachableQueue plainOptions enqueuedQueue := by
  have hempty : ReachableQueue plainOptions ⟨Table.empty, []⟩ := .start
  exact (hempty.enqueueWrite (js "m1") (js "telegram") (js "42") .null 0).enqueueRename (js "m1") rfl

/-- The queue once an attempt has failed. -/
def failedOnce : List QueueAction :=
  [.request (.failDelivery (js "m1") (js "timeout")), .advance 0 10, .advance 0 11, .advance 0 12]

theorem putOff_retried_failedOnce :
    (runPasses defaultRetryOptions
      (recoverPending defaultRetryOptions 20 (fun _ => quietTurn 20)
        (Machine.run (queueStep plainOptions) enqueuedQueue failedOnce).disk).disk
      ([.tick 6000 fun _ => quietTurn 6000] ++ [.tick 16000 fun _ => sendingTurn 16000])).Took
        (greeting.failedAttempt (js "timeout") 10) ↔
      (greeting.failedAttempt (js "timeout") 10).retryCount ≠ 0 := by
  refine putOff_retried_iff defaultRetryOptions 20 16000 _ _ _ _
    (enqueuedQueue_reachable.run failedOnce) ?_ ?_ (fun _ => rfl) rfl
  · exact List.mem_singleton.mpr rfl
  · intro change hmem
    cases List.mem_singleton.mp hmem

/-- Recovery puts the message off, and the tick that finds its channel there
passes over it. -/
theorem putOff_never_retried :
    ReachableQueue plainOptions enqueuedQueue ∧
      greeting ∈ (recoverPending defaultRetryOptions 20 (fun _ => quietTurn 20)
        enqueuedQueue.disk).putOff ∧
      greeting.waits defaultRetryOptions 16000 = false ∧
      ¬ (retryTick defaultRetryOptions 16000 (fun _ => sendingTurn 16000)
        (recoverPending defaultRetryOptions 20 (fun _ => quietTurn 20)
          enqueuedQueue.disk).disk).Took greeting := by
  refine ⟨enqueuedQueue_reachable, List.mem_singleton.mpr rfl, rfl, ?_⟩
  rintro (htook | htook)
  · cases htook
  · cases htook

end Shizuha.Gateway
