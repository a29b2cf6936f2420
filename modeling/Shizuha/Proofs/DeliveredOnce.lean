import Shizuha.Gateway.DeliveryQueue
import Shizuha.Machine

/-!
# Delivered stays delivered

An acknowledgement takes the entry away in one rename. What can bring it back
is another call that still holds a copy: `failDelivery` between its read and
its rename, or `moveToFailed`, which never reads and writes what its caller
loaded. Such a call is a `Writer`. If there is none when the entry is taken,
and no loop starts one later from a stale copy, the entry is gone for good:
`Gone` is kept by every step of every other call, and a load that starts then
cannot find it.
-/

namespace Shizuha.Gateway

open Js Machine

/-- The call holds a copy of the entry and will put it somewhere. -/
def Call.Writer (id : Text) : Call → Prop
  | .retryWrite id' _ => id' = id
  | .retryRename id' => id' = id
  | .moveToFailed id' _ _ => id' = id
  | _ => False

/-- The acknowledgement that took the entry away, finished or about to be. -/
def Call.TookAway (id : Text) : Call → Prop
  | .ackUnlink id' => id' = id
  | .acked id' renamed => id' = id ∧ renamed = true
  | _ => False

/-- An entry is acknowledged while no other call holds a copy and none is in
`failed/`; after that no loop gives up on it from a stale copy. -/
def AckAlone (q : DeliveryQueue) : QueueAction → Prop
  | .request (.moveToFailed entry) => ∀ call ∈ q.calls, ¬ call.TookAway entry.id
  | .request _ => True
  | .advance k _ => ∀ id, q.calls[k]? = some (.ack id) → (q.disk.read (.json id)).isSome →
      q.disk.read (.failed id) = none ∧ ∀ call ∈ q.calls, ¬ call.Writer id

/-- Neither waiting nor given up, and nobody holds a copy. -/
structure Gone (id : Text) (q : DeliveryQueue) : Prop where
  json : q.disk.read (.json id) = none
  failed : q.disk.read (.failed id) = none
  alone : ∀ call ∈ q.calls, ¬ call.Writer id

/-- Every file, and every copy a call holds, is of the entry its name says. -/
def Call.Named : Call → Prop
  | .retryWrite id entry => entry.id = id
  | .moveToFailed id entry _ => entry.id = id
  | _ => True

structure Named (q : DeliveryQueue) : Prop where
  files : ∀ file entry, q.disk.read file = some entry → entry.id = file.entryId
  calls : ∀ call ∈ q.calls, call.Named

/-- What was taken away is gone. -/
structure QueueSound (q : DeliveryQueue) : Prop where
  named : Named q
  gone : ∀ id, (∃ call ∈ q.calls, call.TookAway id) → Gone id q

variable {options : DeliveryQueueOptions} {disk : Disk} {now : ℤ} {id : Text} {call : Call}

/-! ## What one step does to one entry -/

theorem named_rename {disk' : Disk} {source target : QueueFile}
    (hfiles : ∀ file entry, disk.read file = some entry → entry.id = file.entryId)
    (h : disk.rename source target = some disk') (hsame : source.entryId = target.entryId) :
    ∀ file entry, disk'.read file = some entry → entry.id = file.entryId := by
  obtain ⟨e, he, hread⟩ := read_rename h
  intro file entry hentry
  rw [hread] at hentry
  split_ifs at hentry with htarget
  · cases hentry
    rw [htarget, ← hsame]
    exact hfiles _ _ he
  · exact hfiles _ _ hentry

theorem named_write {target : QueueFile} {e : DeliveryEntry}
    (hfiles : ∀ file entry, disk.read file = some entry → entry.id = file.entryId)
    (he : e.id = target.entryId) :
    ∀ file entry, (disk.write target e).read file = some entry → entry.id = file.entryId := by
  intro file entry hentry
  rw [read_write] at hentry
  split_ifs at hentry with htarget
  · cases hentry
    rw [htarget]
    exact he
  · exact hfiles _ _ hentry

theorem named_unlink {target : QueueFile}
    (hfiles : ∀ file entry, disk.read file = some entry → entry.id = file.entryId) :
    ∀ file entry, (disk.unlink target).read file = some entry → entry.id = file.entryId := by
  intro file entry hentry
  rw [read_unlink] at hentry
  split_ifs at hentry
  exact hfiles _ _ hentry

/-- The files of an entry a step may bring into being: only a writer makes one
that counts. -/
inductive Advanced (options : DeliveryQueueOptions) (disk : Disk) (now : ℤ) (call : Call)
    (disk' : Disk) (call' : Call) : Prop where
  | took (id : Text) (is : call = .ack id) (was : (disk.read (.json id)).isSome)
      (read : ∀ file, disk'.read file = if file = .delivered id then disk.read (.json id)
        else if file = .json id then none else disk.read file)
      (now : call' = .ackUnlink id)
  | quiet (read : ∀ id, (disk.read (.json id) = none → disk'.read (.json id) = none) ∧
        (disk.read (.failed id) = none → disk'.read (.failed id) = none))
      (writer : ∀ id, call'.Writer id → call.Writer id ∨ (disk.read (.json id)).isSome)
      (took : ∀ id, call'.TookAway id → call.TookAway id)
  | wrote (id : Text) (is : call.Writer id)
      (read : ∀ id', id' ≠ id → disk'.read (.json id') = disk.read (.json id') ∧
        disk'.read (.failed id') = disk.read (.failed id'))
      (writer : ∀ id', call'.Writer id' → id' = id)
      (took : ∀ id', ¬ call'.TookAway id')

theorem quiet_same {call' : Call}
    (hwriter : ∀ id, call'.Writer id → call.Writer id ∨ (disk.read (.json id)).isSome)
    (htook : ∀ id, call'.TookAway id → call.TookAway id) :
    Advanced options disk now call disk call' :=
  .quiet (fun _ => ⟨fun h => h, fun h => h⟩) hwriter htook

theorem quiet_unlink {file : QueueFile} {call' : Call}
    (hwriter : ∀ id, call'.Writer id → call.Writer id ∨ (disk.read (.json id)).isSome)
    (htook : ∀ id, call'.TookAway id → call.TookAway id) :
    Advanced options disk now call (disk.unlink file) call' := by
  refine .quiet (fun id => ⟨fun h => ?_, fun h => ?_⟩) hwriter htook
  · rw [read_unlink, h, ite_self]
  · rw [read_unlink, h, ite_self]

/-- A writer's rename or write touches the files of its own entry. -/
theorem wrote_rename {call' : Call} {disk' : Disk} {source target : QueueFile}
    (hcall : call.Writer id) (hsource : source.entryId = id) (htarget : target.entryId = id)
    (h : disk.rename source target = some disk') (hwriter : ∀ id', call'.Writer id' → id' = id)
    (htook : ∀ id', ¬ call'.TookAway id') : Advanced options disk now call disk' call' := by
  obtain ⟨entry, -, hread⟩ := read_rename h
  have hother : ∀ file : QueueFile, file.entryId ≠ id → disk'.read file = disk.read file := by
    intro file hfile
    have hnotTarget : file ≠ target := fun heq => hfile ((congrArg _ heq).trans htarget)
    have hnotSource : file ≠ source := fun heq => hfile ((congrArg _ heq).trans hsource)
    rw [hread, if_neg hnotTarget, if_neg hnotSource]
  exact .wrote id hcall (fun id' hid => ⟨hother (.json id') hid, hother (.failed id') hid⟩)
    hwriter htook

theorem wrote_write {call' : Call} {target : QueueFile} {entry : DeliveryEntry}
    (hcall : call.Writer id) (htarget : target.entryId = id)
    (hwriter : ∀ id', call'.Writer id' → id' = id) (htook : ∀ id', ¬ call'.TookAway id') :
    Advanced options disk now call (disk.write target entry) call' := by
  have hother : ∀ file : QueueFile, file.entryId ≠ id →
      (disk.write target entry).read file = disk.read file := by
    intro file hfile
    have hnotTarget : file ≠ target := fun heq => hfile ((congrArg _ heq).trans htarget)
    rw [read_write, if_neg hnotTarget]
  exact .wrote id hcall (fun id' hid => ⟨hother (.json id') hid, hother (.failed id') hid⟩)
    hwriter htook

theorem advanced (options : DeliveryQueueOptions) (disk : Disk) (now : ℤ) (call : Call) :
    Advanced options disk now call (call.advance options disk now).1
      (call.advance options disk now).2 := by
  cases call with
  | ack id =>
      rw [Call.advance]
      cases h : disk.rename (.json id) (.delivered id) with
      | none => exact quiet_same (fun _ h => h.elim) fun _ h => by cases h.2
      | some disk' =>
          obtain ⟨entry, hentry, hread⟩ := read_rename h
          exact .took id rfl (by rw [hentry]; rfl) (fun file => by rw [hread, hentry]) rfl
  | ackUnlink id => exact quiet_unlink (fun _ h => h.elim) fun _ h => h.1
  | acked id renamed => exact quiet_same (fun _ h => h.elim) fun _ h => h
  | failDelivery id error =>
      rw [Call.advance]
      cases h : disk.read (.json id) with
      | none => exact quiet_same (fun _ h => h.elim) fun _ h => h.elim
      | some entry =>
          have hwriter : ∀ id', id = id' → (Call.failDelivery id error).Writer id' ∨
              (disk.read (.json id')).isSome := fun id' hid => .inr (by rw [← hid, h]; rfl)
          dsimp only
          split_ifs
          · exact quiet_same hwriter fun _ h => h.elim
          · exact quiet_same hwriter fun _ h => h.elim
  | retryWrite id entry => exact wrote_write rfl rfl (fun _ h => h.symm) fun _ h => h
  | retryRename id =>
      rw [Call.advance]
      cases h : disk.rename (.tmp id) (.json id) with
      | none => exact quiet_same (fun _ h => h.elim) fun _ h => h.elim
      | some disk' => exact wrote_rename rfl rfl rfl h (fun _ h => h.elim) fun _ h => h
  | moveToFailed id entry pc =>
      cases pc with
      | write => exact wrote_write rfl rfl (fun _ h => h.symm) fun _ h => h
      | renameTmp =>
          rw [Call.advance]
          cases h : disk.rename (.movingTmp id) (.json id) with
          | none => exact quiet_same (fun _ h => .inl h) fun _ h => h.elim
          | some disk' => exact wrote_rename rfl rfl rfl h (fun _ h => h.symm) fun _ h => h
      | renameFailed =>
          rw [Call.advance]
          cases h : disk.rename (.json id) (.failed id) with
          | none => exact quiet_same (fun _ h => .inl h) fun _ h => h.elim
          | some disk' => exact wrote_rename rfl rfl rfl h (fun _ h => h.elim) fun _ h => h
      | writeFailed => exact wrote_write rfl rfl (fun _ h => h.symm) fun _ h => h
      | unlinkSource => exact quiet_unlink (fun _ h => h.elim) fun _ h => h.elim
  | loadPending => exact quiet_same (fun _ h => h.elim) fun _ h => h.elim
  | loading files entries =>
      cases files with
      | nil => exact quiet_same (fun _ h => h.elim) fun _ h => h.elim
      | cons file files =>
          cases file with
          | delivered id => exact quiet_unlink (fun _ h => h.elim) fun _ h => h.elim
          | json id =>
              rw [Call.advance]
              cases disk.read (.json id) with
              | none => exact quiet_same (fun _ h => h.elim) fun _ h => h.elim
              | some entry => exact quiet_same (fun _ h => h.elim) fun _ h => h.elim
          | tmp id => exact quiet_same (fun _ h => h.elim) fun _ h => h.elim
          | movingTmp id => exact quiet_same (fun _ h => h.elim) fun _ h => h.elim
          | failed id => exact quiet_same (fun _ h => h.elim) fun _ h => h.elim
  | loadUnlink file files entries => exact quiet_unlink (fun _ h => h.elim) fun _ h => h.elim
  | loaded entries => exact quiet_same (fun _ h => h.elim) fun _ h => h.elim
  | done => exact quiet_same (fun _ h => h.elim) fun _ h => h.elim

theorem named_advance
    (hfiles : ∀ file entry, disk.read file = some entry → entry.id = file.entryId)
    (hcall : call.Named) :
    (∀ file entry, (call.advance options disk now).1.read file = some entry →
      entry.id = file.entryId) ∧ (call.advance options disk now).2.Named := by
  cases call with
  | ack id =>
      rw [Call.advance]
      cases h : disk.rename (.json id) (.delivered id) with
      | none => exact ⟨hfiles, trivial⟩
      | some disk' => exact ⟨named_rename hfiles h rfl, trivial⟩
  | ackUnlink id => exact ⟨named_unlink hfiles, trivial⟩
  | failDelivery id error =>
      rw [Call.advance]
      cases h : disk.read (.json id) with
      | none => exact ⟨hfiles, trivial⟩
      | some entry =>
          have hentry : entry.id = id := hfiles _ _ h
          dsimp only
          split_ifs
          · exact ⟨hfiles, hentry⟩
          · exact ⟨hfiles, hentry⟩
  | retryWrite id entry => exact ⟨named_write hfiles hcall, trivial⟩
  | retryRename id =>
      rw [Call.advance]
      cases h : disk.rename (.tmp id) (.json id) with
      | none => exact ⟨hfiles, trivial⟩
      | some disk' => exact ⟨named_rename hfiles h rfl, trivial⟩
  | moveToFailed id entry pc =>
      cases pc with
      | write => exact ⟨named_write hfiles hcall, hcall⟩
      | renameTmp =>
          rw [Call.advance]
          cases h : disk.rename (.movingTmp id) (.json id) with
          | none => exact ⟨hfiles, hcall⟩
          | some disk' => exact ⟨named_rename hfiles h rfl, hcall⟩
      | renameFailed =>
          rw [Call.advance]
          cases h : disk.rename (.json id) (.failed id) with
          | none => exact ⟨hfiles, hcall⟩
          | some disk' => exact ⟨named_rename hfiles h rfl, trivial⟩
      | writeFailed => exact ⟨named_write hfiles hcall, hcall⟩
      | unlinkSource => exact ⟨named_unlink hfiles, trivial⟩
  | loading files entries =>
      cases files with
      | nil => exact ⟨hfiles, trivial⟩
      | cons file files =>
          cases file with
          | delivered id => exact ⟨named_unlink hfiles, trivial⟩
          | json id =>
              rw [Call.advance]
              cases disk.read (.json id) with
              | none => exact ⟨hfiles, trivial⟩
              | some entry => exact ⟨hfiles, trivial⟩
          | tmp id => exact ⟨hfiles, trivial⟩
          | movingTmp id => exact ⟨hfiles, trivial⟩
          | failed id => exact ⟨hfiles, trivial⟩
  | loadUnlink file files entries => exact ⟨named_unlink hfiles, trivial⟩
  | acked | loadPending | loaded | done => exact ⟨hfiles, trivial⟩

/-! ## What is gone stays gone -/

variable {q : DeliveryQueue}

theorem queueSound_request {r : Request} (h : QueueSound q) (hcond : AckAlone q (.request r)) :
    QueueSound (queueStep options q (.request r)) := by
  refine ⟨⟨h.named.files, fun call hcall => ?_⟩, fun id htook => ?_⟩
  · rcases List.mem_append.mp hcall with hcall | hcall
    · exact h.named.calls call hcall
    · rw [List.mem_singleton.mp hcall]
      cases r <;> trivial
  · -- a request has not taken anything away yet
    have htaken : ∃ call ∈ q.calls, call.TookAway id := by
      obtain ⟨call, hcall, htook⟩ := htook
      rcases List.mem_append.mp hcall with hcall | hcall
      · exact ⟨call, hcall, htook⟩
      · rw [List.mem_singleton.mp hcall] at htook
        cases r <;> exact htook.elim
    obtain ⟨hjson, hfailed, halone⟩ := h.gone id htaken
    refine ⟨hjson, hfailed, fun call hcall => ?_⟩
    rcases List.mem_append.mp hcall with hcall | hcall
    · exact halone call hcall
    · rw [List.mem_singleton.mp hcall]
      cases r with
      | ack | failDelivery | loadPending => exact fun hw => hw
      | moveToFailed entry =>
          intro hwriter
          obtain ⟨taker, htaker, htook⟩ := htaken
          exact hcond taker htaker (by rwa [show entry.id = id from hwriter])

theorem queueSound_advance {k : ℕ} (h : QueueSound q) (hcond : AckAlone q (.advance k now)) :
    QueueSound (queueStep options q (.advance k now)) := by
  rw [queueStep]
  cases hk : q.calls[k]? with
  | none => exact h
  | some call =>
      have hcall : call ∈ q.calls := List.mem_of_getElem? hk
      obtain ⟨hfiles, hnamed⟩ := @named_advance options _ now _ h.named.files
        (h.named.calls call hcall)
      have hmem : ∀ c ∈ q.calls.set k (call.advance options q.disk now).2,
          c ∈ q.calls ∨ c = (call.advance options q.disk now).2 :=
        fun c hc => List.mem_or_eq_of_mem_set hc
      refine ⟨⟨hfiles, fun c hc => ?_⟩, fun id htook => ?_⟩
      · rcases hmem c hc with hc | rfl
        · exact h.named.calls c hc
        · exact hnamed
      · obtain ⟨taker, htaker, htook⟩ := htook
        cases advanced options q.disk now call with
        | took id₀ his hwas hread hnow =>
            by_cases hid : id₀ = id
            · -- this step takes the entry away, and the condition is about it
              subst hid
              obtain ⟨hfailed, halone⟩ := hcond id₀ (his ▸ hk) hwas
              refine ⟨by rw [hread]; simp, by rw [hread]; simpa using hfailed, fun c hc => ?_⟩
              rcases hmem c hc with hc | rfl
              · exact halone c hc
              · rw [hnow]
                exact fun hw => hw
            · have htaken : ∃ c ∈ q.calls, c.TookAway id := by
                rcases hmem taker htaker with hc | rfl
                · exact ⟨taker, hc, htook⟩
                · rw [hnow] at htook
                  exact absurd htook hid
              obtain ⟨hjson, hfailed, halone⟩ := h.gone id htaken
              refine ⟨by rw [hread]; simp [hjson], by rw [hread]; simpa using hfailed,
                fun c hc => ?_⟩
              rcases hmem c hc with hc | rfl
              · exact halone c hc
              · rw [hnow]
                exact fun hw => hw
        | quiet hread hwriter hquiet =>
            have htaken : ∃ c ∈ q.calls, c.TookAway id := by
              rcases hmem taker htaker with hc | rfl
              · exact ⟨taker, hc, htook⟩
              · exact ⟨call, hcall, hquiet id htook⟩
            obtain ⟨hjson, hfailed, halone⟩ := h.gone id htaken
            refine ⟨(hread id).1 hjson, (hread id).2 hfailed, fun c hc => ?_⟩
            rcases hmem c hc with hc | rfl
            · exact halone c hc
            · intro hw
              rcases hwriter id hw with hw | hsome
              · exact halone call hcall hw
              · rw [hjson] at hsome
                cases hsome
        | wrote id₀ his hread hwriter hquiet =>
            have htaken : ∃ c ∈ q.calls, c.TookAway id := by
              rcases hmem taker htaker with hc | rfl
              · exact ⟨taker, hc, htook⟩
              · exact absurd htook (hquiet id)
            obtain ⟨hjson, hfailed, halone⟩ := h.gone id htaken
            have hid : id ≠ id₀ := fun hid => halone call hcall (hid ▸ his)
            refine ⟨(hread id hid).1.trans hjson, (hread id hid).2.trans hfailed, fun c hc => ?_⟩
            rcases hmem c hc with hc | rfl
            · exact halone c hc
            · exact fun hw => hid (hwriter id hw)

theorem queueSound_step {action : QueueAction} (h : QueueSound q) (hcond : AckAlone q action) :
    QueueSound (queueStep options q action) := by
  cases action with
  | request r => exact queueSound_request h hcond
  | advance k now => exact queueSound_advance h hcond

/-! ## What a later load returns -/

/-- The load has not found the entry, and has nothing left that could be it. -/
def Call.LoadsWithout (id : Text) : Call → Prop
  | .loading files entries => .json id ∉ files ∧ ∀ e ∈ entries, e.id ≠ id
  | .loadUnlink _ files entries => .json id ∉ files ∧ ∀ e ∈ entries, e.id ≠ id
  | .loaded entries => ∀ e ∈ entries, e.id ≠ id
  | _ => True

theorem mem_oldestFirst {entries : List DeliveryEntry} {e : DeliveryEntry} :
    e ∈ oldestFirst entries ↔ e ∈ entries :=
  (List.perm_insertionSort _ entries).mem_iff

theorem loadsWithout_advance (hjson : disk.read (.json id) = none)
    (hfiles : ∀ file entry, disk.read file = some entry → entry.id = file.entryId)
    (h : call.LoadsWithout id) : (call.advance options disk now).2.LoadsWithout id := by
  cases call with
  | ack id' =>
      rw [Call.advance]
      cases disk.rename (.json id') (.delivered id') <;> trivial
  | failDelivery id' error =>
      rw [Call.advance]
      cases disk.read (.json id') with
      | none => trivial
      | some entry =>
          dsimp only
          split_ifs <;> trivial
  | retryRename id' =>
      rw [Call.advance]
      cases disk.rename (.tmp id') (.json id') <;> trivial
  | moveToFailed id' entry pc =>
      cases pc with
      | write | writeFailed | unlinkSource => trivial
      | renameTmp =>
          rw [Call.advance]
          cases disk.rename (.movingTmp id') (.json id') <;> trivial
      | renameFailed =>
          rw [Call.advance]
          cases disk.rename (.json id') (.failed id') <;> trivial
  | loadPending =>
      refine ⟨fun hmem => ?_, fun e he => (List.not_mem_nil he).elim⟩
      have := mem_readdir hmem
      rw [hjson] at this
      cases this
  | loading files entries =>
      cases files with
      | nil => exact fun e he => h.2 e (mem_oldestFirst.mp he)
      | cons file files =>
          obtain ⟨hnot, hentries⟩ := h
          obtain ⟨hne, hrest⟩ := not_or.mp (List.mem_cons.not.mp hnot)
          cases file with
          | delivered | tmp | movingTmp | failed => exact ⟨hrest, hentries⟩
          | json id' =>
              rw [Call.advance]
              cases hread : disk.read (.json id') with
              | none => exact ⟨hrest, hentries⟩
              | some entry =>
                  refine ⟨hrest, fun e he => ?_⟩
                  rcases List.mem_append.mp he with he | he
                  · exact hentries e he
                  · rw [List.mem_singleton.mp he, hfiles _ _ hread]
                    exact fun hid => hne (congrArg QueueFile.json hid.symm)
  | loadUnlink file files entries => exact h
  | loaded entries => exact h
  | ackUnlink | acked | retryWrite | done => trivial

theorem tookAway_advance (h : call.TookAway id) : (call.advance options disk now).2.TookAway id := by
  cases call with
  | ackUnlink id' => exact ⟨h, rfl⟩
  | acked id' renamed => exact h
  | _ => exact h.elim

/-- After an entry was taken away: it is gone, and the calls made since do not
come across it. -/
structure GoneFor (id : Text) (n : ℕ) (q : DeliveryQueue) : Prop where
  sound : QueueSound q
  taken : ∃ call ∈ q.calls, call.TookAway id
  later : n ≤ q.calls.length
  loads : ∀ k call, n ≤ k → q.calls[k]? = some call → call.LoadsWithout id

theorem goneFor_step {n : ℕ} {action : QueueAction} (h : GoneFor id n q)
    (hcond : AckAlone q action) : GoneFor id n (queueStep options q action) := by
  obtain ⟨taker, htaker, htook⟩ := h.taken
  obtain ⟨hjson, -, -⟩ := h.sound.gone id h.taken
  refine ⟨queueSound_step h.sound hcond, ?_, ?_, ?_⟩
  · cases action with
    | request r => exact ⟨taker, List.mem_append_left _ htaker, htook⟩
    | advance k now =>
        rw [queueStep]
        cases hk : q.calls[k]? with
        | none => exact h.taken
        | some call =>
            obtain ⟨i, hi⟩ := List.mem_iff_getElem?.mp htaker
            obtain ⟨hilt, -⟩ := List.getElem?_eq_some_iff.mp hi
            by_cases hik : k = i
            · subst hik
              obtain rfl := Option.some.inj (hk.symm.trans hi)
              exact ⟨_, List.mem_set hilt _, tookAway_advance htook⟩
            · have hi' : (q.calls.set k (call.advance options q.disk now).2)[i]? = some taker :=
                (List.getElem?_set_ne hik).trans hi
              exact ⟨taker, List.mem_of_getElem? hi', htook⟩
  · cases action with
    | request r => exact h.later.trans (by rw [queueStep, List.length_append]; omega)
    | advance k now =>
        rw [queueStep]
        cases q.calls[k]? with
        | none => exact h.later
        | some call => exact h.later.trans_eq (List.length_set).symm
  · intro i call hi hcall
    cases action with
    | request r =>
        rw [queueStep] at hcall
        by_cases hlt : i < q.calls.length
        · rw [List.getElem?_append_left hlt] at hcall
          exact h.loads i call hi hcall
        · have hcall' : call ∈ [r.call] := by
            rw [List.getElem?_append_right (Nat.le_of_not_lt hlt)] at hcall
            exact List.mem_of_getElem? hcall
          rw [List.mem_singleton.mp hcall']
          cases r <;> trivial
    | advance k now =>
        rw [queueStep] at hcall
        cases hk : q.calls[k]? with
        | none =>
            rw [hk] at hcall
            exact h.loads i call hi hcall
        | some call₀ =>
            rw [hk] at hcall
            have hcall' : (q.calls.set k (call₀.advance options q.disk now).2)[i]? = some call :=
              hcall
            by_cases hik : k = i
            · subst hik
              obtain ⟨hlt, -⟩ := List.getElem?_eq_some_iff.mp hk
              rw [List.getElem?_set_self hlt, Option.some.injEq] at hcall'
              rw [← hcall']
              exact loadsWithout_advance hjson h.sound.named.files (h.loads k call₀ hi hk)
            · rw [List.getElem?_set_ne hik] at hcall'
              exact h.loads i call hi hcall'

/-- An entry whose acknowledgement has completed is not in `failed/`, and no
load requested afterwards returns it. -/
theorem delivered_stays_delivered {q₀ : DeliveryQueue} (actions₁ actions₂ : List QueueAction)
    (hfiles : ∀ file entry, q₀.disk.read file = some entry → entry.id = file.entryId)
    (hcalls : q₀.calls = [])
    (halone : Along (queueStep options) AckAlone q₀ (actions₁ ++ actions₂))
    (hacked : Call.acked id true ∈ (run (queueStep options) q₀ actions₁).calls) :
    let q := run (queueStep options) q₀ (actions₁ ++ actions₂)
    q.disk.read (.failed id) = none ∧
      ∀ k entries, (run (queueStep options) q₀ actions₁).calls.length ≤ k →
        q.calls[k]? = some (.loaded entries) → ∀ e ∈ entries, e.id ≠ id := by
  intro q
  obtain ⟨halone₁, halone₂⟩ := (along_append _ _ _).mp halone
  have hstart : QueueSound q₀ :=
    ⟨⟨hfiles, fun call hcall => by rw [hcalls] at hcall; cases hcall⟩,
      fun id htook => by
        obtain ⟨call, hcall, -⟩ := htook
        rw [hcalls] at hcall
        cases hcall⟩
  have hsound : QueueSound (run (queueStep options) q₀ actions₁) :=
    run_invariant (fun _ _ h hC => queueSound_step h hC) hstart halone₁
  have hgone : GoneFor id (run (queueStep options) q₀ actions₁).calls.length
      (run (queueStep options) q₀ actions₁) :=
    ⟨hsound, ⟨_, hacked, rfl, rfl⟩, Nat.le_refl _, fun k call hk hcall => by
      obtain ⟨hlt, -⟩ := List.getElem?_eq_some_iff.mp hcall
      omega⟩
  have hfinal : GoneFor id (run (queueStep options) q₀ actions₁).calls.length q := by
    show GoneFor id _ (run (queueStep options) q₀ (actions₁ ++ actions₂))
    rw [run_append]
    exact run_invariant (fun _ _ h hC => goneFor_step h hC) hgone halone₂
  exact ⟨(hfinal.sound.gone id hfinal.taken).failed,
    fun k entries hk hloaded => hfinal.loads k _ hk hloaded⟩

/-! ## The message that comes back

The channel acknowledges a message it has sent while a tick of the retry loop,
whose own attempt failed, is about to write its copy. -/

def greeting : DeliveryEntry :=
  { id := js "m1", channel := js "telegram", recipient := js "42", payload := .null, enqueuedAt := 0
    retryCount := 0, lastAttemptAt := none, lastError := none }

def greetingQueue : DeliveryQueue :=
  ⟨Disk.write Table.empty (.json (js "m1")) greeting, []⟩

def plainOptions : DeliveryQueueOptions := ⟨5, fun text => text⟩

theorem greetingQueue_named (file : QueueFile) (entry : DeliveryEntry)
    (h : greetingQueue.disk.read file = some entry) : entry.id = file.entryId := by
  rw [greetingQueue, read_write] at h
  split_ifs at h with hfile
  · cases h
    rw [hfile]
    rfl
  · cases h

/-- The condition is about steps of acknowledgements only. -/
theorem ackAlone_other {k : ℕ} (call : Call) (hk : q.calls[k]? = some call)
    (hcall : ∀ id, call ≠ .ack id) : AckAlone q (.advance k now) := fun id h _ =>
  absurd (Option.some.inj (hk.symm.trans h)) (hcall id)

/-- A failed attempt, another that works and is acknowledged, and a load. -/
def retriedThenAcked : List QueueAction :=
  [.request (.failDelivery (js "m1") (js "timeout")), .advance 0 10, .advance 0 11, .advance 0 12,
    .request (.ack (js "m1")), .advance 1 20, .advance 1 21]

def loadAgain : List QueueAction :=
  [.request .loadPending, .advance 2 30, .advance 2 31]

theorem delivered_stays_delivered_retried :
    let q := run (queueStep plainOptions) greetingQueue (retriedThenAcked ++ loadAgain)
    q.disk.read (.failed (js "m1")) = none ∧
      ∀ k entries, (run (queueStep plainOptions) greetingQueue retriedThenAcked).calls.length ≤ k →
        q.calls[k]? = some (.loaded entries) → ∀ e ∈ entries, e.id ≠ js "m1" := by
  refine delivered_stays_delivered retriedThenAcked loadAgain greetingQueue_named rfl ?_ ?_
  · refine ⟨trivial, ackAlone_other (.failDelivery (js "m1") (js "timeout")) rfl nofun,
      ackAlone_other (.retryWrite (js "m1") (greeting.failedAttempt (js "timeout") 10)) rfl nofun,
      ackAlone_other (.retryRename (js "m1")) rfl nofun, trivial, fun id h _ => ?_,
      ackAlone_other (.ackUnlink (js "m1")) rfl nofun, trivial,
      ackAlone_other .loadPending rfl nofun, ackAlone_other (.loading [] []) rfl nofun, trivial⟩
    cases h
    refine ⟨rfl, fun call hcall => ?_⟩
    rcases List.mem_cons.mp hcall with rfl | hcall
    · exact fun hw => hw
    · rw [List.mem_singleton.mp hcall]
      exact fun hw => hw
  · exact List.mem_of_getElem? (i := 1) rfl

/-- The failed attempt has read the entry when it is acknowledged. -/
def ackedWhileRetrying : List QueueAction :=
  [.request (.failDelivery (js "m1") (js "timeout")), .advance 0 10, .request (.ack (js "m1")),
    .advance 1 20, .advance 1 21]

theorem delivered_comes_back :
    Call.acked (js "m1") true ∈
        (run (queueStep plainOptions) greetingQueue ackedWhileRetrying).calls ∧
      let q := run (queueStep plainOptions) greetingQueue
        (ackedWhileRetrying ++ [.advance 0 22, .advance 0 23] ++ loadAgain ++ [.advance 2 32])
      ∃ entries, q.calls[2]? = some (.loaded entries) ∧ ∃ e ∈ entries, e.id = js "m1" :=
  ⟨List.mem_of_getElem? (i := 1) rfl, [greeting.failedAttempt (js "timeout") 10], rfl, _,
    List.mem_singleton.mpr rfl, rfl⟩

end Shizuha.Gateway
