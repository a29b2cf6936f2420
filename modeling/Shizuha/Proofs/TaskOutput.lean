import Shizuha.Machine
import Shizuha.Tasks.Registry

/-!
# What a delta of output holds

The registry run next to what has been appended to every task since its last
delta was taken. A buffer that has never been cut is easy: the offset counts
what was reported, and the rest is the delta. Once the buffer has lost its
head the offset counts in a buffer that is no longer there. `Buffered` is what
must hold for the next delta to be right all the same, and an append keeps it
unless it cuts the buffer under an offset that points past its start.
-/

namespace Shizuha.Tasks

open Js Machine

structure OutputTrace where
  registry : Registry
  /-- What was appended to a task since its last delta. -/
  pending : Text → Text

def OutputTrace.start : OutputTrace := ⟨.empty, fun _ => []⟩

/-- The delta of a task that a call takes, before it is shortened for display. -/
def deltaTaken (s : Registry) (id : Text) : RegistryOp → Option Text
  | .getOutput id' false => if id' = id then (s.get id).map BackgroundTask.delta else none
  | .collectAttachments _ =>
      (s.get id).bind fun t => (collectTask t).1.map fun _ => t.delta
  | _ => none

def pendingAfter (s : Registry) (id pending : Text) : RegistryOp → Text
  | .create id' _ _ _ => if id' = id then [] else pending
  | .appendOutput id' chunk _ => if id' = id then pending ++ chunk else pending
  | op => if (deltaTaken s id op).isSome then [] else pending

def outputStep (toLowerCase : Text → Text) (τ : OutputTrace) (op : RegistryOp) : OutputTrace :=
  ⟨registryStep toLowerCase τ.registry op,
    fun id => pendingAfter τ.registry id (τ.pending id) op⟩

/-- A delta that is right for what is pending: it ends with all of it, or with
its last characters, as many as the buffer holds, and what comes before that
is nothing but the notice of the cut. -/
def Delivers (pending delta : Text) : Prop :=
  ∃ notice tail n, delta = notice ++ tail ∧ notice <:+ trimNotice n ∧ tail <:+ pending ∧
    min pending.length maxOutputBytes ≤ tail.length

/-- An append that cuts the buffer finds the offset no further than the notice
of the cut, with a bufferful pending; or by luck the cut moves the buffer by
just as much as the notice is long. -/
def OffsetKept (τ : OutputTrace) : RegistryOp → Prop
  | .appendOutput id chunk _ => ∀ t, τ.registry.get id = some t →
      maxOutputBytes < (t.output ++ chunk).length →
        let notice := (trimNotice ((t.output ++ chunk).length - maxOutputBytes)).length
        let pending := (τ.pending id ++ chunk).length
        (t.outputOffset ≤ notice ∧ maxOutputBytes ≤ pending) ∨
          t.outputOffset + pending = notice + maxOutputBytes
  | _ => True

/-- No watch changes the notification policy. -/
def DefaultPolicy : RegistryOp → Prop
  | .watch _ _ _ _ => False
  | _ => True

/-! ## The buffer -/

/-- The buffer of a task: a notice, if it was cut, and what was appended last,
which begins before what is pending or after it. The offset marks where the
pending output begins, unless all of the buffer is pending. -/
structure Buffered (t : BackgroundTask) (pending notice tail : Text) : Prop where
  output : t.output = notice ++ tail
  cut : notice = [] ∨ (∃ n, notice = trimNotice n) ∧ tail.length = maxOutputBytes
  bounded : tail.length ≤ maxOutputBytes
  aligned : pending <:+ tail ∨ tail <:+ pending
  offset : t.outputOffset + pending.length = t.output.length ∨
    t.outputOffset ≤ notice.length ∧ tail.length = maxOutputBytes ∧
      maxOutputBytes ≤ pending.length

variable {t : BackgroundTask} {pending notice tail chunk : Text}

theorem suffix_of_length_le (h : pending <:+ tail ∨ tail <:+ pending)
    (hle : pending.length ≤ tail.length) : pending <:+ tail := by
  rcases h with h | h
  · exact h
  · rw [h.eq_of_length_le hle]

/-- All of the buffer is pending. -/
theorem delivers_all (hn : ∃ n, notice = trimNotice n) (hlength : tail.length = maxOutputBytes)
    (halign : pending <:+ tail ∨ tail <:+ pending) (hpending : maxOutputBytes ≤ pending.length)
    {k : ℕ} (hk : k ≤ notice.length) : Delivers pending ((notice ++ tail).drop k) := by
  obtain ⟨n, rfl⟩ := hn
  refine ⟨(trimNotice n).drop k, tail, n, List.drop_append_of_le_length hk, List.drop_suffix _ _,
    suffix_of_length_le halign.symm (by rw [hlength]; exact hpending), ?_⟩
  rw [hlength]
  exact min_le_right _ _

theorem Buffered.delivers (h : Buffered t pending notice tail) : Delivers pending t.delta := by
  have hlen : t.output.length = notice.length + tail.length := by
    rw [h.output, List.length_append]
  rw [BackgroundTask.delta, slice_natCast, h.output]
  rcases h.offset with hoffset | ⟨hoffset, hfull, hpending⟩
  · by_cases hle : pending.length ≤ tail.length
    · -- the offset points at the first pending character
      obtain ⟨older, rfl⟩ := suffix_of_length_le h.aligned hle
      rw [List.length_append] at hlen
      have hdrop : (notice ++ (older ++ pending)).drop t.outputOffset = pending := by
        rw [← List.append_assoc]
        exact List.drop_left' (by rw [List.length_append]; omega)
      rw [hdrop]
      exact ⟨[], pending, 0, rfl, List.nil_suffix, List.suffix_rfl, min_le_left _ _⟩
    · rcases h.cut with rfl | ⟨hn, hfull⟩
      · rw [List.length_nil] at hlen
        omega
      · exact delivers_all hn hfull h.aligned (by omega) (by omega)
  · rcases h.cut with rfl | ⟨hn, -⟩
    · -- an uncut buffer: the offset is at its start
      rw [List.nil_append, Nat.eq_zero_of_le_zero hoffset, List.drop_zero]
      exact ⟨[], tail, 0, rfl, List.nil_suffix,
        suffix_of_length_le h.aligned.symm (by omega), by omega⟩
    · exact delivers_all hn hfull h.aligned hpending hoffset

theorem buffered_reported (h : Buffered t pending notice tail) :
    Buffered t.reported [] notice tail :=
  ⟨h.output, h.cut, h.bounded, .inl List.nil_suffix, .inl rfl⟩

theorem aligned_append (h : pending <:+ tail ∨ tail <:+ pending) (chunk : Text) :
    pending ++ chunk <:+ tail ++ chunk ∨ tail ++ chunk <:+ pending ++ chunk := by
  rcases h with ⟨older, rfl⟩ | ⟨older, rfl⟩
  · exact .inl ⟨older, (List.append_assoc _ _ _).symm⟩
  · exact .inr ⟨older, (List.append_assoc _ _ _).symm⟩

theorem appendBounded_short {output : Text} (h : (output ++ chunk).length ≤ maxOutputBytes) :
    appendBounded output chunk = output ++ chunk := by
  rw [appendBounded]
  exact if_neg (Nat.not_lt.mpr h)

theorem appendBounded_long {output : Text} (h : maxOutputBytes < (output ++ chunk).length) :
    appendBounded output chunk = trimNotice ((output ++ chunk).length - maxOutputBytes) ++
      (output ++ chunk).drop ((output ++ chunk).length - maxOutputBytes) := by
  rw [appendBounded, if_pos h, slice_neg _ maxOutputBytes_pos]

/-- An append that does not cut. -/
theorem buffered_append_short (h : Buffered t pending notice tail)
    (hshort : (t.output ++ chunk).length ≤ maxOutputBytes) :
    Buffered { t with output := appendBounded t.output chunk } (pending ++ chunk) [] (tail ++ chunk) := by
  have hlen : (t.output ++ chunk).length = notice.length + tail.length + chunk.length := by
    rw [h.output, List.length_append, List.length_append]
  have hnotice : notice = [] := by
    rcases h.cut with hnil | ⟨-, hfull⟩
    · exact hnil
    · exact List.eq_nil_of_length_eq_zero (by omega)
  subst hnotice
  have houtput : t.output = tail := h.output
  refine ⟨?_, .inl rfl, ?_, aligned_append h.aligned chunk, ?_⟩
  · show appendBounded t.output chunk = _
    rw [appendBounded_short hshort, houtput]
    rfl
  · rw [← houtput]
    exact hshort
  · show t.outputOffset + _ = (appendBounded t.output chunk).length ∨ _
    rw [appendBounded_short hshort, List.length_append, List.length_append]
    rcases h.offset with hoffset | ⟨hoffset, hfull, hpending⟩
    · exact .inl (by omega)
    · refine .inr ⟨hoffset, ?_, by omega⟩
      rw [List.length_append] at hshort ⊢
      rw [houtput] at hshort
      omega

/-- An append that cuts: what is left is the end of what was appended. -/
theorem buffered_append_long (h : Buffered t pending notice tail)
    (hlong : maxOutputBytes < (t.output ++ chunk).length)
    (hkept : (t.outputOffset ≤
          (trimNotice ((t.output ++ chunk).length - maxOutputBytes)).length ∧
        maxOutputBytes ≤ (pending ++ chunk).length) ∨
      t.outputOffset + (pending ++ chunk).length =
        (trimNotice ((t.output ++ chunk).length - maxOutputBytes)).length + maxOutputBytes) :
    Buffered { t with output := appendBounded t.output chunk } (pending ++ chunk)
      (trimNotice ((t.output ++ chunk).length - maxOutputBytes))
      ((t.output ++ chunk).drop ((t.output ++ chunk).length - maxOutputBytes)) := by
  have hfull : ((t.output ++ chunk).drop ((t.output ++ chunk).length - maxOutputBytes)).length =
      maxOutputBytes := by
    rw [List.length_drop]
    omega
  refine ⟨appendBounded_long hlong, .inr ⟨⟨_, rfl⟩, hfull⟩, hfull.le, ?_, ?_⟩
  · -- the cut is inside what was appended, for a notice only stands before a full tail
    have hlen : (t.output ++ chunk).length = notice.length + (tail ++ chunk).length := by
      rw [h.output, List.length_append, List.length_append, List.length_append, Nat.add_assoc]
    have htail : notice.length ≤ (t.output ++ chunk).length - maxOutputBytes := by
      rcases h.cut with rfl | ⟨-, hfull⟩
      · exact Nat.zero_le _
      · have : (tail ++ chunk).length = tail.length + chunk.length := List.length_append
        omega
    have hsuffix : (t.output ++ chunk).drop ((t.output ++ chunk).length - maxOutputBytes) <:+
        tail ++ chunk := by
      obtain ⟨k, hk⟩ := Nat.exists_eq_add_of_le htail
      rw [hk, h.output, List.append_assoc, List.drop_append,
        List.drop_eq_nil_of_le (Nat.le_add_right _ _), List.nil_append]
      exact List.drop_suffix _ _
    rcases aligned_append h.aligned chunk with hp | hp
    · exact List.suffix_or_suffix_of_suffix hp hsuffix
    · exact .inr (hsuffix.trans hp)
  · show t.outputOffset + _ = (appendBounded t.output chunk).length ∨ _
    have hcut : (trimNotice ((t.output ++ chunk).length - maxOutputBytes) ++
        (t.output ++ chunk).drop ((t.output ++ chunk).length - maxOutputBytes)).length =
        (trimNotice ((t.output ++ chunk).length - maxOutputBytes)).length +
          ((t.output ++ chunk).drop ((t.output ++ chunk).length - maxOutputBytes)).length :=
      List.length_append
    rw [appendBounded_long hlong, hcut, hfull]
    rcases hkept with ⟨hoffset, hpending⟩ | hoffset
    · exact .inr ⟨hoffset, rfl, hpending⟩
    · exact .inl hoffset

/-! ## Runs -/

/-- What holds of every task: its notices are on, and its buffer is sound for
what is pending. -/
structure OutputSound (τ : OutputTrace) : Prop where
  unwatched : τ.registry.watches.rows = []
  policy : ∀ id t, τ.registry.get id = some t → t.notifyPolicy = .stateChanges
  buffered : ∀ id t, τ.registry.get id = some t →
    ∃ notice tail, Buffered t (τ.pending id) notice tail

theorem outputSound_start : OutputSound .start :=
  ⟨rfl, fun _ _ h => (by cases h), fun _ _ h => (by cases h)⟩

theorem buffered_congr {t' : BackgroundTask} (houtput : t'.output = t.output)
    (hoffset : t'.outputOffset = t.outputOffset) (h : Buffered t pending notice tail) :
    Buffered t' pending notice tail :=
  ⟨houtput.trans h.output, h.cut, h.bounded, h.aligned, by rw [houtput, hoffset]; exact h.offset⟩

/-- What a call leaves of the buffer of a task. -/
inductive OutputChange (s : Registry) (id : Text) (op : RegistryOp) (t' : BackgroundTask) :
    Prop where
  | created (output : t'.output = []) (offset : t'.outputOffset = 0)
      (policy : t'.notifyPolicy = .stateChanges)
      (pending : ∀ pending, pendingAfter s id pending op = [])
  | kept (t : BackgroundTask) (get : s.get id = some t) (output : t'.output = t.output)
      (offset : t'.outputOffset = t.outputOffset) (policy : t'.notifyPolicy = t.notifyPolicy)
      (pending : ∀ pending, pendingAfter s id pending op = pending)
  | taken (t : BackgroundTask) (get : s.get id = some t) (output : t'.output = t.output)
      (offset : t'.outputOffset = t.output.length) (policy : t'.notifyPolicy = t.notifyPolicy)
      (pending : ∀ pending, pendingAfter s id pending op = [])
  | appended (t : BackgroundTask) (get : s.get id = some t) (chunk : Text) (now : ℤ)
      (is : op = .appendOutput id chunk now)
      (task : t' = { t with output := appendBounded t.output chunk })

variable {s : Registry} {id : Text} {t' : BackgroundTask} {toLowerCase : Text → Text}

theorem kept_of_eq {op : RegistryOp} (h : s.get id = some t')
    (hpending : ∀ pending, pendingAfter s id pending op = pending) : OutputChange s id op t' :=
  .kept t' h rfl rfl rfl hpending

theorem kept_of_modify {op : RegistryOp} {id' : Text} {f : BackgroundTask → BackgroundTask}
    (hf : ∀ t, (f t).id = t.id) (h : (s.modify id' f hf).get id = some t')
    (houtput : ∀ t, (f t).output = t.output) (hoffset : ∀ t, (f t).outputOffset = t.outputOffset)
    (hpolicy : ∀ t, (f t).notifyPolicy = t.notifyPolicy)
    (hpending : ∀ pending, pendingAfter s id pending op = pending) : OutputChange s id op t' := by
  rw [get_modify] at h
  split_ifs at h
  · obtain ⟨t, ht, rfl⟩ := Option.map_eq_some_iff.mp h
    exact .kept t ht (houtput t) (hoffset t) (hpolicy t) hpending
  · exact kept_of_eq h hpending

theorem outputChange_appendOutput {id' chunk : Text} {now : ℤ}
    (h : (s.appendOutput id' chunk now).get id = some t') :
    OutputChange s id (.appendOutput id' chunk now) t' := by
  rw [get_appendOutput] at h
  by_cases hsame : id' = id
  · subst hsame
    rw [if_pos rfl] at h
    obtain ⟨t, ht, rfl⟩ := Option.map_eq_some_iff.mp h
    exact .appended t ht chunk now rfl rfl
  · rw [if_neg hsame] at h
    exact kept_of_eq h fun pending => if_neg hsame

theorem reported_id (t : BackgroundTask) : t.reported.id = t.id := rfl

theorem outputChange_getOutput {id' : Text} {full : Bool}
    (h : (s.getOutput id' full).2.get id = some t') :
    OutputChange s id (.getOutput id' full) t' := by
  rw [Registry.getOutput] at h
  cases full with
  | true =>
      refine kept_of_eq ?_ fun pending => rfl
      split at h <;> exact h
  | false =>
      by_cases hsame : id' = id
      · subst hsame
        split at h
        · next hnone =>
            rw [hnone] at h
            cases h
        · have hmodified : (s.modify id' BackgroundTask.reported reported_id).get id' = some t' := h
          rw [get_modify, if_pos rfl] at hmodified
          obtain ⟨t, ht, rfl⟩ := Option.map_eq_some_iff.mp hmodified
          refine .taken t ht rfl rfl rfl fun pending => ?_
          rw [pendingAfter, deltaTaken, if_pos rfl, ht]
          · rfl
          · intros; contradiction
          · intros; contradiction
      · have hnone : deltaTaken s id (.getOutput id' false) = none := if_neg hsame
        refine kept_of_eq ?_ fun pending => ?_
        · split at h
          · exact h
          · have hmodified : (s.modify id' BackgroundTask.reported reported_id).get id = some t' := h
            rwa [get_modify, if_neg hsame] at hmodified
        · show (if (deltaTaken s id (.getOutput id' false)).isSome then [] else pending) = pending
          rw [hnone]
          rfl

/-- Under the default policy a task is read when it gives an attachment and
left alone when it does not. -/
theorem collectTask_taken (hpolicy : t.notifyPolicy = .stateChanges) :
    (collectTask t).2.output = t.output ∧ (collectTask t).2.notifyPolicy = t.notifyPolicy ∧
      (collectTask t).2.outputOffset =
        if (collectTask t).1.isSome then t.output.length else t.outputOffset := by
  rw [collectTask, if_neg (by rw [hpolicy]; intro h; cases h)]
  by_cases hterminal : t.status.isTerminal ∧ t.notified = false
  · rw [if_pos hterminal]
    exact ⟨rfl, rfl, rfl⟩
  · rw [if_neg hterminal]
    split <;> exact ⟨rfl, rfl, rfl⟩

theorem outputChange_collectAttachments {now : ℤ}
    (hpolicy : ∀ id t, s.get id = some t → t.notifyPolicy = .stateChanges)
    (h : (s.collectAttachments now).2.get id = some t') :
    OutputChange s id (.collectAttachments now) t' := by
  obtain ⟨t, ht, rfl⟩ := get_collectAttachments h
  obtain ⟨houtput, hkept, hoffset⟩ := collectTask_taken (hpolicy id t ht)
  have htaken : (deltaTaken s id (.collectAttachments now)).isSome = (collectTask t).1.isSome := by
    rw [deltaTaken, ht, Option.bind_some, Option.isSome_map]
  have hpending : ∀ pending, pendingAfter s id pending (.collectAttachments now) =
      if (collectTask t).1.isSome then [] else pending := by
    intro pending
    show (if (deltaTaken s id (.collectAttachments now)).isSome then [] else pending) = _
    rw [htaken]
  by_cases hsome : (collectTask t).1.isSome
  · rw [if_pos hsome] at hoffset
    exact .taken t ht houtput hoffset hkept fun pending => by rw [hpending, if_pos hsome]
  · rw [if_neg hsome] at hoffset
    exact .kept t ht houtput hoffset hkept fun pending => by rw [hpending, if_neg hsome]

theorem outputChange_step {op : RegistryOp} (hdefault : DefaultPolicy op)
    (hunwatched : s.watches.rows = [])
    (hpolicy : ∀ id t, s.get id = some t → t.notifyPolicy = .stateChanges)
    (h : (registryStep toLowerCase s op).get id = some t') : OutputChange s id op t' := by
  cases op with
  | create id' type description now =>
      have hget := get_create h
      by_cases hsame : id = id'
      · rw [if_pos hsame] at hget
        refine .created hget.1 hget.2.1 ?_ fun pending => if_pos hsame.symm
        rw [hget.2.2, Registry.policyForDescription, hunwatched]
        rfl
      · rw [if_neg hsame] at hget
        exact kept_of_eq hget fun pending => if_neg (Ne.symm hsame)
  | appendOutput id' chunk now => exact outputChange_appendOutput h
  | complete id' exitCode now =>
      rw [registryStep, Registry.complete] at h
      split at h
      · exact kept_of_eq h fun _ => rfl
      · exact kept_of_modify (by exact fun _ => rfl) h (fun _ => rfl) (fun _ => rfl) (fun _ => rfl) fun _ => rfl
  | fail id' error now =>
      rw [registryStep, Registry.fail] at h
      split at h
      · exact kept_of_eq h fun _ => rfl
      · exact kept_of_modify (by exact fun _ => rfl) h (fun _ => rfl) (fun _ => rfl) (fun _ => rfl) fun _ => rfl
  | kill id' now =>
      rw [registryStep, Registry.kill] at h
      split at h
      · exact kept_of_eq h fun _ => rfl
      · split_ifs at h
        · exact kept_of_eq h fun _ => rfl
        · exact kept_of_modify (by exact fun _ => rfl) h (fun _ => rfl) (fun _ => rfl) (fun _ => rfl) fun _ => rfl
  | watch => exact hdefault.elim
  | getOutput id' full => exact outputChange_getOutput h
  | collectAttachments now => exact outputChange_collectAttachments hpolicy h

theorem watches_step {op : RegistryOp} (hdefault : DefaultPolicy op) :
    (registryStep toLowerCase s op).watches = s.watches := by
  cases op with
  | watch => exact hdefault.elim
  | create | collectAttachments => rfl
  | appendOutput id chunk now =>
      rw [registryStep, Registry.appendOutput]
      split
      · rfl
      · dsimp only
        split_ifs <;> rfl
  | complete id exitCode now =>
      rw [registryStep, Registry.complete]
      split <;> rfl
  | fail id error now =>
      rw [registryStep, Registry.fail]
      split <;> rfl
  | kill id now =>
      rw [registryStep, Registry.kill]
      split
      · rfl
      · split_ifs <;> rfl
  | getOutput id full =>
      rw [registryStep, Registry.getOutput]
      split
      · rfl
      · cases full <;> rfl

theorem outputSound_step {τ : OutputTrace} {op : RegistryOp} (h : OutputSound τ)
    (hdefault : DefaultPolicy op) (hkept : OffsetKept τ op) :
    OutputSound (outputStep toLowerCase τ op) := by
  refine ⟨(congrArg Table.rows (watches_step hdefault)).trans h.unwatched, ?_, ?_⟩
  · intro id t' ht'
    cases outputChange_step hdefault h.unwatched h.policy ht' with
    | created _ _ hpolicy => exact hpolicy
    | kept t ht _ _ hpolicy => exact hpolicy.trans (h.policy id t ht)
    | taken t ht _ _ hpolicy => exact hpolicy.trans (h.policy id t ht)
    | appended t ht chunk now _ htask =>
        rw [htask]
        exact h.policy id t ht
  · intro id t' ht'
    have hpending : (outputStep toLowerCase τ op).pending id =
        pendingAfter τ.registry id (τ.pending id) op := rfl
    rw [hpending]
    cases outputChange_step hdefault h.unwatched h.policy ht' with
    | created houtput hoffset _ hafter =>
        rw [hafter]
        exact ⟨[], [], houtput, .inl rfl, Nat.zero_le _, .inl List.nil_suffix,
          .inl (by rw [houtput, hoffset]; rfl)⟩
    | kept t ht houtput hoffset _ hafter =>
        obtain ⟨notice, tail, hbuffer⟩ := h.buffered id t ht
        rw [hafter]
        exact ⟨notice, tail, buffered_congr houtput hoffset hbuffer⟩
    | taken t ht houtput hoffset _ hafter =>
        obtain ⟨notice, tail, hbuffer⟩ := h.buffered id t ht
        rw [hafter]
        exact ⟨notice, tail,
          buffered_congr (t := t.reported) houtput hoffset (buffered_reported hbuffer)⟩
    | appended t ht chunk now hop htask =>
        obtain ⟨notice, tail, hbuffer⟩ := h.buffered id t ht
        subst hop htask
        rw [pendingAfter, if_pos rfl]
        by_cases hlong : maxOutputBytes < (t.output ++ chunk).length
        · exact ⟨_, _, buffered_append_long hbuffer hlong (hkept t ht hlong)⟩
        · exact ⟨_, _, buffered_append_short hbuffer (Nat.le_of_not_lt hlong)⟩

theorem delivers_of_sound {τ : OutputTrace} (h : OutputSound τ) {op : RegistryOp} {id delta : Text}
    (htaken : deltaTaken τ.registry id op = some delta) : Delivers (τ.pending id) delta := by
  have hdelta : ∃ t, τ.registry.get id = some t ∧ delta = t.delta := by
    cases op with
    | getOutput id' full =>
        cases full with
        | true => cases htaken
        | false =>
            rw [deltaTaken] at htaken
            split_ifs at htaken
            obtain ⟨t, ht, rfl⟩ := Option.map_eq_some_iff.mp htaken
            exact ⟨t, ht, rfl⟩
    | collectAttachments now =>
        rw [deltaTaken] at htaken
        obtain ⟨t, ht, hmap⟩ := Option.bind_eq_some_iff.mp htaken
        obtain ⟨a, -, rfl⟩ := Option.map_eq_some_iff.mp hmap
        exact ⟨t, ht, rfl⟩
    | create | appendOutput | complete | fail | kill | watch => cases htaken
  obtain ⟨t, ht, rfl⟩ := hdelta
  obtain ⟨notice, tail, hbuffer⟩ := h.buffered id t ht
  exact hbuffer.delivers

/-- Every delta a run takes is right, as long as no append cuts a buffer away
under the offset. -/
theorem deltas_deliver {ops : List RegistryOp} (hdefault : ∀ op ∈ ops, DefaultPolicy op)
    (hkept : Along (outputStep toLowerCase) OffsetKept .start ops) :
    Along (outputStep toLowerCase)
      (fun τ op => ∀ id delta, deltaTaken τ.registry id op = some delta →
        Delivers (τ.pending id) delta) .start ops :=
  along_of_step (C := fun τ op => DefaultPolicy op ∧ OffsetKept τ op)
    (fun _ _ (h : OutputSound _) hC => ⟨fun _ _ htaken => delivers_of_sound h htaken,
      outputSound_step h hC.1 hC.2⟩)
    outputSound_start ((along_of_forall hdefault _).and hkept)

/-! ## The poll that misses output

A command that prints a bufferful, is polled, and prints thirty characters
more. The next poll has the last nineteen of them. -/

def pollTwice (first more : Text) : List RegistryOp :=
  [.create (js "task-1") .bash (js "make") 0, .appendOutput (js "task-1") first 1,
    .getOutput (js "task-1") false, .appendOutput (js "task-1") more 2]

theorem deltas_deliver_short :
    Along (outputStep fun text => text)
      (fun τ op => ∀ id delta, deltaTaken τ.registry id op = some delta →
        Delivers (τ.pending id) delta) .start
      (pollTwice (js "cc -c a.c\n") (js "cc -c b.c\n") ++
        [.getOutput (js "task-1") false]) := by
  refine deltas_deliver (fun op hop => ?_) ⟨trivial, fun t ht hlong => ?_, trivial,
    fun t ht hlong => ?_, trivial, trivial⟩
  · simp only [pollTwice, List.cons_append, List.nil_append, List.mem_cons, List.not_mem_nil,
      or_false] at hop
    rcases hop with rfl | rfl | rfl | rfl | rfl <;> trivial
  · cases ht
    exact absurd hlong (by decide)
  · cases ht
    exact absurd hlong (by decide)

/-- The registry after the polls, whatever is printed. -/
theorem pollTwice_task (first more : Text) :
    ∃ t, (run (outputStep fun text => text) .start (pollTwice first more)).registry.get
        (js "task-1") = some t ∧
      t.output = appendBounded (appendBounded [] first) more ∧
      t.outputOffset = (appendBounded [] first).length ∧
      (run (outputStep fun text => text) .start (pollTwice first more)).pending (js "task-1") =
        more := by
  let s₁ := Registry.empty.create (fun text => text) (js "task-1") .bash (js "make") 0
  let s₂ := s₁.appendOutput (js "task-1") first 1
  let s₃ := (s₂.getOutput (js "task-1") false).2
  obtain ⟨t₁, ht₁, houtput, hoffset⟩ :
      ∃ t, s₁.get (js "task-1") = some t ∧ t.output = [] ∧ t.outputOffset = 0 := ⟨_, rfl, rfl, rfl⟩
  have ht₂ : s₂.get (js "task-1") = some { t₁ with output := appendBounded t₁.output first } := by
    rw [get_appendOutput, if_pos rfl, ht₁]
    rfl
  have hs₃ : s₃ = s₂.modify (js "task-1") BackgroundTask.reported reported_id := by
    show (s₂.getOutput (js "task-1") false).2 = _
    rw [Registry.getOutput, ht₂]
    rfl
  have ht₃ : s₃.get (js "task-1") = some
      { t₁ with
        output := appendBounded t₁.output first
        outputOffset := (appendBounded t₁.output first).length } := by
    rw [hs₃, get_modify, if_pos rfl, ht₂]
    rfl
  have ht₄ : (s₃.appendOutput (js "task-1") more 2).get (js "task-1") = _ := get_appendOutput
  rw [if_pos rfl, ht₃, Option.map_some, houtput] at ht₄
  refine ⟨_, ht₄, rfl, rfl, ?_⟩
  have htaken : deltaTaken s₂ (js "task-1") (.getOutput (js "task-1") false) =
      some (BackgroundTask.delta { t₁ with output := appendBounded t₁.output first }) := by
    rw [deltaTaken, if_pos rfl, ht₂]
    rfl
  show (if (deltaTaken s₂ (js "task-1") (.getOutput (js "task-1") false)).isSome then [] else _) ++
    more = more
  rw [htaken]
  rfl

theorem poll_misses_output :
    let τ := run (outputStep fun text => text) .start
      (pollTwice (List.replicate maxOutputBytes 97) (List.replicate 30 98))
    ∃ delta, deltaTaken τ.registry (js "task-1") (.getOutput (js "task-1") false) = some delta ∧
      ¬ Delivers (τ.pending (js "task-1")) delta := by
  intro τ
  obtain ⟨t, ht, houtput, hoffset, hpending⟩ :=
    pollTwice_task (List.replicate maxOutputBytes 97) (List.replicate 30 98)
  have hfirst : appendBounded [] (List.replicate maxOutputBytes 97) =
      List.replicate maxOutputBytes 97 :=
    appendBounded_short (by rw [List.nil_append, List.length_replicate])
  have hlength : (List.replicate maxOutputBytes (97 : UInt16) ++ List.replicate 30 98).length =
      maxOutputBytes + 30 := by
    rw [List.length_append, List.length_replicate, List.length_replicate]
  refine ⟨t.delta, ?_, ?_⟩
  · rw [deltaTaken, if_pos rfl]
    exact congrArg (Option.map BackgroundTask.delta) ht
  · rintro ⟨notice, tail, n, hdelta, -, -, hle⟩
    have hshort : t.delta.length = 19 := by
      rw [BackgroundTask.delta, slice_natCast, houtput, hoffset, hfirst,
        appendBounded_long (by rw [hlength]; omega), List.length_drop, List.length_append,
        List.length_drop, hlength, List.length_replicate, Nat.add_sub_cancel_left]
      have hnotice : (trimNotice 30).length = 19 := rfl
      omega
    have htail : tail.length ≤ t.delta.length := by
      rw [hdelta, List.length_append]
      omega
    have hpendinglength : (τ.pending (js "task-1")).length = 30 := by
      rw [hpending]
      rfl
    rw [hpendinglength, min_eq_left (by decide)] at hle
    omega

end Shizuha.Tasks
