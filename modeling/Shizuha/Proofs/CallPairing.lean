import Shizuha.Agent.Turn
import Shizuha.Machine

/-!
# Every call has its result

A result is found by the id of its call, and the id in it is the last one that
was written to the object. `Linked` is the invariant of the executions: the
object an execution was answered with has the id of its call, and both maps
lead from an id to an execution of a call with that id. It is kept as long as
no object answers two calls, which is what `Op.Kept` asks of the tools.

What the turn still owes is a matter of its stage: `Owed` says of every call
that its result is in the map, or its execution is awaited, or its turn is
still to come. At the end nothing is awaited and nothing is to come.
-/

namespace Shizuha.Agent

open Js Machine
open State (ToolResult)

/-- The calls a message makes. -/
def ContentBlock.call? : ContentBlock → Option ToolCall
  | .toolUse id name input => some ⟨id, name, input⟩
  | _ => none

def callsOf (m : Message ContentBlock) : List ToolCall := (blocksOf m).filterMap ContentBlock.call?

/-- What a turn promises of what it returns. -/
structure Paired (t : Turn) (r : TurnResult) : Prop where
  blocks : r.requiredToolFailure = none → callsOf r.assistantMessage = r.toolCalls
  length : r.toolResults.length = r.toolCalls.length
  ids : r.toolResults.map ToolResult.toolUseId = r.toolCalls.map ToolCall.id
  dropped : t.signal = .firedInStream ∨ r.stopReason = some (js "max_tokens") →
    ∀ tc ∈ r.toolCalls, tc ∈ t.salvaged

/-- No tool hands back an object that a call with another id was answered
with, or changes the id in an object that it has handed back, and the stream
of a turn that was aborted does not end by itself. -/
def Op.Kept (t : Turn) : Op → Prop
  | .attemptEnds k (.resolved ref) _ _ => ∀ own ∈ t.runs[k]?, ∀ run ∈ t.runs,
      run.phase = .done ref → run.call.id = own.call.id
  | .toolWrites ref result => ∀ run ∈ t.runs, run.phase = .done ref →
      result.toolUseId = run.call.id
  | .streamEnds .. => t.signal ≠ .firedInStream
  | _ => True

/-! ## Maps -/

section Maps

variable {β : Type} {key id : Text} {value v : β} {m : List (Text × β)}

theorem mem_mapSet (h : (id, v) ∈ mapSet key value m) : id = key ∧ v = value ∨ (id, v) ∈ m := by
  induction m with
  | nil => simpa [mapSet] using h
  | cons entry m ih =>
      obtain ⟨k, w⟩ := entry
      by_cases hk : k = key
      · simp only [mapSet, hk, if_pos, List.mem_cons, Prod.mk.injEq] at h
        rcases h with ⟨rfl, rfl⟩ | h
        · exact .inl ⟨rfl, rfl⟩
        · exact .inr (List.mem_cons_of_mem _ h)
      · simp only [mapSet, if_neg hk, List.mem_cons] at h
        rcases h with h | h
        · exact .inr (h ▸ List.mem_cons_self)
        · exact (ih h).imp_right (List.mem_cons_of_mem _)

theorem mapGet_cons (entry : Text × β) :
    mapGet id (entry :: m) = if entry.1 = id then some entry.2 else mapGet id m := by
  by_cases h : entry.1 = id <;> simp [mapGet, h]

theorem mapGet_isSome_mapSet :
    (mapGet id (mapSet key value m)).isSome ↔ id = key ∨ (mapGet id m).isSome := by
  induction m with
  | nil =>
      by_cases h : key = id <;> simp [mapSet, mapGet, h, eq_comm]
  | cons entry m ih =>
      obtain ⟨k, w⟩ := entry
      by_cases hk : k = key
      · subst hk
        by_cases h : k = id
        · simp [mapSet, mapGet_cons, h]
        · simp [mapSet, mapGet_cons, h, Ne.symm h]
      · by_cases h : k = id
        · subst h
          simp [mapSet, hk, mapGet_cons]
        · simp [mapSet, hk, mapGet_cons, h, ih]

theorem mem_of_mapGet (h : mapGet id m = some v) : (id, v) ∈ m := by
  obtain ⟨entry, hentry, rfl⟩ := Option.map_eq_some_iff.mp h
  have hid : entry.1 = id := by simpa using List.find?_some hentry
  exact hid ▸ List.mem_of_find?_eq_some hentry

end Maps

/-! ## The heap -/

/-- The id in an object. -/
def Heap.idAt (h : Heap) (ref : ℕ) : Option Text := h[ref]?.map fun c => c.result.toolUseId

section Objects

variable {h h' : Heap} {ref r : ℕ} {id i : Text} {tc : ToolCall} {handler : Option ToolHandler}
  {aborted : Bool} {ending : AttemptEnd} {hookError : Option Text} {durationMs : Double}

theorem Heap.idAt_alloc (hr : h.idAt r = some i) (made : Bool) (result : ToolResult) :
    (h.alloc made result).idAt r = some i := by
  obtain ⟨c, hc, rfl⟩ := Option.map_eq_some_iff.mp hr
  have hlt : r < h.length := (List.getElem?_eq_some_iff.mp hc).1
  simp [idAt, alloc, List.getElem?_append_left hlt, hc]

@[simp] theorem Heap.idAt_alloc_length (made : Bool) (result : ToolResult) :
    (h.alloc made result).idAt h.length = some result.toolUseId := by
  simp [idAt, alloc]

theorem Heap.idAt_length : h.idAt h.length = none := by simp [idAt]

@[simp] theorem Heap.idAt_time : (h.time ref durationMs).idAt r = h.idAt r := by
  by_cases hr : ref = r <;> cases hc : h[r]? <;>
    simp [idAt, time, hr, hc]

theorem Heap.idAt_stamp : (h.stamp ref id).idAt r = if ref = r then (h.idAt r).map fun _ => id
    else h.idAt r := by
  by_cases hr : ref = r <;> cases hc : h[r]? <;>
    simp [idAt, stamp, hr, hc, cappedToolResult]

@[simp] theorem ownResult_toolUseId (content : Text) (isError : Bool) :
    (ownResult tc content isError).toolUseId = tc.id := rfl

/-- Whichever check answers, the answer has the id of the call. -/
theorem guardedResult_toolUseId {a : Answers} {result : ToolResult}
    (hg : guardedResult tc handler a = some result) : result.toolUseId = tc.id := by
  unfold guardedResult at hg
  split at hg
  · cases hg; rfl
  · cases hg; rfl
  · cases hg; rfl
  · split at hg
    · cases hg; rfl
    · split at hg
      · cases hg; rfl
      · obtain ⟨hook, -, rfl⟩ := Option.map_eq_some_iff.mp hg
        rfl

/-- An attempt settles with an object of a tool, or with a new one; what was
on the heap is as it was. -/
theorem settledWith_spec (hs : settledWith h tc handler aborted ending = some (h', ref)) :
    (∃ i, h'.idAt ref = some i) ∧ (∀ r i, h.idAt r = some i → h'.idAt r = some i) ∧
      (ending = .resolved ref ∨ h.idAt ref = none) := by
  cases ending with
  | cancelled unsettled =>
      obtain ⟨-, heq⟩ := Option.ite_none_right_eq_some.mp hs
      cases heq
      exact ⟨⟨_, Heap.idAt_alloc_length ..⟩, fun _ _ hr => Heap.idAt_alloc hr .., .inr Heap.idAt_length⟩
  | wedged unsettled =>
      obtain ⟨silentMs, -, heq⟩ := Option.map_eq_some_iff.mp hs
      cases heq
      exact ⟨⟨_, Heap.idAt_alloc_length ..⟩, fun _ _ hr => Heap.idAt_alloc hr .., .inr Heap.idAt_length⟩
  | resolved ref' =>
      obtain ⟨hmade, heq⟩ := Option.ite_none_right_eq_some.mp hs
      cases heq
      cases hc : h[ref]? with
      | none => simp [hc] at hmade
      | some c => exact ⟨⟨c.result.toolUseId, by simp [Heap.idAt, hc]⟩, fun _ _ hr => hr, .inl rfl⟩
  | failed => cases hs
  | checkpointFailed => cases hs

/-- The object a call is answered with has its id, and so does every object
that had it before. -/
theorem returned_spec (tc : ToolCall) (hookError : Option Text) (durationMs : Double)
    (hi : h.idAt ref = some i) :
    (returned h ref tc hookError durationMs).1.idAt (returned h ref tc hookError durationMs).2 =
        some tc.id ∧
      ∀ r i, h.idAt r = some i → (r = ref → i = tc.id) →
        (returned h ref tc hookError durationMs).1.idAt r = some i := by
  have hkept : ∀ r i, h.idAt r = some i → (r = ref → i = tc.id) →
      (h.stamp ref tc.id).idAt r = some i := by
    intro r i hr himp
    rw [Heap.idAt_stamp, hr]
    split
    · next heq => rw [himp heq.symm, Option.map_some]
    · rfl
  cases hookError with
  | none =>
      refine ⟨?_, fun r i hr himp => ?_⟩
      · simp [returned, Heap.idAt_stamp, hi]
      · simpa [returned] using hkept r i hr himp
  | some message =>
      have hlen : (h.stamp ref tc.id).length = h.length := by simp [Heap.stamp]
      refine ⟨?_, fun r i hr himp => ?_⟩
      · simp only [returned, Heap.idAt_time]
        rw [Heap.idAt_alloc_length]
        rfl
      · simpa [returned] using Heap.idAt_alloc (hkept r i hr himp) ..

end Objects

/-! ## Executions -/

/-- The execution is one of a call with this id. -/
def Turn.ran (t : Turn) (k : ℕ) (id : Text) : Prop :=
  ∃ run, t.runs[k]? = some run ∧ run.call.id = id

/-- A call with this id was answered with this object. -/
def Turn.answered (t : Turn) (id : Text) (ref : ℕ) : Prop :=
  ∃ run ∈ t.runs, run.phase = .done ref ∧ run.call.id = id

structure Linked (t : Turn) : Prop where
  stamped : ∀ id ref, t.answered id ref → t.heap.idAt ref = some id
  inflight : ∀ id k, (id, k) ∈ t.inflightResults → t.ran k id
  mapped : ∀ id ref, (id, ref) ∈ t.resultMap → t.answered id ref

/-- Executions stay what they are, and what is answered stays answered. -/
structure Grows (t t' : Turn) : Prop where
  ran : ∀ k id, t.ran k id → t'.ran k id
  answered : ∀ id ref, t.answered id ref → t'.answered id ref

theorem Grows.refl (t : Turn) : Grows t t := ⟨fun _ _ h => h, fun _ _ h => h⟩

theorem Grows.trans {t t' t'' : Turn} (h : Grows t t') (h' : Grows t' t'') : Grows t t'' :=
  ⟨fun k id hr => h'.ran k id (h.ran k id hr),
    fun id ref ha => h'.answered id ref (h.answered id ref ha)⟩

section Executions

variable {t t' : Turn} {j k : ℕ} {run : Run} {phase : Phase} {id : Text} {ref : ℕ} {h : Heap}

theorem Grows.of_runs (hr : t'.runs = t.runs) : Grows t t' := by
  refine ⟨fun k id => ?_, fun id ref => ?_⟩
  · unfold Turn.ran
    rw [hr]
    exact fun h => h
  · unfold Turn.answered
    rw [hr]
    exact fun h => h

/-- `Linked` speaks of the executions, the heap and the two maps only. -/
theorem Linked.congr (hl : Linked t) (hr : t'.runs = t.runs) (hh : t'.heap = t.heap)
    (hi : t'.inflightResults = t.inflightResults) (hm : t'.resultMap = t.resultMap) :
    Linked t' where
  stamped id ref ha := hh ▸ hl.stamped id ref ((Grows.of_runs hr.symm).answered id ref ha)
  inflight id k hik := (Grows.of_runs hr).ran k id (hl.inflight id k (hi ▸ hik))
  mapped id ref hir := (Grows.of_runs hr).answered id ref (hl.mapped id ref (hm ▸ hir))

theorem ran_setPhase : (t.setPhase k phase).ran j id ↔ t.ran j id := by
  by_cases hj : k = j <;> cases hr : t.runs[j]? <;> simp [Turn.ran, Turn.setPhase, hj, hr]

/-- What an execution that had not settled becomes is all that changes. -/
theorem answered_setPhase (hk : t.runs[k]? = some run) (hopen : run.phase.settled = false) :
    (t.setPhase k phase).answered id ref ↔
      t.answered id ref ∨ phase = .done ref ∧ run.call.id = id := by
  simp only [Turn.answered, Turn.setPhase, List.mem_iff_getElem?, List.getElem?_modify]
  constructor
  · rintro ⟨r, ⟨j, hj⟩, hdone, hid⟩
    obtain ⟨r', hr', rfl⟩ := Option.map_eq_some_iff.mp hj
    by_cases hkj : k = j
    · subst hkj
      rw [hk] at hr'
      cases hr'
      exact .inr ⟨by simpa using hdone, by simpa using hid⟩
    · exact .inl ⟨r', ⟨j, hr'⟩, by simpa [hkj] using hdone, by simpa [hkj] using hid⟩
  · rintro (⟨r, ⟨j, hj⟩, hdone, hid⟩ | ⟨rfl, rfl⟩)
    · have hkj : k ≠ j := by
        rintro rfl
        rw [hk] at hj
        cases hj
        rw [hdone] at hopen
        exact absurd hopen (by simp [Phase.settled])
      exact ⟨r, ⟨j, by simp [hj, hkj]⟩, hdone, hid⟩
    · exact ⟨{ run with phase := .done ref }, ⟨k, by simp [hk]⟩, rfl, rfl⟩

theorem Grows.setPhase (hk : t.runs[k]? = some run) (hopen : run.phase.settled = false) :
    Grows t (t.setPhase k phase) :=
  ⟨fun _ _ => ran_setPhase.mpr, fun _ _ ha => (answered_setPhase hk hopen).mpr (.inl ha)⟩

theorem Linked.setPhase (hl : Linked t) (hk : t.runs[k]? = some run)
    (hopen : run.phase.settled = false) (hphase : ∀ ref, phase ≠ .done ref) :
    Linked (t.setPhase k phase) where
  stamped id ref ha := by
    rcases (answered_setPhase hk hopen).mp ha with ha | ⟨hdone, -⟩
    · exact hl.stamped id ref ha
    · exact absurd hdone (hphase ref)
  inflight id k' hik := ran_setPhase.mpr (hl.inflight id k' hik)
  mapped id ref hir := (Grows.setPhase hk hopen).answered id ref (hl.mapped id ref hir)

/-- An execution is answered by an object with its id, and the other answers
still have theirs. -/
theorem Linked.answer (hl : Linked t) (hk : t.runs[k]? = some run)
    (hopen : run.phase.settled = false) (hnew : h.idAt ref = some run.call.id)
    (hold : ∀ id r, t.answered id r → h.idAt r = some id) : Linked (t.answer k (h, ref)) := by
  have hk' : { t with heap := h }.runs[k]? = some run := hk
  refine ⟨fun id r ha => ?_, fun id k' hik => ran_setPhase.mpr (hl.inflight id k' hik),
    fun id r hir => ?_⟩
  · rcases (answered_setPhase hk' hopen).mp ha with ha | ⟨hdone, rfl⟩
    · exact hold id r ha
    · cases hdone
      exact hnew
  · exact (answered_setPhase hk' hopen).mpr (.inl (hl.mapped id r hir))

theorem Grows.answer (hk : t.runs[k]? = some run) (hopen : run.phase.settled = false) :
    Grows t (t.answer k (h, ref)) := by
  have hheap : Grows t { t with heap := h } := Grows.of_runs rfl
  exact hheap.trans (Grows.setPhase hk hopen)

/-! Starting a call adds an execution of it. -/

theorem answered_startCall (tc : ToolCall) (streamed : Bool) :
    (t.startCall tc streamed).answered id ref ↔ t.answered id ref := by
  simp only [Turn.answered, Turn.startCall, List.mem_append, List.mem_singleton]
  constructor
  · rintro ⟨r, hr | rfl, hdone, hid⟩
    · exact ⟨r, hr, hdone, hid⟩
    · cases hdone
  · rintro ⟨r, hr, hdone, hid⟩
    exact ⟨r, .inl hr, hdone, hid⟩

theorem ran_startCall (tc : ToolCall) (streamed : Bool) :
    (t.startCall tc streamed).ran t.runs.length tc.id := by
  simp [Turn.ran, Turn.startCall]

theorem Grows.startCall (tc : ToolCall) (streamed : Bool) : Grows t (t.startCall tc streamed) := by
  refine ⟨fun k id => ?_, fun id ref => (answered_startCall tc streamed).mpr⟩
  rintro ⟨run, hrun, hid⟩
  have hlt : k < t.runs.length := (List.getElem?_eq_some_iff.mp hrun).1
  exact ⟨run, by rw [Turn.startCall, List.getElem?_append_left hlt, hrun], hid⟩

theorem Linked.startCall (hl : Linked t) (tc : ToolCall) (streamed : Bool) :
    Linked (t.startCall tc streamed) where
  stamped id ref ha := hl.stamped id ref ((answered_startCall tc streamed).mp ha)
  inflight id k hik := (Grows.startCall tc streamed).ran k id (hl.inflight id k hik)
  mapped id ref hir := (answered_startCall tc streamed).mpr (hl.mapped id ref hir)

end Executions

/-! ## What is owed -/

/-- The turn awaits the executions in `started` and has `todo` still to start;
nothing else is missing. -/
structure Owed (t : Turn) (started : List (Text × ℕ)) (todo : List ToolCall) : Prop where
  signal : t.signal ≠ .firedInStream
  message : ∀ m ∈ t.assistantMessage, callsOf m = t.toolCalls
  dropped : t.stopReason = some (js "max_tokens") → ∀ tc ∈ t.toolCalls, tc ∈ t.salvaged
  running : ∀ id k, (id, k) ∈ started → t.ran k id
  owed : ∀ tc ∈ t.toolCalls,
    (mapGet tc.id t.resultMap).isSome ∨ (∃ k, (tc.id, k) ∈ started) ∨ tc ∈ todo

/-- What is known at each stage. -/
def StageOk (t : Turn) : Prop :=
  match t.stage with
  | .streaming | .thrown => True
  | .dropping => t.signal ≠ .firedInStream
  | .inflight readOnly writes => Owed t t.inflightResults (readOnly ++ writes)
  | .readOnly started writes => Owed t (t.idsOf started) writes
  | .writing current rest => Owed t (t.idsOf [current]) rest
  | .returned r => Paired t r

/-- The invariant of a turn. -/
structure TurnSound (t : Turn) : Prop where
  linked : Linked t
  stage : StageOk t

/-- Everything but the executions and their objects is as it was; the signal
may have fired after the stream. -/
structure SameCalls (t t' : Turn) : Prop where
  toolCalls : t'.toolCalls = t.toolCalls
  salvaged : t'.salvaged = t.salvaged
  stopReason : t'.stopReason = t.stopReason
  assistantMessage : t'.assistantMessage = t.assistantMessage
  resultMap : t'.resultMap = t.resultMap
  inflightResults : t'.inflightResults = t.inflightResults
  stage : t'.stage = t.stage
  signal : t'.signal = .firedInStream → t.signal = .firedInStream ∨ t.stage = .streaming

section Owing

variable {t t' : Turn} {started started' : List (Text × ℕ)} {todo : List ToolCall} {k : ℕ}
  {id : Text} {ks : List ℕ}

theorem mem_idsOf : (id, k) ∈ t.idsOf ks ↔ k ∈ ks ∧ t.ran k id := by
  simp only [Turn.idsOf, List.mem_filterMap, Option.map_eq_some_iff, Prod.mk.injEq, Turn.ran]
  constructor
  · rintro ⟨j, hj, run, hrun, hid, rfl⟩
    exact ⟨hj, run, hrun, hid⟩
  · rintro ⟨hk, run, hrun, hid⟩
    exact ⟨k, hk, run, hrun, hid, rfl⟩

theorem Owed.frame (ho : Owed t started todo) (hs : SameCalls t t')
    (hstage : t.stage ≠ .streaming) (hstarted : ∀ id k, (id, k) ∈ started → (id, k) ∈ started')
    (hran : ∀ id k, (id, k) ∈ started' → t'.ran k id) : Owed t' started' todo where
  signal h := (hs.signal h).elim ho.signal hstage
  message := by
    rw [hs.assistantMessage, hs.toolCalls]
    exact ho.message
  dropped := by
    rw [hs.stopReason, hs.toolCalls, hs.salvaged]
    exact ho.dropped
  running := hran
  owed tc htc := by
    rw [hs.resultMap]
    rcases ho.owed tc (hs.toolCalls ▸ htc) with h | ⟨k, hk⟩ | h
    · exact .inl h
    · exact .inr (.inl ⟨k, hstarted tc.id k hk⟩)
    · exact .inr (.inr h)

/-- What happens beside the turn does not touch what it owes. -/
theorem StageOk.frame (ho : StageOk t) (hs : SameCalls t t') (hg : Grows t t') : StageOk t' := by
  have hids : ∀ ks id k, (id, k) ∈ t.idsOf ks → (id, k) ∈ t'.idsOf ks := fun ks id k h =>
    mem_idsOf.mpr ⟨(mem_idsOf.mp h).1, hg.ran k id (mem_idsOf.mp h).2⟩
  unfold StageOk at ho ⊢
  rw [hs.stage]
  cases hstage : t.stage with
  | streaming => trivial
  | thrown => trivial
  | dropping =>
      rw [hstage] at ho
      intro h
      rcases hs.signal h with h | h
      · exact ho h
      · exact absurd (hstage.symm.trans h) (by simp)
  | inflight readOnly writes =>
      rw [hstage] at ho
      have hne : t.stage ≠ .streaming := by simp [hstage]
      refine ho.frame hs hne (fun id k h => hs.inflightResults ▸ h) fun id k h => ?_
      exact hg.ran k id (ho.running id k (hs.inflightResults ▸ h))
  | readOnly ks writes =>
      rw [hstage] at ho
      exact ho.frame hs (by simp [hstage]) (hids ks) fun id k h => (mem_idsOf.mp h).2
  | writing current rest =>
      rw [hstage] at ho
      exact ho.frame hs (by simp [hstage]) (hids [current]) fun id k h => (mem_idsOf.mp h).2
  | returned r =>
      rw [hstage] at ho
      refine ⟨ho.blocks, ho.length, ho.ids, fun h => ?_⟩
      rw [hs.salvaged]
      refine ho.dropped (h.imp_left fun h => ?_)
      exact (hs.signal h).resolve_right (by simp [hstage])

theorem TurnSound.frame (h : TurnSound t) (hs : SameCalls t t') (hg : Grows t t')
    (hl : Linked t') : TurnSound t' := ⟨hl, h.stage.frame hs hg⟩

end Owing

/-! ## Beside the turn -/

section Beside

variable {t : Turn} {k : ℕ} {durationMs : Double}

theorem SameCalls.setPhase (phase : Phase) : SameCalls t (t.setPhase k phase) :=
  ⟨rfl, rfl, rfl, rfl, rfl, rfl, rfl, fun h => .inl h⟩

theorem SameCalls.answer (heapAndRef : Heap × ℕ) : SameCalls t (t.answer k heapAndRef) :=
  ⟨rfl, rfl, rfl, rfl, rfl, rfl, rfl, fun h => .inl h⟩

theorem TurnSound.advance {run : Run} (h : TurnSound t) (hk : t.runs[k]? = some run)
    (hopen : run.phase.settled = false) {phase : Phase} (hphase : ∀ ref, phase ≠ .done ref) :
    TurnSound (t.setPhase k phase) :=
  h.frame (.setPhase phase) (.setPhase hk hopen) (h.linked.setPhase hk hopen hphase)

theorem TurnSound.answer {run : Run} {heap : Heap} {ref : ℕ} (h : TurnSound t)
    (hk : t.runs[k]? = some run) (hopen : run.phase.settled = false)
    (hnew : heap.idAt ref = some run.call.id)
    (hold : ∀ id r, t.answered id r → heap.idAt r = some id) :
    TurnSound (t.answer k (heap, ref)) :=
  h.frame (.answer _) (.answer hk hopen) (h.linked.answer hk hopen hnew hold)

/-- An execution is answered by a new object. -/
theorem TurnSound.answerNew {run : Run} {result : ToolResult} (h : TurnSound t)
    (hk : t.runs[k]? = some run) (hopen : run.phase.settled = false)
    (hid : result.toolUseId = run.call.id) :
    TurnSound (t.answer k
      ((t.heap.alloc false result).time t.heap.length durationMs, t.heap.length)) := by
  refine h.answer hk hopen (by simp [hid]) fun id r ha => ?_
  rw [Heap.idAt_time]
  exact Heap.idAt_alloc (h.linked.stamped id r ha) false result

theorem TurnSound.onGuards (h : TurnSound t) (answers : Option Answers) :
    TurnSound (t.onGuards k answers durationMs) := by
  unfold Turn.onGuards
  split
  · next tc handler streamed hk =>
      cases answers with
      | none => exact h.advance hk rfl (by simp)
      | some a =>
          cases hg : guardedResult tc handler a with
          | none => simpa only [hg] using h.advance hk rfl (by simp)
          | some result =>
              simpa only [hg] using h.answerNew hk rfl (guardedResult_toolUseId hg)
  · exact h

/-- The object that settles an execution is stamped with its id; by `Op.Kept`
this takes the id of no other call away. -/
theorem TurnSound.onSettled {ending : AttemptEnd} {hookError : Option Text} {tc : ToolCall}
    {handler : Option ToolHandler} {streamed : Bool} {heap : Heap} {ref : ℕ} (h : TurnSound t)
    (hkept : Op.Kept t (.attemptEnds k ending hookError durationMs))
    (hk : t.runs[k]? = some ⟨tc, handler, streamed, .executing⟩)
    (hs : settledWith t.heap tc handler t.aborted ending = some (heap, ref)) :
    TurnSound (t.answer k (returned heap ref tc hookError durationMs)) := by
  obtain ⟨⟨i, hi⟩, hold, hfresh⟩ := settledWith_spec hs
  obtain ⟨hnew, hothers⟩ := returned_spec tc hookError durationMs hi
  refine h.answer hk rfl hnew fun id r ha => ?_
  refine hothers r id (hold r id (h.linked.stamped id r ha)) ?_
  rintro rfl
  rcases hfresh with rfl | hnone
  · obtain ⟨run, hrun, hdone, rfl⟩ := ha
    exact hkept _ hk run hrun hdone
  · exact absurd (h.linked.stamped id r ha) (by simp [hnone])

theorem TurnSound.onAttemptEnds {ending : AttemptEnd} {hookError : Option Text} (h : TurnSound t)
    (hkept : Op.Kept t (.attemptEnds k ending hookError durationMs)) :
    TurnSound (t.onAttemptEnds k ending hookError durationMs) := by
  unfold Turn.onAttemptEnds
  split
  · next tc handler streamed hk =>
      split
      · next message retryable =>
          split
          · exact h.frame ⟨rfl, rfl, rfl, rfl, rfl, rfl, rfl, fun h => .inl h⟩ (.of_runs rfl)
              (h.linked.congr rfl rfl rfl rfl)
          · exact h.answerNew hk rfl rfl
      · exact h.advance hk rfl (by simp)
      · split
        · exact h
        · next heap ref hs => exact h.onSettled hkept hk hs
  · exact h

theorem TurnSound.toolMakes (h : TurnSound t) (result : ToolResult) :
    TurnSound { t with heap := t.heap.alloc true result } := by
  refine h.frame ⟨rfl, rfl, rfl, rfl, rfl, rfl, rfl, fun h => .inl h⟩ (.of_runs rfl) ?_
  exact ⟨fun id r ha => Heap.idAt_alloc (h.linked.stamped id r ha) true result,
    h.linked.inflight, h.linked.mapped⟩

theorem TurnSound.toolWrites {ref : ℕ} {result : ToolResult} (h : TurnSound t)
    (hkept : Op.Kept t (.toolWrites ref result)) :
    TurnSound { t with heap := t.heap.modify ref fun c => if c.ofTool then ⟨true, result⟩ else c } := by
  refine h.frame ⟨rfl, rfl, rfl, rfl, rfl, rfl, rfl, fun h => .inl h⟩ (.of_runs rfl) ?_
  refine ⟨fun id r ha => ?_, h.linked.inflight, h.linked.mapped⟩
  obtain ⟨c, hc, hid⟩ := Option.map_eq_some_iff.mp (h.linked.stamped id r ha)
  obtain ⟨run, hrun, hdone, rfl⟩ := ha
  by_cases hr : ref = r
  · subst hr
    cases hmade : c.ofTool <;> simp [Heap.idAt, hc, hmade, hid, hkept run hrun hdone]
  · simp [Heap.idAt, hc, hr, hid]

end Beside

/-! ## The results in order -/

section Results

variable {t : Turn} {started : List (Text × ℕ)} {todo : List ToolCall} {m : Message ContentBlock}

theorem map_filterMap_eq {α β γ : Type} {f : α → Option β} {g : β → γ} {h : α → γ} {l : List α}
    (hf : ∀ x ∈ l, ∃ y, f x = some y ∧ g y = h x) : (l.filterMap f).map g = l.map h := by
  induction l with
  | nil => rfl
  | cons x l ih =>
      obtain ⟨y, hy, hg⟩ := hf x List.mem_cons_self
      simp [hy, hg, ih fun z hz => hf z (List.mem_cons_of_mem x hz)]

/-- With nothing awaited and nothing to do, the results are those of the
calls, in their order. -/
theorem Owed.finish (hl : Linked t) (ho : Owed t [] []) (hm : t.assistantMessage = some m) :
    Paired (t.finish m) (t.result m t.toolCalls t.toolResults none) := by
  have hids : t.toolResults.map ToolResult.toolUseId = t.toolCalls.map ToolCall.id := by
    refine map_filterMap_eq fun tc htc => ?_
    have hsome : (mapGet tc.id t.resultMap).isSome := by simpa using ho.owed tc htc
    obtain ⟨ref, href⟩ := Option.isSome_iff_exists.mp hsome
    obtain ⟨c, hc, hid⟩ := Option.map_eq_some_iff.mp
      (hl.stamped _ _ (hl.mapped _ _ (mem_of_mapGet href)))
    exact ⟨c.result, by simp [href, hc], hid⟩
  refine ⟨fun _ => ho.message m hm, ?_, hids, ?_⟩
  · have hlen := congrArg List.length hids
    rwa [List.length_map, List.length_map] at hlen
  · rintro (hsignal | hstop)
    · exact absurd hsignal ho.signal
    · exact ho.dropped hstop

/-- Nothing is owed to a turn without calls. -/
theorem Paired.of_no_calls {r : TurnResult} (hcalls : r.toolCalls = []) (hresults : r.toolResults = [])
    (hm : r.requiredToolFailure = none → callsOf r.assistantMessage = []) : Paired t r := by
  refine ⟨fun h => by rw [hm h, hcalls], by simp [hresults, hcalls],
    by simp [hresults, hcalls], ?_⟩
  intro _ tc htc
  rw [hcalls] at htc
  exact absurd htc List.not_mem_nil

theorem TurnSound.nextWrite {writes : List ToolCall} (hl : Linked t) (ho : Owed t [] writes)
    (hm : t.assistantMessage = some m) : TurnSound (t.nextWrite m writes) := by
  cases writes with
  | nil => exact ⟨hl.congr rfl rfl rfl rfl, ho.finish hl hm⟩
  | cons tc rest =>
      refine ⟨(hl.startCall tc false).congr rfl rfl rfl rfl, ?_⟩
      have hnew : (t.startCall tc false).ran t.runs.length tc.id := ran_startCall tc false
      refine ⟨ho.signal, ho.message, ho.dropped, fun id k h => (mem_idsOf.mp h).2, fun c hc => ?_⟩
      rcases ho.owed c hc with h | ⟨k, hk⟩ | h
      · exact .inl h
      · exact absurd hk List.not_mem_nil
      · rcases List.mem_cons.mp h with rfl | h
        · exact .inr (.inl ⟨t.runs.length, mem_idsOf.mpr ⟨List.mem_singleton_self _, hnew⟩⟩)
        · exact .inr (.inr h)

/-- Several calls are started one after the other. -/
theorem startAll (hl : Linked t) (calls : List ToolCall) :
    ∃ runs, calls.foldl (fun t tc => t.startCall tc false) t = { t with runs := runs } ∧
      Linked { t with runs := runs } ∧ Grows t { t with runs := runs } ∧ ∀ tc ∈ calls,
        ∃ k ∈ (List.range calls.length).map (t.runs.length + ·), { t with runs := runs }.ran k tc.id := by
  induction calls generalizing t with
  | nil => exact ⟨t.runs, rfl, hl, .refl t, fun tc htc => absurd htc List.not_mem_nil⟩
  | cons tc calls ih =>
      obtain ⟨runs, heq, hl', hg, hran⟩ := ih (hl.startCall tc false)
      refine ⟨runs, heq, hl', (Grows.startCall tc false).trans hg, fun c hc => ?_⟩
      rcases List.mem_cons.mp hc with rfl | hc
      · exact ⟨t.runs.length, by simp, hg.ran _ _ (ran_startCall c false)⟩
      · obtain ⟨k, hk, hkran⟩ := hran c hc
        obtain ⟨i, hi, rfl⟩ := List.mem_map.mp hk
        refine ⟨_, List.mem_map.mpr ⟨i + 1, ?_, ?_⟩, hkran⟩
        · simpa using List.mem_range.mp hi
        · simp only [Turn.startCall, List.length_append, List.length_singleton]
          omega

theorem TurnSound.startReadOnly {readOnly writes : List ToolCall} (hl : Linked t)
    (ho : Owed t [] (readOnly ++ writes)) : TurnSound (t.startReadOnly readOnly writes) := by
  obtain ⟨runs, heq, hl', -, hran⟩ := startAll hl readOnly
  unfold Turn.startReadOnly
  rw [heq]
  refine ⟨hl'.congr rfl rfl rfl rfl, ho.signal, ho.message, ho.dropped,
    fun id k h => (mem_idsOf.mp h).2, fun tc htc => ?_⟩
  rcases ho.owed tc htc with h | ⟨k, hk⟩ | h
  · exact .inl h
  · exact absurd hk List.not_mem_nil
  · rcases List.mem_append.mp h with h | h
    · obtain ⟨k, hk, hkran⟩ := hran tc h
      exact .inr (.inl ⟨k, mem_idsOf.mpr ⟨hk, hkran⟩⟩)
    · exact .inr (.inr h)

/-! Awaiting what was started moves its results into the map. -/

theorem record_mem {entries : List (Text × ℕ)} {map : List (Text × ℕ)}
    (hran : ∀ id k, (id, k) ∈ entries → t.ran k id)
    {id : Text} {ref : ℕ} (h : (id, ref) ∈ entries.foldl t.recordOne map) :
    (id, ref) ∈ map ∨ t.answered id ref := by
  induction entries generalizing map with
  | nil => exact .inl h
  | cons entry entries ih =>
      obtain ⟨key, k⟩ := entry
      rcases ih (fun id k hk => hran id k (List.mem_cons_of_mem _ hk)) h with h | h
      · obtain ⟨run, hrun, hid⟩ := hran key k List.mem_cons_self
        unfold Turn.recordOne Turn.doneRef at h
        rw [hrun] at h
        cases hphase : run.phase with
        | done r =>
            simp only [hphase, Option.map_some] at h
            rcases mem_mapSet h with ⟨rfl, rfl⟩ | h
            · exact .inr ⟨run, List.mem_of_getElem? hrun, hphase, hid⟩
            · exact .inl h
        | guarding => exact .inl (by simpa [hphase] using h)
        | executing => exact .inl (by simpa [hphase] using h)
        | rejected => exact .inl (by simpa [hphase] using h)
      · exact .inr h

theorem record_isSome {entries : List (Text × ℕ)} {map : List (Text × ℕ)} {id : Text}
    (h : (mapGet id map).isSome ∨ ∃ k, (id, k) ∈ entries ∧ (t.doneRef k).isSome) :
    (mapGet id (entries.foldl t.recordOne map)).isSome := by
  induction entries generalizing map with
  | nil => simpa using h
  | cons entry entries ih =>
      obtain ⟨key, k⟩ := entry
      refine ih ?_
      unfold Turn.recordOne
      rcases h with h | ⟨j, hj, hdone⟩
      · cases hk : t.doneRef k with
        | none => exact .inl h
        | some ref => exact .inl (mapGet_isSome_mapSet.mpr (.inr h))
      · rcases List.mem_cons.mp hj with heq | hj
        · cases heq
          obtain ⟨ref, href⟩ := Option.isSome_iff_exists.mp hdone
          simp only [href]
          exact .inl (mapGet_isSome_mapSet.mpr (.inl rfl))
        · exact .inr ⟨j, hj, hdone⟩

/-- When everything awaited is done the turn goes on with only `todo` owed. -/
theorem TurnSound.awaitAll {next : Turn → Turn} (h : TurnSound t) (ho : Owed t started todo)
    (hnext : ∀ resultMap, Linked { t with resultMap := resultMap } →
      Owed { t with resultMap := resultMap } [] todo →
      TurnSound (next { t with resultMap := resultMap })) :
    TurnSound (t.awaitAll started next) := by
  unfold Turn.awaitAll
  split
  · exact ⟨h.linked.congr rfl rfl rfl rfl, trivial⟩
  · split
    · next hdone =>
        have hall : ∀ entry ∈ started, (t.doneRef entry.2).isSome := by simpa using hdone
        refine hnext _ ⟨h.linked.stamped, h.linked.inflight, fun id ref hir => ?_⟩ ?_
        · exact (record_mem ho.running hir).elim (h.linked.mapped id ref) fun ha => ha
        · refine ⟨ho.signal, ho.message, ho.dropped, fun id k hk => absurd hk List.not_mem_nil,
            fun tc htc => ?_⟩
          rcases ho.owed tc htc with hsome | ⟨k, hk⟩ | htodo
          · exact .inl (record_isSome (.inl hsome))
          · exact .inl (record_isSome (.inr ⟨k, hk, hall _ hk⟩))
          · exact .inr (.inr htodo)
    · exact h

end Results

/-! ## The end of the stream -/

/-- The two turns have the same executions, and the same signal. -/
structure SameRuns (t t' : Turn) : Prop where
  runs : t'.runs = t.runs
  heap : t'.heap = t.heap
  inflightResults : t'.inflightResults = t.inflightResults
  resultMap : t'.resultMap = t.resultMap
  signal : t'.signal = t.signal

theorem SameRuns.refl (t : Turn) : SameRuns t t := ⟨rfl, rfl, rfl, rfl, rfl⟩

theorem SameRuns.trans {t t' t'' : Turn} (h : SameRuns t t') (h' : SameRuns t' t'') :
    SameRuns t t'' :=
  ⟨h'.runs.trans h.runs, h'.heap.trans h.heap, h'.inflightResults.trans h.inflightResults,
    h'.resultMap.trans h.resultMap, h'.signal.trans h.signal⟩

theorem Linked.same {t t' : Turn} (hl : Linked t) (h : SameRuns t t') : Linked t' :=
  hl.congr h.runs h.heap h.inflightResults h.resultMap

/-- A truncated turn has no calls but salvaged ones. -/
def Dropped (t : Turn) : Prop :=
  t.stopReason = some (js "max_tokens") → ∀ tc ∈ t.toolCalls, tc ∈ t.salvaged

section EndOfStream

variable {e : TurnEnv} {t : Turn} {now : Double} {clock : ℕ} {marks : ℕ → Text}

theorem same_stopDegenerate (v : Verdict) (fallback : Text) :
    SameRuns t (t.stopDegenerate v fallback) := ⟨rfl, rfl, rfl, rfl, rfl⟩

theorem same_flush : SameRuns t (t.flush e) := by
  unfold Turn.flush
  split
  · exact .refl t
  · exact ⟨rfl, rfl, rfl, rfl, rfl⟩

theorem same_salvage : SameRuns t (t.salvage e marks) := by
  unfold Turn.salvage
  dsimp only
  split_ifs <;> exact ⟨rfl, rfl, rfl, rfl, rfl⟩

/-- What becomes a call of a turn that has none is salvaged. -/
theorem dropped_salvage (h : t.stopReason = some (js "max_tokens") → t.toolCalls = []) :
    Dropped (t.salvage e marks) := by
  have hnone : t.stopReason = some (js "max_tokens") → ∀ tc ∈ t.toolCalls, tc ∈ t.salvaged :=
    fun hstop tc htc => absurd htc (by simp [h hstop])
  unfold Turn.salvage Dropped
  dsimp only
  split_ifs
  · exact fun _ tc htc => htc
  · exact hnone
  · exact fun _ tc htc => htc
  · exact hnone
  · exact hnone

theorem same_clearChatter : SameRuns t t.clearChatter := by
  unfold Turn.clearChatter
  split_ifs <;> exact ⟨rfl, rfl, rfl, rfl, rfl⟩

theorem dropped_clearChatter (h : Dropped t) : Dropped t.clearChatter := by
  unfold Turn.clearChatter
  split
  · intro hstop
    refine h ?_
    dsimp only at hstop
    split at hstop
    · exact absurd (Option.some.inj hstop) (by decide)
    · exact hstop
  · exact h

theorem same_judge : SameRuns t (t.judge e) := by
  unfold Turn.judge
  dsimp only
  split_ifs <;> first | exact same_stopDegenerate .. | exact .refl t

theorem dropped_judge (h : Dropped t) : Dropped (t.judge e) := by
  have hstop : ∀ v, Dropped (t.stopDegenerate v (js "repeated_output")) := fun v hs =>
    absurd (Option.some.inj hs) (by decide)
  unfold Turn.judge
  dsimp only
  split_ifs <;> first | exact hstop _ | exact h

theorem contentOf_cases (blocks : List ContentBlock) :
    (∃ s, blocks = [.text s] ∧ contentOf blocks = .text s) ∨
      contentOf blocks = .blocks blocks := by
  unfold contentOf
  split
  · exact .inl ⟨_, rfl, rfl⟩
  · exact .inr rfl

theorem callsOf_contentOf (blocks : List ContentBlock) (m : Message ContentBlock)
    (hm : m.content = contentOf blocks) : callsOf m = blocks.filterMap ContentBlock.call? := by
  unfold callsOf blocksOf
  rw [hm]
  rcases contentOf_cases blocks with ⟨s, rfl, htext⟩ | hblocks
  · rw [htext]
    rfl
  · rw [hblocks]

/-- The calls of the message are the turn's. -/
theorem callsOf_message : callsOf (t.message e now clock) = t.toolCalls := by
  rw [callsOf_contentOf (t.contentBlocks e clock) _ rfl]
  have hcalls : (t.toolCalls.map ToolCall.block).filterMap ContentBlock.call? = t.toolCalls := by
    rw [List.filterMap_map]
    exact List.filterMap_some
  have hreasoning (l : List ReasoningBlock) :
      (l.map ReasoningBlock.block).filterMap ContentBlock.call? = [] := by
    rw [List.filterMap_map, List.filterMap_eq_nil_iff]
    exact fun _ _ => rfl
  unfold Turn.contentBlocks
  dsimp only
  rw [List.filterMap_append, List.filterMap_append, List.filterMap_append, hcalls, hreasoning]
  split_ifs <;> rfl

/-- From the end of the stream on, every call is in one of the three places it
can be in. -/
theorem owed_remaining (m : Message ContentBlock) (hm : callsOf m = t.toolCalls)
    (hsignal : t.signal ≠ .firedInStream) (hd : Dropped t) (hl : Linked t) :
    Owed { t with assistantMessage := some m, stage := .inflight t.remaining.1 t.remaining.2 }
      t.inflightResults (t.remaining.1 ++ t.remaining.2) := by
  refine ⟨hsignal, fun m' hm' => ?_, hd, hl.inflight, fun tc htc => ?_⟩
  · cases hm'
    exact hm
  · cases hget : mapGet tc.id t.inflightResults with
    | some k => exact .inr (.inl ⟨k, mem_of_mapGet hget⟩)
    | none =>
        refine .inr (.inr ?_)
        simp only [Turn.remaining, List.partition_eq_filter_filter, List.mem_append,
          List.mem_filter, Function.comp_apply]
        cases hread : t.isReadOnly tc
        · exact .inr ⟨⟨htc, by simp [hget]⟩, by simp⟩
        · exact .inl ⟨⟨htc, by simp [hget]⟩, rfl⟩

theorem TurnSound.afterStream (hl : Linked t) (hsignal : t.signal ≠ .firedInStream)
    (hstop : t.stopReason = some (js "max_tokens") → t.toolCalls = []) :
    TurnSound (t.afterStream e now clock marks) := by
  have hsame : SameRuns t (((t.salvage e marks).clearChatter).judge e) :=
    (same_salvage.trans same_clearChatter).trans same_judge
  have hd : Dropped (((t.salvage e marks).clearChatter).judge e) :=
    dropped_judge (dropped_clearChatter (dropped_salvage hstop))
  unfold Turn.afterStream
  dsimp only
  generalize ((t.salvage e marks).clearChatter).judge e = s at hsame hd ⊢
  have hls : Linked s := hl.same hsame
  have hmessage : callsOf (s.message e now clock) = s.toolCalls := callsOf_message
  split
  · next failure hfailure =>
      refine ⟨hls.congr rfl rfl rfl rfl, Paired.of_no_calls rfl rfl fun h => ?_⟩
      exact absurd h (by simp [Turn.result])
  · split
    · next hempty =>
        have hnil : s.toolCalls = [] := List.isEmpty_iff.mp hempty
        refine ⟨hls.congr rfl rfl rfl rfl, Paired.of_no_calls hnil ?_ fun _ => ?_⟩
        · simp [Turn.result, Turn.toolResults, hnil]
        · exact hmessage.trans hnil
    · refine ⟨hls.congr rfl rfl rfl rfl, owed_remaining _ hmessage ?_ hd hls⟩
      rwa [hsame.signal]

theorem TurnSound.closeStream (hl : Linked t) (hsignal : t.signal ≠ .firedInStream) :
    TurnSound (t.closeStream e now clock marks) := by
  have hlf : Linked (t.flush e) := hl.same same_flush
  have hsf : (t.flush e).signal ≠ .firedInStream := by rwa [same_flush.signal]
  unfold Turn.closeStream
  dsimp only
  split
  · exact ⟨hlf.congr rfl rfl rfl rfl, trivial⟩
  · split
    · exact ⟨hlf.congr rfl rfl rfl rfl, hsf⟩
    · next hcalls =>
        refine .afterStream hlf hsf fun hstop => ?_
        by_contra hne
        exact hcalls ⟨hstop, by simpa using hne⟩

theorem TurnSound.interrupted (hl : Linked t) : TurnSound (t.interrupted e now) :=
  ⟨(hl.same same_flush).congr rfl rfl rfl rfl, Paired.of_no_calls rfl rfl fun _ => rfl⟩

end EndOfStream

/-! ## Steps -/

section Steps

variable {e : TurnEnv} {t : Turn} {now : Double} {clock : ℕ} {marks : ℕ → Text}

theorem Linked.startStreamed (hl : Linked t) (tc : ToolCall) : Linked (t.startStreamed tc) where
  stamped i ref ha := hl.stamped i ref ((answered_startCall tc true).mp ha)
  inflight key k hk := by
    rcases mem_mapSet hk with ⟨rfl, rfl⟩ | hk
    · exact ran_startCall tc true
    · exact (Grows.startCall tc true).ran k key (hl.inflight key k hk)
  mapped i ref hi := (answered_startCall tc true).mpr (hl.mapped i ref hi)

/-- A chunk leaves the turn streaming, and its signal alone. -/
structure Streams (t t' : Turn) : Prop where
  linked : Linked t'
  signal : t'.signal = t.signal
  stage : t'.stage = t.stage

theorem streams_toolUseEnd (hl : Linked t) (id : Text) (input : Json) :
    Streams t (t.toolUseEnd e id input) := by
  have htake : Linked (t.takeCall (t.decode e id input)) := hl.congr rfl rfl rfl rfl
  unfold Turn.toolUseEnd
  dsimp only
  split
  · exact ⟨htake.startStreamed _, rfl, rfl⟩
  · exact ⟨htake, rfl, rfl⟩

theorem streams_onText (hl : Linked t) (piece : Text) : Streams t (t.onText e piece).1 := by
  have hsame : SameRuns t (t.onText e piece).1 ∧ (t.onText e piece).1.stage = t.stage := by
    unfold Turn.onText
    dsimp only
    split_ifs <;> exact ⟨⟨rfl, rfl, rfl, rfl, rfl⟩, rfl⟩
  exact ⟨hl.same hsame.1, hsame.1.signal, hsame.2⟩

theorem streams_onFinalText (hl : Linked t) (said : Text) : Streams t (t.onFinalText e said) := by
  have hsame : SameRuns t (t.onFinalText e said) ∧ (t.onFinalText e said).stage = t.stage := by
    unfold Turn.onFinalText
    dsimp only
    split_ifs <;> exact ⟨⟨rfl, rfl, rfl, rfl, rfl⟩, rfl⟩
  exact ⟨hl.same hsame.1, hsame.1.signal, hsame.2⟩

theorem streams_onChunk (hl : Linked t) (c : StreamChunk) : Streams t (t.onChunk e c).1 := by
  cases c with
  | text piece => exact streams_onText hl piece
  | finalText said => exact streams_onFinalText hl said
  | toolUseStart id name => exact ⟨hl.congr rfl rfl rfl rfl, rfl, rfl⟩
  | toolUseDelta id input =>
      unfold Turn.onChunk
      dsimp only
      split
      · exact ⟨hl, rfl, rfl⟩
      · exact ⟨hl.congr rfl rfl rfl rfl, rfl, rfl⟩
  | toolUseEnd id input => exact streams_toolUseEnd hl id input
  | reasoning block => exact ⟨hl.congr rfl rfl rfl rfl, rfl, rfl⟩
  | reasoningText piece =>
      unfold Turn.onChunk
      dsimp only
      split
      · exact ⟨hl.congr rfl rfl rfl rfl, rfl, rfl⟩
      · exact ⟨hl, rfl, rfl⟩
  | stopReason reason => exact ⟨hl.congr rfl rfl rfl rfl, rfl, rfl⟩
  | other => exact ⟨hl, rfl, rfl⟩

theorem TurnSound.onChunkSeen (hl : Linked t) (hstage : t.stage = .streaming) (c : StreamChunk) :
    TurnSound (t.onChunkSeen e c now clock marks) := by
  have hs : Streams t (t.onChunk e c).1 := streams_onChunk hl c
  unfold Turn.onChunkSeen
  split
  · exact .interrupted hl
  · next hquiet =>
      have hsignal : t.signal = .quiet := by simpa [Turn.aborted] using hquiet
      split
      · exact ⟨hl.congr rfl rfl rfl rfl, trivial⟩
      · split
        next t' left heq =>
          rw [heq] at hs
          split
          · have hquiet : t'.signal = .quiet := hs.signal.trans hsignal
            exact .closeStream hs.linked (by simp [hquiet])
          · refine ⟨hs.linked, ?_⟩
            unfold StageOk
            rw [hs.stage, hstage]
            trivial

theorem TurnSound.onResume (h : TurnSound t) : TurnSound (t.onResume e now clock marks) := by
  have hok := h.stage
  unfold StageOk at hok
  unfold Turn.onResume
  split
  · next hstage =>
      rw [hstage] at hok
      split
      · exact .afterStream (h.linked.congr rfl rfl rfl rfl) hok fun _ => rfl
      · exact h
  · next readOnly writes m hstage hm =>
      rw [hstage] at hok
      refine h.awaitAll hok fun resultMap hl ho => ?_
      split
      · next hnone =>
          rw [List.isEmpty_iff.mp hnone] at ho
          exact .nextWrite hl ho hm
      · exact .startReadOnly hl ho
  · next ks writes m hstage hm =>
      rw [hstage] at hok
      exact h.awaitAll hok fun resultMap hl ho => .nextWrite hl ho hm
  · next current rest m hstage hm =>
      rw [hstage] at hok
      exact h.awaitAll hok fun resultMap hl ho => .nextWrite hl ho hm
  · exact h

theorem TurnSound.abort (h : TurnSound t) : TurnSound (t.step e .abort) := by
  have hl (signal : AbortSignal) : Linked { t with signal := signal } :=
    h.linked.congr rfl rfl rfl rfl
  unfold Turn.step
  dsimp only
  split
  · next hquiet hstage =>
      refine h.frame ⟨rfl, rfl, rfl, rfl, rfl, rfl, rfl, fun _ => .inr hstage⟩ (.of_runs rfl) (hl _)
  · refine h.frame ⟨rfl, rfl, rfl, rfl, rfl, rfl, rfl, fun h => ?_⟩ (.of_runs rfl) (hl _)
    exact absurd h (by simp)
  · exact h

/-- One step of anybody. -/
theorem TurnSound.step (h : TurnSound t) (op : Op) (hkept : op.Kept t) : TurnSound (t.step e op) := by
  cases op with
  | refresh registry =>
      exact h.frame ⟨rfl, rfl, rfl, rfl, rfl, rfl, rfl, fun h => .inl h⟩ (.of_runs rfl)
        (h.linked.congr rfl rfl rfl rfl)
  | abort => exact h.abort
  | chunk c now clock marks =>
      unfold Turn.step
      dsimp only
      split
      · next hstage => exact .onChunkSeen h.linked hstage c
      · exact h
  | streamEnds now clock marks =>
      unfold Turn.step
      dsimp only
      split
      · exact .closeStream h.linked hkept
      · exact h
  | streamFails now =>
      unfold Turn.step
      dsimp only
      split
      · split
        · exact .interrupted h.linked
        · exact ⟨h.linked.congr rfl rfl rfl rfl, trivial⟩
      · exact h
  | guards k answers durationMs => exact h.onGuards answers
  | attemptEnds k ending hookError durationMs => exact h.onAttemptEnds hkept
  | toolMakes result => exact h.toolMakes result
  | toolWrites ref result => exact h.toolWrites hkept
  | resume now clock marks => exact h.onResume

theorem turnSound_init (registry : List ToolHandler) (aborted : Bool) (kept : List ToolResult)
    (maxRetries : ℕ) : TurnSound (.init registry aborted kept maxRetries) := by
  refine ⟨⟨fun id ref ha => ?_, fun id k h => absurd h List.not_mem_nil,
    fun id ref h => absurd h List.not_mem_nil⟩, trivial⟩
  obtain ⟨run, hrun, -⟩ := ha
  exact absurd hrun List.not_mem_nil

/-- In every run whose tools keep to their objects, and whose stream does not
end by itself after an abort, what the turn returns is paired. -/
theorem calls_paired (e : TurnEnv) (registry : List ToolHandler) (aborted : Bool)
    (kept : List ToolResult) (maxRetries : ℕ) (ops : List Op)
    (h : Along (Turn.step e) (fun t op => op.Kept t) (.init registry aborted kept maxRetries) ops) :
    Throughout (Turn.step e) (fun t => ∀ r, t.stage = .returned r → Paired t r)
      (.init registry aborted kept maxRetries) ops := by
  have hsound : Throughout (Turn.step e) TurnSound (.init registry aborted kept maxRetries) ops :=
    throughout_of_step (fun t op ht hop => ht.step op hop) (turnSound_init ..) h
  refine hsound.mono fun t ht r hr => ?_
  have hok := ht.stage
  unfold StageOk at hok
  rwa [hr] at hok

end Steps

/-! ## Two runs that break it -/

/-- A provider that streams no text. -/
def plainEnv : TurnEnv where
  providerName := js "openai"
  toolsEnabled := true
  requiredTool := none
  paramCoercion := none
  talkSeatSuppressesTools := false
  holdDsmlStreamDelta := fun delta carry _ => (carry ++ delta, [])
  salvageDsmlToolCalls := fun text => ⟨false, [], text⟩
  detectScriptCollapse := fun _ => ⟨false, none, none⟩
  detectOutputDegeneracy := fun _ _ => ⟨false, none, none⟩
  formatDegeneracyStopNotice := fun reason _ => reason

def noon : Double := Double.ofInt 0 zero_small

def lookupTool : ToolHandler := ⟨js "lookup", true, none⟩

/-- What the tool keeps: its answer to everything. -/
def keptResult : ToolResult := ⟨[], js "no such entry", none, none, none, none⟩

def lookupTurn : Turn := .init [lookupTool] false [keptResult] 2

def streamedCall (id : Text) : List Op :=
  [.chunk (.toolUseStart id (js "lookup")) noon 0 fun _ => [],
    .chunk (.toolUseEnd id (.obj [])) noon 0 fun _ => []]

def passGuards (k : ℕ) : Op := .guards k (some ⟨none, none, .allow, none, []⟩) noon

/-- One call, answered by an object of its own. -/
def oneCall : List Op :=
  streamedCall (js "a") ++ [.streamEnds noon 0 fun _ => [], passGuards 0, .toolMakes keptResult,
    .attemptEnds 0 (.resolved 1) none noon, .resume noon 0 fun _ => []]

theorem oneCall_kept :
    Along (Turn.step plainEnv) (fun t op => op.Kept t) lookupTurn oneCall := by
  refine ⟨trivial, trivial, fun h => (nomatch h), trivial, trivial, ?_, trivial, trivial⟩
  intro own _ run hrun hdone
  rcases List.mem_singleton.mp hrun with rfl
  cases hdone

/-- The turn of one call, as an instance of the theorem. -/
theorem calls_paired_oneCall : ∃ r, (run (Turn.step plainEnv) lookupTurn oneCall).stage = .returned r ∧
    r.toolCalls.length = 1 ∧ Paired (run (Turn.step plainEnv) lookupTurn oneCall) r :=
  ⟨_, rfl, rfl, (calls_paired plainEnv [lookupTool] false [keptResult] 2 oneCall oneCall_kept).last _ rfl⟩

/-- Two calls, answered by the same object. -/
def sharedObject : List Op :=
  streamedCall (js "a") ++ streamedCall (js "b") ++
    [.streamEnds noon 0 fun _ => [], passGuards 0, passGuards 1,
      .attemptEnds 0 (.resolved 0) none noon, .attemptEnds 1 (.resolved 0) none noon,
      .resume noon 0 fun _ => []]

/-- The abort comes after the last chunk. -/
def lateAbort : List Op :=
  streamedCall (js "a") ++ [.abort, .streamEnds noon 0 fun _ => [], passGuards 0,
    .attemptEnds 0 (.cancelled false) none noon, .resume noon 0 fun _ => []]

/-- The first result has the id of the second call; and a call of an aborted
stream is returned. -/
theorem calls_unpaired :
    (∃ r, (run (Turn.step plainEnv) lookupTurn sharedObject).stage = .returned r ∧
      ¬ Paired (run (Turn.step plainEnv) lookupTurn sharedObject) r) ∧
    ∃ r, (run (Turn.step plainEnv) lookupTurn lateAbort).stage = .returned r ∧
      ¬ Paired (run (Turn.step plainEnv) lookupTurn lateAbort) r := by
  refine ⟨⟨_, rfl, fun h => ?_⟩, ⟨_, rfl, fun h => ?_⟩⟩
  · have hids : [js "b", js "b"] = [js "a", js "b"] := h.ids
    exact absurd hids (by decide)
  · exact absurd (h.dropped (.inl rfl) _ List.mem_cons_self) List.not_mem_nil

end Shizuha.Agent
