import Shizuha.Js.Utf8Chunks
import Shizuha.Proofs.DemotedTask

/-!
# The output of a command, decoded chunk by chunk

Each data handler turns its chunk into text by itself and appends the text. So
what is recorded is the decoding of the pieces, one after the other, whichever
handlers they went through (`inv_pieceRun`), and it is the decoding of the whole
exactly when no chunk is cut inside a character (`recorded_text_iff`).

A task keeps no more than its cap. What was trimmed once is longer than the cap
from then on, so below the cap it is not what the claim asks for either way.
-/

namespace Shizuha.Tools

open Js Machine

/-- What came out of a list of chunks. -/
def decoded (pieces : List Bytes) : Text := (pieces.map utf8Decode).flatten

theorem decoded_append (a b : List Bytes) : decoded (a ++ b) = decoded a ++ decoded b := by
  simp [decoded]

theorem decoded_concat (a : List Bytes) (data : Bytes) :
    decoded (a ++ [data]) = decoded a ++ utf8Decode data := by
  simp [decoded]

/-! ## A task -/

/-- The task has these chunks in full, or has been trimmed. -/
def Keeps (t : DemotedTask) (pieces : List Bytes) : Prop :=
  t.output = decoded pieces ∧ t.output.length ≤ MAX_OUTPUT_BYTES ∨
    MAX_OUTPUT_BYTES < t.output.length ∧ MAX_OUTPUT_BYTES < (decoded pieces).length

theorem appendOutput_output (t : DemotedTask) (chunk : Text) :
    (t.appendOutput chunk).output = t.output ++ chunk ∧
        (t.output ++ chunk).length ≤ MAX_OUTPUT_BYTES ∨
      MAX_OUTPUT_BYTES < (t.output ++ chunk).length ∧
        MAX_OUTPUT_BYTES < (t.appendOutput chunk).output.length := by
  by_cases hlong : MAX_OUTPUT_BYTES < (t.output ++ chunk).length
  · right
    have hout : (t.appendOutput chunk).output =
        js "[" ++ decimal ((t.output ++ chunk).length - MAX_OUTPUT_BYTES) ++
          js " bytes trimmed]\n" ++
          (t.output ++ chunk).drop ((t.output ++ chunk).length - MAX_OUTPUT_BYTES) := by
      rw [DemotedTask.appendOutput, if_pos hlong]
    have hhead : 0 < (js "[").length := by decide
    refine ⟨hlong, ?_⟩
    rw [hout]
    generalize t.output ++ chunk = all at hlong
    rw [List.length_append, List.length_append, List.length_append, List.length_drop]
    omega
  · left
    rw [DemotedTask.appendOutput, if_neg hlong]
    exact ⟨rfl, not_lt.mp hlong⟩

theorem Keeps.appendOutput {t : DemotedTask} {pieces more : List Bytes} (h : Keeps t pieces) :
    Keeps (t.appendOutput (decoded more)) (pieces ++ more) := by
  rw [Keeps, decoded_append]
  rcases appendOutput_output t (decoded more) with ⟨hout, hshort⟩ | ⟨hlong, hout⟩
  · rcases h with ⟨hsame, -⟩ | ⟨htrimmed, -⟩
    · left
      rw [hout, ← hsame]
      exact ⟨rfl, hshort⟩
    · rw [List.length_append] at hshort
      omega
  · right
    refine ⟨hout, ?_⟩
    rcases h with ⟨hsame, -⟩ | ⟨-, hpieces⟩
    · rw [← hsame]
      exact hlong
    · rw [List.length_append]
      omega

theorem keeps_nil (id : Text) : Keeps ⟨id, [], none⟩ [] :=
  .inl ⟨rfl, Nat.zero_le _⟩

/-- Below the cap, what a task has is the whole text exactly when every chunk is
whole. -/
theorem Keeps.output_iff {t : DemotedTask} {pieces : List Bytes} (h : Keeps t pieces)
    (hvalid : ValidUtf8 pieces.flatten)
    (hcap : (utf8Decode pieces.flatten).length ≤ MAX_OUTPUT_BYTES) :
    t.output = utf8Decode pieces.flatten ↔ ∀ piece ∈ pieces, ValidUtf8 piece := by
  rw [← decode_pieces_iff hvalid]
  rcases h with ⟨hsame, -⟩ | ⟨htrimmed, hpieces⟩
  · rw [hsame]
    exact Iff.rfl
  · constructor
    · intro heq
      rw [heq] at htrimmed
      omega
    · intro heq
      rw [decoded, heq] at hpieces
      omega

/-! ## A call -/

/-- A call, the chunks of its two streams while it was in the foreground, and
those its task was given. -/
structure PieceRun where
  call : BashCall
  out : List Bytes
  err : List Bytes
  task : List Bytes

def PieceRun.init : PieceRun := ⟨.init, [], [], []⟩

def pieceStep (ctx : BashContext) (r : PieceRun) (e : BashEvent) : PieceRun :=
  let call := r.call.handle ctx e
  match e with
  | .stdoutData data =>
      if r.call.demoted.isSome then { r with call := call, task := r.task ++ [data] }
      else { r with call := call, out := r.out ++ [data] }
  | .stderrData data =>
      if r.call.demoted.isSome then { r with call := call, task := r.task ++ [data] }
      else { r with call := call, err := r.err ++ [data] }
  | .demote _ =>
      if call.demoted.isSome && r.call.demoted.isNone then
        { r with call := call, task := r.out ++ r.err }
      else { r with call := call }
  | _ => { r with call := call }

/-- What has been collected is what the chunks decode to. -/
structure InvPieces (r : PieceRun) : Prop where
  out : r.call.stdout = decoded r.out
  err : r.call.stderr = decoded r.err
  task : ∀ t ∈ r.call.demoted, Keeps t r.task

/-- The texts of a call, and its task's. -/
def texts (c : BashCall) : Text × Text × Option Text :=
  (c.stdout, c.stderr, c.demoted.map DemotedTask.output)

theorem output_finish (t : DemotedTask) (code : Option ℕ) (signal : Option Text) :
    (BashCall.DemotedTask.finish t code signal).output = t.output := by
  obtain ⟨id, output, outcome⟩ := t
  cases outcome with
  | some o => rfl
  | none =>
      cases code with
      | none => rfl
      | some n => cases n <;> rfl

theorem texts_safeResolve (c : BashCall) (r : ToolResult) : texts (c.safeResolve r) = texts c := by
  rw [BashCall.safeResolve]
  split_ifs <;> rfl

theorem texts_onStdioSettled (ctx : BashContext) (c : BashCall) (code : Option ℕ)
    (signal : Option Text) : texts (c.onStdioSettled ctx code signal) = texts c := by
  rw [BashCall.onStdioSettled]
  split_ifs
  · rfl
  · cases hdemoted : c.demoted with
    | some t => simp [texts, hdemoted, output_finish]
    | none =>
        dsimp only
        split_ifs
        · simp [texts, hdemoted]
        · rw [texts_safeResolve]
          simp [texts, hdemoted]

theorem texts_settleOnExit (ctx : BashContext) (c : BashCall) :
    texts (c.settleOnExit ctx) = texts c := by
  rw [BashCall.settleOnExit]
  split_ifs
  · rfl
  · rfl
  · exact texts_onStdioSettled ctx c _ _

theorem texts_onDrainTimeout (ctx : BashContext) (c : BashCall) :
    texts (c.onDrainTimeout ctx) = texts c := by
  rw [BashCall.onDrainTimeout]
  split_ifs
  · exact texts_onStdioSettled ctx _ _ _
  · rfl

theorem InvPieces.congr {r : PieceRun} (h : InvPieces r) {call : BashCall}
    (hcall : texts call = texts r.call) : InvPieces { r with call := call } := by
  rw [texts, texts, Prod.mk.injEq, Prod.mk.injEq] at hcall
  obtain ⟨hout, herr, htask⟩ := hcall
  refine ⟨hout.trans h.out, herr.trans h.err, fun t ht => ?_⟩
  rw [show call.demoted = some t from ht, Option.map_some] at htask
  obtain ⟨t', ht', houtput⟩ := Option.map_eq_some_iff.mp htask.symm
  have hkeeps := h.task t' ht'
  rwa [Keeps, houtput] at hkeeps

theorem inv_demote {ctx : BashContext} {r : PieceRun} (h : InvPieces r) (taskId : Text) :
    InvPieces (pieceStep ctx r (.demote taskId)) := by
  rw [pieceStep]
  by_cases hfree : (r.call.resolved || r.call.demoted.isSome || !ctx.hasTaskRegistry) = true
  · have hcall : r.call.handle ctx (.demote taskId) = r.call := by
      rw [BashCall.handle, BashCall.demote, if_pos hfree]
    rw [hcall]
    split_ifs with hnew
    · rw [Bool.and_eq_true, Option.isNone_iff_eq_none] at hnew
      rw [hnew.2] at hnew
      cases hnew.1
    · exact h
  · simp only [Bool.or_eq_true, not_or, Bool.not_eq_true] at hfree
    obtain ⟨⟨hopen, hundemoted⟩, hregistry⟩ := hfree
    have hnone : r.call.demoted = none := by
      rw [← Option.not_isSome_iff_eq_none, hundemoted]
      simp
    have hcall : r.call.handle ctx (.demote taskId) =
        { r.call with
          demoted := some ((DemotedTask.appendOutput ⟨taskId, [], none⟩ r.call.stdout).appendOutput
            r.call.stderr)
          resolved := true
          results := r.call.results ++ [BashCall.demotedResult taskId] } := by
      rw [BashCall.handle, BashCall.demote, if_neg (by simp [hopen, hundemoted, hregistry]),
        BashCall.safeResolve, if_neg (by simp [hopen])]
    rw [hcall]
    simp only [hnone, Option.isSome_some, Option.isNone_none, Bool.and_self, if_true]
    refine ⟨h.out, h.err, fun t ht => ?_⟩
    rw [← Option.some.inj ht, h.out, h.err]
    have hout : Keeps _ ([] ++ r.out) := (keeps_nil taskId).appendOutput
    exact hout.appendOutput

theorem inv_pieceStep {ctx : BashContext} {r : PieceRun} (h : InvPieces r) (e : BashEvent) :
    InvPieces (pieceStep ctx r e) := by
  have happend : ∀ (t : DemotedTask) (data : Bytes), Keeps t r.task →
      Keeps (t.appendOutput (utf8Decode data)) (r.task ++ [data]) := by
    intro t data ht
    have hone : utf8Decode data = decoded [data] := by simp [decoded]
    rw [hone]
    exact ht.appendOutput
  cases e with
  | stdoutData data =>
      rw [pieceStep, BashCall.handle]
      cases hdemoted : r.call.demoted with
      | none => exact ⟨by simp [h.out, decoded_concat], h.err, by simp⟩
      | some t =>
          refine ⟨h.out, h.err, fun t' ht' => ?_⟩
          rw [← Option.some.inj ht']
          exact happend t data (h.task t hdemoted)
  | stderrData data =>
      rw [pieceStep, BashCall.handle]
      cases hdemoted : r.call.demoted with
      | none => exact ⟨h.out, by simp [h.err, decoded_concat], by simp⟩
      | some t =>
          refine ⟨h.out, h.err, fun t' ht' => ?_⟩
          rw [← Option.some.inj ht']
          exact happend t data (h.task t hdemoted)
  | stdoutEnd => exact h.congr (texts_settleOnExit ctx _)
  | stderrEnd => exact h.congr (texts_settleOnExit ctx _)
  | exit code signal => exact h.congr (texts_settleOnExit ctx _)
  | close code signal => exact h.congr (texts_onStdioSettled ctx _ code signal)
  | drainTimeout => exact h.congr (texts_onDrainTimeout ctx _)
  | timeout => exact h.congr rfl
  | abort => exact h.congr rfl
  | demote taskId => exact inv_demote h taskId
  | error message => exact h.congr (texts_safeResolve _ _)

theorem inv_pieceRun (ctx : BashContext) (events : List BashEvent) :
    InvPieces (run (pieceStep ctx) .init events) :=
  run_invariant (fun _ e h _ => inv_pieceStep h e)
    ⟨rfl, rfl, by simp [PieceRun.init, BashCall.init]⟩
    (along_true (P := fun _ _ => True) (fun _ _ => trivial) _ events)

/-! ## A command that starts in the background -/

/-- The task of a command after its chunks. -/
def backgroundTask (id : Text) (pieces : List Bytes) : DemotedTask :=
  pieces.foldl DemotedTask.onBackgroundData ⟨id, [], none⟩

theorem keeps_backgroundTask (id : Text) (pieces : List Bytes) :
    Keeps (backgroundTask id pieces) pieces := by
  induction pieces using List.reverseRecOn with
  | nil => exact keeps_nil id
  | append_singleton pieces data ih =>
      rw [backgroundTask, List.foldl_append]
      have hone : utf8Decode data = decoded [data] := by simp [decoded]
      show Keeps ((backgroundTask id pieces).appendOutput (utf8Decode data)) _
      rw [hone]
      exact ih.appendOutput

/-! ## What is recorded -/

/-- The chunks whose text is recorded: of either stream, or of the task once
there is one. -/
def PieceRun.streams (r : PieceRun) : List (List Bytes) :=
  if r.call.demoted.isSome then [r.task] else [r.out, r.err]

/-- The texts the chunks went into. -/
def PieceRun.recorded (r : PieceRun) : List Text :=
  match r.call.demoted with
  | some t => [t.output]
  | none => [r.call.stdout, r.call.stderr]

/-- A text as it is, and no longer than what a task keeps. -/
structure ShortText (pieces : List Bytes) : Prop where
  valid : ValidUtf8 pieces.flatten
  short : (utf8Decode pieces.flatten).length ≤ MAX_OUTPUT_BYTES

theorem decoded_iff {pieces : List Bytes} (h : ValidUtf8 pieces.flatten) :
    decoded pieces = utf8Decode pieces.flatten ↔ ∀ data ∈ pieces, ValidUtf8 data :=
  decode_pieces_iff h

/-- In any order of events, before and after a demotion, and for a command that
starts in the background: the output is recorded as it is exactly when every
chunk of it is valid by itself. -/
theorem recorded_text_iff (ctx : BashContext) (events : List BashEvent)
    (hstreams : ∀ pieces ∈ (run (pieceStep ctx) .init events).streams, ShortText pieces)
    (id : Text) (background : List Bytes) (hbackground : ShortText background) :
    ((run (pieceStep ctx) .init events).recorded =
        (run (pieceStep ctx) .init events).streams.map (fun pieces => utf8Decode pieces.flatten) ↔
      ∀ pieces ∈ (run (pieceStep ctx) .init events).streams, ∀ data ∈ pieces, ValidUtf8 data) ∧
    ((backgroundTask id background).output = utf8Decode background.flatten ↔
      ∀ data ∈ background, ValidUtf8 data) := by
  refine ⟨?_, (keeps_backgroundTask id background).output_iff hbackground.valid hbackground.short⟩
  have hinv := inv_pieceRun ctx events
  generalize run (pieceStep ctx) .init events = r at hinv hstreams ⊢
  rw [PieceRun.streams, PieceRun.recorded] at *
  cases hdemoted : r.call.demoted with
  | some t =>
      simp only [hdemoted, Option.isSome_some, if_true, List.mem_singleton, forall_eq,
        List.map_cons, List.map_nil, List.cons.injEq, and_true] at hstreams ⊢
      exact (hinv.task t hdemoted).output_iff hstreams.valid hstreams.short
  | none =>
      simp only [hdemoted, Option.isSome_none, Bool.false_eq_true, if_false, List.mem_cons,
        List.not_mem_nil, or_false, forall_eq_or_imp, forall_eq, List.map_cons, List.map_nil,
        List.cons.injEq, and_true] at hstreams ⊢
      rw [hinv.out, hinv.err, decoded_iff hstreams.1.valid, decoded_iff hstreams.2.valid]

/-- A character of three bytes. -/
def euro : Bytes := [0xE2, 0x82, 0xAC]

theorem validUtf8_euro : ValidUtf8 euro :=
  ⟨[0x20AC], by simp [IsScalar], by decide⟩

/-- The character comes whole, and the command is demoted before its output goes
on. -/
def euroEvents : List BashEvent :=
  [.stdoutData euro, .demote (js "task-1"), .stdoutData euro]

theorem recorded_text_iff_euro :
    (run (pieceStep registryContext) .init euroEvents).recorded = [js "€€"] ∧
      (backgroundTask (js "task-2") [euro]).output = js "€" := by
  have hwhole : ∀ data ∈ [euro, euro], ValidUtf8 data := by
    intro data hdata
    simp only [List.mem_cons, List.not_mem_nil, or_false, or_self] at hdata
    rw [hdata]
    exact validUtf8_euro
  have hshort : ShortText [euro, euro] :=
    ⟨⟨[0x20AC, 0x20AC], by simp [IsScalar], by decide⟩, by decide⟩
  have hone : ShortText [euro] := ⟨validUtf8_euro, by decide⟩
  have hstreams : (run (pieceStep registryContext) .init euroEvents).streams = [[euro, euro]] := rfl
  have hiff := recorded_text_iff registryContext euroEvents
    (by rw [hstreams]; simpa using hshort) (js "task-2") [euro] hone
  rw [hstreams] at hiff
  exact ⟨(hiff.1.mpr (by simpa using hwhole)).trans (by decide),
    (hiff.2.mpr (by simpa using validUtf8_euro)).trans (by decide)⟩

/-- The same character in two chunks, in the foreground, across a demotion and in
the background. -/
theorem cut_character_lost :
    ValidUtf8 euro ∧
      (run (pieceStep registryContext) .init
        [.stdoutData [0xE2, 0x82], .stdoutData [0xAC]]).recorded ≠ [utf8Decode euro, []] ∧
      (run (pieceStep registryContext) .init
        [.stdoutData [0xE2, 0x82], .demote (js "task-1"), .stdoutData [0xAC]]).recorded
          ≠ [utf8Decode euro] ∧
      (backgroundTask (js "task-2") [[0xE2, 0x82], [0xAC]]).output ≠ utf8Decode euro :=
  ⟨validUtf8_euro, by decide, by decide, by decide⟩

end Shizuha.Tools
