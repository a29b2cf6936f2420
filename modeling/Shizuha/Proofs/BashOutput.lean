import Shizuha.Js.Utf8
import Shizuha.Tools.Bash

/-!
# When the result of a command has all of its output

Beside the call runs an account of what the process has delivered: the bytes of
each stream, which streams have ended, and whether one has ended since the
process exited. Node delivers a stream's data before its end, and `close` after
the exit and both ends.

The call settles at the exit if both streams have ended by then, and else at
the first end after it, whether or not the other stream is still open: the
drain timer is set, and `settleOnExit` waits only when it is not. So what comes
between the first end after the exit and the second is lost, and the result is
complete when nothing comes there and no chunk cuts a character in two.
-/

namespace Shizuha.Tools

open Js Machine BashCall

/-! ## The text in the result -/

/-- The bytes of one stream and, after them, those of the other. -/
def Contains (content : Text) (out err : Bytes) : Prop :=
  ∃ a b c, utf8Encode content = a ++ out ++ b ++ err ++ c

theorem truncated_append {s t : Text} (h : s.length ≤ MAX_OUTPUT) :
    ∃ post, truncated (s ++ t) = s ++ post := by
  rw [truncated]
  split_ifs
  · refine ⟨t.take (MAX_OUTPUT - s.length) ++ (js "\n\n... [" ++
      decimal (lines ((s ++ t).drop MAX_OUTPUT)).length ++ js " lines truncated] ..."), ?_⟩
    rw [List.take_append, List.take_of_length_le h]
    simp
  · exact ⟨t, rfl⟩

/-- The content has the collected text whole, after a line of its own if
anything. -/
theorem report_content (ctx : BashContext) {stdout stderr : Text}
    (h : (collected stdout stderr).length ≤ MAX_OUTPUT) (killed timedOut aborted : Bool)
    (code : Option ℕ) (signal : Option Text) :
    ∃ pre post, (report ctx stdout stderr killed timedOut aborted code signal).content =
        pre ++ (collected stdout stderr ++ post) ∧
      ∀ u ∈ pre.getLast?, isHighSurrogate u = false := by
  obtain ⟨post, hpost⟩ := truncated_append (t := notes ctx killed timedOut aborted) h
  have hbody : ∃ post', (if collected stdout stderr ++ post = [] then
        js "Command completed with exit code " ++ decimal (exitStatus code signal)
      else if exitStatus code signal ≠ 0 then
        collected stdout stderr ++ post ++ js "\n\nExit code: " ++ decimal (exitStatus code signal)
      else collected stdout stderr ++ post) = collected stdout stderr ++ post' := by
    split_ifs with hempty hstatus
    · rw [List.append_eq_nil_iff] at hempty
      exact ⟨_, by rw [hempty.1, List.nil_append]⟩
    · exact ⟨_, by rw [List.append_assoc, List.append_assoc]⟩
    · exact ⟨_, rfl⟩
  obtain ⟨post', hpost'⟩ := hbody
  have hlocated : ∀ note : Text, ∃ post'', (if (timedOut || decide (exitStatus code signal ≠ 0)) ||
        decide (finalCwd ctx ≠ ctx.cwd) then
      collected stdout stderr ++ post' ++ js "\n[cwd: " ++ finalCwd ctx ++ js "]"
      else collected stdout stderr ++ post') = collected stdout stderr ++ post'' := by
    intro note
    split_ifs
    · exact ⟨_, by rw [List.append_assoc, List.append_assoc, List.append_assoc]⟩
    · exact ⟨_, rfl⟩
  obtain ⟨post'', hpost''⟩ := hlocated []
  simp only [report, hpost, hpost', hpost'']
  cases ctx.breakGlass with
  | none => exact ⟨[], post'', rfl, by simp⟩
  | some marker =>
      obtain ⟨approval, reason⟩ := marker
      refine ⟨js "[Cortex guardrail break-glass] approval=" ++ approval ++ js "; reason=" ++ reason ++
        js "\n", post'', by simp, ?_⟩
      intro u hu
      rw [show js "\n" = [10] from rfl, List.getLast?_concat] at hu
      cases hu
      rfl

/-- Where the bytes of the two texts are among those of the collected text. -/
theorem encode_collected {stdout stderr : Text} (hout : WellFormed stdout)
    (herr : WellFormed stderr) (post : Text) :
    ∃ b, utf8Encode (collected stdout stderr ++ post) =
      utf8Encode stdout ++ b ++ utf8Encode stderr ++ utf8Encode post := by
  rw [collected]
  split_ifs with h1 h2
  · refine ⟨[], ?_⟩
    rw [h1, utf8Encode_append hout]
    simp [utf8Encode]
  · refine ⟨[], ?_⟩
    rw [h2, utf8Encode_append herr]
    simp [utf8Encode]
  · refine ⟨utf8Encode (js "\n"), ?_⟩
    have hsep : WellFormed (js "\n") := by decide
    rw [utf8Encode_append ((hout.append hsep).append herr), utf8Encode_append (hout.append hsep),
      utf8Encode_append hout]

theorem report_contains (ctx : BashContext) {stdout stderr : Text} (hout : WellFormed stdout)
    (herr : WellFormed stderr) (h : (collected stdout stderr).length ≤ MAX_OUTPUT)
    (killed timedOut aborted : Bool) (code : Option ℕ) (signal : Option Text) :
    Contains (report ctx stdout stderr killed timedOut aborted code signal).content
      (utf8Encode stdout) (utf8Encode stderr) := by
  obtain ⟨pre, post, hcontent, hpre⟩ := report_content ctx h killed timedOut aborted code signal
  obtain ⟨b, hb⟩ := encode_collected hout herr post
  refine ⟨utf8Encode pre, b, utf8Encode post, ?_⟩
  rw [hcontent, utf8Encode_append_last hpre, hb]
  simp only [List.append_assoc]

/-! ## What the process delivers -/

structure Delivered where
  outBytes : Bytes
  errBytes : Bytes
  /-- The same, each chunk read by itself. -/
  outText : Text
  errText : Text
  stdoutEnded : Bool
  stderrEnded : Bool
  exited : Bool
  endedAfterExit : Bool
  closed : Bool

namespace Delivered

def init : Delivered := ⟨[], [], [], [], false, false, false, false, false⟩

def after (n : Delivered) : BashEvent → Delivered
  | .stdoutData data =>
      { n with outBytes := n.outBytes ++ data, outText := n.outText ++ utf8Decode data }
  | .stderrData data =>
      { n with errBytes := n.errBytes ++ data, errText := n.errText ++ utf8Decode data }
  | .stdoutEnd =>
      { n with stdoutEnded := true, endedAfterExit := n.endedAfterExit || n.exited }
  | .stderrEnd =>
      { n with stderrEnded := true, endedAfterExit := n.endedAfterExit || n.exited }
  | .exit _ _ => { n with exited := true }
  | .close _ _ => { n with closed := true }
  | _ => n

/-- An event that can come next, of a command that is left alone and whose
streams end within the grace. -/
def Allows (n : Delivered) : BashEvent → Prop
  | .stdoutData _ => n.stdoutEnded = false
  | .stderrData _ => n.stderrEnded = false
  | .stdoutEnd => n.stdoutEnded = false
  | .stderrEnd => n.stderrEnded = false
  | .exit _ _ => n.exited = false
  | .close _ _ => n.exited = true ∧ n.stdoutEnded = true ∧ n.stderrEnded = true ∧ n.closed = false
  | _ => False

instance (n : Delivered) : (e : BashEvent) → Decidable (n.Allows e)
  | .stdoutData _ => inferInstanceAs (Decidable (n.stdoutEnded = false))
  | .stderrData _ => inferInstanceAs (Decidable (n.stderrEnded = false))
  | .stdoutEnd => inferInstanceAs (Decidable (n.stdoutEnded = false))
  | .stderrEnd => inferInstanceAs (Decidable (n.stderrEnded = false))
  | .exit _ _ => inferInstanceAs (Decidable (n.exited = false))
  | .close _ _ => inferInstanceAs (Decidable (_ ∧ _ ∧ _ ∧ _))
  | .drainTimeout => inferInstanceAs (Decidable False)
  | .timeout => inferInstanceAs (Decidable False)
  | .abort => inferInstanceAs (Decidable False)
  | .demote _ => inferInstanceAs (Decidable False)
  | .error _ => inferInstanceAs (Decidable False)

/-- What is delivered is not more than a result holds. -/
def Fits (n : Delivered) : Prop := (collected n.outText n.errText).length ≤ MAX_OUTPUT

instance (n : Delivered) : Decidable n.Fits := inferInstanceAs (Decidable (_ ≤ _))

/-- The process is done with its output. -/
def Done (n : Delivered) : Prop :=
  n.exited = true ∧ n.stdoutEnded = true ∧ n.stderrEnded = true

instance (n : Delivered) : Decidable n.Done := inferInstanceAs (Decidable (_ ∧ _ ∧ _))

end Delivered

/-- A chunk that cuts no character. -/
def WholeChunk (data : Bytes) : Prop := utf8Encode (utf8Decode data) = data

instance (data : Bytes) : Decidable (WholeChunk data) := inferInstanceAs (Decidable (_ = _))

/-- Data come in whole characters, and not after a stream has ended that was
open when the process exited. -/
def Delivered.InTime (n : Delivered) : BashEvent → Prop
  | .stdoutData data => WholeChunk data ∧ n.endedAfterExit = false
  | .stderrData data => WholeChunk data ∧ n.endedAfterExit = false
  | _ => True

instance (n : Delivered) : (e : BashEvent) → Decidable (n.InTime e)
  | .stdoutData _ => inferInstanceAs (Decidable (_ ∧ _))
  | .stderrData _ => inferInstanceAs (Decidable (_ ∧ _))
  | .stdoutEnd => inferInstanceAs (Decidable True)
  | .stderrEnd => inferInstanceAs (Decidable True)
  | .exit _ _ => inferInstanceAs (Decidable True)
  | .close _ _ => inferInstanceAs (Decidable True)
  | .drainTimeout => inferInstanceAs (Decidable True)
  | .timeout => inferInstanceAs (Decidable True)
  | .abort => inferInstanceAs (Decidable True)
  | .demote _ => inferInstanceAs (Decidable True)
  | .error _ => inferInstanceAs (Decidable True)

/-- The call and what the process has delivered. -/
structure BashRun where
  call : BashCall
  delivered : Delivered

def BashRun.init : BashRun := ⟨.init, .init⟩

def bashStep (ctx : BashContext) (r : BashRun) (e : BashEvent) : BashRun :=
  ⟨r.call.handle ctx e, r.delivered.after e⟩

/-! ## What settling does -/

section Settling

variable {ctx : BashContext} {c : BashCall}

/-- The call is over: one more result, of what is collected by now. -/
theorem onStdioSettled_of_open (hdemoted : c.demoted = none) (hexited : c.exited = true)
    (hresolved : c.resolved = false) (code : Option ℕ) (signal : Option Text) :
    ∃ timedOut, c.onStdioSettled ctx code signal =
      { c with
        drainTimer := false
        timedOut := timedOut
        resolved := true
        results := c.results ++
          [report ctx c.stdout c.stderr c.killed timedOut c.aborted code signal] } := by
  refine ⟨c.timedOut || (!c.aborted && (code.isNone && signal.isSome)), ?_⟩
  simp [onStdioSettled, safeResolve, hdemoted, hexited, hresolved]

theorem onStdioSettled_of_resolved (hdemoted : c.demoted = none) (hexited : c.exited = true)
    (hresolved : c.resolved = true) (code : Option ℕ) (signal : Option Text) :
    c.onStdioSettled ctx code signal = { c with drainTimer := false } := by
  simp [onStdioSettled, hdemoted, hexited, hresolved]

theorem settleOnExit_of_early (h : c.exited = false) : c.settleOnExit ctx = c := by
  simp [settleOnExit, h]

theorem settleOnExit_of_resolved (h : c.resolved = true) : c.settleOnExit ctx = c := by
  simp [settleOnExit, h]

/-- A stream is still open and nothing is armed: the grace begins. -/
theorem settleOnExit_of_waiting (hexited : c.exited = true) (hresolved : c.resolved = false)
    (hopen : (c.stdoutOpen || c.stderrOpen) = true) (htimer : c.drainTimer = false) :
    c.settleOnExit ctx = { c with drainTimer := true } := by
  simp [settleOnExit, hexited, hresolved, hopen, htimer]

/-- Both streams have ended, or the timer runs: the call settles. -/
theorem settleOnExit_of_due (hexited : c.exited = true) (hresolved : c.resolved = false)
    (hdue : (c.stdoutOpen || c.stderrOpen) = false ∨ c.drainTimer = true) :
    c.settleOnExit ctx = c.onStdioSettled ctx c.exitCode c.exitSignal := by
  rcases hdue with h | h <;> simp [settleOnExit, hexited, hresolved, h]

end Settling

/-! ## One result -/

/-- There is a result exactly if the call has resolved. -/
def Once (c : BashCall) : Prop := c.results.length = if c.resolved then 1 else 0

theorem once_safeResolve {c : BashCall} (h : Once c) (r : ToolResult) : Once (c.safeResolve r) := by
  rw [safeResolve]
  split_ifs with hresolved
  · exact h
  · rw [Once, if_neg hresolved] at h
    simp [Once, h]

theorem once_onStdioSettled {ctx : BashContext} {c : BashCall} (h : Once c) (code : Option ℕ)
    (signal : Option Text) : Once (c.onStdioSettled ctx code signal) := by
  rw [onStdioSettled]
  split_ifs
  · exact h
  · cases hdemoted : c.demoted with
    | some t => exact h
    | none =>
        simp only
        split_ifs
        · exact h
        · apply once_safeResolve
          exact h

theorem once_settleOnExit {ctx : BashContext} {c : BashCall} (h : Once c) :
    Once (c.settleOnExit ctx) := by
  rw [settleOnExit]
  split_ifs
  · exact h
  · exact h
  · exact once_onStdioSettled h _ _

/-- Whatever comes in whatever order, the call resolves at most once. -/
theorem once_handle {ctx : BashContext} {c : BashCall} (h : Once c) (e : BashEvent) :
    Once (c.handle ctx e) := by
  cases e with
  | stdoutData data =>
      rw [handle]
      split
      · exact h
      · exact h
  | stderrData data =>
      rw [handle]
      split
      · exact h
      · exact h
  | stdoutEnd => exact once_settleOnExit h
  | stderrEnd => exact once_settleOnExit h
  | exit code signal => exact once_settleOnExit h
  | close code signal => exact once_onStdioSettled h code signal
  | drainTimeout =>
      rw [handle, onDrainTimeout]
      split_ifs
      · apply once_onStdioSettled
        exact h
      · exact h
  | timeout => exact h
  | abort => exact h
  | demote taskId =>
      rw [handle, demote]
      split_ifs
      · exact h
      · apply once_safeResolve
        exact h
  | error message => exact once_safeResolve h _

theorem once_run (ctx : BashContext) (events : List BashEvent) :
    Once (run (BashCall.handle ctx) .init events) :=
  run_invariant (fun _ e h _ => once_handle h e) (show Once .init from rfl)
    (along_true (P := fun _ _ => True) (fun _ _ => trivial) _ events)

/-! ## The invariant -/

/-- What the call has collected is what was delivered. -/
structure Collected (r : BashRun) : Prop where
  out : r.call.stdout = r.delivered.outText
  err : r.call.stderr = r.delivered.errText
  outBytes : utf8Encode r.delivered.outText = r.delivered.outBytes
  errBytes : utf8Encode r.delivered.errText = r.delivered.errBytes
  outWhole : WellFormed r.delivered.outText
  errWhole : WellFormed r.delivered.errText
  fits : r.delivered.Fits
  demoted : r.call.demoted = none
  exited : r.call.exited = r.delivered.exited
  stdoutOpen : r.call.stdoutOpen = !r.delivered.stdoutEnded
  stderrOpen : r.call.stderrOpen = !r.delivered.stderrEnded

/-- Not settled: nothing is due. -/
structure Waiting (r : BashRun) : Prop where
  results : r.call.results = []
  early : r.delivered.exited = false → r.call.drainTimer = false
  afterExit : r.delivered.endedAfterExit = false
  armed : r.delivered.exited = true →
    r.call.drainTimer = true ∧ ¬ (r.delivered.stdoutEnded = true ∧ r.delivered.stderrEnded = true)

/-- Settled: the one result has everything. -/
structure Settled (r : BashRun) : Prop where
  exited : r.delivered.exited = true
  ending : r.delivered.endedAfterExit = true ∨
    r.delivered.stdoutEnded = true ∧ r.delivered.stderrEnded = true
  complete : ∃ result, r.call.results = [result] ∧
    Contains result.content r.delivered.outBytes r.delivered.errBytes

structure BashInv (r : BashRun) : Prop extends Collected r where
  waiting : r.call.resolved = false → Waiting r
  settled : r.call.resolved = true → Settled r

theorem inv_bash_init : BashInv .init where
  out := rfl
  err := rfl
  outBytes := rfl
  errBytes := rfl
  outWhole := rfl
  errWhole := rfl
  fits := Nat.zero_le _
  demoted := rfl
  exited := rfl
  stdoutOpen := rfl
  stderrOpen := rfl
  waiting := fun _ => ⟨rfl, fun _ => rfl, rfl, by simp [BashRun.init, Delivered.init]⟩
  settled := by simp [BashRun.init, BashCall.init]

variable {ctx : BashContext}

/-- With everything collected, settling gives the one result that has it all. -/
theorem inv_of_settling {c : BashCall} {n : Delivered} (h : Collected ⟨c, n⟩)
    (hexited : n.exited = true) (hresolved : c.resolved = false) (hresults : c.results = [])
    (hover : n.endedAfterExit = true ∨ n.stdoutEnded = true ∧ n.stderrEnded = true)
    (code : Option ℕ) (signal : Option Text) :
    BashInv ⟨c.onStdioSettled ctx code signal, n⟩ := by
  obtain ⟨timedOut, hsettled⟩ := @onStdioSettled_of_open ctx c h.demoted
    (h.exited.trans hexited) hresolved code signal
  rw [hsettled]
  have hcontains : Contains
      (report ctx c.stdout c.stderr c.killed timedOut c.aborted code signal).content
      n.outBytes n.errBytes := by
    rw [show c.stdout = n.outText from h.out, show c.stderr = n.errText from h.err,
      ← show utf8Encode n.outText = n.outBytes from h.outBytes,
      ← show utf8Encode n.errText = n.errBytes from h.errBytes]
    exact report_contains ctx h.outWhole h.errWhole h.fits _ _ _ _ _
  exact
    { out := h.out, err := h.err, outBytes := h.outBytes, errBytes := h.errBytes
      outWhole := h.outWhole, errWhole := h.errWhole, fits := h.fits
      demoted := h.demoted, exited := h.exited
      stdoutOpen := h.stdoutOpen, stderrOpen := h.stderrOpen
      waiting := fun hw => absurd hw (by simp)
      settled := fun _ => ⟨hexited, hover, _, by rw [hresults]; rfl, hcontains⟩ }

/-- A stream's end, or the exit, after which `settleOnExit` looks again. -/
theorem inv_of_settleOnExit {c : BashCall} {n : Delivered} (h : Collected ⟨c, n⟩)
    (hunresolved : c.resolved = false → c.results = [] ∧
      (n.exited = false → c.drainTimer = false ∧ n.endedAfterExit = false) ∧
      (n.exited = true → (n.endedAfterExit = true ↔ c.drainTimer = true)))
    (hresolved : c.resolved = true → Settled ⟨c, n⟩) :
    BashInv ⟨c.settleOnExit ctx, n⟩ := by
  cases hr : c.resolved with
  | true =>
      rw [settleOnExit_of_resolved hr]
      exact { h with
        waiting := fun hw => absurd (hr.symm.trans hw) (by simp)
        settled := hresolved }
  | false =>
      obtain ⟨hresults, hearly, hlate⟩ := hunresolved hr
      cases hx : n.exited with
      | false =>
          obtain ⟨htimer, hafter⟩ := hearly hx
          rw [settleOnExit_of_early (h.exited.trans hx)]
          exact { h with
            waiting := fun _ => ⟨hresults, fun _ => htimer, hafter,
              fun hx' => absurd (hx.symm.trans hx') (by simp)⟩
            settled := fun hs => absurd (hr.symm.trans hs) (by simp) }
      | true =>
          have hexited : c.exited = true := h.exited.trans hx
          by_cases hdue : (c.stdoutOpen || c.stderrOpen) = false ∨ c.drainTimer = true
          · rw [settleOnExit_of_due hexited hr hdue]
            refine inv_of_settling h hx hr hresults ?_ _ _
            rcases hdue with hclosed | htimer
            · right
              have hout : c.stdoutOpen = !n.stdoutEnded := h.stdoutOpen
              have herr : c.stderrOpen = !n.stderrEnded := h.stderrOpen
              rw [hout, herr] at hclosed
              simpa using hclosed
            · exact .inl ((hlate hx).mpr htimer)
          · push Not at hdue
            have hopen : (c.stdoutOpen || c.stderrOpen) = true := Bool.eq_true_of_not_eq_false hdue.1
            have htimer : c.drainTimer = false := by simpa using hdue.2
            rw [settleOnExit_of_waiting hexited hr hopen htimer]
            have hafter : n.endedAfterExit = false := by
              simpa [htimer] using hlate hx
            have hout : c.stdoutOpen = !n.stdoutEnded := h.stdoutOpen
            have herr : c.stderrOpen = !n.stderrEnded := h.stderrOpen
            exact
              { out := h.out, err := h.err, outBytes := h.outBytes, errBytes := h.errBytes
                outWhole := h.outWhole, errWhole := h.errWhole, fits := h.fits
                demoted := h.demoted, exited := h.exited
                stdoutOpen := h.stdoutOpen, stderrOpen := h.stderrOpen
                waiting := fun _ => ⟨hresults, fun hx' => absurd (hx.symm.trans hx') (by simp),
                  hafter, fun _ => ⟨rfl, by
                    intro hended
                    rw [hout, herr, hended.1, hended.2] at hopen
                    exact absurd hopen (by decide)⟩⟩
                settled := fun hs => absurd (hr.symm.trans hs) (by simp) }

/-! ## The steps -/

/-- While data can still come in time, nothing has settled. -/
theorem BashInv.unresolved {r : BashRun} (h : BashInv r) (hafter : r.delivered.endedAfterExit = false)
    (hopen : ¬ (r.delivered.stdoutEnded = true ∧ r.delivered.stderrEnded = true)) :
    r.call.resolved = false := by
  refine Bool.eq_false_iff.mpr fun hresolved => ?_
  rcases (h.settled hresolved).ending with hover | hboth
  · exact absurd (hafter.symm.trans hover) (by simp)
  · exact hopen hboth

/-- A whole chunk is collected as it is delivered. -/
theorem encode_whole {s : Text} {bytes data : Bytes} (hs : WellFormed s)
    (hbytes : utf8Encode s = bytes) (hdata : WholeChunk data) :
    utf8Encode (s ++ utf8Decode data) = bytes ++ data := by
  rw [utf8Encode_append hs, hbytes, show utf8Encode (utf8Decode data) = data from hdata]

theorem inv_stdoutData {r : BashRun} (h : BashInv r) {data : Bytes}
    (hallowed : r.delivered.Allows (.stdoutData data))
    (hfits : (r.delivered.after (.stdoutData data)).Fits)
    (hin : r.delivered.InTime (.stdoutData data)) :
    BashInv (bashStep ctx r (.stdoutData data)) := by
  obtain ⟨hwhole, hafter⟩ := hin
  have hended : r.delivered.stdoutEnded = false := hallowed
  have hresolved : r.call.resolved = false :=
    h.unresolved hafter fun hboth => absurd (hended.symm.trans hboth.1) (by simp)
  have hwaiting : Waiting r := h.waiting hresolved
  have hstep : bashStep ctx r (.stdoutData data) =
      ⟨{ r.call with
          stdout := r.call.stdout ++ utf8Decode data
          killed := r.call.killed ||
            decide (MAX_OUTPUT < (r.call.stdout ++ utf8Decode data).length) },
        r.delivered.after (.stdoutData data)⟩ := by
    simp only [bashStep, handle, h.demoted]
  rw [hstep]
  exact
    { out := by rw [Delivered.after, h.out]
      err := h.err
      outBytes := encode_whole h.outWhole h.outBytes hwhole
      errBytes := h.errBytes
      outWhole := h.outWhole.append (wellFormed_utf8Decode data)
      errWhole := h.errWhole, fits := hfits, demoted := h.demoted, exited := h.exited
      stdoutOpen := h.stdoutOpen, stderrOpen := h.stderrOpen
      waiting := fun _ => ⟨hwaiting.results, hwaiting.early, hwaiting.afterExit, hwaiting.armed⟩
      settled := fun hs => absurd (hresolved.symm.trans hs) (by simp) }

theorem inv_stderrData {r : BashRun} (h : BashInv r) {data : Bytes}
    (hallowed : r.delivered.Allows (.stderrData data))
    (hfits : (r.delivered.after (.stderrData data)).Fits)
    (hin : r.delivered.InTime (.stderrData data)) :
    BashInv (bashStep ctx r (.stderrData data)) := by
  obtain ⟨hwhole, hafter⟩ := hin
  have hended : r.delivered.stderrEnded = false := hallowed
  have hresolved : r.call.resolved = false :=
    h.unresolved hafter fun hboth => absurd (hended.symm.trans hboth.2) (by simp)
  have hwaiting : Waiting r := h.waiting hresolved
  have hstep : bashStep ctx r (.stderrData data) =
      ⟨{ r.call with
          stderr := r.call.stderr ++ utf8Decode data
          killed := r.call.killed ||
            decide (MAX_OUTPUT < (r.call.stderr ++ utf8Decode data).length) },
        r.delivered.after (.stderrData data)⟩ := by
    simp only [bashStep, handle, h.demoted]
  rw [hstep]
  exact
    { out := h.out
      err := by rw [Delivered.after, h.err]
      outBytes := h.outBytes
      errBytes := encode_whole h.errWhole h.errBytes hwhole
      outWhole := h.outWhole
      errWhole := h.errWhole.append (wellFormed_utf8Decode data)
      fits := hfits, demoted := h.demoted, exited := h.exited
      stdoutOpen := h.stdoutOpen, stderrOpen := h.stderrOpen
      waiting := fun _ => ⟨hwaiting.results, hwaiting.early, hwaiting.afterExit, hwaiting.armed⟩
      settled := fun hs => absurd (hresolved.symm.trans hs) (by simp) }

/-- The first end after the exit finds the timer armed; an end before it finds
nothing to do. -/
theorem Waiting.ended {r : BashRun} (h : Waiting r) :
    r.call.results = [] ∧
      (r.delivered.exited = false → r.call.drainTimer = false ∧
        (r.delivered.endedAfterExit || r.delivered.exited) = false) ∧
      (r.delivered.exited = true →
        ((r.delivered.endedAfterExit || r.delivered.exited) = true ↔
          r.call.drainTimer = true)) := by
  refine ⟨h.results, fun hx => ⟨h.early hx, ?_⟩, fun hx => ?_⟩
  · rw [h.afterExit, hx]
    rfl
  · rw [hx, (h.armed hx).1]
    simp

theorem inv_stdoutEnd {r : BashRun} (h : BashInv r) : BashInv (bashStep ctx r .stdoutEnd) := by
  refine inv_of_settleOnExit
    { out := h.out, err := h.err, outBytes := h.outBytes, errBytes := h.errBytes
      outWhole := h.outWhole, errWhole := h.errWhole, fits := h.fits, demoted := h.demoted
      exited := h.exited, stdoutOpen := rfl, stderrOpen := h.stderrOpen }
    (fun hresolved => (h.waiting hresolved).ended) (fun hresolved => ?_)
  have hsettled : Settled r := h.settled hresolved
  refine ⟨hsettled.exited, .inl ?_, hsettled.complete⟩
  show (r.delivered.endedAfterExit || r.delivered.exited) = true
  rw [hsettled.exited, Bool.or_true]

theorem inv_stderrEnd {r : BashRun} (h : BashInv r) : BashInv (bashStep ctx r .stderrEnd) := by
  refine inv_of_settleOnExit
    { out := h.out, err := h.err, outBytes := h.outBytes, errBytes := h.errBytes
      outWhole := h.outWhole, errWhole := h.errWhole, fits := h.fits, demoted := h.demoted
      exited := h.exited, stdoutOpen := h.stdoutOpen, stderrOpen := rfl }
    (fun hresolved => (h.waiting hresolved).ended) (fun hresolved => ?_)
  have hsettled : Settled r := h.settled hresolved
  refine ⟨hsettled.exited, .inl ?_, hsettled.complete⟩
  show (r.delivered.endedAfterExit || r.delivered.exited) = true
  rw [hsettled.exited, Bool.or_true]

theorem inv_exit {r : BashRun} (h : BashInv r) {code : Option ℕ} {signal : Option Text}
    (hallowed : r.delivered.Allows (.exit code signal)) :
    BashInv (bashStep ctx r (.exit code signal)) := by
  have hearly : r.delivered.exited = false := hallowed
  have hresolved : r.call.resolved = false := by
    refine Bool.eq_false_iff.mpr fun hresolved => ?_
    exact absurd (hearly.symm.trans (h.settled hresolved).exited) (by simp)
  have hwaiting : Waiting r := h.waiting hresolved
  refine inv_of_settleOnExit
    { out := h.out, err := h.err, outBytes := h.outBytes, errBytes := h.errBytes
      outWhole := h.outWhole, errWhole := h.errWhole, fits := h.fits, demoted := h.demoted
      exited := rfl, stdoutOpen := h.stdoutOpen, stderrOpen := h.stderrOpen }
    (fun _ => ⟨hwaiting.results, fun hx => absurd hx (by simp [Delivered.after]), fun _ => ?_⟩)
    (fun hs => absurd (hresolved.symm.trans hs) (by simp))
  show r.delivered.endedAfterExit = true ↔ r.call.drainTimer = true
  rw [hwaiting.afterExit, hwaiting.early hearly]

/-- At `close` the call has settled already. -/
theorem inv_close {r : BashRun} (h : BashInv r) {code : Option ℕ} {signal : Option Text}
    (hallowed : r.delivered.Allows (.close code signal)) :
    BashInv (bashStep ctx r (.close code signal)) := by
  obtain ⟨hexited, hout, herr, -⟩ := hallowed
  have hresolved : r.call.resolved = true := by
    refine Bool.eq_true_of_not_eq_false fun hresolved => ?_
    exact ((h.waiting hresolved).armed hexited).2 ⟨hout, herr⟩
  have hsettled : Settled r := h.settled hresolved
  have hstep : bashStep ctx r (.close code signal) =
      ⟨{ r.call with drainTimer := false }, r.delivered.after (.close code signal)⟩ := by
    rw [bashStep, handle, onStdioSettled_of_resolved h.demoted (h.exited.trans hexited) hresolved]
  rw [hstep]
  exact
    { out := h.out, err := h.err, outBytes := h.outBytes, errBytes := h.errBytes
      outWhole := h.outWhole, errWhole := h.errWhole, fits := h.fits, demoted := h.demoted
      exited := h.exited, stdoutOpen := h.stdoutOpen, stderrOpen := h.stderrOpen
      waiting := fun hw => absurd (hresolved.symm.trans hw) (by simp)
      settled := fun _ => ⟨hsettled.exited, hsettled.ending, hsettled.complete⟩ }

theorem inv_bashStep {r : BashRun} {e : BashEvent} (h : BashInv r)
    (hallowed : r.delivered.Allows e) (hfits : (r.delivered.after e).Fits)
    (hin : r.delivered.InTime e) : BashInv (bashStep ctx r e) := by
  cases e with
  | stdoutData data => exact inv_stdoutData h hallowed hfits hin
  | stderrData data => exact inv_stderrData h hallowed hfits hin
  | stdoutEnd => exact inv_stdoutEnd h
  | stderrEnd => exact inv_stderrEnd h
  | exit code signal => exact inv_exit h hallowed
  | close code signal => exact inv_close h hallowed
  | drainTimeout => exact hallowed.elim
  | timeout => exact hallowed.elim
  | abort => exact hallowed.elim
  | demote taskId => exact hallowed.elim
  | error message => exact hallowed.elim

/-! ## The runs -/

/-- A step Node can take of a command that is left alone, whose output fits a
result. -/
def Undisturbed (r : BashRun) (e : BashEvent) : Prop :=
  r.delivered.Allows e ∧ (r.delivered.after e).Fits

instance (r : BashRun) (e : BashEvent) : Decidable (Undisturbed r e) :=
  inferInstanceAs (Decidable (_ ∧ _))

/-- When the process is done, the call has resolved once, with all of the
output, provided all of it came in time. -/
theorem bash_complete (ctx : BashContext) (events : List BashEvent)
    (hrun : Along (bashStep ctx) Undisturbed .init events)
    (hin : Along (bashStep ctx) (fun r e => r.delivered.InTime e) .init events)
    (hdone : (run (bashStep ctx) .init events).delivered.Done) :
    ∃ result, (run (bashStep ctx) .init events).call.results = [result] ∧
      Contains result.content (run (bashStep ctx) .init events).delivered.outBytes
        (run (bashStep ctx) .init events).delivered.errBytes := by
  have hinv : BashInv (run (bashStep ctx) .init events) :=
    run_invariant (fun r e h hC => inv_bashStep h hC.1.1 hC.1.2 hC.2) inv_bash_init
      (hrun.and hin)
  have hresolved : (run (bashStep ctx) .init events).call.resolved = true := by
    refine Bool.eq_true_of_not_eq_false fun hresolved => ?_
    exact ((hinv.waiting hresolved).armed hdone.1).2 hdone.2
  exact (hinv.settled hresolved).complete

/-- A call in a directory it does not leave. -/
def bashContext : BashContext :=
  ⟨js "/w", js "/w", some (js "/w"), false, none, 120000⟩

/-- The process exits between the two streams' ends, and the second has a last
chunk before the first ends. -/
def bashEvents : List BashEvent :=
  [.stdoutData [104, 105], .exit (some 1) none, .stderrData [33], .stdoutEnd, .stderrEnd,
    .close (some 1) none]

theorem bash_complete_between :
    Along (bashStep bashContext) Undisturbed .init bashEvents ∧
    ∃ result, (run (bashStep bashContext) .init bashEvents).call.results = [result] ∧
      Contains result.content [104, 105] [33] :=
  ⟨by decide, bash_complete bashContext bashEvents (by decide) (by decide) (by decide)⟩

/-- `stdout` ends first after the exit, and what `stderr` still delivers in
time is in no result. -/
theorem bash_loses_stderr :
    ∃ events, Along (bashStep bashContext) Undisturbed .init events ∧
      (run (bashStep bashContext) .init events).delivered.Done ∧
      ¬ ∃ result, (run (bashStep bashContext) .init events).call.results = [result] ∧
        Contains result.content (run (bashStep bashContext) .init events).delivered.outBytes
          (run (bashStep bashContext) .init events).delivered.errBytes := by
  refine ⟨[.exit (some 0) none, .stdoutEnd, .stderrData [33], .stderrEnd, .close (some 0) none],
    by decide, by decide, ?_⟩
  intro h
  obtain ⟨result, hresults, a, b, c, hcontent⟩ := h
  have hshort : result = ⟨js "Command completed with exit code 0", false⟩ := by
    have hrun : [result] = [⟨js "Command completed with exit code 0", false⟩] :=
      hresults.symm.trans (by decide)
    exact List.singleton_inj.mp hrun
  have hmem : (33 : UInt8) ∈ utf8Encode result.content := by
    rw [hcontent]
    exact List.mem_append_left _ (List.mem_append_right _ (by decide))
  rw [hshort] at hmem
  exact absurd hmem (by decide)

end Shizuha.Tools
