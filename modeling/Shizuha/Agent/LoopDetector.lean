import Shizuha.Js.Json
import Shizuha.Js.Regex
import Shizuha.Machine

/-!
# The loop detector

Every tool call of a turn is recorded, and the last twenty are looked at: the
same call again and again, two calls in turns, and probes through the shell
without a file being written. The last pattern is answered with a nudge first,
and nudges are counted so that they end in a break.

The bound on nudges is the subject of the second part: two are given before a
break, as long as no call sets their count back.
-/

namespace Shizuha.Agent

open Js Regex Machine

/-- A threshold of the configuration; `none` when it is no number. -/
abbrev Threshold := Option Number

/-- `count >= threshold`. -/
def Threshold.reachedBy (threshold : Threshold) (count : ℕ) : Bool :=
  match threshold with
  | none => false
  | some (.finite x) => x.val ≤ count
  | some (.infinite negative) => negative

structure LoopDetectorConfig where
  warningThreshold : Threshold
  breakThreshold : Threshold
  probeLoopWarning : Threshold
  probeLoopBreak : Threshold

def smallNumber (n : Fin 64) : Number := .finite (.ofInt n (by rw [abs_of_nonneg] <;> omega))

def LoopDetectorConfig.default : LoopDetectorConfig where
  warningThreshold := some (smallNumber 3)
  breakThreshold := some (smallNumber 5)
  probeLoopWarning := some (smallNumber 5)
  probeLoopBreak := some (smallNumber 8)

structure CallRecord where
  toolName : Text
  inputHash : UInt32
  isProbe : Bool
  isWrite : Bool
  deriving DecidableEq

/-! ## What a call is -/

def isLetter (u : UInt16) : Bool := (65 ≤ u && u ≤ 90) || (97 ≤ u && u ≤ 122)

def isNameUnit (u : UInt16) : Bool := isLetter u || isDigit u || u == 95 || u == 45

/-- `/^(mcp__)?[A-Za-z][A-Za-z0-9_-]*(__[A-Za-z0-9_-]+)*$/`. -/
def validToolName : Regex :=
  cat [.bos, opt (lit (js "mcp__")), .unit isLetter, star (.unit isNameUnit),
    star (.seq (lit (js "__")) (plus (.unit isNameUnit))), .eos]

/-- `/^([A-Za-z0-9]+)(_\1){2,}/`: some word, and the same twice more. -/
def stutters (name : Text) : Bool :=
  let word := name.takeWhile fun u => isLetter u || isDigit u
  (List.range word.length).any fun n =>
    let once := word.take (n + 1)
    startsWith name (once ++ 95 :: once ++ 95 :: once)

def canonicalToolName (toolName : Text) : Text :=
  let n := trim toolName
  if n = [] ∨ includes n (js "()") ∨ includes n (js "\x7b") ∨ includes n (js "=") ∨
      n.any isSpace then js "garbled_tool"
  else if !validToolName.test n then js "garbled_tool"
  else if stutters n then js "garbled_tool"
  else n

/-- `/\bpython3?\s+-c\b/` and its like. -/
def probePatterns : List Regex :=
  let inline (interpreter : Regex) (flag : Text) : Regex :=
    cat [.wordBoundary, interpreter, plus space, lit flag, .wordBoundary]
  [inline (.seq (lit (js "python")) (opt (lit (js "3")))) (js "-c"),
    inline (lit (js "node")) (js "-e"), inline (lit (js "perl")) (js "-e"),
    inline (lit (js "ruby")) (js "-e")]

def writeToolNames : List Text :=
  [js "write", js "edit", js "notebook_edit", js "apply_patch", js "multi_edit"]

abbrev ToolInput := List (Text × Json)

def isWriteTool (toolName : Text) : Bool := writeToolNames.contains toolName

def isProbeCall (toolName : Text) (input : ToolInput) : Bool :=
  if toolName = js "bash" then
    let cmd :=
      match input.find? fun f => f.1 = js "command" with
      | some (_, .str cmd) => cmd
      | _ => []
    probePatterns.any fun re => re.test cmd
  else false

/-- The digits to the base 36 are those of this number, read with a sign. -/
def simpleHash (s : Text) : UInt32 :=
  s.foldl (fun hash u => (hash <<< 5) - hash + u.toUInt32) 0

def isPulseGetMyWorkToolName (name : Text) : Bool := (litI (js "pulse_get_my_work")).test name

structure LoopCall where
  toolName : Text
  input : ToolInput

def LoopCall.record (call : LoopCall) : CallRecord :=
  let canonicalName := canonicalToolName call.toolName
  let hashedInput := if isPulseGetMyWorkToolName canonicalName then [] else call.input
  { toolName := canonicalName
    inputHash := simpleHash (Json.print (.obj hashedInput))
    isProbe := isProbeCall canonicalName call.input
    isWrite := isWriteTool canonicalName }

/-! ## The patterns

The history is read from its end, so these take it latest call first. -/

def CallRecord.sameCall (a b : CallRecord) : Bool :=
  a.toolName = b.toolName && a.inputHash = b.inputHash

/-- Calls that are no probes count for nothing until the first probe, and end
the streak after it. -/
def countProbesFrom (count : ℕ) : List CallRecord → ℕ
  | [] => count
  | made :: rest =>
      if made.isWrite then count
      else if made.isProbe then countProbesFrom (count + 1) rest
      else if 0 < count then count
      else countProbesFrom count rest

def countTrailingProbes (latest : List CallRecord) : ℕ := countProbesFrom 0 latest

def countTrailingRepeats (latest : List CallRecord) : ℕ :=
  match latest with
  | [] => 0
  | last :: _ => (latest.takeWhile fun made => made.sameCall last).length

def countPairs (a b : CallRecord) : List CallRecord → ℕ
  | cur :: prev :: rest => if cur.sameCall b && prev.sameCall a then countPairs a b rest + 1 else 0
  | _ => 0

def countPingPong (latest : List CallRecord) : ℕ :=
  match latest with
  | b :: a :: _ :: _ :: _ => if a.sameCall b then 0 else countPairs a b latest
  | _ => 0

/-! ## The detector -/

inductive LoopVerdict where
  | ok
  | warning
  | probeWarning
  | break
  deriving DecidableEq

structure LoopDetector where
  config : LoopDetectorConfig
  history : List CallRecord
  probeNudgeStreak : ℕ

def LoopDetector.new (config : LoopDetectorConfig) : LoopDetector := ⟨config, [], 0⟩

/-- The last twenty calls. -/
def lastCalls (history : List CallRecord) : List CallRecord := history.drop (history.length - 20)

/-- What the checks for repeats and for calls in turns say, when they say
something. -/
def LoopDetectorConfig.repeated (config : LoopDetectorConfig) (latest : List CallRecord) :
    Option LoopVerdict :=
  if config.breakThreshold.reachedBy (countTrailingRepeats latest) then some .break
  else if config.warningThreshold.reachedBy (countTrailingRepeats latest) then some .warning
  else if config.breakThreshold.reachedBy (countPingPong latest) then some .break
  else if config.warningThreshold.reachedBy (countPingPong latest) then some .warning
  else none

def LoopDetector.record (d : LoopDetector) (call : LoopCall) : LoopVerdict × LoopDetector :=
  let made := call.record
  let streak := if made.isWrite then 0 else d.probeNudgeStreak
  let history := lastCalls (d.history ++ [made])
  let latest := history.reverse
  let d := { d with history, probeNudgeStreak := streak }
  match d.config.repeated latest with
  | some verdict => (verdict, d)
  | none =>
      let probeStreak := countTrailingProbes latest
      if d.config.probeLoopBreak.reachedBy probeStreak then (.break, d)
      else if d.config.probeLoopWarning.reachedBy probeStreak then
        let d := { d with probeNudgeStreak := streak + 1 }
        if 3 ≤ streak + 1 then (.break, d) else (.probeWarning, d)
      else (.ok, { d with probeNudgeStreak := 0 })

def LoopDetector.reset (d : LoopDetector) : LoopDetector :=
  { d with history := [], probeNudgeStreak := 0 }

/-! ## Nudges -/

/-- The detector after a call. -/
def LoopDetector.next (d : LoopDetector) (call : LoopCall) : LoopDetector := (d.record call).2

/-- What a run of calls is answered with. -/
def LoopDetector.verdicts (d : LoopDetector) : List LoopCall → List LoopVerdict
  | [] => []
  | call :: calls => (d.record call).1 :: (d.next call).verdicts calls

/-- The nudges that are given before the first break. -/
def nudgesBeforeBreak : List LoopVerdict → ℕ
  | [] => 0
  | .break :: _ => 0
  | .probeWarning :: rest => nudgesBeforeBreak rest + 1
  | .ok :: rest | .warning :: rest => nudgesBeforeBreak rest

/-- The calls that are looked at once this one is made, the latest first. -/
def LoopDetector.latestWith (d : LoopDetector) (call : LoopCall) : List CallRecord :=
  (lastCalls (d.history ++ [call.record])).reverse

/-- The call sets the count of nudges back: it repeats nothing, and the probes
before it are too few for another nudge. -/
def LoopDetector.Forgets (d : LoopDetector) (call : LoopCall) : Prop :=
  0 < d.probeNudgeStreak ∧ d.config.repeated (d.latestWith call) = none ∧
    d.config.probeLoopBreak.reachedBy (countTrailingProbes (d.latestWith call)) = false ∧
    d.config.probeLoopWarning.reachedBy (countTrailingProbes (d.latestWith call)) = false

instance (d : LoopDetector) (call : LoopCall) : Decidable (d.Forgets call) :=
  inferInstanceAs (Decidable (_ ∧ _ ∧ _ ∧ _))

variable {d : LoopDetector} {call : LoopCall}

theorem repeated_eq_some {config : LoopDetectorConfig} {latest : List CallRecord}
    {verdict : LoopVerdict} (h : config.repeated latest = some verdict) :
    verdict = .break ∨ verdict = .warning := by
  rw [LoopDetectorConfig.repeated] at h
  split_ifs at h
  · exact .inl (Option.some.inj h).symm
  · exact .inr (Option.some.inj h).symm
  · exact .inl (Option.some.inj h).symm
  · exact .inr (Option.some.inj h).symm

/-- The answers to a call that writes nothing and sets nothing back, and the
count of nudges after it. -/
theorem record_kept (hquiet : isWriteTool (canonicalToolName call.toolName) = false)
    (hkept : ¬ d.Forgets call) :
    (d.record call).1 = .break ∨
      (d.record call).1 = .probeWarning ∧
        (d.next call).probeNudgeStreak = d.probeNudgeStreak + 1 ∧ d.probeNudgeStreak + 1 ≤ 2 ∨
      ((d.record call).1 = .ok ∨ (d.record call).1 = .warning) ∧
        (d.next call).probeNudgeStreak = d.probeNudgeStreak := by
  have hnowrite : call.record.isWrite = false := hquiet
  rw [LoopDetector.Forgets, LoopDetector.latestWith] at hkept
  rw [LoopDetector.next, LoopDetector.record]
  simp only [hnowrite, Bool.false_eq_true, if_false]
  cases hrepeated : d.config.repeated (lastCalls (d.history ++ [call.record])).reverse with
  | some verdict =>
      rcases repeated_eq_some hrepeated with rfl | rfl
      · exact .inl rfl
      · exact .inr (.inr ⟨.inr rfl, rfl⟩)
  | none =>
      cases hbreak : d.config.probeLoopBreak.reachedBy
          (countTrailingProbes (lastCalls (d.history ++ [call.record])).reverse) with
      | true => exact .inl rfl
      | false =>
          cases hwarning : d.config.probeLoopWarning.reachedBy
              (countTrailingProbes (lastCalls (d.history ++ [call.record])).reverse) with
          | true =>
              by_cases hthird : 3 ≤ d.probeNudgeStreak + 1
              · left
                simp [hthird]
              · right
                left
                simp only [hthird, if_false, if_true]
                exact ⟨rfl, rfl, by omega⟩
          | false =>
              have hzero : d.probeNudgeStreak = 0 := by
                by_contra hpos
                exact hkept ⟨Nat.pos_of_ne_zero hpos, hrepeated, hbreak, hwarning⟩
              right
              right
              simp only [Bool.false_eq_true, if_false]
              exact ⟨.inl trivial, hzero.symm⟩

/-- The nudges that were given and those to come are two at most. -/
theorem nudges_kept (calls : List LoopCall)
    (hquiet : ∀ call ∈ calls, isWriteTool (canonicalToolName call.toolName) = false)
    (hkept : Along LoopDetector.next (fun d call => ¬ d.Forgets call) d calls)
    (hstreak : d.probeNudgeStreak ≤ 2) :
    nudgesBeforeBreak (d.verdicts calls) + d.probeNudgeStreak ≤ 2 := by
  induction calls generalizing d with
  | nil => simpa [LoopDetector.verdicts, nudgesBeforeBreak] using hstreak
  | cons call calls ih =>
      have hrest : ∀ call ∈ calls, isWriteTool (canonicalToolName call.toolName) = false :=
        fun call hmem => hquiet call (List.mem_cons_of_mem _ hmem)
      have hcall := record_kept (hquiet call List.mem_cons_self) hkept.1
      rw [LoopDetector.verdicts]
      rcases hcall with hbreak | ⟨hnudge, hcount, hle⟩ | ⟨hother, hsame⟩
      · rw [hbreak, nudgesBeforeBreak]
        omega
      · have hlater := ih hrest hkept.2 (by omega)
        rw [hnudge, nudgesBeforeBreak]
        omega
      · have hlater := ih hrest hkept.2 (by omega)
        rcases hother with hok | hwarning
        · rw [hok, nudgesBeforeBreak]
          omega
        · rw [hwarning, nudgesBeforeBreak]
          omega

/-- Calls that write nothing are nudged twice at most before a break, in every
run in which no call sets the count of nudges back. -/
theorem probe_nudges_end (config : LoopDetectorConfig) (calls : List LoopCall)
    (hquiet : ∀ call ∈ calls, isWriteTool (canonicalToolName call.toolName) = false)
    (hkept : Along LoopDetector.next (fun d call => ¬ d.Forgets call) (.new config) calls) :
    nudgesBeforeBreak ((LoopDetector.new config).verdicts calls) ≤ 2 :=
  nudges_kept calls hquiet hkept (Nat.zero_le 2)

/-- A probe of the given file. -/
def probeOf (file : String) : LoopCall :=
  ⟨js "bash", [(js "command", .str (js "node -e " ++ js file))]⟩

def otherCall : LoopCall := ⟨js "read", []⟩

/-- Five probes, and something else. -/
def fiveProbes : List LoopCall :=
  [probeOf "a", probeOf "b", probeOf "c", probeOf "d", probeOf "e", otherCall]

theorem probe_nudges_end_six :
    nudgesBeforeBreak ((LoopDetector.new .default).verdicts fiveProbes) ≤ 2 :=
  probe_nudges_end .default fiveProbes (by decide +kernel) (by decide +kernel)

/-- A probe after another call starts the streak anew, and with it the count. -/
theorem probe_nudges_forgotten :
    ¬ nudgesBeforeBreak ((LoopDetector.new .default).verdicts (fiveProbes ++
      [probeOf "f", probeOf "g", probeOf "h", probeOf "i", probeOf "j"])) ≤ 2 := by
  decide +kernel

end Shizuha.Agent
