import Shizuha.Js.Number

/-!
# The expensive-turn guard

The guard looks at the completed turns of the last window and pauses the inbox
when enough of them had a large prefill and produced nothing. What a turn
prefilled is estimated from the cache counts of its provider, or from how much
the prompt grew since the turn before.

Times are whole milliseconds. A count is any finite number, or missing.
-/

namespace Shizuha.Agent

open Js

structure ExpensiveTurnGuardConfig where
  enabled : Bool
  windowMs : ℕ
  minTurns : ℕ
  minPromptTokens : ℚ
  minProductiveOutputTokens : ℚ
  flagToolCallingSterileTurns : Bool
  baseBackoffMs : ℕ
  maxBackoffMs : ℕ
  notifyCooldownMs : ℕ
  coldTtftMs : ℚ

structure ExpensiveTurnSample where
  now : ℤ
  inputTokens : Option ℚ
  outputTokens : Option ℚ
  toolCallCount : Option ℚ
  cacheReadTokens : Option ℚ
  cacheCreationTokens : Option ℚ
  prefixCacheBusted : Bool
  ttftMs : Option ℚ

structure StoredSample extends ExpensiveTurnSample where
  prefillTokens : ℚ

/-- `Math.max(0, Math.floor(x))` of a count that may be missing. -/
def wholeCount (x : Option ℚ) : ℚ := max 0 ⌊x.getD 0⌋

/-- A count as the sums take it. -/
def countOf (x : Option ℚ) : ℚ := max 0 (x.getD 0)

/-- The provider has proved that nearly all of the prompt was cached. -/
def cacheProven (input : ℚ) (readRaw : Option ℚ) : Bool :=
  match readRaw with
  | none => false
  | some readRaw =>
      (⌊readRaw⌋ ≤ input && input - ⌊readRaw⌋ < fmul input (roundDouble (5 / 100))) ||
        (input < ⌊readRaw⌋ && 0 < ⌊readRaw⌋)

def estimatePrefillTokens (sample : ExpensiveTurnSample) (previous : Option StoredSample)
    (config : ExpensiveTurnGuardConfig) : ℚ :=
  let input := wholeCount sample.inputTokens
  let create := wholeCount sample.cacheCreationTokens
  let prefill :=
    match sample.cacheReadTokens with
    | some readRaw =>
        let read := wholeCount (some readRaw)
        if read ≤ input then input - read + create else input + create
    | none =>
        match previous.bind fun p => p.inputTokens with
        | some before => if before < input then input - before else input
        | none => input
  let prefill := if sample.prefixCacheBusted then max prefill input else prefill
  let cold :=
    match sample.ttftMs with
    | none => false
    | some ttftMs =>
        config.coldTtftMs ≤ ttftMs && config.minPromptTokens ≤ input &&
          !cacheProven input sample.cacheReadTokens
  max 0 (if cold then max prefill input else prefill)

structure ExpensiveTurnGuardTrip where
  turnCount : ℕ
  callsPerMinute : ℚ
  inputTokens : ℚ
  prefillTokens : ℚ
  outputTokens : ℚ
  toolCallCount : ℚ
  promptOutputRatio : ℚ
  promptTokenThreshold : ℚ
  windowMs : ℕ
  backoffMs : ℕ
  pauseUntil : ℤ
  notify : Bool
  deriving DecidableEq

inductive ExpensiveTurnGuardDecision where
  | ok
  | pause (trip : ExpensiveTurnGuardTrip)
  deriving DecidableEq

structure ExpensiveTurnGuard where
  config : ExpensiveTurnGuardConfig
  samples : List StoredSample
  totalExpensiveSamples : ℕ
  pauseUntil : ℤ
  tripCount : ℕ
  lastNotifyAt : ℤ

structure ReplayPacing where
  maxInFlight : ℕ
  minSpacingMs : ℕ
  perWindowBudget : ℕ

namespace ExpensiveTurnGuard

def remainingPauseMs (g : ExpensiveTurnGuard) (now : ℤ) : ℤ := max 0 (g.pauseUntil - now)

def replayPacing (g : ExpensiveTurnGuard) : ReplayPacing :=
  if !g.config.enabled then ⟨1, 0, 2 ^ 53 - 1⟩
  else
    let perWindowBudget := max 1 (g.config.minTurns - 1)
    ⟨1, g.config.windowMs / perWindowBudget + 1, perWindowBudget⟩

def isHighPrefill (g : ExpensiveTurnGuard) (prefillTokens : ℚ) : Bool :=
  g.config.minPromptTokens ≤ prefillTokens

def isSterileExpensive (g : ExpensiveTurnGuard) (windowTotalOutput : ℚ) (sample : StoredSample) :
    Bool :=
  let minOut := g.config.minProductiveOutputTokens
  if !g.isHighPrefill sample.prefillTokens then false
  else if minOut ≤ countOf sample.outputTokens then false
  else if wholeCount sample.toolCallCount = 0 then true
  else if !g.config.flagToolCallingSterileTurns then false
  else windowTotalOutput < minOut

def inWindow (g : ExpensiveTurnGuard) (now : ℤ) (s : StoredSample) : Bool :=
  now - s.now ≤ g.config.windowMs

def windowTotalOutput (g : ExpensiveTurnGuard) (now : ℤ) : ℚ :=
  ((g.samples.filter fun s => g.inWindow now s && g.isHighPrefill s.prefillTokens).map
    fun s => countOf s.outputTokens).sum

def expensiveSamplesInWindow (g : ExpensiveTurnGuard) (now : ℤ) : ℕ :=
  if !g.config.enabled then 0
  else
    (g.samples.filter fun s =>
      g.inWindow now s && g.isSterileExpensive (g.windowTotalOutput now) s).length

/-- The state once a sample is stored and the old ones are dropped, and the
output of its window. -/
def store (g : ExpensiveTurnGuard) (sample : ExpensiveTurnSample) : ExpensiveTurnGuard × ℚ :=
  let stored : StoredSample :=
    { sample with
      prefillTokens := estimatePrefillTokens sample g.samples.getLast? g.config }
  let g := { g with samples := g.samples ++ [stored] }
  let total := g.windowTotalOutput sample.now
  ({ g with
    totalExpensiveSamples :=
      g.totalExpensiveSamples + if g.isSterileExpensive total stored then 1 else 0
    samples := g.samples.filter (g.inWindow sample.now) }, total)

/-- The pause that the expensive turns of the window earn. -/
def trip (g : ExpensiveTurnGuard) (now : ℤ) (expensive : List StoredSample) :
    ExpensiveTurnGuardDecision × ExpensiveTurnGuard :=
  let sum (f : StoredSample → Option ℚ) : ℚ := (expensive.map fun s => countOf (f s)).sum
  let prefillSum := sum fun s => some s.prefillTokens
  let outputTokens := sum fun s => s.outputTokens
  let firstTs := (expensive.head?.map fun s => s.now).getD now
  let lastTs := (expensive.getLast?.map fun s => s.now).getD now
  let elapsedMs : ℤ := max 1000 (if lastTs - firstTs = 0 then g.config.windowMs else lastTs - firstTs)
  let backoffMs := min g.config.maxBackoffMs (g.config.baseBackoffMs * 2 ^ g.tripCount)
  let notify : Bool := (g.config.notifyCooldownMs : ℤ) ≤ now - g.lastNotifyAt
  (.pause
    { turnCount := expensive.length
      callsPerMinute := fdiv expensive.length (fdiv elapsedMs 60000)
      inputTokens := sum fun s => s.inputTokens
      prefillTokens := prefillSum
      outputTokens := outputTokens
      toolCallCount := sum fun s => s.toolCallCount
      promptOutputRatio := fdiv prefillSum (max 1 outputTokens)
      promptTokenThreshold := g.config.minPromptTokens
      windowMs := g.config.windowMs
      backoffMs := backoffMs
      pauseUntil := now + backoffMs
      notify := notify },
    { g with
      tripCount := g.tripCount + 1
      pauseUntil := now + backoffMs
      lastNotifyAt := if notify then now else g.lastNotifyAt })

def record (g : ExpensiveTurnGuard) (sample : ExpensiveTurnSample) :
    ExpensiveTurnGuardDecision × ExpensiveTurnGuard :=
  if !g.config.enabled then (.ok, g)
  else if sample.now < g.pauseUntil then (.ok, g)
  else
    let (g, windowTotalOutput) := g.store sample
    let expensive := g.samples.filter (g.isSterileExpensive windowTotalOutput)
    if expensive.length < g.config.minTurns then (.ok, g) else g.trip sample.now expensive

end ExpensiveTurnGuard

end Shizuha.Agent
