import Shizuha.Agent.Types
import Shizuha.Process.Env
import Shizuha.Provider.Models

/-!
# The size of a context, and when it is too large

Token estimates for messages, the safety factor of a model's tokenizer, and
the two window-dependent fractions of the compaction band: the trigger and the
target below it. The tokenizer itself is a parameter: a text and a model to a
count.
-/

namespace Shizuha.Prompt

open Js Agent Process Provider

/-- `countTokens(text, model)`. -/
abbrev CountTokens := Text → Text → ℕ

/-- The model `countTokens` assumes when it is given none. -/
def defaultTokenModel : Text := js "gpt-4o"

def IMAGE_TOKEN_ESTIMATE : ℕ := 1600

def COMPACTION_THRESHOLD : ℚ := roundDouble (7 / 10)
def MIN_CORTEX_COMPACTION_TRIGGER_TOKENS : ℚ := 48000
def DEFAULT_CORTEX_COMPACTION_TRIGGER_FRACTION : ℚ := roundDouble (6 / 10)
def DEFAULT_CORTEX_COMPACTION_TARGET_FRACTION : ℚ := roundDouble (4 / 10)

def TIKTOKEN_SAFETY_FACTOR_ANTHROPIC : ℚ := roundDouble (135 / 100)
def TIKTOKEN_SAFETY_FACTOR_GPT : ℚ := 1
def TIKTOKEN_SAFETY_FACTOR_LOCAL : ℚ := roundDouble (145 / 100)

/-- `replace(/^head/i, '')` for a literal head. -/
def stripHeadI (head s : Text) : Text :=
  (Regex.seq .bos (.litI head)).replaceFirst (fun _ => []) s

def getSafetyFactor (model : Text) : ℚ :=
  if model = [] then TIKTOKEN_SAFETY_FACTOR_ANTHROPIC
  else
    let bare := stripHeadI (js "openai/") (stripHeadI (js "codex/") (stripHeadI (js "cortex/") model))
    if startsWith bare (js "gpt-") || startsWith bare (js "codex-") || startsWith bare (js "o1")
        || startsWith bare (js "o3") || startsWith bare (js "o4")
        || (Regex.litI (js "codex")).test bare then
      TIKTOKEN_SAFETY_FACTOR_GPT
    else if startsWith model (js "llamacpp/") || startsWith model (js "ollama/")
        || startsWith model (js "vllm/") || isCortexModelId model then
      TIKTOKEN_SAFETY_FACTOR_LOCAL
    else TIKTOKEN_SAFETY_FACTOR_ANTHROPIC

/-! ## Estimates -/

def estimateEncryptedContentTokens (base64Len : ℕ) : ℕ := (base64Len * 3 / 4 - 650 + 3) / 4

def estimateReasoningTokens (countTokens : CountTokens) (model : Text)
    (encryptedContent : Option (Option Text)) (rawContent signature : Option Text)
    (summary : Option (List Text)) : ℕ :=
  let counted (s : Text) : ℕ := if s = [] then 0 else countTokens s model
  (match encryptedContent with
    | some (some s) => if s = [] then 0 else estimateEncryptedContentTokens s.length
    | _ => 0) +
  counted (rawContent.getD []) +
  ((summary.getD []).map counted).sum +
  ((signature.getD []).length + 3) / 4

def estimateBlockTokens (countTokens : CountTokens) (model : Text) : ContentBlock → ℕ
  | .toolResult _ content _ image =>
      countTokens content model + (if image.isSome then IMAGE_TOKEN_ESTIMATE else 0)
  | .text s => countTokens s model
  | .reasoning _ encryptedContent rawContent signature summary =>
      estimateReasoningTokens countTokens model encryptedContent rawContent signature summary
  | block => countTokens block.toJson.print model

def estimateMessageTokens (countTokens : CountTokens) (model : Text)
    (m : Message ContentBlock) : ℕ :=
  match m.content with
  | .text s => countTokens s model
  | .blocks bs => (bs.map (estimateBlockTokens countTokens model)).sum

def estimateTokens (countTokens : CountTokens) (model : Text)
    (messages : List (Message ContentBlock)) : ℕ :=
  (messages.map (estimateMessageTokens countTokens model)).sum

/-! ## The band -/

def LARGE_WINDOW_HEADROOM_TOKENS : ℚ := 48000
def LARGE_WINDOW_HEADROOM_FRACTION : ℚ := roundDouble (15 / 100)

def largeWindowHeadroomTokens (maxTokens : ℚ) : ℚ :=
  let defaultPreflightGuard := max 1024 (min 65536 (⌈fmul maxTokens (1 / 8)⌉ : ℚ))
  let defaultFitHeadroom := fadd defaultPreflightGuard 16384
  max (max LARGE_WINDOW_HEADROOM_TOKENS (⌊fmul maxTokens LARGE_WINDOW_HEADROOM_FRACTION⌋ : ℚ))
    defaultFitHeadroom

def compactionThresholdFor (env : Env) (maxTokens : ℚ) : ℚ :=
  if 200000 ≤ maxTokens then
    let absolute := positiveIntEnv env "SHIZUHA_CORTEX_COMPACTION_TRIGGER_TOKENS"
    let fractionOverride := positiveFloatEnv env "SHIZUHA_CORTEX_COMPACTION_TRIGGER_FRACTION"
    let fraction := fractionOverride.getD DEFAULT_CORTEX_COMPACTION_TRIGGER_FRACTION
    let configured := absolute.getD (mathRound (fmul maxTokens fraction))
    let fitCeilingTokens := fsub maxTokens (largeWindowHeadroomTokens maxTokens)
    let triggerTokens :=
      min (max configured MIN_CORTEX_COMPACTION_TRIGGER_TOKENS) fitCeilingTokens
    fdiv triggerTokens maxTokens
  else COMPACTION_THRESHOLD

def compactionTargetFractionFor (env : Env) (maxTokens : ℚ) : ℚ :=
  let override := positiveFloatEnv env "SHIZUHA_CORTEX_COMPACTION_TARGET_FRACTION"
  let target := override.getD DEFAULT_CORTEX_COMPACTION_TARGET_FRACTION
  let triggerFraction := compactionThresholdFor env maxTokens
  min target (fmul triggerFraction (roundDouble (95 / 100)))

/-! ## The gates

`model` is `none` where the caller names none; the counts are then those of the
default model, and the safety factor the one for an empty name. -/

def effectiveContextTokens (countTokens : CountTokens) (messages : List (Message ContentBlock))
    (model : Option Text) (overheadTokens reportedPromptTokens reportedRawEstimateTokens : ℚ) :
    ℚ :=
  let rawEstimate := fadd
    (estimateTokens countTokens (model.getD defaultTokenModel) messages : ℕ) overheadTokens
  if 0 < reportedPromptTokens then
    if 0 < reportedRawEstimateTokens then
      let growth := max 0 (fsub rawEstimate reportedRawEstimateTokens)
      fadd reportedPromptTokens ⌈fmul growth (roundDouble (110 / 100))⌉
    else if reportedPromptTokens < rawEstimate then
      let growth := fsub rawEstimate reportedPromptTokens
      fadd reportedPromptTokens ⌈fmul growth (roundDouble (110 / 100))⌉
    else reportedPromptTokens
  else ⌈fmul rawEstimate (getSafetyFactor (model.getD []))⌉

def needsCompaction (env : Env) (countTokens : CountTokens)
    (messages : List (Message ContentBlock)) (maxTokens : ℚ) (model : Option Text)
    (overheadTokens outputBudget reportedPromptTokens reportedRawEstimateTokens
      guardBudget : ℚ) : Bool :=
  let estimated := effectiveContextTokens countTokens messages model overheadTokens
    reportedPromptTokens reportedRawEstimateTokens
  let rawFullEstimate := fadd
    (estimateTokens countTokens (model.getD defaultTokenModel) messages : ℕ) overheadTokens
  let rawFloorTrigger := decide (reportedRawEstimateTokens ≤ 0)
    && decide (fmul maxTokens (compactionThresholdFor env maxTokens) < rawFullEstimate)
  decide (fmul maxTokens (compactionThresholdFor env maxTokens) < estimated)
    || (decide (0 < fadd outputBudget guardBudget)
      && decide (maxTokens < fadd (fadd estimated outputBudget) guardBudget))
    || rawFloorTrigger

def nextProviderCallFits (countTokens : CountTokens) (messages : List (Message ContentBlock))
    (maxTokens : ℚ) (model : Option Text)
    (overheadTokens outputBudget reportedPromptTokens reportedRawEstimateTokens
      guardBudget : ℚ) : Bool :=
  let estimated := effectiveContextTokens countTokens messages model overheadTokens
    reportedPromptTokens reportedRawEstimateTokens
  decide (fadd (fadd estimated outputBudget) guardBudget ≤ maxTokens)

end Shizuha.Prompt
