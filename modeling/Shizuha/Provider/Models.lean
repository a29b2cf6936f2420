import Shizuha.Js.Regex

/-!
# Which models are served by the gateway

A model id is text, and what kind of model it names is read off its prefixes.
-/

namespace Shizuha.Provider

open Js

/-- `toLowerCase` as far as comparing with ASCII can tell: besides the ASCII
letters only the Kelvin sign and the dotted capital I have anything ASCII in
their lower case. -/
def toLowerCase (s : Text) : Text :=
  s.flatMap fun u =>
    if 65 ≤ u && u ≤ 90 then [u + 32]
    else if u = 0x212A then [107]
    else if u = 0x0130 then [105, 0x0307]
    else [u]

/-- `/^(cortex\/)+|(^xai\/)|(^xai:)/i` -/
def PREFIX_RE : Regex :=
  .oneOf [.seq .bos (.plus (.litI (js "cortex/"))), .seq .bos (.litI (js "xai/")),
    .seq .bos (.litI (js "xai:"))]

/-- One round of stripping after the other, until nothing changes or four are
done. -/
def stripRounds : ℕ → Text → Text
  | 0, bare => bare
  | n + 1, bare =>
      let next := PREFIX_RE.replaceFirst (fun _ => []) bare
      if next = bare then bare else stripRounds n next

def stripGrokVoicePrefix (model : Text) : Text := toLowerCase (stripRounds 4 (trim model))

def isGrokVoiceOmniModel (model : Text) : Bool :=
  model ≠ [] && startsWith (stripGrokVoicePrefix model) (js "grok-voice")

def CORTEX_MODEL_FAMILY_PREFIXES : List Text :=
  [js "glm-", js "chatglm", js "qwen", js "gpt-oss", js "minimax", js "deepseek", js "grok-"]

def CORTEX_OPENCODE_ZEN_FREE_IDS : List Text :=
  [js "big-pickle", js "deepseek-v4-flash-free", js "mimo-v2.5-free", js "hy3-free",
    js "laguna-s-2.1-free", js "nemotron-3-ultra-free", js "nemotron-3.5-lightning-free"]

/-- `/^(cortex|opencode|opencode-zen)\//` -/
def routePrefix : Regex :=
  .cat [.bos, .oneOf [.lit (js "cortex"), .lit (js "opencode"), .lit (js "opencode-zen")],
    .lit (js "/")]

def isCortexModelId (model : Text) : Bool :=
  if model = [] then false
  else if isGrokVoiceOmniModel model then false
  else
    let lower := toLowerCase model
    if startsWith lower (js "cortex/") then true
    else if startsWith lower (js "xai/grok-") then true
    else if startsWith lower (js "opencode/") || startsWith lower (js "opencode-zen/") then true
    else
      let bare := routePrefix.replaceFirst (fun _ => []) lower
      if CORTEX_OPENCODE_ZEN_FREE_IDS.contains bare then true
      else CORTEX_MODEL_FAMILY_PREFIXES.any (startsWith lower)

end Shizuha.Provider
