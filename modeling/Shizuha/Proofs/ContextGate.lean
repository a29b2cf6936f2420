import Shizuha.Js.Rounding
import Shizuha.Prompt.Context

/-!
# The two gates of a context agree

A request that does not fit is one that needs compaction, and neither gate
opens again as messages are appended. Both rest on one quantity, the effective
size of the context, being monotone in the raw estimate (`effectiveFor_mono`):
the four branches take it from different anchors, and at the one seam inside a
branch, where the raw estimate passes what the provider reported, the padded
growth starts at nothing.

The padding is also what keeps the unpaired branches above the raw estimate. The
growth is rounded three times on its way to the result, which can only lose a
part in `2 ^ 53` each time, and the padding is a tenth (`sub_le_padded`).
-/

namespace Shizuha.Prompt

open Js Agent Process

variable {countTokens : CountTokens}

/-! ## Estimates -/

theorem estimateTokens_append (model : Text) (messages more : List (Message ContentBlock)) :
    estimateTokens countTokens model (messages ++ more)
      = estimateTokens countTokens model messages + estimateTokens countTokens model more := by
  simp [estimateTokens]

/-- The uninflated size of a request. -/
def rawEstimateFor (countTokens : CountTokens) (messages : List (Message ContentBlock))
    (model : Option Text) (overheadTokens : ℚ) : ℚ :=
  fadd (estimateTokens countTokens (model.getD defaultTokenModel) messages : ℕ) overheadTokens

theorem rawEstimateFor_append (messages more : List (Message ContentBlock)) (model : Option Text)
    (overheadTokens : ℚ) :
    rawEstimateFor countTokens messages model overheadTokens
      ≤ rawEstimateFor countTokens (messages ++ more) model overheadTokens := by
  have hle : estimateTokens countTokens (model.getD defaultTokenModel) messages
      ≤ estimateTokens countTokens (model.getD defaultTokenModel) (messages ++ more) := by
    rw [estimateTokens_append]
    omega
  exact fadd_mono (by exact_mod_cast hle) le_rfl

theorem roundDouble_rawEstimateFor (messages : List (Message ContentBlock))
    (model : Option Text) (overheadTokens : ℚ) :
    roundDouble (rawEstimateFor countTokens messages model overheadTokens)
      = rawEstimateFor countTokens messages model overheadTokens :=
  roundDouble_idem _

theorem rawEstimateFor_nonneg (messages : List (Message ContentBlock)) (model : Option Text)
    {overheadTokens : ℚ} (h : 0 ≤ overheadTokens) :
    0 ≤ rawEstimateFor countTokens messages model overheadTokens :=
  roundDouble_nonneg (add_nonneg (Nat.cast_nonneg _) h)

theorem one_le_roundDouble {x : ℚ} (h : 1 ≤ x) : 1 ≤ roundDouble x :=
  le_roundDouble roundDouble_one h

theorem one_le_getSafetyFactor (model : Text) : 1 ≤ getSafetyFactor model := by
  have hanthropic : 1 ≤ TIKTOKEN_SAFETY_FACTOR_ANTHROPIC := one_le_roundDouble (by norm_num)
  have hlocal : 1 ≤ TIKTOKEN_SAFETY_FACTOR_LOCAL := one_le_roundDouble (by norm_num)
  have hgpt : 1 ≤ TIKTOKEN_SAFETY_FACTOR_GPT := le_refl (1 : ℚ)
  simp only [getSafetyFactor]
  split_ifs <;> assumption

/-! ## Growth with its padding -/

/-- `Math.ceil(growth * 1.10)`. -/
def padded (growth : ℚ) : ℚ := ⌈fmul growth (roundDouble (110 / 100))⌉

theorem one_le_padding : 1 ≤ roundDouble (110 / 100) := one_le_roundDouble (by norm_num)

theorem padded_mono {a b : ℚ} (h : a ≤ b) : padded a ≤ padded b := by
  have hmul := fmul_mono h (zero_le_one.trans one_le_padding)
  have hceil : ⌈fmul a (roundDouble (110 / 100))⌉ ≤ ⌈fmul b (roundDouble (110 / 100))⌉ :=
    Int.ceil_mono hmul
  rw [padded, padded]
  exact_mod_cast hceil

theorem padded_nonneg {a : ℚ} (h : 0 ≤ a) : 0 ≤ padded a := by
  have hmul : 0 ≤ fmul a (roundDouble (110 / 100)) :=
    roundDouble_nonneg (mul_nonneg h (zero_le_one.trans one_le_padding))
  have hceil : 0 ≤ ⌈fmul a (roundDouble (110 / 100))⌉ := Int.ceil_nonneg hmul
  rw [padded]
  exact_mod_cast hceil

/-- The padding more than makes up for what the roundings lose. A growth below
one token has only its ceiling to rely on. -/
theorem sub_le_padded {x y : ℚ} (hx : roundDouble x = x) (hy : roundDouble y = y) (h : y < x) :
    x - y ≤ padded (fsub x y) := by
  have hpos := fsub_pos hx hy h
  have hceil := Int.le_ceil (fmul (fsub x y) (roundDouble (110 / 100)))
  rcases le_or_gt (x - y) 1 with hsmall | hbig
  · have hmul : fsub x y ≤ fmul (fsub x y) (roundDouble (110 / 100)) :=
      le_fmul (roundDouble_idem _) hpos.le one_le_padding
    have hone : 1 ≤ ⌈fmul (fsub x y) (roundDouble (110 / 100))⌉ :=
      Int.one_le_ceil_iff.mpr (hpos.trans_le hmul)
    have honeq : (1 : ℚ) ≤ padded (fsub x y) := by
      rw [padded]
      exact_mod_cast hone
    exact hsmall.trans honeq
  · have hdiff := le_roundDouble_of_normal (leastNormal_le_one.trans hbig.le)
    have hfactor : (109 / 100 : ℚ) ≤ roundDouble (110 / 100) := by
      have hround := le_roundDouble_of_normal (x := 110 / 100)
        (leastNormal_le_one.trans (by norm_num))
      refine le_trans ?_ hround
      norm_num
    have hexact : (x - y) * (108 / 100) ≤ fsub x y * roundDouble (110 / 100) := by
      calc (x - y) * (108 / 100)
          ≤ (x - y) * (1 - 1 / 2 ^ 53) * (109 / 100) := by
            rw [mul_assoc]
            exact mul_le_mul_of_nonneg_left (by norm_num) (by linarith)
        _ ≤ fsub x y * roundDouble (110 / 100) :=
            mul_le_mul hdiff hfactor (by norm_num) hpos.le
    have hmul := le_roundDouble_of_normal
      (x := fsub x y * roundDouble (110 / 100)) (leastNormal_le_one.trans (by linarith))
    calc x - y ≤ (x - y) * (108 / 100) * (1 - 1 / 2 ^ 53) := by
          rw [mul_assoc]
          exact le_mul_of_one_le_right (by linarith) (by norm_num)
      _ ≤ fsub x y * roundDouble (110 / 100) * (1 - 1 / 2 ^ 53) :=
          mul_le_mul_of_nonneg_right hexact (by norm_num)
      _ ≤ fmul (fsub x y) (roundDouble (110 / 100)) := hmul
      _ ≤ padded (fsub x y) := hceil

/-! ## The effective size -/

/-- The effective size as a function of the raw estimate. -/
def effectiveFor (factor reportedPromptTokens reportedRawEstimateTokens rawEstimate : ℚ) : ℚ :=
  if 0 < reportedPromptTokens then
    if 0 < reportedRawEstimateTokens then
      fadd reportedPromptTokens (padded (max 0 (fsub rawEstimate reportedRawEstimateTokens)))
    else if reportedPromptTokens < rawEstimate then
      fadd reportedPromptTokens (padded (fsub rawEstimate reportedPromptTokens))
    else reportedPromptTokens
  else ⌈fmul rawEstimate factor⌉

theorem effectiveContextTokens_eq (messages : List (Message ContentBlock)) (model : Option Text)
    (overheadTokens reportedPromptTokens reportedRawEstimateTokens : ℚ) :
    effectiveContextTokens countTokens messages model overheadTokens reportedPromptTokens
        reportedRawEstimateTokens
      = effectiveFor (getSafetyFactor (model.getD [])) reportedPromptTokens
          reportedRawEstimateTokens (rawEstimateFor countTokens messages model overheadTokens) :=
  rfl

section

variable {factor reported baseline raw raw' : ℚ}

theorem effectiveFor_mono (hfactor : 1 ≤ factor) (hreported : roundDouble reported = reported)
    (h : raw ≤ raw') :
    effectiveFor factor reported baseline raw ≤ effectiveFor factor reported baseline raw' := by
  rw [effectiveFor, effectiveFor]
  split_ifs with hpos hbase hraw hraw' hraw'
  · have hgrowth := max_le_max (le_refl (0 : ℚ)) (fsub_mono h baseline)
    exact fadd_mono le_rfl (padded_mono hgrowth)
  · exact fadd_mono le_rfl (padded_mono (fsub_mono h reported))
  · exact absurd (hraw.trans_le h) hraw'
  · -- The seam: what was reported is the size on the near side of it.
    have hgrowth : 0 ≤ fsub raw' reported := roundDouble_nonneg (by linarith)
    exact le_fadd hreported (padded_nonneg hgrowth)
  · exact le_rfl
  · have hmul := fmul_mono h (zero_le_one.trans hfactor)
    have hceil : ⌈fmul raw factor⌉ ≤ ⌈fmul raw' factor⌉ := Int.ceil_mono hmul
    exact_mod_cast hceil

/-- Without a paired baseline the raw estimate is a lower bound. -/
theorem le_effectiveFor (hfactor : 1 ≤ factor) (hreported : roundDouble reported = reported)
    (hraw : roundDouble raw = raw) (hnonneg : 0 ≤ raw) (hbase : baseline ≤ 0) :
    raw ≤ effectiveFor factor reported baseline raw := by
  rw [effectiveFor, if_neg (not_lt.mpr hbase)]
  split_ifs with hpos hlt
  · have hgrowth := sub_le_padded hraw hreported hlt
    exact le_roundDouble hraw (by linarith)
  · exact not_lt.mp hlt
  · calc raw ≤ fmul raw factor := le_fmul hraw hnonneg hfactor
      _ ≤ ⌈fmul raw factor⌉ := Int.le_ceil _

end

/-! ## The trigger -/

theorem largeWindowHeadroomTokens_nonneg (maxTokens : ℚ) :
    0 ≤ largeWindowHeadroomTokens maxTokens := by
  have hfloor : 0 ≤ LARGE_WINDOW_HEADROOM_TOKENS := by
    rw [LARGE_WINDOW_HEADROOM_TOKENS]
    norm_num
  exact hfloor.trans ((le_max_left _ _).trans (le_max_left _ _))

theorem compactionThresholdFor_le_one (env : Env) {maxTokens : ℚ}
    (h : roundDouble maxTokens = maxTokens) : compactionThresholdFor env maxTokens ≤ 1 := by
  rw [compactionThresholdFor]
  split_ifs with hlarge
  · have hfit := fsub_le h (largeWindowHeadroomTokens_nonneg maxTokens)
    exact fdiv_le_one (lt_of_lt_of_le (by norm_num) hlarge) ((min_le_right _ _).trans hfit)
  · exact roundDouble_le roundDouble_one (by norm_num)

/-- The trigger is inside the window. -/
theorem trigger_le (env : Env) {maxTokens : ℚ} (h : roundDouble maxTokens = maxTokens)
    (h0 : 0 ≤ maxTokens) : fmul maxTokens (compactionThresholdFor env maxTokens) ≤ maxTokens :=
  fmul_le h h0 (compactionThresholdFor_le_one env h)

/-! ## The gates -/

section

variable {env : Env} {messages : List (Message ContentBlock)} {model : Option Text}
  {maxTokens overheadTokens outputBudget reportedPromptTokens reportedRawEstimateTokens
    guardBudget : ℚ}

theorem needsCompaction_eq_true :
    needsCompaction env countTokens messages maxTokens model overheadTokens outputBudget
        reportedPromptTokens reportedRawEstimateTokens guardBudget = true ↔
      let estimated := effectiveContextTokens countTokens messages model overheadTokens
        reportedPromptTokens reportedRawEstimateTokens
      let trigger := fmul maxTokens (compactionThresholdFor env maxTokens)
      trigger < estimated ∨
      (0 < fadd outputBudget guardBudget ∧
        maxTokens < fadd (fadd estimated outputBudget) guardBudget) ∨
      (reportedRawEstimateTokens ≤ 0 ∧
        trigger < rawEstimateFor countTokens messages model overheadTokens) := by
  simp [needsCompaction, rawEstimateFor, or_assoc]

theorem nextProviderCallFits_eq_false :
    nextProviderCallFits countTokens messages maxTokens model overheadTokens outputBudget
        reportedPromptTokens reportedRawEstimateTokens guardBudget = false ↔
      maxTokens < fadd (fadd (effectiveContextTokens countTokens messages model overheadTokens
        reportedPromptTokens reportedRawEstimateTokens) outputBudget) guardBudget := by
  simp [nextProviderCallFits]

theorem budgets_zero {a b : ℚ} (ha : roundDouble a = a) (hb : roundDouble b = b)
    (ha0 : 0 ≤ a) (hb0 : 0 ≤ b) (h : ¬ 0 < fadd a b) : a = 0 ∧ b = 0 := by
  have hla : a ≤ fadd a b := le_fadd ha hb0
  have hlb : b ≤ fadd a b := le_roundDouble hb (le_add_of_nonneg_left ha0)
  constructor <;> linarith

/-- With budgets, the second disjunct is the gate itself. Without, the estimate
alone is past the window, and the trigger is not. -/
theorem needsCompaction_of_not_fits (hmax : roundDouble maxTokens = maxTokens)
    (hout : roundDouble outputBudget = outputBudget)
    (hguard : roundDouble guardBudget = guardBudget) (hmax0 : 0 ≤ maxTokens)
    (hout0 : 0 ≤ outputBudget) (hguard0 : 0 ≤ guardBudget)
    (h : nextProviderCallFits countTokens messages maxTokens model overheadTokens outputBudget
      reportedPromptTokens reportedRawEstimateTokens guardBudget = false) :
    needsCompaction env countTokens messages maxTokens model overheadTokens outputBudget
      reportedPromptTokens reportedRawEstimateTokens guardBudget = true := by
  rw [nextProviderCallFits_eq_false] at h
  rw [needsCompaction_eq_true]
  rcases em (0 < fadd outputBudget guardBudget) with hbudget | hbudget
  · exact .inr (.inl ⟨hbudget, h⟩)
  · obtain ⟨rfl, rfl⟩ := budgets_zero hout hguard hout0 hguard0 hbudget
    refine .inl (lt_of_le_of_lt (trigger_le env hmax hmax0) ?_)
    by_contra hle
    have hsum := roundDouble_le hmax (not_lt.mp hle)
    rw [fadd, fadd, add_zero, add_zero] at h
    have hfits := roundDouble_le hmax hsum
    linarith

theorem effectiveContextTokens_append (countTokens : CountTokens)
    (messages more : List (Message ContentBlock)) (model : Option Text)
    (overheadTokens reportedRawEstimateTokens : ℚ)
    (hreported : roundDouble reportedPromptTokens = reportedPromptTokens) :
    effectiveContextTokens countTokens messages model overheadTokens reportedPromptTokens
        reportedRawEstimateTokens
      ≤ effectiveContextTokens countTokens (messages ++ more) model overheadTokens
          reportedPromptTokens reportedRawEstimateTokens := by
  rw [effectiveContextTokens_eq, effectiveContextTokens_eq]
  exact effectiveFor_mono (one_le_getSafetyFactor _) hreported (rawEstimateFor_append _ _ _ _)

theorem needsCompaction_append (more : List (Message ContentBlock))
    (hreported : roundDouble reportedPromptTokens = reportedPromptTokens)
    (h : needsCompaction env countTokens messages maxTokens model overheadTokens outputBudget
      reportedPromptTokens reportedRawEstimateTokens guardBudget = true) :
    needsCompaction env countTokens (messages ++ more) maxTokens model overheadTokens
      outputBudget reportedPromptTokens reportedRawEstimateTokens guardBudget = true := by
  have hmono := effectiveContextTokens_append countTokens messages more model overheadTokens
    reportedRawEstimateTokens hreported
  rw [needsCompaction_eq_true] at h ⊢
  rcases h with htrigger | ⟨hbudget, hsum⟩ | ⟨hbase, hraw⟩
  · exact .inl (htrigger.trans_le hmono)
  · exact .inr (.inl ⟨hbudget, hsum.trans_le (fadd_mono (fadd_mono hmono le_rfl) le_rfl)⟩)
  · exact .inr (.inr ⟨hbase, hraw.trans_le (rawEstimateFor_append _ _ _ _)⟩)

theorem nextProviderCallFits_append (more : List (Message ContentBlock))
    (hreported : roundDouble reportedPromptTokens = reportedPromptTokens)
    (h : nextProviderCallFits countTokens messages maxTokens model overheadTokens outputBudget
      reportedPromptTokens reportedRawEstimateTokens guardBudget = false) :
    nextProviderCallFits countTokens (messages ++ more) maxTokens model overheadTokens
      outputBudget reportedPromptTokens reportedRawEstimateTokens guardBudget = false := by
  have hmono := effectiveContextTokens_append countTokens messages more model overheadTokens
    reportedRawEstimateTokens hreported
  rw [nextProviderCallFits_eq_false] at h ⊢
  exact h.trans_le (fadd_mono (fadd_mono hmono le_rfl) le_rfl)

end

/-- The two gates are consistent, and each goes one way as messages are
appended. The settings are arbitrary here, the unset ones among them. -/
theorem context_gates_consistent (env : Env) (countTokens : CountTokens)
    (messages : List (Message ContentBlock)) (model : Option Text)
    (maxTokens overheadTokens outputBudget reportedPromptTokens reportedRawEstimateTokens
      guardBudget : Double)
    (hmax : 0 ≤ maxTokens.val) (hoverhead : 0 ≤ overheadTokens.val)
    (hout : 0 ≤ outputBudget.val) (hguard : 0 ≤ guardBudget.val) :
    (nextProviderCallFits countTokens messages maxTokens.val model overheadTokens.val
        outputBudget.val reportedPromptTokens.val reportedRawEstimateTokens.val
        guardBudget.val = false →
      needsCompaction env countTokens messages maxTokens.val model overheadTokens.val
        outputBudget.val reportedPromptTokens.val reportedRawEstimateTokens.val
        guardBudget.val = true) ∧
    (∀ more,
      (needsCompaction env countTokens messages maxTokens.val model overheadTokens.val
          outputBudget.val reportedPromptTokens.val reportedRawEstimateTokens.val
          guardBudget.val = true →
        needsCompaction env countTokens (messages ++ more) maxTokens.val model
          overheadTokens.val outputBudget.val reportedPromptTokens.val
          reportedRawEstimateTokens.val guardBudget.val = true) ∧
      (nextProviderCallFits countTokens messages maxTokens.val model overheadTokens.val
          outputBudget.val reportedPromptTokens.val reportedRawEstimateTokens.val
          guardBudget.val = false →
        nextProviderCallFits countTokens (messages ++ more) maxTokens.val model
          overheadTokens.val outputBudget.val reportedPromptTokens.val
          reportedRawEstimateTokens.val guardBudget.val = false)) ∧
    (reportedRawEstimateTokens.val ≤ 0 →
      fadd (estimateTokens countTokens (model.getD defaultTokenModel) messages : ℕ)
          overheadTokens.val
        ≤ effectiveContextTokens countTokens messages model overheadTokens.val
            reportedPromptTokens.val reportedRawEstimateTokens.val) := by
  have hreported := reportedPromptTokens.isDouble.roundDouble_eq
  refine ⟨?fits, ?append, ?floor⟩
  case fits =>
    exact needsCompaction_of_not_fits maxTokens.isDouble.roundDouble_eq
      outputBudget.isDouble.roundDouble_eq guardBudget.isDouble.roundDouble_eq hmax hout hguard
  case append =>
    intro more
    exact ⟨needsCompaction_append more hreported, nextProviderCallFits_append more hreported⟩
  case floor =>
    intro hbase
    rw [effectiveContextTokens_eq]
    exact le_effectiveFor (one_le_getSafetyFactor _) hreported
      (roundDouble_rawEstimateFor _ _ _) (rawEstimateFor_nonneg _ _ hoverhead) hbase

/-- A message of three tokens against a window of two, nothing reported yet. -/
theorem context_gates_consistent_tight :
    needsCompaction (fun _ => none) (fun s _ => s.length)
      [⟨none, none, none, .user, .text (js "abc"), none⟩] 2 none 0 0 0 0 0 = true := by
  have hgates := context_gates_consistent (fun _ => none) (fun s _ => s.length)
    [⟨none, none, none, .user, .text (js "abc"), none⟩] none
    (Double.ofInt 2 (by decide)) (Double.ofInt 0 zero_small) (Double.ofInt 0 zero_small)
    (Double.ofInt 0 zero_small) (Double.ofInt 0 zero_small) (Double.ofInt 0 zero_small)
    (by decide +kernel) (by decide +kernel) (by decide +kernel) (by decide +kernel)
  exact hgates.1 (by decide +kernel)

end Shizuha.Prompt
