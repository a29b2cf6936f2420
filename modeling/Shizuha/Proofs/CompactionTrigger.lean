import Shizuha.Js.Rounding
import Shizuha.Prompt.Context

/-!
# Where the proactive trigger lies

The trigger is a count of tokens that is handed on as a fraction of its window
and multiplied out again by whoever compares with it. The count itself is well
placed: between the floor and the fit ceiling for a large window, whatever the
settings ask for. What is compared is that count after a division and a
multiplication, each rounded, and it is one place off for some windows. So the
band is kept exactly when the count does not sit on an edge of it that the way
back crosses (`InBand`, `compaction_trigger_iff`).

As the window grows the count grows too, on either side of 200000; across it, it
drops from seven tenths to six.
-/

namespace Shizuha.Prompt

open Js Process

/-! ## The parts of the trigger -/

/-- The guard the last check before a request keeps, when nothing sets it. -/
def defaultPreflightGuard (maxTokens : ℚ) : ℚ :=
  max 1024 (min 65536 (⌈fmul maxTokens (1 / 8)⌉ : ℚ))

def fitCeilingTokens (maxTokens : ℚ) : ℚ := fsub maxTokens (largeWindowHeadroomTokens maxTokens)

/-- The count the settings ask for. -/
def configuredTokens (env : Env) (maxTokens : ℚ) : ℚ :=
  (positiveIntEnv env "SHIZUHA_CORTEX_COMPACTION_TRIGGER_TOKENS").getD
    (mathRound (fmul maxTokens
      ((positiveFloatEnv env "SHIZUHA_CORTEX_COMPACTION_TRIGGER_FRACTION").getD
        DEFAULT_CORTEX_COMPACTION_TRIGGER_FRACTION)))

def triggerTokens (env : Env) (maxTokens : ℚ) : ℚ :=
  min (max (configuredTokens env maxTokens) MIN_CORTEX_COMPACTION_TRIGGER_TOKENS)
    (fitCeilingTokens maxTokens)

theorem compactionThresholdFor_large (env : Env) {maxTokens : ℚ} (h : 200000 ≤ maxTokens) :
    compactionThresholdFor env maxTokens = fdiv (triggerTokens env maxTokens) maxTokens := by
  rw [compactionThresholdFor, if_pos h]
  rfl

theorem compactionThresholdFor_small (env : Env) {maxTokens : ℚ} (h : maxTokens < 200000) :
    compactionThresholdFor env maxTokens = COMPACTION_THRESHOLD := by
  rw [compactionThresholdFor, if_neg (not_le.mpr h)]

/-- The trigger in tokens, as the gates multiply it out. -/
def proactiveTrigger (env : Env) (maxTokens : ℚ) : ℚ :=
  fmul maxTokens (compactionThresholdFor env maxTokens)

/-! ## The headroom of a large window -/

section

variable {W : ℚ}

theorem normal_of_one_le {x : ℚ} (h : 1 ≤ x) : leastNormal ≤ x := leastNormal_le_one.trans h

theorem defaultPreflightGuard_int (W : ℚ) :
    defaultPreflightGuard W = ((max 1024 (min 65536 ⌈fmul W (1 / 8)⌉) : ℤ) : ℚ) := by
  rw [defaultPreflightGuard]
  push_cast
  rfl

theorem fadd_guard (W : ℚ) :
    fadd (defaultPreflightGuard W) 16384 = defaultPreflightGuard W + 16384 := by
  rw [defaultPreflightGuard_int, fadd]
  generalize hk : max (1024 : ℤ) (min 65536 ⌈fmul W (1 / 8)⌉) = k
  have hsmall : |k + 16384| < 2 ^ 53 := by
    have hlo : 1024 ≤ k := by omega
    have hhi : k ≤ 65536 := by omega
    rw [abs_of_nonneg (by omega)]
    omega
  have hround := roundDouble_intCast hsmall
  push_cast at hround
  exact hround

theorem defaultPreflightGuard_le (h : 200000 ≤ W) :
    defaultPreflightGuard W ≤ W * (127 / 1000) := by
  have heighth := roundDouble_le_of_normal (x := W * (1 / 8)) (normal_of_one_le (by linarith))
  have hmul : fmul W (1 / 8) ≤ W * (126 / 1000) := by
    refine heighth.trans ?_
    rw [mul_assoc]
    exact mul_le_mul_of_nonneg_left (by norm_num) (by linarith)
  have hceil := Int.ceil_lt_add_one (fmul W (1 / 8))
  refine max_le (by linarith) ((min_le_right _ _).trans ?_)
  linarith

theorem headroom_eq (W : ℚ) :
    largeWindowHeadroomTokens W =
      max (max 48000 (⌊fmul W LARGE_WINDOW_HEADROOM_FRACTION⌋ : ℚ))
        (defaultPreflightGuard W + 16384) := by
  rw [← fadd_guard]
  rfl

theorem headroom_fraction_le (h : 200000 ≤ W) :
    fmul W LARGE_WINDOW_HEADROOM_FRACTION ≤ W * (152 / 1000) := by
  have hfraction : LARGE_WINDOW_HEADROOM_FRACTION ≤ 151 / 1000 := by
    refine (roundDouble_le_of_normal (x := 15 / 100) ?_).trans (by norm_num)
    rw [leastNormal]
    refine (zpow_le_zpow_right₀ (n := -3) (by norm_num) (by norm_num)).trans (by norm_num)
  have hmul : W * LARGE_WINDOW_HEADROOM_FRACTION ≤ W * (151 / 1000) :=
    mul_le_mul_of_nonneg_left hfraction (by linarith)
  have hround := roundDouble_le_of_normal (x := W * (151 / 1000))
    (normal_of_one_le (by linarith))
  calc fmul W LARGE_WINDOW_HEADROOM_FRACTION ≤ roundDouble (W * (151 / 1000)) :=
        roundDouble_mono hmul
    _ ≤ W * (151 / 1000) * (1 + 1 / 2 ^ 53) := hround
    _ ≤ W * (152 / 1000) := by
        rw [mul_assoc]
        exact mul_le_mul_of_nonneg_left (by norm_num) (by linarith)

theorem headroom_le (h : 200000 ≤ W) : largeWindowHeadroomTokens W ≤ W * (24 / 100) := by
  have hguard := defaultPreflightGuard_le h
  have hfraction := headroom_fraction_le h
  have hfloor := Int.floor_le (fmul W LARGE_WINDOW_HEADROOM_FRACTION)
  rw [headroom_eq]
  refine max_le (max_le ?_ ?_) ?_ <;> linarith

theorem guard_le_headroom (W : ℚ) :
    defaultPreflightGuard W + 16384 ≤ largeWindowHeadroomTokens W := by
  rw [headroom_eq]
  exact le_max_right _ _

theorem guard_le (W : ℚ) : defaultPreflightGuard W ≤ 65536 :=
  max_le (by norm_num) (min_le_left _ _)

theorem headroom_int (W : ℚ) : ∃ n : ℤ, largeWindowHeadroomTokens W = n := by
  refine ⟨max (max 48000 ⌊fmul W LARGE_WINDOW_HEADROOM_FRACTION⌋)
    (max 1024 (min 65536 ⌈fmul W (1 / 8)⌉) + 16384), ?_⟩
  rw [headroom_eq, defaultPreflightGuard_int]
  push_cast
  rfl

theorem le_headroom (h : 200000 ≤ W) : W * (14 / 100) ≤ largeWindowHeadroomTokens W := by
  have hfraction : 149 / 1000 ≤ LARGE_WINDOW_HEADROOM_FRACTION := by
    refine le_trans (by norm_num) (le_roundDouble_of_normal (x := 15 / 100) ?_)
    rw [leastNormal]
    exact (zpow_le_zpow_right₀ (n := -3) (by norm_num) (by norm_num)).trans (by norm_num)
  have hmul : W * (149 / 1000) ≤ W * LARGE_WINDOW_HEADROOM_FRACTION :=
    mul_le_mul_of_nonneg_left hfraction (by linarith)
  have hround := le_roundDouble_of_normal (x := W * LARGE_WINDOW_HEADROOM_FRACTION)
    (normal_of_one_le (by linarith))
  have hlow : W * (145 / 1000) ≤ fmul W LARGE_WINDOW_HEADROOM_FRACTION := by
    refine le_trans ?_ hround
    calc W * (145 / 1000) ≤ W * (149 / 1000) * (1 - 1 / 2 ^ 53) := by
          rw [mul_assoc]
          exact mul_le_mul_of_nonneg_left (by norm_num) (by linarith)
      _ ≤ W * LARGE_WINDOW_HEADROOM_FRACTION * (1 - 1 / 2 ^ 53) :=
          mul_le_mul_of_nonneg_right hmul (by norm_num)
  have hfloor := Int.sub_one_lt_floor (fmul W LARGE_WINDOW_HEADROOM_FRACTION)
  rw [headroom_eq]
  refine le_trans ?_ (le_max_left _ _)
  refine le_trans ?_ (le_max_right _ _)
  linarith

/-! ## The fit ceiling -/

/-- Below `2 ^ 53` a whole count is taken off a window without rounding. -/
theorem roundDouble_sub_int {n : ℤ} (hW : roundDouble W = W) (hsmall : W < 2 ^ 53)
    (h0 : 0 ≤ (n : ℚ)) (hn : (n : ℚ) ≤ W) : roundDouble (W - n) = W - n := by
  rcases eq_or_lt_of_le (h0.trans hn) with hzero | hpos
  · have hn0 : (n : ℚ) = 0 := le_antisymm (by rw [← hzero] at hn; exact hn) h0
    rw [hn0, sub_zero]
    exact hW
  · have hlog : Int.log 2 W < 53 :=
      (Int.lt_zpow_iff_log_lt (b := 2) (by norm_num) hpos).mp (by exact_mod_cast hsmall)
    have hleast : -1074 ≤ lastPlace W := le_max_left _ _
    obtain ⟨d, hd⟩ : ∃ d : ℕ, lastPlace W + d = 0 :=
      ⟨(-lastPlace W).toNat, by
        have hle : lastPlace W ≤ 0 := by
          rw [lastPlace, abs_of_pos hpos]
          omega
        omega⟩
    obtain ⟨k, hk, hWk⟩ := exists_significand hW
    have hplace : (0 : ℚ) < 2 ^ lastPlace W := by positivity
    have hnk : (n : ℚ) = ((n * 2 ^ d : ℤ) : ℚ) * 2 ^ lastPlace W := by
      push_cast
      rw [mul_assoc, ← zpow_natCast, ← zpow_add₀ (by norm_num : (2 : ℚ) ≠ 0), add_comm, hd,
        zpow_zero, mul_one]
    generalize n * 2 ^ d = j at hnk
    generalize lastPlace W = e at hleast hWk hplace hnk
    have hdiff : W - n = ((k - j : ℤ) : ℚ) * 2 ^ e := by
      rw [hWk, hnk]
      push_cast
      ring
    have hjk : j ≤ k := by
      rw [hWk, hnk] at hn
      exact_mod_cast le_of_mul_le_mul_right hn hplace
    have hj : 0 ≤ j := by
      rw [hnk] at h0
      exact_mod_cast nonneg_of_mul_nonneg_left h0 hplace
    rw [hdiff]
    refine roundDouble_mul_two_pow hleast ?_
    rw [abs_lt] at hk ⊢
    omega

theorem fitCeilingTokens_room (hW : roundDouble W = W) (h : 200000 ≤ W) :
    defaultPreflightGuard W + 16384 ≤ W - fitCeilingTokens W := by
  have hroom := guard_le_headroom W
  have hle := headroom_le h
  rcases lt_or_ge W (2 ^ 53) with hsmall | hbig
  · obtain ⟨n, hn⟩ := headroom_int W
    have h0 : 0 ≤ largeWindowHeadroomTokens W := by
      have hguard : 1024 ≤ defaultPreflightGuard W := le_max_left _ _
      linarith
    have hexact : fitCeilingTokens W = W - largeWindowHeadroomTokens W := by
      rw [fitCeilingTokens, fsub]
      rw [hn] at h0 hle ⊢
      exact roundDouble_sub_int hW hsmall h0 (by linarith)
    linarith
  · have hlow := le_headroom h
    have hguard := guard_le W
    have hround := roundDouble_le_of_normal (x := W - largeWindowHeadroomTokens W)
      (normal_of_one_le (by linarith))
    have hfit : fitCeilingTokens W ≤ W * (87 / 100) := by
      calc fitCeilingTokens W
          ≤ (W - largeWindowHeadroomTokens W) * (1 + 1 / 2 ^ 53) := hround
        _ ≤ W * (86 / 100) * (1 + 1 / 2 ^ 53) :=
            mul_le_mul_of_nonneg_right (by linarith) (by norm_num)
        _ ≤ W * (87 / 100) := by
            rw [mul_assoc]
            exact mul_le_mul_of_nonneg_left (by norm_num) (by linarith)
    linarith

theorem le_fitCeilingTokens (h : 200000 ≤ W) : W * (75 / 100) ≤ fitCeilingTokens W := by
  have hle := headroom_le h
  have hround := le_roundDouble_of_normal (x := W - largeWindowHeadroomTokens W)
    (normal_of_one_le (by linarith))
  calc W * (75 / 100) ≤ W * (76 / 100) * (1 - 1 / 2 ^ 53) := by
        rw [mul_assoc]
        exact mul_le_mul_of_nonneg_left (by norm_num) (by linarith)
    _ ≤ (W - largeWindowHeadroomTokens W) * (1 - 1 / 2 ^ 53) :=
        mul_le_mul_of_nonneg_right (by linarith) (by norm_num)
    _ ≤ fitCeilingTokens W := hround

/-! ## The count -/

theorem positiveIntEnv_isDouble {env : Env} {name : String} {v : ℚ}
    (h : positiveIntEnv env name = some v) : IsDouble v := by
  rw [positiveIntEnv] at h
  split at h
  · next x _ =>
      split_ifs at h
      cases h
      exact x.isDouble
  · cases h

theorem roundDouble_configuredTokens (env : Env) (h0 : 0 ≤ W) :
    roundDouble (configuredTokens env W) = configuredTokens env W := by
  rw [configuredTokens]
  cases habsolute : positiveIntEnv env "SHIZUHA_CORTEX_COMPACTION_TRIGGER_TOKENS" with
  | some v => exact (positiveIntEnv_isDouble habsolute).roundDouble_eq
  | none =>
      have hfraction : 0 ≤ (positiveFloatEnv env
          "SHIZUHA_CORTEX_COMPACTION_TRIGGER_FRACTION").getD
            DEFAULT_CORTEX_COMPACTION_TRIGGER_FRACTION := by
        cases hset : positiveFloatEnv env "SHIZUHA_CORTEX_COMPACTION_TRIGGER_FRACTION" with
        | some v => exact (positiveFloatEnv_mem hset).1.le
        | none => exact roundDouble_nonneg (by norm_num)
      exact roundDouble_mathRound (roundDouble_idem _)
        (roundDouble_nonneg (mul_nonneg h0 hfraction))

theorem roundDouble_floorTokens :
    roundDouble MIN_CORTEX_COMPACTION_TRIGGER_TOKENS = MIN_CORTEX_COMPACTION_TRIGGER_TOKENS :=
  roundDouble_natLit (n := 48000) (by norm_num)

theorem roundDouble_triggerTokens (env : Env) (h0 : 0 ≤ W) :
    roundDouble (triggerTokens env W) = triggerTokens env W :=
  roundDouble_min
    (roundDouble_max (roundDouble_configuredTokens env h0) roundDouble_floorTokens)
    (roundDouble_idem _)

theorem floor_lt_fitCeilingTokens (h : 200000 ≤ W) :
    MIN_CORTEX_COMPACTION_TRIGGER_TOKENS < fitCeilingTokens W := by
  have hfit := le_fitCeilingTokens h
  rw [MIN_CORTEX_COMPACTION_TRIGGER_TOKENS]
  linarith

theorem le_triggerTokens (env : Env) (h : 200000 ≤ W) :
    MIN_CORTEX_COMPACTION_TRIGGER_TOKENS ≤ triggerTokens env W :=
  le_min (le_max_right _ _) (floor_lt_fitCeilingTokens h).le

theorem triggerTokens_le (env : Env) (W : ℚ) : triggerTokens env W ≤ fitCeilingTokens W :=
  min_le_right _ _

theorem triggerTokens_eq_floor {env : Env} (h : 200000 ≤ W)
    (hlow : configuredTokens env W ≤ MIN_CORTEX_COMPACTION_TRIGGER_TOKENS) :
    triggerTokens env W = MIN_CORTEX_COMPACTION_TRIGGER_TOKENS := by
  rw [triggerTokens, max_eq_right hlow]
  exact min_eq_left (floor_lt_fitCeilingTokens h).le

theorem floor_lt_triggerTokens {env : Env} (h : 200000 ≤ W)
    (hlow : MIN_CORTEX_COMPACTION_TRIGGER_TOKENS < configuredTokens env W) :
    MIN_CORTEX_COMPACTION_TRIGGER_TOKENS < triggerTokens env W :=
  lt_min (lt_max_of_lt_left hlow) (floor_lt_fitCeilingTokens h)

theorem triggerTokens_eq_fit {env : Env}
    (hhigh : fitCeilingTokens W ≤ configuredTokens env W) :
    triggerTokens env W = fitCeilingTokens W :=
  min_eq_right (hhigh.trans (le_max_left _ _))

theorem triggerTokens_lt_fit {env : Env} (h : 200000 ≤ W)
    (hhigh : configuredTokens env W < fitCeilingTokens W) :
    triggerTokens env W < fitCeilingTokens W :=
  (min_le_left _ _).trans_lt (max_lt hhigh (floor_lt_fitCeilingTokens h))

/-! ## The count as a fraction of its window -/

/-- No window is so large that a fraction of it loses bits. -/
theorem leastNormal_le_div {x : ℚ} (hW : IsDouble W) (h0 : 0 < W) (hx : 48000 ≤ x) :
    leastNormal * 12000 ≤ x / W := by
  have hbound : W < 2 ^ (1024 : ℤ) := by
    have hlt := hW.1
    rw [abs_of_pos h0] at hlt
    refine hlt.trans ?_
    rw [overflowBound, show (1024 : ℤ) = 54 + (970 : ℕ) by norm_num,
      zpow_add₀ (by norm_num), zpow_natCast]
    exact mul_lt_mul_of_pos_right (by norm_num) (by positivity)
  rw [le_div_iff₀ h0, leastNormal]
  calc (2 : ℚ) ^ (-1022 : ℤ) * 12000 * W ≤ 2 ^ (-1022 : ℤ) * 12000 * 2 ^ (1024 : ℤ) :=
        mul_le_mul_of_nonneg_left hbound.le (by positivity)
    _ = 2 ^ (-1022 + 1024 : ℤ) * 12000 := by
        rw [zpow_add₀ (by norm_num)]
        exact mul_right_comm _ _ _
    _ ≤ x := by
        norm_num
        exact hx

theorem leastNormal_pos : 0 < leastNormal := by
  rw [leastNormal]
  positivity

theorem near_proactiveTrigger (env : Env) (hW : IsDouble W) (h : 200000 ≤ W) :
    Near (triggerTokens env W) (proactiveTrigger env W) := by
  have h0 : 0 < W := by linarith
  have hlow := le_triggerTokens env h
  rw [MIN_CORTEX_COMPACTION_TRIGGER_TOKENS] at hlow
  have hnormal := leastNormal_le_div hW h0 hlow
  have hleast := leastNormal_pos
  rw [proactiveTrigger, compactionThresholdFor_large env h]
  exact near_backAndForth (roundDouble_triggerTokens env h0.le) (by linarith) h0 (by linarith)

/-- Nineteen twentieths, with both roundings. -/
theorem fmul_targetFactor_le {f : ℚ} (h : leastNormal * 2 ≤ f) :
    fmul f (roundDouble (95 / 100)) ≤ f * (96 / 100) := by
  have hleast := leastNormal_pos
  have hf0 : 0 < f := by linarith
  have hnormal : leastNormal ≤ 95 / 100 := by
    rw [leastNormal]
    exact (zpow_le_zpow_right₀ (n := -1) (by norm_num) (by norm_num)).trans (by norm_num)
  have hlo : 94 / 100 ≤ roundDouble (95 / 100) :=
    le_trans (by norm_num) (le_roundDouble_of_normal hnormal)
  have hhi : roundDouble (95 / 100) ≤ 951 / 1000 :=
    (roundDouble_le_of_normal hnormal).trans (by norm_num)
  have hproduct : leastNormal ≤ f * roundDouble (95 / 100) := by
    calc leastNormal ≤ leastNormal * 2 * (94 / 100) := by linarith
      _ ≤ f * roundDouble (95 / 100) := mul_le_mul h hlo (by norm_num) hf0.le
  calc fmul f (roundDouble (95 / 100))
      ≤ f * roundDouble (95 / 100) * (1 + 1 / 2 ^ 53) := roundDouble_le_of_normal hproduct
    _ ≤ f * (951 / 1000) * (1 + 1 / 2 ^ 53) :=
        mul_le_mul_of_nonneg_right (mul_le_mul_of_nonneg_left hhi hf0.le) (by norm_num)
    _ ≤ f * (96 / 100) := by
        rw [mul_assoc]
        exact mul_le_mul_of_nonneg_left (by norm_num) hf0.le

theorem le_triggerFraction (env : Env) (hW : IsDouble W) (h : 200000 ≤ W) :
    triggerTokens env W / W * (1 - 1 / 2 ^ 53) ≤ fdiv (triggerTokens env W) W := by
  have hlow := le_triggerTokens env h
  rw [MIN_CORTEX_COMPACTION_TRIGGER_TOKENS] at hlow
  have hnormal := leastNormal_le_div hW (by linarith) hlow
  have hleast := leastNormal_pos
  exact le_roundDouble_of_normal (by linarith)

/-- The target is a twentieth below the trigger, less what rounding makes of it. -/
theorem target_lt_proactiveTrigger (env : Env) (hW : IsDouble W) (h : 200000 ≤ W) :
    fmul W (compactionTargetFractionFor env W) < proactiveTrigger env W := by
  have h0 : 0 < W := by linarith
  have hlow := le_triggerTokens env h
  rw [MIN_CORTEX_COMPACTION_TRIGGER_TOKENS] at hlow
  have hnormal := leastNormal_le_div hW h0 hlow
  have hleast := leastNormal_pos
  have hfraction := le_triggerFraction env hW h
  rw [proactiveTrigger, compactionTargetFractionFor]
  rw [compactionThresholdFor_large env h]
  generalize fdiv (triggerTokens env W) W = f at hfraction
  have hf : leastNormal * 2 ≤ f := by
    calc leastNormal * 2 ≤ leastNormal * 12000 * (1 - 1 / 2 ^ 53) := by
          rw [mul_assoc]
          exact mul_le_mul_of_nonneg_left (by norm_num) hleast.le
      _ ≤ triggerTokens env W / W * (1 - 1 / 2 ^ 53) :=
          mul_le_mul_of_nonneg_right hnormal (by norm_num)
      _ ≤ f := hfraction
  have hproduct : 40000 ≤ W * f := by
    calc (40000 : ℚ) ≤ 48000 * (1 - 1 / 2 ^ 53) := by norm_num
      _ ≤ triggerTokens env W * (1 - 1 / 2 ^ 53) :=
          mul_le_mul_of_nonneg_right hlow (by norm_num)
      _ = W * (triggerTokens env W / W * (1 - 1 / 2 ^ 53)) := by
          rw [← mul_assoc, mul_div_cancel₀ _ h0.ne']
      _ ≤ W * f := mul_le_mul_of_nonneg_left hfraction h0.le
  have htarget : min ((positiveFloatEnv env
      "SHIZUHA_CORTEX_COMPACTION_TARGET_FRACTION").getD
        DEFAULT_CORTEX_COMPACTION_TARGET_FRACTION) (fmul f (roundDouble (95 / 100)))
      ≤ f * (96 / 100) :=
    (min_le_right _ _).trans (fmul_targetFactor_le hf)
  calc roundDouble (W * min _ (fmul f (roundDouble (95 / 100))))
      ≤ roundDouble (W * (f * (96 / 100))) :=
        roundDouble_mono (mul_le_mul_of_nonneg_left htarget h0.le)
    _ ≤ W * (f * (96 / 100)) * (1 + 1 / 2 ^ 53) :=
        roundDouble_le_of_normal (normal_of_one_le (by linarith))
    _ < W * f * (1 - 1 / 2 ^ 53) := by linarith
    _ ≤ fmul W f := le_roundDouble_of_normal (normal_of_one_le (by linarith))

/-! ## The band -/

/-- The trigger is between the floor and the fit ceiling, with room above it for
the guard and the output, and the target is below it. -/
structure InBand (env : Env) (W : ℚ) : Prop where
  floor : MIN_CORTEX_COMPACTION_TRIGGER_TOKENS ≤ proactiveTrigger env W
  ceiling : proactiveTrigger env W ≤ fsub W (largeWindowHeadroomTokens W)
  room : defaultPreflightGuard W + 16384 ≤ W - proactiveTrigger env W
  target : fmul W (compactionTargetFractionFor env W) < proactiveTrigger env W

/-- Where the settings put the count on an edge of the band, the edge divided by
the window and multiplied by it again is on the inside. -/
structure EdgesKept (env : Env) (W : ℚ) : Prop where
  floor : configuredTokens env W ≤ MIN_CORTEX_COMPACTION_TRIGGER_TOKENS →
    MIN_CORTEX_COMPACTION_TRIGGER_TOKENS
      ≤ fmul W (fdiv MIN_CORTEX_COMPACTION_TRIGGER_TOKENS W)
  ceiling : fitCeilingTokens W ≤ configuredTokens env W →
    fmul W (fdiv (fitCeilingTokens W) W) ≤ fitCeilingTokens W

theorem floor_le_iff (env : Env) (hW : IsDouble W) (h : 200000 ≤ W) :
    MIN_CORTEX_COMPACTION_TRIGGER_TOKENS ≤ proactiveTrigger env W ↔
      (configuredTokens env W ≤ MIN_CORTEX_COMPACTION_TRIGGER_TOKENS →
        MIN_CORTEX_COMPACTION_TRIGGER_TOKENS
          ≤ fmul W (fdiv MIN_CORTEX_COMPACTION_TRIGGER_TOKENS W)) := by
  rcases le_or_gt (configuredTokens env W) MIN_CORTEX_COMPACTION_TRIGGER_TOKENS with hlow | hlow
  · rw [proactiveTrigger, compactionThresholdFor_large env h, triggerTokens_eq_floor h hlow]
    exact (imp_iff_right hlow).symm
  · have hnear := near_proactiveTrigger env hW h
    exact iff_of_true (hnear.below _ roundDouble_floorTokens (floor_lt_triggerTokens h hlow))
      fun hle => absurd hle (not_le.mpr hlow)

theorem le_ceiling_iff (env : Env) (hW : IsDouble W) (h : 200000 ≤ W) :
    proactiveTrigger env W ≤ fitCeilingTokens W ↔
      (fitCeilingTokens W ≤ configuredTokens env W →
        fmul W (fdiv (fitCeilingTokens W) W) ≤ fitCeilingTokens W) := by
  rcases le_or_gt (fitCeilingTokens W) (configuredTokens env W) with hhigh | hhigh
  · rw [proactiveTrigger, compactionThresholdFor_large env h, triggerTokens_eq_fit hhigh]
    exact (imp_iff_right hhigh).symm
  · have hnear := near_proactiveTrigger env hW h
    exact iff_of_true (hnear.above _ (roundDouble_idem _) (triggerTokens_lt_fit h hhigh))
      fun hle => absurd hle (not_le.mpr hhigh)

theorem inBand_iff (env : Env) (hW : IsDouble W) (h : 200000 ≤ W) :
    InBand env W ↔ EdgesKept env W := by
  have hfloor := floor_le_iff env hW h
  have hceiling := le_ceiling_iff env hW h
  have hroom := fitCeilingTokens_room hW.roundDouble_eq h
  constructor
  · intro hband
    exact ⟨hfloor.mp hband.floor, hceiling.mp hband.ceiling⟩
  · intro hedges
    have hfit := hceiling.mpr hedges.ceiling
    exact ⟨hfloor.mpr hedges.floor, hfit, by linarith, target_lt_proactiveTrigger env hW h⟩

end

/-! ## From one window to a larger one -/

/-- The count a window has when nothing is set: seven tenths of it below 200000,
and six tenths to the nearest token from there on. -/
def defaultTokens (W : ℚ) : ℚ :=
  if 200000 ≤ W then mathRound (fmul W DEFAULT_CORTEX_COMPACTION_TRIGGER_FRACTION)
  else fmul W COMPACTION_THRESHOLD

/-- The count divided by its window and multiplied by it again is above it. -/
def ReturnsAbove (W : ℚ) : Prop :=
  200000 ≤ W ∧ defaultTokens W < fmul W (fdiv (defaultTokens W) W)

def ReturnsBelow (W : ℚ) : Prop :=
  200000 ≤ W ∧ fmul W (fdiv (defaultTokens W) W) < defaultTokens W

/-- The counts are in order, and where they are equal or next to each other the
way back does not turn them round. -/
def InOrder (W₁ W₂ : ℚ) : Prop :=
  (defaultTokens W₁ < defaultTokens W₂ ∧
    (NextTo (defaultTokens W₁) (defaultTokens W₂) → ReturnsAbove W₁ → ¬ ReturnsBelow W₂)) ∨
  (defaultTokens W₁ = defaultTokens W₂ ∧
    (ReturnsAbove W₁ → ReturnsAbove W₂) ∧ (ReturnsBelow W₂ → ReturnsBelow W₁)) ∨
  (defaultTokens W₂ < defaultTokens W₁ ∧
    NextTo (defaultTokens W₂) (defaultTokens W₁) ∧ ReturnsAbove W₂)

section

variable {W W₁ W₂ : ℚ}

theorem defaultTokens_large (h : 200000 ≤ W) :
    defaultTokens W = mathRound (fmul W DEFAULT_CORTEX_COMPACTION_TRIGGER_FRACTION) := by
  rw [defaultTokens, if_pos h]

theorem defaultTokens_small (h : W < 200000) : defaultTokens W = fmul W COMPACTION_THRESHOLD := by
  rw [defaultTokens, if_neg (not_le.mpr h)]

theorem defaultFraction_nonneg : 0 ≤ DEFAULT_CORTEX_COMPACTION_TRIGGER_FRACTION :=
  roundDouble_nonneg (by norm_num)

theorem roundDouble_defaultTokens (h0 : 0 ≤ W) :
    roundDouble (defaultTokens W) = defaultTokens W := by
  rw [defaultTokens]
  split_ifs
  · exact roundDouble_mathRound (roundDouble_idem _)
      (roundDouble_nonneg (mul_nonneg h0 defaultFraction_nonneg))
  · exact roundDouble_idem _

theorem defaultTokens_mono_large (h : 200000 ≤ W₁) (hle : W₁ ≤ W₂) :
    defaultTokens W₁ ≤ defaultTokens W₂ := by
  rw [defaultTokens_large h, defaultTokens_large (h.trans hle)]
  exact mathRound_mono (fmul_mono hle defaultFraction_nonneg)

theorem defaultTokens_mono_small (h : W₂ < 200000) (hle : W₁ ≤ W₂) :
    defaultTokens W₁ ≤ defaultTokens W₂ := by
  rw [defaultTokens_small h, defaultTokens_small (hle.trans_lt h)]
  exact fmul_mono hle (roundDouble_nonneg (by norm_num))

/-- Six tenths of a large window are between the floor and the fit ceiling. -/
theorem defaultTokens_mem (h : 200000 ≤ W) :
    MIN_CORTEX_COMPACTION_TRIGGER_TOKENS ≤ defaultTokens W ∧
      defaultTokens W ≤ fitCeilingTokens W := by
  have hnormal : leastNormal ≤ 6 / 10 := by
    rw [leastNormal]
    exact (zpow_le_zpow_right₀ (n := -1) (by norm_num) (by norm_num)).trans (by norm_num)
  have hlo : 59 / 100 ≤ DEFAULT_CORTEX_COMPACTION_TRIGGER_FRACTION :=
    le_trans (by norm_num) (le_roundDouble_of_normal hnormal)
  have hhi : DEFAULT_CORTEX_COMPACTION_TRIGGER_FRACTION ≤ 61 / 100 :=
    (roundDouble_le_of_normal hnormal).trans (by norm_num)
  have hfit := le_fitCeilingTokens h
  rw [defaultTokens_large h]
  generalize DEFAULT_CORTEX_COMPACTION_TRIGGER_FRACTION = c at hlo hhi
  have hround := le_mathRound (fmul W c)
  have hround' := mathRound_le (fmul W c)
  constructor
  · have hproduct : W * (59 / 100) ≤ W * c := mul_le_mul_of_nonneg_left hlo (by linarith)
    have hmul := le_roundDouble_of_normal (x := W * c) (normal_of_one_le (by linarith))
    have hlow : 100000 ≤ fmul W c := by
      calc (100000 : ℚ) ≤ W * (59 / 100) * (1 - 1 / 2 ^ 53) := by linarith
        _ ≤ W * c * (1 - 1 / 2 ^ 53) := mul_le_mul_of_nonneg_right hproduct (by norm_num)
        _ ≤ fmul W c := hmul
    rw [MIN_CORTEX_COMPACTION_TRIGGER_TOKENS]
    linarith
  · have hproduct : W * c ≤ W * (61 / 100) := mul_le_mul_of_nonneg_left hhi (by linarith)
    have hmul := roundDouble_le_of_normal (x := W * (61 / 100))
      (normal_of_one_le (by linarith))
    have hhigh : fmul W c ≤ W * (62 / 100) := by
      calc fmul W c ≤ roundDouble (W * (61 / 100)) := roundDouble_mono hproduct
        _ ≤ W * (61 / 100) * (1 + 1 / 2 ^ 53) := hmul
        _ ≤ W * (62 / 100) := by
            rw [mul_assoc]
            exact mul_le_mul_of_nonneg_left (by norm_num) (by linarith)
    linarith

/-- Neither of the settings the trigger reads is there. -/
structure NoOverrides (env : Env) : Prop where
  tokens : env.raw "SHIZUHA_CORTEX_COMPACTION_TRIGGER_TOKENS" = none
  fraction : env.raw "SHIZUHA_CORTEX_COMPACTION_TRIGGER_FRACTION" = none

variable {env : Env}

theorem triggerTokens_of_noOverrides (hunset : NoOverrides env) (h : 200000 ≤ W) :
    triggerTokens env W = defaultTokens W := by
  have htokens : positiveIntEnv env "SHIZUHA_CORTEX_COMPACTION_TRIGGER_TOKENS" = none := by
    rw [positiveIntEnv, hunset.tokens, Option.bind_none]
  have hfraction : positiveFloatEnv env "SHIZUHA_CORTEX_COMPACTION_TRIGGER_FRACTION" = none := by
    rw [positiveFloatEnv, hunset.fraction, Option.bind_none]
  obtain ⟨hlow, hhigh⟩ := defaultTokens_mem h
  have hconfigured : configuredTokens env W = defaultTokens W := by
    rw [configuredTokens, htokens, hfraction, defaultTokens_large h, Option.getD_none,
      Option.getD_none]
  rw [triggerTokens, hconfigured, max_eq_left hlow, min_eq_left hhigh]

theorem proactiveTrigger_small (env : Env) (h : W < 200000) :
    proactiveTrigger env W = defaultTokens W := by
  rw [proactiveTrigger, compactionThresholdFor_small env h, defaultTokens_small h]

theorem proactiveTrigger_large (hunset : NoOverrides env) (h : 200000 ≤ W) :
    proactiveTrigger env W = fmul W (fdiv (defaultTokens W) W) := by
  rw [proactiveTrigger, compactionThresholdFor_large env h, triggerTokens_of_noOverrides hunset h]

theorem near_defaultTokens (hunset : NoOverrides env) (hW : IsDouble W) (h0 : 0 ≤ W) :
    Near (defaultTokens W) (proactiveTrigger env W) := by
  rcases lt_or_ge W 200000 with h | h
  · rw [proactiveTrigger_small env h]
    exact Near.refl (roundDouble_defaultTokens h0)
  · rw [← triggerTokens_of_noOverrides hunset h]
    exact near_proactiveTrigger env hW h

theorem returnsAbove_iff (hunset : NoOverrides env) :
    ReturnsAbove W ↔ defaultTokens W < proactiveTrigger env W := by
  rcases lt_or_ge W 200000 with h | h
  · rw [proactiveTrigger_small env h]
    exact iff_of_false (fun habove => absurd habove.1 (not_le.mpr h)) (lt_irrefl _)
  · rw [proactiveTrigger_large hunset h]
    exact and_iff_right h

theorem returnsBelow_iff (hunset : NoOverrides env) :
    ReturnsBelow W ↔ proactiveTrigger env W < defaultTokens W := by
  rcases lt_or_ge W 200000 with h | h
  · rw [proactiveTrigger_small env h]
    exact iff_of_false (fun hbelow => absurd hbelow.1 (not_le.mpr h)) (lt_irrefl _)
  · rw [proactiveTrigger_large hunset h]
    exact and_iff_right h

theorem inOrder_iff (hunset : NoOverrides env) (h₁ : IsDouble W₁) (h₂ : IsDouble W₂)
    (h0 : 0 < W₁) (hle : W₁ ≤ W₂) :
    proactiveTrigger env W₁ ≤ proactiveTrigger env W₂ ↔ InOrder W₁ W₂ := by
  have hnear₁ := near_defaultTokens hunset h₁ h0.le
  have hnear₂ := near_defaultTokens hunset h₂ (h0.le.trans hle)
  rcases lt_trichotomy (defaultTokens W₁) (defaultTokens W₂) with hlt | heq | hgt
  · rw [hnear₁.le_iff_of_lt hnear₂ (roundDouble_defaultTokens h0.le)
      (roundDouble_defaultTokens (h0.le.trans hle)) hlt, InOrder, returnsAbove_iff hunset,
      returnsBelow_iff hunset]
    simp [hlt, hlt.ne, hlt.le]
  · rw [← heq] at hnear₂
    rw [hnear₁.le_iff_of_eq hnear₂, InOrder, returnsAbove_iff hunset, returnsAbove_iff hunset,
      returnsBelow_iff hunset, returnsBelow_iff hunset]
    simp [heq]
  · -- The counts only drop across 200000, and the smaller window's is its trigger.
    have hsmall : W₁ < 200000 := by
      by_contra hlarge
      have hmono := defaultTokens_mono_large (not_lt.mp hlarge) hle
      linarith
    rw [proactiveTrigger_small env hsmall, hnear₂.le_iff_of_gt hgt, InOrder,
      returnsAbove_iff hunset, returnsAbove_iff hunset]
    simp [hgt, hgt.ne', hgt.le]

end

/-- With nothing set, a larger window has the later trigger exactly when the
counts of the two are in order and stay so on the way through their fractions;
whatever is set, the trigger of a large window is in its band exactly when the
edge it may sit on comes back on the inside. -/
theorem compaction_trigger_iff (unset env : Env) (hunset : NoOverrides unset)
    (W₁ W₂ W : Double) (h0 : 0 < W₁.val) (hle : W₁.val ≤ W₂.val) (hlarge : 200000 ≤ W.val) :
    (proactiveTrigger unset W₁.val ≤ proactiveTrigger unset W₂.val ↔
      InOrder W₁.val W₂.val) ∧
    (InBand env W.val ↔ EdgesKept env W.val) :=
  ⟨inOrder_iff hunset W₁.isDouble W₂.isDouble h0 hle, inBand_iff env W.isDouble hlarge⟩

theorem noOverrides_none : NoOverrides fun _ => none := ⟨rfl, rfl⟩

/-- A window of 128Ki tokens against one of 256Ki, and the band of the latter. -/
theorem compaction_trigger_iff_262144 :
    proactiveTrigger (fun _ => none) 131072 ≤ proactiveTrigger (fun _ => none) 262144 ∧
      InBand (fun _ => none) 262144 := by
  have hboth := compaction_trigger_iff (fun _ => none) (fun _ => none) noOverrides_none
    (Double.ofInt 131072 (by decide)) (Double.ofInt 262144 (by decide))
    (Double.ofInt 262144 (by decide)) (by decide +kernel) (by decide +kernel)
    (by decide +kernel)
  refine ⟨hboth.1.mpr (.inl ⟨by decide +kernel, ?_⟩), hboth.2.mpr ⟨?_, ?_⟩⟩
  · intro hnext
    exact absurd ⟨by decide +kernel, by decide +kernel⟩
      (hnext 100000 (roundDouble_natLit (n := 100000) (by norm_num)))
  · exact fun hlow => absurd hlow (by decide +kernel)
  · exact fun hhigh => absurd hhigh (by decide +kernel)

/-- One token more of window brings the trigger down from 139999.3 to 120000. -/
theorem trigger_drops_at_200000 :
    ¬ proactiveTrigger (fun _ => none) 199999 ≤ proactiveTrigger (fun _ => none) 200000 := by
  decide +kernel

end Shizuha.Prompt
