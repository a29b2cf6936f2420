import Shizuha.Js.Number

/-!
# Order and error of rounding

Rounding keeps the order of what it is given, across the binades: where two
magnitudes are kept to different last places the power of two between them is
a fixed point of both roundings. From that and the numbers being fixed points
come the comparisons a program relies on: a bound that is itself a number
survives every rounded operation below it.

Away from the subnormal magnitudes the error is at most one part in `2 ^ 53`,
and that is the distance to the next number, or less. So a count that is divided
by some `w` and multiplied by it again is out by one place at most
(`backAndForth_le`, `le_backAndForth`).
-/

namespace Shizuha.Js

/-! ## Nearest integers -/

theorem floor_le_roundEven (x : ℚ) : ⌊x⌋ ≤ roundEven x := by
  rw [roundEven]
  split_ifs <;> omega

theorem roundEven_le_floor (x : ℚ) : roundEven x ≤ ⌊x⌋ + 1 := by
  rw [roundEven]
  split_ifs <;> omega

theorem roundEven_mono {x y : ℚ} (h : x ≤ y) : roundEven x ≤ roundEven y := by
  have hfloor : ⌊x⌋ ≤ ⌊y⌋ := Int.floor_mono h
  rcases lt_or_eq_of_le hfloor with hlt | heq
  · have hx := roundEven_le_floor x
    have hy := floor_le_roundEven y
    omega
  · -- The same unit interval: the fraction decides, and it did not shrink.
    have hfrac : x - ⌊x⌋ ≤ y - ⌊y⌋ := by
      rw [heq]
      linarith
    simp only [roundEven]
    rw [heq] at hfrac ⊢
    split_ifs <;> first | omega | linarith

theorem roundEven_neg (x : ℚ) : roundEven (-x) = -roundEven x := by
  by_cases hint : (⌊x⌋ : ℚ) = x
  · rw [← hint, ← Int.cast_neg, roundEven_intCast, roundEven_intCast]
  · have hlo : (⌊x⌋ : ℚ) < x := lt_of_le_of_ne (Int.floor_le x) hint
    have hhi := Int.lt_floor_add_one x
    have hfloor : ⌊-x⌋ = -⌊x⌋ - 1 := by
      rw [Int.floor_eq_iff]
      push_cast
      constructor <;> linarith
    simp only [roundEven, hfloor]
    push_cast
    split_ifs <;> first | omega | linarith

/-! ## Order -/

theorem roundDouble_zero : roundDouble 0 = 0 := by
  simp [roundDouble, roundEven]

theorem lastPlace_neg (x : ℚ) : lastPlace (-x) = lastPlace x := by
  rw [lastPlace, lastPlace, abs_neg]

theorem roundDouble_neg (x : ℚ) : roundDouble (-x) = -roundDouble x := by
  rw [roundDouble, roundDouble, lastPlace_neg, neg_div, roundEven_neg]
  push_cast
  ring

theorem lastPlace_mono {x y : ℚ} (hx : 0 < x) (h : x ≤ y) : lastPlace x ≤ lastPlace y := by
  have hlog := Int.log_mono_right (b := 2) hx h
  rw [lastPlace, lastPlace, abs_of_pos hx, abs_of_pos (hx.trans_le h)]
  omega

/-- A magnitude kept to a place above the least one fills its 53 bits. -/
theorem two_pow_le_div_lastPlace {x : ℚ} (hx : 0 < x) (h : -1074 < lastPlace x) :
    2 ^ 52 ≤ x / 2 ^ lastPlace x := by
  have hplace : lastPlace x = Int.log 2 x - 52 := by
    rw [lastPlace, abs_of_pos hx] at h ⊢
    omega
  have hlog := Int.zpow_log_le_self (R := ℚ) (by norm_num : 1 < 2) hx
  rw [le_div_iff₀ (by positivity), hplace]
  calc (2 : ℚ) ^ 52 * 2 ^ (Int.log 2 x - 52)
      = 2 ^ ((52 : ℕ) + (Int.log 2 x - 52)) := by
        rw [zpow_add₀ (by norm_num), zpow_natCast]
    _ = ((2 : ℕ) : ℚ) ^ Int.log 2 x := by
        congr 1
        omega
    _ ≤ x := hlog

theorem roundDouble_mono_pos {x y : ℚ} (hx : 0 < x) (h : x ≤ y) :
    roundDouble x ≤ roundDouble y := by
  have hy : 0 < y := hx.trans_le h
  rcases lt_or_eq_of_le (lastPlace_mono hx h) with hlt | heq
  · -- The power of two that the coarser place starts from lies between them.
    have hkx := abs_roundEven_le (abs_div_lastPlace_lt x)
    have hky : (2 ^ 52 : ℤ) ≤ roundEven (y / 2 ^ lastPlace y) := by
      have hge := two_pow_le_div_lastPlace hy
        (lt_of_le_of_lt (le_max_left _ _) hlt)
      calc (2 ^ 52 : ℤ) = roundEven ((2 ^ 52 : ℤ) : ℚ) := (roundEven_intCast _).symm
        _ ≤ roundEven (y / 2 ^ lastPlace y) := roundEven_mono (by exact_mod_cast hge)
    have hkxq : (roundEven (x / 2 ^ lastPlace x) : ℚ) ≤ 2 ^ 53 := by
      exact_mod_cast (le_abs_self _).trans hkx
    have hkyq : (2 ^ 52 : ℚ) ≤ (roundEven (y / 2 ^ lastPlace y) : ℚ) := by exact_mod_cast hky
    calc roundDouble x ≤ 2 ^ 53 * 2 ^ lastPlace x :=
          mul_le_mul_of_nonneg_right hkxq (by positivity)
      _ = 2 ^ 52 * 2 ^ (lastPlace x + 1) := by
          rw [zpow_add₀ (by norm_num), zpow_one]
          ring
      _ ≤ 2 ^ 52 * 2 ^ lastPlace y :=
          mul_le_mul_of_nonneg_left (zpow_le_zpow_right₀ (by norm_num) (by omega)) (by positivity)
      _ ≤ roundDouble y := mul_le_mul_of_nonneg_right hkyq (by positivity)
  · rw [roundDouble, roundDouble, heq]
    have hdiv : x / 2 ^ lastPlace y ≤ y / 2 ^ lastPlace y :=
      div_le_div_of_nonneg_right h (by positivity)
    have hk : (roundEven (x / 2 ^ lastPlace y) : ℚ) ≤ roundEven (y / 2 ^ lastPlace y) := by
      exact_mod_cast roundEven_mono hdiv
    exact mul_le_mul_of_nonneg_right hk (by positivity)

theorem roundDouble_nonpos {x : ℚ} (h : x ≤ 0) : roundDouble x ≤ 0 := by
  have hneg := roundDouble_nonneg (neg_nonneg.mpr h)
  rw [roundDouble_neg] at hneg
  linarith

theorem roundDouble_mono {x y : ℚ} (h : x ≤ y) : roundDouble x ≤ roundDouble y := by
  rcases lt_or_ge 0 x with hx | hx
  · exact roundDouble_mono_pos hx h
  · rcases lt_or_ge y 0 with hy | hy
    · have hneg := roundDouble_mono_pos (neg_pos.mpr hy) (neg_le_neg h)
      rw [roundDouble_neg, roundDouble_neg] at hneg
      linarith
    · exact (roundDouble_nonpos hx).trans (roundDouble_nonneg hy)

/-! ## Numbers are fixed points -/

theorem IsDouble.roundDouble_eq {x : ℚ} (h : IsDouble x) : roundDouble x = x := by
  rcases le_total 0 x with hx | hx
  · have hfix := h.2
    rwa [abs_of_nonneg hx] at hfix
  · have hfix := h.2
    rw [abs_of_nonpos hx, roundDouble_neg] at hfix
    linarith

theorem roundDouble_intCast {k : ℤ} (h : |k| < 2 ^ 53) : roundDouble k = k :=
  (isDouble_intCast h).roundDouble_eq

theorem roundDouble_one : roundDouble 1 = 1 := by
  have h := roundDouble_intCast (k := 1) (by norm_num)
  exact_mod_cast h

/-- A number at most what is rounded is at most the result. -/
theorem le_roundDouble {x y : ℚ} (hx : roundDouble x = x) (h : x ≤ y) : x ≤ roundDouble y := by
  calc x = roundDouble x := hx.symm
    _ ≤ roundDouble y := roundDouble_mono h

theorem roundDouble_le {x y : ℚ} (hy : roundDouble y = y) (h : x ≤ y) : roundDouble x ≤ y := by
  calc roundDouble x ≤ roundDouble y := roundDouble_mono h
    _ = y := hy

/-! ## Error -/

theorem roundDouble_error (x : ℚ) : |roundDouble x - x| ≤ 2 ^ lastPlace x / 2 := by
  have hpos : (0 : ℚ) < 2 ^ lastPlace x := by positivity
  have hval : roundDouble x - x
      = ((roundEven (x / 2 ^ lastPlace x) : ℚ) - x / 2 ^ lastPlace x) * 2 ^ lastPlace x := by
    rw [sub_mul, div_mul_cancel₀ _ hpos.ne', roundDouble]
  rw [hval, abs_mul, abs_of_pos hpos]
  have herr := roundEven_error (x / 2 ^ lastPlace x)
  calc |(roundEven (x / 2 ^ lastPlace x) : ℚ) - x / 2 ^ lastPlace x| * 2 ^ lastPlace x
      ≤ 1 / 2 * 2 ^ lastPlace x := mul_le_mul_of_nonneg_right herr hpos.le
    _ = 2 ^ lastPlace x / 2 := by ring

/-- The least magnitude that has all 53 bits. -/
def leastNormal : ℚ := 2 ^ (-1022 : ℤ)

theorem leastNormal_le_one : leastNormal ≤ 1 := by
  rw [leastNormal]
  exact zpow_le_one_of_nonpos₀ (by norm_num) (by norm_num)

theorem lastPlace_of_normal {x : ℚ} (h : leastNormal ≤ x) : lastPlace x = Int.log 2 x - 52 := by
  have hx : 0 < x := lt_of_lt_of_le (by rw [leastNormal]; positivity) h
  have hlog := (Int.zpow_le_iff_le_log (b := 2) (by norm_num) hx).mp
    (by rw [leastNormal] at h; exact_mod_cast h : ((2 : ℕ) : ℚ) ^ (-1022 : ℤ) ≤ x)
  rw [lastPlace, abs_of_pos hx]
  omega

/-- The last place of a normal magnitude is one part in `2 ^ 52` at most. -/
theorem two_pow_lastPlace_le {x : ℚ} (h : leastNormal ≤ x) : 2 ^ lastPlace x ≤ x / 2 ^ 52 := by
  have hx : 0 < x := lt_of_lt_of_le (by rw [leastNormal]; positivity) h
  have hlog := Int.zpow_log_le_self (R := ℚ) (by norm_num : 1 < 2) hx
  rw [lastPlace_of_normal h, zpow_sub₀ (by norm_num), le_div_iff₀ (by positivity),
    show (52 : ℤ) = (52 : ℕ) from rfl, zpow_natCast, div_mul_cancel₀ _ (by positivity)]
  exact_mod_cast hlog

theorem roundDouble_relative {x : ℚ} (h : leastNormal ≤ x) :
    |roundDouble x - x| ≤ x / 2 ^ 53 := by
  have herr := roundDouble_error x
  have hplace := two_pow_lastPlace_le h
  calc |roundDouble x - x| ≤ 2 ^ lastPlace x / 2 := herr
    _ ≤ x / 2 ^ 52 / 2 := by linarith
    _ = x / 2 ^ 53 := by ring

theorem le_roundDouble_of_normal {x : ℚ} (h : leastNormal ≤ x) :
    x * (1 - 1 / 2 ^ 53) ≤ roundDouble x := by
  have herr := (abs_le.mp (roundDouble_relative h)).1
  linarith

theorem roundDouble_le_of_normal {x : ℚ} (h : leastNormal ≤ x) :
    roundDouble x ≤ x * (1 + 1 / 2 ^ 53) := by
  have herr := (abs_le.mp (roundDouble_relative h)).2
  linarith

/-! ## The spacing of numbers -/

/-- A number is a multiple of the least positive one. -/
theorem exists_multiple {x : ℚ} (h : roundDouble x = x) :
    ∃ k : ℤ, x = k * 2 ^ (-1074 : ℤ) := by
  obtain ⟨d, hd⟩ : ∃ d : ℕ, lastPlace x = d + -1074 :=
    ⟨(lastPlace x + 1074).toNat, by
      have hle : -1074 ≤ lastPlace x := le_max_left _ _
      omega⟩
  refine ⟨roundEven (x / 2 ^ lastPlace x) * 2 ^ d, ?_⟩
  conv_lhs => rw [← h, roundDouble]
  rw [hd, zpow_add₀ (by norm_num), zpow_natCast, Int.cast_mul, Int.cast_pow, Int.cast_ofNat,
    mul_assoc]

theorem roundDouble_leastPositive : roundDouble (2 ^ (-1074 : ℤ)) = 2 ^ (-1074 : ℤ) := by
  have hle := lastPlace_le_of_abs_lt (k := 1) (e := -1074) le_rfl (by norm_num) (by norm_num)
  rw [Int.cast_one, one_mul] at hle
  have hplace : lastPlace (2 ^ (-1074 : ℤ)) = -1074 := le_antisymm hle (le_max_left _ _)
  refine roundDouble_of_dvd (k := 1) ?_
  rw [hplace, Int.cast_one, one_mul]

/-- Two numbers that differ are told apart by the rounded difference. -/
theorem fsub_pos {x y : ℚ} (hx : roundDouble x = x) (hy : roundDouble y = y) (h : y < x) :
    0 < fsub x y := by
  have hpos : (0 : ℚ) < 2 ^ (-1074 : ℤ) := by positivity
  obtain ⟨k, hk⟩ := exists_multiple hx
  obtain ⟨j, hj⟩ := exists_multiple hy
  have hlt : j < k := by
    rw [hk, hj] at h
    exact_mod_cast lt_of_mul_lt_mul_right h hpos.le
  have hone : (1 : ℚ) ≤ k - j := by
    have hint : j + 1 ≤ k := by omega
    have hcast : ((j + 1 : ℤ) : ℚ) ≤ k := by exact_mod_cast hint
    push_cast at hcast
    linarith
  have hgap : 2 ^ (-1074 : ℤ) ≤ x - y := by
    rw [hk, hj, ← sub_mul]
    exact le_mul_of_one_le_left hpos.le hone
  exact hpos.trans_le (le_roundDouble roundDouble_leastPositive hgap)

/-- As many bits as a significand has, at any place from the least one up. -/
theorem roundDouble_mul_two_pow {k e : ℤ} (he : -1074 ≤ e) (hk : |k| < 2 ^ 53) :
    roundDouble (k * 2 ^ e) = k * 2 ^ e := by
  rcases eq_or_ne k 0 with rfl | hk0
  · rw [Int.cast_zero, zero_mul, roundDouble_zero]
  · have hle := lastPlace_le_of_abs_lt he hk0 hk
    obtain ⟨d, hd⟩ : ∃ d : ℕ, e = d + lastPlace (k * 2 ^ e) :=
      ⟨(e - lastPlace (k * 2 ^ e)).toNat, by omega⟩
    refine roundDouble_of_dvd (k := k * 2 ^ d) ?_
    rw [Int.cast_mul, Int.cast_pow, Int.cast_ofNat, mul_assoc, ← zpow_natCast,
      ← zpow_add₀ (by norm_num : (2 : ℚ) ≠ 0), ← hd]

/-- The multiple of its last place that a number is. -/
theorem exists_significand {x : ℚ} (h : roundDouble x = x) :
    ∃ k : ℤ, |k| < 2 ^ 53 ∧ x = k * 2 ^ lastPlace x := by
  have hpos : (0 : ℚ) < 2 ^ lastPlace x := by positivity
  have hval : x = roundEven (x / 2 ^ lastPlace x) * 2 ^ lastPlace x := h.symm
  have hdiv : x / 2 ^ lastPlace x = roundEven (x / 2 ^ lastPlace x) :=
    (div_eq_iff hpos.ne').mpr hval
  have hlt := abs_div_lastPlace_lt x
  rw [hdiv] at hlt
  exact ⟨roundEven (x / 2 ^ lastPlace x), by exact_mod_cast hlt, hval⟩

/-- The next number is a last place away, or further. -/
theorem add_lastPlace_le {x y : ℚ} (hx : roundDouble x = x) (hy : roundDouble y = y)
    (h0 : 0 < x) (h : x < y) : x + 2 ^ lastPlace x ≤ y := by
  have hpos : (0 : ℚ) < 2 ^ lastPlace x := by positivity
  obtain ⟨k, -, hk⟩ := exists_significand hx
  obtain ⟨j, -, hj⟩ := exists_significand hy
  obtain ⟨d, hd⟩ : ∃ d : ℕ, lastPlace y = d + lastPlace x :=
    ⟨(lastPlace y - lastPlace x).toNat, by
      have hle := lastPlace_mono h0 h.le
      omega⟩
  have hj' : y = ((j * 2 ^ d : ℤ) : ℚ) * 2 ^ lastPlace x := by
    rw [hd, zpow_add₀ (by norm_num), zpow_natCast] at hj
    rw [Int.cast_mul, Int.cast_pow, Int.cast_ofNat, mul_assoc]
    exact hj
  generalize j * 2 ^ d = n at hj'
  generalize (2 : ℚ) ^ lastPlace x = u at hpos hk hj' ⊢
  rw [hk, hj'] at h ⊢
  have hlt : k < n := by exact_mod_cast lt_of_mul_lt_mul_right h hpos.le
  have hstep : (k : ℚ) + 1 ≤ n := by exact_mod_cast hlt
  calc (k : ℚ) * u + u = (k + 1) * u := by ring
    _ ≤ n * u := mul_le_mul_of_nonneg_right hstep hpos.le

theorem div_lt_two_pow_lastPlace {x : ℚ} (h0 : 0 < x) : x / 2 ^ 53 < 2 ^ lastPlace x := by
  have hpos : (0 : ℚ) < 2 ^ lastPlace x := by positivity
  have hlt := abs_div_lastPlace_lt x
  rw [abs_of_nonneg (by positivity), div_lt_iff₀ hpos] at hlt
  rw [div_lt_iff₀ (by positivity), mul_comm]
  exact_mod_cast hlt

theorem mul_le_of_lt {x y : ℚ} (hx : roundDouble x = x) (hy : roundDouble y = y)
    (h0 : 0 < x) (h : x < y) : x * (1 + 1 / 2 ^ 53) ≤ y := by
  have hgap := add_lastPlace_le hx hy h0 h
  have hplace := div_lt_two_pow_lastPlace h0
  linarith

/-- From above a power of two the next number down is only half a last place
away, which is what one part in `2 ^ 53` of it comes to. -/
theorem le_mul_of_lt {x y : ℚ} (hx : roundDouble x = x) (hy : roundDouble y = y)
    (h0 : 0 < x) (h : x < y) : x ≤ y * (1 - 1 / 2 ^ 53) := by
  have hy0 : 0 < y := h0.trans h
  rcases lt_or_eq_of_le (lastPlace_mono h0 h.le) with hlt | heq
  · have hpos : (0 : ℚ) < 2 ^ lastPlace x := by positivity
    obtain ⟨k, hk, hxk⟩ := exists_significand hx
    have hkq : (k : ℚ) ≤ 2 ^ 53 - 1 := by
      have hint : k ≤ 2 ^ 53 - 1 := by
        have := le_abs_self k
        omega
      exact_mod_cast hint
    have hbinade : (2 : ℚ) ^ 53 * 2 ^ lastPlace x ≤ y := by
      have hge := two_pow_le_div_lastPlace hy0 (lt_of_le_of_lt (le_max_left _ _) hlt)
      rw [le_div_iff₀ (by positivity)] at hge
      calc (2 : ℚ) ^ 53 * 2 ^ lastPlace x = 2 ^ 52 * 2 ^ (lastPlace x + 1) := by
            rw [zpow_add₀ (by norm_num), zpow_one]
            ring
        _ ≤ 2 ^ 52 * 2 ^ lastPlace y :=
            mul_le_mul_of_nonneg_left (zpow_le_zpow_right₀ (by norm_num) (by omega))
              (by positivity)
        _ ≤ y := hge
    calc x = k * 2 ^ lastPlace x := hxk
      _ ≤ (2 ^ 53 - 1) * 2 ^ lastPlace x := mul_le_mul_of_nonneg_right hkq hpos.le
      _ = 2 ^ 53 * 2 ^ lastPlace x * (1 - 1 / 2 ^ 53) := by ring
      _ ≤ y * (1 - 1 / 2 ^ 53) := mul_le_mul_of_nonneg_right hbinade (by norm_num)
  · have hgap := add_lastPlace_le hx hy h0 h
    have hplace := div_lt_two_pow_lastPlace hy0
    rw [heq] at hgap
    linarith

/-! ## Whole numbers, and the choice of two -/

theorem roundDouble_natLit {n : ℕ} (h : n < 2 ^ 53) : roundDouble n = n := by
  have hint := roundDouble_intCast (k := n) (by rw [Nat.abs_cast]; exact_mod_cast h)
  exact_mod_cast hint

theorem roundDouble_min {x y : ℚ} (hx : roundDouble x = x) (hy : roundDouble y = y) :
    roundDouble (min x y) = min x y := by
  rcases min_choice x y with h | h <;> rw [h] <;> assumption

theorem roundDouble_max {x y : ℚ} (hx : roundDouble x = x) (hy : roundDouble y = y) :
    roundDouble (max x y) = max x y := by
  rcases max_choice x y with h | h <;> rw [h] <;> assumption

/-- From `2 ^ 52` on a number is an integer already, and below it the nearest
integer has room. -/
theorem roundDouble_mathRound {x : ℚ} (hx : roundDouble x = x) (h0 : 0 ≤ x) :
    roundDouble (mathRound x) = mathRound x := by
  rcases lt_or_ge x (2 ^ 52) with hlt | hge
  · have hlo : 0 ≤ ⌊x + 1 / 2⌋ := Int.floor_nonneg.mpr (by linarith)
    have hhi : ⌊x + 1 / 2⌋ < 2 ^ 53 := by
      rw [Int.floor_lt]
      push_cast
      linarith
    exact roundDouble_intCast (by rw [abs_of_nonneg hlo]; exact hhi)
  · have hpos : 0 < x := lt_of_lt_of_le (by norm_num) hge
    have hlog : (52 : ℤ) ≤ Int.log 2 x :=
      (Int.zpow_le_iff_le_log (b := 2) (by norm_num) hpos).mp (by exact_mod_cast hge)
    obtain ⟨d, hd⟩ : ∃ d : ℕ, lastPlace x = d :=
      ⟨(lastPlace x).toNat, by
        rw [lastPlace, abs_of_pos hpos]
        omega⟩
    obtain ⟨k, -, hk⟩ := exists_significand hx
    have hint : x = ((k * 2 ^ d : ℤ) : ℚ) := by
      rw [hd, zpow_natCast] at hk
      push_cast
      exact hk
    have hround : mathRound x = x := by
      rw [mathRound, hint]
      norm_cast
      rw [Int.floor_intCast_add]
      norm_num
    rw [hround]
    exact hx

theorem mathRound_mono {x y : ℚ} (h : x ≤ y) : mathRound x ≤ mathRound y := by
  have hfloor : ⌊x + 1 / 2⌋ ≤ ⌊y + 1 / 2⌋ := Int.floor_mono (by linarith)
  rw [mathRound, mathRound]
  exact_mod_cast hfloor

theorem mathRound_le (x : ℚ) : mathRound x ≤ x + 1 / 2 := Int.floor_le _

theorem le_mathRound (x : ℚ) : x - 1 / 2 ≤ mathRound x := by
  have hlt := Int.lt_floor_add_one (x + 1 / 2)
  rw [mathRound]
  linarith

/-! ## Operators -/

theorem fadd_mono {a b c d : ℚ} (hab : a ≤ b) (hcd : c ≤ d) : fadd a c ≤ fadd b d :=
  roundDouble_mono (add_le_add hab hcd)

theorem fsub_mono {a b : ℚ} (h : a ≤ b) (c : ℚ) : fsub a c ≤ fsub b c :=
  roundDouble_mono (sub_le_sub_right h c)

theorem fmul_mono {a b c : ℚ} (h : a ≤ b) (hc : 0 ≤ c) : fmul a c ≤ fmul b c :=
  roundDouble_mono (mul_le_mul_of_nonneg_right h hc)

theorem le_fadd {x y : ℚ} (hx : roundDouble x = x) (hy : 0 ≤ y) : x ≤ fadd x y :=
  le_roundDouble hx (le_add_of_nonneg_right hy)

/-- A factor of at least one does not take a number below itself. -/
theorem le_fmul {x c : ℚ} (hx : roundDouble x = x) (h : 0 ≤ x) (hc : 1 ≤ c) : x ≤ fmul x c :=
  le_roundDouble hx (le_mul_of_one_le_right h hc)

theorem fmul_le {x c : ℚ} (hx : roundDouble x = x) (h : 0 ≤ x) (hc : c ≤ 1) : fmul x c ≤ x :=
  roundDouble_le hx (mul_le_of_le_one_right h hc)

theorem fsub_le {x y : ℚ} (hx : roundDouble x = x) (hy : 0 ≤ y) : fsub x y ≤ x :=
  roundDouble_le hx (sub_le_self x hy)

theorem fdiv_le_one {x w : ℚ} (hw : 0 < w) (h : x ≤ w) : fdiv x w ≤ 1 :=
  roundDouble_le roundDouble_one ((div_le_one₀ hw).mpr h)

/-! ## A number and what is one place from it at most -/

/-- No number lies strictly between. -/
def NextTo (a b : ℚ) : Prop := ∀ c, roundDouble c = c → ¬ (a < c ∧ c < b)

/-- `x` is `a`, or next to it. -/
structure Near (a x : ℚ) : Prop where
  double : roundDouble x = x
  above : ∀ c, roundDouble c = c → a < c → x ≤ c
  below : ∀ c, roundDouble c = c → c < a → c ≤ x

theorem Near.refl {a : ℚ} (ha : roundDouble a = a) : Near a a :=
  ⟨ha, fun _ _ => le_of_lt, fun _ _ => le_of_lt⟩

section

variable {a b x y : ℚ}

theorem Near.le_iff_of_lt (hx : Near a x) (hy : Near b y) (ha : roundDouble a = a)
    (hb : roundDouble b = b) (h : a < b) : x ≤ y ↔ (NextTo a b → a < x → ¬ y < b) := by
  constructor
  · intro hle hnext hax hyb
    have hxb : b ≤ x := not_lt.mp fun hlt => hnext x hx.double ⟨hax, hlt⟩
    linarith
  · intro hturn
    by_cases hnext : NextTo a b
    · rcases lt_or_ge a x with hax | hxa
      · exact (hx.above b hb h).trans (not_lt.mp (hturn hnext hax))
      · exact hxa.trans (hy.below a ha h)
    · -- A number between them is passed by neither.
      rw [NextTo] at hnext
      push Not at hnext
      obtain ⟨c, hc, hac, hcb⟩ := hnext
      exact (hx.above c hc hac).trans (hy.below c hc hcb)

theorem Near.le_iff_of_eq (hx : Near a x) (hy : Near a y) :
    x ≤ y ↔ (a < x → a < y) ∧ (y < a → x < a) := by
  constructor
  · intro hle
    exact ⟨fun hax => hax.trans_le hle, fun hya => hle.trans_lt hya⟩
  · intro ⟨habove, hbelow⟩
    rcases lt_trichotomy x a with hlt | heq | hgt
    · rcases lt_or_ge y a with hya | hay
      · exact hy.below x hx.double hlt
      · exact hlt.le.trans hay
    · rw [heq]
      by_contra hya
      have hxa := hbelow (not_le.mp hya)
      linarith
    · exact hx.above y hy.double (habove hgt)

theorem Near.le_iff_of_gt (hy : Near b y) (h : b < a) :
    a ≤ y ↔ NextTo b a ∧ b < y := by
  constructor
  · intro hle
    refine ⟨?_, h.trans_le hle⟩
    intro c hc ⟨hbc, hca⟩
    have hyc := hy.above c hc hbc
    linarith
  · intro ⟨hnext, hby⟩
    exact not_lt.mp fun hlt => hnext y hy.double ⟨hby, hlt⟩

end

/-! ## There and back

A count divided by some `w` and multiplied by it again may miss the count, but
it passes no other number on the way. -/

section

variable {a b w : ℚ}

theorem backAndForth_le (ha : roundDouble a = a) (hb : roundDouble b = b) (ha0 : 0 < a)
    (hw : 0 < w) (hnormal : leastNormal ≤ a / w) (h : a < b) : fmul w (fdiv a w) ≤ b := by
  refine roundDouble_le hb ?_
  calc w * fdiv a w ≤ w * (a / w * (1 + 1 / 2 ^ 53)) :=
        mul_le_mul_of_nonneg_left (roundDouble_le_of_normal hnormal) hw.le
    _ = a * (1 + 1 / 2 ^ 53) := by rw [← mul_assoc, mul_div_cancel₀ _ hw.ne']
    _ ≤ b := mul_le_of_lt ha hb ha0 h

theorem le_backAndForth (ha : roundDouble a = a) (hb : roundDouble b = b) (hb0 : 0 < b)
    (hw : 0 < w) (hnormal : leastNormal ≤ a / w) (h : b < a) : b ≤ fmul w (fdiv a w) := by
  refine le_roundDouble hb ?_
  calc b ≤ a * (1 - 1 / 2 ^ 53) := le_mul_of_lt hb ha hb0 h
    _ = w * (a / w * (1 - 1 / 2 ^ 53)) := by rw [← mul_assoc, mul_div_cancel₀ _ hw.ne']
    _ ≤ w * fdiv a w :=
        mul_le_mul_of_nonneg_left (le_roundDouble_of_normal hnormal) hw.le

theorem near_backAndForth (ha : roundDouble a = a) (ha0 : 0 < a) (hw : 0 < w)
    (hnormal : leastNormal ≤ a / w) : Near a (fmul w (fdiv a w)) := by
  refine ⟨roundDouble_idem _, fun c hc hac => backAndForth_le ha hc ha0 hw hnormal hac, ?_⟩
  intro c hc hca
  rcases lt_or_ge 0 c with hpos | hneg
  · exact le_backAndForth ha hc hpos hw hnormal hca
  · have hdiv : 0 ≤ fdiv a w := roundDouble_nonneg (div_nonneg ha0.le hw.le)
    exact hneg.trans (roundDouble_nonneg (mul_nonneg hw.le hdiv))

end

end Shizuha.Js
