import Mathlib.Algebra.Order.Field.Power
import Mathlib.Data.Int.Log
import Mathlib.Data.Rat.Floor
import Mathlib.Tactic.Linarith
import Mathlib.Tactic.NormNum
import Mathlib.Tactic.Positivity

/-!
# Numbers as the language has them

A number is a binary64 value. The finite ones are kept as the rationals they
are, and an operation is the exact operation followed by `roundDouble`, the
rounding to nearest with ties to even: the precision is 53 bits down to the
subnormal spacing of `2 ^ -1074`, and a magnitude from `maxFinite` up is an
infinity. The two zeros are one value here, as `===` has them.

`roundDouble_idem` is the fact the texts of numbers rest on: what rounding
returns is a fixed point of rounding. A `Double` is a rational that comes with
its being such a fixed point, so a number that was read once is read the same
way again.
-/

namespace Shizuha.Js

/-- The nearest integer, the even one of two. -/
def roundEven (x : ℚ) : ℤ :=
  if x - ⌊x⌋ < 1 / 2 then ⌊x⌋
  else if 1 / 2 < x - ⌊x⌋ then ⌊x⌋ + 1
  else if ⌊x⌋ % 2 = 0 then ⌊x⌋
  else ⌊x⌋ + 1

/-- The exponent of the last place a magnitude is kept to. -/
def lastPlace (x : ℚ) : ℤ := max (-1074) (Int.log 2 |x| - 52)

/-- The nearest binary64 value, exponents unbounded above. -/
def roundDouble (x : ℚ) : ℚ := roundEven (x / 2 ^ lastPlace x) * 2 ^ lastPlace x

/-! The operators on finite numbers whose result does not overflow. -/

def fadd (x y : ℚ) : ℚ := roundDouble (x + y)
def fsub (x y : ℚ) : ℚ := roundDouble (x - y)
def fmul (x y : ℚ) : ℚ := roundDouble (x * y)
def fdiv (x y : ℚ) : ℚ := roundDouble (x / y)

/-- `Math.round`: to nearest, halves up. -/
def mathRound (x : ℚ) : ℚ := ⌊x + 1 / 2⌋

/-- The magnitude from which rounding goes to an infinity: half a last place
above the largest finite value. -/
def overflowBound : ℚ := (2 ^ 54 - 1) * 2 ^ 970

/-! ## Rounding a value that is already rounded -/

theorem roundEven_intCast (k : ℤ) : roundEven k = k := by
  rw [roundEven, Int.floor_intCast, sub_self, if_pos (by norm_num)]

theorem roundEven_error (x : ℚ) : |(roundEven x : ℚ) - x| ≤ 1 / 2 := by
  have hlo := Int.floor_le x
  have hhi := Int.lt_floor_add_one x
  rw [roundEven, abs_le]
  split_ifs <;> push_cast <;> constructor <;> linarith

theorem abs_roundEven_le {x : ℚ} {n : ℕ} (hx : |x| < n) : |roundEven x| ≤ n := by
  have he := roundEven_error x
  have ht := abs_add_le ((roundEven x : ℚ) - x) x
  rw [sub_add_cancel] at ht
  have hlt : |(roundEven x : ℚ)| < (n : ℚ) + 1 := by linarith
  have hint : |roundEven x| < (n : ℤ) + 1 := by exact_mod_cast hlt
  omega

/-- Dividing by the last place leaves at most 53 bits. -/
theorem abs_div_lastPlace_lt (x : ℚ) : |x / 2 ^ lastPlace x| < (2 ^ 53 : ℕ) := by
  have hpos : (0 : ℚ) < 2 ^ lastPlace x := by positivity
  rw [abs_div, abs_of_pos hpos, div_lt_iff₀ hpos]
  have hlog := Int.lt_zpow_succ_log_self (R := ℚ) (by norm_num : 1 < 2) |x|
  have hexp : Int.log 2 |x| + 1 ≤ 53 + lastPlace x := by
    have := le_max_right (-1074) (Int.log 2 |x| - 52)
    rw [lastPlace]
    omega
  calc |x| < (2 : ℚ) ^ (Int.log 2 |x| + 1) := by exact_mod_cast hlog
    _ ≤ 2 ^ (53 + lastPlace x) := zpow_le_zpow_right₀ (by norm_num) hexp
    _ = (2 ^ 53 : ℕ) * 2 ^ lastPlace x := by
        rw [zpow_add₀ (by norm_num)]
        norm_num

/-- An integer multiple of a last place is rounded to itself, as long as its
own last place is no coarser than the multiple allows. -/
theorem roundDouble_of_dvd {x : ℚ} {k : ℤ} (h : x = k * 2 ^ lastPlace x) :
    roundDouble x = x := by
  have hne : (2 : ℚ) ^ lastPlace x ≠ 0 := by positivity
  have hdiv : x / 2 ^ lastPlace x = k := by
    rw [div_eq_iff hne]
    exact h
  rw [roundDouble, hdiv, roundEven_intCast]
  exact h.symm

theorem lastPlace_le_of_abs_lt {k e : ℤ} (he : -1074 ≤ e) (hk0 : k ≠ 0)
    (hk : |k| < 2 ^ 53) : lastPlace (k * 2 ^ e) ≤ e := by
  have hkq : |(k : ℚ)| < 2 ^ (53 : ℤ) := by exact_mod_cast hk
  have hpos : 0 < |(k : ℚ) * 2 ^ e| := by
    rw [abs_pos]
    exact mul_ne_zero (by exact_mod_cast hk0) (by positivity)
  have hlt : |(k : ℚ) * 2 ^ e| < ((2 : ℕ) : ℚ) ^ (53 + e) := by
    rw [abs_mul, abs_of_pos (by positivity : (0 : ℚ) < 2 ^ e)]
    push_cast
    rw [zpow_add₀ (by norm_num)]
    exact mul_lt_mul_of_pos_right hkq (by positivity)
  have hlog := (Int.lt_zpow_iff_log_lt (by norm_num : 1 < 2) hpos).mp hlt
  rw [lastPlace]
  exact max_le he (by omega)

/-- What rounding returns is a fixed point of rounding. The one case with
anything in it is a mantissa that rounded up to `2 ^ 53`: the result then has
the next binary exponent, and is still a multiple of its last place. -/
theorem roundDouble_idem (x : ℚ) : roundDouble (roundDouble x) = roundDouble x := by
  have hk := abs_roundEven_le (abs_div_lastPlace_lt x)
  have he : -1074 ≤ lastPlace x := le_max_left _ _
  rw [show roundDouble x = roundEven (x / 2 ^ lastPlace x) * 2 ^ lastPlace x from rfl]
  generalize roundEven (x / 2 ^ lastPlace x) = k at hk ⊢
  generalize lastPlace x = e at he ⊢
  rcases eq_or_ne k 0 with rfl | hk0
  · simp [roundDouble, roundEven]
  · -- Either the mantissa fits, or it is exactly a power of two.
    have hreduce : ∃ (j e' : ℤ), -1074 ≤ e' ∧ j ≠ 0 ∧ |j| < 2 ^ 53 ∧
        (k : ℚ) * 2 ^ e = j * 2 ^ e' := by
      rcases lt_or_eq_of_le hk with hlt | heq
      · exact ⟨k, e, he, hk0, by exact_mod_cast hlt, rfl⟩
      · rcases abs_eq (by norm_num : (0 : ℤ) ≤ ((2 ^ 53 : ℕ) : ℤ)) |>.mp heq with rfl | rfl
        · refine ⟨2 ^ 52, e + 1, by omega, by norm_num, by norm_num, ?_⟩
          rw [zpow_add₀ (by norm_num)]
          push_cast
          ring
        · refine ⟨-2 ^ 52, e + 1, by omega, by norm_num, by norm_num, ?_⟩
          rw [zpow_add₀ (by norm_num)]
          push_cast
          ring
    obtain ⟨j, e', he', hj0, hj, hval⟩ := hreduce
    rw [hval]
    have hle := lastPlace_le_of_abs_lt he' hj0 hj
    obtain ⟨d, hd⟩ : ∃ d : ℕ, e' = d + lastPlace (j * 2 ^ e') :=
      ⟨(e' - lastPlace (j * 2 ^ e')).toNat, by omega⟩
    refine roundDouble_of_dvd (k := j * 2 ^ d) ?_
    calc (j : ℚ) * 2 ^ e' = j * (2 ^ (d : ℤ) * 2 ^ lastPlace (j * 2 ^ e')) := by
            rw [← zpow_add₀ (by norm_num : (2 : ℚ) ≠ 0), ← hd]
      _ = ((j * 2 ^ d : ℤ) : ℚ) * 2 ^ lastPlace (j * 2 ^ e') := by
            push_cast
            rw [zpow_natCast]
            ring

/-- Rounding keeps a magnitude below the overflow bound below it: at the top
binade the bound is half a place above the largest mantissa. -/
theorem abs_roundDouble_lt {x : ℚ} (h : |x| < overflowBound) :
    |roundDouble x| < overflowBound := by
  have hpos : (0 : ℚ) < 2 ^ lastPlace x := by positivity
  have hk := abs_roundEven_le (abs_div_lastPlace_lt x)
  have he : lastPlace x ≤ 971 := by
    rcases eq_or_ne x 0 with rfl | hx
    · simp [lastPlace]
    · have hlt : |x| < ((2 : ℕ) : ℚ) ^ (1024 : ℤ) := by
        have hbound : overflowBound < (2 : ℚ) ^ (1024 : ℤ) := by
          rw [overflowBound, show (1024 : ℤ) = 54 + (970 : ℕ) by norm_num,
            zpow_add₀ (by norm_num), zpow_natCast]
          exact mul_lt_mul_of_pos_right (by norm_num) (by positivity)
        rw [Nat.cast_ofNat]
        linarith
      have hlog := (Int.lt_zpow_iff_log_lt (by norm_num : 1 < 2) (abs_pos.mpr hx)).mp hlt
      exact max_le (by norm_num) (by omega)
  have habs : |roundDouble x| = |(roundEven (x / 2 ^ lastPlace x) : ℚ)| * 2 ^ lastPlace x := by
    rw [roundDouble, abs_mul, abs_of_pos hpos]
  rw [habs]
  rcases lt_or_eq_of_le he with hlt | heq
  · have hkq : |(roundEven (x / 2 ^ lastPlace x) : ℚ)| ≤ 2 ^ 53 := by exact_mod_cast hk
    calc |(roundEven (x / 2 ^ lastPlace x) : ℚ)| * 2 ^ lastPlace x
        ≤ 2 ^ 53 * 2 ^ ((970 : ℕ) : ℤ) :=
          mul_le_mul hkq (zpow_le_zpow_right₀ (by norm_num) (by omega)) hpos.le (by norm_num)
      _ < overflowBound := by
          rw [overflowBound, zpow_natCast]
          exact mul_lt_mul_of_pos_right (by norm_num) (by positivity)
  · rw [heq] at hk ⊢
    have htop : (2 : ℚ) ^ (971 : ℤ) = 2 * 2 ^ 970 := by
      rw [show (971 : ℤ) = 1 + (970 : ℕ) by norm_num, zpow_add₀ (by norm_num), zpow_one,
        zpow_natCast]
    have hdiv : |x / 2 ^ (971 : ℤ)| < 2 ^ 53 - 1 / 2 := by
      rw [abs_div, abs_of_pos (by positivity : (0 : ℚ) < 2 ^ (971 : ℤ)),
        div_lt_iff₀ (by positivity)]
      have : ((2 : ℚ) ^ 53 - 1 / 2) * 2 ^ (971 : ℤ) = overflowBound := by
        rw [htop, overflowBound, ← mul_assoc]
        norm_num
      rw [this]
      exact h
    have herr := roundEven_error (x / 2 ^ (971 : ℤ))
    have htri := abs_add_le ((roundEven (x / 2 ^ (971 : ℤ)) : ℚ) - x / 2 ^ (971 : ℤ))
      (x / 2 ^ (971 : ℤ))
    rw [sub_add_cancel] at htri
    have hlt : |(roundEven (x / 2 ^ (971 : ℤ)) : ℚ)| < 2 ^ 53 := by linarith
    have hle : |roundEven (x / 2 ^ (971 : ℤ))| ≤ 2 ^ 53 - 1 := by
      have : |roundEven (x / 2 ^ (971 : ℤ))| < 2 ^ 53 := by exact_mod_cast hlt
      omega
    have hleq : |(roundEven (x / 2 ^ (971 : ℤ)) : ℚ)| ≤ 2 ^ 53 - 1 := by exact_mod_cast hle
    calc |(roundEven (x / 2 ^ (971 : ℤ)) : ℚ)| * 2 ^ (971 : ℤ)
        ≤ (2 ^ 53 - 1) * 2 ^ (971 : ℤ) := mul_le_mul_of_nonneg_right hleq (by positivity)
      _ = (2 ^ 53 - 1) * 2 * 2 ^ 970 := by rw [htop, mul_assoc]
      _ < overflowBound := by
          rw [overflowBound]
          exact mul_lt_mul_of_pos_right (by norm_num) (by positivity)

/-! ## Numbers that reading leaves alone -/

theorem roundDouble_nonneg {x : ℚ} (h : 0 ≤ x) : 0 ≤ roundDouble x := by
  have hdiv : 0 ≤ x / 2 ^ lastPlace x := by positivity
  have hfloor : 0 ≤ ⌊x / 2 ^ lastPlace x⌋ := Int.floor_nonneg.mpr hdiv
  have hk : 0 ≤ roundEven (x / 2 ^ lastPlace x) := by
    rw [roundEven]
    split_ifs <;> omega
  exact mul_nonneg (by exact_mod_cast hk) (by positivity)

/-! ## Numbers -/

/-- A rational that rounding its magnitude leaves alone. -/
def IsDouble (x : ℚ) : Prop := |x| < overflowBound ∧ roundDouble |x| = |x|

theorem isDouble_neg {x : ℚ} : IsDouble (-x) ↔ IsDouble x := by
  rw [IsDouble, IsDouble, abs_neg]

/-- Rounding a magnitude that does not overflow gives a number. -/
theorem isDouble_roundDouble {x : ℚ} (h : |x| < overflowBound) :
    IsDouble (roundDouble |x|) := by
  have habs : abs (roundDouble |x|) = roundDouble |x| :=
    abs_of_nonneg (roundDouble_nonneg (abs_nonneg x))
  refine ⟨abs_roundDouble_lt ?_, ?_⟩
  · rw [abs_abs]
    exact h
  · rw [habs, roundDouble_idem]

/-- An integer of at most 53 bits is a number. -/
theorem isDouble_intCast {k : ℤ} (h : |k| < 2 ^ 53) : IsDouble k := by
  have hk : |(k : ℚ)| < 2 ^ 53 := by exact_mod_cast h
  refine ⟨?_, ?_⟩
  · calc |(k : ℚ)| < 2 ^ 53 * 1 := by rw [mul_one]; exact hk
      _ ≤ (2 ^ 54 - 1) * 2 ^ 970 :=
        mul_le_mul (by norm_num) (one_le_pow₀ (by norm_num)) (by norm_num) (by norm_num)
  · rcases eq_or_ne k 0 with rfl | hk0
    · simp [roundDouble, roundEven]
    · have hle := lastPlace_le_of_abs_lt (k := |k|) (e := 0) (by norm_num)
        (abs_ne_zero.mpr hk0) (by rwa [abs_abs])
      rw [zpow_zero, mul_one, Int.cast_abs] at hle
      obtain ⟨d, hd⟩ : ∃ d : ℕ, (d : ℤ) + lastPlace |(k : ℚ)| = 0 :=
        ⟨(-lastPlace |(k : ℚ)|).toNat, by omega⟩
      refine roundDouble_of_dvd (k := |k| * 2 ^ d) ?_
      push_cast
      rw [mul_assoc, ← zpow_natCast, ← zpow_add₀ (by norm_num : (2 : ℚ) ≠ 0), hd, zpow_zero,
        mul_one]

/-- A finite number. -/
structure Double where
  val : ℚ
  isDouble : IsDouble val

instance : DecidableEq Double := fun x y =>
  decidable_of_iff (x.val = y.val) (by cases x; cases y; simp)

@[ext]
theorem Double.ext {x y : Double} (h : x.val = y.val) : x = y := by
  cases x
  cases y
  cases h
  rfl

/-- An integer the significand has room for. -/
def Double.ofInt (k : ℤ) (h : |k| < 2 ^ 53) : Double := ⟨k, isDouble_intCast h⟩

theorem zero_small : |(0 : ℤ)| < 2 ^ 53 := by decide

def Double.neg (x : Double) : Double := ⟨-x.val, isDouble_neg.mpr x.isDouble⟩

/-- A number of the language, without the one that no text denotes. -/
inductive Number where
  | finite (x : Double)
  | infinite (negative : Bool)
  deriving DecidableEq

def Number.neg : Number → Number
  | .finite x => .finite x.neg
  | .infinite negative => .infinite (!negative)

/-- The number an unsigned literal with this exact value denotes. -/
def Number.ofMagnitude (x : ℚ) : Number :=
  if h : |x| < overflowBound then .finite ⟨roundDouble |x|, isDouble_roundDouble h⟩
  else .infinite false

theorem Number.ofMagnitude_eq {x : ℚ} {y : Double} (hx : 0 ≤ x) (hlt : x < overflowBound)
    (h : roundDouble x = y.val) : Number.ofMagnitude x = .finite y := by
  have habs : |x| = x := abs_of_nonneg hx
  rw [Number.ofMagnitude, dif_pos (by rwa [habs])]
  congr 1
  ext
  exact (congrArg roundDouble habs).trans h

end Shizuha.Js
