import Mathlib.Algebra.Order.Ring.Int
import Mathlib.Tactic.Ring
import Mathlib.Tactic.NormNum
import Shizuha.Js.Numeral

/-!
# Dates

A time value is a number of milliseconds since 1970, and a date is a time
value in range or no date at all. The calendar is the proleptic Gregorian one:
the day a year begins on has a closed form, and the year of a day is read off
its inverse. `toISOString` writes a date with a four-digit year, or with a
sign and six digits when four do not suffice, so its texts sort like the dates
only between the years 0 and 9999 (`isoText_lt`).

Local time depends on a zone, given by the instants at which its offset
changes. An hour that a change repeats is read as its first occurrence, and
one that it skips as if the change had not happened yet.
-/

namespace Shizuha.Js

/-! ## The calendar -/

/-- The last time value a date can have; the first is its negative. -/
def maxTime : ℤ := 8640000000000000

def timeClip (t : ℤ) : Option ℤ := if |t| ≤ maxTime then some t else none

def msPerDay : ℤ := 86400000

/-- The day a year begins on. -/
def dayFromYear (y : ℤ) : ℤ :=
  365 * (y - 1970) + (y - 1969) / 4 - (y - 1901) / 100 + (y - 1601) / 400

/-- The last year that begins no later than the day. -/
def yearFromDay (d : ℤ) : ℤ :=
  let y := 1970 + 400 * d / 146097
  if d < dayFromYear y then y - 1 else if dayFromYear (y + 1) ≤ d then y + 1 else y

def isLeap (y : ℤ) : Bool := dayFromYear (y + 1) - dayFromYear y = 366

/-- The day of the year that the month after month `m` begins on. -/
def monthEnd (leap : Bool) (m : ℕ) : ℕ :=
  let day := [31, 59, 90, 120, 151, 181, 212, 243, 273, 304, 334, 365][m]?.getD 365
  if leap && 1 ≤ m then day + 1 else day

def monthStart (leap : Bool) (m : ℕ) : ℕ := if m = 0 then 0 else monthEnd leap (m - 1)

/-- The month of a day of the year, from 0. -/
def monthFromDay (leap : Bool) (d : ℕ) : ℕ :=
  ((List.range 11).filter fun m => monthEnd leap m ≤ d).length

theorem dayFromYear_bounds (y : ℤ) :
    146097 * (y - 1970) - 1000 ≤ 400 * dayFromYear y ∧
      400 * dayFromYear y ≤ 146097 * (y - 1970) + 1000 := by
  unfold dayFromYear
  constructor <;> omega

theorem dayFromYear_succ (y : ℤ) :
    dayFromYear (y + 1) = dayFromYear y + 365 ∨ dayFromYear (y + 1) = dayFromYear y + 366 := by
  unfold dayFromYear
  omega

theorem yearFromDay_spec (d : ℤ) :
    dayFromYear (yearFromDay d) ≤ d ∧ d < dayFromYear (yearFromDay d + 1) := by
  have hlow := (dayFromYear_bounds (1970 + 400 * d / 146097 - 1)).2
  have hhigh := (dayFromYear_bounds (1970 + 400 * d / 146097 + 2)).1
  unfold yearFromDay
  dsimp only
  generalize hy : 1970 + 400 * d / 146097 = y at *
  split_ifs with hlt hle
  · rw [sub_add_cancel]
    omega
  · rw [show y + 1 + 1 = y + 2 by ring]
    omega
  · omega

theorem dayFromYear_mono {y z : ℤ} (h : y ≤ z) : dayFromYear y ≤ dayFromYear z := by
  unfold dayFromYear
  have h₄ : (y - 1969) / 4 ≤ (z - 1969) / 4 := Int.ediv_le_ediv (by norm_num) (by omega)
  have h₁₀₀ : (z - 1901) / 100 ≤ (y - 1901) / 100 + (z - y) := by omega
  have h₄₀₀ : (y - 1601) / 400 ≤ (z - 1601) / 400 := Int.ediv_le_ediv (by norm_num) (by omega)
  omega

theorem yearFromDay_mono {d e : ℤ} (h : d ≤ e) : yearFromDay d ≤ yearFromDay e := by
  by_contra hlt
  have hle := dayFromYear_mono (Int.add_one_le_of_lt (Int.not_le.mp hlt))
  have hd := (yearFromDay_spec d).1
  have he := (yearFromDay_spec e).2
  omega

/-! ## The parts of a time value -/

def dayOf (t : ℤ) : ℤ := t / msPerDay

def msInDay (t : ℤ) : ℕ := (t % msPerDay).toNat

def yearOf (t : ℤ) : ℤ := yearFromDay (dayOf t)

def dayInYear (t : ℤ) : ℕ := (dayOf t - dayFromYear (yearOf t)).toNat

/-- The month, from 0. -/
def monthOf (t : ℤ) : ℕ := monthFromDay (isLeap (yearOf t)) (dayInYear t)

/-- The day of the month, from 1. -/
def dateOf (t : ℤ) : ℕ := dayInYear t - monthStart (isLeap (yearOf t)) (monthOf t) + 1

/-- The day of the week, from Sunday. -/
def weekdayOf (t : ℤ) : ℕ := ((dayOf t + 4) % 7).toNat

def hourOf (t : ℤ) : ℕ := msInDay t / 3600000

def minuteOf (t : ℤ) : ℕ := msInDay t / 60000 % 60

def secondOf (t : ℤ) : ℕ := msInDay t / 1000 % 60

def millisecondOf (t : ℤ) : ℕ := msInDay t % 1000

/-! ## The ISO text -/

/-- The last `k` decimal digits. -/
def pad : ℕ → ℕ → Text
  | 0, _ => []
  | k + 1, n => digitUnit (n / 10 ^ k % 10) :: pad k n

/-- A number of fixed width, and what follows it. -/
structure DateField where
  width : ℕ
  value : ℕ
  separator : UInt16

def DateField.text (f : DateField) : Text := pad f.width f.value ++ [f.separator]

/-- Everything after the year, and the year when it has four digits. -/
def dateFields (t : ℤ) : List DateField :=
  [⟨4, (yearOf t).toNat, 45⟩, ⟨2, monthOf t + 1, 45⟩, ⟨2, dateOf t, 84⟩, ⟨2, hourOf t, 58⟩,
    ⟨2, minuteOf t, 58⟩, ⟨2, secondOf t, 46⟩, ⟨3, millisecondOf t, 90⟩]

/-- `toISOString` of a date. -/
def isoText (t : ℤ) : Text :=
  if 0 ≤ yearOf t ∧ yearOf t ≤ 9999 then (dateFields t).flatMap DateField.text
  else
    (if yearOf t < 0 then js "-" else js "+") ++ pad 6 (yearOf t).natAbs ++ js "-" ++
      ((dateFields t).drop 1).flatMap DateField.text

/-! ## Texts that sort like the dates -/

theorem append_lt_append {a b : Text} (hlength : a.length = b.length) (h : a < b) (x y : Text) :
    a ++ x < b ++ y := by
  induction a generalizing b with
  | nil =>
      rw [List.eq_nil_of_length_eq_zero hlength.symm] at h
      exact absurd h (List.not_lt_nil _)
  | cons u a ih =>
      cases b with
      | nil => cases hlength
      | cons v b =>
          rw [List.cons_append, List.cons_append, List.cons_lt_cons_iff]
          rcases List.cons_lt_cons_iff.mp h with huv | ⟨huv, hab⟩
          · exact .inl huv
          · exact .inr ⟨huv, ih (Nat.succ.inj hlength) hab⟩

theorem append_lt_append_left {a x y : Text} (h : x < y) : a ++ x < a ++ y := by
  induction a with
  | nil => exact h
  | cons u a ih => exact List.cons_lt_cons_iff.mpr (.inr ⟨rfl, ih⟩)

theorem length_pad (k n : ℕ) : (pad k n).length = k := by
  induction k with
  | zero => rfl
  | succ k ih => rw [pad, List.length_cons, ih]

theorem pad_mod (k n m : ℕ) (h : k ≤ m) : pad k (n % 10 ^ m) = pad k n := by
  induction k with
  | zero => rfl
  | succ k ih =>
      rw [pad, pad, ih (by omega)]
      obtain ⟨j, rfl⟩ := Nat.exists_eq_add_of_le h
      have hdigit : n % 10 ^ (k + 1 + j) / 10 ^ k % 10 = n / 10 ^ k % 10 := by
        rw [show k + 1 + j = k + (j + 1) by omega, pow_add, Nat.mod_mul_right_div_self,
          Nat.mod_mod_of_dvd _ (dvd_pow_self 10 (by omega))]
      rw [hdigit]

theorem pad_lt {k m n : ℕ} (hlt : m < n) (hn : n < 10 ^ k) : pad k m < pad k n := by
  induction k generalizing m n with
  | zero =>
      rw [pow_zero] at hn
      omega
  | succ k ih =>
      have hpos : 0 < 10 ^ k := Nat.pow_pos (by norm_num)
      have hdigit : ∀ j, j < 10 ^ (k + 1) → j / 10 ^ k % 10 = j / 10 ^ k := fun j hj =>
        Nat.mod_eq_of_lt (Nat.div_lt_of_lt_mul (by rwa [pow_succ] at hj))
      rw [pad, pad, List.cons_lt_cons_iff, hdigit m (hlt.trans hn), hdigit n hn]
      have hlast : n / 10 ^ k < 10 := by
        rw [← hdigit n hn]
        exact Nat.mod_lt _ (by norm_num)
      rcases Nat.lt_or_ge (m / 10 ^ k) (n / 10 ^ k) with hhead | hhead
      · refine .inl ?_
        generalize m / 10 ^ k = c at hhead ⊢
        generalize n / 10 ^ k = d at hhead hlast ⊢
        rw [digitUnit, digitUnit, UInt16.lt_iff_toNat_lt, UInt16.toNat_ofNat', UInt16.toNat_ofNat',
          Nat.mod_eq_of_lt (by omega), Nat.mod_eq_of_lt (by omega)]
        omega
      · have heq : m / 10 ^ k = n / 10 ^ k := le_antisymm (Nat.div_le_div_right hlt.le) hhead
        refine .inr ⟨by rw [heq], ?_⟩
        have hm := Nat.div_add_mod m (10 ^ k)
        have hnn := Nat.div_add_mod n (10 ^ k)
        rw [heq] at hm
        have hrest := ih (m := m % 10 ^ k) (n := n % 10 ^ k) (by omega) (Nat.mod_lt _ hpos)
        rwa [pad_mod k m k le_rfl, pad_mod k n k le_rfl] at hrest

/-- Fields in order, the first that differs decides. -/
def FieldsLT : List DateField → List DateField → Prop
  | f :: fs, g :: gs => f.width = g.width ∧ f.separator = g.separator ∧ g.value < 10 ^ g.width ∧
      (f.value < g.value ∨ f.value = g.value ∧ FieldsLT fs gs)
  | _, _ => False

theorem fieldsLT_text {fs gs : List DateField} (h : FieldsLT fs gs) :
    fs.flatMap DateField.text < gs.flatMap DateField.text := by
  induction fs generalizing gs with
  | nil => exact h.elim
  | cons f fs ih =>
      cases gs with
      | nil => exact h.elim
      | cons g gs =>
          obtain ⟨hwidth, hseparator, hvalue, h⟩ := h
          rw [List.flatMap_cons, List.flatMap_cons]
          rcases h with hlt | ⟨heq, hrest⟩
          · refine append_lt_append ?_ (append_lt_append ?_ ?_ _ _) _ _
            · rw [List.length_append, List.length_append, length_pad, length_pad, hwidth]
              rfl
            · rw [length_pad, length_pad, hwidth]
            · rw [hwidth]
              exact pad_lt hlt hvalue
          · have hfield : f = g := by
              cases f
              cases g
              exact congr (congr (congrArg DateField.mk hwidth) heq) hseparator
            rw [hfield]
            exact append_lt_append_left (ih hrest)

/-! ## The ISO text sorts like the dates -/

theorem msInDay_lt (t : ℤ) : msInDay t < 86400000 := by
  unfold msInDay msPerDay
  omega

theorem dayInYear_eq (t : ℤ) : (dayInYear t : ℤ) = dayOf t - dayFromYear (yearOf t) := by
  have := (yearFromDay_spec (dayOf t)).1
  unfold dayInYear yearOf
  omega

theorem dayInYear_lt (t : ℤ) : dayInYear t < if isLeap (yearOf t) then 366 else 365 := by
  have hlast := (yearFromDay_spec (dayOf t)).2
  have hday := dayInYear_eq t
  have hsucc := dayFromYear_succ (yearOf t)
  unfold yearOf at *
  split_ifs with hleap
  · omega
  · have hshort : ¬ dayFromYear (yearFromDay (dayOf t) + 1) - dayFromYear (yearFromDay (dayOf t)) =
        366 := by simpa [isLeap] using hleap
    omega

/-- The month of a day of the year is the one it falls in. -/
theorem monthFromDay_spec :
    ∀ leap : Bool, ∀ d < if leap then 366 else 365,
      monthFromDay leap d < 12 ∧ monthStart leap (monthFromDay leap d) ≤ d ∧
        d < monthStart leap (monthFromDay leap d) + 31 := by
  decide +kernel

theorem monthFromDay_mono (leap : Bool) {d e : ℕ} (h : d ≤ e) :
    monthFromDay leap d ≤ monthFromDay leap e := by
  refine List.Sublist.length_le (List.monotone_filter_right _ fun m hm => ?_)
  have hle : monthEnd leap m ≤ d := of_decide_eq_true hm
  exact decide_eq_true (hle.trans h)

/-- The clock of a day, field by field. -/
theorem fieldsLT_clock {a b : ℕ} (hlt : a < b) (hb : b < 86400000) :
    FieldsLT
      [⟨2, a / 3600000, 58⟩, ⟨2, a / 60000 % 60, 58⟩, ⟨2, a / 1000 % 60, 46⟩, ⟨3, a % 1000, 90⟩]
      [⟨2, b / 3600000, 58⟩, ⟨2, b / 60000 % 60, 58⟩, ⟨2, b / 1000 % 60, 46⟩,
        ⟨3, b % 1000, 90⟩] := by
  simp only [FieldsLT, true_and, and_false, or_false]
  omega

theorem isoText_lt {t u : ℤ} (hlt : t < u) (ht : 0 ≤ yearOf t) (hu : yearOf u ≤ 9999) :
    isoText t < isoText u := by
  have hday : dayOf t ≤ dayOf u := Int.ediv_le_ediv (by decide) hlt.le
  have hyear : yearOf t ≤ yearOf u := yearFromDay_mono hday
  rw [isoText, isoText, if_pos ⟨ht, hyear.trans hu⟩, if_pos ⟨ht.trans hyear, hu⟩]
  refine fieldsLT_text ?_
  simp only [dateFields, FieldsLT, true_and]
  refine ⟨by omega, ?_⟩
  rcases hyear.lt_or_eq with hyear | hyear
  · exact .inl (by omega)
  refine .inr ⟨by rw [hyear], ?_⟩
  -- in one year
  have hspec := monthFromDay_spec (isLeap (yearOf u)) (dayInYear u) (dayInYear_lt u)
  have hspect := monthFromDay_spec (isLeap (yearOf t)) (dayInYear t) (dayInYear_lt t)
  have hdays : dayInYear t ≤ dayInYear u := by
    have := dayInYear_eq t
    have := dayInYear_eq u
    rw [hyear] at *
    omega
  have hmonth : monthOf t ≤ monthOf u := by
    rw [monthOf, monthOf, hyear]
    exact monthFromDay_mono _ hdays
  have hdate : ∀ v, dateOf v = dayInYear v - monthStart (isLeap (yearOf v)) (monthOf v) + 1 :=
    fun _ => rfl
  refine ⟨by rw [monthOf]; omega, ?_⟩
  rcases hmonth.lt_or_eq with hmonth | hmonth
  · exact .inl (by omega)
  refine .inr ⟨by rw [hmonth], by rw [hdate u, monthOf]; omega, ?_⟩
  -- in one month
  rcases hdays.lt_or_eq with hdays | hdays
  · refine .inl ?_
    rw [hdate t, hdate u, hyear, hmonth]
    rw [hyear, show monthFromDay _ (dayInYear t) = monthOf u by rw [← hmonth, monthOf, hyear]] at hspect
    rw [show monthFromDay _ (dayInYear u) = monthOf u from rfl] at hspec
    omega
  refine .inr ⟨by rw [hdate t, hdate u, hyear, hmonth, hdays], ?_⟩
  -- in one day
  have hclock : msInDay t < msInDay u := by
    have hd : dayOf t = dayOf u := by
      have := dayInYear_eq t
      have := dayInYear_eq u
      rw [hyear] at *
      omega
    have := Int.emod_add_mul_ediv t msPerDay
    have := Int.emod_add_mul_ediv u msPerDay
    unfold dayOf msInDay msPerDay at *
    omega
  have hfields := fieldsLT_clock hclock (msInDay_lt u)
  simp only [FieldsLT, true_and] at hfields
  exact hfields

/-- Offsets from UTC in milliseconds: the first one, and the instants at which
it changes, in order. -/
structure Zone where
  initial : ℤ
  transitions : List (ℤ × ℤ)

def Zone.utc : Zone := ⟨0, []⟩

/-- The offset at an instant. -/
def Zone.offset (z : Zone) (t : ℤ) : ℤ :=
  ((z.transitions.filter fun c => c.1 ≤ t).getLast?.map Prod.snd).getD z.initial

def Zone.localTime (z : Zone) (t : ℤ) : ℤ := t + z.offset t

/-- The offset a local time is read with: the one before a change as long as the
clock had not passed the change, or skips the time. -/
def offsetOfLocal (l : ℤ) : ℤ → List (ℤ × ℤ) → ℤ
  | before, [] => before
  | before, (instant, next) :: rest =>
      if l < instant + max before next then before else offsetOfLocal l next rest

def Zone.fromLocal (z : Zone) (l : ℤ) : ℤ := l - offsetOfLocal l z.initial z.transitions

end Shizuha.Js
