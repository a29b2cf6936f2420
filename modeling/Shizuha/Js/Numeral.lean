import Shizuha.Js.Number
import Shizuha.Js.Text
import Mathlib.Data.Nat.Digits.Lemmas
import Mathlib.Tactic.Ring

/-!
# Numbers written as text, and read back

`finiteText` writes a number as the language does: the shortest run of
digits that reads back as the same number, laid out with or without an
exponent according to where its point falls. `readNumber` reads the number at
the head of a text by the grammar of JSON.

`readNumber_finiteText` is the round trip. It asks nothing of the digits but that
they were checked to round to the number before they were chosen, so the
search for the shortest run never has to be proved shortest.
-/

namespace Shizuha.Js

def digitUnit (d : ℕ) : UInt16 := UInt16.ofNat (48 + d)

/-- A natural number in decimal. -/
def decimal (n : ℕ) : Text :=
  if n = 0 then [48] else (Nat.digits 10 n).reverse.map digitUnit

/-- The natural number a run of digits denotes. -/
def digitsVal (ds : Text) : ℕ := ds.foldl (fun n u => 10 * n + (u.toNat - 48)) 0

/-! ## Writing -/

/-- Whether a literal with this exact value denotes the number. -/
def readsAs (x q : ℚ) : Bool := decide (q < overflowBound ∧ roundDouble q = x)

/-- The run of `k` digits nearest `x` that reads back as `x`, if there is
one: the even one of two as near. -/
def candidate (x : ℚ) (k : ℕ) : Option (ℕ × ℤ) :=
  let e := Int.log 10 x + 1 - k
  let f := ⌊x / 10 ^ e⌋₊
  let low := readsAs x (f * 10 ^ e)
  let high := readsAs x ((f + 1 : ℕ) * 10 ^ e)
  if low && high then
    if x / 10 ^ e - f < 1 / 2 then some (f, e)
    else if 1 / 2 < x / 10 ^ e - f then some (f + 1, e)
    else if f % 2 = 0 then some (f, e)
    else some (f + 1, e)
  else if low then some (f, e)
  else if high then some (f + 1, e)
  else none

/-- Digits and exponent for a positive number. Seventeen digits always
suffice; were they not to, the exact expansion would still be right. -/
def decimalOf (x : ℚ) : ℕ × ℤ :=
  match (List.range 17).findSome? (fun i => candidate x (i + 1)) with
  | some d => d
  | none => (⌊x * 10 ^ 1074⌋₊, -1074)

/-- Trailing zeros moved into the exponent. -/
def stripZeros : ℕ → ℕ → ℤ → ℕ × ℤ
  | 0, s, e => (s, e)
  | fuel + 1, s, e =>
      if s % 10 = 0 then stripZeros fuel (s / 10) (e + 1) else (s, e)

def zeros (n : ℕ) : Text := List.replicate n 48

/-- The exponent part for a number whose point falls after `n` digits. -/
def exponentText (n : ℤ) : Text :=
  101 :: (if 0 < n then 43 else 45) :: decimal (n - 1).natAbs

/-- The digits of `s * 10 ^ e`, with the point where the value puts it. -/
def layout (s : ℕ) (e : ℤ) : Text :=
  let ds := decimal s
  let n := ds.length + e
  if 0 ≤ e ∧ n ≤ 21 then ds ++ zeros e.toNat
  else if 0 < n ∧ n ≤ 21 then ds.take n.toNat ++ 46 :: ds.drop n.toNat
  else if -6 < n ∧ n ≤ 0 then 48 :: 46 :: zeros (-n).toNat ++ ds
  else
    (if ds.length = 1 then ds else ds.take 1 ++ 46 :: ds.drop 1) ++ exponentText n

/-- The text of a number with this value. -/
def numeral (x : ℚ) : Text :=
  if x = 0 then [48]
  else
    let d := decimalOf |x|
    let d' := stripZeros d.1 d.1 d.2
    if x < 0 then 45 :: layout d'.1 d'.2 else layout d'.1 d'.2

def finiteText (x : Double) : Text := numeral x.val

/-! ## Reading -/

def readFraction : Text → Option (Text × Text)
  | [] => some ([], [])
  | u :: t =>
      if u = 46 then
        if t.takeWhile isDigit = [] then none
        else some (t.takeWhile isDigit, t.dropWhile isDigit)
      else some ([], u :: t)

def readExponentDigits (negative : Bool) (t : Text) : Option (ℤ × Text) :=
  if t.takeWhile isDigit = [] then none
  else
    let n : ℤ := digitsVal (t.takeWhile isDigit)
    some (if negative then -n else n, t.dropWhile isDigit)

def readSignedDigits : Text → Option (ℤ × Text)
  | [] => none
  | u :: t =>
      if u = 43 then readExponentDigits false t
      else if u = 45 then readExponentDigits true t
      else readExponentDigits false (u :: t)

def readExponent : Text → Option (ℤ × Text)
  | [] => some (0, [])
  | u :: t => if u = 101 ∨ u = 69 then readSignedDigits t else some (0, u :: t)

/-- A number without its sign, as the exact value its text denotes. -/
def readMagnitude (t : Text) : Option (ℚ × Text) :=
  let ds := t.takeWhile isDigit
  if ds = [] ∨ (ds.head? = some 48 ∧ 1 < ds.length) then none
  else
    match readFraction (t.dropWhile isDigit) with
    | none => none
    | some (fs, t) =>
        match readExponent t with
        | none => none
        | some (e, t) => some (((digitsVal (ds ++ fs) : ℕ) : ℚ) * 10 ^ (e - fs.length), t)

/-- The number at the head of a text. -/
def readNumber : Text → Option (Number × Text)
  | [] => none
  | u :: t =>
      if u = 45 then (readMagnitude t).map fun p => ((Number.ofMagnitude p.1).neg, p.2)
      else (readMagnitude (u :: t)).map fun p => (Number.ofMagnitude p.1, p.2)

/-! ## Digits -/

theorem digitUnit_toNat {d : ℕ} (h : d < 10) : (digitUnit d).toNat = 48 + d := by
  rw [digitUnit, UInt16.toNat_ofNat']
  omega

theorem isDigit_digitUnit {d : ℕ} (h : d < 10) : isDigit (digitUnit d) = true := by
  have hn := digitUnit_toNat h
  simp only [isDigit, Bool.and_eq_true, decide_eq_true_eq, UInt16.le_iff_toNat_le]
  rw [hn]
  simp
  omega

theorem digitsVal_append (a b : Text) :
    digitsVal (a ++ b) = digitsVal a * 10 ^ b.length + digitsVal b := by
  have hfold : ∀ (b : Text) (n : ℕ),
      b.foldl (fun n u => 10 * n + (u.toNat - 48)) n = n * 10 ^ b.length + digitsVal b := by
    intro b
    induction b with
    | nil => intro n; simp [digitsVal]
    | cons u s ih =>
        intro n
        rw [digitsVal, List.foldl_cons, List.foldl_cons, ih, ih, List.length_cons, pow_succ]
        ring
  rw [digitsVal, List.foldl_append, hfold]
  rfl

theorem digitsVal_zeros (n : ℕ) : digitsVal (zeros n) = 0 := by
  induction n with
  | zero => rfl
  | succ n ih =>
      rw [zeros, List.replicate_succ', digitsVal_append]
      rw [zeros] at ih
      rw [ih]
      rfl

theorem digitsVal_map_reverse (ds : List ℕ) (h : ∀ d ∈ ds, d < 10) :
    digitsVal (ds.reverse.map digitUnit) = Nat.ofDigits 10 ds := by
  induction ds with
  | nil => rfl
  | cons d ds ih =>
      have hd := digitUnit_toNat (h d (by simp))
      rw [List.reverse_cons, List.map_append, digitsVal_append,
        ih (fun x hx => h x (by simp [hx])), Nat.ofDigits_cons]
      simp only [digitsVal, List.map_cons, List.map_nil, List.foldl_cons, List.foldl_nil,
        List.length_singleton, hd]
      omega

theorem digitsVal_decimal (n : ℕ) : digitsVal (decimal n) = n := by
  rw [decimal]
  split_ifs with h
  · rw [h]
    rfl
  · rw [digitsVal_map_reverse _ (fun d hd => Nat.digits_lt_base (by norm_num) hd),
      Nat.ofDigits_digits]

theorem isDigit_of_mem_decimal {n : ℕ} {u : UInt16} (h : u ∈ decimal n) : isDigit u = true := by
  rw [decimal] at h
  split_ifs at h with hn
  · rw [List.mem_singleton.mp h]
    rfl
  · obtain ⟨d, hd, rfl⟩ := List.mem_map.mp h
    exact isDigit_digitUnit (Nat.digits_lt_base (by norm_num) (List.mem_reverse.mp hd))

theorem isDigit_of_mem_zeros {n : ℕ} {u : UInt16} (h : u ∈ zeros n) : isDigit u = true := by
  rw [(List.mem_replicate.mp h).2]
  rfl

theorem decimal_ne_nil (n : ℕ) : decimal n ≠ [] := by
  rw [decimal]
  split_ifs with h
  · simp
  · have := Nat.digits_ne_nil_iff_ne_zero (b := 10).mpr h
    simpa using this

/-- A positive number's first digit is not a zero. -/
theorem decimal_head_ne {n : ℕ} (h : n ≠ 0) : (decimal n).head? ≠ some 48 := by
  have hne : Nat.digits 10 n ≠ [] := Nat.digits_ne_nil_iff_ne_zero.mpr h
  have hlast := Nat.getLast_digit_ne_zero 10 h
  have hlt : (Nat.digits 10 n).getLast hne < 10 :=
    Nat.digits_lt_base (by norm_num) (List.getLast_mem hne)
  rw [decimal, if_neg h, List.head?_map, List.head?_reverse, List.getLast?_eq_getLast_of_ne_nil hne]
  intro heq
  have hunit : digitUnit ((Nat.digits 10 n).getLast hne) = 48 := by simpa using heq
  have hn := digitUnit_toNat hlt
  rw [hunit] at hn
  have h48 : (48 : UInt16).toNat = 48 := rfl
  omega

/-! ## Reading what was written -/

/-- A text at whose head no numeral goes on. -/
def Stops : Text → Prop
  | [] => True
  | u :: _ => isDigit u = false ∧ u ≠ 46 ∧ u ≠ 101 ∧ u ≠ 69

theorem takeWhile_digits {ds rest : Text} (hds : ∀ u ∈ ds, isDigit u = true)
    (hrest : rest.takeWhile isDigit = []) : (ds ++ rest).takeWhile isDigit = ds := by
  rw [List.takeWhile_append_of_pos hds, hrest, List.append_nil]

theorem dropWhile_digits {ds rest : Text} (hds : ∀ u ∈ ds, isDigit u = true)
    (hrest : rest.takeWhile isDigit = []) : (ds ++ rest).dropWhile isDigit = rest := by
  rw [List.dropWhile_append_of_pos hds]
  cases rest with
  | nil => rfl
  | cons u s =>
      rw [List.takeWhile_cons] at hrest
      split_ifs at hrest with hu
      rw [List.dropWhile_cons_of_neg hu]

theorem Stops.takeWhile {rest : Text} (h : Stops rest) : rest.takeWhile isDigit = [] := by
  cases rest with
  | nil => rfl
  | cons u s => rw [List.takeWhile_cons_of_neg (by simp [h.1])]

theorem Stops.readFraction {rest : Text} (h : Stops rest) :
    readFraction rest = some ([], rest) := by
  cases rest with
  | nil => rfl
  | cons u s => rw [Js.readFraction, if_neg h.2.1]

theorem Stops.readExponent {rest : Text} (h : Stops rest) :
    readExponent rest = some (0, rest) := by
  cases rest with
  | nil => rfl
  | cons u s => rw [Js.readExponent, if_neg (by rintro (he | he); exacts [h.2.2.1 he, h.2.2.2 he])]

/-- Reading a magnitude whose three parts are known. -/
theorem readMagnitude_parts (ds fs tail tail' : Text) {rest : Text} {e : ℤ}
    (hds : ∀ u ∈ ds, isDigit u = true) (hne : ds ≠ [])
    (hzero : ds.head? = some 48 → ds.length = 1)
    (hstop : tail.takeWhile isDigit = [])
    (hfrac : readFraction tail = some (fs, tail'))
    (hexp : readExponent tail' = some (e, rest)) :
    readMagnitude (ds ++ tail) =
      some (((digitsVal (ds ++ fs) : ℕ) : ℚ) * 10 ^ (e - fs.length), rest) := by
  have hguard : ¬ (ds = [] ∨ (ds.head? = some 48 ∧ 1 < ds.length)) := by
    rintro (h | ⟨h0, h1⟩)
    · exact hne h
    · exact absurd (hzero h0) (by omega)
  rw [readMagnitude, takeWhile_digits hds hstop, dropWhile_digits hds hstop, if_neg hguard,
    hfrac]
  simp only [hexp]

theorem readFraction_digits {fs rest : Text} (hfs : ∀ u ∈ fs, isDigit u = true)
    (hne : fs ≠ []) (hrest : rest.takeWhile isDigit = []) :
    readFraction (46 :: (fs ++ rest)) = some (fs, rest) := by
  rw [readFraction, if_pos rfl, takeWhile_digits hfs hrest, dropWhile_digits hfs hrest,
    if_neg hne]

theorem readExponent_written {n : ℤ} {rest : Text} (h : Stops rest) :
    readExponent (exponentText n ++ rest) = some (n - 1, rest) := by
  have hall : ∀ u ∈ decimal (n - 1).natAbs, isDigit u = true :=
    fun u hu => isDigit_of_mem_decimal hu
  have hdig : ∀ negative : Bool,
      readExponentDigits negative (decimal (n - 1).natAbs ++ rest) =
        some (if negative then -((n - 1).natAbs : ℤ) else (n - 1).natAbs, rest) := by
    intro negative
    rw [readExponentDigits, takeWhile_digits hall h.takeWhile,
      dropWhile_digits hall h.takeWhile, if_neg (decimal_ne_nil _), digitsVal_decimal]
  rw [exponentText, List.cons_append, List.cons_append, readExponent, if_pos (Or.inl rfl),
    readSignedDigits]
  by_cases hn : 0 < n
  · rw [if_pos hn, if_pos rfl, hdig]
    simp only [Bool.false_eq_true, if_false]
    congr 2
    omega
  · rw [if_neg hn, if_neg (by decide), if_pos rfl, hdig]
    simp only [if_true]
    congr 2
    omega

/-- Every layout of `s * 10 ^ e` reads back as that value. -/
theorem readMagnitude_layout {s : ℕ} {e : ℤ} {rest : Text} (hs : s ≠ 0) (h : Stops rest) :
    readMagnitude (layout s e ++ rest) = some ((s : ℚ) * 10 ^ e, rest) := by
  have hall : ∀ u ∈ decimal s, isDigit u = true := fun u hu => isDigit_of_mem_decimal hu
  have hlen : 0 < (decimal s).length := List.length_pos_of_ne_nil (decimal_ne_nil s)
  have hhead := decimal_head_ne hs
  have hval := digitsVal_decimal s
  rw [layout]
  generalize decimal s = ds at hall hlen hhead hval ⊢
  have hnil : ds ≠ [] := List.length_pos_iff.mp hlen
  split_ifs with h1 h2 h3 h4
  · -- An integer, with its zeros written out.
    rw [readMagnitude_parts (ds ++ zeros e.toNat) [] rest rest _ _ _ h.takeWhile h.readFraction
      h.readExponent]
    · rw [List.append_nil, digitsVal_append, digitsVal_zeros, hval, zeros,
        List.length_replicate]
      obtain ⟨k, rfl⟩ : ∃ k : ℕ, e = k := ⟨e.toNat, by omega⟩
      simp
    · intro u hu
      rcases List.mem_append.mp hu with hu | hu
      · exact hall u hu
      · exact isDigit_of_mem_zeros hu
    · simp [hnil]
    · intro h0
      rw [List.head?_append_of_ne_nil _ hnil] at h0
      exact absurd h0 hhead
  · -- The point falls inside the digits.
    have hk : 0 < ((ds.length : ℤ) + e).toNat ∧ ((ds.length : ℤ) + e).toNat < ds.length := by
      omega
    have he : e = (((ds.length : ℤ) + e).toNat : ℤ) - ds.length := by omega
    generalize ((ds.length : ℤ) + e).toNat = k at hk he ⊢
    have hdrop : ds.drop k ≠ [] := by simp; omega
    have htake : ds.take k ≠ [] := by simp [hnil]; omega
    rw [List.append_assoc, List.cons_append,
      readMagnitude_parts (ds.take k) (ds.drop k) (46 :: (ds.drop k ++ rest)) rest
      (fun u hu => hall u (List.mem_of_mem_take hu)) htake _ (by rfl)
      (readFraction_digits (fun u hu => hall u (List.mem_of_mem_drop hu)) hdrop h.takeWhile)
      h.readExponent]
    · rw [List.take_append_drop, hval, List.length_drop,
        show (0 : ℤ) - ((ds.length - k : ℕ) : ℤ) = e by omega]
    · intro h0
      rw [List.head?_take, if_neg (by omega)] at h0
      exact absurd h0 hhead
  · -- The point falls before the digits.
    have he : e = -(((-((ds.length : ℤ) + e)).toNat : ℤ) + ds.length) := by omega
    generalize (-((ds.length : ℤ) + e)).toNat = k at he ⊢
    have hfs : ∀ u ∈ zeros k ++ ds, isDigit u = true := by
      intro u hu
      rcases List.mem_append.mp hu with hu | hu
      · exact isDigit_of_mem_zeros hu
      · exact hall u hu
    have hread := readMagnitude_parts [48] (zeros k ++ ds) (46 :: (zeros k ++ ds ++ rest)) rest
      (by intro u hu; rw [List.mem_singleton.mp hu]; rfl) (by simp) (fun _ => rfl) (by rfl)
      (readFraction_digits hfs (by simp [hnil]) h.takeWhile) h.readExponent
    have hzero : digitsVal ([48] ++ (zeros k ++ ds)) = s := by
      rw [digitsVal_append, digitsVal_append, digitsVal_zeros, hval]
      simp [digitsVal]
    rw [hzero] at hread
    rw [show 48 :: 46 :: zeros k ++ ds ++ rest = [48] ++ 46 :: (zeros k ++ ds ++ rest) by simp,
      hread, List.length_append, zeros, List.length_replicate,
      show (0 : ℤ) - ((k + ds.length : ℕ) : ℤ) = e by omega]
  · -- One digit and an exponent.
    have hstop : ∀ t : Text, (exponentText (ds.length + e) ++ t).takeWhile isDigit = [] :=
      fun t => rfl
    rw [List.append_assoc, readMagnitude_parts ds [] _ _ hall hnil (fun _ => h4) (hstop _) rfl
      (readExponent_written h), List.append_nil, hval, h4]
    congr 3
    simp
  · -- Several digits and an exponent.
    have hdrop : ds.drop 1 ≠ [] := by rw [ne_eq, List.drop_eq_nil_iff]; omega
    have htake : ds.take 1 ≠ [] := by simp [hnil]
    have hstop : ∀ t : Text, (exponentText (ds.length + e) ++ t).takeWhile isDigit = [] :=
      fun t => rfl
    rw [List.append_assoc, List.append_assoc, List.cons_append,
      readMagnitude_parts (ds.take 1) (ds.drop 1) _ _
        (fun u hu => hall u (List.mem_of_mem_take hu)) htake
        (fun _ => by rw [List.length_take]; omega) (by rfl)
        (readFraction_digits (fun u hu => hall u (List.mem_of_mem_drop hu)) hdrop (hstop _))
        (readExponent_written h),
      List.take_append_drop, hval, List.length_drop,
      show (ds.length : ℤ) + e - 1 - ((ds.length - 1 : ℕ) : ℤ) = e by omega]

/-! ## The digits chosen read back as the number -/

theorem candidate_spec {x : ℚ} {k : ℕ} {d : ℕ × ℤ} (h : candidate x k = some d) :
    readsAs x ((d.1 : ℚ) * 10 ^ d.2) = true := by
  simp only [candidate, Bool.and_eq_true] at h
  split_ifs at h with h1 h2 h3 h4 h5 h6 <;> obtain rfl := Option.some.inj h
  · exact h1.1
  · exact h1.2
  · exact h1.1
  · exact h1.2
  · exact h5
  · exact h6

/-- A number is a multiple of the smallest subnormal, so the exact expansion
ends by the 1074th place. -/
theorem exact_expansion {x : ℚ} {n : ℕ} (hx : 0 ≤ x) (hd : roundDouble x = x)
    (hn : -(n : ℤ) ≤ lastPlace x) :
    ((⌊x * 10 ^ n⌋₊ : ℕ) : ℚ) * 10 ^ (-(n : ℤ)) = x := by
  obtain ⟨j, hj⟩ : ∃ j : ℕ, lastPlace x + n = j := ⟨(lastPlace x + n).toNat, by omega⟩
  have hint : x * 10 ^ n = ((roundEven (x / 2 ^ lastPlace x) * 2 ^ j * 5 ^ n : ℤ) : ℚ) := by
    have hpow : (2 : ℚ) ^ lastPlace x * 2 ^ n = 2 ^ j := by
      rw [← zpow_natCast, ← zpow_natCast, ← zpow_add₀ (by norm_num), hj]
    calc x * 10 ^ n = roundEven (x / 2 ^ lastPlace x) * 2 ^ lastPlace x * (2 ^ n * 5 ^ n) := by
            rw [← mul_pow, show (2 : ℚ) * 5 = 10 by norm_num]
            exact congrArg (· * (10 : ℚ) ^ n) hd.symm
      _ = roundEven (x / 2 ^ lastPlace x) * (2 ^ lastPlace x * 2 ^ n) * 5 ^ n := by ring
      _ = _ := by
            rw [hpow]
            push_cast
            rfl
  obtain ⟨m, hm⟩ : ∃ m : ℕ, x * 10 ^ n = m := by
    have hnonneg : (0 : ℤ) ≤ roundEven (x / 2 ^ lastPlace x) * 2 ^ j * 5 ^ n := by
      have : 0 ≤ x * 10 ^ n := by positivity
      rw [hint] at this
      exact_mod_cast this
    obtain ⟨m, hm⟩ := Int.eq_ofNat_of_zero_le hnonneg
    exact ⟨m, by rw [hint, hm, Int.cast_natCast]⟩
  rw [hm, Nat.floor_natCast, ← hm, mul_assoc, zpow_neg, zpow_natCast,
    mul_inv_cancel₀ (by positivity), mul_one]

theorem decimalOf_spec {x : ℚ} (hx : 0 < x) (hd : IsDouble x) :
    readsAs x (((decimalOf x).1 : ℚ) * 10 ^ (decimalOf x).2) = true := by
  rw [decimalOf]
  split
  · next d hd =>
    obtain ⟨i, -, hi⟩ := List.exists_of_findSome?_eq_some hd
    exact candidate_spec hi
  · rw [IsDouble, abs_of_pos hx] at hd
    have hexact := exact_expansion (n := 1074) hx.le hd.2 (le_max_left _ _)
    calc readsAs x _ = readsAs x x := congrArg (readsAs x) hexact
      _ = true := decide_eq_true hd

theorem stripZeros_spec (fuel s : ℕ) (e : ℤ) :
    ((stripZeros fuel s e).1 : ℚ) * 10 ^ (stripZeros fuel s e).2 = s * 10 ^ e := by
  induction fuel generalizing s e with
  | zero => rfl
  | succ fuel ih =>
      rw [stripZeros]
      split_ifs with h
      · rw [ih, zpow_add₀ (by norm_num), zpow_one]
        have hs : ((s / 10 : ℕ) : ℚ) * 10 = s := by
          exact_mod_cast Nat.div_mul_cancel (Nat.dvd_of_mod_eq_zero h)
        calc ((s / 10 : ℕ) : ℚ) * (10 ^ e * 10) = ((s / 10 : ℕ) : ℚ) * 10 * 10 ^ e := by ring
          _ = s * 10 ^ e := by rw [hs]
      · rfl

/-- Reading back the text of a positive number. -/
theorem readMagnitude_written {x : ℚ} {rest : Text} (hx : 0 < x) (hd : IsDouble x)
    (h : Stops rest) :
    ∃ y, readMagnitude (layout (stripZeros (decimalOf x).1 (decimalOf x).1 (decimalOf x).2).1
        (stripZeros (decimalOf x).1 (decimalOf x).1 (decimalOf x).2).2 ++ rest) = some (y, rest) ∧
      Number.ofMagnitude y = .finite ⟨x, hd⟩ := by
  have hdec := decimalOf_spec hx hd
  rw [← stripZeros_spec (decimalOf x).1] at hdec
  generalize stripZeros (decimalOf x).1 (decimalOf x).1 (decimalOf x).2 = d at hdec ⊢
  obtain ⟨hlt, hround⟩ := of_decide_eq_true hdec
  have hne : d.1 ≠ 0 := by
    intro h0
    rw [h0, Nat.cast_zero, zero_mul] at hround
    have hzero : roundDouble 0 = 0 := by simp [roundDouble, roundEven]
    exact absurd (hzero.symm.trans hround) (ne_of_lt hx)
  exact ⟨_, readMagnitude_layout hne h, Number.ofMagnitude_eq (by positivity) hlt hround⟩

theorem head_layout (s : ℕ) (e : ℤ) : ∃ u t, layout s e = u :: t ∧ isDigit u = true := by
  obtain ⟨u, t, hut⟩ := List.exists_cons_of_ne_nil (decimal_ne_nil s)
  have hu : isDigit u = true := isDigit_of_mem_decimal (n := s) (by simp [hut])
  rw [layout, hut]
  split_ifs with h1 h2 h3 h4
  · exact ⟨u, _, rfl, hu⟩
  · obtain ⟨k, hk⟩ : ∃ k, (((u :: t).length : ℤ) + e).toNat = k + 1 :=
      ⟨(((u :: t).length : ℤ) + e).toNat - 1, by omega⟩
    rw [hk, List.take_succ_cons]
    exact ⟨u, _, rfl, hu⟩
  · exact ⟨48, _, rfl, rfl⟩
  · exact ⟨u, _, rfl, hu⟩
  · exact ⟨u, _, rfl, hu⟩

/-- The round trip: the text of a number reads back as the number, whatever
follows it. -/
theorem readNumber_finiteText (x : Double) {rest : Text} (h : Stops rest) :
    readNumber (finiteText x ++ rest) = some (.finite x, rest) := by
  obtain ⟨x, hd⟩ := x
  have hminus : ∀ {u : UInt16}, isDigit u = true → u ≠ 45 := by
    rintro u hu rfl
    exact absurd hu (by decide)
  rcases lt_trichotomy x 0 with hneg | rfl | hpos
  · obtain ⟨y, hread, hy⟩ := readMagnitude_written (neg_pos.mpr hneg) (isDouble_neg.mpr hd) h
    rw [finiteText, numeral, if_neg hneg.ne, if_pos hneg, abs_of_neg hneg, List.cons_append, readNumber,
      if_pos rfl, hread, Option.map_some, hy, Number.neg]
    simp [Double.neg]
  · have hread : readMagnitude ([48] ++ rest) = some (0, rest) := by
      rw [readMagnitude_parts [48] [] rest rest
        (by intro u hu; rw [List.mem_singleton.mp hu]; rfl) (by simp) (fun _ => rfl)
        h.takeWhile h.readFraction h.readExponent]
      simp [digitsVal]
    have hzero : Number.ofMagnitude 0 = .finite ⟨0, hd⟩ :=
      Number.ofMagnitude_eq le_rfl (by rw [overflowBound]; positivity)
        (by simp [roundDouble, roundEven])
    rw [finiteText, numeral, if_pos rfl, List.singleton_append, readNumber, if_neg (by decide),
      ← List.singleton_append, hread, Option.map_some, hzero]
  · obtain ⟨y, hread, hy⟩ := readMagnitude_written hpos hd h
    obtain ⟨u, t, hut, hu⟩ := head_layout
      (stripZeros (decimalOf x).1 (decimalOf x).1 (decimalOf x).2).1
      (stripZeros (decimalOf x).1 (decimalOf x).1 (decimalOf x).2).2
    rw [hut, List.cons_append] at hread
    rw [finiteText, numeral, if_neg hpos.ne', if_neg hpos.le.not_gt, abs_of_pos hpos, hut,
      List.cons_append, readNumber, if_neg (hminus hu), hread, Option.map_some, hy]

end Shizuha.Js
