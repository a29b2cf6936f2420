import Mathlib.Order.Bounds.Basic
import Shizuha.Cron.Schedule
import Shizuha.Js.RegexLanguage
import Shizuha.Proofs.CronProgress

/-!
# What a cron field admits

A part of a field is a star, a number, a range, or a step over a star or over a
range; a field is a list of parts. A part of any other form counts for the
number it begins with, if it begins with one. `matchCronPart` reads a part with
two patterns and `parseInt`, and agrees (`matchCronPart_iff`).
-/

namespace Shizuha.Cron

open Js Regex

variable {part ls hs es s : Text} {c d : Cursor} {group : ℕ} {min max value : ℕ}

/-- A number as it is written. -/
def IsNumber (ds : Text) : Prop := ds ≠ [] ∧ ∀ u ∈ ds, isDigit u = true

def IsRange (part ls hs : Text) : Prop :=
  IsNumber ls ∧ IsNumber hs ∧ part = ls ++ js "-" ++ hs

def IsStarStep (part es : Text) : Prop := IsNumber es ∧ part = js "*/" ++ es

def IsRangeStep (part ls hs es : Text) : Prop :=
  IsNumber es ∧ ∃ range, IsRange range ls hs ∧ part = range ++ js "/" ++ es

/-- None of the forms a part should have. -/
def Malformed (part : Text) : Prop :=
  part ≠ js "*" ∧ ¬ IsNumber part ∧ (∀ ls hs, ¬ IsRange part ls hs) ∧
    (∀ es, ¬ IsStarStep part es) ∧ ∀ ls hs es, ¬ IsRangeStep part ls hs es

/-- Every `step`th value from `lo` to `hi`. No value is in step with 0. -/
def InStep (lo hi step value : ℕ) : Prop :=
  lo ≤ value ∧ value ≤ hi ∧ step ≠ 0 ∧ step ∣ value - lo

/-- What a part of a field whose values go from `min` to `max` admits. -/
inductive PartAdmits (min max : ℕ) (part : Text) (value : ℕ) : Prop where
  | star (h : part = js "*")
  | number (h : IsNumber part) (hvalue : value = digitsVal part)
  | range {ls hs : Text} (h : IsRange part ls hs)
      (hvalue : digitsVal ls ≤ value ∧ value ≤ digitsVal hs)
  | starStep {es : Text} (h : IsStarStep part es) (hvalue : InStep min max (digitsVal es) value)
  | rangeStep {ls hs es : Text} (h : IsRangeStep part ls hs es)
      (hvalue : InStep (digitsVal ls) (digitsVal hs) (digitsVal es) value)
  | malformed (h : Malformed part) (hvalue : parseIntPrefix part = some value)

def FieldAdmits (min max : ℕ) (field : Text) (value : ℕ) : Prop :=
  ∃ part ∈ splitComma field, PartAdmits min max part value

/-! ## The forms exclude one another -/

theorem IsNumber.takeWhile (h : IsNumber ls) {rest : Text} (hrest : rest.takeWhile isDigit = []) :
    (ls ++ rest).takeWhile isDigit = ls := takeWhile_digits h.2 hrest

theorem IsNumber.dropWhile (h : IsNumber ls) {rest : Text} (hrest : rest.takeWhile isDigit = []) :
    (ls ++ rest).dropWhile isDigit = rest := dropWhile_digits h.2 hrest

theorem takeWhile_dash (rest : Text) : (js "-" ++ rest).takeWhile isDigit = [] := rfl

theorem takeWhile_slash (rest : Text) : (js "/" ++ rest).takeWhile isDigit = [] := rfl

theorem IsNumber.cut {ls' r r' : Text} (h : IsNumber ls) (h' : IsNumber ls')
    (hr : r.takeWhile isDigit = []) (hr' : r'.takeWhile isDigit = []) (heq : ls ++ r = ls' ++ r') :
    ls = ls' ∧ r = r' := by
  constructor
  · rw [← h.takeWhile hr, heq, h'.takeWhile hr']
  · rw [← h.dropWhile hr, heq, h'.dropWhile hr']

/-- The forms differ in the separators they have: a star, a dash, a slash. -/
theorem IsNumber.free (h : IsNumber part) : 42 ∉ part ∧ 45 ∉ part ∧ 47 ∉ part :=
  ⟨fun hmem => absurd (h.2 42 hmem) (by decide), fun hmem => absurd (h.2 45 hmem) (by decide),
    fun hmem => absurd (h.2 47 hmem) (by decide)⟩

theorem IsRange.free (h : IsRange part ls hs) : 42 ∉ part ∧ 45 ∈ part ∧ 47 ∉ part := by
  obtain ⟨hls, hhs, rfl⟩ := h
  have hdash : js "-" = [45] := rfl
  rw [hdash]
  simp [hls.free, hhs.free]

theorem IsStarStep.free (h : IsStarStep part es) : 42 ∈ part ∧ 47 ∈ part := by
  obtain ⟨-, rfl⟩ := h
  have hstep : js "*/" = [42, 47] := rfl
  rw [hstep]
  simp

theorem IsRangeStep.free (h : IsRangeStep part ls hs es) : 42 ∉ part ∧ 47 ∈ part := by
  obtain ⟨hes, range, hrange, rfl⟩ := h
  have hslash : js "/" = [47] := rfl
  rw [hslash]
  simp [hrange.free, hes.free]

/-! ## The patterns -/

/-- A number, captured or not. -/
theorem mem_run_number (k : ℕ) :
    d ∈ (if group = k then Regex.capture (plus digit) else plus digit).run c ↔
      ∃ ds, IsNumber ds ∧ c.right = ds ++ d.right ∧
        d = ⟨ds.reverse ++ c.left, d.right, if group = k then some ds else c.group⟩ := by
  simp only [IsNumber, and_assoc]
  by_cases hk : group = k
  · simp only [hk, if_true]
    exact mem_run_capture_plus_unit
  · simp only [hk, if_false]
    exact mem_run_plus_unit

/-- What follows the start of the pattern of a range. -/
def rangeBody (group : ℕ) : Regex :=
  cat [if group = 1 then .capture (plus digit) else plus digit, lit (js "-"),
    if group = 2 then .capture (plus digit) else plus digit, .eos]

theorem mem_run_rangeBody : d ∈ (rangeBody group).run ⟨[], s, none⟩ ↔
    ∃ ls hs, IsRange s ls hs ∧ d = ⟨s.reverse, [],
      if group = 2 then some hs else if group = 1 then some ls else none⟩ := by
  simp only [rangeBody, cat, mem_run_seq, mem_run_number, mem_run_lit, mem_run_eos]
  constructor
  · rintro ⟨c₁, ⟨ls, hls, hright₁, h₁⟩, c₂, ⟨hright₂, h₂⟩, c₃, ⟨hs, hhs, hright₃, h₃⟩, hnil, rfl⟩
    have htext : s = ls ++ js "-" ++ hs := by
      rw [hright₁, hright₂, hright₃, hnil, List.append_nil, List.append_assoc]
    refine ⟨ls, hs, ⟨hls, hhs, htext⟩, ?_⟩
    rw [h₃, h₂, h₁, hnil, htext]
    simp
  · rintro ⟨ls, hs, ⟨hls, hhs, rfl⟩, rfl⟩
    refine ⟨⟨ls.reverse, js "-" ++ hs, if group = 1 then some ls else none⟩,
      ⟨ls, hls, by simp, by simp⟩,
      ⟨(js "-").reverse ++ ls.reverse, hs, if group = 1 then some ls else none⟩,
      ⟨rfl, rfl⟩, _, ⟨hs, hhs, ?_, ?_⟩, ?_, rfl⟩
    all_goals simp

theorem starSlash : js "*/" = js "*" ++ js "/" := rfl

/-- What follows the start of the pattern of a step. -/
def stepBody (group : ℕ) : Regex :=
  cat [.alt (lit (js "*"))
      (cat [if group = 2 then .capture (plus digit) else plus digit, lit (js "-"),
        if group = 3 then .capture (plus digit) else plus digit]),
    lit (js "/"), if group = 4 then .capture (plus digit) else plus digit, .eos]

theorem mem_run_stepBody : d ∈ (stepBody group).run ⟨[], s, none⟩ ↔
    (∃ es, IsStarStep s es ∧ d = ⟨s.reverse, [], if group = 4 then some es else none⟩) ∨
    ∃ ls hs es, IsRangeStep s ls hs es ∧ d = ⟨s.reverse, [],
      if group = 4 then some es else if group = 3 then some hs
      else if group = 2 then some ls else none⟩ := by
  simp only [stepBody, cat, mem_run_seq, mem_run_alt, mem_run_number, mem_run_lit, mem_run_eos]
  constructor
  · rintro ⟨c₁, ⟨hright₁, h₁⟩ | ⟨e₁, ⟨ls, hls, hl₁, he₁⟩, e₂, ⟨hl₂, he₂⟩, hs, hhs, hright₁, h₁⟩,
      c₂, ⟨hright₂, h₂⟩, c₃, ⟨es, hes, hright₃, h₃⟩, hnil, rfl⟩
    · have htext : s = js "*/" ++ es := by
        rw [hright₁, hright₂, hright₃, hnil, List.append_nil]
        rfl
      refine .inl ⟨es, ⟨hes, htext⟩, ?_⟩
      rw [h₃, h₂, h₁, hnil, htext, starSlash]
      simp
    · have htext : s = ls ++ js "-" ++ hs ++ js "/" ++ es := by
        rw [hl₁, hl₂, hright₁, hright₂, hright₃, hnil, List.append_nil]
        simp
      refine .inr ⟨ls, hs, es, ⟨hes, _, ⟨hls, hhs, rfl⟩, htext⟩, ?_⟩
      rw [h₃, h₂, h₁, he₂, he₁, hnil, htext]
      simp
  · rintro (⟨es, ⟨hes, rfl⟩, rfl⟩ | ⟨ls, hs, es, ⟨hes, range, ⟨hls, hhs, rfl⟩, rfl⟩, rfl⟩)
    · refine ⟨⟨(js "*").reverse, js "/" ++ es, none⟩, .inl ⟨rfl, rfl⟩,
        ⟨(js "/").reverse ++ (js "*").reverse, es, none⟩, ⟨rfl, rfl⟩, _, ⟨es, hes, ?_, ?_⟩, ?_, rfl⟩
      all_goals simp [starSlash]
    · refine ⟨⟨hs.reverse ++ ((js "-").reverse ++ ls.reverse), js "/" ++ es,
          if group = 3 then some hs else if group = 2 then some ls else none⟩,
        .inr ⟨⟨ls.reverse, js "-" ++ (hs ++ (js "/" ++ es)), if group = 2 then some ls else none⟩,
          ⟨ls, hls, ?_, ?_⟩,
          ⟨(js "-").reverse ++ ls.reverse, hs ++ (js "/" ++ es), if group = 2 then some ls else none⟩,
          ⟨rfl, rfl⟩, hs, hhs, rfl, rfl⟩,
        ⟨(js "/").reverse ++ (hs.reverse ++ ((js "-").reverse ++ ls.reverse)), es,
          if group = 3 then some hs else if group = 2 then some ls else none⟩, ⟨rfl, rfl⟩,
        _, ⟨es, hes, ?_, ?_⟩, ?_, rfl⟩
      all_goals simp

/-! ## The decompositions are unique -/

theorem IsRange.unique {ls' hs' : Text} (h : IsRange part ls hs) (h' : IsRange part ls' hs') :
    ls = ls' ∧ hs = hs' := by
  obtain ⟨hls, -, rfl⟩ := h
  obtain ⟨hls', -, heq⟩ := h'
  rw [List.append_assoc, List.append_assoc] at heq
  obtain ⟨hl, hr⟩ := hls.cut hls' (takeWhile_dash _) (takeWhile_dash _) heq
  exact ⟨hl, List.append_cancel_left hr⟩

theorem IsStarStep.unique {es' : Text} (h : IsStarStep part es) (h' : IsStarStep part es') :
    es = es' := by
  obtain ⟨-, rfl⟩ := h
  exact List.append_cancel_left h'.2

theorem IsRangeStep.unique {ls' hs' es' : Text} (h : IsRangeStep part ls hs es)
    (h' : IsRangeStep part ls' hs' es') : ls = ls' ∧ hs = hs' ∧ es = es' := by
  obtain ⟨-, range, ⟨hls, hhs, rfl⟩, rfl⟩ := h
  obtain ⟨-, range', ⟨hls', hhs', rfl⟩, heq⟩ := h'
  simp only [List.append_assoc] at heq
  obtain ⟨hl, hr⟩ := hls.cut hls' (takeWhile_dash _) (takeWhile_dash _) heq
  obtain ⟨hh, hrest⟩ := hhs.cut hhs' (takeWhile_slash _) (takeWhile_slash _)
    (List.append_cancel_left hr)
  exact ⟨hl, hh, List.append_cancel_left hrest⟩

theorem IsStarStep.not_rangeStep (h : IsStarStep part es) {es' : Text} :
    ¬ IsRangeStep part ls hs es' := fun h' => h'.free.1 h.free.1

/-! ## The groups -/

theorem test_rangePattern :
    (rangePattern 0).test s = true ↔ ∃ ls hs, IsRange s ls hs := by
  have hbody : rangePattern 0 = .seq .bos (rangeBody 0) := rfl
  rw [hbody, Regex.test, Option.isSome_iff_exists]
  constructor
  · rintro ⟨m, hm⟩
    by_contra hnot
    rw [exec_bos_none fun d hd => hnot ?_] at hm
    · cases hm
    · obtain ⟨ls, hs, h, -⟩ := mem_run_rangeBody.mp hd
      exact ⟨ls, hs, h⟩
  · rintro ⟨ls, hs, h⟩
    have hends : ∀ e ∈ (rangeBody 0).run ⟨[], s, none⟩, e.group = none := by
      intro e he
      obtain ⟨ls, hs, -, rfl⟩ := mem_run_rangeBody.mp he
      rfl
    obtain ⟨m, hm, -⟩ := exec_bos_some (mem_run_rangeBody.mpr ⟨ls, hs, h, rfl⟩) hends
    exact ⟨m, hm⟩

theorem groupOf_rangePattern (h : IsRange s ls hs) (hgroup : group = 1 ∨ group = 2) :
    groupOf (rangePattern group) s = some (digitsVal (if group = 1 then ls else hs)) := by
  obtain ⟨m, hm, hcaptured⟩ := exec_bos_some (mem_run_rangeBody.mpr ⟨ls, hs, h, rfl⟩)
    fun e he => by
      obtain ⟨ls', hs', h', rfl⟩ := mem_run_rangeBody.mp he
      obtain ⟨rfl, rfl⟩ := h.unique h'
      rfl
  have hbody : rangePattern group = .seq .bos (rangeBody group) := rfl
  rw [groupOf, hbody, hm, Option.bind_some, hcaptured]
  rcases hgroup with rfl | rfl <;> rfl

theorem test_stepPattern : (stepPattern 0).test s = true ↔
    (∃ es, IsStarStep s es) ∨ ∃ ls hs es, IsRangeStep s ls hs es := by
  have hbody : stepPattern 0 = .seq .bos (stepBody 0) := rfl
  rw [hbody, Regex.test, Option.isSome_iff_exists]
  constructor
  · rintro ⟨m, hm⟩
    by_contra hnot
    rw [exec_bos_none fun d hd => hnot ?_] at hm
    · cases hm
    · obtain ⟨es, h, -⟩ | ⟨ls, hs, es, h, -⟩ := mem_run_stepBody.mp hd
      · exact .inl ⟨es, h⟩
      · exact .inr ⟨ls, hs, es, h⟩
  · intro h
    have hends : ∀ e ∈ (stepBody 0).run ⟨[], s, none⟩, e.group = none := by
      intro e he
      obtain ⟨es, -, rfl⟩ | ⟨ls, hs, es, -, rfl⟩ := mem_run_stepBody.mp he <;> rfl
    obtain ⟨es, h⟩ | ⟨ls, hs, es, h⟩ := h
    · obtain ⟨m, hm, -⟩ := exec_bos_some (mem_run_stepBody.mpr (.inl ⟨es, h, rfl⟩)) hends
      exact ⟨m, hm⟩
    · obtain ⟨m, hm, -⟩ := exec_bos_some (mem_run_stepBody.mpr (.inr ⟨ls, hs, es, h, rfl⟩)) hends
      exact ⟨m, hm⟩

theorem groupOf_stepPattern_star (h : IsStarStep s es) :
    groupOf (stepPattern group) s = if group = 4 then some (digitsVal es) else none := by
  obtain ⟨m, hm, hcaptured⟩ := exec_bos_some (mem_run_stepBody.mpr (.inl ⟨es, h, rfl⟩))
    fun e he => by
      obtain ⟨es', h', rfl⟩ | ⟨ls', hs', es', h', -⟩ := mem_run_stepBody.mp he
      · obtain rfl := h.unique h'
        rfl
      · exact absurd h' h.not_rangeStep
  have hbody : stepPattern group = .seq .bos (stepBody group) := rfl
  rw [groupOf, hbody, hm, Option.bind_some, hcaptured]
  split_ifs <;> rfl

theorem groupOf_stepPattern_range (h : IsRangeStep s ls hs es) :
    groupOf (stepPattern group) s =
      if group = 4 then some (digitsVal es) else if group = 3 then some (digitsVal hs)
      else if group = 2 then some (digitsVal ls) else none := by
  obtain ⟨m, hm, hcaptured⟩ := exec_bos_some (mem_run_stepBody.mpr (.inr ⟨ls, hs, es, h, rfl⟩))
    fun e he => by
      obtain ⟨es', h', -⟩ | ⟨ls', hs', es', h', rfl⟩ := mem_run_stepBody.mp he
      · exact absurd h h'.not_rangeStep
      · obtain ⟨rfl, rfl, rfl⟩ := h.unique h'
        rfl
  have hbody : stepPattern group = .seq .bos (stepBody group) := rfl
  rw [groupOf, hbody, hm, Option.bind_some, hcaptured]
  split_ifs <;> rfl

/-! ## One form at a time -/

theorem partAdmits_starStep (h : IsStarStep part es) :
    PartAdmits min max part value ↔ InStep min max (digitsVal es) value := by
  constructor
  · intro hadmits
    cases hadmits with
    | star hstar => exact absurd (hstar ▸ h.free.2) (by decide)
    | number hnumber => exact absurd h.free.1 hnumber.free.1
    | range hrange => exact absurd h.free.1 hrange.free.1
    | starStep h' hvalue => rwa [h.unique h']
    | rangeStep h' => exact absurd h' h.not_rangeStep
    | malformed hmalformed => exact absurd h (hmalformed.2.2.2.1 es)
  · exact .starStep h

theorem partAdmits_rangeStep (h : IsRangeStep part ls hs es) :
    PartAdmits min max part value ↔
      InStep (digitsVal ls) (digitsVal hs) (digitsVal es) value := by
  constructor
  · intro hadmits
    cases hadmits with
    | star hstar => exact absurd (hstar ▸ h.free.2) (by decide)
    | number hnumber => exact absurd h.free.2 hnumber.free.2.2
    | range hrange => exact absurd h.free.2 hrange.free.2.2
    | starStep h' => exact absurd h h'.not_rangeStep
    | rangeStep h' hvalue =>
        obtain ⟨rfl, rfl, rfl⟩ := h.unique h'
        exact hvalue
    | malformed hmalformed => exact absurd h (hmalformed.2.2.2.2 ls hs es)
  · exact .rangeStep h

theorem partAdmits_range (h : IsRange part ls hs) :
    PartAdmits min max part value ↔ digitsVal ls ≤ value ∧ value ≤ digitsVal hs := by
  constructor
  · intro hadmits
    cases hadmits with
    | star hstar => exact absurd (hstar ▸ h.free.2.1) (by decide)
    | number hnumber => exact absurd h.free.2.1 hnumber.free.2.1
    | range h' hvalue =>
        obtain ⟨rfl, rfl⟩ := h.unique h'
        exact hvalue
    | starStep h' => exact absurd h'.free.1 h.free.1
    | rangeStep h' => exact absurd h'.free.2 h.free.2.2
    | malformed hmalformed => exact absurd h (hmalformed.2.2.1 ls hs)
  · exact .range h

/-- What neither pattern matches is a number, or malformed. -/
theorem partAdmits_rest (hstar : part ≠ js "*") (hrange : ∀ ls hs, ¬ IsRange part ls hs)
    (hstarStep : ∀ es, ¬ IsStarStep part es)
    (hrangeStep : ∀ ls hs es, ¬ IsRangeStep part ls hs es) :
    PartAdmits min max part value ↔ parseIntPrefix part = some (value : ℤ) := by
  constructor
  · intro hadmits
    cases hadmits with
    | star h => exact absurd h hstar
    | number h hvalue => rw [parseIntPrefix_digits h.1 h.2, hvalue]
    | range h => exact absurd h (hrange _ _)
    | starStep h => exact absurd h (hstarStep _)
    | rangeStep h => exact absurd h (hrangeStep _ _ _)
    | malformed _ hvalue => exact hvalue
  · intro hvalue
    by_cases hnumber : IsNumber part
    · rw [parseIntPrefix_digits hnumber.1 hnumber.2, Option.some.injEq, Nat.cast_inj] at hvalue
      exact .number hnumber hvalue.symm
    · exact .malformed ⟨hstar, hnumber, hrange, hstarStep, hrangeStep⟩ hvalue

theorem inStep_iff {lo hi step : ℕ} :
    (decide (lo ≤ value) && decide (value ≤ hi) && decide (step ≠ 0) &&
      decide ((value - lo) % step = 0)) = true ↔ InStep lo hi step value := by
  simp only [Bool.and_eq_true, decide_eq_true_eq, InStep, Nat.dvd_iff_mod_eq_zero, and_assoc]

theorem matchCronPart_iff :
    matchCronPart part (some value) min max = true ↔ PartAdmits min max part value := by
  rw [matchCronPart]
  by_cases hstar : part = js "*"
  · rw [if_pos hstar]
    exact ⟨fun _ => .star hstar, fun _ => rfl⟩
  rw [if_neg hstar]
  dsimp only
  by_cases hstep : (stepPattern 0).test part = true
  · rw [if_pos hstep]
    obtain ⟨es, h⟩ | ⟨ls, hs, es, h⟩ := test_stepPattern.mp hstep
    · rw [groupOf_stepPattern_star h, groupOf_stepPattern_star h, groupOf_stepPattern_star h,
        partAdmits_starStep h]
      exact inStep_iff
    · rw [groupOf_stepPattern_range h, groupOf_stepPattern_range h, groupOf_stepPattern_range h,
        partAdmits_rangeStep h]
      exact inStep_iff
  rw [if_neg hstep]
  by_cases hrange : (rangePattern 0).test part = true
  · rw [if_pos hrange]
    obtain ⟨ls, hs, h⟩ := test_rangePattern.mp hrange
    rw [groupOf_rangePattern h (.inl rfl), groupOf_rangePattern h (.inr rfl), partAdmits_range h,
      Bool.and_eq_true, decide_eq_true_eq, decide_eq_true_eq]
    rfl
  rw [if_neg hrange, decide_eq_true_eq]
  refine (partAdmits_rest hstar ?_ ?_ ?_).symm
  · exact fun ls hs h => hrange (test_rangePattern.mpr ⟨ls, hs, h⟩)
  · exact fun es h => hstep (test_stepPattern.mpr (.inl ⟨es, h⟩))
  · exact fun ls hs es h => hstep (test_stepPattern.mpr (.inr ⟨ls, hs, es, h⟩))

theorem matchCronField_iff {field : Text} :
    matchCronField field (some value) min max = true ↔ FieldAdmits min max field value := by
  rw [matchCronField, List.any_eq_true, FieldAdmits]
  exact exists_congr fun part => and_congr_right fun _ => matchCronPart_iff

end Shizuha.Cron

/-!
# The next run is the first minute that matches

Where the clock has one offset from UTC, the minutes looked at are all the
minutes of the coming 366 days, in order, as far as they are dates at all. So
the search returns the least minute that the five fields admit, and it throws
when there is none.
-/

namespace Shizuha.Cron

open Js

variable {offset start t u : ℤ} {expr : Text} {k : ℕ}

/-- A clock that is always the same number of minutes ahead of UTC. -/
def fixedZone (offset : ℤ) : Zone := ⟨offset * 60000, []⟩

/-- The beginning of the minute of local time that an instant is in. -/
def minuteStart (zone : Zone) (t : ℤ) : ℤ := t - zone.localTime t % 60000

/-- A whole minute of local time that may be the next run. -/
structure Candidate (zone : Zone) (start t : ℤ) : Prop where
  whole : zone.localTime t % 60000 = 0
  later : minuteStart zone start < t
  horizon : t ≤ minuteStart zone start + 366 * msPerDay
  date : |t| ≤ maxTime

/-- The five fields of the expression admit the minute, day and month of an
instant. -/
def CronAdmits (zone : Zone) (expr : Text) (t : ℤ) : Prop :=
  ∃ minute hour date month weekday, splitSpaces expr = [minute, hour, date, month, weekday] ∧
    FieldAdmits 0 59 minute (minuteOf (zone.localTime t)) ∧
    FieldAdmits 0 23 hour (hourOf (zone.localTime t)) ∧
    FieldAdmits 1 31 date (dateOf (zone.localTime t)) ∧
    FieldAdmits 1 12 month (monthOf (zone.localTime t) + 1) ∧
    FieldAdmits 0 6 weekday (weekdayOf (zone.localTime t))

/-- What the fields are matched with is in their ranges. -/
def InRanges (l : ℤ) : Prop :=
  minuteOf l ≤ 59 ∧ hourOf l ≤ 23 ∧ (1 ≤ dateOf l ∧ dateOf l ≤ 31) ∧
    (1 ≤ monthOf l + 1 ∧ monthOf l + 1 ≤ 12) ∧ weekdayOf l ≤ 6

theorem inRanges (l : ℤ) : InRanges l := by
  have hday := msInDay_lt l
  obtain ⟨hmonth, -, hdate⟩ := monthFromDay_spec (isLeap (yearOf l)) (dayInYear l) (dayInYear_lt l)
  refine ⟨?_, ?_, ⟨?_, ?_⟩, ⟨?_, ?_⟩, ?_⟩
  · unfold minuteOf
    omega
  · unfold hourOf
    omega
  · unfold dateOf
    omega
  · unfold dateOf monthOf
    omega
  · omega
  · unfold monthOf
    omega
  · unfold weekdayOf
    omega

theorem matchesCron_iff {zone : Zone} :
    matchesCron zone (splitSpaces expr) (some t) = true ↔ CronAdmits zone expr t := by
  unfold matchesCron CronAdmits
  dsimp only
  split
  next minute hour date month weekday heq =>
    simp only [Option.map_some, Bool.and_eq_true, matchCronField_iff, and_assoc]
    constructor
    · exact fun h => ⟨minute, hour, date, month, weekday, heq, h⟩
    · rintro ⟨minute', hour', date', month', weekday', heq', h⟩
      rw [heq] at heq'
      cases heq'
      exact h
  next hne =>
    constructor
    · exact fun h => nomatch h
    · rintro ⟨minute, hour, date, month, weekday, heq, -⟩
      exact absurd heq (hne minute hour date month weekday)

/-! ## The minutes looked at -/

theorem localTime_fixed : (fixedZone offset).localTime t = t + offset * 60000 := rfl

theorem fromLocal_fixed : (fixedZone offset).fromLocal t = t - offset * 60000 := rfl

theorem minuteStart_fixed : minuteStart (fixedZone offset) start = start - start % 60000 := by
  rw [minuteStart, localTime_fixed]
  omega

theorem nextMinute_fixed :
    nextMinute (fixedZone offset) (some t) = timeClip (t + 60000) := by
  rw [nextMinute, Option.bind_some, localTime_fixed, fromLocal_fixed]
  congr 1
  ring

theorem timeClip_of_le (h : -maxTime ≤ t) :
    timeClip t = if t ≤ maxTime then some t else none := by
  rw [timeClip]
  simp only [abs_le, h, true_and]

theorem minuteStart_ge (hstart : |start| ≤ maxTime) : -maxTime ≤ start - start % 60000 := by
  have := (abs_le.mp hstart).1
  unfold maxTime at *
  omega

theorem firstCheck_fixed (hstart : |start| ≤ maxTime) :
    firstCheck (fixedZone offset) start = timeClip (start - start % 60000 + 60000) := by
  have hfloor : (fixedZone offset).fromLocal ((fixedZone offset).localTime start -
      (fixedZone offset).localTime start % 60000) = start - start % 60000 := by
    rw [fromLocal_fixed, localTime_fixed]
    omega
  have hhigh : start - start % 60000 ≤ maxTime := by
    have := (abs_le.mp hstart).2
    omega
  rw [firstCheck, hfloor, timeClip_of_le (minuteStart_ge hstart), if_pos hhigh, nextMinute_fixed]

/-- The first is the minute after the start's, and each is a minute after the
one before, until the dates end. -/
theorem candidateMinute_fixed (hstart : |start| ≤ maxTime) :
    candidateMinute (fixedZone offset) start k =
      if start - start % 60000 + 60000 * (k + 1) ≤ maxTime then
        some (start - start % 60000 + 60000 * (k + 1)) else none := by
  have hlow := minuteStart_ge hstart
  induction k with
  | zero =>
      rw [candidateMinute, Function.iterate_zero, id, firstCheck_fixed hstart,
        timeClip_of_le (by omega)]
      simp
  | succ k ih =>
      rw [candidateMinute, Function.iterate_succ_apply', ← candidateMinute, ih]
      by_cases hdate : start - start % 60000 + 60000 * (k + 1) ≤ maxTime
      · rw [if_pos hdate, nextMinute_fixed, timeClip_of_le (by omega)]
        push_cast
        have hsum : start - start % 60000 + 60000 * ((k : ℤ) + 1) + 60000 =
            start - start % 60000 + 60000 * ((k : ℤ) + 1 + 1) := by ring
        rw [hsum]
      · have hnext : ¬ start - start % 60000 + 60000 * (((k + 1 : ℕ) : ℤ) + 1) ≤ maxTime := by
          push_cast
          omega
        rw [if_neg hdate, if_neg hnext]
        rfl

theorem searchLimit_eq : (searchLimit : ℤ) * 60000 = 366 * msPerDay := by decide

/-- The candidates are the minutes looked at. -/
theorem candidate_iff (hstart : |start| ≤ maxTime) :
    Candidate (fixedZone offset) start t ↔
      ∃ k < searchLimit, candidateMinute (fixedZone offset) start k = some t := by
  have hlimit := searchLimit_eq
  have hlow := minuteStart_ge hstart
  constructor
  · rintro ⟨hwhole, hlater, hhorizon, hdate⟩
    rw [localTime_fixed] at hwhole
    rw [minuteStart_fixed] at hlater hhorizon
    obtain ⟨k, hk⟩ : ∃ k : ℕ, t = start - start % 60000 + 60000 * (k + 1) :=
      ⟨((t - (start - start % 60000)) / 60000 - 1).toNat, by omega⟩
    refine ⟨k, by omega, ?_⟩
    rw [candidateMinute_fixed hstart, ← hk, if_pos (abs_le.mp hdate).2]
  · rintro ⟨k, hk, hcandidate⟩
    rw [candidateMinute_fixed hstart] at hcandidate
    split_ifs at hcandidate with hdate
    cases hcandidate
    refine ⟨?_, ?_, ?_, abs_le.mpr ⟨?_, hdate⟩⟩
    · rw [localTime_fixed]
      omega
    · rw [minuteStart_fixed]
      omega
    · rw [minuteStart_fixed]
      omega
    · omega

/-! ## The search -/

theorem searchCron_eq_none_iff {zone : Zone} {fields : List Text} {n : ℕ} {check : Option ℤ} :
    searchCron zone fields n check = none ↔
      ∀ i < n, matchesCron zone fields ((nextMinute zone)^[i] check) = false := by
  constructor
  · intro hnone i hi
    by_contra hadmit
    rw [Bool.not_eq_false] at hadmit
    have hex : ∃ i, matchesCron zone fields ((nextMinute zone)^[i] check) = true := ⟨i, hadmit⟩
    have hfound := searchCron_eq_some_iff.mpr ⟨Nat.find hex,
      lt_of_le_of_lt (Nat.find_min' hex hadmit) hi, rfl, Nat.find_spec hex,
      fun j hj => Bool.eq_false_iff.mpr (Nat.find_min hex hj)⟩
    rw [hnone] at hfound
    cases hfound
  · intro h
    cases hfound : searchCron zone fields n check with
    | none => rfl
    | some found =>
        obtain ⟨k, hk, rfl, hadmit, -⟩ := searchCron_eq_some_iff.mp hfound
        rw [h k hk] at hadmit
        cases hadmit

/-- What the search throws, it throws without a date that matches. -/
theorem computeNextCronRun_error {zone : Zone} {e : CronError} (hfive : (splitSpaces expr).length = 5)
    (h : computeNextCronRun zone expr start = .error e) (hk : k < searchLimit)
    (hcandidate : candidateMinute zone start k = some t) : ¬ CronAdmits zone expr t := by
  intro hadmits
  rw [← matchesCron_iff, ← hcandidate, candidateMinute] at hadmits
  rw [computeNextCronRun, if_neg (not_not.mpr hfive)] at h
  cases hsearch : searchCron zone (splitSpaces expr) searchLimit (firstCheck zone start) with
  | none =>
      rw [searchCron_eq_none_iff.mp hsearch k hk] at hadmits
      cases hadmits
  | some found =>
      cases found with
      | some t' =>
          rw [hsearch] at h
          cases h
      | none =>
          -- no date comes after one that is none
          obtain ⟨j, -, hnone, -, hleast⟩ := searchCron_eq_some_iff.mp hsearch
          rcases Nat.lt_or_ge k j with hlt | hge
          · rw [hleast k hlt] at hadmits
            cases hadmits
          · obtain ⟨i, rfl⟩ := Nat.exists_eq_add_of_le hge
            rw [candidateMinute, Nat.add_comm, Function.iterate_add_apply, hnone] at hcandidate
            have hstays : (nextMinute zone)^[i] none = none := Function.iterate_fixed rfl i
            rw [hstays] at hcandidate
            cases hcandidate

/-! ## The least match -/

/-- Where the clock has a fixed offset, the run that is returned is the least
minute of the next 366 days that the five fields admit, and where it throws
there is none. What the fields are matched with is in range. -/
theorem computeNextCronRun_least (offset : ℤ) (expr : Text) (start : ℤ)
    (hstart : |start| ≤ maxTime) (hfive : (splitSpaces expr).length = 5) :
    (∀ t, computeNextCronRun (fixedZone offset) expr start = .ok t →
      IsLeast {u | Candidate (fixedZone offset) start u ∧ CronAdmits (fixedZone offset) expr u} t) ∧
    (∀ e, computeNextCronRun (fixedZone offset) expr start = .error e →
      ∀ u, Candidate (fixedZone offset) start u → ¬ CronAdmits (fixedZone offset) expr u) ∧
    ∀ u, InRanges ((fixedZone offset).localTime u) := by
  refine ⟨fun t hrun => ?_, fun e hrun u hcandidate => ?_, fun u => inRanges _⟩
  · obtain ⟨-, k, hk, hcandidate, hadmits, hleast⟩ := computeNextCronRun_eq_ok_iff.mp hrun
    refine ⟨⟨(candidate_iff hstart).mpr ⟨k, hk, hcandidate⟩, matchesCron_iff.mp hadmits⟩, ?_⟩
    rintro u ⟨hu, huadmits⟩
    obtain ⟨i, hi, hi'⟩ := (candidate_iff hstart).mp hu
    have hle : k ≤ i := by
      by_contra hlt
      have hfalse := hleast i (Nat.lt_of_not_le hlt)
      rw [hi', matchesCron_iff.mpr huadmits] at hfalse
      cases hfalse
    rw [candidateMinute_fixed hstart] at hcandidate hi'
    split_ifs at hcandidate hi' with _ _
    cases hcandidate
    cases hi'
    omega
  · obtain ⟨k, hk, hk'⟩ := (candidate_iff hstart).mp hcandidate
    exact computeNextCronRun_error hfive hrun hk hk'

theorem computeNextCronRun_least_weekday :
    IsLeast {u | Candidate (fixedZone 330) 0 u ∧
      CronAdmits (fixedZone 330) (js "*/20,7-3 5 * * 4") u} 600000 :=
  (computeNextCronRun_least 330 (js "*/20,7-3 5 * * 4") 0 (by decide) (by decide)).1 600000
    (by decide +kernel)

end Shizuha.Cron
