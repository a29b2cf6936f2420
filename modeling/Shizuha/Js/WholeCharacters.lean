import Shizuha.Js.Split

/-!
# Cutting texts of whole characters

A text of whole characters is one after another of units by themselves and of
pairs. Cut in two it is whole on both sides unless the cut is within a pair.
-/

namespace Shizuha.Js

theorem not_low_of_high {u : UInt16} (h : isHighSurrogate u = true) :
    isLowSurrogate u = false := by
  simp only [isHighSurrogate, isLowSurrogate, Bool.and_eq_true, decide_eq_true_eq,
    Bool.and_eq_false_iff, decide_eq_false_iff_not, UInt16.le_iff_toNat_le] at h ⊢
  have hhigh : u.toNat ≤ 0xDBFF := h.2
  have hlow : ¬ 0xDC00 ≤ u.toNat := by omega
  exact .inl hlow

theorem wellFormed_unit_cons {u : UInt16} {s : Text} (hh : isHighSurrogate u = false)
    (hl : isLowSurrogate u = false) : WellFormed (u :: s) ↔ WellFormed s := by
  constructor
  · intro h
    rw [← List.nil_append (u :: s)] at h
    exact (wellFormed_split hh hl h).2
  · exact .cons hh hl

theorem wellFormed_pair_cons {u v : UInt16} {s : Text} (hu : isHighSurrogate u = true)
    (hv : isLowSurrogate v = true) : WellFormed (u :: v :: s) ↔ WellFormed s := by
  rw [WellFormed, toWellFormed, if_pos hu, if_pos hv, WellFormed, List.cons.injEq, List.cons.injEq]
  simp only [true_and]

/-- A text of whole characters is one character after another. -/
theorem wellFormed_induction {P : Text → Prop} (nil : P [])
    (unit : ∀ (u : UInt16) (s : Text), isHighSurrogate u = false → isLowSurrogate u = false →
      WellFormed s → P s → P (u :: s))
    (pair : ∀ (u v : UInt16) (s : Text), isHighSurrogate u = true → isLowSurrogate v = true →
      WellFormed s → P s → P (u :: v :: s)) {s : Text} (h : WellFormed s) : P s := by
  obtain ⟨hhigh, hlow⟩ := not_surrogate_replacement
  induction s using toWellFormed.induct with
  | case1 => exact nil
  | case2 u hu =>
      rw [WellFormed, toWellFormed, if_pos hu] at h
      cases h
      rw [hhigh, hlow] at hu
      cases hu
  | case3 u hu =>
      simp only [Bool.or_eq_true, not_or, Bool.not_eq_true] at hu
      exact unit u [] hu.1 hu.2 rfl nil
  | case4 u v s hu hv ih =>
      have hs := (wellFormed_pair_cons hu hv).mp h
      exact pair u v s hu hv hs (ih hs)
  | case5 u v s hu hv ih =>
      rw [WellFormed, toWellFormed, if_pos hu, if_neg hv] at h
      rw [← (List.cons.inj h).1, hhigh] at hu
      cases hu
  | case6 u v s hu hl ih =>
      rw [WellFormed, toWellFormed, if_neg hu, if_pos hl] at h
      rw [← (List.cons.inj h).1, hlow] at hl
      cases hl
  | case7 u v s hu hl ih =>
      rw [Bool.not_eq_true] at hu hl
      have hs := (wellFormed_unit_cons hu hl).mp h
      exact unit u (v :: s) hu hl hs (ih hs)

theorem not_wellFormed_high {u : UInt16} (h : isHighSurrogate u = true) : ¬ WellFormed [u] := by
  intro hone
  rw [WellFormed, toWellFormed, h, Bool.true_or, if_pos rfl] at hone
  cases hone
  rw [not_surrogate_replacement.1] at h
  cases h

/-- A text of whole characters is cut into two of them unless what is behind the cut
begins with the second half of one. -/
theorem wellFormed_take_iff {s : Text} (h : WellFormed s) (k : ℕ) :
    WellFormed (s.take k) ↔ ∀ v ∈ s[k]?, isLowSurrogate v = false := by
  revert k
  refine wellFormed_induction
    (P := fun s => ∀ k, WellFormed (s.take k) ↔ ∀ v ∈ s[k]?, isLowSurrogate v = false) ?_ ?_ ?_ h
  · intro k
    rw [List.take_nil, List.getElem?_nil]
    refine iff_of_true rfl fun v hv => ?_
    cases hv
  · intro u s hh hl _ ih k
    cases k with
    | zero =>
        refine ⟨fun _ v hv => ?_, fun _ => rfl⟩
        cases hv
        exact hl
    | succ k =>
        rw [List.take_succ_cons, wellFormed_unit_cons hh hl, List.getElem?_cons_succ]
        exact ih k
  · intro u v s hu hv _ ih k
    match k with
    | 0 =>
        refine ⟨fun _ w hw => ?_, fun _ => rfl⟩
        cases hw
        exact not_low_of_high hu
    | 1 =>
        refine iff_of_false (not_wellFormed_high hu) fun hnone => ?_
        have hlow := hnone v rfl
        rw [hv] at hlow
        cases hlow
    | k + 2 =>
        rw [List.take_succ_cons, List.take_succ_cons, wellFormed_pair_cons hu hv,
          List.getElem?_cons_succ, List.getElem?_cons_succ]
        exact ih k

theorem WellFormed.of_append {a b : Text} (ha : WellFormed a) (h : WellFormed (a ++ b)) :
    WellFormed b :=
  List.append_cancel_left ((toWellFormed_append ha b).symm.trans h)

theorem wellFormed_drop {s : Text} (h : WellFormed s) {k : ℕ} (htake : WellFormed (s.take k)) :
    WellFormed (s.drop k) := by
  rw [← List.take_append_drop k s] at h
  exact htake.of_append h

/-- Cut in front of a unit by itself, a text stays whole. -/
theorem wellFormed_take_of_unit {s : Text} (h : WellFormed s) {k : ℕ} {u : UInt16}
    (hu : s[k]? = some u) (hl : isLowSurrogate u = false) : WellFormed (s.take k) := by
  refine (wellFormed_take_iff h k).mpr fun v hv => ?_
  rw [hu] at hv
  cases hv
  exact hl

theorem not_surrogate_space {u : UInt16} (h : isSpace u = true) :
    isHighSurrogate u = false ∧ isLowSurrogate u = false := by
  simp only [isSpace, Bool.or_eq_true, Bool.and_eq_true, beq_iff_eq, decide_eq_true_eq,
    UInt16.le_iff_toNat_le, ← UInt16.toNat_inj] at h
  simp only [isHighSurrogate, isLowSurrogate, Bool.and_eq_false_iff, decide_eq_false_iff_not,
    UInt16.le_iff_toNat_le]
  have hu := u.toNat_lt
  simp only [UInt16.reduceToNat] at h ⊢
  omega

theorem wellFormed_trimStart {s : Text} (h : WellFormed s) : WellFormed (trimStart s) := by
  have hgap : WellFormed (s.takeWhile isSpace) :=
    wellFormed_of_forall fun u hu => not_surrogate_space (List.mem_takeWhile_imp hu)
  rw [← List.takeWhile_append_dropWhile (p := isSpace) (l := s)] at h
  exact hgap.of_append h

end Shizuha.Js
