import Shizuha.Js.Text

/-!
# Splitting at a separator

A text is split where the separator is found from the left, and the pieces come
back from a join exactly when the separators that the join puts in are those
that are found (`splitOn_join`): no piece has the separator in it, and none but
the last has, with the separator after it, one that begins before its end.
-/

namespace Shizuha.Js

section Split

variable {α : Type*} {sep s : List α}

/-! ## Where the separator is found -/

/-- Nowhere in the text is the separator. -/
def Free (sep s : List α) : Prop := ∀ a b, s ≠ a ++ (sep ++ b)

/-- The separator that follows the text is the first one. -/
def Ends (sep s : List α) : Prop := ∀ a b, s ++ sep = a ++ (sep ++ b) → a = s

theorem Free.tail {u : α} (h : Free sep (u :: s)) : Free sep s :=
  fun a b heq => h (u :: a) b (by rw [heq, List.cons_append])

theorem Free.not_prefix (h : Free sep s) : ¬ sep <+: s := by
  intro hhead
  obtain ⟨b, hb⟩ := hhead
  exact h [] b hb.symm

theorem Free.cons {u : α} (h : Free sep s) (hhead : ¬ sep <+: u :: s) : Free sep (u :: s) := by
  intro a b heq
  cases a with
  | nil => exact hhead ⟨b, heq.symm⟩
  | cons v a =>
      rw [List.cons_append, List.cons.injEq] at heq
      exact h a b heq.2

theorem ends_nil (sep : List α) : Ends sep [] := by
  intro a b heq
  have hlength := congrArg List.length heq
  simp only [List.nil_append, List.length_append] at hlength
  exact List.length_eq_zero_iff.mp (by omega)

theorem Ends.tail {u : α} (h : Ends sep (u :: s)) : Ends sep s := by
  intro a b heq
  have hcons := h (u :: a) b (by rw [List.cons_append, List.cons_append, heq])
  exact (List.cons.inj hcons).2

theorem Ends.not_prefix {u : α} (h : Ends sep (u :: s)) (t : List α) :
    ¬ sep <+: u :: (s ++ (sep ++ t)) := by
  intro hhead
  have hshort : sep <+: (u :: s) ++ sep :=
    List.prefix_of_prefix_length_le hhead ⟨t, by simp⟩
      (by rw [List.length_append]; omega)
  obtain ⟨b, hb⟩ := hshort
  have hnil := h [] b hb.symm
  cases hnil

theorem Ends.cons {u : α} (h : Ends sep s) {t : List α}
    (hhead : ¬ sep <+: u :: (s ++ (sep ++ t))) : Ends sep (u :: s) := by
  intro a b heq
  cases a with
  | nil =>
      refine absurd ⟨b ++ t, ?_⟩ hhead
      rw [List.nil_append] at heq
      rw [← List.append_assoc, ← heq]
      simp
  | cons v a =>
      rw [List.cons_append, List.cons_append, List.cons.injEq] at heq
      rw [h a b heq.2, heq.1]

theorem Ends.free (h : Ends sep s) (hsep : sep ≠ []) : Free sep s := by
  intro a b heq
  have hends := h a (b ++ sep) (by rw [heq]; simp)
  have hlength := congrArg List.length heq
  rw [hends, List.length_append, List.length_append] at hlength
  have hpos := List.length_pos_iff.mpr hsep
  omega

/-! ## Joining and splitting -/

/-- What the pieces were joined to, the last one apart. -/
def rejoin (sep : List α) (pieces : List (List α)) (last : List α) : List α :=
  (pieces.map (· ++ sep)).flatten ++ last

theorem intercalate_concat (sep : List α) (pieces : List (List α)) (last : List α) :
    sep.intercalate (pieces ++ [last]) = rejoin sep pieces last := by
  induction pieces with
  | nil => simp [rejoin]
  | cons piece pieces ih =>
      obtain ⟨next, rest, hrest⟩ : ∃ next rest, pieces ++ [last] = next :: rest :=
        List.exists_cons_of_ne_nil (by simp)
      rw [List.cons_append, hrest, List.intercalate_cons_cons, ← hrest, ih]
      simp [rejoin]

variable [DecidableEq α]

/-- The pieces, with so many elements still to be passed over. -/
def splitFrom (sep : List α) : ℕ → List α → List (List α)
  | _, [] => [[]]
  | skip + 1, _ :: s => splitFrom sep skip s
  | 0, u :: s =>
      if sep.isPrefixOf (u :: s) then [] :: splitFrom sep (sep.length - 1) s
      else
        match splitFrom sep 0 s with
        | [] => [[u]]
        | l :: rest => (u :: l) :: rest

/-- `split` with a separator that is not empty. -/
def splitOn (sep s : List α) : List (List α) := splitFrom sep 0 s

theorem splitFrom_drop (sep : List α) (skip : ℕ) (s : List α) :
    splitFrom sep skip s = splitOn sep (s.drop skip) := by
  induction s generalizing skip with
  | nil => simp [splitOn, splitFrom]
  | cons u s ih =>
      cases skip with
      | zero => rfl
      | succ skip => rw [splitFrom, ih, List.drop_succ_cons]

theorem splitOn_sep (hsep : sep ≠ []) (t : List α) :
    splitOn sep (sep ++ t) = [] :: splitOn sep t := by
  obtain ⟨u, rest, rfl⟩ := List.exists_cons_of_ne_nil hsep
  have hhead : (u :: rest).isPrefixOf (u :: (rest ++ t)) = true :=
    List.isPrefixOf_iff_prefix.mpr ⟨t, rfl⟩
  rw [List.cons_append, splitOn, splitFrom, if_pos hhead, splitFrom_drop]
  simp

theorem splitOn_ne_nil (sep s : List α) : splitOn sep s ≠ [] := by
  induction s with
  | nil => simp [splitOn, splitFrom]
  | cons u s ih =>
      rw [splitOn, splitFrom]
      split_ifs
      · simp
      · split <;> simp

theorem splitOn_cons {u : α} (h : ¬ sep <+: u :: s) {piece : List α} {rest : List (List α)}
    (hs : splitOn sep s = piece :: rest) : splitOn sep (u :: s) = (u :: piece) :: rest := by
  rw [← List.isPrefixOf_iff_prefix] at h
  rw [splitOn, splitFrom, if_neg h, show splitFrom sep 0 s = piece :: rest from hs]

theorem splitOn_free (h : Free sep s) : splitOn sep s = [s] := by
  induction s with
  | nil => rfl
  | cons u s ih => exact splitOn_cons h.not_prefix (ih h.tail)

theorem splitOn_ends (hsep : sep ≠ []) (h : Ends sep s) (t : List α) :
    splitOn sep (s ++ (sep ++ t)) = s :: splitOn sep t := by
  induction s with
  | nil => exact splitOn_sep hsep t
  | cons u s ih => exact splitOn_cons (h.not_prefix t) (ih h.tail)

/-- What was joined is split again. -/
theorem splitOn_rejoin (hsep : sep ≠ []) {pieces : List (List α)} {last : List α}
    (hpieces : ∀ piece ∈ pieces, Ends sep piece) (hlast : Free sep last) :
    splitOn sep (rejoin sep pieces last) = pieces ++ [last] := by
  induction pieces with
  | nil => exact splitOn_free hlast
  | cons piece pieces ih =>
      have hrest := ih fun p hp => hpieces p (List.mem_cons_of_mem _ hp)
      have hpiece := splitOn_ends hsep (hpieces piece List.mem_cons_self)
        (rejoin sep pieces last)
      rw [hrest] at hpiece
      rw [List.cons_append, ← hpiece]
      simp [rejoin]

/-- What was split is joined again. -/
theorem splitOn_spec (hsep : sep ≠ []) (s : List α) :
    ∃ pieces last, splitOn sep s = pieces ++ [last] ∧ s = rejoin sep pieces last ∧
      (∀ piece ∈ pieces, Ends sep piece) ∧ Free sep last := by
  induction hn : s.length using Nat.strong_induction_on generalizing s with
  | _ n ih =>
    cases s with
    | nil =>
        refine ⟨[], [], rfl, rfl, by simp, fun a b heq => ?_⟩
        have hnil : a ++ (sep ++ b) = [] := heq.symm
        simp only [List.append_eq_nil_iff] at hnil
        exact hsep hnil.2.1
    | cons u s =>
        by_cases hhead : sep <+: u :: s
        · obtain ⟨t, ht⟩ := hhead
          have hpos := List.length_pos_iff.mpr hsep
          have hlt : t.length < n := by
            rw [← hn, ← ht, List.length_append]
            omega
          obtain ⟨pieces, last, hsplit, hjoin, hends, hfree⟩ := ih _ hlt t rfl
          refine ⟨[] :: pieces, last, ?_, ?_, ?_, hfree⟩
          · rw [← ht, splitOn_sep hsep, hsplit]
            rfl
          · rw [← ht, hjoin]
            simp [rejoin]
          · intro piece hpiece
            rcases List.mem_cons.mp hpiece with heq | hpiece
            · rw [heq]
              exact ends_nil sep
            · exact hends piece hpiece
        · have hlt : s.length < n := by
            rw [← hn, List.length_cons]
            omega
          obtain ⟨pieces, last, hsplit, hjoin, hends, hfree⟩ := ih _ hlt s rfl
          cases pieces with
          | nil =>
              have hs : s = last := hjoin
              rw [← hs] at hsplit hfree
              exact ⟨[], u :: s, splitOn_cons hhead hsplit, rfl, by simp, hfree.cons hhead⟩
          | cons piece pieces =>
              have hs : s = piece ++ (sep ++ rejoin sep pieces last) := by
                rw [hjoin]
                simp [rejoin]
              refine ⟨(u :: piece) :: pieces, last, splitOn_cons hhead hsplit, ?_, ?_, hfree⟩
              · rw [hjoin]
                simp [rejoin]
              · intro p hp
                rcases List.mem_cons.mp hp with heq | hp
                · rw [heq]
                  exact (hends piece List.mem_cons_self).cons (hs ▸ hhead)
                · exact hends p (List.mem_cons_of_mem _ hp)

/-- A text and another one after the separator, if it is the separator that is
found there. -/
theorem splitOn_append (hsep : sep ≠ []) {pieces : List (List α)} {last : List α}
    (hs : splitOn sep s = pieces ++ [last]) (hlast : Ends sep last) (t : List α) :
    splitOn sep (s ++ (sep ++ t)) = splitOn sep s ++ splitOn sep t := by
  obtain ⟨pieces', last', hsplit, hjoin, hends, -⟩ := splitOn_spec hsep s
  obtain ⟨rfl, hlast'⟩ := List.append_inj' (hs.symm.trans hsplit) rfl
  cases hlast'
  obtain ⟨more, final, hsplit', hjoin', hends', hfree'⟩ := splitOn_spec hsep t
  have hall : s ++ (sep ++ t) = rejoin sep (pieces ++ last :: more) final := by
    rw [hjoin, hjoin']
    simp [rejoin]
  rw [hall, splitOn_rejoin hsep _ hfree', hsplit, hsplit']
  · simp
  · intro piece hpiece
    rcases List.mem_append.mp hpiece with hp | hp
    · exact hends piece hp
    · rcases List.mem_cons.mp hp with heq | hp
      · rw [heq]
        exact hlast
      · exact hends' piece hp

end Split

theorem free_of_not_includes {needle s : Text} (h : includes s needle = false) :
    Free needle s := by
  rw [includes, Option.isSome_eq_false_iff, Option.isNone_iff_eq_none] at h
  induction s with
  | nil =>
      intro a b heq
      have hnil := List.append_eq_nil_iff.mp heq.symm
      obtain ⟨hneedle, -⟩ := List.append_eq_nil_iff.mp hnil.2
      rw [indexOf, hneedle, if_pos (by simp)] at h
      cases h
  | cons u s ih =>
      rw [indexOf] at h
      split_ifs at h with hhead
      rw [Option.map_eq_none_iff] at h
      rw [List.isPrefixOf_iff_prefix] at hhead
      exact (ih h).cons hhead

/-! ## Pieces of well-formed texts -/

theorem length_toWellFormed (s : Text) : (toWellFormed s).length = s.length := by
  induction s using toWellFormed.induct with
  | case1 => rfl
  | case2 u hu => rw [toWellFormed, if_pos hu, List.length_singleton, List.length_singleton]
  | case3 u hu => rw [toWellFormed, if_neg hu]
  | case4 u v s hu hv ih => simp only [toWellFormed, if_pos hu, if_pos hv, List.length_cons, ih]
  | case5 u v s hu hv ih =>
      simp only [toWellFormed, if_pos hu, if_neg hv, List.length_cons] at ih ⊢
      rw [ih]
  | case6 u v s hu hl ih =>
      simp only [toWellFormed, if_neg hu, if_pos hl, List.length_cons] at ih ⊢
      rw [ih]
  | case7 u v s hu hl ih =>
      simp only [toWellFormed, if_neg hu, if_neg hl, List.length_cons] at ih ⊢
      rw [ih]

/-- A unit that is no half of a pair is read by itself. -/
theorem toWellFormed_append_cons {u : UInt16} (hh : isHighSurrogate u = false)
    (hl : isLowSurrogate u = false) (a b : Text) :
    toWellFormed (a ++ u :: b) = toWellFormed a ++ u :: toWellFormed b := by
  have hcons : toWellFormed (u :: b) = u :: toWellFormed b := by
    cases b <;> simp [toWellFormed, hh, hl]
  induction a using toWellFormed.induct with
  | case1 => exact hcons
  | case2 v hv =>
      have hsplit : toWellFormed [v] = [0xFFFD] := by rw [toWellFormed, if_pos hv]
      rw [hsplit, List.cons_append, List.nil_append, toWellFormed, hcons]
      split_ifs with hhigh hlow
      · rw [hl] at hlow
        cases hlow
      · rfl
      · rfl
      · simp_all
  | case3 v hv =>
      simp only [Bool.or_eq_true, not_or, Bool.not_eq_true] at hv
      simp [toWellFormed, hv, hcons]
  | case4 v w s hv hw ih =>
      simp only [List.cons_append, toWellFormed, if_pos hv, if_pos hw, ih]
  | case5 v w s hv hw ih =>
      rw [List.cons_append] at ih
      simp only [List.cons_append, toWellFormed, if_pos hv, if_neg hw, ih]
  | case6 v w s hv hw ih =>
      rw [List.cons_append] at ih
      simp only [List.cons_append, toWellFormed, if_neg hv, if_pos hw, ih]
  | case7 v w s hv hw ih =>
      rw [List.cons_append] at ih
      simp only [List.cons_append, toWellFormed, if_neg hv, if_neg hw, ih]

theorem wellFormed_split {u : UInt16} (hh : isHighSurrogate u = false)
    (hl : isLowSurrogate u = false) {a b : Text} (h : WellFormed (a ++ u :: b)) :
    WellFormed a ∧ WellFormed b := by
  rw [WellFormed, toWellFormed_append_cons hh hl] at h
  obtain ⟨ha, hb⟩ := List.append_inj h (length_toWellFormed a)
  exact ⟨ha, (List.cons.inj hb).2⟩

/-- No piece has what the text was split at. -/
theorem not_mem_splitOnP {p : UInt16 → Bool} {s : Text} :
    ∀ piece ∈ s.splitOnP p, ∀ u ∈ piece, p u = false := by
  induction s with
  | nil => simp
  | cons v s ih =>
      intro piece hpiece
      rw [List.splitOnP_cons_eq_if_modifyHead] at hpiece
      split_ifs at hpiece with hv
      · rcases List.mem_cons.mp hpiece with heq | hpiece
        · simp [heq]
        · exact ih piece hpiece
      · cases hs : s.splitOnP p with
        | nil => exact absurd hs (List.splitOnP_ne_nil p s)
        | cons first rest =>
            rw [hs] at ih hpiece
            rw [List.modifyHead_cons] at hpiece
            rcases List.mem_cons.mp hpiece with heq | hpiece
            · intro u hu
              rw [heq] at hu
              rcases List.mem_cons.mp hu with heq | hu
              · rw [heq]
                exact Bool.eq_false_iff.mpr hv
              · exact ih first List.mem_cons_self u hu
            · exact ih piece (List.mem_cons_of_mem _ hpiece)

theorem wellFormed_splitOnP {p : UInt16 → Bool}
    (hp : ∀ u, p u = true → isHighSurrogate u = false ∧ isLowSurrogate u = false) {s : Text}
    (h : WellFormed s) : ∀ piece ∈ s.splitOnP p, WellFormed piece := by
  induction hn : s.length using Nat.strong_induction_on generalizing s with
  | _ n ih =>
    by_cases hnone : ∀ u ∈ s, p u = false
    · rw [List.splitOnP_eq_singleton hnone]
      intro piece hpiece
      rw [List.mem_singleton.mp hpiece]
      exact h
    · -- Up to the first unit that splits, and after it.
      have hsplit : s.takeWhile (fun u => !p u) ++ s.dropWhile (fun u => !p u) = s :=
        List.takeWhile_append_dropWhile
      cases hdrop : s.dropWhile (fun u => !p u) with
      | nil =>
          refine absurd (fun u hu => ?_) hnone
          have hall := List.dropWhile_eq_nil_iff.mp hdrop u hu
          simpa using hall
      | cons u rest =>
          have hu : p u = true := by
            have hhead := List.head?_dropWhile_not (fun u => !p u) s
            rw [hdrop] at hhead
            simpa using hhead
          have hfree : ∀ v ∈ s.takeWhile (fun u => !p u), p v = false := by
            intro v hv
            simpa using List.mem_takeWhile_imp hv
          rw [hdrop] at hsplit
          rw [← hsplit] at h ⊢
          obtain ⟨hbefore, hrest⟩ := wellFormed_split (hp u hu).1 (hp u hu).2 h
          have hlt : rest.length < n := by
            rw [← hn, ← hsplit, List.length_append, List.length_cons]
            omega
          rw [List.splitOnP_append_cons_of_forall_mem hfree u hu]
          intro piece hpiece
          rcases List.mem_cons.mp hpiece with heq | hpiece
          · rw [heq]
            exact hbefore
          · exact ih _ hlt hrest rfl piece hpiece

end Shizuha.Js
