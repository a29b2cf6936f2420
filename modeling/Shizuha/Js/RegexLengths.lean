import Shizuha.Js.Regex

/-!
# How much a pattern consumes

A match moves the cursor over a part of the text, and of many patterns one can
say how long that part is at least. A replacement that puts less in the place of
every match makes a text shorter, or finds nothing to replace (`Shrinks`). That is
enough to tell from two lengths that a text has come through a chain of
replacements as it was.
-/

namespace Shizuha.Js

open Regex

/-! ## As it was, or shorter -/

/-- What is made of a text is the text, or shorter. -/
def Shrinks (t s : Text) : Prop := t = s ∨ t.length < s.length

section

variable {s t u : Text}

theorem Shrinks.refl (s : Text) : Shrinks s s := .inl rfl

theorem Shrinks.length_le (h : Shrinks t s) : t.length ≤ s.length := by
  rcases h with rfl | h
  · exact le_rfl
  · exact h.le

theorem Shrinks.trans (h : Shrinks t s) (h' : Shrinks u t) : Shrinks u s := by
  rcases h with rfl | h
  · exact h'
  · exact .inr (h'.length_le.trans_lt h)

theorem Shrinks.append {t' s' : Text} (h : Shrinks t s) (h' : Shrinks t' s') :
    Shrinks (t ++ t') (s ++ s') := by
  rcases h with rfl | h <;> rcases h' with rfl | h'
  · exact .refl _
  all_goals
    refine .inr ?_
    rw [List.length_append, List.length_append]
    omega

theorem shrinks_of_sublist (h : t.Sublist s) : Shrinks t s := by
  rcases h.length_le.lt_or_eq with hlt | heq
  · exact .inr hlt
  · exact .inl (h.eq_of_length heq)

theorem shrinks_trim (s : Text) : Shrinks (trim s) s :=
  shrinks_of_sublist (((List.rdropWhile_prefix _ _).sublist).trans (List.dropWhile_sublist _))

end

/-! ## What is consumed -/

/-- The cursor has moved over `n` units at least. -/
def Consumed (n : ℕ) (c d : Cursor) : Prop :=
  ∃ t, c.right = t ++ d.right ∧ d.left = t.reverse ++ c.left ∧ n ≤ t.length

def Consumes (r : Regex) (n : ℕ) : Prop := ∀ c, ∀ d ∈ r.run c, Consumed n c d

section

variable {a b r : Regex} {n k : ℕ} {c d e : Cursor}

theorem Consumed.refl (c : Cursor) : Consumed 0 c c := ⟨[], rfl, rfl, le_rfl⟩

theorem Consumed.mono (h : Consumed n c d) (hk : k ≤ n) : Consumed k c d := by
  obtain ⟨t, hright, hleft, hn⟩ := h
  exact ⟨t, hright, hleft, hk.trans hn⟩

theorem Consumed.trans (h : Consumed n c d) (h' : Consumed k d e) : Consumed (n + k) c e := by
  obtain ⟨t, hright, hleft, hn⟩ := h
  obtain ⟨u, hright', hleft', hk⟩ := h'
  refine ⟨t ++ u, ?_, ?_, ?_⟩
  · rw [hright, hright', List.append_assoc]
  · rw [hleft', hleft, List.reverse_append, List.append_assoc]
  · rw [List.length_append]
    omega

theorem Consumes.mono (h : Consumes r n) (hk : k ≤ n) : Consumes r k :=
  fun c d hd => (h c d hd).mono hk

theorem consumes_seq (ha : Consumes a n) (hb : Consumes b k) : Consumes (.seq a b) (n + k) := by
  intro c d hd
  rw [run_seq, List.mem_flatMap] at hd
  obtain ⟨e, he, hd⟩ := hd
  exact (ha c e he).trans (hb e d hd)

theorem consumes_alt (ha : Consumes a n) (hb : Consumes b n) : Consumes (.alt a b) n := by
  intro c d hd
  rw [run_alt, List.mem_append] at hd
  rcases hd with hd | hd
  · exact ha c d hd
  · exact hb c d hd

theorem consumes_unit (p : UInt16 → Bool) : Consumes (.unit p) 1 := by
  intro c d hd
  rw [Regex.run] at hd
  cases hright : c.right with
  | nil =>
      rw [hright] at hd
      cases hd
  | cons u s =>
      rw [hright] at hd
      dsimp only at hd
      split_ifs at hd with hu
      · rw [List.mem_singleton.mp hd]
        exact ⟨[u], hright, rfl, le_rfl⟩
      · cases hd

/-- As many rounds as are owed and allowed are made. -/
theorem consumed_rounds {body : Cursor → List Cursor}
    (hbody : ∀ c, ∀ d ∈ body c, Consumed n c d) {greedy : Bool} {fuel lo : ℕ} {hi : Option ℕ}
    (hlo : k ≤ lo) (hhi : ∀ m ∈ hi, k ≤ m) (hd : d ∈ rounds body greedy fuel lo hi c) :
    Consumed (k * n) c d := by
  induction fuel generalizing k lo hi c with
  | zero => cases hd
  | succ fuel ih =>
      have hstop : k = 0 → d = c → Consumed (k * n) c d := by
        intro hk hdc
        rw [hk, Nat.zero_mul, hdc]
        exact .refl c
      have hmore : d ∈ (body c).flatMap (fun e =>
          if lo = 0 ∧ e.right.length = c.right.length then []
          else rounds body greedy fuel (lo - 1) (hi.map (· - 1)) e) → Consumed (k * n) c d := by
        intro hd
        obtain ⟨e, he, hd⟩ := List.mem_flatMap.mp hd
        split_ifs at hd
        · cases hd
        · have hhi' : ∀ m ∈ hi.map (· - 1), k - 1 ≤ m := by
            intro m hm
            obtain ⟨i, hi', rfl⟩ := Option.map_eq_some_iff.mp hm
            exact Nat.sub_le_sub_right (hhi i hi') 1
          refine ((hbody c e he).trans (ih (Nat.sub_le_sub_right hlo 1) hhi' hd)).mono ?_
          cases k with
          | zero =>
              rw [Nat.zero_mul]
              exact Nat.zero_le _
          | succ k => rw [Nat.succ_mul, Nat.add_sub_cancel, Nat.add_comm]
      rw [rounds] at hd
      split_ifs at hd with hzero howed hgreedy
      · exact hstop (Nat.le_zero.mp (hhi 0 hzero)) (List.mem_singleton.mp hd)
      · exact hmore hd
      · rcases List.mem_append.mp hd with hd | hd
        · exact hmore hd
        · exact hstop (by omega) (List.mem_singleton.mp hd)
      · rcases List.mem_cons.mp hd with hd | hd
        · exact hstop (by omega) hd
        · exact hmore hd

theorem consumes_zero (r : Regex) : Consumes r 0 := by
  induction r with
  | empty =>
      intro c d hd
      rw [run_empty, List.mem_singleton] at hd
      rw [hd]
      exact .refl c
  | unit p => exact (consumes_unit p).mono (Nat.zero_le 1)
  | seq a b iha ihb => exact consumes_seq iha ihb
  | alt a b iha ihb => exact consumes_alt iha ihb
  | rep greedy lo hi body ih =>
      intro c d hd
      rw [run_rep] at hd
      exact (consumed_rounds ih (Nat.zero_le lo) (fun m _ => Nat.zero_le m) hd).mono
        (Nat.zero_le _)
  | bos | eos | wordBoundary =>
      intro c d hd
      rw [Regex.run] at hd
      split_ifs at hd
      · rw [List.mem_singleton.mp hd]
        exact .refl c
      · cases hd
  | capture body ih =>
      intro c d hd
      rw [run_capture] at hd
      obtain ⟨e, he, rfl⟩ := List.mem_map.mp hd
      exact ih c e he

theorem consumes_rep (hr : Consumes r n) (greedy : Bool) (lo : ℕ) :
    Consumes (.rep greedy lo none r) (lo * n) := by
  intro c d hd
  rw [run_rep] at hd
  exact consumed_rounds hr le_rfl (fun m hm => by cases hm) hd

theorem consumes_lit (s : Text) : Consumes (lit s) s.length := by
  induction s with
  | nil => exact consumes_zero _
  | cons u s ih =>
      rw [lit, List.length_cons, Nat.add_comm]
      exact consumes_seq (consumes_unit _) ih

/-! ## Replacing -/

/-- The match is a part of the text. -/
theorem execFrom_parts (hr : Consumes r n) {left s : Text} {m : Match}
    (h : r.execFrom left s = some m) :
    ∃ skipped, m.before = left.reverse ++ skipped ∧ s = skipped ++ m.text ++ m.after ∧
      n ≤ m.text.length := by
  induction s generalizing left with
  | nil =>
      rw [execFrom] at h
      cases hrun : r.run ⟨left, [], none⟩ with
      | nil =>
          rw [hrun] at h
          cases h
      | cons d ds =>
          obtain ⟨t, hright, -, hn⟩ := hr ⟨left, [], none⟩ d (by rw [hrun]; exact List.mem_cons_self)
          obtain ⟨rfl, hnil⟩ := List.nil_eq_append_iff.mp hright
          rw [hrun] at h
          cases h
          exact ⟨[], (List.append_nil _).symm, hnil.symm, hn⟩
  | cons u s ih =>
      rw [execFrom] at h
      cases hrun : r.run ⟨left, u :: s, none⟩ with
      | nil =>
          rw [hrun] at h
          obtain ⟨skipped, hbefore, hs, hn⟩ := ih h
          refine ⟨u :: skipped, ?_, ?_, hn⟩
          · rw [hbefore, List.reverse_cons, List.append_assoc]
            rfl
          · rw [hs]
            rfl
      | cons d ds =>
          obtain ⟨t, hright, -, hn⟩ :=
            hr ⟨left, u :: s, none⟩ d (by rw [hrun]; exact List.mem_cons_self)
          have htext : (u :: s).take ((u :: s).length - d.right.length) = t := by
            rw [show u :: s = t ++ d.right from hright, List.length_append, Nat.add_sub_cancel,
              List.take_left]
          rw [hrun] at h
          cases h
          rw [htext]
          exact ⟨[], (List.append_nil _).symm, hright, hn⟩

theorem drop_behind (left t : Text) : (left.reverse ++ t).drop left.length = t :=
  List.drop_left' List.length_reverse

/-- What is put together again from the matches in a rest of the text. -/
theorem shrinks_splice (hr : Consumes r (n + 1)) {f : Match → Text}
    (hf : ∀ m, (f m).length ≤ n) (fuel : ℕ) (left s : Text) :
    Shrinks (splice f (left.reverse ++ s) left.length (r.allFrom fuel left s)) s := by
  induction fuel generalizing left s with
  | zero =>
      rw [allFrom, splice, drop_behind]
      exact .refl s
  | succ fuel ih =>
      rw [allFrom]
      cases hexec : r.execFrom left s with
      | none =>
          dsimp only
          rw [splice, drop_behind]
          exact .refl s
      | some m =>
          obtain ⟨skipped, hbefore, hs, hn⟩ := execFrom_parts hr hexec
          have hne : m.text.isEmpty = false := by
            rw [List.isEmpty_eq_false_iff]
            exact List.length_pos_iff.mp (by omega)
          have hwhole : left.reverse ++ s = ((m.before ++ m.text).reverse).reverse ++ m.after := by
            rw [List.reverse_reverse, hbefore, hs]
            simp only [List.append_assoc]
          have hlength : ((m.before ++ m.text).reverse).length =
              m.before.length + m.text.length := by
            rw [List.length_reverse, List.length_append]
          have htake : ((left.reverse ++ s).take m.before.length).drop left.length = skipped := by
            rw [hwhole, List.reverse_reverse, List.append_assoc, List.take_left, hbefore, drop_behind]
          have hafter := ih (m.before ++ m.text).reverse m.after
          rw [← hwhole, hlength] at hafter
          dsimp only
          rw [hne, if_neg Bool.false_ne_true, splice, htake]
          refine .inr ?_
          have hle := hafter.length_le
          have hfm := hf m
          have hsum := congrArg List.length hs
          rw [List.length_append, List.length_append] at hsum
          rw [List.length_append, List.length_append]
          omega

/-- Replacing every match by less. -/
theorem shrinks_replaceAll (hr : Consumes r (n + 1)) {f : Match → Text}
    (hf : ∀ m, (f m).length ≤ n) (s : Text) : Shrinks (r.replaceAll f s) s :=
  shrinks_splice hr hf (s.length + 1) [] s

theorem shrinks_replaceFirst (hr : Consumes r (n + 1)) {f : Match → Text}
    (hf : ∀ m, (f m).length ≤ n) (s : Text) : Shrinks (r.replaceFirst f s) s := by
  rw [replaceFirst]
  cases hexec : r.exec s with
  | none => exact .refl s
  | some m =>
      obtain ⟨skipped, hbefore, hs, hn⟩ := execFrom_parts hr hexec
      have hfm := hf m
      rw [List.reverse_nil, List.nil_append] at hbefore
      refine .inr ?_
      dsimp only
      rw [hs, hbefore]
      simp only [List.length_append]
      omega

end

end Shizuha.Js
