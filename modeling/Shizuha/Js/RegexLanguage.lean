import Shizuha.Js.Regex

/-!
# Where a pattern can end

Membership in the list of a pattern's ends, form by form. The order of the list
is not looked at: a pattern that starts at the beginning of the text and whose
ends agree about the group captures that group (`exec_bos_some`).
-/

namespace Shizuha.Js

open Regex

variable {a b r : Regex} {c d : Cursor} {p : UInt16 → Bool} {s : Text} {lo fuel : ℕ}

theorem mem_run_seq : d ∈ (Regex.seq a b).run c ↔ ∃ e ∈ a.run c, d ∈ b.run e := by
  rw [run_seq, List.mem_flatMap]

theorem mem_run_alt : d ∈ (Regex.alt a b).run c ↔ d ∈ a.run c ∨ d ∈ b.run c := by
  rw [run_alt, List.mem_append]

theorem mem_run_bos : d ∈ Regex.bos.run c ↔ c.left = [] ∧ d = c := by
  show d ∈ (if c.left.isEmpty then [c] else []) ↔ _
  cases hleft : c.left with
  | nil => simp
  | cons u l => simp

theorem mem_run_eos : d ∈ Regex.eos.run c ↔ c.right = [] ∧ d = c := by
  show d ∈ (if c.right.isEmpty then [c] else []) ↔ _
  cases hright : c.right with
  | nil => simp
  | cons u l => simp

theorem mem_run_capture : d ∈ (Regex.capture r).run c ↔ ∃ e ∈ r.run c,
    d = { e with group := some (e.left.take (e.left.length - c.left.length)).reverse } := by
  rw [run_capture, List.mem_map]
  simp only [eq_comm]

theorem mem_run_lit : d ∈ (lit s).run c ↔
    c.right = s ++ d.right ∧ d = ⟨s.reverse ++ c.left, d.right, c.group⟩ := by
  induction s generalizing c with
  | nil =>
      rw [lit, run_empty, List.mem_singleton]
      constructor
      · rintro rfl
        exact ⟨rfl, rfl⟩
      · rintro ⟨hright, hd⟩
        rw [hd, ← List.nil_append d.right, ← hright]
        rfl
  | cons u s ih =>
      rw [lit, mem_run_seq]
      cases hright : c.right with
      | nil =>
          simp [Regex.run, hright]
      | cons v t =>
          have hunit : (Regex.unit (· == u)).run c =
              if v == u then [⟨v :: c.left, t, c.group⟩] else [] := by
            rw [Regex.run, hright]
          rw [hunit]
          by_cases hvu : v = u
          · subst hvu
            simp only [beq_self_eq_true, if_true, List.mem_singleton, exists_eq_left, ih]
            simp
          · simp [hvu]

/-- One more unit is taken, or the quantifier stops. -/
theorem rounds_unit (left right : Text) (group : Option Text) :
    rounds (Regex.unit p).run true (fuel + 1) lo none ⟨left, right, group⟩ =
      (match right with
        | [] => []
        | u :: t =>
            if p u then rounds (Regex.unit p).run true fuel (lo - 1) none ⟨u :: left, t, group⟩
            else []) ++
      if 0 < lo then [] else [⟨left, right, group⟩] := by
  rw [rounds, if_neg (by simp)]
  dsimp only
  have hmore : ((Regex.unit p).run ⟨left, right, group⟩).flatMap (fun d =>
      if lo = 0 ∧ d.right.length = right.length then []
      else rounds (Regex.unit p).run true fuel (lo - 1) (Option.map (· - 1) none) d) =
      match right with
      | [] => []
      | u :: t =>
          if p u then rounds (Regex.unit p).run true fuel (lo - 1) none ⟨u :: left, t, group⟩
          else [] := by
    cases right with
    | nil => rfl
    | cons u t =>
        rw [Regex.run]
        by_cases hu : p u = true
        · simp [hu]
        · simp [hu]
  rw [hmore]
  by_cases hlo : 0 < lo
  · rw [if_pos hlo, if_pos hlo, List.append_nil]
  · rw [if_neg hlo, if_neg hlo, if_pos rfl]

/-- The units a greedy quantifier takes. -/
theorem mem_rounds_unit (left right : Text) (group : Option Text) (hfuel : right.length < fuel) :
    d ∈ rounds (Regex.unit p).run true fuel lo none ⟨left, right, group⟩ ↔
      ∃ ds, lo ≤ ds.length ∧ (∀ u ∈ ds, p u = true) ∧ right = ds ++ d.right ∧
        d = ⟨ds.reverse ++ left, d.right, group⟩ := by
  induction fuel generalizing left right lo with
  | zero => exact absurd hfuel (Nat.not_lt_zero _)
  | succ fuel ih =>
      rw [rounds_unit, List.mem_append]
      constructor
      · rintro (hmore | hstop)
        · cases right with
          | nil => exact absurd hmore List.not_mem_nil
          | cons u t =>
              dsimp only at hmore
              split_ifs at hmore with hu
              · obtain ⟨ds, hlen, hall, hright, hd⟩ :=
                  (ih (u :: left) t (Nat.lt_of_succ_lt_succ hfuel)).mp hmore
                refine ⟨u :: ds, by rw [List.length_cons]; omega, ?_, ?_, ?_⟩
                · simpa [hu] using hall
                · rw [List.cons_append, ← hright]
                · simpa using hd
              · exact absurd hmore List.not_mem_nil
        · split_ifs at hstop with hlo
          · exact absurd hstop List.not_mem_nil
          · rw [List.mem_singleton] at hstop
            subst hstop
            exact ⟨[], Nat.le_of_not_lt hlo, by simp, rfl, rfl⟩
      · rintro ⟨ds, hlen, hall, hright, hd⟩
        cases ds with
        | nil =>
            have hlo : ¬ 0 < lo := Nat.not_lt.mpr hlen
            refine .inr ?_
            rw [if_neg hlo, List.mem_singleton, hd, hright]
            rfl
        | cons u ds =>
            refine .inl ?_
            rw [hright, List.cons_append]
            dsimp only
            rw [if_pos (hall u List.mem_cons_self)]
            rw [hright, List.cons_append, List.length_cons] at hfuel
            refine (ih (u :: left) _ (Nat.lt_of_succ_lt_succ hfuel)).mpr ⟨ds, ?_, ?_, rfl, ?_⟩
            · rw [List.length_cons] at hlen
              omega
            · exact fun v hv => hall v (List.mem_cons_of_mem _ hv)
            · simpa using hd

theorem mem_run_plus_unit : d ∈ (plus (.unit p)).run c ↔
    ∃ ds, ds ≠ [] ∧ (∀ u ∈ ds, p u = true) ∧ c.right = ds ++ d.right ∧
      d = ⟨ds.reverse ++ c.left, d.right, c.group⟩ := by
  rw [plus, run_rep, mem_rounds_unit c.left c.right c.group (by omega)]
  simp only [Nat.one_le_iff_ne_zero, ne_eq, List.length_eq_zero_iff]

/-- The units a captured quantifier takes are the group. -/
theorem mem_run_capture_plus_unit : d ∈ (Regex.capture (plus (.unit p))).run c ↔
    ∃ ds, ds ≠ [] ∧ (∀ u ∈ ds, p u = true) ∧ c.right = ds ++ d.right ∧
      d = ⟨ds.reverse ++ c.left, d.right, some ds⟩ := by
  rw [mem_run_capture]
  constructor
  · rintro ⟨e, he, rfl⟩
    obtain ⟨ds, hne, hall, hright, heq⟩ := mem_run_plus_unit.mp he
    refine ⟨ds, hne, hall, hright, ?_⟩
    rw [heq]
    simp
  · rintro ⟨ds, hne, hall, hright, hd⟩
    refine ⟨⟨ds.reverse ++ c.left, d.right, c.group⟩,
      mem_run_plus_unit.mpr ⟨ds, hne, hall, hright, rfl⟩, ?_⟩
    rw [hd]
    simp

/-! ## Patterns that start at the beginning -/

theorem execFrom_bos {left : Text} (hleft : left ≠ []) (s : Text) :
    (Regex.seq .bos r).execFrom left s = none := by
  have hrun : ∀ (left right : Text), left ≠ [] →
      (Regex.seq .bos r).run ⟨left, right, none⟩ = [] := by
    intro left right hleft
    rw [Regex.run, Regex.run]
    cases left with
    | nil => exact absurd rfl hleft
    | cons u left => rfl
  induction s generalizing left with
  | nil => rw [Regex.execFrom, hrun left [] hleft]
  | cons u s ih =>
      rw [Regex.execFrom, hrun left (u :: s) hleft]
      exact ih (List.cons_ne_nil _ _)

theorem run_bos (s : Text) : (Regex.seq .bos r).run ⟨[], s, none⟩ = r.run ⟨[], s, none⟩ := by
  rw [Regex.run, Regex.run]
  exact List.append_nil _

theorem exec_bos_none (h : ∀ d, d ∉ r.run ⟨[], s, none⟩) : (Regex.seq .bos r).exec s = none := by
  have hnil := List.eq_nil_iff_forall_not_mem.mpr h
  cases s with
  | nil => rw [Regex.exec, Regex.execFrom, run_bos, hnil]
  | cons u s =>
      rw [Regex.exec, Regex.execFrom, run_bos, hnil]
      exact execFrom_bos (List.cons_ne_nil _ _) s

/-- The group is that of every end. -/
theorem exec_bos_some {group : Option Text} (hmem : d ∈ r.run ⟨[], s, none⟩)
    (h : ∀ e ∈ r.run ⟨[], s, none⟩, e.group = group) :
    ∃ m, (Regex.seq .bos r).exec s = some m ∧ m.group = group := by
  obtain ⟨e, rest, hrun⟩ := List.exists_cons_of_ne_nil (List.ne_nil_of_mem hmem)
  have he := h e (hrun ▸ List.mem_cons_self)
  cases s with
  | nil =>
      rw [Regex.exec, Regex.execFrom, run_bos, hrun]
      exact ⟨_, rfl, he⟩
  | cons u s =>
      rw [Regex.exec, Regex.execFrom, run_bos, hrun]
      exact ⟨_, rfl, he⟩

end Shizuha.Js

/-!
# The language of a pattern

A pattern without captures and without anchors takes one of a set of words off
the text that is ahead of it, whatever lies behind: `Takes r P` says that its
ends are those of the words in `P`. The sets compose as the patterns do.

Of a pattern that is tried at the beginning, and whose words are such that a
text starts with one of them at most, the match is that word (`exec_takes`).
-/

namespace Shizuha.Js

open Regex

variable {a b r : Regex} {P Q : Text → Prop} {c d : Cursor} {s t : Text}

/-- The cursor behind a word that is ahead of it. -/
def Cursor.past (c : Cursor) (t rest : Text) : Cursor := ⟨t.reverse ++ c.left, rest, c.group⟩

def Takes (r : Regex) (P : Text → Prop) : Prop :=
  ∀ c d, d ∈ r.run c ↔ ∃ t, P t ∧ c.right = t ++ d.right ∧ d = c.past t d.right

theorem takes_lit (s : Text) : Takes (lit s) fun t => t = s := by
  intro c d
  rw [mem_run_lit]
  simp only [exists_eq_left, Cursor.past]

theorem takes_unit (p : UInt16 → Bool) : Takes (.unit p) fun t => ∃ u, t = [u] ∧ p u = true := by
  intro c d
  rw [Regex.run]
  cases hright : c.right with
  | nil => simp
  | cons u s =>
      dsimp only
      constructor
      · intro hd
        split_ifs at hd with hu
        · rw [List.mem_singleton] at hd
          subst hd
          exact ⟨[u], ⟨u, rfl, hu⟩, rfl, rfl⟩
        · exact absurd hd List.not_mem_nil
      · intro hd
        obtain ⟨t, ⟨v, htv, hv⟩, hs, hd⟩ := hd
        subst htv
        obtain ⟨rfl, hrest⟩ := List.cons.inj hs
        have hs' : d.right = s := hrest.symm
        rw [if_pos hv, List.mem_singleton, hd, hs']
        rfl

theorem takes_seq (ha : Takes a P) (hb : Takes b Q) :
    Takes (.seq a b) fun t => ∃ v w, t = v ++ w ∧ P v ∧ Q w := by
  intro c d
  rw [mem_run_seq]
  constructor
  · intro ⟨e, he, hd⟩
    obtain ⟨v, hv, hcv, hev⟩ := (ha c e).mp he
    obtain ⟨w, hw, hew, hdw⟩ := (hb e d).mp hd
    refine ⟨v ++ w, ⟨v, w, rfl, hv, hw⟩, ?_, ?_⟩
    · rw [hcv, hew, List.append_assoc]
    · rw [hdw, hev]
      simp [Cursor.past]
  · intro ⟨t, ⟨v, w, ht, hv, hw⟩, hc, hd⟩
    subst ht
    refine ⟨c.past v (w ++ d.right), (ha _ _).mpr ⟨v, hv, ?_, rfl⟩,
      (hb _ _).mpr ⟨w, hw, rfl, ?_⟩⟩
    · rw [hc, List.append_assoc]
      rfl
    · rw [hd]
      simp [Cursor.past]

theorem takes_alt (ha : Takes a P) (hb : Takes b Q) : Takes (.alt a b) fun t => P t ∨ Q t := by
  intro c d
  rw [mem_run_alt, ha c d, hb c d]
  constructor
  · rintro (⟨t, ht, h⟩ | ⟨t, ht, h⟩)
    · exact ⟨t, .inl ht, h⟩
    · exact ⟨t, .inr ht, h⟩
  · rintro ⟨t, ht | ht, h⟩
    · exact .inl ⟨t, ht, h⟩
    · exact .inr ⟨t, ht, h⟩

theorem takes_star_unit (p : UInt16 → Bool) :
    Takes (Regex.star (.unit p)) fun t => ∀ u ∈ t, p u = true := by
  intro c d
  rw [Regex.star, run_rep, mem_rounds_unit c.left c.right c.group (by omega)]
  simp only [Nat.zero_le, true_and, Cursor.past]

/-! ## The match at the beginning -/

/-- A text starts with one word at most. -/
def StartsOnce (P : Text → Prop) : Prop := ∀ v w s, P v → P w → v <+: s → w <+: s → v = w

/-- The best end is the one of the word that is ahead. -/
theorem run_takes (hr : Takes r P) (hP : StartsOnce P) (ht : P t) (hright : c.right = t ++ s) :
    ∃ ds, r.run c = c.past t s :: ds := by
  have hmem : c.past t s ∈ r.run c := (hr _ _).mpr ⟨t, ht, hright, rfl⟩
  obtain ⟨d, ds, hds⟩ := List.exists_cons_of_ne_nil (List.ne_nil_of_mem hmem)
  obtain ⟨w, hw, hcw, hd⟩ := (hr c d).mp (hds ▸ List.mem_cons_self)
  have hwt : w = t := hP w t c.right hw ht ⟨_, hcw.symm⟩ ⟨_, hright.symm⟩
  subst hwt
  have hrest : d.right = s := List.append_cancel_left (hcw.symm.trans hright)
  rw [hrest] at hd
  exact ⟨ds, hd ▸ hds⟩

theorem run_takes_nil (hr : Takes r P) (h : ∀ t, P t → ¬ t <+: c.right) : r.run c = [] := by
  refine List.eq_nil_iff_forall_not_mem.mpr fun d hd => ?_
  obtain ⟨t, ht, hright, -⟩ := (hr c d).mp hd
  exact h t ht ⟨_, hright.symm⟩

/-- A greedy option takes the word that is ahead. -/
theorem run_opt_takes (hr : Takes r P) (hP : StartsOnce P) (hne : t ≠ []) (ht : P t)
    (hright : c.right = t ++ s) : ∃ ds, (opt r).run c = c.past t s :: ds := by
  obtain ⟨ds, hds⟩ := run_takes hr hP ht hright
  have hlen : c.right.length = t.length + s.length := by rw [hright, List.length_append]
  have hpos := List.length_pos_iff.mpr hne
  have hpast : (c.past t s).right.length ≠ c.right.length := by
    show s.length ≠ _
    omega
  obtain ⟨fuel, hfuel⟩ : ∃ fuel, c.right.length = fuel + 1 := ⟨c.right.length - 1, by omega⟩
  have hstop : rounds r.run true c.right.length (0 - 1) (Option.map (· - 1) (some 1)) (c.past t s) =
      [c.past t s] := by
    rw [hfuel, rounds]
    exact if_pos rfl
  rw [opt, run_rep, Nat.zero_add, rounds, if_neg (by simp), hds]
  simp only [List.flatMap_cons, hpast, and_false, if_false, hstop]
  exact ⟨_, rfl⟩

theorem run_opt_nil (h : r.run c = []) : (opt r).run c = [c] := by
  rw [opt, run_rep, rounds, if_neg (by simp), h]
  rfl

theorem exec_bos_cons {ds : List Cursor} (h : r.run ⟨[], s, none⟩ = d :: ds) :
    ((Regex.seq .bos r).exec s).map Match.text = some (s.take (s.length - d.right.length)) := by
  cases s with
  | nil =>
      rw [Regex.exec, Regex.execFrom, run_bos, h, List.take_nil]
      rfl
  | cons u s =>
      rw [Regex.exec, Regex.execFrom, run_bos, h]
      rfl

theorem exec_bos_nil (h : r.run ⟨[], s, none⟩ = []) : (Regex.seq .bos r).exec s = none :=
  exec_bos_none fun d hd => by rw [h] at hd; cases hd

theorem run_lit (hright : c.right = s ++ t) : (lit s).run c = [c.past s t] := by
  induction s generalizing c with
  | nil =>
      rw [lit, run_empty, ← hright.trans (List.nil_append t)]
      rfl
  | cons u s ih =>
      have hrest := ih (c := ⟨u :: c.left, s ++ t, c.group⟩) rfl
      rw [lit, Regex.run, Regex.run, hright, List.cons_append]
      simp only [beq_self_eq_true, if_true, List.flatMap_singleton, hrest]
      simp [Cursor.past]

/-- A pattern that begins with a literal, on a text that does. -/
theorem exec_lit_cons {ds : List Cursor} (h : r.run ⟨s.reverse, t, none⟩ = d :: ds) :
    ((cat [.bos, lit s, r]).exec (s ++ t)).map Match.text =
      some ((s ++ t).take ((s ++ t).length - d.right.length)) := by
  have hrun : (Regex.seq (lit s) r).run ⟨[], s ++ t, none⟩ = d :: ds := by
    rw [run_seq, run_lit rfl, List.flatMap_singleton]
    simpa [Cursor.past] using h
  exact exec_bos_cons hrun

theorem exec_lit_nil (h : r.run ⟨s.reverse, t, none⟩ = []) :
    (cat [.bos, lit s, r]).exec (s ++ t) = none := by
  have hrun : (Regex.seq (lit s) r).run ⟨[], s ++ t, none⟩ = [] := by
    rw [run_seq, run_lit rfl, List.flatMap_singleton]
    simpa [Cursor.past] using h
  exact exec_bos_nil hrun

theorem exec_lit_none (h : ¬ s <+: t) : (cat [.bos, lit s, r]).exec t = none := by
  have hnil : (lit s).run ⟨[], t, none⟩ = [] :=
    run_takes_nil (takes_lit s) fun w hw => by rwa [hw]
  have hrun : (Regex.seq (lit s) r).run ⟨[], t, none⟩ = [] := by
    rw [run_seq, hnil]
    rfl
  exact exec_bos_nil hrun

/-- The match is the literal and the word behind it. -/
theorem exec_lit_takes (hr : Takes r P) (hP : StartsOnce P) (ht : P t) (s rest : Text) :
    ((cat [.bos, lit s, r]).exec (s ++ (t ++ rest))).map Match.text = some (s ++ t) := by
  obtain ⟨ds, hds⟩ := run_takes (c := ⟨s.reverse, t ++ rest, none⟩) hr hP ht rfl
  have hlen : (s ++ (t ++ rest)).length - rest.length = (s ++ t).length := by
    simp only [List.length_append]
    omega
  rw [exec_lit_cons hds]
  show some ((s ++ (t ++ rest)).take ((s ++ (t ++ rest)).length - rest.length)) = _
  rw [hlen, ← List.append_assoc, List.take_left']
  rfl

theorem exec_lit_takes_none (hr : Takes r P) (s : Text) (h : ∀ w, P w → ¬ w <+: t) :
    (cat [.bos, lit s, r]).exec (s ++ t) = none :=
  exec_lit_nil (run_takes_nil hr h)

end Shizuha.Js
