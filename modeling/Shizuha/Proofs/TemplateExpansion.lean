import Mathlib.Data.List.Nodup
import Shizuha.Js.Replacement
import Shizuha.Workflows.Store

/-!
# Filling in a template

What a template is to become is said at once for all variables (`fill`): each
placeholder of the template gives way to its value, and nothing else changes.
The code replaces one variable after the other, over what the ones before have
left, and the value it puts in is a replacement text.

So two things have to hold of the variables for every template to come out right,
and they are enough (`template_expansion_iff`). No value has a dollar sign that
means something; and nothing that an earlier value is put into is a placeholder
of a later variable which was not there before. The second is about what the
value has in it, and about what it may complete on either side (`Apart`).
-/

namespace Shizuha.Workflows

open Js

/-- The variable whose placeholder stands here. -/
def entryAt (entries : List (Text × Text)) (s : Text) : Option (Text × Text) :=
  entries.find? fun e => (placeholder e.1).isPrefixOf s

def fillFrom (entries : List (Text × Text)) : ℕ → Text → Text
  | _, [] => []
  | skip + 1, _ :: s => fillFrom entries skip s
  | 0, u :: s =>
      match entryAt entries (u :: s) with
      | some e => e.2 ++ fillFrom entries ((placeholder e.1).length - 1) s
      | none => u :: fillFrom entries 0 s

/-- Every placeholder of the template replaced by its value, all at once. -/
def fill (entries : List (Text × Text)) (template : Text) : Text := fillFrom entries 0 template

/-! ## Placeholders -/

/-- Different names, all of them words. -/
structure Keyed (entries : List (Text × Text)) : Prop where
  nodup : (entries.map Prod.fst).Nodup
  words : ∀ e ∈ entries, ∀ u ∈ e.1, isWord u = true

theorem Vars.keyed (vars : Vars) : Keyed vars.entries := ⟨vars.nodup, vars.words⟩

theorem Keyed.sublist {entries part : List (Text × Text)} (h : Keyed entries)
    (hpart : part.Sublist entries) : Keyed part :=
  ⟨h.nodup.sublist (hpart.map Prod.fst), fun e he => h.words e (hpart.subset he)⟩

theorem placeholder_eq (key : Text) : placeholder key = 123 :: 123 :: (key ++ [125, 125]) := by
  have hopen : js "\x7b\x7b" = [123, 123] := by decide
  have hclose : js "\x7d\x7d" = [125, 125] := by decide
  rw [placeholder, hopen, hclose]
  rfl

theorem placeholder_ne_nil (key : Text) : placeholder key ≠ [] := by
  rw [placeholder_eq]
  simp

theorem length_placeholder (key : Text) : (placeholder key).length = key.length + 4 := by
  rw [placeholder_eq]
  simp

section Words

variable {key other : Text} (hkey : ∀ u ∈ key, isWord u = true)
  (hother : ∀ u ∈ other, isWord u = true)

include hkey

theorem not_mem_word {u : UInt16} (hu : isWord u = false) : u ∉ key := by
  intro hin
  rw [hkey u hin] at hu
  cases hu

/-- A brace opens at the two first places only. -/
theorem lt_two_of_open {i : ℕ} (h : (placeholder key)[i]? = some 123) : i < 2 := by
  rw [placeholder_eq] at h
  match i with
  | 0 => omega
  | 1 => omega
  | i + 2 =>
      rw [List.getElem?_cons_succ, List.getElem?_cons_succ] at h
      have hmem := List.mem_of_getElem? h
      rw [List.mem_append] at hmem
      rcases hmem with hin | hin
      · exact absurd hin (not_mem_word hkey (by decide))
      · exact absurd hin (by decide)

theorem count_close : (placeholder key).count 125 = 2 := by
  have hnone : key.count 125 = 0 := List.count_eq_zero.mpr (not_mem_word hkey (by decide))
  rw [placeholder_eq, List.count_cons_of_ne (by decide), List.count_cons_of_ne (by decide),
    List.count_append, hnone]
  rfl

theorem count_open : (placeholder key).count 123 = 2 := by
  have hnone : key.count 123 = 0 := List.count_eq_zero.mpr (not_mem_word hkey (by decide))
  rw [placeholder_eq, List.count_cons_self, List.count_cons_self, List.count_append, hnone]
  rfl

/-- Only one placeholder stands at a place. -/
theorem takeWhile_word (s : Text) :
    (key ++ 125 :: s).takeWhile isWord = key := by
  rw [List.takeWhile_append_of_pos hkey, List.takeWhile_cons_of_neg (by decide), List.append_nil]

/-- No placeholder begins inside another. -/
theorem not_inside {p₁ p₂ t : Text} (h : placeholder key = p₁ ++ p₂) (h₁ : p₁ ≠ [])
    (h₂ : p₂ ≠ []) : ¬ placeholder other <+: p₂ ++ t := by
  intro hprefix
  obtain ⟨y, hy⟩ := hprefix
  rw [placeholder_eq other] at hy
  have hlength := congrArg List.length h
  rw [length_placeholder, List.length_append] at hlength
  have hpos := List.length_pos_iff.mpr h₁
  have hpos₂ := List.length_pos_iff.mpr h₂
  have hat : ∀ i, i < p₂.length → (p₂ ++ t)[i]? = (placeholder key)[p₁.length + i]? := by
    intro i hi
    rw [h, List.getElem?_append_left hi, List.getElem?_append_right (by omega),
      Nat.add_sub_cancel_left]
  have hfirst : (p₂ ++ t)[0]? = some 123 := by rw [← hy]; rfl
  have hsecond : (p₂ ++ t)[1]? = some 123 := by rw [← hy]; rfl
  rw [hat 0 hpos₂] at hfirst
  have hone := lt_two_of_open hkey hfirst
  rw [hat 1 (by omega)] at hsecond
  have htwo := lt_two_of_open hkey hsecond
  omega

include hother

theorem key_unique {s : Text} (h : placeholder key <+: s) (h' : placeholder other <+: s) :
    key = other := by
  obtain ⟨x, rfl⟩ := h
  obtain ⟨y, hy⟩ := h'
  rw [placeholder_eq, placeholder_eq] at hy
  simp only [List.cons_append, List.append_assoc, List.cons.injEq, true_and] at hy
  have hwords := congrArg (List.takeWhile isWord) hy
  simpa [takeWhile_word hkey, takeWhile_word hother] using hwords.symm

/-- None begins in the part of one that another cuts short. -/
theorem not_before {p₁ p₂ r t : Text} (h : placeholder key = (p₁ ++ p₂) ++ r) (h₂ : p₂ ≠ [])
    (hr : r ≠ []) : ¬ placeholder other <+: p₂ ++ (123 :: 123 :: t) := by
  intro hprefix
  obtain ⟨y, hy⟩ := hprefix
  have hpos := List.length_pos_iff.mpr h₂
  have hlength := length_placeholder other
  by_cases hlong : (placeholder other).length ≤ p₂.length
  · -- It would be in it, with two closing braces and one more to come.
    have hin : placeholder other <+: p₂ :=
      List.prefix_of_prefix_length_le ⟨y, hy⟩ (List.prefix_append _ _) hlong
    have hcount := hin.sublist.count_le 125
    have hall := congrArg (List.count 125) h
    have hlast : 125 ∈ r := by
      have hsuffix : r <:+ placeholder key := ⟨p₁ ++ p₂, h.symm⟩
      have hgetLast : r.getLast hr = (placeholder key).getLast (placeholder_ne_nil key) := by
        rw [List.getLast_congr _ (by simp [hr]) h, List.getLast_append_of_ne_nil _ hr]
      have hclose : (placeholder key).getLast (placeholder_ne_nil key) = 125 := by
        simp [placeholder_eq]
      rw [← hclose, ← hgetLast]
      exact List.getLast_mem hr
    have hone := List.count_pos_iff.mpr hlast
    rw [count_close hother] at hcount
    rw [count_close hkey, List.count_append, List.count_append] at hall
    omega
  · have hat : ∀ i, (p₂ ++ (123 :: 123 :: t))[p₂.length + i]? = (123 :: 123 :: t)[i]? := by
      intro i
      rw [List.getElem?_append_right (by omega), Nat.add_sub_cancel_left]
    have hfirst := hat 0
    have hsecond := hat 1
    rw [← hy, List.getElem?_append_left (by omega)] at hfirst
    have hone := lt_two_of_open hother hfirst
    rw [← hy, List.getElem?_append_left (by omega)] at hsecond
    have htwo := lt_two_of_open hother hsecond
    omega

/-- And none is in the rest of one. -/
theorem free_after {r q : Text} (h : placeholder key = r ++ q) (hr : r ≠ []) :
    Free (placeholder other) q := by
  intro a b heq
  have hall := congrArg (List.count 123) h
  have hq := congrArg (List.count 123) heq
  have hfirst : 123 ∈ r := by
    obtain ⟨u, r', rfl⟩ := List.exists_cons_of_ne_nil hr
    rw [placeholder_eq, List.cons_append, List.cons.injEq] at h
    rw [← h.1]
    exact List.mem_cons_self
  have hone := List.count_pos_iff.mpr hfirst
  rw [count_open hkey, List.count_append] at hall
  rw [List.count_append, List.count_append, count_open hother] at hq
  omega

end Words

/-! ## Filling in, piece by piece -/

section Fill

variable {entries : List (Text × Text)}

theorem fillFrom_drop (skip : ℕ) (s : Text) :
    fillFrom entries skip s = fill entries (s.drop skip) := by
  induction s generalizing skip with
  | nil => simp [fill, fillFrom]
  | cons u s ih =>
      cases skip with
      | zero => rfl
      | succ skip => rw [fillFrom, ih, List.drop_succ_cons]

theorem fill_cons {u : UInt16} {s : Text}
    (h : ∀ e ∈ entries, ¬ placeholder e.1 <+: u :: s) :
    fill entries (u :: s) = u :: fill entries s := by
  have hnone : entryAt entries (u :: s) = none := by
    rw [entryAt, List.find?_eq_none]
    intro e he
    rw [List.isPrefixOf_iff_prefix]
    exact h e he
  rw [fill, fillFrom, hnone]
  rfl

theorem fill_at (hkeyed : Keyed entries) {e : Text × Text} (he : e ∈ entries) (t : Text) :
    fill entries (placeholder e.1 ++ t) = e.2 ++ fill entries t := by
  have hprefix : placeholder e.1 <+: placeholder e.1 ++ t := List.prefix_append _ _
  have hfound : entryAt entries (placeholder e.1 ++ t) = some e := by
    cases hfind : entryAt entries (placeholder e.1 ++ t) with
    | none =>
        have hnone := List.find?_eq_none.mp hfind e he
        rw [List.isPrefixOf_iff_prefix] at hnone
        exact absurd hprefix hnone
    | some e' =>
        have hmem := List.mem_of_find?_eq_some hfind
        have hprefix' := List.find?_some hfind
        rw [List.isPrefixOf_iff_prefix] at hprefix'
        have hkey := key_unique (hkeyed.words e' hmem) (hkeyed.words e he) hprefix' hprefix
        rw [List.inj_on_of_nodup_map hkeyed.nodup hmem he hkey]
  obtain ⟨u, rest, hcons⟩ := List.exists_cons_of_ne_nil (placeholder_ne_nil e.1)
  have htail : rest.length = (placeholder e.1).length - 1 := by
    rw [hcons, List.length_cons, Nat.add_sub_cancel]
  rw [hcons, List.cons_append] at hfound ⊢
  rw [fill, fillFrom, hfound]
  dsimp only
  rw [fillFrom_drop, ← htail, List.drop_left]

/-- A stretch in which no placeholder begins is left alone. -/
theorem fill_append {p t : Text}
    (h : ∀ p₁ p₂, p = p₁ ++ p₂ → p₂ ≠ [] → ∀ e ∈ entries, ¬ placeholder e.1 <+: p₂ ++ t) :
    fill entries (p ++ t) = p ++ fill entries t := by
  induction p with
  | nil => rfl
  | cons u p ih =>
      have hrest := ih fun p₁ p₂ hp => h (u :: p₁) p₂ (by rw [hp, List.cons_append])
      have hhere : ∀ e ∈ entries, ¬ placeholder e.1 <+: u :: (p ++ t) :=
        h [] (u :: p) rfl (by simp)
      rw [List.cons_append, fill_cons hhere, hrest, List.cons_append]

theorem fill_free {s : Text} (h : ∀ e ∈ entries, Free (placeholder e.1) s) :
    fill entries s = s := by
  have happend := fill_append (p := s) (t := []) fun p₁ p₂ hs _ e he hprefix => by
    obtain ⟨b, hb⟩ := hprefix
    rw [List.append_nil] at hb
    exact h e he p₁ b (by rw [hs, hb])
  rw [List.append_nil] at happend
  rw [happend, fill, fillFrom, List.append_nil]

/-- Every placeholder that begins in the stretch is a whole one of these. -/
theorem fill_rejoin {e : Text × Text} (hkey : ∀ u ∈ e.1, isWord u = true) {pieces : List Text}
    {last : Text} (hpieces : ∀ piece ∈ pieces, Ends (placeholder e.1) piece)
    (hlast : Free (placeholder e.1) last) :
    fill [e] (rejoin (placeholder e.1) pieces last) = rejoin e.2 pieces last := by
  have hkeyed : Keyed [e] :=
    ⟨List.nodup_singleton _, fun e' he' => List.mem_singleton.mp he' ▸ hkey⟩
  induction pieces with
  | nil =>
      refine fill_free fun e' he' => ?_
      rw [List.mem_singleton.mp he']
      exact hlast
  | cons piece pieces ih =>
      have hrest := ih fun q hq => hpieces q (List.mem_cons_of_mem _ hq)
      have hsplit : ∀ sep : Text, rejoin sep (piece :: pieces) last =
          piece ++ (sep ++ rejoin sep pieces last) := fun sep => by simp [rejoin]
      have hends := hpieces piece List.mem_cons_self
      rw [hsplit, hsplit, fill_append, fill_at hkeyed (List.mem_singleton_self e), hrest]
      intro p₁ p₂ hpiece hne e' he'
      rw [List.mem_singleton.mp he']
      have htail : Ends (placeholder e.1) p₂ := by
        intro a b heq
        have hwhole := hends (p₁ ++ a) b (by rw [hpiece, List.append_assoc, heq]; simp)
        rw [hpiece] at hwhole
        exact List.append_cancel_left hwhole
      obtain ⟨u, p₂, rfl⟩ := List.exists_cons_of_ne_nil hne
      exact htail.not_prefix _

theorem fill_single {e : Text × Text} (hkey : ∀ u ∈ e.1, isWord u = true) (s : Text) :
    fill [e] s = join e.2 (splitOn (placeholder e.1) s) := by
  obtain ⟨pieces, last, hsplit, hjoin, hends, hfree⟩ := splitOn_spec (placeholder_ne_nil e.1) s
  rw [hsplit, join, intercalate_concat, hjoin, fill_rejoin hkey hends hfree]

/-- A variable whose value is its placeholder changes nothing. -/
def changes (e : Text × Text) : Bool := e.2 ≠ placeholder e.1

theorem fill_changes (hkeyed : Keyed entries) (s : Text) :
    fill entries s = fill (entries.filter changes) s := by
  have hsub : (entries.filter changes).Sublist entries := List.filter_sublist
  induction hn : s.length using Nat.strong_induction_on generalizing s with
  | _ n ih =>
    cases s with
    | nil => rfl
    | cons u s =>
        by_cases hsome : ∃ e ∈ entries, placeholder e.1 <+: u :: s
        · obtain ⟨e, he, t, ht⟩ := hsome
          have hlt : t.length < n := by
            rw [← hn, ← ht, List.length_append, length_placeholder]
            omega
          have hrest := ih _ hlt t rfl
          rw [← ht, fill_at hkeyed he, hrest]
          by_cases hchanges : changes e = true
          · rw [fill_at (hkeyed.sublist hsub) (List.mem_filter.mpr ⟨he, hchanges⟩)]
          · have hvalue : e.2 = placeholder e.1 := by simpa [changes] using hchanges
            rw [fill_append, hvalue]
            intro p₁ p₂ hsplit hne c hc hprefix
            have hcmem := hsub.subset hc
            by_cases hp₁ : p₁ = []
            · -- At the start there is this placeholder and no other.
              rw [hp₁, List.nil_append] at hsplit
              rw [← hsplit] at hprefix
              have hkey := key_unique (hkeyed.words c hcmem) (hkeyed.words e he) hprefix
                (List.prefix_append _ _)
              rw [List.inj_on_of_nodup_map hkeyed.nodup hcmem he hkey] at hc
              exact hchanges (List.mem_filter.mp hc).2
            · exact not_inside (hkeyed.words e he) hsplit hp₁ hne hprefix
        · have hnone : ∀ e ∈ entries, ¬ placeholder e.1 <+: u :: s :=
            fun e he hprefix => hsome ⟨e, he, hprefix⟩
          have hlt : s.length < n := by
            rw [← hn, List.length_cons]
            omega
          rw [fill_cons hnone, fill_cons fun e he => hnone e (hsub.subset he), ih _ hlt s rfl]

end Fill

/-! ## Replacement texts -/

/-- A dollar sign with a meaning is in the text. -/
def escapes : Text → Bool
  | [] => false
  | [_] => false
  | u :: v :: rest =>
      (u == 36 && (v == 36 || v == 38 || v == 96 || v == 39)) || escapes (v :: rest)

theorem substitution_plain (m : Match) {v : Text} (h : escapes v = false) :
    substitution m v = v := by
  induction v using substitution.induct with
  | case1 => rfl
  | case2 rest ih => simp [escapes] at h
  | case3 rest ih => simp [escapes] at h
  | case4 rest ih => simp [escapes] at h
  | case5 rest ih => simp [escapes] at h
  | case6 u rest h₁ h₂ h₃ h₄ ih =>
      have hrest : escapes rest = false := by
        cases rest with
        | nil => rfl
        | cons w rest =>
            rw [escapes, Bool.or_eq_false_iff] at h
            exact h.2
      rw [substitution.eq_6 m u rest h₁ h₂ h₃ h₄, ih hrest]

/-- Where nothing is around the match and no dollar sign in it, one is lost. -/
theorem count_substitution {p : Text} (hp : (36 : UInt16) ∉ p) (v : Text) :
    (substitution ⟨[], p, [], none⟩ v).count 36 ≤ v.count 36 ∧
      (escapes v = true → (substitution ⟨[], p, [], none⟩ v).count 36 < v.count 36) := by
  have hnone : p.count 36 = 0 := List.count_eq_zero.mpr hp
  have hcons : ∀ (u : UInt16) (s : Text),
      (u :: s).count 36 = s.count 36 + if u == 36 then 1 else 0 :=
    fun u s => List.count_cons
  induction v using substitution.induct with
  | case1 => simp [substitution, escapes]
  | case2 rest ih => simp [substitution, hcons]; omega
  | case3 rest ih => simp [substitution, hcons, hnone]; omega
  | case4 rest ih => simp [substitution, hcons]; omega
  | case5 rest ih => simp [substitution, hcons]; omega
  | case6 u rest h₁ h₂ h₃ h₄ ih =>
      rw [substitution.eq_6 _ u rest h₁ h₂ h₃ h₄, hcons, hcons]
      refine ⟨by omega, fun hescapes => ?_⟩
      have hrest : escapes rest = true := by
        cases rest with
        | nil => simp [escapes] at hescapes
        | cons w rest =>
            rw [escapes, Bool.or_eq_true, Bool.and_eq_true] at hescapes
            rcases hescapes with ⟨hu, hw⟩ | hrest
            · simp only [Bool.or_eq_true, beq_iff_eq] at hu hw
              rcases hw with ((hw | hw) | hw) | hw
              · exact (h₁ rest hu (by rw [hw])).elim
              · exact (h₂ rest hu (by rw [hw])).elim
              · exact (h₃ rest hu (by rw [hw])).elim
              · exact (h₄ rest hu (by rw [hw])).elim
            · exact hrest
      have hlt := ih.2 hrest
      omega

/-! ## One variable after the other -/

/-- Wherever the value is put, no placeholder begins in it, and none that begins
before it goes on in it or behind it. -/
structure Apart (value : Text) (mark : Text) : Prop where
  inside : ∀ q a b, value ++ q = a ++ (mark ++ b) → value.length ≤ a.length
  across : ∀ p q b, p ++ (value ++ q) = mark ++ b → p = [] ∨ mark.length ≤ p.length

/-- A value that is put in first does not disturb the variables after it. -/
theorem fill_fill {e : Text × Text} {rest : List (Text × Text)} (hkeyed : Keyed (e :: rest))
    (hapart : ∀ b ∈ rest, Apart e.2 (placeholder b.1)) (s : Text) :
    fill rest (fill [e] s) = fill (e :: rest) s := by
  have hwords : ∀ u ∈ e.1, isWord u = true := hkeyed.words e List.mem_cons_self
  have hone : Keyed [e] := hkeyed.sublist (List.singleton_sublist.mpr List.mem_cons_self)
  have hrest : Keyed rest := hkeyed.sublist (List.sublist_cons_self e rest)
  induction hn : s.length using Nat.strong_induction_on generalizing s with
  | _ n ih =>
    cases s with
    | nil => rfl
    | cons u s =>
      by_cases he : placeholder e.1 <+: u :: s
      · -- The value goes in, and nothing in it is filled in again.
        obtain ⟨t, ht⟩ := he
        have hlt : t.length < n := by
          rw [← hn, ← ht, List.length_append, length_placeholder]
          omega
        rw [← ht, fill_at hone (List.mem_singleton_self e), fill_at hkeyed List.mem_cons_self,
          ← ih _ hlt t rfl, fill_append]
        intro p₁ p₂ hsplit hne b hb hprefix
        obtain ⟨y, hy⟩ := hprefix
        have hle := (hapart b hb).inside (fill [e] t) p₁ y (by rw [hsplit, List.append_assoc, hy])
        rw [hsplit, List.length_append] at hle
        have hpos := List.length_pos_iff.mpr hne
        omega
      · by_cases hb : ∃ b ∈ rest, placeholder b.1 <+: u :: s
        · -- Another's placeholder stays as it is until its turn.
          obtain ⟨b, hb, t, ht⟩ := hb
          have hlt : t.length < n := by
            rw [← hn, ← ht, List.length_append, length_placeholder]
            omega
          have hstays : fill [e] (placeholder b.1 ++ t) = placeholder b.1 ++ fill [e] t := by
            refine fill_append fun p₁ p₂ hsplit hne c hc hprefix => ?_
            rw [List.mem_singleton.mp hc] at hprefix
            by_cases hp₁ : p₁ = []
            · rw [hp₁, List.nil_append] at hsplit
              rw [← hsplit, ht] at hprefix
              exact he hprefix
            · exact not_inside (hrest.words b hb) hsplit hp₁ hne hprefix
          rw [← ht, hstays, fill_at hrest hb, fill_at hkeyed (List.mem_cons_of_mem _ hb),
            ih _ hlt t rfl]
        · -- Nothing begins here, and nothing will once the value is in.
          have hlt : s.length < n := by
            rw [← hn, List.length_cons]
            omega
          have hnone : ∀ c ∈ e :: rest, ¬ placeholder c.1 <+: u :: s := by
            intro c hc hprefix
            rcases List.mem_cons.mp hc with heq | hc
            · exact he (heq ▸ hprefix)
            · exact hb ⟨c, hc, hprefix⟩
          have hfirst : fill [e] (u :: s) = u :: fill [e] s :=
            fill_cons fun c hc => hnone c (List.mem_singleton.mp hc ▸ List.mem_cons_self)
          have hlater : ∀ b ∈ rest, ¬ placeholder b.1 <+: u :: fill [e] s := by
            intro b hb' hprefix
            rw [← hfirst] at hprefix
            obtain ⟨pieces, last, -, hjoin, hends, hfree⟩ :=
              splitOn_spec (placeholder_ne_nil e.1) (u :: s)
            rw [hjoin, fill_rejoin hwords hends hfree] at hprefix
            cases pieces with
            | nil =>
                refine hnone b (List.mem_cons_of_mem _ hb') ?_
                rw [hjoin]
                exact hprefix
            | cons piece pieces =>
                have hsplit : ∀ sep : Text, rejoin sep (piece :: pieces) last =
                    piece ++ (sep ++ rejoin sep pieces last) := fun sep => by simp [rejoin]
                rw [hsplit] at hjoin hprefix
                obtain ⟨y, hy⟩ := hprefix
                rcases (hapart b hb').across piece _ y hy.symm with hnil | hlong
                · rw [hnil, List.nil_append] at hjoin
                  exact he ⟨_, hjoin.symm⟩
                · refine hnone b (List.mem_cons_of_mem _ hb') ?_
                  rw [hjoin]
                  exact (List.prefix_of_prefix_length_le ⟨y, hy⟩ (List.prefix_append _ _)
                    hlong).trans (List.prefix_append _ _)
          rw [hfirst, fill_cons hlater, fill_cons hnone, ih _ hlt s rfl]

/-- The variables can be put in one after the other: no value has an escape, and
none is in the way of a later one, unless that one stands for itself. -/
structure Safe (entries : List (Text × Text)) : Prop where
  plain : ∀ e ∈ entries, escapes e.2 = false
  apart : entries.Pairwise fun a b => b.2 = placeholder b.1 ∨ Apart a.2 (placeholder b.1)

theorem Safe.sublist {entries part : List (Text × Text)} (h : Safe entries)
    (hpart : part.Sublist entries) : Safe part :=
  ⟨fun e he => h.plain e (hpart.subset he), h.apart.sublist hpart⟩

/-- One round of the loop. -/
theorem replaceAll_placeholder {e : Text × Text} (hkey : ∀ u ∈ e.1, isWord u = true)
    (h : escapes e.2 = false) (s : Text) :
    (Regex.lit (placeholder e.1)).replaceAll (fun m => substitution m e.2) s = fill [e] s := by
  have hplain : (fun m => substitution m e.2) = fun _ => e.2 :=
    funext fun m => substitution_plain m h
  rw [hplain, replaceAll_lit (placeholder_ne_nil e.1), fill_single hkey]

theorem fill_nil (s : Text) : fill [] s = s := fill_free fun e he => by cases he

theorem applyEntries_eq_fill {entries : List (Text × Text)} (hkeyed : Keyed entries)
    (h : Safe entries) (template : Text) :
    applyEntries template entries = fill entries template := by
  induction entries generalizing template with
  | nil => exact (fill_nil template).symm
  | cons e rest ih =>
      have hsub := List.sublist_cons_self e rest
      have hrest := ih (hkeyed.sublist hsub) (h.sublist hsub)
        ((Regex.lit (placeholder e.1)).replaceAll (fun m => substitution m e.2) template)
      have hround := replaceAll_placeholder (hkeyed.words e List.mem_cons_self)
        (h.plain e List.mem_cons_self) template
      have hchanging : (e :: rest.filter changes).Sublist (e :: rest) :=
        List.filter_sublist.cons_cons e
      have hapart : ∀ b ∈ rest.filter changes, Apart e.2 (placeholder b.1) := by
        intro b hb
        obtain ⟨hmem, hchanges⟩ := List.mem_filter.mp hb
        refine ((List.pairwise_cons.mp h.apart).1 b hmem).resolve_left fun hsame => ?_
        simp [changes, hsame] at hchanges
      have hfilter : (e :: rest.filter changes).filter changes = (e :: rest).filter changes := by
        rw [List.filter_cons, List.filter_cons, List.filter_filter]
        simp
      calc applyEntries template (e :: rest)
          = fill rest (fill [e] template) := by rw [applyEntries, hrest, hround]
        _ = fill (rest.filter changes) (fill [e] template) :=
            fill_changes (hkeyed.sublist hsub) _
        _ = fill (e :: rest.filter changes) template :=
            fill_fill (hkeyed.sublist hchanging) hapart template
        _ = fill ((e :: rest).filter changes) template := by
            rw [fill_changes (hkeyed.sublist hchanging), hfilter]
        _ = fill (e :: rest) template := (fill_changes hkeyed template).symm

/-! ## What goes wrong otherwise -/

theorem escapes_of_right {e : Text × Text} (hkey : ∀ u ∈ e.1, isWord u = true)
    (h : applyEntries (placeholder e.1) [e] = fill [e] (placeholder e.1)) :
    escapes e.2 = false := by
  have hkeyed : Keyed [e] :=
    ⟨List.nodup_singleton _, fun e' he' => List.mem_singleton.mp he' ▸ hkey⟩
  have hfill := fill_at hkeyed (List.mem_singleton_self e) []
  rw [List.append_nil, show fill [e] [] = [] from rfl, List.append_nil] at hfill
  rw [hfill, applyEntries, applyEntries, replaceAll_lit_self (placeholder_ne_nil e.1)] at h
  have hdollar : (36 : UInt16) ∉ placeholder e.1 := by
    rw [placeholder_eq]
    have hnone := not_mem_word hkey (u := 36) (by decide)
    simpa using hnone
  by_contra hescapes
  have hlt := (count_substitution hdollar e.2).2 (by simpa using hescapes)
  rw [h] at hlt
  exact lt_irrefl _ hlt

/-- A placeholder between the beginning and the end of another. -/
theorem fill_cut {entries : List (Text × Text)} (hkeyed : Keyed entries) {a b : Text × Text}
    (ha : a ∈ entries) (hb : ∀ u ∈ b.1, isWord u = true) {p r₁ r₂ q : Text}
    (hp : placeholder b.1 = p ++ r₁) (hr₁ : r₁ ≠ []) (hq : placeholder b.1 = r₂ ++ q)
    (hr₂ : r₂ ≠ []) :
    fill entries (p ++ (placeholder a.1 ++ q)) = p ++ (a.2 ++ q) := by
  have hafter : fill entries q = q :=
    fill_free fun e he => free_after hb (hkeyed.words e he) hq hr₂
  have hopen : placeholder a.1 ++ q = 123 :: 123 :: (a.1 ++ [125, 125] ++ q) := by
    rw [placeholder_eq]
    rfl
  rw [fill_append, fill_at hkeyed ha, hafter]
  intro p₁ p₂ hsplit hne e he
  rw [hsplit] at hp
  rw [hopen]
  exact not_before hb (hkeyed.words e he) hp hne hr₁

theorem length_rejoin (sep : Text) (pieces : List Text) (last : Text) :
    (rejoin sep pieces last).length =
      pieces.flatten.length + pieces.length * sep.length + last.length := by
  induction pieces with
  | nil => simp [rejoin]
  | cons piece pieces ih =>
      have hsplit : rejoin sep (piece :: pieces) last =
          piece ++ (sep ++ rejoin sep pieces last) := by simp [rejoin]
      rw [hsplit, List.length_append, List.length_append, ih, List.flatten_cons,
        List.length_append, List.length_cons, Nat.succ_mul]
      omega

/-- Only a value that is the placeholder leaves a placeholder as it is. -/
theorem eq_placeholder_of_fixed {b : Text × Text} (hkey : ∀ u ∈ b.1, isWord u = true) {s : Text}
    (hin : ¬ Free (placeholder b.1) s) (h : fill [b] s = s) : b.2 = placeholder b.1 := by
  obtain ⟨pieces, last, -, hjoin, hends, hfree⟩ := splitOn_spec (placeholder_ne_nil b.1) s
  rw [hjoin, fill_rejoin hkey hends hfree] at h
  cases pieces with
  | nil =>
      refine absurd ?_ hin
      rw [hjoin]
      exact hfree
  | cons piece pieces =>
      have hlength := congrArg List.length h
      rw [length_rejoin, length_rejoin, List.length_cons] at hlength
      have hsame : b.2.length = (placeholder b.1).length := by
        have hmul : (pieces.length + 1) * b.2.length =
            (pieces.length + 1) * (placeholder b.1).length := by omega
        exact Nat.eq_of_mul_eq_mul_left (Nat.succ_pos _) hmul
      have hsplit : ∀ sep : Text, rejoin sep (piece :: pieces) last =
          piece ++ (sep ++ rejoin sep pieces last) := fun sep => by simp [rejoin]
      rw [hsplit, hsplit] at h
      exact (List.append_inj (List.append_cancel_left h) hsame).1

/-- A placeholder made by an earlier value is filled in. -/
theorem wrong_of_made {a b : Text × Text} (hkeyed : Keyed [a, b]) (ha : escapes a.2 = false)
    (hb : escapes b.2 = false) (hchanges : b.2 ≠ placeholder b.1) {p r₁ r₂ q : Text}
    (hp : placeholder b.1 = p ++ r₁) (hr₁ : r₁ ≠ []) (hq : placeholder b.1 = r₂ ++ q)
    (hr₂ : r₂ ≠ []) (hmade : ¬ Free (placeholder b.1) (p ++ (a.2 ++ q))) :
    ∃ template, applyEntries template [a, b] ≠ fill [a, b] template := by
  have hwa : ∀ u ∈ a.1, isWord u = true := hkeyed.words a (by simp)
  have hwb : ∀ u ∈ b.1, isWord u = true := hkeyed.words b (by simp)
  have hone : Keyed [a] := hkeyed.sublist (by simp)
  refine ⟨p ++ (placeholder a.1 ++ q), fun heq => hchanges ?_⟩
  rw [applyEntries, applyEntries, applyEntries, replaceAll_placeholder hwa ha,
    replaceAll_placeholder hwb hb, fill_cut hone (List.mem_singleton_self a) hwb hp hr₁ hq hr₂,
    fill_cut hkeyed List.mem_cons_self hwb hp hr₁ hq hr₂] at heq
  exact eq_placeholder_of_fixed hwb hmade heq

theorem apart_of_right {a b : Text × Text} (hkeyed : Keyed [a, b]) (ha : escapes a.2 = false)
    (hb : escapes b.2 = false) (hchanges : b.2 ≠ placeholder b.1)
    (h : ∀ template, applyEntries template [a, b] = fill [a, b] template) :
    Apart a.2 (placeholder b.1) := by
  have hnever : ∀ {p r₁ r₂ q : Text}, placeholder b.1 = p ++ r₁ → r₁ ≠ [] →
      placeholder b.1 = r₂ ++ q → r₂ ≠ [] → Free (placeholder b.1) (p ++ (a.2 ++ q)) := by
    intro p r₁ r₂ q hp hr₁ hq hr₂
    by_contra hmade
    obtain ⟨template, hwrong⟩ := wrong_of_made hkeyed ha hb hchanges hp hr₁ hq hr₂ hmade
    exact hwrong (h template)
  have hmark := placeholder_ne_nil b.1
  have hnil : placeholder b.1 = placeholder b.1 ++ [] := (List.append_nil _).symm
  constructor
  · intro q x y heq
    by_contra hshort
    rw [← List.append_assoc] at heq
    rcases List.append_eq_append_iff.mp heq with ⟨c, hx, -⟩ | ⟨c, hv, -⟩
    · -- The end of the placeholder is behind the value.
      rcases List.append_eq_append_iff.mp hx with ⟨r, hv, hmid⟩ | ⟨r, hx', -⟩
      · have hr : r ≠ [] := by
          intro hr
          rw [hv, hr, List.append_nil] at hshort
          exact hshort (le_refl _)
        have hfree := hnever (p := []) rfl hmark hmid hr
        rw [List.nil_append, hv, List.append_assoc, ← hmid] at hfree
        exact hfree x [] (by simp)
      · rw [hx', List.length_append] at hshort
        omega
    · have hfree := hnever (p := []) (q := []) rfl hmark hnil hmark
      rw [List.nil_append, List.append_nil, hv] at hfree
      exact hfree x c (by simp)
  · intro p q y heq
    by_contra hboth
    rw [not_or, not_le] at hboth
    rcases List.append_eq_append_iff.mp heq with ⟨r, hmid, hrest⟩ | ⟨c, hp, -⟩
    · have hr : r ≠ [] := by
        intro hr
        rw [hmid, hr, List.append_nil] at hboth
        exact lt_irrefl _ hboth.2
      rcases List.append_eq_append_iff.mp hrest with ⟨c, hr', -⟩ | ⟨c, hv, -⟩
      · have hcut : placeholder b.1 = (p ++ a.2) ++ c := by rw [hmid, hr', List.append_assoc]
        have hfree := hnever hmid hr hcut (by simp [hboth.1])
        exact hfree [] [] (by rw [hcut]; simp)
      · have hfree := hnever hmid hr hnil hmark
        rw [List.append_nil, hv, ← List.append_assoc, ← hmid] at hfree
        exact hfree [] c rfl
    · rw [hp, List.length_append] at hboth
      omega

/-! ## Every template -/

theorem fill_perm {entries other : List (Text × Text)} (hkeyed : Keyed entries)
    (hother : Keyed other) (hperm : other.Perm entries) (s : Text) :
    fill other s = fill entries s := by
  induction hn : s.length using Nat.strong_induction_on generalizing s with
  | _ n ih =>
    cases s with
    | nil => rfl
    | cons u s =>
        by_cases hsome : ∃ e ∈ entries, placeholder e.1 <+: u :: s
        · obtain ⟨e, he, t, ht⟩ := hsome
          have hlt : t.length < n := by
            rw [← hn, ← ht, List.length_append, length_placeholder]
            omega
          rw [← ht, fill_at hkeyed he, fill_at hother (hperm.mem_iff.mpr he), ih _ hlt t rfl]
        · have hnone : ∀ e ∈ entries, ¬ placeholder e.1 <+: u :: s :=
            fun e he hprefix => hsome ⟨e, he, hprefix⟩
          have hlt : s.length < n := by
            rw [← hn, List.length_cons]
            omega
          rw [fill_cons hnone, fill_cons fun e he => hnone e (hperm.mem_iff.mp he), ih _ hlt s rfl]

/-- A part of the map, in its order. -/
def Vars.PartOf (part vars : Vars) : Prop := part.entries.Sublist vars.entries

/-- A map and its parts come out right in every template exactly when the map is
safe; and safe maps with the same entries come out the same. -/
theorem template_expansion_iff (vars : Vars) :
    ((∀ part : Vars, part.PartOf vars → ∀ template,
        applyTemplate template part = fill part.entries template) ↔ Safe vars.entries) ∧
      ∀ other : Vars, other.entries.Perm vars.entries → Safe vars.entries → Safe other.entries →
        ∀ template, applyTemplate template other = applyTemplate template vars := by
  refine ⟨⟨fun h => ?_, fun h part hpart template => ?_⟩, fun other hperm h hother template => ?_⟩
  · have hright : ∀ part : List (Text × Text), part.Sublist vars.entries → ∀ template,
        applyEntries template part = fill part template := by
      intro part hpart template
      have hkeyed := vars.keyed.sublist hpart
      exact h ⟨part, hkeyed.nodup, hkeyed.words⟩ hpart template
    have hplain : ∀ e ∈ vars.entries, escapes e.2 = false := fun e he =>
      escapes_of_right (vars.words e he) (hright [e] (List.singleton_sublist.mpr he) _)
    refine ⟨hplain, List.pairwise_iff_forall_sublist.mpr fun {a b} hab => ?_⟩
    by_cases hchanges : b.2 = placeholder b.1
    · exact .inl hchanges
    · have ha := hplain a (hab.subset (by simp))
      have hb := hplain b (hab.subset (by simp))
      exact .inr (apart_of_right (vars.keyed.sublist hab) ha hb hchanges (hright [a, b] hab))
  · exact applyEntries_eq_fill part.keyed (h.sublist hpart) template
  · rw [applyTemplate, applyTemplate, applyEntries_eq_fill other.keyed hother,
      applyEntries_eq_fill vars.keyed h, fill_perm vars.keyed other.keyed hperm]

/-- An actor with the name of a placeholder, and a status with a dollar sign that
means something. -/
def forgedVars : Vars where
  entries := [(js "actor", js "\x7b\x7bto\x7d\x7d"), (js "to", js "$$5")]
  nodup := by decide
  words := by
    simp only [List.mem_cons, List.not_mem_nil, or_false, forall_eq_or_imp, forall_eq]
    exact ⟨List.all_eq_true.mp (by decide), List.all_eq_true.mp (by decide)⟩

/-- The actor's name is filled in once more, and the status loses a sign. -/
theorem values_expanded :
    applyTemplate (js "by \x7b\x7bactor\x7d\x7d") forgedVars ≠
        fill forgedVars.entries (js "by \x7b\x7bactor\x7d\x7d") ∧
      applyTemplate (js "to \x7b\x7bto\x7d\x7d") forgedVars ≠
        fill forgedVars.entries (js "to \x7b\x7bto\x7d\x7d") := by
  decide +kernel

end Shizuha.Workflows
