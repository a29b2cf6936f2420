import Mathlib.Data.List.Nodup
import Mathlib.Data.List.Sort

/-!
# The first of every kind

A list with everything dropped that has the key of something before it, the
way a loop over a growing set does it. What is kept is a sublist, no two kept
elements share a key, and every key of the list is still there. Appending to
the list only appends to what is kept, which is what makes such a list safe to
show while its source grows.

When the list is first sorted by something the key determines, the order does
not matter: sorting and then keeping the first of every key is keeping the
first of every key and then sorting.
-/

namespace Shizuha

variable {α κ : Type*} [DecidableEq κ]

/-- The elements whose key is neither in `seen` nor before them. -/
def keepFirst (key : α → κ) (seen : List κ) : List α → List α
  | [] => []
  | a :: rest =>
      if key a ∈ seen then keepFirst key seen rest
      else a :: keepFirst key (key a :: seen) rest

variable {key : α → κ} {seen seen' : List κ} {l l' : List α} {a : α}

theorem keepFirst_nil : keepFirst key seen [] = [] := rfl

theorem keepFirst_cons (a : α) (l : List α) : keepFirst key seen (a :: l) =
    if key a ∈ seen then keepFirst key seen l else a :: keepFirst key (key a :: seen) l := rfl

theorem keepFirst_sublist : (keepFirst key seen l).Sublist l := by
  induction l generalizing seen with
  | nil => exact List.Sublist.refl _
  | cons a rest ih =>
      rw [keepFirst_cons]
      split_ifs
      · exact ih.cons a
      · exact ih.cons_cons a

theorem keepFirst_congr (h : ∀ k, k ∈ seen ↔ k ∈ seen') :
    keepFirst key seen l = keepFirst key seen' l := by
  induction l generalizing seen seen' with
  | nil => rfl
  | cons a rest ih =>
      rw [keepFirst_cons, keepFirst_cons, ih h, @ih (key a :: seen) (key a :: seen')]
      · simp only [h]
      · simp [h]

theorem mem_keepFirst_key {k : κ} :
    k ∈ (keepFirst key seen l).map key ↔ k ∈ l.map key ∧ k ∉ seen := by
  induction l generalizing seen with
  | nil => simp [keepFirst_nil]
  | cons a rest ih =>
      rw [keepFirst_cons]
      split_ifs with hk
      · rw [ih, List.map_cons, List.mem_cons]
        constructor
        · rintro ⟨h, hs⟩
          exact ⟨.inr h, hs⟩
        · rintro ⟨rfl | h, hs⟩
          · exact absurd hk hs
          · exact ⟨h, hs⟩
      · rw [List.map_cons, List.mem_cons, ih, List.map_cons, List.mem_cons, List.mem_cons, not_or]
        constructor
        · rintro (rfl | ⟨h, -, hs⟩)
          · exact ⟨.inl rfl, hk⟩
          · exact ⟨.inr h, hs⟩
        · rintro ⟨h, hs⟩
          by_cases hka : k = key a
          · exact .inl hka
          · exact .inr ⟨h.resolve_left hka, hka, hs⟩

theorem nodup_keepFirst : ((keepFirst key seen l).map key).Nodup := by
  induction l generalizing seen with
  | nil => exact List.nodup_nil
  | cons a rest ih =>
      rw [keepFirst_cons]
      split_ifs
      · exact ih
      · rw [List.map_cons, List.nodup_cons, mem_keepFirst_key]
        exact ⟨fun h => h.2 List.mem_cons_self, ih⟩

theorem keepFirst_append :
    keepFirst key seen (l ++ l') =
      keepFirst key seen l ++ keepFirst key (l.map key ++ seen) l' := by
  induction l generalizing seen with
  | nil => rfl
  | cons a rest ih =>
      rw [List.cons_append, keepFirst_cons, keepFirst_cons]
      split_ifs with hk
      · rw [ih]
        congr 1
        refine keepFirst_congr fun k => ?_
        simp only [List.map_cons, List.cons_append, List.mem_cons, List.mem_append]
        grind
      · rw [ih, List.cons_append]
        congr 2
        refine keepFirst_congr fun k => ?_
        simp only [List.map_cons, List.cons_append, List.mem_cons, List.mem_append]
        grind

/-- Mapping first, when the key only reads what the map keeps. -/
theorem keepFirst_map {β : Type*} {f : β → α} {l : List β} :
    keepFirst key seen (l.map f) = (keepFirst (key ∘ f) seen l).map f := by
  induction l generalizing seen with
  | nil => rfl
  | cons b rest ih =>
      rw [List.map_cons, keepFirst_cons, keepFirst_cons, Function.comp_apply]
      split_ifs
      · exact ih
      · rw [ih, List.map_cons]

/-- What is kept of a list in which the first of every kind is marked by
`first`. -/
theorem mem_keepFirst_iff (first : α → α → Prop) (hasymm : ∀ a b, first a b → ¬ first b a)
    (h : l.Pairwise fun a b => key a = key b → first a b) :
    a ∈ keepFirst key seen l ↔
      a ∈ l ∧ key a ∉ seen ∧ ∀ b ∈ l, key b = key a → ¬ first b a := by
  induction l generalizing seen with
  | nil => simp [keepFirst_nil]
  | cons c rest ih =>
      obtain ⟨hc, hrest⟩ := List.pairwise_cons.mp h
      have hirrefl : ∀ b, ¬ first b b := fun b hb => hasymm b b hb hb
      rw [keepFirst_cons]
      split_ifs with hk
      · rw [ih hrest, List.mem_cons]
        grind
      · rw [List.mem_cons, ih hrest, List.mem_cons, List.mem_cons]
        grind

/-! ## In the order of a query -/

section Ordered

variable {τ : Type*} [LinearOrder τ] (time : α → τ) (number : α → ℕ)

/-- ORDER BY time, number. -/
def inOrder (l : List α) : List α :=
  l.insertionSort fun a b => time a < time b ∨ time a = time b ∧ number a ≤ number b

/-- Strictly before, in that order. -/
def Before (a b : α) : Prop := time a < time b ∨ time a = time b ∧ number a < number b

variable {time number}

theorem Before.asymm {a b : α} (h : Before time number a b) : ¬ Before time number b a := by
  rcases h with h | ⟨h, hn⟩ <;> rintro (h' | ⟨h', hn'⟩) <;> grind

instance : Std.Antisymm (Before (α := α) time number) := ⟨fun _ _ h h' => absurd h' h.asymm⟩

instance : Std.Irrefl (Before (α := α) time number) := ⟨fun _ h => h.asymm h⟩

theorem inOrder_perm : (inOrder time number l).Perm l := List.perm_insertionSort ..

/-- Rows with numbers of their own come out strictly ordered. -/
theorem pairwise_inOrder (h : (l.map number).Nodup) :
    (inOrder time number l).Pairwise (Before time number) := by
  let r (a b : α) : Prop := time a < time b ∨ time a = time b ∧ number a ≤ number b
  have htrans : IsTrans α r := ⟨fun a b c hab hbc => by grind⟩
  have htotal : Std.Total r := by
    refine ⟨fun a b => ?_⟩
    rcases lt_trichotomy (time a) (time b) with hlt | heq | hlt
    · exact .inl (.inl hlt)
    · rcases le_total (number a) (number b) with hle | hle
      · exact .inl (.inr ⟨heq, hle⟩)
      · exact .inr (.inr ⟨heq.symm, hle⟩)
    · exact .inr (.inl hlt)
  have hsorted : (inOrder time number l).Pairwise r := List.pairwise_insertionSort r l
  have hne : (inOrder time number l).Pairwise fun a b => number a ≠ number b :=
    List.pairwise_map.mp ((inOrder_perm.map number).nodup_iff.mpr h)
  refine hsorted.imp₂ (fun a b hab hn => ?_) hne
  rcases hab with hlt | ⟨heq, hle⟩
  · exact .inl hlt
  · exact .inr ⟨heq, lt_of_le_of_ne hle hn⟩

theorem inOrder_sublist (hl : (l'.map number).Nodup) (h : l.Sublist l') :
    (inOrder time number l).Sublist (inOrder time number l') :=
  List.sublist_of_subperm_of_pairwise
    ((inOrder_perm.subperm_right.mpr (inOrder_perm.subperm_left.mpr h.subperm)))
    (pairwise_inOrder (hl.sublist (h.map number))) (pairwise_inOrder hl)

/-- Sorting by a time the key determines, with numbers in the order of the
list, keeps the same first ones. -/
theorem keepFirst_inOrder (hnumber : l.Pairwise fun a b => number a < number b)
    (htime : ∀ a ∈ l, ∀ b ∈ l, key a = key b → time a = time b) :
    keepFirst key [] (inOrder time number l) = inOrder time number (keepFirst key [] l) := by
  have hnodup : (l.map number).Nodup :=
    List.pairwise_map.mpr (hnumber.imp fun h => ne_of_lt h)
  have hlist : l.Pairwise fun a b => key a = key b → Before time number a b :=
    hnumber.imp_of_mem fun ha hb hlt hkey => .inr ⟨htime _ ha _ hb hkey, hlt⟩
  have hsorted : (inOrder time number l).Pairwise (Before time number) :=
    pairwise_inOrder hnodup
  have hfirst : (inOrder time number l).Pairwise fun a b =>
      key a = key b → Before time number a b := by
    refine hsorted.imp fun hbefore => ?_
    intro _
    exact hbefore
  refine (hsorted.sublist keepFirst_sublist).eq_of_mem_iff
    (pairwise_inOrder (hnodup.sublist (keepFirst_sublist.map number))) fun a => ?_
  rw [inOrder_perm.mem_iff, mem_keepFirst_iff (Before time number) (fun _ _ => Before.asymm) hlist,
    mem_keepFirst_iff (Before time number) (fun _ _ => Before.asymm) hfirst]
  simp only [inOrder_perm.mem_iff]

end Ordered

end Shizuha
