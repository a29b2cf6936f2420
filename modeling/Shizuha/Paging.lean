import Mathlib.Data.List.Sort
import Mathlib.Data.List.Range
import Mathlib.Data.List.Infix

/-!
# Paging back through a numbered list

The items of a list are numbered from one, in order. A page is a query: the
items below a number, the highest ones first, so many of them, put back in
order. A walk asks for the last page, and then for the one below the first item
it got, until a page is empty. `walk_numbered` says that a walk comes back with
the whole list, a page being a stretch of it.

Zero below which to look stands for no number at all, as a program has it that
tests its cursor for truth. A walk never asks with it: the first item of a page
has at least the number one.
-/

namespace Shizuha.Paging

variable {α : Type*} (number : α → ℕ)

/-- Numbered from one, in order. -/
def Numbered (l : List α) : Prop := l.map number = List.range' 1 l.length

/-- The items below a number, the highest ones of them. -/
def page (l : List α) (size : ℕ) (before : Option ℕ) : List α :=
  (((l.filter fun a => ∀ n ∈ before, n ≠ 0 → number a < n).insertionSort
    fun a b => number b ≤ number a).take size).reverse

/-- The pages a walk visits, the last page first, when it is over after so many
queries. -/
def walk (query : Option ℕ → List α) : ℕ → Option ℕ → Option (List (List α))
  | 0, _ => none
  | fuel + 1, before =>
      match query before with
      | [] => some []
      | a :: rest => (walk query fuel (some (number a))).map fun pages => (a :: rest) :: pages

variable {number} {l : List α}

theorem numbered_nil : Numbered number [] := rfl

theorem Numbered.concat (h : Numbered number l) {a : α} (ha : number a = l.length + 1) :
    Numbered number (l ++ [a]) := by
  rw [Numbered, List.map_append, h, List.length_append, List.length_singleton, List.range'_concat,
    List.map_singleton, ha, Nat.one_mul, Nat.add_comm 1]

/-- The highest number is the length. -/
theorem Numbered.foldr_max (h : Numbered number l) : (l.map number).foldr max 0 = l.length := by
  rw [h]
  have hmax : ∀ n s, (List.range' s n).foldr max 0 = if n = 0 then 0 else s + n - 1 := by
    intro n
    induction n with
    | zero =>
        intro s
        rfl
    | succ n ih =>
        intro s
        rw [List.range'_succ, List.foldr_cons, ih, if_neg (Nat.succ_ne_zero n)]
        split_ifs <;> omega
  rw [hmax]
  split_ifs <;> omega

theorem pairwise_of_map_range' {s n : ℕ} (h : l.map number = List.range' s n) :
    l.Pairwise fun a b => number a < number b := by
  rw [← List.pairwise_map, h]
  exact List.pairwise_lt_range'

/-- The items below a number are the ones before it. -/
theorem filter_lt_of_map_range' {s n : ℕ} (h : l.map number = List.range' s n) (b : ℕ) :
    (l.filter fun a => number a < b) = l.take (b - s) := by
  induction l generalizing s n with
  | nil => simp
  | cons a l ih =>
      cases n with
      | zero => cases h
      | succ n =>
          rw [List.range'_succ, List.map_cons, List.cons.injEq] at h
          obtain ⟨ha, hrest⟩ := h
          have hrest := ih hrest
          by_cases hb : s < b
          · obtain ⟨d, hd⟩ : ∃ d, b - s = d + 1 := ⟨b - s - 1, by omega⟩
            rw [List.filter_cons_of_pos (by simpa [ha] using hb), hrest, hd, List.take_succ_cons,
              show b - (s + 1) = d by omega]
          · rw [List.filter_cons_of_neg (by simpa [ha] using hb), hrest,
              show b - (s + 1) = 0 by omega, show b - s = 0 by omega]
            rfl

theorem orderedInsert_last {r : α → α → Prop} [DecidableRel r] {a : α}
    (h : ∀ b ∈ l, ¬ r a b) : l.orderedInsert r a = l ++ [a] := by
  induction l with
  | nil => rfl
  | cons b l ih =>
      rw [List.orderedInsert_cons, if_neg (h b List.mem_cons_self),
        ih fun c hc => h c (List.mem_cons_of_mem b hc), List.cons_append]

/-- Sorted the other way around, an ascending list is reversed. -/
theorem insertionSort_descending (h : l.Pairwise fun a b => number a < number b) :
    (l.insertionSort fun a b => number b ≤ number a) = l.reverse := by
  induction l with
  | nil => rfl
  | cons a l ih =>
      obtain ⟨ha, hrest⟩ := List.pairwise_cons.mp h
      rw [List.insertionSort_cons, ih hrest, orderedInsert_last, List.reverse_cons]
      intro b hb
      exact Nat.not_le.mpr (ha b (List.mem_reverse.mp hb))

/-- The page below a cursor, when `m` items are below it. -/
theorem page_eq (size : ℕ) {before : Option ℕ} {m : ℕ}
    (hbelow : (l.filter fun a => ∀ n ∈ before, n ≠ 0 → number a < n) = l.take m)
    (h : Numbered number l) : page number l size before = (l.take m).drop ((l.take m).length - size) := by
  have hasc : (l.take m).Pairwise fun a b => number a < number b :=
    (pairwise_of_map_range' h).sublist (List.take_sublist m l)
  rw [page, hbelow, insertionSort_descending hasc, List.take_reverse, List.reverse_reverse]

theorem below_none (l : List α) :
    (l.filter fun a => ∀ n ∈ (none : Option ℕ), n ≠ 0 → number a < n) = l.take l.length := by
  rw [List.take_length, List.filter_eq_self]
  simp

theorem below_some (h : Numbered number l) {before : Option ℕ} {m : ℕ}
    (hbefore : before = some (m + 1)) :
    (l.filter fun a => ∀ n ∈ before, n ≠ 0 → number a < n) = l.take m := by
  have hfilter := filter_lt_of_map_range' h (m + 1)
  rw [Nat.add_sub_cancel] at hfilter
  rw [← hfilter]
  refine List.filter_congr fun a _ => ?_
  simp [hbefore]

/-- The number of the item at an index. -/
theorem Numbered.number_getElem (h : Numbered number l) {i : ℕ} (hi : i < l.length) :
    number l[i] = i + 1 := by
  have hmap : (l.map number)[i]? = (List.range' 1 l.length)[i]? := by rw [h]
  rw [List.getElem?_map, List.getElem?_eq_getElem hi, List.getElem?_range' hi, Option.map_some,
    Option.some.injEq] at hmap
  omega

theorem walk_of_below (h : Numbered number l) {size : ℕ} (hsize : 1 ≤ size) {m : ℕ}
    (hm : m ≤ l.length) {before : Option ℕ}
    (hbelow : (l.filter fun a => ∀ n ∈ before, n ≠ 0 → number a < n) = l.take m) :
    ∃ pages, pages.reverse.flatten = l.take m ∧
      ∀ fuel, m < fuel → walk number (page number l size) fuel before = some pages := by
  induction m using Nat.strong_induction_on generalizing before with
  | _ m ih =>
      have hpage := page_eq size hbelow h
      rw [List.length_take, Nat.min_eq_left hm] at hpage
      by_cases hzero : m = 0
      · subst hzero
        refine ⟨[], rfl, fun fuel hfuel => ?_⟩
        obtain ⟨fuel, rfl⟩ := Nat.exists_eq_succ_of_ne_zero (Nat.pos_iff_ne_zero.mp hfuel)
        rw [walk, hpage, List.take_zero, List.drop_nil]
      · -- the first item of the page is the one at `m - size`
        have hlt : m - size < m := by omega
        have hfirst : m - size < l.length := by omega
        have hcons : (l.take m).drop (m - size) =
            l[m - size] :: (l.take m).drop (m - size + 1) := by
          rw [List.drop_eq_getElem_cons (by rw [List.length_take]; omega), List.getElem_take]
        have hnumber : number l[m - size] = m - size + 1 := h.number_getElem hfirst
        obtain ⟨pages, hpages, hwalk⟩ := ih (m - size) hlt (by omega) (below_some h rfl)
        refine ⟨(l.take m).drop (m - size) :: pages, ?_, fun fuel hfuel => ?_⟩
        · rw [List.reverse_cons, List.flatten_append, hpages, List.flatten_singleton,
            ← List.take_append_drop (m - size) (l.take m), List.take_take,
            Nat.min_eq_left hlt.le, List.drop_left' (by rw [List.length_take]; omega)]
        · obtain ⟨fuel, rfl⟩ := Nat.exists_eq_succ_of_ne_zero (show fuel ≠ 0 by omega)
          rw [walk, hpage, hcons]
          dsimp only
          rw [hnumber, hwalk fuel (by omega)]
          rfl

/-- A walk comes back with every item once, and the last page first. -/
theorem walk_numbered (h : Numbered number l) {size : ℕ} (hsize : 1 ≤ size) :
    ∃ pages, pages.reverse.flatten = l ∧
      ∀ fuel, l.length < fuel → walk number (page number l size) fuel none = some pages := by
  obtain ⟨pages, hpages, hwalk⟩ := walk_of_below h hsize le_rfl (below_none l)
  rw [List.take_length] at hpages
  exact ⟨pages, hpages, hwalk⟩

end Shizuha.Paging
