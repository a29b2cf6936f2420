import Mathlib.Data.List.Sort

/-!
# Lists kept in the order of a key

A list is in order when the keys of its elements never go down. It stays in
order when an element is put between two that surround its key, and an element
in the middle may be replaced by anything its two neighbours surround: the rest
of the list is further away than they are.
-/

namespace Shizuha

variable {α κ : Type*} [LinearOrder κ] {key : α → κ} {l a b : List α} {x : α}

/-- No element has a greater key than one after it. -/
def KeySorted (key : α → κ) (l : List α) : Prop := l.Pairwise fun a b => key a ≤ key b

theorem KeySorted.around (h : KeySorted key (a ++ b)) (hbefore : ∀ y ∈ a, key y ≤ key x)
    (hafter : ∀ y ∈ b, key x ≤ key y) : KeySorted key (a ++ x :: b) := by
  obtain ⟨ha, hb, hab⟩ := List.pairwise_append.mp h
  refine List.pairwise_append.mpr ⟨ha, List.pairwise_cons.mpr ⟨hafter, hb⟩, fun y hy z hz => ?_⟩
  rcases List.mem_cons.mp hz with rfl | hz
  · exact hbefore y hy
  · exact hab y hy z hz

theorem KeySorted.remove (h : KeySorted key (a ++ x :: b)) : KeySorted key (a ++ b) :=
  h.sublist ((List.Sublist.refl a).append (List.sublist_cons_self x b))

/-- What the last element does not exceed, none before it does. -/
theorem KeySorted.le_of_getLast? (h : KeySorted key a) (hlast : ∀ y ∈ a.getLast?, key y ≤ key x) :
    ∀ y ∈ a, key y ≤ key x := by
  intro y hy
  rcases List.eq_nil_or_concat a with rfl | ⟨front, z, rfl⟩
  · cases hy
  · have hz : key z ≤ key x := hlast z (by simp)
    rw [List.concat_eq_append] at hy h
    rcases List.mem_append.mp hy with hy | hy
    · exact ((List.pairwise_append.mp h).2.2 y hy z (List.mem_singleton.mpr rfl)).trans hz
    · rw [List.mem_singleton.mp hy]
      exact hz

theorem KeySorted.le_of_head? (h : KeySorted key b) (hhead : ∀ y ∈ b.head?, key x ≤ key y) :
    ∀ y ∈ b, key x ≤ key y := by
  intro y hy
  cases b with
  | nil => cases hy
  | cons z rest =>
      have hz : key x ≤ key z := hhead z rfl
      rcases List.mem_cons.mp hy with rfl | hy
      · exact hz
      · exact hz.trans ((List.pairwise_cons.mp h).1 y hy)

/-- An element replaced by one its neighbours surround. -/
theorem KeySorted.replace {e : α} (h : KeySorted key (a ++ e :: b))
    (hleft : ∀ y ∈ a.getLast?, key y ≤ key x) (hright : ∀ y ∈ b.head?, key x ≤ key y) :
    KeySorted key (a ++ x :: b) := by
  have hrest := h.remove
  obtain ⟨ha, hb, -⟩ := List.pairwise_append.mp hrest
  exact hrest.around (KeySorted.le_of_getLast? ha hleft) (KeySorted.le_of_head? hb hright)

/-! ## The first element that passes -/

/-- The index `findIdx?` gives, as a split of the list. -/
theorem findIdx?_first {p : α → Bool} {i : ℕ} (h : l.findIdx? p = some i) :
    ∃ a e b, l = a ++ e :: b ∧ a.length = i ∧ p e = true ∧ ∀ x ∈ a, p x = false := by
  obtain ⟨hi, hp, hbefore⟩ := List.findIdx?_eq_some_iff_getElem.mp h
  refine ⟨l.take i, l[i], l.drop (i + 1), ?_, ?_, hp, fun x hx => ?_⟩
  · rw [List.getElem_cons_drop, List.take_append_drop]
  · rw [List.length_take]
    omega
  · obtain ⟨j, hj, rfl⟩ := List.mem_iff_getElem.mp hx
    rw [List.length_take] at hj
    rw [List.getElem_take]
    exact eq_false_of_ne_true (hbefore j (by omega))

theorem findIdx?_split {p : α → Bool} {i : ℕ} (h : l.findIdx? p = some i) :
    ∃ a e b, l = a ++ e :: b ∧ a.length = i ∧ p e = true := by
  obtain ⟨a, e, b, hl, hi, hp, -⟩ := findIdx?_first h
  exact ⟨a, e, b, hl, hi, hp⟩

theorem eraseIdx_split (a b : List α) (e : α) : (a ++ e :: b).eraseIdx a.length = a ++ b := by
  rw [List.eraseIdx_append_of_length_le (le_refl _), Nat.sub_self]
  rfl

theorem set_split (a b : List α) (e x : α) : (a ++ e :: b).set a.length x = a ++ x :: b := by
  rw [List.set_append_right _ _ (le_refl _), Nat.sub_self]
  rfl

/-- An element replaced by one whose value, if it has one, nobody else has. -/
theorem nodup_replace {β : Type*} {f : α → Option β} {e : α}
    (h : ((a ++ e :: b).filterMap f).Nodup) (hx : ∀ v, f x = some v → ∀ y ∈ a ++ b, f y ≠ some v) :
    ((a ++ x :: b).filterMap f).Nodup := by
  have hrest : ((a ++ b).filterMap f).Nodup :=
    h.sublist (((List.Sublist.refl a).append (List.sublist_cons_self e b)).filterMap f)
  have hperm : ((a ++ x :: b).filterMap f).Perm ((x :: (a ++ b)).filterMap f) :=
    List.perm_middle.filterMap f
  rw [hperm.nodup_iff]
  cases hv : f x with
  | none =>
      rw [List.filterMap_cons_none hv]
      exact hrest
  | some v =>
      rw [List.filterMap_cons_some hv, List.nodup_cons]
      refine ⟨fun hmem => ?_, hrest⟩
      obtain ⟨y, hy, heq⟩ := List.mem_filterMap.mp hmem
      exact hx v hv y hy heq

/-- What the other elements of a list without repetitions do not have. -/
theorem ne_of_nodup_split {β : Type*} {f : α → Option β} {e : α} {v : β}
    (h : ((a ++ e :: b).filterMap f).Nodup) (he : f e = some v) : ∀ y ∈ a ++ b, f y ≠ some v := by
  have hperm : ((a ++ e :: b).filterMap f).Perm ((e :: (a ++ b)).filterMap f) :=
    List.perm_middle.filterMap f
  rw [hperm.nodup_iff, List.filterMap_cons_some he, List.nodup_cons] at h
  intro y hy heq
  exact h.1 (List.mem_filterMap.mpr ⟨y, hy, heq⟩)

/-- Two elements with one value are one element. -/
theorem eq_of_nodup_filterMap {β : Type*} {f : α → Option β} {y z : α} {v : β}
    (h : (l.filterMap f).Nodup) (hy : y ∈ l) (hz : z ∈ l) (hfy : f y = some v)
    (hfz : f z = some v) : y = z := by
  obtain ⟨a, b, rfl⟩ := List.append_of_mem hz
  by_contra hne
  refine ne_of_nodup_split h hfz y ?_ hfy
  simp only [List.mem_append, List.mem_cons] at hy ⊢
  tauto

end Shizuha
