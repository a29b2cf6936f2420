import Shizuha.Js.Map

/-!
# A relation kept from both sides

Who stands in a relation with whom, kept as two maps of sets so that it is read
fast from either side. Every change is made on both, and an entry whose set got
empty is removed. That the two say the same is a field, and the relation is then
read from one side only (`members`).
-/

namespace Shizuha

open Js

section SetMap

variable {κ α : Type*} [DecidableEq κ] [DecidableEq α]

/-- The set under a key, in the order its elements came. -/
def under (m : Map κ (List α)) (k : κ) : List α := (m.find k).getD []

def addTo (m : Map κ (List α)) (k : κ) (x : α) : Map κ (List α) :=
  m.set k (if x ∈ under m k then under m k else under m k ++ [x])

def dropFrom (m : Map κ (List α)) (k : κ) (x : α) : Map κ (List α) :=
  match m.find k with
  | none => m
  | some l => if l.filter (· ≠ x) = [] then m.remove k else m.set k (l.filter (· ≠ x))

variable {m : Map κ (List α)} {k k' : κ} {x y : α}

theorem under_addTo :
    under (addTo m k x) k' =
      if k' = k then (if x ∈ under m k then under m k else under m k ++ [x]) else under m k' := by
  rw [under, addTo, Map.find_set]
  split_ifs <;> rfl

theorem under_dropFrom :
    under (dropFrom m k x) k' =
      if k' = k then (under m k).filter (· ≠ x) else under m k' := by
  rw [under, dropFrom]
  cases hfind : m.find k with
  | none =>
      by_cases hk : k' = k
      · rw [if_pos hk, hk, hfind, under, hfind]
        rfl
      · rw [if_neg hk, under]
  | some l =>
      dsimp only
      have hl : under m k = l := by rw [under, hfind, Option.getD_some]
      rw [hl]
      split_ifs with hempty hk hk
      · rw [Map.find_remove, if_pos hk, hempty]
        rfl
      · rw [Map.find_remove, if_neg hk, under]
      · rw [Map.find_set, if_pos hk, Option.getD_some]
      · rw [Map.find_set, if_neg hk, under]

theorem mem_addTo : y ∈ under (addTo m k x) k' ↔ y ∈ under m k' ∨ k' = k ∧ y = x := by
  rw [under_addTo]
  by_cases hk : k' = k
  · rw [if_pos hk, hk]
    split_ifs with hx
    · constructor
      · exact Or.inl
      · rintro (hy | ⟨-, rfl⟩)
        · exact hy
        · exact hx
    · rw [List.mem_append, List.mem_singleton]
      simp
  · rw [if_neg hk]
    simp [hk]

theorem mem_dropFrom : y ∈ under (dropFrom m k x) k' ↔ y ∈ under m k' ∧ ¬ (k' = k ∧ y = x) := by
  rw [under_dropFrom]
  by_cases hk : k' = k
  · rw [if_pos hk, hk, List.mem_filter]
    simp
  · rw [if_neg hk]
    simp [hk]

theorem nodup_addTo (h : ∀ k, (under m k).Nodup) : (under (addTo m k x) k').Nodup := by
  rw [under_addTo]
  split_ifs with hk hx
  · exact h k
  · rw [List.nodup_append]
    refine ⟨h k, List.nodup_singleton x, fun y hy z hz hyz => hx ?_⟩
    rw [← List.mem_singleton.mp hz, ← hyz]
    exact hy
  · exact h k'

theorem nodup_dropFrom (h : ∀ k, (under m k).Nodup) : (under (dropFrom m k x) k').Nodup := by
  rw [under_dropFrom]
  split_ifs
  · exact (h k).filter _
  · exact h k'

omit [DecidableEq α] in
theorem under_remove : under (m.remove k) k' = if k' = k then [] else under m k' := by
  rw [under, Map.find_remove]
  split_ifs <;> rfl

/-- Leaving one after the other. -/
theorem mem_foldl_dropFrom (ks : List κ) :
    y ∈ under (ks.foldl (fun m k => dropFrom m k x) m) k' ↔ y ∈ under m k' ∧ ¬ (k' ∈ ks ∧ y = x) := by
  induction ks generalizing m with
  | nil => simp
  | cons k ks ih =>
      rw [List.foldl_cons, ih, mem_dropFrom, List.mem_cons]
      tauto

theorem nodup_foldl_dropFrom (ks : List κ) (h : ∀ k, (under m k).Nodup) :
    (under (ks.foldl (fun m k => dropFrom m k x) m) k').Nodup := by
  induction ks generalizing m with
  | nil => exact h k'
  | cons k ks ih => exact ih fun k' => nodup_dropFrom h

end SetMap

structure TwoWay (α β : Type*) [DecidableEq α] [DecidableEq β] where
  left : Map α (List β)
  right : Map β (List α)
  inverse : ∀ a b, b ∈ under left a ↔ a ∈ under right b
  distinct : ∀ a, (under left a).Nodup

namespace TwoWay

variable {α β : Type*} [DecidableEq α] [DecidableEq β]

def empty : TwoWay α β where
  left := Table.empty
  right := Table.empty
  inverse _ _ := by simp [under]
  distinct _ := by simp [under]

def members (t : TwoWay α β) (a : α) : List β := under t.left a

def add (t : TwoWay α β) (a : α) (b : β) : TwoWay α β where
  left := addTo t.left a b
  right := addTo t.right b a
  inverse a' b' := by
    rw [mem_addTo, mem_addTo, t.inverse a' b']
    tauto
  distinct _ := nodup_addTo t.distinct

def discard (t : TwoWay α β) (a : α) (b : β) : TwoWay α β where
  left := dropFrom t.left a b
  right := dropFrom t.right b a
  inverse a' b' := by
    rw [mem_dropFrom, mem_dropFrom, t.inverse a' b']
    tauto
  distinct _ := nodup_dropFrom t.distinct

/-- What is on the right leaves everything it is in. -/
def remove (t : TwoWay α β) (b : β) : TwoWay α β where
  left := (under t.right b).foldl (fun m a => dropFrom m a b) t.left
  right := t.right.remove b
  inverse a' b' := by
    rw [mem_foldl_dropFrom, under_remove, t.inverse a' b']
    by_cases hb : b' = b
    · simp [hb]
    · simp [hb]
  distinct _ := nodup_foldl_dropFrom _ t.distinct

@[simp] theorem members_empty (a : α) : (empty : TwoWay α β).members a = [] := rfl

theorem nodup_members (t : TwoWay α β) (a : α) : (t.members a).Nodup := t.distinct a

@[simp] theorem mem_members_add {t : TwoWay α β} {a a' : α} {b b' : β} :
    b' ∈ (t.add a b).members a' ↔ b' ∈ t.members a' ∨ a' = a ∧ b' = b := mem_addTo

@[simp] theorem mem_members_discard {t : TwoWay α β} {a a' : α} {b b' : β} :
    b' ∈ (t.discard a b).members a' ↔ b' ∈ t.members a' ∧ ¬ (a' = a ∧ b' = b) := mem_dropFrom

@[simp] theorem mem_members_remove {t : TwoWay α β} {a : α} {b b' : β} :
    b' ∈ (t.remove b).members a ↔ b' ∈ t.members a ∧ b' ≠ b := by
  rw [members, remove, mem_foldl_dropFrom]
  constructor
  · rintro ⟨hmem, hnot⟩
    refine ⟨hmem, fun hb => hnot ⟨?_, hb⟩⟩
    rw [← t.inverse a b, ← hb]
    exact hmem
  · rintro ⟨hmem, hb⟩
    exact ⟨hmem, fun h => hb h.2⟩

end TwoWay

end Shizuha
