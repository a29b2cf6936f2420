import Shizuha.Table
import Mathlib.Data.List.Perm.Basic
import Mathlib.Data.List.Perm.Subperm

/-!
# Maps

A `Map` under keys of any type: entries in the order their keys were first set,
no key twice. What a map holds is said up to order, so that an entry may move to
another key: setting a new key adds a value, setting an old one puts a value in
another's place, and removing takes one.
-/

namespace Shizuha.Js

abbrev Map (κ α : Type*) := Table κ (κ × α) Prod.fst

namespace Map

variable {κ α : Type*} [DecidableEq κ]

def find (m : Map κ α) (k : κ) : Option α := (m.get k).map Prod.snd

/-- `set`: a key that is there keeps its place. -/
def set (m : Map κ α) (k : κ) (v : α) : Map κ α :=
  m.upsert (k, v) (fun e => (e.1, v)) fun _ => rfl

def remove (m : Map κ α) (k : κ) : Map κ α := m.delete fun e => e.1 = k

def size (m : Map κ α) : ℕ := m.rows.length

def values (m : Map κ α) : List α := m.rows.map Prod.snd

/-- The first number from `n` on whose key is free: `while (m.has(key)) n += 1`.
`fuel` bounds the rounds. -/
def firstFree (m : Map κ α) (key : ℕ → κ) : ℕ → ℕ → ℕ
  | 0, n => n
  | fuel + 1, n => if (m.find (key n)).isSome then firstFree m key fuel (n + 1) else n

@[simp] theorem find_empty (k : κ) : find (Table.empty : Map κ α) k = none := rfl

theorem find_eq_some {m : Map κ α} {k : κ} {v : α} : m.find k = some v ↔ (k, v) ∈ m.rows := by
  rw [find, Option.map_eq_some_iff]
  constructor
  · rintro ⟨⟨k', v'⟩, he, rfl⟩
    obtain ⟨hmem, rfl⟩ := Table.get_eq_some_iff.mp he
    exact hmem
  · intro h
    exact ⟨(k, v), Table.get_eq_some_iff.mpr ⟨h, rfl⟩, rfl⟩

theorem find_set (m : Map κ α) (k : κ) (v : α) (k' : κ) :
    (m.set k v).find k' = if k' = k then some v else m.find k' := by
  rw [find, set, Table.get_upsert]
  split_ifs with hk
  · cases hget : m.get k with
    | none => rfl
    | some e => rfl
  · rfl

theorem find_remove (m : Map κ α) (k k' : κ) :
    (m.remove k).find k' = if k' = k then none else m.find k' := by
  rw [find, remove]
  split_ifs with hk
  · rw [hk, Table.get_delete_self (by simp)]
    rfl
  · rw [Table.get_delete_ne (fun r hr => by simpa [hr] using hk)]
    rfl

theorem mem_values {m : Map κ α} {k : κ} {v : α} (h : m.find k = some v) : v ∈ m.values :=
  List.mem_map_of_mem (find_eq_some.mp h)

theorem find_eq_none {m : Map κ α} {k : κ} : m.find k = none ↔ k ∉ m.rows.map Prod.fst := by
  rw [find, Option.map_eq_none_iff, Table.get_eq_none_iff, List.mem_map]
  exact ⟨fun h ⟨e, he, heq⟩ => h e he heq, fun h e he heq => h ⟨e, he, heq⟩⟩

/-! ## What a map holds -/

theorem values_set_new {m : Map κ α} {k : κ} (h : m.find k = none) (v : α) :
    (m.set k v).values.Perm (v :: m.values) := by
  have hk : k ∉ m.rows.map Prod.fst := find_eq_none.mp h
  have hrows : (m.set k v).rows = m.rows ++ [(k, v)] := by
    rw [set, Table.upsert, Table.insert, dif_neg hk, Option.getD_some]
  rw [values, hrows, List.map_append]
  exact List.perm_append_singleton v m.values

/-- What a map holds is the value under a key and what is left without it. -/
theorem values_remove {m : Map κ α} {k : κ} {v : α} (h : m.find k = some v) :
    m.values.Perm (v :: (m.remove k).values) := by
  have hmem : (k, v) ∈ m.rows := find_eq_some.mp h
  have hfilter : m.rows.filter (fun e => decide (e.1 = k)) = [(k, v)] := by
    obtain ⟨rows, hnodup⟩ := m
    change (k, v) ∈ rows at hmem
    show rows.filter _ = _
    clear h
    induction rows with
    | nil => cases hmem
    | cons e rest ih =>
        obtain ⟨he, hrest⟩ := List.nodup_cons.mp hnodup
        rcases List.mem_cons.mp hmem with rfl | hmem
        · rw [List.filter_cons_of_pos (by simp), List.filter_eq_nil_iff.mpr]
          intro r hr heq
          exact he (List.mem_map.mpr ⟨r, hr, of_decide_eq_true heq⟩)
        · have hne : e.1 ≠ k := fun heq => he (List.mem_map.mpr ⟨(k, v), hmem, heq.symm⟩)
          rw [List.filter_cons_of_neg (by simpa using hne), ih hrest hmem]
  have hperm := (List.filter_append_perm (fun e : κ × α => decide (e.1 = k)) m.rows).symm
  rw [hfilter] at hperm
  exact hperm.map Prod.snd

/-- Setting a key that is there puts the value in the place of the old one. -/
theorem values_set_old {m : Map κ α} {k : κ} {old : α} (h : m.find k = some old) (v : α) :
    (m.set k v).values.Perm (v :: (m.remove k).values) := by
  have hfind : (m.set k v).find k = some v := by rw [find_set, if_pos rfl]
  have hremove : ((m.set k v).remove k).rows = (m.remove k).rows := by
    have hnone : m.insert (k, v) = none := by
      rw [Table.insert, dif_pos]
      exact List.mem_map.mpr ⟨(k, old), find_eq_some.mp h, rfl⟩
    rw [set, Table.upsert, hnone, Option.getD_none, remove, remove, Table.delete, Table.delete,
      Table.update]
    show (m.rows.map _).filter _ = m.rows.filter _
    rw [List.filter_map]
    have hsame : (m.rows.filter fun e => !decide (e.1 = k)).map
        (fun r => if decide (r.1 = k) = true then (r.1, v) else r) =
          m.rows.filter fun e => !decide (e.1 = k) := by
      rw [List.map_congr_left (g := id), List.map_id]
      intro e he
      rw [if_neg (by simpa using (List.mem_filter.mp he).2)]
      rfl
    rw [← hsame]
    congr 1
    apply List.filter_congr
    intro e _
    rw [Function.comp_apply]
    split_ifs <;> rfl
  have hperm := values_remove hfind
  rwa [values, values, hremove] at hperm

/-! ## A free key -/

theorem le_firstFree (m : Map κ α) (key : ℕ → κ) (fuel n : ℕ) : n ≤ m.firstFree key fuel n := by
  induction fuel generalizing n with
  | zero => exact Nat.le_refl n
  | succ fuel ih =>
      rw [firstFree]
      split_ifs
      · exact Nat.le_of_succ_le (ih (n + 1))
      · exact Nat.le_refl n

theorem firstFree_taken {m : Map κ α} {key : ℕ → κ} {fuel n : ℕ}
    (h : (m.find (key (m.firstFree key fuel n))).isSome = true) :
    ∀ i ≤ fuel, (m.find (key (n + i))).isSome = true := by
  induction fuel generalizing n with
  | zero =>
      intro i hi
      rwa [Nat.le_zero.mp hi]
  | succ fuel ih =>
      rw [firstFree] at h
      split_ifs at h with hn
      intro i hi
      cases i with
      | zero => exact hn
      | succ i =>
          have htaken := ih h i (by omega)
          rwa [Nat.add_right_comm] at htaken
      exact absurd h hn

/-- With a round for each entry the search ends at a free key. -/
theorem find_firstFree (m : Map κ α) {key : ℕ → κ} (hkey : Function.Injective key) (n : ℕ) :
    m.find (key (m.firstFree key m.size n)) = none := by
  by_contra hsome
  have htaken := firstFree_taken (Option.isSome_iff_ne_none.mpr hsome)
  have hsub : ((List.range (m.size + 1)).map fun i => key (n + i)) ⊆ m.rows.map Prod.fst := by
    intro k hk
    obtain ⟨i, hi, rfl⟩ := List.mem_map.mp hk
    obtain ⟨v, hv⟩ := Option.isSome_iff_exists.mp
      (htaken i (Nat.lt_succ_iff.mp (List.mem_range.mp hi)))
    exact List.mem_map_of_mem (find_eq_some.mp hv)
  have hnodup : ((List.range (m.size + 1)).map fun i => key (n + i)).Nodup := by
    refine List.nodup_range.map ?_
    intro i j hij
    have := hkey hij
    omega
  have hle := (hnodup.subperm hsub).length_le
  rw [List.length_map, List.length_map, List.length_range] at hle
  have : m.size = m.rows.length := rfl
  omega

end Map

end Shizuha.Js
