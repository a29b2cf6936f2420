import Shizuha.Js.Text
import Shizuha.Table

/-!
# Maps with text keys

A `Map`, and an object used as one: entries in the order their keys were first
set, no key twice. An object also moves the keys that are array indices to the
front; none of the keys kept in a `Dict` here is one.
-/

namespace Shizuha.Js

abbrev Dict (α : Type*) := Table Text (Text × α) Prod.fst

namespace Dict

variable {α β : Type*}

def find (d : Dict α) (k : Text) : Option α := (d.get k).map Prod.snd

/-- `set`: a key that is there keeps its place. -/
def set (d : Dict α) (k : Text) (v : α) : Dict α :=
  d.upsert (k, v) (fun e => (e.1, v)) fun _ => rfl

def remove (d : Dict α) (k : Text) : Dict α := d.delete fun e => e.1 = k

/-- `Object.fromEntries`. -/
def fromEntries (entries : List (Text × α)) : Dict α :=
  entries.foldl (fun d e => set d e.1 e.2) Table.empty

theorem ext_rows {d d' : Dict α} (h : d.rows = d'.rows) : d = d' := by
  cases d
  cases d'
  cases h
  rfl

theorem find_eq_some {d : Dict α} {k : Text} {v : α} (h : find d k = some v) : (k, v) ∈ d.rows := by
  obtain ⟨e, he, rfl⟩ := Option.map_eq_some_iff.mp h
  obtain ⟨hmem, rfl⟩ := Table.get_eq_some_iff.mp he
  exact hmem

/-- An entry after `set` is the one that was set or one of before. -/
theorem mem_set {d : Dict α} {k : Text} {v : α} {e : Text × α} (h : e ∈ (set d k v).rows) :
    e = (k, v) ∨ e ∈ d.rows := by
  rw [set, Table.upsert] at h
  cases hins : d.insert (k, v) with
  | some d' =>
      rw [hins, Option.getD_some, (Table.insert_eq_some hins).2] at h
      simpa [or_comm] using h
  | none =>
      rw [hins, Option.getD_none] at h
      obtain ⟨e', he', rfl⟩ := List.mem_map.mp h
      by_cases hk : e'.1 = k
      · left
        simp [hk]
      · right
        simpa [hk] using he'

theorem find_set (d : Dict α) (k : Text) (v : α) (k' : Text) :
    find (set d k v) k' = if k' = k then some v else find d k' := by
  have hget : (set d k v).get k' = if k' = k then some (k, v) else d.get k' := by
    rw [set, Table.upsert]
    cases hins : d.insert (k, v) with
    | some d' => rw [Option.getD_some, Table.get_insert hins]
    | none =>
        obtain ⟨r, hr, hkey⟩ := Table.insert_eq_none hins
        have hr' : d.get k = some r := Table.get_eq_some_iff.mpr ⟨hr, hkey⟩
        rw [Option.getD_none, Table.get_update]
        split_ifs with hk
        · have hfst : r.1 = k := hkey
          rw [hk, hr']
          simp [hfst]
        · cases hget : d.get k' with
          | none => rfl
          | some e =>
              have hne : e.1 ≠ k := by
                rw [(Table.get_eq_some_iff.mp hget).2]
                exact hk
              simp [hne]
  rw [find, hget]
  split_ifs
  · rfl
  · rfl

theorem find_remove (d : Dict α) (k k' : Text) :
    find (remove d k) k' = if k' = k then none else find d k' := by
  rw [find, remove]
  split_ifs with hk
  · rw [hk, Table.get_delete_self (by simp)]
    rfl
  · rw [Table.get_delete_ne (fun r hr => by simpa [hr] using hk)]
    rfl

@[simp] theorem find_empty (k : Text) : find (Table.empty : Dict α) k = none := rfl

theorem rows_set_new {d : Dict α} {k : Text} {v : α} (h : k ∉ d.rows.map Prod.fst) :
    (set d k v).rows = d.rows ++ [(k, v)] := by
  rw [set, Table.upsert, Table.insert, dif_neg h, Option.getD_some]

/-! The keys. -/

def keys (d : Dict α) : List Text := d.rows.map Prod.fst

theorem keys_nodup (d : Dict α) : d.keys.Nodup := d.nodup

theorem mem_keys_of_find {d : Dict α} {k : Text} {v : α} (h : find d k = some v) : k ∈ d.keys :=
  List.mem_map_of_mem (find_eq_some h)

theorem count_keys_set {d : Dict α} {k : Text} (h : k ∉ d.keys) (v : α) (k' : Text) :
    (set d k v).keys.count k' = d.keys.count k' + [k].count k' := by
  rw [keys, rows_set_new h, List.map_append, List.count_append]
  rfl

/-- Removing a key takes its one entry. -/
theorem count_keys_remove {d : Dict α} {k : Text} (h : k ∈ d.keys) (k' : Text) :
    (remove d k).keys.count k' + [k].count k' = d.keys.count k' := by
  have hkeys : (remove d k).keys = d.keys.filter fun k' => !decide (k' = k) := by
    rw [keys, keys, remove, Table.delete, List.filter_map]
    rfl
  have hone : d.keys.count k = 1 := List.count_eq_one_of_mem d.keys_nodup h
  by_cases hk : k' = k
  · have hnone : k ∉ d.keys.filter fun k' => !decide (k' = k) := by simp
    rw [hkeys, hk, List.count_eq_zero_of_not_mem hnone, hone, List.count_singleton_self]
  · rw [hkeys, List.count_filter (by simpa using hk), List.count_singleton]
    simp [Ne.symm hk]

theorem foldl_set_rows {entries : List (Text × α)} {d : Dict α}
    (h : ((d.rows ++ entries).map Prod.fst).Nodup) :
    (entries.foldl (fun d e => set d e.1 e.2) d).rows = d.rows ++ entries := by
  induction entries generalizing d with
  | nil => simp
  | cons e rest ih =>
      have he : e.1 ∉ d.rows.map Prod.fst := by
        rw [List.map_append, List.nodup_append] at h
        intro hmem
        exact h.2.2 e.1 hmem e.1 (by simp) rfl
      have hrows := rows_set_new (v := e.2) he
      rw [List.foldl_cons, ih (by simpa [hrows] using h), hrows, List.append_assoc]
      rfl

theorem rows_fromEntries {entries : List (Text × α)} (h : (entries.map Prod.fst).Nodup) :
    (fromEntries entries).rows = entries := by
  rw [fromEntries, foldl_set_rows (d := Table.empty) (by simpa [Table.empty] using h)]
  rfl

end Dict

end Shizuha.Js
