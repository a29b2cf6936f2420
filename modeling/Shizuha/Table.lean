import Mathlib.Data.List.Nodup

/-!
# Tables

Two kinds of relation, each with the constraint that makes it one. A `Table`
has a key no two of its rows share; a `Sequence` numbers its rows as they come
and never gives a number out twice. The constraint is a field, so a statement
that would break it cannot be written: inserting a second row under a key is
refused, and an update says that it keeps the key.

The lemmas read a relation after a statement through the relation before it,
one for each statement.
-/

namespace Shizuha

/-! ## Rows under a key -/

structure Table (κ ρ : Type*) (key : ρ → κ) where
  rows : List ρ
  nodup : (rows.map key).Nodup

namespace Table

variable {κ ρ : Type*} {key : ρ → κ}

def empty : Table κ ρ key := ⟨[], List.nodup_nil⟩

/-- UPDATE of the rows that pass `p`. -/
def update (t : Table κ ρ key) (p : ρ → Bool) (f : ρ → ρ) (hf : ∀ r, key (f r) = key r) :
    Table κ ρ key where
  rows := t.rows.map fun r => if p r then f r else r
  nodup := by
    have hkey : key ∘ (fun r => if p r then f r else r) = key := by
      funext r
      rw [Function.comp_apply]
      split_ifs
      · exact hf r
      · rfl
    rw [List.map_map, hkey]
    exact t.nodup

/-- DELETE of the rows that pass `p`. -/
def delete (t : Table κ ρ key) (p : ρ → Bool) : Table κ ρ key where
  rows := t.rows.filter fun r => !p r
  nodup := t.nodup.sublist (List.filter_sublist.map key)

variable [DecidableEq κ]

/-- The row under a key. -/
def get (t : Table κ ρ key) (k : κ) : Option ρ := t.rows.find? fun r => key r = k

/-- INSERT, refused when the key is taken. -/
def insert (t : Table κ ρ key) (r : ρ) : Option (Table κ ρ key) :=
  if h : key r ∈ t.rows.map key then none
  else some
    ⟨t.rows ++ [r], by
      rw [List.map_append, List.nodup_append]
      exact ⟨t.nodup, by simp, by grind⟩⟩

/-- UPDATE of the rows that pass `p`, their keys included, refused when two
rows would share one. -/
def rekey (t : Table κ ρ key) (p : ρ → Bool) (f : ρ → ρ) : Option (Table κ ρ key) :=
  if h : ((t.rows.map fun r => if p r then f r else r).map key).Nodup then some ⟨_, h⟩ else none

/-- INSERT OR IGNORE. -/
def insertOrIgnore (t : Table κ ρ key) (r : ρ) : Table κ ρ key := (t.insert r).getD t

/-- INSERT … ON CONFLICT DO UPDATE: a row that is there is changed in place. -/
def upsert (t : Table κ ρ key) (r : ρ) (f : ρ → ρ) (hf : ∀ r, key (f r) = key r) :
    Table κ ρ key :=
  (t.insert r).getD (t.update (fun old => key old = key r) f hf)

theorem get_eq_some_iff {t : Table κ ρ key} {k : κ} {r : ρ} :
    t.get k = some r ↔ r ∈ t.rows ∧ key r = k := by
  constructor
  · intro h
    exact ⟨List.mem_of_find?_eq_some h, by simpa using List.find?_some h⟩
  · rintro ⟨hr, hk⟩
    have hfound : (t.get k).isSome := by
      rw [get, List.find?_isSome]
      exact ⟨r, hr, by simpa using hk⟩
    obtain ⟨r', hr'⟩ := Option.isSome_iff_exists.mp hfound
    have hk' : key r' = k := by simpa using List.find?_some hr'
    rw [hr', List.inj_on_of_nodup_map t.nodup (List.mem_of_find?_eq_some hr') hr
      (hk'.trans hk.symm)]

theorem get_eq_none_iff {t : Table κ ρ key} {k : κ} :
    t.get k = none ↔ ∀ r ∈ t.rows, key r ≠ k := by
  rw [get, List.find?_eq_none]
  simp

theorem insert_eq_some {t t' : Table κ ρ key} {r : ρ} (h : t.insert r = some t') :
    t.get (key r) = none ∧ t'.rows = t.rows ++ [r] := by
  rw [insert] at h
  split_ifs at h with hk
  cases h
  refine ⟨get_eq_none_iff.mpr fun r' hr' heq => hk ?_, rfl⟩
  rw [← heq]
  exact List.mem_map_of_mem hr'

theorem insert_eq_none {t : Table κ ρ key} {r : ρ} (h : t.insert r = none) :
    ∃ r' ∈ t.rows, key r' = key r := by
  rw [insert] at h
  split_ifs at h with hk
  exact List.mem_map.mp hk

/-- A row after a change of keys is one of before or a changed one. -/
theorem get_rekey {t t' : Table κ ρ key} {p : ρ → Bool} {f : ρ → ρ} (h : t.rekey p f = some t')
    {k : κ} {r : ρ} (hr : t'.get k = some r) :
    t.get k = some r ∨ ∃ r' ∈ t.rows, p r' = true ∧ r = f r' := by
  rw [rekey] at h
  split_ifs at h
  cases h
  obtain ⟨hmem, hkey⟩ := get_eq_some_iff.mp hr
  obtain ⟨r', hr', rfl⟩ := List.mem_map.mp hmem
  split_ifs at hkey ⊢ with hp
  · exact .inr ⟨r', hr', hp, rfl⟩
  · exact .inl (get_eq_some_iff.mpr ⟨hr', hkey⟩)

theorem get_insert {t t' : Table κ ρ key} {r : ρ} (h : t.insert r = some t') (k : κ) :
    t'.get k = if k = key r then some r else t.get k := by
  obtain ⟨hnone, hrows⟩ := insert_eq_some h
  rw [get, hrows, List.find?_append]
  split_ifs with hk
  · subst hk
    have hget : t.rows.find? (fun r' => decide (key r' = key r)) = none := hnone
    rw [hget]
    simp
  · rw [← get]
    cases t.get k <;> simp [Ne.symm hk]

theorem get_update {t : Table κ ρ key} {p : ρ → Bool} {f : ρ → ρ}
    {hf : ∀ r, key (f r) = key r} (k : κ) :
    (t.update p f hf).get k = (t.get k).map fun r => if p r then f r else r := by
  have hkey : (fun r => decide (key r = k)) ∘ (fun r => if p r then f r else r) =
      fun r => decide (key r = k) := by
    funext r
    rw [Function.comp_apply]
    split_ifs <;> simp [hf]
  rw [get, get, update, List.find?_map, hkey]

theorem get_upsert {t : Table κ ρ key} {r : ρ} {f : ρ → ρ} {hf : ∀ r, key (f r) = key r}
    (k : κ) :
    (t.upsert r f hf).get k =
      if k = key r then some (((t.get (key r)).map f).getD r) else t.get k := by
  rw [upsert]
  cases h : t.insert r with
  | some t' =>
      rw [Option.getD_some, get_insert h, (insert_eq_some h).1]
      rfl
  | none =>
      rw [Option.getD_none]
      split_ifs with hk
      · obtain ⟨r', hr', hkey⟩ := insert_eq_none h
        rw [hk, get_update, get_eq_some_iff.mpr ⟨hr', hkey⟩]
        simp [hkey]
      · rw [get_update]
        cases hget : t.get k with
        | none => rfl
        | some r' => simp [(get_eq_some_iff.mp hget).2, hk]

theorem get_insertOrIgnore {t : Table κ ρ key} {r : ρ} (k : κ) :
    (t.insertOrIgnore r).get k =
      if k = key r then some ((t.get (key r)).getD r) else t.get k := by
  rw [insertOrIgnore]
  cases h : t.insert r with
  | some t' =>
      rw [Option.getD_some, get_insert h, (insert_eq_some h).1]
      rfl
  | none =>
      rw [Option.getD_none]
      split_ifs with hk
      · obtain ⟨r', hr', hkey⟩ := insert_eq_none h
        rw [hk, get_eq_some_iff.mpr ⟨hr', hkey⟩]
        rfl
      · rfl

theorem get_delete_self {t : Table κ ρ key} {p : ρ → Bool} {k : κ}
    (hp : ∀ r, key r = k → p r = true) : (t.delete p).get k = none := by
  rw [get_eq_none_iff]
  intro r hr hkey
  have := (List.mem_filter.mp hr).2
  simp [hp r hkey] at this

theorem get_delete_ne {t : Table κ ρ key} {p : ρ → Bool} {k : κ}
    (hp : ∀ r, key r = k → p r = false) : (t.delete p).get k = t.get k := by
  rw [Option.ext_iff]
  intro r
  rw [get_eq_some_iff, get_eq_some_iff, delete, List.mem_filter]
  constructor
  · exact fun h => ⟨h.1.1, h.2⟩
  · exact fun h => ⟨⟨h.1, by simp [hp r h.2]⟩, h.2⟩

/-- What the rows give, each under its own key: under one key there is what the
row with that key gives. -/
theorem filterMap_filter {β : Type*} (t : Table κ ρ key) (g : ρ → Option β) (tag : β → κ)
    (htag : ∀ r b, g r = some b → tag b = key r) (k : κ) :
    (t.rows.filterMap g).filter (fun b => tag b = k) = ((t.get k).bind g).toList := by
  obtain ⟨rows, hnodup⟩ := t
  show _ = ((rows.find? fun r => key r = k).bind g).toList
  induction rows with
  | nil => rfl
  | cons r rest ih =>
      obtain ⟨hr, hrest⟩ := List.nodup_cons.mp hnodup
      have hothers := ih hrest
      by_cases hk : key r = k
      · have hnone : rest.find? (fun r => decide (key r = k)) = none :=
          List.find?_eq_none.mpr fun r' hr' heq =>
            hr (List.mem_map.mpr ⟨r', hr', (of_decide_eq_true heq).trans hk.symm⟩)
        rw [hnone] at hothers
        rw [List.find?_cons_of_pos (by simpa using hk), Option.bind_some, List.filterMap_cons]
        cases hg : g r with
        | none => exact hothers
        | some b =>
            show List.filter _ (b :: _) = [b]
            rw [List.filter_cons_of_pos (by simp [htag r b hg, hk]), hothers]
            rfl
      · rw [List.find?_cons_of_neg (by simpa using hk), ← hothers, List.filterMap_cons]
        cases hg : g r with
        | none => rfl
        | some b =>
            show List.filter _ (b :: _) = _
            rw [List.filter_cons_of_neg (by simp [htag r b hg, hk])]

end Table

/-! ## Rows under a number -/

/-- A table whose numbers are given out once: AUTOINCREMENT. -/
structure Sequence (ρ : Type*) where
  entries : List (ℕ × ρ)
  next : ℕ
  ascending : entries.Pairwise fun a b => a.1 < b.1
  below : ∀ e ∈ entries, e.1 < next

namespace Sequence

variable {ρ : Type*}

def empty : Sequence ρ := ⟨[], 1, List.Pairwise.nil, by simp⟩

def push (s : Sequence ρ) (r : ρ) : Sequence ρ where
  entries := s.entries ++ [(s.next, r)]
  next := s.next + 1
  ascending := by
    rw [List.pairwise_append]
    exact ⟨s.ascending, List.pairwise_singleton _ _, by simpa using fun a b h => s.below (a, b) h⟩
  below := by
    intro e he
    rcases List.mem_append.mp he with he | he
    · exact Nat.lt_succ_of_lt (s.below e he)
    · rw [List.mem_singleton.mp he]
      exact Nat.lt_succ_self _

def delete (s : Sequence ρ) (p : ρ → Bool) : Sequence ρ where
  entries := s.entries.filter fun e => !p e.2
  next := s.next
  ascending := s.ascending.sublist List.filter_sublist
  below := fun e he => s.below e (List.mem_of_mem_filter he)

def rows (s : Sequence ρ) : List ρ := s.entries.map Prod.snd

@[simp] theorem rows_push (s : Sequence ρ) (r : ρ) : (s.push r).rows = s.rows ++ [r] := by
  rw [rows, push, List.map_append]
  rfl

@[simp] theorem rows_delete (s : Sequence ρ) (p : ρ → Bool) :
    (s.delete p).rows = s.rows.filter fun r => !p r := by
  rw [rows, rows, delete, List.filter_map]
  rfl

/-- `s'` is `s` with `rows` after what is there, under numbers that had not been
given out. -/
structure Grown (s s' : Sequence ρ) (rows : List ρ) : Prop where
  next : s.next ≤ s'.next
  entries : ∃ new, s'.entries = s.entries ++ new ∧ new.map Prod.snd = rows ∧
    ∀ e ∈ new, s.next ≤ e.1

theorem Grown.refl (s : Sequence ρ) : Grown s s [] :=
  ⟨Nat.le_refl _, [], (List.append_nil _).symm, rfl, by simp⟩

theorem Grown.trans {s s' s'' : Sequence ρ} {rows rows' : List ρ} (h : Grown s s' rows)
    (h' : Grown s' s'' rows') : Grown s s'' (rows ++ rows') := by
  obtain ⟨new, heq, hrows, hnew⟩ := h.entries
  obtain ⟨new', heq', hrows', hnew'⟩ := h'.entries
  refine ⟨Nat.le_trans h.next h'.next, new ++ new', by rw [heq', heq, List.append_assoc],
    by rw [List.map_append, hrows, hrows'], fun e he => ?_⟩
  rcases List.mem_append.mp he with he | he
  · exact hnew e he
  · exact Nat.le_trans h.next (hnew' e he)

theorem grown_push (s : Sequence ρ) (r : ρ) : Grown s (s.push r) [r] :=
  ⟨Nat.le_succ _, [(s.next, r)], rfl, rfl, by simp⟩

theorem Grown.rows_eq {s s' : Sequence ρ} {rows : List ρ} (h : Grown s s' rows) :
    s'.rows = s.rows ++ rows := by
  obtain ⟨new, heq, hrows, -⟩ := h.entries
  rw [Sequence.rows, heq, List.map_append, hrows]
  rfl

/-- The rows numbered from `n` on. -/
def since (s : Sequence ρ) (n : ℕ) : List ρ := (s.entries.filter fun e => n ≤ e.1).map Prod.snd

/-- The rows a sequence has grown by are those under new numbers. -/
theorem Grown.since_eq {s s' : Sequence ρ} {rows : List ρ} (h : Grown s s' rows) :
    s'.since s.next = rows := by
  obtain ⟨new, heq, hrows, hnew⟩ := h.entries
  have hold : s.entries.filter (fun e => s.next ≤ e.1) = [] :=
    List.filter_eq_nil_iff.mpr fun e he => by simpa using s.below e he
  have hall : new.filter (fun e => s.next ≤ e.1) = new :=
    List.filter_eq_self.mpr fun e he => decide_eq_true (hnew e he)
  rw [since, heq, List.filter_append, hold, hall, List.nil_append, hrows]

end Sequence

end Shizuha
