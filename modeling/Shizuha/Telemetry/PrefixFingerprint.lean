import Mathlib.Data.List.Sort
import Shizuha.Js.JsonRoundTrip

/-!
# The canonical text of a value

`stableJson` writes a value with the keys of every object sorted, so that two
values which differ in nothing but the order of their properties have one
text. It is the ordinary text of a sorted value, and from there the round trip
of the ordinary text says when two values share it: when they are the same
value after sorting and after `null` for every infinity.
-/

namespace Shizuha.Telemetry

open Js

/-- The order `sort()` puts strings in: by code units. -/
def keyLE (k l : Text) : Bool := decide (k ≤ l)

mutual

def stableJson : Json → Text
  | .arr items => 91 :: join [44] (stableItems items) ++ [93]
  | .obj fields =>
      123 :: join [44]
        (((stableFields fields).insertionSort fun f g => keyLE f.1 g.1).map
          fun f => quote f.1 ++ 58 :: f.2) ++ [125]
  | v => v.print

def stableItems : List Json → List Text
  | [] => []
  | v :: rest => stableJson v :: stableItems rest

def stableFields : List (Text × Json) → List (Text × Text)
  | [] => []
  | (k, v) :: rest => (k, stableJson v) :: stableFields rest

end

/-! ## Sorting first -/

mutual

/-- The value with the keys of every object in it sorted. -/
def sortKeys : Json → Json
  | .arr items => .arr (sortItems items)
  | .obj fields => .obj ((sortFields fields).insertionSort fun f g => keyLE f.1 g.1)
  | v => v

def sortItems : List Json → List Json
  | [] => []
  | v :: rest => sortKeys v :: sortItems rest

def sortFields : List (Text × Json) → List (Text × Json)
  | [] => []
  | (k, v) :: rest => (k, sortKeys v) :: sortFields rest

end

theorem printItems_eq_join (items : List Json) :
    printItems items = join [44] (items.map Json.print) := by
  induction items with
  | nil => rfl
  | cons v rest ih =>
      cases rest with
      | nil => simp [printItems, join]
      | cons w rest => rw [printItems, ih]; simp [join, List.intercalate]

theorem printFields_eq_join (fields : List (Text × Json)) :
    printFields fields = join [44] (fields.map fun f => quote f.1 ++ 58 :: f.2.print) := by
  induction fields with
  | nil => rfl
  | cons f rest ih =>
      obtain ⟨k, v⟩ := f
      cases rest with
      | nil => simp [printFields, join]
      | cons g rest => rw [printFields, ih]; simp [join, List.intercalate]

mutual

theorem stableJson_eq_print (v : Json) : stableJson v = (sortKeys v).print := by
  match v with
  | .null => rfl
  | .bool _ => rfl
  | .num _ => rfl
  | .str _ => rfl
  | .arr items =>
      rw [stableJson, sortKeys, Json.print, printItems_eq_join, stableItems_eq_map]
  | .obj fields =>
      have hsort : (stableFields fields).insertionSort (fun f g => keyLE f.1 g.1) =
          ((sortFields fields).insertionSort fun f g => keyLE f.1 g.1).map
            fun f => (f.1, f.2.print) := by
        rw [stableFields_eq_map]
        symm
        exact List.map_insertionSort _ _ (fun f : Text × Json => (f.1, f.2.print)) _
          (fun _ _ _ _ => Iff.rfl)
      rw [stableJson, sortKeys, Json.print, printFields_eq_join, hsort, List.map_map]
      rfl

theorem stableItems_eq_map (items : List Json) :
    stableItems items = (sortItems items).map Json.print := by
  match items with
  | [] => rfl
  | v :: rest =>
      rw [stableItems, sortItems, List.map_cons, stableJson_eq_print v, stableItems_eq_map rest]

theorem stableFields_eq_map (fields : List (Text × Json)) :
    stableFields fields = (sortFields fields).map fun f => (f.1, f.2.print) := by
  match fields with
  | [] => rfl
  | (k, v) :: rest =>
      rw [stableFields, sortFields, List.map_cons, stableJson_eq_print v,
        stableFields_eq_map rest]

end

/-! ## When two values share a text -/

mutual

/-- An infinity is written as `null` is. -/
theorem print_nullify (v : Json) : v.nullify.print = v.print := by
  match v with
  | .null => rfl
  | .bool _ => rfl
  | .num (.finite _) => rfl
  | .num (.infinite _) => rfl
  | .str _ => rfl
  | .arr items => rw [Json.nullify, Json.print, Json.print, printItems_nullify items]
  | .obj fields => rw [Json.nullify, Json.print, Json.print, printFields_nullify fields]

theorem printItems_nullify (items : List Json) :
    printItems (nullifyItems items) = printItems items := by
  match items with
  | [] => rfl
  | [v] => rw [nullifyItems, nullifyItems, printItems, printItems, print_nullify v]
  | v :: w :: rest =>
      have ih := printItems_nullify (w :: rest)
      rw [nullifyItems] at ih
      rw [nullifyItems, nullifyItems, printItems, printItems, print_nullify v, ih]

theorem printFields_nullify (fields : List (Text × Json)) :
    printFields (nullifyFields fields) = printFields fields := by
  match fields with
  | [] => rfl
  | [(k, v)] => rw [nullifyFields, nullifyFields, printFields, printFields, print_nullify v]
  | (k, v) :: (l, w) :: rest =>
      have ih := printFields_nullify ((l, w) :: rest)
      rw [nullifyFields] at ih
      rw [nullifyFields, nullifyFields, printFields, printFields, print_nullify v, ih]

end

theorem print_eq_iff {v w : Json} : v.print = w.print ↔ v.nullify = w.nullify := by
  constructor
  · intro h
    have hread := read_print v
    rw [h, read_print w] at hread
    exact (Option.some.inj hread).symm
  · intro h
    rw [← print_nullify v, ← print_nullify w, h]

/-- The canonical text tells two values apart unless they differ in the order
of properties and in infinities only. -/
theorem stableJson_eq_iff {v w : Json} :
    stableJson v = stableJson w ↔ (sortKeys v).nullify = (sortKeys w).nullify := by
  rw [stableJson_eq_print, stableJson_eq_print, print_eq_iff]

end Shizuha.Telemetry

/-!
# Objects by their keys

The canonical text of an object depends on its fields as a set: two lists of
fields that are permutations of each other sort to the same one, as long as no
key is there twice. A sorted value is its own sorted value, and it is the one
that its text parses to.
-/

namespace Shizuha.Telemetry

open Js

theorem keyLE_total (k l : Text) : keyLE k l = true ∨ keyLE l k = true := by
  rw [keyLE, keyLE, decide_eq_true_iff, decide_eq_true_iff]
  exact List.le_total k l

theorem keyLE_trans {k l m : Text} (h : keyLE k l = true) (h' : keyLE l m = true) :
    keyLE k m = true := by
  rw [keyLE, decide_eq_true_iff] at *
  exact List.le_trans h h'

theorem keyLE_antisymm {k l : Text} (h : keyLE k l = true) (h' : keyLE l k = true) : k = l := by
  rw [keyLE, decide_eq_true_iff] at *
  exact List.le_antisymm h h'

section ByKey

variable {α : Type*} {l l' : List α}

theorem pairwise_byKey (key : α → Text) (l : List α) :
    (l.insertionSort fun f g => keyLE (key f) (key g)).Pairwise
      fun f g => keyLE (key f) (key g) = true := by
  have htotal : Std.Total fun f g : α => keyLE (key f) (key g) = true :=
    ⟨fun f g => keyLE_total (key f) (key g)⟩
  have htrans : IsTrans α fun f g : α => keyLE (key f) (key g) = true :=
    ⟨fun _ _ _ h h' => keyLE_trans h h'⟩
  exact List.pairwise_insertionSort _ l

/-- Sorting forgets the order, where no two elements share a key. -/
theorem insertionSort_byKey_perm (key : α → Text) (hperm : l.Perm l')
    (hinj : ∀ f ∈ l, ∀ g ∈ l, key f = key g → f = g) :
    (l.insertionSort fun f g => keyLE (key f) (key g)) =
      l'.insertionSort fun f g => keyLE (key f) (key g) := by
  have hsorted : (l.insertionSort fun f g => keyLE (key f) (key g)).Perm
      (l'.insertionSort fun f g => keyLE (key f) (key g)) :=
    (List.perm_insertionSort _ l).trans (hperm.trans (List.perm_insertionSort _ l').symm)
  refine hsorted.eq_of_pairwise (fun f g hf hg hle hge => ?_) (pairwise_byKey key l)
    (pairwise_byKey key l')
  rw [List.mem_insertionSort] at hf hg
  exact hinj f hf g (hperm.mem_iff.mpr hg) (keyLE_antisymm hle hge)

theorem insertionSort_keys_perm {keys keys' : List Text} (hperm : keys.Perm keys') :
    (keys.insertionSort fun k l => keyLE k l) = keys'.insertionSort fun k l => keyLE k l :=
  insertionSort_byKey_perm id hperm fun _ _ _ _ h => h

end ByKey

/-! ## Sorted values -/

variable {fields fields' : List (Text × Json)}

theorem sortFields_eq_map (fields : List (Text × Json)) :
    sortFields fields = fields.map fun f => (f.1, sortKeys f.2) := by
  induction fields with
  | nil => rfl
  | cons f rest ih =>
      obtain ⟨k, v⟩ := f
      rw [sortFields, ih, List.map_cons]

theorem sortItems_eq_map (items : List Json) : sortItems items = items.map sortKeys := by
  induction items with
  | nil => rfl
  | cons v rest ih => rw [sortItems, ih, List.map_cons]

theorem fst_sortFields (fields : List (Text × Json)) :
    (sortFields fields).map Prod.fst = fields.map Prod.fst := by
  rw [sortFields_eq_map, List.map_map]
  rfl

theorem sortKeys_perm (hperm : fields.Perm fields') (hnodup : (fields.map Prod.fst).Nodup) :
    sortKeys (.obj fields) = sortKeys (.obj fields') := by
  have hsorted : (sortFields fields).Perm (sortFields fields') := by
    rw [sortFields_eq_map, sortFields_eq_map]
    exact hperm.map _
  rw [← fst_sortFields] at hnodup
  rw [sortKeys, sortKeys, insertionSort_byKey_perm Prod.fst hsorted fun f hf g hg heq =>
    List.inj_on_of_nodup_map hnodup hf hg heq]

theorem sortFields_insertionSort (fields : List (Text × Json)) :
    sortFields (fields.insertionSort fun f g => keyLE f.1 g.1) =
      (sortFields fields).insertionSort fun f g => keyLE f.1 g.1 := by
  rw [sortFields_eq_map, sortFields_eq_map]
  exact List.map_insertionSort _ _ _ _ fun _ _ _ _ => Iff.rfl

mutual

theorem sortKeys_sortKeys (v : Json) : sortKeys (sortKeys v) = sortKeys v := by
  match v with
  | .null => rfl
  | .bool _ => rfl
  | .num _ => rfl
  | .str _ => rfl
  | .arr items => rw [sortKeys, sortKeys, sortItems_sortItems items]
  | .obj fields =>
      rw [sortKeys, sortKeys, sortFields_insertionSort, sortFields_sortFields fields,
        (pairwise_byKey Prod.fst (sortFields fields)).insertionSort_eq]

theorem sortItems_sortItems (items : List Json) :
    sortItems (sortItems items) = sortItems items := by
  match items with
  | [] => rfl
  | v :: rest => rw [sortItems, sortItems, sortKeys_sortKeys v, sortItems_sortItems rest]

theorem sortFields_sortFields (fields : List (Text × Json)) :
    sortFields (sortFields fields) = sortFields fields := by
  match fields with
  | [] => rfl
  | (k, v) :: rest => rw [sortFields, sortFields, sortKeys_sortKeys v, sortFields_sortFields rest]

end

/-- The canonical text is that of the sorted value. -/
theorem stableJson_sortKeys (v : Json) : stableJson (sortKeys v) = stableJson v := by
  rw [stableJson_eq_print, stableJson_eq_print, sortKeys_sortKeys]

theorem mem_sorted {f : Text × Json}
    (h : f ∈ (sortFields fields).insertionSort fun f g => keyLE f.1 g.1) :
    ∃ g ∈ fields, (g.1, sortKeys g.2) = f := by
  rw [List.mem_insertionSort, sortFields_eq_map] at h
  exact List.mem_map.mp h

/-- A sorted object comes back from its text when its keys are distinct and no
index, and its values come back. -/
theorem representable_sortKeys (hnodup : (fields.map Prod.fst).Nodup)
    (hindex : ∀ f ∈ fields, indexKey f.1 = none)
    (h : ∀ f ∈ fields, (sortKeys f.2).Representable) : (sortKeys (.obj fields)).Representable := by
  rw [sortKeys]
  refine representable_obj ?_ (fun f hf => ?_) fun f hf => ?_
  · have hperm := (List.perm_insertionSort (fun f g => keyLE f.1 g.1) (sortFields fields)).map
      Prod.fst
    rw [hperm.nodup_iff, fst_sortFields]
    exact hnodup
  · obtain ⟨g, hg, rfl⟩ := mem_sorted hf
    exact hindex g hg
  · obtain ⟨g, hg, rfl⟩ := mem_sorted hf
    exact h g hg

theorem parse_stableJson {v : Json} (h : (sortKeys v).Representable) :
    Json.parse (stableJson v) = some (sortKeys v) := by
  rw [stableJson_eq_print, h.parse_print]

end Shizuha.Telemetry
