import Mathlib.Data.List.Basic
import Mathlib.Data.List.DropRight

/-!
# Strings as the language has them

A string value is a sequence of 16-bit code units and nothing more: indices,
lengths and slices all count units, a lone surrogate is an ordinary unit, and
two strings are equal when their units are. Everything a program does to text
by position is list surgery here, so `indexOf`, `slice` and `trim` are the
list functions they always were.

The one operation with Unicode in it is `toWellFormed`, what a string becomes
when it is written out as UTF-8 and read back: a unit that is half of no pair
comes back as the replacement character. Text without such units survives:
`WellFormed` says so of one text, and the lemmas build it up from parts.
-/

namespace Shizuha.Js

/-- A string value: its UTF-16 code units, in order. -/
abbrev Text := List UInt16

instance : LawfulBEq Text := inferInstance

/-- The units of one scalar value: itself below the astral planes, a
surrogate pair above. -/
def unitsOf (c : Char) : Text :=
  if c.toNat < 0x10000 then [UInt16.ofNat c.toNat]
  else
    [UInt16.ofNat (0xD800 + (c.toNat - 0x10000) / 0x400),
     UInt16.ofNat (0xDC00 + (c.toNat - 0x10000) % 0x400)]

/-- A literal of the source, as the string value it denotes. -/
def js (s : String) : Text := s.toList.flatMap unitsOf

/-- A literal by its characters, which is how it is evaluated fastest. -/
theorem js_ofList (cs : List Char) : js (String.ofList cs) = cs.flatMap unitsOf := by
  rw [js, String.toList_ofList]

/-- The line feed, the one unit the readers below split on. -/
abbrev newline : UInt16 := 10

/-- WhiteSpace and LineTerminator together: what `trim` strips and what `\s`
matches. -/
def isSpace (u : UInt16) : Bool :=
  (9 ≤ u && u ≤ 13) || u == 0x20 || u == 0xA0 || u == 0x1680 ||
    (0x2000 ≤ u && u ≤ 0x200A) || u == 0x2028 || u == 0x2029 ||
    u == 0x202F || u == 0x205F || u == 0x3000 || u == 0xFEFF

def isDigit (u : UInt16) : Bool := 48 ≤ u && u ≤ 57

/-- The word class of a pattern: ASCII letters, digits and the underscore. -/
def isWord (u : UInt16) : Bool :=
  isDigit u || (65 ≤ u && u ≤ 90) || (97 ≤ u && u ≤ 122) || u == 95

/-! ## Slicing and searching -/

def trim (s : Text) : Text := (s.dropWhile isSpace).rdropWhile isSpace

def trimStart (s : Text) : Text := s.dropWhile isSpace

def startsWith (s head : Text) : Bool := head.isPrefixOf s

/-- The first index at which the needle occurs, `none` for the source's -1. -/
def indexOf (needle : Text) : Text → Option Nat
  | [] => if needle.isPrefixOf [] then some 0 else none
  | u :: s =>
      if needle.isPrefixOf (u :: s) then some 0
      else (indexOf needle s).map (· + 1)

def includes (text needle : Text) : Bool := (indexOf needle text).isSome

/-- `lastIndexOf` of one unit, searched for backwards from an index. -/
def lastIndexOf (u : UInt16) (s : Text) (start : ℕ) : Option ℕ :=
  ((s.take (start + 1)).reverse.idxOf? u).map fun k => (s.take (start + 1)).length - 1 - k

/-- `slice(start)` on anything indexed: a negative start counts from the
end, and both ends clamp. -/
def slice {α : Type _} (l : List α) (start : Int) : List α :=
  if start < 0 then l.drop (l.length - start.natAbs) else l.drop start.toNat

theorem slice_natCast {α : Type _} (l : List α) (k : ℕ) : slice l k = l.drop k := by
  rw [slice, if_neg (by omega), Int.toNat_natCast]

/-- The last `k` units. -/
theorem slice_neg {α : Type _} (l : List α) {k : ℕ} (hk : 0 < k) :
    slice l (-k) = l.drop (l.length - k) := by
  rw [slice, if_pos (by omega), Int.natAbs_neg, Int.natAbs_natCast]

/-- The pieces between line feeds, as `split('\n')` gives them. -/
def lines : Text → List Text
  | [] => [[]]
  | u :: s =>
      if u = newline then [] :: lines s
      else
        match lines s with
        | [] => [[u]]
        | l :: rest => (u :: l) :: rest

def join (sep : Text) (parts : List Text) : Text := sep.intercalate parts

/-! ## Trimming -/

/-- A text that trimming leaves alone. -/
structure Trimmed (s : Text) : Prop where
  head : ∀ u ∈ s.head?, isSpace u = false
  last : ∀ u ∈ s.getLast?, isSpace u = false

theorem dropWhile_space {w : Text} (hw : ∀ u ∈ w, isSpace u = true) (s : Text) :
    (w ++ s).dropWhile isSpace = s.dropWhile isSpace := List.dropWhile_append_of_pos hw

theorem dropWhile_eq_self_of_head {s : Text} (h : ∀ u ∈ s.head?, isSpace u = false) :
    s.dropWhile isSpace = s := by
  cases s with
  | nil => rfl
  | cons u s => rw [List.dropWhile_cons_of_neg (by simp [h u (by simp)])]

/-- Trimming takes off what is white space and stops at what is not. -/
theorem trim_surround {a s b : Text} (ha : ∀ u ∈ a, isSpace u = true)
    (hb : ∀ u ∈ b, isSpace u = true) (hs : Trimmed s) : trim (a ++ s ++ b) = s := by
  rw [trim, List.append_assoc, dropWhile_space ha]
  cases s with
  | nil =>
      rw [List.nil_append, List.dropWhile_eq_nil_iff.mpr hb]
      rfl
  | cons u s =>
      rw [dropWhile_eq_self_of_head (fun v hv => hs.head v (by simpa using hv)), List.rdropWhile,
        List.reverse_append, dropWhile_space (fun v hv => hb v (List.mem_reverse.mp hv)),
        dropWhile_eq_self_of_head
          (fun v hv => hs.last v (by rwa [List.head?_reverse] at hv)),
        List.reverse_reverse]

theorem trim_trimmed (s : Text) : Trimmed (trim s) := by
  refine ⟨fun u hu => ?_, fun u hu => ?_⟩
  · have hprefix : trim s <+: s.dropWhile isSpace := List.rdropWhile_prefix isSpace _
    have hhead : u ∈ (s.dropWhile isSpace).head? := by
      obtain ⟨t, ht⟩ := hprefix
      rw [← ht]
      cases htrim : trim s with
      | nil => simp [htrim] at hu
      | cons v r =>
          rw [htrim] at hu
          simpa using hu
    exact eq_false_of_ne_true fun hspace =>
      absurd (List.head?_dropWhile_not isSpace s) (by rw [Option.mem_def.mp hhead]; simp [hspace])
  · rw [trim, List.rdropWhile, List.getLast?_reverse] at hu
    have hhead := List.head?_dropWhile_not isSpace (s.dropWhile isSpace).reverse
    rw [Option.mem_def.mp hu] at hhead
    exact hhead

theorem length_trim_le (s : Text) : (trim s).length ≤ s.length :=
  (List.rdropWhile_prefix isSpace _).length_le.trans (List.dropWhile_suffix isSpace).length_le

/-- Trimming does not reach past something that is not white space. -/
theorem trim_append {a b : Text} (ha : a ≠ []) (h : Trimmed a) : ∃ c, trim (a ++ b) = a ++ c := by
  have hhead : ∀ u ∈ (a ++ b).head?, isSpace u = false := by
    intro u hu
    rw [List.head?_append_of_ne_nil _ ha] at hu
    exact h.head u hu
  have hlast : a.reverse.dropWhile isSpace = a.reverse :=
    dropWhile_eq_self_of_head fun u hu => h.last u (by simpa [List.head?_reverse] using hu)
  rw [trim, dropWhile_eq_self_of_head hhead, List.rdropWhile, List.reverse_append,
    List.dropWhile_append]
  split_ifs
  · exact ⟨[], by rw [hlast, List.reverse_reverse, List.append_nil]⟩
  · exact ⟨_, by rw [List.reverse_append, List.reverse_reverse]⟩

theorem startsWith_append (head s : Text) : startsWith (head ++ s) head = true :=
  List.isPrefixOf_iff_prefix.mpr ⟨s, rfl⟩

/-! ## Where a needle is -/

/-- A needle is found where it was put, when its first unit does not occur
before. -/
theorem indexOf_append {u : UInt16} {needle before after : Text} (h : u ∉ before) :
    indexOf (u :: needle) (before ++ (u :: needle ++ after)) = some before.length := by
  induction before with
  | nil =>
      rw [List.nil_append, List.cons_append, indexOf, if_pos]
      · rfl
      · exact List.isPrefixOf_iff_prefix.mpr ⟨after, by simp⟩
  | cons v before ih =>
      rw [List.cons_append, indexOf, if_neg, ih (fun hu => h (by simp [hu]))]
      · rfl
      · intro hp
        have heq := (List.isPrefixOf_iff_prefix.mp hp)
        rw [List.cons_prefix_cons] at heq
        exact h (by simp [heq.1])

theorem indexOf_eq_none {u : UInt16} {needle s : Text} (h : u ∉ s) :
    indexOf (u :: needle) s = none := by
  induction s with
  | nil => rfl
  | cons v s ih =>
      rw [indexOf, if_neg, ih (fun hu => h (by simp [hu]))]
      · rfl
      · intro hp
        have heq := (List.isPrefixOf_iff_prefix.mp hp)
        rw [List.cons_prefix_cons] at heq
        exact h (by simp [heq.1])

/-! ## Surrogates -/

def isHighSurrogate (u : UInt16) : Bool := 0xD800 ≤ u && u ≤ 0xDBFF

def isLowSurrogate (u : UInt16) : Bool := 0xDC00 ≤ u && u ≤ 0xDFFF

/-- The string with every unpaired surrogate replaced by U+FFFD. -/
def toWellFormed : Text → Text
  | [] => []
  | [u] => if isHighSurrogate u || isLowSurrogate u then [0xFFFD] else [u]
  | u :: v :: s =>
      if isHighSurrogate u then
        if isLowSurrogate v then u :: v :: toWellFormed s
        else 0xFFFD :: toWellFormed (v :: s)
      else if isLowSurrogate u then 0xFFFD :: toWellFormed (v :: s)
      else u :: toWellFormed (v :: s)

/-- A text with no unpaired surrogate in it: one that UTF-8 can carry. -/
def WellFormed (s : Text) : Prop := toWellFormed s = s

instance (s : Text) : Decidable (WellFormed s) := inferInstanceAs (Decidable (_ = _))

theorem not_surrogate_replacement :
    isHighSurrogate 0xFFFD = false ∧ isLowSurrogate 0xFFFD = false := by decide

/-- A well-formed text ends outside a pair, so what follows it is read on its
own. -/
theorem toWellFormed_append {a : Text} (h : WellFormed a) (b : Text) :
    toWellFormed (a ++ b) = a ++ toWellFormed b := by
  obtain ⟨hhigh, hlow⟩ := not_surrogate_replacement
  rw [WellFormed] at h
  induction a using toWellFormed.induct with
  | case1 => rfl
  | case2 u hu =>
      rw [toWellFormed, if_pos hu] at h
      cases h
      simp [hhigh, hlow] at hu
  | case3 u hu =>
      simp only [Bool.or_eq_true, not_or, Bool.not_eq_true] at hu
      cases b <;> simp [toWellFormed, hu]
  | case4 u v s hu hv ih =>
      simp only [toWellFormed, if_pos hu, if_pos hv, List.cons.injEq, true_and] at h
      simp only [List.cons_append, toWellFormed, if_pos hu, if_pos hv, ih h]
  | case5 u v s hu hv ih =>
      simp only [toWellFormed, if_pos hu, if_neg hv, List.cons.injEq] at h
      rw [← h.1] at hu
      simp [hhigh] at hu
  | case6 u v s hu hl ih =>
      simp only [toWellFormed, if_neg hu, if_pos hl, List.cons.injEq] at h
      rw [← h.1] at hl
      simp [hlow] at hl
  | case7 u v s hu hl ih =>
      simp only [toWellFormed, if_neg hu, if_neg hl, List.cons.injEq, true_and] at h
      have ih := ih h
      rw [List.cons_append] at ih
      simp only [List.cons_append, toWellFormed, if_neg hu, if_neg hl, ih]

theorem WellFormed.append {a b : Text} (ha : WellFormed a) (hb : WellFormed b) :
    WellFormed (a ++ b) := by
  rw [WellFormed, toWellFormed_append ha, hb]

theorem wellFormed_singleton {u : UInt16} (hh : isHighSurrogate u = false)
    (hl : isLowSurrogate u = false) : WellFormed [u] := by
  simp [WellFormed, toWellFormed, hh, hl]

theorem wellFormed_pair {u v : UInt16} (hu : isHighSurrogate u = true)
    (hv : isLowSurrogate v = true) : WellFormed [u, v] := by
  simp [WellFormed, toWellFormed, hu, hv]

theorem WellFormed.cons {u : UInt16} {s : Text} (hh : isHighSurrogate u = false)
    (hl : isLowSurrogate u = false) (hs : WellFormed s) : WellFormed (u :: s) :=
  (wellFormed_singleton hh hl).append hs

/-- A text without surrogates is well formed. -/
theorem wellFormed_of_forall {s : Text}
    (h : ∀ u ∈ s, isHighSurrogate u = false ∧ isLowSurrogate u = false) : WellFormed s := by
  induction s with
  | nil => rfl
  | cons u s ih =>
      have hu := h u (by simp)
      exact (ih fun v hv => h v (by simp [hv])).cons hu.1 hu.2

/-- What UTF-8 has carried once it carries unchanged. -/
theorem wellFormed_toWellFormed (s : Text) : WellFormed (toWellFormed s) := by
  have hreplacement : WellFormed [0xFFFD] := by decide
  induction s using toWellFormed.induct with
  | case1 => rfl
  | case2 u hu =>
      rw [toWellFormed, if_pos hu]
      exact hreplacement
  | case3 u hu =>
      rw [toWellFormed, if_neg hu]
      simp only [Bool.or_eq_true, not_or, Bool.not_eq_true] at hu
      exact wellFormed_singleton hu.1 hu.2
  | case4 u v s hu hv ih =>
      rw [toWellFormed, if_pos hu, if_pos hv]
      exact (wellFormed_pair hu hv).append ih
  | case5 u v s hu hv ih =>
      rw [toWellFormed, if_pos hu, if_neg hv]
      exact hreplacement.append ih
  | case6 u v s hu hl ih =>
      rw [toWellFormed, if_neg hu, if_pos hl]
      exact hreplacement.append ih
  | case7 u v s hu hl ih =>
      rw [toWellFormed, if_neg hu, if_neg hl]
      exact ih.cons (eq_false_of_ne_true hu) (eq_false_of_ne_true hl)

end Shizuha.Js
