import Shizuha.Provider.ThinkMarkup

/-!
# Thinking taken out of a stream

A text with thinking markup is a list of parts, each followed by the tag that
ends it, and a last part. The stream parser is followed part by part: what it
has not emitted yet is always such a text again, with the parts it still has to
come to, and the partial tag it holds back is where that text begins.

What it emits is compared up to white space, which it drops after a closing tag
as far as it has arrived.
-/

namespace Shizuha.Provider

open Js

/-! ## Searching for a needle that starts only once -/

section Search

variable {u : UInt16} {needle s x y : Text}

theorem indexOf_cons {v : UInt16} :
    indexOf needle (v :: s) =
      if needle.isPrefixOf (v :: s) then some 0 else (indexOf needle s).map (· + 1) := by
  rw [indexOf]

/-- A needle does not begin in one text and end in the next, when that one
starts with the needle's first unit. -/
theorem indexOf_append_of_none (hu : u ∉ needle) (hx : indexOf (u :: needle) x = none) :
    indexOf (u :: needle) (x ++ u :: y) =
      (indexOf (u :: needle) (u :: y)).map (· + x.length) := by
  induction x with
  | nil => simp
  | cons v x ih =>
      rw [indexOf_cons] at hx
      split_ifs at hx with hstarts
      have hrest : indexOf (u :: needle) x = none := Option.map_eq_none_iff.mp hx
      have hnot : (u :: needle).isPrefixOf (v :: x ++ u :: y) ≠ true := by
        intro h
        obtain ⟨t, ht⟩ := List.isPrefixOf_iff_prefix.mp h
        rw [List.append_eq_append_iff] at ht
        rcases ht with ⟨a, ha, hb⟩ | ⟨a, ha, hb⟩
        · exact hstarts (List.isPrefixOf_iff_prefix.mpr ⟨a, ha.symm⟩)
        · cases a with
          | nil =>
              rw [List.append_nil] at ha
              exact hstarts (List.isPrefixOf_iff_prefix.mpr ⟨[], by rw [ha, List.append_nil]⟩)
          | cons w a =>
              rw [List.cons_append, List.cons.injEq] at hb
              rw [List.cons_append, List.cons.injEq] at ha
              refine hu ?_
              rw [ha.2, hb.1]
              exact List.mem_append_right _ List.mem_cons_self
      rw [List.cons_append] at hnot ⊢
      rw [indexOf_cons, if_neg hnot, ih hrest, Option.map_map]
      rfl

theorem indexOf_self (rest : Text) : indexOf needle (needle ++ rest) = some 0 := by
  cases hcons : needle ++ rest with
  | nil =>
      obtain ⟨hn, -⟩ := List.append_eq_nil_iff.mp hcons
      rw [hn]
      rfl
  | cons v s =>
      rw [indexOf_cons, if_pos]
      exact List.isPrefixOf_iff_prefix.mpr ⟨rest, hcons⟩

/-- What is not found is not found in a part either. -/
theorem indexOf_none_of_append (hu : needle ≠ []) (h : indexOf needle (x ++ y) = none) :
    indexOf needle x = none ∧ indexOf needle y = none := by
  induction x with
  | nil =>
      refine ⟨?_, h⟩
      cases needle with
      | nil => exact absurd rfl hu
      | cons v needle => rfl
  | cons v x ih =>
      rw [List.cons_append, indexOf_cons] at h
      split_ifs at h with hstarts
      obtain ⟨hx, hy⟩ := ih (Option.map_eq_none_iff.mp h)
      refine ⟨?_, hy⟩
      rw [indexOf_cons, if_neg, hx]
      · rfl
      · intro hp
        obtain ⟨t, ht⟩ := List.isPrefixOf_iff_prefix.mp hp
        refine hstarts (List.isPrefixOf_iff_prefix.mpr ⟨t ++ y, ?_⟩)
        rw [← List.append_assoc, ht, List.cons_append]

/-- The text up to the place where a needle was found, and that place. -/
theorem eq_of_indexOf {k : ℕ} (h : indexOf needle s = some k) :
    s = s.take k ++ needle ++ s.drop (k + needle.length) ∧ k + needle.length ≤ s.length := by
  induction s generalizing k with
  | nil =>
      rw [indexOf] at h
      split_ifs at h with hstarts
      cases h
      rw [List.prefix_nil.mp (List.isPrefixOf_iff_prefix.mp hstarts)]
      exact ⟨rfl, le_rfl⟩
  | cons v s ih =>
      rw [indexOf_cons] at h
      split_ifs at h with hstarts
      · cases h
        obtain ⟨t, ht⟩ := List.isPrefixOf_iff_prefix.mp hstarts
        rw [← ht]
        simp
      · obtain ⟨j, hj, rfl⟩ := Option.map_eq_some_iff.mp h
        obtain ⟨heq, hle⟩ := ih hj
        constructor
        · rw [show j + 1 + needle.length = j + needle.length + 1 by omega, List.take_succ_cons,
            List.drop_succ_cons, List.cons_append, List.cons_append, ← heq]
        · rw [List.length_cons]
          omega

end Search

/-! ## Letter case -/

/-- What the search of a lower-cased copy takes a unit for. -/
def lookUnit (u : UInt16) : UInt16 := if u = 0x212A then 107 else Regex.foldUnit u

/-- The tags, as literals. -/
def IsTag (tag : Text) : Prop := tag = thinkOpen ∨ tag = thinkClose

instance (tag : Text) : Decidable (IsTag tag) := inferInstanceAs (Decidable (_ ∨ _))

theorem IsTag.cases {tag : Text} (h : IsTag tag) :
    ∃ rest, tag = 60 :: rest ∧ 60 ∉ rest ∧ 0x307 ∉ tag ∧ 0x130 ∉ tag ∧ tag ≠ [] := by
  rcases h with rfl | rfl
  · exact ⟨thinkOpen.tail, by decide, by decide, by decide, by decide, by decide⟩
  · exact ⟨thinkClose.tail, by decide, by decide, by decide, by decide, by decide⟩

theorem lowerCase_cons (u : UInt16) (s : Text) : lowerCase (u :: s) = lowerUnits u ++ lowerCase s :=
  List.flatMap_cons

theorem lowerCase_append (x y : Text) : lowerCase (x ++ y) = lowerCase x ++ lowerCase y :=
  List.flatMap_append

theorem lowerUnits_eq {u : UInt16} (h : u ≠ 0x130) : lowerUnits u = [lookUnit u] := by
  rw [lowerUnits, if_neg h, lookUnit]
  split_ifs <;> rfl

/-- Without U+0130 the lower-cased copy has the same indices. -/
theorem lowerCase_eq {s : Text} (h : 0x130 ∉ s) : lowerCase s = s.map lookUnit := by
  induction s with
  | nil => rfl
  | cons u s ih =>
      obtain ⟨hu, hs⟩ := List.ne_and_not_mem_of_not_mem_cons h
      rw [lowerCase_cons, lowerUnits_eq (Ne.symm hu), ih hs]
      rfl

/-- An `i` with a dot above it is not taken for an `i`: the dot follows. -/
theorem isPrefixOf_lowerCase {needle s : Text} (hdot : 0x307 ∉ needle) (hcap : 0x130 ∉ needle)
    (hlast : ∀ u ∈ needle.getLast?, u ≠ 105) :
    needle.isPrefixOf (lowerCase s) = needle.isPrefixOf (s.map lookUnit) := by
  induction needle generalizing s with
  | nil => simp
  | cons c needle ih =>
      obtain ⟨hc, hdot'⟩ := List.ne_and_not_mem_of_not_mem_cons hdot
      obtain ⟨hc', hcap'⟩ := List.ne_and_not_mem_of_not_mem_cons hcap
      cases s with
      | nil => rfl
      | cons u s =>
          rw [lowerCase_cons, List.map_cons, List.isPrefixOf_cons_cons]
          by_cases hu : u = 0x130
          · subst hu
            have hright : (c == lookUnit 0x130) = false := by
              rw [beq_eq_false_iff_ne]
              exact Ne.symm hc'
            rw [hright, Bool.false_and]
            show (c :: needle).isPrefixOf (105 :: 0x307 :: lowerCase s) = false
            rw [List.isPrefixOf_cons_cons]
            cases needle with
            | nil =>
                have hne := hlast c rfl
                simp [hne]
            | cons d needle =>
                obtain ⟨hd, -⟩ := List.ne_and_not_mem_of_not_mem_cons hdot'
                rw [List.isPrefixOf_cons_cons, beq_eq_false_iff_ne.mpr (Ne.symm hd), Bool.false_and,
                  Bool.and_false]
          · rw [lowerUnits_eq hu, List.singleton_append, List.isPrefixOf_cons_cons, ih hdot' hcap']
            intro v hv
            refine hlast v ?_
            cases needle with
            | nil => cases hv
            | cons d needle => rwa [List.getLast?_cons_cons]

/-- The search of the lower-cased copy: every U+0130 before what is found has
moved it by one. -/
theorem indexOf_lowerCase {tag : Text} (htag : IsTag tag) (s : Text) :
    indexOf tag (lowerCase s) =
      (indexOf tag (s.map lookUnit)).map fun k => k + (s.take k).count 0x130 := by
  obtain ⟨rest, hrest, -, hdot, hcap, hne⟩ := htag.cases
  have hend : tag.getLast? = some 62 := by rcases htag with rfl | rfl <;> rfl
  have hlast : ∀ u ∈ tag.getLast?, u ≠ 105 := by
    intro u hu
    rw [hend] at hu
    obtain rfl : 62 = u := Option.some.inj hu
    decide
  induction s with
  | nil =>
      rw [hrest]
      rfl
  | cons u s ih =>
      have hstarts := @isPrefixOf_lowerCase tag (u :: s) hdot hcap hlast
      by_cases hu : u = 0x130
      · subst hu
        have hleft : tag.isPrefixOf ((0x130 :: s).map lookUnit) = false := by
          rw [hrest]
          rfl
        have hdot' : tag.isPrefixOf (0x307 :: lowerCase s) = false := by
          rw [hrest]
          rfl
        rw [hleft] at hstarts
        rw [lowerCase_cons] at hstarts ⊢
        show indexOf tag (105 :: 0x307 :: lowerCase s) = _
        rw [indexOf_cons, if_neg (by rw [← Bool.not_eq_true] at hstarts; exact hstarts), indexOf_cons,
          if_neg (by rw [hdot']; exact Bool.false_ne_true), ih, List.map_cons, indexOf_cons,
          if_neg (by rw [List.map_cons] at hleft; rw [hleft]; exact Bool.false_ne_true)]
        simp only [Option.map_map]
        congr 1
        funext k
        simp only [Function.comp_apply, List.take_succ_cons, List.count_cons_self]
        omega
      · rw [lowerCase_cons, lowerUnits_eq hu, List.map_cons] at hstarts
        rw [lowerCase_cons, lowerUnits_eq hu, List.map_cons, List.singleton_append, indexOf_cons,
          indexOf_cons]
        rw [List.singleton_append] at hstarts
        rw [hstarts]
        split_ifs with hfound
        · rfl
        · rw [ih, Option.map_map, Option.map_map]
          congr 1
          funext k
          simp only [Function.comp_apply, List.take_succ_cons, List.count_cons_of_ne hu]
          omega

theorem eq_of_foldUnit {u : UInt16} (h : Regex.foldUnit u = 60) : u = 60 := by
  rw [Regex.foldUnit] at h
  split_ifs at h with hcase
  · simp only [Bool.and_eq_true, decide_eq_true_eq] at hcase
    have hsum := congrArg UInt16.toNat h
    have h1 := UInt16.le_iff_toNat_le.mp hcase.1
    have h2 := UInt16.le_iff_toNat_le.mp hcase.2
    rw [UInt16.toNat_add] at hsum
    simp at hsum h1 h2
    omega
  · exact h

/-- A tag in any letter case starts with the bracket. -/
theorem exists_of_fold {s target : Text} (htarget : IsTag target)
    (h : s.map Regex.foldUnit = target) : ∃ rest, s = 60 :: rest := by
  obtain ⟨tail, htail, -⟩ := htarget.cases
  cases s with
  | nil =>
      rw [htail] at h
      cases h
  | cons u s =>
      rw [List.map_cons, htail, List.cons.injEq] at h
      exact ⟨s, by rw [eq_of_foldUnit h.1]⟩

/-- A tag in any letter case looks like the tag. -/
theorem map_lookUnit_of_fold {s : Text} {tag : Text} (htag : IsTag tag)
    (h : s.map Regex.foldUnit = tag) : s.map lookUnit = tag ∧ 0x130 ∉ s := by
  have hkelvin : (0x212A : UInt16) ∉ s := fun hmem => by
    have hmem' := List.mem_map_of_mem (f := Regex.foldUnit) hmem
    rw [h] at hmem'
    revert hmem'
    rcases htag with rfl | rfl <;> decide
  refine ⟨?_, fun hmem => ?_⟩
  · rw [← h]
    refine List.map_congr_left fun u hu => ?_
    rw [lookUnit, if_neg]
    rintro rfl
    exact hkelvin hu
  · have hmem' := List.mem_map_of_mem (f := Regex.foldUnit) hmem
    rw [h] at hmem'
    revert hmem'
    rcases htag with rfl | rfl <;> decide

/-! ## A round of the loop -/

/-- The tag that ends a part. -/
def tagAfter (thinking : Bool) : Text := if thinking then thinkClose else thinkOpen

theorem isTag_tagAfter (thinking : Bool) : IsTag (tagAfter thinking) := by
  cases thinking
  · exact Or.inl rfl
  · exact Or.inr rfl

/-- Nothing in a part is taken for a tag there. -/
def SearchFree (thinking : Bool) (part : Text) : Prop :=
  indexOf thinkClose (part.map lookUnit) = none ∧
    (thinking = false → indexOf thinkOpen (part.map lookUnit) = none)

instance (thinking : Bool) (part : Text) : Decidable (SearchFree thinking part) :=
  inferInstanceAs (Decidable (_ ∧ (_ → _)))

theorem SearchFree.append {thinking : Bool} {x y : Text} (h : SearchFree thinking (x ++ y)) :
    SearchFree thinking x ∧ SearchFree thinking y := by
  obtain ⟨hclose, hopen⟩ := h
  rw [List.map_append] at hclose hopen
  obtain ⟨hx, hy⟩ := indexOf_none_of_append (by decide) hclose
  exact ⟨⟨hx, fun ht => (indexOf_none_of_append (by decide) (hopen ht)).1⟩,
    ⟨hy, fun ht => (indexOf_none_of_append (by decide) (hopen ht)).2⟩⟩

theorem SearchFree.tagAfter {thinking : Bool} {part : Text} (h : SearchFree thinking part) :
    indexOf (tagAfter thinking) (part.map lookUnit) = none := by
  cases thinking with
  | false => exact h.2 rfl
  | true => exact h.1

/-- What is emitted before the rest, in a block or outside. -/
def ThinkDelta.after (thinking : Bool) (pieces : List Text) (d : ThinkDelta) : ThinkDelta :=
  if thinking then { d with reasoning := pieces ++ d.reasoning }
  else { d with text := pieces ++ d.text }

section Round

variable {thinking : Bool} {part tag rest other : Text} {fuel : ℕ}

/-- The search finds the tag that ends the part. -/
theorem indexOf_tag {target : Text} (htarget : IsTag target)
    (hfree : indexOf target (part.map lookUnit) = none) (hcap : 0x130 ∉ part)
    (htag : tag.map Regex.foldUnit = target) :
    indexOf target (lowerCase (part ++ tag ++ rest)) = some part.length := by
  obtain ⟨tail, htail, hstart, -⟩ := htarget.cases
  have hlook := (map_lookUnit_of_fold htarget htag).1
  have hself := @indexOf_self target (rest.map lookUnit)
  rw [indexOf_lowerCase htarget, List.map_append, List.map_append, hlook,
    List.append_assoc (part.map lookUnit)]
  rw [htail, List.cons_append] at hself ⊢
  rw [htail] at hfree
  rw [indexOf_append_of_none hstart hfree, hself]
  simp [List.count_eq_zero.mpr hcap]

/-- The other tag, where there is one, comes later. -/
theorem lt_of_indexOf_other {target : Text} (htarget : IsTag target) (hother : IsTag other)
    (hne : other ≠ target) (hfree : indexOf other (part.map lookUnit) = none)
    (htag : tag.map Regex.foldUnit = target) :
    ∀ k ∈ indexOf other (lowerCase (part ++ tag ++ rest)), part.length < k := by
  intro k hk
  obtain ⟨tail, htail, hstart, -⟩ := hother.cases
  have hlook := (map_lookUnit_of_fold htarget htag).1
  rw [indexOf_lowerCase hother, List.map_append, List.map_append, hlook,
    List.append_assoc (part.map lookUnit)] at hk
  obtain ⟨j, hj, rfl⟩ := Option.map_eq_some_iff.mp hk
  obtain ⟨tail', htail', -⟩ := htarget.cases
  rw [htail] at hfree hj
  rw [htail', List.cons_append, indexOf_append_of_none hstart hfree] at hj
  obtain ⟨i, hi, rfl⟩ := Option.map_eq_some_iff.mp hj
  have hpos : i ≠ 0 := by
    rintro rfl
    have hstarts := (eq_of_indexOf hi).1
    rw [List.take_zero, List.nil_append, ← htail, ← List.cons_append, ← htail'] at hstarts
    revert hstarts
    rcases htarget with rfl | rfl <;> rcases hother with rfl | rfl
    · exact absurd rfl hne
    · intro h
      cases h
    · intro h
      cases h
    · exact absurd rfl hne
  rw [List.length_map]
  omega

/-- A round that meets the tag after a part. -/
theorem thinkLoop_tag (hfree : SearchFree thinking part) (hcap : 0x130 ∉ part)
    (htag : tag.map Regex.foldUnit = tagAfter thinking) :
    thinkLoop (fuel + 1) thinking (part ++ tag ++ rest) =
      (thinkLoop fuel (!thinking) (if thinking then trimStart rest else rest)).after thinking
        (piece part) := by
  have hlength : tag.length = (tagAfter thinking).length := by
    rw [← htag, List.length_map]
  have hne : part ++ tag ++ rest ≠ [] := by
    intro h
    have hnil := congrArg List.length h
    rw [List.length_append, List.length_append, hlength, List.length_nil] at hnil
    obtain ⟨tail, htail, -⟩ := (isTag_tagAfter thinking).cases
    rw [htail, List.length_cons] at hnil
    omega
  have hfound := @indexOf_tag part tag rest _ (isTag_tagAfter thinking) hfree.tagAfter hcap htag
  have htake : (part ++ tag ++ rest).take part.length = part := by
    rw [List.append_assoc, List.take_left]
  have hdrop : (part ++ tag ++ rest).drop (part.length + (tagAfter thinking).length) = rest := by
    rw [← hlength, ← List.length_append, List.drop_left]
  rw [thinkLoop, if_neg hne]
  cases thinking with
  | true =>
      rw [if_pos rfl]
      rw [tagAfter, if_pos rfl] at hfound hdrop
      rw [hfound]
      dsimp only
      rw [htake, hdrop]
      rfl
  | false =>
      have hlater := @lt_of_indexOf_other part tag rest thinkClose _ (isTag_tagAfter false)
        (Or.inr rfl) (by decide) hfree.1 htag
      rw [if_neg Bool.false_ne_true]
      rw [tagAfter, if_neg Bool.false_ne_true] at hfound hdrop
      rw [hfound]
      cases hclose : indexOf thinkClose (lowerCase (part ++ tag ++ rest)) with
      | none =>
          dsimp only
          rw [htake, hdrop]
          rfl
      | some k =>
          have hlt := hlater k hclose
          dsimp only
          rw [if_neg (by omega), htake, hdrop]
          rfl

/-- A round that meets a closing tag where none is open. -/
theorem thinkLoop_stray (htag : tag.map Regex.foldUnit = thinkClose) :
    thinkLoop (fuel + 1) false (tag ++ rest) = thinkLoop fuel false (trimStart rest) := by
  have hlength : tag.length = thinkClose.length := by rw [← htag, List.length_map]
  have hne : tag ++ rest ≠ [] := by
    intro h
    have hnil := congrArg List.length h
    have hpos : 0 < thinkClose.length := by decide
    rw [List.length_append, hlength, List.length_nil] at hnil
    omega
  have hfound := @indexOf_tag [] tag rest _ (Or.inr rfl) rfl List.not_mem_nil htag
  have hlater := @lt_of_indexOf_other [] tag rest thinkOpen _ (Or.inr rfl) (Or.inl rfl) (by decide)
    rfl htag
  rw [List.nil_append, List.length_nil] at hfound hlater
  have hdrop : (tag ++ rest).drop (0 + thinkClose.length) = rest := by
    rw [Nat.zero_add, ← hlength, List.drop_left]
  rw [thinkLoop, if_neg hne, if_neg Bool.false_ne_true, hfound]
  cases hopen : indexOf thinkOpen (lowerCase (tag ++ rest)) with
  | none =>
      dsimp only
      rw [hdrop]
      rfl
  | some k =>
      have hlt := hlater k hopen
      dsimp only
      rw [if_pos hlt, hdrop]
      rfl

/-- A round that meets no tag. -/
theorem thinkLoop_none (hne : rest ≠ []) (hfree : SearchFree thinking rest) :
    thinkLoop (fuel + 1) thinking rest =
      ThinkDelta.after thinking (piece (holdPartialTag rest).1)
        ⟨thinking, (holdPartialTag rest).2, [], []⟩ := by
  have hclose : indexOf thinkClose (lowerCase rest) = none := by
    rw [indexOf_lowerCase (Or.inr rfl), hfree.1]
    rfl
  rw [thinkLoop, if_neg hne, hclose]
  cases thinking with
  | true => simp [ThinkDelta.after]
  | false =>
      have hopen : indexOf thinkOpen (lowerCase rest) = none := by
        rw [indexOf_lowerCase (Or.inl rfl), hfree.2 rfl]
        rfl
      rw [hopen]
      simp [ThinkDelta.after]

end Round

/-! ## What is held back -/

theorem lastIndexOf_append {u : UInt16} {x y : Text} (h : u ∉ y) :
    lastIndexOf u (x ++ u :: y) (x ++ u :: y).length = some x.length := by
  have hidx : (y.reverse ++ u :: x.reverse).idxOf? u = some y.length := by
    rw [List.idxOf?_eq_some_iff]
    refine ⟨by simp, by simp, fun j hj => ?_⟩
    rw [List.getElem_append_left (by simpa using hj)]
    exact fun heq => h (List.mem_reverse.mp (heq ▸ List.getElem_mem _))
  rw [lastIndexOf, List.take_of_length_le (by omega), List.reverse_append, List.reverse_cons,
    List.append_assoc, List.singleton_append, hidx]
  simp only [Option.map_some, List.length_append, List.length_cons]
  congr 1
  omega

theorem holdPartialTag_append (s : Text) : (holdPartialTag s).1 ++ (holdPartialTag s).2 = s := by
  rw [holdPartialTag]
  cases lastIndexOf 60 s s.length with
  | none => exact List.append_nil s
  | some lt =>
      dsimp only
      split_ifs
      · exact List.take_append_drop lt s
      · exact List.append_nil s

/-- Nothing with a dotted capital is held back. -/
theorem not_mem_hold (s : Text) : 0x130 ∉ (holdPartialTag s).2 := by
  rw [holdPartialTag]
  cases lastIndexOf 60 s s.length with
  | none => exact List.not_mem_nil
  | some lt =>
      dsimp only
      split_ifs with hbegun
      · intro hmem
        have hdot : 0x307 ∈ lowerCase (s.drop lt) := List.mem_flatMap.mpr ⟨_, hmem, by decide⟩
        simp only [Bool.or_eq_true, List.isPrefixOf_iff_prefix] at hbegun
        rcases hbegun with ((h | h) | h) | h
        · exact absurd (h.subset hmem) (by decide)
        · exact absurd (h.subset hmem) (by decide)
        · exact absurd (h.subset hdot) (by decide)
        · exact absurd (h.subset hdot) (by decide)
      · exact List.not_mem_nil

/-- The beginning of a tag at the end is held back. -/
theorem holdPartialTag_tag {part a b target : Text} (htarget : IsTag target) (ha : a ≠ [])
    (htag : (a ++ b).map Regex.foldUnit = target) : holdPartialTag (part ++ a) = (part, a) := by
  obtain ⟨tail, htail, hstart, -⟩ := htarget.cases
  obtain ⟨hlook, hcap⟩ := map_lookUnit_of_fold htarget htag
  obtain ⟨u, a, rfl⟩ := List.exists_cons_of_ne_nil ha
  obtain ⟨t, ht⟩ := exists_of_fold htarget htag
  obtain rfl : u = 60 := (List.cons.inj ht).1
  rw [List.cons_append, List.map_cons, htail, List.cons.injEq] at htag
  have hmore : (60 : UInt16) ∉ a := fun hmem => by
    refine hstart ?_
    rw [← htag.2]
    exact List.mem_map.mpr ⟨60, List.mem_append_left b hmem, rfl⟩
  have hlower : (lowerCase (60 :: a)).isPrefixOf target = true := by
    rw [lowerCase_eq fun hmem => hcap (List.mem_append_left b hmem), ← hlook,
      List.isPrefixOf_iff_prefix, List.map_append]
    exact List.prefix_append _ _
  rw [holdPartialTag, lastIndexOf_append hmore]
  dsimp only
  rw [List.drop_left, List.take_left, if_pos]
  rcases htarget with rfl | rfl
  · rw [hlower, Bool.or_true]
  · rw [hlower, Bool.or_true, Bool.true_or]

/-- The beginning of a tag after a part is not taken for a tag. -/
theorem searchFree_begun {thinking : Bool} {part a b target : Text} (htarget : IsTag target)
    (hb : b ≠ []) (htag : (a ++ b).map Regex.foldUnit = target) (hfree : SearchFree thinking part) :
    SearchFree thinking (part ++ a) := by
  have hlook := (map_lookUnit_of_fold htarget htag).1
  have hshort : a.length < target.length := by
    rw [← hlook, List.length_map, List.length_append]
    exact Nat.lt_add_of_pos_right (List.length_pos_iff.mpr hb)
  have htake : a.map lookUnit = target.take a.length := by
    rw [← hlook, List.map_append, List.take_left' (List.length_map _)]
  have hnone : ∀ other, IsTag other → indexOf other (part.map lookUnit) = none →
      indexOf other ((part ++ a).map lookUnit) = none := by
    intro other hother hpart
    have hall : ∀ j < target.length, indexOf other (target.take j) = none := by
      rcases htarget with rfl | rfl <;> rcases hother with rfl | rfl <;> decide
    have hbegun := hall a.length hshort
    rw [← htake] at hbegun
    obtain ⟨tail, htail, hstart, -⟩ := hother.cases
    obtain ⟨tail', htail', -⟩ := htarget.cases
    rw [List.map_append]
    cases a with
    | nil => rwa [List.map_nil, List.append_nil]
    | cons u a =>
        have hu : lookUnit u = 60 := by
          rw [List.cons_append, List.map_cons, htail', List.cons.injEq] at hlook
          exact hlook.1
        rw [List.map_cons, hu] at hbegun ⊢
        rw [htail] at hpart hbegun ⊢
        rw [indexOf_append_of_none hstart hpart, hbegun]
        rfl
  exact ⟨hnone _ (Or.inr rfl) hfree.1, fun ht => hnone _ (Or.inl rfl) (hfree.2 ht)⟩

/-! ## Texts with markup -/

/-- A text without its white space. -/
def unspaced (s : Text) : Text := s.filter fun u => !isSpace u

theorem unspaced_append (x y : Text) : unspaced (x ++ y) = unspaced x ++ unspaced y :=
  List.filter_append _ _

theorem unspaced_eq_nil {s : Text} (h : ∀ u ∈ s, isSpace u = true) : unspaced s = [] := by
  refine List.filter_eq_nil_iff.mpr fun u hu => ?_
  rw [h u hu]
  exact Bool.false_ne_true

theorem exists_trimStart (s : Text) :
    ∃ gap, (∀ u ∈ gap, isSpace u = true) ∧ s = gap ++ trimStart s := by
  refine ⟨s.takeWhile isSpace, fun u hu => List.mem_takeWhile_imp hu, ?_⟩
  rw [trimStart, List.takeWhile_append_dropWhile]

@[simp] theorem unspaced_trimStart (s : Text) : unspaced (trimStart s) = unspaced s := by
  obtain ⟨gap, hgap, heq⟩ := exists_trimStart s
  conv_rhs => rw [heq, unspaced_append, unspaced_eq_nil hgap, List.nil_append]

/-- A part with the tag after it. -/
structure MarkedPart where
  text : Text
  tag : Text
  deriving DecidableEq

def rendered : List MarkedPart → Text → Text
  | [], last => last
  | part :: parts, last => part.text ++ part.tag ++ rendered parts last

/-- The parts in a block, or outside, when they start in one or outside. -/
def partsOf (want : Bool) : Bool → List MarkedPart → Text → Text
  | thinking, [], last => if thinking = want then last else []
  | thinking, part :: parts, last =>
      (if thinking = want then part.text else []) ++ partsOf want (!thinking) parts last

/-- The tags open and close in turn, and the parts between them are clear. -/
def Alternates (Clear : Bool → Text → Prop) : Bool → List MarkedPart → Text → Prop
  | thinking, [], last => Clear thinking last
  | thinking, part :: parts, last =>
      Clear thinking part.text ∧ part.tag.map Regex.foldUnit = tagAfter thinking ∧
        Alternates Clear (!thinking) parts last

instance Alternates.instDecidable {Clear : Bool → Text → Prop}
    [∀ thinking part, Decidable (Clear thinking part)] : (thinking : Bool) → (parts : List MarkedPart) → (last : Text) →
      Decidable (Alternates Clear thinking parts last)
  | thinking, [], last => inferInstanceAs (Decidable (Clear thinking last))
  | thinking, _ :: parts, last =>
      have := @Alternates.instDecidable Clear _ (!thinking) parts last
      inferInstanceAs (Decidable (_ ∧ _ ∧ Alternates Clear (!thinking) parts last))

/-- No tag in any letter case. -/
def TagFree (s : Text) : Prop :=
  indexOf thinkOpen (s.map Regex.foldUnit) = none ∧
    indexOf thinkClose (s.map Regex.foldUnit) = none

instance (s : Text) : Decidable (TagFree s) := inferInstanceAs (Decidable (_ ∧ _))

theorem TagFree.append {x y : Text} (h : TagFree (x ++ y)) : TagFree x ∧ TagFree y := by
  obtain ⟨hopen, hclose⟩ := h
  rw [List.map_append] at hopen hclose
  obtain ⟨hx, hy⟩ := indexOf_none_of_append (by decide) hopen
  obtain ⟨hx', hy'⟩ := indexOf_none_of_append (by decide) hclose
  exact ⟨⟨hx, hx'⟩, hy, hy'⟩

/-- Neither a tag nor taken for one. -/
def Plain (thinking : Bool) (part : Text) : Prop := TagFree part ∧ SearchFree thinking part

theorem Plain.append {thinking : Bool} {x y : Text} (h : Plain thinking (x ++ y)) :
    Plain thinking x ∧ Plain thinking y :=
  ⟨⟨h.1.append.1, h.2.append.1⟩, h.1.append.2, h.2.append.2⟩

/-- U+0130 does not stand before a tag. -/
def Undotted (s : Text) : Prop :=
  ∀ before tag after, s = before ++ tag ++ after → IsTag (tag.map Regex.foldUnit) →
    0x130 ∉ before

theorem Undotted.of_append {x y : Text} (h : Undotted (x ++ y)) : Undotted y := by
  intro before tag after heq htag hmem
  refine h (x ++ before) tag after ?_ htag (List.mem_append_right x hmem)
  rw [heq, List.append_assoc, List.append_assoc, List.append_assoc]

/-! ## A delta, part by part -/

/-- What a call emits in a block, or outside. -/
def ThinkDelta.emitted (want : Bool) (d : ThinkDelta) : Text :=
  if want then d.reasoning.flatten else d.text.flatten

/-- From a text with markup, of which all but `future` has arrived, to the text
that is left. -/
structure Continues (future : Text) (thinking : Bool) (parts : List MarkedPart) (last : Text)
    (d : ThinkDelta) (parts' : List MarkedPart) (last' : Text) : Prop where
  alternates : Alternates Plain d.inThinkBlock parts' last'
  rest : d.carry ++ future = rendered parts' last'
  carry : 0x130 ∉ d.carry
  ended : future = [] → parts' = []
  kept : ∀ want, unspaced (partsOf want thinking parts last) =
    unspaced (d.emitted want) ++ unspaced (partsOf want d.inThinkBlock parts' last')
  pieces : ∀ p ∈ d.reasoning ++ d.text, TagFree p

section Delta

variable {future last last' last₀ : Text} {thinking : Bool} {parts parts' : List MarkedPart}
  {d : ThinkDelta}

theorem mem_piece {p s : Text} (h : p ∈ piece s) : p = s := by
  rw [piece] at h
  split_ifs at h
  · cases h
  · exact List.mem_singleton.mp h

theorem flatten_piece (s : Text) : (piece s).flatten = s := by
  rw [piece]
  split_ifs with h
  · exact h.symm
  · simp

theorem emitted_after (want : Bool) (part : Text) :
    (d.after thinking (piece part)).emitted want =
      (if thinking = want then part else []) ++ d.emitted want := by
  cases thinking <;> cases want <;>
    simp [ThinkDelta.after, ThinkDelta.emitted, flatten_piece]

theorem pieces_after {part : Text} (hd : ∀ p ∈ d.reasoning ++ d.text, TagFree p)
    (hpart : TagFree part) :
    ∀ p ∈ (d.after thinking (piece part)).reasoning ++ (d.after thinking (piece part)).text,
      TagFree p := by
  intro p hp
  have hmem : p ∈ piece part ∨ p ∈ d.reasoning ++ d.text := by
    cases thinking with
    | true =>
        simp only [ThinkDelta.after, if_true, List.append_assoc] at hp
        exact List.mem_append.mp hp
    | false =>
        simp only [ThinkDelta.after, Bool.false_eq_true, if_false] at hp
        rcases List.mem_append.mp hp with hp | hp
        · exact Or.inr (List.mem_append_left _ hp)
        · rcases List.mem_append.mp hp with hp | hp
          · exact Or.inl hp
          · exact Or.inr (List.mem_append_right _ hp)
  rcases hmem with hmem | hmem
  · rw [mem_piece hmem]
    exact hpart
  · exact hd p hmem

/-- A call that emits a part and goes on as from a text that keeps the rest. -/
theorem Continues.after {thinking₀ : Bool} {parts₀ : List MarkedPart} {part : Text}
    (h : Continues future thinking parts last d parts' last')
    (hkept : ∀ want, unspaced (partsOf want thinking₀ parts₀ last₀) =
      unspaced (if thinking₀ = want then part else []) ++
        unspaced (partsOf want thinking parts last))
    (hpart : TagFree part) :
    Continues future thinking₀ parts₀ last₀ (d.after thinking₀ (piece part)) parts' last' := by
  have hsame : (d.after thinking₀ (piece part)).inThinkBlock = d.inThinkBlock ∧
      (d.after thinking₀ (piece part)).carry = d.carry := by
    cases thinking₀ <;> exact ⟨rfl, rfl⟩
  refine ⟨?_, ?_, ?_, h.ended, fun want => ?_, pieces_after h.pieces hpart⟩
  · rw [hsame.1]
    exact h.alternates
  · rw [hsame.2]
    exact h.rest
  · rw [hsame.2]
    exact h.carry
  · rw [hkept want, h.kept want, emitted_after, unspaced_append, hsame.1, List.append_assoc]

/-- White space is taken from the front of what has arrived. -/
theorem exists_trimmed {s : Text} (halt : Alternates Plain thinking parts last)
    (hs : s ++ future = rendered parts last) :
    ∃ parts' last', parts'.length = parts.length ∧
      trimStart s ++ future = rendered parts' last' ∧ Alternates Plain thinking parts' last' ∧
      ∀ want, unspaced (partsOf want thinking parts' last') =
        unspaced (partsOf want thinking parts last) := by
  obtain ⟨gap, hgap, heq⟩ := exists_trimStart s
  have hblank := unspaced_eq_nil hgap
  have hrest : gap ++ (trimStart s ++ future) = rendered parts last := by
    rw [← List.append_assoc, ← heq, hs]
  cases parts with
  | nil =>
      rw [rendered] at hrest
      refine ⟨[], trimStart s ++ future, rfl, rfl, ?_, fun want => ?_⟩
      · rw [Alternates, ← hrest] at halt
        exact halt.append.2
      · rw [partsOf, partsOf, ← hrest]
        split_ifs
        · rw [unspaced_append gap, hblank, List.nil_append]
        · rfl
  | cons part parts =>
      obtain ⟨text, tag⟩ := part
      obtain ⟨hplain, htag, halt⟩ := halt
      obtain ⟨tail, htail⟩ := exists_of_fold (isTag_tagAfter thinking) htag
      rw [rendered, List.append_assoc, List.append_eq_append_iff] at hrest
      dsimp only at hrest htail
      obtain ⟨text', rfl, hback⟩ : ∃ text', text = gap ++ text' ∧
          trimStart s ++ future = text' ++ (tag ++ rendered parts last) := by
        rcases hrest with ⟨text', htext, hrest⟩ | ⟨past, hpast, hrest⟩
        · exact ⟨text', htext, hrest⟩
        · cases past with
          | nil => exact ⟨[], by rw [hpast, List.append_nil, List.append_nil], hrest.symm⟩
          | cons v past =>
              rw [htail, List.cons_append, List.cons_append, List.cons.injEq] at hrest
              have hspace := hgap v (by rw [hpast]; exact List.mem_append_right _ List.mem_cons_self)
              rw [← hrest.1] at hspace
              exact absurd hspace (by decide)
      refine ⟨⟨text', tag⟩ :: parts, last, rfl, ?_, ⟨hplain.append.2, htag, halt⟩, fun want => ?_⟩
      · rw [rendered, hback, List.append_assoc]
      · rw [partsOf, partsOf, unspaced_append, unspaced_append]
        congr 1
        dsimp only
        split_ifs
        · rw [unspaced_append, hblank, List.nil_append]
        · rfl

/-- What arrives ends before the tag: all of it is emitted, but for what may be
a tag's beginning. -/
theorem none_continues {s text : Text} {fuel : ℕ} (hne : s ≠ []) (hfree : SearchFree thinking s)
    (halt : Alternates Plain thinking parts' last')
    (hrest : (holdPartialTag s).2 ++ future = rendered parts' last')
    (hended : future = [] → parts' = [])
    (hkept : ∀ want, unspaced (partsOf want thinking parts last) =
      unspaced (if thinking = want then text else []) ++
        unspaced (partsOf want thinking parts' last'))
    (htext : (holdPartialTag s).1 = text) (hclear : TagFree text) :
    Continues future thinking parts last (thinkLoop (fuel + 1) thinking s) parts' last' := by
  rw [thinkLoop_none hne hfree, htext]
  refine Continues.after ⟨halt, hrest, not_mem_hold s, hended, fun want => ?_, ?_⟩ hkept hclear
  · have hnone : ThinkDelta.emitted want ⟨thinking, (holdPartialTag s).2, [], []⟩ = [] := by
      cases want <;> rfl
    rw [hnone]
    rfl
  · intro p hp
    cases hp

theorem tag_ne_nil {tag : Text} (htag : tag.map Regex.foldUnit = tagAfter thinking) : tag ≠ [] := by
  obtain ⟨t, ht⟩ := exists_of_fold (isTag_tagAfter thinking) htag
  rw [ht]
  exact List.cons_ne_nil 60 t

/-- Nothing has arrived. -/
theorem nil_continues {fuel : ℕ} (hs : future = rendered parts last)
    (halt : Alternates Plain thinking parts last) :
    Continues future thinking parts last (thinkLoop (fuel + 1) thinking []) parts last := by
  refine ⟨halt, hs, List.not_mem_nil, fun hnil => ?_, fun want => ?_, fun p hp => by cases hp⟩
  · cases parts with
    | nil => rfl
    | cons part parts =>
        rw [hnil, rendered] at hs
        obtain ⟨htag, -⟩ := List.append_eq_nil_iff.mp hs.symm
        exact absurd (List.append_eq_nil_iff.mp htag).2 (tag_ne_nil halt.2.1)
  · have hnone : ThinkDelta.emitted want (thinkLoop (fuel + 1) thinking []) = [] := by
      cases want <;> rfl
    rw [hnone]
    rfl

/-- What has arrived ends in a part. -/
theorem continues_in_part {s more tag : Text} {fuel : ℕ} (hne : s ≠ [])
    (hs : more ++ (tag ++ rendered parts last) = future)
    (halt : Alternates Plain thinking (⟨s ++ more, tag⟩ :: parts) last) :
    ∃ parts' last', Continues future thinking (⟨s ++ more, tag⟩ :: parts) last
      (thinkLoop (fuel + 1) thinking s) parts' last' := by
  obtain ⟨hplain, htag, halt⟩ := halt
  have hsplit := holdPartialTag_append s
  have hclear := hplain.append.1.1
  rw [← hsplit] at hclear
  have hheld : Plain thinking ((holdPartialTag s).2 ++ more) := by
    dsimp only at hplain
    rw [← hsplit, List.append_assoc] at hplain
    exact hplain.append.2
  refine ⟨⟨(holdPartialTag s).2 ++ more, tag⟩ :: parts, last,
    none_continues hne hplain.append.1.2 ⟨hheld, htag, halt⟩ ?_ ?_ (fun want => ?_) rfl
      hclear.append.1⟩
  · rw [rendered, ← hs]
    simp only [List.append_assoc]
  · intro hnil
    rw [hnil] at hs
    obtain ⟨-, hrest⟩ := List.append_eq_nil_iff.mp hs
    exact absurd (List.append_eq_nil_iff.mp hrest).1 (tag_ne_nil htag)
  · rw [partsOf, partsOf, unspaced_append, unspaced_append, ← List.append_assoc]
    congr 1
    dsimp only
    split_ifs
    · rw [← unspaced_append, ← List.append_assoc, hsplit]
    · rfl

/-- What has arrived ends in a tag. -/
theorem continues_in_tag {text held more : Text} {fuel : ℕ} (hheld : held ≠ []) (hmore : more ≠ [])
    (hs : more ++ rendered parts last = future)
    (halt : Alternates Plain thinking (⟨text, held ++ more⟩ :: parts) last) :
    ∃ parts' last', Continues future thinking (⟨text, held ++ more⟩ :: parts) last
      (thinkLoop (fuel + 1) thinking (text ++ held)) parts' last' := by
  obtain ⟨hplain, htag, halt⟩ := halt
  have hhold := @holdPartialTag_tag text held more _ (isTag_tagAfter thinking) hheld htag
  have hne : text ++ held ≠ [] := fun h => hheld (List.append_eq_nil_iff.mp h).2
  have hfree := searchFree_begun (isTag_tagAfter thinking) hmore htag hplain.2
  have hnone : Plain thinking [] := by
    refine ⟨⟨rfl, rfl⟩, rfl, fun _ => rfl⟩
  refine ⟨⟨[], held ++ more⟩ :: parts, last,
    none_continues hne hfree ⟨hnone, htag, halt⟩ ?_ ?_ (fun want => ?_) rfl ?_⟩
  · rw [hhold, rendered, ← hs]
    simp only [List.append_assoc, List.nil_append]
  · intro hnil
    rw [hnil] at hs
    exact absurd (List.append_eq_nil_iff.mp hs).1 hmore
  · rw [partsOf, partsOf, unspaced_append, unspaced_append, hhold]
    congr 1
    dsimp only
    split_ifs <;> rfl
  · rw [hhold]
    exact hplain.1

/-- The loop, over all that has arrived. -/
theorem thinkLoop_continues {n fuel : ℕ} {s : Text} (hn : parts.length = n)
    (hfuel : s.length < fuel) (hs : s ++ future = rendered parts last)
    (halt : Alternates Plain thinking parts last) (hdot : Undotted s) :
    ∃ parts' last',
      Continues future thinking parts last (thinkLoop fuel thinking s) parts' last' := by
  induction n generalizing parts last thinking s fuel with
  | zero =>
      obtain rfl : parts = [] := List.length_eq_zero_iff.mp hn
      obtain ⟨fuel, rfl⟩ : ∃ f, fuel = f + 1 := ⟨fuel - 1, by omega⟩
      by_cases hne : s = []
      · subst hne
        exact ⟨[], last, nil_continues hs halt⟩
      rw [rendered] at hs
      rw [Alternates, ← hs] at halt
      have hsplit := holdPartialTag_append s
      have hclear := halt.append.1
      rw [← hsplit] at hclear
      refine ⟨[], (holdPartialTag s).2 ++ future,
        none_continues hne halt.append.1.2 ?_ rfl (fun _ => rfl) (fun want => ?_) rfl
          hclear.append.1.1⟩
      · rw [← hsplit, List.append_assoc] at halt
        exact halt.append.2
      · rw [partsOf, partsOf, ← hs]
        split_ifs
        · rw [← unspaced_append, ← List.append_assoc, hsplit]
        · rfl
  | succ n ih =>
      obtain ⟨part, parts, rfl⟩ := List.exists_cons_of_length_eq_add_one hn
      obtain ⟨text, tag⟩ := part
      obtain ⟨fuel, rfl⟩ : ∃ f, fuel = f + 1 := ⟨fuel - 1, by omega⟩
      by_cases hne : s = []
      · subst hne
        exact ⟨⟨text, tag⟩ :: parts, last, nil_continues hs halt⟩
      have htag : tag ≠ [] := tag_ne_nil halt.2.1
      -- the tag has arrived, and the loop goes on after it
      have hwhole : ∀ rest, s = text ++ tag ++ rest → rest ++ future = rendered parts last →
          ∃ parts' last', Continues future thinking (⟨text, tag⟩ :: parts) last
            (thinkLoop (fuel + 1) thinking s) parts' last' := by
        rintro rest rfl hrest
        obtain ⟨hplain, hfold, halt⟩ := halt
        have hcap : 0x130 ∉ text :=
          hdot text tag rest rfl (by rw [hfold]; exact isTag_tagAfter thinking)
        have hlength : 0 < tag.length := List.length_pos_iff.mpr htag
        rw [List.length_append, List.length_append] at hfuel
        rw [thinkLoop_tag hplain.2 hcap hfold]
        cases thinking with
        | false =>
            obtain ⟨parts', last', hcont⟩ := ih (Nat.succ.inj hn)
              (show rest.length < fuel by omega) hrest halt hdot.of_append
            exact ⟨parts', last', hcont.after (fun want => unspaced_append _ _) hplain.1⟩
        | true =>
            obtain ⟨parts₁, last₁, hlen, hrest₁, halt₁, hkept⟩ := exists_trimmed halt hrest
            have hback : Undotted (trimStart rest) := by
              obtain ⟨gap, -, heq⟩ := exists_trimStart rest
              rw [heq] at hdot
              exact hdot.of_append.of_append
            have hshort : (trimStart rest).length ≤ rest.length := List.length_dropWhile_le _ _
            obtain ⟨parts', last', hcont⟩ := ih (hlen.trans (Nat.succ.inj hn))
              (show (trimStart rest).length < fuel by omega) hrest₁ halt₁ hback
            refine ⟨parts', last', hcont.after (fun want => ?_) hplain.1⟩
            rw [partsOf, unspaced_append, hkept want]
      rw [rendered, List.append_eq_append_iff] at hs
      dsimp only at hs
      rcases hs with ⟨more, htext, hfuture⟩ | ⟨rest, hrest, hfuture⟩
      · rw [eq_comm, List.append_eq_append_iff] at htext
        rcases htext with ⟨more', rfl, rfl⟩ | ⟨held, rfl, hheld⟩
        · refine continues_in_part hne ?_ halt
          rw [hfuture, List.append_assoc]
        · subst hheld
          by_cases hempty : more = []
          · subst hempty
            refine hwhole [] ?_ hfuture
            rw [List.append_nil, List.append_nil]
          by_cases hstart : held = []
          · subst hstart
            rw [List.append_nil] at hne ⊢
            rw [List.nil_append] at halt ⊢
            have h := @continues_in_part future last thinking parts text [] more fuel hne
              hfuture.symm (by rwa [List.append_nil])
            rwa [List.append_nil] at h
          · exact continues_in_tag hstart hempty hfuture.symm halt
      · exact hwhole rest hrest hfuture.symm

end Delta

/-! ## The whole stream -/

/-- What the stream emits, with the carry at its end. -/
def ThinkDelta.total (want : Bool) (d : ThinkDelta) : Text :=
  d.emitted want ++ if d.inThinkBlock = want then d.carry else []

/-- The stream emits the parts, each where it belongs, and no tag. -/
structure Streamed (thinking : Bool) (parts : List MarkedPart) (last : Text) (d : ThinkDelta) :
    Prop where
  kept : ∀ want, unspaced (partsOf want thinking parts last) = unspaced (d.total want)
  pieces : ∀ p ∈ d.reasoning ++ d.text, TagFree p

theorem undotted_append {carry delta : Text} (hcarry : 0x130 ∉ carry) (hdelta : Undotted delta) :
    Undotted (carry ++ delta) := by
  intro before tag after heq htag hmem
  rw [List.append_assoc, List.append_eq_append_iff] at heq
  rcases heq with ⟨more, rfl, heq⟩ | ⟨more, rfl, -⟩
  · rw [← List.append_assoc] at heq
    rcases List.mem_append.mp hmem with hmem | hmem
    · exact hcarry hmem
    · exact hdelta more tag after heq htag hmem
  · exact hcarry (List.mem_append_left _ hmem)

section Stream

variable {last last' : Text} {thinking : Bool} {parts parts' : List MarkedPart}

/-- One delta and then the others. -/
theorem Continues.streamed {future delta carry : Text} {deltas : List Text}
    (h : Continues future thinking parts last (consumeThinkStreamDelta delta thinking carry)
      parts' last')
    (hrest : Streamed (consumeThinkStreamDelta delta thinking carry).inThinkBlock parts' last'
      (consumeThinkStream (consumeThinkStreamDelta delta thinking carry).inThinkBlock
        (consumeThinkStreamDelta delta thinking carry).carry deltas)) :
    Streamed thinking parts last (consumeThinkStream thinking carry (delta :: deltas)) := by
  constructor
  · intro want
    have hemitted : (consumeThinkStream thinking carry (delta :: deltas)).total want =
        (consumeThinkStreamDelta delta thinking carry).emitted want ++
          (consumeThinkStream (consumeThinkStreamDelta delta thinking carry).inThinkBlock
            (consumeThinkStreamDelta delta thinking carry).carry deltas).total want := by
      rw [consumeThinkStream]
      cases want <;>
        simp [ThinkDelta.total, ThinkDelta.emitted, List.flatten_append, List.append_assoc]
    rw [hemitted, unspaced_append, h.kept want, hrest.kept want]
  · intro p hp
    rw [consumeThinkStream] at hp
    dsimp only at hp
    simp only [List.mem_append] at hp
    rcases hp with (hp | hp) | hp | hp
    · exact h.pieces p (List.mem_append_left _ hp)
    · exact hrest.pieces p (List.mem_append_left _ hp)
    · exact h.pieces p (List.mem_append_right _ hp)
    · exact hrest.pieces p (List.mem_append_right _ hp)

theorem streamed_of_alternates {carry : Text} {deltas : List Text}
    (hs : carry ++ deltas.flatten = rendered parts last)
    (halt : Alternates Plain thinking parts last) (hcarry : 0x130 ∉ carry)
    (hdot : ∀ delta ∈ deltas, Undotted delta) (hended : deltas.flatten = [] → parts = []) :
    Streamed thinking parts last (consumeThinkStream thinking carry deltas) := by
  induction deltas generalizing thinking carry parts last with
  | nil =>
      obtain rfl := hended rfl
      rw [List.flatten_nil, List.append_nil, rendered] at hs
      subst hs
      refine ⟨fun want => ?_, fun p hp => by cases hp⟩
      rw [partsOf, consumeThinkStream, ThinkDelta.total]
      cases want <;> rfl
  | cons delta deltas ih =>
      have hall : (carry ++ delta) ++ deltas.flatten = rendered parts last := by
        rw [← hs, List.flatten_cons, List.append_assoc]
      obtain ⟨parts', last', hcont⟩ := thinkLoop_continues rfl (Nat.lt_succ_self _) hall halt
        (undotted_append hcarry (hdot delta List.mem_cons_self))
      exact hcont.streamed (ih hcont.rest hcont.alternates hcont.carry
        (fun d hd => hdot d (List.mem_cons_of_mem delta hd)) hcont.ended)

theorem Continues.congr {future last₁ : Text} {parts₁ : List MarkedPart} {d : ThinkDelta}
    (h : Continues future thinking parts₁ last₁ d parts' last')
    (hkept : ∀ want, unspaced (partsOf want thinking parts₁ last₁) =
      unspaced (partsOf want thinking parts last)) :
    Continues future thinking parts last d parts' last' :=
  { h with kept := fun want => by rw [← hkept want, h.kept want] }

/-- A delta with the end of a closing tag that none opened. -/
theorem stray_continues {lead carry delta rest future : Text}
    (hlead : lead.map Regex.foldUnit = thinkClose) (hs : carry ++ delta = lead ++ rest)
    (hfuture : rest ++ future = rendered parts last) (halt : Alternates Plain false parts last)
    (hdot : Undotted (carry ++ delta)) :
    ∃ parts' last', Continues future false parts last (consumeThinkStreamDelta delta false carry)
      parts' last' := by
  obtain ⟨gap, -, hgap⟩ := exists_trimStart rest
  obtain ⟨parts₁, last₁, -, hrest₁, halt₁, hkept⟩ := exists_trimmed halt hfuture
  rw [consumeThinkStreamDelta, hs, thinkLoop_stray hlead]
  rw [hs] at hdot
  have hshort : (trimStart rest).length < (lead ++ rest).length := by
    have hle : (trimStart rest).length ≤ rest.length := List.length_dropWhile_le _ _
    have hpos : 0 < lead.length := List.length_pos_iff.mpr (@tag_ne_nil true lead hlead)
    rw [List.length_append]
    omega
  have hback : Undotted (trimStart rest) := by
    have hrest := hdot.of_append
    rw [hgap] at hrest
    exact hrest.of_append
  obtain ⟨parts', last', hcont⟩ := thinkLoop_continues rfl hshort hrest₁ halt₁ hback
  exact ⟨parts', last', hcont.congr hkept⟩

/-- A delta with the beginning of a closing tag, or nothing. -/
theorem lead_held {lead carry delta more : Text} (hlead : lead.map Regex.foldUnit = thinkClose)
    (hs : lead = carry ++ delta ++ more) (hmore : more ≠ []) :
    consumeThinkStreamDelta delta false carry = ⟨false, carry ++ delta, [], []⟩ := by
  rw [consumeThinkStreamDelta]
  rw [hs] at hlead
  by_cases hne : carry ++ delta = []
  · rw [hne]
    rfl
  · have hfree := @searchFree_begun false [] (carry ++ delta) more _ (Or.inr rfl) hmore hlead
      ⟨rfl, fun _ => rfl⟩
    have hhold := @holdPartialTag_tag [] (carry ++ delta) more _ (Or.inr rfl) hne hlead
    rw [List.nil_append] at hfree hhold
    rw [thinkLoop_none hne hfree, hhold]
    rfl

/-- A closing tag in front is dropped, however it arrives. -/
theorem streamed_of_lead {lead carry : Text} {deltas : List Text}
    (hlead : lead.map Regex.foldUnit = thinkClose)
    (hs : carry ++ deltas.flatten = lead ++ rendered parts last) (hshort : carry.length < lead.length)
    (halt : Alternates Plain false parts last) (hdot : ∀ delta ∈ deltas, Undotted delta) :
    Streamed false parts last (consumeThinkStream false carry deltas) := by
  induction deltas generalizing carry with
  | nil =>
      have hlength := congrArg List.length hs
      rw [List.flatten_nil, List.append_nil, List.length_append] at hlength
      omega
  | cons delta deltas ih =>
      have hdeltas : ∀ d ∈ deltas, Undotted d := fun d hd => hdot d (List.mem_cons_of_mem delta hd)
      have hcarry : 0x130 ∉ carry := by
        obtain ⟨more, rfl, -⟩ | ⟨more, rfl, -⟩ := List.append_eq_append_iff.mp hs
        · exact fun hmem => (map_lookUnit_of_fold (Or.inr rfl) hlead).2 (List.mem_append_left _ hmem)
        · rw [List.length_append] at hshort
          omega
      have hundotted := undotted_append hcarry (hdot delta List.mem_cons_self)
      -- the tag has arrived
      have hwhole : ∀ rest, carry ++ delta = lead ++ rest →
          rest ++ deltas.flatten = rendered parts last →
          Streamed false parts last (consumeThinkStream false carry (delta :: deltas)) := by
        intro rest hrest hfuture
        obtain ⟨parts', last', hcont⟩ := stray_continues hlead hrest hfuture halt hundotted
        exact hcont.streamed (streamed_of_alternates hcont.rest hcont.alternates hcont.carry hdeltas
          hcont.ended)
      rw [List.flatten_cons, ← List.append_assoc] at hs
      obtain ⟨more, hmore, hfuture⟩ | ⟨rest, hrest, hfuture⟩ := List.append_eq_append_iff.mp hs
      · by_cases hempty : more = []
        · subst hempty
          refine hwhole [] ?_ hfuture
          rw [hmore, List.append_nil, List.append_nil]
        · have hstreamed := @ih (carry ++ delta) hs (by
            have hlength := congrArg List.length hmore
            have hpos := List.length_pos_iff.mpr hempty
            rw [List.length_append] at hlength
            omega) hdeltas
          have hsame : consumeThinkStream false carry (delta :: deltas) =
              consumeThinkStream false (carry ++ delta) deltas := by
            rw [consumeThinkStream, lead_held hlead hmore hempty]
            rfl
          rwa [hsame]
      · exact hwhole rest hrest hfuture.symm

end Stream

end Shizuha.Provider
