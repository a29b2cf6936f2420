import Shizuha.Proofs.ThinkStream

/-!
# The same thinking, streamed or whole

The batch parser deletes the blocks of an answer and then looks for tags that
are left over. Where the tags alternate there are none but the last, unless what
was around a deleted block makes a tag that was not there before: that is
exactly when the answer it returns is not the text outside the blocks
(`content_iff_tagFree`). Where it is, the stream parser says the same
(`think_split_alike`).
-/

namespace Shizuha.Provider

open Js

/-! ## Searching again -/

section Search

variable {u : UInt16} {needle x y : Text}

/-- Units that do not start the needle only move it. -/
theorem indexOf_append_of_not_mem (hx : u ∉ x) :
    indexOf (u :: needle) (x ++ y) = (indexOf (u :: needle) y).map (· + x.length) := by
  induction x with
  | nil => simp
  | cons v x ih =>
      obtain ⟨hv, hx⟩ := List.ne_and_not_mem_of_not_mem_cons hx
      have hstarts : (u :: needle).isPrefixOf (v :: (x ++ y)) ≠ true := fun h => by
        obtain ⟨t, ht⟩ := List.isPrefixOf_iff_prefix.mp h
        exact hv (List.cons.inj ht).1
      rw [List.cons_append, indexOf_cons, if_neg hstarts, ih hx, Option.map_map]
      rfl

/-- There is none before the first. -/
theorem indexOf_take {k : ℕ} (h : indexOf (u :: needle) x = some k) :
    indexOf (u :: needle) (x.take k) = none := by
  induction x generalizing k with
  | nil => cases h
  | cons v x ih =>
      rw [indexOf_cons] at h
      split_ifs at h with hstarts
      · cases h
        rfl
      · obtain ⟨j, hj, rfl⟩ := Option.map_eq_some_iff.mp h
        rw [List.take_succ_cons, indexOf_cons, if_neg, ih hj]
        · rfl
        · intro hp
          obtain ⟨t, ht⟩ := List.isPrefixOf_iff_prefix.mp hp
          refine hstarts (List.isPrefixOf_iff_prefix.mpr ⟨t ++ x.drop j, ?_⟩)
          rw [← List.append_assoc, ht, List.cons_append, List.take_append_drop]

/-- What is found is found with more behind it. -/
theorem indexOf_append_left (hu : u ∉ needle) {k : ℕ} (h : indexOf (u :: needle) x = some k) :
    indexOf (u :: needle) (x ++ y) = some k := by
  obtain ⟨heq, hle⟩ := eq_of_indexOf h
  have hlength : (x.take k).length = k := by
    rw [List.length_take]
    omega
  have hself := @indexOf_self (u :: needle) (x.drop (k + (u :: needle).length) ++ y)
  rw [heq, List.append_assoc, List.append_assoc, List.cons_append, indexOf_append_of_none hu
    (indexOf_take h), ← List.cons_append, hself, hlength]
  rw [Option.map_some, Nat.zero_add]

end Search

/-! ## Cutting at a tag -/

section Cut

variable {tag target s before rest : Text}

theorem cutTag_eq (htarget : IsTag target) (hfree : indexOf target (before.map Regex.foldUnit) = none)
    (htag : tag.map Regex.foldUnit = target) :
    cutTag target (before ++ (tag ++ rest)) = some (before, rest) := by
  obtain ⟨tail, htail, hstart, -⟩ := htarget.cases
  have hself := @indexOf_self target (rest.map Regex.foldUnit)
  have hlength : tag.length = target.length := by rw [← htag, List.length_map]
  rw [cutTag, List.map_append, List.map_append, htag]
  have hfound : indexOf target (before.map Regex.foldUnit ++ (target ++ rest.map Regex.foldUnit)) =
      some before.length := by
    rw [htail, List.cons_append] at hself ⊢
    rw [htail] at hfree
    rw [indexOf_append_of_none hstart hfree, hself, Option.map_some, Nat.zero_add, List.length_map]
  rw [hfound, Option.map_some, List.take_left, ← hlength, ← List.length_append,
    ← List.append_assoc, List.drop_left]

theorem cutTag_eq_none (hfree : indexOf target (s.map Regex.foldUnit) = none) :
    cutTag target s = none := by
  rw [cutTag, hfree]
  rfl

/-- What a cut takes out is a tag. -/
theorem exists_of_cutTag (h : cutTag target s = some (before, rest)) :
    ∃ tag, tag.map Regex.foldUnit = target ∧ s = before ++ (tag ++ rest) := by
  obtain ⟨k, hk, heq⟩ := Option.map_eq_some_iff.mp h
  obtain ⟨hmap, hle⟩ := eq_of_indexOf hk
  rw [List.length_map] at hle
  obtain ⟨rfl, rfl⟩ := Prod.mk.inj heq
  refine ⟨(s.drop k).take target.length, ?_, ?_⟩
  · rw [List.map_take, List.map_drop, hmap, List.append_assoc,
      List.drop_left' (by rw [List.length_take, List.length_map]; omega), List.take_left]
  · rw [← List.drop_drop, List.take_append_drop, List.take_append_drop]

/-- The tag that is not searched for only moves what is found. -/
theorem cutTag_open_append_lead {lead : Text} (hlead : lead.map Regex.foldUnit = thinkClose) :
    cutTag thinkOpen (lead ++ s) =
      (cutTag thinkOpen s).map fun found => (lead ++ found.1, found.2) := by
  have hlength : lead.length = thinkClose.length := by rw [← hlead, List.length_map]
  have hmoved : indexOf thinkOpen ((lead ++ s).map Regex.foldUnit) =
      (indexOf thinkOpen (s.map Regex.foldUnit)).map (· + lead.length) := by
    have htail := @indexOf_append_of_not_mem 60 thinkOpen.tail thinkClose.tail
      (s.map Regex.foldUnit) (by decide)
    rw [List.map_append, hlead, show thinkClose = 60 :: thinkClose.tail from rfl, List.cons_append,
      indexOf_cons, if_neg, show thinkOpen = 60 :: thinkOpen.tail from rfl, htail, Option.map_map,
      hlength]
    · rfl
    · intro h
      obtain ⟨t, ht⟩ := List.isPrefixOf_iff_prefix.mp h
      exact absurd (List.cons.inj (List.cons.inj ht).2).1 (by decide)
  rw [cutTag, hmoved, cutTag, Option.map_map, Option.map_map]
  congr 1
  funext k
  simp only [Function.comp_apply]
  rw [Nat.add_comm k, List.take_length_add_append, Nat.add_assoc, List.drop_length_add_append]

end Cut

/-! ## The blocks -/

theorem cutBlocks_lead {lead s : Text} (hlead : lead.map Regex.foldUnit = thinkClose) (fuel : ℕ) :
    cutBlocks fuel (lead ++ s) = (lead ++ (cutBlocks fuel s).1, (cutBlocks fuel s).2) := by
  cases fuel with
  | zero => rfl
  | succ fuel =>
      rw [cutBlocks, cutBlocks, cutTag_open_append_lead hlead]
      cases cutTag thinkOpen s with
      | none => rfl
      | some found =>
          obtain ⟨before, rest⟩ := found
          simp only [Option.map_some]
          cases cutTag thinkClose rest with
          | none => rfl
          | some found =>
              obtain ⟨body, rest⟩ := found
              simp [List.append_assoc]

theorem cutOpen_lead {lead s : Text} (hlead : lead.map Regex.foldUnit = thinkClose) :
    cutOpen (lead ++ s) = (lead ++ (cutOpen s).1, (cutOpen s).2) := by
  rw [cutOpen, cutOpen, cutTag_open_append_lead hlead]
  cases cutTag thinkOpen s <;> rfl

/-- A block that does not end, with what is in it. -/
inductive OpenEnd : Text → List Text → Prop where
  | closed : OpenEnd [] []
  | opened {tag body : Text} (htag : tag.map Regex.foldUnit = thinkOpen) (hbody : TagFree body) :
      OpenEnd (tag ++ body) [body]

section Blocks

variable {parts : List MarkedPart} {last : Text} {fuel : ℕ}

/-- The blocks are taken out; what is left are the parts outside and the block
that does not end. -/
theorem cutBlocks_rendered (halt : Alternates (fun _ part => TagFree part) false parts last)
    (hfuel : parts.length < fuel) :
    ∃ tail opened, OpenEnd tail opened ∧
      (cutBlocks fuel (rendered parts last)).1 = partsOf false false parts last ++ tail ∧
      (cutBlocks fuel (rendered parts last)).2.flatten ++ opened.flatten =
        partsOf true false parts last := by
  induction fuel generalizing parts with
  | zero => omega
  | succ fuel ih =>
      match parts, halt with
      | [], halt =>
          refine ⟨[], [], .closed, ?_, ?_⟩
          · rw [rendered, cutBlocks, cutTag_eq_none halt.1]
            exact (List.append_nil last).symm
          · rw [rendered, cutBlocks, cutTag_eq_none halt.1]
            rfl
      | [part], halt =>
          obtain ⟨hpart, htag, hlast⟩ := halt
          have hcut := @cutTag_eq part.tag _ part.text last (Or.inl rfl) hpart.1 htag
          have hclose : cutTag thinkClose last = none := cutTag_eq_none hlast.2
          refine ⟨part.tag ++ last, [last], .opened htag hlast, ?_, ?_⟩
          · rw [rendered, rendered, List.append_assoc, cutBlocks, hcut]
            dsimp only
            rw [hclose]
            simp [partsOf]
          · rw [rendered, rendered, List.append_assoc, cutBlocks, hcut]
            dsimp only
            rw [hclose]
            simp [partsOf]
      | part :: block :: parts, halt =>
          obtain ⟨hpart, htag, hblock, hclosing, hrest⟩ := halt
          have hcut := @cutTag_eq part.tag _ part.text (rendered (block :: parts) last) (Or.inl rfl)
            hpart.1 htag
          have hcut' := @cutTag_eq block.tag _ block.text (rendered parts last) (Or.inr rfl)
            hblock.2 hclosing
          simp only [List.length_cons] at hfuel
          obtain ⟨tail, opened, hend, hwork, hbodies⟩ := ih hrest (by omega)
          refine ⟨tail, opened, hend, ?_, ?_⟩
          · rw [rendered, List.append_assoc, cutBlocks, hcut]
            dsimp only
            rw [rendered, List.append_assoc, hcut']
            dsimp only
            rw [hwork]
            simp [partsOf]
          · rw [rendered, List.append_assoc, cutBlocks, hcut]
            dsimp only
            rw [rendered, List.append_assoc, hcut']
            dsimp only
            rw [List.flatten_cons, List.append_assoc, hbodies]
            simp [partsOf]

end Blocks

/-! ## White space -/

@[simp] theorem unspaced_trim (s : Text) : unspaced (trim s) = unspaced s := by
  have hrev : ∀ t : Text, unspaced (t.rdropWhile isSpace) = unspaced t := by
    intro t
    have h := unspaced_trimStart t.reverse
    rw [trimStart] at h
    rw [List.rdropWhile, unspaced, List.filter_reverse]
    rw [unspaced, unspaced, List.filter_reverse] at h
    rw [h, List.reverse_reverse]
    rfl
  rw [trim, hrev]
  exact unspaced_trimStart s

/-- The bodies, trimmed and joined, are the bodies up to white space. -/
theorem unspaced_reasoning (bodies : List Text) :
    unspaced (trim (join (js "\n") (reasoningParts bodies))) = unspaced bodies.flatten := by
  have hjoin : ∀ parts : List Text, unspaced (join (js "\n") parts) = unspaced parts.flatten := by
    intro parts
    induction parts with
    | nil => rfl
    | cons part parts ih =>
        cases parts with
        | nil =>
            rw [join, List.intercalate_singleton, List.flatten_cons, List.flatten_nil,
              List.append_nil]
        | cons next parts =>
            rw [join, List.intercalate_cons_cons, unspaced_append, unspaced_append,
              List.flatten_cons, unspaced_append]
            have hsep : unspaced (js "\n") = [] := by decide
            rw [join] at ih
            rw [ih, hsep, List.append_nil]
  rw [unspaced_trim, hjoin]
  induction bodies with
  | nil => rfl
  | cons body bodies ih =>
      rw [reasoningParts] at ih
      rw [reasoningParts, List.map_cons, List.filter_cons]
      split_ifs with hblank
      · rw [List.flatten_cons, List.flatten_cons, unspaced_append, unspaced_append, ih,
          unspaced_trim]
      · have hnil : trim body = [] := by simpa using hblank
        have hbody := unspaced_trim body
        rw [hnil] at hbody
        rw [List.flatten_cons, unspaced_append, ih, ← hbody]
        rfl

/-! ## What is left of the text outside -/

section Rest

variable {fuel : ℕ} {s text tail : Text} {opened : List Text}

theorem TagFree.trimStart (h : TagFree s) : TagFree (trimStart s) := by
  obtain ⟨gap, -, heq⟩ := exists_trimStart s
  rw [heq] at h
  exact h.append.2

theorem isPrefixOf_eq_false {needle : Text} (h : indexOf needle s = none) :
    needle.isPrefixOf s = false := by
  rw [← Bool.not_eq_true]
  intro hstarts
  obtain ⟨t, rfl⟩ := List.isPrefixOf_iff_prefix.mp hstarts
  rw [indexOf_self] at h
  cases h

theorem dropTags_of_tagFree (h : TagFree s) : dropTags fuel s = s := by
  induction fuel generalizing s with
  | zero => rfl
  | succ fuel ih =>
      cases s with
      | nil => rfl
      | cons u s =>
          rw [dropTags, if_neg (by rw [isPrefixOf_eq_false h.1]; exact Bool.false_ne_true),
            if_neg (by rw [isPrefixOf_eq_false h.2]; exact Bool.false_ne_true)]
          rw [ih (show TagFree ([u] ++ s) from h).append.2]

theorem cutOpen_of_tagFree (hend : OpenEnd tail opened) (h : TagFree text) :
    cutOpen (text ++ tail) = (text, opened) := by
  cases hend with
  | closed => rw [List.append_nil, cutOpen, cutTag_eq_none h.1]
  | opened htag hbody => rw [cutOpen, cutTag_eq (Or.inl rfl) h.1 htag]

theorem cutCloses_of_tagFree (h : TagFree s) : cutCloses fuel s = (s, []) := by
  cases fuel with
  | zero => rfl
  | succ fuel => rw [cutCloses, cutTag_eq_none h.2]

theorem cutCloses_lead {lead : Text} (hlead : lead.map Regex.foldUnit = thinkClose) :
    cutCloses (fuel + 1) (lead ++ s) =
      ((cutCloses fuel (trimStart s)).1, [] :: (cutCloses fuel (trimStart s)).2) := by
  have hcut := @cutTag_eq lead _ [] s (Or.inr rfl) rfl hlead
  rw [List.nil_append] at hcut
  rw [cutCloses, hcut]

/-! What is deleted of it has units that are not white space. -/

theorem unspaced_tag_pos {tag target : Text} (htarget : IsTag target)
    (htag : tag.map Regex.foldUnit = target) : 0 < (unspaced tag).length := by
  obtain ⟨rest, rfl⟩ := exists_of_fold htarget htag
  rw [unspaced, List.filter_cons_of_pos (by decide), List.length_cons]
  omega

theorem lt_of_cutTag {target before rest : Text} (htarget : IsTag target)
    (h : cutTag target s = some (before, rest)) :
    (unspaced before).length + (unspaced rest).length < (unspaced s).length := by
  obtain ⟨tag, htag, rfl⟩ := exists_of_cutTag h
  have hpos := unspaced_tag_pos htarget htag
  rw [unspaced_append, unspaced_append, List.length_append, List.length_append]
  omega

theorem length_cutCloses_le : (unspaced (cutCloses fuel s).1).length ≤ (unspaced s).length := by
  induction fuel generalizing s with
  | zero => exact le_rfl
  | succ fuel ih =>
      rw [cutCloses]
      cases hcut : cutTag thinkClose s with
      | none => exact le_rfl
      | some found =>
          have hlt := lt_of_cutTag (Or.inr rfl) hcut
          have hle := @ih (trimStart found.2)
          rw [unspaced_trimStart] at hle
          dsimp only
          omega

theorem length_cutCloses_lt (h : indexOf thinkClose (s.map Regex.foldUnit) ≠ none) :
    (unspaced (cutCloses (fuel + 1) s).1).length < (unspaced s).length := by
  obtain ⟨k, hk⟩ := Option.ne_none_iff_exists'.mp h
  have hcut : cutTag thinkClose s = some (s.take k, s.drop (k + thinkClose.length)) := by
    rw [cutTag, hk]
    rfl
  have hlt := lt_of_cutTag (Or.inr rfl) hcut
  have hle := @length_cutCloses_le fuel (trimStart (s.drop (k + thinkClose.length)))
  rw [unspaced_trimStart] at hle
  rw [cutCloses, hcut]
  dsimp only
  omega

theorem length_unspaced_drop_le (n : ℕ) :
    (unspaced (s.drop n)).length ≤ (unspaced s).length := by
  conv_rhs => rw [← List.take_append_drop n s]
  rw [unspaced_append, List.length_append]
  omega

theorem length_dropTags_le : (unspaced (dropTags fuel s)).length ≤ (unspaced s).length := by
  induction fuel generalizing s with
  | zero => exact le_rfl
  | succ fuel ih =>
      cases s with
      | nil => exact le_rfl
      | cons u s =>
          rw [dropTags]
          split_ifs
          · exact ih.trans (length_unspaced_drop_le _)
          · exact ih.trans (length_unspaced_drop_le _)
          · have hle := @ih s
            rw [unspaced, unspaced, List.filter_cons, List.filter_cons]
            rw [unspaced, unspaced] at hle
            split_ifs
            · rw [List.length_cons, List.length_cons]
              omega
            · exact hle

/-- White space in front hides no closing tag. -/
theorem indexOf_close_of_trimStart
    (h : indexOf thinkClose ((trimStart s).map Regex.foldUnit) = none) :
    indexOf thinkClose (s.map Regex.foldUnit) = none := by
  obtain ⟨gap, hgap, heq⟩ := exists_trimStart s
  have hstart : (60 : UInt16) ∉ gap.map Regex.foldUnit := fun hmem => by
    obtain ⟨u, hu, hfold⟩ := List.mem_map.mp hmem
    have hspace := hgap u hu
    rw [eq_of_foldUnit hfold] at hspace
    exact absurd hspace (by decide)
  have hmoved := @indexOf_append_of_not_mem 60 thinkClose.tail (gap.map Regex.foldUnit)
    ((trimStart s).map Regex.foldUnit) hstart
  rw [show (60 : UInt16) :: thinkClose.tail = thinkClose from rfl, h] at hmoved
  rw [heq, List.map_append, hmoved]
  rfl

/-- An opening tag that was not there before takes the rest with it. -/
theorem length_cutOpen_lt (h : indexOf thinkOpen (text.map Regex.foldUnit) ≠ none) :
    (unspaced (cutOpen (text ++ tail)).1).length < (unspaced text).length := by
  obtain ⟨k, hk⟩ := Option.ne_none_iff_exists'.mp h
  have hfound : indexOf thinkOpen ((text ++ tail).map Regex.foldUnit) = some k := by
    rw [List.map_append]
    exact @indexOf_append_left 60 thinkOpen.tail _ _ (by decide) k hk
  have hcut : cutTag thinkOpen text = some (text.take k, text.drop (k + thinkOpen.length)) := by
    rw [cutTag, hk]
    rfl
  have hlt := lt_of_cutTag (Or.inl rfl) hcut
  have hle := (eq_of_indexOf hk).2
  rw [List.length_map] at hle
  have hwork : (cutOpen (text ++ tail)).1 = text.take k := by
    rw [cutOpen, cutTag, hfound]
    exact List.take_append_of_le_length (by omega)
  rw [hwork]
  omega

end Rest

/-! ## Both parsers -/

/-- A text with thinking markup: perhaps a closing tag, then parts and tags in
turn. -/
structure Markup where
  lead : Text
  parts : List MarkedPart
  last : Text

namespace Markup

variable (m : Markup)

def text : Text := m.lead ++ rendered m.parts m.last

/-- What is in the blocks. -/
def thoughts : Text := partsOf true false m.parts m.last

/-- What is outside. -/
def answer : Text := partsOf false false m.parts m.last

/-- The tags alternate, in any letter case, and there are no others. -/
def WellTagged : Prop :=
  (m.lead = [] ∨ m.lead.map Regex.foldUnit = thinkClose) ∧
    Alternates (fun _ part => TagFree part) false m.parts m.last

instance : Decidable m.WellTagged := inferInstanceAs (Decidable ((_ ∨ _) ∧ _))

end Markup

section

variable {m : Markup}

theorem length_parts_lt (parts : List MarkedPart) (last : Text)
    (halt : Alternates (fun _ part => TagFree part) false parts last) :
    parts.length < (rendered parts last).length + 1 := by
  have hall : ∀ (thinking : Bool) (parts : List MarkedPart),
      Alternates (fun _ part => TagFree part) thinking parts last →
        parts.length ≤ (rendered parts last).length := by
    intro thinking parts
    induction parts generalizing thinking with
    | nil => exact fun _ => Nat.zero_le _
    | cons part parts ih =>
        rintro ⟨-, htag, hrest⟩
        have hpos := List.length_pos_iff.mpr (tag_ne_nil htag)
        have hle := ih _ hrest
        rw [rendered, List.length_append, List.length_append, List.length_cons]
        omega
  exact Nat.lt_succ_of_le (hall false parts halt)

/-- The stages of the batch parser, the closing tag in front apart. -/
theorem exists_stages (h : m.WellTagged) :
    ∃ tail opened, OpenEnd tail opened ∧ ∃ blocks : List Text,
      blocks.flatten ++ opened.flatten = m.thoughts ∧
      (cutBlocks (m.text.length + 1) m.text) = (m.lead ++ (m.answer ++ tail), blocks) := by
  obtain ⟨hlead, halt⟩ := h
  have hlt := length_parts_lt m.parts m.last halt
  have hle : (rendered m.parts m.last).length ≤ m.text.length := by
    rw [Markup.text, List.length_append]
    omega
  obtain ⟨tail, opened, hend, hwork, hbodies⟩ :=
    cutBlocks_rendered halt (show m.parts.length < m.text.length + 1 by omega)
  refine ⟨tail, opened, hend, _, hbodies, ?_⟩
  have hsplit : cutBlocks (m.text.length + 1) m.text =
      (m.lead ++ (cutBlocks (m.text.length + 1) (rendered m.parts m.last)).1,
        (cutBlocks (m.text.length + 1) (rendered m.parts m.last)).2) := by
    rcases hlead with hlead | hlead
    · rw [Markup.text, hlead, List.nil_append, List.nil_append]
    · exact cutBlocks_lead hlead _
  rw [hsplit, hwork]
  rfl

theorem cutOpen_answer (h : m.WellTagged) (x : Text) :
    cutOpen (m.lead ++ x) = (m.lead ++ (cutOpen x).1, (cutOpen x).2) := by
  rcases h.1 with hlead | hlead
  · rw [hlead, List.nil_append, List.nil_append]
  · exact cutOpen_lead hlead

/-- The batch parser returns the parts when nothing is left to delete. -/
theorem split_of_tagFree (h : m.WellTagged) (hfree : TagFree m.answer) :
    unspaced (splitThinkMarkup m.text).reasoning = unspaced m.thoughts ∧
      unspaced (splitThinkMarkup m.text).content = unspaced m.answer := by
  obtain ⟨tail, opened, hend, blocks, hthoughts, hblocks⟩ := exists_stages h
  rw [splitThinkMarkup, hblocks]
  dsimp only
  rw [cutOpen_answer h, cutOpen_of_tagFree hend hfree]
  dsimp only
  rcases h.1 with hlead | hlead
  · rw [hlead, List.nil_append, cutCloses_of_tagFree hfree]
    dsimp only
    rw [dropTags_of_tagFree hfree, unspaced_trimStart, unspaced_reasoning, List.append_nil,
      List.flatten_append, hthoughts]
    exact ⟨rfl, rfl⟩
  · rw [cutCloses_lead hlead, cutCloses_of_tagFree hfree.trimStart]
    dsimp only
    rw [dropTags_of_tagFree hfree.trimStart, unspaced_trimStart, unspaced_trimStart,
      unspaced_reasoning, List.flatten_append, List.flatten_append, hthoughts]
    exact ⟨by simp, rfl⟩

/-- It returns less of the answer when there is. -/
theorem length_content_lt (h : m.WellTagged) (htag : ¬TagFree m.answer) :
    (unspaced (splitThinkMarkup m.text).content).length < (unspaced m.answer).length := by
  obtain ⟨tail, opened, hend, blocks, -, hblocks⟩ := exists_stages h
  -- after the second stage there is less already, or a closing tag is left
  have hopen : (unspaced (cutOpen (m.answer ++ tail)).1).length < (unspaced m.answer).length ∨
      (cutOpen (m.answer ++ tail)).1 = m.answer ∧
        indexOf thinkClose (m.answer.map Regex.foldUnit) ≠ none := by
    by_cases hnone : indexOf thinkOpen (m.answer.map Regex.foldUnit) = none
    · refine Or.inr ⟨?_, fun hclose => htag ⟨hnone, hclose⟩⟩
      cases hend with
      | closed => rw [List.append_nil, cutOpen, cutTag_eq_none hnone]
      | opened hfold hbody => rw [cutOpen, cutTag_eq (Or.inl rfl) hnone hfold]
    · exact Or.inl (length_cutOpen_lt hnone)
  generalize hwork : (cutOpen (m.answer ++ tail)).1 = work at hopen
  have hcloses : (unspaced (cutCloses ((m.lead ++ work).length + 1) (m.lead ++ work)).1).length <
      (unspaced m.answer).length := by
    rcases h.1 with hlead | hlead
    · rw [hlead, List.nil_append]
      rcases hopen with hlt | ⟨rfl, hclose⟩
      · exact length_cutCloses_le.trans_lt hlt
      · exact length_cutCloses_lt hclose
    · have hpos : 0 < m.lead.length := List.length_pos_iff.mpr (@tag_ne_nil true m.lead hlead)
      obtain ⟨fuel, hfuel⟩ : ∃ fuel, (m.lead ++ work).length = fuel + 1 :=
        ⟨(m.lead ++ work).length - 1, by rw [List.length_append]; omega⟩
      rw [hfuel, cutCloses_lead hlead]
      dsimp only
      rw [← unspaced_trimStart work] at hopen
      rcases hopen with hlt | ⟨rfl, hclose⟩
      · exact length_cutCloses_le.trans_lt hlt
      · rw [← unspaced_trimStart m.answer]
        exact length_cutCloses_lt fun hnone => hclose (indexOf_close_of_trimStart hnone)
  rw [splitThinkMarkup, hblocks]
  dsimp only
  rw [cutOpen_answer h, hwork, unspaced_trimStart]
  exact length_dropTags_le.trans_lt hcloses

end

/-! ## The two together -/

namespace Markup

variable (m : Markup)

/-- No part has what the search takes for a tag there, though it is none: a tag
spelled with the Kelvin sign. -/
def Unmistaken : Prop := Alternates SearchFree false m.parts m.last

instance : Decidable m.Unmistaken := inferInstanceAs (Decidable (Alternates _ _ _ _))

/-- The stream, started outside a block, says what the batch parser says, which
is what the markup says; and no tag is in what it emits. -/
structure SplitAlike (deltas : List Text) : Prop where
  reasoning : unspaced ((consumeThinkStream false [] deltas).total true) =
    unspaced (splitThinkMarkup m.text).reasoning
  content : unspaced ((consumeThinkStream false [] deltas).total false) =
    unspaced (splitThinkMarkup m.text).content
  thoughts : unspaced ((consumeThinkStream false [] deltas).total true) = unspaced m.thoughts
  answer : unspaced ((consumeThinkStream false [] deltas).total false) = unspaced m.answer
  pieces : ∀ p ∈ (consumeThinkStream false [] deltas).reasoning ++
    (consumeThinkStream false [] deltas).text, TagFree p

end Markup

theorem alternates_plain {thinking : Bool} {parts : List MarkedPart} {last : Text}
    (hfree : Alternates (fun _ part => TagFree part) thinking parts last)
    (hsearch : Alternates SearchFree thinking parts last) :
    Alternates Plain thinking parts last := by
  induction parts generalizing thinking with
  | nil => exact ⟨hfree, hsearch⟩
  | cons part parts ih =>
      exact ⟨⟨hfree.1, hsearch.1⟩, hfree.2.1, ih hfree.2.2 hsearch.2.2⟩

/-- The stream emits what the markup says, however the text arrives. -/
theorem streamed_markup {m : Markup} (h : m.WellTagged) (hsearch : m.Unmistaken)
    {deltas : List Text} (hcut : deltas.flatten = m.text) (hdot : ∀ delta ∈ deltas, Undotted delta) :
    Streamed false m.parts m.last (consumeThinkStream false [] deltas) := by
  have halt := alternates_plain h.2 hsearch
  rcases h.1 with hlead | hlead
  · have hs : [] ++ deltas.flatten = rendered m.parts m.last := by
      rw [List.nil_append, hcut, Markup.text, hlead, List.nil_append]
    refine streamed_of_alternates hs halt List.not_mem_nil hdot fun hnil => ?_
    rw [List.nil_append, hnil] at hs
    cases hparts : m.parts with
    | nil => rfl
    | cons part parts =>
        rw [hparts, rendered] at hs
        rw [hparts] at halt
        obtain ⟨htag, -⟩ := List.append_eq_nil_iff.mp hs.symm
        exact absurd (List.append_eq_nil_iff.mp htag).2 (tag_ne_nil halt.2.1)
  · exact streamed_of_lead hlead hcut (List.length_pos_iff.mpr (@tag_ne_nil true m.lead hlead)) halt
      hdot

/-- For every text in which the tags alternate and every way it arrives: the two
parsers agree only if the parts outside make no tag when they are put together,
and they do agree if, besides, nothing is mistaken for a tag and no delta has a
U+0130 before one. -/
theorem think_split_alike (m : Markup) (deltas : List Text) (h : m.WellTagged)
    (hcut : deltas.flatten = m.text) :
    (m.SplitAlike deltas → TagFree m.answer) ∧
      (TagFree m.answer → m.Unmistaken → (∀ delta ∈ deltas, Undotted delta) →
        m.SplitAlike deltas) := by
  constructor
  · intro halike
    by_contra htag
    have hlt := length_content_lt h htag
    rw [← halike.content, halike.answer] at hlt
    exact lt_irrefl _ hlt
  · intro hfree hsearch hdot
    have hstream := streamed_markup h hsearch hcut hdot
    obtain ⟨hreasoning, hcontent⟩ := split_of_tagFree h hfree
    have hthoughts := (hstream.kept true).symm
    have hanswer := (hstream.kept false).symm
    exact ⟨hthoughts.trans hreasoning.symm, hanswer.trans hcontent.symm, hthoughts, hanswer,
      hstream.pieces⟩

theorem undotted_of_not_mem {s : Text} (h : 0x130 ∉ s) : Undotted s := by
  rintro before tag after rfl - hmem
  exact h (List.mem_append_left _ (List.mem_append_left _ hmem))

/-- `a<think>b</THINK>c`, cut inside the tags. -/
theorem think_split_alike_short :
    (⟨[], [⟨js "a", js "<think>"⟩, ⟨js "b", js "</THINK>"⟩], js "c"⟩ : Markup).SplitAlike
      [js "a<th", js "ink>b</TH", js "INK>c"] := by
  refine (think_split_alike _ _ (by decide) (by decide)).2 (by decide) (by decide) ?_
  intro delta hdelta
  refine undotted_of_not_mem ?_
  revert delta
  decide

/-- U+0130 before a block: the index of the tag in the lower-cased copy is one
too high. -/
theorem dotted_not_alike :
    ¬ ∀ (m : Markup) (deltas : List Text), m.WellTagged → deltas.flatten = m.text →
      m.SplitAlike deltas := by
  intro h
  have halike := h ⟨[], [⟨[0x130], js "<think>"⟩, ⟨js "x", js "</think>"⟩], js "y"⟩
    [[0x130] ++ js "<think>x</think>y"] (by decide) (by decide)
  have hcontent := halike.content
  revert hcontent
  decide

end Shizuha.Provider
