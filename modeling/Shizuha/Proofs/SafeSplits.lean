import Shizuha.Js.WholeCharacters
import Shizuha.Proofs.ShownReplies

/-!
# What a long message is split into

A text over the limit is cut at a line end, else at a space, and where neither is
near the limit, at the limit. The first two never cut a character in two; the
last does when the limit falls between the halves of one. So the chunks are whole
characters exactly when that happens in no round (`WholeCuts`), and all else that
is asked of them always holds.
-/

namespace Shizuha.Gateway

open Js

/-! ## The last of a unit -/

theorem lastIndexOf_eq_some {u : UInt16} {s : Text} {start k : ℕ}
    (h : lastIndexOf u s start = some k) :
    k ≤ start ∧ s[k]? = some u ∧ ∀ j ≤ start, k < j → s[j]? ≠ some u := by
  obtain ⟨i, hi, rfl⟩ := Option.map_eq_some_iff.mp h
  obtain ⟨hindex, hu, hbefore⟩ := List.idxOf?_eq_some_iff.mp hi
  have hlength := hindex
  rw [List.length_reverse, List.length_take] at hlength
  have hget : ∀ j, j < min (start + 1) s.length →
      (s.take (start + 1)).reverse[min (start + 1) s.length - 1 - j]? = s[j]? := by
    intro j hj
    rw [List.getElem?_reverse (by rw [List.length_take]; omega), List.length_take,
      show min (start + 1) s.length - 1 - (min (start + 1) s.length - 1 - j) = j by omega,
      List.getElem?_take_of_lt (by omega)]
  rw [List.length_take]
  refine ⟨by omega, ?_, ?_⟩
  · rw [← hget _ (by omega), show min (start + 1) s.length - 1 -
      (min (start + 1) s.length - 1 - i) = i by omega, List.getElem?_eq_getElem hindex, hu]
  · intro j hj hlt hjs
    have hj' : j < min (start + 1) s.length := by
      have := (List.getElem?_eq_some_iff.mp hjs).1
      omega
    rw [← hget j hj', List.getElem?_eq_some_iff] at hjs
    obtain ⟨_, hjs⟩ := hjs
    exact hbefore _ (by omega) hjs

theorem lastIndexOf_eq_none {u : UInt16} {s : Text} {start : ℕ}
    (h : lastIndexOf u s start = none) : ∀ j ≤ start, s[j]? ≠ some u := by
  intro j hj hjs
  rw [lastIndexOf, Option.map_eq_none_iff, List.idxOf?_eq_none_iff, List.mem_reverse] at h
  refine h (List.mem_of_getElem? (i := j) ?_)
  rw [List.getElem?_take_of_lt (by omega), hjs]

/-! ## Where a text is cut -/

section

variable (style : ChatStyle) (text : Text)

/-- No line end is in the second half of what fits. -/
def NoLineEnd : Prop :=
  ∀ k ≤ style.maxLength, text[k]? = some newline → k * 2 < style.maxLength

/-- No line end and no space is near enough to the limit. -/
def HardCut : Prop :=
  NoLineEnd style text ∧
    ∀ k ≤ style.maxLength, text[k]? = some 32 → k * 10 < style.maxLength * 3

/-- The last of a unit that fits. -/
def LastFitting (u : UInt16) (k : ℕ) : Prop :=
  k ≤ style.maxLength ∧ text[k]? = some u ∧ ∀ j ≤ style.maxLength, k < j → text[j]? ≠ some u

/-- The last line end is near the limit, or none is and the last space is. -/
def SoftCut (k : ℕ) : Prop :=
  (LastFitting style text newline k ∧ style.maxLength ≤ k * 2) ∨
    (NoLineEnd style text ∧ LastFitting style text 32 k ∧ style.maxLength * 3 ≤ k * 10)

/-- In no round does a hard cut fall between the halves of a character. -/
inductive WholeCuts : Text → Prop where
  | short {text : Text} (h : text.length ≤ style.maxLength) : WholeCuts text
  | soft {text : Text} {k : ℕ} (hlong : style.maxLength < text.length)
      (hcut : SoftCut style text k) (h : WholeCuts (trimStart (text.drop k))) : WholeCuts text
  | hard {text : Text} (hlong : style.maxLength < text.length) (hcut : HardCut style text)
      (hwhole : ∀ u ∈ text[style.maxLength]?, isLowSurrogate u = false)
      (h : WholeCuts (trimStart (text.drop style.maxLength))) : WholeCuts text

/-- The loop has ended, the chunks make up the text, and each of them can be sent. -/
structure SplitsSafely : Prop where
  ends : ∀ fuel, text.length < fuel → style.splitLoop fuel text = style.splitMessage text
  pieces : Pieces (style.splitMessage text) text
  ne_nil : ∀ chunk ∈ style.splitMessage text, chunk ≠ []
  length_le : ∀ chunk ∈ style.splitMessage text, chunk.length ≤ style.maxLength
  wellFormed : ∀ chunk ∈ style.splitMessage text, WellFormed chunk

end

section

variable {style : ChatStyle} {text : Text}

theorem lastFitting_unique {u : UInt16} {k j : ℕ} (hk : LastFitting style text u k)
    (hj : LastFitting style text u j) : k = j := by
  by_contra hne
  rcases Nat.lt_or_gt_of_ne hne with hlt | hlt
  · exact hk.2.2 j hj.1 hlt hj.2.1
  · exact hj.2.2 k hk.1 hlt hk.2.1

theorem softCut_unique {k j : ℕ} (hk : SoftCut style text k) (hj : SoftCut style text j) :
    k = j := by
  rcases hk with ⟨hk, hnear⟩ | ⟨hlines, hk, -⟩ <;> rcases hj with ⟨hj, hnear'⟩ | ⟨hlines', hj, -⟩
  · exact lastFitting_unique hk hj
  · have := hlines' k hk.1 hk.2.1
    omega
  · have := hlines j hj.1 hj.2.1
    omega
  · exact lastFitting_unique hk hj

theorem not_softCut {k : ℕ} (h : HardCut style text) : ¬ SoftCut style text k := by
  rintro (⟨hk, hnear⟩ | ⟨-, hk, hnear⟩)
  · have := h.1 k hk.1 hk.2.1
    omega
  · have := h.2 k hk.1 hk.2.1
    omega

/-- The cut that `splitMessage` computes. -/
def Cut (style : ChatStyle) (text : Text) (k : ℕ) : Prop :=
  SoftCut style text k ∨ (HardCut style text ∧ k = style.maxLength)

/-- Where no line end is near the spaces decide. -/
theorem cut_space (hlines : NoLineEnd style text)
    (hif : (lastIndexOf newline text style.maxLength).all (· * 2 < style.maxLength) = true) :
    Cut style text (style.splitAt text) := by
  generalize hcut : style.splitAt text = cut
  rw [ChatStyle.splitAt, if_pos hif] at hcut
  cases hspace : lastIndexOf 32 text style.maxLength with
  | none =>
      rw [hspace] at hcut
      have hno := lastIndexOf_eq_none hspace
      exact .inr ⟨⟨hlines, fun k hk hks => absurd hks (hno k hk)⟩, hcut.symm⟩
  | some k =>
      have hlast : LastFitting style text 32 k := lastIndexOf_eq_some hspace
      rw [hspace] at hcut
      dsimp only at hcut
      split_ifs at hcut with hfar
      · refine .inr ⟨⟨hlines, fun j hj hjs => ?_⟩, hcut.symm⟩
        by_contra hnear
        exact hlast.2.2 j hj (by omega) hjs
      · rw [← hcut]
        exact .inl (.inr ⟨hlines, hlast, by omega⟩)

theorem cut_splitAt : Cut style text (style.splitAt text) := by
  have hmax := style.maxLength_pos
  cases hline : lastIndexOf newline text style.maxLength with
  | none =>
      have hno := lastIndexOf_eq_none hline
      exact cut_space (fun k hk hks => absurd hks (hno k hk)) (by rw [hline]; rfl)
  | some k =>
      have hlast : LastFitting style text newline k := lastIndexOf_eq_some hline
      by_cases hfar : k * 2 < style.maxLength
      · refine cut_space (fun j hj hjs => ?_) (by rw [hline]; simpa using hfar)
        by_contra hnear
        exact hlast.2.2 j hj (by omega) hjs
      · have hcut : style.splitAt text = k := by
          rw [ChatStyle.splitAt, hline, if_neg (by simpa using hfar)]
          dsimp only
          rw [if_neg (by omega)]
        rw [hcut]
        exact .inl (.inl ⟨hlast, by omega⟩)

theorem splitAt_le (style : ChatStyle) (text : Text) : style.splitAt text ≤ style.maxLength := by
  rcases @cut_splitAt style text with (⟨hk, -⟩ | ⟨-, hk, -⟩) | ⟨-, hk⟩
  · exact hk.1
  · exact hk.1
  · exact hk.le

theorem splitAt_of_soft {k : ℕ} (h : SoftCut style text k) : style.splitAt text = k := by
  rcases @cut_splitAt style text with hsoft | ⟨hhard, -⟩
  · exact softCut_unique hsoft h
  · exact absurd h (not_softCut hhard)

theorem splitAt_of_hard (h : HardCut style text) : style.splitAt text = style.maxLength := by
  rcases @cut_splitAt style text with hsoft | ⟨-, hk⟩
  · exact absurd hsoft (not_softCut h)
  · exact hk

/-- A soft cut is in front of a unit by itself. -/
theorem wellFormed_take_soft (h : WellFormed text) {k : ℕ} (hcut : SoftCut style text k) :
    WellFormed (text.take k) := by
  rcases hcut with ⟨hk, -⟩ | ⟨-, hk, -⟩
  · exact wellFormed_take_of_unit h hk.2.1 (by decide)
  · exact wellFormed_take_of_unit h hk.2.1 (by decide)

/-! ## The chunks -/

/-- What is left after a round is shorter. -/
theorem length_rest_lt (hnil : text ≠ []) :
    (trimStart (text.drop (style.splitAt text))).length < text.length := by
  have hpos := splitAt_pos style text
  have htext : 0 < text.length := List.length_pos_iff.mpr hnil
  have hlength := length_trimStart_le (text.drop (style.splitAt text))
  rw [List.length_drop] at hlength
  omega

/-- The loop has ended before its fuel. -/
theorem splitLoop_fuel {fuel fuel' : ℕ} (h : text.length < fuel) (h' : text.length < fuel') :
    style.splitLoop fuel text = style.splitLoop fuel' text := by
  induction fuel generalizing text fuel' with
  | zero => omega
  | succ fuel ih =>
      cases fuel' with
      | zero => omega
      | succ fuel' =>
          rw [ChatStyle.splitLoop, ChatStyle.splitLoop]
          split_ifs with hnil hshort
          · rfl
          · rfl
          · have hlt := @length_rest_lt style text hnil
            have hrest : style.splitLoop fuel (trimStart (text.drop (style.splitAt text))) =
                style.splitLoop fuel' (trimStart (text.drop (style.splitAt text))) :=
              ih (by omega) (by omega)
            rw [hrest]

theorem splitLoop_chunk {fuel : ℕ} {chunk : Text} (h : chunk ∈ style.splitLoop fuel text) :
    chunk ≠ [] ∧ chunk.length ≤ style.maxLength := by
  induction fuel generalizing text with
  | zero => cases h
  | succ fuel ih =>
      rw [ChatStyle.splitLoop] at h
      split_ifs at h with hnil hshort
      · cases h
      · rw [List.mem_singleton.mp h]
        exact ⟨hnil, hshort⟩
      · rcases List.mem_cons.mp h with hchunk | hrest
        · have hpos := splitAt_pos style text
          have hle := splitAt_le style text
          have htext : 0 < text.length := List.length_pos_iff.mpr hnil
          have hlength : chunk.length = min (style.splitAt text) text.length := by
            rw [hchunk, List.length_take]
          exact ⟨List.length_pos_iff.mp (by omega), by omega⟩
        · exact ih hrest

theorem wellFormed_splitLoop_iff {fuel : ℕ} (hfuel : text.length < fuel) (h : WellFormed text) :
    (∀ chunk ∈ style.splitLoop fuel text, WellFormed chunk) ↔ WholeCuts style text := by
  induction fuel generalizing text with
  | zero => omega
  | succ fuel ih =>
      rw [ChatStyle.splitLoop]
      split_ifs with hnil hshort
      · rw [hnil]
        exact iff_of_true (by simp) (.short (Nat.zero_le _))
      · refine iff_of_true (fun chunk hchunk => ?_) (.short hshort)
        rwa [List.mem_singleton.mp hchunk]
      · have hlt := @length_rest_lt style text hnil
        rw [List.forall_mem_cons]
        constructor
        · rintro ⟨htake, hrest⟩
          have hdrop := wellFormed_trimStart (wellFormed_drop h htake)
          have hcuts := (ih (by omega) hdrop).mp hrest
          rcases @cut_splitAt style text with hsoft | ⟨hhard, hk⟩
          · exact .soft (by omega) hsoft hcuts
          · rw [hk] at htake hcuts
            exact .hard (by omega) hhard ((wellFormed_take_iff h _).mp htake) hcuts
        · intro hcuts
          -- the cut of the text, and what the condition says of it
          have hround : WellFormed (text.take (style.splitAt text)) ∧
              WholeCuts style (trimStart (text.drop (style.splitAt text))) := by
            cases hcuts with
            | short hle => exact absurd hle hshort
            | soft hlong hcut hcuts =>
                rw [splitAt_of_soft hcut]
                exact ⟨wellFormed_take_soft h hcut, hcuts⟩
            | hard hlong hcut hwhole hcuts =>
                rw [splitAt_of_hard hcut]
                exact ⟨(wellFormed_take_iff h _).mpr hwhole, hcuts⟩
          have hdrop := wellFormed_trimStart (wellFormed_drop h hround.1)
          exact ⟨hround.1, (ih (by omega) hdrop).mpr hround.2⟩

theorem splitMessage_eq (hnil : text ≠ []) {fuel : ℕ} (h : text.length < fuel) :
    style.splitLoop fuel text = style.splitMessage text := by
  rw [ChatStyle.splitMessage]
  split_ifs with hshort
  · cases fuel with
    | zero => omega
    | succ fuel => rw [ChatStyle.splitLoop, if_neg hnil, if_pos hshort]
  · exact splitLoop_fuel h (Nat.lt_succ_self _)

end

/-- A text is split safely exactly when no hard cut falls between the halves of a
character. -/
theorem splits_safely_iff (style : ChatStyle) (text : Text) (hnil : text ≠ [])
    (h : WellFormed text) : SplitsSafely style text ↔ WholeCuts style text := by
  have hends : ∀ fuel, text.length < fuel → style.splitLoop fuel text = style.splitMessage text :=
    fun fuel hfuel => splitMessage_eq hnil hfuel
  have hloop := hends _ (Nat.lt_succ_self _)
  have hiff : (∀ chunk ∈ style.splitLoop (text.length + 1) text, WellFormed chunk) ↔
      WholeCuts style text := wellFormed_splitLoop_iff (Nat.lt_succ_self _) h
  have hchunk : ∀ chunk ∈ style.splitMessage text, chunk ≠ [] ∧ chunk.length ≤ style.maxLength := by
    rw [← hloop]
    exact fun chunk => splitLoop_chunk
  rw [hloop] at hiff
  constructor
  · exact fun hsafe => hiff.mp hsafe.wellFormed
  · exact fun hcuts => ⟨hends, pieces_splitMessage style text, fun chunk hc => (hchunk chunk hc).1,
      fun chunk hc => (hchunk chunk hc).2, hiff.mpr hcuts⟩

theorem splits_safely_hello :
    SplitsSafely discord (js "hello") ↔ WholeCuts discord (js "hello") :=
  splits_safely_iff discord (js "hello") (by decide) (by decide)

/-- A character whose halves are on both sides of the limit. -/
def acrossTheLimit : Text := List.replicate 1999 97 ++ js "😀"

theorem character_split : ¬ ∀ style text, style = discord ∨ style = telegram → text ≠ [] →
    WellFormed text → SplitsSafely style text := by
  intro h
  have hletters : WellFormed (List.replicate 1999 97) := wellFormed_of_forall fun u hu => by
    rw [List.eq_of_mem_replicate hu]
    decide
  have hnil : acrossTheLimit ≠ [] := List.append_ne_nil_of_right_ne_nil _ (by decide)
  have hlength : acrossTheLimit.length = 2001 := by
    rw [acrossTheLimit, List.length_append, List.length_replicate]
    rfl
  have hsafe := h discord acrossTheLimit (.inl rfl) hnil (hletters.append (by decide))
  have hmem : ∀ (u : UInt16) (k : ℕ), acrossTheLimit[k]? = some u → u = 97 ∨ u ∈ js "😀" := by
    intro u k hu
    rcases List.mem_append.mp (List.mem_of_getElem? hu) with hu | hu
    · exact .inl (List.eq_of_mem_replicate hu)
    · exact .inr hu
  have hhard : HardCut discord acrossTheLimit := by
    constructor
    · intro k _ hk
      exact absurd (hmem _ _ hk) (by decide)
    · intro k _ hk
      exact absurd (hmem _ _ hk) (by decide)
  have hchunk : acrossTheLimit.take 2000 ∈ discord.splitMessage acrossTheLimit := by
    rw [← hsafe.ends (acrossTheLimit.length + 1) (Nat.lt_add_one _), ChatStyle.splitLoop,
      if_neg hnil, hlength, if_neg (by decide), splitAt_of_hard hhard]
    exact List.mem_cons_self
  have hwhole := hsafe.wellFormed _ hchunk
  have htake : acrossTheLimit.take 2000 = List.replicate 1999 97 ++ (js "😀").take 1 := by
    rw [acrossTheLimit, List.take_append, List.length_replicate,
      List.take_of_length_le (List.length_replicate.trans_le (by omega))]
  rw [htake] at hwhole
  exact absurd (hletters.of_append hwhole) (by decide)

end Shizuha.Gateway
