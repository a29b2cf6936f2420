import Mathlib.Data.List.Flatten
import Shizuha.Js.RegexLengths
import Shizuha.Proofs.ThinkStream
import Shizuha.Provider.ContentStream

/-!
# Plain text that is streamed

A text without a complete think tag is to come through as it is. Nothing in the
two filters adds to it: what they have yielded and what they hold back is never
longer than what has arrived. So it comes through exactly when nothing is taken
away, and that happens in two places. Stripping tidies white space in a piece that
ends in the name of a tool tag, where a tag would be over if the text were; and at
the end what is held back is dropped. The second filter does so even when it is
flushed, since the flush goes through the filter that holds the text.

`SourcesKept` and `heldTail` say this of the pieces, `Survives` of a stream.
-/

namespace Shizuha.Agent

open Js Regex

/-! ## Stripping shortens -/

theorem shrinks_finishLine (line : Text) : Shrinks (finishLine line) line.reverse := by
  rw [finishLine]
  split_ifs
  · exact shrinks_of_sublist (List.nil_sublist _)
  · exact .refl _

theorem shrinks_clearBlankLines (line s : Text) :
    Shrinks (clearBlankLines line s) (line.reverse ++ s) := by
  induction s generalizing line with
  | nil =>
      rw [clearBlankLines, List.append_nil]
      exact shrinks_finishLine line
  | cons u s ih =>
      rw [clearBlankLines]
      split_ifs
      · exact (shrinks_finishLine line).append ((Shrinks.refl [u]).append (ih []))
      · have hline := ih (u :: line)
        rwa [List.reverse_cons, List.append_assoc, List.singleton_append] at hline

theorem shrinks_collapseWhitespace (s : Text) : Shrinks (collapseWhitespace s) s := by
  have hblanks : Consumes (Regex.rep true 2 none (.unit isBlank)) 2 :=
    consumes_rep (consumes_unit isBlank) true 2
  have hlines : Consumes (Regex.rep true 3 none (lit (js "\n"))) 3 :=
    consumes_rep (consumes_lit (js "\n")) true 3
  rw [collapseWhitespace]
  refine (Shrinks.trans ?_ (shrinks_trim _))
  refine Shrinks.trans ?_ (shrinks_replaceAll hlines (fun _ => by decide) _)
  refine Shrinks.trans ?_ (shrinks_clearBlankLines [] _)
  exact shrinks_replaceAll hblanks (fun _ => by decide) s

theorem consumes_marker : Consumes MARKER_RE 2 :=
  (consumes_seq (consumes_unit _)
    (consumes_seq (consumes_lit (js "DSML")) (consumes_unit _))).mono (by decide)

theorem consumes_strayTag (name : Text) : Consumes (strayTag name) 2 := by
  have hstart : Consumes (tagStart name) 1 :=
    (consumes_seq (consumes_lit (js "<")) (consumes_zero _)).mono (by decide)
  exact (consumes_seq hstart (consumes_seq (consumes_zero _) (consumes_lit (js ">")))).mono
    (by decide)

theorem shrinks_foldl_blankOut {patterns : List Regex} (h : ∀ r ∈ patterns, Consumes r 2)
    (s : Text) : Shrinks (patterns.foldl (fun text r => blankOut r text) s) s := by
  induction patterns generalizing s with
  | nil => exact .refl s
  | cons r patterns ih =>
      rw [List.forall_mem_cons] at h
      have hblank : Shrinks (blankOut r s) s := shrinks_replaceAll h.1 (fun _ => by decide) s
      exact hblank.trans (ih h.2 _)

theorem shrinks_stripDsmlMarkup (s : Text) : Shrinks (stripDsmlMarkup s) s := by
  have hpatterns : ∀ r ∈ [INVOKE_RE, ANY_TAG_RE, BARE_INVOKE_RE, GROK_TOOL_CALL_RE,
      strayTag (js "invoke"), strayTag (js "parameter"), strayTag (js "tool_call")],
      Consumes r 2 := by
    simp only [List.forall_mem_cons]
    refine ⟨?_, ?_, ?_, ?_, consumes_strayTag _, consumes_strayTag _, consumes_strayTag _,
      fun r hr => by cases hr⟩
    · exact (consumes_seq (consumes_lit (js "<"))
        (consumes_seq consumes_marker (consumes_zero _))).mono (by decide)
    · exact (consumes_seq (consumes_lit (js "<"))
        (consumes_seq (consumes_zero _) (consumes_seq consumes_marker (consumes_zero _)))).mono
          (by decide)
    · exact (consumes_seq (consumes_lit (js "<invoke")) (consumes_zero _)).mono (by decide)
    · exact (consumes_seq (consumes_lit (js "<tool_call>")) (consumes_zero _)).mono (by decide)
  rw [stripDsmlMarkup]
  split_ifs
  · refine Shrinks.trans ?_ (shrinks_collapseWhitespace _)
    refine (shrinks_foldl_blankOut hpatterns s).trans ?_
    exact shrinks_replaceFirst consumes_marker (fun _ => by decide) _
  · exact .refl s

/-! ## What the first filter holds back -/

/-- What is held back of a text. -/
def heldTail (s : Text) : Text := s.drop (incompleteMarkerIndex s)

section

variable {s w : Text}

theorem length_lt_of_couldBecome (h : couldBecomeMarker w = true) : w.length < STREAM_HOLD_MAX := by
  obtain ⟨marker, hmarker, hw⟩ := List.any_eq_true.mp h
  rw [Bool.and_eq_true, startsWith, List.isPrefixOf_iff_prefix, bne_iff_ne] at hw
  have hlt : w.length < marker.length :=
    lt_of_le_of_ne hw.1.length_le fun heq => hw.2 (hw.1.eq_of_length heq)
  have hmax : ∀ marker ∈ STREAM_HOLD_MARKERS, marker.length ≤ STREAM_HOLD_MAX := by decide
  exact hlt.trans_le (hmax marker hmarker)

/-- A part of what could become a marker could, too. -/
theorem couldBecome_append {t : Text} (h : couldBecomeMarker (w ++ t) = true) :
    couldBecomeMarker w = true := by
  obtain ⟨marker, hmarker, hw⟩ := List.any_eq_true.mp h
  refine List.any_eq_true.mpr ⟨marker, hmarker, ?_⟩
  rw [Bool.and_eq_true, startsWith, List.isPrefixOf_iff_prefix, bne_iff_ne] at hw ⊢
  refine ⟨(List.prefix_append w t).trans hw.1, fun heq => hw.2 ?_⟩
  exact hw.1.eq_of_length_le (by rw [← heq, List.length_append]; exact Nat.le_add_right _ _)

theorem heldTail_suffix (s : Text) : heldTail s <:+ s := List.drop_suffix _ s

theorem take_heldTail (s : Text) : s.take (incompleteMarkerIndex s) ++ heldTail s = s :=
  List.take_append_drop _ _

theorem holdDsmlStreamDelta_kept {delta carry : Text}
    (h : stripDsmlMarkup (carry ++ delta) = carry ++ delta) :
    holdDsmlStreamDelta delta carry false =
      ((carry ++ delta).take (incompleteMarkerIndex (carry ++ delta)),
        heldTail (carry ++ delta)) := by
  rw [holdDsmlStreamDelta, h]
  rfl

theorem heldTail_spec (s : Text) :
    (heldTail s = [] ∨ couldBecomeMarker (heldTail s) = true) ∧
      ∀ w, w <:+ s → couldBecomeMarker w = true → w.length ≤ (heldTail s).length := by
  rw [heldTail, incompleteMarkerIndex]
  cases hfind : (List.range' (s.length - STREAM_HOLD_MAX)
      (s.length - (s.length - STREAM_HOLD_MAX))).find? fun i => couldBecomeMarker (s.drop i) with
  | none =>
      rw [Option.getD_none, List.drop_length]
      refine ⟨.inl rfl, fun w hw hcould => ?_⟩
      have hlt := length_lt_of_couldBecome hcould
      have hle := hw.length_le
      by_contra hne
      rw [List.length_nil] at hne
      rw [List.find?_eq_none] at hfind
      refine hfind (s.length - w.length) (List.mem_range'_1.mpr (by omega)) ?_
      rwa [← List.suffix_iff_eq_drop.mp hw]
  | some i =>
      obtain ⟨hi, hmem, hfirst⟩ := List.find?_range'_eq_some.mp hfind
      rw [Option.getD_some]
      refine ⟨.inr hi, fun w hw hcould => ?_⟩
      have hlt := length_lt_of_couldBecome hcould
      have hle := hw.length_le
      have hi' := List.mem_range'_1.mp hmem
      rw [List.length_drop]
      by_contra hne
      have hnot := hfirst (s.length - w.length) (by omega) (by omega)
      rw [← List.suffix_iff_eq_drop.mp hw, hcould] at hnot
      cases hnot

/-- What is held back of a longer text is found from what was held back before. -/
theorem heldTail_append (s delta : Text) : heldTail (heldTail s ++ delta) = heldTail (s ++ delta) := by
  have hsuffix : heldTail s ++ delta <:+ s ++ delta := by
    obtain ⟨front, hfront⟩ := heldTail_suffix s
    exact ⟨front, by rw [← List.append_assoc, hfront]⟩
  have hshort := heldTail_suffix (heldTail s ++ delta)
  have hlong := heldTail_suffix (s ++ delta)
  obtain ⟨hcould, hmost⟩ := heldTail_spec (heldTail s ++ delta)
  obtain ⟨hcould', hmost'⟩ := heldTail_spec (s ++ delta)
  have hle : (heldTail (heldTail s ++ delta)).length ≤ (heldTail (s ++ delta)).length := by
    rcases hcould with hnil | hcould
    · rw [hnil]
      exact Nat.zero_le _
    · exact hmost' _ (hshort.trans hsuffix) hcould
  have hge : (heldTail (s ++ delta)).length ≤ (heldTail (heldTail s ++ delta)).length := by
    rcases hcould' with hnil | hcould'
    · rw [hnil]
      exact Nat.zero_le _
    · refine hmost _ ?_ hcould'
      by_cases hdelta : (heldTail (s ++ delta)).length ≤ delta.length
      · exact (List.suffix_of_suffix_length_le hlong (List.suffix_append s delta) hdelta).trans
          (List.suffix_append _ _)
      · -- what is held back began in front of the delta
        obtain ⟨v, hv⟩ := List.suffix_of_suffix_length_le (List.suffix_append s delta) hlong
          (by omega)
        rw [← hv] at hcould' hlong ⊢
        have hvs : v <:+ s := by
          obtain ⟨front, hfront⟩ := hlong
          rw [← List.append_assoc] at hfront
          exact ⟨front, List.append_cancel_right hfront⟩
        have hvlength := (heldTail_spec s).2 v hvs (couldBecome_append hcould')
        obtain ⟨front, hfront⟩ :=
          List.suffix_of_suffix_length_le hvs (heldTail_suffix s) hvlength
        exact ⟨front, by rw [← List.append_assoc, hfront]⟩
  exact (List.suffix_of_suffix_length_le (hshort.trans hsuffix) hlong hle).eq_of_length
    (le_antisymm hle hge)

end

end Shizuha.Agent

namespace Shizuha.Provider

open Js Agent

/-! ## The tag parser adds nothing -/

/-- What has been yielded as text or is held back. -/
def ThinkDelta.kept (d : ThinkDelta) : ℕ := d.text.flatten.length + d.carry.length

theorem kept_thinkLoop (fuel : ℕ) (thinking : Bool) (s : Text) :
    (thinkLoop fuel thinking s).kept ≤ s.length := by
  induction fuel generalizing thinking s with
  | zero => exact Nat.zero_le _
  | succ fuel ih =>
      have hclose : ∀ {k : ℕ} {reasoning : List Text}, ThinkDelta.kept
          { thinkLoop fuel false (trimStart (s.drop k)) with reasoning } ≤ s.length := by
        intro k reasoning
        have hloop := ih false (trimStart (s.drop k))
        have htrim : (trimStart (s.drop k)).length ≤ (s.drop k).length :=
          List.length_dropWhile_le _ _
        rw [List.length_drop] at htrim
        exact hloop.trans (by omega)
      have hopen : ∀ {k n : ℕ}, k ≤ n → ThinkDelta.kept
          { thinkLoop fuel true (s.drop n) with
            text := piece (s.take k) ++ (thinkLoop fuel true (s.drop n)).text } ≤ s.length := by
        intro k n hkn
        have hloop := ih true (s.drop n)
        rw [ThinkDelta.kept, List.length_drop] at hloop
        rw [ThinkDelta.kept]
        dsimp only
        rw [List.flatten_append, flatten_piece, List.length_append, List.length_take]
        omega
      have hhold : (piece (holdPartialTag s).1).flatten.length + (holdPartialTag s).2.length =
          s.length := by
        rw [flatten_piece, ← List.length_append, holdPartialTag_append]
      rw [thinkLoop]
      split_ifs with hnil hthinking
      · exact Nat.zero_le _
      · cases indexOf thinkClose (lowerCase s) with
        | some closeIdx => exact hclose
        | none =>
            show 0 + (holdPartialTag s).2.length ≤ s.length
            omega
      · cases indexOf thinkOpen (lowerCase s) with
        | none =>
            cases indexOf thinkClose (lowerCase s) with
            | none => exact hhold.le
            | some closeIdx => exact hclose
        | some openIdx =>
            cases indexOf thinkClose (lowerCase s) with
            | none => exact hopen (Nat.le_add_right _ _)
            | some closeIdx =>
                dsimp only
                split_ifs
                · exact hclose
                · exact hopen (Nat.le_add_right _ _)

/-! ## What the tag parser holds back -/

def heldTag (s : Text) : Text := (holdPartialTag s).2

/-- The tail could become a tag. -/
def isPartial (tail : Text) : Bool :=
  tail.isPrefixOf thinkOpen || tail.isPrefixOf thinkClose ||
    (lowerCase tail).isPrefixOf thinkClose || (lowerCase tail).isPrefixOf thinkOpen

section

variable {s x y : Text}

theorem isPartial_append (h : isPartial (x ++ y) = true) : isPartial x = true := by
  have hlower : lowerCase x <+: lowerCase (x ++ y) := by
    rw [lowerCase_append]
    exact List.prefix_append _ _
  simp only [isPartial, Bool.or_eq_true, List.isPrefixOf_iff_prefix] at h ⊢
  rcases h with ((h | h) | h) | h
  · exact .inl (.inl (.inl ((List.prefix_append x y).trans h)))
  · exact .inl (.inl (.inr ((List.prefix_append x y).trans h)))
  · exact .inl (.inr (hlower.trans h))
  · exact .inr (hlower.trans h)

theorem heldTag_of_not_mem (h : 60 ∉ s) : heldTag s = [] := by
  have hnone : lastIndexOf 60 s s.length = none := by
    rw [lastIndexOf, Option.map_eq_none_iff, List.idxOf?_eq_none_iff, List.mem_reverse]
    exact fun hmem => h (List.mem_of_mem_take hmem)
  rw [heldTag, holdPartialTag, hnone]

theorem heldTag_bracket (x : Text) (h : 60 ∉ y) :
    heldTag (x ++ 60 :: y) = if isPartial (60 :: y) then 60 :: y else [] := by
  rw [heldTag, holdPartialTag, lastIndexOf_append h]
  dsimp only
  rw [List.drop_left, isPartial]
  split_ifs <;> rfl

/-- A text without a bracket, or the last one in it. -/
theorem last_bracket (s : Text) : 60 ∉ s ∨ ∃ x y, s = x ++ 60 :: y ∧ 60 ∉ y := by
  induction s with
  | nil => exact .inl List.not_mem_nil
  | cons u s ih =>
      rcases ih with hnone | ⟨x, y, rfl, hy⟩
      · by_cases hu : u = 60
        · exact .inr ⟨[], s, by rw [hu]; rfl, hnone⟩
        · exact .inl (List.not_mem_cons_of_ne_of_not_mem (Ne.symm hu) hnone)
      · exact .inr ⟨u :: x, y, rfl, hy⟩

theorem heldTag_append (s p : Text) : heldTag (heldTag s ++ p) = heldTag (s ++ p) := by
  rcases last_bracket p with hp | ⟨x, y, rfl, hy⟩
  · rcases last_bracket s with hs | ⟨x, y, rfl, hy⟩
    · have hboth : 60 ∉ s ++ p := fun hmem => (List.mem_append.mp hmem).elim hs hp
      rw [heldTag_of_not_mem hs, List.nil_append, heldTag_of_not_mem hp, heldTag_of_not_mem hboth]
    · have hboth : 60 ∉ y ++ p := fun hmem => (List.mem_append.mp hmem).elim hy hp
      have hwhole := heldTag_bracket x hboth
      rw [heldTag_bracket x hy, List.append_assoc, List.cons_append, hwhole]
      split_ifs with hpart hmore hmore
      · have hsame := heldTag_bracket [] hboth
        rwa [List.nil_append, if_pos hmore] at hsame
      · have hsame := heldTag_bracket [] hboth
        rwa [List.nil_append, if_neg hmore] at hsame
      · exact absurd (isPartial_append (x := 60 :: y) (y := p) hmore) hpart
      · rw [List.nil_append, heldTag_of_not_mem hp]
  · rw [← List.append_assoc, ← List.append_assoc, heldTag_bracket _ hy, heldTag_bracket _ hy]

/-- A delta of a text without tags. -/
theorem consume_plain {carry delta : Text} (h : SearchFree false (carry ++ delta)) :
    consumeThinkStreamDelta delta false carry =
      ⟨false, heldTag (carry ++ delta), [], piece (holdPartialTag (carry ++ delta)).1⟩ := by
  rw [consumeThinkStreamDelta]
  by_cases hnil : carry ++ delta = []
  · rw [hnil]
    rfl
  · rw [thinkLoop_none hnil h]
    simp only [ThinkDelta.after, Bool.false_eq_true, if_false, List.append_nil]
    rfl

end

/-! ## The condition -/

/-- Stripping changes no piece: what was held back of the text so far, and the
delta that follows it. -/
def SourcesKept : Text → List Text → Prop
  | _, [] => True
  | seen, delta :: deltas =>
      (delta ≠ [] → stripDsmlMarkup (heldTail seen ++ delta) = heldTail seen ++ delta) ∧
        SourcesKept (seen ++ delta) deltas

/-- What the first filter holds back at the end is flushed as it is, or is nothing. -/
def TailKept (text : Text) : StreamEnd → Prop
  | .finishReason => stripDsmlMarkup (heldTail text) = heldTail text
  | .done | .endOfStream => heldTail text = []

structure Survives (toolsEnabled : Bool) (deltas : List Text) (ending : StreamEnd) : Prop where
  sources : toolsEnabled = true → SourcesKept [] deltas
  tail : toolsEnabled = true → TailKept deltas.flatten ending
  /-- The text does not end in what could become a think tag. -/
  tag : heldTag deltas.flatten = []

/-! ## The stream -/

/-- What has been yielded or is held back. -/
def ContentStream.size (s : ContentStream) : ℕ :=
  s.text.flatten.length + s.thinkCarry.length + s.dsmlCarry.length

/-- The parser has been fed a text. -/
structure Parsed (s : ContentStream) (fed : Text) : Prop where
  out : s.text.flatten ++ s.thinkCarry = fed
  tag : s.thinkCarry = heldTag fed
  thinking : s.inThinkBlock = false

/-- A text has arrived. -/
structure Followed (toolsEnabled : Bool) (s : ContentStream) (seen : Text) : Prop where
  parsed : ∃ fed, Parsed s fed ∧ fed ++ s.dsmlCarry = seen
  dsml : s.dsmlCarry = if toolsEnabled then heldTail seen else []

section

variable {s : ContentStream} {toolsEnabled : Bool} {seen delta held : Text} {deltas : List Text}

theorem size_parse (s : ContentStream) (held : Text) :
    (s.parse held).size ≤ s.size + held.length := by
  have hkept := kept_thinkLoop ((s.thinkCarry ++ held).length + 1) s.inThinkBlock
    (s.thinkCarry ++ held)
  have hlength : (s.thinkCarry ++ held).length = s.thinkCarry.length + held.length :=
    List.length_append
  rw [ThinkDelta.kept] at hkept
  rw [ContentStream.size, ContentStream.size, ContentStream.parse, consumeThinkStreamDelta]
  dsimp only
  rw [List.flatten_append, List.flatten_filter_ne_nil, List.length_append]
  omega

theorem Parsed.parse {fed : Text} (h : Parsed s fed) (hfree : SearchFree false (fed ++ held)) :
    Parsed (s.parse held) (fed ++ held) := by
  have hcarry : s.thinkCarry ++ held = heldTag fed ++ held := by rw [h.tag]
  have hrest : SearchFree false (s.thinkCarry ++ held) := by
    rw [← h.out, List.append_assoc] at hfree
    exact hfree.append.2
  have hparts := holdPartialTag_append (s.thinkCarry ++ held)
  have hparse : s.parse held = { s with
      inThinkBlock := false
      thinkCarry := heldTag (s.thinkCarry ++ held)
      text := s.text ++ (piece (holdPartialTag (s.thinkCarry ++ held)).1).filter (· ≠ []) } := by
    rw [ContentStream.parse, h.thinking, consume_plain hrest, List.filter_nil, List.append_nil]
  rw [hparse]
  refine ⟨?_, ?_, rfl⟩
  · dsimp only
    rw [List.flatten_append, List.flatten_filter_ne_nil, flatten_piece, List.append_assoc, heldTag,
      hparts, ← List.append_assoc, h.out]
  · dsimp only
    rw [hcarry, heldTag_append]

/-- A delta adds its length at most, and less where its piece is stripped. -/
theorem size_delta (s : ContentStream) (toolsEnabled : Bool) (delta : Text) :
    (s.delta toolsEnabled delta).size ≤ s.size + delta.length ∧
      (toolsEnabled = true → delta ≠ [] →
        stripDsmlMarkup (s.dsmlCarry ++ delta) ≠ s.dsmlCarry ++ delta →
        (s.delta toolsEnabled delta).size < s.size + delta.length) := by
  rw [ContentStream.delta]
  split_ifs with hnil htools
  · exact ⟨Nat.le_add_right _ _, fun _ hne => absurd hnil hne⟩
  · have hshrinks := shrinks_stripDsmlMarkup (s.dsmlCarry ++ delta)
    have hheld : (holdDsmlStreamDelta delta s.dsmlCarry false).1.length +
        (holdDsmlStreamDelta delta s.dsmlCarry false).2.length =
          (stripDsmlMarkup (s.dsmlCarry ++ delta)).length := by
      rw [holdDsmlStreamDelta, if_neg Bool.false_ne_true, ← List.length_append,
        List.take_append_drop]
    have hle := hshrinks.length_le
    rw [List.length_append] at hle
    have hsize : ContentStream.size (ContentStream.parse
        { s with dsmlCarry := (holdDsmlStreamDelta delta s.dsmlCarry false).2 }
          (holdDsmlStreamDelta delta s.dsmlCarry false).1) ≤
        s.text.flatten.length + s.thinkCarry.length +
          (holdDsmlStreamDelta delta s.dsmlCarry false).2.length +
            (holdDsmlStreamDelta delta s.dsmlCarry false).1.length := size_parse _ _
    have hbefore : s.size = s.text.flatten.length + s.thinkCarry.length + s.dsmlCarry.length := rfl
    refine ⟨hsize.trans (by omega), fun _ _ hne => hsize.trans_lt ?_⟩
    have hlt := hshrinks.resolve_left hne
    rw [List.length_append] at hlt
    omega
  · have hsize : ContentStream.size (ContentStream.parse { s with dsmlCarry := [] } delta) ≤
        s.text.flatten.length + s.thinkCarry.length + delta.length := size_parse _ _
    have hbefore : s.size = s.text.flatten.length + s.thinkCarry.length + s.dsmlCarry.length := rfl
    exact ⟨hsize.trans (by omega), fun h => absurd h htools⟩

theorem size_foldl (deltas : List Text) (s : ContentStream) :
    (deltas.foldl (ContentStream.delta toolsEnabled) s).size ≤ s.size + deltas.flatten.length := by
  induction deltas generalizing s with
  | nil => exact Nat.le_add_right _ _
  | cons delta deltas ih =>
      have hstep := (size_delta s toolsEnabled delta).1
      have hrest := ih (s.delta toolsEnabled delta)
      rw [List.foldl_cons, List.flatten_cons, List.length_append]
      omega

theorem Followed.size (h : Followed toolsEnabled s seen) : s.size = seen.length := by
  obtain ⟨fed, hparsed, hwhole⟩ := h.parsed
  rw [ContentStream.size, ← List.length_append, hparsed.out, ← List.length_append, hwhole]

theorem followed_delta (h : Followed toolsEnabled s seen)
    (hfree : SearchFree false (seen ++ delta))
    (hkept : toolsEnabled = true → delta ≠ [] →
      stripDsmlMarkup (heldTail seen ++ delta) = heldTail seen ++ delta) :
    Followed toolsEnabled (s.delta toolsEnabled delta) (seen ++ delta) := by
  obtain ⟨fed, hparsed, hwhole⟩ := h.parsed
  have hdsml := h.dsml
  rw [ContentStream.delta]
  split_ifs with hnil htools
  · rwa [hnil, List.append_nil]
  · rw [if_pos htools] at hdsml
    have hheld := holdDsmlStreamDelta_kept (hkept htools hnil)
    rw [← hdsml] at hheld
    have hparts : fed ++ (holdDsmlStreamDelta delta s.dsmlCarry false).1 ++
        (holdDsmlStreamDelta delta s.dsmlCarry false).2 = seen ++ delta := by
      rw [hheld]
      dsimp only
      rw [List.append_assoc, take_heldTail, ← List.append_assoc, hwhole]
    rw [← hparts] at hfree
    have hnext : Parsed { s with dsmlCarry := (holdDsmlStreamDelta delta s.dsmlCarry false).2 } fed :=
      ⟨hparsed.out, hparsed.tag, hparsed.thinking⟩
    refine ⟨⟨_, hnext.parse hfree.append.1, hparts⟩, ?_⟩
    rw [if_pos htools, ← heldTail_append, ← hdsml]
    exact congrArg Prod.snd hheld
  · rw [if_neg htools] at hdsml
    rw [hdsml, List.append_nil] at hwhole
    have hnext : Parsed { s with dsmlCarry := [] } seen := by
      rw [← hwhole]
      exact ⟨hparsed.out, hparsed.tag, hparsed.thinking⟩
    refine ⟨⟨_, hnext.parse hfree, List.append_nil _⟩, ?_⟩
    rw [if_neg htools]
    rfl

/-- The stream is followed to its last delta, unless a piece is stripped. -/
theorem followed_foldl (h : Followed toolsEnabled s seen)
    (hfree : SearchFree false (seen ++ deltas.flatten))
    (hkept : toolsEnabled = true → SourcesKept seen deltas) :
    Followed toolsEnabled (deltas.foldl (ContentStream.delta toolsEnabled) s)
      (seen ++ deltas.flatten) := by
  induction deltas generalizing s seen with
  | nil =>
      rw [List.flatten_nil, List.append_nil]
      exact h
  | cons delta deltas ih =>
      rw [List.flatten_cons, ← List.append_assoc] at hfree ⊢
      exact ih (followed_delta h hfree.append.1 fun htools => (hkept htools).1) hfree
        fun htools => (hkept htools).2

/-- After a piece has been stripped the text is not made up for. -/
theorem size_lt_of_stripped (htools : toolsEnabled = true) (h : Followed toolsEnabled s seen)
    (hfree : SearchFree false (seen ++ deltas.flatten)) (hkept : ¬ SourcesKept seen deltas) :
    (deltas.foldl (ContentStream.delta toolsEnabled) s).size <
      (seen ++ deltas.flatten).length := by
  induction deltas generalizing s seen with
  | nil => exact absurd trivial hkept
  | cons delta deltas ih =>
      rw [List.flatten_cons, ← List.append_assoc] at hfree ⊢
      by_cases hdelta : delta ≠ [] →
          stripDsmlMarkup (heldTail seen ++ delta) = heldTail seen ++ delta
      · exact ih (followed_delta h hfree.append.1 fun _ => hdelta) hfree
          fun hrest => hkept ⟨hdelta, hrest⟩
      · obtain ⟨hne, hstripped⟩ := Classical.not_imp.mp hdelta
        have hdsml := h.dsml
        rw [if_pos htools] at hdsml
        rw [← hdsml] at hstripped
        have hlt := (size_delta s toolsEnabled delta).2 htools hne hstripped
        have hrest : (deltas.foldl (ContentStream.delta toolsEnabled)
            (s.delta toolsEnabled delta)).size ≤
              (s.delta toolsEnabled delta).size + deltas.flatten.length := size_foldl deltas _
        have hsize := h.size
        rw [List.foldl_cons, List.length_append, List.length_append]
        omega

/-! ## The end -/

theorem length_filter_flatten_le (pieces : List Text) (p : Text → Bool) :
    (pieces.filter p).flatten.length ≤ pieces.flatten.length :=
  (List.Sublist.flatten List.filter_sublist).length_le

/-- A block that the flush closes leaves no text. -/
theorem length_closed_le (fuel : ℕ) (carry : Text) :
    (thinkLoop (fuel + 1) true (carry ++ thinkClose)).text.flatten.length ≤ carry.length := by
  have hne : carry ++ thinkClose ≠ [] := List.append_ne_nil_of_right_ne_nil _ (by decide)
  rw [thinkLoop, if_neg hne, if_pos rfl]
  cases indexOf thinkClose (lowerCase (carry ++ thinkClose)) with
  | none => exact Nat.zero_le _
  | some closeIdx =>
      have hkept := kept_thinkLoop fuel false
        (trimStart ((carry ++ thinkClose).drop (closeIdx + thinkClose.length)))
      have htrim : (trimStart ((carry ++ thinkClose).drop
          (closeIdx + thinkClose.length))).length ≤ _ := List.length_dropWhile_le _ _
      rw [List.length_drop, List.length_append] at htrim
      rw [ThinkDelta.kept] at hkept
      dsimp only
      omega

/-- The flush of the parser yields what it held back at most. -/
theorem length_flushThink_le (s : ContentStream) :
    s.flushThink.text.flatten.length ≤ s.text.flatten.length + s.thinkCarry.length := by
  rw [ContentStream.flushThink]
  by_cases hnil : s.thinkCarry = []
  · rw [if_pos hnil]
    exact Nat.le_add_right _ _
  · rw [if_neg hnil]
    dsimp only
    rw [List.flatten_append, List.length_append, consumeThinkStreamDelta]
    refine Nat.add_le_add_left ((length_filter_flatten_le _ _).trans ?_) _
    cases s.inThinkBlock with
    | true =>
        rw [if_pos rfl, List.append_nil]
        exact length_closed_le _ _
    | false =>
        have hkept := kept_thinkLoop (s.thinkCarry.length + 1) false s.thinkCarry
        rw [ThinkDelta.kept] at hkept
        rw [if_neg Bool.false_ne_true, List.append_nil, List.append_nil]
        omega

theorem flushDsml_eq (hne : s.dsmlCarry ≠ []) :
    s.flushDsml = if stripDsmlMarkup s.dsmlCarry = [] then { s with dsmlCarry := [] }
      else ContentStream.parse { s with dsmlCarry := [] } (stripDsmlMarkup s.dsmlCarry) := by
  have hflushed : holdDsmlStreamDelta [] s.dsmlCarry true = (stripDsmlMarkup s.dsmlCarry, []) := by
    rw [holdDsmlStreamDelta, List.append_nil]
    rfl
  rw [ContentStream.flushDsml, if_neg hne, hflushed]

/-- The flush of the first filter adds nothing, and takes what it strips. -/
theorem size_flushDsml (s : ContentStream) :
    s.flushDsml.size ≤ s.size ∧
      (stripDsmlMarkup s.dsmlCarry ≠ s.dsmlCarry → s.flushDsml.size < s.size) := by
  by_cases hnil : s.dsmlCarry = []
  · rw [ContentStream.flushDsml, if_pos hnil]
    refine ⟨le_rfl, fun hne => absurd ?_ hne⟩
    rw [hnil]
    decide
  have hshrinks := shrinks_stripDsmlMarkup s.dsmlCarry
  have hbefore : s.size = s.text.flatten.length + s.thinkCarry.length + s.dsmlCarry.length := rfl
  have hflush : s.flushDsml.size ≤ s.text.flatten.length + s.thinkCarry.length +
      (stripDsmlMarkup s.dsmlCarry).length := by
    rw [flushDsml_eq hnil]
    split_ifs with hempty
    · exact Nat.le_add_right _ _
    · exact size_parse _ _
  have hle := hshrinks.length_le
  refine ⟨hflush.trans (by omega), fun hne => hflush.trans_lt ?_⟩
  have hlt := hshrinks.resolve_left hne
  omega

/-- Both flushes of a text without tags: all of it is yielded but for what the
parser holds back. -/
theorem flushed_eq (h : Followed toolsEnabled s seen) (hfree : SearchFree false seen)
    (htail : toolsEnabled = true → stripDsmlMarkup (heldTail seen) = heldTail seen) :
    s.flushDsml.flushThink.text.flatten ++ heldTag seen = seen := by
  obtain ⟨fed, hparsed, hwhole⟩ := h.parsed
  have hdsml : stripDsmlMarkup s.dsmlCarry = s.dsmlCarry := by
    rw [h.dsml]
    split_ifs with htools
    · exact htail htools
    · decide
  have hflushed : Parsed s.flushDsml seen := by
    by_cases hnil : s.dsmlCarry = []
    · rw [hnil, List.append_nil] at hwhole
      rw [ContentStream.flushDsml, if_pos hnil, ← hwhole]
      exact hparsed
    · have hnext : Parsed { s with dsmlCarry := [] } fed :=
        ⟨hparsed.out, hparsed.tag, hparsed.thinking⟩
      rw [flushDsml_eq hnil, hdsml, if_neg hnil, ← hwhole]
      rw [← hwhole] at hfree
      exact hnext.parse hfree
  generalize s.flushDsml = flushed at hflushed
  have hout := hflushed.out
  rw [hflushed.tag] at hout
  rw [ContentStream.flushThink]
  by_cases hnil : flushed.thinkCarry = []
  · rw [if_pos hnil]
    exact hout
  · -- what is held back is held back again
    have hcarry : SearchFree false (flushed.thinkCarry ++ []) := by
      rw [List.append_nil]
      rw [← hflushed.out] at hfree
      exact hfree.append.2
    have hheld : heldTag flushed.thinkCarry = flushed.thinkCarry := by
      have hagain := heldTag_append seen []
      rw [List.append_nil, List.append_nil] at hagain
      rw [hflushed.tag, hagain]
    have hparts := holdPartialTag_append flushed.thinkCarry
    have hshown : (holdPartialTag flushed.thinkCarry).1 = [] := by
      rw [← heldTag, hheld] at hparts
      exact List.append_left_eq_self.mp hparts
    rw [if_neg hnil]
    dsimp only
    rw [hflushed.thinking, if_neg Bool.false_ne_true, List.append_nil, consume_plain hcarry,
      List.append_nil, hshown]
    rwa [piece, if_pos rfl, List.filter_nil, List.append_nil]

/-- What the end yields is no longer than what has been yielded or is held back. -/
theorem length_finish_le (s : ContentStream) (ending : StreamEnd) :
    (s.finish ending).text.flatten.length ≤ s.size := by
  have hsize : s.size = s.text.flatten.length + s.thinkCarry.length + s.dsmlCarry.length := rfl
  have hstays : s.text.flatten.length ≤ s.size := by omega
  cases ending with
  | finishReason =>
      have hthink := length_flushThink_le s.flushDsml
      have hdsml := (size_flushDsml s).1
      rw [ContentStream.size] at hdsml
      rw [ContentStream.finish]
      omega
  | done => exact hstays
  | endOfStream => exact hstays

/-- A flush that strips leaves less. -/
theorem length_flushed_lt (h : stripDsmlMarkup s.dsmlCarry ≠ s.dsmlCarry) :
    s.flushDsml.flushThink.text.flatten.length < s.size := by
  have hthink := length_flushThink_le s.flushDsml
  have hdsml := (size_flushDsml s).2 h
  rw [ContentStream.size] at hdsml
  omega

/-- Where nothing is flushed, all has been yielded that is not held back. -/
theorem yielded_iff (h : Followed toolsEnabled s seen) :
    s.text.flatten = seen ↔ (toolsEnabled = true → heldTail seen = []) ∧ heldTag seen = [] := by
  obtain ⟨fed, hparsed, hwhole⟩ := h.parsed
  have hdsml := h.dsml
  constructor
  · intro hyielded
    have hsize := h.size
    rw [ContentStream.size, hyielded] at hsize
    have hdsmlCarry : s.dsmlCarry = [] := List.eq_nil_of_length_eq_zero (by omega)
    have hthinkCarry : s.thinkCarry = [] := List.eq_nil_of_length_eq_zero (by omega)
    rw [hdsmlCarry, List.append_nil] at hwhole
    rw [hdsmlCarry] at hdsml
    refine ⟨fun htools => ?_, ?_⟩
    · rw [if_pos htools] at hdsml
      exact hdsml.symm
    · rw [← hwhole, ← hparsed.tag, hthinkCarry]
  · intro ⟨hdsmlHeld, htagHeld⟩
    have hdsmlCarry : s.dsmlCarry = [] := by
      rw [hdsml]
      split_ifs with htools
      · exact hdsmlHeld htools
      · rfl
    rw [hdsmlCarry, List.append_nil] at hwhole
    have hout := hparsed.out
    rwa [hparsed.tag, hwhole, htagHeld, List.append_nil] at hout

/-- The end of a stream that has been followed. -/
theorem finish_iff (h : Followed toolsEnabled s seen) (hfree : SearchFree false seen)
    (ending : StreamEnd) :
    (s.finish ending).text.flatten = seen ↔
      (toolsEnabled = true → TailKept seen ending) ∧ heldTag seen = [] := by
  cases ending with
  | finishReason =>
      rw [ContentStream.finish]
      by_cases htail : toolsEnabled = true → stripDsmlMarkup (heldTail seen) = heldTail seen
      · have hflushed := flushed_eq h hfree htail
        constructor
        · intro hout
          rw [hout] at hflushed
          exact ⟨htail, List.append_right_eq_self.mp hflushed⟩
        · intro hkept
          rwa [hkept.2, List.append_nil] at hflushed
      · obtain ⟨htools, hstripped⟩ := Classical.not_imp.mp htail
        have hdsml := h.dsml
        rw [if_pos htools] at hdsml
        rw [← hdsml] at hstripped
        have hlt := length_flushed_lt hstripped
        rw [h.size] at hlt
        exact ⟨fun hout => absurd (congrArg List.length hout) hlt.ne,
          fun hkept => absurd hkept.1 htail⟩
  | done => exact yielded_iff h
  | endOfStream => exact yielded_iff h

end

/-- A text without a complete think tag comes through a stream as it is exactly
when no piece of it is stripped and its end is not held back. -/
theorem plain_text_survives_iff (toolsEnabled : Bool) (deltas : List Text) (ending : StreamEnd)
    (h : SearchFree false deltas.flatten) :
    (streamContent toolsEnabled deltas ending).flatten = deltas.flatten ↔
      Survives toolsEnabled deltas ending := by
  have hinit : Followed toolsEnabled .init [] := by
    refine ⟨⟨[], ⟨rfl, rfl, rfl⟩, rfl⟩, ?_⟩
    split_ifs <;> rfl
  rw [streamContent]
  by_cases hkept : toolsEnabled = true → SourcesKept [] deltas
  · have hfollowed := followed_foldl hinit h hkept
    have hend := finish_iff hfollowed h ending
    rw [List.nil_append] at hend
    rw [hend]
    exact ⟨fun hheld => ⟨hkept, hheld.1, hheld.2⟩, fun hall => ⟨hall.tail, hall.tag⟩⟩
  · obtain ⟨htools, hstripped⟩ := Classical.not_imp.mp hkept
    have hlt := size_lt_of_stripped htools hinit h hstripped
    rw [List.nil_append] at hlt
    have hle := length_finish_le (deltas.foldl (ContentStream.delta toolsEnabled) .init) ending
    refine ⟨fun hout => ?_, fun hall => absurd hall.sources hkept⟩
    exact absurd (congrArg List.length hout) (hle.trans_lt hlt).ne

theorem plain_text_survives_comparison :
    (streamContent true [js "a <", js " b"] .finishReason).flatten =
        [js "a <", js " b"].flatten ↔
      Survives true [js "a <", js " b"] .finishReason :=
  plain_text_survives_iff true [js "a <", js " b"] .finishReason (by decide +kernel)

/-- A text that ends in a bracket loses it, although the stream is flushed: the
parser is given what it holds back, and holds it back again. -/
theorem last_bracket_lost :
    ¬ ∀ (toolsEnabled : Bool) (deltas : List Text) (ending : StreamEnd),
      SearchFree false deltas.flatten → hasMarkup deltas.flatten = false →
        (streamContent toolsEnabled deltas ending).flatten = deltas.flatten := by
  intro h
  have hlost := h false [js "1 <"] .finishReason (by decide +kernel) (by decide +kernel)
  revert hlost
  decide +kernel

end Shizuha.Provider
