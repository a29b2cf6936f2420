import Mathlib.Tactic.Linarith
import Shizuha.Memory.Index

/-!
# The chunks of a file cover it

The loop keeps the lines that are not in a chunk yet, and a few before them that
are. A segment is what it holds when it cuts (`segments`), and the chunks are
the segments with more than ten units in them (`chunkLines_eq`). The lines held
are always the last ones read, so a segment is a range of the file
(`Held.range`). A cut leaves fewer lines than it found, since what is kept is no
longer than the overlap and what is cut is longer (`length_overlap_lt`): so the
segments start one after the other.
-/

namespace Shizuha.Memory

open Js

/-- The lines from the one number to the other, both included. -/
def lineRange (all : List Text) (startLine endLine : ℕ) : List Text :=
  (all.take endLine).drop (startLine - 1)

/-- What stands on the lines, trimmed. -/
def rangeText (all : List Text) (startLine endLine : ℕ) : Text :=
  trim (join [newline] (lineRange all startLine endLine))

/-- The lines between two cuts, from `freshLine` on, and those before them that
the cut before has left. -/
structure Segment where
  startLine : ℕ
  freshLine : ℕ
  endLine : ℕ

/-- The segments from line `i` on. -/
def segments (maxChars overlapChars : ℚ) : ℕ → List Text → ℕ → List Text → List Segment
  | i, current, freshLine, [] => [⟨i + 1 - current.length, freshLine, i⟩]
  | i, current, freshLine, line :: rest =>
      let current := current ++ [line]
      if maxChars ≤ charsOf current then
        let overlap := (overlapLines overlapChars current.reverse).reverse
        ⟨i + 2 - current.length, freshLine, i + 1⟩ ::
          segments maxChars overlapChars (i + 1) overlap (i + 2) rest
      else segments maxChars overlapChars (i + 1) current freshLine rest

def segmentsOf (content : Text) (maxChars overlapChars : ℚ) : List Segment :=
  segments maxChars overlapChars 0 [] 1 (lines content)

/-! ## The overlap -/

theorem charsOf_append (a b : List Text) : charsOf (a ++ b) = charsOf a + charsOf b := by
  simp [charsOf]

theorem charsOf_reverse (ls : List Text) : charsOf ls.reverse = charsOf ls := by
  simp [charsOf]

theorem overlapLines_prefix (room : ℚ) (ls : List Text) : overlapLines room ls <+: ls := by
  induction ls generalizing room with
  | nil => exact List.prefix_refl []
  | cons line rest ih =>
      rw [overlapLines]
      split_ifs
      · exact List.nil_prefix
      · exact List.cons_prefix_cons.mpr ⟨rfl, ih _⟩

theorem charsOf_overlapLines {room : ℚ} (h : 0 ≤ room) (ls : List Text) :
    (charsOf (overlapLines room ls) : ℚ) ≤ room := by
  induction ls generalizing room with
  | nil => simpa [overlapLines, charsOf] using h
  | cons line rest ih =>
      rw [overlapLines]
      split_ifs with hroom
      · simpa [charsOf] using h
      · have hroom' : 0 ≤ room - (line.length + 1) := by linarith
        have hrest := ih hroom'
        have hcons : (charsOf (line :: overlapLines (room - (line.length + 1)) rest) : ℚ)
            = line.length + 1 + charsOf (overlapLines (room - (line.length + 1)) rest) := by
          simp [charsOf]
        rw [hcons]
        linarith

/-- What is kept of lines that are too many is fewer lines. -/
theorem length_overlap_lt {maxChars overlapChars : ℚ} (hpos : 0 ≤ overlapChars)
    (hlt : overlapChars < maxChars) {ls : List Text} (h : maxChars ≤ charsOf ls) :
    (overlapLines overlapChars ls.reverse).length < ls.length := by
  have hprefix := overlapLines_prefix overlapChars ls.reverse
  have hle := hprefix.length_le
  rw [List.length_reverse] at hle
  refine lt_of_le_of_ne hle fun heq => ?_
  have hall := hprefix.eq_of_length (by rw [heq, List.length_reverse])
  have hfits := charsOf_overlapLines hpos ls.reverse
  rw [hall, charsOf_reverse] at hfits
  linarith

/-! ## The lines held -/

/-- The lines held are the last of those read, and all since the last cut are
among them. -/
structure Held (read current : List Text) (startLine freshLine : ℕ) : Prop where
  suffix : current <:+ read
  start : startLine + current.length = read.length + 1
  fresh : startLine ≤ freshLine
  read : freshLine ≤ read.length + 1

theorem Held.one_le {read current : List Text} {startLine freshLine : ℕ}
    (h : Held read current startLine freshLine) : 1 ≤ startLine := by
  have hle := h.suffix.length_le
  have hstart := h.start
  omega

theorem Held.range {read current : List Text} {startLine freshLine : ℕ}
    (h : Held read current startLine freshLine) (rest : List Text) :
    lineRange (read ++ rest) startLine read.length = current := by
  have hone := h.one_le
  have hstart := h.start
  obtain ⟨before, rfl⟩ := h.suffix
  rw [List.length_append] at hstart
  have hbefore : startLine - 1 = before.length := by omega
  rw [lineRange, List.take_left, hbefore, List.drop_left]

theorem Held.push {read current : List Text} {startLine freshLine : ℕ}
    (h : Held read current startLine freshLine) (line : Text) :
    Held (read ++ [line]) (current ++ [line]) startLine freshLine where
  suffix := by
    obtain ⟨before, rfl⟩ := h.suffix
    exact ⟨before, by rw [List.append_assoc]⟩
  start := by
    have hstart := h.start
    rw [List.length_append, List.length_append]
    omega
  fresh := h.fresh
  read := by
    have hread := h.read
    rw [List.length_append]
    omega

theorem Held.cut {read current : List Text} {startLine freshLine : ℕ}
    (h : Held read current startLine freshLine) (overlapChars : ℚ) :
    Held read (overlapLines overlapChars current.reverse).reverse
      (read.length + 1 - (overlapLines overlapChars current.reverse).reverse.length)
      (read.length + 1) := by
  have hprefix := overlapLines_prefix overlapChars current.reverse
  have hsuffix : (overlapLines overlapChars current.reverse).reverse <:+ current := by
    rw [← List.reverse_prefix, List.reverse_reverse]
    exact hprefix
  have hle := (hsuffix.trans h.suffix).length_le
  exact ⟨hsuffix.trans h.suffix, by omega, by omega, le_refl _⟩

/-! ## The chunks are the long segments -/

variable {sha256Hex : Text → Text} {maxChars overlapChars : ℚ}

/-- What a segment leaves. -/
def segmentChunk (sha256Hex : Text → Text) (all : List Text) (g : Segment) : List ChunkInfo :=
  chunkOf sha256Hex (lineRange all g.startLine g.endLine) g.startLine g.endLine

theorem chunkLines_eq {read current rest : List Text} {startLine freshLine : ℕ}
    (h : Held read current startLine freshLine) :
    chunkLines sha256Hex maxChars overlapChars read.length current startLine rest =
      (segments maxChars overlapChars read.length current freshLine rest).flatMap
        (segmentChunk sha256Hex (read ++ rest)) := by
  induction rest generalizing read current startLine freshLine with
  | nil =>
      have hstart : read.length + 1 - current.length = startLine := by
        have hstart := h.start
        omega
      rw [chunkLines, segments, List.flatMap_singleton, segmentChunk, hstart, h.range []]
  | cons line rest ih =>
      have hpush := h.push line
      have hlength : (read ++ [line]).length = read.length + 1 := by simp
      have hall : read ++ line :: rest = (read ++ [line]) ++ rest := by simp
      rw [chunkLines, segments]
      dsimp only
      split_ifs with hcut
      · have hheld := hpush.cut overlapChars
        rw [hlength] at hheld
        have hrest := ih hheld
        have hstart : read.length + 2 - (current ++ [line]).length = startLine := by
          have hstart := hpush.start
          omega
        rw [List.flatMap_cons, segmentChunk, hstart, hall, ← hlength, hpush.range rest, hlength]
        rw [hlength] at hrest
        rw [hrest]
      · have hrest := ih hpush
        rw [hlength] at hrest
        rw [hall, hrest]

/-! ## The segments, one after the other -/

/-- Where a segment may be, of a file with `n` lines. -/
structure Segment.Within (g : Segment) (startLine endLine n : ℕ) : Prop where
  start : startLine ≤ g.startLine
  fresh : g.startLine ≤ g.freshLine
  after : endLine ≤ g.endLine
  within : g.endLine ≤ n

theorem segments_within (hpos : 0 ≤ overlapChars) (hlt : overlapChars < maxChars)
    {read current rest : List Text} {startLine freshLine : ℕ}
    (h : Held read current startLine freshLine) :
    ∀ g ∈ segments maxChars overlapChars read.length current freshLine rest,
      g.Within startLine read.length (read ++ rest).length := by
  induction rest generalizing read current startLine freshLine with
  | nil =>
      intro g hg
      have hstart := h.start
      have hfresh := h.fresh
      rw [segments, List.mem_singleton] at hg
      rw [hg, List.append_nil]
      exact ⟨show startLine ≤ read.length + 1 - current.length by omega,
        show read.length + 1 - current.length ≤ freshLine by omega, le_refl _, le_refl _⟩
  | cons line rest ih =>
      intro g hg
      have hpush := h.push line
      have hlength : (read ++ [line]).length = read.length + 1 := by simp
      have hall : read ++ line :: rest = (read ++ [line]) ++ rest := by simp
      have hle : read.length + 1 ≤ ((read ++ [line]) ++ rest).length := by
        rw [List.length_append, hlength]
        omega
      rw [segments] at hg
      dsimp only at hg
      rw [hall]
      split_ifs at hg with hcut
      · have hstart := hpush.start
        have hfresh := hpush.fresh
        rcases List.mem_cons.mp hg with hg | hg
        · rw [hg]
          exact ⟨show startLine ≤ read.length + 2 - (current ++ [line]).length by omega,
            show read.length + 2 - (current ++ [line]).length ≤ freshLine by omega,
            show read.length ≤ read.length + 1 by omega, hle⟩
        · have hheld := hpush.cut overlapChars
          have hshort := length_overlap_lt hpos hlt hcut
          rw [hlength] at hheld
          have hin := ih hheld g (by rwa [hlength])
          have hlater := hin.start
          have hafter := hin.after
          rw [List.length_reverse] at hlater
          rw [hlength] at hafter
          exact ⟨by omega, hin.fresh, by omega, hin.within⟩
      · have hin := ih hpush g (by rwa [hlength])
        have hafter := hin.after
        rw [hlength] at hafter
        exact ⟨hin.start, hin.fresh, by omega, hin.within⟩

theorem segments_sorted (hpos : 0 ≤ overlapChars) (hlt : overlapChars < maxChars)
    {read current rest : List Text} {startLine freshLine : ℕ}
    (h : Held read current startLine freshLine) :
    (segments maxChars overlapChars read.length current freshLine rest).Pairwise fun a b =>
      a.startLine < b.startLine ∧ a.endLine ≤ b.endLine := by
  induction rest generalizing read current startLine freshLine with
  | nil => exact List.pairwise_singleton _ _
  | cons line rest ih =>
      have hpush := h.push line
      have hlength : (read ++ [line]).length = read.length + 1 := by simp
      rw [segments]
      dsimp only
      split_ifs with hcut
      · have hheld := hpush.cut overlapChars
        have hshort := length_overlap_lt hpos hlt hcut
        have hstart := hpush.start
        rw [hlength] at hheld hstart
        refine List.pairwise_cons.mpr ⟨fun g hg => ?_, by simpa only [hlength] using ih hheld⟩
        -- The next one keeps fewer lines than this one holds.
        have hin := segments_within hpos hlt hheld g (by rwa [hlength])
        have hlater := hin.start
        have hafter := hin.after
        rw [List.length_reverse] at hlater
        rw [hlength] at hafter
        exact ⟨show read.length + 2 - (current ++ [line]).length < g.startLine by omega, hafter⟩
      · simpa only [hlength] using ih hpush

/-- Every line read since the last cut comes in one of them. -/
theorem segments_tile {read current rest : List Text} {startLine freshLine k : ℕ}
    (h : Held read current startLine freshLine) (hfresh : freshLine ≤ k)
    (hk : k ≤ (read ++ rest).length) :
    ∃ g ∈ segments maxChars overlapChars read.length current freshLine rest,
      g.freshLine ≤ k ∧ k ≤ g.endLine := by
  induction rest generalizing read current startLine freshLine with
  | nil =>
      rw [List.append_nil] at hk
      exact ⟨_, List.mem_singleton_self _, hfresh, hk⟩
  | cons line rest ih =>
      have hpush := h.push line
      have hlength : (read ++ [line]).length = read.length + 1 := by simp
      have hall : read ++ line :: rest = (read ++ [line]) ++ rest := by simp
      rw [hall] at hk
      rw [segments]
      dsimp only
      split_ifs with hcut
      · by_cases hhere : k ≤ read.length + 1
        · exact ⟨_, List.mem_cons_self, hfresh, hhere⟩
        · have hheld := hpush.cut overlapChars
          rw [hlength] at hheld
          obtain ⟨g, hg, hin⟩ := ih hheld (by omega) hk
          rw [hlength] at hg
          exact ⟨g, List.mem_cons_of_mem _ hg, hin⟩
      · obtain ⟨g, hg, hin⟩ := ih hpush hfresh hk
        rw [hlength] at hg
        exact ⟨g, hg, hin⟩

/-! ## A part of a text is no longer than the text, trimmed -/

theorem dropWhile_keeps {p t : Text} (hhead : ∀ u ∈ t.head?, isSpace u = false) :
    ∃ p', (p ++ t).dropWhile isSpace = p' ++ t := by
  rw [List.dropWhile_append]
  split_ifs
  · exact ⟨[], dropWhile_eq_self_of_head hhead⟩
  · exact ⟨_, rfl⟩

theorem trim_keeps {t : Text} (ht : t ≠ []) (h : Trimmed t) (p q : Text) :
    ∃ p' q', trim (p ++ (t ++ q)) = p' ++ (t ++ q') := by
  have hhead : ∀ u ∈ (t ++ q).head?, isSpace u = false := by
    intro u hu
    rw [List.head?_append_of_ne_nil _ ht] at hu
    exact h.head u hu
  obtain ⟨p', hp'⟩ := dropWhile_keeps (p := p) hhead
  have hlast : ∀ u ∈ (t.reverse ++ p'.reverse).head?, isSpace u = false := by
    intro u hu
    rw [List.head?_append_of_ne_nil _ (by simpa using ht), List.head?_reverse] at hu
    exact h.last u hu
  obtain ⟨q', hq'⟩ := dropWhile_keeps (p := q.reverse) hlast
  refine ⟨p', q'.reverse, ?_⟩
  rw [trim, hp', List.rdropWhile, List.reverse_append, List.reverse_append, List.append_assoc, hq']
  simp

theorem length_trim_append_le (a b : Text) : (trim b).length ≤ (trim (a ++ b)).length := by
  by_cases hb : trim b = []
  · rw [hb]
    exact Nat.zero_le _
  · obtain ⟨p, hp⟩ := List.dropWhile_suffix (l := b) isSpace
    obtain ⟨q, hq⟩ := List.rdropWhile_prefix isSpace (b.dropWhile isSpace)
    have hsplit : a ++ b = (a ++ p) ++ (trim b ++ q) := by
      rw [trim, hq, List.append_assoc, hp]
    obtain ⟨p', q', hkeeps⟩ := trim_keeps hb (trim_trimmed b) (a ++ p) q
    rw [hsplit, hkeeps, List.length_append, List.length_append]
    omega

theorem join_suffix {part all : List Text} (h : part <:+ all) :
    join [newline] part <:+ join [newline] all := by
  obtain ⟨before, rfl⟩ := h
  induction before with
  | nil => exact List.suffix_refl _
  | cons line before ih =>
      cases hrest : before ++ part with
      | nil =>
          obtain ⟨-, rfl⟩ := List.append_eq_nil_iff.mp hrest
          exact List.nil_suffix
      | cons next rest =>
          rw [hrest] at ih
          have hcons : join [newline] (line :: next :: rest) =
              line ++ [newline] ++ join [newline] (next :: rest) :=
            List.intercalate_cons_cons
          rw [List.cons_append, hrest, hcons]
          exact ih.trans (List.suffix_append _ _)

/-- Later lines of a range are no more text. -/
theorem length_rangeText_le (all : List Text) {startLine freshLine : ℕ} (hone : 1 ≤ startLine)
    (h : startLine ≤ freshLine) (endLine : ℕ) :
    (rangeText all freshLine endLine).length ≤ (rangeText all startLine endLine).length := by
  have hsuffix : lineRange all freshLine endLine <:+ lineRange all startLine endLine := by
    have hsplit : freshLine - 1 = (startLine - 1) + (freshLine - startLine) := by omega
    rw [lineRange, lineRange, hsplit, ← List.drop_drop]
    exact List.drop_suffix _ _
  obtain ⟨before, hbefore⟩ := join_suffix hsuffix
  rw [rangeText, rangeText, ← hbefore]
  exact length_trim_append_le _ _

/-! ## The cover -/

/-- Each chunk is what stands on its lines, they come one after the other, and a
line that is in none was between two cuts with next to nothing between them. -/
structure Covers (content : Text) (segs : List Segment) (chunks : List ChunkInfo) : Prop where
  inside : ∀ c ∈ chunks, 1 ≤ c.startLine ∧ c.startLine ≤ c.endLine ∧
    c.endLine ≤ (lines content).length ∧ c.text = rangeText (lines content) c.startLine c.endLine
  sorted : chunks.Pairwise fun a b => a.startLine < b.startLine ∧ a.endLine ≤ b.endLine
  dropped : ∀ k, 1 ≤ k → k ≤ (lines content).length →
    (∀ c ∈ chunks, ¬ (c.startLine ≤ k ∧ k ≤ c.endLine)) →
      ∃ g ∈ segs, g.freshLine ≤ k ∧ k ≤ g.endLine ∧
        (rangeText (lines content) g.startLine g.endLine).length ≤ 10 ∧
        (rangeText (lines content) g.freshLine g.endLine).length ≤ 10

/-- A chunk is there if the text is long enough, and is what the range says. -/
theorem mem_segmentChunk {all : List Text} {g : Segment} {c : ChunkInfo} :
    c ∈ segmentChunk sha256Hex all g ↔ 10 < (rangeText all g.startLine g.endLine).length ∧
      c = ⟨g.startLine, g.endLine, rangeText all g.startLine g.endLine,
        (sha256Hex (rangeText all g.startLine g.endLine)).take 16⟩ := by
  rw [segmentChunk, chunkOf, ← rangeText]
  split_ifs with hlong <;> simp [hlong]

theorem lineRange_of_lt {all : List Text} {startLine endLine : ℕ} (h : endLine < startLine) :
    rangeText all startLine endLine = [] := by
  have hnone : lineRange all startLine endLine = [] := by
    rw [lineRange, List.drop_eq_nil_iff, List.length_take]
    omega
  rw [rangeText, hnone]
  rfl

theorem chunks_cover (sha256Hex : Text → Text) (content : Text) (maxChars overlapChars : ℚ)
    (hpos : 0 ≤ overlapChars) (hlt : overlapChars < maxChars) :
    Covers content (segmentsOf content maxChars overlapChars)
      (chunkMarkdown sha256Hex content maxChars overlapChars) := by
  have hheld : Held [] [] 1 1 := ⟨List.suffix_refl [], rfl, le_refl 1, le_refl 1⟩
  have hchunks : chunkMarkdown sha256Hex content maxChars overlapChars =
      (segmentsOf content maxChars overlapChars).flatMap
        (segmentChunk sha256Hex (lines content)) := chunkLines_eq hheld
  have hwithin : ∀ g ∈ segmentsOf content maxChars overlapChars,
      g.Within 1 0 (lines content).length := segments_within hpos hlt hheld
  rw [hchunks]
  refine ⟨fun c hc => ?inside, ?sorted, fun k hk hkn hnone => ?dropped⟩
  case inside =>
    obtain ⟨g, hg, hcg⟩ := List.mem_flatMap.mp hc
    obtain ⟨hlong, rfl⟩ := mem_segmentChunk.mp hcg
    have hin := hwithin g hg
    refine ⟨hin.start, ?_, hin.within, rfl⟩
    by_contra hbefore
    rw [lineRange_of_lt (not_le.mp hbefore)] at hlong
    exact absurd hlong (by simp)
  case sorted =>
    rw [List.pairwise_flatMap]
    constructor
    · intro g _
      rw [segmentChunk, chunkOf]
      split_ifs
      · exact List.pairwise_singleton _ _
      · exact List.Pairwise.nil
    · refine (segments_sorted hpos hlt hheld).imp fun {a b} hab c hc d hd => ?_
      obtain ⟨-, rfl⟩ := mem_segmentChunk.mp hc
      obtain ⟨-, rfl⟩ := mem_segmentChunk.mp hd
      exact hab
  case dropped =>
    have htile : ∃ g ∈ segmentsOf content maxChars overlapChars,
        g.freshLine ≤ k ∧ k ≤ g.endLine := segments_tile hheld hk hkn
    obtain ⟨g, hg, hfresh, hend⟩ := htile
    have hin := hwithin g hg
    have hshort : (rangeText (lines content) g.startLine g.endLine).length ≤ 10 := by
      by_contra hlong
      refine hnone _ (List.mem_flatMap.mpr
        ⟨g, hg, mem_segmentChunk.mpr ⟨not_le.mp hlong, rfl⟩⟩) ⟨?_, hend⟩
      exact le_trans hin.fresh hfresh
    exact ⟨g, hg, hfresh, hend, hshort,
      le_trans (length_rangeText_le _ hin.start hin.fresh g.endLine) hshort⟩

theorem chunks_cover_notes :
    Covers (js "# Notes\n\n- the first\n- the second\n") (segmentsOf
      (js "# Notes\n\n- the first\n- the second\n") 16 5)
      (chunkMarkdown id (js "# Notes\n\n- the first\n- the second\n") 16 5) :=
  chunks_cover id _ 16 5 (by norm_num) (by norm_num)

end Shizuha.Memory
