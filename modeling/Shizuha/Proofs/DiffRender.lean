import Mathlib.Data.List.Forall2
import Shizuha.Machine
import Shizuha.Tui.DiffLogUpdate

/-!
# Overwriting in place shows the frame

After every frame that is written, the screen ends in the lines of the frame,
blank below, and nothing above the block was touched. That is what erasing
everything and writing it again would give.

The renderer moves the cursor by what it remembers of it, and a movement that
stops at the edge of the screen would make that wrong. A frame has to fit below
the line its block begins on, unless the block begins at the top of the screen
or the frame is taller than the terminal. A new size is noticed by the next
frame, which begins on an empty screen, whatever the terminal made of the old
lines.
-/

namespace Shizuha.Tui

open Js Terminal

variable {α : Type*} {glyphs : Text → List α} {rows cols col : ℕ}

/-! ## Frames -/

/-- A frame that ends in a newline has an empty text as its last line. -/
theorem nextLines_trailing {str : Text} (h : endsWithNewline str = true) :
    ∃ pieces, nextLines str = pieces ++ [[]] ∧ pieces ≠ [] := by
  obtain ⟨pieces, last, hsplit, hjoin, -, hfree⟩ := splitOn_spec (List.cons_ne_nil newline []) str
  rw [endsWithNewline, beq_iff_eq] at h
  have hlast : last = [] := by
    by_contra hne
    rw [hjoin, rejoin, List.getLast?_append_of_ne_nil _ hne, List.getLast?_eq_some_iff] at h
    obtain ⟨a, ha⟩ := h
    exact hfree a [] (by rw [ha]; rfl)
  subst hlast
  refine ⟨pieces, hsplit, ?_⟩
  rintro rfl
  rw [hjoin] at h
  cases h

theorem nextVisible_pos (str : Text) : 0 < nextVisible str := by
  rw [nextVisible]
  split_ifs with h
  · obtain ⟨pieces, hlines, hne⟩ := nextLines_trailing h
    have hpos := List.length_pos_iff.mpr hne
    rw [hlines, List.length_append, List.length_singleton]
    omega
  · exact List.length_pos_iff.mpr (splitOn_ne_nil _ _)

theorem nextVisible_le (str : Text) : nextVisible str ≤ (nextLines str).length := by
  rw [nextVisible]
  split_ifs
  · exact Nat.sub_le _ _
  · exact Nat.le_refl _

theorem length_visibleLines (str : Text) : (visibleLines str).length = nextVisible str := by
  rw [visibleLines, List.length_take, Nat.min_eq_left (nextVisible_le str)]

/-- Behind the visible lines there is an empty one, or nothing. -/
theorem nextLines_behind {str line : Text} {i : ℕ} (h : (nextLines str)[i]? = some line)
    (hi : nextVisible str ≤ i) : line = [] := by
  obtain ⟨hlt, rfl⟩ := List.getElem?_eq_some_iff.mp h
  rw [nextVisible] at hi
  split_ifs at hi with htrailing
  · obtain ⟨pieces, hlines, -⟩ := nextLines_trailing htrailing
    simp only [hlines, List.length_append, List.length_singleton] at hi hlt ⊢
    rw [List.getElem_append_right (by omega)]
    simp
  · omega

/-! ## Lines written with newlines -/

/-- A line feed, and a line. -/
theorem run_feedLine (rows col : ℕ) (above : List (Row α)) (line : Row α) {below : List (Row α)}
    (text : Text) (hfits : (glyphs text).length < cols) (hbelow : ∀ r ∈ below, r.length = cols) :
    ∃ col', run glyphs ⟨rows, cols, above ++ line :: below, above.length, col⟩
        (.lf :: writeLine text) =
      ⟨rows, cols, (above ++ [line]) ++ shown cols (glyphs text) :: below.drop 1,
        (above ++ [line]).length, col'⟩ := by
  have hnext : (above ++ [line]).length = above.length + 1 := by simp
  rw [run_cons, step, feed, writeLine]
  dsimp only
  cases below with
  | nil =>
      rw [if_neg (by simp), blank]
      dsimp only
      rw [List.append_assoc, ← hnext]
      have hline : (List.replicate cols (none : Option α)).length = cols := List.length_replicate
      have hlines : above ++ ([line] ++ [List.replicate cols none]) =
          (above ++ [line]) ++ List.replicate cols none :: [] := by simp
      rw [show above ++ (line :: [] ++ [List.replicate cols none]) = _ from hlines,
        run_line text hfits hline]
      exact ⟨_, rfl⟩
  | cons next below =>
      rw [if_pos (by simp), ← hnext]
      have hlines : above ++ line :: next :: below = (above ++ [line]) ++ next :: below := by simp
      rw [hlines, run_line text hfits (hbelow next List.mem_cons_self)]
      exact ⟨_, rfl⟩

theorem run_appendLines (rows col : ℕ) (above : List (Row α)) (line : Row α)
    {below : List (Row α)} (lines : List Text) (hfits : ∀ l ∈ lines, (glyphs l).length < cols)
    (hbelow : ∀ r ∈ below, r.length = cols) :
    ∃ col', run glyphs ⟨rows, cols, above ++ line :: below, above.length, col⟩
        (appendLines lines) =
      ⟨rows, cols, above ++ line :: (lines.map fun l => shown cols (glyphs l)) ++
        below.drop lines.length, above.length + lines.length, col'⟩ := by
  induction lines generalizing above line below col with
  | nil => exact ⟨col, by simp [appendLines]⟩
  | cons text lines ih =>
      rw [List.forall_mem_cons] at hfits
      obtain ⟨col₁, hfirst⟩ := run_feedLine rows col above line text hfits.1 hbelow
      obtain ⟨col₂, hrest⟩ := ih col₁ (above ++ [line]) (shown cols (glyphs text)) hfits.2
        fun r hr => hbelow r (List.mem_of_mem_drop hr)
      refine ⟨col₂, ?_⟩
      have hsplit : appendLines (text :: lines) = (.lf :: writeLine text) ++ appendLines lines := rfl
      rw [hsplit, run_append, hfirst, hrest]
      congr 1
      · simp
      · simp only [List.length_append, List.length_cons, List.length_nil]
        omega

theorem writeLines_cons (line : Text) (rest : List Text) :
    writeLines (line :: rest) = writeLine line ++ appendLines rest := by
  induction rest generalizing line with
  | nil => rw [writeLines, appendLines, List.flatMap_nil, List.append_nil]
  | cons next rest ih =>
      rw [writeLines, ih]
      · rfl
      · exact List.cons_ne_nil _ _

theorem run_writeLines (rows col : ℕ) (above : List (Row α)) {below : List (Row α)}
    {lines : List Text} (hlines : lines ≠ []) (hfits : ∀ l ∈ lines, (glyphs l).length < cols)
    (hne : below ≠ [])
    (hbelow : ∀ r ∈ below, r.length = cols) :
    ∃ col', run glyphs ⟨rows, cols, above ++ below, above.length, col⟩ (writeLines lines) =
      ⟨rows, cols, above ++ (lines.map fun l => shown cols (glyphs l)) ++ below.drop lines.length,
        above.length + (lines.length - 1), col'⟩ := by
  obtain ⟨line, rest, rfl⟩ := List.exists_cons_of_ne_nil hlines
  obtain ⟨r, below, rfl⟩ := List.exists_cons_of_ne_nil hne
  rw [List.forall_mem_cons] at hfits hbelow
  obtain ⟨col', hrest⟩ := run_appendLines rows (glyphs line).length above
    (shown cols (glyphs line)) rest hfits.2 hbelow.2
  refine ⟨col', ?_⟩
  rw [writeLines_cons, run_append, writeLine, run_line line hfits.1 hbelow.1, hrest]
  congr 1

/-! ## Lines written over others -/

/-- The line of the frame, or a blank one. -/
def redrawn (glyphs : Text → List α) (cols : ℕ) : Option Text → Row α
  | none => List.replicate cols none
  | some line => shown cols (glyphs line)

/-- The line is what the renderer takes it for. -/
def Known (glyphs : Text → List α) (cols : ℕ) (e : Option Text × Option Text) (line : Row α) :
    Prop :=
  line.length = cols ∧ ∀ prevLine, e.2 = some prevLine → line = shown cols (glyphs prevLine)

theorem run_diffLine (rows col : ℕ) (above below : List (Row α)) {line : Row α}
    {e : Option Text × Option Text} (hknown : Known glyphs cols e line)
    (hfits : ∀ l, e.1 = some l → (glyphs l).length < cols) :
    ∃ col', run glyphs ⟨rows, cols, above ++ line :: below, above.length, col⟩
        (diffLine e.1 e.2) =
      ⟨rows, cols, above ++ redrawn glyphs cols e.1 :: below, above.length, col'⟩ := by
  obtain ⟨hwidth, hprev⟩ := hknown
  cases hnext : e.1 with
  | none =>
      refine ⟨0, ?_⟩
      rw [diffLine, run_cons, run_cons, run_nil, step, step]
      dsimp only
      rw [modify_split, redrawn, blank]
  | some next =>
      rw [diffLine]
      split_ifs with hsame
      · refine ⟨0, ?_⟩
        rw [run_cons, run_nil, step, redrawn, hprev next hsame]
      · refine ⟨(glyphs next).length, ?_⟩
        rw [writeLine, run_line next (hfits next hnext) hwidth, redrawn]

theorem run_diffLines (rows col : ℕ) (above below : List (Row α)) {olds : List (Row α)}
    {es : List (Option Text × Option Text)} (hknown : List.Forall₂ (Known glyphs cols) es olds)
    (hne : es ≠ [])
    (hfits : ∀ e ∈ es, ∀ l, e.1 = some l → (glyphs l).length < cols) :
    ∃ col', run glyphs ⟨rows, cols, above ++ olds ++ below, above.length, col⟩ (diffLines es) =
      ⟨rows, cols, above ++ (es.map fun e => redrawn glyphs cols e.1) ++ below,
        above.length + (es.length - 1), col'⟩ := by
  induction hknown generalizing above col with
  | nil => exact absurd rfl hne
  | @cons e line es olds hfirst hrest ih =>
      rw [List.forall_mem_cons] at hfits
      obtain ⟨col₁, hline⟩ := run_diffLine rows col above (olds ++ below) hfirst hfits.1
      have hlines : above ++ line :: olds ++ below = above ++ line :: (olds ++ below) := by simp
      cases es with
      | nil =>
          cases hrest
          refine ⟨col₁, ?_⟩
          rw [diffLines, hlines, hline]
          simp
      | cons e' es =>
          obtain ⟨old, olds, rfl⟩ : ∃ old rest, olds = old :: rest := by
            cases hrest with
            | cons => exact ⟨_, _, rfl⟩
          obtain ⟨col₂, hmore⟩ := ih col₁ (above ++ [redrawn glyphs cols e.1])
            (List.cons_ne_nil _ _) hfits.2
          refine ⟨col₂, ?_⟩
          have hsplit : diffLines (e :: e' :: es) =
              diffLine e.1 e.2 ++ (.down 1 :: diffLines (e' :: es)) := rfl
          rw [hsplit, run_append, hlines, hline, run_cons, step]
          dsimp only
          have hdown : min (above.length + 1) ((above ++ redrawn glyphs cols e.1 ::
              (old :: olds ++ below)).length - 1) = (above ++ [redrawn glyphs cols e.1]).length := by
            simp only [List.length_append, List.length_cons, List.length_nil]
            omega
          have hnext : above ++ redrawn glyphs cols e.1 :: (old :: olds ++ below) =
              (above ++ [redrawn glyphs cols e.1]) ++ (old :: olds) ++ below := by simp
          rw [hdown, hnext, hmore]
          congr 1
          · simp
          · simp only [List.length_append, List.length_cons, List.length_nil]
            omega

/-! ## What is on the screen -/

/-- The lines of a frame that the terminal has room for. -/
def tailLines (rows : ℕ) (str : Text) : List Text :=
  (visibleLines str).drop (nextVisible str - rows)

/-- A frame that no line of which reaches the last column. -/
def Fits (glyphs : Text → List α) (cols : ℕ) (str : Text) : Prop :=
  ∀ line ∈ visibleLines str, (glyphs line).length < cols

instance (str : Text) : Decidable (Fits glyphs cols str) :=
  inferInstanceAs (Decidable (∀ line ∈ visibleLines str, (glyphs line).length < cols))

/-- What the renderer keeps of a frame. -/
structure Keeps (s : LogUpdate) (rows cols : ℕ) (str : Text) : Prop where
  prevLines : s.prevLines = nextLines str
  prevOutput : s.prevOutput = str
  start : s.prevScreenStart = nextVisible str - rows
  count : s.prevRenderedCount = min (nextVisible str) rows
  realRows : s.prevRealRows = rows
  realCols : s.prevRealCols = cols

/-- The screen ends in the frame, and the cursor is where the renderer has it. -/
structure Shows (glyphs : Text → List α) (t : Terminal α) (s : LogUpdate) (str : Text)
    (past : List (Row α)) (free : ℕ) : Prop where
  rows_pos : 0 < t.rows
  keeps : Keeps s t.rows t.cols str
  fits : Fits glyphs t.cols str
  width : ∀ line ∈ past, line.length = t.cols
  lines : t.lines = past ++ (tailLines t.rows str).map (fun l => shown t.cols (glyphs l)) ++
    List.replicate free (List.replicate t.cols none)
  onScreen : t.lines.length ≤ past.length + t.rows
  tall : t.rows ≤ t.lines.length
  row : t.row = past.length + s.cursorOffset
  inside : t.row < t.lines.length
  covers : s.prevRenderedCount ≤ s.cursorOffset + 1

theorem length_tailLines (rows : ℕ) (str : Text) :
    (tailLines rows str).length = min (nextVisible str) rows := by
  rw [tailLines, List.length_drop, length_visibleLines]
  omega

/-- The lines of a frame from `skip` on that scroll off. -/
def scrolled (rows skip : ℕ) (str : Text) : List Text :=
  ((visibleLines str).drop skip).take (nextVisible str - rows - skip)

theorem scrolled_nil {rows skip : ℕ} {str : Text} (h : nextVisible str - rows ≤ skip) :
    scrolled rows skip str = [] := by
  rw [scrolled, Nat.sub_eq_zero_of_le h, List.take_zero]

theorem scrolled_append {rows skip : ℕ} {str : Text} (h : skip ≤ nextVisible str - rows) :
    scrolled rows skip str ++ tailLines rows str = (visibleLines str).drop skip := by
  have htail : tailLines rows str =
      ((visibleLines str).drop skip).drop (nextVisible str - rows - skip) := by
    rw [tailLines, List.drop_drop]
    congr 1
    omega
  rw [scrolled, htail, List.take_append_drop]

/-- The lines of the frame that are on the terminal end in those that fit. -/
theorem shows_of {s : LogUpdate} {str : Text} {past : List (Row α)} (skip free row col : ℕ)
    (hrows : 0 < rows) (hkeeps : Keeps s rows cols str) (hfits : Fits glyphs cols str)
    (hwidth : ∀ line ∈ past, line.length = cols) (hskip : skip ≤ nextVisible str - rows)
    (hfree : nextVisible str - skip + free ≤ max rows (nextVisible str - skip))
    (htall : rows ≤ past.length + (nextVisible str - skip) + free)
    (hrow : row = past.length + (nextVisible str - rows - skip) + s.cursorOffset)
    (hinside : row < past.length + (nextVisible str - skip) + free)
    (hcovers : min (nextVisible str) rows ≤ s.cursorOffset + 1) :
    Shows glyphs ⟨rows, cols,
      past ++ ((visibleLines str).drop skip).map (fun l => shown cols (glyphs l)) ++
        List.replicate free (List.replicate cols none), row, col⟩ s str
      (past ++ (scrolled rows skip str).map fun l => shown cols (glyphs l)) free := by
  have hdrop := scrolled_append hskip
  have hmore : ((visibleLines str).drop skip).length = nextVisible str - skip := by
    rw [List.length_drop, length_visibleLines]
  have hsome : (scrolled rows skip str).length = nextVisible str - rows - skip := by
    rw [scrolled, List.length_take, hmore]
    omega
  refine ⟨hrows, hkeeps, hfits, ?_, ?_, ?_, ?_, ?_, ?_, hkeeps.count ▸ hcovers⟩
  · intro line hline
    rcases List.mem_append.mp hline with hline | hline
    · exact hwidth line hline
    · obtain ⟨l, hl, rfl⟩ := List.mem_map.mp hline
      have hl' : l ∈ visibleLines str := List.mem_of_mem_drop (List.mem_of_mem_take hl)
      exact length_shown (hfits l hl').le
  · have hall := congrArg (List.map fun l => shown cols (glyphs l)) hdrop
    rw [List.map_append] at hall
    dsimp only
    rw [← hall]
    simp only [List.append_assoc]
  · simp only [List.length_append, List.length_map, List.length_replicate, hmore, hsome]
    omega
  · simp only [List.length_append, List.length_map, List.length_replicate, hmore]
    exact htall
  · simp only [List.length_append, List.length_map, hsome]
    omega
  · simp only [List.length_append, List.length_map, List.length_replicate, hmore]
    exact hinside

/-! ## Each way to render -/

/-- The first frame, and one after the terminal was cleared. -/
theorem shows_first {s : LogUpdate} {str : Text} (col : ℕ) (past : List (Row α)) {line : Row α}
    {free : ℕ} (hrows : 0 < rows) (hkeeps : Keeps s rows cols str) (hfits : Fits glyphs cols str)
    (hwidth : ∀ r ∈ past, r.length = cols) (hline : line.length = cols)
    (hfree : free + 1 ≤ rows) (htall : rows ≤ past.length + free + 1)
    (hoffset : s.cursorOffset = min (nextVisible str - 1) (rows - 1)) :
    ∃ free', Shows glyphs (run glyphs ⟨rows, cols,
        past ++ line :: List.replicate free (List.replicate cols none), past.length, col⟩
      (writeLines (visibleLines str))) s str
        (past ++ (scrolled rows 0 str).map fun l => shown cols (glyphs l)) free' := by
  have hpos := nextVisible_pos str
  have hlength := length_visibleLines str
  have hne : visibleLines str ≠ [] := List.length_pos_iff.mp (by omega)
  have hbelow : ∀ r ∈ line :: List.replicate free (List.replicate cols (none : Option α)),
      r.length = cols := by
    rw [List.forall_mem_cons]
    refine ⟨hline, fun r hr => ?_⟩
    rw [List.eq_of_mem_replicate hr, List.length_replicate]
  obtain ⟨col', hrun⟩ := run_writeLines rows col past hne hfits (List.cons_ne_nil _ _) hbelow
  obtain ⟨n, hn⟩ : ∃ n, nextVisible str = n + 1 := ⟨_, (Nat.succ_pred_eq_of_pos hpos).symm⟩
  rw [hrun, hlength, hn, List.drop_succ_cons, List.drop_replicate]
  exact ⟨free - n, shows_of 0 (free - n) (past.length + n) col' hrows hkeeps hfits hwidth
    (Nat.zero_le _) (by omega) (by omega) (by omega) (by omega) (by omega)⟩

theorem run_upBy {t : Terminal α} (n : ℕ) (h : t.top + n ≤ t.row) :
    run glyphs t (upBy n) = { t with row := t.row - n } := by
  rw [upBy]
  split_ifs with hn
  · rw [run_cons, run_nil, step, Nat.max_eq_right (by omega)]
  · rw [Nat.eq_zero_of_not_pos hn]
    rfl

theorem run_downBy {t : Terminal α} (n : ℕ) (h : t.row + n < t.lines.length) :
    run glyphs t (downBy n) = { t with row := t.row + n } := by
  rw [downBy]
  split_ifs with hn
  · rw [run_cons, run_nil, step, Nat.min_eq_left (by omega)]
  · rw [Nat.eq_zero_of_not_pos hn]
    rfl

variable {t : Terminal α} {s s' : LogUpdate} {prev str : Text} {past : List (Row α)} {free : ℕ}

theorem Shows.length_lines (h : Shows glyphs t s prev past free) :
    t.lines.length = past.length + s.prevRenderedCount + free := by
  rw [h.lines, h.keeps.count]
  simp only [List.length_append, List.length_map, List.length_replicate, length_tailLines]

/-- The cursor goes to the first line of the block. -/
theorem Shows.run_up (h : Shows glyphs t s prev past free) :
    run glyphs t (upBy s.cursorOffset) = { t with row := past.length } := by
  have htop : t.top + s.cursorOffset ≤ t.row := by
    have hscreen := h.onScreen
    have hrow := h.row
    rw [top]
    omega
  have hback : t.row - s.cursorOffset = past.length := by
    have hrow := h.row
    omega
  rw [run_upBy _ htop, hback]

/-- A line of the block is the one the renderer has there. -/
theorem Shows.known (h : Shows glyphs t s prev past free) (hnil : glyphs [] = []) {i : ℕ}
    {line : Row α} (hline : t.lines[past.length + i]? = some line) (hi : i < t.rows)
    (next : Option Text) : Known glyphs t.cols (next, s.prevLine i) line := by
  have hcount := length_tailLines t.rows prev
  rw [h.lines, List.append_assoc, List.getElem?_append_right (Nat.le_add_right _ _),
    Nat.add_sub_cancel_left] at hline
  have hprev : s.prevLine i = (nextLines prev)[nextVisible prev - t.rows + i]? := by
    rw [LogUpdate.prevLine, h.keeps.prevLines, h.keeps.start]
  by_cases hblock : i < min (nextVisible prev) t.rows
  · rw [List.getElem?_append_left (by rw [List.length_map]; omega), List.getElem?_map] at hline
    have htail : (tailLines t.rows prev)[i]? = s.prevLine i := by
      rw [tailLines, List.getElem?_drop, visibleLines, hprev, List.getElem?_take_of_lt (by omega)]
    rw [htail] at hline
    cases hp : s.prevLine i with
    | none =>
        rw [hp] at hline
        cases hline
    | some l =>
        rw [hp] at hline htail
        obtain rfl := Option.some.inj hline
        have hl : l ∈ visibleLines prev := List.mem_of_mem_drop (List.mem_of_getElem? htail)
        refine ⟨length_shown (h.fits l hl).le, fun p hp' => ?_⟩
        obtain rfl := Option.some.inj hp'
        rfl
  · rw [List.getElem?_append_right (by rw [List.length_map]; omega)] at hline
    obtain rfl := List.eq_of_mem_replicate (List.mem_of_getElem? hline)
    refine ⟨List.length_replicate, fun p hp => ?_⟩
    -- behind a frame that fits there is nothing, or the text after its last newline
    rw [hprev] at hp
    rw [nextLines_behind hp (by omega), hnil, shown_nil]

/-- Lines of the block and below it are written over. -/
theorem Shows.run_diff (h : Shows glyphs t s prev past free) (hnil : glyphs [] = [])
    (nexts : ℕ → Option Text) {n : ℕ} (hpos : 0 < n) (hn : n ≤ t.rows)
    (hroom : past.length + n ≤ t.lines.length)
    (hfits : ∀ i l, nexts i = some l → (glyphs l).length < t.cols) :
    ∃ col', run glyphs { t with row := past.length }
        (diffLines ((List.range n).map fun i => (nexts i, s.prevLine i))) =
      ⟨t.rows, t.cols, past ++ ((List.range n).map fun i => redrawn glyphs t.cols (nexts i)) ++
        t.lines.drop (past.length + n), past.length + (n - 1), col'⟩ := by
  have htake : t.lines.take past.length = past := by
    rw [h.lines, List.append_assoc, List.take_left' rfl]
  have holds : ((t.lines.drop past.length).take n).length = n := by
    rw [List.length_take, List.length_drop]
    omega
  have hknown : List.Forall₂ (Known glyphs t.cols)
      ((List.range n).map fun i => (nexts i, s.prevLine i)) ((t.lines.drop past.length).take n) := by
    rw [List.forall₂_iff_get]
    refine ⟨by rw [List.length_map, List.length_range, holds], fun i hi hi' => ?_⟩
    rw [holds] at hi'
    have hline : t.lines[past.length + i]? =
        some (((t.lines.drop past.length).take n).get ⟨i, by omega⟩) := by
      rw [List.get_eq_getElem, List.getElem_take, List.getElem_drop, List.getElem?_eq_getElem]
    have hentry := h.known hnil hline (by omega) (nexts i)
    simpa using hentry
  have hlines : t.lines = past ++ (t.lines.drop past.length).take n ++
      t.lines.drop (past.length + n) := by
    have hall := (List.take_append_drop past.length t.lines).symm
    rwa [htake, ← List.take_append_drop n (t.lines.drop past.length), List.drop_drop,
      ← List.append_assoc] at hall
  obtain ⟨col', hrun⟩ := run_diffLines t.rows t.col past
    (t.lines.drop (past.length + n)) hknown
    (List.ne_nil_of_length_pos (by rw [List.length_map, List.length_range]; exact hpos))
    (fun e he l hl => by
      obtain ⟨i, -, rfl⟩ := List.mem_map.mp he
      exact hfits i l hl)
  refine ⟨col', ?_⟩
  rw [← hlines] at hrun
  rw [show ({ t with row := past.length } : Terminal α) =
    ⟨t.rows, t.cols, t.lines, past.length, t.col⟩ from rfl, hrun, List.map_map, List.length_map,
    List.length_range]
  rfl

/-- Below the block there is nothing. -/
theorem Shows.drop_lines (h : Shows glyphs t s prev past free) {n : ℕ}
    (hn : s.prevRenderedCount ≤ n) : t.lines.drop (past.length + n) =
      List.replicate (free - (n - s.prevRenderedCount)) (List.replicate t.cols none) := by
  have hcount := length_tailLines t.rows prev
  have hsame := h.keeps.count
  rw [h.lines, List.append_assoc, ← List.drop_drop, List.drop_left' rfl, List.drop_append,
    List.drop_of_length_le (by rw [List.length_map]; omega), List.nil_append, List.drop_replicate,
    List.length_map, hcount, hsame]

theorem map_range_getElem? {β γ : Type*} (f : Option β → γ) (l : List β) (k : ℕ) :
    ((List.range (l.length + k)).map fun i => f l[i]?) =
      (l.map fun b => f (some b)) ++ List.replicate k (f none) := by
  apply List.ext_getElem?
  intro i
  rw [List.getElem?_map]
  by_cases hi : i < l.length
  · rw [List.getElem?_range (by omega), List.getElem?_append_left (by rwa [List.length_map]),
      List.getElem?_map, Option.map_some, List.getElem?_eq_getElem hi]
    rfl
  · rw [List.getElem?_append_right (by rw [List.length_map]; omega), List.length_map,
      List.getElem?_replicate]
    by_cases hk : i < l.length + k
    · rw [List.getElem?_range hk, if_pos (by omega), Option.map_some,
        List.getElem?_eq_none (by omega)]
    · rw [if_neg (by omega), List.getElem?_eq_none (by rw [List.length_range]; omega)]
      rfl

/-- The frame has room below the first line of the block. -/
def RoomBelow (t : Terminal α) (first : ℕ) (str : Text) : Prop :=
  first = t.top ∨
    first + nextVisible str + (if endsWithNewline str then 1 else 0) ≤ t.lines.length

instance (t : Terminal α) (first : ℕ) (str : Text) : Decidable (RoomBelow t first str) :=
  inferInstanceAs (Decidable (_ ∨ _))

theorem shows_fitting (h : Shows glyphs t s prev past free) (hnil : glyphs [] = [])
    (hkeeps : Keeps s' t.rows t.cols str) (hfits : Fits glyphs t.cols str)
    (hfitting : nextVisible str ≤ t.rows) (hroom : RoomBelow t past.length str)
    (hoffset : s'.cursorOffset = min
      (if endsWithNewline str then nextVisible str else nextVisible str - 1) (t.rows - 1)) :
    ∃ free', Shows glyphs (run glyphs t (upBy s.cursorOffset ++ s.renderFitting str)) s' str
      past free' := by
  have hpos := nextVisible_pos str
  have hrows := h.rows_pos
  have hcount : s.prevRenderedCount ≤ t.rows := by
    rw [h.keeps.count]
    exact Nat.min_le_right _ _
  have hlength := h.length_lines
  have hscreen := h.onScreen
  have htall := h.tall
  have hlen := length_visibleLines str
  obtain ⟨n, hn⟩ : ∃ n, n = max (nextVisible str) s.prevRenderedCount := ⟨_, rfl⟩
  obtain ⟨more, hmore⟩ : ∃ more, more = if endsWithNewline str then 1 else 0 := ⟨_, rfl⟩
  have htarget : (if endsWithNewline str then nextVisible str else nextVisible str - 1) =
      nextVisible str - 1 + more := by
    rw [hmore]
    split_ifs <;> omega
  rw [RoomBelow, top, ← hmore] at hroom
  rw [htarget] at hoffset
  have hbelow : past.length + n ≤ t.lines.length := by omega
  obtain ⟨col', hdiff⟩ := h.run_diff hnil (fun i => (visibleLines str)[i]?) (n := n) (by omega)
    (by omega) hbelow fun i l hl => hfits l (List.mem_of_getElem? hl)
  -- the lines of the frame, and blank ones
  have hnews : ((List.range n).map fun i => redrawn glyphs t.cols (visibleLines str)[i]?) =
      ((visibleLines str).drop 0).map (fun l => shown t.cols (glyphs l)) ++
        List.replicate (n - nextVisible str) (List.replicate t.cols none) := by
    have hsum : n = (visibleLines str).length + (n - nextVisible str) := by omega
    rw [List.drop_zero]
    nth_rewrite 1 [hsum]
    exact map_range_getElem? (redrawn glyphs t.cols) _ _
  obtain ⟨free', hfree'⟩ : ∃ free', free' = n - nextVisible str + (free - (n - s.prevRenderedCount)) :=
    ⟨_, rfl⟩
  have hlines : past ++ ((List.range n).map fun i => redrawn glyphs t.cols (visibleLines str)[i]?) ++
      t.lines.drop (past.length + n) =
      past ++ ((visibleLines str).drop 0).map (fun l => shown t.cols (glyphs l)) ++
        List.replicate free' (List.replicate t.cols none) := by
    rw [hnews, h.drop_lines (by omega), hfree', List.replicate_add]
    simp only [List.append_assoc]
  rw [hlines] at hdiff
  have hsize : past.length + nextVisible str + free' = t.lines.length := by omega
  have hshows := shows_of 0 free' (past.length + s'.cursorOffset) col' hrows hkeeps hfits h.width
    (Nat.zero_le _) (by omega) (by omega) (by omega) (by omega) (by omega)
  rw [scrolled_nil (by omega), List.map_nil, List.append_nil] at hshows
  refine ⟨free', ?_⟩
  rw [run_append, h.run_up, LogUpdate.renderFitting, run_append, ← hn, hdiff, htarget]
  have hlast : (past ++ ((visibleLines str).drop 0).map (fun l => shown t.cols (glyphs l)) ++
      List.replicate free' (List.replicate t.cols none)).length = t.lines.length := by
    simp only [List.length_append, List.length_map, List.length_drop, List.length_replicate, hlen]
    omega
  split_ifs with hdown
  · rw [run_cons, run_nil, step]
    dsimp only
    have hrow : min (past.length + (n - 1) + (nextVisible str - 1 + more - (n - 1)))
        (t.lines.length - 1) = past.length + s'.cursorOffset := by omega
    rw [hlast, hrow]
    exact hshows
  · have hback : past.length + (n - 1) - (n - 1 - (nextVisible str - 1 + more)) =
        past.length + s'.cursorOffset := by omega
    have hup : t.lines.length - t.rows + (n - 1 - (nextVisible str - 1 + more)) ≤
        past.length + (n - 1) := by omega
    rw [run_upBy _ (by rw [top]; dsimp only; rwa [hlast])]
    dsimp only
    rw [hback]
    exact hshows

/-! ## Frames that are taller than the terminal -/

/-- Lines that come after line `r`. -/
theorem run_appendLines_at {t : Terminal α} {r : ℕ} (hr : r < t.lines.length) (lines : List Text)
    (hfits : ∀ l ∈ lines, (glyphs l).length < t.cols)
    (hbelow : ∀ line ∈ t.lines.drop (r + 1), line.length = t.cols) :
    ∃ col', run glyphs { t with row := r } (appendLines lines) =
      ⟨t.rows, t.cols, t.lines.take (r + 1) ++ (lines.map fun l => shown t.cols (glyphs l)) ++
        t.lines.drop (r + 1 + lines.length), r + lines.length, col'⟩ := by
  have hlength : (t.lines.take r).length = r := by
    rw [List.length_take]
    omega
  obtain ⟨col', hrun⟩ := run_appendLines t.rows t.col (t.lines.take r) t.lines[r]
    lines hfits hbelow
  rw [List.getElem_cons_drop hr, List.take_append_drop, hlength, List.drop_drop] at hrun
  refine ⟨col', ?_⟩
  rw [show ({ t with row := r } : Terminal α) = ⟨t.rows, t.cols, t.lines, r, t.col⟩ from rfl, hrun]
  have htake : t.lines.take (r + 1) = t.lines.take r ++ [t.lines[r]] := by
    rw [List.take_add_one, List.getElem?_eq_getElem hr, Option.toList_some]
  rw [htake]
  simp only [List.append_assoc, List.cons_append, List.nil_append]

theorem Shows.take_lines (h : Shows glyphs t s prev past free) :
    t.lines.take (past.length + s.prevRenderedCount) =
      past ++ (tailLines t.rows prev).map fun l => shown t.cols (glyphs l) := by
  rw [h.lines]
  refine List.take_left' ?_
  rw [List.length_append, List.length_map, length_tailLines, h.keeps.count]

/-- The frame begins with the one before it. -/
theorem shows_appended (h : Shows glyphs t s prev past free)
    (hkeeps : Keeps s' t.rows t.cols str) (hfits : Fits glyphs t.cols str)
    (htallFrame : t.rows < nextVisible str) (hgrows : nextVisible prev < nextVisible str)
    (hbegins : visibleLines prev <+: nextLines str) (hoffset : s'.cursorOffset = t.rows - 1) :
    ∃ free', Shows glyphs (run glyphs
        { t with row := past.length + (s.prevRenderedCount - 1) }
        (appendLines ((visibleLines str).drop (nextVisible prev)))) s' str
      (past ++ (scrolled t.rows (nextVisible prev - t.rows) str).map
        fun l => shown t.cols (glyphs l)) free' := by
  have hpos := nextVisible_pos prev
  have hrows := h.rows_pos
  have hcount := h.keeps.count
  have hlength := h.length_lines
  have hscreen := h.onScreen
  have htall := h.tall
  have hlen := length_visibleLines str
  have hlen' := length_visibleLines prev
  have hbelow : ∀ line ∈ t.lines.drop (past.length + s.prevRenderedCount), line.length = t.cols := by
    intro line hline
    rw [h.drop_lines (Nat.le_refl _)] at hline
    rw [List.eq_of_mem_replicate hline, List.length_replicate]
  have hone : past.length + (s.prevRenderedCount - 1) + 1 = past.length + s.prevRenderedCount := by
    omega
  have hmore : ∀ l ∈ (visibleLines str).drop (nextVisible prev), (glyphs l).length < t.cols :=
    fun l hl => hfits l (List.mem_of_mem_drop hl)
  obtain ⟨col', hrun⟩ := run_appendLines_at (t := t)
    (r := past.length + (s.prevRenderedCount - 1)) (by omega) _ hmore (by rwa [hone])
  have hnew : ((visibleLines str).drop (nextVisible prev)).length =
      nextVisible str - nextVisible prev := by
    rw [List.length_drop, hlen]
  -- the lines that are there and those that come are the end of the frame
  have hvisible : visibleLines prev = (visibleLines str).take (nextVisible prev) := by
    rw [List.prefix_iff_eq_take] at hbegins
    rw [hbegins, hlen', visibleLines, List.take_take, Nat.min_eq_left hgrows.le]
  have hlines : tailLines t.rows prev ++ (visibleLines str).drop (nextVisible prev) =
      (visibleLines str).drop (nextVisible prev - t.rows) := by
    have hall := congrArg (List.drop (nextVisible prev - t.rows))
      (List.take_append_drop (nextVisible prev) (visibleLines str))
    rwa [List.drop_append_of_le_length (by rw [List.length_take, hlen]; omega), ← hvisible] at hall
  rw [hone, h.take_lines, hnew, Nat.add_assoc past.length, h.drop_lines (Nat.le_add_right _ _),
    List.append_assoc past, ← List.map_append, hlines] at hrun
  have hshows := shows_of (nextVisible prev - t.rows)
    (free - (s.prevRenderedCount + (nextVisible str - nextVisible prev) - s.prevRenderedCount))
    (past.length + (s.prevRenderedCount - 1) + (nextVisible str - nextVisible prev)) col' hrows
    hkeeps hfits h.width (by omega) (by omega) (by omega) (by omega) (by omega) (by omega)
  rw [hrun]
  exact ⟨_, hshows⟩

/-- The block is deleted, and the frame written in its place. -/
theorem shows_replaced (h : Shows glyphs t s prev past free)
    (hkeeps : Keeps s' t.rows t.cols str) (hfits : Fits glyphs t.cols str)
    (htallFrame : t.rows < nextVisible str) (hoffset : s'.cursorOffset = t.rows - 1) :
    ∃ free', Shows glyphs (run glyphs { t with row := past.length }
        (.deleteLines s.prevRenderedCount :: .eraseBelow :: writeLines (visibleLines str))) s' str
      (past ++ (scrolled t.rows 0 str).map fun l => shown t.cols (glyphs l)) free' := by
  have hpos := nextVisible_pos prev
  have hrows := h.rows_pos
  have hcount := h.keeps.count
  have hlength := h.length_lines
  have hscreen := h.onScreen
  have htall := h.tall
  obtain ⟨below, hbelow⟩ : ∃ below, free + s.prevRenderedCount = below + 1 :=
    ⟨free + s.prevRenderedCount - 1, by omega⟩
  have htake : t.lines.take past.length = past := by
    rw [h.lines, List.append_assoc, List.take_left' rfl]
  have hdeleted : past ++ t.lines.drop (past.length + s.prevRenderedCount) ++
      List.replicate (min s.prevRenderedCount (t.lines.length - past.length))
        (List.replicate t.cols none) =
      past ++ List.replicate t.cols none :: List.replicate below (List.replicate t.cols none) := by
    rw [h.drop_lines (Nat.le_refl _), Nat.sub_self, Nat.sub_zero, Nat.min_eq_left (by omega),
      List.append_assoc, List.replicate_append_replicate, hbelow, List.replicate_succ]
  have hcleared : run glyphs { t with row := past.length }
      (.deleteLines s.prevRenderedCount :: .eraseBelow :: writeLines (visibleLines str)) =
      run glyphs ⟨t.rows, t.cols, past ++ List.replicate t.cols none ::
        List.replicate below (List.replicate t.cols none), past.length, 0⟩
        (writeLines (visibleLines str)) := by
    have hdelete : step glyphs { t with row := past.length } (.deleteLines s.prevRenderedCount) =
        ⟨t.rows, t.cols, past ++ List.replicate t.cols none ::
          List.replicate below (List.replicate t.cols none), past.length, 0⟩ := by
      rw [← hdeleted, ← htake]
      simp only [step, blank, htake]
    rw [run_cons, run_cons, hdelete, step]
    dsimp only
    rw [modify_split, clearRight, blank]
    dsimp only
    rw [Nat.zero_min, List.take_zero, Nat.sub_zero, List.nil_append]
    congr 2
    have hrest : past.length + (below + 1) - (past.length + 1) = below := by omega
    simp [List.take_append, List.take_of_length_le (Nat.le_succ past.length), hrest]
  rw [hcleared]
  exact shows_first 0 past hrows hkeeps hfits h.width List.length_replicate (by omega) (by omega)
    (by omega)

/-- The frame is no longer than the one before it. -/
theorem shows_tailed (h : Shows glyphs t s prev past free) (hnil : glyphs [] = [])
    (hkeeps : Keeps s' t.rows t.cols str) (hfits : Fits glyphs t.cols str)
    (htallFrame : t.rows < nextVisible str) (hshrinks : nextVisible str ≤ nextVisible prev)
    (hoffset : s'.cursorOffset = t.rows - 1) :
    ∃ free', Shows glyphs (run glyphs { t with row := past.length }
        (diffLines ((List.range t.rows).map fun row =>
          ((nextLines str)[nextVisible str - t.rows + row]?, s.prevLine row)))) s' str past free' := by
  have hrows := h.rows_pos
  have hcount := h.keeps.count
  have hlength := h.length_lines
  have hscreen := h.onScreen
  have htall := h.tall
  have hlen := length_visibleLines str
  have hcols : ∃ line ∈ visibleLines str, (glyphs line).length < t.cols := by
    obtain ⟨line, hline⟩ := List.exists_mem_of_length_pos (by omega : 0 < (visibleLines str).length)
    exact ⟨line, hline, hfits line hline⟩
  obtain ⟨col', hdiff⟩ := h.run_diff hnil
    (fun row => (nextLines str)[nextVisible str - t.rows + row]?) (n := t.rows) hrows (Nat.le_refl _)
    (by omega) fun i l hl => by
      by_cases hi : nextVisible str - t.rows + i < nextVisible str
      · refine hfits l (List.mem_of_getElem? (i := nextVisible str - t.rows + i) ?_)
        rwa [visibleLines, List.getElem?_take_of_lt hi]
      · obtain ⟨line, -, hline⟩ := hcols
        rw [nextLines_behind hl (by omega), hnil, List.length_nil]
        omega
  have hnews : ((List.range t.rows).map fun row => redrawn glyphs t.cols
      (nextLines str)[nextVisible str - t.rows + row]?) =
      ((visibleLines str).drop (nextVisible str - t.rows)).map fun l =>
        shown t.cols (glyphs l) := by
    have hsize : t.rows = ((visibleLines str).drop (nextVisible str - t.rows)).length + 0 := by
      rw [List.length_drop, hlen]
      omega
    have hall := map_range_getElem? (redrawn glyphs t.cols)
      ((visibleLines str).drop (nextVisible str - t.rows)) 0
    rw [← hsize, List.replicate_zero, List.append_nil] at hall
    have hget : ∀ row ∈ List.range t.rows, redrawn glyphs t.cols
        (nextLines str)[nextVisible str - t.rows + row]? = redrawn glyphs t.cols
          ((visibleLines str).drop (nextVisible str - t.rows))[row]? := by
      intro row hrow
      rw [List.mem_range] at hrow
      rw [List.getElem?_drop, visibleLines, List.getElem?_take_of_lt (by omega)]
    rw [List.map_congr_left hget, hall]
    rfl
  rw [hnews, h.drop_lines (by omega)] at hdiff
  have hshows := shows_of (nextVisible str - t.rows)
    (free - (t.rows - s.prevRenderedCount)) (past.length + (t.rows - 1)) col' hrows hkeeps hfits
    h.width (Nat.le_refl _) (by omega) (by omega) (by omega)
    (by omega) (by omega)
  rw [scrolled_nil (Nat.le_refl _), List.map_nil, List.append_nil] at hshows
  rw [hdiff]
  exact ⟨_, hshows⟩

end Shizuha.Tui
