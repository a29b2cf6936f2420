import Shizuha.Proofs.DiffRender

/-!
# Frames over a run

A run takes frames, sizes and the calls between them in any order. Its
invariant has three cases: no frame was written yet and nothing is below the
cursor, the screen ends in the last frame, or the terminal has a new size that
the next frame will notice.
-/

namespace Shizuha.Tui

open Js Terminal
open Machine (Along)

variable {α : Type*} {glyphs : Text → List α} {d : Display α} {s : LogUpdate} {t : Terminal α}
  {str : Text} {rows cols : ℕ}

/-! ## What a frame leaves in the renderer -/

theorem keeps_render (hnew : ¬ (str = s.prevOutput ∧ s.cursorDirty = false)) :
    Keeps (s.render rows cols str).1 rows cols str := by
  have hplaced : (s.renderFrame rows cols str).2.prevScreenStart = nextVisible str - rows ∧
      (s.renderFrame rows cols str).2.prevRenderedCount = min (nextVisible str) rows := by
    rw [LogUpdate.renderFrame, LogUpdate.renderNext, firstRender]
    split_ifs <;> dsimp only <;> omega
  rw [LogUpdate.render, if_neg hnew]
  exact ⟨rfl, rfl, hplaced.1, hplaced.2, rfl, rfl⟩

theorem renderFrame_first (h : s.sizeChanged rows cols = true ∨ s.prevRenderedCount = 0) :
    s.renderFrame rows cols str = firstRender rows str := by
  rw [LogUpdate.renderFrame, if_pos h]

theorem renderFrame_next (hsize : s.sizeChanged rows cols = false)
    (hcount : s.prevRenderedCount ≠ 0) :
    s.renderFrame rows cols str = s.renderNext rows str := by
  rw [LogUpdate.renderFrame, if_neg]
  rintro (h | h)
  · rw [hsize] at h
    cases h
  · exact hcount h

theorem Shows.count_pos {past : List (Row α)} {free : ℕ} (h : Shows glyphs t s str past free) :
    s.prevRenderedCount ≠ 0 := by
  have hpos := nextVisible_pos str
  have hrows := h.rows_pos
  rw [h.keeps.count]
  omega

/-! ## The terminal before the first frame -/

/-- Nothing is below the cursor. -/
structure Ready (t : Terminal α) : Prop where
  rows_pos : 0 < t.rows
  tall : t.rows ≤ t.lines.length
  onScreen : t.top ≤ t.row
  inside : t.row < t.lines.length
  width : ∀ line ∈ t.lines, line.length = t.cols
  below : t.lines.drop (t.row + 1) = List.replicate (t.lines.length - (t.row + 1)) t.blank

theorem Ready.shows_first {s' : LogUpdate} (h : Ready t) (hkeeps : Keeps s' t.rows t.cols str)
    (hfits : Fits glyphs t.cols str)
    (hoffset : s'.cursorOffset = min (nextVisible str - 1) (t.rows - 1)) :
    ∃ free, Shows glyphs (run glyphs t (writeLines (visibleLines str))) s' str
      (t.lines.take t.row ++ (scrolled t.rows 0 str).map fun l => shown t.cols (glyphs l)) free := by
  have hscreen := h.onScreen
  have hinside := h.inside
  have htall := h.tall
  rw [top] at hscreen
  have hlength : (t.lines.take t.row).length = t.row := by
    rw [List.length_take]
    omega
  have hsplit : t.lines = t.lines.take t.row ++ t.lines[t.row] ::
      List.replicate (t.lines.length - (t.row + 1)) (List.replicate t.cols none) := by
    have hbelow := h.below
    rw [blank] at hbelow
    rw [← hbelow, List.getElem_cons_drop hinside, List.take_append_drop]
  have hwidth : ∀ line ∈ t.lines.take t.row, line.length = t.cols :=
    fun line hline => h.width line (List.mem_of_mem_take hline)
  have hfree : t.lines.length - (t.row + 1) + 1 ≤ t.rows := by omega
  have hroom : t.rows ≤ (t.lines.take t.row).length + (t.lines.length - (t.row + 1)) + 1 := by omega
  obtain ⟨free, hshows⟩ := Tui.shows_first t.col (t.lines.take t.row) h.rows_pos hkeeps hfits
    hwidth (h.width _ (List.getElem_mem hinside)) hfree hroom hoffset
  rw [← hsplit, hlength] at hshows
  exact ⟨free, hshows⟩

theorem Shows.ready {past : List (Row α)} {free : ℕ} (h : Shows glyphs t s str past free) :
    Ready t := by
  have hrow := h.row
  have hlength := h.length_lines
  have hcovers := h.covers
  refine ⟨h.rows_pos, h.tall, ?_, h.inside, ?_, ?_⟩
  · have hscreen := h.onScreen
    rw [top]
    omega
  · intro line hline
    rw [h.lines, List.mem_append, List.mem_append] at hline
    rcases hline with (hline | hline) | hline
    · exact h.width line hline
    · obtain ⟨l, hl, rfl⟩ := List.mem_map.mp hline
      exact length_shown (h.fits l (List.mem_of_mem_drop hl)).le
    · rw [List.eq_of_mem_replicate hline, List.length_replicate]
  · rw [hrow, Nat.add_assoc, h.drop_lines hcovers, blank]
    congr 1
    omega

/-! ## A frame over the one before it -/

theorem appendOnly_iff {prev : Text} {past : List (Row α)} {free : ℕ}
    (h : Shows glyphs t s prev past free) :
    s.prevScreenStart + s.prevRenderedCount = nextVisible prev ∧
      (s.prevLines.take (s.prevScreenStart + s.prevRenderedCount)) = visibleLines prev := by
  have htotal : s.prevScreenStart + s.prevRenderedCount = nextVisible prev := by
    rw [h.keeps.start, h.keeps.count]
    omega
  exact ⟨htotal, by rw [htotal, h.keeps.prevLines, visibleLines]⟩

theorem renderTall_grows {prev : Text} {past : List (Row α)} {free : ℕ}
    (h : Shows glyphs t s prev past free) {s' : LogUpdate} (hkeeps : Keeps s' t.rows t.cols str)
    (hfits : Fits glyphs t.cols str) (htall : t.rows < nextVisible str)
    (hgrows : nextVisible prev < nextVisible str) (hoffset : s'.cursorOffset = t.rows - 1) :
    ∃ skip free', skip ≤ nextVisible str - t.rows ∧
      (visibleLines prev <+: visibleLines str → skip = nextVisible prev - t.rows) ∧
      Shows glyphs (run glyphs { t with row := past.length } (s.renderTall t.rows str)) s' str
        (past ++ (scrolled t.rows skip str).map fun l => shown t.cols (glyphs l)) free' := by
  obtain ⟨htotal, hprev⟩ := appendOnly_iff h
  have hcount := h.keeps.count
  have hpos := nextVisible_pos prev
  have hrows := h.rows_pos
  have hlength := h.length_lines
  have hscreen := h.onScreen
  have hbottom : min s.prevRenderedCount t.rows - 1 = s.prevRenderedCount - 1 := by omega
  have hdown : run glyphs { t with row := past.length } (downBy (s.prevRenderedCount - 1)) =
      { t with row := past.length + (s.prevRenderedCount - 1) } :=
    run_downBy _ (by dsimp only; omega)
  rw [LogUpdate.renderTall]
  dsimp only
  rw [htotal, if_pos hgrows, hbottom, run_append, hdown, ← htotal, hprev, htotal]
  by_cases happend : (visibleLines prev).isPrefixOf (nextLines str) = true
  · rw [if_pos happend]
    obtain ⟨free', hshows⟩ := shows_appended h hkeeps hfits htall hgrows
      (List.isPrefixOf_iff_prefix.mp happend) hoffset
    exact ⟨_, free', by omega, fun _ => rfl, hshows⟩
  · have hup : run glyphs { t with row := past.length + (s.prevRenderedCount - 1) }
        (upBy (s.prevRenderedCount - 1)) = { t with row := past.length } := by
      rw [run_upBy _ (by rw [top]; dsimp only; omega)]
      dsimp only
      rw [Nat.add_sub_cancel]
    rw [if_neg happend, if_pos (by omega), List.append_assoc, run_append, hup]
    obtain ⟨free', hshows⟩ := shows_replaced h hkeeps hfits htall hoffset
    refine ⟨0, free', Nat.zero_le _, fun hbegins => ?_, hshows⟩
    have hvisible : visibleLines str <+: nextLines str := List.take_prefix _ _
    exact absurd (List.isPrefixOf_iff_prefix.mpr (hbegins.trans hvisible)) happend

/-- A frame over the one before it: what is above the block stays, and what of
the frame has no room scrolls off. -/
theorem shows_next {prev : Text} {past : List (Row α)} {free : ℕ}
    (h : Shows glyphs t s prev past free) (hnil : glyphs [] = []) {s' : LogUpdate}
    (hkeeps : Keeps s' t.rows t.cols str) (hfits : Fits glyphs t.cols str)
    (hroom : nextVisible str ≤ t.rows → RoomBelow t past.length str)
    (hoffset : s'.cursorOffset = (s.renderNext t.rows str).2.cursorOffset) :
    ∃ skip free', skip ≤ nextVisible str - t.rows ∧
      (visibleLines prev <+: visibleLines str → skip = nextVisible prev - t.rows) ∧
      Shows glyphs (run glyphs t (s.renderNext t.rows str).1) s' str
        (past ++ (scrolled t.rows skip str).map fun l => shown t.cols (glyphs l)) free' := by
  rw [LogUpdate.renderNext] at hoffset ⊢
  have hle : visibleLines prev <+: visibleLines str → nextVisible prev ≤ nextVisible str := by
    intro hbegins
    rw [← length_visibleLines, ← length_visibleLines]
    exact hbegins.length_le
  by_cases htall : t.rows < nextVisible str
  · rw [if_pos htall] at hoffset ⊢
    rw [run_append, h.run_up]
    by_cases hgrows : nextVisible prev < nextVisible str
    · exact renderTall_grows h hkeeps hfits htall hgrows hoffset
    · obtain ⟨free', hshows⟩ := shows_tailed h hnil hkeeps hfits htall (by omega) hoffset
      refine ⟨nextVisible str - t.rows, free', Nat.le_refl _, fun hbegins => ?_, ?_⟩
      · have hsame := hle hbegins
        omega
      · rw [scrolled_nil (Nat.le_refl _), List.map_nil, List.append_nil, LogUpdate.renderTall]
        dsimp only
        rw [(appendOnly_iff h).1, if_neg hgrows]
        exact hshows
  · rw [if_neg htall] at hoffset ⊢
    obtain ⟨free', hshows⟩ := shows_fitting h hnil hkeeps hfits (by omega) (hroom (by omega)) hoffset
    refine ⟨0, free', Nat.zero_le _, fun hbegins => ?_, ?_⟩
    · have hsame := hle hbegins
      omega
    · rw [scrolled_nil (by omega), List.map_nil, List.append_nil]
      exact hshows

/-! ## Runs -/

/-- What the renderer relies on. A terminal that was cleared needs only to have
room, one that no frame was written to has nothing below its cursor, and
otherwise the size tells the renderer. -/
def Allows (glyphs : Text → List α) (d : Display α) : Event α → Prop
  | .render str =>
      Fits glyphs d.terminal.cols str ∧
        (d.log.prevRenderedCount ≠ 0 → d.sizeChanged = false →
          nextVisible str ≤ d.terminal.rows → RoomBelow d.terminal d.first str)
  | .resize terminal =>
      0 < terminal.rows ∧ terminal.rows ≤ terminal.lines.length ∧
        (d.log.prevRenderedCount = 0 → Ready terminal) ∧
        (d.log.prevRenderedCount ≠ 0 → d.log.sizeChanged terminal.rows terminal.cols = true)
  | .setCursorPosition => True
  | .done => d.sizeChanged = true → Ready d.terminal

inductive Phase (glyphs : Text → List α) (d : Display α) : Prop where
  | first (ready : Ready d.terminal) (count : d.log.prevRenderedCount = 0)
      (offset : d.log.cursorOffset = 0)
  | shown {str : Text} {past : List (Row α)} {free : ℕ}
      (shows : Shows glyphs d.terminal d.log str past free)
  | resized (rows_pos : 0 < d.terminal.rows) (tall : d.terminal.rows ≤ d.terminal.lines.length)
      (size : d.sizeChanged = true)

/-- The lines above the block. -/
def Display.above (d : Display α) : List (Row α) :=
  if d.sizeChanged then [] else d.terminal.lines.take d.first

theorem sizeChanged_count (h : s.sizeChanged rows cols = true) : s.prevRenderedCount ≠ 0 := by
  rw [LogUpdate.sizeChanged] at h
  simp only [Bool.and_eq_true, decide_eq_true_eq] at h
  omega

theorem sizeChanged_of_count (h : s.prevRenderedCount = 0) : s.sizeChanged rows cols = false := by
  cases hsize : s.sizeChanged rows cols with
  | false => rfl
  | true => exact absurd h (sizeChanged_count hsize)

theorem Keeps.sizeChanged (h : Keeps s rows cols str) : s.sizeChanged rows cols = false := by
  rw [LogUpdate.sizeChanged, h.realRows, h.realCols]
  simp

theorem Shows.first_row {past : List (Row α)} {free : ℕ}
    (h : Shows glyphs d.terminal d.log str past free) : d.first = past.length := by
  have hrow := h.row
  rw [Display.first]
  omega

theorem Shows.above_eq {past : List (Row α)} {free : ℕ}
    (h : Shows glyphs d.terminal d.log str past free) : d.above = past := by
  rw [Display.above, Display.sizeChanged, h.keeps.sizeChanged, if_neg Bool.false_ne_true,
    h.first_row, h.lines, List.append_assoc, List.take_left' rfl]

/-- The screen and what scrolled off are erased. -/
theorem run_clear (hrows : 0 < t.rows) (htall : t.rows ≤ t.lines.length) :
    run glyphs t [.eraseScreen, .eraseScrollback, .home] =
      ⟨t.rows, t.cols, List.replicate t.cols none ::
        List.replicate (t.rows - 1) (List.replicate t.cols none), 0, 0⟩ := by
  obtain ⟨n, hn⟩ : ∃ n, t.rows = n + 1 := ⟨t.rows - 1, by omega⟩
  have htop : (t.lines.take t.top).length = t.lines.length - t.rows := by
    rw [top, List.length_take]
    omega
  obtain ⟨lines, hlines⟩ : ∃ lines, lines = t.lines.take t.top ++
      List.replicate (t.lines.length - t.top) t.blank := ⟨_, rfl⟩
  have hlength : lines.length = t.lines.length := by
    rw [hlines, List.length_append, htop, List.length_replicate, top]
    omega
  have hscreen : screen ⟨t.rows, t.cols, lines, t.row, t.col⟩ =
      List.replicate (n + 1) (List.replicate t.cols none) := by
    rw [screen, top]
    dsimp only
    rw [hlength, hlines, List.drop_left' htop, blank, top]
    congr 1
    omega
  have herased : step glyphs t .eraseScreen = ⟨t.rows, t.cols, lines, t.row, t.col⟩ := by
    rw [hlines]
    rfl
  rw [run_cons, run_cons, run_cons, run_nil, herased]
  rw [hn] at hscreen
  simp only [step, hscreen, top, hn, List.replicate_succ, Nat.add_sub_cancel, List.length_cons,
    List.length_replicate, Nat.sub_self]

theorem step_written (glyphs : Text → List α)
    (hnew : ¬ (str = d.log.prevOutput ∧ d.log.cursorDirty = false)) :
    (d.step glyphs (.render str)).terminal = d.terminal.run glyphs
      ((if d.sizeChanged then [.eraseScreen, .eraseScrollback, .home] else []) ++
        (d.log.renderFrame d.terminal.rows d.terminal.cols str).1) ∧
      Keeps (d.step glyphs (.render str)).log d.terminal.rows d.terminal.cols str ∧
      (d.step glyphs (.render str)).log.cursorOffset =
        (d.log.renderFrame d.terminal.rows d.terminal.cols str).2.cursorOffset := by
  have hkeeps : Keeps (d.step glyphs (.render str)).log d.terminal.rows d.terminal.cols str :=
    keeps_render hnew
  refine ⟨?_, hkeeps, ?_⟩
  · rw [Display.step, LogUpdate.render, if_neg hnew]
    rfl
  · rw [Display.step, LogUpdate.render, if_neg hnew]

/-- The first frame. -/
theorem Ready.shows_render (h : Ready d.terminal) (hcount : d.log.prevRenderedCount = 0)
    (hfits : Fits glyphs d.terminal.cols str)
    (hnew : ¬ (str = d.log.prevOutput ∧ d.log.cursorDirty = false)) :
    ∃ free, Shows glyphs (d.step glyphs (.render str)).terminal (d.step glyphs (.render str)).log
      str (d.terminal.lines.take d.terminal.row ++ (scrolled d.terminal.rows 0 str).map
        fun l => shown d.terminal.cols (glyphs l)) free := by
  obtain ⟨hwritten, hkeeps, hoffset⟩ := step_written glyphs hnew
  have hsame : d.sizeChanged = false := sizeChanged_of_count hcount
  rw [renderFrame_first (Or.inr hcount)] at hwritten hoffset
  rw [hwritten, hsame, if_neg Bool.false_ne_true, List.nil_append]
  exact h.shows_first hkeeps hfits hoffset

theorem Shows.shows_render {prev : Text} {past : List (Row α)} {free : ℕ}
    (h : Shows glyphs d.terminal d.log prev past free) (hnil : glyphs [] = [])
    (hallows : Allows glyphs d (.render str))
    (hnew : ¬ (str = d.log.prevOutput ∧ d.log.cursorDirty = false)) :
    ∃ skip free', skip ≤ nextVisible str - d.terminal.rows ∧
      (visibleLines prev <+: visibleLines str → skip = nextVisible prev - d.terminal.rows) ∧
      Shows glyphs (d.step glyphs (.render str)).terminal (d.step glyphs (.render str)).log str
        (past ++ (scrolled d.terminal.rows skip str).map
          fun l => shown d.terminal.cols (glyphs l)) free' := by
  obtain ⟨hfits, hroom⟩ := hallows
  obtain ⟨hwritten, hkeeps, hoffset⟩ := step_written glyphs hnew
  have hsame : d.sizeChanged = false := h.keeps.sizeChanged
  have hcount := h.count_pos
  have hfirst := h.first_row
  rw [renderFrame_next hsame hcount] at hwritten hoffset
  rw [hwritten, hsame, if_neg Bool.false_ne_true, List.nil_append]
  exact shows_next h hnil hkeeps hfits (fun hle => hfirst ▸ hroom hcount hsame hle) hoffset

/-- A frame that is written, whatever came before it. -/
theorem shows_render (hnil : glyphs [] = []) (h : Phase glyphs d)
    (hallows : Allows glyphs d (.render str))
    (hnew : ¬ (str = d.log.prevOutput ∧ d.log.cursorDirty = false)) :
    ∃ skip free, skip ≤ nextVisible str - d.terminal.rows ∧
      Shows glyphs (d.step glyphs (.render str)).terminal (d.step glyphs (.render str)).log str
        (d.above ++ (scrolled d.terminal.rows skip str).map
          fun l => shown d.terminal.cols (glyphs l)) free := by
  cases h with
  | first hready hcount hzero =>
      have hsame : d.sizeChanged = false := sizeChanged_of_count hcount
      obtain ⟨free, hshows⟩ := hready.shows_render hcount hallows.1 hnew
      refine ⟨0, free, Nat.zero_le _, ?_⟩
      rw [Display.above, hsame, if_neg Bool.false_ne_true, Display.first, hzero, Nat.sub_zero]
      exact hshows
  | shown hshown =>
      obtain ⟨skip, free', hskip, -, hshows⟩ := hshown.shows_render hnil hallows hnew
      rw [hshown.above_eq]
      exact ⟨skip, free', hskip, hshows⟩
  | resized hrows htall hsize =>
      obtain ⟨hwritten, hkeeps, hoffset⟩ := step_written glyphs hnew
      rw [renderFrame_first (Or.inl hsize)] at hwritten hoffset
      rw [hwritten, Display.above, hsize, if_pos rfl, if_pos rfl, Terminal.run_append,
        run_clear hrows htall]
      have hfree : d.terminal.rows - 1 + 1 ≤ d.terminal.rows := by omega
      have hroom : d.terminal.rows ≤ ([] : List (Row α)).length + (d.terminal.rows - 1) + 1 := by
        omega
      obtain ⟨free, hshows⟩ := shows_first 0 [] hrows hkeeps hallows.1
        (fun line hline => absurd hline List.not_mem_nil)
        (List.length_replicate (n := d.terminal.cols) (a := none)) hfree hroom hoffset
      exact ⟨0, free, Nat.zero_le _, hshows⟩

theorem phase_step (hnil : glyphs [] = []) (h : Phase glyphs d) (e : Event α)
    (hallows : Allows glyphs d e) : Phase glyphs (d.step glyphs e) := by
  cases e with
  | render str =>
      by_cases hnew : str = d.log.prevOutput ∧ d.log.cursorDirty = false
      · rw [Display.step, LogUpdate.render, if_pos hnew]
        exact h
      · obtain ⟨skip, free, -, hshows⟩ := shows_render hnil h hallows hnew
        exact .shown hshows
  | resize terminal =>
      obtain ⟨hrows, htall, hready', hsize'⟩ := hallows
      cases h with
      | first hready hcount hzero => exact .first (hready' hcount) hcount hzero
      | shown hshown => exact .resized hrows htall (hsize' hshown.count_pos)
      | resized hrows' htall' hsize =>
          exact .resized hrows htall (hsize' (sizeChanged_count hsize))
  | setCursorPosition =>
      cases h with
      | first hready hcount hzero => exact .first hready hcount hzero
      | shown hshown =>
          have hkeeps := hshown.keeps
          exact .shown { hshown with keeps :=
            ⟨hkeeps.prevLines, hkeeps.prevOutput, hkeeps.start, hkeeps.count, hkeeps.realRows,
              hkeeps.realCols⟩ }
      | resized hrows htall hsize => exact .resized hrows htall hsize
  | done =>
      cases h with
      | first hready hcount hzero => exact .first hready rfl rfl
      | shown hshown => exact .first hshown.ready rfl rfl
      | resized hrows htall hsize => exact .first (hallows hsize) rfl rfl

/-- A frame that is written leaves what was above its block, after it the lines
of the frame from one on, and blank lines. All that has room is on the screen. -/
def Draws (glyphs : Text → List α) (d : Display α) : Event α → Prop
  | .render str =>
      ¬ (str = d.log.prevOutput ∧ d.log.cursorDirty = false) →
        ∃ skip free, skip ≤ nextVisible str - d.terminal.rows ∧
          free ≤ d.terminal.rows - nextVisible str ∧
          (d.step glyphs (.render str)).terminal.lines = d.above ++
            ((visibleLines str).drop skip).map (fun l => shown d.terminal.cols (glyphs l)) ++
            List.replicate free d.terminal.blank
  | _ => True

theorem draws_of_phase (hnil : glyphs [] = []) (h : Phase glyphs d) (e : Event α)
    (hallows : Allows glyphs d e) : Draws glyphs d e := by
  cases e with
  | render str =>
      intro hnew
      obtain ⟨skip, free, hskip, hshows⟩ := shows_render hnil h hallows hnew
      obtain ⟨hrows, hcols⟩ : (d.step glyphs (.render str)).terminal.rows = d.terminal.rows ∧
          (d.step glyphs (.render str)).terminal.cols = d.terminal.cols := run_size _ _ _
      have hlines := hshows.lines
      have hscreen := hshows.onScreen
      have hlength := hshows.length_lines
      have hcount := hshows.keeps.count
      rw [hrows] at hlines hscreen hcount
      rw [hcols] at hlines
      refine ⟨skip, free, hskip, by omega, ?_⟩
      rw [hlines, ← scrolled_append hskip, List.map_append, blank]
      simp only [List.append_assoc]
  | resize terminal => trivial
  | setCursorPosition => trivial
  | done => trivial

/-- In every run that begins below the last output, every frame that is written
is shown. -/
theorem frames_drawn (hnil : glyphs [] = []) (hready : Ready t) (es : List (Event α))
    (hallows : Along (Display.step glyphs) (Allows glyphs) ⟨t, .create⟩ es) :
    Along (Display.step glyphs) (Draws glyphs) ⟨t, .create⟩ es :=
  Machine.along_of_step
    (fun _ e (h : Phase glyphs _) hallow =>
      ⟨draws_of_phase hnil h e hallow, phase_step hnil h e hallow⟩)
    (.first hready rfl rfl) hallows

/-- Two frames that fit, and after a resize one that is taller than the
terminal. -/
theorem frames_drawn_resized :
    Along (Display.step fun line => line) (Draws fun line => line)
      ⟨⟨2, 3, [[none, none, none], [none, none, none]], 0, 0⟩, .create⟩
      [.render [97, newline, 98], .render [98], .resize ⟨2, 4, [[], [], []], 1, 0⟩,
        .render [99, newline, 100, newline, 101]] := by
  have hready : Ready (⟨2, 3, [[none, none, none], [none, none, none]], 0, 0⟩ : Terminal UInt16) :=
    ⟨by decide, by decide, by decide, by decide, by decide, by decide⟩
  refine frames_drawn rfl hready _ ?_
  refine ⟨⟨by decide, ?_⟩, ⟨by decide, ?_⟩, ⟨by decide, by decide, ?_, ?_⟩, ⟨by decide, ?_⟩, trivial⟩
  · decide
  · decide
  · exact fun h => absurd h (by decide)
  · decide
  · decide

/-! ## Frames that only grow -/

/-- The whole frame is there, what scrolled off included. -/
def Whole (glyphs : Text → List α) (cols : ℕ) (above : List (Row α)) (d : Display α) (str : Text) :
    Prop :=
  d.terminal.cols = cols ∧ ∃ free, Shows glyphs d.terminal d.log str
    (above ++ ((visibleLines str).take (nextVisible str - d.terminal.rows)).map
      fun l => shown d.terminal.cols (glyphs l)) free

theorem Whole.step {above : List (Row α)} {prev : Text} (h : Whole glyphs cols above d prev)
    (hnil : glyphs [] = []) (hallows : Allows glyphs d (.render str))
    (hgrows : visibleLines prev <+: visibleLines str) :
    Whole glyphs cols above (d.step glyphs (.render str)) str := by
  obtain ⟨hwidth, free, hshows⟩ := h
  by_cases hnew : str = d.log.prevOutput ∧ d.log.cursorDirty = false
  · rw [Display.step, LogUpdate.render, if_pos hnew, hnew.1, hshows.keeps.prevOutput]
    exact ⟨hwidth, free, hshows⟩
  · obtain ⟨skip, free', -, hskip, hnext⟩ := hshows.shows_render hnil hallows hnew
    obtain ⟨hrows, hcols⟩ : (d.step glyphs (.render str)).terminal.rows = d.terminal.rows ∧
        (d.step glyphs (.render str)).terminal.cols = d.terminal.cols := run_size _ _ _
    refine ⟨hcols.trans hwidth, free', ?_⟩
    rw [hrows, hcols]
    -- what had scrolled off, and what does now, are the first lines of the frame
    have hle : nextVisible prev ≤ nextVisible str := by
      rw [← length_visibleLines, ← length_visibleLines]
      exact hgrows.length_le
    have hprev : (visibleLines prev).take (nextVisible prev - d.terminal.rows) =
        (visibleLines str).take (nextVisible prev - d.terminal.rows) := by
      rw [List.prefix_iff_eq_take, length_visibleLines] at hgrows
      rw [hgrows, List.take_take, Nat.min_eq_left (Nat.sub_le _ _)]
    have hall : (visibleLines str).take (nextVisible str - d.terminal.rows) =
        (visibleLines prev).take (nextVisible prev - d.terminal.rows) ++
          scrolled d.terminal.rows skip str := by
      rw [hprev, hskip hgrows, scrolled, ← List.take_add]
      congr 1
      omega
    rw [hall, List.map_append, ← List.append_assoc]
    exact hnext

theorem Whole.run {above : List (Row α)} {frames : List Text} (h : Whole glyphs cols above d str)
    (hnil : glyphs [] = [])
    (hgrows : (str :: frames).IsChain fun a b => visibleLines a <+: visibleLines b)
    (hallows : Along (Display.step glyphs) (Allows glyphs) d (frames.map .render)) :
    Whole glyphs cols above (Machine.run (Display.step glyphs) d (frames.map .render))
      ((str :: frames).getLast (List.cons_ne_nil _ _)) := by
  induction frames generalizing d str with
  | nil => exact h
  | cons next frames ih =>
      rw [List.isChain_cons_cons] at hgrows
      exact ih (h.step hnil hallows.1 hgrows.1) hgrows.2 hallows.2

theorem Whole.lines {above : List (Row α)} (h : Whole glyphs cols above d str) :
    ∃ free, d.terminal.lines = above ++ (visibleLines str).map (fun l => shown cols (glyphs l)) ++
      List.replicate free (List.replicate cols none) := by
  obtain ⟨rfl, free, hshows⟩ := h
  have hlines := hshows.lines
  rw [List.append_assoc above, ← List.map_append, tailLines, List.take_append_drop] at hlines
  exact ⟨free, hlines⟩

end Shizuha.Tui
