import Mathlib.Data.List.Basic

/-!
# A terminal

What scrolled off and what is on the screen are one list of lines, and the
screen is its last `rows`. A line feed on the last line makes a new one, which
is all that scrolling is. Movements stop at the edges of the screen, and a text
that reaches the last column goes on in the next line when more is printed.

A text is whatever the program prints; `cells` says which cells it fills.
-/

namespace Shizuha

/-- The cells of a line, a blank one being `none`. -/
abbrev Row (α : Type*) := List (Option α)

structure Terminal (α : Type*) where
  rows : ℕ
  cols : ℕ
  /-- The lines that scrolled off, and the screen. -/
  lines : List (Row α)
  /-- The line the cursor is on, counted from the first that scrolled off. -/
  row : ℕ
  /-- The column of the cursor, `cols` when the line is full. -/
  col : ℕ

inductive Instr (τ : Type*) where
  | print (text : τ)
  | cr
  | lf
  | up (n : ℕ)
  | down (n : ℕ)
  | eraseRight
  | eraseLine
  | eraseBelow
  | eraseScreen
  | eraseScrollback
  | home
  | deleteLines (n : ℕ)

namespace Terminal

variable {α τ : Type*}

def blank (t : Terminal α) : Row α := List.replicate t.cols none

/-- The first line of the screen. -/
def top (t : Terminal α) : ℕ := t.lines.length - t.rows

def screen (t : Terminal α) : List (Row α) := t.lines.drop t.top

def feed (t : Terminal α) : Terminal α :=
  { t with
    lines := if t.row + 1 < t.lines.length then t.lines else t.lines ++ [t.blank]
    row := t.row + 1 }

/-- A cell where the cursor is. -/
def set (t : Terminal α) (a : α) : Terminal α :=
  { t with lines := t.lines.modify t.row fun line => line.set t.col (some a), col := t.col + 1 }

def put (t : Terminal α) (a : α) : Terminal α :=
  if t.col < t.cols then t.set a else { t.feed with col := 0 }.set a

/-- From the cursor to the end of the line. On a full line the cursor is on the
last column. -/
def clearRight (t : Terminal α) (line : Row α) : Row α :=
  line.take (min t.col (t.cols - 1)) ++ List.replicate (t.cols - min t.col (t.cols - 1)) none

def step (cells : τ → List α) (t : Terminal α) : Instr τ → Terminal α
  | .print text => (cells text).foldl put t
  | .cr => { t with col := 0 }
  | .lf => t.feed
  | .up n => { t with row := max t.top (t.row - n) }
  | .down n => { t with row := min (t.row + n) (t.lines.length - 1) }
  | .eraseRight => { t with lines := t.lines.modify t.row t.clearRight }
  | .eraseLine => { t with lines := t.lines.modify t.row fun _ => t.blank }
  | .eraseBelow =>
      { t with
        lines := (t.lines.modify t.row t.clearRight).take (t.row + 1) ++
          List.replicate (t.lines.length - (t.row + 1)) t.blank }
  | .eraseScreen =>
      { t with
        lines := t.lines.take t.top ++ List.replicate (t.lines.length - t.top) t.blank }
  | .eraseScrollback => { t with lines := t.screen, row := t.row - t.top }
  | .home => { t with row := t.top, col := 0 }
  | .deleteLines n =>
      { t with
        lines := t.lines.take t.row ++ t.lines.drop (t.row + n) ++
          List.replicate (min n (t.lines.length - t.row)) t.blank
        col := 0 }

def run (cells : τ → List α) (t : Terminal α) (instrs : List (Instr τ)) : Terminal α :=
  instrs.foldl (step cells) t

variable {cells : τ → List α} {t : Terminal α}

@[simp] theorem run_nil (cells : τ → List α) (t : Terminal α) : t.run cells [] = t := rfl

@[simp] theorem run_cons (cells : τ → List α) (t : Terminal α) (i : Instr τ)
    (instrs : List (Instr τ)) : t.run cells (i :: instrs) = (t.step cells i).run cells instrs := rfl

theorem run_append (cells : τ → List α) (t : Terminal α) (a b : List (Instr τ)) :
    t.run cells (a ++ b) = (t.run cells a).run cells b := List.foldl_append

/-- Nothing that is written changes the size. -/
theorem run_size (cells : τ → List α) (t : Terminal α) (instrs : List (Instr τ)) :
    (t.run cells instrs).rows = t.rows ∧ (t.run cells instrs).cols = t.cols := by
  have hput : ∀ (text : List α) (t : Terminal α),
      (text.foldl put t).rows = t.rows ∧ (text.foldl put t).cols = t.cols := by
    intro text
    induction text with
    | nil => exact fun _ => ⟨rfl, rfl⟩
    | cons a text ih =>
        intro t
        rw [List.foldl_cons, (ih _).1, (ih _).2, put]
        split_ifs <;> exact ⟨rfl, rfl⟩
  induction instrs generalizing t with
  | nil => exact ⟨rfl, rfl⟩
  | cons i instrs ih =>
      rw [run_cons, (ih _).1, (ih _).2]
      cases i with
      | print text => exact hput (cells text) t
      | _ => exact ⟨rfl, rfl⟩

/-! ## One line -/

/-- The line a text leaves, all of it being erased that the text does not fill. -/
def shown (cols : ℕ) (text : List α) : Row α :=
  text.map some ++ List.replicate (cols - text.length) none

theorem shown_nil (cols : ℕ) : shown cols ([] : List α) = List.replicate cols none := rfl

theorem length_shown {cols : ℕ} {text : List α} (h : text.length ≤ cols) :
    (shown cols text).length = cols := by
  rw [shown, List.length_append, List.length_map, List.length_replicate]
  omega

theorem modify_split {β : Type*} (above below : List β) (line : β) (f : β → β) :
    (above ++ line :: below).modify above.length f = above ++ f line :: below := by
  induction above with
  | nil => rfl
  | cons a above ih => rw [List.length_cons, List.cons_append, List.modify_succ_cons, ih]; rfl

/-- Text that ends before the last column fills the cells from the cursor on. -/
theorem run_print {rows cols col : ℕ} {above below : List (Row α)} (line : Row α)
    (text : List α) (hfits : col + text.length ≤ cols) (hline : line.length = cols) :
    text.foldl put ⟨rows, cols, above ++ line :: below, above.length, col⟩ =
      ⟨rows, cols, above ++ (line.take col ++ text.map some ++ line.drop (col + text.length)) :: below,
        above.length, col + text.length⟩ := by
  induction text generalizing line col with
  | nil => simp
  | cons a text ih =>
      rw [List.length_cons] at hfits
      have hroom : col < cols := by omega
      have hset : (line.set col (some a)).length = cols := by rw [List.length_set, hline]
      rw [List.foldl_cons, put, if_pos hroom, set]
      dsimp only
      rw [modify_split, ih (line.set col (some a)) (by omega) hset]
      have htake : (line.set col (some a)).take (col + 1) = line.take col ++ [some a] := by
        rw [List.set_eq_take_append_cons_drop, if_pos (by omega), List.take_append,
          List.take_of_length_le (by rw [List.length_take]; omega), List.length_take,
          Nat.min_eq_left (by omega), Nat.add_sub_cancel_left]
        rfl
      have hdrop : (line.set col (some a)).drop (col + 1 + text.length) =
          line.drop (col + (text.length + 1)) := by
        rw [List.drop_set_of_lt (by omega)]
        congr 1
        omega
      rw [htake, hdrop, List.length_cons, List.map_cons]
      congr 1
      · simp
      · omega

/-- A line that is written from its start and cleared behind the text. -/
theorem run_line {rows cols col : ℕ} {above below : List (Row α)} {line : Row α} (text : τ)
    (hfits : (cells text).length < cols) (hline : line.length = cols) :
    run cells ⟨rows, cols, above ++ line :: below, above.length, col⟩
        [.cr, .print text, .eraseRight] =
      ⟨rows, cols, above ++ shown cols (cells text) :: below, above.length, (cells text).length⟩ := by
  rw [run_cons, run_cons, run_cons, run_nil, step, step]
  rw [run_print line (cells text) (by omega) hline, step]
  dsimp only
  rw [modify_split, clearRight]
  dsimp only
  rw [Nat.zero_add, Nat.min_eq_left (by omega), List.take_zero, List.nil_append,
    List.take_left' (by rw [List.length_map]), shown]

end Terminal

end Shizuha
