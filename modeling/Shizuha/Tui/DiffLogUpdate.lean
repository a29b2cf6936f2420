import Shizuha.Js.Split
import Shizuha.Terminal

/-!
# The renderer that overwrites lines in place

A frame is a text, one line of the terminal for each of its lines. The renderer
keeps what it wrote last and where the cursor is in it, and writes the lines
that differ. A frame that is taller than the terminal is shown by its end.

What is written is a list of terminal instructions, in the order in which the
source pushes their escape sequences.
-/

namespace Shizuha.Tui

open Js Terminal

/-! ## Frames -/

def endsWithNewline (str : Text) : Bool := str.getLast? == some newline

def nextLines (str : Text) : List Text := splitOn [newline] str

/-- The lines of a frame, without the empty one after a last newline. -/
def nextVisible (str : Text) : ℕ :=
  if endsWithNewline str then (nextLines str).length - 1 else (nextLines str).length

def visibleLines (str : Text) : List Text := (nextLines str).take (nextVisible str)

/-! ## What is written -/

def writeLine (line : Text) : List (Instr Text) := [.cr, .print line, .eraseRight]

/-- Lines with newlines between them. -/
def writeLines : List Text → List (Instr Text)
  | [] => []
  | [line] => writeLine line
  | line :: rest => writeLine line ++ .lf :: writeLines rest

def appendLines (lines : List Text) : List (Instr Text) :=
  lines.flatMap fun line => .lf :: writeLine line

/-- One line of a frame over what the terminal shows there. -/
def diffLine : Option Text → Option Text → List (Instr Text)
  | none, _ => [.cr, .eraseLine]
  | some line, prevLine => if prevLine = some line then [.cr] else writeLine line

def diffLines : List (Option Text × Option Text) → List (Instr Text)
  | [] => []
  | [e] => diffLine e.1 e.2
  | e :: rest => diffLine e.1 e.2 ++ .down 1 :: diffLines rest

def upBy (n : ℕ) : List (Instr Text) := if 0 < n then [.up n] else []

def downBy (n : ℕ) : List (Instr Text) := if 0 < n then [.down n] else []

/-! ## The renderer -/

structure LogUpdate where
  prevLines : List Text
  prevOutput : Text
  cursorDirty : Bool
  cursorOffset : ℕ
  prevRenderedCount : ℕ
  prevScreenStart : ℕ
  prevRealRows : ℕ
  prevRealCols : ℕ

def LogUpdate.create : LogUpdate where
  prevLines := []
  prevOutput := []
  cursorDirty := false
  cursorOffset := 0
  prevRenderedCount := 0
  prevScreenStart := 0
  prevRealRows := 0
  prevRealCols := 0

/-- The size of the terminal is not the one of the last frame. -/
def LogUpdate.sizeChanged (s : LogUpdate) (realRows realCols : ℕ) : Bool :=
  0 < s.prevRealRows && (realRows != s.prevRealRows || realCols != s.prevRealCols) &&
    0 < s.prevRenderedCount

/-- `prevLines[prevIdx]`. -/
def LogUpdate.prevLine (s : LogUpdate) (i : ℕ) : Option Text :=
  s.prevLines[s.prevScreenStart + i]?

/-- Where the renderer is after a frame. -/
structure Placement where
  cursorOffset : ℕ
  prevScreenStart : ℕ
  prevRenderedCount : ℕ

def firstRender (realRows : ℕ) (str : Text) : List (Instr Text) × Placement :=
  (writeLines (visibleLines str),
    { cursorOffset := min (nextVisible str - 1) (realRows - 1)
      prevScreenStart := if realRows < nextVisible str then nextVisible str - realRows else 0
      prevRenderedCount := if realRows < nextVisible str then realRows else nextVisible str })

/-- The frame is taller than the terminal. -/
def LogUpdate.renderTall (s : LogUpdate) (realRows : ℕ) (str : Text) : List (Instr Text) :=
  let tailStart := nextVisible str - realRows
  let prevTotalVisible := s.prevScreenStart + s.prevRenderedCount
  if prevTotalVisible < nextVisible str then
    let appendOnly := (s.prevLines.take prevTotalVisible).isPrefixOf (nextLines str)
    let prevBottom := min s.prevRenderedCount realRows - 1
    downBy prevBottom ++
      if appendOnly then appendLines ((visibleLines str).drop prevTotalVisible)
      else
        upBy prevBottom ++ (if 0 < s.prevRenderedCount then [.deleteLines s.prevRenderedCount]
          else []) ++ .eraseBelow :: writeLines (visibleLines str)
  else
    diffLines ((List.range realRows).map fun row =>
      ((nextLines str)[tailStart + row]?, s.prevLine row))

/-- The frame fits. -/
def LogUpdate.renderFitting (s : LogUpdate) (str : Text) : List (Instr Text) :=
  let maxLines := max (nextVisible str) s.prevRenderedCount
  let targetOffset := if endsWithNewline str then nextVisible str else nextVisible str - 1
  let currentLine := maxLines - 1
  diffLines ((List.range maxLines).map fun i =>
    ((visibleLines str)[i]?, s.prevLine i)) ++
      if currentLine < targetOffset then [.down (targetOffset - currentLine)]
      else upBy (currentLine - targetOffset)

def LogUpdate.renderNext (s : LogUpdate) (realRows : ℕ) (str : Text) :
    List (Instr Text) × Placement :=
  if realRows < nextVisible str then
    (upBy s.cursorOffset ++ s.renderTall realRows str,
      { cursorOffset := realRows - 1
        prevScreenStart := nextVisible str - realRows
        prevRenderedCount := realRows })
  else
    (upBy s.cursorOffset ++ s.renderFitting str,
      { cursorOffset :=
          min (if endsWithNewline str then nextVisible str else nextVisible str - 1) (realRows - 1)
        prevScreenStart := 0
        prevRenderedCount := nextVisible str })

/-- The frame over the one before it, from the start when there is none or the
screen was cleared. -/
def LogUpdate.renderFrame (s : LogUpdate) (realRows realCols : ℕ) (str : Text) :
    List (Instr Text) × Placement :=
  if s.sizeChanged realRows realCols ∨ s.prevRenderedCount = 0 then firstRender realRows str
  else s.renderNext realRows str

/-- The instructions of a frame, none when nothing is written. -/
def LogUpdate.render (s : LogUpdate) (realRows realCols : ℕ) (str : Text) :
    LogUpdate × Option (List (Instr Text)) :=
  if str = s.prevOutput ∧ s.cursorDirty = false then (s, none)
  else
    let drawn := s.renderFrame realRows realCols str
    ({ prevLines := nextLines str
       prevOutput := str
       cursorDirty := false
       cursorOffset := drawn.2.cursorOffset
       prevRenderedCount := drawn.2.prevRenderedCount
       prevScreenStart := drawn.2.prevScreenStart
       prevRealRows := realRows
       prevRealCols := realCols },
      some ((if s.sizeChanged realRows realCols then [.eraseScreen, .eraseScrollback, .home]
        else []) ++ drawn.1))

def LogUpdate.done (s : LogUpdate) : LogUpdate :=
  { LogUpdate.create with cursorDirty := s.cursorDirty }

def LogUpdate.setCursorPosition (s : LogUpdate) : LogUpdate := { s with cursorDirty := true }

/-! ## The renderer and its terminal -/

structure Display (α : Type*) where
  terminal : Terminal α
  log : LogUpdate

inductive Event (α : Type*) where
  | render (str : Text)
  /-- The terminal has another size, and its own idea of what is on it. -/
  | resize (terminal : Terminal α)
  | setCursorPosition
  | done

variable {α : Type*}

/-- The line the block begins on. -/
def Display.first (d : Display α) : ℕ := d.terminal.row - d.log.cursorOffset

def Display.sizeChanged (d : Display α) : Bool :=
  d.log.sizeChanged d.terminal.rows d.terminal.cols

def Display.step (glyphs : Text → List α) (d : Display α) : Event α → Display α
  | .render str =>
      let rendered := d.log.render d.terminal.rows d.terminal.cols str
      ⟨d.terminal.run glyphs (rendered.2.getD []), rendered.1⟩
  | .resize terminal => ⟨terminal, d.log⟩
  | .setCursorPosition => ⟨d.terminal, d.log.setCursorPosition⟩
  | .done => ⟨d.terminal, d.log.done⟩

end Shizuha.Tui
