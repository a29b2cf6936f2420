import Shizuha.Tools.ApplyPatch

/-!
# Writing a patch

The documented format, from the other side: what is written for each hunk, and
the hunk that it is written for. A chunk keeps the order of its lines, which
the hunk does not: its old and its new lines are two lists. The blank lines
that separate what follows from a hunk or a chunk are written with it.
-/

namespace Shizuha.Tools

open Js

inductive PatchLine where
  | context (text : Text)
  | add (text : Text)
  | remove (text : Text)

def PatchLine.text : PatchLine → Text
  | .context text => text
  | .add text => text
  | .remove text => text

def PatchLine.print : PatchLine → Text
  | .context text => 32 :: text
  | .add text => 43 :: text
  | .remove text => 45 :: text

inductive ContextMarker where
  | missing
  | empty
  | line (context : Text)

def ContextMarker.context : ContextMarker → Option Text
  | .missing => none
  | .empty => none
  | .line context => some context

def ContextMarker.print : ContextMarker → List Text
  | .missing => []
  | .empty => [emptyContext]
  | .line context => [changeContext ++ context]

structure PrintedChunk where
  marker : ContextMarker
  body : List PatchLine
  isEndOfFile : Bool
  /-- Blank lines. -/
  after : List Text

def oldLines (body : List PatchLine) : List Text :=
  body.filterMap fun
    | .context text => some text
    | .add _ => none
    | .remove text => some text

def newLines (body : List PatchLine) : List Text :=
  body.filterMap fun
    | .context text => some text
    | .add text => some text
    | .remove _ => none

def PrintedChunk.chunk (c : PrintedChunk) : UpdateFileChunk :=
  ⟨c.marker.context, oldLines c.body, newLines c.body, c.isEndOfFile⟩

def PrintedChunk.lines (c : PrintedChunk) : List Text :=
  c.marker.print ++ c.body.map PatchLine.print ++ if c.isEndOfFile then [eofMarker] else []

def PrintedChunk.print (c : PrintedChunk) : List Text := c.lines ++ c.after

def PrintedChunk.plain (c : PrintedChunk) : PrintedChunk := { c with after := [] }

inductive PrintedHunk where
  | add (path : Text) (added after : List Text)
  | delete (path : Text) (after : List Text)
  | update (path : Text) (movePath : Option Text) (first : PrintedChunk)
      (chunks : List PrintedChunk)

def PrintedHunk.hunk : PrintedHunk → PatchHunk
  | .add path added _ => .add path (added.flatMap fun line => line ++ [newline])
  | .delete path _ => .delete path
  | .update path movePath first chunks =>
      .update path movePath ((first :: chunks).map PrintedChunk.chunk)

def PrintedHunk.print : PrintedHunk → List Text
  | .add path added after => (addFile ++ path) :: added.map (43 :: ·) ++ after
  | .delete path after => (deleteFile ++ path) :: after
  | .update path movePath first chunks =>
      (updateFileMarker ++ path) :: (movePath.toList.map (moveTo ++ ·) ++
        (first :: chunks).flatMap PrintedChunk.print)

/-- The hunk without its blank lines. -/
def PrintedHunk.plain : PrintedHunk → PrintedHunk
  | .add path added _ => .add path added []
  | .delete path _ => .delete path []
  | .update path movePath first chunks =>
      .update path movePath first.plain (chunks.map PrintedChunk.plain)

def printPatch (hunks : List PrintedHunk) : Text :=
  join [newline] (beginPatch :: hunks.flatMap PrintedHunk.print ++ [endPatch])

/-! ## What may be written -/

def SingleLine (s : Text) : Prop := newline ∉ s

instance (s : Text) : Decidable (SingleLine s) := inferInstanceAs (Decidable (newline ∉ s))

/-- A path or a context. -/
structure Name (s : Text) : Prop where
  singleLine : SingleLine s
  trimmed : Trimmed s

structure BlankLine (s : Text) : Prop where
  singleLine : SingleLine s
  blank : trim s = []

/-- A chunk that may stand first in its hunk. -/
structure PrintedChunk.WellFormed (c : PrintedChunk) : Prop where
  context : ∀ context ∈ c.marker.context, Name context
  nonempty : c.body ≠ []
  singleLine : ∀ l ∈ c.body, SingleLine l.text
  after : ∀ l ∈ c.after, BlankLine l

def PrintedHunk.WellFormed : PrintedHunk → Prop
  | .add path added after => Name path ∧ (∀ l ∈ added, SingleLine l) ∧ ∀ l ∈ after, BlankLine l
  | .delete path after => Name path ∧ ∀ l ∈ after, BlankLine l
  | .update path movePath first chunks => Name path ∧ (∀ path' ∈ movePath, Name path') ∧
      first.WellFormed ∧ ∀ c ∈ chunks, c.WellFormed ∧ c.marker ≠ .missing

/-- A patch that may be written. -/
structure PrintedPatch where
  printed : List PrintedHunk
  wellFormed : ∀ h ∈ printed, h.WellFormed

def PrintedPatch.hunks (p : PrintedPatch) : List PatchHunk := p.printed.map PrintedHunk.hunk

def PrintedPatch.text (p : PrintedPatch) : Text := printPatch p.printed

/-- The text without the blank lines. -/
def PrintedPatch.plainText (p : PrintedPatch) : Text := printPatch (p.printed.map PrintedHunk.plain)

end Shizuha.Tools
