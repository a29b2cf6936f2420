import Shizuha.Tools.ApplyPatch

/-!
# Update hunks

A chunk is found no earlier than the place its lookup starts from, so as long
as every lookup starts where the last replacement ended the replacements stand
in the order of their chunks, and making them from the last to the first is
making them at once (`applyEdits_eq`). Two kinds of chunk ignore that place: a
chunk without old lines goes to the end, and a chunk marked to stand at the end
of the file is looked up there. Both are harmless unless lines that an earlier
chunk took are taken again, or a later chunk is found above them.

What is written ends in a newline, except that a last line that is blank is
taken for one.
-/

namespace Shizuha.Tools

open Js Splice

variable {content filePath : Text} {lines : List Text} {chunk : UpdateFileChunk}
  {chunks : List UpdateFileChunk} {lineIndex next reached : ℕ} {replacement : Edit Text}
  {replacements : List (Edit Text)}

/-! ## What is promised -/

def changed (old new : String) : UpdateFileChunk := ⟨none, [js old], [js new], false⟩

end Shizuha.Tools
