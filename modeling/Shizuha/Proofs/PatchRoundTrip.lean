import Shizuha.Proofs.PatchReads
import Shizuha.Tools.PatchPrint

/-!
# What a patch that was written is read as

A hunk is read back as it was written, line by line: the lines of a chunk end
where a line has none of the three signs, the chunks of a hunk where a line has
three asterisks. Two things are lost. The readers skip a line of white space
before a chunk, so a chunk without a marker may not start with one; and an empty
line ends a hunk, so that nothing but an error comes after it, or belongs to the
chunk it follows. The condition of `patch_round_trip_iff` leaves these out, and
every other patch is read as what it was written for.
-/

namespace Shizuha.Tools

open Js

/-! ## The lines of a text -/

theorem lines_singleLine {s : Text} (h : SingleLine s) : lines s = [s] := by
  induction s with
  | nil => rfl
  | cons u s ih =>
      rw [SingleLine, List.mem_cons, not_or] at h
      rw [lines, if_neg (Ne.symm h.1), ih h.2]

theorem lines_append {s : Text} (h : SingleLine s) (t : Text) :
    lines (s ++ newline :: t) = s :: lines t := by
  induction s with
  | nil => rw [List.nil_append, lines, if_pos rfl]
  | cons u s ih =>
      rw [SingleLine, List.mem_cons, not_or] at h
      rw [List.cons_append, lines, if_neg (Ne.symm h.1), ih h.2]

theorem lines_join {ls : List Text} (hne : ls ≠ []) (h : ∀ l ∈ ls, SingleLine l) :
    lines (join [newline] ls) = ls := by
  induction ls with
  | nil => exact absurd rfl hne
  | cons l ls ih =>
      have hl := h l List.mem_cons_self
      cases ls with
      | nil =>
          rw [join, List.intercalate_singleton]
          exact lines_singleLine hl
      | cons l' ls =>
          have hrest := ih (List.cons_ne_nil _ _) fun l hl => h l (List.mem_cons_of_mem _ hl)
          rw [join] at hrest ⊢
          rw [List.intercalate_cons_cons, List.append_assoc, List.singleton_append, lines_append hl,
            hrest]

theorem join_surround (first last : Text) (ls : List Text) :
    ∃ mid, join [newline] (first :: ls ++ [last]) = first ++ mid ++ last := by
  induction ls generalizing first with
  | nil => exact ⟨[newline], by simp [join, List.intercalate]⟩
  | cons l ls ih =>
      obtain ⟨mid, hmid⟩ := ih l
      rw [join] at hmid ⊢
      refine ⟨newline :: (l ++ mid), ?_⟩
      rw [List.cons_append, List.cons_append, List.intercalate_cons_cons, ← List.cons_append, hmid]
      simp

/-- The hunks are read from their own lines. -/
theorem parsePatch_print {hunks : List PrintedHunk}
    (h : ∀ l ∈ hunks.flatMap PrintedHunk.print, SingleLine l) :
    parsePatch (printPatch hunks) = readHunks 2 (hunks.flatMap PrintedHunk.print) := by
  generalize hls : hunks.flatMap PrintedHunk.print = ls at h
  have htext : trim (printPatch hunks) = printPatch hunks := by
    obtain ⟨mid, hmid⟩ := join_surround beginPatch endPatch ls
    have htrimmed : Trimmed (printPatch hunks) := by
      rw [printPatch, hls, hmid]
      refine ⟨fun u hu => ?_, fun u hu => ?_⟩
      · have hb : beginPatch = 42 :: js "** Begin Patch" := by decide
        rw [hb] at hu
        cases hu
        rfl
      · have he : endPatch = js "*** End Patc" ++ [104] := by decide
        rw [he, ← List.append_assoc, List.getLast?_concat] at hu
        cases hu
        rfl
    have hsurround := trim_surround (a := []) (b := []) (by simp) (by simp) htrimmed
    rwa [List.nil_append, List.append_nil] at hsurround
  have hlines : lines (printPatch hunks) = beginPatch :: ls ++ [endPatch] := by
    rw [printPatch, hls]
    refine lines_join (List.cons_ne_nil _ _) fun l hl => ?_
    have hb : SingleLine beginPatch := by decide
    have he : SingleLine endPatch := by decide
    rcases List.mem_append.1 hl with hl | hl
    · rcases List.mem_cons.1 hl with rfl | hl
      · exact hb
      · exact h l hl
    · rw [List.mem_singleton.1 hl]
      exact he
  have hbegin : trim beginPatch = beginPatch := by decide
  have hend : trim endPatch = endPatch := by decide
  have hhead : (beginPatch :: ls ++ [endPatch]).headD [] = beginPatch := rfl
  have hunwrap : unwrapHeredoc (beginPatch :: ls ++ [endPatch]) = beginPatch :: ls ++ [endPatch] := by
    rw [unwrapHeredoc, hhead, hbegin]
    exact if_neg fun hwrapped => hwrapped.1 rfl
  have hlast : (beginPatch :: ls ++ [endPatch]).getLastD [] = endPatch := by
    rw [List.getLastD_eq_getLast?, List.getLast?_concat]
    rfl
  have hinner : (beginPatch :: ls ++ [endPatch]).tail.dropLast = ls := by
    rw [List.cons_append, List.tail_cons, List.dropLast_concat]
  rw [parsePatch, htext, hlines, hunwrap]
  dsimp only
  rw [hhead, hbegin, hlast, hend, hinner]
  exact (if_neg fun hnot => hnot rfl).trans (if_neg fun hnot => hnot rfl)

/-! ## Lines by their first unit -/

variable {line : Text} {rest tail : List Text} {chunk : UpdateFileChunk}
  {chunks : List UpdateFileChunk} {lineNumber startIndex parsed : ℕ}

theorem trim_ne_nil {u : UInt16} {text : Text} (hu : isSpace u = false) : trim (u :: text) ≠ [] := by
  intro h
  have htrimmed : Trimmed [u] := ⟨by simpa using hu, by simpa using hu⟩
  obtain ⟨c, hc⟩ := trim_append (b := text) (List.cons_ne_nil u []) htrimmed
  rw [List.singleton_append, h] at hc
  cases hc

theorem isSpace_of_blank {u : UInt16} {text : Text} (h : trim (u :: text) = []) :
    isSpace u = true := by
  by_contra hu
  exact trim_ne_nil (Bool.eq_false_iff.2 hu) h

/-- A line of white space that does not start with a space. -/
theorem stopsChunk_blank (hblank : trim line = []) (hempty : line ≠ [])
    (hspace : line.head? ≠ some 32) : StopsChunk line := by
  cases line with
  | nil => exact absurd rfl hempty
  | cons u text =>
      have hu := isSpace_of_blank hblank
      have hne : u ≠ 42 := by
        intro h
        rw [h] at hu
        exact absurd hu (by decide)
      refine ⟨ne_eofMarker hne, hempty, fun v hv => ?_⟩
      cases hv
      refine ⟨fun h => hspace (congrArg some h), fun h => ?_, fun h => ?_⟩
      · rw [h] at hu
        exact absurd hu (by decide)
      · rw [h] at hu
        exact absurd hu (by decide)

/-! ## A chunk -/

theorem parseChunkLines_body (body : List PatchLine) :
    parseChunkLines lineNumber startIndex parsed chunk (body.map PatchLine.print ++ rest) =
      parseChunkLines lineNumber startIndex (parsed + body.length)
        { chunk with
          oldLines := chunk.oldLines ++ oldLines body
          newLines := chunk.newLines ++ newLines body } rest := by
  induction body generalizing parsed chunk with
  | nil => simp [oldLines, newLines]
  | cons l body ih =>
      rw [List.map_cons, List.cons_append, List.length_cons, Nat.add_comm body.length 1,
        ← Nat.add_assoc]
      cases l with
      | context text =>
          rw [PatchLine.print, parseChunkLines_context, ih]
          simp [oldLines, newLines]
      | add text =>
          rw [PatchLine.print, parseChunkLines_add, ih]
          simp [oldLines, newLines]
      | remove text =>
          rw [PatchLine.print, parseChunkLines_remove, ih]
          simp [oldLines, newLines]

/-- What may follow a chunk: nothing, or a line that ends it. -/
def EndsChunk (rest : List Text) : Prop := ∀ line ∈ rest.head?, StopsChunk line

theorem parseChunkLines_ends (hparsed : parsed ≠ 0) (hrest : EndsChunk rest) :
    parseChunkLines lineNumber startIndex parsed chunk rest = .ok (chunk, parsed) := by
  cases rest with
  | nil => rfl
  | cons line rest => rw [parseChunkLines_stop (hrest line rfl), if_neg hparsed]

def endLines (isEndOfFile : Bool) : List Text := if isEndOfFile then [eofMarker] else []

theorem parseChunkLines_print {body : List PatchLine} {isEndOfFile : Bool}
    {context : Option Text} (hbody : body ≠ [])
    (hrest : isEndOfFile = false → EndsChunk rest) :
    parseChunkLines lineNumber startIndex 0 ⟨context, [], [], false⟩
        (body.map PatchLine.print ++ (endLines isEndOfFile ++ rest)) =
      .ok (⟨context, oldLines body, newLines body, isEndOfFile⟩,
        body.length + (endLines isEndOfFile).length) := by
  have hlength : 0 + body.length ≠ 0 := by
    have hpos := List.length_pos_iff.2 hbody
    omega
  rw [parseChunkLines_body]
  dsimp only
  rw [List.nil_append, List.nil_append]
  cases isEndOfFile with
  | true =>
      rw [endLines, if_pos rfl, List.singleton_append, parseChunkLines_eof, if_neg hlength,
        Nat.zero_add]
      rfl
  | false =>
      rw [endLines, if_neg Bool.false_ne_true, List.nil_append,
        parseChunkLines_ends hlength (hrest rfl), Nat.zero_add]
      rfl

theorem PatchLine.print_head (l : PatchLine) : ∃ u, l.print = u :: l.text ∧ u ≠ 64 ∧ u ≠ 42 := by
  cases l with
  | context text => exact ⟨32, rfl, by decide, by decide⟩
  | add text => exact ⟨43, rfl, by decide, by decide⟩
  | remove text => exact ⟨45, rfl, by decide, by decide⟩

theorem PrintedChunk.lines_eq (c : PrintedChunk) :
    c.lines = c.marker.print ++ (c.body.map PatchLine.print ++ endLines c.isEndOfFile) := by
  rw [PrintedChunk.lines, List.append_assoc]
  rfl

/-- The marker of a chunk, whatever follows its lines. -/
theorem parseUpdateChunk_marker {marker : ContextMarker} {body : List PatchLine}
    {allowMissingContext : Bool} (hbody : body ≠ [])
    (hallow : marker = .missing → allowMissingContext = true) :
    parseUpdateChunk (marker.print ++ (body.map PatchLine.print ++ rest)) lineNumber
        allowMissingContext =
      (parseChunkLines lineNumber marker.print.length 0 ⟨marker.context, [], [], false⟩
        (body.map PatchLine.print ++ rest)).map
          fun read => (read.1, read.2 + marker.print.length) := by
  cases marker with
  | missing =>
      cases body with
      | nil => exact absurd rfl hbody
      | cons l body =>
          obtain ⟨u, hu, hat, -⟩ := l.print_head
          have hfirst : l.print ≠ emptyContext := by
            rw [hu]
            intro h
            exact hat (List.cons.inj h).1
          have hcontext : startsWith l.print changeContext = false := by
            rw [hu]
            refine Bool.eq_false_iff.2 fun h => ?_
            obtain ⟨t, ht⟩ := List.isPrefixOf_iff_prefix.1 h
            exact hat (List.cons.inj ht).1.symm
          have hmissing : parseUpdateChunk (l.print :: (body.map PatchLine.print ++ rest))
              lineNumber allowMissingContext = _ := parseUpdateChunk_missing hfirst hcontext
          rw [if_pos (hallow rfl)] at hmissing
          refine hmissing.trans ?_
          exact (id_map (f := Except PatchSyntaxError) _).symm
  | empty => exact parseUpdateChunk_empty
  | line context => exact parseUpdateChunk_context context

theorem parseUpdateChunk_print {c : PrintedChunk} {allowMissingContext : Bool}
    (hbody : c.body ≠ []) (hallow : c.marker = .missing → allowMissingContext = true)
    (hrest : c.isEndOfFile = false → EndsChunk rest) :
    parseUpdateChunk (c.lines ++ rest) lineNumber allowMissingContext =
      .ok (c.chunk, c.lines.length) := by
  have hlength : c.lines.length =
      c.body.length + (endLines c.isEndOfFile).length + c.marker.print.length := by
    rw [PrintedChunk.lines_eq, List.length_append, List.length_append, List.length_map,
      Nat.add_comm]
  rw [hlength, PrintedChunk.lines_eq, List.append_assoc, List.append_assoc,
    parseUpdateChunk_marker hbody hallow, parseChunkLines_print hbody hrest]
  rfl

/-! ## The chunks of a hunk -/

/-- Without a marker the first line is not white space. -/
def PrintedChunk.Starts (c : PrintedChunk) : Prop :=
  c.marker = .missing → ∀ l ∈ c.body.head?, trim l.print ≠ []

/-- The blank lines after it do not go on with it, and none of them is empty. -/
structure PrintedChunk.Separated (c : PrintedChunk) : Prop where
  nonempty : [] ∉ c.after
  ends : c.isEndOfFile = false → ∀ l ∈ c.after.head?, l.head? ≠ some 32

/-- A line that a chunk is read at. -/
structure StartsChunk (line : Text) : Prop where
  notBlank : trim line ≠ []
  notMarker : startsWith line (js "***") = false

theorem StartsChunk.notEmpty (h : StartsChunk line) : line ≠ [] := by
  intro hempty
  rw [hempty] at h
  exact h.notBlank rfl

theorem startsChunk_cons {u : UInt16} {text : Text} (hblank : trim (u :: text) ≠ [])
    (hu : u ≠ 42) : StartsChunk (u :: text) := by
  refine ⟨hblank, Bool.eq_false_iff.2 fun h => ?_⟩
  obtain ⟨t, ht⟩ := List.isPrefixOf_iff_prefix.1 h
  exact hu (List.cons.inj ht).1.symm

/-- The first line of a chunk with a marker. -/
theorem marker_line {c : PrintedChunk} (h : c.marker ≠ .missing) :
    ∃ text lines, c.lines = (64 :: text) :: lines := by
  rw [PrintedChunk.lines_eq]
  cases hmarker : c.marker with
  | missing => exact absurd hmarker h
  | empty => exact ⟨_, _, rfl⟩
  | line context => exact ⟨_, _, rfl⟩

theorem PrintedChunk.first_line {c : PrintedChunk} (hbody : c.body ≠ []) (hstarts : c.Starts) :
    ∃ line lines, c.lines = line :: lines ∧ StartsChunk line := by
  by_cases hmarker : c.marker = .missing
  · obtain ⟨l, body, hl⟩ := List.exists_cons_of_ne_nil hbody
    obtain ⟨u, hu, -, hstar⟩ := l.print_head
    have hblank := hstarts hmarker l (by rw [hl]; rfl)
    refine ⟨l.print, body.map PatchLine.print ++ endLines c.isEndOfFile, ?_, ?_⟩
    · rw [PrintedChunk.lines_eq, hmarker, hl]
      rfl
    · rw [hu] at hblank ⊢
      exact startsChunk_cons hblank hstar
  · obtain ⟨text, lines, hlines⟩ := marker_line hmarker
    exact ⟨_, _, hlines, startsChunk_cons (trim_ne_nil (by decide)) (by decide)⟩

theorem readChunks_lines {c : PrintedChunk} (hbody : c.body ≠ []) (hstarts : c.Starts)
    (hmarker : c.marker = .missing → chunks = [])
    (hrest : c.isEndOfFile = false → EndsChunk rest) :
    readChunks lineNumber parsed chunks (c.lines ++ rest) =
      readChunks lineNumber (parsed + c.lines.length) (chunks ++ [c.chunk]) rest := by
  obtain ⟨line, lines, hlines, hfirst⟩ := c.first_line hbody hstarts
  have hread := @parseUpdateChunk_print rest (lineNumber + parsed) c (decide (chunks = [])) hbody
    (fun h => decide_eq_true (hmarker h)) hrest
  have hstep := @readChunks_chunk line (lines ++ rest) chunks lineNumber parsed hfirst.notEmpty
    hfirst.notBlank hfirst.notMarker
  rw [← List.cons_append, ← hlines, hread] at hstep
  rw [hstep]
  dsimp only
  rw [List.drop_left]

theorem readChunks_blanks {blanks : List Text} (hblank : ∀ l ∈ blanks, trim l = [])
    (hempty : [] ∉ blanks) :
    readChunks lineNumber parsed chunks (blanks ++ rest) =
      readChunks lineNumber (parsed + blanks.length) chunks rest := by
  induction blanks generalizing parsed with
  | nil => rfl
  | cons l blanks ih =>
      rw [List.mem_cons, not_or] at hempty
      rw [List.cons_append, readChunks_blank (Ne.symm hempty.1) (hblank l List.mem_cons_self),
        ih (fun l hl => hblank l (List.mem_cons_of_mem _ hl)) hempty.2, List.length_cons,
        Nat.add_assoc, Nat.add_comm 1]

/-- The lines after a hunk: none, or a line of three asterisks that is not the
end-of-file marker. -/
def EndsHunk (tail : List Text) : Prop :=
  ∀ line ∈ tail.head?, (∃ text, line = 42 :: 42 :: 42 :: text) ∧ line ≠ eofMarker

theorem EndsHunk.endsChunk (h : EndsHunk tail) : EndsChunk tail := by
  intro line hline
  obtain ⟨⟨text, rfl⟩, hne⟩ := h line hline
  refine ⟨hne, List.cons_ne_nil _ _, fun u hu => ?_⟩
  cases hu
  exact ⟨by decide, by decide, by decide⟩

theorem readChunks_endsHunk (h : EndsHunk tail) :
    readChunks lineNumber parsed chunks tail = some (.ok (chunks, parsed)) := by
  cases tail with
  | nil => rfl
  | cons line tail =>
      obtain ⟨⟨text, rfl⟩, -⟩ := h line rfl
      exact readChunks_marker (List.cons_ne_nil _ _) (trim_ne_nil (by decide)) rfl

/-- Chunks with markers. -/
def Marked (cs : List PrintedChunk) : Prop := ∀ c ∈ cs, c.WellFormed ∧ c.marker ≠ .missing

theorem endsChunk_marked {cs : List PrintedChunk} (hcs : Marked cs) (htail : EndsHunk tail) :
    EndsChunk (cs.flatMap PrintedChunk.print ++ tail) := by
  cases cs with
  | nil => exact htail.endsChunk
  | cons c cs =>
      obtain ⟨text, lines, hlines⟩ := marker_line (hcs c List.mem_cons_self).2
      intro line hline
      rw [List.flatMap_cons, PrintedChunk.print, hlines] at hline
      cases hline
      refine ⟨ne_eofMarker (by decide), List.cons_ne_nil _ _, fun u hu => ?_⟩
      cases hu
      exact ⟨by decide, by decide, by decide⟩

/-- What follows a chunk whose blank lines are in order ends it. -/
theorem endsChunk_after {c : PrintedChunk} (hwf : c.WellFormed) (hsep : c.Separated)
    (hrest : EndsChunk rest) (heof : c.isEndOfFile = false) : EndsChunk (c.after ++ rest) := by
  intro line hline
  cases hafter : c.after with
  | nil =>
      rw [hafter] at hline
      exact hrest line hline
  | cons l blanks =>
      rw [hafter] at hline
      obtain rfl : l = line := Option.some.inj hline
      have hmem : l ∈ c.after := by
        rw [hafter]
        exact List.mem_cons_self
      refine stopsChunk_blank (hwf.after l hmem).blank ?_ (hsep.ends heof l (by rw [hafter]; rfl))
      intro hempty
      rw [hempty] at hmem
      exact hsep.nonempty hmem

theorem readChunks_print {c : PrintedChunk} (hwf : c.WellFormed) (hstarts : c.Starts)
    (hsep : c.Separated) (hmarker : c.marker = .missing → chunks = []) (hrest : EndsChunk rest) :
    readChunks lineNumber parsed chunks (c.print ++ rest) =
      readChunks lineNumber (parsed + c.print.length) (chunks ++ [c.chunk]) rest := by
  rw [PrintedChunk.print, List.append_assoc,
    readChunks_lines hwf.nonempty hstarts hmarker (endsChunk_after hwf hsep hrest),
    readChunks_blanks (fun l hl => (hwf.after l hl).blank) hsep.nonempty, List.length_append,
    Nat.add_assoc]

theorem readChunks_marked {cs : List PrintedChunk} (hcs : Marked cs)
    (hsep : ∀ c ∈ cs, c.Separated) (htail : EndsHunk tail) :
    readChunks lineNumber parsed chunks (cs.flatMap PrintedChunk.print ++ tail) =
      some (.ok (chunks ++ cs.map PrintedChunk.chunk,
        parsed + (cs.flatMap PrintedChunk.print).length)) := by
  induction cs generalizing chunks parsed with
  | nil =>
      rw [List.flatMap_nil, List.nil_append, readChunks_endsHunk htail]
      simp
  | cons c cs ih =>
      obtain ⟨hwf, hmarker⟩ := hcs c List.mem_cons_self
      have hcs' : Marked cs := fun c hc => hcs c (List.mem_cons_of_mem _ hc)
      rw [List.flatMap_cons, List.append_assoc,
        readChunks_print hwf (fun h => absurd h hmarker) (hsep c List.mem_cons_self)
          (fun h => absurd h hmarker) (endsChunk_marked hcs' htail),
        ih hcs' fun c hc => hsep c (List.mem_cons_of_mem _ hc)]
      simp [Nat.add_assoc]

/-! ## The header of a hunk -/

/-- The three headers. -/
def headers : List Text := [addFile, deleteFile, updateFileMarker]

theorem header_eq {header : Text} (h : header ∈ headers) :
    ∃ u text, header = 42 :: 42 :: 42 :: 32 :: u :: text ∧ u ≠ 69 := by
  simp only [headers, List.mem_cons, List.not_mem_nil, or_false] at h
  rcases h with rfl | rfl | rfl
  · exact ⟨65, js "dd File: ", by decide, by decide⟩
  · exact ⟨68, js "elete File: ", by decide, by decide⟩
  · exact ⟨85, js "pdate File: ", by decide, by decide⟩

theorem trim_header {header path : Text} (hheader : header ∈ headers) (hpath : Trimmed path)
    (hne : path ≠ []) : trim (header ++ path) = header ++ path := by
  obtain ⟨u, text, rfl, -⟩ := header_eq hheader
  have htrimmed : Trimmed (42 :: 42 :: 42 :: 32 :: u :: text ++ path) := by
    refine ⟨fun v hv => ?_, fun v hv => ?_⟩
    · cases hv
      rfl
    · rw [List.getLast?_append_of_ne_nil _ hne] at hv
      exact hpath.last v hv
  have hsurround := trim_surround (a := []) (b := []) (by simp) (by simp) htrimmed
  rwa [List.nil_append, List.append_nil] at hsurround

theorem endsHunk_header {header path : Text} (h : header ∈ headers) :
    EndsHunk ((header ++ path) :: rest) := by
  obtain ⟨u, text, rfl, hu⟩ := header_eq h
  intro line hline
  cases hline
  refine ⟨⟨_, rfl⟩, ?_⟩
  have heof : eofMarker = 42 :: 42 :: 42 :: 32 :: 69 :: js "nd of File" := by decide
  rw [heof]
  intro hline
  simp only [List.cons_append, List.cons.injEq, true_and] at hline
  exact hu hline.1

theorem parseOneHunk_line (hempty : line ≠ []) :
    parseOneHunk (line :: rest) lineNumber =
      if startsWith (trim line) addFile then
        some (.ok (.add ((trim line).drop addFile.length)
            ((rest.takeWhile fun line => startsWith line (js "+")).flatMap
              fun line => line.drop 1 ++ [newline]),
          (rest.takeWhile fun line => startsWith line (js "+")).length + 1))
      else if startsWith (trim line) deleteFile then
        some (.ok (.delete ((trim line).drop deleteFile.length), 1))
      else if startsWith (trim line) updateFileMarker then
        parseUpdateHunk ((trim line).drop updateFileMarker.length) rest lineNumber
      else some (.error (.invalidHeader lineNumber (trim line))) := by
  cases line with
  | nil => exact absurd rfl hempty
  | cons u text => rfl

theorem parseOneHunk_add {path : Text} (hpath : Trimmed path) (hne : path ≠ []) :
    parseOneHunk ((addFile ++ path) :: rest) lineNumber =
      some (.ok (.add path ((rest.takeWhile fun line => startsWith line (js "+")).flatMap
          fun line => line.drop 1 ++ [newline]),
        (rest.takeWhile fun line => startsWith line (js "+")).length + 1)) := by
  rw [parseOneHunk_line (List.append_ne_nil_of_right_ne_nil _ hne), trim_header (by decide) hpath hne,
    if_pos (startsWith_append _ _), List.drop_left]

theorem parseOneHunk_delete {path : Text} (hpath : Trimmed path) (hne : path ≠ []) :
    parseOneHunk ((deleteFile ++ path) :: rest) lineNumber = some (.ok (.delete path, 1)) := by
  have hadd : ¬ startsWith (deleteFile ++ path) addFile = true := Bool.false_ne_true
  rw [parseOneHunk_line (List.append_ne_nil_of_right_ne_nil _ hne), trim_header (by decide) hpath hne, if_neg hadd,
    if_pos (startsWith_append _ _), List.drop_left]

theorem parseOneHunk_update {path : Text} (hpath : Trimmed path) (hne : path ≠ []) :
    parseOneHunk ((updateFileMarker ++ path) :: rest) lineNumber =
      parseUpdateHunk path rest lineNumber := by
  have hadd : ¬ startsWith (updateFileMarker ++ path) addFile = true := Bool.false_ne_true
  have hdelete : ¬ startsWith (updateFileMarker ++ path) deleteFile = true := Bool.false_ne_true
  rw [parseOneHunk_line (List.append_ne_nil_of_right_ne_nil _ hne), trim_header (by decide) hpath hne, if_neg hadd,
    if_neg hdelete, if_pos (startsWith_append _ _), List.drop_left]

/-- A header needs a path: without one it loses its last space. -/
theorem parseOneHunk_unnamed {header : Text} (h : header ∈ headers) :
    ∃ e, parseOneHunk ((header ++ []) :: rest) lineNumber = some (.error e) := by
  rw [List.append_nil]
  simp only [headers, List.mem_cons, List.not_mem_nil, or_false] at h
  rcases h with rfl | rfl | rfl
  · exact ⟨.invalidHeader lineNumber (trim addFile), rfl⟩
  · exact ⟨.invalidHeader lineNumber (trim deleteFile), rfl⟩
  · exact ⟨.invalidHeader lineNumber (trim updateFileMarker), rfl⟩

/-- No hunk starts at a blank line. -/
theorem parseOneHunk_blank (h : trim line = []) :
    ∃ e, parseOneHunk (line :: rest) lineNumber = some (.error e) := by
  by_cases hempty : line = []
  · rw [hempty]
    exact ⟨_, rfl⟩
  · rw [parseOneHunk_line hempty, h]
    exact ⟨.invalidHeader lineNumber [], rfl⟩

/-! ## A hunk -/

theorem first_unit {c : PrintedChunk} (hbody : c.body ≠ []) :
    ∃ u text lines, c.lines = (u :: text) :: lines ∧ u ≠ 42 := by
  by_cases hmarker : c.marker = .missing
  · obtain ⟨l, body, hl⟩ := List.exists_cons_of_ne_nil hbody
    obtain ⟨u, hu, -, hstar⟩ := l.print_head
    rw [PrintedChunk.lines_eq, hmarker, hl]
    exact ⟨u, l.text, body.map PatchLine.print ++ endLines c.isEndOfFile, by rw [← hu]; rfl, hstar⟩
  · obtain ⟨text, lines, hlines⟩ := marker_line hmarker
    exact ⟨64, text, lines, hlines, by decide⟩

theorem parseUpdateHunk_lines {path : Text} {movePath : Option Text} {c : PrintedChunk}
    (hbody : c.body ≠ []) :
    parseUpdateHunk path (movePath.toList.map (moveTo ++ ·) ++ (c.print ++ rest)) lineNumber =
      (readChunks lineNumber (1 + movePath.toList.length) [] (c.print ++ rest)).map
        (finishHunk path movePath lineNumber) := by
  cases movePath with
  | some movePath => exact parseUpdateHunk_move movePath
  | none =>
      refine parseUpdateHunk_stay fun line hline => ?_
      obtain ⟨u, text, lines, hlines, hu⟩ := first_unit hbody
      rw [PrintedChunk.print, hlines] at hline
      cases hline
      refine Bool.eq_false_iff.2 fun h => ?_
      obtain ⟨t, ht⟩ := List.isPrefixOf_iff_prefix.1 h
      exact hu (List.cons.inj ht).1.symm

theorem takeWhile_added {added : List Text}
    (h : ∀ line ∈ rest.head?, startsWith line (js "+") = false) :
    (added.map (43 :: ·) ++ rest).takeWhile (fun line => startsWith line (js "+")) =
      added.map (43 :: ·) := by
  induction added with
  | nil =>
      cases rest with
      | nil => rfl
      | cons line rest => exact List.takeWhile_cons_of_neg (by rw [h line rfl]; exact Bool.false_ne_true)
  | cons l added ih =>
      rw [List.map_cons, List.cons_append, List.takeWhile_cons_of_pos rfl, ih]

/-- A path, a first line that is no white space, and blank lines only where
they are skipped. -/
def PrintedHunk.Named : PrintedHunk → Prop
  | .add path _ _ => path ≠ []
  | .delete path _ => path ≠ []
  | .update path _ _ _ => path ≠ []

def PrintedHunk.Starts : PrintedHunk → Prop
  | .add _ _ _ => True
  | .delete _ _ => True
  | .update _ _ first _ => first.Starts

def PrintedHunk.Separated : PrintedHunk → Prop
  | .add _ _ after => after = []
  | .delete _ after => after = []
  | .update _ _ first chunks => ∀ c ∈ first :: chunks, c.Separated

theorem not_plus_blank (h : trim line = []) : startsWith line (js "+") = false := by
  cases line with
  | nil => rfl
  | cons u text =>
      refine Bool.eq_false_iff.2 fun hplus => ?_
      obtain ⟨t, ht⟩ := List.isPrefixOf_iff_prefix.1 hplus
      have hu := isSpace_of_blank h
      rw [← (List.cons.inj ht).1] at hu
      exact absurd hu (by decide)

theorem not_plus_after {after : List Text} (hafter : ∀ l ∈ after, BlankLine l)
    (htail : EndsHunk tail) :
    ∀ line ∈ (after ++ tail).head?, startsWith line (js "+") = false := by
  intro line hline
  cases after with
  | nil =>
      obtain ⟨⟨text, rfl⟩, -⟩ := htail line hline
      rfl
  | cons l after =>
      obtain rfl : l = line := Option.some.inj hline
      exact not_plus_blank (hafter l List.mem_cons_self).blank

theorem parseOneHunk_addPrint {path : Text} {added after : List Text} (hpath : Trimmed path)
    (hne : path ≠ []) (hafter : ∀ l ∈ after, BlankLine l) (htail : EndsHunk tail) :
    parseOneHunk ((PrintedHunk.add path added after).print ++ tail) lineNumber =
      some (.ok ((PrintedHunk.add path added after).hunk, added.length + 1)) := by
  rw [PrintedHunk.print, List.append_assoc, List.cons_append, parseOneHunk_add hpath hne,
    takeWhile_added (not_plus_after hafter htail), List.length_map, List.flatMap_map]
  rfl

/-- An update hunk is read by its chunks. -/
theorem parseOneHunk_updatePrint {path : Text} {movePath : Option Text} {first : PrintedChunk}
    {chunks : List PrintedChunk} (hpath : Trimmed path) (hne : path ≠ [])
    (hbody : first.body ≠ []) :
    parseOneHunk ((PrintedHunk.update path movePath first chunks).print ++ tail) lineNumber =
      (readChunks lineNumber (1 + movePath.toList.length) []
        ((first :: chunks).flatMap PrintedChunk.print ++ tail)).map
          (finishHunk path movePath lineNumber) := by
  rw [PrintedHunk.print, List.cons_append, parseOneHunk_update hpath hne, List.append_assoc,
    List.flatMap_cons, List.append_assoc, parseUpdateHunk_lines hbody]

/-- A hunk whose blank lines are in order is read as it was written. -/
theorem parseOneHunk_print {h : PrintedHunk} (hwf : h.WellFormed) (hnamed : h.Named)
    (hstarts : h.Starts) (hsep : h.Separated) (htail : EndsHunk tail) :
    parseOneHunk (h.print ++ tail) lineNumber = some (.ok (h.hunk, h.print.length)) := by
  cases h with
  | add path added after =>
      obtain ⟨hpath, -, hafter⟩ := hwf
      rw [parseOneHunk_addPrint hpath.trimmed hnamed hafter htail]
      rw [PrintedHunk.Separated] at hsep
      simp [PrintedHunk.print, hsep]
  | delete path after =>
      rw [PrintedHunk.Separated] at hsep
      rw [PrintedHunk.print, List.cons_append, parseOneHunk_delete hwf.1.trimmed hnamed, hsep]
      rfl
  | update path movePath first chunks =>
      obtain ⟨hpath, -, hfirst, hchunks⟩ := hwf
      have hmarked : Marked chunks := hchunks
      rw [parseOneHunk_updatePrint hpath.trimmed hnamed hfirst.nonempty, List.flatMap_cons,
        List.append_assoc,
        readChunks_print hfirst hstarts (hsep first List.mem_cons_self) (fun _ => rfl)
          (endsChunk_marked hmarked htail),
        readChunks_marked hmarked (fun c hc => hsep c (List.mem_cons_of_mem _ hc)) htail,
        Option.map_some]
      have hfinish : finishHunk path movePath lineNumber
          (.ok ([] ++ [first.chunk] ++ chunks.map PrintedChunk.chunk,
            1 + movePath.toList.length + first.print.length +
              (chunks.flatMap PrintedChunk.print).length)) =
          .ok ((PrintedHunk.update path movePath first chunks).hunk,
            (PrintedHunk.update path movePath first chunks).print.length) := by
        refine finishHunk_ok_iff.2 ⟨_, ?_, List.cons_ne_nil _ _, rfl⟩
        simp [PrintedHunk.print]
        omega
      rw [hfinish]

theorem PrintedHunk.print_header (h : PrintedHunk) : ∃ header ∈ headers, ∃ path lines,
    h.print = (header ++ path) :: lines := by
  cases h with
  | add path added after => exact ⟨addFile, by decide, path, _, rfl⟩
  | delete path after => exact ⟨deleteFile, by decide, path, _, rfl⟩
  | update path movePath first chunks => exact ⟨updateFileMarker, by decide, path, _, rfl⟩

theorem endsHunk_hunks (hunks : List PrintedHunk) :
    EndsHunk (hunks.flatMap PrintedHunk.print) := by
  cases hunks with
  | nil => exact fun line hline => by cases hline
  | cons h hunks =>
      obtain ⟨header, hheader, path, lines, hprint⟩ := h.print_header
      rw [List.flatMap_cons, hprint]
      exact endsHunk_header hheader

/-! ## Patches that are read as something else -/

/-- The lines left after the first `taken` begin with an empty one. -/
def LeavesEmpty (lines : List Text) (taken : ℕ) : Prop := ∃ rest, lines.drop taken = [] :: rest

/-- The lines of white space that a reader skips before it stops at an empty
one. -/
theorem split_empty {blanks : List Text} (h : [] ∈ blanks) :
    ∃ skipped rest, blanks = skipped ++ [] :: rest ∧ [] ∉ skipped := by
  induction blanks with
  | nil => cases h
  | cons l blanks ih =>
      by_cases hl : l = []
      · exact ⟨[], blanks, by rw [hl]; rfl, by simp⟩
      · have hmem : [] ∈ blanks := by
          rcases List.mem_cons.1 h with heq | hmem
          · exact absurd heq.symm hl
          · exact hmem
        obtain ⟨skipped, rest, rfl, hnot⟩ := ih hmem
        refine ⟨l :: skipped, rest, rfl, ?_⟩
        rw [List.mem_cons, not_or]
        exact ⟨Ne.symm hl, hnot⟩

theorem oldLines_append (a b : List PatchLine) : oldLines (a ++ b) = oldLines a ++ oldLines b :=
  List.filterMap_append

/-- A blank line that a chunk goes on with. -/
theorem continues_of_blank (hblank : trim line = []) (h : ¬ StopsChunk line) :
    line = [] ∨ ∃ text, line = 32 :: text := by
  cases line with
  | nil => exact .inl rfl
  | cons u text =>
      refine .inr ⟨text, ?_⟩
      by_contra hne
      refine h (stopsChunk_blank hblank (List.cons_ne_nil _ _) fun hhead => hne ?_)
      rw [Option.some.inj hhead]

theorem parseChunkLines_continues {chunk' : UpdateFileChunk} {taken : ℕ}
    (hline : line = [] ∨ ∃ text, line = 32 :: text)
    (h : parseChunkLines lineNumber startIndex parsed chunk (line :: rest) = .ok (chunk', taken)) :
    chunk.oldLines.length < chunk'.oldLines.length := by
  rcases hline with rfl | ⟨text, rfl⟩
  · rw [parseChunkLines_empty] at h
    have hle := (parseChunkLines_extends h).length_le
    rw [List.length_append] at hle
    exact hle
  · rw [parseChunkLines_context] at h
    have hle := (parseChunkLines_extends h).length_le
    rw [List.length_append] at hle
    exact hle

/-- A chunk that goes on is another one. -/
theorem parseUpdateChunk_continues {c : PrintedChunk} {allowMissingContext : Bool} {taken : ℕ}
    (hbody : c.body ≠ []) (hallow : c.marker = .missing → allowMissingContext = true)
    (heof : c.isEndOfFile = false) (hline : line = [] ∨ ∃ text, line = 32 :: text)
    (h : parseUpdateChunk (c.lines ++ line :: rest) lineNumber allowMissingContext =
      .ok (chunk, taken)) : chunk ≠ c.chunk := by
  rw [PrintedChunk.lines_eq, heof, List.append_assoc, List.append_assoc,
    parseUpdateChunk_marker hbody hallow, parseChunkLines_body] at h
  intro heq
  cases hread : parseChunkLines lineNumber c.marker.print.length (0 + c.body.length)
      ⟨c.marker.context, [] ++ oldLines c.body, [] ++ newLines c.body, false⟩
      (endLines false ++ line :: rest) with
  | error e =>
      rw [hread] at h
      cases h
  | ok read =>
      rw [hread] at h
      cases h
      have hlt := parseChunkLines_continues hline hread
      rw [heq] at hlt
      exact absurd hlt (lt_irrefl _)

/-- What was read before stays in front of a chunk. -/
theorem readChunks_step {c : PrintedChunk} {taken : ℕ} {read : List UpdateFileChunk}
    (hbody : c.body ≠ []) (hstarts : c.Starts)
    (h : readChunks lineNumber parsed chunks (c.lines ++ rest) = some (.ok (read, taken))) :
    ∃ chunk taken', chunks ++ [chunk] <+: read ∧
      parseUpdateChunk (c.lines ++ rest) (lineNumber + parsed) (chunks = []) =
        .ok (chunk, taken') := by
  obtain ⟨line, lines, hlines, hfirst⟩ := c.first_line hbody hstarts
  rw [hlines, List.cons_append, readChunks_chunk hfirst.notEmpty hfirst.notBlank
    hfirst.notMarker] at h
  rw [hlines, List.cons_append]
  cases hread : parseUpdateChunk (line :: (lines ++ rest)) (lineNumber + parsed)
      (decide (chunks = [])) with
  | error e =>
      rw [hread] at h
      cases h
  | ok found =>
      rw [hread] at h
      exact ⟨found.1, found.2, (readChunks_extends h).1, rfl⟩

theorem concat_prefix_inj {α : Type} {a read : List α} {x y : α} (hx : a ++ [x] <+: read)
    (hy : a ++ [y] <+: read) : x = y := by
  have heq := (List.prefix_of_prefix_length_le hx hy (by simp)).eq_of_length (by simp)
  simpa using heq

/-- Blank lines that are out of order: the chunk goes on with them, or the hunk
ends before an empty line. -/
theorem readChunks_unseparated {c : PrintedChunk} {taken : ℕ} {read : List UpdateFileChunk}
    (hwf : c.WellFormed) (hstarts : c.Starts) (hmarker : c.marker = .missing → chunks = [])
    (hsep : ¬ c.Separated)
    (h : readChunks lineNumber parsed chunks (c.print ++ rest) = some (.ok (read, taken))) :
    ¬ chunks ++ [c.chunk] <+: read ∨ LeavesEmpty (c.print ++ rest) (taken - parsed) := by
  rw [PrintedChunk.print, List.append_assoc] at h ⊢
  by_cases hends : c.isEndOfFile = false → EndsChunk c.after
  · have hempty : [] ∈ c.after := by
      by_contra hnot
      refine hsep ⟨hnot, fun heof l hl hspace => ?_⟩
      exact ((hends heof l hl).notBody 32 hspace).1 rfl
    obtain ⟨skipped, left, hafter, hskipped⟩ := split_empty hempty
    have hblank : ∀ l ∈ skipped, trim l = [] := by
      intro l hl
      refine (hwf.after l ?_).blank
      rw [hafter]
      exact List.mem_append_left _ hl
    have hrest : c.isEndOfFile = false → EndsChunk (c.after ++ rest) := by
      intro heof line hline
      refine hends heof line ?_
      rw [hafter] at hline ⊢
      cases skipped with
      | nil => exact hline
      | cons l skipped => exact hline
    rw [readChunks_lines hwf.nonempty hstarts hmarker hrest, hafter, List.append_assoc,
      readChunks_blanks hblank hskipped, List.cons_append, readChunks_empty] at h
    cases h
    refine .inr ⟨left ++ rest, ?_⟩
    have htaken : parsed + c.lines.length + skipped.length - parsed =
        c.lines.length + skipped.length := by omega
    rw [htaken, hafter, ← List.drop_drop, List.drop_left, List.append_assoc, List.drop_left]
    rfl
  · obtain ⟨heof, hnot⟩ := Classical.not_imp.1 hends
    cases hafter : c.after with
    | nil =>
        rw [hafter] at hnot
        exact absurd (fun line hline => by cases hline) hnot
    | cons l blanks =>
        have hblank := (hwf.after l (by rw [hafter]; exact List.mem_cons_self)).blank
        have hline : l = [] ∨ ∃ text, l = 32 :: text := by
          refine continues_of_blank hblank fun hstop => hnot fun line hline => ?_
          rw [hafter] at hline
          cases hline
          exact hstop
        rw [hafter] at h
        obtain ⟨chunk, taken', hprefix, hread⟩ := readChunks_step hwf.nonempty hstarts h
        refine .inl fun hc => ?_
        exact parseUpdateChunk_continues hwf.nonempty (fun hm => decide_eq_true (hmarker hm)) heof
          hline hread (concat_prefix_inj hprefix hc)

theorem LeavesEmpty.append {lines : List Text} {k taken : ℕ} (front : List Text)
    (hk : k = front.length + taken) (h : LeavesEmpty lines taken) : LeavesEmpty (front ++ lines) k := by
  obtain ⟨rest, hrest⟩ := h
  exact ⟨rest, by rw [hk, ← List.drop_drop, List.drop_left, hrest]⟩

/-- The chunks after the first: one of them is out of order. -/
theorem readChunks_marked_unseparated {cs : List PrintedChunk} {taken : ℕ}
    (hcs : Marked cs) (htail : EndsHunk tail) (hsep : ¬ ∀ c ∈ cs, c.Separated)
    (h : readChunks lineNumber parsed chunks (cs.flatMap PrintedChunk.print ++ tail) =
      some (.ok (chunks ++ cs.map PrintedChunk.chunk, taken))) :
    LeavesEmpty (cs.flatMap PrintedChunk.print ++ tail) (taken - parsed) := by
  induction cs generalizing chunks parsed with
  | nil => exact absurd (fun c hc => by cases hc) hsep
  | cons c cs ih =>
      obtain ⟨hwf, hmarker⟩ := hcs c List.mem_cons_self
      have hstarts : c.Starts := fun hm => absurd hm hmarker
      have hcs' : Marked cs := fun c hc => hcs c (List.mem_cons_of_mem _ hc)
      rw [List.flatMap_cons, List.append_assoc] at h ⊢
      by_cases hc : c.Separated
      · have hrest : ¬ ∀ c ∈ cs, c.Separated := by
          intro hall
          refine hsep fun c' hc' => ?_
          rcases List.mem_cons.1 hc' with rfl | hc'
          · exact hc
          · exact hall c' hc'
        have hread : chunks ++ (c :: cs).map PrintedChunk.chunk =
            chunks ++ [c.chunk] ++ cs.map PrintedChunk.chunk := by simp
        rw [hread, readChunks_print hwf hstarts hc (fun hm => absurd hm hmarker)
          (endsChunk_marked hcs' htail)] at h
        have htaken := (readChunks_extends h).2
        have hleft := ih hcs' hrest h
        refine hleft.append c.print ?_
        omega
      · have hprefix : chunks ++ [c.chunk] <+: chunks ++ (c :: cs).map PrintedChunk.chunk :=
          ⟨cs.map PrintedChunk.chunk, by simp⟩
        rcases readChunks_unseparated hwf hstarts (fun hm => absurd hm hmarker) hc h with hnot | hleft
        · exact absurd hprefix hnot
        · exact hleft

theorem eq_context_of_blank {l : PatchLine} (h : trim l.print = []) : l = .context l.text := by
  cases l with
  | context text => rfl
  | add text => exact absurd h (trim_ne_nil (by decide))
  | remove text => exact absurd h (trim_ne_nil (by decide))

theorem length_oldLines_blank {body : List PatchLine} (h : ∀ l ∈ body, trim l.print = []) :
    (oldLines body).length = body.length := by
  induction body with
  | nil => rfl
  | cons l body ih =>
      rw [eq_context_of_blank (h l List.mem_cons_self), ← List.singleton_append, oldLines_append,
        List.length_append, ih fun l hl => h l (List.mem_cons_of_mem _ hl), List.length_append]
      rfl

/-- The lines of white space at the start of a chunk, and the others. -/
theorem split_blank (body : List PatchLine) : ∃ blanks others, body = blanks ++ others ∧
    (∀ l ∈ blanks, trim l.print = []) ∧ ∀ l ∈ others.head?, trim l.print ≠ [] := by
  induction body with
  | nil => exact ⟨[], [], rfl, by simp, by simp⟩
  | cons l body ih =>
      by_cases hl : trim l.print = []
      · obtain ⟨blanks, others, rfl, hblanks, hothers⟩ := ih
        refine ⟨l :: blanks, others, rfl, fun l' hl' => ?_, hothers⟩
        rcases List.mem_cons.1 hl' with rfl | hl'
        · exact hl
        · exact hblanks l' hl'
      · exact ⟨[], l :: body, rfl, by simp, by simpa using hl⟩

theorem Marked.separated {cs : List PrintedChunk} (hplain : ∀ c ∈ cs, c.after = []) :
    ∀ c ∈ cs, c.Separated := by
  intro c hc
  refine ⟨?_, fun _ l hl => ?_⟩
  · rw [hplain c hc]
    exact List.not_mem_nil
  · rw [hplain c hc] at hl
    cases hl

/-- A chunk without a marker that starts with white space. -/
theorem readChunks_not_starts {c : PrintedChunk} {cs : List PrintedChunk} {taken : ℕ}
    (hcs : Marked cs) (htail : EndsHunk tail) (hstarts : ¬ c.Starts)
    (hafter : c.after = []) (hplain : ∀ c ∈ cs, c.after = []) :
    readChunks lineNumber parsed [] ((c :: cs).flatMap PrintedChunk.print ++ tail) ≠
      some (.ok ((c :: cs).map PrintedChunk.chunk, taken)) := by
  intro h
  obtain ⟨hmarker, hfirst⟩ := Classical.not_imp.1 hstarts
  obtain ⟨blanks, others, hbody, hblanks, hothers⟩ := split_blank c.body
  have hsome : blanks ≠ [] := by
    intro hnone
    rw [hnone, List.nil_append] at hbody
    rw [hbody] at hfirst
    exact hfirst hothers
  have hskip : ∀ l ∈ blanks.map PatchLine.print, trim l = [] := by
    intro l hl
    obtain ⟨l', hl', rfl⟩ := List.mem_map.1 hl
    exact hblanks l' hl'
  have hnonempty : [] ∉ blanks.map PatchLine.print := by
    intro hmem
    obtain ⟨l, -, hl⟩ := List.mem_map.1 hmem
    obtain ⟨u, hu, -⟩ := l.print_head
    rw [hu] at hl
    cases hl
  have hlines : c.print = blanks.map PatchLine.print ++
      (others.map PatchLine.print ++ endLines c.isEndOfFile) := by
    rw [PrintedChunk.print, PrintedChunk.lines_eq, hmarker, hbody, hafter, List.map_append]
    simp [ContextMarker.print]
  rw [List.flatMap_cons, hlines, List.append_assoc, List.append_assoc,
    readChunks_blanks hskip hnonempty] at h
  by_cases hempty : others = []
  · rw [hempty, List.map_nil, List.nil_append] at h
    cases heof : c.isEndOfFile with
    | true =>
        -- the end-of-file marker reads as the next hunk
        rw [heof, endLines, if_pos rfl, List.singleton_append,
          readChunks_marker (by decide) (by decide) (by decide)] at h
        cases h
    | false =>
        rw [heof, endLines, if_neg Bool.false_ne_true, List.nil_append,
          readChunks_marked hcs (Marked.separated hplain) htail] at h
        have hlength := congrArg (fun read => read.map fun read => read.map fun read =>
          read.1.length) h
        simp [Except.map] at hlength
  · have hothersStart : ({ c with body := others } : PrintedChunk).Starts := fun _ => hothers
    have hrest : c.isEndOfFile = false → EndsChunk (cs.flatMap PrintedChunk.print ++ tail) :=
      fun _ => endsChunk_marked hcs htail
    have hlines' : others.map PatchLine.print ++ endLines c.isEndOfFile =
        ({ c with body := others } : PrintedChunk).lines := by
      rw [PrintedChunk.lines_eq, hmarker]
      rfl
    rw [hlines', readChunks_lines hempty hothersStart (fun _ => rfl) hrest] at h
    have hread := (readChunks_extends h).1
    have hchunk : ([] : List UpdateFileChunk) ++ [c.chunk] <+: (c :: cs).map PrintedChunk.chunk :=
      ⟨cs.map PrintedChunk.chunk, rfl⟩
    have heq := congrArg (fun chunk => chunk.oldLines.length) (concat_prefix_inj hread hchunk)
    have hpos := List.length_pos_iff.2 hsome
    simp only [PrintedChunk.chunk, hbody, oldLines_append, List.length_append,
      length_oldLines_blank hblanks] at heq
    omega

/-! ## The patch -/

/-- What the condition asks of a hunk. -/
structure PrintedHunk.Readable (h : PrintedHunk) : Prop where
  named : h.Named
  starts : h.Starts
  separated : h.Separated

def PrintedHunk.Plain : PrintedHunk → Prop
  | .add _ _ after => after = []
  | .delete _ after => after = []
  | .update _ _ first chunks => ∀ c ∈ first :: chunks, c.after = []

theorem readHunks_blank {hunks : List PatchHunk} (h : trim line = []) :
    readHunks lineNumber (line :: rest) ≠ some (.ok hunks) := by
  obtain ⟨e, he⟩ := @parseOneHunk_blank line rest lineNumber h
  rw [readHunks_error he]
  intro hok
  cases hok

/-- What an update hunk that is read back has been read from. -/
theorem readChunks_of_update {path : Text} {movePath : Option Text} {first : PrintedChunk}
    {cs : List PrintedChunk} {taken : ℕ} (hpath : Trimmed path) (hne : path ≠ [])
    (hbody : first.body ≠ [])
    (h : parseOneHunk ((PrintedHunk.update path movePath first cs).print ++ tail) lineNumber =
      some (.ok ((PrintedHunk.update path movePath first cs).hunk, taken))) :
    readChunks lineNumber (1 + movePath.toList.length) []
        ((first :: cs).flatMap PrintedChunk.print ++ tail) =
      some (.ok ((first :: cs).map PrintedChunk.chunk, taken)) := by
  rw [parseOneHunk_updatePrint hpath hne hbody] at h
  obtain ⟨read, hread, hfinish⟩ := Option.map_eq_some_iff.1 h
  obtain ⟨chunks, rfl, -, hhunk⟩ := finishHunk_ok_iff.1 hfinish
  rw [hread]
  cases hhunk
  rfl

/-- An update hunk with blank lines that are out of order. -/
theorem leavesEmpty_update {path : Text} {movePath : Option Text} {first : PrintedChunk}
    {cs : List PrintedChunk} {taken : ℕ} (hwf : (PrintedHunk.update path movePath first cs).WellFormed)
    (hne : path ≠ []) (hstarts : first.Starts) (hsep : ¬ ∀ c ∈ first :: cs, c.Separated)
    (htail : EndsHunk tail)
    (h : parseOneHunk ((PrintedHunk.update path movePath first cs).print ++ tail) lineNumber =
      some (.ok ((PrintedHunk.update path movePath first cs).hunk, taken))) :
    LeavesEmpty ((PrintedHunk.update path movePath first cs).print ++ tail) taken := by
  obtain ⟨hpath, -, hfirst, hchunks⟩ := hwf
  have hmarked : Marked cs := hchunks
  have hread := readChunks_of_update hpath.trimmed hne hfirst.nonempty h
  have htaken := (readChunks_extends hread).2
  have hleft : LeavesEmpty ((first :: cs).flatMap PrintedChunk.print ++ tail)
      (taken - (1 + movePath.toList.length)) := by
    rw [List.flatMap_cons, List.append_assoc] at hread ⊢
    by_cases hsepFirst : first.Separated
    · have hrest : ¬ ∀ c ∈ cs, c.Separated := by
        intro hall
        refine hsep fun c hc => ?_
        rcases List.mem_cons.1 hc with rfl | hc
        · exact hsepFirst
        · exact hall c hc
      rw [readChunks_print hfirst hstarts hsepFirst (fun _ => rfl) (endsChunk_marked hmarked htail)]
        at hread
      have htaken' := (readChunks_extends hread).2
      have hleft := readChunks_marked_unseparated hmarked htail hrest hread
      refine hleft.append first.print ?_
      omega
    · rcases readChunks_unseparated hfirst hstarts (fun _ => rfl) hsepFirst hread with hnot | hleft
      · exact absurd ⟨cs.map PrintedChunk.chunk, rfl⟩ hnot
      · exact hleft
  have hfront := hleft.append (k := taken)
    ((updateFileMarker ++ path) :: movePath.toList.map (moveTo ++ ·)) (by simp; omega)
  rw [PrintedHunk.print, ← List.cons_append, List.append_assoc]
  exact hfront

theorem not_read_of_leavesEmpty {lines : List Text} {taken : ℕ} {hunks : List PatchHunk}
    (h : LeavesEmpty lines taken) : readHunks lineNumber (lines.drop taken) ≠ some (.ok hunks) := by
  obtain ⟨rest, hrest⟩ := h
  rw [hrest]
  exact readHunks_blank rfl

/-- Blank lines after a hunk that takes none of them. -/
theorem not_read_after {front after : List Text} {taken : ℕ} {hunks : List PatchHunk}
    (hafter : ∀ l ∈ after, BlankLine l) (hne : after ≠ []) (htaken : taken = front.length) :
    readHunks lineNumber ((front ++ after ++ tail).drop taken) ≠ some (.ok hunks) := by
  obtain ⟨l, blanks, rfl⟩ := List.exists_cons_of_ne_nil hne
  rw [htaken, List.append_assoc, List.drop_left]
  exact readHunks_blank (hafter l List.mem_cons_self).blank

theorem readHunks_print_cons {h : PrintedHunk} {hunks : List PatchHunk}
    (hread : readHunks lineNumber (h.print ++ tail) = some (.ok (h.hunk :: hunks))) :
    ∃ taken, parseOneHunk (h.print ++ tail) lineNumber = some (.ok (h.hunk, taken)) ∧
      readHunks (lineNumber + taken) ((h.print ++ tail).drop taken) = some (.ok hunks) := by
  obtain ⟨header, -, path, lines, hprint⟩ := h.print_header
  rw [hprint, List.cons_append] at hread ⊢
  exact readHunks_cons hread

/-- A hunk without a path is an error. -/
theorem parseOneHunk_not_named {h : PrintedHunk} (hnot : ¬ h.Named) :
    ∃ e, parseOneHunk (h.print ++ tail) lineNumber = some (.error e) := by
  cases h with
  | add path added after =>
      rw [PrintedHunk.Named, ne_eq, not_not] at hnot
      rw [hnot]
      exact parseOneHunk_unnamed (by decide)
  | delete path after =>
      rw [PrintedHunk.Named, ne_eq, not_not] at hnot
      rw [hnot]
      exact parseOneHunk_unnamed (by decide)
  | update path movePath first chunks =>
      rw [PrintedHunk.Named, ne_eq, not_not] at hnot
      rw [hnot]
      exact parseOneHunk_unnamed (by decide)

/-- The other way round: what stands after a hunk whose blank lines are out of
order is an error. -/
theorem not_read_of_not_separated {h : PrintedHunk} {hunks : List PatchHunk} {taken : ℕ}
    (hwf : h.WellFormed) (hnamed : h.Named) (hstarts : h.Starts) (hnot : ¬ h.Separated)
    (htail : EndsHunk tail)
    (hone : parseOneHunk (h.print ++ tail) lineNumber = some (.ok (h.hunk, taken))) :
    readHunks (lineNumber + taken) ((h.print ++ tail).drop taken) ≠ some (.ok hunks) := by
  cases h with
  | add path added after =>
      obtain ⟨hpath, -, hafter⟩ := hwf
      rw [parseOneHunk_addPrint hpath.trimmed hnamed hafter htail] at hone
      refine not_read_after hafter hnot ?_
      cases hone
      simp
  | delete path after =>
      rw [PrintedHunk.print, List.cons_append, parseOneHunk_delete hwf.1.trimmed hnamed] at hone
      have hfront : (PrintedHunk.delete path after).print = [deleteFile ++ path] ++ after := rfl
      rw [hfront]
      refine not_read_after hwf.2 hnot ?_
      cases hone
      rfl
  | update path movePath first chunks =>
      exact not_read_of_leavesEmpty (leavesEmpty_update hwf hnamed hstarts hnot htail hone)

/-- A hunk that the condition leaves out is not read back. -/
theorem not_read_of_not_readable {h : PrintedHunk} {hunks : List PatchHunk} (hwf : h.WellFormed)
    (hplain : h.Named ∧ h.Starts ∨ h.Plain) (hnot : ¬ h.Readable) (htail : EndsHunk tail) :
    readHunks lineNumber (h.print ++ tail) ≠ some (.ok (h.hunk :: hunks)) := by
  intro hread
  obtain ⟨taken, hone, hrest⟩ := readHunks_print_cons hread
  by_cases hnamed : h.Named
  · by_cases hstarts : h.Starts
    · have hsep : ¬ h.Separated := fun hsep => hnot ⟨hnamed, hstarts, hsep⟩
      exact not_read_of_not_separated hwf hnamed hstarts hsep htail hone hrest
    · have hafter : h.Plain := hplain.resolve_left fun hboth => hstarts hboth.2
      cases h with
      | add path added after => exact hstarts trivial
      | delete path after => exact hstarts trivial
      | update path movePath first chunks =>
          obtain ⟨hpath, -, hfirst, hchunks⟩ := hwf
          have hread := readChunks_of_update hpath.trimmed hnamed hfirst.nonempty hone
          exact readChunks_not_starts hchunks htail hstarts (hafter first List.mem_cons_self)
            (fun c hc => hafter c (List.mem_cons_of_mem _ hc)) hread
  · obtain ⟨e, he⟩ := @parseOneHunk_not_named tail lineNumber h hnamed
    rw [he] at hone
    cases hone

theorem readHunks_print {h : PrintedHunk} (hwf : h.WellFormed) (hread : h.Readable)
    (htail : EndsHunk tail) :
    readHunks lineNumber (h.print ++ tail) =
      (readHunks (lineNumber + h.print.length) tail).map fun read => read.map (h.hunk :: ·) := by
  have hone := @parseOneHunk_print tail lineNumber h hwf hread.named hread.starts hread.separated
    htail
  obtain ⟨header, -, path, lines, hprint⟩ := h.print_header
  rw [hprint, List.cons_append] at hone ⊢
  rw [readHunks_hunk hone, ← List.cons_append, List.drop_left]

theorem readHunks_print_iff (hunks : List PrintedHunk) (hwf : ∀ h ∈ hunks, h.WellFormed)
    (hplain : ∀ h ∈ hunks, h.Named ∧ h.Starts ∨ h.Plain) :
    readHunks lineNumber (hunks.flatMap PrintedHunk.print) =
      some (.ok (hunks.map PrintedHunk.hunk)) ↔ ∀ h ∈ hunks, h.Readable := by
  induction hunks generalizing lineNumber with
  | nil => simp [readHunks_nil]
  | cons h hunks ih =>
      have hwf' := fun h' hh => hwf h' (List.mem_cons_of_mem h hh)
      have hplain' := fun h' hh => hplain h' (List.mem_cons_of_mem h hh)
      have htail := endsHunk_hunks hunks
      rw [List.flatMap_cons, List.map_cons, List.forall_mem_cons]
      by_cases hread : h.Readable
      · rw [readHunks_print (hwf h List.mem_cons_self) hread htail,
          ← @ih (lineNumber + h.print.length) hwf' hplain', and_iff_right hread]
        constructor
        · intro hok
          obtain ⟨read, hread, hok⟩ := Option.map_eq_some_iff.1 hok
          cases read with
          | error e => cases hok
          | ok read =>
              rw [hread]
              cases hok
              rfl
        · intro hok
          rw [hok]
          rfl
      · refine iff_of_false ?_ fun hall => hread hall.1
        exact not_read_of_not_readable (hwf h List.mem_cons_self) (hplain h List.mem_cons_self)
          hread htail

/-! ## Every line is one line -/

theorem PatchLine.singleLine_print {l : PatchLine} (h : SingleLine l.text) : SingleLine l.print := by
  cases l with
  | context text => exact List.not_mem_cons_of_ne_of_not_mem (by decide) h
  | add text => exact List.not_mem_cons_of_ne_of_not_mem (by decide) h
  | remove text => exact List.not_mem_cons_of_ne_of_not_mem (by decide) h

theorem SingleLine.append {a b : Text} (ha : SingleLine a) (hb : SingleLine b) :
    SingleLine (a ++ b) := by
  intro h
  rcases List.mem_append.1 h with h | h
  · exact ha h
  · exact hb h

theorem PrintedChunk.singleLine_print {c : PrintedChunk} (hwf : c.WellFormed) :
    ∀ l ∈ c.print, SingleLine l := by
  intro l hl
  rw [PrintedChunk.print, PrintedChunk.lines_eq, List.mem_append, List.mem_append,
    List.mem_append] at hl
  rcases hl with (hl | hl | hl) | hl
  · have hcontext := hwf.context
    cases hmarker : c.marker with
    | missing =>
        rw [hmarker] at hl
        cases hl
    | empty =>
        rw [hmarker] at hl
        rw [List.mem_singleton.1 hl]
        decide
    | line context =>
        rw [hmarker] at hl hcontext
        rw [List.mem_singleton.1 hl]
        have hmark : SingleLine changeContext := by decide
        exact hmark.append (hcontext context rfl).singleLine
  · obtain ⟨l', hl', rfl⟩ := List.mem_map.1 hl
    exact PatchLine.singleLine_print (hwf.singleLine l' hl')
  · rw [endLines] at hl
    split_ifs at hl
    · rw [List.mem_singleton.1 hl]
      decide
    · cases hl
  · exact (hwf.after l hl).singleLine

theorem PrintedHunk.singleLine_print {h : PrintedHunk} (hwf : h.WellFormed) :
    ∀ l ∈ h.print, SingleLine l := by
  intro l hl
  cases h with
  | add path added after =>
      obtain ⟨hpath, hadded, hafter⟩ := hwf
      have hheader : SingleLine addFile := by decide
      rcases List.mem_append.1 hl with hl | hl
      · rcases List.mem_cons.1 hl with rfl | hl
        · exact hheader.append hpath.singleLine
        · obtain ⟨l', hl', rfl⟩ := List.mem_map.1 hl
          exact List.not_mem_cons_of_ne_of_not_mem (by decide) (hadded l' hl')
      · exact (hafter l hl).singleLine
  | delete path after =>
      have hheader : SingleLine deleteFile := by decide
      rcases List.mem_cons.1 hl with rfl | hl
      · exact hheader.append hwf.1.singleLine
      · exact (hwf.2 l hl).singleLine
  | update path movePath first chunks =>
      obtain ⟨hpath, hmove, hfirst, hchunks⟩ := hwf
      have hheader : SingleLine updateFileMarker := by decide
      have hmoveTo : SingleLine moveTo := by decide
      rcases List.mem_cons.1 hl with rfl | hl
      · exact hheader.append hpath.singleLine
      · rcases List.mem_append.1 hl with hl | hl
        · obtain ⟨path', hpath', rfl⟩ := List.mem_map.1 hl
          exact hmoveTo.append (hmove path' (Option.mem_toList.1 hpath')).singleLine
        · obtain ⟨c, hc, hl'⟩ := List.mem_flatMap.1 hl
          rcases List.mem_cons.1 hc with rfl | hc
          · exact PrintedChunk.singleLine_print hfirst l hl'
          · exact PrintedChunk.singleLine_print (hchunks c hc).1 l hl'

theorem parsePatch_print_iff (hunks : List PrintedHunk) (hwf : ∀ h ∈ hunks, h.WellFormed)
    (hplain : ∀ h ∈ hunks, h.Named ∧ h.Starts ∨ h.Plain) :
    parsePatch (printPatch hunks) = some (.ok (hunks.map PrintedHunk.hunk)) ↔
      ∀ h ∈ hunks, h.Readable := by
  have hlines : ∀ l ∈ hunks.flatMap PrintedHunk.print, SingleLine l := by
    intro l hl
    obtain ⟨h, hh, hl'⟩ := List.mem_flatMap.1 hl
    exact PrintedHunk.singleLine_print (hwf h hh) l hl'
  rw [parsePatch_print hlines]
  exact readHunks_print_iff hunks hwf hplain

/-! ## Without the blank lines -/

theorem PrintedChunk.wellFormed_plain {c : PrintedChunk} (h : c.WellFormed) : c.plain.WellFormed :=
  ⟨h.context, h.nonempty, h.singleLine, fun l hl => by cases hl⟩

theorem PrintedHunk.wellFormed_plain {h : PrintedHunk} (hwf : h.WellFormed) :
    h.plain.WellFormed := by
  cases h with
  | add path added after => exact ⟨hwf.1, hwf.2.1, fun l hl => by cases hl⟩
  | delete path after => exact ⟨hwf.1, fun l hl => by cases hl⟩
  | update path movePath first chunks =>
      obtain ⟨hpath, hmove, hfirst, hchunks⟩ := hwf
      refine ⟨hpath, hmove, PrintedChunk.wellFormed_plain hfirst, fun c hc => ?_⟩
      obtain ⟨c', hc', rfl⟩ := List.mem_map.1 hc
      exact ⟨PrintedChunk.wellFormed_plain (hchunks c' hc').1, (hchunks c' hc').2⟩

theorem PrintedHunk.plain_plain (h : PrintedHunk) : h.plain.Plain := by
  cases h with
  | add path added after => rfl
  | delete path after => rfl
  | update path movePath first chunks =>
      intro c hc
      rcases List.mem_cons.1 hc with rfl | hc
      · rfl
      · obtain ⟨c', -, rfl⟩ := List.mem_map.1 hc
        rfl

theorem PrintedHunk.hunk_plain (h : PrintedHunk) : h.plain.hunk = h.hunk := by
  cases h with
  | add path added after => rfl
  | delete path after => rfl
  | update path movePath first chunks =>
      rw [PrintedHunk.plain, PrintedHunk.hunk, PrintedHunk.hunk, List.map_cons, List.map_cons,
        List.map_map]
      rfl

theorem PrintedHunk.Readable.of_plain {h : PrintedHunk} (hread : h.plain.Readable) :
    h.Named ∧ h.Starts := by
  cases h with
  | add path added after => exact ⟨hread.named, trivial⟩
  | delete path after => exact ⟨hread.named, trivial⟩
  | update path movePath first chunks => exact ⟨hread.named, hread.starts⟩

theorem PrintedHunk.Readable.plain {h : PrintedHunk} (hread : h.Readable) : h.plain.Readable := by
  cases h with
  | add path added after => exact ⟨hread.named, trivial, rfl⟩
  | delete path after => exact ⟨hread.named, trivial, rfl⟩
  | update path movePath first chunks =>
      refine ⟨hread.named, hread.starts, fun c hc => ?_⟩
      have hafter := (PrintedHunk.update path movePath first chunks).plain_plain c hc
      refine ⟨?_, fun _ l hl => ?_⟩
      · rw [hafter]
        exact List.not_mem_nil
      · rw [hafter] at hl
        cases hl

def PrintedPatch.Readable (p : PrintedPatch) : Prop := ∀ h ∈ p.printed, h.Readable

/-- Reading ends on every text, and what was written for a list of hunks is read
as these hunks, with its blank lines and without them, exactly when every hunk
has a path, none loses its first line, and no blank line stands where it is not
skipped. -/
theorem patch_round_trip_iff (patchText : Text) (p : PrintedPatch) :
    (parsePatch patchText).isSome ∧
      ((parsePatch p.plainText = some (.ok p.hunks) ∧ parsePatch p.text = some (.ok p.hunks)) ↔
        p.Readable) := by
  refine ⟨parsePatch_isSome patchText, ?_⟩
  have hwf : ∀ h ∈ p.printed.map PrintedHunk.plain, h.WellFormed := by
    intro h hh
    obtain ⟨h', hh', rfl⟩ := List.mem_map.1 hh
    exact PrintedHunk.wellFormed_plain (p.wellFormed h' hh')
  have hplain : ∀ h ∈ p.printed.map PrintedHunk.plain, h.Named ∧ h.Starts ∨ h.Plain := by
    intro h hh
    obtain ⟨h', -, rfl⟩ := List.mem_map.1 hh
    exact .inr h'.plain_plain
  have hhunks : (p.printed.map PrintedHunk.plain).map PrintedHunk.hunk = p.hunks := by
    rw [List.map_map]
    exact List.map_congr_left fun h _ => h.hunk_plain
  have hiff := parsePatch_print_iff _ hwf hplain
  rw [hhunks, List.forall_mem_map] at hiff
  constructor
  · intro ⟨hplainText, htext⟩
    have hstarts : ∀ h ∈ p.printed, h.Named ∧ h.Starts ∨ h.Plain :=
      fun h hh => .inl (hiff.1 hplainText h hh).of_plain
    exact (parsePatch_print_iff p.printed p.wellFormed hstarts).1 htext
  · intro hread
    have hstarts : ∀ h ∈ p.printed, h.Named ∧ h.Starts ∨ h.Plain :=
      fun h hh => .inl ⟨(hread h hh).named, (hread h hh).starts⟩
    exact ⟨hiff.2 fun h hh => (hread h hh).plain,
      (parsePatch_print_iff p.printed p.wellFormed hstarts).2 hread⟩

/-! ## An empty line between two hunks -/

def singleChunk : PrintedChunk := ⟨.empty, [.remove (js "x"), .add (js "y")], false, [[]]⟩

/-- `a` is updated, `b` is deleted, and an empty line is between them. -/
def separatedPatch : PrintedPatch where
  printed := [.update (js "a") none singleChunk [], .delete (js "b") []]
  wellFormed := by
    have htrima : trim (js "a") = js "a" := by decide
    have htrimb : trim (js "b") = js "b" := by decide
    have ha : Name (js "a") := ⟨by decide, htrima ▸ trim_trimmed (js "a")⟩
    have hb : Name (js "b") := ⟨by decide, htrimb ▸ trim_trimmed (js "b")⟩
    have hblank : BlankLine [] := ⟨by decide, rfl⟩
    have hchunk : singleChunk.WellFormed :=
      ⟨fun _ h => (by cases h), List.cons_ne_nil _ _, by decide, by simpa [singleChunk] using hblank⟩
    intro h hh
    simp only [List.mem_cons, List.not_mem_nil, or_false] at hh
    rcases hh with rfl | rfl
    · exact ⟨ha, fun _ h => (by cases h), hchunk, fun _ h => (by cases h)⟩
    · exact ⟨hb, fun _ h => (by cases h)⟩

theorem patch_takes_separator : parsePatch separatedPatch.text ≠ some (.ok separatedPatch.hunks) := by
  decide +kernel

end Shizuha.Tools
