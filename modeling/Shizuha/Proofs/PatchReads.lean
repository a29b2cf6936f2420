import Shizuha.Effect
import Shizuha.Tools.ApplyPatch

/-!
# The patch readers halt

The two loops that go on with what is left run on fuel that is bookkeeping: a
chunk takes a line at least, and so does a hunk, so fuel above the number of
lines is never used up, and any two such amounts give the same answer. The
loops are then read through `readChunks` and `readHunks`, which have equations
without fuel.
-/

namespace Shizuha.Tools

open Js

variable {line : Text} {rest remaining lines : List Text} {chunk chunk' : UpdateFileChunk}
  {chunks : List UpdateFileChunk} {lineNumber startIndex parsed taken : ℕ}

/-! ## A chunk takes a line -/

theorem parseChunkLines_le
    (h : parseChunkLines lineNumber startIndex parsed chunk lines = .ok (chunk', taken)) :
    parsed ≤ taken := by
  fun_induction parseChunkLines lineNumber startIndex parsed chunk lines with
  | case1 parsed chunk =>
      cases h
      exact le_rfl
  | case2 chunk rest => cases h
  | case3 parsed chunk rest hparsed =>
      injection h with h
      injection h with hchunk htaken
      omega
  | case4 parsed chunk rest text heof ih => exact (Nat.le_succ _).trans (ih h)
  | case5 parsed chunk rest text heof ih => exact (Nat.le_succ _).trans (ih h)
  | case6 parsed chunk rest text heof ih => exact (Nat.le_succ _).trans (ih h)
  | case7 parsed chunk rest heof ih => exact (Nat.le_succ _).trans (ih h)
  | case8 chunk line rest => cases h
  | case9 parsed chunk line rest =>
      injection h with h
      injection h with hchunk htaken
      omega

/-! ## The lines of a chunk -/

theorem eofMarker_eq : eofMarker = 42 :: js "** End of File" := by decide

theorem ne_eofMarker {u : UInt16} {text : Text} (hu : u ≠ 42) : u :: text ≠ eofMarker := by
  rw [eofMarker_eq]
  intro h
  exact hu (List.cons.inj h).1

theorem parseChunkLines_eof : parseChunkLines lineNumber startIndex parsed chunk (eofMarker :: rest)
    = if parsed = 0 then .error (.noLines lineNumber)
      else .ok ({ chunk with isEndOfFile := true }, parsed + 1) := by
  rw [parseChunkLines.eq_def]
  exact if_pos rfl

theorem parseChunkLines_context (text : Text) :
    parseChunkLines lineNumber startIndex parsed chunk ((32 :: text) :: rest) =
      parseChunkLines lineNumber startIndex (parsed + 1)
        { chunk with
          oldLines := chunk.oldLines ++ [text], newLines := chunk.newLines ++ [text] } rest := by
  rw [parseChunkLines.eq_def]
  exact if_neg (ne_eofMarker (by decide))

theorem parseChunkLines_add (text : Text) :
    parseChunkLines lineNumber startIndex parsed chunk ((43 :: text) :: rest) =
      parseChunkLines lineNumber startIndex (parsed + 1)
        { chunk with newLines := chunk.newLines ++ [text] } rest := by
  rw [parseChunkLines.eq_def]
  exact if_neg (ne_eofMarker (by decide))

theorem parseChunkLines_remove (text : Text) :
    parseChunkLines lineNumber startIndex parsed chunk ((45 :: text) :: rest) =
      parseChunkLines lineNumber startIndex (parsed + 1)
        { chunk with oldLines := chunk.oldLines ++ [text] } rest := by
  rw [parseChunkLines.eq_def]
  exact if_neg (ne_eofMarker (by decide))

theorem parseChunkLines_empty :
    parseChunkLines lineNumber startIndex parsed chunk ([] :: rest) =
      parseChunkLines lineNumber startIndex (parsed + 1)
        { chunk with
          oldLines := chunk.oldLines ++ [[]], newLines := chunk.newLines ++ [[]] } rest := by
  rw [parseChunkLines.eq_def]
  exact if_neg (by decide)

/-- A line that a chunk does not go on at. -/
structure StopsChunk (line : Text) : Prop where
  notEof : line ≠ eofMarker
  notEmpty : line ≠ []
  notBody : ∀ u ∈ line.head?, u ≠ 32 ∧ u ≠ 43 ∧ u ≠ 45

theorem parseChunkLines_stop (h : StopsChunk line) :
    parseChunkLines lineNumber startIndex parsed chunk (line :: rest) =
      if parsed = 0 then .error (.unexpectedLine (lineNumber + startIndex) line)
      else .ok (chunk, parsed) := by
  rw [parseChunkLines.eq_def]
  dsimp only
  rw [if_neg h.notEof]
  cases line with
  | nil => exact absurd rfl h.notEmpty
  | cons u text =>
      obtain ⟨hspace, hplus, hminus⟩ := h.notBody u rfl
      split
      · exact absurd (List.cons.inj ‹_›).1 hspace
      · exact absurd (List.cons.inj ‹_›).1 hplus
      · exact absurd (List.cons.inj ‹_›).1 hminus
      · cases ‹u :: text = []›
      · rfl

theorem chunkLine_cases (line : Text) : line = eofMarker ∨ (∃ text, line = 32 :: text) ∨
    (∃ text, line = 43 :: text) ∨ (∃ text, line = 45 :: text) ∨ line = [] ∨ StopsChunk line := by
  by_cases heof : line = eofMarker
  · exact .inl heof
  · cases line with
    | nil => simp
    | cons u text =>
        by_cases hspace : u = 32
        · simp [hspace]
        · by_cases hplus : u = 43
          · simp [hplus]
          · by_cases hminus : u = 45
            · simp [hminus]
            · have hstop : StopsChunk (u :: text) :=
                ⟨heof, List.cons_ne_nil _ _, by simp [hspace, hplus, hminus]⟩
              simp [hstop]

/-- The first line is taken, or the reader fails at it. -/
theorem parseChunkLines_pos
    (h : parseChunkLines lineNumber startIndex 0 chunk (line :: rest) = .ok (chunk', taken)) :
    0 < taken := by
  rcases chunkLine_cases line with
    rfl | ⟨text, rfl⟩ | ⟨text, rfl⟩ | ⟨text, rfl⟩ | rfl | hstop
  · rw [parseChunkLines_eof] at h
    cases h
  · rw [parseChunkLines_context] at h
    exact parseChunkLines_le h
  · rw [parseChunkLines_add] at h
    exact parseChunkLines_le h
  · rw [parseChunkLines_remove] at h
    exact parseChunkLines_le h
  · rw [parseChunkLines_empty] at h
    exact parseChunkLines_le h
  · rw [parseChunkLines_stop hstop] at h
    cases h

/-- The old lines that have been read stay. -/
theorem parseChunkLines_extends
    (h : parseChunkLines lineNumber startIndex parsed chunk lines = .ok (chunk', taken)) :
    chunk.oldLines <+: chunk'.oldLines := by
  fun_induction parseChunkLines lineNumber startIndex parsed chunk lines with
  | case1 parsed chunk =>
      cases h
      exact List.prefix_rfl
  | case2 chunk rest => cases h
  | case3 parsed chunk rest hparsed =>
      injection h with h
      injection h with hchunk htaken
      rw [← hchunk]
  | case4 parsed chunk rest text heof ih => exact (List.prefix_append _ _).trans (ih h)
  | case5 parsed chunk rest text heof ih => exact ih h
  | case6 parsed chunk rest text heof ih => exact (List.prefix_append _ _).trans (ih h)
  | case7 parsed chunk rest heof ih => exact (List.prefix_append _ _).trans (ih h)
  | case8 chunk line rest => cases h
  | case9 parsed chunk line rest =>
      injection h with h
      injection h with hchunk htaken
      rw [hchunk]

/-! ## The context marker -/

variable {allowMissingContext : Bool}

theorem parseUpdateChunk_empty :
    parseUpdateChunk (emptyContext :: rest) lineNumber allowMissingContext =
      (parseChunkLines lineNumber 1 0 ⟨none, [], [], false⟩ rest).map
        fun read => (read.1, read.2 + 1) := rfl

theorem parseUpdateChunk_context (context : Text) :
    parseUpdateChunk ((changeContext ++ context) :: rest) lineNumber allowMissingContext =
      (parseChunkLines lineNumber 1 0 ⟨some context, [], [], false⟩ rest).map
        fun read => (read.1, read.2 + 1) := by
  have hne : changeContext ++ context ≠ emptyContext := by
    intro h
    have hlength := congrArg List.length h
    have hthree : changeContext.length = 3 := by decide
    have htwo : emptyContext.length = 2 := by decide
    rw [List.length_append] at hlength
    omega
  rw [parseUpdateChunk]
  refine (if_neg hne).trans ((if_pos (startsWith_append _ _)).trans ?_)
  rw [List.headD_cons, List.drop_left]
  rfl

theorem parseUpdateChunk_missing (hempty : line ≠ emptyContext)
    (hcontext : startsWith line changeContext = false) :
    parseUpdateChunk (line :: rest) lineNumber allowMissingContext =
      if allowMissingContext then
        parseChunkLines lineNumber 0 0 ⟨none, [], [], false⟩ (line :: rest)
      else .error (.expectedContext lineNumber line) := by
  have hnot : ¬ startsWith line changeContext = true := by
    rw [hcontext]
    exact Bool.false_ne_true
  rw [parseUpdateChunk]
  refine (if_neg hempty).trans ((if_neg hnot).trans ?_)
  cases allowMissingContext with
  | false => rfl
  | true => exact bind_pure (parseChunkLines lineNumber 0 0 ⟨none, [], [], false⟩ (line :: rest))

theorem map_succ_pos {read : Except PatchSyntaxError (UpdateFileChunk × ℕ)}
    (h : (read.map fun read => (read.1, read.2 + 1)) = .ok (chunk, taken)) : 0 < taken := by
  cases read with
  | error e => cases h
  | ok read =>
      cases h
      exact Nat.succ_pos _

theorem parseUpdateChunk_pos
    (h : parseUpdateChunk (line :: rest) lineNumber allowMissingContext = .ok (chunk, taken)) :
    0 < taken := by
  by_cases hempty : line = emptyContext
  · subst hempty
    rw [parseUpdateChunk_empty] at h
    exact map_succ_pos h
  · cases hcontext : startsWith line changeContext with
    | true =>
        obtain ⟨context, rfl⟩ := List.isPrefixOf_iff_prefix.1 hcontext
        rw [parseUpdateChunk_context] at h
        exact map_succ_pos h
    | false =>
        rw [parseUpdateChunk_missing hempty hcontext] at h
        split_ifs at h
        exact parseChunkLines_pos h

/-! ## The chunks of a hunk -/

/-- Fuel above the number of lines is never used up. -/
theorem parseChunks_congr {fuel fuel' : ℕ} (h : remaining.length < fuel)
    (h' : remaining.length < fuel') : parseChunks lineNumber fuel parsed chunks remaining =
      parseChunks lineNumber fuel' parsed chunks remaining := by
  induction fuel generalizing fuel' parsed chunks remaining with
  | zero => omega
  | succ fuel ih =>
      obtain ⟨fuel', rfl⟩ : ∃ k, fuel' = k + 1 := ⟨fuel' - 1, by omega⟩
      cases remaining with
      | nil => rfl
      | cons line rest =>
          rw [parseChunks, parseChunks]
          rw [List.length_cons] at h h'
          split_ifs with hempty hblank hmarker
          · rfl
          · exact ih (by omega) (by omega)
          · rfl
          · cases hread : parseUpdateChunk (line :: rest) (lineNumber + parsed)
                (decide (chunks = [])) with
            | error e => rfl
            | ok read =>
                have hpos := parseUpdateChunk_pos hread
                have hlength : ((line :: rest).drop read.2).length < rest.length + 1 := by
                  rw [List.length_drop, List.length_cons]
                  omega
                exact ih (by omega) (by omega)

/-- What has been read stays. -/
theorem parseChunks_extends {fuel taken : ℕ} {chunks' : List UpdateFileChunk}
    (h : parseChunks lineNumber fuel parsed chunks remaining = some (.ok (chunks', taken))) :
    chunks <+: chunks' ∧ parsed ≤ taken := by
  induction fuel generalizing parsed chunks remaining with
  | zero => cases h
  | succ fuel ih =>
      cases remaining with
      | nil =>
          cases h
          exact ⟨List.prefix_rfl, le_rfl⟩
      | cons line rest =>
          rw [parseChunks] at h
          split_ifs at h with hempty hblank hmarker
          · cases h
            exact ⟨List.prefix_rfl, le_rfl⟩
          · obtain ⟨hchunks, htaken⟩ := ih h
            exact ⟨hchunks, by omega⟩
          · cases h
            exact ⟨List.prefix_rfl, le_rfl⟩
          · cases hread : parseUpdateChunk (line :: rest) (lineNumber + parsed)
                (decide (chunks = [])) with
            | error e =>
                rw [hread] at h
                cases h
            | ok read =>
                rw [hread] at h
                obtain ⟨hchunks, htaken⟩ := ih h
                exact ⟨(List.prefix_append _ _).trans hchunks, by omega⟩

theorem parseChunks_isSome {fuel : ℕ} (h : remaining.length < fuel) :
    (parseChunks lineNumber fuel parsed chunks remaining).isSome := by
  induction fuel generalizing parsed chunks remaining with
  | zero => omega
  | succ fuel ih =>
      cases remaining with
      | nil => rfl
      | cons line rest =>
          rw [parseChunks]
          rw [List.length_cons] at h
          split_ifs with hempty hblank hmarker
          · rfl
          · exact ih (by omega)
          · rfl
          · cases hread : parseUpdateChunk (line :: rest) (lineNumber + parsed)
                (decide (chunks = [])) with
            | error e => rfl
            | ok read =>
                have hpos := parseUpdateChunk_pos hread
                have hlength : ((line :: rest).drop read.2).length < rest.length + 1 := by
                  rw [List.length_drop, List.length_cons]
                  omega
                exact ih (by omega)

/-- The chunks of a hunk, of which some have been read. -/
def readChunks (lineNumber parsed : ℕ) (chunks : List UpdateFileChunk) (remaining : List Text) :
    Option (Except PatchSyntaxError (List UpdateFileChunk × ℕ)) :=
  parseChunks lineNumber (remaining.length + 1) parsed chunks remaining

theorem readChunks_nil : readChunks lineNumber parsed chunks [] = some (.ok (chunks, parsed)) :=
  rfl

theorem readChunks_empty :
    readChunks lineNumber parsed chunks ([] :: rest) = some (.ok (chunks, parsed)) := rfl

theorem readChunks_blank (hempty : line ≠ []) (hblank : trim line = []) :
    readChunks lineNumber parsed chunks (line :: rest) =
      readChunks lineNumber (parsed + 1) chunks rest := by
  rw [readChunks, List.length_cons, parseChunks]
  rw [if_neg hempty, if_pos hblank, readChunks]

theorem readChunks_marker (hempty : line ≠ []) (hblank : trim line ≠ [])
    (hmarker : startsWith line (js "***") = true) :
    readChunks lineNumber parsed chunks (line :: rest) = some (.ok (chunks, parsed)) := by
  rw [readChunks, List.length_cons, parseChunks]
  rw [if_neg hempty, if_neg hblank, if_pos hmarker]

theorem readChunks_chunk (hempty : line ≠ []) (hblank : trim line ≠ [])
    (hmarker : startsWith line (js "***") = false) :
    readChunks lineNumber parsed chunks (line :: rest) =
      match parseUpdateChunk (line :: rest) (lineNumber + parsed) (chunks = []) with
      | .error e => some (.error e)
      | .ok (chunk, taken) =>
          readChunks lineNumber (parsed + taken) (chunks ++ [chunk])
            ((line :: rest).drop taken) := by
  rw [readChunks, List.length_cons, parseChunks]
  rw [if_neg hempty, if_neg hblank, if_neg (by rw [hmarker]; exact Bool.false_ne_true)]
  cases hread : parseUpdateChunk (line :: rest) (lineNumber + parsed) (decide (chunks = [])) with
  | error e => rfl
  | ok read =>
      have hpos := parseUpdateChunk_pos hread
      have hlength : ((line :: rest).drop read.2).length < rest.length + 1 := by
        rw [List.length_drop, List.length_cons]
        omega
      exact parseChunks_congr hlength (Nat.lt_succ_self _)

/-! ## The hunks of a patch -/

variable {hunk : PatchHunk} {filePath : Text}

/-- The hunk that the chunks read make. -/
def finishHunk (filePath : Text) (movePath : Option Text) (lineNumber : ℕ)
    (read : Except PatchSyntaxError (List UpdateFileChunk × ℕ)) :
    Except PatchSyntaxError (PatchHunk × ℕ) := do
  let (chunks, parsed) ← read
  if chunks = [] then .error (.emptyUpdate filePath lineNumber)
  else return (.update filePath movePath chunks, parsed)

theorem finishHunk_ok_iff {movePath : Option Text}
    {read : Except PatchSyntaxError (List UpdateFileChunk × ℕ)} :
    finishHunk filePath movePath lineNumber read = .ok (hunk, taken) ↔
      ∃ chunks, read = .ok (chunks, taken) ∧ chunks ≠ [] ∧
        hunk = .update filePath movePath chunks := by
  constructor
  · intro h
    obtain ⟨⟨chunks, parsed⟩, hread, hhunk⟩ := Except.bind_ok_iff.1 h
    dsimp only at hhunk
    split_ifs at hhunk with hchunks
    cases hhunk
    exact ⟨chunks, hread, hchunks, rfl⟩
  · rintro ⟨chunks, rfl, hchunks, rfl⟩
    exact if_neg hchunks

theorem parseUpdateHunk_move (movePath : Text) :
    parseUpdateHunk filePath ((moveTo ++ movePath) :: rest) lineNumber =
      (readChunks lineNumber 2 [] rest).map (finishHunk filePath (some movePath) lineNumber) := by
  unfold parseUpdateHunk
  dsimp only
  rw [if_pos (startsWith_append _ _), List.drop_left]
  rfl

theorem parseUpdateHunk_stay (h : ∀ line ∈ rest.head?, startsWith line moveTo = false) :
    parseUpdateHunk filePath rest lineNumber =
      (readChunks lineNumber 1 [] rest).map (finishHunk filePath none lineNumber) := by
  unfold parseUpdateHunk
  cases rest with
  | nil => rfl
  | cons line rest =>
      have hnot : ¬ startsWith line moveTo = true := by
        rw [h line rfl]
        exact Bool.false_ne_true
      dsimp only
      rw [if_neg hnot]
      rfl

theorem parseUpdateHunk_cases (rest : List Text) :
    (∃ movePath rest', rest = (moveTo ++ movePath) :: rest') ∨
      ∀ line ∈ rest.head?, startsWith line moveTo = false := by
  cases rest with
  | nil => exact .inr (by simp)
  | cons line rest =>
      cases hmove : startsWith line moveTo with
      | true =>
          obtain ⟨movePath, rfl⟩ := List.isPrefixOf_iff_prefix.1 hmove
          exact .inl ⟨movePath, rest, rfl⟩
      | false => exact .inr (by simp [hmove])

theorem readChunks_extends {chunks' : List UpdateFileChunk}
    (h : readChunks lineNumber parsed chunks remaining = some (.ok (chunks', taken))) :
    chunks <+: chunks' ∧ parsed ≤ taken := parseChunks_extends h

theorem readChunks_isSome : (readChunks lineNumber parsed chunks remaining).isSome :=
  parseChunks_isSome (Nat.lt_succ_self _)

theorem parseUpdateHunk_isSome : (parseUpdateHunk filePath rest lineNumber).isSome := by
  rcases parseUpdateHunk_cases rest with ⟨movePath, rest', rfl⟩ | hstay
  · rw [parseUpdateHunk_move, Option.isSome_map]
    exact readChunks_isSome
  · rw [parseUpdateHunk_stay hstay, Option.isSome_map]
    exact readChunks_isSome

theorem finishHunk_pos {movePath : Option Text} (hparsed : 0 < parsed)
    (h : (readChunks lineNumber parsed [] remaining).map (finishHunk filePath movePath lineNumber) =
      some (.ok (hunk, taken))) : 0 < taken := by
  obtain ⟨read, hread, h⟩ := Option.map_eq_some_iff.1 h
  obtain ⟨chunks, rfl, -, -⟩ := finishHunk_ok_iff.1 h
  exact hparsed.trans_le (parseChunks_extends hread).2

theorem parseOneHunk_isSome : (parseOneHunk lines lineNumber).isSome := by
  unfold parseOneHunk
  split
  · rfl
  · rfl
  · dsimp only
    split_ifs
    · rfl
    · rfl
    · exact parseUpdateHunk_isSome
    · rfl

theorem parseUpdateHunk_pos
    (h : parseUpdateHunk filePath rest lineNumber = some (.ok (hunk, taken))) : 0 < taken := by
  rcases parseUpdateHunk_cases rest with ⟨movePath, rest', rfl⟩ | hstay
  · rw [parseUpdateHunk_move] at h
    exact finishHunk_pos (Nat.succ_pos _) h
  · rw [parseUpdateHunk_stay hstay] at h
    exact finishHunk_pos (Nat.succ_pos _) h

theorem parseOneHunk_pos (h : parseOneHunk lines lineNumber = some (.ok (hunk, taken))) :
    0 < taken := by
  unfold parseOneHunk at h
  split at h
  · cases h
  · cases h
  · dsimp only at h
    split_ifs at h
    · cases h
      exact Nat.succ_pos _
    · cases h
      exact Nat.succ_pos _
    · exact parseUpdateHunk_pos h
    · cases h

theorem parseHunks_congr {fuel fuel' : ℕ} (h : remaining.length < fuel)
    (h' : remaining.length < fuel') :
    parseHunks fuel lineNumber remaining = parseHunks fuel' lineNumber remaining := by
  induction fuel generalizing fuel' lineNumber remaining with
  | zero => omega
  | succ fuel ih =>
      obtain ⟨fuel', rfl⟩ : ∃ k, fuel' = k + 1 := ⟨fuel' - 1, by omega⟩
      cases remaining with
      | nil => rfl
      | cons line rest =>
          rw [parseHunks, parseHunks]
          rw [List.length_cons] at h h'
          cases hread : parseOneHunk (line :: rest) lineNumber with
          | none => rfl
          | some read =>
              cases read with
              | error e => rfl
              | ok read =>
                  have hpos := parseOneHunk_pos hread
                  have hlength : ((line :: rest).drop read.2).length < rest.length + 1 := by
                    rw [List.length_drop, List.length_cons]
                    omega
                  have hrest : parseHunks fuel (lineNumber + read.2) ((line :: rest).drop read.2) =
                      parseHunks fuel' (lineNumber + read.2) ((line :: rest).drop read.2) :=
                    ih (by omega) (by omega)
                  dsimp only
                  rw [hrest]

theorem parseHunks_isSome {fuel : ℕ} (h : remaining.length < fuel) :
    (parseHunks fuel lineNumber remaining).isSome := by
  induction fuel generalizing lineNumber remaining with
  | zero => omega
  | succ fuel ih =>
      cases remaining with
      | nil => rfl
      | cons line rest =>
          rw [parseHunks]
          rw [List.length_cons] at h
          cases hread : parseOneHunk (line :: rest) lineNumber with
          | none =>
              have hsome := @parseOneHunk_isSome (line :: rest) lineNumber
              rw [hread] at hsome
              cases hsome
          | some read =>
              cases read with
              | error e => rfl
              | ok read =>
                  have hpos := parseOneHunk_pos hread
                  have hlength : ((line :: rest).drop read.2).length < rest.length + 1 := by
                    rw [List.length_drop, List.length_cons]
                    omega
                  dsimp only
                  rw [Option.isSome_map]
                  exact ih (by omega)

def readHunks (lineNumber : ℕ) (remaining : List Text) :
    Option (Except PatchSyntaxError (List PatchHunk)) :=
  parseHunks (remaining.length + 1) lineNumber remaining

theorem readHunks_nil : readHunks lineNumber [] = some (.ok []) := rfl

theorem readHunks_hunk (h : parseOneHunk (line :: rest) lineNumber = some (.ok (hunk, taken))) :
    readHunks lineNumber (line :: rest) =
      (readHunks (lineNumber + taken) ((line :: rest).drop taken)).map fun read =>
        read.map (hunk :: ·) := by
  have hpos := parseOneHunk_pos h
  have hlength : ((line :: rest).drop taken).length < rest.length + 1 := by
    rw [List.length_drop, List.length_cons]
    omega
  rw [readHunks, List.length_cons, parseHunks, h]
  dsimp only
  rw [parseHunks_congr hlength (Nat.lt_succ_self _), readHunks]

theorem readHunks_error {e : PatchSyntaxError}
    (h : parseOneHunk (line :: rest) lineNumber = some (.error e)) :
    readHunks lineNumber (line :: rest) = some (.error e) := by
  rw [readHunks, List.length_cons, parseHunks, h]

theorem readHunks_cons {hunks : List PatchHunk}
    (h : readHunks lineNumber (line :: rest) = some (.ok (hunk :: hunks))) :
    ∃ taken, parseOneHunk (line :: rest) lineNumber = some (.ok (hunk, taken)) ∧
      readHunks (lineNumber + taken) ((line :: rest).drop taken) = some (.ok hunks) := by
  cases hread : parseOneHunk (line :: rest) lineNumber with
  | none =>
      have hsome := @parseOneHunk_isSome (line :: rest) lineNumber
      rw [hread] at hsome
      cases hsome
  | some read =>
      cases read with
      | error e =>
          rw [readHunks_error hread] at h
          cases h
      | ok read =>
          rw [readHunks_hunk hread] at h
          obtain ⟨after, hafter, h⟩ := Option.map_eq_some_iff.1 h
          cases after with
          | error e => cases h
          | ok hunks =>
              cases h
              exact ⟨read.2, rfl, hafter⟩

/-- The parser ends on every text. -/
theorem parsePatch_isSome (patchText : Text) : (parsePatch patchText).isSome := by
  rw [parsePatch]
  dsimp only
  split_ifs
  · rfl
  · rfl
  · exact parseHunks_isSome (Nat.lt_succ_self _)

end Shizuha.Tools
