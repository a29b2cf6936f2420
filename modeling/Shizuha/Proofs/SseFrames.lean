import Shizuha.Js.JsonRoundTrip
import Shizuha.LocalCore.Protocol

/-!
# When every frame of an event stream is an event

Which events come out depends on the bytes of the body alone, not on how it
was cut into chunks. But the text is cut at two line feeds in a row, and an
empty line that ends with a carriage return and a line feed makes no such
pair: the frame it ends waits for the next empty line that is a bare line feed
and is read together with what comes until there. That goes well if nothing
with data does, and only then.
-/

namespace Shizuha.LocalCore

open Js

/-! ## Chunks -/

/-- Between two frames. -/
abbrev blank : Text := js "\n\n"

theorem blank_ne_nil : blank ≠ [] := by decide

theorem flushLoop_eq {fuel : ℕ} {r : SseReader} (h : r.buffer.length ≤ fuel) :
    r.flushLoop fuel = ((cut blank r.buffer).1.foldlM onFrame r.calls).map
      fun calls => ⟨(cut blank r.buffer).2, calls⟩ := by
  induction fuel generalizing r with
  | zero =>
      have hnil : r.buffer = [] := List.length_eq_zero_iff.mp (Nat.le_zero.mp h)
      have hcut : cut blank r.buffer = ([], r.buffer) := by rw [hnil]; rfl
      rw [hcut]
      rfl
  | succ fuel ih =>
      rw [SseReader.flushLoop]
      cases hidx : indexOf (js "\n\n") r.buffer with
      | none =>
          rw [cut_of_none hidx]
          rfl
      | some boundary =>
          have hle := indexOf_le hidx
          have hlen : (js "\n\n").length = 2 := by decide
          rw [cut_of_some blank_ne_nil hidx, List.foldlM_cons]
          simp only
          cases hframe : onFrame r.calls (r.buffer.take boundary) with
          | error failure => rfl
          | ok calls =>
              simp only
              rw [ih (r := ⟨r.buffer.drop (boundary + 2), calls⟩)
                (by rw [List.length_drop]; omega)]
              rfl

theorem flush_eq (r : SseReader) (chunk : Text) :
    r.flush chunk = ((cut blank (r.buffer ++ chunk)).1.foldlM onFrame r.calls).map
      fun calls => ⟨(cut blank (r.buffer ++ chunk)).2, calls⟩ := by
  rw [SseReader.flush, flushLoop_eq (r := ⟨r.buffer ++ chunk, r.calls⟩) (le_refl _)]

theorem foldlM_append_frames (a b : List Text) (calls : List CoreStreamEvent) :
    (a ++ b).foldlM onFrame calls = (a.foldlM onFrame calls).bind fun calls =>
      b.foldlM onFrame calls := List.foldlM_append ..

theorem consumeFrom_eq (decoder : TextDecoder) (r : SseReader) (chunks : List Bytes)
    (h : cut blank r.buffer = ([], r.buffer)) :
    consumeFrom decoder r chunks =
      (cut blank (r.buffer ++ decoder.rest chunks.flatten)).1.foldlM onFrame r.calls := by
  induction chunks generalizing decoder r with
  | nil =>
      rw [consumeFrom, flush_eq, List.flatten_nil]
      show Except.map _ (Except.map _ (List.foldlM onFrame r.calls
        (cut blank (r.buffer ++ decoder.finish)).1)) =
          List.foldlM onFrame r.calls (cut blank (r.buffer ++ decoder.finish)).1
      cases List.foldlM onFrame r.calls (cut blank (r.buffer ++ decoder.finish)).1 <;> rfl
  | cons value rest ih =>
      rw [consumeFrom, flush_eq, List.flatten_cons, TextDecoder.rest_append, ← List.append_assoc,
        cut_append blank_ne_nil (r.buffer ++ (decoder.decode value).1), foldlM_append_frames]
      cases hframes : List.foldlM onFrame r.calls
          (cut blank (r.buffer ++ (decoder.decode value).1)).1 with
      | error failure => rfl
      | ok calls => exact ih _ ⟨_, calls⟩ (cut_rest blank_ne_nil _)

theorem consumeSse_eq (chunks : List Bytes) :
    consumeSse chunks = (cut blank (streamText chunks.flatten)).1.foldlM onFrame [] :=
  consumeFrom_eq .init ⟨[], []⟩ chunks rfl

/-- How a body is cut into chunks makes no difference. -/
theorem consumeSse_flatten (chunks : List Bytes) : consumeSse [chunks.flatten] = consumeSse chunks := by
  rw [consumeSse_eq, consumeSse_eq, List.flatten_singleton]

/-! ## The grammar -/

/-- A line and how it ends. -/
structure SseLine where
  text : Text
  crlf : Bool
  plain : 10 ∉ text ∧ 13 ∉ text

def ending (crlf : Bool) : Text := if crlf then [13, 10] else [10]

def SseLine.units (l : SseLine) : Text := l.text ++ ending l.crlf

def blankLine (crlf : Bool) : SseLine := ⟨[], crlf, by simp⟩

def linesText (ls : List SseLine) : Text := ls.flatMap SseLine.units

/-- Lines with something on them, and the empty line that ends them. -/
structure SseFrame where
  lines : List SseLine
  nonblank : ∀ l ∈ lines, l.text ≠ []
  crlf : Bool

namespace SseFrame

def units (f : SseFrame) : Text := linesText f.lines ++ ending f.crlf

end SseFrame

def framesText (frames : List SseFrame) : Text := frames.flatMap SseFrame.units

/-- What the data lines among some lines carry. -/
def dataValues (ls : List SseLine) : List Text := ls.filterMap fun l => dataValue l.text

namespace SseFrame

def values (f : SseFrame) : List Text := dataValues f.lines

/-- The event of a frame. -/
def event (f : SseFrame) : Option CoreStreamEvent :=
  match parseCoreStreamEvent (join (js "\n") f.values) with
  | .ok event => some event
  | .error _ => none

/-- A frame without data, or one whose data is an event. -/
def Supported (f : SseFrame) : Prop := f.values = [] ∨ f.event.isSome = true

end SseFrame

instance (f : SseFrame) : Decidable f.Supported := inferInstanceAs (Decidable (_ ∨ _))

theorem linesText_append (a b : List SseLine) : linesText (a ++ b) = linesText a ++ linesText b :=
  List.flatMap_append

theorem linesText_concat (a : List SseLine) (l : SseLine) :
    linesText (a ++ [l]) = linesText a ++ l.units := by
  rw [linesText_append, linesText, linesText, List.flatMap_singleton]

theorem dataValues_append (a b : List SseLine) :
    dataValues (a ++ b) = dataValues a ++ dataValues b := List.filterMap_append

theorem dataValues_blank (crlf : Bool) : dataValues [blankLine crlf] = [] := rfl

/-! ## Where the text is cut -/

/-- A buffer without an empty line that is a bare line feed. -/
def Uncut (b : Text) : Prop := indexOf blank b = none

theorem indexOf_blank_concat {b : Text} (h : Uncut b) (u : UInt16) :
    indexOf blank (b ++ [u]) =
      if u = 10 ∧ b.getLast? = some 10 then some (b.length - 1) else none := by
  have hblank : blank = [10, 10] := by decide
  rw [Uncut, hblank] at h
  rw [hblank]
  induction b with
  | nil => simp [indexOf, List.isPrefixOf]
  | cons v b ih =>
      rw [indexOf] at h
      split_ifs at h with hpre
      rw [Option.map_eq_none_iff] at h
      rw [List.cons_append, indexOf]
      cases b with
      | nil =>
          by_cases hv : v = 10
          · by_cases hu : u = 10
            · simp [hv, hu, List.isPrefixOf]
            · simp [hv, hu, List.isPrefixOf, indexOf, Ne.symm hu]
          · simp [hv, List.isPrefixOf, indexOf, Ne.symm hv]
      | cons w b =>
          have hpre' : ¬ [10, 10].isPrefixOf (v :: (w :: b ++ [u])) = true := by
            intro hp
            apply hpre
            rw [List.isPrefixOf_iff_prefix] at hp ⊢
            rw [List.cons_append, List.cons_prefix_cons, List.cons_prefix_cons] at hp
            rw [List.cons_prefix_cons, List.cons_prefix_cons]
            exact ⟨hp.1, hp.2.1, List.nil_prefix⟩
          rw [if_neg hpre', ih h, List.getLast?_cons_cons]
          split_ifs <;> simp

theorem Uncut.concat {b : Text} (h : Uncut b) {u : UInt16}
    (hu : ¬ (u = 10 ∧ b.getLast? = some 10)) : Uncut (b ++ [u]) := by
  rw [Uncut, indexOf_blank_concat h, if_neg hu]

theorem Uncut.append {b t : Text} (h : Uncut b) (ht : 10 ∉ t) : Uncut (b ++ t) := by
  induction t generalizing b with
  | nil => rwa [List.append_nil]
  | cons u t ih =>
      have hu : ¬ (u = 10 ∧ b.getLast? = some 10) := fun hboth => ht (by simp [hboth.1])
      rw [← List.singleton_append, ← List.append_assoc]
      exact ih (h.concat hu) fun hmem => ht (by simp [hmem])

/-- The bare line feed after a buffer that ends with one. -/
theorem cut_concat_newline {b : Text} (h : Uncut b) (hlast : b.getLast? = some 10) :
    cut blank (b ++ [10]) = ([b.dropLast], []) := by
  have hne : b ≠ [] := by
    intro hnil
    rw [hnil] at hlast
    cases hlast
  have hpos : 0 < b.length := List.length_pos_iff.mpr hne
  have hlen : blank.length = 2 := by decide
  have hidx : indexOf blank (b ++ [10]) = some (b.length - 1) := by
    rw [indexOf_blank_concat h, if_pos ⟨rfl, hlast⟩]
  have hdrop : (b ++ [10]).drop (b.length - 1 + 2) = [] := by
    rw [List.drop_eq_nil_iff]
    simp
    omega
  rw [cut_of_some blank_ne_nil hidx, hlen, hdrop, List.take_append_of_le_length (by omega),
    ← List.dropLast_eq_take]
  rfl

/-- A line with something on it, or one that ends with both, makes no pair. -/
theorem Uncut.line {b : Text} (h : Uncut b) {l : SseLine} (hl : l.text ≠ [] ∨ l.crlf = true) :
    Uncut (b ++ l.units) := by
  have htext : Uncut (b ++ l.text) := h.append l.plain.1
  rw [SseLine.units, ← List.append_assoc, ending]
  by_cases hcrlf : l.crlf = true
  · rw [if_pos hcrlf, show ([13, 10] : Text) = [13] ++ [10] from rfl, ← List.append_assoc]
    refine (htext.append (t := [13]) (by decide)).concat ?_
    rw [List.getLast?_concat]
    decide
  · rw [if_neg hcrlf]
    have hne : l.text ≠ [] := hl.resolve_right hcrlf
    refine htext.concat fun hboth => ?_
    obtain ⟨-, hlast⟩ := hboth
    rw [List.getLast?_append_of_ne_nil _ hne] at hlast
    exact l.plain.1 (List.mem_of_getLast? hlast)

theorem Uncut.lines {b : Text} (h : Uncut b) {ls : List SseLine} (hls : ∀ l ∈ ls, l.text ≠ []) :
    Uncut (b ++ linesText ls) := by
  induction ls generalizing b with
  | nil => rwa [linesText, List.flatMap_nil, List.append_nil]
  | cons l ls ih =>
      rw [linesText, List.flatMap_cons, ← List.append_assoc]
      exact ih (h.line (.inl (hls l (by simp)))) fun l' hl' => hls l' (by simp [hl'])

theorem getLast?_linesText {ls : List SseLine} (h : ls ≠ []) :
    (linesText ls).getLast? = some 10 := by
  rw [← List.dropLast_concat_getLast h, linesText_concat, SseLine.units, ending]
  split_ifs
  · rw [show ([13, 10] : Text) = [13] ++ [10] from rfl, ← List.append_assoc, ← List.append_assoc,
      List.getLast?_concat]
  · rw [← List.append_assoc, List.getLast?_concat]

/-- The lines that are read together, from the ones that wait. -/
def groups (waiting : List SseLine) : List SseFrame → List (List SseLine)
  | [] => []
  | f :: rest =>
      if f.crlf = false ∧ waiting ++ f.lines ≠ [] then (waiting ++ f.lines) :: groups [] rest
      else groups (waiting ++ f.lines ++ [blankLine f.crlf]) rest

/-- Their text, without the line feed that belongs to the cut. -/
def groupText (g : List SseLine) : Text := (linesText g).dropLast

theorem cut_framesText {waiting : List SseLine} (h : Uncut (linesText waiting))
    (frames : List SseFrame) :
    (cut blank (linesText waiting ++ framesText frames)).1 =
      (groups waiting frames).map groupText := by
  induction frames generalizing waiting with
  | nil =>
      rw [framesText, List.flatMap_nil, List.append_nil, cut_of_none h]
      rfl
  | cons f rest ih =>
      have hlines : Uncut (linesText (waiting ++ f.lines)) := by
        rw [linesText_append]
        exact h.lines f.nonblank
      have htext : linesText waiting ++ framesText (f :: rest) =
          (linesText (waiting ++ f.lines) ++ ending f.crlf) ++ framesText rest := by
        rw [framesText, List.flatMap_cons, SseFrame.units, linesText_append]
        simp only [List.append_assoc]
        rfl
      rw [htext, groups]
      by_cases hcut : f.crlf = false ∧ waiting ++ f.lines ≠ []
      · have hfire := cut_concat_newline hlines (getLast?_linesText hcut.2)
        rw [if_pos hcut, cut_append blank_ne_nil, ending, hcut.1]
        simp only [Bool.false_eq_true, if_false, hfire]
        rw [List.nil_append, List.map_cons, ← @ih [] rfl]
        rfl
      · have hblank : linesText (waiting ++ f.lines) ++ ending f.crlf =
            linesText (waiting ++ f.lines ++ [blankLine f.crlf]) := by
          rw [linesText_concat]
          rfl
        rw [if_neg hcut, hblank]
        refine ih ?_
        cases hcrlf : f.crlf with
        | true =>
            rw [linesText_concat]
            exact hlines.line (.inr rfl)
        | false =>
            have hnil : waiting ++ f.lines = [] := by
              by_contra hne
              exact hcut ⟨hcrlf, hne⟩
            rw [hnil]
            rfl

/-! ## The data of a group -/

theorem splitLines_ne_nil (s : Text) : splitLines s ≠ [] := by
  induction s with
  | nil => simp [splitLines]
  | cons u s ih =>
      rw [splitLines]
      split_ifs
      · simp
      · exact ih
      · cases hs : splitLines s <;> simp

/-- A text without a line feed is one line. -/
theorem splitLines_of_not_mem {s : Text} (h : 10 ∉ s) : splitLines s = [s] := by
  induction s with
  | nil => rfl
  | cons u s ih =>
      have hu : u ≠ 10 := fun hu => h (by simp [hu])
      have hs : 10 ∉ s := fun hs => h (by simp [hs])
      have hhead : ¬ (u = 13 ∧ s.head? = some 10) := fun hboth =>
        hs (List.mem_of_mem_head? hboth.2)
      rw [splitLines, if_neg hu, if_neg hhead, ih hs]

/-- The first line of a text. -/
theorem splitLines_units (l : SseLine) (s : Text) :
    splitLines (l.units ++ s) = l.text :: splitLines s := by
  obtain ⟨text, crlf, hlf, hcr⟩ := l
  rw [SseLine.units]
  simp only
  induction text with
  | nil =>
      cases crlf with
      | false => rw [ending, if_neg (by decide), List.nil_append, List.singleton_append, splitLines,
          if_pos rfl]
      | true =>
          rw [ending, if_pos rfl, List.nil_append, List.cons_append, splitLines, if_neg (by decide),
            if_pos ⟨rfl, rfl⟩, List.singleton_append, splitLines, if_pos rfl]
  | cons u text ih =>
      have hu : u ≠ 10 := fun hu => hlf (by simp [hu])
      have hu' : u ≠ 13 := fun hu => hcr (by simp [hu])
      rw [List.cons_append, List.cons_append, splitLines, if_neg hu, if_neg fun h => hu' h.1,
        ih (fun h => hlf (by simp [h])) (fun h => hcr (by simp [h]))]

theorem splitLines_linesText (ls : List SseLine) (s : Text) :
    splitLines (linesText ls ++ s) = ls.map SseLine.text ++ splitLines s := by
  induction ls with
  | nil => rfl
  | cons l ls ih =>
      rw [linesText, List.flatMap_cons, List.append_assoc, splitLines_units]
      rw [linesText] at ih
      rw [ih]
      rfl

/-- The carriage return that the cut leaves behind the last line. -/
def leftover (crlf : Bool) : Text := if crlf then [13] else []

theorem groupText_concat (g : List SseLine) (l : SseLine) :
    groupText (g ++ [l]) = linesText g ++ (l.text ++ leftover l.crlf) := by
  rw [groupText, linesText_concat, SseLine.units, ending, leftover]
  split_ifs
  · rw [show ([13, 10] : Text) = [13] ++ [10] from rfl, ← List.append_assoc, ← List.append_assoc,
      List.dropLast_concat, List.append_assoc]
  · rw [← List.append_assoc, List.dropLast_concat, List.append_nil]

theorem startsWith_leftover {s : Text} (crlf : Bool) :
    startsWith (s ++ leftover crlf) (js "data:") = startsWith s (js "data:") := by
  cases crlf with
  | false => rw [leftover, if_neg (by decide), List.append_nil]
  | true =>
      rw [leftover, if_pos rfl, startsWith, startsWith, Bool.eq_iff_iff, List.isPrefixOf_iff_prefix,
        List.isPrefixOf_iff_prefix]
      constructor
      · intro h
        rcases List.prefix_concat_iff.mp h with heq | hpre
        · have hmem : (13 : UInt16) ∈ js "data:" := by
            rw [heq]
            simp
          exact absurd hmem (by decide)
        · exact hpre
      · intro h
        exact h.trans (List.prefix_append s [13])

/-- What is left behind is white space, and gone if the line carries nothing. -/
theorem dataValue_leftover {s v : Text} (h : dataValue s = some v) (crlf : Bool) :
    ∃ pad, dataValue (s ++ leftover crlf) = some (v ++ pad) ∧
      ∀ u ∈ pad, isJsonSpace u = true := by
  rw [dataValue] at h
  split_ifs at h with hpre
  cases h
  have hlen : 5 ≤ s.length := by
    have := (List.isPrefixOf_iff_prefix.mp hpre).length_le
    exact this
  rw [dataValue, startsWith_leftover, if_pos hpre, List.drop_append_of_le_length hlen]
  cases crlf with
  | false => exact ⟨[], by rw [leftover, if_neg (by decide), List.append_nil, List.append_nil], by simp⟩
  | true =>
      rw [leftover, if_pos rfl, trimStart, trimStart, List.dropWhile_append]
      split_ifs with hnil
      · refine ⟨[], ?_, by simp⟩
        rw [List.isEmpty_iff] at hnil
        rw [hnil]
        rfl
      · exact ⟨[13], rfl, fun u hu => by rw [List.mem_singleton.mp hu]; rfl⟩

theorem join_concat_append (vs : List Text) (v pad : Text) :
    join (js "\n") (vs ++ [v ++ pad]) = join (js "\n") (vs ++ [v]) ++ pad := by
  induction vs with
  | nil => simp [join]
  | cons w vs ih =>
      have hsplit : ∀ x : Text, join (js "\n") (w :: (vs ++ [x])) =
          w ++ js "\n" ++ join (js "\n") (vs ++ [x]) := by
        intro x
        rw [join, List.intercalate_cons_of_ne_nil (by simp), join]
      rw [List.cons_append, List.cons_append, hsplit, hsplit, ih]
      simp only [List.append_assoc]

/-- The data of a group are what its data lines carry, up to white space at
the end. -/
theorem frameData_groupText {g : List SseLine} (h : g ≠ []) :
    ∃ pad, frameData (groupText g) = join (js "\n") (dataValues g) ++ pad ∧
      (∀ u ∈ pad, isJsonSpace u = true) ∧ (dataValues g = [] → pad = []) := by
  obtain ⟨init, l, rfl⟩ : ∃ init l, g = init ++ [l] :=
    ⟨g.dropLast, g.getLast h, (List.dropLast_concat_getLast h).symm⟩
  have hplain : 10 ∉ l.text ++ leftover l.crlf := by
    intro hmem
    rcases List.mem_append.mp hmem with hmem | hmem
    · exact l.plain.1 hmem
    · rw [leftover] at hmem
      split_ifs at hmem
      · exact absurd hmem (by decide)
      · cases hmem
  have hinit : (init.map SseLine.text).filterMap dataValue = dataValues init := by
    rw [List.filterMap_map]
    rfl
  rw [frameData, groupText_concat, splitLines_linesText, splitLines_of_not_mem hplain,
    List.filterMap_append, hinit, dataValues_append]
  cases hv : dataValue l.text with
  | none =>
      have hcr : dataValue (l.text ++ leftover l.crlf) = none := by
        rw [dataValue] at hv ⊢
        rw [startsWith_leftover]
        split_ifs at hv ⊢
        rfl
      exact ⟨[], by simp [dataValues, hv, hcr], by simp, fun _ => rfl⟩
  | some v =>
      obtain ⟨pad, hpad, hspace⟩ := dataValue_leftover hv l.crlf
      refine ⟨pad, ?_, hspace, ?_⟩
      · have hlast : dataValues [l] = [v] := by simp [dataValues, hv]
        have hlast' : [l.text ++ leftover l.crlf].filterMap dataValue = [v ++ pad] := by simp [hpad]
        rw [hlast, hlast', join_concat_append]
      · simp [dataValues, hv]

/-! ## What is handed over -/

theorem parse_nil : Json.parse [] = none := rfl

theorem event_of_silent {f : SseFrame} (h : f.values = []) : f.event = none := by
  rw [SseFrame.event, h]
  rfl

/-- The event of a frame that waits, if one does. -/
def heldEvent (held : Option SseFrame) : List CoreStreamEvent := (held.bind SseFrame.event).toList

/-- Lines that carry the data of one supported frame, or none. -/
structure Holds (ls : List SseLine) (held : Option SseFrame) : Prop where
  values : dataValues ls = (held.map SseFrame.values).getD []
  loud : ∀ f ∈ held, f.values ≠ [] ∧ f.event.isSome = true

theorem onFrame_held {g : List SseLine} {held : Option SseFrame} (hg : g ≠ []) (h : Holds g held)
    (calls : List CoreStreamEvent) :
    onFrame calls (groupText g) = .ok (calls ++ heldEvent held) := by
  obtain ⟨pad, hdata, hspace, hpad⟩ := frameData_groupText hg
  cases held with
  | none =>
      have hnil : dataValues g = [] := h.values
      have hempty : frameData (groupText g) = [] := by
        rw [hdata, hnil, hpad hnil]
        rfl
      rw [onFrame, if_pos hempty, heldEvent]
      simp
  | some f =>
      obtain ⟨-, hsome⟩ := h.loud f rfl
      have hvalues : dataValues g = f.values := h.values
      rw [hvalues] at hdata
      obtain ⟨event, hevent⟩ := Option.isSome_iff_exists.mp hsome
      have hparse : parseCoreStreamEvent (join (js "\n") f.values) = .ok event := by
        rw [SseFrame.event] at hevent
        split at hevent
        · cases hevent
          assumption
        · cases hevent
      -- What has been read as JSON is not empty, and reads the same with space after it.
      obtain ⟨v, hv⟩ : ∃ v, Json.parse (join (js "\n") f.values) = some v := by
        rw [parseCoreStreamEvent] at hparse
        cases hv : Json.parse (join (js "\n") f.values) with
        | none =>
            rw [hv] at hparse
            cases hparse
        | some v => exact ⟨v, rfl⟩
      have hne : ¬ frameData (groupText g) = [] := by
        rw [hdata]
        intro hnil
        rw [(List.append_eq_nil_iff.mp hnil).1, parse_nil] at hv
        cases hv
      have hsame : parseCoreStreamEvent (frameData (groupText g)) = .ok event := by
        rw [← hparse, parseCoreStreamEvent, parseCoreStreamEvent, hdata,
          parse_append_space hv hspace, hv]
      rw [onFrame, if_neg hne, hsame, heldEvent, Option.bind_some, hevent]
      rfl

/-- Every frame with data is followed by an empty line that is a bare line
feed, its own or a later one, before the next with data and before the end. -/
def Released (held : Bool) : List SseFrame → Prop
  | [] => held = false
  | f :: rest =>
      ¬ (held = true ∧ f.values ≠ []) ∧
        Released ((held || decide (f.values ≠ [])) && f.crlf) rest

instance Released.instDecidable : (held : Bool) → (frames : List SseFrame) →
    Decidable (Released held frames)
  | held, [] => inferInstanceAs (Decidable (held = false))
  | held, f :: rest =>
      have := Released.instDecidable ((held || decide (f.values ≠ [])) && f.crlf) rest
      inferInstanceAs (Decidable (¬ (held = true ∧ f.values ≠ []) ∧ Released _ rest))

/-- What one group hands over, and what it leaves. -/
theorem Holds.next {waiting : List SseLine} {held : Option SseFrame} (h : Holds waiting held)
    {f : SseFrame} (hf : f.Supported) (hone : ¬ (held.isSome = true ∧ f.values ≠ [])) :
    ∃ held', Holds (waiting ++ f.lines) held' ∧
      held'.isSome = (held.isSome || decide (f.values ≠ [])) ∧
      heldEvent held' = heldEvent held ++ f.event.toList := by
  have hvalues : dataValues (waiting ++ f.lines) = (held.map SseFrame.values).getD [] ++ f.values := by
    rw [dataValues_append, h.values]
    rfl
  by_cases hf' : f.values = []
  · refine ⟨held, ⟨?_, h.loud⟩, ?_, ?_⟩
    · rw [hvalues, hf', List.append_nil]
    · simp [hf']
    · rw [event_of_silent hf', Option.toList_none, List.append_nil]
  · have hnone : held = none := by
      cases held with
      | none => rfl
      | some g => exact absurd ⟨rfl, hf'⟩ hone
    refine ⟨some f, ⟨?_, ?_⟩, ?_, ?_⟩
    · rw [hvalues, hnone]
      rfl
    · intro g hg
      cases hg
      exact ⟨hf', hf.resolve_left hf'⟩
    · simp [hf']
    · rw [hnone]
      rfl

theorem deliver_of_released {waiting : List SseLine} {held : Option SseFrame}
    (h : Holds waiting held) {frames : List SseFrame} (hs : ∀ f ∈ frames, f.Supported)
    (hrel : Released held.isSome frames) (calls : List CoreStreamEvent) :
    ((groups waiting frames).map groupText).foldlM onFrame calls =
      .ok (calls ++ heldEvent held ++ frames.filterMap SseFrame.event) := by
  induction frames generalizing waiting held calls with
  | nil =>
      have hnone : held = none := by simpa [Released] using hrel
      rw [hnone]
      simp [groups, heldEvent, pure, Except.pure]
  | cons f rest ih =>
      obtain ⟨hone, hrest⟩ := hrel
      obtain ⟨held', hheld, hsome, hevent⟩ := h.next (hs f (by simp)) hone
      have hs' : ∀ g ∈ rest, g.Supported := fun g hg => hs g (by simp [hg])
      have hout : calls ++ heldEvent held ++ (f :: rest).filterMap SseFrame.event =
          calls ++ heldEvent held' ++ rest.filterMap SseFrame.event := by
        rw [hevent, List.filterMap_cons]
        cases f.event <;> simp
      rw [← hsome] at hrest
      rw [hout, groups]
      by_cases hcut : f.crlf = false ∧ waiting ++ f.lines ≠ []
      · have hfalse : Released (none : Option SseFrame).isSome rest := by
          rw [hcut.1, Bool.and_false] at hrest
          exact hrest
        rw [if_pos hcut, List.map_cons, List.foldlM_cons, onFrame_held hcut.2 hheld]
        show ((groups [] rest).map groupText).foldlM onFrame _ = _
        rw [ih (show Holds [] none from ⟨rfl, by simp⟩) hs' hfalse]
        simp [heldEvent]
      · rw [if_neg hcut]
        have hwaiting : Holds (waiting ++ f.lines ++ [blankLine f.crlf]) held' := by
          refine ⟨?_, hheld.loud⟩
          rw [dataValues_append, dataValues_blank, List.append_nil, hheld.values]
        refine ih hwaiting hs' ?_ calls
        cases hcrlf : f.crlf with
        | true => rwa [hcrlf, Bool.and_true] at hrest
        | false =>
            -- Nothing waits before a first empty line.
            have hnil : waiting ++ f.lines = [] := by
              by_contra hne
              exact hcut ⟨hcrlf, hne⟩
            have hnone : held' = none := by
              cases hh : held' with
              | none => rfl
              | some g =>
                  rw [hh, hnil] at hheld
                  exact absurd hheld.values.symm (hheld.loud g rfl).1
            rw [hcrlf, Bool.and_false] at hrest
            rw [hnone]
            exact hrest

/-! ## Counting -/

def hasData (ls : List SseLine) : Bool := decide (dataValues ls ≠ [])

theorem hasData_append (a b : List SseLine) : hasData (a ++ b) = (hasData a || hasData b) := by
  rw [hasData, hasData, hasData, dataValues_append, ← Bool.decide_or]
  refine decide_eq_decide.mpr ?_
  rw [ne_eq, List.append_eq_nil_iff, not_and_or]

theorem onFrame_length {g : List SseLine} (hg : g ≠ []) {calls out : List CoreStreamEvent}
    (h : onFrame calls (groupText g) = .ok out) :
    out.length ≤ calls.length + (hasData g).toNat := by
  obtain ⟨pad, hdata, -, hpad⟩ := frameData_groupText hg
  rw [onFrame] at h
  split_ifs at h with hnil
  · cases h
    omega
  · have hne : hasData g = true := by
      rw [hasData, decide_eq_true_eq]
      intro hvalues
      rw [hvalues, hpad hvalues] at hdata
      exact hnil hdata
    cases hparse : parseCoreStreamEvent (frameData (groupText g)) with
    | error exception =>
        rw [hparse] at h
        cases h
    | ok event =>
        rw [hparse] at h
        cases h
        rw [hne, List.length_append]
        exact le_refl _

def loudCount (frames : List SseFrame) : ℕ := frames.countP fun f => hasData f.lines

/-- No more is handed over than there are frames with data, and as many only
if each of them is released in time. -/
theorem released_of_deliver {waiting : List SseLine} {frames : List SseFrame}
    {calls out : List CoreStreamEvent}
    (h : ((groups waiting frames).map groupText).foldlM onFrame calls = .ok out) :
    out.length ≤ calls.length + (hasData waiting).toNat + loudCount frames ∧
      (out.length = calls.length + (hasData waiting).toNat + loudCount frames →
        Released (hasData waiting) frames) := by
  induction frames generalizing waiting calls with
  | nil =>
      cases h
      refine ⟨by simp [loudCount], fun heq => ?_⟩
      cases hw : hasData waiting with
      | false => rfl
      | true =>
          rw [hw] at heq
          simp [loudCount] at heq
  | cons f rest ih =>
      have hcount : loudCount (f :: rest) = (hasData f.lines).toNat + loudCount rest := by
        rw [loudCount, List.countP_cons, loudCount]
        cases hasData f.lines <;> simp [Nat.add_comm]
      have hor : (hasData (waiting ++ f.lines)).toNat ≤
          (hasData waiting).toNat + (hasData f.lines).toNat ∧
          ((hasData (waiting ++ f.lines)).toNat =
            (hasData waiting).toNat + (hasData f.lines).toNat →
              ¬ (hasData waiting = true ∧ f.values ≠ [])) := by
        rw [hasData_append]
        have hf : (f.values ≠ []) ↔ hasData f.lines = true := by
          rw [hasData, decide_eq_true_eq]
          rfl
        rw [hf]
        cases hasData waiting <;> cases hasData f.lines <;> simp
      have hheld : ∀ crlf, ((hasData waiting || decide (f.values ≠ [])) && crlf) =
          (hasData (waiting ++ f.lines) && crlf) := by
        intro crlf
        rw [hasData_append]
        rfl
      rw [hcount]
      rw [groups] at h
      by_cases hcut : f.crlf = false ∧ waiting ++ f.lines ≠ []
      · rw [if_pos hcut, List.map_cons, List.foldlM_cons] at h
        cases hframe : onFrame calls (groupText (waiting ++ f.lines)) with
        | error failure =>
            rw [hframe] at h
            cases h
        | ok calls' =>
            rw [hframe] at h
            have hlen := onFrame_length hcut.2 hframe
            obtain ⟨hle, hrel⟩ := @ih [] calls' h
            have hnone : (hasData []).toNat = 0 := rfl
            rw [hnone] at hle hrel
            refine ⟨by omega, fun heq => ⟨hor.2 (by omega), ?_⟩⟩
            rw [hheld, hcut.1, Bool.and_false]
            exact hrel (by omega)
      · rw [if_neg hcut] at h
        have hblank : hasData (waiting ++ f.lines ++ [blankLine f.crlf]) =
            hasData (waiting ++ f.lines) := by
          rw [hasData, dataValues_append, dataValues_blank, List.append_nil, hasData]
        obtain ⟨hle, hrel⟩ := ih h
        rw [hblank] at hle hrel
        refine ⟨by omega, fun heq => ⟨hor.2 (by omega), ?_⟩⟩
        have hwait : (hasData (waiting ++ f.lines) && f.crlf) = hasData (waiting ++ f.lines) := by
          cases hcrlf : f.crlf with
          | true => rw [Bool.and_true]
          | false =>
              have hnil : waiting ++ f.lines = [] := by
                by_contra hne
                exact hcut ⟨hcrlf, hne⟩
              rw [hnil]
              rfl
        rw [hheld, hwait]
        exact hrel (by omega)

theorem length_events {frames : List SseFrame} (hs : ∀ f ∈ frames, f.Supported) :
    (frames.filterMap SseFrame.event).length = loudCount frames := by
  rw [List.length_filterMap_eq_countP, loudCount]
  refine List.countP_congr fun f hf => ?_
  have hloud : hasData f.lines = true ↔ f.values ≠ [] := by
    rw [hasData, decide_eq_true_eq]
    rfl
  rw [hloud]
  constructor
  · intro hsome hnil
    rw [event_of_silent hnil] at hsome
    cases hsome
  · intro hne
    exact (hs f hf).resolve_left hne

/-- For every stream of supported frames and every way to cut it into chunks,
the handler gets the events of the frames, each once and in order, exactly if
each frame with data is released in time. -/
theorem consumeSse_complete_iff (chunks : List Bytes) (frames : List SseFrame)
    (hbody : streamText chunks.flatten = framesText frames)
    (hs : ∀ f ∈ frames, f.Supported) :
    consumeSse chunks = .ok (frames.filterMap SseFrame.event) ↔ Released false frames := by
  have hgroups : (cut blank (framesText frames)).1 = (groups [] frames).map groupText :=
    cut_framesText (show Uncut (linesText []) from rfl) frames
  rw [consumeSse_eq, hbody, hgroups]
  constructor
  · intro h
    refine (released_of_deliver h).2 ?_
    rw [length_events hs]
    simp [hasData, dataValues]
  · intro h
    rw [deliver_of_released (show Holds [] none from ⟨rfl, by simp⟩) hs h]
    rfl

/-! ## Two streams -/

def doneJson : Json := .obj [(js "type", .str (js "done"))]

theorem parse_done : parseCoreStreamEvent doneJson.print = .ok .done := by
  have hrep : doneJson.Representable := by
    refine representable_obj (by decide) (fun f hf => ?_) fun f hf => ?_
    · rw [List.mem_singleton.mp hf]
      exact indexKey_eq_none (u := 116) (by decide) rfl
    · rw [List.mem_singleton.mp hf]
      exact ⟨rfl, rfl⟩
  rw [parseCoreStreamEvent, hrep.parse_print]
  rfl

/-- A comment. -/
def pingFrame : SseFrame where
  lines := [⟨js ": ping", true, by decide⟩]
  nonblank := by decide
  crlf := true

def doneFrame (crlf : Bool) : SseFrame where
  lines := [⟨js "data: \x7b\"type\":\"done\"\x7d", true, by decide⟩]
  nonblank := by decide
  crlf := crlf

theorem event_doneFrame (crlf : Bool) : (doneFrame crlf).event = some .done := by
  have hdata : join (js "\n") (doneFrame crlf).values = doneJson.print := by
    cases crlf <;> decide
  rw [SseFrame.event, hdata, parse_done]

/-- A comment and an event, with both line endings, cut inside the event. -/
theorem consumeSse_complete_mixed :
    consumeSse [utf8Encode (js ": ping\r\n\r\ndata: \x7b\"ty"), utf8Encode (js "pe\":\"done\"\x7d\r\n\n")] =
      .ok ([pingFrame, doneFrame false].filterMap SseFrame.event) := by
  refine (consumeSse_complete_iff _ [pingFrame, doneFrame false] (by decide +kernel) ?_).mpr
    (by decide)
  intro f hf
  simp only [List.mem_cons, List.not_mem_nil, or_false] at hf
  rcases hf with rfl | rfl
  · exact .inl (by decide)
  · exact .inr (by rw [event_doneFrame]; rfl)

/-- An event whose lines all end with a carriage return and a line feed never
comes out. -/
theorem consumeSse_loses_crlf :
    ∃ chunks frames, streamText chunks.flatten = framesText frames ∧
      (∀ f ∈ frames, f.Supported) ∧
      consumeSse chunks ≠ .ok (frames.filterMap SseFrame.event) := by
  refine ⟨[utf8Encode (framesText [doneFrame true])], [doneFrame true], by decide +kernel, ?_, ?_⟩
  · intro f hf
    rw [List.mem_singleton.mp hf]
    exact .inr (by rw [event_doneFrame]; rfl)
  · have hcut : (cut blank (streamText
        [utf8Encode (framesText [doneFrame true])].flatten)).1 = [] := by decide +kernel
    rw [consumeSse_eq, hcut, List.filterMap_cons, event_doneFrame]
    intro h
    cases h

end Shizuha.LocalCore
