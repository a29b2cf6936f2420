import Shizuha.Js.RegexLanguage
import Shizuha.Tui.StdinChunkSplit
import Mathlib.Data.List.Chain

/-!
# The keys of a chunk

What one turn of the loop takes off the chunk is said once, as `Key`: which
segment comes first, and what of the text behind it decides that it does.
Everything else follows from it: that nothing is lost, what the segments are,
and when the segments of a text that was put together are the ones it was put
together from.

They are not always. A meta chord (ESC and one unit) can be the beginning of a
longer sequence, `ESC [` or `ESC O` or `ESC ESC`, and the text typed behind it
the rest of that sequence; nothing in the chunk tells the two apart.
-/

namespace Shizuha.Tui

open Js Js.Regex

variable {s t b w rest tail : Text} {c u : UInt16}

/-! ## The sequences -/

/-- What stands behind the escape of a CSI sequence. -/
def CsiBody (t : Text) : Prop :=
  ∃ ps is f, t = 91 :: (ps ++ (is ++ [f])) ∧ (∀ u ∈ ps, isParameter u = true) ∧
    (∀ u ∈ is, isIntermediate u = true) ∧ isFinal f = true

/-- What stands behind the escape of an SS3 sequence. -/
def Ss3Body (t : Text) : Prop := ∃ c, t = [79, c] ∧ isAlphanumeric c = true

def Body (t : Text) : Prop := CsiBody t ∨ Ss3Body t

theorem takes_csiBody : Takes csiBody CsiBody := by
  have h := takes_seq (takes_lit (js "[")) (takes_seq (takes_star_unit isParameter)
    (takes_seq (takes_star_unit isIntermediate) (takes_unit isFinal)))
  intro c d
  refine (h c d).trans ?_
  constructor
  · rintro ⟨t, ⟨-, -, rfl, rfl, ps, -, rfl, hps, is, -, rfl, his, f, rfl, hf⟩, hd⟩
    exact ⟨_, ⟨ps, is, f, rfl, hps, his, hf⟩, hd⟩
  · rintro ⟨t, ⟨ps, is, f, rfl, hps, his, hf⟩, hd⟩
    exact ⟨_, ⟨_, _, rfl, rfl, ps, _, rfl, hps, is, _, rfl, his, f, rfl, hf⟩, hd⟩

theorem takes_ss3Body : Takes ss3Body Ss3Body := by
  have h := takes_seq (takes_lit (js "O")) (takes_unit isAlphanumeric)
  intro c d
  refine (h c d).trans ?_
  constructor
  · rintro ⟨t, ⟨-, -, rfl, rfl, u, rfl, hu⟩, hd⟩
    exact ⟨_, ⟨u, rfl, hu⟩, hd⟩
  · rintro ⟨t, ⟨u, rfl, hu⟩, hd⟩
    exact ⟨_, ⟨_, _, rfl, rfl, u, rfl, hu⟩, hd⟩

/-! ## A text starts with one of them at most -/

theorem split_unique {p : UInt16 → Bool} {x y : Text} (h : s ++ x = t ++ y)
    (hs : ∀ u ∈ s, p u = true) (ht : ∀ u ∈ t, p u = true)
    (hx : ∀ u ∈ x.head?, p u = false) (hy : ∀ u ∈ y.head?, p u = false) : s = t ∧ x = y := by
  have hstop : ∀ {x : Text}, (∀ u ∈ x.head?, p u = false) → x.takeWhile p = [] := by
    intro x hx
    cases x with
    | nil => rfl
    | cons u x => rw [List.takeWhile_cons_of_neg (by simp [hx u rfl])]
  have htake := congrArg (List.takeWhile p) h
  rw [List.takeWhile_append_of_pos hs, List.takeWhile_append_of_pos ht, hstop hx, hstop hy,
    List.append_nil, List.append_nil] at htake
  subst htake
  exact ⟨rfl, List.append_cancel_left h⟩

theorem not_parameter_of_intermediate (h : isIntermediate u = true) : isParameter u = false := by
  have hu : u ∈ js " /-" := List.contains_iff_mem.mp h
  have hcases : u = 32 ∨ u = 47 ∨ u = 45 := by simpa [js, unitsOf] using hu
  rcases hcases with rfl | rfl | rfl <;> decide

theorem final_bounds (h : isFinal u = true) : 64 ≤ u.toNat ∧ u.toNat ≤ 126 := by
  simp only [isFinal, Bool.and_eq_true, decide_eq_true_eq, UInt16.le_iff_toNat_le] at h
  exact h

theorem not_parameter_of_final (h : isFinal u = true) : isParameter u = false := by
  have hu := final_bounds h
  rw [← Bool.not_eq_true]
  intro hp
  simp only [isParameter, Bool.or_eq_true, List.contains_iff_mem] at hp
  rcases hp with hdigit | hmem
  · simp only [isDigit, Bool.and_eq_true, decide_eq_true_eq, UInt16.le_iff_toNat_le] at hdigit
    have hle : u.toNat ≤ 57 := hdigit.2
    omega
  · have hcases : u = 58 ∨ u = 59 ∨ u = 60 ∨ u = 62 ∨ u = 63 := by simpa [js, unitsOf] using hmem
    rcases hcases with rfl | rfl | rfl | rfl | rfl <;> revert hu <;> decide

theorem not_intermediate_of_final (h : isFinal u = true) : isIntermediate u = false := by
  have hu := final_bounds h
  rw [← Bool.not_eq_true]
  intro hi
  have hmem : u ∈ js " /-" := List.contains_iff_mem.mp hi
  have hcases : u = 32 ∨ u = 47 ∨ u = 45 := by simpa [js, unitsOf] using hmem
  rcases hcases with rfl | rfl | rfl <;> revert hu <;> decide

theorem startsOnce_csiBody : StartsOnce CsiBody := by
  intro v w s ⟨ps, is, f, hv, hps, his, hf⟩ ⟨ps', is', f', hw, hps', his', hf'⟩ ⟨x, hx⟩ ⟨y, hy⟩
  have hstop : ∀ {is : Text} {f : UInt16} (x : Text), (∀ u ∈ is, isIntermediate u = true) →
      isFinal f = true → ∀ u ∈ (is ++ f :: x).head?, isParameter u = false := by
    intro is f x his hf u hu
    cases is with
    | nil => exact Option.some.inj hu ▸ not_parameter_of_final hf
    | cons i is => exact Option.some.inj hu ▸ not_parameter_of_intermediate (his i (by simp))
  have hsame : ps ++ (is ++ f :: x) = ps' ++ (is' ++ f' :: y) := by
    have h := hx.trans hy.symm
    subst hv hw
    simpa using h
  obtain ⟨rfl, hrest⟩ := split_unique hsame hps hps' (hstop x his hf) (hstop y his' hf')
  obtain ⟨rfl, hend⟩ := split_unique hrest his his'
    (fun u hu => Option.some.inj hu ▸ not_intermediate_of_final hf)
    (fun u hu => Option.some.inj hu ▸ not_intermediate_of_final hf')
  obtain ⟨rfl, -⟩ := List.cons.inj hend
  rw [hv, hw]

theorem startsOnce_ss3Body : StartsOnce Ss3Body := by
  intro v w s ⟨c, hv, _⟩ ⟨c', hw, _⟩ ⟨x, hx⟩ ⟨y, hy⟩
  have h := hx.trans hy.symm
  subst hv hw
  obtain ⟨-, h⟩ := List.cons.inj h
  obtain ⟨rfl, -⟩ := List.cons.inj h
  rfl

theorem csiBody_head (h : CsiBody b) (hb : b <+: s) : ∃ rest, s = 91 :: rest := by
  obtain ⟨ps, is, f, rfl, -⟩ := h
  obtain ⟨rest, rfl⟩ := hb
  exact ⟨_, rfl⟩

theorem ss3Body_head (h : Ss3Body b) (hb : b <+: s) : ∃ rest, s = 79 :: rest := by
  obtain ⟨c, rfl, -⟩ := h
  obtain ⟨rest, rfl⟩ := hb
  exact ⟨_, rfl⟩

theorem startsOnce_body : StartsOnce Body := by
  intro v w s hv hw hvs hws
  rcases hv with hv | hv <;> rcases hw with hw | hw
  · exact startsOnce_csiBody v w s hv hw hvs hws
  · obtain ⟨x, hx⟩ := csiBody_head hv hvs
    obtain ⟨y, hy⟩ := ss3Body_head hw hws
    rw [hx] at hy
    cases hy
  · obtain ⟨x, hx⟩ := ss3Body_head hv hvs
    obtain ⟨y, hy⟩ := csiBody_head hw hws
    rw [hx] at hy
    cases hy
  · exact startsOnce_ss3Body v w s hv hw hvs hws

theorem body_ne_nil (h : Body b) : b ≠ [] := by
  rintro rfl
  rcases h with h | h
  · obtain ⟨x, hx⟩ := csiBody_head h List.prefix_rfl
    cases hx
  · obtain ⟨x, hx⟩ := ss3Body_head h List.prefix_rfl
    cases hx

theorem not_body_esc (h : Body b) : ¬ b <+: ESC :: s := by
  intro hb
  rcases h with h | h
  · obtain ⟨x, hx⟩ := csiBody_head h hb
    cases hx
  · obtain ⟨x, hx⟩ := ss3Body_head h hb
    cases hx

/-! ## The first segment -/

/-- What is taken off a chunk that starts with an escape: the text behind the
escape, the segment, and the text behind the segment. -/
inductive Key : Text → Text → Text → Prop where
  | body {b : Text} (h : Body b) (tail : Text) : Key (b ++ tail) (ESC :: b) tail
  | escBody {b : Text} (h : Body b) (tail : Text) :
      Key (ESC :: (b ++ tail)) (ESC :: ESC :: b) tail
  | escEsc {tail : Text} (h : ∀ b, Body b → ¬ b <+: tail) : Key (ESC :: tail) [ESC, ESC] tail
  | char {c : UInt16} {tail : Text} (hc : c ≠ ESC) (h : ∀ b, Body b → ¬ b <+: c :: tail) :
      Key (c :: tail) [ESC, c] tail
  | lone : Key [] [ESC] []

theorem exists_key (rest : Text) : ∃ seg tail, Key rest seg tail := by
  by_cases hbody : ∃ b, Body b ∧ b <+: rest
  · obtain ⟨b, hb, tail, rfl⟩ := hbody
    exact ⟨_, _, .body hb tail⟩
  · have hnone : ∀ b, Body b → ¬ b <+: rest := fun b hb hrest => hbody ⟨b, hb, hrest⟩
    cases rest with
    | nil => exact ⟨_, _, .lone⟩
    | cons c tail =>
        by_cases hc : c = ESC
        · subst hc
          by_cases hbody : ∃ b, Body b ∧ b <+: tail
          · obtain ⟨b, hb, tail, rfl⟩ := hbody
            exact ⟨_, _, .escBody hb tail⟩
          · exact ⟨_, _, .escEsc fun b hb htail => hbody ⟨b, hb, htail⟩⟩
        · exact ⟨_, _, .char hc hnone⟩

theorem key_append (h : Key rest s tail) : ESC :: rest = s ++ tail := by
  cases h with
  | body h tail => rfl
  | escBody h tail => rfl
  | escEsc h => rfl
  | char hc h => rfl
  | lone => rfl

/-- The patterns of two escapes, and of an escape and a body. -/
theorem takes_bodies : Takes (.alt csiBody ss3Body) Body := takes_alt takes_csiBody takes_ss3Body

theorem csi_none (h : ∀ b, Body b → ¬ b <+: rest) : CSI_RE.exec (ESC :: rest) = none :=
  exec_lit_takes_none takes_csiBody [ESC] fun b hb => h b (.inl hb)

theorem ss3_none (h : ∀ b, Body b → ¬ b <+: rest) : SS3_RE.exec (ESC :: rest) = none :=
  exec_lit_takes_none takes_ss3Body [ESC] fun b hb => h b (.inr hb)

theorem escEsc_none (hc : ∀ rest', rest ≠ ESC :: rest') :
    ESC_ESC_SEQ_RE.exec (ESC :: rest) = none := by
  refine exec_lit_none fun ⟨x, hx⟩ => ?_
  obtain ⟨-, hrest⟩ := List.cons.inj hx
  exact hc x hrest.symm

theorem consumed_key (h : Key rest s tail) : consumed (ESC :: rest) = s.length := by
  cases h with
  | @body b h tail =>
      rcases h with h | h
      · obtain ⟨m, hexec, hm⟩ := Option.map_eq_some_iff.mp
          (exec_lit_takes takes_csiBody startsOnce_csiBody h [ESC] tail)
        have hcsi : CSI_RE.exec (ESC :: (b ++ tail)) = some m := hexec
        rw [consumed, hcsi]
        exact congrArg List.length hm
      · have hcsi : CSI_RE.exec (ESC :: (b ++ tail)) = none := by
          refine exec_lit_takes_none takes_csiBody [ESC] fun w hw hprefix => ?_
          obtain ⟨x, hx⟩ := csiBody_head hw hprefix
          obtain ⟨y, hy⟩ := ss3Body_head h (List.prefix_append b tail)
          have hxy : 91 :: x = 79 :: y := hx.symm.trans hy
          cases hxy
        obtain ⟨m, hexec, hm⟩ := Option.map_eq_some_iff.mp
          (exec_lit_takes takes_ss3Body startsOnce_ss3Body h [ESC] tail)
        have hss3 : SS3_RE.exec (ESC :: (b ++ tail)) = some m := hexec
        rw [consumed, hcsi, hss3]
        exact congrArg List.length hm
  | @escBody b h tail =>
      obtain ⟨ds, hds⟩ := run_opt_takes (c := ⟨[ESC, ESC], b ++ tail, none⟩) takes_bodies
        startsOnce_body (body_ne_nil h) h rfl
      have htext := exec_lit_cons (s := [ESC, ESC]) hds
      obtain ⟨m, hexec, hm⟩ := Option.map_eq_some_iff.mp htext
      have hesc : ESC_ESC_SEQ_RE.exec (ESC :: ESC :: (b ++ tail)) = some m := hexec
      rw [consumed, csi_none fun w hw => not_body_esc hw, ss3_none fun w hw => not_body_esc hw, hesc]
      show m.text.length = _
      rw [hm]
      simp [Cursor.past]
      omega
  | @escEsc tail h =>
      have hopt : (opt (.alt csiBody ss3Body)).run ⟨[ESC, ESC], tail, none⟩ =
          [⟨[ESC, ESC], tail, none⟩] :=
        run_opt_nil (run_takes_nil takes_bodies h)
      have htext := exec_lit_cons (s := [ESC, ESC]) hopt
      obtain ⟨m, hexec, hm⟩ := Option.map_eq_some_iff.mp htext
      have hesc : ESC_ESC_SEQ_RE.exec (ESC :: ESC :: tail) = some m := hexec
      rw [consumed, csi_none fun w hw => not_body_esc hw, ss3_none fun w hw => not_body_esc hw, hesc]
      show m.text.length = _
      rw [hm]
      simp
      omega
  | @char c tail hc h =>
      have hany : anyUnit.run ⟨[ESC], c :: tail, none⟩ = [⟨[c, ESC], tail, none⟩] := rfl
      have htext := exec_lit_cons (s := [ESC]) hany
      obtain ⟨m, hexec, hm⟩ := Option.map_eq_some_iff.mp htext
      have hchar : ESC_CHAR_RE.exec (ESC :: c :: tail) = some m := hexec
      have hne : ∀ rest', c :: tail ≠ ESC :: rest' := fun rest' heq => hc (List.cons.inj heq).1
      rw [consumed, csi_none h, ss3_none h, escEsc_none hne, hchar]
      show m.text.length = _
      rw [hm]
      simp
      omega
  | lone =>
      have hnone : ∀ b, Body b → ¬ b <+: [] := fun b hb hnil =>
        body_ne_nil hb (List.prefix_nil.mp hnil)
      have hchar : ESC_CHAR_RE.exec [ESC] = none := exec_lit_nil (s := [ESC]) rfl
      rw [consumed, csi_none hnone, ss3_none hnone, escEsc_none (by simp), hchar]
      rfl

theorem take_consumed (h : Key rest s tail) :
    (ESC :: rest).take (consumed (ESC :: rest)) = s ∧
      (ESC :: rest).drop (consumed (ESC :: rest)) = tail := by
  rw [consumed_key h, key_append h]
  exact ⟨List.take_left' rfl, List.drop_left' rfl⟩

/-! ## The loop -/

/-- A run of text ends here. -/
def Stops (tail : Text) : Prop := tail.head? = none ∨ tail.head? = some ESC

/-- What the loop does to a text. -/
inductive Splits : Text → List Text → Prop where
  | nil : Splits [] []
  | run {run tail : Text} {segments : List Text} (hne : run ≠ []) (hrun : ESC ∉ run)
      (htail : Stops tail) (h : Splits tail segments) :
      Splits (run ++ tail) (run :: segments)
  | key {rest seg tail : Text} {segments : List Text} (hkey : Key rest seg tail)
      (h : Splits tail segments) : Splits (ESC :: rest) (seg :: segments)

theorem key_lt (h : Key rest s tail) : tail.length ≤ rest.length := by
  have hlen := congrArg List.length (key_append h)
  have hpos : 0 < s.length := by cases h <;> simp
  simp only [List.length_cons, List.length_append] at hlen
  omega

theorem splits_segmentsFrom (fuel : ℕ) (data : Text) (hfuel : data.length ≤ fuel) :
    Splits data (segmentsFrom fuel data) := by
  induction fuel generalizing data with
  | zero =>
      rw [List.length_eq_zero_iff.mp (Nat.le_zero.mp hfuel)]
      exact .nil
  | succ fuel ih =>
      cases data with
      | nil => exact .nil
      | cons u rest =>
          have hlen : rest.length ≤ fuel := Nat.le_of_succ_le_succ hfuel
          by_cases hu : u = ESC
          · subst hu
            obtain ⟨seg, tail, hkey⟩ := exists_key rest
            obtain ⟨htake, hdrop⟩ := take_consumed hkey
            rw [segmentsFrom, if_neg (by simp), htake, hdrop]
            exact .key hkey (ih tail ((key_lt hkey).trans hlen))
          · have htake : (u :: rest).takeWhile (· ≠ ESC) = u :: rest.takeWhile (· ≠ ESC) :=
              List.takeWhile_cons_of_pos (by simpa using hu)
            have hdrop : (u :: rest).dropWhile (· ≠ ESC) = rest.dropWhile (· ≠ ESC) :=
              List.dropWhile_cons_of_pos (by simpa using hu)
            have hsplit : u :: rest = (u :: rest.takeWhile (· ≠ ESC)) ++ rest.dropWhile (· ≠ ESC) := by
              rw [List.cons_append, List.takeWhile_append_dropWhile]
            have hrun : ESC ∉ u :: rest.takeWhile (· ≠ ESC) := by
              rw [← htake]
              intro hmem
              have hne := List.mem_takeWhile_imp hmem
              simp at hne
            have hstop : Stops (rest.dropWhile (· ≠ ESC)) := by
              have hhead := List.head?_dropWhile_not (· ≠ ESC) rest
              cases hfirst : (rest.dropWhile (· ≠ ESC)).head? with
              | none => exact .inl hfirst
              | some v =>
                  rw [hfirst] at hhead
                  exact .inr (hfirst.trans (congrArg some (not_not.mp (of_decide_eq_false hhead))))
            have hlast := ih (rest.dropWhile (· ≠ ESC))
              ((List.dropWhile_suffix _).length_le.trans hlen)
            rw [segmentsFrom, if_pos hu, htake, hdrop]
            have hsegments := Splits.run (List.cons_ne_nil _ _) hrun hstop hlast
            rwa [← hsplit] at hsegments

theorem splits_splitStdinChunk (data : Text) : Splits data (splitStdinChunk data) := by
  rw [splitStdinChunk]
  split_ifs with hnil hesc
  · rw [hnil]
    exact .nil
  · exact splits_segmentsFrom data.length data le_rfl
  · have h := Splits.run hnil hesc (.inl rfl) .nil
    rwa [List.append_nil] at h

/-- The first segment, and what is left. -/
theorem splits_cons {data seg : Text} {segments : List Text} (h : Splits data (seg :: segments)) :
    ∃ tail, data = seg ++ tail ∧ Splits tail segments ∧
      (seg ≠ [] ∧ ESC ∉ seg ∧ Stops tail ∨ ∃ rest, data = ESC :: rest ∧ Key rest seg tail) := by
  cases h with
  | run hne hrun htail h => exact ⟨_, rfl, h, .inl ⟨hne, hrun, htail⟩⟩
  | key hkey h => exact ⟨_, key_append hkey, h, .inr ⟨_, rfl, hkey⟩⟩

theorem run_unique {run run' tail tail' : Text} (h : run ++ tail = run' ++ tail')
    (hrun : ESC ∉ run) (hrun' : ESC ∉ run') (htail : Stops tail) (htail' : Stops tail') :
    run = run' ∧ tail = tail' := by
  have hall : ∀ {s : Text}, ESC ∉ s → ∀ u ∈ s, decide (u ≠ ESC) = true := fun hs u hu =>
    decide_eq_true fun heq => hs (heq ▸ hu)
  have hstop : ∀ {t : Text}, Stops t → ∀ u ∈ t.head?, decide (u ≠ ESC) = false := by
    intro t ht u hu
    rcases ht with ht | ht
    · rw [ht] at hu
      cases hu
    · rw [ht] at hu
      rw [← Option.some.inj hu]
      simp
  exact split_unique h (hall hrun) (hall hrun') (hstop htail) (hstop htail')

/-- The loop leaves no choice. -/
theorem splits_unique {data : Text} {l l' : List Text} (h : Splits data l) (h' : Splits data l') :
    l = l' := by
  induction h generalizing l' with
  | nil =>
      cases l' with
      | nil => rfl
      | cons seg segments =>
          obtain ⟨tail, hdata, -, hseg⟩ := splits_cons h'
          obtain ⟨hnil, -⟩ := List.append_eq_nil_iff.mp hdata.symm
          rcases hseg with ⟨hne, -⟩ | ⟨rest, hrest, -⟩
          · exact absurd hnil hne
          · cases hrest
  | @run run tail segments hne hrun htail h ih =>
      cases l' with
      | nil =>
          generalize hdata : run ++ tail = data at h'
          cases h'
          exact absurd (List.append_eq_nil_iff.mp hdata).1 hne
      | cons seg segments' =>
          obtain ⟨tail', hdata, hrest, ⟨hne', hrun', htail'⟩ | ⟨rest, hesc, -⟩⟩ := splits_cons h'
          · obtain ⟨rfl, rfl⟩ := run_unique hdata hrun hrun' htail htail'
            rw [ih hrest]
          · cases run with
            | nil => exact absurd rfl hne
            | cons u run =>
                rw [(List.cons.inj hesc).1] at hrun
                exact absurd List.mem_cons_self hrun
  | @key rest seg tail segments hkey h ih =>
      cases l' with
      | nil =>
          generalize hdata : ESC :: rest = data at h'
          cases h'
          cases hdata
      | cons seg' segments' =>
          obtain ⟨tail', hdata, hrest, ⟨hne, hrun, -⟩ | ⟨rest', hesc, hkey'⟩⟩ := splits_cons h'
          · cases seg' with
            | nil => exact absurd rfl hne
            | cons u seg' =>
                rw [← (List.cons.inj hdata).1] at hrun
                exact absurd List.mem_cons_self hrun
          · obtain ⟨-, rfl⟩ := List.cons.inj hesc
            obtain ⟨htake, hdrop⟩ := take_consumed hkey
            obtain ⟨htake', hdrop'⟩ := take_consumed hkey'
            have hseg : seg = seg' := htake.symm.trans htake'
            have htail : tail = tail' := hdrop.symm.trans hdrop'
            subst hseg htail
            rw [ih hrest]

theorem splitStdinChunk_eq_iff {data : Text} {l : List Text} :
    splitStdinChunk data = l ↔ Splits data l :=
  ⟨fun h => h ▸ splits_splitStdinChunk data, fun h => splits_unique (splits_splitStdinChunk data) h⟩

/-! ## The segments -/

def IsRun (s : Text) : Prop := s ≠ [] ∧ ESC ∉ s

/-- An escape and one complete sequence. -/
inductive IsKey : Text → Prop where
  | csi {b : Text} (h : CsiBody b) : IsKey (ESC :: b)
  | ss3 {b : Text} (h : Ss3Body b) : IsKey (ESC :: b)
  | escEsc : IsKey [ESC, ESC]
  | escEscBody {b : Text} (h : Body b) : IsKey (ESC :: ESC :: b)
  | char (c : UInt16) : IsKey [ESC, c]

/-- Both are text without an escape. -/
def BothRuns (s t : Text) : Prop := ESC ∉ s ∧ ESC ∉ t

/-- What the segments of a text are. A run is as long as the text lets it be, so
no run is next to another. -/
structure Segments (data : Text) (segments : List Text) : Prop where
  flatten : segments.flatten = data
  nonempty : ∀ s ∈ segments, s ≠ []
  shape : ∀ pre s post, segments = pre ++ s :: post →
    IsRun s ∧ Stops post.flatten ∨ IsKey s ∨ s = [ESC] ∧ post = []
  apart : segments.IsChain fun s t => ¬ BothRuns s t

theorem isKey_of_key (h : Key rest s tail) : IsKey s ∨ s = [ESC] ∧ rest = [] ∧ tail = [] := by
  cases h with
  | body h tail =>
      rcases h with h | h
      · exact .inl (.csi h)
      · exact .inl (.ss3 h)
  | escBody h tail => exact .inl (.escEscBody h)
  | escEsc h => exact .inl .escEsc
  | char hc h => exact .inl (.char _)
  | lone => exact .inr ⟨rfl, rfl, rfl⟩

theorem splits_nil {l : List Text} (h : Splits [] l) : l = [] := splits_unique h .nil

theorem key_head (h : Key rest s tail) : s.head? = some ESC := by cases h <;> rfl

theorem splits_flatten {data : Text} {l : List Text} (h : Splits data l) : l.flatten = data := by
  induction h with
  | nil => rfl
  | run hne hrun htail h ih => rw [List.flatten_cons, ih]
  | key hkey h ih => rw [List.flatten_cons, ih, ← key_append hkey]

theorem splits_nonempty {data : Text} {l : List Text} (h : Splits data l) : ∀ s ∈ l, s ≠ [] := by
  induction h with
  | nil => simp
  | run hne hrun htail h ih => exact List.forall_mem_cons.mpr ⟨hne, ih⟩
  | key hkey h ih =>
      refine List.forall_mem_cons.mpr ⟨fun hnil => ?_, ih⟩
      have hhead := key_head hkey
      rw [hnil] at hhead
      cases hhead

theorem splits_shape {data : Text} {l : List Text} (h : Splits data l) (pre : List Text) (s : Text)
    (post : List Text) (hl : l = pre ++ s :: post) :
    IsRun s ∧ Stops post.flatten ∨ IsKey s ∨ s = [ESC] ∧ post = [] := by
  induction h generalizing pre with
  | nil => simp at hl
  | run hne hrun htail h ih =>
      cases pre with
      | nil =>
          obtain ⟨rfl, rfl⟩ := List.cons.inj hl
          rw [splits_flatten h]
          exact .inl ⟨⟨hne, hrun⟩, htail⟩
      | cons seg pre => exact ih pre (List.cons.inj hl).2
  | key hkey h ih =>
      cases pre with
      | nil =>
          obtain ⟨rfl, rfl⟩ := List.cons.inj hl
          rcases isKey_of_key hkey with hs | ⟨hs, -, rfl⟩
          · exact .inr (.inl hs)
          · exact .inr (.inr ⟨hs, splits_nil h⟩)
      | cons seg pre => exact ih pre (List.cons.inj hl).2

/-- What stands behind a run starts with an escape. -/
theorem splits_head {data t : Text} {l : List Text} (h : Splits data (t :: l)) (hdata : Stops data) :
    ESC ∈ t := by
  obtain ⟨tail, hsplit, -, ⟨hne, -, -⟩ | ⟨rest, -, hkey⟩⟩ := splits_cons h
  · cases t with
    | nil => exact absurd rfl hne
    | cons u t =>
        rw [hsplit] at hdata
        rcases hdata with hdata | hdata
        · cases hdata
        · rw [← Option.some.inj hdata]
          exact List.mem_cons_self
  · exact List.mem_of_mem_head? (key_head hkey)

theorem splits_apart {data : Text} {l : List Text} (h : Splits data l) :
    l.IsChain fun s t => ¬ BothRuns s t := by
  induction h with
  | nil => exact .nil
  | run hne hrun htail h ih =>
      refine List.isChain_cons.mpr ⟨fun t ht hboth => ?_, ih⟩
      obtain ⟨l, rfl⟩ := List.head?_eq_some_iff.mp ht
      exact hboth.2 (splits_head h htail)
  | key hkey h ih =>
      exact List.isChain_cons.mpr
        ⟨fun t ht hboth => hboth.1 (List.mem_of_mem_head? (key_head hkey)), ih⟩

theorem segments_of_splits {data : Text} {l : List Text} (h : Splits data l) : Segments data l :=
  ⟨splits_flatten h, splits_nonempty h, splits_shape h, splits_apart h⟩

/-! ## Putting segments together -/

/-- The text `t` behind the meta chord `s` makes it the beginning of a longer
sequence. -/
def Completes (s t : Text) : Prop :=
  ∃ c b, s = [ESC, c] ∧ Body b ∧ (b <+: c :: t ∨ c = ESC ∧ b <+: t)

theorem esc_not_mem_body (h : Body b) : ESC ∉ b := by
  rcases h with ⟨ps, is, f, rfl, hps, his, hf⟩ | ⟨c, rfl, hc⟩
  · intro hmem
    simp only [List.mem_cons, List.mem_append, List.not_mem_nil, or_false] at hmem
    rcases hmem with hmem | hmem | hmem | hmem
    · cases hmem
    · exact absurd (hps _ hmem) (by decide)
    · exact absurd (his _ hmem) (by decide)
    · exact absurd (hmem ▸ hf) (by decide)
  · intro hmem
    simp only [List.mem_cons, List.not_mem_nil, or_false] at hmem
    rcases hmem with hmem | hmem
    · cases hmem
    · exact absurd (hmem ▸ hc) (by decide)

theorem two_le_body (h : Body b) : 2 ≤ b.length := by
  rcases h with ⟨ps, is, f, rfl, -⟩ | ⟨c, rfl, -⟩
  · simp only [List.length_cons, List.length_append, List.length_nil]
    omega
  · simp

/-- A body does not reach over an escape. -/
theorem prefix_of_append {x y : Text} (hb : ESC ∉ b) (hy : Stops y) (h : b <+: x ++ y) : b <+: x := by
  obtain ⟨r, hr⟩ := h
  rcases List.append_eq_append_iff.mp hr with ⟨z, rfl, -⟩ | ⟨z, rfl, hz⟩
  · exact List.prefix_append b z
  · cases z with
    | nil => exact ⟨[], by simp⟩
    | cons u z =>
        rw [hz] at hy
        rcases hy with hy | hy
        · cases hy
        · rw [Option.some.inj hy] at hb
          exact absurd (List.mem_append_right x List.mem_cons_self) hb

theorem body_prefix_iff {x y : Text} (hb : Body b) (ht : t.head? = some ESC ∨ Stops y) :
    b <+: x ++ (t ++ y) ↔ b <+: x ++ t := by
  have hesc := esc_not_mem_body hb
  constructor
  · intro h
    rcases ht with ht | hy
    · have hstop : Stops (t ++ y) := .inr (by rw [List.head?_append, ht]; rfl)
      exact (prefix_of_append hesc hstop h).trans (List.prefix_append x t)
    · rw [← List.append_assoc] at h
      exact prefix_of_append hesc hy h
  · intro h
    rw [← List.append_assoc]
    exact h.trans (List.prefix_append _ _)

/-- What completes a chord lies in the segment behind it. -/
theorem completes_append {y : Text} (ht : t.head? = some ESC ∨ Stops y) :
    Completes s (t ++ y) ↔ Completes s t := by
  constructor
  · intro ⟨c, b, hs, hb, h⟩
    exact ⟨c, b, hs, hb, h.imp (body_prefix_iff (x := [c]) hb ht).mp
      (And.imp_right (body_prefix_iff (x := []) hb ht).mp)⟩
  · intro ⟨c, b, hs, hb, h⟩
    exact ⟨c, b, hs, hb, h.imp (body_prefix_iff (x := [c]) hb ht).mpr
      (And.imp_right (body_prefix_iff (x := []) hb ht).mpr)⟩

theorem not_completes_nil : ¬ Completes s [] := by
  intro ⟨c, b, _, hb, h⟩
  have hlen := two_le_body hb
  rcases h with h | ⟨-, h⟩
  · have hle : b.length ≤ 1 := h.length_le
    omega
  · have hle : b.length ≤ 0 := h.length_le
    omega

theorem not_completes_of_length (h : 3 ≤ s.length) : ¬ Completes s t := by
  intro ⟨c, b, hs, _⟩
  rw [hs] at h
  simp at h

/-- `Key` of a meta chord. -/
theorem key_char_iff {f : Text} : Key (c :: f) [ESC, c] f ↔ ¬ Completes [ESC, c] f := by
  constructor
  · intro hkey ⟨c', b, hc, hb, h⟩
    obtain ⟨-, hc⟩ := List.cons.inj hc
    obtain ⟨rfl, -⟩ := List.cons.inj hc
    have hconsumed := consumed_key hkey
    by_cases hbody : b <+: c :: f
    · obtain ⟨tail, htail⟩ := hbody
      have hlong := consumed_key (.body hb tail)
      rw [htail, hconsumed] at hlong
      have := two_le_body hb
      simp only [List.length_cons, List.length_nil] at hlong
      omega
    · obtain ⟨rfl, tail, rfl⟩ := h.resolve_left hbody
      have hlong := consumed_key (.escBody hb tail)
      rw [hconsumed] at hlong
      have := two_le_body hb
      simp only [List.length_cons, List.length_nil] at hlong
      omega
  · intro hnot
    by_cases hc : c = ESC
    · subst hc
      exact .escEsc fun b hb htail => hnot ⟨ESC, b, rfl, hb, .inr ⟨rfl, htail⟩⟩
    · exact .char hc fun b hb htail => hnot ⟨c, b, rfl, hb, .inl htail⟩

theorem isKey_head (h : IsKey s) : s.head? = some ESC := by cases h <;> rfl

/-- A sequence is what the loop takes off, unless what follows completes it. -/
theorem key_iff (h : IsKey s) (f : Text) :
    ∃ x, s = ESC :: x ∧ (Key (x ++ f) s f ↔ ¬ Completes s f) := by
  cases h with
  | @csi b h =>
      have hlen := two_le_body (.inl h)
      exact ⟨b, rfl, iff_of_true (.body (.inl h) f) (not_completes_of_length (by simpa using hlen))⟩
  | @ss3 b h =>
      have hlen := two_le_body (.inr h)
      exact ⟨b, rfl, iff_of_true (.body (.inr h) f) (not_completes_of_length (by simpa using hlen))⟩
  | escEsc => exact ⟨[ESC], rfl, key_char_iff⟩
  | @escEscBody b h =>
      have hlen := two_le_body h
      exact ⟨ESC :: b, rfl, iff_of_true (.escBody h f)
        (not_completes_of_length (by simp; omega))⟩
  | char c => exact ⟨[c], rfl, key_char_iff⟩

def IsComplete (s : Text) : Prop := IsRun s ∨ IsKey s

/-- Behind a run there is nothing, or a sequence. -/
theorem stops_behind {segments : List Text} (hcomplete : ∀ t ∈ segments, IsComplete t)
    (hrun : ESC ∉ s) (hapart : ∀ t ∈ segments.head?, ¬ BothRuns s t) : Stops segments.flatten := by
  cases segments with
  | nil => exact .inl rfl
  | cons t segments =>
      rcases hcomplete t List.mem_cons_self with ht | ht
      · exact absurd ⟨hrun, ht.2⟩ (hapart t rfl)
      · rw [List.flatten_cons]
        exact .inr (by rw [List.head?_append, isKey_head ht]; rfl)

theorem completes_head {segments : List Text} (hcomplete : ∀ t ∈ segments, IsComplete t)
    (hapart : segments.IsChain fun s t => ¬ BothRuns s t) :
    (∀ t ∈ segments.head?, ¬ Completes s t) ↔ ¬ Completes s segments.flatten := by
  cases segments with
  | nil => exact iff_of_true (by simp) not_completes_nil
  | cons t segments =>
      have hnext : t.head? = some ESC ∨ Stops segments.flatten := by
        rcases hcomplete t List.mem_cons_self with ht | ht
        · exact .inr (stops_behind (fun r hr => hcomplete r (List.mem_cons_of_mem t hr)) ht.2
            (List.isChain_cons.mp hapart).1)
        · exact .inl (isKey_head ht)
      rw [List.flatten_cons, completes_append hnext]
      simp

theorem splits_flatten_iff {segments : List Text} (hcomplete : ∀ s ∈ segments, IsComplete s)
    (hapart : segments.IsChain fun s t => ¬ BothRuns s t) :
    Splits segments.flatten segments ↔ segments.IsChain fun s t => ¬ Completes s t := by
  induction segments with
  | nil => exact iff_of_true .nil .nil
  | cons s segments ih =>
      obtain ⟨hfirst, hrest⟩ := List.isChain_cons.mp hapart
      have hbehind : ∀ t ∈ segments, IsComplete t := fun t ht =>
        hcomplete t (List.mem_cons_of_mem s ht)
      have ih := ih hbehind hrest
      rw [List.isChain_cons, completes_head hbehind hrest, ← ih, List.flatten_cons]
      rcases hcomplete s List.mem_cons_self with ⟨hne, hrun⟩ | hkey
      · have hnot : ¬ Completes s segments.flatten := by
          intro ⟨c, b, hs, _⟩
          exact hrun (hs ▸ List.mem_cons_self)
        have hstop := stops_behind hbehind hrun hfirst
        constructor
        · intro h
          obtain ⟨tail, htail, h, -⟩ := splits_cons h
          have hflat := List.append_cancel_left htail
          exact ⟨hnot, hflat ▸ h⟩
        · intro h
          exact .run hne hrun hstop h.2
      · obtain ⟨x, rfl, hiff⟩ := key_iff hkey segments.flatten
        constructor
        · intro h
          obtain ⟨tail, htail, h, ⟨-, hesc, -⟩ | ⟨rest, hrest, hk⟩⟩ := splits_cons h
          · exact absurd List.mem_cons_self hesc
          · have hflat := List.append_cancel_left htail
            subst hflat
            obtain ⟨-, rfl⟩ := List.cons.inj hrest
            exact ⟨hiff.mp hk, h⟩
        · intro h
          exact .key (hiff.mpr h.1) h.2

/-- A chunk is split into runs and complete sequences, with nothing lost. And
complete segments that are put together, with no two runs next to each other,
are split into themselves exactly when no meta chord is completed by the text
behind it. -/
theorem splitStdinChunk_segments :
    (∀ data, Segments data (splitStdinChunk data)) ∧
      ∀ segments : List Text, (∀ s ∈ segments, IsComplete s) →
        segments.IsChain (fun s t => ¬ BothRuns s t) →
        (splitStdinChunk segments.flatten = segments ↔
          segments.IsChain fun s t => ¬ Completes s t) :=
  ⟨fun data => segments_of_splits (splits_splitStdinChunk data),
    fun _ hcomplete hapart => splitStdinChunk_eq_iff.trans (splits_flatten_iff hcomplete hapart)⟩

theorem isKey_down : IsKey [ESC, 91, 66] :=
  .csi ⟨[], [], 66, rfl, by simp, by simp, by decide⟩

/-- Down and an X typed behind it. -/
theorem splitStdinChunk_down : splitStdinChunk [[ESC, 91, 66], js "X"].flatten =
    [[ESC, 91, 66], js "X"] := by
  have hrun : IsRun (js "X") := ⟨by decide, by decide⟩
  refine (splitStdinChunk_segments.2 _ ?_ ?_).mpr ?_
  · simp [IsComplete, isKey_down, hrun]
  · simp [BothRuns]
  · simpa using not_completes_of_length (s := [ESC, 91, 66]) le_rfl

/-- Alt and a bracket, and a B typed behind them, are the arrow key. -/
theorem chord_swallows_text : ¬ ∀ segments : List Text, (∀ s ∈ segments, IsComplete s) →
    segments.IsChain (fun s t => ¬ BothRuns s t) → splitStdinChunk segments.flatten = segments := by
  intro h
  have hrun : IsRun (js "B") := ⟨by decide, by decide⟩
  have hsplit := h [[ESC, 91], js "B"] (by simp [IsComplete, hrun, IsKey.char]) (by simp [BothRuns])
  have hkey : splitStdinChunk [[ESC, 91], js "B"].flatten = [[ESC, 91, 66]] := by decide +kernel
  rw [hkey] at hsplit
  cases hsplit

end Shizuha.Tui
