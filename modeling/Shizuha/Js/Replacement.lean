import Shizuha.Js.Regex
import Shizuha.Js.RegexLanguage
import Shizuha.Js.Split

/-!
# Replacement texts

The second argument of `replace`, where it is a text, is not put in as it is: a
dollar sign and the unit after it may stand for the match or for what is around
it. A pattern without groups has no numbered references, so those are text.
-/

namespace Shizuha.Js

/-- What a replacement text comes to at a match. -/
def substitution (m : Match) : Text → Text
  | [] => []
  | 36 :: 36 :: rest => 36 :: substitution m rest
  | 36 :: 38 :: rest => m.text ++ substitution m rest
  | 36 :: 96 :: rest => m.before ++ substitution m rest
  | 36 :: 39 :: rest => m.after ++ substitution m rest
  | u :: rest => u :: substitution m rest

end Shizuha.Js

/-!
# Replacing a literal everywhere

The matches of a literal pattern are the separators a split finds, so replacing
them by a text is a split at the literal and a join with the text
(`replaceAll_lit`).
-/

namespace Shizuha.Js

open Regex

variable {p s : Text}

/-! ## The first match -/

theorem run_lit_nil {left : Text} (h : ¬ p <+: s) : (lit p).run ⟨left, s, none⟩ = [] := by
  rw [List.eq_nil_iff_forall_not_mem]
  intro d hd
  obtain ⟨hright, -⟩ := mem_run_lit.mp hd
  exact h ⟨d.right, hright.symm⟩

theorem execFrom_lit_free (hp : p ≠ []) (left : Text) (h : Free p s) :
    (lit p).execFrom left s = none := by
  induction s generalizing left with
  | nil =>
      rw [Regex.execFrom, run_lit_nil (by simpa using hp)]
  | cons u s ih =>
      rw [Regex.execFrom, run_lit_nil h.not_prefix]
      exact ih (u :: left) h.tail

theorem execFrom_lit_ends (hp : p ≠ []) (left : Text) {x : Text} (h : Ends p x) (y : Text) :
    (lit p).execFrom left (x ++ (p ++ y)) = some ⟨left.reverse ++ x, p, y, none⟩ := by
  induction x generalizing left with
  | nil =>
      have hrun : (lit p).run ⟨left, p ++ y, none⟩ = [Cursor.past ⟨left, p ++ y, none⟩ p y] :=
        run_lit rfl
      obtain ⟨u, rest, rfl⟩ := List.exists_cons_of_ne_nil hp
      rw [List.nil_append, List.append_nil]
      rw [List.cons_append] at hrun ⊢
      have hlength : (u :: (rest ++ y)).length - y.length = (u :: rest).length := by
        simp only [List.length_cons, List.length_append]
        omega
      have htake : ((u :: rest) ++ y).take (u :: rest).length = u :: rest := List.take_left
      rw [List.cons_append] at htake
      rw [Regex.execFrom, hrun]
      simp only [Cursor.past, hlength, htake]
  | cons u x ih =>
      rw [List.cons_append, Regex.execFrom, run_lit_nil (h.not_prefix y)]
      have hrest := ih (u :: left) h.tail
      simpa using hrest

/-! ## All of them -/

/-- The pieces with what stands for the separators between them. -/
def respliced (f : Match → Text) (p : Text) (last : Text) : Text → List Text → Text
  | _, [] => last
  | before, piece :: pieces =>
      piece ++ (f ⟨before ++ piece, p, rejoin p pieces last, none⟩ ++
        respliced f p last (before ++ piece ++ p) pieces)

theorem splice_lit (hp : p ≠ []) (f : Match → Text) {pieces : List Text} {last : Text}
    (hpieces : ∀ piece ∈ pieces, Ends p piece) (hlast : Free p last) (before : Text) {fuel : ℕ}
    (hfuel : pieces.length < fuel) :
    splice f (before ++ rejoin p pieces last) before.length
      ((lit p).allFrom fuel before.reverse (rejoin p pieces last)) =
        respliced f p last before pieces := by
  induction pieces generalizing before fuel with
  | nil =>
      obtain ⟨fuel, rfl⟩ : ∃ n, fuel = n + 1 := ⟨fuel - 1, by omega⟩
      rw [Regex.allFrom, show rejoin p [] last = last from rfl, execFrom_lit_free hp _ hlast]
      exact List.drop_left
  | cons piece pieces ih =>
      obtain ⟨fuel, rfl⟩ : ∃ n, fuel = n + 1 := ⟨fuel - 1, by omega⟩
      have hshort : pieces.length < fuel := by
        rw [List.length_cons] at hfuel
        omega
      have hjoin : rejoin p (piece :: pieces) last = piece ++ (p ++ rejoin p pieces last) := by
        simp [rejoin]
      have hfirst := execFrom_lit_ends hp before.reverse (hpieces piece List.mem_cons_self)
        (rejoin p pieces last)
      rw [List.reverse_reverse] at hfirst
      have hrest := ih (fun q hq => hpieces q (List.mem_cons_of_mem _ hq)) (before ++ piece ++ p)
        hshort
      have hnonempty : p.isEmpty = false := by simpa using hp
      rw [hjoin, Regex.allFrom, hfirst]
      simp only [hnonempty, Bool.false_eq_true, if_false, splice]
      have htake : ((before ++ (piece ++ (p ++ rejoin p pieces last))).take
          (before ++ piece).length).drop before.length = piece := by
        rw [← List.append_assoc, List.take_left, List.drop_left]
      have hlength : (before ++ piece).length + p.length = (before ++ piece ++ p).length := by
        simp only [List.length_append]
      have hall : before ++ (piece ++ (p ++ rejoin p pieces last)) =
          before ++ piece ++ p ++ rejoin p pieces last := by simp
      rw [htake, hlength, hall, hrest, respliced]
      exact List.append_assoc _ _ _

theorem length_pieces_le (hp : p ≠ []) (pieces : List Text) (last : Text) :
    pieces.length ≤ (rejoin p pieces last).length := by
  have hpos := List.length_pos_iff.mpr hp
  induction pieces with
  | nil => exact Nat.zero_le _
  | cons piece pieces ih =>
      have hjoin : rejoin p (piece :: pieces) last = piece ++ (p ++ rejoin p pieces last) := by
        simp [rejoin]
      rw [hjoin, List.length_cons, List.length_append, List.length_append]
      omega

theorem replaceAll_lit_pieces (hp : p ≠ []) (f : Match → Text) {pieces : List Text} {last : Text}
    (hpieces : ∀ piece ∈ pieces, Ends p piece) (hlast : Free p last) :
    (lit p).replaceAll f (rejoin p pieces last) = respliced f p last [] pieces := by
  have hlength := length_pieces_le hp pieces last
  exact splice_lit hp f hpieces hlast [] (by omega)

theorem respliced_const (v p last before : Text) (pieces : List Text) :
    respliced (fun _ => v) p last before pieces = rejoin v pieces last := by
  induction pieces generalizing before with
  | nil => rfl
  | cons piece pieces ih => simp [respliced, rejoin, ih]

/-- A text put in as it is. -/
theorem replaceAll_lit (hp : p ≠ []) (v s : Text) :
    (lit p).replaceAll (fun _ => v) s = join v (splitOn p s) := by
  obtain ⟨pieces, last, hsplit, hjoin, hends, hfree⟩ := splitOn_spec hp s
  rw [hsplit, join, intercalate_concat, hjoin, replaceAll_lit_pieces hp _ hends hfree,
    respliced_const]

/-- Nothing but the literal. -/
theorem replaceAll_lit_self (hp : p ≠ []) (f : Match → Text) :
    (lit p).replaceAll f p = f ⟨[], p, [], none⟩ := by
  have hfree : Free p [] := by
    intro a b heq
    have hnil := (List.append_eq_nil_iff.mp heq.symm).2
    exact hp (List.append_eq_nil_iff.mp hnil).1
  have hself : p = rejoin p [[]] [] := by simp [rejoin]
  have hends : ∀ piece ∈ [([] : Text)], Ends p piece := by
    intro piece hpiece
    rw [List.mem_singleton.mp hpiece]
    exact ends_nil p
  calc (lit p).replaceAll f p = (lit p).replaceAll f (rejoin p [[]] []) := by rw [← hself]
    _ = respliced f p [] [] [[]] := replaceAll_lit_pieces hp f hends hfree
    _ = f ⟨[], p, [], none⟩ := by simp [respliced, rejoin]

end Shizuha.Js
