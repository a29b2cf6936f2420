import Shizuha.Js.Text

/-!
# Patterns, matched by backtracking

A pattern is matched the way the language specifies it: a matcher takes a
position to the list of positions it can end at, best choice first, and the
head of that list is the answer. Alternation appends, a sequence maps and
flattens, a greedy quantifier tries another round before it stops and a lazy
one after. The lists make backtracking a `flatMap`, and "there is a match"
becomes "the list is not empty", which is the form every lemma below uses.

A quantifier runs on fuel that its call site covers: past the minimum a round
that consumed nothing is refused, so the units still to the right, plus the
minimum, bound the rounds.

One capture group is enough for the patterns modelled here.
-/

namespace Shizuha.Js

/-- A pattern over code units. -/
inductive Regex where
  | empty
  | unit (p : UInt16 → Bool)
  | seq (a b : Regex)
  | alt (a b : Regex)
  | rep (greedy : Bool) (lo : Nat) (hi : Option Nat) (body : Regex)
  | bos
  | eos
  | wordBoundary
  | capture (body : Regex)

/-- A position in the subject: what lies to the left, nearest unit first,
what lies to the right, and the group captured so far. -/
structure Cursor where
  left : Text
  right : Text
  group : Option Text
  deriving DecidableEq, Repr

def atWord : Text → Bool
  | [] => false
  | u :: _ => isWord u

/-- The rounds of a quantifier. `lo` rounds are owed and `hi` are allowed. -/
def rounds (body : Cursor → List Cursor) (greedy : Bool) :
    Nat → Nat → Option Nat → Cursor → List Cursor
  | 0, _, _, _ => []
  | fuel + 1, lo, hi, c =>
      if hi = some 0 then [c]
      else
        let more := (body c).flatMap fun d =>
          if lo = 0 ∧ d.right.length = c.right.length then []
          else rounds body greedy fuel (lo - 1) (hi.map (· - 1)) d
        if 0 < lo then more
        else if greedy then more ++ [c]
        else c :: more

/-- Every way the pattern can match from a position, best first. -/
def Regex.run : Regex → Cursor → List Cursor
  | .empty, c => [c]
  | .unit p, c =>
      match c.right with
      | [] => []
      | u :: s => if p u then [⟨u :: c.left, s, c.group⟩] else []
  | .seq a b, c => (a.run c).flatMap b.run
  | .alt a b, c => a.run c ++ b.run c
  | .rep greedy lo hi body, c =>
      rounds body.run greedy (lo + c.right.length + 1) lo hi c
  | .bos, c => if c.left.isEmpty then [c] else []
  | .eos, c => if c.right.isEmpty then [c] else []
  | .wordBoundary, c => if atWord c.left != atWord c.right then [c] else []
  | .capture body, c =>
      (body.run c).map fun d =>
        { d with group := some (d.left.take (d.left.length - c.left.length)).reverse }

section

variable {a b r : Regex} {c : Cursor} {p : UInt16 → Bool}

theorem Regex.run_empty : Regex.empty.run c = [c] := rfl

theorem Regex.run_unit_nil (left : Text) (group : Option Text) :
    (Regex.unit p).run ⟨left, [], group⟩ = [] := rfl

theorem Regex.run_unit_cons (left : Text) (u : UInt16) (s : Text) (group : Option Text) :
    (Regex.unit p).run ⟨left, u :: s, group⟩ = if p u then [⟨u :: left, s, group⟩] else [] := rfl

theorem Regex.run_seq : (Regex.seq a b).run c = (a.run c).flatMap b.run := rfl

theorem Regex.run_alt : (Regex.alt a b).run c = a.run c ++ b.run c := rfl

theorem Regex.run_rep (greedy : Bool) (lo : Nat) (hi : Option Nat) :
    (Regex.rep greedy lo hi r).run c = rounds r.run greedy (lo + c.right.length + 1) lo hi c := rfl

theorem Regex.run_capture : (Regex.capture r).run c = (r.run c).map fun d =>
    { d with group := some (d.left.take (d.left.length - c.left.length)).reverse } := rfl

end

/-- What a successful match reports: the text around it, the matched text
and the captured group. -/
structure Match where
  before : Text
  text : Text
  after : Text
  group : Option Text
  deriving DecidableEq, Repr

/-- The leftmost match at or after a position. -/
def Regex.execFrom (r : Regex) (left : Text) : Text → Option Match
  | [] =>
      match r.run ⟨left, [], none⟩ with
      | [] => none
      | d :: _ => some ⟨left.reverse, [], d.right, d.group⟩
  | u :: s =>
      match r.run ⟨left, u :: s, none⟩ with
      | [] => execFrom r (u :: left) s
      | d :: _ =>
          some ⟨left.reverse, (u :: s).take ((u :: s).length - d.right.length),
            d.right, d.group⟩

def Regex.exec (r : Regex) (s : Text) : Option Match := r.execFrom [] s

def Regex.test (r : Regex) (s : Text) : Bool := (r.exec s).isSome

/-- All matches of a global pattern, left to right; an empty match moves the
next attempt on by one unit. `fuel` covers one attempt per position. -/
def Regex.allFrom (r : Regex) : Nat → Text → Text → List Match
  | 0, _, _ => []
  | fuel + 1, left, s =>
      match r.execFrom left s with
      | none => []
      | some m =>
          if m.text.isEmpty then
            match m.after with
            | [] => [m]
            | u :: rest => m :: allFrom r fuel (u :: m.before.reverse) rest
          else m :: allFrom r fuel ((m.before ++ m.text).reverse) m.after

def Regex.matchAll (r : Regex) (s : Text) : List Match :=
  r.allFrom (s.length + 1) [] s

/-- The text left over after the last match, with every match rewritten. -/
def splice (f : Match → Text) (s : Text) : Nat → List Match → Text
  | start, [] => s.drop start
  | start, m :: rest =>
      (s.take m.before.length).drop start ++ f m ++
        splice f s (m.before.length + m.text.length) rest

/-- `replace` with a global pattern. -/
def Regex.replaceAll (r : Regex) (f : Match → Text) (s : Text) : Text :=
  splice f s 0 (r.matchAll s)

/-- `replace` with a pattern that is not global. -/
def Regex.replaceFirst (r : Regex) (f : Match → Text) (s : Text) : Text :=
  match r.exec s with
  | none => s
  | some m => m.before ++ f m ++ m.after

/-! ## Building patterns -/

namespace Regex

/-- A run of literal units. -/
def lit : Text → Regex
  | [] => .empty
  | u :: s => .seq (.unit (· == u)) (lit s)

/-- A unit up to ASCII case. Under the `i` flag without `u` no unit outside
ASCII folds to one inside it, so for an ASCII pattern this is the whole of
case folding. -/
def foldUnit (u : UInt16) : UInt16 := if 65 ≤ u && u ≤ 90 then u + 32 else u

/-- A run of literal units under the `i` flag. -/
def litI : Text → Regex
  | [] => .empty
  | u :: s => .seq (.unit (fun v => foldUnit v == foldUnit u)) (litI s)

def cat : List Regex → Regex
  | [] => .empty
  | [r] => r
  | r :: rest => .seq r (cat rest)

def oneOf : List Regex → Regex
  | [] => .unit (fun _ => false)
  | [r] => r
  | r :: rest => .alt r (oneOf rest)

def star (r : Regex) : Regex := .rep true 0 none r
def plus (r : Regex) : Regex := .rep true 1 none r
def opt (r : Regex) : Regex := .rep true 0 (some 1) r
def lazyStar (r : Regex) : Regex := .rep false 0 none r
def anyUnit : Regex := .unit (fun _ => true)
def space : Regex := .unit isSpace
def digit : Regex := .unit isDigit

end Regex

/-! ## The leftmost match of a pattern that only looks ahead -/

/-- The text up to the first position at which `P` holds of what is ahead. -/
def cutWhere (P : Text → Bool) : Text → Text
  | [] => []
  | u :: s => if P (u :: s) then [] else u :: cutWhere P s

/-- When whether the pattern matches at a position depends on what is to the
right of it alone, the text before the leftmost match is a cut. -/
theorem before_execFrom {r : Regex} {P : Text → Bool} (hnil : P [] = false)
    (h : ∀ left s, r.run ⟨left, s, none⟩ = [] ↔ P s = false) (left s : Text) :
    (match r.execFrom left s with
      | none => left.reverse ++ s
      | some m => m.before) = left.reverse ++ cutWhere P s := by
  induction s generalizing left with
  | nil =>
      rw [Regex.execFrom, (h left []).mpr hnil]
      rfl
  | cons u s ih =>
      rw [Regex.execFrom, cutWhere]
      cases hP : P (u :: s) with
      | false =>
          have ih := ih (u :: left)
          rw [(h left (u :: s)).mpr hP]
          simpa using ih
      | true =>
          cases hrun : r.run ⟨left, u :: s, none⟩ with
          | nil => exact absurd ((h left (u :: s)).mp hrun) (by simp [hP])
          | cons d rest => simp

end Shizuha.Js
