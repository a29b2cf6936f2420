import Shizuha.Js.Numeral

/-!
# Settings read from the environment

A setting is text, read by `parseInt` or `Number` and dropped when it does not
make sense. The two readers differ: `parseInt` takes the digits at the head of
the text and ignores the rest, `Number` wants all of it.
-/

namespace Shizuha.Process

open Js

/-- `process.env`: `none` for a variable that is not set. -/
abbrev Env := Text → Option Text

/-- `Number.parseInt(s, 10)`, `none` for `NaN`. -/
def parseInt (s : Text) : Option Number :=
  let s := s.dropWhile isSpace
  let digits (t : Text) : Option Number :=
    if t.takeWhile isDigit = [] then none
    else some (Number.ofMagnitude (digitsVal (t.takeWhile isDigit)))
  match s with
  | [] => none
  | u :: t =>
      if u = 45 then (digits t).map Number.neg
      else if u = 43 then digits t
      else digits (u :: t)

/-- The digits of a literal with a radix prefix. -/
def radixValue (radix : ℕ) (digit : UInt16 → Option ℕ) (t : Text) : Option Number :=
  if t = [] then none
  else (t.foldlM (fun n u => (digit u).map (radix * n + ·)) 0).map fun (n : ℕ) =>
    Number.ofMagnitude n

def digitBelow (radix : ℕ) (u : UInt16) : Option ℕ :=
  let v :=
    if isDigit u then u.toNat - 48
    else if 97 ≤ u && u ≤ 122 then u.toNat - 87
    else if 65 ≤ u && u ≤ 90 then u.toNat - 55
    else radix
  if v < radix then some v else none

/-- An unsigned decimal literal that takes up the whole text: digits on at
least one side of the point. -/
def decimalLiteral (t : Text) : Option Number :=
  if t = js "Infinity" then some (.infinite false)
  else
    let ds := t.takeWhile isDigit
    let t := t.dropWhile isDigit
    let (fs, t) :=
      match t with
      | 46 :: t => (t.takeWhile isDigit, t.dropWhile isDigit)
      | t => ([], t)
    if ds = [] ∧ fs = [] then none
    else
      match readExponent t with
      | some (e, []) =>
          some (Number.ofMagnitude (((digitsVal (ds ++ fs) : ℕ) : ℚ) * 10 ^ (e - fs.length)))
      | _ => none

/-- `Number(s)`, `none` for `NaN`. -/
def toNumber (s : Text) : Option Number :=
  match trim s with
  | [] => some (Number.ofMagnitude 0)
  | 48 :: u :: t =>
      if u = 120 ∨ u = 88 then radixValue 16 (digitBelow 16) t
      else if u = 111 ∨ u = 79 then radixValue 8 (digitBelow 8) t
      else if u = 98 ∨ u = 66 then radixValue 2 (digitBelow 2) t
      else decimalLiteral (48 :: u :: t)
  | u :: t =>
      if u = 45 then (decimalLiteral t).map Number.neg
      else if u = 43 then decimalLiteral t
      else decimalLiteral (u :: t)

/-- The value of a variable that is set to something. -/
def Env.raw (env : Env) (name : String) : Option Text := (env (js name)).filter (· ≠ [])

def parsePositiveIntEnv (env : Env) (name : String) (fallback : ℚ) : ℚ :=
  match (env.raw name).bind parseInt with
  | some (.finite v) => if 0 < v.val then v.val else fallback
  | _ => fallback

def positiveIntEnv (env : Env) (name : String) : Option ℚ :=
  match (env.raw name).bind toNumber with
  | some (.finite v) =>
      if v.val.den = 1 ∧ |v.val| ≤ 2 ^ 53 - 1 ∧ 0 < v.val then some v.val else none
  | _ => none

def positiveFloatEnv (env : Env) (name : String) : Option ℚ :=
  match (env.raw name).bind toNumber with
  | some (.finite v) => if 0 < v.val ∧ v.val < 1 then some v.val else none
  | _ => none

theorem positiveFloatEnv_mem {env : Env} {name : String} {v : ℚ}
    (h : positiveFloatEnv env name = some v) : 0 < v ∧ v < 1 := by
  rw [positiveFloatEnv] at h
  split at h
  · split_ifs at h with hv
    cases h
    exact hv
  · exact absurd h (by simp)

end Shizuha.Process
