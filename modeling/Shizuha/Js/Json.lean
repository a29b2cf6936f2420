import Shizuha.Js.Numeral
import Mathlib.Data.List.Sort

/-!
# JSON

`JSON.stringify` and `JSON.parse`, and the canonical text with sorted keys
that the program compares values by.

An object is its list of fields in property order. The writer needs nothing
else; the reader reads the fields as they are written and then puts them in
the order the language keeps them in, where a repeated key keeps its first
place and its last value and integer keys come first. So the round trip is
two facts: reading what was written gives the value back with its infinities
turned into `null`, and a value that came out of the language is already in
order.
-/

namespace Shizuha.Js

inductive Json where
  | null
  | bool (b : Bool)
  | num (n : Number)
  | str (s : Text)
  | arr (items : List Json)
  | obj (fields : List (Text × Json))

/-! ## Writing -/

def hexDigit (n : ℕ) : UInt16 := UInt16.ofNat (if n < 10 then 48 + n else 87 + n)

/-- `\uXXXX`. -/
def unicodeEscape (u : UInt16) : Text :=
  let n := u.toNat
  [92, 117, hexDigit (n / 4096), hexDigit (n / 256 % 16), hexDigit (n / 16 % 16),
    hexDigit (n % 16)]

/-- The letter of a short escape. -/
def shortEscape (u : UInt16) : Option UInt16 :=
  if u = 8 then some 98
  else if u = 9 then some 116
  else if u = 10 then some 110
  else if u = 12 then some 102
  else if u = 13 then some 114
  else if u = 34 then some 34
  else if u = 92 then some 92
  else none

/-- A unit that is no half of a surrogate pair. -/
def escapeUnit (u : UInt16) : Text :=
  match shortEscape u with
  | some c => [92, c]
  | none =>
      if u < 0x20 || isHighSurrogate u || isLowSurrogate u then unicodeEscape u else [u]

def escape : Text → Text
  | [] => []
  | [u] => escapeUnit u
  | u :: v :: s =>
      if isHighSurrogate u && isLowSurrogate v then u :: v :: escape s
      else escapeUnit u ++ escape (v :: s)

def quote (s : Text) : Text := 34 :: escape s ++ [34]

def numberText : Number → Text
  | .finite x => finiteText x
  | .infinite _ => [110, 117, 108, 108]

mutual

/-- `JSON.stringify` of a value. -/
def Json.print : Json → Text
  | .null => [110, 117, 108, 108]
  | .bool true => [116, 114, 117, 101]
  | .bool false => [102, 97, 108, 115, 101]
  | .num n => numberText n
  | .str s => quote s
  | .arr items => 91 :: printItems items ++ [93]
  | .obj fields => 123 :: printFields fields ++ [125]

def printItems : List Json → Text
  | [] => []
  | [v] => v.print
  | v :: w :: rest => v.print ++ 44 :: printItems (w :: rest)

def printFields : List (Text × Json) → Text
  | [] => []
  | [(k, v)] => quote k ++ 58 :: v.print
  | (k, v) :: f :: rest => quote k ++ 58 :: v.print ++ 44 :: printFields (f :: rest)

end

/-! ## Reading -/

/-- White space between tokens: four units, not what `trim` strips. -/
def isJsonSpace (u : UInt16) : Bool := u == 9 || u == 10 || u == 13 || u == 32

def skipSpace (s : Text) : Text := s.dropWhile isJsonSpace

def hexValue (u : UInt16) : Option ℕ :=
  if isDigit u then some (u.toNat - 48)
  else if 97 ≤ u && u ≤ 102 then some (u.toNat - 87)
  else if 65 ≤ u && u ≤ 70 then some (u.toNat - 55)
  else none

def readHex (a b c d : UInt16) : Option UInt16 := do
  let a ← hexValue a
  let b ← hexValue b
  let c ← hexValue c
  let d ← hexValue d
  some (UInt16.ofNat (a * 4096 + b * 256 + c * 16 + d))

/-- The unit a short escape stands for. -/
def unescapeUnit (c : UInt16) : Option UInt16 :=
  if c = 98 then some 8
  else if c = 116 then some 9
  else if c = 110 then some 10
  else if c = 102 then some 12
  else if c = 114 then some 13
  else if c = 34 then some 34
  else if c = 92 then some 92
  else if c = 47 then some 47
  else none

/-- A string after its opening quote. -/
def readString : Text → Option (Text × Text)
  | [] => none
  | u :: s =>
      if u = 34 then some ([], s)
      else if u = 92 then
        match s with
        | [] => none
        | c :: s =>
            if c = 117 then
              match s with
              | a :: b :: c :: d :: s => do
                  let v ← readHex a b c d
                  let (t, rest) ← readString s
                  some (v :: t, rest)
              | _ => none
            else do
              let v ← unescapeUnit c
              let (t, rest) ← readString s
              some (v :: t, rest)
      else if u < 0x20 then none
      else do
        let (t, rest) ← readString s
        some (u :: t, rest)

def readLiteral (word : Text) (v : Json) (s : Text) : Option (Json × Text) :=
  if startsWith s word then some (v, s.drop word.length) else none

mutual

/-- The value at the head of a text, its fields as they are written. `fuel`
bounds the depth of the calls. -/
def readValue : ℕ → Text → Option (Json × Text)
  | 0, _ => none
  | fuel + 1, s =>
      match skipSpace s with
      | [] => none
      | u :: s =>
          if u = 34 then (readString s).map fun p => (.str p.1, p.2)
          else if u = 91 then
            match skipSpace s with
            | [] => none
            | v :: t =>
                if v = 93 then some (.arr [], t)
                else (readItems fuel (v :: t)).map fun p => (.arr p.1, p.2)
          else if u = 123 then
            match skipSpace s with
            | [] => none
            | v :: t =>
                if v = 125 then some (.obj [], t)
                else (readFields fuel (v :: t)).map fun p => (.obj p.1, p.2)
          else if u = 110 then readLiteral [110, 117, 108, 108] .null (u :: s)
          else if u = 116 then readLiteral [116, 114, 117, 101] (.bool true) (u :: s)
          else if u = 102 then readLiteral [102, 97, 108, 115, 101] (.bool false) (u :: s)
          else (readNumber (u :: s)).map fun p => (.num p.1, p.2)

/-- The items of an array, from the first one on. -/
def readItems : ℕ → Text → Option (List Json × Text)
  | 0, _ => none
  | fuel + 1, s => do
      let (v, s) ← readValue fuel s
      match skipSpace s with
      | [] => none
      | u :: s =>
          if u = 44 then do
            let (vs, s) ← readItems fuel s
            some (v :: vs, s)
          else if u = 93 then some ([v], s)
          else none

/-- The fields of an object, from the first key on. -/
def readFields : ℕ → Text → Option (List (Text × Json) × Text)
  | 0, _ => none
  | fuel + 1, s =>
      match skipSpace s with
      | [] => none
      | u :: s =>
          if u = 34 then do
            let (k, s) ← readString s
            match skipSpace s with
            | [] => none
            | u :: s =>
                if u = 58 then do
                  let (v, s) ← readValue fuel s
                  match skipSpace s with
                  | [] => none
                  | u :: s =>
                      if u = 44 then do
                        let (fs, s) ← readFields fuel s
                        some ((k, v) :: fs, s)
                      else if u = 125 then some ([(k, v)], s)
                      else none
                else none
          else none

end

/-! ## Property order -/

/-- The index a key denotes, when it is an array index: the decimal text of
a number below `2 ^ 32 - 1`. -/
def indexKey (k : Text) : Option ℕ :=
  if decimal (digitsVal k) = k ∧ digitsVal k < 2 ^ 32 - 1 then some (digitsVal k) else none

/-- Defining a property: a key that is there keeps its place. -/
def setField (k : Text) (v : Json) : List (Text × Json) → List (Text × Json)
  | [] => [(k, v)]
  | f :: rest => if f.1 = k then (k, v) :: rest else f :: setField k v rest

/-- Own properties in the order the language enumerates them: array indices
ascending, then the other keys as they were defined. -/
def propertyOrder (fields : List (Text × Json)) : List (Text × Json) :=
  let isIndex (f : Text × Json) : Bool := (indexKey f.1).isSome
  (fields.filter isIndex).insertionSort (fun f g => (indexKey f.1).getD 0 ≤ (indexKey g.1).getD 0) ++
    fields.filter (fun f => !isIndex f)

/-- The object built by defining the fields one after the other. -/
def buildFields (fields : List (Text × Json)) : List (Text × Json) :=
  propertyOrder (fields.foldl (fun acc f => setField f.1 f.2 acc) [])

mutual

/-- The value the reader builds from the fields as they are written. -/
def Json.normalize : Json → Json
  | .arr items => .arr (normalizeItems items)
  | .obj fields => .obj (buildFields (normalizeFields fields))
  | v => v

def normalizeItems : List Json → List Json
  | [] => []
  | v :: rest => v.normalize :: normalizeItems rest

def normalizeFields : List (Text × Json) → List (Text × Json)
  | [] => []
  | (k, v) :: rest => (k, v.normalize) :: normalizeFields rest

end

mutual

/-- What is left of a value once it is written: a number that is not finite
is written as `null`. -/
def Json.nullify : Json → Json
  | .num (.infinite _) => .null
  | .arr items => .arr (nullifyItems items)
  | .obj fields => .obj (nullifyFields fields)
  | v => v

def nullifyItems : List Json → List Json
  | [] => []
  | v :: rest => v.nullify :: nullifyItems rest

def nullifyFields : List (Text × Json) → List (Text × Json)
  | [] => []
  | (k, v) :: rest => (k, v.nullify) :: nullifyFields rest

end

/-- A text read without ordering its fields. -/
def Json.read (s : Text) : Option Json :=
  match readValue (2 * s.length + 2) s with
  | some (v, rest) => if skipSpace rest = [] then some v else none
  | none => none

/-- `JSON.parse`, `none` for the exception. -/
def Json.parse (s : Text) : Option Json := (Json.read s).map Json.normalize

end Shizuha.Js
