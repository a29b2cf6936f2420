import Shizuha.Js.Utf8

/-!
# Reading a stream of chunks

What a reader does with bytes that come in pieces: a decoder that keeps the
character it is in the middle of, and a buffer that is cut at every separator
in it. Both leave a state from which the rest is read as if it had come at
once, so what is read depends on the bytes and not on the pieces.
-/

namespace Shizuha.Js

/-! ## Decoding -/

def utf8Feed (q : Utf8State) : Bytes → Text × Utf8State
  | [] => ([], q)
  | b :: rest =>
      let next := utf8Next q b
      let more := utf8Feed next.2 rest
      (next.1 ++ more.1, more.2)

/-- A `TextDecoder` between two calls. -/
structure TextDecoder where
  state : Utf8State
  bomSeen : Bool

namespace TextDecoder

def init : TextDecoder := ⟨.start, false⟩

/-- The first unit of all is dropped if it is a byte order mark. -/
def emit (bomSeen : Bool) : Text → Text × Bool
  | [] => ([], bomSeen)
  | u :: s => (if !bomSeen && u == 0xFEFF then s else u :: s, true)

/-- `decode(bytes, { stream: true })`. -/
def decode (d : TextDecoder) (bytes : Bytes) : Text × TextDecoder :=
  let fed := utf8Feed d.state bytes
  let out := emit d.bomSeen fed.1
  (out.1, ⟨fed.2, out.2⟩)

/-- `decode()`. -/
def finish (d : TextDecoder) : Text := (emit d.bomSeen (utf8Run d.state [])).1

end TextDecoder

def stripBom (s : Text) : Text := (TextDecoder.emit false s).1

/-- The text of a whole stream. -/
def streamText (bytes : Bytes) : Text := stripBom (utf8Decode bytes)

theorem utf8Run_append (q : Utf8State) (a b : Bytes) :
    utf8Run q (a ++ b) = (utf8Feed q a).1 ++ utf8Run (utf8Feed q a).2 b := by
  induction a generalizing q with
  | nil => rfl
  | cons x a ih => rw [List.cons_append, utf8Run, utf8Feed, ih, List.append_assoc]

namespace TextDecoder

theorem emit_true (s : Text) : (emit true s).1 = s := by
  cases s <;> rfl

theorem emit_append (bomSeen : Bool) (a b : Text) :
    (emit bomSeen (a ++ b)).1 = (emit bomSeen a).1 ++ (emit (emit bomSeen a).2 b).1 := by
  cases a with
  | nil => rfl
  | cons u a =>
      show (if !bomSeen && u == 0xFEFF then a ++ b else u :: (a ++ b)) =
        (if !bomSeen && u == 0xFEFF then a else u :: a) ++ (emit true b).1
      rw [emit_true]
      split_ifs <;> rfl

/-- What is left to read from a decoder. -/
def rest (d : TextDecoder) (bytes : Bytes) : Text := (emit d.bomSeen (utf8Run d.state bytes)).1

theorem rest_append (d : TextDecoder) (a b : Bytes) :
    d.rest (a ++ b) = (d.decode a).1 ++ (d.decode a).2.rest b := by
  rw [rest, utf8Run_append, emit_append]
  rfl

end TextDecoder

/-! ## Cutting -/

/-- The pieces before each separator and what is left after the last. -/
def cutFuel (sep : Text) : ℕ → Text → List Text × Text
  | 0, s => ([], s)
  | fuel + 1, s =>
      match indexOf sep s with
      | none => ([], s)
      | some i =>
          let more := cutFuel sep fuel (s.drop (i + sep.length))
          (s.take i :: more.1, more.2)

def cut (sep s : Text) : List Text × Text := cutFuel sep s.length s

theorem indexOf_le {sep s : Text} {i : ℕ} (h : indexOf sep s = some i) :
    i + sep.length ≤ s.length := by
  induction s generalizing i with
  | nil =>
      rw [indexOf] at h
      split_ifs at h with hp
      cases h
      simpa using (List.isPrefixOf_iff_prefix.mp hp).length_le
  | cons u s ih =>
      rw [indexOf] at h
      split_ifs at h with hp
      · cases h
        simpa using (List.isPrefixOf_iff_prefix.mp hp).length_le
      · obtain ⟨j, hj, rfl⟩ := Option.map_eq_some_iff.mp h
        have := ih hj
        simp only [List.length_cons]
        omega

/-- A separator that is there is found however the text goes on. -/
theorem indexOf_extend {sep s : Text} {i : ℕ} (h : indexOf sep s = some i) (t : Text) :
    indexOf sep (s ++ t) = some i := by
  induction s generalizing i with
  | nil =>
      rw [indexOf] at h
      split_ifs at h with hp
      have hnil : sep = [] := List.prefix_nil.mp (List.isPrefixOf_iff_prefix.mp hp)
      cases h
      cases t <;> simp [indexOf, hnil]
  | cons u s ih =>
      rw [indexOf] at h
      rw [List.cons_append, indexOf]
      split_ifs at h with hp
      · have hp' : sep.isPrefixOf (u :: (s ++ t)) = true :=
          List.isPrefixOf_iff_prefix.mpr
            ((List.isPrefixOf_iff_prefix.mp hp).trans (List.prefix_append (u :: s) t))
        rw [if_pos hp', h]
      · obtain ⟨j, hj, rfl⟩ := Option.map_eq_some_iff.mp h
        -- A separator further on that now fits earlier would overlap the end.
        have hle := indexOf_le hj
        have hp' : ¬ sep.isPrefixOf (u :: (s ++ t)) = true := by
          intro hpre
          apply hp
          rw [List.isPrefixOf_iff_prefix] at hpre ⊢
          refine List.prefix_of_prefix_length_le hpre (List.prefix_append (u :: s) t) ?_
          simp only [List.length_cons]
          omega
        rw [if_neg hp', ih hj]
        rfl

section Cut

variable {sep : Text}

theorem cutFuel_of_le (hsep : sep ≠ []) {fuel : ℕ} {s : Text} (h : s.length ≤ fuel) :
    cutFuel sep fuel s = cut sep s := by
  induction fuel using Nat.strong_induction_on generalizing s with
  | _ fuel ih =>
      rw [cut]
      cases fuel with
      | zero => rw [Nat.le_zero.mp h]
      | succ n =>
          cases hs : s.length with
          | zero =>
              have hnil : s = [] := List.length_eq_zero_iff.mp hs
              have hidx : indexOf sep s = none := by
                rw [hnil, indexOf, if_neg]
                simpa [List.isPrefixOf_iff_prefix] using hsep
              rw [cutFuel, cutFuel, hidx]
          | succ m =>
              rw [cutFuel, cutFuel]
              cases hidx : indexOf sep s with
              | none => rfl
              | some i =>
                  have hpos : 0 < sep.length := List.length_pos_iff.mpr hsep
                  have hdrop : (s.drop (i + sep.length)).length ≤ m := by
                    rw [List.length_drop]
                    omega
                  have hn : cutFuel sep n (s.drop (i + sep.length)) =
                      cut sep (s.drop (i + sep.length)) := ih n (by omega) (by omega)
                  have hm : cutFuel sep m (s.drop (i + sep.length)) =
                      cut sep (s.drop (i + sep.length)) := ih m (by omega) hdrop
                  simp only [hn, hm]

theorem cut_of_none {s : Text} (h : indexOf sep s = none) : cut sep s = ([], s) := by
  rw [cut]
  cases s.length with
  | zero => rfl
  | succ n => rw [cutFuel, h]

theorem cut_of_some (hsep : sep ≠ []) {s : Text} {i : ℕ} (h : indexOf sep s = some i) :
    cut sep s = (s.take i :: (cut sep (s.drop (i + sep.length))).1,
      (cut sep (s.drop (i + sep.length))).2) := by
  have hle := indexOf_le h
  have hpos : 0 < sep.length := List.length_pos_iff.mpr hsep
  obtain ⟨n, hn⟩ : ∃ n, s.length = n + 1 := ⟨s.length - 1, by omega⟩
  have hdrop : (s.drop (i + sep.length)).length ≤ n := by
    rw [List.length_drop]
    omega
  rw [cut, hn, cutFuel, h]
  simp only [cutFuel_of_le hsep hdrop]

/-- Cutting a text is cutting its beginning, and then what that left together
with the rest. -/
theorem cut_append (hsep : sep ≠ []) (s t : Text) :
    cut sep (s ++ t) = ((cut sep s).1 ++ (cut sep ((cut sep s).2 ++ t)).1,
      (cut sep ((cut sep s).2 ++ t)).2) := by
  induction hlen : s.length using Nat.strong_induction_on generalizing s with
  | _ n ih =>
      cases hidx : indexOf sep s with
      | none => rw [cut_of_none hidx, List.nil_append]
      | some i =>
          have hle := indexOf_le hidx
          have hpos : 0 < sep.length := List.length_pos_iff.mpr hsep
          have hrest := ih (s.drop (i + sep.length)).length
            (by rw [List.length_drop]; omega) (s.drop (i + sep.length)) rfl
          rw [cut_of_some hsep hidx, cut_of_some hsep (indexOf_extend hidx t),
            List.take_append_of_le_length (by omega), List.drop_append_of_le_length hle, hrest]
          rfl

/-- Nothing is left to cut in what was left. -/
theorem cut_rest (hsep : sep ≠ []) (s : Text) : cut sep (cut sep s).2 = ([], (cut sep s).2) := by
  induction hlen : s.length using Nat.strong_induction_on generalizing s with
  | _ n ih =>
      cases hidx : indexOf sep s with
      | none => rw [cut_of_none hidx, cut_of_none hidx]
      | some i =>
          have hle := indexOf_le hidx
          have hpos : 0 < sep.length := List.length_pos_iff.mpr hsep
          rw [cut_of_some hsep hidx]
          exact ih (s.drop (i + sep.length)).length (by rw [List.length_drop]; omega)
            (s.drop (i + sep.length)) rfl

end Cut

end Shizuha.Js
