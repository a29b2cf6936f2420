import Shizuha.Js.Json

/-!
# What may follow a JSON text

The reader never looks past the value it reads, except to see that a numeral
is over. So a value is read the same with more text after it, if a numeral
would not go on there, and white space at the end of a text changes nothing.
-/

namespace Shizuha.Js

section Append

variable {t : Text}

theorem takeWhile_append_stops (ht : t.takeWhile isDigit = []) (s : Text) :
    (s ++ t).takeWhile isDigit = s.takeWhile isDigit := by
  induction s with
  | nil => rw [List.nil_append, ht, List.takeWhile_nil]
  | cons u s ih => rw [List.cons_append, List.takeWhile_cons, List.takeWhile_cons, ih]

theorem dropWhile_append_stops (ht : t.takeWhile isDigit = []) (s : Text) :
    (s ++ t).dropWhile isDigit = s.dropWhile isDigit ++ t := by
  induction s with
  | nil =>
      have h := List.takeWhile_append_dropWhile (p := isDigit) (l := t)
      rw [ht, List.nil_append] at h
      rw [List.nil_append, h, List.dropWhile_nil, List.nil_append]
  | cons u s ih =>
      rw [List.cons_append, List.dropWhile_cons, List.dropWhile_cons, ih]
      split_ifs <;> rfl

theorem readFraction_append (ht : Stops t) {s fs rest : Text}
    (h : readFraction s = some (fs, rest)) : readFraction (s ++ t) = some (fs, rest ++ t) := by
  cases s with
  | nil =>
      cases h
      exact ht.readFraction
  | cons u s =>
      rw [readFraction] at h
      rw [List.cons_append, readFraction, takeWhile_append_stops ht.takeWhile,
        dropWhile_append_stops ht.takeWhile]
      split_ifs at h ⊢ <;> cases h <;> rfl

theorem readExponentDigits_append (ht : Stops t) {negative : Bool} {s rest : Text} {e : ℤ}
    (h : readExponentDigits negative s = some (e, rest)) :
    readExponentDigits negative (s ++ t) = some (e, rest ++ t) := by
  rw [readExponentDigits] at h
  rw [readExponentDigits, takeWhile_append_stops ht.takeWhile, dropWhile_append_stops ht.takeWhile]
  split_ifs at h ⊢ with hnil
  · cases h
    rfl
  · cases h
    rfl

theorem readSignedDigits_append (ht : Stops t) {s rest : Text} {e : ℤ}
    (h : readSignedDigits s = some (e, rest)) : readSignedDigits (s ++ t) = some (e, rest ++ t) := by
  cases s with
  | nil => cases h
  | cons u s =>
      rw [readSignedDigits] at h
      rw [List.cons_append, readSignedDigits]
      split_ifs at h ⊢
      · exact readExponentDigits_append ht h
      · exact readExponentDigits_append ht h
      · exact readExponentDigits_append ht h

theorem readExponent_append (ht : Stops t) {s rest : Text} {e : ℤ}
    (h : readExponent s = some (e, rest)) : readExponent (s ++ t) = some (e, rest ++ t) := by
  cases s with
  | nil =>
      cases h
      exact ht.readExponent
  | cons u s =>
      rw [readExponent] at h
      rw [List.cons_append, readExponent]
      split_ifs at h ⊢
      · exact readSignedDigits_append ht h
      · cases h
        rfl

theorem readMagnitude_append (ht : Stops t) {s rest : Text} {x : ℚ}
    (h : readMagnitude s = some (x, rest)) : readMagnitude (s ++ t) = some (x, rest ++ t) := by
  simp only [readMagnitude] at h ⊢
  rw [takeWhile_append_stops ht.takeWhile, dropWhile_append_stops ht.takeWhile]
  split_ifs at h ⊢
  cases hfrac : readFraction (s.dropWhile isDigit) with
  | none =>
      rw [hfrac] at h
      cases h
  | some p =>
      obtain ⟨fs, s'⟩ := p
      rw [hfrac] at h
      rw [readFraction_append ht hfrac]
      simp only at h ⊢
      cases hexp : readExponent s' with
      | none =>
          rw [hexp] at h
          cases h
      | some q =>
          obtain ⟨e, s''⟩ := q
          rw [hexp] at h
          rw [readExponent_append ht hexp]
          simp only at h ⊢
          cases h
          rfl

theorem readNumber_append (ht : Stops t) {s rest : Text} {n : Number}
    (h : readNumber s = some (n, rest)) : readNumber (s ++ t) = some (n, rest ++ t) := by
  cases s with
  | nil => cases h
  | cons u s =>
      rw [readNumber] at h
      rw [List.cons_append, readNumber]
      split_ifs at h ⊢
      · obtain ⟨p, hp, heq⟩ := Option.map_eq_some_iff.mp h
        rw [readMagnitude_append ht hp]
        cases heq
        rfl
      · obtain ⟨p, hp, heq⟩ := Option.map_eq_some_iff.mp h
        rw [← List.cons_append, readMagnitude_append ht hp]
        cases heq
        rfl

theorem readString_append (t : Text) {s rest k : Text}
    (h : readString s = some (k, rest)) : readString (s ++ t) = some (k, rest ++ t) := by
  induction hlen : s.length using Nat.strong_induction_on generalizing s k with
  | _ n ih =>
      -- What comes after the first units is shorter.
      have hrest : ∀ {s' k' : Text}, readString s' = some (k', rest) → s'.length < n →
          readString (s' ++ t) = some (k', rest ++ t) :=
        fun h' hlt => ih _ hlt h' rfl
      cases s with
      | nil => cases h
      | cons u s =>
          rw [List.length_cons] at hlen
          rw [readString.eq_def] at h ⊢
          simp only [List.cons_append] at h ⊢
          by_cases hq : u = 34
          · rw [if_pos hq] at h ⊢
            cases h
            rfl
          rw [if_neg hq] at h ⊢
          by_cases hb : u = 92
          · rw [if_pos hb] at h ⊢
            cases s with
            | nil => cases h
            | cons c s =>
                rw [List.length_cons] at hlen
                simp only [List.cons_append] at h ⊢
                by_cases hc : c = 117
                · rw [if_pos hc] at h ⊢
                  match s, hlen, h with
                  | a :: b :: c :: d :: s, hlen, h =>
                      simp only [List.length_cons] at hlen
                      simp only [List.cons_append, Option.bind_eq_bind, Option.bind_eq_some_iff]
                        at h ⊢
                      obtain ⟨v, hv, p, hp, heq⟩ := h
                      cases heq
                      exact ⟨v, hv, (p.1, p.2 ++ t), hrest hp (by omega), rfl⟩
                · rw [if_neg hc] at h ⊢
                  simp only [Option.bind_eq_bind, Option.bind_eq_some_iff] at h ⊢
                  obtain ⟨v, hv, p, hp, heq⟩ := h
                  cases heq
                  exact ⟨v, hv, (p.1, p.2 ++ t), hrest hp (by omega), rfl⟩
          rw [if_neg hb] at h ⊢
          split_ifs at h ⊢
          simp only [Option.bind_eq_bind, Option.bind_eq_some_iff] at h ⊢
          obtain ⟨p, hp, heq⟩ := h
          cases heq
          exact ⟨(p.1, p.2 ++ t), hrest hp (by omega), rfl⟩

theorem readLiteral_append (t : Text) {word s rest : Text} {v w : Json}
    (h : readLiteral word v s = some (w, rest)) :
    readLiteral word v (s ++ t) = some (w, rest ++ t) := by
  rw [readLiteral] at h
  split_ifs at h with hpre
  cases h
  obtain ⟨s', rfl⟩ := List.isPrefixOf_iff_prefix.mp hpre
  rw [readLiteral, List.append_assoc, if_pos (startsWith_append word (s' ++ t)),
    List.drop_left, List.drop_left]

theorem skipSpace_append {u : UInt16} {s s' : Text} (h : skipSpace s = u :: s') (t : Text) :
    skipSpace (s ++ t) = u :: (s' ++ t) := by
  induction s with
  | nil => cases h
  | cons v s ih =>
      rw [skipSpace, List.dropWhile_cons] at h
      rw [skipSpace, List.cons_append, List.dropWhile_cons]
      split_ifs at h ⊢
      · exact ih h
      · cases h
        rfl

mutual

/-- More text and more fuel change nothing. -/
theorem readValue_append (ht : Stops t) {fuel fuel' : ℕ} {s rest : Text} {v : Json}
    (h : readValue fuel s = some (v, rest)) (hle : fuel ≤ fuel') :
    readValue fuel' (s ++ t) = some (v, rest ++ t) := by
  match fuel, fuel' with
  | 0, _ => cases h
  | fuel + 1, 0 => omega
  | fuel + 1, fuel' + 1 =>
      rw [readValue] at h
      rw [readValue]
      cases hs : skipSpace s with
      | nil =>
          rw [hs] at h
          cases h
      | cons u body =>
          rw [hs] at h
          rw [skipSpace_append hs]
          simp only at h ⊢
          split_ifs at h ⊢
          · obtain ⟨p, hp, heq⟩ := Option.map_eq_some_iff.mp h
            cases heq
            rw [readString_append t hp]
            rfl
          · cases hbody : skipSpace body with
            | nil =>
                rw [hbody] at h
                cases h
            | cons w items =>
                rw [hbody] at h
                rw [skipSpace_append hbody]
                simp only at h ⊢
                split_ifs at h ⊢
                · cases h
                  rfl
                · obtain ⟨p, hp, heq⟩ := Option.map_eq_some_iff.mp h
                  cases heq
                  rw [← List.cons_append, readItems_append ht hp (by omega)]
                  rfl
          · cases hbody : skipSpace body with
            | nil =>
                rw [hbody] at h
                cases h
            | cons w fields =>
                rw [hbody] at h
                rw [skipSpace_append hbody]
                simp only at h ⊢
                split_ifs at h ⊢
                · cases h
                  rfl
                · obtain ⟨p, hp, heq⟩ := Option.map_eq_some_iff.mp h
                  cases heq
                  rw [← List.cons_append, readFields_append ht hp (by omega)]
                  rfl
          · rw [← List.cons_append]
            exact readLiteral_append t h
          · rw [← List.cons_append]
            exact readLiteral_append t h
          · rw [← List.cons_append]
            exact readLiteral_append t h
          · obtain ⟨p, hp, heq⟩ := Option.map_eq_some_iff.mp h
            cases heq
            rw [← List.cons_append, readNumber_append ht hp]
            rfl

theorem readItems_append (ht : Stops t) {fuel fuel' : ℕ} {s rest : Text} {vs : List Json}
    (h : readItems fuel s = some (vs, rest)) (hle : fuel ≤ fuel') :
    readItems fuel' (s ++ t) = some (vs, rest ++ t) := by
  match fuel, fuel' with
  | 0, _ => cases h
  | fuel + 1, 0 => omega
  | fuel + 1, fuel' + 1 =>
      rw [readItems] at h
      rw [readItems]
      simp only [Option.bind_eq_bind, Option.bind_eq_some_iff] at h ⊢
      obtain ⟨p, hp, h⟩ := h
      refine ⟨(p.1, p.2 ++ t), readValue_append ht hp (by omega), ?_⟩
      cases hs : skipSpace p.2 with
      | nil =>
          rw [hs] at h
          cases h
      | cons u more =>
          rw [hs] at h
          rw [skipSpace_append hs]
          simp only at h ⊢
          split_ifs at h ⊢
          · simp only [Option.bind_eq_some_iff] at h ⊢
            obtain ⟨q, hq, heq⟩ := h
            cases heq
            exact ⟨(q.1, q.2 ++ t), readItems_append ht hq (by omega), rfl⟩
          · cases h
            rfl

theorem readFields_append (ht : Stops t) {fuel fuel' : ℕ} {s rest : Text}
    {fs : List (Text × Json)} (h : readFields fuel s = some (fs, rest)) (hle : fuel ≤ fuel') :
    readFields fuel' (s ++ t) = some (fs, rest ++ t) := by
  match fuel, fuel' with
  | 0, _ => cases h
  | fuel + 1, 0 => omega
  | fuel + 1, fuel' + 1 =>
      rw [readFields] at h
      rw [readFields]
      cases hs : skipSpace s with
      | nil =>
          rw [hs] at h
          cases h
      | cons u key =>
          rw [hs] at h
          rw [skipSpace_append hs]
          simp only at h ⊢
          split_ifs at h ⊢
          simp only [Option.bind_eq_bind, Option.bind_eq_some_iff] at h ⊢
          obtain ⟨k, hk, h⟩ := h
          refine ⟨(k.1, k.2 ++ t), readString_append t hk, ?_⟩
          cases hcolon : skipSpace k.2 with
          | nil =>
              rw [hcolon] at h
              cases h
          | cons w value =>
              rw [hcolon] at h
              rw [skipSpace_append hcolon]
              simp only at h ⊢
              split_ifs at h ⊢
              simp only [Option.bind_eq_some_iff] at h ⊢
              obtain ⟨p, hp, h⟩ := h
              refine ⟨(p.1, p.2 ++ t), readValue_append ht hp (by omega), ?_⟩
              cases hcomma : skipSpace p.2 with
              | nil =>
                  rw [hcomma] at h
                  cases h
              | cons x more =>
                  rw [hcomma] at h
                  rw [skipSpace_append hcomma]
                  simp only at h ⊢
                  split_ifs at h ⊢
                  · simp only [Option.bind_eq_some_iff] at h ⊢
                    obtain ⟨q, hq, heq⟩ := h
                    cases heq
                    exact ⟨(q.1, q.2 ++ t), readFields_append ht hq (by omega), rfl⟩
                  · cases h
                    rfl

end

end Append

theorem stops_space {w : Text} (hw : ∀ u ∈ w, isJsonSpace u = true) : Stops w := by
  cases w with
  | nil => trivial
  | cons u w =>
      have hu : isJsonSpace u = true := hw u (by simp)
      simp only [isJsonSpace, Bool.or_eq_true, beq_iff_eq] at hu
      rcases hu with ((rfl | rfl) | rfl) | rfl <;>
        exact ⟨rfl, by decide, by decide, by decide⟩

theorem skipSpace_space {w : Text} (hw : ∀ u ∈ w, isJsonSpace u = true) : skipSpace w = [] :=
  List.dropWhile_eq_nil_iff.mpr hw

/-- White space after a text that can be read. -/
theorem parse_append_space {s w : Text} {v : Json} (h : Json.parse s = some v)
    (hw : ∀ u ∈ w, isJsonSpace u = true) : Json.parse (s ++ w) = some v := by
  rw [Json.parse, Json.read] at h ⊢
  cases hread : readValue (2 * s.length + 2) s with
  | none =>
      rw [hread] at h
      cases h
  | some p =>
      obtain ⟨v', rest⟩ := p
      rw [hread] at h
      rw [readValue_append (stops_space hw) hread (by rw [List.length_append]; omega)]
      simp only at h ⊢
      split_ifs at h with hrest
      · have hall : ∀ u ∈ rest, isJsonSpace u = true := List.dropWhile_eq_nil_iff.mp hrest
        rw [if_pos]
        · exact h
        · refine skipSpace_space fun u hu => ?_
          rcases List.mem_append.mp hu with hu | hu
          · exact hall u hu
          · exact hw u hu
      · cases h

end Shizuha.Js
