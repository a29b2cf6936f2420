import Mathlib.Tactic.Common

/-!
# Computations that throw, and may not finish

An asynchronous function runs against a world that moves under it. It either
returns or throws, in a world that went on; and where it loops without a bound
of its own, the model gives it fuel and it may not finish at all. `Eff` is that
and nothing more.

There are two judgments. `Ensures` is partial: whatever the computation ends
in, if it ends. `Finishes` says that it ends. The rules compose both along
`bind` and `tryCatch`, and a total result is a pair of them: a computation
that finishes, and ensures something of what it ends in.
-/

namespace Shizuha

theorem Except.bind_ok_iff {ε α β : Type} {x : Except ε α} {f : α → Except ε β} {b : β} :
    x >>= f = .ok b ↔ ∃ a, x = .ok a ∧ f a = .ok b := by
  cases x with
  | error e =>
      constructor
      · intro h
        cases h
      · rintro ⟨a, h, -⟩
        cases h
  | ok a =>
      constructor
      · exact fun h => ⟨a, rfl, h⟩
      · rintro ⟨a', h, hf⟩
        cases h
        exact hf

/-- A computation over worlds `ω` that throws `ε`: `none` when the fuel ran
out. -/
def Eff (ω ε α : Type) : Type := ω → Option (Except ε α × ω)

namespace Eff

variable {ω ε α β : Type}

protected def pure (a : α) : Eff ω ε α := fun w => some (.ok a, w)

protected def bind (m : Eff ω ε α) (k : α → Eff ω ε β) : Eff ω ε β := fun w =>
  match m w with
  | none => none
  | some (.error e, w') => some (.error e, w')
  | some (.ok a, w') => k a w'

instance : Monad (Eff ω ε) where
  pure := Eff.pure
  bind := Eff.bind

protected def throw (e : ε) : Eff ω ε α := fun w => some (.error e, w)

/-- `try m catch e => handle e`. -/
protected def tryCatch (m : Eff ω ε α) (handle : ε → Eff ω ε α) : Eff ω ε α := fun w =>
  match m w with
  | none => none
  | some (.error e, w') => handle e w'
  | some (.ok a, w') => some (.ok a, w')

def outOfFuel : Eff ω ε α := fun _ => none

/-- A computed value is returned or thrown. -/
def ofExcept : Except ε α → Eff ω ε α
  | .ok a => Eff.pure a
  | .error e => Eff.throw e

/-- Reading and changing the world in one go. -/
def act (f : ω → α × ω) : Eff ω ε α := fun w => some (.ok (f w).1, (f w).2)

/-- Whether a computation returned something that passes the check. -/
def returned (check : α → Bool) : Option (Except ε α × ω) → Bool
  | some (.ok a, _) => check a
  | _ => false

theorem exists_of_returned {check : α → Bool} {x : Option (Except ε α × ω)}
    (h : returned check x = true) : ∃ a w, x = some (.ok a, w) ∧ check a = true := by
  match x with
  | some (.ok a, w) => exact ⟨a, w, rfl, h⟩

/-! ## Judgments -/

/-- However `m` ends from `w`, it ends in `Q`. -/
def Ensures (m : Eff ω ε α) (w : ω) (Q : Except ε α → ω → Prop) : Prop :=
  ∀ r w', m w = some (r, w') → Q r w'

/-- `m` ends from `w`. -/
def Finishes (m : Eff ω ε α) (w : ω) : Prop := m w ≠ none

variable {m : Eff ω ε α} {k : α → Eff ω ε β} {w : ω}

theorem Ensures.mono {Q Q' : Except ε α → ω → Prop} (h : m.Ensures w Q)
    (hQ : ∀ r w', Q r w' → Q' r w') : m.Ensures w Q' :=
  fun r w' hr => hQ r w' (h r w' hr)

theorem Ensures.and {Q Q' : Except ε α → ω → Prop} (h : m.Ensures w Q)
    (h' : m.Ensures w Q') : m.Ensures w (fun r w' => Q r w' ∧ Q' r w') :=
  fun r w' hr => ⟨h r w' hr, h' r w' hr⟩

theorem ensures_pure {a : α} {Q : Except ε α → ω → Prop} (h : Q (.ok a) w) :
    (pure a : Eff ω ε α).Ensures w Q := by
  rintro r w' hr
  cases hr
  exact h

theorem ensures_throw {e : ε} {Q : Except ε α → ω → Prop} (h : Q (.error e) w) :
    (Eff.throw e : Eff ω ε α).Ensures w Q := by
  rintro r w' hr
  cases hr
  exact h

theorem ensures_ofExcept {x : Except ε α} {Q : Except ε α → ω → Prop} (h : Q x w) :
    (ofExcept x).Ensures w Q := by
  cases x with
  | ok a => exact ensures_pure h
  | error e => exact ensures_throw h

theorem ensures_act {f : ω → α × ω} {Q : Except ε α → ω → Prop} (h : Q (.ok (f w).1) (f w).2) :
    (act f).Ensures w Q := by
  rintro r w' hr
  cases hr
  exact h

theorem ensures_bind {Q : Except ε β → ω → Prop}
    (h : m.Ensures w fun r w' =>
      match r with
      | .ok a => (k a).Ensures w' Q
      | .error e => Q (.error e) w') :
    (m >>= k).Ensures w Q := by
  intro r w' hr
  change Eff.bind m k w = some (r, w') at hr
  rw [Eff.bind] at hr
  split at hr
  · exact absurd hr (by simp)
  · next e w₁ hm =>
    cases hr
    exact h _ _ hm
  · next a w₁ hm => exact h _ _ hm r w' hr

theorem ensures_tryCatch {handle : ε → Eff ω ε α} {Q : Except ε α → ω → Prop}
    (h : m.Ensures w fun r w' =>
      match r with
      | .ok a => Q (.ok a) w'
      | .error e => (handle e).Ensures w' Q) :
    (m.tryCatch handle).Ensures w Q := by
  intro r w' hr
  rw [Eff.tryCatch] at hr
  split at hr
  · exact absurd hr (by simp)
  · next e w₁ hm => exact h _ _ hm r w' hr
  · next a w₁ hm =>
    cases hr
    exact h _ _ hm

theorem ensures_outOfFuel {Q : Except ε α → ω → Prop} :
    (outOfFuel : Eff ω ε α).Ensures w Q := by
  rintro r w' hr
  cases hr

/-- Nothing is claimed of how `m` ends. -/
theorem ensures_any {Q : Except ε α → ω → Prop} (h : ∀ r w', Q r w') : m.Ensures w Q :=
  fun r w' _ => h r w'

/-- A sequence whose first half may end in anything. -/
theorem ensures_bind_any {Q : Except ε β → ω → Prop} (hk : ∀ a w', (k a).Ensures w' Q)
    (he : ∀ e w', Q (.error e) w') : (m >>= k).Ensures w Q :=
  ensures_bind (ensures_any fun r w' =>
    match r with
    | .ok a => hk a w'
    | .error e => he e w')

theorem finishes_pure {a : α} : (pure a : Eff ω ε α).Finishes w := Option.some_ne_none _

theorem finishes_throw {e : ε} : (Eff.throw e : Eff ω ε α).Finishes w := Option.some_ne_none _

theorem finishes_ofExcept {x : Except ε α} : (ofExcept x : Eff ω ε α).Finishes w := by
  cases x with
  | ok a => exact finishes_pure
  | error e => exact finishes_throw

theorem finishes_act {f : ω → α × ω} : (act f : Eff ω ε α).Finishes w := Option.some_ne_none _

theorem finishes_bind (hm : m.Finishes w)
    (h : m.Ensures w fun r w' =>
      match r with
      | .ok a => (k a).Finishes w'
      | .error _ => True) :
    (m >>= k).Finishes w := by
  change Eff.bind m k w ≠ none
  rw [Eff.bind]
  split
  · next hm' => exact absurd hm' hm
  · exact Option.some_ne_none _
  · next a w₁ hm' => exact h _ _ hm'

theorem finishes_tryCatch {handle : ε → Eff ω ε α} (hm : m.Finishes w)
    (h : m.Ensures w fun r w' =>
      match r with
      | .ok _ => True
      | .error e => (handle e).Finishes w') :
    (m.tryCatch handle).Finishes w := by
  rw [Finishes, Eff.tryCatch]
  split
  · next hm' => exact absurd hm' hm
  · next e w₁ hm' => exact h _ _ hm'
  · exact Option.some_ne_none _

/-- From every world `m` ends. -/
def Ends (m : Eff ω ε α) : Prop := ∀ w, m.Finishes w

theorem ends_pure {a : α} : (pure a : Eff ω ε α).Ends := fun _ => finishes_pure

theorem ends_throw {e : ε} : (Eff.throw e : Eff ω ε α).Ends := fun _ => finishes_throw

theorem ends_act {f : ω → α × ω} : (act f : Eff ω ε α).Ends := fun _ => finishes_act

theorem ends_bind (hm : m.Ends) (hk : ∀ a, (k a).Ends) : (m >>= k).Ends := fun w =>
  finishes_bind (hm w) (ensures_any fun r w' =>
    match r with
    | .ok a => hk a w'
    | .error _ => trivial)

theorem ends_tryCatch {handle : ε → Eff ω ε α} (hm : m.Ends) (hh : ∀ e, (handle e).Ends) :
    (m.tryCatch handle).Ends := fun w =>
  finishes_tryCatch (hm w) (ensures_any fun r w' =>
    match r with
    | .ok _ => trivial
    | .error e => hh e w')

/-! ## How the world moves -/

/-- From every world `m` ends, if it ends, in an `R`-later one. -/
def Moves (R : ω → ω → Prop) (m : Eff ω ε α) : Prop :=
  ∀ w, m.Ensures w fun _ w' => R w w'

section Moves

variable {R : ω → ω → Prop} (refl : ∀ w, R w w) (trans : ∀ a b c, R a b → R b c → R a c)

include refl in
theorem moves_pure (a : α) : (pure a : Eff ω ε α).Moves R := fun w => ensures_pure (refl w)

include refl in
theorem moves_throw (e : ε) : (Eff.throw e : Eff ω ε α).Moves R := fun w => ensures_throw (refl w)

theorem moves_act {f : ω → α × ω} (h : ∀ w, R w (f w).2) : (act f : Eff ω ε α).Moves R :=
  fun w => ensures_act (h w)

theorem moves_outOfFuel : (outOfFuel : Eff ω ε α).Moves R := fun _ => ensures_outOfFuel

include trans in
theorem moves_bind (hm : m.Moves R) (hk : ∀ a, (k a).Moves R) : (m >>= k).Moves R := by
  intro w
  refine ensures_bind ((hm w).mono ?_)
  rintro (e | a) w' hR
  · exact hR
  · exact (hk a w').mono fun _ _ hR' => trans _ _ _ hR hR'

include trans in
theorem moves_tryCatch {handle : ε → Eff ω ε α} (hm : m.Moves R)
    (hh : ∀ e, (handle e).Moves R) : (m.tryCatch handle).Moves R := by
  intro w
  refine ensures_tryCatch ((hm w).mono ?_)
  rintro (e | a) w' hR
  · exact (hh e w').mono fun _ _ hR' => trans _ _ _ hR hR'
  · exact hR

end Moves

end Eff

end Shizuha
