import Mathlib.Data.List.Basic

/-!
# An index kept by hand

An index holds words under keys, and whoever writes a row adds its words and
removes them again. It agrees with the rows when under the key of each there are
its words and no others. Each rule says what a write needs for that: a row that
comes in finds nothing under its key that it does not have (`agrees_add_iff`), or
brings nothing new when its words are not added (`agrees_skip_iff`). A row that
is changed first and has its words removed then, and added, keeps what it had
before: the change must keep it too (`agrees_refresh_iff`).

Only the words that can be asked for are looked at.
-/

namespace Shizuha

abbrev Postings (κ ω : Type*) := List (κ × ω)

namespace Postings

variable {κ ω ρ : Type*} {p : Postings κ ω} {k k' : κ} {words : List ω} {w : ω}

def add (p : Postings κ ω) (k : κ) (words : List ω) : Postings κ ω := p ++ words.map (Prod.mk k)

theorem mem_add : (k', w) ∈ p.add k words ↔ (k', w) ∈ p ∨ k' = k ∧ w ∈ words := by
  rw [add, List.mem_append, List.mem_map]
  constructor
  · rintro (h | ⟨v, hv, heq⟩)
    · exact .inl h
    · cases heq
      exact .inr ⟨rfl, hv⟩
  · rintro (h | ⟨rfl, hw⟩)
    · exact .inl h
    · exact .inr ⟨w, hw, rfl⟩

/-! ## Agreement -/

variable {ask : ω → Prop} {key : ρ → κ} {indexed : ρ → List ω} {rows : List ρ} {r : ρ}

/-- What can be asked for is under the key of a row when it is in the row. -/
def Agrees (ask : ω → Prop) (key : ρ → κ) (indexed : ρ → List ω) (rows : List ρ)
    (p : Postings κ ω) : Prop :=
  ∀ r ∈ rows, ∀ w, ask w → ((key r, w) ∈ p ↔ w ∈ indexed r)

theorem Agrees.of_subset {rows' : List ρ} (h : Agrees ask key indexed rows p)
    (hsub : ∀ r ∈ rows', r ∈ rows) : Agrees ask key indexed rows' p :=
  fun r hr => h r (hsub r hr)

theorem Agrees.congr_key {key' : ρ → κ} (h : Agrees ask key indexed rows p)
    (hkey : ∀ r ∈ rows, key' r = key r) : Agrees ask key' indexed rows p := by
  intro r hr w hw
  rw [hkey r hr]
  exact h r hr w hw

theorem agrees_append :
    Agrees ask key indexed (rows ++ [r]) p ↔
      Agrees ask key indexed rows p ∧ ∀ w, ask w → ((key r, w) ∈ p ↔ w ∈ indexed r) := by
  simp only [Agrees, List.mem_append, List.mem_singleton, or_imp, forall_and, forall_eq]

/-- A row comes in, and its words are not added. -/
theorem agrees_skip_iff (h : Agrees ask key indexed rows p) :
    Agrees ask key indexed (rows ++ [r]) p ↔
      ∀ w, ask w → ((key r, w) ∈ p ↔ w ∈ indexed r) := by
  rw [agrees_append, and_iff_right h]

/-- A row comes in under a key that no other row has, with its words. -/
theorem agrees_add_iff (hfresh : ∀ r' ∈ rows, key r' ≠ key r)
    (h : Agrees ask key indexed rows p) :
    Agrees ask key indexed (rows ++ [r]) (p.add (key r) (indexed r)) ↔
      ∀ w, ask w → (key r, w) ∈ p → w ∈ indexed r := by
  have hrows : Agrees ask key indexed rows (p.add (key r) (indexed r)) := by
    intro r' hr' w hw
    rw [mem_add, or_iff_left fun heq => hfresh r' hr' heq.1]
    exact h r' hr' w hw
  rw [agrees_skip_iff hrows]
  refine forall_congr' fun w => imp_congr_right fun _ => ?_
  rw [mem_add]
  simp

/-! ## Changing a row -/

variable [DecidableEq κ] [DecidableEq ω]

def remove (p : Postings κ ω) (k : κ) (words : List ω) : Postings κ ω :=
  p.filter fun e => !(e.1 = k && e.2 ∈ words)

theorem mem_remove : (k', w) ∈ p.remove k words ↔ (k', w) ∈ p ∧ ¬ (k' = k ∧ w ∈ words) := by
  rw [remove, List.mem_filter, Bool.not_eq_true', Bool.and_eq_false_iff, decide_eq_false_iff_not,
    decide_eq_false_iff_not, not_and_or]

/-- What is removed and added again was not removed. -/
theorem mem_refresh :
    (k', w) ∈ (p.remove k words).add k words ↔ (k', w) ∈ p ∨ k' = k ∧ w ∈ words := by
  rw [mem_add, mem_remove]
  by_cases h : k' = k ∧ w ∈ words
  · simp [h]
  · simp [h]

/-- A row is changed in its place, and the words that it has then are removed and
added. -/
theorem agrees_refresh_iff {rows' : List ρ} {r₀ r₁ : ρ} (h₀ : r₀ ∈ rows) (hkey : key r₁ = key r₀)
    (hrows : ∀ r, r ∈ rows' ↔ r = r₁ ∨ r ∈ rows ∧ key r ≠ key r₀)
    (h : Agrees ask key indexed rows p) :
    Agrees ask key indexed rows' ((p.remove (key r₀) (indexed r₁)).add (key r₀) (indexed r₁)) ↔
      ∀ w, ask w → w ∈ indexed r₀ → w ∈ indexed r₁ := by
  constructor
  · intro h' w hw hold
    have hnew := h' r₁ ((hrows r₁).mpr (.inl rfl)) w hw
    rw [hkey, mem_refresh] at hnew
    exact hnew.mp (.inl ((h r₀ h₀ w hw).mpr hold))
  · intro hkept r hr w hw
    rw [mem_refresh]
    rcases (hrows r).mp hr with rfl | ⟨hr, hne⟩
    · rw [hkey, h r₀ h₀ w hw]
      simp only [true_and]
      exact or_iff_right_of_imp (hkept w hw)
    · rw [or_iff_left fun heq => hne heq.1]
      exact h r hr w hw

end Postings

end Shizuha
