import Mathlib.Data.List.Basic
import Mathlib.Data.List.TakeWhile

/-!
# Runs of a deterministic machine

A component that takes one operation at a time is a function from a state and
an operation to the next state, and a run is a fold. Two kinds of statement
are made about runs, and each has one rule.

`Throughout Q` says that every state of the run satisfies `Q`: an invariant.
`Along P` says that every step of the run satisfies `P`, which looks at the
operation and at the state it is applied to: what a step returns, or what is
assumed of the operations. An invariant usually holds only as long as the
steps meet a condition, so the rules carry one: `throughout_of_step` from the
condition to the invariant, `throughout_iff_along` when the condition is the
exact one.
-/

namespace Shizuha.Machine

variable {σ ι : Type*} (step : σ → ι → σ)

def run (s : σ) (ops : List ι) : σ := ops.foldl step s

/-- Every state of the run, the first and the last included. -/
def Throughout (Q : σ → Prop) : σ → List ι → Prop
  | s, [] => Q s
  | s, op :: ops => Q s ∧ Throughout Q (step s op) ops

/-- Every step of the run. -/
def Along (P : σ → ι → Prop) : σ → List ι → Prop
  | _, [] => True
  | s, op :: ops => P s op ∧ Along P (step s op) ops

variable {step} {P C : σ → ι → Prop} {Q Inv : σ → Prop}

instance Along.instDecidable [∀ s op, Decidable (P s op)] :
    (s : σ) → (ops : List ι) → Decidable (Along step P s ops)
  | _, [] => inferInstanceAs (Decidable True)
  | s, op :: ops =>
      have := Along.instDecidable (step s op) ops
      inferInstanceAs (Decidable (P s op ∧ Along step P (step s op) ops))

@[simp] theorem run_nil (s : σ) : run step s [] = s := rfl

@[simp] theorem run_cons (s : σ) (op : ι) (ops : List ι) :
    run step s (op :: ops) = run step (step s op) ops := rfl

theorem run_append (s : σ) (a b : List ι) :
    run step s (a ++ b) = run step (run step s a) b := List.foldl_append

@[simp] theorem along_nil (s : σ) : Along step P s [] ↔ True := Iff.rfl

@[simp] theorem along_cons (s : σ) (op : ι) (ops : List ι) :
    Along step P s (op :: ops) ↔ P s op ∧ Along step P (step s op) ops := Iff.rfl

theorem along_append (s : σ) (a b : List ι) :
    Along step P s (a ++ b) ↔ Along step P s a ∧ Along step P (run step s a) b := by
  induction a generalizing s with
  | nil => simp
  | cons op ops ih => simp [ih, and_assoc]

theorem Along.mono {s : σ} {ops : List ι} (h : ∀ s op, P s op → C s op)
    (hP : Along step P s ops) : Along step C s ops := by
  induction ops generalizing s with
  | nil => trivial
  | cons op ops ih => exact ⟨h s op hP.1, ih hP.2⟩

theorem Along.and {s : σ} {ops : List ι} (hP : Along step P s ops) (hC : Along step C s ops) :
    Along step (fun s op => P s op ∧ C s op) s ops := by
  induction ops generalizing s with
  | nil => trivial
  | cons op ops ih => exact ⟨⟨hP.1, hC.1⟩, ih hP.2 hC.2⟩

theorem along_true (h : ∀ s op, P s op) (s : σ) (ops : List ι) : Along step P s ops := by
  induction ops generalizing s with
  | nil => trivial
  | cons op ops ih => exact ⟨h s op, ih (step s op)⟩

theorem along_of_forall {D : ι → Prop} {ops : List ι} (h : ∀ op ∈ ops, D op) (s : σ) :
    Along step (fun _ op => D op) s ops := by
  induction ops generalizing s with
  | nil => trivial
  | cons op ops ih =>
      exact ⟨h op List.mem_cons_self, ih (fun op' hop' => h op' (List.mem_cons_of_mem _ hop')) _⟩

/-- The invariant rule. -/
theorem run_invariant {s : σ} {ops : List ι}
    (hstep : ∀ s op, Inv s → C s op → Inv (step s op)) (h : Inv s)
    (hC : Along step C s ops) : Inv (run step s ops) := by
  induction ops generalizing s with
  | nil => exact h
  | cons op ops ih => exact ih (hstep s op h hC.1) hC.2

theorem throughout_of_step {s : σ} {ops : List ι}
    (hstep : ∀ s op, Inv s → C s op → Inv (step s op)) (h : Inv s)
    (hC : Along step C s ops) : Throughout step Inv s ops := by
  induction ops generalizing s with
  | nil => exact h
  | cons op ops ih => exact ⟨h, ih (hstep s op h hC.1) hC.2⟩

theorem Throughout.mono {s : σ} {ops : List ι} (h : ∀ s, Inv s → Q s)
    (hI : Throughout step Inv s ops) : Throughout step Q s ops := by
  induction ops generalizing s with
  | nil => exact h s hI
  | cons op ops ih => exact ⟨h s hI.1, ih hI.2⟩

/-- Under an invariant, what is equivalent to `Q` holds throughout when `Q`
does. -/
theorem Throughout.congr {R : σ → Prop} {s : σ} {ops : List ι}
    (hI : Throughout step Inv s ops) (h : ∀ s, Inv s → (Q s ↔ R s)) :
    Throughout step Q s ops ↔ Throughout step R s ops := by
  induction ops generalizing s with
  | nil => exact h s hI
  | cons op ops ih => exact and_congr (h s hI.1) (ih hI.2)

theorem Throughout.first {s : σ} {ops : List ι} (h : Throughout step Q s ops) : Q s := by
  cases ops with
  | nil => exact h
  | cons op ops => exact h.1

theorem Throughout.last {s : σ} {ops : List ι} (h : Throughout step Q s ops) :
    Q (run step s ops) := by
  induction ops generalizing s with
  | nil => exact h
  | cons op ops ih => exact ih h.2

/-- What a step does, from an invariant that the condition keeps. -/
theorem along_of_step {s : σ} {ops : List ι}
    (hstep : ∀ s op, Inv s → C s op → P s op ∧ Inv (step s op)) (h : Inv s)
    (hC : Along step C s ops) : Along step P s ops := by
  induction ops generalizing s with
  | nil => trivial
  | cons op ops ih =>
      obtain ⟨hP, hI⟩ := hstep s op h hC.1
      exact ⟨hP, ih hI hC.2⟩

/-- A condition that says of each step exactly whether it keeps the invariant
says of each run whether the invariant holds throughout. What holds of every
state anyway (`J`) and what the operations promise (`D`) may be used for it. -/
theorem throughout_iff_along_of {J : σ → Prop} {D : σ → ι → Prop} {s : σ} {ops : List ι}
    (hJ : ∀ s op, J s → J (step s op))
    (hstep : ∀ s op, J s → D s op → Inv s → (Inv (step s op) ↔ C s op))
    (hs : J s) (h : Inv s) (hD : Along step D s ops) :
    Throughout step Inv s ops ↔ Along step C s ops := by
  induction ops generalizing s with
  | nil => exact iff_of_true h trivial
  | cons op ops ih =>
      constructor
      · rintro ⟨-, hrest⟩
        have hI : Inv (step s op) := hrest.first
        exact ⟨(hstep s op hs hD.1 h).mp hI, (ih (hJ s op hs) hI hD.2).mp hrest⟩
      · rintro ⟨hC, hrest⟩
        have hI : Inv (step s op) := (hstep s op hs hD.1 h).mpr hC
        exact ⟨h, (ih (hJ s op hs) hI hD.2).mpr hrest⟩

/-- The same for a property that is only part of the invariant: the condition
is what a step needs for it, and then the step keeps the rest. -/
theorem throughout_iff_along_keep {D : σ → ι → Prop} {s : σ} {ops : List ι}
    (hstep : ∀ s op, Inv s → D s op → (Q (step s op) ↔ C s op))
    (hkeep : ∀ s op, Inv s → D s op → C s op → Inv (step s op)) (hs : Inv s) (h : Q s)
    (hD : Along step D s ops) : Throughout step Q s ops ↔ Along step C s ops := by
  induction ops generalizing s with
  | nil => exact iff_of_true h trivial
  | cons op ops ih =>
      constructor
      · intro hall
        have hQ : Q (step s op) := hall.2.first
        have hC : C s op := (hstep s op hs hD.1).mp hQ
        exact ⟨hC, (ih (hkeep s op hs hD.1 hC) hQ hD.2).mp hall.2⟩
      · intro hall
        have hQ : Q (step s op) := (hstep s op hs hD.1).mpr hall.1
        exact ⟨h, (ih (hkeep s op hs hD.1 hall.1) hQ hD.2).mpr hall.2⟩

/-- Under an invariant, two ways to say what each step does. -/
theorem along_congr {J : σ → Prop} {D : σ → ι → Prop} {s : σ} {ops : List ι}
    (hJ : ∀ s op, J s → D s op → J (step s op))
    (h : ∀ s op, J s → D s op → (P s op ↔ C s op)) (hs : J s) (hD : Along step D s ops) :
    Along step P s ops ↔ Along step C s ops := by
  induction ops generalizing s with
  | nil => exact Iff.rfl
  | cons op ops ih => exact and_congr (h s op hs hD.1) (ih (hJ s op hs hD.1) hD.2)

theorem throughout_iff_along {s : σ} {ops : List ι}
    (hstep : ∀ s op, Inv s → (Inv (step s op) ↔ C s op)) (h : Inv s) :
    Throughout step Inv s ops ↔ Along step C s ops :=
  throughout_iff_along_of (J := fun _ => True) (D := fun _ _ => True) (fun _ _ _ => trivial)
    (fun s op _ _ => hstep s op) trivial h (along_true (fun _ _ => trivial) s ops)

end Shizuha.Machine

/-!
# Streaks

How many events in a row, up to the last one, had a property. A counter that
goes up by one at an event with the property and is set back by one without it
counts them; it has reached `n` when the last `n` events all had it
(`le_streak_iff`).
-/

namespace Shizuha

variable {α : Type*} {p : α → Bool} {l : List α}

def streak (p : α → Bool) (l : List α) : ℕ := (l.reverse.takeWhile p).length

@[simp] theorem streak_nil (p : α → Bool) : streak p [] = 0 := rfl

theorem streak_concat (p : α → Bool) (l : List α) (x : α) :
    streak p (l ++ [x]) = if p x then streak p l + 1 else 0 := by
  rw [streak, List.reverse_append, List.reverse_singleton, List.singleton_append,
    List.takeWhile_cons]
  split_ifs with hx
  · rw [List.length_cons, streak]
  · rfl

theorem le_length_takeWhile_iff {n : ℕ} :
    n ≤ (l.takeWhile p).length ↔ n ≤ l.length ∧ ∀ x ∈ l.take n, p x = true := by
  induction l generalizing n with
  | nil => simp
  | cons u l ih =>
      cases n with
      | zero => simp
      | succ n =>
          rw [List.takeWhile_cons, List.take_succ_cons, List.length_cons, List.forall_mem_cons]
          split_ifs with hu
          · rw [List.length_cons, Nat.succ_le_succ_iff, ih, Nat.succ_le_succ_iff]
            simp [hu]
          · simp [hu]

theorem le_streak_iff {n : ℕ} :
    n ≤ streak p l ↔ n ≤ l.length ∧ ∀ x ∈ l.drop (l.length - n), p x = true := by
  rw [streak, le_length_takeWhile_iff, List.length_reverse, List.take_reverse]
  simp only [List.mem_reverse]

end Shizuha
