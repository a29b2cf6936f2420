import Shizuha.Agent.ExpensiveTurnGuard
import Shizuha.Machine

/-!
# A paced replay never trips the guard

Samples that are `S` apart span at least `(n - 1) * S` milliseconds. The pacing
takes `S = windowMs / K + 1`, and `K * S` is more than a window, so that a window
holds at most `K` of them. `K` is one less than the samples that trip the guard,
and what the guard counts is a part of the samples of its last window.

The invariant of a run is that the samples the guard keeps are as far apart as
the calls, and as far from the call to come.
-/

namespace Shizuha.Agent

open Machine

/-! ## Times that are apart -/

/-- The times are in order, and `spacing` apart. -/
def Spaced (spacing : ℕ) (times : List ℤ) : Prop :=
  times.Pairwise fun a b : ℤ => a + spacing ≤ b

variable {spacing window budget : ℕ} {times : List ℤ} {t lo : ℤ}

theorem Spaced.span (h : Spaced spacing (t :: times)) :
    ∃ last ∈ t :: times, t + times.length * spacing ≤ last := by
  induction times generalizing t with
  | nil => exact ⟨t, List.mem_singleton_self t, by simp⟩
  | cons u times ih =>
      obtain ⟨hfirst, hrest⟩ := List.pairwise_cons.mp h
      obtain ⟨last, hmem, hlast⟩ := ih hrest
      refine ⟨last, List.mem_cons_of_mem t hmem, ?_⟩
      have hnext := hfirst u List.mem_cons_self
      rw [List.length_cons]
      push_cast
      linarith

/-- No more than the budget lie in one window, when so many spacings are longer
than it. -/
theorem Spaced.length_le (h : Spaced spacing times) (hlong : window < budget * spacing)
    (hwindow : ∀ t ∈ times, lo ≤ t ∧ t ≤ lo + window) : times.length ≤ budget := by
  cases times with
  | nil => exact Nat.zero_le budget
  | cons t times =>
      obtain ⟨last, hmem, hspan⟩ := h.span
      have hfirst := (hwindow t List.mem_cons_self).1
      have hlast := (hwindow last hmem).2
      have hfits : times.length * spacing < budget * spacing := by
        have : ((times.length * spacing : ℕ) : ℤ) < (budget * spacing : ℕ) := by
          push_cast at hlong ⊢
          have : (window : ℤ) < budget * spacing := by exact_mod_cast hlong
          linarith
        exact_mod_cast this
      exact Nat.lt_of_mul_lt_mul_right hfits

theorem Spaced.of_sublist {part : List ℤ} (h : Spaced spacing times)
    (hpart : part.Sublist times) : Spaced spacing part := List.Pairwise.sublist hpart h

/-! ## The guard -/

namespace ExpensiveTurnGuard

variable {g : ExpensiveTurnGuard} {sample : ExpensiveTurnSample}

theorem replayPacing_enabled (henabled : g.config.enabled = true) :
    g.replayPacing = ⟨1, g.config.windowMs / max 1 (g.config.minTurns - 1) + 1,
      max 1 (g.config.minTurns - 1)⟩ := by
  rw [replayPacing, if_neg (by simp [henabled])]

/-- So many spacings are longer than the window. -/
theorem window_lt (henabled : g.config.enabled = true) :
    g.config.windowMs < g.replayPacing.perWindowBudget * g.replayPacing.minSpacingMs := by
  rw [replayPacing_enabled henabled]
  exact Nat.lt_mul_div_succ _ (Nat.lt_of_lt_of_le Nat.zero_lt_one (le_max_left 1 _))

/-- The times of the samples that are kept. -/
def keptTimes (g : ExpensiveTurnGuard) : List ℤ := g.samples.map fun s => s.now

theorem config_store : (g.store sample).1.config = g.config := rfl

theorem keptTimes_store : (g.store sample).1.keptTimes =
    (g.keptTimes ++ [sample.now]).filter fun t => sample.now - t ≤ g.config.windowMs := by
  obtain ⟨stored, hnow, hsamples⟩ : ∃ stored : StoredSample, stored.now = sample.now ∧
      (g.store sample).1.samples =
        (g.samples ++ [stored]).filter fun s => sample.now - s.now ≤ g.config.windowMs :=
    ⟨_, rfl, rfl⟩
  have hmap : g.keptTimes ++ [sample.now] = (g.samples ++ [stored]).map fun s => s.now := by
    rw [List.map_append, List.map_singleton, hnow]
    rfl
  rw [keptTimes, hsamples, hmap, List.filter_map]
  rfl

/-- When what is kept, the sample and what is to come are apart, the sample is
let through and the rest stays apart. -/
theorem record_paced {spacing : ℕ} {later : List ℤ}
    (hlong : g.config.windowMs < (g.config.minTurns - 1) * spacing)
    (h : Spaced spacing (g.keptTimes ++ sample.now :: later)) :
    (g.record sample).1 = .ok ∧ (g.record sample).2.config = g.config ∧
      Spaced spacing ((g.record sample).2.keptTimes ++ later) := by
  have hlater : Spaced spacing (g.keptTimes ++ later) :=
    h.of_sublist ((List.Sublist.refl _).append (List.sublist_cons_self _ _))
  by_cases henabled : g.config.enabled = true
  · by_cases hpaused : sample.now < g.pauseUntil
    · rw [record, if_neg (by simp [henabled]), if_pos hpaused]
      exact ⟨rfl, rfl, hlater⟩
    · rw [List.append_cons] at h
      have hkept : (g.store sample).1.keptTimes.Sublist (g.keptTimes ++ [sample.now]) := by
        rw [keptTimes_store]
        exact List.filter_sublist
      have hupto : Spaced spacing (g.keptTimes ++ [sample.now]) :=
        h.of_sublist (List.sublist_append_left _ _)
      have hwindow : ∀ t ∈ (g.store sample).1.keptTimes, sample.now - g.config.windowMs ≤ t ∧
          t ≤ sample.now - g.config.windowMs + g.config.windowMs := by
        intro t ht
        have hmem := hkept.subset ht
        rw [keptTimes_store, List.mem_filter, decide_eq_true_eq] at ht
        have hle : t ≤ sample.now := by
          rcases List.mem_append.mp hmem with hold | hnew
          · have := (List.pairwise_append.mp hupto).2.2 t hold sample.now (by simp)
            omega
          · exact (List.mem_singleton.mp hnew).le
        omega
      have hlen := (hupto.of_sublist hkept).length_le hlong hwindow
      rw [keptTimes, List.length_map] at hlen
      have hfew : ((g.store sample).1.samples.filter
          ((g.store sample).1.isSterileExpensive (g.store sample).2)).length <
            (g.store sample).1.config.minTurns := by
        have hpart := List.length_filter_le
          ((g.store sample).1.isSterileExpensive (g.store sample).2) (g.store sample).1.samples
        have hpos : 0 < g.config.minTurns - 1 := by
          by_contra hzero
          rw [Nat.eq_zero_of_not_pos hzero, Nat.zero_mul] at hlong
          exact Nat.not_lt_zero _ hlong
        rw [config_store]
        omega
      have hrecord : g.record sample = (.ok, (g.store sample).1) := by
        rw [record, if_neg (by simp [henabled]), if_neg hpaused]
        exact if_pos hfew
      rw [hrecord]
      exact ⟨rfl, rfl, h.of_sublist (hkept.append (List.Sublist.refl later))⟩
  · rw [record, if_pos (by simp [henabled])]
    exact ⟨rfl, rfl, hlater⟩

/-- The guard after a sample. -/
def next (g : ExpensiveTurnGuard) (sample : ExpensiveTurnSample) : ExpensiveTurnGuard :=
  (g.record sample).2

theorem records_paced {spacing : ℕ} (samples : List ExpensiveTurnSample)
    (hlong : g.config.windowMs < (g.config.minTurns - 1) * spacing)
    (h : Spaced spacing (g.keptTimes ++ samples.map fun s => s.now)) :
    Along next (fun g s => (g.record s).1 = .ok) g samples := by
  induction samples generalizing g with
  | nil => trivial
  | cons sample samples ih =>
      obtain ⟨hok, hconfig, hrest⟩ := record_paced hlong h
      have hconfig : (g.next sample).config = g.config := hconfig
      exact ⟨hok, ih (by rw [hconfig]; exact hlong) hrest⟩

/-- Samples as far apart as the pacing says are all let through, and no window
holds more of them than its budget. -/
theorem replay_never_trips (g : ExpensiveTurnGuard) (henabled : g.config.enabled = true)
    (hturns : 2 ≤ g.config.minTurns) (hnone : g.samples = []) (samples : List ExpensiveTurnSample)
    (hpaced : Spaced g.replayPacing.minSpacingMs (samples.map fun s => s.now)) :
    Along next (fun g s => (g.record s).1 = .ok) g samples ∧
      ∀ lo : ℤ, (samples.filter fun s => lo ≤ s.now ∧ s.now ≤ lo + g.config.windowMs).length ≤
        g.replayPacing.perWindowBudget := by
  have hlong := window_lt henabled
  constructor
  · refine records_paced samples ?_ (by rw [keptTimes, hnone]; exact hpaced)
    have hbudget : g.replayPacing.perWindowBudget = g.config.minTurns - 1 := by
      rw [replayPacing_enabled henabled]
      exact max_eq_right (by omega)
    rwa [hbudget] at hlong
  · intro lo
    have hpart : ((samples.filter fun s => lo ≤ s.now ∧ s.now ≤ lo + g.config.windowMs).map
        fun s => s.now).Sublist (samples.map fun s => s.now) := List.filter_sublist.map _
    have hin : ∀ t ∈ (samples.filter fun s => lo ≤ s.now ∧ s.now ≤ lo + g.config.windowMs).map
        fun s => s.now, lo ≤ t ∧ t ≤ lo + g.config.windowMs := by
      intro t ht
      obtain ⟨s, hs, rfl⟩ := List.mem_map.mp ht
      exact of_decide_eq_true (List.mem_filter.mp hs).2
    have hlen := (hpaced.of_sublist hpart).length_le hlong hin
    rwa [List.length_map] at hlen

/-- The defaults, with the guard switched on. -/
def enabledConfig : ExpensiveTurnGuardConfig where
  enabled := true
  windowMs := 60000
  minTurns := 4
  minPromptTokens := 100000
  minProductiveOutputTokens := 32
  flagToolCallingSterileTurns := true
  baseBackoffMs := 300000
  maxBackoffMs := 900000
  notifyCooldownMs := 900000
  coldTtftMs := 15000

def newGuard (config : ExpensiveTurnGuardConfig) : ExpensiveTurnGuard := ⟨config, [], 0, 0, 0, 0⟩

/-- A turn with a large prompt and nothing to show for it. -/
def sterileTurn (now : ℤ) : ExpensiveTurnSample where
  now := now
  inputTokens := some 200000
  outputTokens := some 1
  toolCallCount := none
  cacheReadTokens := none
  cacheCreationTokens := none
  prefixCacheBusted := false
  ttftMs := none

theorem replay_never_trips_three :
    Along next (fun g s => (g.record s).1 = .ok) (newGuard enabledConfig)
        [sterileTurn 0, sterileTurn 20001, sterileTurn 40002] ∧
      ∀ lo : ℤ, ([sterileTurn 0, sterileTurn 20001, sterileTurn 40002].filter fun s =>
          lo ≤ s.now ∧ s.now ≤ lo + (newGuard enabledConfig).config.windowMs).length ≤
        (newGuard enabledConfig).replayPacing.perWindowBudget :=
  replay_never_trips (newGuard enabledConfig) rfl (by decide) rfl _ (by unfold Spaced; decide)

end ExpensiveTurnGuard

end Shizuha.Agent
