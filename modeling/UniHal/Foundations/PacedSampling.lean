import Mathlib.Order.Monotone.Basic
import Mathlib.Tactic

/-! # Waiting on samples of a wrapping counter

A counter that is only known modulo its range is sampled again and again, with a bounded gap from
one sample to the next. A wait for a number of ticks ends at the first sample that shows at least
as many. It is sure to see one in time exactly if the gap fits between the number and the range.
-/

namespace UniHal.Foundations.PacedSampling

/-- The ticks at each sample since the first one. -/
structure Paced (gap : ℕ) (elapsed : ℕ → ℕ) : Prop where
  start : elapsed 0 = 0
  mono : ∀ k, elapsed k ≤ elapsed (k + 1)
  gap_le : ∀ k, elapsed (k + 1) ≤ elapsed k + gap

variable {gap range ticks : ℕ} {elapsed : ℕ → ℕ}

theorem Paced.eq_zero_of_gap (h : Paced 0 elapsed) (k : ℕ) : elapsed k = 0 := by
  induction k with
  | zero => exact h.start
  | succ k ih =>
    have hle := h.gap_le k
    omega

/-- A sample shows the number of ticks before the range is used up. -/
theorem Paced.exists_shown (h : Paced gap elapsed) (hpos : 0 < ticks)
    (hfits : ticks + gap ≤ range) {k : ℕ} (hk : ticks ≤ elapsed k) :
    ∃ j, 1 ≤ j ∧ j ≤ k ∧ ticks ≤ elapsed j % range := by
  induction k with
  | zero =>
    rw [h.start] at hk
    omega
  | succ k ih =>
    by_cases hbefore : ticks ≤ elapsed k
    · obtain ⟨j, hj, hjk, hshown⟩ := ih hbefore
      exact ⟨j, hj, Nat.le_succ_of_le hjk, hshown⟩
    · -- the first sample with enough ticks is at most a gap past the one before
      refine ⟨k + 1, Nat.succ_pos k, le_refl _, ?_⟩
      have hle := h.gap_le k
      rw [Nat.mod_eq_of_lt (by omega)]
      exact hk

theorem paced_id (hgap : 1 ≤ gap) : Paced gap id where
  start := rfl
  mono k := Nat.le_succ k
  gap_le k := Nat.add_le_add_left hgap k

def skipping (range ticks k : ℕ) : ℕ := if k < ticks then k else range + (k - ticks)

theorem paced_skipping (hpos : 0 < ticks) (hlt : ticks < range) (hgap : range < ticks + gap) :
    Paced gap (skipping range ticks) where
  start := if_pos hpos
  mono k := by
    simp only [skipping]
    split <;> split <;> omega
  gap_le k := by
    simp only [skipping]
    split <;> split <;> omega

theorem skipping_self : skipping range ticks ticks = range := by
  rw [skipping, if_neg (lt_irrefl ticks), Nat.sub_self, Nat.add_zero]

theorem skipping_mod_lt (hpos : 0 < ticks) {j : ℕ} (hj : j ≤ ticks) :
    skipping range ticks j % range < ticks := by
  rcases hj.lt_or_eq with hlt | rfl
  · rw [skipping, if_pos hlt]
    exact lt_of_le_of_lt (Nat.mod_le _ _) hlt
  · rw [skipping_self, Nat.mod_self]
    exact hpos

end UniHal.Foundations.PacedSampling
