import Mathlib.Data.Nat.Basic
import Mathlib.Order.Basic

/-! # Loops that poll

A loop polls until its condition fails. With a bound on the number of polls it is a total function
that may give no answer, and a larger bound never changes an answer. It returns when some bound
is enough.
-/

namespace UniHal.Foundations.Polling

variable {α β : Type*}

def spin (again : ℕ → Bool) : ℕ → ℕ → Option ℕ
  | 0, _ => none
  | fuel + 1, k => if again k then spin again fuel (k + 1) else some k

/-- The computation gives an answer with enough polls. -/
def Returns (run : ℕ → Option α) : Prop := ∃ fuel, (run fuel).isSome = true

def Stable (run : ℕ → Option α) : Prop :=
  ∀ m n a, m ≤ n → run m = some a → run n = some a

variable {again : ℕ → Bool}

theorem spin_stable (again : ℕ → Bool) (k : ℕ) : Stable fun fuel => spin again fuel k := by
  intro m
  induction m generalizing k with
  | zero => exact fun _ _ _ h => nomatch h
  | succ m ih =>
    intro n a hmn h
    obtain ⟨n, rfl⟩ := Nat.exists_eq_add_of_lt hmn
    simp only [spin] at h ⊢
    split_ifs at h ⊢
    · exact ih (k + 1) (m + n) a (Nat.le_add_right m n) h
    · exact h

/-- The loop ends at a poll that fails its condition, and polls no further than the first one. -/
theorem spin_isSome_iff (fuel k : ℕ) :
    (spin again fuel k).isSome = true ↔ ∃ j < fuel, again (k + j) = false := by
  induction fuel generalizing k with
  | zero => simp [spin]
  | succ fuel ih =>
    rw [spin]
    split_ifs with hk
    · rw [ih]
      constructor
      · rintro ⟨j, hj, hend⟩
        exact ⟨j + 1, Nat.succ_lt_succ hj, by rw [← hend]; congr 1; omega⟩
      · rintro ⟨j, hj, hend⟩
        cases j with
        | zero => exact absurd (hend.symm.trans hk) Bool.false_ne_true
        | succ j =>
          exact ⟨j, Nat.lt_of_succ_lt_succ hj, by rw [← hend]; congr 1; omega⟩
    · exact ⟨fun _ => ⟨0, Nat.succ_pos fuel, Bool.not_eq_true _ ▸ hk⟩, fun _ => rfl⟩

/-- The loop ends at the first poll that fails its condition. -/
theorem spin_eq_some {fuel k j : ℕ} (h : spin again fuel k = some j) :
    k ≤ j ∧ j < k + fuel ∧ again j = false ∧ ∀ i, k ≤ i → i < j → again i = true := by
  induction fuel generalizing k with
  | zero => exact nomatch h
  | succ fuel ih =>
    rw [spin] at h
    split_ifs at h with hk
    · have hrest := ih h
      refine ⟨by omega, by omega, hrest.2.2.1, fun i hi hij => ?_⟩
      rcases hi.lt_or_eq with hlt | rfl
      · exact hrest.2.2.2 i hlt hij
      · exact hk
    · obtain rfl := Option.some_inj.mp h
      exact ⟨le_refl _, by omega, Bool.not_eq_true _ ▸ hk, fun i hi hij => by omega⟩

/-- A loop returns exactly when some poll fails its condition. -/
theorem returns_spin_iff (k : ℕ) :
    Returns (fun fuel => spin again fuel k) ↔ ∃ j, again (k + j) = false := by
  simp only [Returns, spin_isSome_iff]
  constructor
  · rintro ⟨fuel, j, -, h⟩
    exact ⟨j, h⟩
  · rintro ⟨j, h⟩
    exact ⟨j + 1, j, Nat.lt_succ_self j, h⟩

theorem returns_some (a : α) : Returns fun _ => some a := ⟨0, rfl⟩

/-- One computation after the other, within the same number of polls for each. -/
theorem Stable.bind {run : ℕ → Option α} {next : α → ℕ → Option β} (hrun : Stable run)
    (hnext : ∀ a, Stable (next a)) : Stable fun fuel => (run fuel).bind (next · fuel) := by
  intro m n b hmn h
  obtain ⟨a, ha, hb⟩ := Option.bind_eq_some_iff.mp h
  exact Option.bind_eq_some_iff.mpr ⟨a, hrun m n a hmn ha, hnext a m n b hmn hb⟩

/-- It returns exactly when the first one gives an answer from which the second one returns. -/
theorem returns_bind_iff {run : ℕ → Option α} {next : α → ℕ → Option β} (hrun : Stable run)
    (hnext : ∀ a, Stable (next a)) :
    Returns (fun fuel => (run fuel).bind (next · fuel)) ↔
      ∃ a, (∃ fuel, run fuel = Option.some a) ∧ Returns (next a) := by
  constructor
  · rintro ⟨fuel, h⟩
    obtain ⟨b, hb⟩ := Option.isSome_iff_exists.mp h
    obtain ⟨a, ha, hab⟩ := Option.bind_eq_some_iff.mp hb
    exact ⟨a, ⟨fuel, ha⟩, fuel, by rw [hab]; rfl⟩
  · rintro ⟨a, ⟨m, ha⟩, n, h⟩
    obtain ⟨b, hb⟩ := Option.isSome_iff_exists.mp h
    have ha' := hrun m (max m n) a (Nat.le_max_left m n) ha
    have hb' := hnext a n (max m n) b (Nat.le_max_right m n) hb
    refine ⟨max m n, Option.isSome_iff_exists.mpr ⟨b, ?_⟩⟩
    exact Option.bind_eq_some_iff.mpr ⟨a, ha', hb'⟩

/-- When the second one returns or not whatever the answer is, both have to return. -/
theorem returns_bind_iff_and {run : ℕ → Option α} {next : α → ℕ → Option β}
    (hrun : Stable run) (hnext : ∀ a, Stable (next a)) {p : Prop}
    (h : ∀ a, (∃ fuel, run fuel = Option.some a) → (Returns (next a) ↔ p)) :
    Returns (fun fuel => (run fuel).bind (next · fuel)) ↔ Returns run ∧ p := by
  rw [returns_bind_iff hrun hnext]
  constructor
  · rintro ⟨a, ha, hret⟩
    obtain ⟨fuel, hfuel⟩ := ha
    exact ⟨⟨fuel, by rw [hfuel]; rfl⟩, (h a ⟨fuel, hfuel⟩).mp hret⟩
  · rintro ⟨⟨fuel, hsome⟩, hp⟩
    obtain ⟨a, ha⟩ := Option.isSome_iff_exists.mp hsome
    exact ⟨a, ⟨fuel, ha⟩, (h a ⟨fuel, ha⟩).mpr hp⟩

end UniHal.Foundations.Polling
