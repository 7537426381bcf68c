import Mathlib.Tactic

/-! # Times read off a counter that wraps around

A counter runs through its period and starts again, and the wraps are counted apart, some time
after they happen. An event stores the counter; how often the counter had wrapped by then, and
how long it is from one event to the next.
-/

namespace UniHal.Foundations.WrappingCounter

variable {P : ℕ}

/-- The wraps before an event that stored `value`. A wrap that is not counted yet came first when
the event lies in the lower half of the period. A wrap that is counted came later when the event
lies in the upper half and the counter, read after the event, in the lower one. -/
def wrapsAt (P count : ℕ) (pending : Bool) (current value : ℕ) : ℕ :=
  if pending then
    if value < P / 2 then count + 1 else count
  else if 0 < count ∧ current < P / 2 ∧ P / 2 < value then count - 1
  else count

def elapsed (P wraps₀ value₀ wraps₁ value₁ : ℕ) : ℕ :=
  if value₀ ≤ value₁ then (wraps₁ - wraps₀) * P + (value₁ - value₀)
  else if wraps₀ < wraps₁ then (wraps₁ - wraps₀ - 1) * P + (P - value₀) + value₁
  else 0

/-- The event lies in the middle of an odd period, which belongs to neither half. -/
def Central (P value : ℕ) : Prop := value + value + 1 = P

instance (P value : ℕ) : Decidable (Central P value) := inferInstanceAs (Decidable (_ = _))

theorem div_mod_of_wraps {n r x : ℕ} (hx : x = n * P + r) (hr : r < P) :
    x / P = n ∧ x % P = r :=
  (Nat.div_mod_unique (r.zero_le.trans_lt hr)).mpr ⟨by rw [hx]; ring, hr⟩

/-- Nothing that follows a wrap by less than a period precedes it. -/
theorem div_eq_of_wrap_le {n x t : ℕ} (hP : 0 < P) (hn : t / P = n) (h : n * P ≤ x) (hxt : x ≤ t) :
    x / P = n := by
  apply le_antisymm
  · rw [← hn]
    exact Nat.div_le_div_right hxt
  · exact (Nat.le_div_iff_mul_le hP).mpr h

/-- Shortly before a wrap the counter is in the upper half of its period. -/
theorem div_mod_of_lt_wrap {n x : ℕ} (h : x < n * P) (hnear : 2 * (n * P - x) < P) :
    x / P + 1 = n ∧ P < 2 * (x % P) := by
  obtain ⟨m, rfl⟩ : ∃ m, n = m + 1 := Nat.exists_eq_succ_of_ne_zero fun h0 => by simp [h0] at h
  have hwrap : (m + 1) * P = m * P + P := Nat.succ_mul m P
  rw [hwrap] at h hnear
  have hx : x = m * P + (x - m * P) := by omega
  obtain ⟨hdiv, hmod⟩ := div_mod_of_wraps hx (by omega)
  omega

/-- The event at `e` is read at `t` and the counter at `c` in between: when less than half a
period passes, the wraps before the event are found, whether the last wrap before `t` is still
to be counted or not. -/
theorem wrapsAt_eq {e c t count : ℕ} {pending : Bool} (hP : 0 < P) (hec : e ≤ c) (hct : c ≤ t)
    (hnear : 2 * (t - e) < P) (hcount : count + pending.toNat = t / P)
    (hlate : pending = true → 2 * (t % P) < P ∧ ¬ Central P (e % P))
    (hearly : pending = false → c / P = t / P) :
    wrapsAt P count pending (c % P) (e % P) = e / P := by
  have ht := Nat.div_add_mod' t P
  have he := Nat.div_add_mod' e P
  have hc := Nat.div_add_mod' c P
  have hdiv : e / P = t / P ∨ e < t / P * P := by
    rcases le_or_gt (t / P * P) e with h | h
    · exact .inl (div_eq_of_wrap_le hP rfl h (hec.trans hct))
    · exact .inr h
  cases pending with
  | true =>
    obtain ⟨hlow, hmid⟩ := hlate rfl
    rw [Central] at hmid
    simp only [wrapsAt, if_true, Bool.toNat_true] at hcount ⊢
    rcases hdiv with hsame | hbefore
    · rw [hsame] at he ⊢
      rw [if_pos (by omega), hcount]
    · obtain ⟨hwraps, hhigh⟩ := div_mod_of_lt_wrap hbefore (by omega)
      rw [if_neg (by omega)]
      omega
  | false =>
    have hread := hearly rfl
    simp only [wrapsAt, Bool.toNat_false, Nat.add_zero] at hcount ⊢
    rw [if_neg Bool.false_ne_true]
    rcases hdiv with hsame | hbefore
    · rw [hsame] at he ⊢
      rw [hread] at hc
      rw [if_neg (by omega), hcount]
    · obtain ⟨hwraps, hhigh⟩ := div_mod_of_lt_wrap hbefore (by omega)
      have hpos : 0 < count := by
        rw [hcount, ← hwraps]
        exact Nat.succ_pos _
      rw [hread] at hc
      rw [if_pos ⟨hpos, by omega, by omega⟩, hcount, ← hwraps, Nat.add_sub_cancel]

/-- The time between two events is the difference of their times. -/
theorem elapsed_eq {e₀ e₁ : ℕ} (hP : 0 < P) (h : e₀ ≤ e₁) :
    elapsed P (e₀ / P) (e₀ % P) (e₁ / P) (e₁ % P) = e₁ - e₀ := by
  have h₀ := Nat.div_add_mod' e₀ P
  have h₁ := Nat.div_add_mod' e₁ P
  obtain ⟨k, hk⟩ := Nat.exists_eq_add_of_le (Nat.div_le_div_right (c := P) h)
  have hlow := Nat.mod_lt e₀ hP
  rw [hk, Nat.add_mul] at h₁
  rw [elapsed, hk, Nat.add_sub_cancel_left]
  split_ifs with hle hlt
  · omega
  · obtain ⟨j, rfl⟩ := Nat.exists_eq_succ_of_ne_zero (by omega : k ≠ 0)
    rw [Nat.succ_mul] at h₁
    rw [Nat.succ_sub_one]
    omega
  · have hk0 : k = 0 := by omega
    rw [hk0, Nat.zero_mul] at h₁
    omega

end UniHal.Foundations.WrappingCounter
