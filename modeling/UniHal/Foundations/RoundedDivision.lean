import Mathlib.Algebra.Order.Floor.Ring
import Mathlib.Algebra.Order.Floor.Semifield
import Mathlib.Algebra.Order.Floor.Semiring
import Mathlib.Tactic

/-! # Integer division rounded to the nearest

Adding half of the divisor before a truncated division rounds to the nearest integer, halves up.
How far the result is from a rational number is decided by the exact quotient.
-/

namespace UniHal.Foundations.RoundedDivision

/-- `(a + d / 2) / d` -/
def roundDiv (a d : ℕ) : ℕ := (a + d / 2) / d

variable {a d : ℕ}

theorem le_roundDiv_iff (hd : 0 < d) {n : ℕ} :
    n ≤ roundDiv a d ↔ (n : ℚ) - 1 / 2 ≤ a / d := by
  have hpos : (0 : ℚ) < d := Nat.cast_pos.mpr hd
  rw [roundDiv, Nat.le_div_iff_mul_le hd, le_div_iff₀ hpos]
  have hdouble : n * d ≤ a + d / 2 ↔ 2 * (n * d) ≤ 2 * a + d := by omega
  rw [hdouble, ← Nat.cast_le (α := ℚ)]
  push_cast
  constructor <;> intro h <;> linarith

theorem roundDiv_lt_iff (hd : 0 < d) {n : ℕ} :
    roundDiv a d < n ↔ (a : ℚ) / d < n - 1 / 2 := by
  rw [← not_le, le_roundDiv_iff hd, not_le]

theorem roundDiv_add_self (hd : 0 < d) : roundDiv (a + d) d = roundDiv a d + 1 := by
  rw [roundDiv, roundDiv, Nat.add_right_comm, Nat.add_div_right _ hd]

/-- The result is within one unit of a number exactly if the quotient is within the interval that
the integers next to the number leave. -/
theorem abs_roundDiv_sub_le_one_iff (hd : 0 < d) {x : ℚ} (hx : 0 ≤ x) :
    |(roundDiv a d : ℚ) - x| ≤ 1 ↔
      (⌈x⌉₊ : ℚ) - 3 / 2 ≤ a / d ∧ (a : ℚ) / d < ⌊x⌋₊ + 3 / 2 := by
  have hbelow : x - 1 ≤ roundDiv a d ↔ (⌈x⌉₊ : ℚ) - 3 / 2 ≤ a / d := by
    have hpos : (d : ℚ) ≠ 0 := Nat.cast_ne_zero.mpr hd.ne'
    have hceil : ⌈x⌉₊ ≤ roundDiv (a + d) d ↔ x ≤ roundDiv a d + 1 := by
      rw [roundDiv_add_self hd, Nat.ceil_le, Nat.cast_add, Nat.cast_one]
    rw [sub_le_iff_le_add, ← hceil, le_roundDiv_iff hd, Nat.cast_add, add_div, div_self hpos]
    constructor <;> intro h <;> linarith
  have habove : (roundDiv a d : ℚ) ≤ x + 1 ↔ (a : ℚ) / d < ⌊x⌋₊ + 3 / 2 := by
    have hfloor : roundDiv a d < ⌊x⌋₊ + 2 ↔ (roundDiv a d : ℚ) ≤ x + 1 := by
      rw [← Nat.le_floor_iff (by linarith), Nat.floor_add_one hx]
      exact Nat.lt_succ_iff
    rw [← hfloor, roundDiv_lt_iff hd, Nat.cast_add, Nat.cast_ofNat]
    constructor <;> intro h <;> linarith
  rw [abs_le, ← hbelow, ← habove]
  constructor
  · rintro ⟨hlow, hhigh⟩
    constructor <;> linarith
  · rintro ⟨hlow, hhigh⟩
    constructor <;> linarith

/-- Truncated divisions in a row truncate the exact quotient. -/
theorem floor_div_div (a b c : ℕ) : ⌊(a : ℚ) / b / c⌋₊ = a / b / c := by
  rw [Nat.floor_div_natCast, Nat.floor_div_eq_div]

/-- Two numbers have the same whole part when the step from the one to the other stays between two
whole numbers. -/
theorem floor_eq_floor_iff {x y : ℚ} (hx : 0 ≤ x) (hy : 0 ≤ y) :
    ⌊y⌋₊ = ⌊x⌋₊ ↔ 0 ≤ Int.fract x + (y - x) ∧ Int.fract x + (y - x) < 1 := by
  have hfract : Int.fract x = x - ⌊x⌋₊ := by
    rw [Int.fract, natCast_floor_eq_intCast_floor hx]
  rw [Nat.floor_eq_iff hy, hfract]
  constructor
  · rintro ⟨hlow, hhigh⟩
    constructor <;> linarith
  · rintro ⟨hlow, hhigh⟩
    constructor <;> linarith

/-- What is lost does not show when the fractional part covers it. -/
theorem floor_sub_eq_iff {x lost : ℚ} (hlost : 0 ≤ lost) (hle : lost ≤ x) :
    ⌊x - lost⌋₊ = ⌊x⌋₊ ↔ lost ≤ Int.fract x := by
  rw [floor_eq_floor_iff (hlost.trans hle) (sub_nonneg.mpr hle)]
  have hlt := Int.fract_lt_one x
  constructor
  · rintro ⟨hlow, -⟩
    linarith
  · intro h
    constructor <;> linarith

end UniHal.Foundations.RoundedDivision
