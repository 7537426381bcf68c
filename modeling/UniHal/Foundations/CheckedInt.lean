import Mathlib.Data.Rat.Floor
import Mathlib.Tactic

/-! # 32-bit arithmetic of C

A signed operation whose result does not fit its type is undefined, and so is a division by
zero. The operations here give no result then, so that a computation that has one never left
the type. Division truncates towards zero.
-/

namespace UniHal.Foundations.CheckedInt

/-- The numbers of `int32_t`. -/
def InRange (x : ℤ) : Prop := -2 ^ 31 ≤ x ∧ x < 2 ^ 31

instance (x : ℤ) : Decidable (InRange x) := inferInstanceAs (Decidable (_ ∧ _))

/-- A number as an `int32_t`. -/
def toInt32 (x : ℤ) : Option ℤ := if InRange x then some x else none

def addInt32 (a b : ℤ) : Option ℤ := toInt32 (a + b)

def subInt32 (a b : ℤ) : Option ℤ := toInt32 (a - b)

def mulInt32 (a b : ℤ) : Option ℤ := toInt32 (a * b)

def divInt32 (a b : ℤ) : Option ℤ := if b = 0 then none else toInt32 (a.tdiv b)

/-- Division of `uint32_t`. -/
def divUInt32 (a b : UInt32) : Option UInt32 := if b = 0 then none else some (a / b)

theorem toInt32_of_inRange {x : ℤ} (h : InRange x) : toInt32 x = some x := if_pos h

/-- A computation goes on with the result exactly if it fits. -/
theorem toInt32_bind {α : Type} (x : ℤ) (f : ℤ → Option α) :
    (toInt32 x >>= f) = if InRange x then f x else none := by
  rw [toInt32]
  split <;> rfl

theorem divInt32_of_ne_zero {a b : ℤ} (hb : b ≠ 0) : divInt32 a b = toInt32 (a.tdiv b) :=
  if_neg hb

def truncate (x : ℚ) : ℤ := if 0 ≤ x then ⌊x⌋ else ⌈x⌉

theorem truncate_neg (x : ℚ) : truncate (-x) = -truncate x := by
  rcases lt_trichotomy x 0 with h | rfl | h
  · rw [truncate, truncate, if_pos (by linarith), if_neg (not_le.mpr h), Int.floor_neg]
  · simp [truncate]
  · rw [truncate, truncate, if_neg (by linarith), if_pos h.le, Int.ceil_neg]

theorem truncate_natCast_div (a d : ℕ) : truncate ((a : ℚ) / d) = (a / d : ℕ) := by
  rw [truncate, if_pos (by positivity), Rat.floor_natCast_div_natCast]
  rfl

/-- The division of C is the rational quotient, truncated. -/
theorem tdiv_eq_truncate (a b : ℤ) : a.tdiv b = truncate ((a : ℚ) / b) := by
  have hnat : ∀ m n : ℕ, (m : ℤ).tdiv n = truncate ((m : ℚ) / n) := fun m n => by
    rw [truncate_natCast_div, Int.natCast_tdiv_eq_ediv, Int.natCast_ediv]
  obtain ⟨m, rfl | rfl⟩ := a.eq_nat_or_neg <;> obtain ⟨n, rfl | rfl⟩ := b.eq_nat_or_neg
  · exact hnat m n
  · rw [Int.tdiv_neg, hnat, Int.cast_neg, div_neg, truncate_neg]
    rfl
  · rw [Int.neg_tdiv, hnat, Int.cast_neg, neg_div, truncate_neg]
    rfl
  · rw [Int.neg_tdiv, Int.tdiv_neg, neg_neg, hnat, Int.cast_neg, Int.cast_neg, neg_div_neg_eq]
    rfl

end UniHal.Foundations.CheckedInt
