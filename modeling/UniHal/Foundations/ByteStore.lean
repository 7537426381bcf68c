import Mathlib.Data.BitVec

/-! # Byte-addressed stores

A store maps every address to a byte. Addresses wrap around, so a block is a first address and a
number of bytes, and a byte belongs to the block when its distance from the first address is less
than that number.
-/

namespace UniHal.Foundations.ByteStore

/-- A byte for every address of `w` bits. -/
abbrev Store (w : ℕ) := BitVec w → UInt8

variable {w : ℕ}

/-- The address belongs to the block of `n` bytes from `a` on. -/
def InBlock (a : BitVec w) (n : ℕ) (x : BitVec w) : Prop := (x - a).toNat < n

instance (a : BitVec w) (n : ℕ) (x : BitVec w) : Decidable (InBlock a n x) :=
  inferInstanceAs (Decidable (_ < _))

/-- A block that ends within the address space is an interval of addresses. -/
theorem inBlock_iff {a : BitVec w} {n : ℕ} (h : a.toNat + n ≤ 2 ^ w) (x : BitVec w) :
    InBlock a n x ↔ a.toNat ≤ x.toNat ∧ x.toNat < a.toNat + n := by
  have hx : x.toNat < 2 ^ w := x.isLt
  have ha : a.toNat < 2 ^ w := a.isLt
  rw [InBlock, BitVec.toNat_sub]
  by_cases hle : a.toNat ≤ x.toNat
  · have hsum : 2 ^ w - a.toNat + x.toNat = x.toNat - a.toNat + 2 ^ w := by omega
    rw [hsum, Nat.add_mod_right, Nat.mod_eq_of_lt (by omega)]
    omega
  · rw [Nat.mod_eq_of_lt (by omega)]
    omega

def write (m : Store w) (a : BitVec w) (n : ℕ) (data : ℕ → UInt8) : Store w :=
  fun x => if InBlock a n x then data (x - a).toNat else m x

theorem write_inside (m : Store w) {a : BitVec w} {n : ℕ} (data : ℕ → UInt8) {x : BitVec w}
    (h : InBlock a n x) : write m a n data x = data (x - a).toNat := if_pos h

theorem write_outside (m : Store w) {a : BitVec w} {n : ℕ} (data : ℕ → UInt8) {x : BitVec w}
    (h : ¬ InBlock a n x) : write m a n data x = m x := if_neg h

end UniHal.Foundations.ByteStore
