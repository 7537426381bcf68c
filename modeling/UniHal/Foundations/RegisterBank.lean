import UniHal.Foundations.BitField

/-! # Banks of flag registers

A bank is a family of registers, and a flag is one bit of one of them. Setting and clearing
flags is described completely by what it does to every flag of the bank, so two banks with
the same flags set are equal.
-/

namespace UniHal.Foundations

abbrev Bank (ρ : Type*) (w : ℕ) := ρ → BitVec w

structure Flag (ρ : Type*) (w : ℕ) where
  reg : ρ
  pos : Fin w
  deriving DecidableEq

namespace Flag

variable {ρ : Type*} [DecidableEq ρ] {w : ℕ}

def mask (f : Flag ρ w) : BitVec w := BitVec.twoPow w f.pos

/-- `READ_BIT(reg, mask) == mask` -/
def isSet (f : Flag ρ w) (rs : Bank ρ w) : Bool := decide (rs f.reg &&& f.mask = f.mask)

/-- `SET_BIT(reg, mask)` -/
def set (f : Flag ρ w) (rs : Bank ρ w) : Bank ρ w :=
  Function.update rs f.reg (rs f.reg ||| f.mask)

/-- `CLEAR_BIT(reg, mask)` -/
def clear (f : Flag ρ w) (rs : Bank ρ w) : Bank ρ w :=
  Function.update rs f.reg (rs f.reg &&& ~~~f.mask)

def assign (f : Flag ρ w) (value : Bool) (rs : Bank ρ w) : Bank ρ w :=
  if value then f.set rs else f.clear rs

omit [DecidableEq ρ] in
theorem isSet_eq_getLsbD (f : Flag ρ w) (rs : Bank ρ w) :
    f.isSet rs = (rs f.reg).getLsbD f.pos := by
  rw [isSet, mask, BitVec.and_twoPow]
  cases h : (rs f.reg).getLsbD f.pos with
  | true => simp
  | false =>
    have hne : (0#w : BitVec w) ≠ BitVec.twoPow w f.pos := by
      intro h0
      have hbit := congrArg (fun v => v.getLsbD f.pos) h0
      simp [f.pos.isLt] at hbit
    simp [hne]

omit [DecidableEq ρ] in
theorem eq_of_pos_eq {f g : Flag ρ w} (hreg : g.reg = f.reg) (hpos : (g.pos : ℕ) = f.pos) :
    g = f := by
  cases f
  cases g
  simp_all [Fin.ext_iff]

theorem isSet_set (f g : Flag ρ w) (rs : Bank ρ w) :
    g.isSet (f.set rs) = if g = f then true else g.isSet rs := by
  rw [isSet_eq_getLsbD, isSet_eq_getLsbD, set]
  by_cases hreg : g.reg = f.reg
  · rw [hreg, Function.update_self]
    rw [show rs f.reg ||| f.mask = BitField.setBit (rs f.reg) f.pos from rfl,
      BitField.getLsbD_setBit _ f.pos.isLt]
    by_cases hpos : (g.pos : ℕ) = f.pos
    · rw [if_pos hpos, if_pos (eq_of_pos_eq hreg hpos)]
    · rw [if_neg hpos, if_neg fun h => hpos (congrArg (fun g : Flag ρ w => (g.pos : ℕ)) h)]
  · rw [Function.update_of_ne hreg, if_neg fun h => hreg (congrArg Flag.reg h)]

theorem isSet_clear (f g : Flag ρ w) (rs : Bank ρ w) :
    g.isSet (f.clear rs) = if g = f then false else g.isSet rs := by
  rw [isSet_eq_getLsbD, isSet_eq_getLsbD, clear]
  by_cases hreg : g.reg = f.reg
  · rw [hreg, Function.update_self]
    rw [show rs f.reg &&& ~~~f.mask = BitField.clearBit (rs f.reg) f.pos from rfl,
      BitField.getLsbD_clearBit]
    by_cases hpos : (g.pos : ℕ) = f.pos
    · rw [if_pos hpos, if_pos (eq_of_pos_eq hreg hpos)]
    · rw [if_neg hpos, if_neg fun h => hpos (congrArg (fun g : Flag ρ w => (g.pos : ℕ)) h)]
  · rw [Function.update_of_ne hreg, if_neg fun h => hreg (congrArg Flag.reg h)]

theorem isSet_assign (f g : Flag ρ w) (value : Bool) (rs : Bank ρ w) :
    g.isSet (f.assign value rs) = if g = f then value else g.isSet rs := by
  cases value with
  | true => exact isSet_set f g rs
  | false => exact isSet_clear f g rs

end Flag

end UniHal.Foundations
