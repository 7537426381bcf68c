import UniHal.Foundations.RegisterBank
import Mathlib.Data.List.Basic

/-! # Fields of a bank of registers

A numeric field lies in one of the registers of a bank. A write to it is seen by a read of it, and
by no read of a field that has no bit in common with it. The fields of a family that are apart from
each other form a store: each of them holds what was last written to it.
-/

namespace UniHal.Foundations

structure BankField (ρ : Type*) (w : ℕ) where
  reg : ρ
  field : BitField.Field w

namespace BankField

variable {ρ : Type*} [DecidableEq ρ] {w : ℕ}

/-- `MODIFY_REG(reg, mask, value << pos)` -/
def write (f : BankField ρ w) (value : BitVec w) (rs : Bank ρ w) : Bank ρ w :=
  Function.update rs f.reg (f.field.modify value (rs f.reg))

omit [DecidableEq ρ] in
/-- `READ_BIT(reg, mask) >> pos` -/
def read (f : BankField ρ w) (rs : Bank ρ w) : BitVec w := f.field.read (rs f.reg)

/-- Two fields have no bit in common. -/
def Apart (f g : BankField ρ w) : Prop := f.reg = g.reg → f.field.Apart g.field

instance (f g : BankField ρ w) : Decidable (f.Apart g) :=
  inferInstanceAs (Decidable (_ → _))

def Fits (f : BankField ρ w) (value : BitVec w) : Prop := value.toNat < 2 ^ f.field.width

instance (f : BankField ρ w) (value : BitVec w) : Decidable (f.Fits value) :=
  inferInstanceAs (Decidable (_ < _))

theorem read_write {f : BankField ρ w} {value : BitVec w} (hv : f.Fits value) (rs : Bank ρ w) :
    f.read (f.write value rs) = value := by
  rw [read, write, Function.update_self, BitField.Field.read_modify hv]

theorem read_write_of_apart {f g : BankField ρ w} (h : f.Apart g) {value : BitVec w}
    (hv : f.Fits value) (rs : Bank ρ w) : g.read (f.write value rs) = g.read rs := by
  rw [read, write, Function.update_apply]
  split_ifs with hreg
  · rw [BitField.Field.read_modify_of_apart (h hreg.symm) hv, read, hreg]
  · rfl

section Family
variable {ι : Type*} [DecidableEq ι] (f : ι → BankField ρ w)

def writes (l : List (ι × BitVec w)) (rs : Bank ρ w) : Bank ρ w :=
  l.foldl (fun rs p => (f p.1).write p.2 rs) rs

def lastOf {α : Type*} (i : ι) (first : α) (l : List (ι × α)) : α :=
  l.foldl (fun v p => if p.1 = i then p.2 else v) first

@[simp] theorem lastOf_nil {α : Type*} (i : ι) (first : α) : lastOf i first [] = first := rfl

@[simp] theorem lastOf_cons {α : Type*} (i : ι) (first : α) (p : ι × α) (l : List (ι × α)) :
    lastOf i first (p :: l) = lastOf i (if p.1 = i then p.2 else first) l := rfl

theorem lastOf_of_not_mem {α : Type*} {i : ι} {first : α} {l : List (ι × α)}
    (h : ∀ p ∈ l, p.1 ≠ i) : lastOf i first l = first := by
  induction l with
  | nil => rfl
  | cons p l ih =>
    rw [List.forall_mem_cons] at h
    rw [lastOf_cons, if_neg h.1, ih h.2]

theorem lastOf_of_mem {α : Type*} {i : ι} {v first : α} {l : List (ι × α)}
    (hnodup : (l.map Prod.fst).Nodup) (hmem : (i, v) ∈ l) : lastOf i first l = v := by
  induction l generalizing first with
  | nil => exact absurd hmem (List.not_mem_nil)
  | cons p l ih =>
    rw [List.map_cons, List.nodup_cons] at hnodup
    rw [lastOf_cons]
    rcases List.mem_cons.mp hmem with rfl | htail
    · rw [if_pos rfl]
      apply lastOf_of_not_mem
      intro q hq heq
      exact hnodup.1 (List.mem_map.mpr ⟨q, hq, heq⟩)
    · exact ih hnodup.2 htail

variable {f}

/-- Every field of the family holds what was last written to it. -/
theorem read_writes (hapart : ∀ i j, i ≠ j → (f i).Apart (f j)) {l : List (ι × BitVec w)}
    (hfit : ∀ p ∈ l, (f p.1).Fits p.2) (i : ι) (rs : Bank ρ w) :
    (f i).read (writes f l rs) = lastOf i ((f i).read rs) l := by
  induction l generalizing rs with
  | nil => rfl
  | cons p l ih =>
    rw [List.forall_mem_cons] at hfit
    rw [writes, List.foldl_cons, ← writes, ih hfit.2, lastOf_cons]
    congr 1
    split_ifs with hp
    · rw [← hp, read_write hfit.1]
    · rw [read_write_of_apart (hapart _ _ hp) hfit.1]

omit [DecidableEq ι] in
theorem read_writes_of_apart {g : BankField ρ w} (hapart : ∀ i, (f i).Apart g)
    {l : List (ι × BitVec w)} (hfit : ∀ p ∈ l, (f p.1).Fits p.2) (rs : Bank ρ w) :
    g.read (writes f l rs) = g.read rs := by
  induction l generalizing rs with
  | nil => rfl
  | cons p l ih =>
    rw [List.forall_mem_cons] at hfit
    rw [writes, List.foldl_cons, ← writes, ih hfit.2, read_write_of_apart (hapart _) hfit.1]

end Family

end BankField

end UniHal.Foundations
