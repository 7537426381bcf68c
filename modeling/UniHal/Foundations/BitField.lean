import Mathlib.Tactic

/-! # Fields of a register word

A register packs flags and numbers side by side. Everything said about such a word here is
said bit by bit: which bits a mask keeps, where a shift moves them, and that two words are
equal when all their bits are.
-/

namespace UniHal.Foundations.BitField

variable {w : ℕ}

/-- The lowest `n` bits of a word. -/
def lowMask (w n : ℕ) : BitVec w := BitVec.ofNat w (2 ^ n - 1)

@[simp] theorem getLsbD_lowMask (n i : ℕ) :
    (lowMask w n).getLsbD i = (decide (i < w) && decide (i < n)) := by
  rw [lowMask, BitVec.getLsbD_ofNat, Nat.testBit_two_pow_sub_one]

theorem getElem_ofNat (x : ℕ) {i : ℕ} (hi : i < w) : (BitVec.ofNat w x)[i] = x.testBit i := by
  rw [← BitVec.getLsbD_eq_getElem hi, BitVec.getLsbD_ofNat, decide_eq_true hi, Bool.true_and]

theorem getLsbD_of_eq_lowMask {mask : BitVec w} {n : ℕ} (hn : n ≤ w) (h : mask = lowMask w n)
    (i : ℕ) : mask.getLsbD i = decide (i < n) := by
  rw [h, getLsbD_lowMask, ← Bool.decide_and, decide_eq_decide]
  omega

theorem getElem_of_eq_lowMask {mask : BitVec w} {n : ℕ} (h : mask = lowMask w n) {i : ℕ}
    (hi : i < w) : mask[i] = decide (i < n) := by
  rw [← BitVec.getLsbD_eq_getElem hi, h, getLsbD_lowMask, decide_eq_true hi, Bool.true_and]

theorem eq_zero_iff_getLsbD {x : BitVec w} : x = 0 ↔ ∀ i < w, x.getLsbD i = false := by
  constructor
  · rintro rfl i -
    exact BitVec.getLsbD_zero
  · intro h
    apply BitVec.eq_of_getLsbD_eq
    intro i hi
    rw [h i hi]
    exact BitVec.getLsbD_zero.symm

/-- The test `(x & mask) != 0` -/
def anySet (x mask : BitVec w) : Bool := decide (x &&& mask ≠ 0)

theorem anySet_twoPow {x : BitVec w} {k : ℕ} (hk : k < w) :
    anySet x (BitVec.twoPow w k) = x.getLsbD k := by
  rw [anySet, BitVec.and_twoPow]
  cases hx : x.getLsbD k with
  | false => simp
  | true =>
    rw [if_pos rfl, decide_eq_true_eq]
    intro h0
    have hbit := congrArg (fun v => v.getLsbD k) h0
    simp [hk] at hbit

/-- The parts of two words that a mask looks at are equal when the words agree on its bits. -/
theorem xor_and_eq_zero_iff {x y m : BitVec w} :
    (x ^^^ y) &&& m = 0 ↔ ∀ i < w, m.getLsbD i = true → x.getLsbD i = y.getLsbD i := by
  rw [eq_zero_iff_getLsbD]
  apply forall₂_congr
  intro i _
  rw [BitVec.getLsbD_and, BitVec.getLsbD_xor]
  cases m.getLsbD i <;> cases x.getLsbD i <;> cases y.getLsbD i <;> simp

def setBit (x : BitVec w) (k : ℕ) : BitVec w := x ||| BitVec.twoPow w k

def clearBit (x : BitVec w) (k : ℕ) : BitVec w := x &&& ~~~BitVec.twoPow w k

theorem getLsbD_setBit (x : BitVec w) {k : ℕ} (hk : k < w) (i : ℕ) :
    (setBit x k).getLsbD i = if i = k then true else x.getLsbD i := by
  rw [setBit, BitVec.getLsbD_or, BitVec.getLsbD_twoPow]
  by_cases hi : i = k
  · simp [hi, hk]
  · simp [hi, Ne.symm hi]

theorem getLsbD_clearBit (x : BitVec w) (k i : ℕ) :
    (clearBit x k).getLsbD i = if i = k then false else x.getLsbD i := by
  rw [clearBit, BitVec.getLsbD_and, BitVec.getLsbD_not, BitVec.getLsbD_twoPow]
  by_cases hi : i = k
  · by_cases hw : k < w <;> simp [hi, hw]
  · by_cases hw : i < w
    · simp [hi, Ne.symm hi, hw]
    · simp [hi, hw, BitVec.getLsbD_of_ge x i (Nat.le_of_not_lt hw)]

/-- The field of a register that takes `width` bits from `pos` on. -/
structure Field (w : ℕ) where
  pos : ℕ
  width : ℕ
  fits : pos + width ≤ w

namespace Field

def mask (f : Field w) : BitVec w := lowMask w f.width <<< f.pos

/-- `MODIFY_REG(reg, mask, value << pos)`: a value that is too wide runs over its neighbours. -/
def modify (f : Field w) (value x : BitVec w) : BitVec w := (x &&& ~~~f.mask) ||| value <<< f.pos

/-- `READ_BIT(reg, mask) >> pos` -/
def read (f : Field w) (x : BitVec w) : BitVec w := (x &&& f.mask) >>> f.pos

theorem getLsbD_mask (f : Field w) (i : ℕ) :
    f.mask.getLsbD i = decide (f.pos ≤ i ∧ i < f.pos + f.width) := by
  have := f.fits
  rw [mask, BitVec.getLsbD_shiftLeft, getLsbD_lowMask, Bool.eq_iff_iff]
  simp
  omega

theorem getLsbD_read (f : Field w) (x : BitVec w) (i : ℕ) :
    (f.read x).getLsbD i = (decide (i < f.width) && x.getLsbD (f.pos + i)) := by
  rw [read, BitVec.getLsbD_ushiftRight, BitVec.getLsbD_and, getLsbD_mask, Bool.and_comm]
  congr 1
  rw [decide_eq_decide]
  omega

/-- Two fields have no bit in common. -/
def Apart (f g : Field w) : Prop := f.pos + f.width ≤ g.pos ∨ g.pos + g.width ≤ f.pos

instance (f g : Field w) : Decidable (f.Apart g) :=
  inferInstanceAs (Decidable (f.pos + f.width ≤ g.pos ∨ g.pos + g.width ≤ f.pos))

theorem Apart.symm {f g : Field w} (h : f.Apart g) : g.Apart f := Or.symm h

theorem read_lt (f : Field w) (x : BitVec w) : (f.read x).toNat < 2 ^ f.width := by
  apply Nat.lt_pow_two_of_testBit
  intro i hi
  rw [BitVec.testBit_toNat, getLsbD_read, decide_eq_false (Nat.not_lt.mpr hi), Bool.false_and]

theorem getLsbD_of_lt_width {f : Field w} {value : BitVec w} (hv : value.toNat < 2 ^ f.width)
    {i : ℕ} (hi : f.width ≤ i) : value.getLsbD i = false :=
  Nat.testBit_lt_two_pow (hv.trans_le (Nat.pow_le_pow_right Nat.two_pos hi))

theorem read_modify {f : Field w} {value : BitVec w} (hv : value.toNat < 2 ^ f.width)
    (x : BitVec w) : f.read (f.modify value x) = value := by
  have hfits := f.fits
  apply BitVec.eq_of_getLsbD_eq
  intro i hi
  rw [getLsbD_read, modify, BitVec.getLsbD_or, BitVec.getLsbD_and, BitVec.getLsbD_not,
    getLsbD_mask, BitVec.getLsbD_shiftLeft]
  by_cases hwidth : i < f.width
  · have hlt : f.pos + i < w := by omega
    simp [hwidth, hlt]
  · rw [getLsbD_of_lt_width hv (Nat.le_of_not_lt hwidth)]
    simp [hwidth]

/-- A value that fits into a field does not disturb the fields apart from it. -/
theorem read_modify_of_apart {f g : Field w} (h : f.Apart g) {value : BitVec w}
    (hv : value.toNat < 2 ^ f.width) (x : BitVec w) : g.read (f.modify value x) = g.read x := by
  have hfits := g.fits
  apply BitVec.eq_of_getLsbD_eq
  intro i hi
  rw [getLsbD_read, getLsbD_read, modify, BitVec.getLsbD_or, BitVec.getLsbD_and,
    BitVec.getLsbD_not, getLsbD_mask, BitVec.getLsbD_shiftLeft]
  by_cases hwidth : i < g.width
  · have hlt : g.pos + i < w := by omega
    rcases h with h | h
    · have hout : ¬(f.pos ≤ g.pos + i ∧ g.pos + i < f.pos + f.width) := by omega
      have hhigh : f.width ≤ g.pos + i - f.pos := by omega
      simp [hwidth, hlt, hout, getLsbD_of_lt_width hv hhigh]
    · have hout : ¬(f.pos ≤ g.pos + i ∧ g.pos + i < f.pos + f.width) := by omega
      have hlow : g.pos + i < f.pos := by omega
      simp [hwidth, hlt, hout, hlow]
  · simp [hwidth]

theorem read_or (f : Field w) (x y : BitVec w) : f.read (x ||| y) = f.read x ||| f.read y := by
  apply BitVec.eq_of_getLsbD_eq
  intro i _
  simp only [getLsbD_read, BitVec.getLsbD_or, Bool.and_or_distrib_left]

theorem read_shiftLeft {f : Field w} {value : BitVec w} (hv : value.toNat < 2 ^ f.width) :
    f.read (value <<< f.pos) = value := by
  have hmodify := read_modify hv 0#w
  rwa [modify, BitVec.zero_and, BitVec.zero_or] at hmodify

/-- A value in its place leaves the fields apart from it at zero. -/
theorem read_shiftLeft_of_apart {f g : Field w} (h : f.Apart g) {value : BitVec w}
    (hv : value.toNat < 2 ^ f.width) : g.read (value <<< f.pos) = 0#w := by
  have hmodify := read_modify_of_apart h hv 0#w
  rw [modify, BitVec.zero_and, BitVec.zero_or] at hmodify
  rw [hmodify, read, BitVec.zero_and, BitVec.zero_ushiftRight]

def assemble (base : BitVec w) (l : List (Field w × BitVec w)) : BitVec w :=
  l.foldl (fun x p => x ||| p.2 <<< p.1.pos) base

theorem assemble_cons (base : BitVec w) (p : Field w × BitVec w) (l : List (Field w × BitVec w)) :
    assemble base (p :: l) = assemble (base ||| p.2 <<< p.1.pos) l := rfl

/-- Values that fit leave every field apart from theirs as it was. -/
theorem read_assemble_of_apart {g : Field w} {l : List (Field w × BitVec w)}
    (hfit : ∀ p ∈ l, p.2.toNat < 2 ^ p.1.width) (hapart : ∀ p ∈ l, p.1.Apart g)
    (base : BitVec w) : g.read (assemble base l) = g.read base := by
  induction l generalizing base with
  | nil => rfl
  | cons p l ih =>
    rw [List.forall_mem_cons] at hfit hapart
    rw [assemble_cons, ih hfit.2 hapart.2, read_or, read_shiftLeft_of_apart hapart.1 hfit.1,
      BitVec.or_zero]

/-- Values that fit into fields apart from each other are all read back. -/
theorem read_assemble {l : List (Field w × BitVec w)}
    (hfit : ∀ p ∈ l, p.2.toNat < 2 ^ p.1.width)
    (hapart : l.Pairwise fun p q => p.1.Apart q.1) {p : Field w × BitVec w} (hp : p ∈ l)
    {base : BitVec w} (hbase : p.1.read base = 0#w) : p.1.read (assemble base l) = p.2 := by
  induction l generalizing base with
  | nil => exact absurd hp List.not_mem_nil
  | cons q l ih =>
    rw [List.forall_mem_cons] at hfit
    rw [List.pairwise_cons] at hapart
    rw [assemble_cons]
    rcases List.mem_cons.mp hp with rfl | htail
    · have hrest : ∀ q ∈ l, q.1.Apart p.1 := fun q hq => (hapart.1 q hq).symm
      rw [read_assemble_of_apart hfit.2 hrest, read_or, hbase, read_shiftLeft hfit.1,
        BitVec.zero_or]
    · refine ih hfit.2 hapart.2 htail ?_
      rw [read_or, hbase, read_shiftLeft_of_apart (hapart.1 p htail) hfit.1, BitVec.zero_or]

end Field

def packBytes (keep : ℕ → Prop) [DecidablePred keep] (bytes : ℕ → BitVec 8) : BitVec 32 :=
  (List.range 4).foldl (fun word byte =>
    if keep byte then word ||| (bytes byte).setWidth 32 <<< (8 * byte) else word) 0

def byteOf (word : BitVec 32) (byte : ℕ) : BitVec 8 := (word >>> (8 * byte)).setWidth 8

theorem byteOf_packBytes_all (bytes : ℕ → BitVec 8) {k : ℕ} (hk : k < 4) :
    byteOf (packBytes (fun _ => True) bytes) k = bytes k := by
  apply BitVec.eq_of_getLsbD_eq
  intro i hi
  have hk' : k = 0 ∨ k = 1 ∨ k = 2 ∨ k = 3 := by omega
  rcases hk' with rfl | rfl | rfl | rfl <;>
    simp [packBytes, byteOf, List.range_succ, hi] <;> grind

/-- A packed byte is read back, and a byte that was left out reads as zero. -/
theorem byteOf_packBytes (keep : ℕ → Prop) [DecidablePred keep] (bytes : ℕ → BitVec 8) {k : ℕ}
    (hk : k < 4) : byteOf (packBytes keep bytes) k = if keep k then bytes k else 0 := by
  have hfold : packBytes keep bytes =
      packBytes (fun _ => True) fun byte => if keep byte then bytes byte else 0 := by
    simp only [packBytes, if_true]
    congr 1
    funext word byte
    by_cases hkeep : keep byte <;> simp [hkeep]
  rw [hfold, byteOf_packBytes_all _ hk]

end UniHal.Foundations.BitField
