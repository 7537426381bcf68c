import UniHal.Foundations.BitField

/-! # Division of bit streams in a shift register

The register of a serial divider takes one bit at a time, most significant bit first. A word is
divided as the bits that it consists of, so the register after a word is the register after its
bytes, the most significant byte first.
-/

namespace UniHal.Foundations.BitDivision
open BitField

variable {w : ℕ}

/-- One bit enters a register of which the lowest `size` bits are in use. -/
def shiftBit (size : ℕ) (poly r : BitVec w) (bit : Bool) : BitVec w :=
  let shifted := (r <<< 1) &&& lowMask w size
  if (r.getLsbD (size - 1) ^^ bit) = true then shifted ^^^ (poly &&& lowMask w size) else shifted

def shiftIn (size : ℕ) (poly r : BitVec w) (bits : List Bool) : BitVec w :=
  bits.foldl (shiftBit size poly) r

theorem shiftIn_append (size : ℕ) (poly r : BitVec w) (bits bits' : List Bool) :
    shiftIn size poly r (bits ++ bits') = shiftIn size poly (shiftIn size poly r bits) bits' :=
  List.foldl_append

def msbBits {n : ℕ} (x : BitVec n) : List Bool := (List.range n).map x.getMsbD

theorem msbBits_append {m n : ℕ} (x : BitVec m) (y : BitVec n) :
    msbBits (x ++ y) = msbBits x ++ msbBits y := by
  rw [msbBits, List.range_add, List.map_append, List.map_map]
  congr 1
  · apply List.map_congr_left
    intro i hi
    simp [BitVec.getMsbD_append, List.mem_range.mp hi]
  · apply List.map_congr_left
    intro i _
    simp [BitVec.getMsbD_append]

/-- Byte `k` of a word, counted from the least significant one. -/
def byte {n : ℕ} (x : BitVec n) (k : ℕ) : BitVec 8 := x.extractLsb' (8 * k) 8

theorem getElem_byte {n : ℕ} (x : BitVec n) (k i : ℕ) (hi : i < 8) :
    (byte x k)[i] = x.getLsbD (8 * k + i) := by
  rw [byte, BitVec.getElem_extractLsb']

theorem eq_bytes16 (x : BitVec 16) : x = byte x 1 ++ byte x 0 := by
  ext i hi
  rw [BitVec.getElem_append]
  split <;> rw [getElem_byte, ← BitVec.getLsbD_eq_getElem] <;> congr 1 <;> omega

theorem eq_bytes32 (x : BitVec 32) : x = byte x 3 ++ byte x 2 ++ byte x 1 ++ byte x 0 := by
  ext i hi
  rw [BitVec.getElem_append]
  split
  · rw [getElem_byte, ← BitVec.getLsbD_eq_getElem]
    congr 1
    omega
  · rw [BitVec.getElem_append]
    split
    · rw [getElem_byte, ← BitVec.getLsbD_eq_getElem]
      congr 1
      omega
    · rw [BitVec.getElem_append]
      split <;> rw [getElem_byte, ← BitVec.getLsbD_eq_getElem] <;> congr 1 <;> omega

theorem shiftIn_bytes16 (size : ℕ) (poly r : BitVec w) (x : BitVec 16) :
    shiftIn size poly r (msbBits x) =
      shiftIn size poly (shiftIn size poly r (msbBits (byte x 1))) (msbBits (byte x 0)) := by
  conv_lhs => rw [eq_bytes16 x]
  rw [msbBits_append, shiftIn_append]

theorem shiftIn_bytes32 (size : ℕ) (poly r : BitVec w) (x : BitVec 32) :
    shiftIn size poly r (msbBits x) =
      shiftIn size poly (shiftIn size poly (shiftIn size poly (shiftIn size poly r
        (msbBits (byte x 3))) (msbBits (byte x 2))) (msbBits (byte x 1))) (msbBits (byte x 0)) := by
  conv_lhs => rw [eq_bytes32 x]
  rw [msbBits_append, shiftIn_append, msbBits_append, shiftIn_append, msbBits_append,
    shiftIn_append]

theorem getLsbD_shifted_byte (b : BitVec 8) (n s i : ℕ) (hn : 8 + s ≤ n) :
    (b.setWidth n <<< s).getLsbD i = (decide (s ≤ i) && b.getLsbD (i - s)) := by
  rw [BitVec.getLsbD_shiftLeft, BitVec.getLsbD_setWidth]
  by_cases hs : s ≤ i
  · by_cases h8 : i - s < 8
    · have hin : i < n := by omega
      have hin' : i - s < n := by omega
      simp [hin, hin', hs]
    · rw [BitVec.getLsbD_of_ge b (i - s) (by omega)]
      simp
  · simp [hs, show i < s by omega]

/-- A word with the bytes `b0` (most significant) to `b3`, put together with shifts. -/
def word (b0 b1 b2 b3 : BitVec 8) : BitVec 32 :=
  (b0.setWidth 32 <<< 24) ||| (b1.setWidth 32 <<< 16) ||| (b2.setWidth 32 <<< 8) |||
    b3.setWidth 32

theorem getLsbD_word (b0 b1 b2 b3 : BitVec 8) (i : ℕ) :
    (word b0 b1 b2 b3).getLsbD i =
      ((decide (24 ≤ i) && b0.getLsbD (i - 24)) || (decide (16 ≤ i) && b1.getLsbD (i - 16)) ||
        (decide (8 ≤ i) && b2.getLsbD (i - 8)) || b3.getLsbD i) := by
  have h3 : (b3.setWidth 32).getLsbD i = b3.getLsbD i := by
    have h := getLsbD_shifted_byte b3 32 0 i (by omega)
    simpa using h
  rw [word, BitVec.getLsbD_or, BitVec.getLsbD_or, BitVec.getLsbD_or,
    getLsbD_shifted_byte _ _ _ _ (by omega), getLsbD_shifted_byte _ _ _ _ (by omega),
    getLsbD_shifted_byte _ _ _ _ (by omega), h3]

theorem byte_word (b0 b1 b2 b3 : BitVec 8) :
    byte (word b0 b1 b2 b3) 3 = b0 ∧ byte (word b0 b1 b2 b3) 2 = b1 ∧
      byte (word b0 b1 b2 b3) 1 = b2 ∧ byte (word b0 b1 b2 b3) 0 = b3 := by
  refine ⟨?_, ?_, ?_, ?_⟩ <;> ext i hi <;>
    rw [getElem_byte, getLsbD_word, ← BitVec.getLsbD_eq_getElem]
  · rw [BitVec.getLsbD_of_ge b1 _ (by omega), BitVec.getLsbD_of_ge b2 _ (by omega),
      BitVec.getLsbD_of_ge b3 _ (by omega)]
    simp
  · rw [BitVec.getLsbD_of_ge b2 _ (by omega), BitVec.getLsbD_of_ge b3 _ (by omega)]
    simp
    omega
  · rw [BitVec.getLsbD_of_ge b3 _ (by omega)]
    simp
    omega
  · simp
    omega

/-- A half-word with the bytes `b0` (most significant) and `b1`, cut from a word. -/
def half (b0 b1 : BitVec 8) : BitVec 16 :=
  ((b0.setWidth 32 <<< 8) ||| b1.setWidth 32).setWidth 16

theorem byte_half (b0 b1 : BitVec 8) : byte (half b0 b1) 1 = b0 ∧ byte (half b0 b1) 0 = b1 := by
  have hbit : ∀ i < 16, (half b0 b1).getLsbD i =
      ((decide (8 ≤ i) && b0.getLsbD (i - 8)) || b1.getLsbD i) := by
    intro i hi
    have h1 := getLsbD_shifted_byte b1 32 0 i (by omega)
    rw [half, BitVec.getLsbD_setWidth, BitVec.getLsbD_or, getLsbD_shifted_byte _ _ _ _ (by omega)]
    simp only [BitVec.shiftLeft_zero, Nat.zero_le, decide_true, Bool.true_and, Nat.sub_zero] at h1
    rw [h1, decide_eq_true hi, Bool.true_and]
  constructor <;> ext i hi <;>
    rw [getElem_byte, hbit _ (by omega), ← BitVec.getLsbD_eq_getElem]
  · rw [BitVec.getLsbD_of_ge b1 _ (by omega)]
    simp
  · simp
    omega

end UniHal.Foundations.BitDivision
