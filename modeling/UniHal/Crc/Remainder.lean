import UniHal.Foundations.BinaryPolynomial
import UniHal.Crc.Contexts

/-! # What the CRC drivers compute

With the unit of the reference manual both drivers compute the remainder of a division of
polynomials, however a message is split. A change of a message within as many consecutive bits as
the polynomial has is therefore always noticed.
-/

namespace UniHal.Crc
open Foundations BitField BitDivision Polynomial
open Rcc (Family)

/-- The bits of a message in the order in which they enter the unit. -/
def messageBits (bytes : List (BitVec 8)) : List Bool := bytes.flatMap msbBits

theorem messageBits_length (bytes : List (BitVec 8)) :
    (messageBits bytes).length = 8 * bytes.length := by
  induction bytes with
  | nil => rfl
  | cons b bytes ih =>
    have hb : (msbBits b).length = 8 := by rw [msbBits, List.length_map, List.length_range]
    change (msbBits b ++ messageBits bytes).length = _
    rw [List.length_append, hb, ih, List.length_cons]
    ring

theorem feedBytes_serial (r : Regs) (bytes : List (BitVec 8)) :
    r.feedBytes serialPlatform bytes =
      { r with dr := shiftIn r.size.bits r.pol r.dr (messageBits bytes) } := by
  induction bytes generalizing r with
  | nil => rfl
  | cons b bytes ih =>
    change (r.feedData8 serialPlatform b).feedBytes serialPlatform bytes = _
    rw [ih]
    change Regs.mk _ _ _ (shiftIn r.size.bits r.pol (shiftIn r.size.bits r.pol r.dr (msbBits b))
      (messageBits bytes)) = _
    rw [← shiftIn_append]
    rfl

theorem PolySize.bits_pos (size : PolySize) : 0 < size.bits := by
  cases size <;> decide

theorem PolySize.bits_le (size : PolySize) : size.bits ≤ 32 := by
  cases size <;> decide

/-- The value is the part of the data register that the polynomial uses. -/
theorem getValue_eq {c : Context} (hc : c.initialized = true) (r : Regs) :
    getValue (some c) r = r.dr &&& lowMask 32 c.polynomialSize.bits := by
  have hmask : (0x7F : BitVec 32) = lowMask 32 7 := rfl
  ext i hi
  rw [← BitVec.getLsbD_eq_getElem, ← BitVec.getLsbD_eq_getElem, BitVec.getLsbD_and,
    getLsbD_lowMask, decide_eq_true hi, Bool.true_and]
  simp only [getValue, hc, if_true]
  cases c.polynomialSize with
  | b7 =>
    change (((r.dr &&& 0x7F).setWidth 8).setWidth 32).getLsbD i = (r.dr.getLsbD i && decide (i < 7))
    rw [hmask, BitVec.getLsbD_setWidth, BitVec.getLsbD_setWidth, BitVec.getLsbD_and,
      getLsbD_lowMask, decide_eq_true hi, Bool.true_and, Bool.true_and]
    by_cases h : i < 7
    · simp [h, show i < 8 by omega]
    · simp [h]
  | b8 =>
    change ((r.dr.setWidth 8).setWidth 32).getLsbD i = (r.dr.getLsbD i && decide (i < 8))
    rw [BitVec.getLsbD_setWidth, BitVec.getLsbD_setWidth, decide_eq_true hi, Bool.true_and,
      Bool.and_comm]
  | b16 =>
    change ((r.dr.setWidth 16).setWidth 32).getLsbD i = (r.dr.getLsbD i && decide (i < 16))
    rw [BitVec.getLsbD_setWidth, BitVec.getLsbD_setWidth, decide_eq_true hi, Bool.true_and,
      Bool.and_comm]
  | b32 =>
    change r.dr.getLsbD i = (r.dr.getLsbD i && decide (i < 32))
    rw [decide_eq_true hi, Bool.and_true]

theorem registerPoly_getValue {c : Context} (hc : c.initialized = true) (r : Regs) :
    registerPoly c.polynomialSize.bits (getValue (some c) r) =
      registerPoly c.polynomialSize.bits r.dr := by
  have hle := c.polynomialSize.bits_le
  ext n
  rw [coeff_registerPoly, coeff_registerPoly, getValue_eq hc, BitVec.getLsbD_and, getLsbD_lowMask]
  split
  · rename_i hn
    rw [decide_eq_true hn, decide_eq_true (show n < 32 by omega), Bool.and_true, Bool.and_true]
  · rfl

theorem getValue_lt {c : Context} (hc : c.initialized = true) (r : Regs) :
    (getValue (some c) r).toNat < 2 ^ c.polynomialSize.bits := by
  have hlt : 2 ^ c.polynomialSize.bits ≤ 2 ^ 32 :=
    Nat.pow_le_pow_right (by decide) c.polynomialSize.bits_le
  have hpos := Nat.two_pow_pos c.polynomialSize.bits
  rw [getValue_eq hc, BitVec.toNat_and, lowMask, BitVec.toNat_ofNat,
    Nat.mod_eq_of_lt (by omega)]
  exact Nat.and_lt_two_pow _ (by omega)

/-- The unit is loaded with a value, and a message is appended part by part. -/
def appendParts (f : Family) (ctx : Option Context) (value : BitVec 32) (parts : List Buffer)
    (r : Regs) : Regs :=
  parts.foldl (fun r b => (append serialPlatform f ctx (some b) r).2) (resetEx ctx value r).2

variable {c : Context} {r : Regs}

theorem foldl_append (f : Family) (hc : c.initialized = true) (parts : List Buffer) (r : Regs) :
    parts.foldl (fun r b => (append serialPlatform f (some c) (some b) r).2) r =
      r.feedBytes serialPlatform (parts.map Buffer.bytes).flatten := by
  have hin : isInited (some c) = true := hc
  induction parts generalizing r with
  | nil => rfl
  | cons b parts ih =>
    rw [List.foldl_cons, ih, append_eq serialPlatform f hin, List.map_cons, List.flatten_cons,
      Regs.feedBytes_append]

theorem appendParts_dr (f : Family) (hc : c.initialized = true) (h : Holds r c)
    (value : BitVec 32) (parts : List Buffer) :
    (appendParts f (some c) value parts r).dr = shiftIn c.polynomialSize.bits c.polynomialCoef
      value (messageBits (parts.map Buffer.bytes).flatten) := by
  have hin : isInited (some c) = true := hc
  rw [appendParts, foldl_append f hc, feedBytes_serial, resetEx, if_pos hin]
  change shiftIn r.size.bits r.pol value _ = _
  rw [h.1, h.2]

/-- The value of a message is the remainder of the message behind the value that the unit was
loaded with, moved up by the size of the polynomial; the parts do not matter. -/
theorem getValue_appendParts (f : Family) (hc : c.initialized = true) (h : Holds r c)
    (value : BitVec 32) (parts : List Buffer) :
    (getValue (some c) (appendParts f (some c) value parts r)).toNat <
        2 ^ c.polynomialSize.bits ∧
      registerPoly c.polynomialSize.bits
          (getValue (some c) (appendParts f (some c) value parts r)) =
        (registerPoly c.polynomialSize.bits value *
            X ^ (8 * (parts.map Buffer.bytes).flatten.length) +
          streamPoly (messageBits (parts.map Buffer.bytes).flatten) *
            X ^ c.polynomialSize.bits) %ₘ divisor c.polynomialSize.bits c.polynomialCoef := by
  constructor
  · exact getValue_lt hc _
  · rw [registerPoly_getValue hc, appendParts_dr f hc h,
      registerPoly_shiftIn c.polynomialSize.bits_pos c.polynomialSize.bits_le, messageBits_length]

def mpeg2 : Context := ⟨0xFFFFFFFF, 0x04C11DB7, .b32, true⟩

def setToMpeg2 : Regs := ⟨0xFFFFFFFF, 0x04C11DB7, .b32, 0⟩

theorem getValue_appendParts_mpeg2 :
    registerPoly 32 (getValue (some mpeg2) (appendParts .stm32h7 (some mpeg2) 0xFFFFFFFF
        [⟨0, [0x31]⟩, ⟨1, [0x32, 0x33]⟩] setToMpeg2)) =
      (registerPoly 32 (0xFFFFFFFF : BitVec 32) * X ^ 24 +
        streamPoly (messageBits [0x31, 0x32, 0x33]) * X ^ 32) %ₘ
          divisor 32 (0x04C11DB7 : BitVec 32) :=
  (getValue_appendParts (c := mpeg2) .stm32h7 rfl ⟨rfl, rfl⟩ 0xFFFFFFFF
    [⟨0, [0x31]⟩, ⟨1, [0x32, 0x33]⟩]).2

theorem calculateEx_eq (f : Family) (hc : c.initialized = true) (value : BitVec 32) (b : Buffer)
    (r : Regs) : (calculateEx (append serialPlatform f) (some c) value (some b) r).1 =
      getValue (some c) (appendParts f (some c) value [b] r) := by
  have hin : isInited (some c) = true := hc
  rw [calculateEx, if_pos ⟨hin, rfl⟩]
  rfl

/-- A message that differs from another one within as many consecutive bits as the polynomial has
gets another value. -/
theorem calculateEx_ne_of_burst (f : Family) (hc : c.initialized = true) (h : Holds r c)
    (hodd : c.polynomialCoef.getLsbD 0 = true) (value : BitVec 32) {b b' : Buffer}
    {before burst burst' after : List Bool}
    (hb : messageBits b.bytes = before ++ burst ++ after)
    (hb' : messageBits b'.bytes = before ++ burst' ++ after)
    (hlen : burst.length = burst'.length) (hle : burst.length ≤ c.polynomialSize.bits)
    (hne : burst ≠ burst') :
    (calculateEx (append serialPlatform f) (some c) value (some b) r).1 ≠
      (calculateEx (append serialPlatform f) (some c) value (some b') r).1 := by
  intro heq
  rw [calculateEx_eq f hc, calculateEx_eq f hc] at heq
  have hpoly := congrArg (registerPoly c.polynomialSize.bits) heq
  rw [registerPoly_getValue hc, registerPoly_getValue hc, appendParts_dr f hc h,
    appendParts_dr f hc h] at hpoly
  simp only [List.map_cons, List.map_nil, List.flatten_cons, List.flatten_nil, List.append_nil,
    hb, hb'] at hpoly
  exact registerPoly_shiftIn_ne_of_burst c.polynomialSize.bits_pos c.polynomialSize.bits_le hodd
    hlen hle hne hpoly

/-- The characters 1 and 2 differ in two neighbouring bits. -/
theorem calculateEx_ne_of_burst_mpeg2 :
    (calculateEx (append serialPlatform .stm32l4) (some mpeg2) 0xFFFFFFFF (some ⟨0, [0x31, 0x30]⟩)
        setToMpeg2).1 ≠
      (calculateEx (append serialPlatform .stm32l4) (some mpeg2) 0xFFFFFFFF
        (some ⟨0, [0x32, 0x30]⟩) setToMpeg2).1 := by
  have hone : messageBits [0x31, 0x30] =
      [false, false, true, true, false, false] ++ [false, true] ++ messageBits [0x30] := rfl
  have htwo : messageBits [0x32, 0x30] =
      [false, false, true, true, false, false] ++ [true, false] ++ messageBits [0x30] := rfl
  exact calculateEx_ne_of_burst .stm32l4 (c := mpeg2) rfl ⟨rfl, rfl⟩ rfl 0xFFFFFFFF hone htwo rfl
    (by decide) (by decide)

end UniHal.Crc
