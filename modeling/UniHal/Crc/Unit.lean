import UniHal.Foundations.BitDivision

/-! # The CRC unit and the drivers' contexts

The registers of the CRC unit of both families, and the code of `uni_hal_crc_stm32h7.c` and
`uni_hal_crc_stm32l4.c` that is the same in both: initialisation, reset and reading the value.
How the unit changes its data register is a parameter, of which is only assumed that wider
writes are taken as their bytes, the most significant one first.
-/

namespace UniHal.Crc
open Foundations.BitDivision

/-- `uni_hal_crc_polysize_e` -/
inductive PolySize
  | b7 | b8 | b16 | b32
  deriving DecidableEq, Repr

def PolySize.bits : PolySize → ℕ
  | .b7 => 7
  | .b8 => 8
  | .b16 => 16
  | .b32 => 32

structure Divider where
  feed8 : BitVec 32 → PolySize → BitVec 32 → BitVec 8 → BitVec 32
  feed16 : BitVec 32 → PolySize → BitVec 32 → BitVec 16 → BitVec 32
  feed32 : BitVec 32 → PolySize → BitVec 32 → BitVec 32 → BitVec 32
  feed16_eq : ∀ pol size dr x,
    feed16 pol size dr x = feed8 pol size (feed8 pol size dr (byte x 1)) (byte x 0)
  feed32_eq : ∀ pol size dr x,
    feed32 pol size dr x =
      feed8 pol size (feed8 pol size (feed8 pol size (feed8 pol size dr (byte x 3)) (byte x 2))
        (byte x 1)) (byte x 0)

/-- What the drivers use of hardware and library: the CRC unit, and `uni_common_bytes_swap32`,
which reverses the bytes of a word. -/
structure Platform where
  unit : Divider
  swap32 : BitVec 32 → BitVec 32
  byte_swap32 : ∀ x, byte (swap32 x) 3 = byte x 0 ∧ byte (swap32 x) 2 = byte x 1 ∧
    byte (swap32 x) 1 = byte x 2 ∧ byte (swap32 x) 0 = byte x 3

/-- `uni_hal_crc_context_t` -/
structure Context where
  initialData : BitVec 32
  polynomialCoef : BitVec 32
  polynomialSize : PolySize
  initialized : Bool

/-- The registers of the CRC unit. -/
structure Regs where
  init : BitVec 32
  pol : BitVec 32
  size : PolySize
  dr : BitVec 32
  deriving DecidableEq

namespace Regs

/-- `LL_CRC_SetInitialData`: the write also loads the data register. -/
def setInitialData (r : Regs) (value : BitVec 32) : Regs := { r with init := value, dr := value }

def setPolynomialCoef (r : Regs) (value : BitVec 32) : Regs := { r with pol := value }

def setPolynomialSize (r : Regs) (value : PolySize) : Regs := { r with size := value }

variable (P : Platform)

def feedData8 (r : Regs) (x : BitVec 8) : Regs := { r with dr := P.unit.feed8 r.pol r.size r.dr x }

def feedData16 (r : Regs) (x : BitVec 16) : Regs :=
  { r with dr := P.unit.feed16 r.pol r.size r.dr x }

def feedData32 (r : Regs) (x : BitVec 32) : Regs :=
  { r with dr := P.unit.feed32 r.pol r.size r.dr x }

def feedBytes (r : Regs) (bytes : List (BitVec 8)) : Regs := bytes.foldl (feedData8 P) r

@[simp] theorem feedBytes_nil (r : Regs) : r.feedBytes P [] = r := rfl

theorem feedBytes_append (r : Regs) (xs ys : List (BitVec 8)) :
    r.feedBytes P (xs ++ ys) = (r.feedBytes P xs).feedBytes P ys := List.foldl_append

theorem feedData16_eq (r : Regs) (x : BitVec 16) :
    r.feedData16 P x = r.feedBytes P [byte x 1, byte x 0] := by
  rw [feedData16, P.unit.feed16_eq]
  rfl

theorem feedData32_eq (r : Regs) (x : BitVec 32) :
    r.feedData32 P x = r.feedBytes P [byte x 3, byte x 2, byte x 1, byte x 0] := by
  rw [feedData32, P.unit.feed32_eq]
  rfl

end Regs

def isInited : Option Context → Bool
  | none => false
  | some ctx => ctx.initialized

/-- `uni_hal_crc_init`; `clk` tells whether `uni_hal_rcc_clk_set` succeeds. -/
def init (clk : Bool) (ctx : Option Context) (r : Regs) : Bool × Option Context × Regs :=
  match ctx with
  | none => (false, none, r)
  | some c =>
    if clk then
      (true, some { c with initialized := true },
        ((r.setInitialData c.initialData).setPolynomialCoef c.polynomialCoef).setPolynomialSize
          c.polynomialSize)
    else (false, some c, r)

def reset (ctx : Option Context) (r : Regs) : Bool × Regs :=
  match ctx with
  | none => (false, r)
  | some c => if c.initialized then (true, r.setInitialData c.initialData) else (false, r)

def resetEx (ctx : Option Context) (value : BitVec 32) (r : Regs) : Bool × Regs :=
  if isInited ctx then (true, r.setInitialData value) else (false, r)

/-- `uni_hal_crc_get_value`: the data register, cut to the size of the polynomial. -/
def getValue (ctx : Option Context) (r : Regs) : BitVec 32 :=
  match ctx with
  | none => 0
  | some c =>
    if c.initialized then
      match c.polynomialSize with
      | .b7 => (r.dr &&& 0x7F).setWidth 8 |>.setWidth 32
      | .b8 => r.dr.setWidth 8 |>.setWidth 32
      | .b16 => r.dr.setWidth 16 |>.setWidth 32
      | .b32 => r.dr
    else 0

def serialDivider : Divider where
  feed8 pol size dr x := shiftIn size.bits pol dr (msbBits x)
  feed16 pol size dr x := shiftIn size.bits pol dr (msbBits x)
  feed32 pol size dr x := shiftIn size.bits pol dr (msbBits x)
  feed16_eq pol size dr x := shiftIn_bytes16 size.bits pol dr x
  feed32_eq pol size dr x := shiftIn_bytes32 size.bits pol dr x

def reverseBytes (x : BitVec 32) : BitVec 32 := word (byte x 0) (byte x 1) (byte x 2) (byte x 3)

def serialPlatform : Platform where
  unit := serialDivider
  swap32 := reverseBytes
  byte_swap32 _ := byte_word _ _ _ _

/-- The check value of CRC-32/MPEG-2, which is the reset configuration of the unit. -/
example : (Regs.feedBytes serialPlatform ⟨0xFFFFFFFF, 0x04C11DB7, .b32, 0xFFFFFFFF⟩
    [0x31, 0x32, 0x33, 0x34, 0x35, 0x36, 0x37, 0x38, 0x39]).dr = 0x0376E6E7 := by decide +kernel

end UniHal.Crc
