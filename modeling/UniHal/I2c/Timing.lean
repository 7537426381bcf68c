import Mathlib.Algebra.Order.Floor.Div
import Mathlib.Data.Rat.Cast.Order
import Mathlib.Tactic.FieldSimp
import Mathlib.Tactic.Linarith
import Mathlib.Tactic.NormNum
import UniHal.Foundations.BestScan
import UniHal.Foundations.BitField

/-! # Bus timing of the I2C peripherals

`uni_hal_i2c_timing_calc` with its loop over the prescaler, and the bounds of its result in exact
arithmetic.
-/

namespace UniHal.I2c
open Foundations BitField

/-- `uni_hal_i2c_timing_spec_t`, in nanoseconds apart from the frequency -/
structure TimingSpec where
  freqHz : ℕ
  tLowMin : ℕ
  tHighMin : ℕ
  tSuDatMin : ℕ
  tRiseMax : ℕ

/-- `uni_hal_i2c_speed_e` -/
inductive Speed
  | khz100
  | khz400
  | mhz1
  deriving DecidableEq, Repr

/-- The limits that `uni_hal_i2c_timing_calc` selects for a speed. -/
def Speed.spec : Speed → TimingSpec
  | .khz100 => ⟨100000, 4700, 4000, 250, 1000⟩
  | .khz400 => ⟨400000, 1300, 600, 100, 300⟩
  | .mhz1 => ⟨1000000, 500, 260, 50, 120⟩

def afMinNs : ℕ := 50

def afMaxNs : ℕ := 260

def divCeil (value divider : ℕ) : ℕ := (value + divider - 1) / divider

def nsToTicks (ns clockHz : ℕ) : ℕ := divCeil (ns * clockHz) 1000000000

def clockTooSlow (spec : TimingSpec) (clockHz : ℕ) : Bool :=
  let clockPeriodPs := 1000000000000 / clockHz
  decide (clockPeriodPs * 4 ≥ (spec.tLowMin - afMaxNs) * 1000) ||
    decide (clockPeriodPs ≥ spec.tHighMin * 1000)

/-- `sync_ticks`, the shortest synchronisation of both edges -/
def syncTicks (clockHz : ℕ) : ℕ := 2 * (afMinNs * clockHz / 1000000000 + 2)

/-- `counted_ticks`, what is left of the period for the two counters -/
def countedTicks (spec : TimingSpec) (clockHz : ℕ) : ℕ :=
  let periodTicks := divCeil clockHz spec.freqHz
  if periodTicks > syncTicks clockHz then periodTicks - syncTicks clockHz else 0

structure Solution where
  presc : ℕ
  scldel : ℕ
  high : ℕ
  low : ℕ
  deriving DecidableEq, Repr

/-- `scldel` for a prescaler, which divides the clock by one more than its value -/
def setupPeriods (spec : TimingSpec) (clockHz presc : ℕ) : ℕ :=
  divCeil (nsToTicks (spec.tRiseMax + spec.tSuDatMin) clockHz) (presc + 1)

def lowMin (spec : TimingSpec) (clockHz presc : ℕ) : ℕ :=
  divCeil (nsToTicks spec.tLowMin clockHz) (presc + 1)

def highMin (spec : TimingSpec) (clockHz presc : ℕ) : ℕ :=
  divCeil (nsToTicks spec.tHighMin clockHz) (presc + 1)

/-- `total`, the periods of the low and the high part -/
def totalPeriods (spec : TimingSpec) (clockHz presc : ℕ) : ℕ :=
  let total := divCeil (countedTicks spec clockHz) (presc + 1)
  if total < lowMin spec clockHz presc + highMin spec clockHz presc then
    lowMin spec clockHz presc + highMin spec clockHz presc
  else total

/-- `low` -/
def lowPeriods (spec : TimingSpec) (clockHz presc : ℕ) : ℕ :=
  let low := divCeil (totalPeriods spec clockHz presc * spec.tLowMin)
    (spec.tLowMin + spec.tHighMin)
  if low < lowMin spec clockHz presc then lowMin spec clockHz presc else low

/-- `high` -/
def highPeriods (spec : TimingSpec) (clockHz presc : ℕ) : ℕ :=
  let high :=
    if totalPeriods spec clockHz presc > lowPeriods spec clockHz presc then
      totalPeriods spec clockHz presc - lowPeriods spec clockHz presc
    else 0
  if high < highMin spec clockHz presc then highMin spec clockHz presc else high

/-- One round of the loop of `uni_hal_i2c_timing_calc`. -/
def tryPresc (spec : TimingSpec) (clockHz presc : ℕ) : Option Solution :=
  if setupPeriods spec clockHz presc > 16 then none
  else if lowPeriods spec clockHz presc > 256 ∨ highPeriods spec clockHz presc > 256 then none
  else some
    { presc := presc
      scldel := setupPeriods spec clockHz presc
      high := highPeriods spec clockHz presc
      low := lowPeriods spec clockHz presc }

/-- `for (presc = 0; presc < 16; presc++)`, which returns from its first solution -/
def prescLoop (spec : TimingSpec) (clockHz : ℕ) : Option Solution :=
  (List.range 16).findSome? (tryPresc spec clockHz)

/-- The value of `I2C_TIMINGR` that is returned from the loop. -/
def encode (s : Solution) : BitVec 32 :=
  let scldelReg := if s.scldel > 0 then s.scldel - 1 else 0
  BitVec.ofNat 32 s.presc <<< 28 ||| BitVec.ofNat 32 scldelReg <<< 20 |||
    BitVec.ofNat 32 (s.high - 1) <<< 8 ||| BitVec.ofNat 32 (s.low - 1)

/-- What the loop finds, where the clock does not end the call before it. -/
def solve (clockHz : BitVec 32) (speed : Speed) : Option Solution :=
  if clockHz = 0 then none
  else if clockTooSlow speed.spec clockHz.toNat then none
  else prescLoop speed.spec clockHz.toNat

def timingCalc (clockHz : BitVec 32) (speed : Speed) : BitVec 32 :=
  match solve clockHz speed with
  | none => 0
  | some s => encode s

/-- `I2C_TIMINGR_PRESC` -/
def prescField : Field 32 := ⟨28, 4, le_refl _⟩

theorem setupField_fits : 20 + 4 ≤ 32 := by decide

/-- `I2C_TIMINGR_SCLDEL` -/
def scldelField : Field 32 := ⟨20, 4, setupField_fits⟩

theorem holdField_fits : 16 + 4 ≤ 32 := by decide

/-- `I2C_TIMINGR_SDADEL` -/
def sdadelField : Field 32 := ⟨16, 4, holdField_fits⟩

theorem highField_fits : 8 + 8 ≤ 32 := by decide

/-- `I2C_TIMINGR_SCLH` -/
def sclhField : Field 32 := ⟨8, 8, highField_fits⟩

theorem lowField_fits : 0 + 8 ≤ 32 := by decide

/-- `I2C_TIMINGR_SCLL` -/
def scllField : Field 32 := ⟨0, 8, lowField_fits⟩

def pack (presc scldel sclh scll : BitVec 32) : BitVec 32 :=
  presc <<< prescField.pos ||| scldel <<< scldelField.pos ||| sclh <<< sclhField.pos |||
    scll <<< scllField.pos

theorem read_pack_or (f : Field 32) (p d h l : BitVec 32) :
    f.read (pack p d h l) =
      f.read (p <<< prescField.pos) ||| f.read (d <<< scldelField.pos) |||
        f.read (h <<< sclhField.pos) ||| f.read (l <<< scllField.pos) := by
  rw [pack, Field.read_or, Field.read_or, Field.read_or]

/-- Values that fit are read back, and the field between them is zero. -/
theorem read_pack {p d h l : BitVec 32} (hp : p.toNat < 2 ^ prescField.width)
    (hd : d.toNat < 2 ^ scldelField.width) (hh : h.toNat < 2 ^ sclhField.width)
    (hl : l.toNat < 2 ^ scllField.width) :
    prescField.read (pack p d h l) = p ∧ scldelField.read (pack p d h l) = d ∧
      sdadelField.read (pack p d h l) = 0#32 ∧ sclhField.read (pack p d h l) = h ∧
      scllField.read (pack p d h l) = l := by
  simp only [read_pack_or]
  refine ⟨?_, ?_, ?_, ?_, ?_⟩
  · rw [Field.read_shiftLeft hp, Field.read_shiftLeft_of_apart (by decide) hd,
      Field.read_shiftLeft_of_apart (by decide) hh, Field.read_shiftLeft_of_apart (by decide) hl,
      BitVec.or_zero, BitVec.or_zero, BitVec.or_zero]
  · rw [Field.read_shiftLeft_of_apart (by decide) hp, Field.read_shiftLeft hd,
      Field.read_shiftLeft_of_apart (by decide) hh, Field.read_shiftLeft_of_apart (by decide) hl,
      BitVec.zero_or, BitVec.or_zero, BitVec.or_zero]
  · rw [Field.read_shiftLeft_of_apart (by decide) hp,
      Field.read_shiftLeft_of_apart (by decide) hd, Field.read_shiftLeft_of_apart (by decide) hh,
      Field.read_shiftLeft_of_apart (by decide) hl, BitVec.zero_or, BitVec.zero_or,
      BitVec.zero_or]
  · rw [Field.read_shiftLeft_of_apart (by decide) hp,
      Field.read_shiftLeft_of_apart (by decide) hd, Field.read_shiftLeft hh,
      Field.read_shiftLeft_of_apart (by decide) hl, BitVec.zero_or, BitVec.zero_or,
      BitVec.or_zero]
  · rw [Field.read_shiftLeft_of_apart (by decide) hp,
      Field.read_shiftLeft_of_apart (by decide) hd, Field.read_shiftLeft_of_apart (by decide) hh,
      Field.read_shiftLeft hl, BitVec.zero_or, BitVec.zero_or, BitVec.zero_or]

/-- The fields of a solution fit into the register. -/
structure Solution.Fits (s : Solution) : Prop where
  presc : s.presc < 16
  scldel_pos : 1 ≤ s.scldel
  scldel : s.scldel ≤ 16
  high_pos : 1 ≤ s.high
  high : s.high ≤ 256
  low_pos : 1 ≤ s.low
  low : s.low ≤ 256

theorem encode_eq_pack (s : Solution) :
    encode s = pack (.ofNat 32 s.presc) (.ofNat 32 (s.scldel - 1)) (.ofNat 32 (s.high - 1))
      (.ofNat 32 (s.low - 1)) := by
  have hscldel : (if s.scldel > 0 then s.scldel - 1 else 0) = s.scldel - 1 := by
    split <;> omega
  have hlow : BitVec.ofNat 32 (s.low - 1) <<< scllField.pos = BitVec.ofNat 32 (s.low - 1) :=
    BitVec.shiftLeft_zero _
  rw [encode, pack, hlow, hscldel]
  rfl

theorem toNat_ofNat_pred {n k : ℕ} (hpos : 1 ≤ n) (hle : n ≤ k) (hk : k ≤ 256) :
    (BitVec.ofNat 32 (n - 1)).toNat = n - 1 ∧ n - 1 < k := by
  rw [BitVec.toNat_ofNat, Nat.mod_eq_of_lt (by omega)]
  omega

/-- The values that a call puts into the register are read back. -/
theorem read_encode_fields {s : Solution} (h : s.Fits) :
    prescField.read (encode s) = .ofNat 32 s.presc ∧
      scldelField.read (encode s) = .ofNat 32 (s.scldel - 1) ∧
      sdadelField.read (encode s) = 0#32 ∧
      sclhField.read (encode s) = .ofNat 32 (s.high - 1) ∧
      scllField.read (encode s) = .ofNat 32 (s.low - 1) := by
  have hpresc := toNat_ofNat_pred (n := s.presc + 1) (k := 16) (by omega) h.presc (by decide)
  have hscldel := toNat_ofNat_pred h.scldel_pos h.scldel (by decide)
  have hhigh := toNat_ofNat_pred h.high_pos h.high (le_refl _)
  have hlow := toNat_ofNat_pred h.low_pos h.low (le_refl _)
  rw [encode_eq_pack]
  refine read_pack ?_ ?_ ?_ ?_
  · exact lt_of_eq_of_lt hpresc.1 hpresc.2
  · exact lt_of_eq_of_lt hscldel.1 hscldel.2
  · exact lt_of_eq_of_lt hhigh.1 hhigh.2
  · exact lt_of_eq_of_lt hlow.1 hlow.2

/-- What the fields of the register hold after a call that finds a solution. -/
theorem read_encode {s : Solution} (h : s.Fits) :
    (prescField.read (encode s)).toNat = s.presc ∧
      (scldelField.read (encode s)).toNat + 1 = s.scldel ∧
      (sclhField.read (encode s)).toNat + 1 = s.high ∧
      (scllField.read (encode s)).toNat + 1 = s.low := by
  obtain ⟨hpresc, hscldel, -, hhigh, hlow⟩ := read_encode_fields h
  rw [hpresc, hscldel, hhigh, hlow, (toNat_ofNat_pred h.scldel_pos h.scldel (by decide)).1,
    (toNat_ofNat_pred h.high_pos h.high (le_refl _)).1,
    (toNat_ofNat_pred h.low_pos h.low (le_refl _)).1]
  have hp := h.presc
  have hd := h.scldel_pos
  have hh := h.high_pos
  have hl := h.low_pos
  exact ⟨BitVec.toNat_ofNat s.presc 32 ▸ Nat.mod_eq_of_lt (by omega), by omega, by omega,
    by omega⟩

theorem divCeil_le_iff {value divider k : ℕ} (h : 0 < divider) :
    divCeil value divider ≤ k ↔ value ≤ divider * k := by
  rw [divCeil, ← Nat.ceilDiv_eq_add_pred_div, ceilDiv_le_iff_le_mul h]

theorem mul_divCeil_lt {value divider : ℕ} (h : 0 < divider) :
    divider * divCeil value divider < value + divider := by
  have hle := Nat.mul_div_le (value + divider - 1) divider
  rw [divCeil]
  omega

/-- Rounding up to clock periods and then to prescaled ones rounds up once. -/
theorem periods_le_iff {ns clockHz presc k : ℕ} :
    divCeil (nsToTicks ns clockHz) (presc + 1) ≤ k ↔
      ns * clockHz ≤ 1000000000 * ((presc + 1) * k) := by
  rw [divCeil_le_iff (Nat.succ_pos presc), nsToTicks, divCeil_le_iff (by decide)]

theorem ns_le_periods (ns clockHz presc : ℕ) :
    ns * clockHz ≤ 1000000000 * ((presc + 1) * divCeil (nsToTicks ns clockHz) (presc + 1)) :=
  periods_le_iff.mp (le_refl _)

theorem periods_lt (ns clockHz presc : ℕ) :
    1000000000 * ((presc + 1) * divCeil (nsToTicks ns clockHz) (presc + 1)) <
      ns * clockHz + 1000000000 * (presc + 1) := by
  cases h : divCeil (nsToTicks ns clockHz) (presc + 1) with
  | zero =>
    rw [Nat.mul_zero, Nat.mul_zero]
    omega
  | succ k =>
    have hlt : ¬ divCeil (nsToTicks ns clockHz) (presc + 1) ≤ k := by omega
    rw [periods_le_iff, Nat.not_le] at hlt
    rw [Nat.mul_succ, Nat.mul_add]
    omega

theorem lowMin_le_low (spec : TimingSpec) (clockHz presc : ℕ) :
    lowMin spec clockHz presc ≤ lowPeriods spec clockHz presc := by
  rw [lowPeriods]
  split <;> omega

theorem highMin_le_high (spec : TimingSpec) (clockHz presc : ℕ) :
    highMin spec clockHz presc ≤ highPeriods spec clockHz presc := by
  rw [highPeriods]
  split <;> split <;> omega

theorem total_le (spec : TimingSpec) (clockHz presc : ℕ) :
    totalPeriods spec clockHz presc ≤
      lowPeriods spec clockHz presc + highPeriods spec clockHz presc := by
  rw [highPeriods]
  split <;> split <;> omega

theorem counted_le_total (spec : TimingSpec) (clockHz presc : ℕ) :
    countedTicks spec clockHz ≤ (presc + 1) * totalPeriods spec clockHz presc := by
  have hle : divCeil (countedTicks spec clockHz) (presc + 1) ≤
      totalPeriods spec clockHz presc := by
    rw [totalPeriods]
    split <;> omega
  exact (divCeil_le_iff (Nat.succ_pos presc)).mp hle

/-- The counters and the shortest synchronisation make up the period. -/
theorem period_le (spec : TimingSpec) (clockHz presc : ℕ) :
    divCeil clockHz spec.freqHz ≤
      (presc + 1) * (lowPeriods spec clockHz presc + highPeriods spec clockHz presc) +
        syncTicks clockHz := by
  have hcounted := counted_le_total spec clockHz presc
  have htotal := Nat.mul_le_mul_left (presc + 1) (total_le spec clockHz presc)
  rw [countedTicks] at hcounted
  split at hcounted <;> omega

theorem solve_eq_some {clockHz : BitVec 32} {speed : Speed} {s : Solution}
    (h : solve clockHz speed = some s) :
    clockHz ≠ 0 ∧ clockTooSlow speed.spec clockHz.toNat = false ∧
      ∃ presc < 16, tryPresc speed.spec clockHz.toNat presc = some s ∧
        ∀ p < presc, tryPresc speed.spec clockHz.toNat p = none := by
  unfold solve at h
  split at h
  · cases h
  · rename_i hzero
    split at h
    · cases h
    · rename_i hslow
      exact ⟨hzero, Bool.eq_false_of_not_eq_true hslow,
        BestScan.findSome?_range_eq_some_iff.mp h⟩

theorem tryPresc_eq_some {spec : TimingSpec} {clockHz presc : ℕ} {s : Solution}
    (h : tryPresc spec clockHz presc = some s) :
    s = ⟨presc, setupPeriods spec clockHz presc, highPeriods spec clockHz presc,
        lowPeriods spec clockHz presc⟩ ∧
      setupPeriods spec clockHz presc ≤ 16 ∧ lowPeriods spec clockHz presc ≤ 256 ∧
      highPeriods spec clockHz presc ≤ 256 := by
  unfold tryPresc at h
  split at h
  · cases h
  · split at h
    · cases h
    · rename_i hsetup hfields
      rw [Option.some_inj] at h
      exact ⟨h.symm, by omega, by omega, by omega⟩

/-- The clock is fast enough for the speed exactly when its period is, rounding aside. -/
theorem clockTooSlow_eq_false_iff {spec : TimingSpec} {clockHz : ℕ} (h : 0 < clockHz) :
    clockTooSlow spec clockHz = false ↔
      1000000000000 < (spec.tLowMin - afMaxNs) * 250 * clockHz ∧
        1000000000000 < spec.tHighMin * 1000 * clockHz := by
  rw [clockTooSlow, Bool.or_eq_false_iff, decide_eq_false_iff_not, decide_eq_false_iff_not,
    ← Nat.div_lt_iff_lt_mul h, ← Nat.div_lt_iff_lt_mul h]
  omega

theorem fits_of_solve {clockHz : BitVec 32} {speed : Speed} {s : Solution}
    (h : solve clockHz speed = some s) : s.Fits := by
  obtain ⟨hzero, -, presc, hpresc, htry, -⟩ := solve_eq_some h
  obtain ⟨rfl, hsetup, hlow, hhigh⟩ := tryPresc_eq_some htry
  have hpos : 0 < clockHz.toNat := Nat.pos_of_ne_zero fun h => hzero (BitVec.eq_of_toNat_eq h)
  have hperiods (ns : ℕ) (hns : 0 < ns) :
      1 ≤ divCeil (nsToTicks ns clockHz.toNat) (presc + 1) := by
    have hle := ns_le_periods ns clockHz.toNat presc
    have hprod : 0 < ns * clockHz.toNat := Nat.mul_pos hns hpos
    by_contra hlt
    rw [Nat.lt_one_iff.mp (Nat.not_le.mp hlt)] at hle
    omega
  exact
    { presc := hpresc
      scldel_pos := hperiods _ (by cases speed <;> decide)
      scldel := hsetup
      high_pos := (hperiods _ (by cases speed <;> decide)).trans (highMin_le_high _ _ _)
      high := hhigh
      low_pos := (hperiods _ (by cases speed <;> decide)).trans (lowMin_le_low _ _ _)
      low := hlow }

/-- What the loop finds is never the error value: the low part has two periods at least. -/
theorem encode_ne_zero {clockHz : BitVec 32} {speed : Speed} {s : Solution}
    (h : solve clockHz speed = some s) : encode s ≠ 0 := by
  intro hzeroed
  have hencode : encode s = 0#32 := hzeroed
  have hread (f : Field 32) : f.read 0#32 = 0#32 := by
    rw [Field.read, BitVec.zero_and, BitVec.zero_ushiftRight]
  obtain ⟨hpresc', -, -, hlow'⟩ := read_encode (fits_of_solve h)
  obtain ⟨hzero, hslow, presc, -, htry, -⟩ := solve_eq_some h
  obtain ⟨rfl, -⟩ := tryPresc_eq_some htry
  have hpos : 0 < clockHz.toNat := Nat.pos_of_ne_zero fun h => hzero (BitVec.eq_of_toNat_eq h)
  rw [hencode, hread, BitVec.toNat_zero] at hpresc' hlow'
  dsimp only at hpresc' hlow'
  have hle := ns_le_periods speed.spec.tLowMin clockHz.toNat presc
  have hmin := lowMin_le_low speed.spec clockHz.toNat presc
  rw [lowMin] at hmin
  have hone : (presc + 1) * divCeil (nsToTicks speed.spec.tLowMin clockHz.toNat) (presc + 1) ≤
      1 * 1 := Nat.mul_le_mul (by omega) (by omega)
  have hfast := ((clockTooSlow_eq_false_iff hpos).mp hslow).1
  have hsub : (speed.spec.tLowMin - afMaxNs) * 250 * clockHz.toNat ≤
      250 * (speed.spec.tLowMin * clockHz.toNat) := by
    rw [Nat.mul_right_comm, Nat.mul_comm]
    exact Nat.mul_le_mul_left _ (Nat.mul_le_mul_right _ (Nat.sub_le _ _))
  omega

theorem timingCalc_eq_encode {clockHz : BitVec 32} {speed : Speed} {s : Solution}
    (h : solve clockHz speed = some s) : timingCalc clockHz speed = encode s := by
  rw [timingCalc, h]

theorem timingCalc_ne_zero_iff (clockHz : BitVec 32) (speed : Speed) :
    timingCalc clockHz speed ≠ 0 ↔ ∃ s, solve clockHz speed = some s := by
  cases h : solve clockHz speed with
  | none => simp [timingCalc, h]
  | some s =>
    rw [timingCalc_eq_encode h]
    exact iff_of_true (encode_ne_zero h) ⟨s, rfl⟩

def tickNs (clockHz : BitVec 32) : ℚ := 1000000000 / clockHz.toNat

def periodsNs (clockHz timing : BitVec 32) (periods : ℕ) : ℚ :=
  periods * ((prescField.read timing).toNat + 1) * tickNs clockHz

def lowNs (clockHz timing : BitVec 32) : ℚ :=
  periodsNs clockHz timing ((scllField.read timing).toNat + 1)

def highNs (clockHz timing : BitVec 32) : ℚ :=
  periodsNs clockHz timing ((sclhField.read timing).toNat + 1)

def setupNs (clockHz timing : BitVec 32) : ℚ :=
  periodsNs clockHz timing ((scldelField.read timing).toNat + 1)

/-- The shortest period of the bus: each of its two edges is synchronised, which takes the filter
and two clock periods at least. -/
def busPeriodNs (clockHz timing : BitVec 32) : ℚ :=
  lowNs clockHz timing + highNs clockHz timing + 2 * (afMinNs + 2 * tickNs clockHz)

/-- The register value holds nothing but its fields, and the bus keeps the limits of its speed. -/
structure MeetsSpec (clockHz : BitVec 32) (spec : TimingSpec) (timing : BitVec 32) : Prop where
  fields : timing = pack (prescField.read timing) (scldelField.read timing)
    (sclhField.read timing) (scllField.read timing)
  presc : (prescField.read timing).toNat < 2 ^ prescField.width
  scldel : (scldelField.read timing).toNat < 2 ^ scldelField.width
  sclh : (sclhField.read timing).toNat < 2 ^ sclhField.width
  scll : (scllField.read timing).toNat < 2 ^ scllField.width
  low : (spec.tLowMin : ℚ) ≤ lowNs clockHz timing
  high : (spec.tHighMin : ℚ) ≤ highNs clockHz timing
  setup : (spec.tRiseMax : ℚ) + spec.tSuDatMin ≤ setupNs clockHz timing
  sdadel : sdadelField.read timing = 0
  period : (1000000000 : ℚ) / spec.freqHz ≤ busPeriodNs clockHz timing

theorem ns_le_of_ticks {ns ticks : ℕ} {clockHz : BitVec 32} (hpos : 0 < clockHz.toNat)
    (h : ns * clockHz.toNat ≤ 1000000000 * ticks) : (ns : ℚ) ≤ ticks * tickNs clockHz := by
  have hclk : (0 : ℚ) < clockHz.toNat := Nat.cast_pos.mpr hpos
  have hcast : (ns : ℚ) * clockHz.toNat ≤ 1000000000 * ticks := by exact_mod_cast h
  rw [tickNs, mul_div_assoc', le_div_iff₀ hclk]
  linarith

/-- The counted periods of a solution, as the register value gives them. -/
theorem periodsNs_eq {clockHz : BitVec 32} {s : Solution} (h : s.Fits) (periods : ℕ) :
    periodsNs clockHz (encode s) periods =
      ((s.presc + 1) * periods : ℕ) * tickNs clockHz := by
  rw [periodsNs, (read_encode h).1, Nat.cast_mul, Nat.cast_succ, mul_comm (periods : ℚ)]

/-- The synchronisation lasts as long as is counted for it, at least. -/
theorem syncTicks_le {clockHz : BitVec 32} (hpos : 0 < clockHz.toNat) :
    (syncTicks clockHz.toNat : ℚ) * tickNs clockHz ≤ 2 * (afMinNs + 2 * tickNs clockHz) := by
  have hclk : (0 : ℚ) < clockHz.toNat := Nat.cast_pos.mpr hpos
  have hfloor : afMinNs * clockHz.toNat / 1000000000 * 1000000000 ≤ afMinNs * clockHz.toNat :=
    Nat.div_mul_le_self _ _
  have hcast : ((afMinNs * clockHz.toNat / 1000000000 : ℕ) : ℚ) * 1000000000 ≤
      afMinNs * clockHz.toNat := by exact_mod_cast hfloor
  have hfilter : ((afMinNs * clockHz.toNat / 1000000000 : ℕ) : ℚ) * tickNs clockHz ≤ afMinNs := by
    rw [tickNs, mul_div_assoc', div_le_iff₀ hclk]
    exact hcast
  rw [syncTicks]
  push_cast
  linarith

/-- The counters and the synchronisation of a solution make up the period of the speed. -/
theorem busPeriod_ge {clockHz : BitVec 32} {spec : TimingSpec} {ticks : ℕ}
    (hpos : 0 < clockHz.toNat) (hfreq : 0 < spec.freqHz)
    (h : divCeil clockHz.toNat spec.freqHz ≤ ticks + syncTicks clockHz.toNat) :
    (1000000000 : ℚ) / spec.freqHz ≤
      ticks * tickNs clockHz + 2 * (afMinNs + 2 * tickNs clockHz) := by
  have hclk : (0 : ℚ) < clockHz.toNat := Nat.cast_pos.mpr hpos
  have hf : (0 : ℚ) < spec.freqHz := Nat.cast_pos.mpr hfreq
  have hcast : (clockHz.toNat : ℚ) ≤ spec.freqHz * (ticks + syncTicks clockHz.toNat) := by
    exact_mod_cast (divCeil_le_iff hfreq).mp h
  calc (1000000000 : ℚ) / spec.freqHz
      ≤ (ticks + syncTicks clockHz.toNat) * tickNs clockHz := by
        rw [tickNs, mul_div_assoc', div_le_div_iff₀ hf hclk]
        linarith
    _ = ticks * tickNs clockHz + syncTicks clockHz.toNat * tickNs clockHz := add_mul _ _ _
    _ ≤ ticks * tickNs clockHz + 2 * (afMinNs + 2 * tickNs clockHz) := by
        have hsync := syncTicks_le hpos
        linarith

theorem meetsSpec_of_solve {clockHz : BitVec 32} {speed : Speed} {s : Solution}
    (h : solve clockHz speed = some s) : MeetsSpec clockHz speed.spec (encode s) := by
  have hfits := fits_of_solve h
  obtain ⟨hpresc', hscldel', hsdadel', hhigh', hlow'⟩ := read_encode_fields hfits
  obtain ⟨hpresc, hscldel, hhigh, hlow⟩ := read_encode hfits
  obtain ⟨hzero, -, presc, -, htry, -⟩ := solve_eq_some h
  have hpos : 0 < clockHz.toNat := Nat.pos_of_ne_zero fun h => hzero (BitVec.eq_of_toNat_eq h)
  obtain ⟨heq, -⟩ := tryPresc_eq_some htry
  have hmin (ns periods : ℕ)
      (hle : divCeil (nsToTicks ns clockHz.toNat) (s.presc + 1) ≤ periods) :
      (ns : ℚ) ≤ periodsNs clockHz (encode s) periods := by
    rw [periodsNs_eq hfits]
    exact ns_le_of_ticks hpos (periods_le_iff.mp hle)
  constructor
  · rw [hpresc', hscldel', hhigh', hlow', encode_eq_pack]
  · rw [hpresc]
    exact hfits.presc
  · have hle := hfits.scldel
    change _ < 16
    omega
  · have hle := hfits.high
    change _ < 256
    omega
  · have hle := hfits.low
    change _ < 256
    omega
  · rw [lowNs, hlow]
    refine hmin _ _ ?_
    rw [heq]
    exact lowMin_le_low _ _ _
  · rw [highNs, hhigh]
    refine hmin _ _ ?_
    rw [heq]
    exact highMin_le_high _ _ _
  · rw [setupNs, hscldel, ← Nat.cast_add]
    refine hmin _ _ ?_
    rw [heq]
    exact le_refl _
  · exact hsdadel'
  · have hperiod := period_le speed.spec clockHz.toNat presc
    rw [busPeriodNs, lowNs, highNs, hlow, hhigh, periodsNs_eq hfits, periodsNs_eq hfits, ← add_mul,
      ← Nat.cast_add, ← Nat.mul_add]
    refine busPeriod_ge hpos (by cases speed <;> decide) ?_
    rw [heq]
    exact hperiod

/-- A timing that is returned keeps the limits of its speed at every clock, and no timing that the
loop finds is lost because its register value is the error value. -/
theorem i2c_timing_in_spec (clockHz : BitVec 32) (speed : Speed) :
    (timingCalc clockHz speed ≠ 0 →
        MeetsSpec clockHz speed.spec (timingCalc clockHz speed)) ∧
      ∀ s, solve clockHz speed = some s →
        encode s ≠ 0 ∧ timingCalc clockHz speed = encode s := by
  constructor
  · intro hne
    obtain ⟨s, hs⟩ := (timingCalc_ne_zero_iff clockHz speed).mp hne
    rw [timingCalc_eq_encode hs]
    exact meetsSpec_of_solve hs
  · exact fun s hs => ⟨encode_ne_zero hs, timingCalc_eq_encode hs⟩

end UniHal.I2c
