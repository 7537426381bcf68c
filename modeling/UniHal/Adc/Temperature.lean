import UniHal.Foundations.CheckedInt
import UniHal.Foundations.RoundedDivision

/-! # The temperature sensor of the MCU

Both ADC drivers bring the reading of the sensor to the supply voltage of the factory calibration
and interpolate between the two calibration points, in `int32_t`. The products of the
interpolation fit as long as the reading is not too far from the first point; how far is
determined exactly, for every sample, resolution, voltage and calibration.
-/

namespace UniHal.Adc
open Foundations CheckedInt RoundedDivision

/-- What the factory stored in the system memory, and what the device says about it. -/
structure Factory where
  /-- `TEMPSENSOR_CAL1_ADDR` -/
  tempsensorCal1 : UInt16
  /-- `TEMPSENSOR_CAL2_ADDR` -/
  tempsensorCal2 : UInt16
  /-- `VREFINT_CAL_ADDR` -/
  vrefintCal : UInt16
  /-- the second point was taken at 110 °C, and not at 130 °C -/
  colderPoint : Bool

def tempsensorCal1Temp : ℤ := 30

def Factory.tempsensorCal2Temp (f : Factory) : ℤ := if f.colderPoint then 110 else 130

def int32Max : ℤ := 2 ^ 31 - 1

/-- The interpolation of both drivers, in `int32_t`. -/
def interpolateInt32 (reading cal1 cal2 temp1 temp2 : ℤ) : Option ℤ := do
  let tempDiff ← subInt32 temp2 temp1
  let calDiff ← subInt32 cal2 cal1
  let above ← subInt32 reading cal1
  let scaled ← mulInt32 above tempDiff
  let numerator ← mulInt32 scaled 1000
  let slope ← divInt32 numerator calDiff
  let base ← mulInt32 temp1 1000
  addInt32 slope base

namespace Factory
variable (f : Factory)

/-- The temperature in 1/1000 °C that belongs to a reading at the supply voltage of the
calibration. -/
def interpolate (reading : ℤ) : ℤ :=
  truncate ((reading - f.tempsensorCal1.toNat) * (f.tempsensorCal2Temp - tempsensorCal1Temp) *
    1000 / (f.tempsensorCal2.toNat - f.tempsensorCal1.toNat)) + tempsensorCal1Temp * 1000

def reach : ℕ := if f.colderPoint then 26843 else 21474

theorem reach_le : f.reach ≤ 26843 := by
  rw [reach]
  split <;> decide

/-- The reading is close enough to the first calibration point. -/
def Near (reading : ℕ) : Prop := ((reading : ℤ) - f.tempsensorCal1.toNat).natAbs ≤ f.reach

instance (reading : ℕ) : Decidable (f.Near reading) := inferInstanceAs (Decidable (_ ≤ _))

end Factory

/-- Of the steps before the division only the two products can leave the type. -/
theorem interpolateInt32_eq {reading cal1 cal2 temp1 temp2 : ℤ} (habove : InRange (reading - cal1))
    (hcal : InRange (cal2 - cal1)) (hne : cal2 - cal1 ≠ 0) (htemp : InRange (temp2 - temp1))
    (hbase : InRange (temp1 * 1000)) :
    interpolateInt32 reading cal1 cal2 temp1 temp2 =
      if InRange ((reading - cal1) * (temp2 - temp1)) then
        if InRange ((reading - cal1) * (temp2 - temp1) * 1000) then
          toInt32 (((reading - cal1) * (temp2 - temp1) * 1000).tdiv (cal2 - cal1)) >>=
            fun slope => addInt32 slope (temp1 * 1000)
        else none
      else none := by
  simp only [interpolateInt32, subInt32, mulInt32, toInt32_bind, if_pos habove, if_pos hcal,
    if_pos htemp, if_pos hbase, divInt32_of_ne_zero hne]

theorem abs_tdiv_le (a b : ℤ) : -(a.natAbs : ℤ) ≤ a.tdiv b ∧ a.tdiv b ≤ a.natAbs := by
  have hle := Int.natAbs_tdiv_le_natAbs a b
  omega

/-- The reach is where the last product leaves the type, and then nothing else does. -/
theorem Factory.near_iff (f : Factory) (reading : ℕ) :
    f.Near reading ↔ InRange (((reading : ℤ) - f.tempsensorCal1.toNat) *
      (f.tempsensorCal2Temp - tempsensorCal1Temp) * 1000) := by
  rw [Near, reach, tempsensorCal2Temp, tempsensorCal1Temp, InRange]
  cases f.colderPoint <;> simp <;> omega

theorem Factory.fits_of_near {f : Factory} {reading : ℕ} (h : f.Near reading) (b : ℤ) :
    InRange (((reading : ℤ) - f.tempsensorCal1.toNat) *
        (f.tempsensorCal2Temp - tempsensorCal1Temp)) ∧
      InRange ((((reading : ℤ) - f.tempsensorCal1.toNat) *
        (f.tempsensorCal2Temp - tempsensorCal1Temp) * 1000).tdiv b) ∧
      InRange ((((reading : ℤ) - f.tempsensorCal1.toNat) *
        (f.tempsensorCal2Temp - tempsensorCal1Temp) * 1000).tdiv b +
          tempsensorCal1Temp * 1000) := by
  have hslope := abs_tdiv_le (((reading : ℤ) - f.tempsensorCal1.toNat) *
    (f.tempsensorCal2Temp - tempsensorCal1Temp) * 1000) b
  generalize (((reading : ℤ) - f.tempsensorCal1.toNat) *
    (f.tempsensorCal2Temp - tempsensorCal1Temp) * 1000).tdiv b = slope at hslope ⊢
  rw [Near, reach] at h
  rw [tempsensorCal2Temp, tempsensorCal1Temp] at hslope ⊢
  simp only [InRange]
  cases hpoint : f.colderPoint <;>
    simp only [hpoint, if_true, if_false, Bool.false_eq_true] at h hslope ⊢ <;> omega

/-- Close to the first calibration point every step of the interpolation fits, and elsewhere the
last product does not. -/
theorem interpolateInt32_eq_some_iff {f : Factory} (hcal : f.tempsensorCal1 ≠ f.tempsensorCal2)
    {reading : ℕ} (hreading : reading < 2 ^ 31) :
    interpolateInt32 reading f.tempsensorCal1.toNat f.tempsensorCal2.toNat tempsensorCal1Temp
        f.tempsensorCal2Temp = some (f.interpolate reading) ↔ f.Near reading := by
  have hcal1 := f.tempsensorCal1.toNat_lt
  have hcal2 := f.tempsensorCal2.toNat_lt
  have hne : (f.tempsensorCal2.toNat : ℤ) - f.tempsensorCal1.toNat ≠ 0 := by
    intro hzero
    exact hcal (UInt16.toNat_inj.mp (by omega))
  have htemp : InRange (f.tempsensorCal2Temp - tempsensorCal1Temp) := by
    rw [Factory.tempsensorCal2Temp]
    split <;> decide
  rw [interpolateInt32_eq ⟨by omega, by omega⟩ ⟨by omega, by omega⟩ hne htemp (by decide)]
  constructor
  · intro h
    rw [Factory.near_iff]
    by_contra hnot
    rw [if_neg hnot, ite_self] at h
    exact absurd h.symm (Option.some_ne_none _)
  · intro h
    obtain ⟨hscaled, hslope, hsum⟩ := Factory.fits_of_near h
      (f.tempsensorCal2.toNat - f.tempsensorCal1.toNat)
    rw [if_pos hscaled, if_pos ((Factory.near_iff f reading).mp h), toInt32_bind, if_pos hslope,
      addInt32, toInt32_of_inRange hsum, Factory.interpolate, tdiv_eq_truncate]
    push_cast
    rfl

theorem widen_lt {data bits full : ℕ} (hdata : data < 2 ^ bits) (hbits : bits ≤ full) :
    data * 2 ^ (full - bits) < 2 ^ full :=
  calc data * 2 ^ (full - bits) < 2 ^ bits * 2 ^ (full - bits) :=
        Nat.mul_lt_mul_of_pos_right hdata (Nat.two_pow_pos _)
    _ = 2 ^ full := by rw [← Nat.pow_add, Nat.add_sub_cancel' hbits]

/-- The conversion to the full resolution appends zeros. -/
theorem toNat_widen {data k : UInt32} {bits full : ℕ} (hdata : data.toNat < 2 ^ bits)
    (hk : bits + k.toNat = full) (hfull : full ≤ 16) :
    (data <<< k >>> (0 : UInt32)).toNat = data.toNat * 2 ^ (full - bits) := by
  have hlt := widen_lt hdata (Nat.le.intro hk)
  have hpow : 2 ^ full ≤ 2 ^ 16 := Nat.pow_le_pow_right Nat.two_pos hfull
  have hshift : full - bits = k.toNat := by omega
  rw [hshift] at hlt ⊢
  rw [UInt32.toNat_shiftRight, UInt32.toNat_shiftLeft, UInt32.toNat_zero, Nat.zero_mod,
    Nat.shiftRight_zero, Nat.shiftLeft_eq, Nat.mod_eq_of_lt (by omega : k.toNat < 32)]
  exact Nat.mod_eq_of_lt (by omega)

namespace Stm32h7

inductive Resolution
  | bits8 | bits10 | bits12 | bits14 | bits16
  deriving DecidableEq, Repr

namespace Resolution

/-- `LL_ADC_RESOLUTION_xx` -/
def ll : Resolution → UInt32
  | bits8 => 0x10
  | bits10 => 0xC
  | bits12 => 0x8
  | bits14 => 0x4
  | bits16 => 0

def bits : Resolution → ℕ
  | bits8 => 8
  | bits10 => 10
  | bits12 => 12
  | bits14 => 14
  | bits16 => 16

theorem bits_le (r : Resolution) : r.bits ≤ 16 := by cases r <;> decide

end Resolution

def convertDataResolution (data current target : UInt32) : UInt32 :=
  if current = Resolution.bits8.ll then
    (data <<< ((current &&& ~~~0xC) >>> 1)) >>> (target >>> 1)
  else if target = Resolution.bits8.ll then
    (data <<< (current >>> 1)) >>> ((target &&& ~~~0xC) >>> 1)
  else (data <<< (current >>> 1)) >>> (target >>> 1)

/-- `state.cal` of `uni_hal_adc_context_t` -/
structure Calibration where
  valid : Bool
  tempsensor1Val : ℤ
  tempsensor1Temp : ℤ
  tempsensor2Val : ℤ
  tempsensor2Temp : ℤ
  tempsensorVrefAnalog : ℤ
  vrefInt : UInt16

/-- `_uni_hal_adc_stm32h7_cache_cal` for an ADC3 with an internal channel. -/
def cacheCal (f : Factory) : Calibration where
  valid := true
  tempsensor1Val := f.tempsensorCal1.toNat
  tempsensor1Temp := tempsensorCal1Temp
  tempsensor2Val := f.tempsensorCal2.toNat
  tempsensor2Temp := f.tempsensorCal2Temp
  tempsensorVrefAnalog := 3300
  vrefInt := f.vrefintCal

def calcTemperature (cal : Option Calibration) (vrefAnalogVoltage tempsensorAdcData
    adcResolution : UInt32) : Option ℤ :=
  match cal with
  | none => some int32Max
  | some cal =>
    if ¬ cal.valid then some int32Max
    else do
      let converted ← toInt32
        (convertDataResolution tempsensorAdcData adcResolution Resolution.bits16.ll).toNat
      let calDiff ← subInt32 cal.tempsensor2Val cal.tempsensor1Val
      if calDiff ≠ 0 then
        let voltage ← toInt32 vrefAnalogVoltage.toNat
        let product ← mulInt32 converted voltage
        let adcCalibrated ← divInt32 product cal.tempsensorVrefAnalog
        interpolateInt32 adcCalibrated cal.tempsensor1Val cal.tempsensor2Val
          cal.tempsensor1Temp cal.tempsensor2Temp
      else some int32Max

/-- `uni_hal_adc_context_t` with the samples of its channels. -/
structure Context where
  /-- `UNI_HAL_CORE_PERIPH_ADC_3` -/
  isAdc3 : Bool
  /-- what a channel that is converted reads -/
  channel : UInt32 → Option UInt16
  vRef : UInt32
  resolution : Resolution
  cal : Calibration

def getMcutemp (ctx : Context) : Option ℤ :=
  match ctx.channel 21 with
  | none => some int32Max
  | some raw =>
    if ctx.isAdc3 then calcTemperature (some ctx.cal) ctx.vRef raw.toUInt32 ctx.resolution.ll
    else some int32Max

def getVdda (ctx : Context) : Option UInt32 :=
  match ctx.channel 20 with
  | none => some 0xFFFFFFFF
  | some raw =>
    if ctx.isAdc3 && ctx.cal.valid then
      let vrefintRaw :=
        convertDataResolution raw.toUInt32 ctx.resolution.ll Resolution.bits16.ll
      if vrefintRaw ≠ 0 then divUInt32 (3300 * ctx.cal.vrefInt.toUInt32) vrefintRaw
      else some 0xFFFFFFFF
    else some 0xFFFFFFFF

theorem toNat_convertDataResolution {data : UInt32} {r : Resolution}
    (hdata : data.toNat < 2 ^ r.bits) :
    (convertDataResolution data r.ll Resolution.bits16.ll).toNat =
      data.toNat * 2 ^ (16 - r.bits) := by
  cases r with
  | bits8 => exact toNat_widen (k := 8) hdata rfl (by decide)
  | bits10 => exact toNat_widen (k := 6) hdata rfl (by decide)
  | bits12 => exact toNat_widen (k := 4) hdata rfl (by decide)
  | bits14 => exact toNat_widen (k := 2) hdata rfl (by decide)
  | bits16 => exact toNat_widen (k := 0) hdata rfl (by decide)

/-- The reading of the sensor with 16 bits, at the supply voltage of the calibration. -/
def readingAtCal (vref data : UInt32) (r : Resolution) : ℕ :=
  data.toNat * 2 ^ (16 - r.bits) * vref.toNat / 3300

theorem calcTemperature_eq {f : Factory} (hcal : f.tempsensorCal1 ≠ f.tempsensorCal2)
    {vref data : UInt32} {r : Resolution} (hdata : data.toNat < 2 ^ r.bits)
    (hvref : vref.toNat < 2 ^ 31) :
    calcTemperature (some (cacheCal f)) vref data r.ll =
      if InRange (data.toNat * 2 ^ (16 - r.bits) * vref.toNat : ℕ) then
        interpolateInt32 (readingAtCal vref data r) f.tempsensorCal1.toNat
          f.tempsensorCal2.toNat tempsensorCal1Temp f.tempsensorCal2Temp
      else none := by
  have hcal1 := f.tempsensorCal1.toNat_lt
  have hcal2 := f.tempsensorCal2.toNat_lt
  have hne : (f.tempsensorCal2.toNat : ℤ) - f.tempsensorCal1.toNat ≠ 0 := by
    intro hzero
    exact hcal (UInt16.toNat_inj.mp (by omega))
  have hdiff : InRange ((f.tempsensorCal2.toNat : ℤ) - f.tempsensorCal1.toNat) :=
    ⟨by omega, by omega⟩
  have hvoltage : InRange vref.toNat := ⟨by omega, by omega⟩
  have hconverted : InRange (data.toNat * 2 ^ (16 - r.bits) : ℕ) := by
    have hlt := widen_lt hdata r.bits_le
    constructor <;> omega
  rw [calcTemperature, toNat_convertDataResolution hdata]
  simp only [cacheCal, not_true_eq_false, if_false, subInt32, mulInt32, toInt32_bind,
    if_pos hconverted, if_pos hdiff, if_pos hvoltage, if_pos hne]
  rw [← Nat.cast_mul]
  by_cases hproduct : InRange (data.toNat * 2 ^ (16 - r.bits) * vref.toNat : ℕ)
  · -- the quotient is smaller than the product, so it fits as well
    have hquotient : ((data.toNat * 2 ^ (16 - r.bits) * vref.toNat : ℕ) : ℤ).tdiv 3300 =
        readingAtCal vref data r := by
      rw [Int.natCast_tdiv_eq_ediv, readingAtCal, Int.natCast_ediv]
      rfl
    have hreading : InRange (readingAtCal vref data r) := by
      have hle : readingAtCal vref data r ≤ data.toNat * 2 ^ (16 - r.bits) * vref.toNat :=
        Nat.div_le_self _ _
      have hlt := hproduct.2
      constructor <;> omega
    rw [if_pos hproduct, if_pos hproduct, divInt32_of_ne_zero (by decide), hquotient,
      toInt32_of_inRange hreading]
    rfl
  · rw [if_neg hproduct, if_neg hproduct]

/-- A reading near the first calibration point comes from a product that fits. -/
theorem product_inRange_of_near {f : Factory} {vref data : UInt32} {r : Resolution}
    (h : f.Near (readingAtCal vref data r)) :
    InRange (data.toNat * 2 ^ (16 - r.bits) * vref.toNat : ℕ) := by
  have hcal1 := f.tempsensorCal1.toNat_lt
  have hreach := f.reach_le
  rw [Factory.Near, readingAtCal] at h
  generalize data.toNat * 2 ^ (16 - r.bits) * vref.toNat = product at h ⊢
  constructor <;> omega

/-- What the driver computes is the interpolation exactly where the reading is near the first
calibration point. -/
theorem calcTemperature_iff {f : Factory} (hcal : f.tempsensorCal1 ≠ f.tempsensorCal2)
    {vref data : UInt32} {r : Resolution} (hdata : data.toNat < 2 ^ r.bits)
    (hvref : vref.toNat < 2 ^ 31) :
    calcTemperature (some (cacheCal f)) vref data r.ll =
        some (f.interpolate (readingAtCal vref data r)) ↔
      f.Near (readingAtCal vref data r) := by
  rw [calcTemperature_eq hcal hdata hvref]
  by_cases hproduct : InRange (data.toNat * 2 ^ (16 - r.bits) * vref.toNat : ℕ)
  · rw [if_pos hproduct]
    refine interpolateInt32_eq_some_iff hcal ?_
    have hle : readingAtCal vref data r ≤ data.toNat * 2 ^ (16 - r.bits) * vref.toNat :=
      Nat.div_le_self _ _
    have hlt := hproduct.2
    omega
  · rw [if_neg hproduct]
    exact iff_of_false (Option.some_ne_none _).symm fun h => hproduct (product_inRange_of_near h)

/-- The supply voltage measured with any reading of the reference other than 0. -/
theorem getVdda_eq {f : Factory} {ctx : Context} (hadc : ctx.isAdc3 = true)
    (hcal : ctx.cal = cacheCal f) {raw : UInt16} (hraw : ctx.channel 20 = some raw)
    (hfits : raw.toNat < 2 ^ ctx.resolution.bits) (hne : raw ≠ 0) :
    3300 * f.vrefintCal.toNat < 2 ^ 32 ∧ (getVdda ctx).map UInt32.toNat =
      some (3300 * f.vrefintCal.toNat / (raw.toNat * 2 ^ (16 - ctx.resolution.bits))) := by
  have hlt := f.vrefintCal.toNat_lt
  have hproduct : 3300 * f.vrefintCal.toNat < 2 ^ 32 := by omega
  have hconverted : (convertDataResolution raw.toUInt32 ctx.resolution.ll
      Resolution.bits16.ll).toNat = raw.toNat * 2 ^ (16 - ctx.resolution.bits) :=
    toNat_convertDataResolution hfits
  have hpos : 0 < raw.toNat * 2 ^ (16 - ctx.resolution.bits) :=
    Nat.mul_pos (Nat.pos_of_ne_zero fun h => hne (UInt16.toNat_inj.mp h)) (Nat.two_pow_pos _)
  have hnonzero :
      convertDataResolution raw.toUInt32 ctx.resolution.ll Resolution.bits16.ll ≠ 0 := by
    intro hzero
    rw [hzero] at hconverted
    exact hpos.ne hconverted
  rw [getVdda, hraw]
  dsimp only
  have hready : (true && (cacheCal f).valid) = true := rfl
  rw [hadc, hcal, if_pos hready, if_pos hnonzero, divUInt32, if_neg hnonzero, Option.map_some,
    UInt32.toNat_div, hconverted, UInt32.toNat_mul]
  exact ⟨hproduct, congrArg (fun n => some (n / _)) (Nat.mod_eq_of_lt hproduct)⟩

/-- An ADC3 with a sample of the temperature sensor that its resolution allows. -/
structure Sampled (f : Factory) (ctx : Context) (data : UInt16) : Prop where
  adc3 : ctx.isAdc3 = true
  cal : ctx.cal = cacheCal f
  sample : ctx.channel 21 = some data
  fits : data.toNat < 2 ^ ctx.resolution.bits
  vRef : ctx.vRef.toNat < 2 ^ 31

theorem getMcutemp_iff {f : Factory} (hcal : f.tempsensorCal1 ≠ f.tempsensorCal2) {ctx : Context}
    {data : UInt16} (h : Sampled f ctx data) :
    getMcutemp ctx =
        some (f.interpolate (readingAtCal ctx.vRef data.toUInt32 ctx.resolution)) ↔
      f.Near (readingAtCal ctx.vRef data.toUInt32 ctx.resolution) := by
  have hfits : data.toUInt32.toNat < 2 ^ ctx.resolution.bits := h.fits
  rw [← calcTemperature_iff hcal hfits h.vRef, getMcutemp, h.sample, h.cal]
  dsimp only
  rw [if_pos h.adc3]

end Stm32h7

namespace Stm32l4

inductive Resolution
  | bits6 | bits8 | bits10 | bits12
  deriving DecidableEq, Repr

namespace Resolution

/-- `LL_ADC_RESOLUTION_xx` -/
def ll : Resolution → UInt32
  | bits6 => 0x18
  | bits8 => 0x10
  | bits10 => 0x8
  | bits12 => 0

def bits : Resolution → ℕ
  | bits6 => 6
  | bits8 => 8
  | bits10 => 10
  | bits12 => 12

theorem bits_le (r : Resolution) : r.bits ≤ 12 := by cases r <;> decide

end Resolution

def convertDataResolution (data current target : UInt32) : UInt32 :=
  (data <<< (current >>> 2)) >>> (target >>> 2)

/-- `uni_hal_adc_context_t` with the samples of its channels. -/
structure Context where
  /-- what a channel that is converted reads -/
  channel : UInt32 → Option UInt16
  vRef : UInt32
  resolution : Resolution

def getVdda (f : Factory) (ctx : Context) : Option UInt32 :=
  match ctx.channel 19 with
  | none => some 0xFFFFFFFF
  | some raw =>
    if raw ≠ 0 then
      -- `__LL_ADC_CALC_VREFANALOG_VOLTAGE`
      divUInt32 (f.vrefintCal.toUInt32 * 3000)
        (convertDataResolution raw.toUInt32 ctx.resolution.ll Resolution.bits12.ll)
    else some 0xFFFFFFFF

def getMcutemp (f : Factory) (ctx : Context) : Option ℤ :=
  match ctx.channel 20 with
  | none => some int32Max
  | some data => do
    -- the supply voltage scales the reading: take the measured one when there is one
    let measured ← getVdda f ctx
    let vdda := if measured = 0xFFFFFFFF then ctx.vRef else measured
    let raw ← toInt32
      (convertDataResolution data.toUInt32 ctx.resolution.ll Resolution.bits12.ll).toNat
    if (f.tempsensorCal2.toNat : ℤ) ≠ f.tempsensorCal1.toNat then
      let voltage ← toInt32 vdda.toNat
      let product ← mulInt32 raw voltage
      let sum ← addInt32 product (3000 / 2)
      let rawCal ← divInt32 sum 3000
      interpolateInt32 rawCal f.tempsensorCal1.toNat f.tempsensorCal2.toNat tempsensorCal1Temp
        f.tempsensorCal2Temp
    else some int32Max

theorem toNat_convertDataResolution {data : UInt32} {r : Resolution}
    (hdata : data.toNat < 2 ^ r.bits) :
    (convertDataResolution data r.ll Resolution.bits12.ll).toNat =
      data.toNat * 2 ^ (12 - r.bits) := by
  cases r with
  | bits6 => exact toNat_widen (k := 6) hdata rfl (by decide)
  | bits8 => exact toNat_widen (k := 4) hdata rfl (by decide)
  | bits10 => exact toNat_widen (k := 2) hdata rfl (by decide)
  | bits12 => exact toNat_widen (k := 0) hdata rfl (by decide)

/-- The supply voltage in millivolts: measured where the reference reads something, and that of
the configuration elsewhere. -/
def supplyMv (f : Factory) (ctx : Context) : ℕ :=
  match ctx.channel 19 with
  | none => ctx.vRef.toNat
  | some raw =>
    if raw ≠ 0 then f.vrefintCal.toNat * 3000 / (raw.toNat * 2 ^ (12 - ctx.resolution.bits))
    else ctx.vRef.toNat

/-- The reading of the sensor with 12 bits, at the supply voltage of the calibration. -/
def readingAtCal (f : Factory) (ctx : Context) (data : UInt16) : ℕ :=
  roundDiv (data.toNat * 2 ^ (12 - ctx.resolution.bits) * supplyMv f ctx) 3000

section Supply
variable {f : Factory} {ctx : Context}

/-- The measurement of the supply voltage divides by a reading other than 0, or is left out. -/
theorem getVdda_spec (hfits : ∀ raw ∈ ctx.channel 19, raw.toNat < 2 ^ ctx.resolution.bits) :
    ∃ measured, getVdda f ctx = some measured ∧
      (if measured = 0xFFFFFFFF then ctx.vRef else measured).toNat = supplyMv f ctx := by
  rw [getVdda, supplyMv]
  cases hchannel : ctx.channel 19 with
  | none => exact ⟨0xFFFFFFFF, rfl, rfl⟩
  | some raw =>
    dsimp only
    by_cases hne : raw ≠ 0
    · have hlt := f.vrefintCal.toNat_lt
      have hconverted : (convertDataResolution raw.toUInt32 ctx.resolution.ll
          Resolution.bits12.ll).toNat = raw.toNat * 2 ^ (12 - ctx.resolution.bits) :=
        toNat_convertDataResolution (hfits raw hchannel)
      have hpos : 0 < raw.toNat * 2 ^ (12 - ctx.resolution.bits) :=
        Nat.mul_pos (Nat.pos_of_ne_zero fun h => hne (UInt16.toNat_inj.mp h))
          (Nat.two_pow_pos _)
      have hnonzero :
          convertDataResolution raw.toUInt32 ctx.resolution.ll Resolution.bits12.ll ≠ 0 := by
        intro hzero
        rw [hzero] at hconverted
        exact hpos.ne hconverted
      have hproduct : (f.vrefintCal.toUInt32 * 3000).toNat = f.vrefintCal.toNat * 3000 := by
        rw [UInt32.toNat_mul]
        exact Nat.mod_eq_of_lt (by change f.vrefintCal.toNat * 3000 < 2 ^ 32; omega)
      rw [if_pos hne, if_pos hne, divUInt32, if_neg hnonzero]
      refine ⟨_, rfl, ?_⟩
      have hvalue : (f.vrefintCal.toUInt32 * 3000 /
          convertDataResolution raw.toUInt32 ctx.resolution.ll Resolution.bits12.ll).toNat =
            f.vrefintCal.toNat * 3000 / (raw.toNat * 2 ^ (12 - ctx.resolution.bits)) := by
        rw [UInt32.toNat_div, hproduct, hconverted]
      rw [if_neg, hvalue]
      -- the quotient is too small to look like the value for no measurement
      intro hmax
      rw [hmax] at hvalue
      have hle := Nat.div_le_self (f.vrefintCal.toNat * 3000)
        (raw.toNat * 2 ^ (12 - ctx.resolution.bits))
      rw [← hvalue] at hle
      change 0xFFFFFFFF ≤ _ at hle
      omega
    · rw [if_neg hne, if_neg hne]
      exact ⟨0xFFFFFFFF, rfl, rfl⟩

theorem supplyMv_lt (hvref : ctx.vRef.toNat < 2 ^ 31) : supplyMv f ctx < 2 ^ 31 := by
  have hlt := f.vrefintCal.toNat_lt
  rw [supplyMv]
  split
  · exact hvref
  · split
    · exact lt_of_le_of_lt (Nat.div_le_self _ _) (by omega)
    · exact hvref

/-- A reading near the first calibration point comes from products that fit. -/
theorem product_of_near {data : UInt16} (h : f.Near (readingAtCal f ctx data)) :
    InRange (data.toNat * 2 ^ (12 - ctx.resolution.bits) * supplyMv f ctx : ℕ) ∧
      InRange ((data.toNat * 2 ^ (12 - ctx.resolution.bits) * supplyMv f ctx : ℕ) + 1500) := by
  have hcal1 := f.tempsensorCal1.toNat_lt
  have hreach := f.reach_le
  rw [Factory.Near, readingAtCal, roundDiv] at h
  generalize data.toNat * 2 ^ (12 - ctx.resolution.bits) * supplyMv f ctx = product at h ⊢
  refine ⟨⟨?_, ?_⟩, ?_, ?_⟩ <;> omega

theorem getMcutemp_eq {data : UInt16} (hcal : f.tempsensorCal1 ≠ f.tempsensorCal2)
    (hdata : ctx.channel 20 = some data) (hbits : data.toNat < 2 ^ ctx.resolution.bits)
    (hfits : ∀ raw ∈ ctx.channel 19, raw.toNat < 2 ^ ctx.resolution.bits)
    (hvref : ctx.vRef.toNat < 2 ^ 31) :
    getMcutemp f ctx =
      if InRange (data.toNat * 2 ^ (12 - ctx.resolution.bits) * supplyMv f ctx : ℕ) then
        if InRange ((data.toNat * 2 ^ (12 - ctx.resolution.bits) * supplyMv f ctx : ℕ) + 1500)
        then
          interpolateInt32 (readingAtCal f ctx data) f.tempsensorCal1.toNat
            f.tempsensorCal2.toNat tempsensorCal1Temp f.tempsensorCal2Temp
        else none
      else none := by
  obtain ⟨measured, hmeasured, hsupply⟩ := getVdda_spec (f := f) hfits
  have hsupply_lt := supplyMv_lt (f := f) hvref
  have hne : (f.tempsensorCal2.toNat : ℤ) ≠ f.tempsensorCal1.toNat := by
    intro heq
    exact hcal (UInt16.toNat_inj.mp (by omega))
  have hvoltage : InRange (supplyMv f ctx) := ⟨by omega, by omega⟩
  have hconverted : InRange (data.toNat * 2 ^ (12 - ctx.resolution.bits) : ℕ) := by
    have hlt := widen_lt hbits ctx.resolution.bits_le
    constructor <;> omega
  have hdataNat : (convertDataResolution data.toUInt32 ctx.resolution.ll
      Resolution.bits12.ll).toNat = data.toNat * 2 ^ (12 - ctx.resolution.bits) :=
    toNat_convertDataResolution hbits
  rw [getMcutemp, hdata]
  dsimp only
  rw [hmeasured, hdataNat, Option.bind_eq_bind, Option.bind_some, hsupply, toInt32_bind,
    if_pos hconverted, if_pos hne, toInt32_bind, if_pos hvoltage, mulInt32, toInt32_bind,
    ← Nat.cast_mul]
  by_cases hproduct :
      InRange (data.toNat * 2 ^ (12 - ctx.resolution.bits) * supplyMv f ctx : ℕ)
  · rw [if_pos hproduct, if_pos hproduct, addInt32, toInt32_bind]
    by_cases hsum :
        InRange ((data.toNat * 2 ^ (12 - ctx.resolution.bits) * supplyMv f ctx : ℕ) + 1500)
    · have hquotient : ((data.toNat * 2 ^ (12 - ctx.resolution.bits) * supplyMv f ctx : ℕ) +
          (1500 : ℤ)).tdiv 3000 = readingAtCal f ctx data := by
        rw [readingAtCal, roundDiv, Int.tdiv_eq_ediv_of_nonneg (by omega), Int.natCast_ediv]
        rfl
      have hreading : InRange (readingAtCal f ctx data) := by
        have hle : readingAtCal f ctx data ≤
            data.toNat * 2 ^ (12 - ctx.resolution.bits) * supplyMv f ctx + 1500 :=
          Nat.div_le_self _ _
        have hlt := hsum.2
        constructor <;> omega
      have hhalf : InRange ((data.toNat * 2 ^ (12 - ctx.resolution.bits) * supplyMv f ctx : ℕ) +
          3000 / 2) := hsum
      rw [if_pos hsum, if_pos hhalf, divInt32_of_ne_zero (by decide)]
      change toInt32 (((data.toNat * 2 ^ (12 - ctx.resolution.bits) * supplyMv f ctx : ℕ) +
        (1500 : ℤ)).tdiv 3000) >>= _ = _
      rw [hquotient, toInt32_bind, if_pos hreading]
    · rw [if_neg hsum]
      exact if_neg hsum
  · rw [if_neg hproduct, if_neg hproduct]

end Supply

/-- An ADC with samples that its resolution allows. -/
structure Sampled (ctx : Context) (data : UInt16) : Prop where
  sample : ctx.channel 20 = some data
  fits : data.toNat < 2 ^ ctx.resolution.bits
  reference : ∀ raw ∈ ctx.channel 19, raw.toNat < 2 ^ ctx.resolution.bits
  vRef : ctx.vRef.toNat < 2 ^ 31

theorem getMcutemp_iff {f : Factory} (hcal : f.tempsensorCal1 ≠ f.tempsensorCal2) {ctx : Context}
    {data : UInt16} (h : Sampled ctx data) :
    getMcutemp f ctx = some (f.interpolate (readingAtCal f ctx data)) ↔
      f.Near (readingAtCal f ctx data) := by
  rw [getMcutemp_eq hcal h.sample h.fits h.reference h.vRef]
  by_cases hproduct :
      InRange (data.toNat * 2 ^ (12 - ctx.resolution.bits) * supplyMv f ctx : ℕ)
  · by_cases hsum :
        InRange ((data.toNat * 2 ^ (12 - ctx.resolution.bits) * supplyMv f ctx : ℕ) + 1500)
    · rw [if_pos hproduct, if_pos hsum]
      refine interpolateInt32_eq_some_iff hcal ?_
      have hle : readingAtCal f ctx data ≤
          data.toNat * 2 ^ (12 - ctx.resolution.bits) * supplyMv f ctx + 1500 :=
        Nat.div_le_self _ _
      have hlt := hsum.2
      omega
    · rw [if_neg hsum, ite_self]
      exact iff_of_false (Option.some_ne_none _).symm fun h => hsum (product_of_near h).2
  · rw [if_neg hproduct]
    exact iff_of_false (Option.some_ne_none _).symm fun h => hproduct (product_of_near h).1

end Stm32l4

/-- The temperature is the interpolation, with no step out of range, exactly if the reading is near
the first calibration point; the measurement of the supply voltage always stays in range. -/
theorem mcutemp_exact_iff (f : Factory) (hcal : f.tempsensorCal1 ≠ f.tempsensorCal2) :
    (∀ (ctx : Stm32h7.Context) (data : UInt16), Stm32h7.Sampled f ctx data →
      (Stm32h7.getMcutemp ctx = some (f.interpolate
          (Stm32h7.readingAtCal ctx.vRef data.toUInt32 ctx.resolution)) ↔
        f.Near (Stm32h7.readingAtCal ctx.vRef data.toUInt32 ctx.resolution))) ∧
    (∀ (ctx : Stm32h7.Context) (data : UInt16), Stm32h7.Sampled f ctx data →
      ∀ raw, ctx.channel 20 = some raw → raw.toNat < 2 ^ ctx.resolution.bits → raw ≠ 0 →
        3300 * f.vrefintCal.toNat < 2 ^ 32 ∧ (Stm32h7.getVdda ctx).map UInt32.toNat =
          some (3300 * f.vrefintCal.toNat / (raw.toNat * 2 ^ (16 - ctx.resolution.bits)))) ∧
    (∀ (ctx : Stm32l4.Context) (data : UInt16), Stm32l4.Sampled ctx data →
      (Stm32l4.getMcutemp f ctx = some (f.interpolate (Stm32l4.readingAtCal f ctx data)) ↔
        f.Near (Stm32l4.readingAtCal f ctx data))) :=
  ⟨fun _ _ h => Stm32h7.getMcutemp_iff hcal h,
    fun _ _ h _ hraw hfits hne => Stm32h7.getVdda_eq h.adc3 h.cal hraw hfits hne,
    fun _ _ h => Stm32l4.getMcutemp_iff hcal h⟩

/-- The factory values of a typical device, in 16 and in 12 bits. -/
def typicalFactory : Factory := ⟨12000, 16000, 24000, true⟩

def typicalFactoryL4 : Factory := ⟨1035, 1372, 1655, true⟩

def sampledH7 (data : UInt16) : Stm32h7.Context where
  isAdc3 := true
  channel n := if n = 21 then some data else none
  vRef := 3300
  resolution := .bits16
  cal := Stm32h7.cacheCal typicalFactory

def sampledL4 (reference data : UInt16) : Stm32l4.Context where
  channel n := if n = 20 then some data else if n = 19 then some reference else none
  vRef := 3300
  resolution := .bits12

theorem mcutemp_exact_typical :
    (Stm32h7.getMcutemp (sampledH7 13000) = some (typicalFactory.interpolate
        (Stm32h7.readingAtCal (sampledH7 13000).vRef 13000 (sampledH7 13000).resolution)) ↔
      typicalFactory.Near
        (Stm32h7.readingAtCal (sampledH7 13000).vRef 13000 (sampledH7 13000).resolution)) ∧
    (Stm32l4.getMcutemp typicalFactoryL4 (sampledL4 1500 950) = some (typicalFactoryL4.interpolate
        (Stm32l4.readingAtCal typicalFactoryL4 (sampledL4 1500 950) 950)) ↔
      typicalFactoryL4.Near (Stm32l4.readingAtCal typicalFactoryL4 (sampledL4 1500 950) 950)) := by
  constructor
  · exact (mcutemp_exact_iff typicalFactory (by decide)).1 (sampledH7 13000) 13000
      ⟨rfl, rfl, rfl, by decide, by decide⟩
  · refine (mcutemp_exact_iff typicalFactoryL4 (by decide)).2.2 (sampledL4 1500 950) 950
      ⟨rfl, by decide, ?_, by decide⟩
    intro raw hraw
    obtain rfl : (1500 : UInt16) = raw := Option.some_inj.mp hraw
    decide

/-- A sensor at the upper end of its range on the STM32H7, and a reference that reads 1 on the
STM32L4: a product leaves `int32_t`. -/
theorem mcutemp_overflows :
    (¬ ∀ (f : Factory) (ctx : Stm32h7.Context) (data : UInt16),
      f.tempsensorCal1 ≠ f.tempsensorCal2 → Stm32h7.Sampled f ctx data → ctx.vRef ≤ 3600 →
        Stm32h7.getMcutemp ctx ≠ none) ∧
    ¬ ∀ (f : Factory) (ctx : Stm32l4.Context) (data : UInt16),
      f.tempsensorCal1 ≠ f.tempsensorCal2 → Stm32l4.Sampled ctx data → ctx.vRef ≤ 3600 →
        Stm32l4.getMcutemp f ctx ≠ none := by
  constructor
  · intro hall
    exact hall typicalFactory (sampledH7 65535) 65535 (by decide)
      ⟨rfl, rfl, rfl, by decide, by decide⟩ (by decide) (by decide)
  · intro hall
    refine hall typicalFactoryL4 (sampledL4 1 950) 950 (by decide)
      ⟨rfl, by decide, ?_, by decide⟩ (by decide) (by decide)
    intro raw hraw
    obtain rfl : (1 : UInt16) = raw := Option.some_inj.mp hraw
    decide

end UniHal.Adc
