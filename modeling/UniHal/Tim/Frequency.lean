import UniHal.Foundations.RoundedDivision
import UniHal.Tim.Capture

/-! # The frequency of a measured period

The driver turns a period into a frequency by way of the tick length in whole nanoseconds. The
last division rounds to the nearest, so all that is lost is what the truncated tick length
leaves out, and the frequency is exact for those inputs where this stays below the rounding.
-/

namespace UniHal.Tim
open Foundations RoundedDivision

/-- `uni_hal_tim_context_t` as the conversions read it. -/
structure TickContext where
  inited : Bool
  prescaler : UInt32

def isInited : Option TickContext → Bool
  | none => false
  | some ctx => ctx.inited

def prescalerValid (value : UInt32) : Bool := decide (value ≤ 0xFFFF)

/-- `uni_hal_tim_get_tick_period_ns`; `clkFreq` is what `uni_hal_rcc_clk_get_freq` returns. -/
def getTickPeriodNs (clkFreq : UInt32) (ctx : Option TickContext) : UInt32 :=
  match ctx with
  | none => 0
  | some c =>
    if isInited ctx && prescalerValid c.prescaler then
      let result := clkFreq / (c.prescaler + 1)
      if result ≠ 0 then 1000000000 / result else 0
    else 0

def getChanPeriodNs (clkFreq : UInt32) (ctx : Option TickContext)
    (chanState : Option ChannelState) : UInt64 :=
  match chanState with
  | none => 0xFFFFFFFFFFFFFFFF
  | some st =>
    if isInited ctx && st.valid then st.period.toUInt64 * (getTickPeriodNs clkFreq ctx).toUInt64
    else 0xFFFFFFFFFFFFFFFF

def getChanFreqMhz (clkFreq : UInt32) (ctx : Option TickContext)
    (chanState : Option ChannelState) : UInt64 :=
  let periodNs := getChanPeriodNs clkFreq ctx chanState
  if periodNs ≠ 0 ∧ periodNs ≠ 0xFFFFFFFFFFFFFFFF then
    (1000000000000 + periodNs / 2) / periodNs
  else 0xFFFFFFFFFFFFFFFF

def tickNs (clkFreq prescaler : UInt32) : ℕ :=
  1000000000 / (clkFreq.toNat / (prescaler.toNat + 1))

section Measured
variable (clkFreq : UInt32) {prescaler : UInt32} {st : ChannelState}

theorem toNat_prescaler_succ (hprescaler : prescalerValid prescaler = true) :
    (prescaler + 1).toNat = prescaler.toNat + 1 := by
  have hle : prescaler.toNat ≤ 0xFFFF := UInt32.le_iff_toNat_le.mp (of_decide_eq_true hprescaler)
  rw [UInt32.toNat_add, UInt32.toNat_one]
  exact Nat.mod_eq_of_lt (by omega)

theorem toNat_getTickPeriodNs (hprescaler : prescalerValid prescaler = true) :
    (getTickPeriodNs clkFreq (some ⟨true, prescaler⟩)).toNat = tickNs clkFreq prescaler := by
  have hrate : (clkFreq / (prescaler + 1)).toNat = clkFreq.toNat / (prescaler.toNat + 1) := by
    rw [UInt32.toNat_div, toNat_prescaler_succ hprescaler]
  have hready : (isInited (some ⟨true, prescaler⟩) && prescalerValid prescaler) = true := by
    rw [hprescaler]
    rfl
  rw [getTickPeriodNs, if_pos hready, tickNs, ← hrate]
  dsimp only
  by_cases hzero : clkFreq / (prescaler + 1) = 0
  · rw [if_neg (not_not.mpr hzero), hzero]
    rfl
  · rw [if_pos hzero, UInt32.toNat_div]
    rfl

theorem tickNs_le (prescaler : UInt32) : tickNs clkFreq prescaler ≤ 1000000000 :=
  Nat.div_le_self _ _

theorem periodNs_lt (prescaler period : UInt32) :
    period.toNat * tickNs clkFreq prescaler < 2 ^ 62 :=
  calc period.toNat * tickNs clkFreq prescaler
      ≤ 2 ^ 32 * 1000000000 := Nat.mul_le_mul period.toNat_lt.le (tickNs_le _ _)
    _ < 2 ^ 62 := by norm_num

theorem toNat_getChanPeriodNs (hprescaler : prescalerValid prescaler = true)
    (hvalid : st.valid = true) :
    (getChanPeriodNs clkFreq (some ⟨true, prescaler⟩) (some st)).toNat =
      st.period.toNat * tickNs clkFreq prescaler := by
  have hready : (isInited (some ⟨true, prescaler⟩) && st.valid) = true := by
    rw [hvalid]
    rfl
  rw [getChanPeriodNs, if_pos hready, UInt64.toNat_mul, UInt32.toNat_toUInt64,
    UInt32.toNat_toUInt64, toNat_getTickPeriodNs clkFreq hprescaler]
  exact Nat.mod_eq_of_lt ((periodNs_lt _ _ _).trans (by norm_num))

/-- The returned value is a rounded division, where there is a tick length. -/
theorem toNat_getChanFreqMhz (hprescaler : prescalerValid prescaler = true)
    (hvalid : st.valid = true) (hperiod : 0 < st.period.toNat) :
    (getChanFreqMhz clkFreq (some ⟨true, prescaler⟩) (some st)).toNat =
      if tickNs clkFreq prescaler = 0 then 2 ^ 64 - 1
      else roundDiv (10 ^ 12) (st.period.toNat * tickNs clkFreq prescaler) := by
  have hns := toNat_getChanPeriodNs clkFreq hprescaler hvalid
  have hlt := periodNs_lt clkFreq prescaler st.period
  rw [getChanFreqMhz]
  generalize getChanPeriodNs clkFreq (some ⟨true, prescaler⟩) (some st) = periodNs at hns ⊢
  by_cases htick : tickNs clkFreq prescaler = 0
  · have hzero : periodNs = 0 := UInt64.toNat_inj.mp (by rw [hns, htick]; rfl)
    rw [if_neg (fun h => h.1 hzero), if_pos htick]
    rfl
  · have hpos : 0 < st.period.toNat * tickNs clkFreq prescaler :=
      Nat.mul_pos hperiod (Nat.pos_of_ne_zero htick)
    have hne : periodNs ≠ 0 ∧ periodNs ≠ 0xFFFFFFFFFFFFFFFF := by
      constructor
      · rintro rfl
        exact hpos.ne hns
      · rintro rfl
        exact absurd (hns ▸ hlt) (by decide)
    rw [if_pos hne, if_neg htick, roundDiv, UInt64.toNat_div, UInt64.toNat_add,
      UInt64.toNat_div, hns]
    congr 1
    exact Nat.mod_eq_of_lt (by
      change 10 ^ 12 + st.period.toNat * tickNs clkFreq prescaler / 2 < 2 ^ 64
      omega)

end Measured

def exactFreqMhz (clkFreq prescaler period : UInt32) : ℚ :=
  clkFreq.toNat * 1000 / ((prescaler.toNat + 1) * period.toNat)

/-- The returned value is within one unit of the frequency, and no step leaves its type. -/
structure FreqExact (clkFreq prescaler : UInt32) (st : ChannelState) : Prop where
  close : |((getChanFreqMhz clkFreq (some ⟨true, prescaler⟩) (some st)).toNat : ℚ) -
    exactFreqMhz clkFreq prescaler st.period| ≤ 1
  divisor : (prescaler + 1).toNat = prescaler.toNat + 1
  product : (getChanPeriodNs clkFreq (some ⟨true, prescaler⟩) (some st)).toNat =
    st.period.toNat * (getTickPeriodNs clkFreq (some ⟨true, prescaler⟩)).toNat
  sum : 1000000000000 +
    (getChanPeriodNs clkFreq (some ⟨true, prescaler⟩) (some st)).toNat / 2 < 2 ^ 64

def exactTickNs (clkFreq prescaler : UInt32) : ℚ :=
  1000000000 * (prescaler.toNat + 1) / clkFreq.toNat

def truncationError (clkFreq prescaler period : UInt32) : ℚ :=
  exactFreqMhz clkFreq prescaler period *
    ((exactTickNs clkFreq prescaler - tickNs clkFreq prescaler) / tickNs clkFreq prescaler)

/-- There is a tick of whole nanoseconds, and what its truncation adds to the frequency does not
go past the rounding of the last division. -/
structure TickFineEnough (clkFreq prescaler period : UInt32) : Prop where
  tick : tickNs clkFreq prescaler ≠ 0
  low : (⌈exactFreqMhz clkFreq prescaler period⌉₊ : ℚ) - exactFreqMhz clkFreq prescaler period -
    3 / 2 ≤ truncationError clkFreq prescaler period
  high : truncationError clkFreq prescaler period <
    ⌊exactFreqMhz clkFreq prescaler period⌋₊ - exactFreqMhz clkFreq prescaler period + 3 / 2

section Exactness
variable {clkFreq prescaler : UInt32} {st : ChannelState}

theorem exactFreqMhz_nonneg (clkFreq prescaler period : UInt32) :
    0 ≤ exactFreqMhz clkFreq prescaler period := by
  unfold exactFreqMhz
  positivity

theorem exactFreqMhz_lt (clkFreq prescaler : UInt32) {period : UInt32}
    (hperiod : 0 < period.toNat) :
    exactFreqMhz clkFreq prescaler period < 2 ^ 42 := by
  have hclk : (clkFreq.toNat : ℚ) < 2 ^ 32 := by exact_mod_cast clkFreq.toNat_lt
  have hdenominator : (1 : ℚ) ≤ (prescaler.toNat + 1) * period.toNat := by
    exact_mod_cast Nat.mul_pos (Nat.succ_pos _) hperiod
  calc exactFreqMhz clkFreq prescaler period
      ≤ clkFreq.toNat * 1000 := div_le_self (by positivity) hdenominator
    _ < 2 ^ 42 := by linarith

theorem clkFreq_pos_of_tick (h : tickNs clkFreq prescaler ≠ 0) : 0 < clkFreq.toNat := by
  apply Nat.pos_of_ne_zero
  intro hzero
  rw [tickNs, hzero, Nat.zero_div, Nat.div_zero] at h
  exact h rfl

/-- The quotient that the driver rounds is the frequency with what the truncation adds. -/
theorem quotient_eq {period : UInt32} (htick : tickNs clkFreq prescaler ≠ 0)
    (hperiod : 0 < period.toNat) :
    ((10 ^ 12 : ℕ) : ℚ) / (period.toNat * tickNs clkFreq prescaler : ℕ) =
      exactFreqMhz clkFreq prescaler period + truncationError clkFreq prescaler period := by
  have hclk : (clkFreq.toNat : ℚ) ≠ 0 := Nat.cast_ne_zero.mpr (clkFreq_pos_of_tick htick).ne'
  have htick' : (tickNs clkFreq prescaler : ℚ) ≠ 0 := Nat.cast_ne_zero.mpr htick
  have hperiod' : (period.toNat : ℚ) ≠ 0 := Nat.cast_ne_zero.mpr hperiod.ne'
  have hprescaler : (prescaler.toNat : ℚ) + 1 ≠ 0 := by positivity
  rw [truncationError, exactTickNs, exactFreqMhz]
  push_cast
  field_simp
  ring

/-- The frequency is exact for a measured period if and only if the truncation of the tick length
does not matter. -/
theorem chan_freq_exact_iff (clkFreq prescaler : UInt32) (st : ChannelState)
    (hprescaler : prescalerValid prescaler = true) (hvalid : st.valid = true)
    (hperiod : 0 < st.period.toNat) :
    FreqExact clkFreq prescaler st ↔ TickFineEnough clkFreq prescaler st.period := by
  have hfreq := toNat_getChanFreqMhz clkFreq hprescaler hvalid hperiod
  have hns := toNat_getChanPeriodNs clkFreq hprescaler hvalid
  have hnonneg := exactFreqMhz_nonneg clkFreq prescaler st.period
  by_cases htick : tickNs clkFreq prescaler = 0
  · rw [if_pos htick] at hfreq
    refine iff_of_false (fun h => ?_) (fun h => h.tick htick)
    have hclose := h.close
    rw [hfreq, abs_le] at hclose
    have hlt := exactFreqMhz_lt clkFreq prescaler hperiod
    have hmax : ((2 ^ 64 - 1 : ℕ) : ℚ) = 2 ^ 64 - 1 := by norm_num
    rw [hmax] at hclose
    linarith [hclose.2]
  · rw [if_neg htick] at hfreq
    have hpos : 0 < st.period.toNat * tickNs clkFreq prescaler :=
      Nat.mul_pos hperiod (Nat.pos_of_ne_zero htick)
    have hclose := abs_roundDiv_sub_le_one_iff (a := 10 ^ 12) hpos hnonneg
    rw [quotient_eq htick hperiod, ← hfreq] at hclose
    constructor
    · intro h
      obtain ⟨hlow, hhigh⟩ := hclose.mp h.close
      exact ⟨htick, by linarith, by linarith⟩
    · intro h
      have hlow := h.low
      have hhigh := h.high
      refine ⟨hclose.mpr ⟨by linarith, by linarith⟩, toNat_prescaler_succ hprescaler, ?_, ?_⟩
      · rw [hns, toNat_getTickPeriodNs clkFreq hprescaler]
      · rw [hns]
        have hlt := periodNs_lt clkFreq prescaler st.period
        omega

/-- A tick of whole nanoseconds is fine enough for every period. -/
theorem tickFineEnough_of_whole {period : UInt32} (htick : tickNs clkFreq prescaler ≠ 0)
    (hwhole : exactTickNs clkFreq prescaler = tickNs clkFreq prescaler) :
    TickFineEnough clkFreq prescaler period := by
  have hzero : truncationError clkFreq prescaler period = 0 := by
    rw [truncationError, hwhole, sub_self, zero_div, mul_zero]
  have hnonneg := exactFreqMhz_nonneg clkFreq prescaler period
  have hceil := Nat.ceil_lt_add_one hnonneg
  have hfloor := Nat.lt_floor_add_one (exactFreqMhz clkFreq prescaler period)
  constructor
  · exact htick
  · linarith
  · linarith

end Exactness

/-- 1 kHz at a timer clock of 80 MHz that is divided by 80. -/
theorem chan_freq_exact_1khz :
    FreqExact 80000000 79 { period := 1000, seen := true, valid := true } ↔
      TickFineEnough 80000000 79 1000 :=
  chan_freq_exact_iff 80000000 79 { period := 1000, seen := true, valid := true }
    (by decide) rfl (by decide)

/-- 80 kHz at a timer clock of 80 MHz: the tick of 12.5 ns counts as 12 ns, and the driver
returns 83333.333 Hz. -/
theorem chan_freq_inexact_80khz :
    ¬ ∀ (clkFreq prescaler : UInt32) (st : ChannelState), prescalerValid prescaler = true →
      st.valid = true → 0 < st.period.toNat → FreqExact clkFreq prescaler st := by
  intro hall
  have hclose := (hall 80000000 0 { period := 1000, seen := true, valid := true }
    (by decide) rfl (by decide)).close
  have hfreq : (getChanFreqMhz 80000000 (some ⟨true, 0⟩)
      (some { period := 1000, seen := true, valid := true })).toNat = 83333333 := by decide
  have hexact : exactFreqMhz 80000000 0 1000 = 80000000 := by
    change ((80000000 : ℕ) : ℚ) * 1000 / (((0 : ℕ) + 1) * (1000 : ℕ)) = 80000000
    norm_num
  rw [hfreq, hexact, abs_le] at hclose
  norm_num at hclose

end UniHal.Tim
