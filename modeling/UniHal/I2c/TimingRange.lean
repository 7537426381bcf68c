import UniHal.I2c.Timing

/-! # The clocks that the I2C timing can be computed for

Up to 204.8 MHz the set-up time alone decides which prescalers can be used, so the loop finds a
timing wherever the clock is fast enough for the speed. The roundings together slow the bus down
by a quarter at most.
-/

namespace UniHal.I2c
open Foundations BitField

/-- The condition of the peripheral on its kernel clock, in exact arithmetic. -/
def UsableClock (clockHz : BitVec 32) (spec : TimingSpec) : Prop :=
  tickNs clockHz < ((spec.tLowMin : ℚ) - afMaxNs) / 4 ∧ tickNs clockHz < spec.tHighMin

/-- The longest set-up time that the register can hold at a prescaler is long enough. -/
def SetupFits (clockHz : BitVec 32) (spec : TimingSpec) (presc : ℕ) : Prop :=
  (spec.tRiseMax : ℚ) + spec.tSuDatMin ≤ 16 * (presc + 1) * tickNs clockHz

def maxFreqHz (clockHz timing : BitVec 32) : ℚ := 1000000000 / busPeriodNs clockHz timing

theorem usableClock_iff {clockHz : BitVec 32} {speed : Speed} (hpos : 0 < clockHz.toNat) :
    UsableClock clockHz speed.spec ↔ clockTooSlow speed.spec clockHz.toNat = false := by
  have hclk : (0 : ℚ) < clockHz.toNat := Nat.cast_pos.mpr hpos
  have hle : afMaxNs ≤ speed.spec.tLowMin := by cases speed <;> decide
  rw [clockTooSlow_eq_false_iff hpos, UsableClock, tickNs, div_lt_iff₀ hclk, div_lt_iff₀ hclk,
    ← Nat.cast_sub hle]
  refine and_congr ?_ ?_
  · rw [div_mul_eq_mul_div, lt_div_iff₀ (by norm_num), Nat.mul_right_comm]
    norm_cast
    omega
  · rw [Nat.mul_right_comm]
    norm_cast
    omega

theorem setupFits_iff {clockHz : BitVec 32} {spec : TimingSpec} (hpos : 0 < clockHz.toNat)
    (presc : ℕ) :
    SetupFits clockHz spec presc ↔ setupPeriods spec clockHz.toNat presc ≤ 16 := by
  have hclk : (0 : ℚ) < clockHz.toNat := Nat.cast_pos.mpr hpos
  rw [setupPeriods, periods_le_iff, SetupFits, tickNs, mul_div_assoc', le_div_iff₀ hclk]
  norm_cast
  omega

/-- Where the set-up time fits, the whole period has 128 prescaled clock periods at most. -/
theorem periods_le_of_setup {speed : Speed} {clockHz presc : ℕ}
    (h : setupPeriods speed.spec clockHz presc ≤ 16) :
    lowMin speed.spec clockHz presc ≤ 61 ∧ highMin speed.spec clockHz presc ≤ 52 ∧
      divCeil (countedTicks speed.spec clockHz) (presc + 1) ≤ 128 := by
  rw [setupPeriods, periods_le_iff] at h
  refine ⟨?_, ?_, ?_⟩
  · rw [lowMin, periods_le_iff]
    cases speed <;> simp only [Speed.spec] at h ⊢ <;> omega
  · rw [highMin, periods_le_iff]
    cases speed <;> simp only [Speed.spec] at h ⊢ <;> omega
  · have hperiod : divCeil clockHz speed.spec.freqHz ≤ (presc + 1) * 128 := by
      rw [divCeil_le_iff (by cases speed <;> decide)]
      cases speed <;> simp only [Speed.spec] at h ⊢ <;> omega
    rw [divCeil_le_iff (Nat.succ_pos presc), countedTicks]
    split <;> omega

theorem share_le_total (speed : Speed) (clockHz presc : ℕ) :
    divCeil (totalPeriods speed.spec clockHz presc * speed.spec.tLowMin)
      (speed.spec.tLowMin + speed.spec.tHighMin) ≤ totalPeriods speed.spec clockHz presc := by
  rw [divCeil_le_iff (by cases speed <;> decide), Nat.mul_comm]
  exact Nat.mul_le_mul_right _ (Nat.le_add_right _ _)

theorem fields_le_of_setup {speed : Speed} {clockHz presc : ℕ}
    (h : setupPeriods speed.spec clockHz presc ≤ 16) :
    lowPeriods speed.spec clockHz presc ≤ 256 ∧ highPeriods speed.spec clockHz presc ≤ 256 := by
  obtain ⟨hlow, hhigh, hcounted⟩ := periods_le_of_setup h
  have htotal : totalPeriods speed.spec clockHz presc ≤ 128 := by
    rw [totalPeriods]
    split <;> omega
  have hsplit := share_le_total speed clockHz presc
  constructor
  · rw [lowPeriods]
    split <;> omega
  · rw [highPeriods]
    split <;> split <;> omega

/-- A prescaler gives a timing exactly when the set-up time fits. -/
theorem tryPresc_eq_none_iff {speed : Speed} {clockHz presc : ℕ} :
    tryPresc speed.spec clockHz presc = none ↔ ¬ setupPeriods speed.spec clockHz presc ≤ 16 := by
  by_cases h : setupPeriods speed.spec clockHz presc ≤ 16
  · have hfields := fields_le_of_setup h
    rw [tryPresc, if_neg (by omega), if_neg (by omega)]
    simp [h]
  · rw [tryPresc, if_pos (by omega)]
    simp [h]

/-- Up to 204.8 MHz the set-up time fits at the largest prescaler. -/
theorem setup_of_clock (speed : Speed) {clockHz : ℕ} (h : clockHz ≤ 204800000) :
    setupPeriods speed.spec clockHz 15 ≤ 16 := by
  rw [setupPeriods, periods_le_iff]
  cases speed <;> simp only [Speed.spec] <;> omega

theorem prescLoop_isSome {speed : Speed} {clockHz : ℕ} (h : clockHz ≤ 204800000) :
    ∃ s, prescLoop speed.spec clockHz = some s := by
  rw [← Option.isSome_iff_exists, ← Option.ne_none_iff_isSome, prescLoop]
  intro hnone
  rw [List.findSome?_eq_none_iff] at hnone
  have hlast := hnone 15 (List.mem_range.mpr (by decide))
  exact tryPresc_eq_none_iff.mp hlast (setup_of_clock speed h)

/-- A total that is split in the proportion of two minimums, with the first part rounded up, leaves
room for the second minimum but for one unit. -/
theorem share_add_le {tLow tHigh clockHz div lowMin highMin total low : ℕ} (hdiv : 0 < div)
    (hlow : tLow * clockHz ≤ 1000000000 * (div * lowMin))
    (hhigh : 1000000000 * (div * highMin) < tHigh * clockHz + 1000000000 * div)
    (htotal : lowMin + highMin ≤ total)
    (hshare : (tLow + tHigh) * low < tLow * total + (tLow + tHigh)) :
    low + highMin ≤ total + 1 := by
  by_contra hlt
  have hgap : total + 2 ≤ low + highMin := by omega
  have hscaled := Nat.mul_le_mul_left (tLow + tHigh) hgap
  have hrest := Nat.mul_le_mul_left tHigh htotal
  have hless : tHigh * lowMin + tLow + tHigh < tLow * highMin := by linarith
  have hticks := Nat.mul_lt_mul_of_pos_right hless (show 0 < 1000000000 * div by omega)
  have hlow' := Nat.mul_le_mul_left tHigh hlow
  have hhigh' := Nat.mul_le_mul_left tLow hhigh.le
  have hpos := Nat.zero_le (tHigh * div)
  linarith

/-- The two parts together have one period more than their total at most. -/
theorem low_add_high_le (speed : Speed) (clockHz presc : ℕ) :
    lowPeriods speed.spec clockHz presc + highPeriods speed.spec clockHz presc ≤
      totalPeriods speed.spec clockHz presc + 1 := by
  have htotal : lowMin speed.spec clockHz presc + highMin speed.spec clockHz presc ≤
      totalPeriods speed.spec clockHz presc := by
    rw [totalPeriods]
    split <;> omega
  have hsplit := share_le_total speed clockHz presc
  -- the rounded share of the low part leaves room for the high part, but for one period
  have hshare : divCeil (totalPeriods speed.spec clockHz presc * speed.spec.tLowMin)
      (speed.spec.tLowMin + speed.spec.tHighMin) + highMin speed.spec clockHz presc ≤
      totalPeriods speed.spec clockHz presc + 1 :=
    share_add_le (Nat.succ_pos presc) (ns_le_periods _ clockHz presc)
      (periods_lt _ clockHz presc) htotal
      (Nat.mul_comm _ speed.spec.tLowMin ▸ mul_divCeil_lt (by cases speed <;> decide))
  rw [highPeriods]
  have hlow : lowPeriods speed.spec clockHz presc =
      max (divCeil (totalPeriods speed.spec clockHz presc * speed.spec.tLowMin)
        (speed.spec.tLowMin + speed.spec.tHighMin)) (lowMin speed.spec clockHz presc) := by
    rw [lowPeriods]
    split <;> omega
  split <;> split <;> omega

/-- A prescaler for which no smaller one will do is not larger than the set-up time needs. -/
theorem presc_lt_of_smallest {speed : Speed} {clockHz presc : ℕ}
    (h : ∀ p < presc, ¬ setupPeriods speed.spec clockHz p ≤ 16) :
    16000000000 * presc ≤ (speed.spec.tRiseMax + speed.spec.tSuDatMin) * clockHz := by
  cases presc with
  | zero => exact Nat.zero_le _
  | succ p =>
    have hprev := h p (Nat.lt_succ_self p)
    rw [setupPeriods, periods_le_iff, Nat.not_le] at hprev
    omega

/-- The period of the bus is a third longer than asked for at most. -/
theorem period_ticks_le {speed : Speed} {clockHz presc : ℕ} (hclk : 8000000 ≤ clockHz)
    (hfast : clockTooSlow speed.spec clockHz = false)
    (hsmallest : ∀ p < presc, ¬ setupPeriods speed.spec clockHz p ≤ 16) :
    3 * speed.spec.freqHz * (1000000000 * ((presc + 1) *
      (lowPeriods speed.spec clockHz presc + highPeriods speed.spec clockHz presc)) +
        100 * clockHz + 4000000000) ≤ 4000000000 * clockHz := by
  have hsum := Nat.mul_le_mul_left (presc + 1) (low_add_high_le speed clockHz presc)
  have hpresc := presc_lt_of_smallest hsmallest
  have hguard := ((clockTooSlow_eq_false_iff (by omega)).mp hfast).1
  rw [Nat.mul_add _ _ 1] at hsum
  by_cases hmin : divCeil (countedTicks speed.spec clockHz) (presc + 1) <
      lowMin speed.spec clockHz presc + highMin speed.spec clockHz presc
  · -- the minimums of the two parts make up the period
    have hlow := periods_lt speed.spec.tLowMin clockHz presc
    have hhigh := periods_lt speed.spec.tHighMin clockHz presc
    rw [totalPeriods, if_pos hmin, Nat.mul_add _ (lowMin _ _ _)] at hsum
    rw [lowMin, highMin] at hsum
    cases speed <;> simp only [Speed.spec, afMaxNs] at hsum hlow hhigh hpresc hguard ⊢ <;> omega
  · -- the period is that of the speed, rounded up
    have hcounted : (presc + 1) * divCeil (countedTicks speed.spec clockHz) (presc + 1) <
        countedTicks speed.spec clockHz + (presc + 1) := mul_divCeil_lt (Nat.succ_pos presc)
    have hperiod : speed.spec.freqHz * divCeil clockHz speed.spec.freqHz <
        clockHz + speed.spec.freqHz := mul_divCeil_lt (by cases speed <;> decide)
    rw [totalPeriods, if_neg hmin] at hsum
    have hsync : countedTicks speed.spec clockHz = 0 ∨
        countedTicks speed.spec clockHz + syncTicks clockHz =
          divCeil clockHz speed.spec.freqHz := by
      rw [countedTicks]
      split <;> omega
    rw [syncTicks, afMinNs] at hsync
    cases speed <;> simp only [Speed.spec, afMaxNs] at hsum hcounted hperiod hsync hpresc hguard ⊢
      <;> omega

theorem maxFreqHz_ge {clockHz : BitVec 32} {speed : Speed} {s : Solution}
    (h : solve clockHz speed = some s) (hclk : 8000000 ≤ clockHz.toNat) :
    (3 : ℚ) / 4 * speed.spec.freqHz ≤ maxFreqHz clockHz (encode s) := by
  have hfits := fits_of_solve h
  obtain ⟨hpresc, hscldel, hhigh, hlow⟩ := read_encode hfits
  obtain ⟨-, hfast, presc, -, htry, hnone⟩ := solve_eq_some h
  obtain ⟨heq, -⟩ := tryPresc_eq_some htry
  have hsmallest : ∀ p < presc, ¬ setupPeriods speed.spec clockHz.toNat p ≤ 16 :=
    fun p hp => tryPresc_eq_none_iff.mp (hnone p hp)
  have hbound := period_ticks_le hclk hfast hsmallest
  have hpos : (0 : ℚ) < clockHz.toNat := Nat.cast_pos.mpr (by omega)
  have hperiod : busPeriodNs clockHz (encode s) =
      (1000000000 * ((presc + 1) * (lowPeriods speed.spec clockHz.toNat presc +
        highPeriods speed.spec clockHz.toNat presc)) + 100 * clockHz.toNat + 4000000000) /
          clockHz.toNat := by
    rw [busPeriodNs, lowNs, highNs, hlow, hhigh, periodsNs_eq hfits, periodsNs_eq hfits, heq,
      tickNs, afMinNs]
    push_cast
    field_simp
    ring
  have hcast : (3 * speed.spec.freqHz * (1000000000 * ((presc + 1) *
      (lowPeriods speed.spec clockHz.toNat presc + highPeriods speed.spec clockHz.toNat presc)) +
        100 * clockHz.toNat + 4000000000) : ℚ) ≤ 4000000000 * clockHz.toNat := by
    exact_mod_cast hbound
  rw [maxFreqHz, hperiod, div_div_eq_mul_div, le_div_iff₀ (by positivity)]
  linarith

/-- For every clock up to 204.8 MHz a timing is found exactly where the peripheral can be used at
the speed; it has the smallest prescaler whose set-up field fits, and from 8 MHz on the bus runs
at three quarters of the speed at least. -/
theorem i2c_timing_complete (clockHz : BitVec 32) (speed : Speed) (hlow : 1 ≤ clockHz.toNat)
    (hhigh : clockHz.toNat ≤ 204800000) :
    (timingCalc clockHz speed ≠ 0 ↔ UsableClock clockHz speed.spec) ∧
      (timingCalc clockHz speed ≠ 0 →
        SetupFits clockHz speed.spec (prescField.read (timingCalc clockHz speed)).toNat ∧
          ∀ p < (prescField.read (timingCalc clockHz speed)).toNat,
            ¬ SetupFits clockHz speed.spec p) ∧
      (timingCalc clockHz speed ≠ 0 → 8000000 ≤ clockHz.toNat →
        (3 : ℚ) / 4 * speed.spec.freqHz ≤ maxFreqHz clockHz (timingCalc clockHz speed)) := by
  have hzero : clockHz ≠ 0 := by
    rintro rfl
    exact absurd hlow (by decide)
  refine ⟨?_, fun hne => ?_, fun hne hclk => ?_⟩
  · rw [timingCalc_ne_zero_iff, usableClock_iff hlow, solve, if_neg hzero]
    cases hslow : clockTooSlow speed.spec clockHz.toNat with
    | true => simp
    | false => simpa using prescLoop_isSome hhigh
  · obtain ⟨s, hs⟩ := (timingCalc_ne_zero_iff clockHz speed).mp hne
    obtain ⟨-, -, presc, -, htry, hnone⟩ := solve_eq_some hs
    obtain ⟨heq, hsetup, -⟩ := tryPresc_eq_some htry
    have hpresc : (prescField.read (timingCalc clockHz speed)).toNat = presc := by
      rw [timingCalc_eq_encode hs, (read_encode (fits_of_solve hs)).1, heq]
    rw [hpresc]
    refine ⟨(setupFits_iff hlow presc).mpr hsetup, fun p hp => ?_⟩
    rw [setupFits_iff hlow]
    exact tryPresc_eq_none_iff.mp (hnone p hp)
  · obtain ⟨s, hs⟩ := (timingCalc_ne_zero_iff clockHz speed).mp hne
    rw [timingCalc_eq_encode hs]
    exact maxFreqHz_ge hs hclk

theorem i2c_timing_complete_16mhz :
    UsableClock 16000000 Speed.khz400.spec ∧
      SetupFits 16000000 Speed.khz400.spec
        (prescField.read (timingCalc 16000000 .khz400)).toNat ∧
      (3 : ℚ) / 4 * Speed.khz400.spec.freqHz ≤
        maxFreqHz 16000000 (timingCalc 16000000 .khz400) := by
  have hne : timingCalc 16000000 .khz400 ≠ 0 := by decide +kernel
  obtain ⟨hfound, hleast, hclose⟩ :=
    i2c_timing_complete 16000000 .khz400 (by decide) (by decide)
  exact ⟨hfound.mp hne, (hleast hne).1, hclose hne (by decide)⟩

end UniHal.I2c
