import UniHal.Foundations.WrappingCounter

/-! # The period between two captures

The capture handler of the STM32L4 driver stores with each captured value the overflows that
came before it, and measures a period from two captures. What it computes in 32 and 64 bits is
what the wraps and the values of a wrapping counter say.
-/

namespace UniHal.Tim
open Foundations WrappingCounter

/-- The timers of `uni_hal_core_periph_e`, and everything else. -/
inductive Periph
  | tim1 | tim2 | tim3 | tim4 | tim5 | tim6 | tim7 | tim8 | tim15 | tim16 | tim17 | other

def reloadValueValid (periph : Periph) (value : UInt32) : Bool :=
  match periph with
  | .tim1 | .tim3 | .tim4 | .tim6 | .tim7 | .tim8 | .tim15 | .tim16 | .tim17 =>
    decide (value ≤ 0xFFFF)
  | .tim2 | .tim5 => true
  | .other => false

/-- A reload value with which `uni_hal_tim_init` starts TIM1, the only timer whose captures have
a handler. -/
structure Reload where
  value : UInt32
  valid : reloadValueValid .tim1 value = true

/-- `_uni_hal_tim_capture_t` -/
structure Capture where
  counter : UInt32
  overflowCount : UInt32

/-- `uni_hal_tim_channel_state_t` -/
structure ChannelState where
  counter : UInt32 := 0
  overflowCount : UInt32 := 0
  period : UInt32 := 0
  timestamp : UInt32 := 0
  seen : Bool := false
  valid : Bool := false

def getCounterPeriod (reload : UInt32) : UInt32 :=
  if reload < 0xFFFFFFFF then reload + 1 else 0

/-- `_uni_hal_tim_get_capture`: `counter` is the captured value, `currentCounter` and `update`
are what the counter and the update flag read. -/
def getCapture (reload overflowCount currentCounter : UInt32) (update : Bool)
    (counter : UInt32) : Capture :=
  let result : Capture := { counter, overflowCount }
  let period := getCounterPeriod reload
  if 0 < period then
    let halfPeriod := period / 2
    if update then
      if counter < halfPeriod then { result with overflowCount := overflowCount + 1 } else result
    else if 0 < overflowCount && currentCounter < halfPeriod && halfPeriod < counter then
      { result with overflowCount := overflowCount - 1 }
    else result
  else result

/-- The 64-bit difference of `_uni_hal_tim_get_capture_delta`. -/
def delta64 (reload : UInt32) (current : Capture) (previous : ChannelState) : UInt64 :=
  let period := getCounterPeriod reload
  let overflowDelta := current.overflowCount - previous.overflowCount
  if period = 0 then (current.counter - previous.counter).toUInt64
  else if previous.counter ≤ current.counter then
    overflowDelta.toUInt64 * period.toUInt64 + (current.counter - previous.counter).toUInt64
  else if 0 < overflowDelta then
    (overflowDelta - 1).toUInt64 * period.toUInt64 + (period - previous.counter).toUInt64 +
      current.counter.toUInt64
  else 0

def getCaptureDelta (reload : UInt32) (current : Capture) (previous : ChannelState) :
    Option UInt32 :=
  let delta := delta64 reload current previous
  if 0 < delta && delta ≤ 0xFFFFFFFF then some delta.toUInt32 else none

/-- `_uni_hal_tim_irq_cc_chan` for a capture that was overwritten. -/
def overcapture (st : ChannelState) : ChannelState := { st with seen := false, valid := false }

/-- `_uni_hal_tim_irq_cc_chan` once the capture is read; `ms` is `uni_hal_systick_get_ms`. -/
def irqCcChan (reload : UInt32) (capture : Capture) (ms : UInt32) (st : ChannelState) :
    ChannelState :=
  let stored := { st with counter := capture.counter, overflowCount := capture.overflowCount }
  if st.seen then
    match getCaptureDelta reload capture st with
    | some delta => { stored with period := delta, timestamp := ms, valid := true }
    | none => { stored with valid := false }
  else { stored with seen := true }

def Reload.period (reload : Reload) : ℕ := reload.value.toNat + 1

variable (reload : Reload)

theorem Reload.period_pos : 0 < reload.period := Nat.succ_pos _

theorem Reload.period_le : reload.period ≤ 2 ^ 16 := by
  have h : reload.value ≤ 0xFFFF := of_decide_eq_true reload.valid
  exact Nat.succ_le_succ (UInt32.le_iff_toNat_le.mp h)

theorem toNat_getCounterPeriod : (getCounterPeriod reload.value).toNat = reload.period := by
  have hle := reload.period_le
  rw [Reload.period] at hle ⊢
  have hlt : reload.value < 0xFFFFFFFF := UInt32.lt_iff_toNat_lt.mpr (by simp; omega)
  rw [getCounterPeriod, if_pos hlt, UInt32.toNat_add]
  exact Nat.mod_eq_of_lt (by simp; omega)

theorem toNat_halfPeriod : (getCounterPeriod reload.value / 2).toNat = reload.period / 2 := by
  rw [UInt32.toNat_div, toNat_getCounterPeriod]
  rfl

theorem getCounterPeriod_pos : 0 < getCounterPeriod reload.value := by
  rw [UInt32.lt_iff_toNat_lt, toNat_getCounterPeriod]
  exact reload.period_pos

@[simp] theorem getCapture_counter (reload overflowCount currentCounter counter : UInt32)
    (update : Bool) :
    (getCapture reload overflowCount currentCounter update counter).counter = counter := by
  unfold getCapture
  dsimp only
  split_ifs <;> rfl

/-- The handler counts the wraps before a capture from the halves of the period. -/
theorem toNat_getCapture (overflowCount currentCounter counter : UInt32) (update : Bool)
    (hcount : overflowCount.toNat + update.toNat < 2 ^ 32) :
    (getCapture reload.value overflowCount currentCounter update counter).overflowCount.toNat =
      wrapsAt reload.period overflowCount.toNat update currentCounter.toNat counter.toNat := by
  have hhalf := toNat_halfPeriod reload
  rw [getCapture]
  dsimp only
  rw [if_pos (getCounterPeriod_pos reload)]
  cases update with
  | true =>
    rw [Bool.toNat_true] at hcount
    simp only [wrapsAt, if_true, UInt32.lt_iff_toNat_lt, hhalf]
    split_ifs
    · rw [UInt32.toNat_add]
      exact Nat.mod_eq_of_lt hcount
    · rfl
  | false =>
    simp only [wrapsAt, Bool.false_eq_true, if_false, Bool.and_eq_true, decide_eq_true_eq,
      and_assoc, UInt32.lt_iff_toNat_lt, UInt32.toNat_zero, hhalf]
    split_ifs with hdec
    · exact UInt32.toNat_sub_of_le _ _ (UInt32.le_iff_toNat_le.mpr hdec.1)
    · rfl

variable {current : Capture} {previous : ChannelState}

theorem mul_period_le {wraps : ℕ} (h : wraps < 2 ^ 32) : wraps * reload.period ≤ 2 ^ 48 :=
  (Nat.mul_le_mul h.le reload.period_le).trans_eq (by norm_num)

theorem toNat_mul_add (wraps value : UInt32) :
    (wraps.toUInt64 * (getCounterPeriod reload.value).toUInt64 + value.toUInt64).toNat =
      wraps.toNat * reload.period + value.toNat := by
  have hvalue := value.toNat_lt
  have hmul := mul_period_le reload wraps.toNat_lt
  rw [UInt64.toNat_add, UInt64.toNat_mul, UInt32.toNat_toUInt64, UInt32.toNat_toUInt64,
    UInt32.toNat_toUInt64, toNat_getCounterPeriod]
  have hproduct : wraps.toNat * reload.period % 2 ^ 64 = wraps.toNat * reload.period :=
    Nat.mod_eq_of_lt (by omega)
  rw [hproduct]
  exact Nat.mod_eq_of_lt (by omega)

theorem toNat_delta64
    (hwraps : previous.overflowCount ≤ current.overflowCount)
    (hprevious : previous.counter.toNat < reload.period)
    (hcurrent : current.counter.toNat < reload.period) :
    (delta64 reload.value current previous).toNat =
      elapsed reload.period previous.overflowCount.toNat previous.counter.toNat
        current.overflowCount.toNat current.counter.toNat := by
  have hperiod := toNat_getCounterPeriod reload
  have hne : getCounterPeriod reload.value ≠ 0 := fun h =>
    UInt32.lt_irrefl 0 (h ▸ getCounterPeriod_pos reload)
  have hdelta : (current.overflowCount - previous.overflowCount).toNat =
      current.overflowCount.toNat - previous.overflowCount.toNat :=
    UInt32.toNat_sub_of_le _ _ hwraps
  rw [delta64, elapsed, if_neg hne]
  simp only [UInt32.le_iff_toNat_le, UInt32.lt_iff_toNat_lt, hdelta]
  split_ifs with hvalue hdec hlt hlt
  · rw [toNat_mul_add reload, hdelta,
      UInt32.toNat_sub_of_le _ _ (UInt32.le_iff_toNat_le.mpr hvalue)]
  · have hone : (1 : UInt32) ≤ current.overflowCount - previous.overflowCount :=
      UInt32.le_iff_toNat_le.mpr (hdelta ▸ hdec)
    have hrest : previous.counter ≤ getCounterPeriod reload.value :=
      UInt32.le_iff_toNat_le.mpr (hperiod ▸ hprevious.le)
    have hsum := toNat_mul_add reload (current.overflowCount - previous.overflowCount - 1)
      (getCounterPeriod reload.value - previous.counter)
    rw [UInt32.toNat_sub_of_le _ _ hone, UInt32.toNat_sub_of_le _ _ hrest, hperiod, hdelta] at hsum
    have hmul := mul_period_le reload
      (((Nat.sub_le _ 1).trans (Nat.sub_le _ _)).trans_lt current.overflowCount.toNat_lt :
        current.overflowCount.toNat - previous.overflowCount.toNat - 1 < 2 ^ 32)
    have hle := reload.period_le
    rw [UInt64.toNat_add, hsum, UInt32.toNat_toUInt64]
    exact Nat.mod_eq_of_lt (by simp; omega)
  · exact absurd (Nat.lt_of_sub_pos hdec) hlt
  · exact absurd (Nat.sub_pos_of_lt hlt) hdec
  · rfl

theorem getCaptureDelta_eq
    (hwraps : previous.overflowCount ≤ current.overflowCount)
    (hprevious : previous.counter.toNat < reload.period)
    (hcurrent : current.counter.toNat < reload.period) :
    getCaptureDelta reload.value current previous =
      let ticks := elapsed reload.period previous.overflowCount.toNat previous.counter.toNat
        current.overflowCount.toNat current.counter.toNat
      if 0 < ticks ∧ ticks < 2 ^ 32 then some (UInt32.ofNat ticks) else none := by
  have hticks := toNat_delta64 reload hwraps hprevious hcurrent
  rw [getCaptureDelta]
  simp only [Bool.and_eq_true, decide_eq_true_eq, UInt64.lt_iff_toNat_lt, UInt64.le_iff_toNat_le,
    hticks]
  refine if_congr (and_congr Iff.rfl Nat.lt_succ_iff.symm) ?_ rfl
  congr 1
  apply UInt32.toNat_inj.mp
  rw [UInt64.toNat_toUInt32, hticks, UInt32.toNat_ofNat']

end UniHal.Tim
