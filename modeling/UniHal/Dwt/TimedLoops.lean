import Mathlib.Data.UInt
import UniHal.Foundations.PacedSampling
import UniHal.Foundations.Polling

/-! # Loops timed by the cycle counter

The delays of the DWT driver and the wait loops of the RCC and flash drivers of the STM32H7. Each
turns the requested time into cycles of a 32-bit counter, clamped, and compares it with the
counter by a modular difference. A loop is on time and not short as long as the number of cycles
and the gap between its samples fit into the range of the counter together.
-/

namespace UniHal.Dwt
open Foundations Polling PacedSampling

def clampU64ToU32 (value : UInt64) : UInt32 :=
  if value > 0xFFFFFFFF then 0xFFFFFFFF else value.toUInt32

def internalTimeoutMsToTick (timeoutMs clockHz : UInt32) : UInt32 :=
  let timeoutTicks := timeoutMs.toUInt64 * clockHz.toUInt64 / 1000
  if timeoutTicks = 0 then 1 else clampU64ToU32 timeoutTicks

def delayUsToTickCeil (us clockHz : UInt32) : UInt32 :=
  if clockHz = 0 then 0
  else
    let numerator := us.toUInt64 * clockHz.toUInt64 + (1000000 - 1)
    clampU64ToU32 (numerator / 1000000)

def msToUsClamped (ms : UInt32) : UInt32 := clampU64ToU32 (ms.toUInt64 * 1000)

def compare (timestamp1 timestamp2 : UInt32) : UInt32 := timestamp2 - timestamp1

def timeoutMsToTick (coreClock timeoutMs : UInt32) : UInt32 :=
  internalTimeoutMsToTick timeoutMs (if coreClock = 0 then 64000000 else coreClock)

section Loops
variable (coreClock : UInt32) (tick ms : ℕ → UInt32)

/-- `uni_hal_dwt_delay_us`: the sample of the counter at which it ends. The counter is read once
before the loop and again in every round. -/
def delayUs (us : UInt32) (fuel : ℕ) : Option ℕ :=
  let startTick := tick 0
  if coreClock = 0 then some 0
  else
    let delayTicks := delayUsToTickCeil us coreClock
    spin (fun k => decide (compare startTick (tick k) < delayTicks)) fuel 1

def delayMs (millis : UInt32) (fuel : ℕ) : Option ℕ :=
  delayUs coreClock tick (msToUsClamped millis) fuel

/-- `uni_hal_rcc_wait_timeout_t`, `uni_hal_flash_wait_timeout_t` -/
structure WaitTimeout where
  dwtReady : Bool
  startTick : UInt32
  timeoutTick : UInt32
  startMs : UInt32
  timeoutMs : UInt32

/-- `_uni_hal_stm_rcc_wait_timeout_begin`, `_uni_hal_flash_wait_timeout_begin` -/
def waitTimeoutBegin (dwtReady : Bool) (timeoutMs : UInt32) : WaitTimeout where
  dwtReady := dwtReady
  startTick := if dwtReady then tick 0 else 0
  timeoutTick := if dwtReady then timeoutMsToTick coreClock timeoutMs else 0
  startMs := ms 0
  timeoutMs := timeoutMs

/-- `_uni_hal_stm_rcc_wait_timeout_expired`, `_uni_hal_flash_wait_timeout_expired`; `nowMs` and
`now` are what the two counters read. -/
def waitTimeoutExpired (ctx : WaitTimeout) (nowMs now : UInt32) : Bool :=
  if ctx.timeoutMs = 0 then true
  else if ctx.dwtReady then
    if ctx.timeoutTick = 0 then decide (nowMs - ctx.startMs ≥ ctx.timeoutMs)
    else decide (compare ctx.startTick now ≥ ctx.timeoutTick)
  else decide (nowMs - ctx.startMs ≥ ctx.timeoutMs)

/-- `while (!ready) if (expired) return false; return true;` with the round in which it ends. -/
def waitLoop (ready : ℕ → Bool) (ctx : WaitTimeout) (fuel : ℕ) : Option (Bool × ℕ) :=
  (spin (fun k => !ready k && !waitTimeoutExpired ctx (ms k) (tick k)) fuel 1).map
    fun k => (ready k, k)

/-- `_uni_hal_stm_rcc_wait_ready`; `ready k` says whether the state that is polled is the expected
one. -/
def rccWaitReady (ready : ℕ → Bool) (timeoutMs : UInt32) (fuel : ℕ) : Option (Bool × ℕ) :=
  if ready 0 then some (true, 0)
  else waitLoop tick ms ready (waitTimeoutBegin coreClock tick ms true timeoutMs) fuel

/-- The loop of `_uni_hal_flash_apply_latency`. -/
def flashWaitLatency (ready : ℕ → Bool) (timeoutMs : UInt32) (fuel : ℕ) : Option (Bool × ℕ) :=
  waitLoop tick ms ready (waitTimeoutBegin coreClock tick ms true timeoutMs) fuel

end Loops

/-- What a caller can ask for. -/
inductive Request
  | delayUs (us : UInt32)
  | delayMs (ms : UInt32)
  | rccTimeout (ms : UInt32)
  | flashTimeout (ms : UInt32)

/-- The samples of the cycle counter in a loop and what else it polls; the counter shows the
cycles modulo its range. -/
structure Samples (gap : ℕ) where
  /-- the cycles since power-up -/
  cycles : ℕ → ℕ
  mono : ∀ k, cycles k ≤ cycles (k + 1)
  gap_le : ∀ k, cycles (k + 1) ≤ cycles k + gap
  ready : ℕ → Bool
  ms : ℕ → UInt32

/-- `uni_hal_dwt_get_tick` -/
def Samples.tick {gap : ℕ} (s : Samples gap) (k : ℕ) : UInt32 := UInt32.ofNat (s.cycles k)

def Samples.elapsed {gap : ℕ} (s : Samples gap) (k : ℕ) : ℕ := s.cycles k - s.cycles 0

namespace Request

/-- How the loop ends: whether with the expected state, and at which sample. -/
def run {gap : ℕ} (coreClock : UInt32) (s : Samples gap) : Request → ℕ → Option (Bool × ℕ)
  | .delayUs us, fuel => (Dwt.delayUs coreClock s.tick us fuel).map fun k => (false, k)
  | .delayMs ms, fuel => (Dwt.delayMs coreClock s.tick ms fuel).map fun k => (false, k)
  | .rccTimeout ms, fuel => rccWaitReady coreClock s.tick s.ms s.ready ms fuel
  | .flashTimeout ms, fuel => flashWaitLatency coreClock s.tick s.ms s.ready ms fuel

def requested (coreClock : UInt32) : Request → ℚ
  | .delayUs us => us.toNat * coreClock.toNat / 1000000
  | .delayMs ms | .rccTimeout ms | .flashTimeout ms => ms.toNat * coreClock.toNat / 1000

/-- The loop ends at the latest at the first sample after the requested time, and when it is the
time that ends it, at most one cycle early. -/
structure Punctual {gap : ℕ} (coreClock : UInt32) (s : Samples gap) (r : Request) : Prop where
  ends : ∀ k, 1 ≤ k → r.requested coreClock ≤ s.elapsed k →
    ∃ fuel result j, r.run coreClock s fuel = some (result, j) ∧ j ≤ k
  notShort : ∀ fuel j, r.run coreClock s fuel = some (false, j) →
    r.requested coreClock - 1 ≤ s.elapsed j

def ticks (coreClock : UInt32) : Request → ℕ
  | .delayUs us => min ((us.toNat * coreClock.toNat + 999999) / 1000000) (2 ^ 32 - 1)
  | .delayMs ms =>
    min ((min (ms.toNat * 1000) (2 ^ 32 - 1) * coreClock.toNat + 999999) / 1000000) (2 ^ 32 - 1)
  | .rccTimeout ms | .flashTimeout ms =>
    if ms = 0 then 0 else min (max (ms.toNat * coreClock.toNat / 1000) 1) (2 ^ 32 - 1)

end Request

theorem toNat_clampU64ToU32 (value : UInt64) :
    (clampU64ToU32 value).toNat = min value.toNat (2 ^ 32 - 1) := by
  rw [clampU64ToU32]
  by_cases h : value > 0xFFFFFFFF
  · have hlt : 0xFFFFFFFF < value.toNat := UInt64.lt_iff_toNat_lt.mp h
    rw [if_pos h, min_eq_right (by omega)]
    rfl
  · have hle : value.toNat ≤ 2 ^ 32 - 1 := not_lt.mp fun hlt => h (UInt64.lt_iff_toNat_lt.mpr hlt)
    rw [if_neg h, min_eq_left hle, UInt64.toNat_toUInt32]
    exact Nat.mod_eq_of_lt (by omega)

/-- A product of two 32-bit numbers leaves room in 64 bits. -/
theorem toNat_product (a b : UInt32) :
    (a.toUInt64 * b.toUInt64).toNat = a.toNat * b.toNat ∧
      a.toNat * b.toNat + 999999 < 2 ^ 64 := by
  have hle : a.toNat * b.toNat ≤ (2 ^ 32 - 1) * (2 ^ 32 - 1) :=
    Nat.mul_le_mul (Nat.le_pred_of_lt a.toNat_lt) (Nat.le_pred_of_lt b.toNat_lt)
  have hlt : a.toNat * b.toNat + 999999 < 2 ^ 64 := by omega
  refine ⟨?_, hlt⟩
  rw [UInt64.toNat_mul, UInt32.toNat_toUInt64, UInt32.toNat_toUInt64]
  exact Nat.mod_eq_of_lt (by omega)

theorem toNat_delayUsToTickCeil {coreClock : UInt32} (hclk : coreClock ≠ 0) (us : UInt32) :
    (delayUsToTickCeil us coreClock).toNat =
      min ((us.toNat * coreClock.toNat + 999999) / 1000000) (2 ^ 32 - 1) := by
  obtain ⟨hproduct, hlt⟩ := toNat_product us coreClock
  have hnumerator : (us.toUInt64 * coreClock.toUInt64 + (1000000 - 1)).toNat =
      us.toNat * coreClock.toNat + 999999 := by
    rw [UInt64.toNat_add, hproduct]
    exact Nat.mod_eq_of_lt hlt
  rw [delayUsToTickCeil, if_neg hclk, toNat_clampU64ToU32, UInt64.toNat_div, hnumerator]
  rfl

theorem toNat_msToUsClamped (ms : UInt32) :
    (msToUsClamped ms).toNat = min (ms.toNat * 1000) (2 ^ 32 - 1) := by
  have hlt := ms.toNat_lt
  have hproduct : (ms.toUInt64 * 1000).toNat = ms.toNat * 1000 := by
    rw [UInt64.toNat_mul, UInt32.toNat_toUInt64]
    exact Nat.mod_eq_of_lt (by change ms.toNat * 1000 < 2 ^ 64; omega)
  rw [msToUsClamped, toNat_clampU64ToU32, hproduct]

theorem toNat_timeoutMsToTick {coreClock : UInt32} (hclk : coreClock ≠ 0) (ms : UInt32) :
    (timeoutMsToTick coreClock ms).toNat =
      min (max (ms.toNat * coreClock.toNat / 1000) 1) (2 ^ 32 - 1) := by
  have hquotient : (ms.toUInt64 * coreClock.toUInt64 / 1000).toNat =
      ms.toNat * coreClock.toNat / 1000 := by
    rw [UInt64.toNat_div, (toNat_product ms coreClock).1]
    rfl
  rw [timeoutMsToTick, if_neg hclk, internalTimeoutMsToTick]
  by_cases hzero : ms.toUInt64 * coreClock.toUInt64 / 1000 = 0
  · rw [hzero] at hquotient
    rw [if_pos hzero, ← hquotient]
    rfl
  · have hpos : ms.toNat * coreClock.toNat / 1000 ≠ 0 := fun h =>
      hzero (UInt64.toNat_inj.mp (hquotient.trans h))
    rw [if_neg hzero, toNat_clampU64ToU32, hquotient, max_eq_left (Nat.one_le_iff_ne_zero.mpr hpos)]

namespace Samples
variable {gap : ℕ} (s : Samples gap)

theorem cycles_zero_le (k : ℕ) : s.cycles 0 ≤ s.cycles k := by
  induction k with
  | zero => exact le_refl _
  | succ k ih => exact ih.trans (s.mono k)

/-- The modular difference shows the elapsed cycles modulo the range of the counter. -/
theorem toNat_compare (k : ℕ) :
    (compare (s.tick 0) (s.tick k)).toNat = s.elapsed k % 2 ^ 32 := by
  have hle := s.cycles_zero_le k
  rw [compare, UInt32.toNat_sub, tick, tick, UInt32.toNat_ofNat', UInt32.toNat_ofNat', elapsed]
  omega

theorem paced : Paced gap s.elapsed where
  start := Nat.sub_self _
  mono k := Nat.sub_le_sub_right (s.mono k) _
  gap_le k := by
    have hle := s.gap_le k
    have hzero := s.cycles_zero_le k
    rw [elapsed, elapsed]
    omega

end Samples

namespace Request
variable {gap : ℕ} {coreClock : UInt32}

def readyAt (s : Samples gap) (k : ℕ) : Request → Bool
  | .delayUs _ | .delayMs _ => false
  | .rccTimeout _ | .flashTimeout _ => s.ready k

def readyFirst (s : Samples gap) : Request → Bool
  | .rccTimeout _ => s.ready 0
  | _ => false

theorem waitTimeoutExpired_eq (hclk : coreClock ≠ 0) (s : Samples gap) (ms : UInt32) (k : ℕ) :
    (!waitTimeoutExpired (waitTimeoutBegin coreClock s.tick s.ms true ms) (s.ms k) (s.tick k)) =
      decide (s.elapsed k % 2 ^ 32 < (Request.rccTimeout ms).ticks coreClock) := by
  rw [ticks]
  by_cases hzero : ms = 0
  · have hexpired : waitTimeoutExpired (waitTimeoutBegin coreClock s.tick s.ms true ms) (s.ms k)
        (s.tick k) = true := if_pos hzero
    rw [hexpired, if_pos hzero]
    exact (decide_eq_false (Nat.not_lt_zero _)).symm
  · have hticks := toNat_timeoutMsToTick hclk ms
    have hne : timeoutMsToTick coreClock ms ≠ 0 := by
      intro h
      rw [h, UInt32.toNat_zero] at hticks
      omega
    have hexpired : waitTimeoutExpired (waitTimeoutBegin coreClock s.tick s.ms true ms) (s.ms k)
        (s.tick k) = decide (compare (s.tick 0) (s.tick k) ≥ timeoutMsToTick coreClock ms) :=
      (if_neg hzero).trans ((if_pos rfl).trans (if_neg hne))
    rw [hexpired, if_neg hzero, ← hticks, ← s.toNat_compare, ← decide_not, decide_eq_decide,
      ge_iff_le, UInt32.not_le, UInt32.lt_iff_toNat_lt]

theorem delayUs_eq (hclk : coreClock ≠ 0) (s : Samples gap) (us : UInt32) (fuel : ℕ) :
    Dwt.delayUs coreClock s.tick us fuel =
      spin (fun k => decide (s.elapsed k % 2 ^ 32 < (delayUsToTickCeil us coreClock).toNat))
        fuel 1 := by
  rw [Dwt.delayUs, if_neg hclk]
  refine congrArg (spin · fuel 1) ?_
  funext k
  rw [decide_eq_decide, UInt32.lt_iff_toNat_lt, s.toNat_compare]

theorem waitLoop_eq (hclk : coreClock ≠ 0) (s : Samples gap) (ms : UInt32) (fuel : ℕ) :
    waitLoop s.tick s.ms s.ready (waitTimeoutBegin coreClock s.tick s.ms true ms) fuel =
      (spin (fun k => !s.ready k &&
        decide (s.elapsed k % 2 ^ 32 < (Request.rccTimeout ms).ticks coreClock)) fuel 1).map
          fun k => (s.ready k, k) := by
  rw [waitLoop]
  congr 2
  funext k
  rw [waitTimeoutExpired_eq hclk]

/-- Every loop goes on until it sees its state or enough cycles. -/
theorem run_eq (hclk : coreClock ≠ 0) (s : Samples gap) (r : Request) (fuel : ℕ) :
    r.run coreClock s fuel =
      if r.readyFirst s then some (true, 0)
      else (spin (fun k => !r.readyAt s k && decide (s.elapsed k % 2 ^ 32 < r.ticks coreClock))
        fuel 1).map fun k => (r.readyAt s k, k) := by
  have hus : ∀ us, (Request.delayUs us).ticks coreClock =
      (delayUsToTickCeil us coreClock).toNat := fun us => (toNat_delayUsToTickCeil hclk us).symm
  have hms : ∀ ms, (Request.delayMs ms).ticks coreClock =
      (delayUsToTickCeil (msToUsClamped ms) coreClock).toNat := fun ms => by
    rw [toNat_delayUsToTickCeil hclk, toNat_msToUsClamped, ticks]
  have hflash : ∀ ms, (Request.flashTimeout ms).ticks coreClock =
      (Request.rccTimeout ms).ticks coreClock := fun ms => by rw [ticks, ticks]
  cases r with
  | delayUs us =>
    simp only [run, delayUs_eq hclk, hus, readyFirst, readyAt, Bool.false_eq_true, if_false,
      Bool.not_false, Bool.true_and]
  | delayMs ms =>
    simp only [run, Dwt.delayMs, delayUs_eq hclk, hms, readyFirst, readyAt, Bool.false_eq_true,
      if_false, Bool.not_false, Bool.true_and]
  | rccTimeout ms =>
    simp only [run, rccWaitReady, waitLoop_eq hclk, readyAt]
    exact ite_congr rfl (fun _ => rfl) fun _ => rfl
  | flashTimeout ms =>
    simp only [run, flashWaitLatency, waitLoop_eq hclk, hflash, readyFirst, readyAt,
      Bool.false_eq_true, if_false]

theorem ticks_lt (coreClock : UInt32) (r : Request) : r.ticks coreClock < 2 ^ 32 := by
  have hmin : ∀ n : ℕ, min n (2 ^ 32 - 1) < 2 ^ 32 := fun n =>
    lt_of_le_of_lt (min_le_right _ _) (by norm_num)
  cases r with
  | delayUs us => exact hmin _
  | delayMs ms => exact hmin _
  | rccTimeout ms | flashTimeout ms =>
    rw [ticks]
    split
    · norm_num
    · exact hmin _

/-- Rounding up does not go past a whole number of cycles that covers the request. -/
theorem ceil_le_of_le {us clk n : ℕ} (h : us * clk ≤ n * 1000000) :
    (us * clk + 999999) / 1000000 ≤ n := by omega

/-- A whole number of cycles that covers the request is enough for the loop. -/
theorem ticks_le (hclk : coreClock ≠ 0) {r : Request} {n : ℕ} (h : r.requested coreClock ≤ n) :
    r.ticks coreClock ≤ n := by
  cases r with
  | delayUs us =>
    rw [requested, div_le_iff₀ (by norm_num)] at h
    exact (min_le_left _ _).trans (ceil_le_of_le (by exact_mod_cast h))
  | delayMs ms =>
    rw [requested, div_le_iff₀ (by norm_num)] at h
    have hnat : ms.toNat * coreClock.toNat ≤ n * 1000 := by exact_mod_cast h
    refine (min_le_left _ _).trans (ceil_le_of_le ?_)
    calc min (ms.toNat * 1000) (2 ^ 32 - 1) * coreClock.toNat
        ≤ ms.toNat * 1000 * coreClock.toNat := Nat.mul_le_mul_right _ (min_le_left _ _)
      _ = ms.toNat * coreClock.toNat * 1000 := by ring
      _ ≤ n * 1000 * 1000 := Nat.mul_le_mul_right _ hnat
      _ = n * 1000000 := by ring
  | rccTimeout ms | flashTimeout ms =>
    rw [requested, div_le_iff₀ (by norm_num)] at h
    have hnat : ms.toNat * coreClock.toNat ≤ n * 1000 := by exact_mod_cast h
    rw [ticks]
    by_cases hms : ms = 0
    · rw [if_pos hms]
      exact Nat.zero_le n
    · have hpos : 0 < ms.toNat * coreClock.toNat :=
        Nat.mul_pos (Nat.pos_of_ne_zero fun hzero => hms (UInt32.toNat_inj.mp hzero))
          (Nat.pos_of_ne_zero fun hzero => hclk (UInt32.toNat_inj.mp hzero))
      rw [if_neg hms]
      refine (min_le_left _ _).trans (max_le ?_ ?_) <;> omega

theorem requested_eq_zero {r : Request} (hclk : coreClock ≠ 0) (h : r.ticks coreClock = 0) :
    r.requested coreClock = 0 := by
  have hclkpos : 0 < coreClock.toNat :=
    Nat.pos_of_ne_zero fun hzero => hclk (UInt32.toNat_inj.mp hzero)
  have hmin : ∀ n : ℕ, min n (2 ^ 32 - 1) = 0 → n = 0 := fun n hn => by omega
  cases r with
  | delayUs us =>
    have hceil := hmin _ h
    have hzero : us.toNat * coreClock.toNat = 0 := by omega
    rw [requested, ← Nat.cast_mul, hzero, Nat.cast_zero, zero_div]
  | delayMs ms =>
    have hceil := hmin _ h
    have hzero : min (ms.toNat * 1000) (2 ^ 32 - 1) * coreClock.toNat = 0 := by omega
    have hms : ms.toNat = 0 := by
      have hfactor := (Nat.mul_eq_zero.mp hzero).resolve_right hclkpos.ne'
      omega
    rw [requested, hms, Nat.cast_zero, zero_mul, zero_div]
  | rccTimeout ms | flashTimeout ms =>
    rw [ticks] at h
    split at h
    · rename_i hms
      rw [requested, hms, UInt32.toNat_zero, Nat.cast_zero, zero_mul, zero_div]
    · exact absurd (hmin _ h) (by omega)

/-- The cycles are not cut short, and together with the gap they fit into the counter. -/
def FitsCounter (coreClock : UInt32) (gap : ℕ) (r : Request) : Prop :=
  r.ticks coreClock = 0 ∨ gap = 0 ∨
    r.requested coreClock ≤ r.ticks coreClock + 1 ∧ r.ticks coreClock + gap ≤ 2 ^ 32

/-- A sample that shows enough cycles ends the loop there or before. -/
theorem ends_of_shown (hclk : coreClock ≠ 0) {s : Samples gap} {r : Request} {j : ℕ}
    (hj : 1 ≤ j) (hshown : r.ticks coreClock ≤ s.elapsed j % 2 ^ 32) :
    ∃ fuel result i, r.run coreClock s fuel = some (result, i) ∧ i ≤ j := by
  refine ⟨j, ?_⟩
  rw [run_eq hclk]
  by_cases hfirst : r.readyFirst s = true
  · rw [if_pos hfirst]
    exact ⟨true, 0, rfl, Nat.zero_le j⟩
  · rw [if_neg hfirst]
    have hsome : (spin (fun k => !r.readyAt s k &&
        decide (s.elapsed k % 2 ^ 32 < r.ticks coreClock)) j 1).isSome = true := by
      rw [spin_isSome_iff]
      refine ⟨j - 1, by omega, ?_⟩
      rw [Nat.add_sub_cancel' hj, decide_eq_false (not_lt.mpr hshown), Bool.and_false]
    obtain ⟨i, hi⟩ := Option.isSome_iff_exists.mp hsome
    have hlt := (spin_eq_some hi).2.1
    exact ⟨r.readyAt s i, i, by rw [hi]; rfl, by omega⟩

/-- A loop that the time ends sees enough cycles there, and at no sample before. -/
theorem shown_of_run (hclk : coreClock ≠ 0) {s : Samples gap} {r : Request} {fuel j : ℕ}
    (h : r.run coreClock s fuel = some (false, j)) :
    1 ≤ j ∧ r.ticks coreClock ≤ s.elapsed j % 2 ^ 32 ∧
      ∀ i, 1 ≤ i → i < j → s.elapsed i % 2 ^ 32 < r.ticks coreClock := by
  rw [run_eq hclk] at h
  split at h
  · simp at h
  · obtain ⟨k, hk, heq⟩ := Option.map_eq_some_iff.mp h
    obtain ⟨hready, rfl⟩ := Prod.mk.inj heq
    obtain ⟨hle, -, hend, hbefore⟩ := spin_eq_some hk
    rw [hready, Bool.not_false, Bool.true_and, decide_eq_false_iff_not, not_lt] at hend
    refine ⟨hle, hend, fun i hi hij => ?_⟩
    have hagain := hbefore i hi hij
    rw [Bool.and_eq_true, decide_eq_true_eq] at hagain
    exact hagain.2

def samplesOf {elapsed : ℕ → ℕ} (h : Paced gap elapsed) : Samples gap where
  cycles := elapsed
  mono := h.mono
  gap_le := h.gap_le
  ready _ := false
  ms _ := 0

theorem elapsed_samplesOf {elapsed : ℕ → ℕ} (h : Paced gap elapsed) :
    (samplesOf h).elapsed = elapsed := by
  funext k
  change elapsed k - elapsed 0 = elapsed k
  rw [h.start, Nat.sub_zero]

theorem not_ready_samplesOf {elapsed : ℕ → ℕ} (h : Paced gap elapsed) (hclk : coreClock ≠ 0)
    {r : Request} {fuel j : ℕ} {result : Bool}
    (hrun : r.run coreClock (samplesOf h) fuel = some (result, j)) : result = false := by
  have hfirst : r.readyFirst (samplesOf h) = false := by cases r <;> rfl
  have hready : ∀ k, r.readyAt (samplesOf h) k = false := fun k => by cases r <;> rfl
  rw [run_eq hclk, hfirst, if_neg Bool.false_ne_true] at hrun
  obtain ⟨k, -, heq⟩ := Option.map_eq_some_iff.mp hrun
  exact (Prod.mk.inj heq).1.symm.trans (hready k)

theorem punctual_of_fitsCounter (hclk : coreClock ≠ 0) {r : Request}
    (h : r.FitsCounter coreClock gap) (s : Samples gap) : r.Punctual coreClock s where
  ends k hk hcovered := by
    have hle : r.ticks coreClock ≤ s.elapsed k := ticks_le hclk hcovered
    rcases Nat.eq_zero_or_pos (r.ticks coreClock) with hzero | hpos
    · exact ends_of_shown hclk hk (by rw [hzero]; exact Nat.zero_le _)
    · rcases h with hzero | rfl | hfits
      · exact absurd hzero hpos.ne'
      · rw [s.paced.eq_zero_of_gap] at hle
        exact absurd hle (not_le.mpr hpos)
      · obtain ⟨j, hj, hjk, hshown⟩ := s.paced.exists_shown hpos hfits.2 hle
        obtain ⟨fuel, result, i, hrun, hij⟩ := ends_of_shown hclk hj hshown
        exact ⟨fuel, result, i, hrun, hij.trans hjk⟩
  notShort fuel j hrun := by
    have hshown := (shown_of_run hclk hrun).2.1
    have hle : r.ticks coreClock ≤ s.elapsed j := hshown.trans (Nat.mod_le _ _)
    have hcast : (r.ticks coreClock : ℚ) ≤ s.elapsed j := Nat.cast_le.mpr hle
    rcases h with hzero | rfl | hfits
    · rw [requested_eq_zero hclk hzero]
      linarith [(Nat.cast_nonneg (s.elapsed j) : (0 : ℚ) ≤ s.elapsed j)]
    · rw [s.paced.eq_zero_of_gap] at hle
      rw [requested_eq_zero hclk (Nat.le_zero.mp hle)]
      linarith [(Nat.cast_nonneg (s.elapsed j) : (0 : ℚ) ≤ s.elapsed j)]
    · linarith [hfits.1]

/-- With a sample at every cycle the loop ends after the cycles that it waits for. -/
theorem requested_le_of_punctual (hclk : coreClock ≠ 0) {r : Request} (hgap : 1 ≤ gap)
    (hpos : 0 < r.ticks coreClock)
    (h : ∀ s : Samples gap, r.Punctual coreClock s) :
    r.requested coreClock ≤ r.ticks coreClock + 1 := by
  have helapsed := elapsed_samplesOf (paced_id hgap)
  have hlt := ticks_lt coreClock r
  obtain ⟨fuel, result, j, hrun, -⟩ := ends_of_shown (r := r) (s := samplesOf (paced_id hgap))
    (j := r.ticks coreClock) hclk hpos (by
      rw [helapsed, id_eq, Nat.mod_eq_of_lt hlt])
  rw [not_ready_samplesOf _ hclk hrun] at hrun
  obtain ⟨-, -, hbefore⟩ := shown_of_run hclk hrun
  have hj : j ≤ r.ticks coreClock := by
    by_contra hgt
    have hless := hbefore _ hpos (not_le.mp hgt)
    rw [helapsed, id_eq, Nat.mod_eq_of_lt hlt] at hless
    exact lt_irrefl _ hless
  have hshort := (h _).notShort fuel j hrun
  rw [helapsed, id_eq] at hshort
  have hcast : (j : ℚ) ≤ r.ticks coreClock := Nat.cast_le.mpr hj
  linarith

/-- Samples that step over the window from the number of cycles to the range of the counter keep
the loop from ending in time. -/
theorem fits_of_punctual (hclk : coreClock ≠ 0) {r : Request} (hpos : 0 < r.ticks coreClock)
    (hrequested : r.requested coreClock ≤ r.ticks coreClock + 1)
    (h : ∀ s : Samples gap, r.Punctual coreClock s) : r.ticks coreClock + gap ≤ 2 ^ 32 := by
  by_contra hnot
  have hlt := ticks_lt coreClock r
  have hpaced := paced_skipping hpos hlt (not_le.mp hnot)
  have helapsed := elapsed_samplesOf hpaced
  have hcovered : r.requested coreClock ≤ (samplesOf hpaced).elapsed (r.ticks coreClock) := by
    rw [helapsed, skipping_self]
    exact hrequested.trans (by exact_mod_cast hlt)
  obtain ⟨fuel, result, j, hrun, hj⟩ := (h (samplesOf hpaced)).ends _ hpos hcovered
  rw [not_ready_samplesOf _ hclk hrun] at hrun
  have hshown := (shown_of_run hclk hrun).2.1
  rw [helapsed] at hshown
  exact absurd (skipping_mod_lt hpos hj) (not_lt.mpr hshown)

end Request

/-- A loop ends on time and is not short, whatever the samples, if and only if its cycles are not
cut short and fit into the range of the counter together with the gap. -/
theorem dwt_loops_punctual_iff (coreClock : UInt32) (hclk : coreClock ≠ 0) (gap : ℕ)
    (r : Request) :
    (∀ s : Samples gap, r.Punctual coreClock s) ↔ r.FitsCounter coreClock gap := by
  constructor
  · intro h
    rcases Nat.eq_zero_or_pos (r.ticks coreClock) with hzero | hpos
    · exact Or.inl hzero
    · rcases Nat.eq_zero_or_pos gap with hgap | hgap
      · exact Or.inr (Or.inl hgap)
      · have hrequested := Request.requested_le_of_punctual hclk hgap hpos h
        exact Or.inr (Or.inr ⟨hrequested, Request.fits_of_punctual hclk hpos hrequested h⟩)
  · exact fun h s => Request.punctual_of_fitsCounter hclk h s

/-- 10 ms at 480 MHz, sampled at least every 1000 cycles. -/
theorem dwt_delay_10ms :
    (∀ s : Samples 1000, (Request.delayMs 10).Punctual 480000000 s) ↔
      (Request.delayMs 10).FitsCounter 480000000 1000 :=
  dwt_loops_punctual_iff 480000000 (by decide) 1000 (.delayMs 10)

/-- 10 s at 480 MHz are more cycles than the counter has. -/
theorem dwt_delay_10s_fails :
    ¬ ∀ (coreClock : UInt32) (gap : ℕ) (r : Request), coreClock ≠ 0 → gap < 2 ^ 31 →
      ∀ s : Samples gap, r.Punctual coreClock s := by
  intro hall
  have hticks : (Request.delayMs 10000).ticks 480000000 = 2 ^ 32 - 1 := by decide
  have hpos : 0 < (Request.delayMs 10000).ticks 480000000 := by
    rw [hticks]
    norm_num
  have hle := Request.requested_le_of_punctual (by decide) (by norm_num) hpos
    (hall 480000000 1000 (.delayMs 10000) (by decide) (by norm_num))
  rw [hticks] at hle
  have hrequested : (Request.delayMs 10000).requested 480000000 = 4800000000 := by
    change ((10000 : ℕ) : ℚ) * (480000000 : ℕ) / 1000 = 4800000000
    norm_num
  rw [hrequested] at hle
  norm_num at hle

end UniHal.Dwt
