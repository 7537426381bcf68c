import Mathlib.Data.UInt
import UniHal.Foundations.BestScan

/-! # Bit timing of the CAN controllers

`_uni_hal_can_timing_search` of the code that both drivers share, with the limits of
`uni_hal_can_timing_calc` and `uni_hal_can_timing_calc_data`. The loop is connected to the
candidate with the smallest deviation of the sample point.
-/

namespace UniHal.Can
open Foundations

/-- `uni_hal_can_timing_limits_t` -/
structure TimingLimits where
  quantaMin : UInt32
  quantaMax : UInt32
  prescalerMax : UInt32
  bs1Max : UInt32
  bs2Max : UInt32
  /-- in 1/1000 of the bit time -/
  samplePoint : UInt32
  sjwMax : UInt32

/-- `uni_hal_can_timing_t` -/
structure Timing where
  prescaler : UInt32
  bs1 : UInt32
  bs2 : UInt32
  sjw : UInt32
  deriving DecidableEq, Repr

namespace TimingLimits

def segments (limits : TimingLimits) (quanta : UInt32) : Option (UInt32 × UInt32) :=
  let wanted := (quanta * limits.samplePoint + 500) / 1000 - 1
  let bs1 := if wanted > limits.bs1Max then limits.bs1Max else wanted
  let bs2 := quanta - 1 - bs1
  let s := if bs2 < 1 then (quanta - 2, 1) else (bs1, bs2)
  if s.2 > limits.bs2Max ∨ s.1 < 1 ∨ s.1 > limits.bs1Max then none else some s

def error (limits : TimingLimits) (quanta bs1 : UInt32) : UInt32 :=
  let samplePoint := (1 + bs1) * 1000 / quanta
  if samplePoint > limits.samplePoint then samplePoint - limits.samplePoint
  else limits.samplePoint - samplePoint

/-- `for (quanta = quanta_max; quanta >= quanta_min; quanta--)` -/
def quantas (limits : TimingLimits) : List UInt32 :=
  ((List.range' limits.quantaMin.toNat
    (limits.quantaMax.toNat + 1 - limits.quantaMin.toNat)).map UInt32.ofNat).reverse

end TimingLimits

structure Search where
  found : Bool
  bestError : UInt32
  timing : Timing

/-- One round of the loop of `_uni_hal_can_timing_search`. -/
def tryQuanta (limits : TimingLimits) (ticksPerBit : UInt32) (s : Search) (quanta : UInt32) :
    Search :=
  if ticksPerBit % quanta ≠ 0 then s
  else
    let prescaler := ticksPerBit / quanta
    if prescaler = 0 ∨ prescaler > limits.prescalerMax then s
    else
      match limits.segments quanta with
      | none => s
      | some (bs1, bs2) =>
        let error := limits.error quanta bs1
        if error < s.bestError then
          { found := true
            bestError := error
            timing :=
              { prescaler := prescaler, bs1 := bs1, bs2 := bs2
                sjw := if bs2 < limits.sjwMax then bs2 else limits.sjwMax } }
        else s

/-- `_uni_hal_can_timing_search`; `timing` is what the output holds before the call. -/
def timingSearch (clockHz bitrate : UInt32) (limits : TimingLimits) (timing : Timing) :
    Bool × Timing :=
  if bitrate = 0 ∨ clockHz = 0 ∨ clockHz % bitrate ≠ 0 then (false, timing)
  else
    let s := limits.quantas.foldl (tryQuanta limits (clockHz / bitrate))
      ⟨false, 0xFFFFFFFF, timing⟩
    (s.found, s.timing)

/-- The limits of `uni_hal_can_timing_calc`, those of bxCAN. -/
def nominalLimits : TimingLimits where
  quantaMin := 8
  quantaMax := 25
  prescalerMax := 1024
  bs1Max := 16
  bs2Max := 8
  samplePoint := 875
  sjwMax := 1

def timingCalc (clockHz bitrate : UInt32) (timing : Timing) : Bool × Timing :=
  timingSearch clockHz bitrate nominalLimits timing

/-- The limits of `uni_hal_can_timing_calc_data`. -/
def dataLimits : TimingLimits where
  quantaMin := 5
  quantaMax := 25
  prescalerMax := 32
  bs1Max := 32
  bs2Max := 16
  samplePoint := 800
  sjwMax := 16

def timingCalcData (clockHz bitrate : UInt32) (timing : Timing) : Bool × Timing :=
  timingSearch clockHz bitrate dataLimits timing

def candidate (limits : TimingLimits) (ticksPerBit quanta : UInt32) : Option (UInt32 × Timing) :=
  if ticksPerBit % quanta ≠ 0 then none
  else if ticksPerBit / quanta = 0 ∨ ticksPerBit / quanta > limits.prescalerMax then none
  else (limits.segments quanta).map fun s =>
    (limits.error quanta s.1,
      { prescaler := ticksPerBit / quanta, bs1 := s.1, bs2 := s.2
        sjw := if s.2 < limits.sjwMax then s.2 else limits.sjwMax })

theorem candidate_eq_some {limits : TimingLimits} {ticks quanta : UInt32} {c : UInt32 × Timing}
    (h : candidate limits ticks quanta = some c) :
    ticks % quanta = 0 ∧ ticks / quanta ≠ 0 ∧ ticks / quanta ≤ limits.prescalerMax ∧
      limits.segments quanta = some (c.2.bs1, c.2.bs2) ∧
      c.1 = limits.error quanta c.2.bs1 ∧ c.2.prescaler = ticks / quanta := by
  unfold candidate at h
  split at h
  · exact absurd h.symm (Option.some_ne_none _)
  · rename_i hmod
    split at h
    · exact absurd h.symm (Option.some_ne_none _)
    · rename_i hrange
      obtain ⟨s, hs, rfl⟩ := Option.map_eq_some_iff.mp h
      rw [not_or, UInt32.not_lt] at hrange
      exact ⟨not_not.mp hmod, hrange.1, hrange.2, hs, rfl, rfl⟩

theorem tryQuanta_eq (limits : TimingLimits) (ticks quanta : UInt32) (s : Search) :
    tryQuanta limits ticks s quanta =
      match candidate limits ticks quanta with
      | none => s
      | some c => if c.1 < s.bestError then ⟨true, c.1, c.2⟩ else s := by
  unfold tryQuanta candidate
  by_cases hmod : ticks % quanta ≠ 0
  · rw [if_pos hmod, if_pos hmod]
  · rw [if_neg hmod, if_neg hmod]
    by_cases hrange : ticks / quanta = 0 ∨ ticks / quanta > limits.prescalerMax
    · rw [if_pos hrange, if_pos hrange]
    · rw [if_neg hrange, if_neg hrange]
      cases limits.segments quanta <;> rfl

def Search.ofBest (timing : Timing) : Option (UInt32 × Timing) → Search
  | none => ⟨false, 0xFFFFFFFF, timing⟩
  | some c => ⟨true, c.1, c.2⟩

def deviation (c : UInt32 × Timing) : ℕ := c.1.toNat

theorem tryQuanta_ofBest (limits : TimingLimits) (ticks quanta : UInt32) (timing : Timing)
    (best : Option (UInt32 × Timing))
    (hlt : ∀ c, candidate limits ticks quanta = some c → c.1 < 0xFFFFFFFF) :
    tryQuanta limits ticks (.ofBest timing best) quanta =
      .ofBest timing (BestScan.keepBest deviation best (candidate limits ticks quanta)) := by
  rw [tryQuanta_eq]
  cases hc : candidate limits ticks quanta with
  | none => rfl
  | some c =>
    cases best with
    | none => exact if_pos (hlt c hc)
    | some b =>
      by_cases hless : c.1 < b.1
      · have hdev : deviation c < deviation b := UInt32.lt_iff_toNat_lt.mp hless
        simp only [Search.ofBest, BestScan.keepBest, if_pos hdev]
        exact if_pos hless
      · have hdev : ¬ deviation c < deviation b := mt UInt32.lt_iff_toNat_lt.mpr hless
        simp only [Search.ofBest, BestScan.keepBest, if_neg hdev]
        exact if_neg hless

theorem foldl_tryQuanta (limits : TimingLimits) (ticks : UInt32) (timing : Timing)
    (l : List UInt32) (best : Option (UInt32 × Timing))
    (hlt : ∀ quanta ∈ l, ∀ c, candidate limits ticks quanta = some c → c.1 < 0xFFFFFFFF) :
    l.foldl (tryQuanta limits ticks) (.ofBest timing best) =
      .ofBest timing (l.foldl (fun b quanta =>
        BestScan.keepBest deviation b (candidate limits ticks quanta)) best) := by
  induction l generalizing best with
  | nil => rfl
  | cons quanta l ih =>
    rw [List.foldl_cons, List.foldl_cons,
      tryQuanta_ofBest _ _ _ _ _ (hlt quanta List.mem_cons_self)]
    exact ih _ fun q hq => hlt q (List.mem_cons_of_mem _ hq)

/-- The search is a scan for the candidate with the smallest deviation. -/
theorem timingSearch_eq_scan (limits : TimingLimits) (clockHz bitrate : UInt32) (timing : Timing)
    (hguard : ¬ (bitrate = 0 ∨ clockHz = 0 ∨ clockHz % bitrate ≠ 0))
    (hlt : ∀ quanta ∈ limits.quantas, ∀ c,
      candidate limits (clockHz / bitrate) quanta = some c → c.1 < 0xFFFFFFFF) :
    timingSearch clockHz bitrate limits timing =
      let s := Search.ofBest timing
        (BestScan.scan deviation (candidate limits (clockHz / bitrate)) limits.quantas)
      (s.found, s.timing) := by
  rw [timingSearch, if_neg hguard, BestScan.scan, ← foldl_tryQuanta _ _ _ _ none hlt]
  rfl

end UniHal.Can
