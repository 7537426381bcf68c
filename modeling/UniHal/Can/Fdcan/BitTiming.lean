import UniHal.Can.BitTiming

/-! # Nominal bit timing of the STM32H7 driver

The bit timing step of `uni_hal_can_init` asks the shared search, which tries prescalers up to
those of bxCAN, and checks only the timing that won against the prescaler field of FDCAN. The
bit rates that FDCAN can produce and the step refuses are determined exactly.
-/

namespace UniHal.Can.Fdcan
open Foundations

/-- The timing of `uni_hal_can_init` before the search fills it. -/
def noTiming : Timing := ⟨0, 0, 0, 0⟩

/-- The nominal bit timing step of `uni_hal_can_init`; the prescaler field is 9 bits wide. -/
def nominalTiming (clockHz bitrate : UInt32) : Bool × Timing :=
  if bitrate ≠ 0 then
    let r := timingCalc clockHz bitrate noTiming
    (r.1 && decide (r.2.prescaler ≤ 512), r.2)
  else (false, noTiming)

/-- A timing within the fields of FDCAN gives exactly this bit rate. -/
def Reachable (clockHz bitrate : UInt32) : Prop :=
  ∃ prescaler bs1 bs2 : ℕ, (1 ≤ prescaler ∧ prescaler ≤ 512) ∧ (1 ≤ bs1 ∧ bs1 ≤ 16) ∧
    (1 ≤ bs2 ∧ bs2 ≤ 8) ∧ (8 ≤ 1 + bs1 + bs2 ∧ 1 + bs1 + bs2 ≤ 25) ∧
    clockHz.toNat = bitrate.toNat * prescaler * (1 + bs1 + bs2)

/-- How far from 87.5 % the sample point of a bit of `quanta` time quanta is, in 1/1000. -/
def sampleDeviation (quanta : ℕ) : ℕ :=
  match nominalLimits.segments (.ofNat quanta) with
  | none => 0
  | some s => (nominalLimits.error (.ofNat quanta) s.1).toNat

/-- A number of quanta whose prescaler bxCAN has and FDCAN has not puts the sample point closer
to 87.5 % than every number of quanta that FDCAN can use at this bit rate. -/
def Outscored (clockHz bitrate : UInt32) : Prop :=
  ∃ quanta, (8 ≤ quanta ∧ quanta ≤ 25) ∧ quanta ∣ clockHz.toNat / bitrate.toNat ∧
    512 < clockHz.toNat / bitrate.toNat / quanta ∧
    clockHz.toNat / bitrate.toNat / quanta ≤ 1024 ∧
    ∀ usable, 8 ≤ usable ∧ usable ≤ 25 → usable ∣ clockHz.toNat / bitrate.toNat →
      clockHz.toNat / bitrate.toNat / usable ≤ 512 →
      sampleDeviation quanta < sampleDeviation usable

theorem quantas_nominal : nominalLimits.quantas =
    [25, 24, 23, 22, 21, 20, 19, 18, 17, 16, 15, 14, 13, 12, 11, 10, 9, 8] := by decide

theorem bounds_of_mem_quantas : ∀ q ∈ nominalLimits.quantas, 8 ≤ q.toNat ∧ q.toNat ≤ 25 := by
  have hall : nominalLimits.quantas.all
      (fun q => decide (8 ≤ q.toNat ∧ q.toNat ≤ 25)) = true := by
    rw [quantas_nominal]
    decide
  intro q hq
  exact of_decide_eq_true (List.all_eq_true.mp hall q hq)

theorem ofNat_mem_quantas : ∀ n < 26, 8 ≤ n → UInt32.ofNat n ∈ nominalLimits.quantas := by
  rw [quantas_nominal]
  decide

def Fits (q : UInt32) (s : UInt32 × UInt32) : Prop :=
  (1 ≤ s.1.toNat ∧ s.1.toNat ≤ 16) ∧ (1 ≤ s.2.toNat ∧ s.2.toNat ≤ 8) ∧
    1 + s.1.toNat + s.2.toNat = q.toNat ∧ nominalLimits.error q s.1 < 0xFFFFFFFF

instance (q : UInt32) (s : UInt32 × UInt32) : Decidable (Fits q s) :=
  inferInstanceAs (Decidable (_ ∧ _))

/-- No number of quanta is passed over for its segments. -/
theorem segments_nominal {q : UInt32} (hq : q ∈ nominalLimits.quantas) :
    ∃ s, nominalLimits.segments q = some s ∧ Fits q s := by
  have hall : nominalLimits.quantas.all
      (fun q => (nominalLimits.segments q).any fun s => decide (Fits q s)) = true := by
    rw [quantas_nominal]
    decide
  obtain ⟨s, hs, hfits⟩ := (Option.any_eq_true _ _).mp (List.all_eq_true.mp hall q hq)
  exact ⟨s, hs, of_decide_eq_true hfits⟩

theorem toNat_ofNat_quantas {n : ℕ} (h : n ≤ 25) : (UInt32.ofNat n).toNat = n :=
  UInt32.toNat_ofNat_of_lt (by rw [UInt32.size]; omega)

theorem sampleDeviation_toNat {q : UInt32} {s : UInt32 × UInt32}
    (hs : nominalLimits.segments q = some s) :
    sampleDeviation q.toNat = (nominalLimits.error q s.1).toNat := by
  rw [sampleDeviation, UInt32.ofNat_toNat, hs]

/-- A number of quanta that divides the bit and leaves a prescaler that bxCAN has is tried. -/
theorem exists_candidate {t : UInt32} {n : ℕ} (hn : 8 ≤ n ∧ n ≤ 25) (hdvd : n ∣ t.toNat)
    (hpos : 1 ≤ t.toNat / n) (hmax : t.toNat / n ≤ 1024) :
    ∃ c, candidate nominalLimits t (.ofNat n) = some c ∧ c.2.prescaler.toNat = t.toNat / n ∧
      deviation c = sampleDeviation n := by
  have hto : (UInt32.ofNat n).toNat = n := toNat_ofNat_quantas hn.2
  obtain ⟨s, hs, -⟩ := segments_nominal (ofNat_mem_quantas n (by omega) hn.1)
  have hdiv : (t / UInt32.ofNat n).toNat = t.toNat / n := by rw [UInt32.toNat_div, hto]
  have hmod : ¬ t % UInt32.ofNat n ≠ 0 := by
    rw [not_not, ← UInt32.toNat_inj, UInt32.toNat_mod, hto]
    exact Nat.mod_eq_zero_of_dvd hdvd
  have hrange : ¬ (t / UInt32.ofNat n = 0 ∨ t / UInt32.ofNat n > nominalLimits.prescalerMax) := by
    rw [← UInt32.toNat_inj, gt_iff_lt, UInt32.lt_iff_toNat_lt, hdiv]
    have hlimit : nominalLimits.prescalerMax.toNat = 1024 := rfl
    have hzero : (0 : UInt32).toNat = 0 := rfl
    omega
  refine ⟨_, by rw [candidate, if_neg hmod, if_neg hrange, hs]; rfl, hdiv, ?_⟩
  have hdev := sampleDeviation_toNat hs
  rw [hto] at hdev
  exact hdev.symm

theorem candidate_facts {t q : UInt32} {c : UInt32 × Timing} (hq : q ∈ nominalLimits.quantas)
    (hc : candidate nominalLimits t q = some c) :
    q.toNat ∣ t.toNat ∧ 1 ≤ t.toNat / q.toNat ∧ t.toNat / q.toNat ≤ 1024 ∧
      c.2.prescaler.toNat = t.toNat / q.toNat ∧ deviation c = sampleDeviation q.toNat ∧
      c.1 < 0xFFFFFFFF := by
  obtain ⟨hmod, hne, hmax, hs, herr, hpre⟩ := candidate_eq_some hc
  obtain ⟨s, hs', hfits⟩ := segments_nominal hq
  rw [hs, Option.some_inj] at hs'
  subst hs'
  have hdiv : (t / q).toNat = t.toNat / q.toNat := UInt32.toNat_div t q
  have hpos : (t / q).toNat ≠ 0 := fun h => hne (UInt32.toNat_inj.mp h)
  refine ⟨?_, ?_, ?_, ?_, ?_, ?_⟩
  · rw [← UInt32.toNat_inj, UInt32.toNat_mod] at hmod
    exact Nat.dvd_of_mod_eq_zero hmod
  · omega
  · exact hdiv ▸ UInt32.le_iff_toNat_le.mp hmax
  · rw [hpre, hdiv]
  · rw [deviation, herr, sampleDeviation_toNat hs]
  · rw [herr]
    exact hfits.2.2.2

def candidates (t : UInt32) : List (UInt32 × Timing) :=
  nominalLimits.quantas.filterMap (candidate nominalLimits t)

theorem mem_candidates {t : UInt32} {c : UInt32 × Timing} :
    c ∈ candidates t ↔ ∃ q ∈ nominalLimits.quantas, candidate nominalLimits t q = some c :=
  List.mem_filterMap

/-- The prescalers grow as the numbers of quanta go down. -/
theorem candidates_pairwise (t : UInt32) :
    (candidates t).Pairwise fun a b => b.2.prescaler ≤ 512 → a.2.prescaler ≤ 512 := by
  have hdesc : nominalLimits.quantas.Pairwise fun a b => b.toNat < a.toNat := by
    rw [quantas_nominal]
    decide
  rw [candidates, List.pairwise_filterMap]
  refine hdesc.imp_of_mem ?_
  intro a b ha hb hlt c hc d hd hle
  have hfacts := candidate_facts ha hc
  have hfacts' := candidate_facts hb hd
  rw [UInt32.le_iff_toNat_le] at hle ⊢
  rw [hfacts'.2.2.2.1] at hle
  rw [hfacts.2.2.2.1]
  have hb8 := (bounds_of_mem_quantas b hb).1
  exact le_trans (Nat.div_le_div_left hlt.le (by omega)) hle

/-- The step succeeds where the best candidate has a prescaler that FDCAN takes. -/
theorem nominalTiming_iff (clockHz bitrate : UInt32) :
    (nominalTiming clockHz bitrate).1 = true ↔
      (bitrate ≠ 0 ∧ clockHz ≠ 0 ∧ clockHz % bitrate = 0) ∧
        ∃ w ∈ (candidates (clockHz / bitrate)).argmin deviation, w.2.prescaler ≤ 512 := by
  by_cases hguard : bitrate = 0 ∨ clockHz = 0 ∨ clockHz % bitrate ≠ 0
  · have hfail : (nominalTiming clockHz bitrate).1 = false := by
      rw [nominalTiming, timingCalc, timingSearch, if_pos hguard]
      split <;> rfl
    rw [hfail]
    constructor
    · exact fun h => absurd h Bool.false_ne_true
    · rintro ⟨⟨hbit, hclk, hmod⟩, -⟩
      exact absurd hguard (by simp [hbit, hclk, hmod])
  · have hok : bitrate ≠ 0 ∧ clockHz ≠ 0 ∧ clockHz % bitrate = 0 := by
      simpa [not_or] using hguard
    have hlt : ∀ quanta ∈ nominalLimits.quantas, ∀ c,
        candidate nominalLimits (clockHz / bitrate) quanta = some c → c.1 < 0xFFFFFFFF :=
      fun q hq c hc => (candidate_facts hq hc).2.2.2.2.2
    rw [nominalTiming, if_pos hok.1, timingCalc, timingSearch_eq_scan _ _ _ _ hguard hlt,
      BestScan.scan_eq_argmin]
    rw [show nominalLimits.quantas.filterMap (candidate nominalLimits (clockHz / bitrate)) =
      candidates (clockHz / bitrate) from rfl]
    cases (candidates (clockHz / bitrate)).argmin deviation with
    | none => simp [Search.ofBest]
    | some w =>
      simp only [Search.ofBest, Bool.true_and, hok, Option.mem_some_iff, exists_eq_left', true_and,
        ne_eq, not_false_eq_true]
      exact decide_eq_true_iff

theorem nominalTiming_iff_exists (clockHz bitrate : UInt32) :
    (nominalTiming clockHz bitrate).1 = true ↔
      (bitrate ≠ 0 ∧ clockHz ≠ 0 ∧ clockHz % bitrate = 0) ∧
        ∃ a ∈ candidates (clockHz / bitrate), a.2.prescaler ≤ 512 ∧
          ∀ b ∈ candidates (clockHz / bitrate), ¬ b.2.prescaler ≤ 512 →
            deviation a ≤ deviation b := by
  rw [nominalTiming_iff, BestScan.argmin_accepted_iff _ _ _ (candidates_pairwise _)]

theorem reachable_iff {clockHz bitrate : UInt32} (hbit : bitrate ≠ 0) :
    Reachable clockHz bitrate ↔
      (clockHz ≠ 0 ∧ clockHz % bitrate = 0) ∧
        ∃ q, (8 ≤ q ∧ q ≤ 25) ∧ q ∣ clockHz.toNat / bitrate.toNat ∧
          1 ≤ clockHz.toNat / bitrate.toNat / q ∧ clockHz.toNat / bitrate.toNat / q ≤ 512 := by
  have hb : 0 < bitrate.toNat := Nat.pos_of_ne_zero fun h => hbit (UInt32.toNat_inj.mp h)
  constructor
  · rintro ⟨prescaler, bs1, bs2, hpre, hbs1, hbs2, hq, heq⟩
    have hticks : clockHz.toNat / bitrate.toNat = prescaler * (1 + bs1 + bs2) := by
      rw [heq, mul_assoc, Nat.mul_div_cancel_left _ hb]
    have hdiv : prescaler * (1 + bs1 + bs2) / (1 + bs1 + bs2) = prescaler :=
      Nat.mul_div_cancel _ (by omega)
    refine ⟨⟨?_, ?_⟩, 1 + bs1 + bs2, hq, ?_, ?_, ?_⟩
    · intro hzero
      have hpos : 0 < bitrate.toNat * prescaler * (1 + bs1 + bs2) :=
        Nat.mul_pos (Nat.mul_pos hb hpre.1) (by omega)
      rw [← heq, hzero] at hpos
      exact absurd hpos (by decide)
    · rw [← UInt32.toNat_inj, UInt32.toNat_mod, heq, mul_assoc]
      exact Nat.mul_mod_right _ _
    · rw [hticks]
      exact Dvd.intro_left _ rfl
    · rw [hticks, hdiv]
      exact hpre.1
    · rw [hticks, hdiv]
      exact hpre.2
  · rintro ⟨⟨-, hmod⟩, q, hq, hdvd, hpos, hmax⟩
    rw [← UInt32.toNat_inj, UInt32.toNat_mod] at hmod
    have hclk : clockHz.toNat = bitrate.toNat * (clockHz.toNat / bitrate.toNat) :=
      (Nat.mul_div_cancel' (Nat.dvd_of_mod_eq_zero hmod)).symm
    -- any split of the bit with a full first segment will do
    refine ⟨clockHz.toNat / bitrate.toNat / q, min 16 (q - 2), q - 1 - min 16 (q - 2),
      ⟨hpos, hmax⟩, by omega, by omega, by omega, ?_⟩
    have hquanta : 1 + min 16 (q - 2) + (q - 1 - min 16 (q - 2)) = q := by omega
    rw [hquanta, mul_assoc, Nat.div_mul_cancel hdvd]
    exact hclk

theorem exists_usable {clockHz bitrate : UInt32} {u : ℕ} (hu : 8 ≤ u ∧ u ≤ 25)
    (hdvd : u ∣ clockHz.toNat / bitrate.toNat) (hpos : 1 ≤ clockHz.toNat / bitrate.toNat / u)
    (hmax : clockHz.toNat / bitrate.toNat / u ≤ 512) :
    ∃ a ∈ candidates (clockHz / bitrate), a.2.prescaler ≤ 512 ∧
      deviation a = sampleDeviation u := by
  have hticks : (clockHz / bitrate).toNat = clockHz.toNat / bitrate.toNat :=
    UInt32.toNat_div clockHz bitrate
  obtain ⟨a, hca, hpre, hdev⟩ := exists_candidate (t := clockHz / bitrate) hu
    (by rwa [hticks]) (by rwa [hticks]) (by rw [hticks]; omega)
  refine ⟨a, mem_candidates.mpr ⟨_, ofNat_mem_quantas u (by omega) hu.1, hca⟩, ?_, hdev⟩
  rw [UInt32.le_iff_toNat_le, hpre, hticks]
  exact hmax

/-- A usable candidate in the list, and none that is as good as all unusable ones. -/
theorem outscored_of_refused {clockHz bitrate : UInt32}
    (hsome : candidates (clockHz / bitrate) ≠ [])
    (hbeaten : ∀ a ∈ candidates (clockHz / bitrate), a.2.prescaler ≤ 512 →
      ∃ b ∈ candidates (clockHz / bitrate), deviation b < deviation a) :
    Outscored clockHz bitrate := by
  have hticks : (clockHz / bitrate).toNat = clockHz.toNat / bitrate.toNat :=
    UInt32.toNat_div clockHz bitrate
  cases hw : (candidates (clockHz / bitrate)).argmin deviation with
  | none => exact absurd (List.argmin_eq_none.mp hw) hsome
  | some w =>
    have hmemw : w ∈ candidates (clockHz / bitrate) := List.argmin_mem hw
    -- the winner is not usable, since whatever is usable is beaten
    have hnotw : ¬ w.2.prescaler ≤ 512 := by
      intro hle
      obtain ⟨b, hb, hlt⟩ := hbeaten w hmemw hle
      exact absurd (List.le_of_mem_argmin hb hw) (not_le.mpr hlt)
    obtain ⟨qw, hqw, hcw⟩ := mem_candidates.mp hmemw
    have hfacts := candidate_facts hqw hcw
    rw [hticks] at hfacts
    rw [UInt32.le_iff_toNat_le, hfacts.2.2.2.1, not_le] at hnotw
    have hpos : 0 < clockHz.toNat / bitrate.toNat :=
      lt_of_lt_of_le hfacts.2.1 (Nat.div_le_self _ _)
    refine ⟨qw.toNat, bounds_of_mem_quantas qw hqw, hfacts.1, hnotw, hfacts.2.2.1, ?_⟩
    intro u hu hdu hlu
    have hpu : 1 ≤ clockHz.toNat / bitrate.toNat / u :=
      Nat.div_pos (Nat.le_of_dvd hpos hdu) (by omega)
    obtain ⟨a, ha, hle, hdev⟩ := exists_usable hu hdu hpu hlu
    obtain ⟨b, hb, hlt⟩ := hbeaten a ha hle
    calc sampleDeviation qw.toNat = deviation w := hfacts.2.2.2.2.1.symm
      _ ≤ deviation b := List.le_of_mem_argmin hb hw
      _ < deviation a := hlt
      _ = sampleDeviation u := hdev

theorem reachable_of_nominalTiming {clockHz bitrate : UInt32}
    (h : (nominalTiming clockHz bitrate).1 = true) : Reachable clockHz bitrate := by
  obtain ⟨⟨hbit, hclk, hmod⟩, a, ha, hle, -⟩ := (nominalTiming_iff_exists _ _).mp h
  obtain ⟨qa, hqa, hca⟩ := mem_candidates.mp ha
  have hfacts := candidate_facts hqa hca
  rw [UInt32.toNat_div] at hfacts
  rw [UInt32.le_iff_toNat_le, hfacts.2.2.2.1] at hle
  exact (reachable_iff hbit).mpr ⟨⟨hclk, hmod⟩, qa.toNat, bounds_of_mem_quantas qa hqa,
    hfacts.1, hfacts.2.1, hle⟩

theorem not_outscored_of_nominalTiming {clockHz bitrate : UInt32}
    (h : (nominalTiming clockHz bitrate).1 = true) : ¬ Outscored clockHz bitrate := by
  rintro ⟨q, hq, hdvd, hmin, hmax, hbeaten⟩
  have hticks : (clockHz / bitrate).toNat = clockHz.toNat / bitrate.toNat :=
    UInt32.toNat_div clockHz bitrate
  obtain ⟨-, a, ha, hle, hbest⟩ := (nominalTiming_iff_exists _ _).mp h
  obtain ⟨qa, hqa, hca⟩ := mem_candidates.mp ha
  have hfacts := candidate_facts hqa hca
  rw [hticks] at hfacts
  obtain ⟨b, hcb, hpre, hdev⟩ := exists_candidate (t := clockHz / bitrate) hq
    (by rwa [hticks]) (by rw [hticks]; omega) (by rwa [hticks])
  have hnot : ¬ b.2.prescaler ≤ 512 := by
    rw [UInt32.le_iff_toNat_le, hpre, hticks]
    exact not_le.mpr hmin
  have hwon : deviation a ≤ deviation b :=
    hbest b (mem_candidates.mpr ⟨_, ofNat_mem_quantas q (by omega) hq.1, hcb⟩) hnot
  rw [UInt32.le_iff_toNat_le, hfacts.2.2.2.1] at hle
  rw [hdev, hfacts.2.2.2.2.1] at hwon
  exact absurd (hbeaten _ (bounds_of_mem_quantas qa hqa) hfacts.1 hle) (not_lt.mpr hwon)

theorem nominalTiming_of_reachable {clockHz bitrate : UInt32} (hbit : bitrate ≠ 0)
    (hreach : Reachable clockHz bitrate) (hout : ¬ Outscored clockHz bitrate) :
    (nominalTiming clockHz bitrate).1 = true := by
  obtain ⟨⟨hclk, hmod⟩, q, hq, hdvd, hpos, hmax⟩ := (reachable_iff hbit).mp hreach
  rw [nominalTiming_iff_exists]
  refine ⟨⟨hbit, hclk, hmod⟩, ?_⟩
  by_contra hrefused
  obtain ⟨a, ha, -, -⟩ := exists_usable hq hdvd hpos hmax
  apply hout
  apply outscored_of_refused (List.ne_nil_of_mem ha)
  intro a ha hle
  by_contra hnone
  exact hrefused ⟨a, ha, hle, fun b hb _ => not_lt.mp fun hlt => hnone ⟨b, hb, hlt⟩⟩

/-- The bit timing step accepts exactly the bit rates that FDCAN can produce, unless an unusable
number of quanta outscores all usable ones. -/
theorem nominalTiming_exact_iff (clockHz bitrate : UInt32) (hbit : bitrate ≠ 0) :
    ((nominalTiming clockHz bitrate).1 = true ↔ Reachable clockHz bitrate) ↔
      ¬ (Reachable clockHz bitrate ∧ Outscored clockHz bitrate) := by
  constructor
  · rintro hiff ⟨hreach, hout⟩
    exact not_outscored_of_nominalTiming (hiff.mpr hreach) hout
  · intro hnot
    exact ⟨reachable_of_nominalTiming, fun hreach =>
      nominalTiming_of_reachable hbit hreach fun hout => hnot ⟨hreach, hout⟩⟩

/-- 500 kbit/s from 80 MHz. -/
theorem nominalTiming_exact_500k :
    ((nominalTiming 80000000 500000).1 = true ↔ Reachable 80000000 500000) ↔
      ¬ (Reachable 80000000 500000 ∧ Outscored 80000000 500000) :=
  nominalTiming_exact_iff 80000000 500000 (by decide)

/-- 10 kbit/s from 42 MHz: 15 quanta at a prescaler of 280 would do, but 8 quanta at 525 hit the
wanted sample point. -/
theorem nominalTiming_refuses_reachable :
    ¬ ∀ clockHz bitrate : UInt32, bitrate ≠ 0 →
      ((nominalTiming clockHz bitrate).1 = true ↔ Reachable clockHz bitrate) := by
  intro hall
  have hreach : Reachable 42000000 10000 := ⟨280, 12, 2, by decide⟩
  have hrefused : (nominalTiming 42000000 10000).1 = false := by decide
  exact absurd ((hall 42000000 10000 (by decide)).mpr hreach) (by rw [hrefused]; decide)

/-- Up to 4096 clock periods per bit every prescaler that is tried is one that FDCAN takes. -/
theorem nominalTiming_of_short_bit {clockHz bitrate : UInt32} (hbit : bitrate ≠ 0)
    (hshort : clockHz.toNat ≤ 4096 * bitrate.toNat) :
    (nominalTiming clockHz bitrate).1 = true ↔ Reachable clockHz bitrate := by
  have hticks : clockHz.toNat / bitrate.toNat ≤ 4096 := Nat.div_le_of_le_mul (by omega)
  refine ⟨reachable_of_nominalTiming, fun hreach => nominalTiming_of_reachable hbit hreach ?_⟩
  rintro ⟨q, hq, -, hmin, -, -⟩
  have hle : clockHz.toNat / bitrate.toNat / q ≤ 4096 / 8 := by
    calc clockHz.toNat / bitrate.toNat / q ≤ 4096 / q := Nat.div_le_div_right hticks
      _ ≤ 4096 / 8 := Nat.div_le_div_left hq.1 (by decide)
  omega

end UniHal.Can.Fdcan
