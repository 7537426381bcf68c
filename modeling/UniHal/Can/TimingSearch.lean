import Mathlib.Data.Nat.Dist
import UniHal.Can.BitTiming

/-! # The bit timing search finds the best timing

The loop looks at one split of each number of quanta. For both limit sets this split is as close
to the wanted sample point as any other one within the limits, so the search misses no exact
timing and returns the best of them.
-/

namespace UniHal.Can
open Foundations

/-- A prescaler and segments within the limits that give exactly this bit rate. -/
structure ExactTiming (limits : TimingLimits) (clockHz bitrate : UInt32)
    (prescaler bs1 bs2 : ℕ) : Prop where
  prescaler_pos : 1 ≤ prescaler
  prescaler_le : prescaler ≤ limits.prescalerMax.toNat
  bs1_pos : 1 ≤ bs1
  bs1_le : bs1 ≤ limits.bs1Max.toNat
  bs2_pos : 1 ≤ bs2
  bs2_le : bs2 ≤ limits.bs2Max.toNat
  quanta_ge : limits.quantaMin.toNat ≤ 1 + bs1 + bs2
  quanta_le : 1 + bs1 + bs2 ≤ limits.quantaMax.toNat
  exact : clockHz.toNat = bitrate.toNat * prescaler * (1 + bs1 + bs2)

def pointError (limits : TimingLimits) (bs1 bs2 : ℕ) : ℕ :=
  Nat.dist ((1 + bs1) * 1000 / (1 + bs1 + bs2)) limits.samplePoint.toNat

/-- The steps of a round of the loop that could leave the range of `uint32_t`. -/
@[mk_iff] structure RoundInRange (limits : TimingLimits) (quanta : ℕ) : Prop where
  product : quanta * limits.samplePoint.toNat + 500 < 2 ^ 32
  rounded : 1 ≤ (quanta * limits.samplePoint.toNat + 500) / 1000
  /-- `quanta - 1U`, `quanta - 2U` and `quanta--` -/
  counter : 2 ≤ quanta
  bs2 : min ((quanta * limits.samplePoint.toNat + 500) / 1000 - 1) limits.bs1Max.toNat ≤
    quanta - 1
  point : quanta * 1000 < 2 ^ 32

instance (limits : TimingLimits) (quanta : ℕ) : Decidable (RoundInRange limits quanta) :=
  decidable_of_iff _ (roundInRange_iff limits quanta).symm

/-- What a search with these limits owes to its caller; `timing` is what the output held. -/
structure SearchOptimal (limits : TimingLimits) (clockHz bitrate : UInt32) (timing : Timing)
    (r : Bool × Timing) : Prop where
  found_iff : r.1 = true ↔
    bitrate ≠ 0 ∧ ∃ prescaler bs1 bs2, ExactTiming limits clockHz bitrate prescaler bs1 bs2
  exact : r.1 = true →
    ExactTiming limits clockHz bitrate r.2.prescaler.toNat r.2.bs1.toNat r.2.bs2.toNat
  jumpWidth : r.1 = true → 1 ≤ r.2.sjw.toNat ∧ r.2.sjw.toNat ≤ r.2.bs2.toNat
  closest : r.1 = true → ∀ prescaler bs1 bs2,
    ExactTiming limits clockHz bitrate prescaler bs1 bs2 →
      pointError limits r.2.bs1.toNat r.2.bs2.toNat ≤ pointError limits bs1 bs2
  mostQuanta : r.1 = true → ∀ prescaler bs1 bs2,
    ExactTiming limits clockHz bitrate prescaler bs1 bs2 →
      pointError limits bs1 bs2 = pointError limits r.2.bs1.toNat r.2.bs2.toNat →
      1 + bs1 + bs2 ≤ 1 + r.2.bs1.toNat + r.2.bs2.toNat
  unwritten : r.1 = false → r.2 = timing
  inRange : ∀ quanta ∈ limits.quantas, RoundInRange limits quanta.toNat

theorem mem_quantas {limits : TimingLimits} {q : UInt32} :
    q ∈ limits.quantas ↔
      limits.quantaMin.toNat ≤ q.toNat ∧ q.toNat ≤ limits.quantaMax.toNat := by
  have hlt : limits.quantaMax.toNat < UInt32.size := limits.quantaMax.toNat_lt
  simp only [TimingLimits.quantas, List.mem_reverse, List.mem_map, List.mem_range'_1]
  constructor
  · rintro ⟨n, hn, rfl⟩
    rw [UInt32.toNat_ofNat_of_lt' (by omega)]
    omega
  · intro hq
    exact ⟨q.toNat, by omega, UInt32.ofNat_toNat⟩

theorem quantas_pairwise (limits : TimingLimits) :
    limits.quantas.Pairwise fun a b => b.toNat < a.toNat := by
  have hlt : limits.quantaMax.toNat < UInt32.size := limits.quantaMax.toNat_lt
  rw [TimingLimits.quantas, List.pairwise_reverse, List.pairwise_map]
  refine List.Pairwise.imp_of_mem ?_ (List.pairwise_lt_range' 1)
  intro a b ha hb hab
  rw [List.mem_range'_1] at ha hb
  rwa [UInt32.toNat_ofNat_of_lt' (by omega), UInt32.toNat_ofNat_of_lt' (by omega)]

/-- The split fills the bit within the limits, and no other one is closer to the wanted sample
point. -/
@[mk_iff] structure BestSplit (limits : TimingLimits) (quanta : UInt32) (s : UInt32 × UInt32) :
    Prop where
  bs1_pos : 1 ≤ s.1.toNat
  bs1_le : s.1.toNat ≤ limits.bs1Max.toNat
  bs2_pos : 1 ≤ s.2.toNat
  bs2_le : s.2.toNat ≤ limits.bs2Max.toNat
  fills : 1 + s.1.toNat + s.2.toNat = quanta.toNat
  error_eq : (limits.error quanta s.1).toNat = pointError limits s.1.toNat s.2.toNat
  error_lt : (limits.error quanta s.1).toNat < 0xFFFFFFFF
  best : ∀ bs1 < quanta.toNat, 1 ≤ bs1 → bs1 ≤ limits.bs1Max.toNat →
    1 ≤ quanta.toNat - 1 - bs1 → quanta.toNat - 1 - bs1 ≤ limits.bs2Max.toNat →
    pointError limits s.1.toNat s.2.toNat ≤ pointError limits bs1 (quanta.toNat - 1 - bs1)

instance (limits : TimingLimits) (quanta : UInt32) (s : UInt32 × UInt32) :
    Decidable (BestSplit limits quanta s) :=
  decidable_of_iff _ (bestSplit_iff limits quanta s).symm

/-- Every number of quanta is tried with its best split, within the range of `uint32_t`. -/
def SplitsBest (limits : TimingLimits) : Prop :=
  ∀ q ∈ limits.quantas, RoundInRange limits q.toNat ∧
    ∃ s, limits.segments q = some s ∧ BestSplit limits q s

theorem splitsBest_of_all {limits : TimingLimits}
    (h : limits.quantas.all (fun q => decide (RoundInRange limits q.toNat) &&
      (limits.segments q).any fun s => decide (BestSplit limits q s)) = true) :
    SplitsBest limits := by
  intro q hq
  have hround := List.all_eq_true.mp h q hq
  rw [Bool.and_eq_true, Option.any_eq_true] at hround
  obtain ⟨hrange, s, hs, hbest⟩ := hround
  exact ⟨of_decide_eq_true hrange, s, hs, of_decide_eq_true hbest⟩

theorem nominal_splitsBest : SplitsBest nominalLimits := splitsBest_of_all (by decide +kernel)

theorem data_splitsBest : SplitsBest dataLimits := splitsBest_of_all (by decide +kernel)

section Candidates
variable {limits : TimingLimits} {clockHz bitrate : UInt32}

/-- The timing of a candidate is exact, and its deviation is the error of the sample point. -/
theorem exactTiming_of_candidate (hsplit : SplitsBest limits) (hmod : clockHz % bitrate = 0)
    {q : UInt32} (hq : q ∈ limits.quantas) {c : UInt32 × Timing}
    (hc : candidate limits (clockHz / bitrate) q = some c) :
    ExactTiming limits clockHz bitrate c.2.prescaler.toNat c.2.bs1.toNat c.2.bs2.toNat ∧
      1 + c.2.bs1.toNat + c.2.bs2.toNat = q.toNat ∧
      deviation c = pointError limits c.2.bs1.toNat c.2.bs2.toNat ∧ c.1 < 0xFFFFFFFF := by
  obtain ⟨hdvd, hpos, hmax, hseg, herr, hpre⟩ := candidate_eq_some hc
  obtain ⟨-, s, hs, hbest⟩ := hsplit q hq
  rw [hseg, Option.some_inj] at hs
  subst hs
  have hquanta := mem_quantas.mp hq
  have hfills := hbest.fills
  have hticks : clockHz.toNat = bitrate.toNat * (clockHz / bitrate).toNat := by
    rw [UInt32.toNat_div, Nat.mul_div_cancel']
    exact Nat.dvd_of_mod_eq_zero (by rw [← UInt32.toNat_mod, hmod]; rfl)
  have hper : (clockHz / bitrate).toNat = c.2.prescaler.toNat * q.toNat := by
    rw [hpre, UInt32.toNat_div (clockHz / bitrate), Nat.div_mul_cancel]
    exact Nat.dvd_of_mod_eq_zero (by rw [← UInt32.toNat_mod, hdvd]; rfl)
  have hprepos : c.2.prescaler.toNat ≠ 0 := fun h => hpos (hpre ▸ UInt32.toNat_inj.mp h)
  refine ⟨?_, hfills, ?_, ?_⟩
  · constructor
    · omega
    · exact hpre ▸ UInt32.le_iff_toNat_le.mp hmax
    · exact hbest.bs1_pos
    · exact hbest.bs1_le
    · exact hbest.bs2_pos
    · exact hbest.bs2_le
    · exact hfills ▸ hquanta.1
    · exact hfills ▸ hquanta.2
    · rw [hfills, hticks, hper, Nat.mul_assoc]
  · rw [deviation, herr, hbest.error_eq]
  · rw [herr, UInt32.lt_iff_toNat_lt]
    exact hbest.error_lt

/-- The jump width of a candidate fits its second segment. -/
theorem jumpWidth_of_candidate (hsjw : 1 ≤ limits.sjwMax.toNat) {ticks q : UInt32}
    {c : UInt32 × Timing} (hc : candidate limits ticks q = some c) (hpos : 1 ≤ c.2.bs2.toNat) :
    1 ≤ c.2.sjw.toNat ∧ c.2.sjw.toNat ≤ c.2.bs2.toNat := by
  unfold candidate at hc
  split at hc
  · cases hc
  · split at hc
    · cases hc
    · obtain ⟨s, -, rfl⟩ := Option.map_eq_some_iff.mp hc
      dsimp only at hpos ⊢
      split
      · exact ⟨hpos, le_refl _⟩
      · rename_i hle
        rw [UInt32.not_lt, UInt32.le_iff_toNat_le] at hle
        exact ⟨hsjw, hle⟩

/-- An exact timing is met by a candidate with as many quanta that is at least as close to the
wanted sample point. -/
theorem exists_candidate_of_exactTiming (hsplit : SplitsBest limits) (hbit : bitrate ≠ 0)
    {prescaler bs1 bs2 : ℕ} (h : ExactTiming limits clockHz bitrate prescaler bs1 bs2) :
    ∃ q ∈ limits.quantas, q.toNat = 1 + bs1 + bs2 ∧
      ∃ c, candidate limits (clockHz / bitrate) q = some c ∧
        deviation c ≤ pointError limits bs1 bs2 := by
  have hlt : limits.quantaMax.toNat < UInt32.size := limits.quantaMax.toNat_lt
  have hquanta := h.quanta_le
  have hq : (UInt32.ofNat (1 + bs1 + bs2)).toNat = 1 + bs1 + bs2 :=
    UInt32.toNat_ofNat_of_lt' (by omega)
  have hmem : UInt32.ofNat (1 + bs1 + bs2) ∈ limits.quantas :=
    mem_quantas.mpr (by rw [hq]; exact ⟨h.quanta_ge, h.quanta_le⟩)
  generalize UInt32.ofNat (1 + bs1 + bs2) = q at hq hmem
  obtain ⟨-, s, hs, hbest⟩ := hsplit q hmem
  have hpos : 0 < bitrate.toNat :=
    Nat.pos_of_ne_zero fun hzero => hbit (UInt32.toNat_inj.mp hzero)
  have hticks : (clockHz / bitrate).toNat = prescaler * q.toNat := by
    rw [UInt32.toNat_div, h.exact, hq, Nat.mul_assoc, Nat.mul_div_cancel_left _ hpos]
  have hdiv : (clockHz / bitrate / q).toNat = prescaler := by
    rw [UInt32.toNat_div, hticks, Nat.mul_div_cancel _ (by omega)]
  have hmod : ¬ clockHz / bitrate % q ≠ 0 := by
    rw [not_not, ← UInt32.toNat_inj, UInt32.toNat_mod, hticks]
    exact Nat.mul_mod_left _ _
  have hrange : ¬ (clockHz / bitrate / q = 0 ∨ clockHz / bitrate / q > limits.prescalerMax) := by
    rw [← UInt32.toNat_inj, gt_iff_lt, UInt32.lt_iff_toNat_lt, hdiv]
    have hprepos := h.prescaler_pos
    have hprele := h.prescaler_le
    have hzero : (0 : UInt32).toNat = 0 := rfl
    omega
  refine ⟨q, hmem, hq, _, by rw [candidate, if_neg hmod, if_neg hrange, hs]; rfl, ?_⟩
  have hother : q.toNat - 1 - bs1 = bs2 := by omega
  have hle := hbest.best bs1 (by omega) h.bs1_pos h.bs1_le (hother ▸ h.bs2_pos)
    (hother ▸ h.bs2_le)
  rw [hother] at hle
  exact (le_of_eq hbest.error_eq).trans hle

/-- An exact timing needs a bit rate that divides the clock. -/
theorem dvd_of_exactTiming (hbit : bitrate ≠ 0) {prescaler bs1 bs2 : ℕ}
    (h : ExactTiming limits clockHz bitrate prescaler bs1 bs2) :
    ¬ (bitrate = 0 ∨ clockHz = 0 ∨ clockHz % bitrate ≠ 0) := by
  have hpos : 0 < bitrate.toNat :=
    Nat.pos_of_ne_zero fun hzero => hbit (UInt32.toNat_inj.mp hzero)
  rintro (hzero | hzero | hmod)
  · exact hbit hzero
  · have hclk := h.exact
    have hpre := h.prescaler_pos
    rw [hzero, Nat.mul_assoc] at hclk
    have hprod : 0 < bitrate.toNat * (prescaler * (1 + bs1 + bs2)) :=
      Nat.mul_pos hpos (Nat.mul_pos hpre (by omega))
    exact hprod.ne hclk
  · refine hmod (UInt32.toNat_inj.mp ?_)
    rw [UInt32.toNat_mod, h.exact, Nat.mul_assoc, Nat.mul_mod_right]
    rfl

/-- The candidates in the order of the search, which is that of the numbers of quanta. -/
theorem candidates_quanta_pairwise (hsplit : SplitsBest limits) (hmod : clockHz % bitrate = 0) :
    (limits.quantas.filterMap (candidate limits (clockHz / bitrate))).Pairwise fun a b =>
      1 + b.2.bs1.toNat + b.2.bs2.toNat < 1 + a.2.bs1.toNat + a.2.bs2.toNat := by
  rw [List.pairwise_filterMap]
  refine List.Pairwise.imp_of_mem ?_ (quantas_pairwise limits)
  intro a b ha hb hlt c hc d hd
  have hquanta := (exactTiming_of_candidate hsplit hmod ha hc).2.1
  have hquanta' := (exactTiming_of_candidate hsplit hmod hb hd).2.1
  rwa [hquanta, hquanta']

/-- The winner of the search beats every exact timing, and has the most quanta of its equals. -/
theorem winner_beats (hsplit : SplitsBest limits) (hbit : bitrate ≠ 0)
    (hmod : clockHz % bitrate = 0) {w : UInt32 × Timing}
    (hw : w ∈ (limits.quantas.filterMap (candidate limits (clockHz / bitrate))).argmin deviation)
    {prescaler bs1 bs2 : ℕ} (h : ExactTiming limits clockHz bitrate prescaler bs1 bs2) :
    deviation w ≤ pointError limits bs1 bs2 ∧
      (pointError limits bs1 bs2 = deviation w →
        1 + bs1 + bs2 ≤ 1 + w.2.bs1.toNat + w.2.bs2.toNat) := by
  obtain ⟨q, hq, hquanta, c, hc, hle⟩ := exists_candidate_of_exactTiming hsplit hbit h
  have hmem : c ∈ limits.quantas.filterMap (candidate limits (clockHz / bitrate)) :=
    List.mem_filterMap.mpr ⟨q, hq, hc⟩
  have hfills := (exactTiming_of_candidate hsplit hmod hq hc).2.1
  refine ⟨(List.le_of_mem_argmin hmem hw).trans hle, fun heq => ?_⟩
  rcases BestScan.argmin_eq_or_before deviation (candidates_quanta_pairwise hsplit hmod) hw hmem
    (heq ▸ hle) with rfl | hbefore
  · omega
  · omega

theorem SearchOptimal.of_none (hsplit : SplitsBest limits) (timing : Timing)
    (hnone : ∀ prescaler bs1 bs2, bitrate ≠ 0 →
      ¬ ExactTiming limits clockHz bitrate prescaler bs1 bs2) :
    SearchOptimal limits clockHz bitrate timing (false, timing) where
  found_iff := by
    refine iff_of_false Bool.false_ne_true ?_
    rintro ⟨hbit, prescaler, bs1, bs2, h⟩
    exact hnone prescaler bs1 bs2 hbit h
  exact h := absurd h Bool.false_ne_true
  jumpWidth h := absurd h Bool.false_ne_true
  closest h := absurd h Bool.false_ne_true
  mostQuanta h := absurd h Bool.false_ne_true
  unwritten _ := rfl
  inRange q hq := (hsplit q hq).1

theorem timingSearch_optimal (hsplit : SplitsBest limits) (hsjw : 1 ≤ limits.sjwMax.toNat)
    (clockHz bitrate : UInt32) (timing : Timing) :
    SearchOptimal limits clockHz bitrate timing (timingSearch clockHz bitrate limits timing) := by
  by_cases hguard : bitrate = 0 ∨ clockHz = 0 ∨ clockHz % bitrate ≠ 0
  · rw [timingSearch, if_pos hguard]
    exact .of_none hsplit timing fun _ _ _ hbit h => dvd_of_exactTiming hbit h hguard
  · have hok : bitrate ≠ 0 ∧ clockHz ≠ 0 ∧ clockHz % bitrate = 0 := by
      simpa [not_or] using hguard
    have hlt : ∀ quanta ∈ limits.quantas, ∀ c,
        candidate limits (clockHz / bitrate) quanta = some c → c.1 < 0xFFFFFFFF :=
      fun q hq c hc => (exactTiming_of_candidate hsplit hok.2.2 hq hc).2.2.2
    rw [timingSearch_eq_scan _ _ _ _ hguard hlt, BestScan.scan_eq_argmin]
    cases hbest : (limits.quantas.filterMap (candidate limits (clockHz / bitrate))).argmin
        deviation with
    | none =>
      refine .of_none hsplit timing fun _ _ _ hbit h => ?_
      obtain ⟨q, hq, -, c, hc, -⟩ := exists_candidate_of_exactTiming hsplit hbit h
      have hmem := List.mem_filterMap.mpr ⟨q, hq, hc⟩
      rw [List.argmin_eq_none.mp hbest] at hmem
      exact List.not_mem_nil hmem
    | some w =>
      obtain ⟨q, hq, hc⟩ := List.mem_filterMap.mp (List.argmin_mem hbest)
      obtain ⟨hexact, hquanta, hdev, -⟩ := exactTiming_of_candidate hsplit hok.2.2 hq hc
      exact
        { found_iff := iff_of_true rfl ⟨hok.1, _, _, _, hexact⟩
          exact := fun _ => hexact
          jumpWidth := fun _ => jumpWidth_of_candidate hsjw hc hexact.bs2_pos
          closest := fun _ _ _ _ h =>
            hdev.symm.le.trans (winner_beats hsplit hok.1 hok.2.2 hbest h).1
          mostQuanta := fun _ _ _ _ h heq =>
            (winner_beats hsplit hok.1 hok.2.2 hbest h).2 (heq.trans hdev.symm)
          unwritten := fun h => absurd h.symm Bool.false_ne_true
          inRange := fun q hq => (hsplit q hq).1 }

end Candidates

/-- For both limit sets, every clock and every bit rate the search finds the best exact timing
where there is one, and a bit rate of 0 is refused. -/
theorem timing_search_complete_optimal (clockHz bitrate : UInt32) (timing : Timing) :
    SearchOptimal nominalLimits clockHz bitrate timing (timingCalc clockHz bitrate timing) ∧
      SearchOptimal dataLimits clockHz bitrate timing (timingCalcData clockHz bitrate timing) :=
  ⟨timingSearch_optimal nominal_splitsBest (by decide) clockHz bitrate timing,
    timingSearch_optimal data_splitsBest (by decide) clockHz bitrate timing⟩

/-- A bit rate of 0 fits a clock of 0 by the equation alone, and the search refuses it. -/
theorem timing_search_zero_bitrate :
    ¬ ∀ (clockHz bitrate : UInt32) (timing : Timing),
      (timingCalc clockHz bitrate timing).1 = true ↔
        ∃ prescaler bs1 bs2, ExactTiming nominalLimits clockHz bitrate prescaler bs1 bs2 := by
  intro h
  have hfound : (timingCalc 0 0 ⟨0, 0, 0, 0⟩).1 = true :=
    (h 0 0 ⟨0, 0, 0, 0⟩).mpr ⟨1, 6, 1, by constructor <;> decide +kernel⟩
  rw [timingCalc, timingSearch, if_pos (.inl rfl)] at hfound
  exact Bool.false_ne_true hfound

end UniHal.Can
