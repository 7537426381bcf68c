import UniHal.Foundations.BitField
import UniHal.Can.TimingSearch
import UniHal.Can.Init

/-! # Bit timing registers of the CAN controllers

The words that `uni_hal_can_init` of both drivers writes for a bit timing: BTR of bxCAN, NBTP,
DBTP and TDCR of FDCAN. Every field holds its number minus one. The searches give more than that
each number is in range: together they keep the offset of the transmitter delay compensation
away from its clamp.
-/

namespace UniHal.Can
open Foundations BitField Init

structure TimingFields where
  prescaler : Field 32
  bs1 : Field 32
  bs2 : Field 32
  sjw : Field 32

namespace TimingFields

/-- The word gives back the timing, and the fields beside it read `base`. -/
structure Decodes (f : TimingFields) (base word : BitVec 32) (t : Timing) : Prop where
  prescaler : (f.prescaler.read word).toNat + 1 = t.prescaler.toNat
  bs1 : (f.bs1.read word).toNat + 1 = t.bs1.toNat
  bs2 : (f.bs2.read word).toNat + 1 = t.bs2.toNat
  sjw : (f.sjw.read word).toNat + 1 = t.sjw.toNat
  beside : ∀ g : Field 32, f.prescaler.Apart g → f.bs1.Apart g → f.bs2.Apart g →
    f.sjw.Apart g → g.read word = g.read base

/-- Each number minus one fits its field. -/
structure Fits (f : TimingFields) (t : Timing) : Prop where
  prescaler_pos : 1 ≤ t.prescaler.toNat
  prescaler_le : t.prescaler.toNat ≤ 2 ^ f.prescaler.width
  bs1_pos : 1 ≤ t.bs1.toNat
  bs1_le : t.bs1.toNat ≤ 2 ^ f.bs1.width
  bs2_pos : 1 ≤ t.bs2.toNat
  bs2_le : t.bs2.toNat ≤ 2 ^ f.bs2.width
  sjw_pos : 1 ≤ t.sjw.toNat
  sjw_le : t.sjw.toNat ≤ 2 ^ f.sjw.width

def values (f : TimingFields) (t : Timing) : List (Field 32 × BitVec 32) :=
  [(f.sjw, (t.sjw - 1).toBitVec), (f.prescaler, (t.prescaler - 1).toBitVec),
    (f.bs1, (t.bs1 - 1).toBitVec), (f.bs2, (t.bs2 - 1).toBitVec)]

def Disjoint (f : TimingFields) : Prop :=
  [f.sjw, f.prescaler, f.bs1, f.bs2].Pairwise Field.Apart

instance (f : TimingFields) : Decidable f.Disjoint :=
  inferInstanceAs (Decidable (List.Pairwise _ _))

theorem toNat_pred {x : UInt32} (h : 1 ≤ x.toNat) : (x - 1).toBitVec.toNat + 1 = x.toNat := by
  have hle : (1 : UInt32) ≤ x := UInt32.le_iff_toNat_le.mpr h
  change (x - 1).toNat + 1 = x.toNat
  rw [UInt32.toNat_sub_of_le _ _ hle]
  exact Nat.sub_add_cancel h

theorem Fits.values {f : TimingFields} {t : Timing} (h : f.Fits t) :
    ∀ p ∈ f.values t, p.2.toNat < 2 ^ p.1.width := by
  have hlt : ∀ {x : UInt32} {n : ℕ}, 1 ≤ x.toNat → x.toNat ≤ n → (x - 1).toBitVec.toNat < n := by
    intro x n hpos hle
    have hpred := toNat_pred hpos
    omega
  simp only [TimingFields.values, List.forall_mem_cons]
  exact ⟨hlt h.sjw_pos h.sjw_le, hlt h.prescaler_pos h.prescaler_le, hlt h.bs1_pos h.bs1_le,
    hlt h.bs2_pos h.bs2_le, fun _ hp => absurd hp List.not_mem_nil⟩

/-- A timing that fits is put into disjoint fields and read back. -/
theorem decodes_assemble {f : TimingFields} {t : Timing} (hdisjoint : f.Disjoint)
    (hfits : f.Fits t) {base : BitVec 32} (hbase : ∀ p ∈ f.values t, p.1.read base = 0#32) :
    f.Decodes base (Field.assemble base (f.values t)) t := by
  have hapart : (f.values t).Pairwise fun p q => p.1.Apart q.1 :=
    List.pairwise_map (f := Prod.fst).mp hdisjoint
  have hread : ∀ p ∈ f.values t, p.1.read (Field.assemble base (f.values t)) = p.2 :=
    fun p hp => Field.read_assemble hfits.values hapart hp (hbase p hp)
  have hbeside : ∀ g : Field 32, f.prescaler.Apart g → f.bs1.Apart g → f.bs2.Apart g →
      f.sjw.Apart g → g.read (Field.assemble base (f.values t)) = g.read base := by
    intro g hprescaler hbs1 hbs2 hsjw
    apply Field.read_assemble_of_apart hfits.values
    simp only [values, List.forall_mem_cons]
    exact ⟨hsjw, hprescaler, hbs1, hbs2, fun _ hp => absurd hp List.not_mem_nil⟩
  generalize Field.assemble base (f.values t) = word at hread hbeside ⊢
  simp only [values, List.forall_mem_cons] at hread
  constructor
  · rw [hread.2.1, toNat_pred hfits.prescaler_pos]
  · rw [hread.2.2.1, toNat_pred hfits.bs1_pos]
  · rw [hread.2.2.2.1, toNat_pred hfits.bs2_pos]
  · rw [hread.1, toNat_pred hfits.sjw_pos]
  · exact hbeside

end TimingFields

/-- `CAN_BTR_BRP`, `CAN_BTR_TS1`, `CAN_BTR_TS2`, `CAN_BTR_SJW` -/
def btrFields : TimingFields where
  prescaler := ⟨0, 10, by decide⟩
  bs1 := ⟨16, 4, by decide⟩
  bs2 := ⟨20, 3, by decide⟩
  sjw := ⟨24, 2, by decide⟩

def btrLbkm : Field 32 := ⟨30, 1, by decide⟩

def btrSilm : Field 32 := ⟨31, 1, by decide⟩

/-- `FDCAN_NBTP_NBRP`, `FDCAN_NBTP_NTSEG1`, `FDCAN_NBTP_NTSEG2`, `FDCAN_NBTP_NSJW` -/
def nbtpFields : TimingFields where
  prescaler := ⟨16, 9, by decide⟩
  bs1 := ⟨8, 8, by decide⟩
  bs2 := ⟨0, 7, by decide⟩
  sjw := ⟨25, 7, by decide⟩

/-- `FDCAN_DBTP_DBRP`, `FDCAN_DBTP_DTSEG1`, `FDCAN_DBTP_DTSEG2`, `FDCAN_DBTP_DSJW` -/
def dbtpFields : TimingFields where
  prescaler := ⟨16, 5, by decide⟩
  bs1 := ⟨8, 5, by decide⟩
  bs2 := ⟨4, 4, by decide⟩
  sjw := ⟨0, 4, by decide⟩

def dbtpTdc : Field 32 := ⟨23, 1, by decide⟩

def tdcrTdco : Field 32 := ⟨8, 7, by decide⟩

def tdcrTdcf : Field 32 := ⟨0, 7, by decide⟩

def btrMode : Mode → BitVec 32
  | .silent => 1#32 <<< btrSilm.pos
  | .loopback => 1#32 <<< btrLbkm.pos
  | .loopbackSilent => 1#32 <<< btrLbkm.pos ||| 1#32 <<< btrSilm.pos
  | .normal => 0#32

def btrWord (mode : Mode) (t : Timing) : BitVec 32 :=
  btrMode mode ||| (t.sjw - 1).toBitVec <<< btrFields.sjw.pos |||
    (t.bs1 - 1).toBitVec <<< btrFields.bs1.pos ||| (t.bs2 - 1).toBitVec <<< btrFields.bs2.pos |||
    (t.prescaler - 1).toBitVec

def nbtpWord (t : Timing) : BitVec 32 :=
  (t.sjw - 1).toBitVec <<< nbtpFields.sjw.pos |||
    (t.prescaler - 1).toBitVec <<< nbtpFields.prescaler.pos |||
    (t.bs1 - 1).toBitVec <<< nbtpFields.bs1.pos ||| (t.bs2 - 1).toBitVec <<< nbtpFields.bs2.pos

/-- The registers of the data phase. -/
structure DataRegisters where
  dbtp : BitVec 32
  tdcr : BitVec 32

def tdcOffset (t : Timing) : UInt32 :=
  let offset := t.prescaler * (1 + t.bs1)
  if offset > 127 then 127 else offset

/-- DBTP, and TDCR where the peripheral offers the transmitter delay compensation. -/
def writeDataTiming (t : Timing) (regs : DataRegisters) : DataRegisters :=
  let dbtp := (t.sjw - 1).toBitVec <<< dbtpFields.sjw.pos |||
    (t.prescaler - 1).toBitVec <<< dbtpFields.prescaler.pos |||
    (t.bs1 - 1).toBitVec <<< dbtpFields.bs1.pos ||| (t.bs2 - 1).toBitVec <<< dbtpFields.bs2.pos
  if t.prescaler ≤ 2 then
    { dbtp := dbtp ||| 1#32 <<< dbtpTdc.pos, tdcr := (tdcOffset t).toBitVec <<< tdcrTdco.pos }
  else { regs with dbtp := dbtp }

theorem TimingFields.assemble_values (f : TimingFields) (base : BitVec 32) (t : Timing) :
    Field.assemble base (f.values t) =
      base ||| (t.sjw - 1).toBitVec <<< f.sjw.pos |||
        (t.prescaler - 1).toBitVec <<< f.prescaler.pos ||| (t.bs1 - 1).toBitVec <<< f.bs1.pos |||
        (t.bs2 - 1).toBitVec <<< f.bs2.pos := rfl

theorem btrWord_eq (mode : Mode) (t : Timing) :
    btrWord mode t = Field.assemble (btrMode mode) (btrFields.values t) := by
  rw [TimingFields.assemble_values, btrWord]
  have hprescaler : (t.prescaler - 1).toBitVec <<< btrFields.prescaler.pos =
      (t.prescaler - 1).toBitVec := BitVec.shiftLeft_zero _
  rw [hprescaler]
  generalize (t.prescaler - 1).toBitVec = prescaler
  generalize (t.sjw - 1).toBitVec <<< btrFields.sjw.pos = sjw
  generalize (t.bs1 - 1).toBitVec <<< btrFields.bs1.pos = bs1
  generalize (t.bs2 - 1).toBitVec <<< btrFields.bs2.pos = bs2
  ac_rfl

theorem nbtpWord_eq (t : Timing) : nbtpWord t = Field.assemble 0#32 (nbtpFields.values t) := by
  rw [TimingFields.assemble_values, BitVec.zero_or, nbtpWord]

def dbtpBase (t : Timing) : BitVec 32 :=
  if t.prescaler ≤ 2 then 1#32 <<< dbtpTdc.pos else 0#32

theorem writeDataTiming_dbtp (t : Timing) (regs : DataRegisters) :
    (writeDataTiming t regs).dbtp = Field.assemble (dbtpBase t) (dbtpFields.values t) := by
  rw [TimingFields.assemble_values, writeDataTiming, dbtpBase]
  generalize (t.sjw - 1).toBitVec <<< dbtpFields.sjw.pos = sjw
  generalize (t.prescaler - 1).toBitVec <<< dbtpFields.prescaler.pos = prescaler
  generalize (t.bs1 - 1).toBitVec <<< dbtpFields.bs1.pos = bs1
  generalize (t.bs2 - 1).toBitVec <<< dbtpFields.bs2.pos = bs2
  split
  · generalize 1#32 <<< dbtpTdc.pos = tdc
    ac_rfl
  · rw [BitVec.zero_or]

theorem btrWord_decodes (mode : Mode) {t : Timing} (h : btrFields.Fits t) :
    btrFields.Decodes (btrMode mode) (btrWord mode t) t := by
  rw [btrWord_eq]
  apply TimingFields.decodes_assemble (by decide) h
  simp only [TimingFields.values, List.forall_mem_cons]
  refine ⟨?_, ?_, ?_, ?_, fun _ hp => absurd hp List.not_mem_nil⟩ <;> cases mode <;> decide

theorem nbtpWord_decodes {t : Timing} (h : nbtpFields.Fits t) :
    nbtpFields.Decodes 0#32 (nbtpWord t) t := by
  rw [nbtpWord_eq]
  apply TimingFields.decodes_assemble (by decide) h
  simp only [TimingFields.values, List.forall_mem_cons]
  refine ⟨?_, ?_, ?_, ?_, fun _ hp => absurd hp List.not_mem_nil⟩ <;> decide

theorem writeDataTiming_decodes {t : Timing} (h : dbtpFields.Fits t) (regs : DataRegisters) :
    dbtpFields.Decodes (dbtpBase t) (writeDataTiming t regs).dbtp t := by
  rw [writeDataTiming_dbtp]
  apply TimingFields.decodes_assemble (by decide) h
  simp only [TimingFields.values, List.forall_mem_cons, dbtpBase]
  refine ⟨?_, ?_, ?_, ?_, fun _ hp => absurd hp List.not_mem_nil⟩ <;> split <;> decide

theorem tryQuanta_sjw_le {limits : TimingLimits} {ticks quanta : UInt32} {s : Search}
    (h : s.found = true → s.timing.sjw ≤ limits.sjwMax) :
    (tryQuanta limits ticks s quanta).found = true →
      (tryQuanta limits ticks s quanta).timing.sjw ≤ limits.sjwMax := by
  rw [tryQuanta_eq]
  cases hc : candidate limits ticks quanta with
  | none => exact h
  | some c =>
    dsimp only
    by_cases hless : c.1 < s.bestError
    · rw [if_pos hless]
      intro _
      unfold candidate at hc
      split at hc
      · cases hc
      · split at hc
        · cases hc
        · obtain ⟨seg, -, rfl⟩ := Option.map_eq_some_iff.mp hc
          dsimp only
          split
          · rename_i hlt
            exact UInt32.le_of_lt hlt
          · exact UInt32.le_refl _
    · rw [if_neg hless]
      exact h

theorem timingSearch_sjw_le {limits : TimingLimits} {clockHz bitrate : UInt32} {timing : Timing}
    (h : (timingSearch clockHz bitrate limits timing).1 = true) :
    (timingSearch clockHz bitrate limits timing).2.sjw ≤ limits.sjwMax := by
  have hfold : ∀ (l : List UInt32) (s : Search),
      (s.found = true → s.timing.sjw ≤ limits.sjwMax) →
      (l.foldl (tryQuanta limits (clockHz / bitrate)) s).found = true →
        (l.foldl (tryQuanta limits (clockHz / bitrate)) s).timing.sjw ≤ limits.sjwMax := by
    intro l
    induction l with
    | nil => exact fun _ hs => hs
    | cons quanta l ih => exact fun s hs => ih _ (tryQuanta_sjw_le hs)
  unfold timingSearch at h ⊢
  split at h
  · exact absurd h Bool.false_ne_true
  · rename_i hguard
    rw [if_neg hguard]
    exact hfold _ _ (fun hfound => absurd hfound Bool.false_ne_true) h

section Searches
variable {clockHz bitrate : UInt32} {timing : Timing}

theorem timingCalc_optimal (clockHz bitrate : UInt32) (timing : Timing) :
    SearchOptimal nominalLimits clockHz bitrate timing (timingCalc clockHz bitrate timing) :=
  timingSearch_optimal nominal_splitsBest (by decide) clockHz bitrate timing

theorem timingCalcData_optimal (clockHz bitrate : UInt32) (timing : Timing) :
    SearchOptimal dataLimits clockHz bitrate timing (timingCalcData clockHz bitrate timing) :=
  timingSearch_optimal data_splitsBest (by decide) clockHz bitrate timing

/-- A nominal timing fits fields at least as wide as those of bxCAN. -/
theorem fits_of_timingCalc {f : TimingFields} (h : (timingCalc clockHz bitrate timing).1 = true)
    (hprescaler : (timingCalc clockHz bitrate timing).2.prescaler.toNat ≤ 2 ^ f.prescaler.width)
    (hbs1 : 4 ≤ f.bs1.width) (hbs2 : 3 ≤ f.bs2.width) :
    f.Fits (timingCalc clockHz bitrate timing).2 := by
  have hexact := (timingCalc_optimal clockHz bitrate timing).exact h
  have hjump := (timingCalc_optimal clockHz bitrate timing).jumpWidth h
  have hsjw : (timingCalc clockHz bitrate timing).2.sjw.toNat ≤ 1 :=
    UInt32.le_iff_toNat_le.mp (timingSearch_sjw_le h)
  constructor
  · exact hexact.prescaler_pos
  · exact hprescaler
  · exact hexact.bs1_pos
  · exact le_trans hexact.bs1_le (Nat.pow_le_pow_right Nat.two_pos hbs1)
  · exact hexact.bs2_pos
  · exact le_trans hexact.bs2_le (Nat.pow_le_pow_right Nat.two_pos hbs2)
  · exact hjump.1
  · exact hsjw.trans Nat.one_le_two_pow

theorem fits_of_timingCalcData (h : (timingCalcData clockHz bitrate timing).1 = true) :
    dbtpFields.Fits (timingCalcData clockHz bitrate timing).2 := by
  have hexact := (timingCalcData_optimal clockHz bitrate timing).exact h
  have hjump := (timingCalcData_optimal clockHz bitrate timing).jumpWidth h
  constructor
  · exact hexact.prescaler_pos
  · exact hexact.prescaler_le
  · exact hexact.bs1_pos
  · exact hexact.bs1_le
  · exact hexact.bs2_pos
  · exact hexact.bs2_le
  · exact hjump.1
  · exact hjump.2.trans hexact.bs2_le

/-- Kernel clock periods from the start of a bit to its sample point: the synchronisation quantum
and the first segment. -/
def samplePointClocks (t : Timing) : ℕ := t.prescaler.toNat * (1 + t.bs1.toNat)

/-- At the prescalers with delay compensation the sample point is far from the clamp. -/
theorem samplePointClocks_le (h : (timingCalcData clockHz bitrate timing).1 = true)
    (hprescaler : (timingCalcData clockHz bitrate timing).2.prescaler ≤ 2) :
    samplePointClocks (timingCalcData clockHz bitrate timing).2 ≤ 48 := by
  have hexact := (timingCalcData_optimal clockHz bitrate timing).exact h
  have hquanta : 1 + (timingCalcData clockHz bitrate timing).2.bs1.toNat +
    (timingCalcData clockHz bitrate timing).2.bs2.toNat ≤ 25 := hexact.quanta_le
  have hbs2 := hexact.bs2_pos
  have hbs1 : 1 + (timingCalcData clockHz bitrate timing).2.bs1.toNat ≤ 24 := by omega
  exact Nat.mul_le_mul (UInt32.le_iff_toNat_le.mp hprescaler) hbs1

theorem tdcOffset_toNat {t : Timing} (hpos : 1 ≤ t.prescaler.toNat)
    (h : samplePointClocks t ≤ 127) : (tdcOffset t).toNat = samplePointClocks t := by
  have hbs1 : 1 + t.bs1.toNat ≤ 127 :=
    calc 1 + t.bs1.toNat = 1 * (1 + t.bs1.toNat) := (Nat.one_mul _).symm
      _ ≤ samplePointClocks t := Nat.mul_le_mul_right _ hpos
      _ ≤ 127 := h
  have hsum : (1 + t.bs1).toNat = 1 + t.bs1.toNat := by
    rw [UInt32.toNat_add, UInt32.toNat_one]
    exact Nat.mod_eq_of_lt (by omega)
  have hproduct : (t.prescaler * (1 + t.bs1)).toNat = samplePointClocks t := by
    rw [UInt32.toNat_mul, hsum]
    exact Nat.mod_eq_of_lt (lt_of_le_of_lt h (by decide))
  have hclamp : ¬ t.prescaler * (1 + t.bs1) > 127 := by
    rw [gt_iff_lt, UInt32.lt_iff_toNat_lt, hproduct, not_lt]
    exact h
  rw [tdcOffset, if_neg hclamp, hproduct]

end Searches

/-- What the registers of the data phase owe to its timing. -/
structure DataPhaseDecodes (t : Timing) (before after : DataRegisters) : Prop where
  timing : dbtpFields.Decodes (dbtpBase t) after.dbtp t
  /-- the compensation is on where the peripheral offers it -/
  tdc : dbtpTdc.read after.dbtp = if t.prescaler ≤ 2 then 1#32 else 0#32
  offset : t.prescaler ≤ 2 → (tdcrTdco.read after.tdcr).toNat = samplePointClocks t
  unclamped : t.prescaler ≤ 2 → samplePointClocks t ≤ 127
  filter : t.prescaler ≤ 2 → tdcrTdcf.read after.tdcr = 0#32
  kept : ¬ t.prescaler ≤ 2 → after.tdcr = before.tdcr

theorem writeDataTiming_dataPhase {clockHz bitrate : UInt32} {timing : Timing}
    (h : (timingCalcData clockHz bitrate timing).1 = true) (regs : DataRegisters) :
    DataPhaseDecodes (timingCalcData clockHz bitrate timing).2 regs
      (writeDataTiming (timingCalcData clockHz bitrate timing).2 regs) := by
  have hfits := fits_of_timingCalcData h
  have hpoint := samplePointClocks_le h
  generalize (timingCalcData clockHz bitrate timing).2 = t at hfits hpoint ⊢
  have hdecodes := writeDataTiming_decodes hfits regs
  -- what the word of TDCR is where it is written
  have hword : t.prescaler ≤ 2 → (writeDataTiming t regs).tdcr =
      (tdcOffset t).toBitVec <<< tdcrTdco.pos := fun hle => by rw [writeDataTiming, if_pos hle]
  have hoffset : t.prescaler ≤ 2 → (tdcOffset t).toBitVec.toNat = samplePointClocks t :=
    fun hle => tdcOffset_toNat hfits.prescaler_pos ((hpoint hle).trans (by decide))
  have hfit : t.prescaler ≤ 2 → (tdcOffset t).toBitVec.toNat < 2 ^ tdcrTdco.width :=
    fun hle => (hoffset hle).le.trans_lt ((hpoint hle).trans_lt (by decide))
  constructor
  · exact hdecodes
  · rw [hdecodes.beside dbtpTdc (by decide) (by decide) (by decide) (by decide), dbtpBase]
    split <;> decide
  · intro hle
    rw [hword hle, Field.read_shiftLeft (hfit hle), hoffset hle]
  · exact fun hle => (hpoint hle).trans (by decide)
  · intro hle
    rw [hword hle, Field.read_shiftLeft_of_apart (by decide) (hfit hle)]
  · intro hnot
    rw [writeDataTiming, if_neg hnot]

theorem timingCalc_of_nominalTiming {clockHz bitrate : UInt32}
    (h : (Fdcan.nominalTiming clockHz bitrate).1 = true) :
    (timingCalc clockHz bitrate Fdcan.noTiming).1 = true ∧
      (Fdcan.nominalTiming clockHz bitrate).2 = (timingCalc clockHz bitrate Fdcan.noTiming).2 ∧
      (Fdcan.nominalTiming clockHz bitrate).2.prescaler ≤ 512 := by
  unfold Fdcan.nominalTiming at h ⊢
  split at h
  · rename_i hbit
    rw [if_pos hbit]
    rw [Bool.and_eq_true, decide_eq_true_eq] at h
    exact ⟨h.1, rfl, h.2⟩
  · exact absurd h Bool.false_ne_true

/-- Wherever a search succeeds, the words of the drivers give its timing back, with the mode bits
and the reserved bits as they should be, and the offset of the delay compensation is the sample
point. -/
theorem timing_words_decode (clockHz bitrate : UInt32) (timing : Timing) (mode : Mode)
    (regs : DataRegisters) :
    ((timingCalc clockHz bitrate timing).1 = true →
      btrFields.Decodes (btrMode mode) (btrWord mode (timingCalc clockHz bitrate timing).2)
        (timingCalc clockHz bitrate timing).2) ∧
    ((Fdcan.nominalTiming clockHz bitrate).1 = true →
      nbtpFields.Decodes 0#32 (nbtpWord (Fdcan.nominalTiming clockHz bitrate).2)
        (Fdcan.nominalTiming clockHz bitrate).2) ∧
    ((timingCalcData clockHz bitrate timing).1 = true →
      DataPhaseDecodes (timingCalcData clockHz bitrate timing).2 regs
        (writeDataTiming (timingCalcData clockHz bitrate timing).2 regs)) := by
  refine ⟨fun h => btrWord_decodes mode ?_, fun h => nbtpWord_decodes ?_,
    fun h => writeDataTiming_dataPhase h regs⟩
  · have hmax := (timingCalc_optimal clockHz bitrate timing).exact h
    exact fits_of_timingCalc h hmax.prescaler_le (le_refl 4) (le_refl 3)
  · obtain ⟨hfound, heq, hmax⟩ := timingCalc_of_nominalTiming h
    rw [heq] at hmax ⊢
    exact fits_of_timingCalc hfound (UInt32.le_iff_toNat_le.mp hmax) (by decide) (by decide)

/-- 2 Mbit/s from 80 MHz, which all searches can do. -/
theorem timing_words_decode_2m :
    btrFields.Decodes (btrMode .loopback)
        (btrWord .loopback (timingCalc 80000000 2000000 Fdcan.noTiming).2)
        (timingCalc 80000000 2000000 Fdcan.noTiming).2 ∧
      nbtpFields.Decodes 0#32 (nbtpWord (Fdcan.nominalTiming 80000000 2000000).2)
        (Fdcan.nominalTiming 80000000 2000000).2 ∧
      DataPhaseDecodes (timingCalcData 80000000 2000000 Fdcan.noTiming).2 ⟨0, 0⟩
        (writeDataTiming (timingCalcData 80000000 2000000 Fdcan.noTiming).2 ⟨0, 0⟩) := by
  obtain ⟨hbtr, hnbtp, hdata⟩ :=
    timing_words_decode 80000000 2000000 Fdcan.noTiming .loopback ⟨0, 0⟩
  exact ⟨hbtr (by decide), hnbtp (by decide), hdata (by decide)⟩

end UniHal.Can
