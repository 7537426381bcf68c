import UniHal.Foundations.BitField

/-! # The PLLs of the STM32H7 and the choice of their source

`_uni_hal_stm_rcc_pll` with the helper that scales the configured divider to the oscillator
that is there. Whether a PLL stops, and whether it locks, is an outcome of the hardware.
-/

namespace UniHal.Rcc.Stm32h7.Pll
open Foundations BitField

/-- `HSE_VALUE`, `CSI_VALUE` and `HSI_VALUE`, the last with the HSI divider at one. -/
structure Oscillators where
  hse : UInt32
  csi : UInt32
  hsi : UInt32
  hse_pos : 0 < hse.toNat

/-- `uni_hal_rcc_stm32h7_config_pll_t` -/
structure Config where
  m : UInt32
  n : UInt32
  p : UInt32
  q : UInt32
  r : UInt32
  fracn : UInt32

def pllGetM (hse pllM sourceHz : UInt32) : UInt32 :=
  let scaled := pllM.toUInt64 * sourceHz.toUInt64
  if pllM = 0 ∨ scaled % hse.toUInt64 ≠ 0 then 0
  else
    let result := scaled / hse.toUInt64
    if result > 63 then 0 else result.toUInt32

/-- The divider makes the source give the reference frequency that the configuration asks for:
`sourceHz / divider = hse / pllM`. -/
def Exact (hse pllM sourceHz : UInt32) (divider : ℕ) : Prop :=
  (1 ≤ divider ∧ divider ≤ 63) ∧ sourceHz.toNat * pllM.toNat = hse.toNat * divider

theorem scaled_toNat (a b : UInt32) : (a.toUInt64 * b.toUInt64).toNat = a.toNat * b.toNat := by
  rw [UInt64.toNat_mul, UInt32.toNat_toUInt64, UInt32.toNat_toUInt64]
  apply Nat.mod_eq_of_lt
  have ha : a.toNat ≤ 2 ^ 32 - 1 := Nat.le_sub_one_of_lt a.toNat_lt
  have hb : b.toNat ≤ 2 ^ 32 - 1 := Nat.le_sub_one_of_lt b.toNat_lt
  calc a.toNat * b.toNat ≤ (2 ^ 32 - 1) * (2 ^ 32 - 1) := Nat.mul_le_mul ha hb
    _ < 2 ^ 64 := by norm_num

theorem pllGetM_toNat (hse pllM sourceHz : UInt32) :
    (pllGetM hse pllM sourceHz).toNat =
      if pllM.toNat = 0 ∨ ¬hse.toNat ∣ pllM.toNat * sourceHz.toNat ∨
        63 < pllM.toNat * sourceHz.toNat / hse.toNat then 0
      else pllM.toNat * sourceHz.toNat / hse.toNat := by
  have hmod : (pllM.toUInt64 * sourceHz.toUInt64) % hse.toUInt64 ≠ 0 ↔
      ¬hse.toNat ∣ pllM.toNat * sourceHz.toNat := by
    rw [Ne, ← UInt64.toNat_inj, UInt64.toNat_mod, scaled_toNat, UInt32.toNat_toUInt64,
      Nat.dvd_iff_mod_eq_zero]
    rfl
  have hdiv : ((pllM.toUInt64 * sourceHz.toUInt64) / hse.toUInt64).toNat =
      pllM.toNat * sourceHz.toNat / hse.toNat := by
    rw [UInt64.toNat_div, scaled_toNat, UInt32.toNat_toUInt64]
  have hbig : (pllM.toUInt64 * sourceHz.toUInt64) / hse.toUInt64 > 63 ↔
      63 < pllM.toNat * sourceHz.toNat / hse.toNat := by
    rw [gt_iff_lt, UInt64.lt_iff_toNat_lt, hdiv]
    rfl
  have hzero : pllM = 0 ↔ pllM.toNat = 0 := by
    rw [← UInt32.toNat_inj]
    rfl
  simp only [pllGetM, hmod, hbig, hzero]
  split_ifs with h1 h2 h3 h4
  · rfl
  · tauto
  · rfl
  · tauto
  · tauto
  · rw [UInt64.toNat_toUInt32, hdiv]
    apply Nat.mod_eq_of_lt
    omega

theorem exact_pllGetM {hse pllM sourceHz : UInt32} (h : pllGetM hse pllM sourceHz ≠ 0) :
    Exact hse pllM sourceHz (pllGetM hse pllM sourceHz).toNat := by
  have hne : (pllGetM hse pllM sourceHz).toNat ≠ 0 := fun h0 => h (UInt32.toNat_inj.mp h0)
  rw [pllGetM_toNat] at hne ⊢
  split_ifs at hne ⊢ with hbad
  · exact absurd rfl hne
  · simp only [not_or, not_not, not_lt] at hbad
    obtain ⟨-, hdvd, htop⟩ := hbad
    refine ⟨⟨Nat.pos_of_ne_zero hne, htop⟩, ?_⟩
    rw [Nat.mul_div_cancel' hdvd, Nat.mul_comm]

/-- The helper returns zero exactly when no divider is exact. -/
theorem pllGetM_eq_zero_iff {hse : UInt32} (hse0 : 0 < hse.toNat) (pllM sourceHz : UInt32) :
    pllGetM hse pllM sourceHz = 0 ↔ ¬∃ divider, Exact hse pllM sourceHz divider := by
  constructor
  · rintro h ⟨divider, ⟨hlow, htop⟩, heq⟩
    have hscaled : pllM.toNat * sourceHz.toNat = hse.toNat * divider := by
      rw [Nat.mul_comm, heq]
    have hquot : pllM.toNat * sourceHz.toNat / hse.toNat = divider := by
      rw [hscaled, Nat.mul_div_cancel_left divider hse0]
    have hm : pllM.toNat ≠ 0 := by
      intro h0
      rw [h0, Nat.zero_mul] at hscaled
      have := Nat.mul_pos hse0 hlow
      omega
    have hzero := congrArg UInt32.toNat h
    rw [pllGetM_toNat, if_neg, hquot] at hzero
    · have : (0 : UInt32).toNat = 0 := rfl
      omega
    · rw [hquot]
      have hdvd : hse.toNat ∣ pllM.toNat * sourceHz.toNat := ⟨divider, hscaled⟩
      simp only [hm, hdvd, not_true_eq_false, false_or, not_lt]
      exact htop
  · intro h
    by_contra hne
    exact h ⟨_, exact_pllGetM hne⟩

/-- The selection of the source in `PLLCKSELR`, as LL names it. -/
inductive Source
  | hsi | csi | hse
  deriving DecidableEq, Repr

def Source.code : Source → BitVec 32
  | .hsi => 0
  | .csi => 1
  | .hse => 2

/-- `PLLSRC` and the three `DIVM` fields of `PLLCKSELR`. -/
def pllsrc : Field 32 := ⟨0, 2, by decide⟩

/-- The PLLs are numbered. -/
instance neZero_plls : NeZero 3 := ⟨by decide⟩

theorem divM_fits : ∀ i : Fin 3, (4 + 8 * (i : ℕ)) + 6 ≤ 32 := by decide

def divM (i : Fin 3) : Field 32 := ⟨4 + 8 * i, 6, divM_fits i⟩

/-- The fields of `PLLxDIVR` and `PLLxFRACR`. -/
def divN : Field 32 := ⟨0, 9, by decide⟩
def divP : Field 32 := ⟨9, 7, by decide⟩
def divQ : Field 32 := ⟨16, 7, by decide⟩
def divR : Field 32 := ⟨24, 7, by decide⟩
def fracN : Field 32 := ⟨3, 13, by decide⟩

/-- The registers of one PLL: its divider registers, and its bits of `CR` and `PLLCFGR`. -/
structure PllUnit where
  on : Bool
  divr : BitVec 32
  fracr : BitVec 32
  outP : Bool
  outQ : Bool
  outR : Bool
  fracEn : Bool
  inputRange : BitVec 2
  vcoMedium : Bool

structure State where
  hseInited : Bool
  csiInited : Bool
  hsiInited : Bool
  pllInited : Fin 3 → Bool
  cksel : BitVec 32
  unit : Fin 3 → PllUnit

namespace State

def setUnit (s : State) (i : Fin 3) (u : PllUnit) : State :=
  { s with unit := Function.update s.unit i u }

def setInited (s : State) (i : Fin 3) (value : Bool) : State :=
  { s with pllInited := Function.update s.pllInited i value }

/-- `LL_RCC_PLLx_Disable` for all PLLs. -/
def disableAll (s : State) : State := { s with unit := fun i => { s.unit i with on := false } }

end State

def pllInputRange (inputHz : UInt32) : BitVec 2 :=
  if inputHz ≥ 8000000 then 3
  else if inputHz ≥ 4000000 then 2
  else if inputHz ≥ 2000000 then 1
  else 0

/-- The source that the stage selects, nothing when no oscillator runs. -/
def pllSource (osc : Oscillators) (s : State) : Option (Source × UInt32) :=
  if s.hseInited then some (.hse, osc.hse)
  else if s.csiInited then some (.csi, osc.csi)
  else if s.hsiInited then some (.hsi, osc.hsi)
  else none

/-- The registers of a PLL after `_uni_hal_stm_rcc_pll_reset`, which writes `0x01FF0000` to
`PLLCFGR`, `0x01010280` to the divider register and zero to the fraction. -/
def unitReset : PllUnit where
  on := false
  divr := 0x01010280
  fracr := 0
  outP := true
  outQ := true
  outR := true
  fracEn := false
  inputRange := 0
  vcoMedium := false

/-- `_uni_hal_stm_rcc_pll_reset`; the argument tells which PLLs stop within the timeout. -/
def pllReset (stopped : Fin 3 → Bool) (s : State) : Bool × State :=
  let s := s.disableAll
  if stopped 0 && stopped 1 && stopped 2 then
    (true, { s with cksel := 0x02020200, unit := fun _ => unitReset })
  else (false, s)

def enableOutputs (cfg : Config) (u : PllUnit) : PllUnit :=
  let u := if cfg.p ≠ 0 then
    { u with outP := true, divr := divP.modify (cfg.p - 1).toBitVec u.divr } else u
  let u := if cfg.q ≠ 0 then
    { u with outQ := true, divr := divQ.modify (cfg.q - 1).toBitVec u.divr } else u
  if cfg.r ≠ 0 then
    { u with outR := true, divr := divR.modify (cfg.r - 1).toBitVec u.divr } else u

def lockUnit (cfg : Config) (inputHz : UInt32) (u : PllUnit) : PllUnit :=
  let u := { u with inputRange := pllInputRange inputHz, vcoMedium := false }
  let u := { u with divr := divN.modify (cfg.n - 1).toBitVec u.divr }
  let u := if cfg.fracn ≠ 0 then
    { u with fracr := fracN.modify cfg.fracn.toBitVec u.fracr, fracEn := true } else u
  { u with on := true }

def lockPll (i : Fin 3) (cfg : Config) (pllM sourceHz : UInt32) (ready : Bool) (s : State) :
    Bool × State :=
  let s := { s with cksel := (divM i).modify pllM.toBitVec s.cksel }
  (ready, (s.setUnit i (lockUnit cfg (sourceHz / pllM) (s.unit i))).setInited i ready)

def startPll1 (osc : Oscillators) (cfg : Config) (sourceHz : UInt32) (ready : Bool) (s : State) :
    Bool × State :=
  let pllM := pllGetM osc.hse cfg.m sourceHz
  if pllM = 0 then (false, s.setInited 0 false)
  else lockPll 0 cfg pllM sourceHz ready (s.setUnit 0 (enableOutputs cfg (s.unit 0)))

def startPll (i : Fin 3) (osc : Oscillators) (cfg : Config) (sourceHz : UInt32) (ready : Bool)
    (s : State) : Bool × State :=
  let s := s.setUnit i (enableOutputs cfg (s.unit i))
  if cfg.p ≠ 0 ∨ cfg.q ≠ 0 ∨ cfg.r ≠ 0 then
    let pllM := pllGetM osc.hse cfg.m sourceHz
    if pllM = 0 then (false, s.setInited i false)
    else lockPll i cfg pllM sourceHz ready s
  else (true, s.setInited i false)

/-- Which PLLs stop for the reset and which of them lock afterwards. -/
structure Outcome where
  stopped : Fin 3 → Bool
  ready : Fin 3 → Bool

def setSource (source : Source) (s : State) : State :=
  { s with cksel := pllsrc.modify source.code s.cksel }

def startAll (osc : Oscillators) (cfg : Fin 3 → Config) (sourceHz : UInt32) (ready : Fin 3 → Bool)
    (s : State) : Bool × State :=
  let r1 := startPll1 osc (cfg 0) sourceHz (ready 0) s
  let r2 := startPll 1 osc (cfg 1) sourceHz (ready 1) r1.2
  let r3 := startPll 2 osc (cfg 2) sourceHz (ready 2) r2.2
  (r1.1 && r2.1 && r3.1, r3.2)

def rccPll (osc : Oscillators) (cfg : Fin 3 → Config) (hw : Outcome) (s : State) : Bool × State :=
  match pllSource osc s with
  | none => (false, s)
  | some (source, sourceHz) =>
    let (stopped, s) := pllReset hw.stopped s
    if stopped = false then (false, s)
    else
      let (result, s) := startAll osc cfg sourceHz hw.ready (setSource source s)
      -- none of them runs any more, whatever was locked before
      if result then (true, s) else (false, { s.disableAll with pllInited := fun _ => false })

def State.divider (s : State) (i : Fin 3) : ℕ := ((divM i).read s.cksel).toNat

def PllUnit.multiplier (u : PllUnit) : ℚ :=
  ((divN.read u.divr).toNat + 1 : ℕ) +
    if u.fracEn then ((fracN.read u.fracr).toNat : ℚ) / 8192 else 0

def State.vcoHz (s : State) (sourceHz : UInt32) (i : Fin 3) : ℚ :=
  sourceHz.toNat / s.divider i * (s.unit i).multiplier

/-- The frequency of an output whose divider is in the given field. -/
def State.outHz (s : State) (sourceHz : UInt32) (i : Fin 3) (field : Field 32) : ℚ :=
  s.vcoHz sourceHz i / ((field.read (s.unit i).divr).toNat + 1 : ℕ)

def Config.vcoHz (osc : Oscillators) (cfg : Config) : ℚ :=
  osc.hse.toNat / cfg.m.toNat * (cfg.n.toNat + cfg.fracn.toNat / 8192)

/-- The numbers of the configuration fit into their register fields. -/
structure Config.InRange (cfg : Config) : Prop where
  n_pos : 1 ≤ cfg.n.toNat
  n_le : cfg.n.toNat ≤ 512
  p_le : cfg.p.toNat ≤ 128
  q_le : cfg.q.toNat ≤ 128
  r_le : cfg.r.toNat ≤ 128
  fracn_lt : cfg.fracn.toNat < 8192

theorem divM_apart {i j : Fin 3} (h : i ≠ j) : (divM i).Apart (divM j) := by
  have hij : (i : ℕ) ≠ j := fun hv => h (Fin.ext hv)
  simp only [Field.Apart, divM]
  omega

theorem divM_apart_pllsrc (i : Fin 3) : (divM i).Apart pllsrc ∧ pllsrc.Apart (divM i) := by
  simp only [Field.Apart, divM, pllsrc]
  omega

/-- A block touches its own PLL only. -/
structure Frame (i : Fin 3) (s t : State) : Prop where
  inited : ∀ j, j ≠ i → t.pllInited j = s.pllInited j
  unit : ∀ j, j ≠ i → t.unit j = s.unit j
  divider : ∀ j, j ≠ i → t.divider j = s.divider j
  source : pllsrc.read t.cksel = pllsrc.read s.cksel

def Programmed (osc : Oscillators) (cfg : Config) (sourceHz : UInt32) (i : Fin 3) (s : State) :
    Prop :=
  s.pllInited i = true →
    pllGetM osc.hse cfg.m sourceHz ≠ 0 ∧
      s.divider i = (pllGetM osc.hse cfg.m sourceHz).toNat ∧
      s.unit i = lockUnit cfg (sourceHz / pllGetM osc.hse cfg.m sourceHz)
        (enableOutputs cfg unitReset)

theorem Programmed.of_frame {osc : Oscillators} {cfg : Config} {sourceHz : UInt32} {i j : Fin 3}
    {s t : State} (h : Programmed osc cfg sourceHz j s) (hframe : Frame i s t) (hij : j ≠ i) :
    Programmed osc cfg sourceHz j t := by
  intro hinit
  rw [hframe.inited j hij] at hinit
  rw [hframe.unit j hij, hframe.divider j hij]
  exact h hinit

/-- A divider of at most 63 goes into its field and leaves the other fields alone. -/
theorem Frame.lockPll {pllM : UInt32} (hm : pllM.toNat ≤ 63) (i : Fin 3) (cfg : Config)
    (sourceHz : UInt32) (ready : Bool) (s : State) :
    Frame i s (lockPll i cfg pllM sourceHz ready s).2 := by
  have hfits : pllM.toBitVec.toNat < 2 ^ (divM i).width := Nat.lt_succ_of_le hm
  constructor
  · exact fun _ hj => Function.update_of_ne hj _ _
  · exact fun _ hj => Function.update_of_ne hj _ _
  · exact fun j hj =>
      congrArg BitVec.toNat (Field.read_modify_of_apart (divM_apart hj.symm) hfits s.cksel)
  · exact Field.read_modify_of_apart (divM_apart_pllsrc i).1 hfits s.cksel

theorem programmed_lockPll {osc : Oscillators} {cfg : Config} {sourceHz : UInt32} {i : Fin 3}
    {s : State} (hne : pllGetM osc.hse cfg.m sourceHz ≠ 0) (ready : Bool)
    (hunit : s.unit i = enableOutputs cfg unitReset) :
    Programmed osc cfg sourceHz i
      (lockPll i cfg (pllGetM osc.hse cfg.m sourceHz) sourceHz ready s).2 := by
  have hfits : (pllGetM osc.hse cfg.m sourceHz).toBitVec.toNat < 2 ^ (divM i).width :=
    Nat.lt_succ_of_le (exact_pllGetM hne).1.2
  intro _
  refine ⟨hne, congrArg BitVec.toNat (Field.read_modify hfits s.cksel), ?_⟩
  simp only [lockPll, State.setInited, State.setUnit, Function.update_self, hunit]

theorem programmed_setInited_false (osc : Oscillators) (cfg : Config) (sourceHz : UInt32)
    (i : Fin 3) (s : State) : Programmed osc cfg sourceHz i (s.setInited i false) := by
  intro h
  simp [State.setInited] at h

theorem Frame.trans {i : Fin 3} {s t u : State} (h1 : Frame i s t) (h2 : Frame i t u) :
    Frame i s u where
  inited j hj := (h2.inited j hj).trans (h1.inited j hj)
  unit j hj := (h2.unit j hj).trans (h1.unit j hj)
  divider j hj := (h2.divider j hj).trans (h1.divider j hj)
  source := h2.source.trans h1.source

theorem Frame.setUnit (i : Fin 3) (u : PllUnit) (s : State) : Frame i s (s.setUnit i u) where
  inited _ _ := rfl
  unit _ hj := Function.update_of_ne hj _ _
  divider _ _ := rfl
  source := rfl

theorem Frame.setInited (i : Fin 3) (value : Bool) (s : State) :
    Frame i s (s.setInited i value) where
  inited _ hj := Function.update_of_ne hj _ _
  unit _ _ := rfl
  divider _ _ := rfl
  source := rfl

theorem startPll1_spec (osc : Oscillators) (cfg : Config) (sourceHz : UInt32) (ready : Bool)
    {s : State} (hunit : s.unit 0 = unitReset) :
    Programmed osc cfg sourceHz 0 (startPll1 osc cfg sourceHz ready s).2 ∧
      Frame 0 s (startPll1 osc cfg sourceHz ready s).2 := by
  rw [startPll1]
  split_ifs with hzero
  · exact ⟨programmed_setInited_false osc cfg sourceHz 0 s, Frame.setInited 0 false s⟩
  · refine ⟨programmed_lockPll hzero ready ?_, ?_⟩
    · simp [State.setUnit, hunit]
    · exact (Frame.setUnit 0 _ s).trans
        (Frame.lockPll (exact_pllGetM hzero).1.2 0 cfg sourceHz ready _)

theorem startPll_spec (i : Fin 3) (osc : Oscillators) (cfg : Config) (sourceHz : UInt32)
    (ready : Bool) {s : State} (hunit : s.unit i = unitReset) :
    Programmed osc cfg sourceHz i (startPll i osc cfg sourceHz ready s).2 ∧
      Frame i s (startPll i osc cfg sourceHz ready s).2 := by
  have hset := Frame.setUnit i (enableOutputs cfg (s.unit i)) s
  simp only [startPll]
  split_ifs with hstart hzero
  · exact ⟨programmed_setInited_false osc cfg sourceHz i _, hset.trans (Frame.setInited i false _)⟩
  · refine ⟨programmed_lockPll hzero ready ?_, ?_⟩
    · simp [State.setUnit, hunit]
    · exact hset.trans (Frame.lockPll (exact_pllGetM hzero).1.2 i cfg sourceHz ready _)
  · exact ⟨programmed_setInited_false osc cfg sourceHz i _, hset.trans (Frame.setInited i false _)⟩

/-- After the three blocks every marked PLL is programmed, and the source is as selected. -/
theorem startAll_spec (osc : Oscillators) (cfg : Fin 3 → Config) (sourceHz : UInt32)
    (ready : Fin 3 → Bool) {s : State} (hunit : ∀ i, s.unit i = unitReset) :
    (∀ i, Programmed osc (cfg i) sourceHz i (startAll osc cfg sourceHz ready s).2) ∧
      pllsrc.read (startAll osc cfg sourceHz ready s).2.cksel = pllsrc.read s.cksel := by
  obtain ⟨hprog0, hframe0⟩ := startPll1_spec osc (cfg 0) sourceHz (ready 0) (hunit 0)
  obtain ⟨hprog1, hframe1⟩ := startPll_spec 1 osc (cfg 1) sourceHz (ready 1)
    ((hframe0.unit 1 (by decide)).trans (hunit 1))
  obtain ⟨hprog2, hframe2⟩ := startPll_spec 2 osc (cfg 2) sourceHz (ready 2)
    ((hframe1.unit 2 (by decide)).trans ((hframe0.unit 2 (by decide)).trans (hunit 2)))
  refine ⟨fun i => ?_, hframe2.source.trans (hframe1.source.trans hframe0.source)⟩
  fin_cases i
  · exact (hprog0.of_frame hframe1 (by decide)).of_frame hframe2 (by decide)
  · exact hprog1.of_frame hframe2 (by decide)
  · exact hprog2

def programOutput (f : Field 32) (value : UInt32) (divr : BitVec 32) : BitVec 32 :=
  if value ≠ 0 then f.modify (value - 1).toBitVec divr else divr

theorem enableOutputs_divr (cfg : Config) (u : PllUnit) :
    (enableOutputs cfg u).divr =
      programOutput divR cfg.r (programOutput divQ cfg.q (programOutput divP cfg.p u.divr)) := by
  simp only [enableOutputs, programOutput]
  split_ifs <;> rfl

theorem enableOutputs_outP (cfg : Config) (u : PllUnit) (h : cfg.p ≠ 0) :
    (enableOutputs cfg u).outP = true := by
  simp only [enableOutputs, if_pos h]
  split_ifs <;> rfl

theorem enableOutputs_outQ (cfg : Config) (u : PllUnit) (h : cfg.q ≠ 0) :
    (enableOutputs cfg u).outQ = true := by
  simp only [enableOutputs, if_pos h]
  split_ifs <;> rfl

theorem enableOutputs_outR (cfg : Config) (u : PllUnit) (h : cfg.r ≠ 0) :
    (enableOutputs cfg u).outR = true := by
  simp only [enableOutputs, if_pos h]

theorem enableOutputs_fracEn (cfg : Config) (u : PllUnit) :
    (enableOutputs cfg u).fracEn = u.fracEn := by
  simp only [enableOutputs]
  split_ifs <;> rfl

theorem sub_one_toNat {value : UInt32} (h : 1 ≤ value.toNat) :
    (value - 1).toBitVec.toNat = value.toNat - 1 :=
  UInt32.toNat_sub_of_le value 1 (UInt32.le_iff_toNat_le.mpr h)

theorem sub_one_lt {value : UInt32} (h : 1 ≤ value.toNat) {k : ℕ} (hk : value.toNat ≤ 2 ^ k) :
    (value - 1).toBitVec.toNat < 2 ^ k := by
  rw [sub_one_toNat h]
  omega

theorem one_le_of_ne_zero {value : UInt32} (h : value ≠ 0) : 1 ≤ value.toNat :=
  Nat.pos_of_ne_zero fun h0 => h (UInt32.toNat_inj.mp h0)

/-- The divider of a configured output is one more than its field says. -/
theorem read_programOutput {f : Field 32} {value : UInt32} (h : value ≠ 0)
    (hfits : value.toNat ≤ 2 ^ f.width) (divr : BitVec 32) :
    (f.read (programOutput f value divr)).toNat + 1 = value.toNat := by
  have hpos := one_le_of_ne_zero h
  rw [programOutput, if_pos h, Field.read_modify (sub_one_lt hpos hfits), sub_one_toNat hpos]
  omega

theorem read_programOutput_of_apart {f g : Field 32} (hapart : f.Apart g) {value : UInt32}
    (hfits : value.toNat ≤ 2 ^ f.width) (divr : BitVec 32) :
    g.read (programOutput f value divr) = g.read divr := by
  rw [programOutput]
  split_ifs with h
  · exact Field.read_modify_of_apart hapart (sub_one_lt (one_le_of_ne_zero h) hfits) divr
  · rfl

theorem lockUnit_divr (cfg : Config) (inputHz : UInt32) (u : PllUnit) :
    (lockUnit cfg inputHz u).divr = divN.modify (cfg.n - 1).toBitVec u.divr := by
  simp only [lockUnit]
  split_ifs <;> rfl

section Registers
variable {cfg : Config} (hrange : cfg.InRange) (inputHz : UInt32)
include hrange

/-- The multiplier of a programmed PLL is the configured one, with its fraction. -/
theorem multiplier_programmed :
    (lockUnit cfg inputHz (enableOutputs cfg unitReset)).multiplier =
      cfg.n.toNat + cfg.fracn.toNat / 8192 := by
  have hn : (divN.read (lockUnit cfg inputHz (enableOutputs cfg unitReset)).divr).toNat + 1 =
      cfg.n.toNat := by
    have hpos := hrange.n_pos
    rw [lockUnit_divr, Field.read_modify (sub_one_lt hpos (k := 9) hrange.n_le), sub_one_toNat hpos]
    omega
  rw [PllUnit.multiplier, hn]
  congr 1
  by_cases h : cfg.fracn = 0
  · have hoff : (lockUnit cfg inputHz (enableOutputs cfg unitReset)).fracEn = false := by
      simp only [lockUnit, h, ne_eq, not_true_eq_false, if_false]
      exact enableOutputs_fracEn cfg unitReset
    rw [hoff, h]
    norm_num
  · have hon : (lockUnit cfg inputHz (enableOutputs cfg unitReset)).fracEn = true := by
      simp only [lockUnit, if_pos h, ne_eq]
    have hread : fracN.read (lockUnit cfg inputHz (enableOutputs cfg unitReset)).fracr =
        cfg.fracn.toBitVec := by
      simp only [lockUnit, if_pos h, ne_eq]
      exact Field.read_modify (f := fracN) hrange.fracn_lt _
    rw [hon, hread]
    rfl

/-- The dividers of the configured outputs are in their fields. -/
theorem divP_programmed (h : cfg.p ≠ 0) :
    (divP.read (lockUnit cfg inputHz (enableOutputs cfg unitReset)).divr).toNat + 1 =
      cfg.p.toNat := by
  rw [lockUnit_divr, Field.read_modify_of_apart (f := divN) (by decide)
      (sub_one_lt hrange.n_pos (k := 9) hrange.n_le), enableOutputs_divr,
    read_programOutput_of_apart (by decide) hrange.r_le,
    read_programOutput_of_apart (by decide) hrange.q_le,
    read_programOutput (f := divP) h hrange.p_le]

theorem divQ_programmed (h : cfg.q ≠ 0) :
    (divQ.read (lockUnit cfg inputHz (enableOutputs cfg unitReset)).divr).toNat + 1 =
      cfg.q.toNat := by
  rw [lockUnit_divr, Field.read_modify_of_apart (f := divN) (by decide)
      (sub_one_lt hrange.n_pos (k := 9) hrange.n_le), enableOutputs_divr,
    read_programOutput_of_apart (by decide) hrange.r_le,
    read_programOutput (f := divQ) h hrange.q_le]

theorem divR_programmed (h : cfg.r ≠ 0) :
    (divR.read (lockUnit cfg inputHz (enableOutputs cfg unitReset)).divr).toNat + 1 =
      cfg.r.toNat := by
  rw [lockUnit_divr, Field.read_modify_of_apart (f := divN) (by decide)
      (sub_one_lt hrange.n_pos (k := 9) hrange.n_le), enableOutputs_divr,
    read_programOutput (f := divR) h hrange.r_le]

end Registers

/-- The PLL runs from the source at the reference frequency of its configuration. -/
structure KeepsFrequencies (osc : Oscillators) (cfg : Config) (sourceHz : UInt32) (i : Fin 3)
    (s : State) : Prop where
  on : (s.unit i).on = true
  exact_divider : Exact osc.hse cfg.m sourceHz (s.divider i)
  reference : (sourceHz.toNat : ℚ) / s.divider i = osc.hse.toNat / cfg.m.toNat
  -- the rest of the unit is written from the configuration, whatever the source is
  registers : ∃ inputHz, s.unit i = lockUnit cfg inputHz (enableOutputs cfg unitReset)
  -- as it would from HSE, also with numbers that the registers do not hold
  like_hse : s.vcoHz sourceHz i = osc.hse.toNat / cfg.m.toNat * (s.unit i).multiplier
  vco : cfg.InRange → s.vcoHz sourceHz i = cfg.vcoHz osc
  outP : cfg.InRange → cfg.p ≠ 0 →
    (s.unit i).outP = true ∧ s.outHz sourceHz i divP = cfg.vcoHz osc / cfg.p.toNat
  outQ : cfg.InRange → cfg.q ≠ 0 →
    (s.unit i).outQ = true ∧ s.outHz sourceHz i divQ = cfg.vcoHz osc / cfg.q.toNat
  outR : cfg.InRange → cfg.r ≠ 0 →
    (s.unit i).outR = true ∧ s.outHz sourceHz i divR = cfg.vcoHz osc / cfg.r.toNat

/-- An exact divider gives the reference frequency of the configuration. -/
theorem Exact.reference {hse pllM sourceHz : UInt32} {divider : ℕ} (hse0 : 0 < hse.toNat)
    (h : Exact hse pllM sourceHz divider) :
    (sourceHz.toNat : ℚ) / divider = hse.toNat / pllM.toNat := by
  obtain ⟨⟨hlow, -⟩, heq⟩ := h
  have hm : pllM.toNat ≠ 0 := by
    intro h0
    rw [h0, Nat.mul_zero] at heq
    have := Nat.mul_pos hse0 hlow
    omega
  have hdivider : (divider : ℚ) ≠ 0 := Nat.cast_ne_zero.mpr (by omega)
  rw [div_eq_div_iff hdivider (Nat.cast_ne_zero.mpr hm)]
  exact_mod_cast heq

theorem lockUnit_on (cfg : Config) (inputHz : UInt32) (u : PllUnit) :
    (lockUnit cfg inputHz u).on = true := rfl

theorem lockUnit_outputs (cfg : Config) (inputHz : UInt32) (u : PllUnit) :
    (lockUnit cfg inputHz u).outP = u.outP ∧ (lockUnit cfg inputHz u).outQ = u.outQ ∧
      (lockUnit cfg inputHz u).outR = u.outR := by
  simp only [lockUnit]
  split_ifs <;> exact ⟨rfl, rfl, rfl⟩

/-- A marked PLL that is programmed keeps its frequencies. -/
theorem Programmed.keepsFrequencies {osc : Oscillators} {cfg : Config} {sourceHz : UInt32}
    {i : Fin 3} {s : State} (h : Programmed osc cfg sourceHz i s) (hinit : s.pllInited i = true) :
    KeepsFrequencies osc cfg sourceHz i s := by
  obtain ⟨hne, hdivider, hunit⟩ := h hinit
  have hexact : Exact osc.hse cfg.m sourceHz (s.divider i) := by
    rw [hdivider]
    exact exact_pllGetM hne
  have href := hexact.reference osc.hse_pos
  have hvco : cfg.InRange → s.vcoHz sourceHz i = cfg.vcoHz osc := by
    intro hrange
    rw [State.vcoHz, Config.vcoHz, href, hunit, multiplier_programmed hrange]
  have houts := lockUnit_outputs cfg (sourceHz / pllGetM osc.hse cfg.m sourceHz)
    (enableOutputs cfg unitReset)
  constructor
  · rw [hunit, lockUnit_on]
  · exact hexact
  · exact href
  · exact ⟨_, hunit⟩
  · rw [State.vcoHz, href]
  · exact hvco
  · intro hrange hp
    rw [State.outHz, hvco hrange, hunit, divP_programmed hrange _ hp, houts.1]
    exact ⟨enableOutputs_outP cfg unitReset hp, rfl⟩
  · intro hrange hq
    rw [State.outHz, hvco hrange, hunit, divQ_programmed hrange _ hq, houts.2.1]
    exact ⟨enableOutputs_outQ cfg unitReset hq, rfl⟩
  · intro hrange hr
    rw [State.outHz, hvco hrange, hunit, divR_programmed hrange _ hr, houts.2.2]
    exact ⟨enableOutputs_outR cfg unitReset hr, rfl⟩

theorem pllReset_unit {stopped : Fin 3 → Bool} {s : State} (h : (pllReset stopped s).1 = true)
    (i : Fin 3) : (pllReset stopped s).2.unit i = unitReset := by
  simp only [pllReset] at h ⊢
  split_ifs at h ⊢
  rfl

theorem rccPll_eq {osc : Oscillators} {s : State} {source : Source} {sourceHz : UInt32}
    (hsource : pllSource osc s = some (source, sourceHz)) (cfg : Fin 3 → Config) {hw : Outcome}
    (hreset : (pllReset hw.stopped s).1 = true) :
    rccPll osc cfg hw s =
      let started := startAll osc cfg sourceHz hw.ready (setSource source (pllReset hw.stopped s).2)
      if started.1 then (true, started.2)
      else (false, { started.2.disableAll with pllInited := fun _ => false }) := by
  simp only [rccPll, hsource, hreset, Bool.true_eq_false, if_false]

/-- Success means that the reset succeeded, and the blocks as well. -/
theorem reset_of_rccPll {osc : Oscillators} {cfg : Fin 3 → Config} {hw : Outcome} {s : State}
    {source : Source} {sourceHz : UInt32} (hsource : pllSource osc s = some (source, sourceHz))
    (h : (rccPll osc cfg hw s).1 = true) : (pllReset hw.stopped s).1 = true := by
  by_contra hreset
  rw [Bool.not_eq_true] at hreset
  simp only [rccPll, hsource, hreset, if_true] at h
  exact absurd h (by decide)

theorem Source.code_fits (source : Source) : source.code.toNat < 2 ^ pllsrc.width := by
  cases source <;> decide

/-- The stage either programs every PLL that it marks for the oscillator that it selects, or
turns all of them off. -/
theorem rccPll_keepsFrequencies (osc : Oscillators) (cfg : Fin 3 → Config) (hw : Outcome)
    (s : State) :
    (∀ pllM sourceHz, pllGetM osc.hse pllM sourceHz = 0 ↔
      ¬∃ divider, Exact osc.hse pllM sourceHz divider) ∧
    ((rccPll osc cfg hw s).1 = true → ∃ source sourceHz,
      pllSource osc s = some (source, sourceHz) ∧
      pllsrc.read (rccPll osc cfg hw s).2.cksel = source.code ∧
      ∀ i, (rccPll osc cfg hw s).2.pllInited i = true →
        KeepsFrequencies osc (cfg i) sourceHz i (rccPll osc cfg hw s).2) ∧
    ((rccPll osc cfg hw s).1 = false → pllSource osc s ≠ none →
      (pllReset hw.stopped s).1 = true →
      ∀ i, ((rccPll osc cfg hw s).2.unit i).on = false ∧
        (rccPll osc cfg hw s).2.pllInited i = false) := by
  refine ⟨pllGetM_eq_zero_iff osc.hse_pos, ?_, ?_⟩
  · intro hresult
    cases hsource : pllSource osc s with
    | none => simp [rccPll, hsource] at hresult
    | some selected =>
      obtain ⟨source, sourceHz⟩ := selected
      have hreset := reset_of_rccPll hsource hresult
      obtain ⟨hprog, hsrc⟩ := startAll_spec osc cfg sourceHz hw.ready
        (s := setSource source (pllReset hw.stopped s).2) (pllReset_unit hreset)
      rw [rccPll_eq hsource cfg hreset] at hresult ⊢
      simp only at hresult ⊢
      split_ifs at hresult ⊢
      refine ⟨source, sourceHz, rfl, ?_, fun i hinit => (hprog i).keepsFrequencies hinit⟩
      rw [hsrc]
      exact Field.read_modify source.code_fits _
  · intro hresult hsome hreset i
    obtain ⟨⟨source, sourceHz⟩, hsource⟩ := Option.ne_none_iff_exists'.mp hsome
    rw [rccPll_eq hsource cfg hreset] at hresult ⊢
    simp only at hresult ⊢
    split_ifs at hresult ⊢
    exact ⟨rfl, rfl⟩

/-- A board for an 8 MHz crystal that does not start: the PLLs run from the 64 MHz HSI. -/
def hsiOnly : State where
  hseInited := false
  csiInited := false
  hsiInited := true
  pllInited := fun _ => false
  cksel := 0x02020200
  unit := fun _ => unitReset

def oscillators8MHz : Oscillators := ⟨8000000, 4000000, 64000000, by decide⟩

theorem rccPll_keepsFrequencies_hsiOnly :
    KeepsFrequencies oscillators8MHz ⟨1, 100, 2, 4, 0, 0⟩ 64000000 0
      (rccPll oscillators8MHz (fun _ => ⟨1, 100, 2, 4, 0, 0⟩) ⟨fun _ => true, fun _ => true⟩
        hsiOnly).2 := by
  obtain ⟨source, sourceHz, hsource, -, hkeeps⟩ :=
    (rccPll_keepsFrequencies oscillators8MHz (fun _ => ⟨1, 100, 2, 4, 0, 0⟩)
      ⟨fun _ => true, fun _ => true⟩ hsiOnly).2.1 (by decide)
  have hhsi : pllSource oscillators8MHz hsiOnly = some (.hsi, 64000000) := rfl
  rw [hhsi] at hsource
  cases hsource
  exact hkeeps 0 (by decide)

end UniHal.Rcc.Stm32h7.Pll
