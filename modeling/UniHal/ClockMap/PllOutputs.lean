import UniHal.Foundations.RoundedDivision
import UniHal.Rcc.Stm32h7.Pll

/-! # The PLL outputs of the clock map

The clock map tool computes the PLL outputs from the text of a configuration; the STM32H7 driver
programs the PLLs from the configuration itself, and `_uni_hal_flash_calc_pll1_p_hz` derives the
output P of the first one from the registers. When the three agree.
-/

namespace UniHal.ClockMap
open Foundations BitField RoundedDivision Rcc.Stm32h7.Pll

inductive FreqId
  | hse | csi | hsi | hsi48 | lse | lsi
  deriving DecidableEq, Repr

structure PllConfig where
  m : Option ℕ
  n : Option ℕ
  p : Option ℕ
  q : Option ℕ
  r : Option ℕ
  fracn : Option ℕ

/-- What the tool reads before it computes the PLLs. -/
structure Inputs where
  hseHz : ℕ
  hsiHz : ℕ
  hsi48Hz : ℕ
  csiHz : ℕ
  lsiHz : ℕ
  lseHz : ℕ
  hseEnable : Option Bool
  csiEnable : Option Bool
  lseEnable : Option Bool
  /-- the `RCC_PLLSOURCE_` tokens of the text, as far as they name an oscillator -/
  pllSourceTokens : List (Option FreqId)
  pll : Fin 3 → PllConfig

def divHz : Option ℕ → Option ℕ → Option ℕ
  | some value, some divider => if divider = 0 then none else some (value / divider)
  | _, _ => none

def mulDivHz : Option ℕ → Option ℕ → Option ℕ → Option ℕ
  | some value, some mul, some div => if div = 0 then none else some (value * mul / div)
  | _, _, _ => none

namespace Inputs

/-- `freqs`, before the PLLs are added -/
def freqs (i : Inputs) : FreqId → Option ℕ
  | .hsi => some i.hsiHz
  | .hse => if i.hseEnable = some false then none else some i.hseHz
  | .hsi48 => some i.hsi48Hz
  | .csi => if i.csiEnable = some false then none else some i.csiHz
  | .lsi => some i.lsiHz
  | .lse => if i.lseEnable = some false then none else some i.lseHz

def pllSourceValues (i : Inputs) : List (Option FreqId) :=
  if i.pllSourceTokens = [] then [if i.hseEnable = some true then some .hse else some .hsi]
  else i.pllSourceTokens

/-- `pll_source_hz`: the first token whose oscillator is there, else HSE, else HSI -/
def pllSourceHz (i : Inputs) : Option ℕ :=
  ((i.pllSourceValues.findSome? fun token => token.bind i.freqs).or (i.freqs .hse)).or
    (i.freqs .hsi)

end Inputs

/-- The outputs of a PLL. -/
inductive Output
  | p | q | r
  deriving DecidableEq, Repr

def PllConfig.divider (c : PllConfig) : Output → Option ℕ
  | .p => c.p
  | .q => c.q
  | .r => c.r

/-- The entry of an output in `pll_outputs`. -/
def Inputs.pllOutput (i : Inputs) (k : Fin 3) (o : Output) : Option ℕ :=
  divHz (mulDivHz i.pllSourceHz (i.pll k).n (i.pll k).m) ((i.pll k).divider o)

/-- `_uni_hal_flash_calc_pll_source_hz`, with the HSI divider at one. -/
def calcPllSourceHz (osc : Oscillators) (s : State) : UInt32 :=
  if pllsrc.read s.cksel = Source.hse.code then osc.hse
  else if pllsrc.read s.cksel = Source.csi.code then osc.csi
  else if pllsrc.read s.cksel = Source.hsi.code then osc.hsi
  else 0

/-- The values that `LL_RCC_PLL1_GetN`, `GetP` and `GetFRACN` read. -/
def getN (u : PllUnit) : ℕ := (divN.read u.divr).toNat + 1
def getP (u : PllUnit) : ℕ := (divP.read u.divr).toNat + 1
def getFracn (u : PllUnit) : ℕ := (fracN.read u.fracr).toNat

def calcPll1PHz (osc : Oscillators) (s : State) : UInt32 :=
  if (s.unit 0).outP = false then 0
  else
    let pllInputHz := calcPllSourceHz osc s
    if pllInputHz = 0 then 0
    else
      let pllM := UInt32.ofNat (s.divider 0)
      let pllP := UInt32.ofNat (getP (s.unit 0))
      let pllN := UInt32.ofNat (getN (s.unit 0))
      if pllM = 0 ∨ pllP = 0 ∨ pllN = 0 then 0
      else
        let pllFracn := UInt32.ofNat (getFracn (s.unit 0))
        let vcoInputHz := pllInputHz.toUInt64 / pllM.toUInt64
        let vcoMultQ13 := (pllN.toUInt64 <<< 13) + pllFracn.toUInt64
        let vcoHz := (vcoInputHz * vcoMultQ13) >>> 13
        let pllPHz := vcoHz / pllP.toUInt64
        if pllPHz > 0xFFFFFFFF then 0xFFFFFFFF else pllPHz.toUInt32

def divider (cfg : Config) : Output → UInt32
  | .p => cfg.p
  | .q => cfg.q
  | .r => cfg.r

def Output.field : Output → Field 32
  | .p => divP
  | .q => divQ
  | .r => divR

/-- The text of the map is that of the configuration, names no other source for the PLLs, and HSE
runs exactly when it is enabled. -/
structure Inputs.Describes (i : Inputs) (osc : Oscillators) (cfg : Fin 3 → Config) (s : State) :
    Prop where
  hseHz : i.hseHz = osc.hse.toNat
  hsiHz : i.hsiHz = osc.hsi.toNat
  hseEnable : i.hseEnable = some true ↔ s.hseInited = true
  tokens : i.pllSourceTokens = []
  m : ∀ k, (i.pll k).m.getD 0 = (cfg k).m.toNat
  n : ∀ k, (i.pll k).n.getD 0 = (cfg k).n.toNat
  dividers : ∀ k o, ((i.pll k).divider o).getD 0 = (divider (cfg k) o).toNat
  fracn : ∀ k, (i.pll k).fracn.getD 0 = (cfg k).fracn.toNat

/-- The map shows what the driver has programmed, in whole hertz, and what it derives for itself. -/
structure Agrees (i : Inputs) (osc : Oscillators) (cfg : Fin 3 → Config) (sourceHz : UInt32)
    (s : State) : Prop where
  programmed : ∀ k o, divider (cfg k) o ≠ 0 →
    i.pllOutput k o = some ⌊s.outHz sourceHz k o.field⌋₊
  derived : (cfg 0).p ≠ 0 → i.pllOutput 0 .p = some (calcPll1PHz osc s).toNat

def registers (cfg : Config) : PllUnit := lockUnit cfg 0 (enableOutputs cfg unitReset)

section Programmed
variable (cfg : Config) (inputHz : UInt32)

theorem lockUnit_fracr (u : PllUnit) :
    (lockUnit cfg inputHz u).fracr =
        (if cfg.fracn ≠ 0 then fracN.modify cfg.fracn.toBitVec u.fracr else u.fracr) ∧
      (lockUnit cfg inputHz u).fracEn = (if cfg.fracn ≠ 0 then true else u.fracEn) := by
  simp only [lockUnit]
  split
  · exact ⟨rfl, rfl⟩
  · exact ⟨rfl, rfl⟩

/-- The range of the input does not matter for the frequencies. -/
theorem registers_eq :
    (lockUnit cfg inputHz (enableOutputs cfg unitReset)).divr = (registers cfg).divr ∧
      (lockUnit cfg inputHz (enableOutputs cfg unitReset)).multiplier =
        (registers cfg).multiplier ∧
      (lockUnit cfg inputHz (enableOutputs cfg unitReset)).fracr = (registers cfg).fracr := by
  have hdivr : (lockUnit cfg inputHz (enableOutputs cfg unitReset)).divr =
        (registers cfg).divr := by
    rw [registers, lockUnit_divr, lockUnit_divr]
  have hfrac := lockUnit_fracr cfg inputHz (enableOutputs cfg unitReset)
  have hsame := lockUnit_fracr cfg 0 (enableOutputs cfg unitReset)
  refine ⟨hdivr, ?_, hfrac.1.trans hsame.1.symm⟩
  rw [PllUnit.multiplier, PllUnit.multiplier, hdivr, hfrac.1, hfrac.2, registers, hsame.1, hsame.2]

theorem enableOutputs_fracr (u : PllUnit) : (enableOutputs cfg u).fracr = u.fracr := by
  simp only [enableOutputs]
  split_ifs <;> rfl

theorem multiplier_registers :
    (registers cfg).multiplier = getN (registers cfg) + getFracn (registers cfg) / 8192 := by
  have hfrac := lockUnit_fracr cfg 0 (enableOutputs cfg unitReset)
  rw [PllUnit.multiplier, getN]
  congr 1
  split
  · rfl
  · rename_i hoff
    have hzero : cfg.fracn = 0 := by
      by_contra hne
      exact hoff (hfrac.2.trans (if_pos hne))
    have hread : getFracn (registers cfg) = 0 := by
      rw [getFracn, registers, hfrac.1, if_neg (not_not.mpr hzero), enableOutputs_fracr]
      rfl
    rw [hread]
    norm_num

end Programmed

def programmedHz (osc : Oscillators) (cfg : Config) (o : Output) : ℚ :=
  osc.hse.toNat / cfg.m.toNat * (registers cfg).multiplier /
    ((o.field.read (registers cfg).divr).toNat + 1 : ℕ)

theorem outHz_eq {osc : Oscillators} {cfg : Config} {sourceHz : UInt32} {k : Fin 3} {s : State}
    (h : KeepsFrequencies osc cfg sourceHz k s) (o : Output) :
    s.outHz sourceHz k o.field = programmedHz osc cfg o := by
  obtain ⟨inputHz, hunit⟩ := h.registers
  obtain ⟨hdivr, hmultiplier, -⟩ := registers_eq cfg inputHz
  rw [State.outHz, h.like_hse, hunit, hmultiplier, hdivr, programmedHz]

def mapSourceHz (osc : Oscillators) (s : State) : UInt32 := if s.hseInited then osc.hse else osc.hsi

def mappedHz (osc : Oscillators) (s : State) (cfg : Config) (o : Output) : ℚ :=
  ((mapSourceHz osc s).toNat * cfg.n.toNat : ℕ) / cfg.m.toNat / (divider cfg o).toNat

section Map
variable {i : Inputs} {osc : Oscillators} {cfg : Fin 3 → Config} {s : State}

theorem Inputs.Describes.pllSourceHz (h : i.Describes osc cfg s) :
    i.pllSourceHz = some (mapSourceHz osc s).toNat := by
  rw [Inputs.pllSourceHz, Inputs.pllSourceValues, if_pos h.tokens, mapSourceHz]
  by_cases hhse : s.hseInited = true
  · have henable := h.hseEnable.mpr hhse
    simp [henable, Inputs.freqs, hhse, h.hseHz]
  · have henable : i.hseEnable ≠ some true := fun he => hhse (h.hseEnable.mp he)
    simp [henable, Inputs.freqs, hhse, h.hsiHz]

theorem eq_some_of_getD {x : Option ℕ} {y : ℕ} (h : x.getD 0 = y) (hy : y ≠ 0) : x = some y := by
  cases x with
  | none => exact absurd h.symm hy
  | some value => exact congrArg some h

theorem Inputs.Describes.pllOutput (h : i.Describes osc cfg s) {k : Fin 3} {o : Output}
    (hm : (cfg k).m.toNat ≠ 0) (hdivider : (divider (cfg k) o).toNat ≠ 0)
    (hn : (i.pll k).n ≠ none) :
    i.pllOutput k o = some ⌊mappedHz osc s (cfg k) o⌋₊ := by
  obtain ⟨n, hn⟩ := Option.ne_none_iff_exists'.mp hn
  have hvalue := h.n k
  rw [hn, Option.getD_some] at hvalue
  rw [Inputs.pllOutput, h.pllSourceHz, eq_some_of_getD (h.m k) hm,
    eq_some_of_getD (h.dividers k o) hdivider, hn, mulDivHz, if_neg hm, divHz, if_neg hdivider,
    mappedHz, floor_div_div, hvalue]

theorem pllOutput_none {k : Fin 3} {o : Output} (hn : (i.pll k).n = none) :
    i.pllOutput k o = none := by
  rw [Inputs.pllOutput, hn]
  cases i.pllSourceHz with
  | none => rfl
  | some hz => rfl

end Map

section Derived
variable {osc : Oscillators} {s : State}

theorem getN_le (u : PllUnit) : getN u ≤ 512 := divN.read_lt u.divr

theorem getP_le (u : PllUnit) : getP u ≤ 128 := divP.read_lt u.divr

theorem getFracn_lt (u : PllUnit) : getFracn u < 8192 := fracN.read_lt u.fracr

theorem toNat_vcoMultQ13 {n fracn : ℕ} (hn : n ≤ 512) (hfracn : fracn < 8192) :
    (((UInt32.ofNat n).toUInt64 <<< 13) + (UInt32.ofNat fracn).toUInt64).toNat =
      n * 8192 + fracn := by
  have hn32 : (UInt32.ofNat n).toNat = n := Nat.mod_eq_of_lt (by omega)
  have hfracn32 : (UInt32.ofNat fracn).toNat = fracn := Nat.mod_eq_of_lt (by omega)
  rw [UInt64.toNat_add, UInt64.toNat_shiftLeft, UInt32.toNat_toUInt64, UInt32.toNat_toUInt64, hn32,
    hfracn32, Nat.shiftLeft_eq]
  change (n * 8192 % 2 ^ 64 + fracn) % 2 ^ 64 = _
  rw [Nat.mod_eq_of_lt (by omega), Nat.mod_eq_of_lt (by omega)]

theorem toNat_clamp (x : UInt64) :
    (if x > 0xFFFFFFFF then (0xFFFFFFFF : UInt32) else x.toUInt32).toNat =
      min (2 ^ 32 - 1) x.toNat := by
  have hlimit : x > 0xFFFFFFFF ↔ 2 ^ 32 - 1 < x.toNat := UInt64.lt_iff_toNat_lt
  split
  · rename_i h
    exact (min_eq_left (hlimit.mp h).le).symm
  · rename_i h
    have hle := Nat.not_lt.mp (mt hlimit.mpr h)
    rw [min_eq_right hle, UInt64.toNat_toUInt32]
    exact Nat.mod_eq_of_lt (by omega)

theorem toNat_calcPll1PHz (hout : (s.unit 0).outP = true) (hsource : calcPllSourceHz osc s ≠ 0)
    (hdivider : s.divider 0 ≠ 0) :
    (calcPll1PHz osc s).toNat = min (2 ^ 32 - 1)
      ((calcPllSourceHz osc s).toNat / s.divider 0 *
        (getN (s.unit 0) * 8192 + getFracn (s.unit 0)) / 8192 / getP (s.unit 0)) := by
  have hn := getN_le (s.unit 0)
  have hp := getP_le (s.unit 0)
  have hfracn := getFracn_lt (s.unit 0)
  have hm : s.divider 0 < 64 := (divM 0).read_lt s.cksel
  have hnpos : 0 < getN (s.unit 0) := Nat.succ_pos _
  have hppos : 0 < getP (s.unit 0) := Nat.succ_pos _
  have hsmall : ∀ x < 2 ^ 32, (UInt32.ofNat x).toNat = x := fun x hx => Nat.mod_eq_of_lt hx
  have hpositive : ∀ x < 2 ^ 32, x ≠ 0 → UInt32.ofNat x ≠ 0 := by
    intro x hx hne h
    have hzero := congrArg UInt32.toNat h
    rw [hsmall x hx] at hzero
    exact hne hzero
  have hall : ¬ (UInt32.ofNat (s.divider 0) = 0 ∨ UInt32.ofNat (getP (s.unit 0)) = 0 ∨
      UInt32.ofNat (getN (s.unit 0)) = 0) := by
    simp only [not_or]
    exact ⟨hpositive _ (by omega) hdivider, hpositive _ (by omega) hppos.ne',
      hpositive _ (by omega) hnpos.ne'⟩
  rw [calcPll1PHz, if_neg (by simp [hout])]
  simp only [if_neg hsource, if_neg hall]
  have hmult := toNat_vcoMultQ13 hn hfracn
  have hproduct : (calcPllSourceHz osc s).toNat / s.divider 0 *
      (getN (s.unit 0) * 8192 + getFracn (s.unit 0)) < 2 ^ 64 := by
    have hquot : (calcPllSourceHz osc s).toNat / s.divider 0 ≤ 2 ^ 32 :=
      (Nat.div_le_self _ _).trans (calcPllSourceHz osc s).toNat_lt.le
    calc (calcPllSourceHz osc s).toNat / s.divider 0 *
          (getN (s.unit 0) * 8192 + getFracn (s.unit 0))
        ≤ 2 ^ 32 * (513 * 8192) := Nat.mul_le_mul hquot (by omega)
      _ < 2 ^ 64 := by norm_num
  rw [toNat_clamp, UInt64.toNat_div, UInt64.toNat_shiftRight, UInt64.toNat_mul, hmult,
    UInt64.toNat_div, UInt32.toNat_toUInt64, UInt32.toNat_toUInt64, UInt32.toNat_toUInt64,
    hsmall _ (by omega), hsmall _ (by omega), Nat.mod_eq_of_lt hproduct, Nat.shiftRight_eq_div_pow]
  rfl

def lostHz (cfg : Config) (sourceHz inputDivider : ℕ) : ℚ :=
  (sourceHz % inputDivider : ℕ) / inputDivider * (registers cfg).multiplier / getP (registers cfg)

variable {cfg : Config} {sourceHz : UInt32}

theorem lostHz_nonneg (cfg : Config) (sourceHz inputDivider : ℕ) :
    0 ≤ lostHz cfg sourceHz inputDivider := by
  rw [lostHz, multiplier_registers]
  positivity

theorem programmedHz_sub_lostHz (h : KeepsFrequencies osc cfg sourceHz 0 s) :
    programmedHz osc cfg .p - lostHz cfg sourceHz.toNat (s.divider 0) =
      (sourceHz.toNat / s.divider 0 *
        (getN (registers cfg) * 8192 + getFracn (registers cfg)) : ℕ) / (8192 : ℕ) /
          getP (registers cfg) := by
  have hdivider : (s.divider 0 : ℚ) ≠ 0 :=
    Nat.cast_ne_zero.mpr (Nat.one_le_iff_ne_zero.mp h.exact_divider.1.1)
  have hsplit : (sourceHz.toNat : ℚ) = s.divider 0 * (sourceHz.toNat / s.divider 0 : ℕ) +
      (sourceHz.toNat % s.divider 0 : ℕ) := by
    exact_mod_cast (Nat.div_add_mod sourceHz.toNat (s.divider 0)).symm
  have hquotient : (sourceHz.toNat : ℚ) / s.divider 0 = (sourceHz.toNat / s.divider 0 : ℕ) +
      (sourceHz.toNat % s.divider 0 : ℕ) / s.divider 0 := by
    rw [div_eq_iff hdivider, add_mul, div_mul_cancel₀ _ hdivider, mul_comm _ (s.divider 0 : ℚ)]
    exact hsplit
  have hp : ((Output.field .p).read (registers cfg).divr).toNat + 1 = getP (registers cfg) := rfl
  rw [programmedHz, lostHz, ← h.reference, hquotient, multiplier_registers, hp, ← sub_div,
    ← sub_mul]
  push_cast
  ring

/-- The derivation truncates the output P without what the truncation of the PLL input takes. -/
theorem calcPll1PHz_eq (h : KeepsFrequencies osc cfg sourceHz 0 s)
    (hsource : calcPllSourceHz osc s = sourceHz) (hout : (s.unit 0).outP = true) :
    (calcPll1PHz osc s).toNat =
      min (2 ^ 32 - 1) ⌊programmedHz osc cfg .p - lostHz cfg sourceHz.toNat (s.divider 0)⌋₊ := by
  obtain ⟨⟨hlow, -⟩, hexact⟩ := h.exact_divider
  obtain ⟨inputHz, hunit⟩ := h.registers
  obtain ⟨hdivr, -, hfracr⟩ := registers_eq cfg inputHz
  have hsource0 : calcPllSourceHz osc s ≠ 0 := by
    intro hzero
    rw [← hsource, hzero] at hexact
    have hpos := Nat.mul_pos osc.hse_pos hlow
    change 0 * cfg.m.toNat = _ at hexact
    omega
  rw [toNat_calcPll1PHz hout hsource0 (Nat.one_le_iff_ne_zero.mp hlow), hsource, getN, getFracn,
    getP, hunit, hdivr, hfracr, programmedHz_sub_lostHz h, floor_div_div]
  rfl

theorem lostHz_le (h : KeepsFrequencies osc cfg sourceHz 0 s) :
    lostHz cfg sourceHz.toNat (s.divider 0) ≤ programmedHz osc cfg .p := by
  rw [← sub_nonneg, programmedHz_sub_lostHz h]
  positivity

/-- The derivation gives the whole hertz of the output P. -/
theorem calcPll1PHz_eq_floor_iff (h : KeepsFrequencies osc cfg sourceHz 0 s)
    (hsource : calcPllSourceHz osc s = sourceHz) (hout : (s.unit 0).outP = true) :
    (calcPll1PHz osc s).toNat = ⌊programmedHz osc cfg .p⌋₊ ↔
      lostHz cfg sourceHz.toNat (s.divider 0) ≤ Int.fract (programmedHz osc cfg .p) ∧
        programmedHz osc cfg .p < 2 ^ 32 := by
  have hlost := lostHz_nonneg cfg sourceHz.toNat (s.divider 0)
  have hle := lostHz_le h
  have hfits : programmedHz osc cfg .p < 2 ^ 32 ↔ ⌊programmedHz osc cfg .p⌋₊ < 2 ^ 32 := by
    rw [Nat.floor_lt (hlost.trans hle)]
    norm_num
  have hmono : ⌊programmedHz osc cfg .p - lostHz cfg sourceHz.toNat (s.divider 0)⌋₊ ≤
      ⌊programmedHz osc cfg .p⌋₊ := Nat.floor_mono (sub_le_self _ hlost)
  rw [calcPll1PHz_eq h hsource hout, ← floor_sub_eq_iff hlost hle, hfits]
  generalize ⌊programmedHz osc cfg .p - lostHz cfg sourceHz.toNat (s.divider 0)⌋₊ = derived at *
  generalize ⌊programmedHz osc cfg .p⌋₊ = whole at *
  constructor
  · intro heq
    constructor <;> omega
  · rintro ⟨heq, hlt⟩
    omega

end Derived

/-- Where the tool and the driver differ it does not show in whole hertz. -/
structure Close (i : Inputs) (osc : Oscillators) (cfg : Fin 3 → Config) (s : State)
    (sourceHz : UInt32) : Prop where
  written : ∀ k o, divider (cfg k) o ≠ 0 → (i.pll k).n ≠ none
  /-- the fraction and the difference of the oscillators carry nothing over -/
  carry : ∀ k o, divider (cfg k) o ≠ 0 →
    0 ≤ Int.fract (mappedHz osc s (cfg k) o) +
        (programmedHz osc (cfg k) o - mappedHz osc s (cfg k) o) ∧
      Int.fract (mappedHz osc s (cfg k) o) +
        (programmedHz osc (cfg k) o - mappedHz osc s (cfg k) o) < 1
  /-- the truncation of the PLL input loses nothing, and the result fits -/
  lost : (cfg 0).p ≠ 0 →
    lostHz (cfg 0) sourceHz.toNat (sourceHz.toNat * (cfg 0).m.toNat / osc.hse.toNat) ≤
        Int.fract (programmedHz osc (cfg 0) .p) ∧
      programmedHz osc (cfg 0) .p < 2 ^ 32

section Stage
variable {osc : Oscillators} {cfg : Fin 3 → Config} {s : State} {sourceHz : UInt32}

theorem inited_lockPll {k : Fin 3} {c : Config} {pllM : UInt32} {ready : Bool}
    (h : (lockPll k c pllM sourceHz ready s).1 = true) :
    (lockPll k c pllM sourceHz ready s).2.pllInited k = true :=
  (Function.update_self ..).trans h

theorem inited_startPll1 {c : Config} {ready : Bool}
    (h : (startPll1 osc c sourceHz ready s).1 = true) :
    (startPll1 osc c sourceHz ready s).2.pllInited 0 = true := by
  unfold startPll1 at h ⊢
  dsimp only at h ⊢
  split at h
  · cases h
  · rename_i hm
    rw [if_neg hm]
    exact inited_lockPll h

theorem inited_startPll {k : Fin 3} {c : Config} {ready : Bool}
    (h : (startPll k osc c sourceHz ready s).1 = true) (hc : c.p ≠ 0 ∨ c.q ≠ 0 ∨ c.r ≠ 0) :
    (startPll k osc c sourceHz ready s).2.pllInited k = true := by
  unfold startPll at h ⊢
  simp only [if_pos hc] at h ⊢
  split at h
  · cases h
  · rename_i hm
    rw [if_neg hm]
    exact inited_lockPll h

theorem configured {c : Config} {o : Output} (h : divider c o ≠ 0) :
    c.p ≠ 0 ∨ c.q ≠ 0 ∨ c.r ≠ 0 := by
  cases o with
  | p => exact Or.inl h
  | q => exact Or.inr (Or.inl h)
  | r => exact Or.inr (Or.inr h)

/-- After a success the first PLL runs, and the others run that have an output. -/
theorem inited_startAll {ready : Fin 3 → Bool} (hunit : ∀ i, s.unit i = unitReset)
    (h : (startAll osc cfg sourceHz ready s).1 = true) :
    (startAll osc cfg sourceHz ready s).2.pllInited 0 = true ∧
      ∀ k o, divider (cfg k) o ≠ 0 →
        (startAll osc cfg sourceHz ready s).2.pllInited k = true := by
  obtain ⟨-, hframe0⟩ := startPll1_spec osc (cfg 0) sourceHz (ready 0) (hunit 0)
  obtain ⟨-, hframe1⟩ := startPll_spec 1 osc (cfg 1) sourceHz (ready 1)
    ((hframe0.unit 1 (by decide)).trans (hunit 1))
  obtain ⟨-, hframe2⟩ := startPll_spec 2 osc (cfg 2) sourceHz (ready 2)
    ((hframe1.unit 2 (by decide)).trans ((hframe0.unit 2 (by decide)).trans (hunit 2)))
  simp only [startAll, Bool.and_eq_true] at h
  obtain ⟨⟨h0, h1⟩, h2⟩ := h
  have hfirst := (hframe2.inited 0 (by decide)).trans
    ((hframe1.inited 0 (by decide)).trans (inited_startPll1 h0))
  refine ⟨hfirst, fun k o hk => ?_⟩
  fin_cases k
  · exact hfirst
  · exact (hframe2.inited 1 (by decide)).trans (inited_startPll h1 (configured hk))
  · exact inited_startPll h2 (configured hk)

/-- What a success of the stage leaves for the comparison. -/
theorem keepsFrequencies_of_rccPll {hw : Outcome} {source : Source}
    (hsource : pllSource osc s = some (source, sourceHz)) (hok : (rccPll osc cfg hw s).1 = true) :
    pllsrc.read (rccPll osc cfg hw s).2.cksel = source.code ∧
      KeepsFrequencies osc (cfg 0) sourceHz 0 (rccPll osc cfg hw s).2 ∧
      ∀ k o, divider (cfg k) o ≠ 0 →
        KeepsFrequencies osc (cfg k) sourceHz k (rccPll osc cfg hw s).2 := by
  have hreset := reset_of_rccPll hsource hok
  obtain ⟨hprog, hsrc⟩ := startAll_spec osc cfg sourceHz hw.ready
    (s := setSource source (pllReset hw.stopped s).2) (pllReset_unit hreset)
  have hunit : ∀ i, (setSource source (pllReset hw.stopped s).2).unit i = unitReset :=
    pllReset_unit hreset
  rw [rccPll_eq hsource cfg hreset] at hok ⊢
  simp only at hok ⊢
  split_ifs at hok ⊢ with hstart
  obtain ⟨hfirst, hothers⟩ := inited_startAll hunit hstart
  refine ⟨?_, (hprog 0).keepsFrequencies hfirst,
    fun k o hk => (hprog k).keepsFrequencies (hothers k o hk)⟩
  rw [hsrc]
  exact Field.read_modify source.code_fits _

theorem calcPllSourceHz_eq {source : Source} (hsource : pllSource osc s = some (source, sourceHz))
    {t : State} (hread : pllsrc.read t.cksel = source.code) : calcPllSourceHz osc t = sourceHz := by
  unfold pllSource at hsource
  rw [calcPllSourceHz, hread]
  split at hsource
  · cases hsource
    rfl
  · split at hsource
    · cases hsource
      rfl
    · split at hsource
      · cases hsource
        rfl
      · cases hsource

theorem m_ne_zero {c : Config} {k : Fin 3} (h : KeepsFrequencies osc c sourceHz k s) :
    c.m.toNat ≠ 0 := by
  intro hm
  obtain ⟨⟨hlow, -⟩, hexact⟩ := h.exact_divider
  have hpos := Nat.mul_pos osc.hse_pos hlow
  rw [hm, Nat.mul_zero] at hexact
  omega

theorem divider_eq {c : Config} {k : Fin 3} (h : KeepsFrequencies osc c sourceHz k s) :
    s.divider k = sourceHz.toNat * c.m.toNat / osc.hse.toNat := by
  rw [h.exact_divider.2, Nat.mul_div_cancel_left _ osc.hse_pos]

theorem outP_of_keepsFrequencies {c : Config} {k : Fin 3}
    (h : KeepsFrequencies osc c sourceHz k s) (hp : c.p ≠ 0) : (s.unit k).outP = true := by
  obtain ⟨inputHz, hunit⟩ := h.registers
  rw [hunit, (lockUnit_outputs c inputHz _).1]
  exact enableOutputs_outP c unitReset hp

/-- The map shows an output as it is programmed when the difference carries nothing over. -/
theorem pllOutput_eq_iff {i : Inputs} {t : State} (hsame : i.Describes osc cfg s) {k : Fin 3}
    {o : Output} (hk : divider (cfg k) o ≠ 0) (h : KeepsFrequencies osc (cfg k) sourceHz k t) :
    i.pllOutput k o = some ⌊t.outHz sourceHz k o.field⌋₊ ↔
      (i.pll k).n ≠ none ∧
        0 ≤ Int.fract (mappedHz osc s (cfg k) o) +
            (programmedHz osc (cfg k) o - mappedHz osc s (cfg k) o) ∧
          Int.fract (mappedHz osc s (cfg k) o) +
            (programmedHz osc (cfg k) o - mappedHz osc s (cfg k) o) < 1 := by
  have hmapped : 0 ≤ mappedHz osc s (cfg k) o := by
    rw [mappedHz]
    positivity
  have hprogrammed : 0 ≤ programmedHz osc (cfg k) o := by
    rw [programmedHz, multiplier_registers]
    positivity
  rw [← floor_eq_floor_iff hmapped hprogrammed, outHz_eq h]
  by_cases hn : (i.pll k).n = none
  · rw [pllOutput_none hn]
    exact iff_of_false (by simp) fun hboth => hboth.1 hn
  · have hdivider : (divider (cfg k) o).toNat ≠ 0 := fun h0 => hk (UInt32.toNat_inj.mp h0)
    rw [hsame.pllOutput (m_ne_zero h) hdivider hn, Option.some.injEq]
    exact ⟨fun heq => ⟨hn, heq.symm⟩, fun hboth => hboth.2.symm⟩

theorem programmedHz_of_inRange {c : Config} (hrange : c.InRange) {o : Output}
    (ho : divider c o ≠ 0) : programmedHz osc c o = c.vcoHz osc / (divider c o).toNat := by
  have hfield : (o.field.read (registers c).divr).toNat + 1 = (divider c o).toNat := by
    cases o with
    | p => exact divP_programmed hrange 0 ho
    | q => exact divQ_programmed hrange 0 ho
    | r => exact divR_programmed hrange 0 ho
  rw [programmedHz, hfield, registers, multiplier_programmed hrange, Config.vcoHz]

/-- The tool leaves out the fraction, and takes the multiple of another oscillator when HSE does not
run. -/
theorem programmedHz_sub_mappedHz {c : Config} (hrange : c.InRange) {o : Output}
    (ho : divider c o ≠ 0) :
    programmedHz osc c o - mappedHz osc s c o =
      ((osc.hse.toNat - (mapSourceHz osc s).toNat) * c.n.toNat +
        osc.hse.toNat * c.fracn.toNat / 8192) / c.m.toNat / (divider c o).toNat := by
  rw [programmedHz_of_inRange hrange ho, Config.vcoHz, mappedHz]
  push_cast
  ring

/-- HSE runs, no PLL with an output has a fraction, and the input divider of the first one divides
HSE. -/
theorem close_of_whole {i : Inputs} (hhse : s.hseInited = true)
    (hrange : ∀ k o, divider (cfg k) o ≠ 0 → (cfg k).InRange)
    (hwritten : ∀ k o, divider (cfg k) o ≠ 0 → (i.pll k).n ≠ none)
    (hfracn : ∀ k o, divider (cfg k) o ≠ 0 → (cfg k).fracn = 0)
    (hm : (cfg 0).m.toNat ∣ osc.hse.toNat)
    (hfits : (cfg 0).p ≠ 0 → (cfg 0).vcoHz osc / (cfg 0).p.toNat < 2 ^ 32) :
    Close i osc cfg s osc.hse := by
  have hsame : mapSourceHz osc s = osc.hse := if_pos hhse
  constructor
  · exact hwritten
  · intro k o hk
    have hfract := Int.fract_lt_one (mappedHz osc s (cfg k) o)
    have hdifference : programmedHz osc (cfg k) o - mappedHz osc s (cfg k) o = 0 := by
      rw [programmedHz_sub_mappedHz (hrange k o hk) hk, hsame, hfracn k o hk]
      simp
    rw [hdifference, add_zero]
    exact ⟨Int.fract_nonneg _, hfract⟩
  · intro hp
    have hmod : osc.hse.toNat % (cfg 0).m.toNat = 0 := Nat.mod_eq_zero_of_dvd hm
    rw [Nat.mul_div_cancel_left _ osc.hse_pos, lostHz, hmod, Nat.cast_zero, zero_div, zero_mul,
      zero_div]
    refine ⟨Int.fract_nonneg _, ?_⟩
    rw [programmedHz_of_inRange (o := .p) (hrange 0 .p hp) hp]
    exact hfits hp

theorem clockMap_agrees_iff (osc : Oscillators) (cfg : Fin 3 → Config) (hw : Outcome) (s : State)
    (i : Inputs) (hsame : i.Describes osc cfg s) {source : Source} {sourceHz : UInt32}
    (hsource : pllSource osc s = some (source, sourceHz)) (hok : (rccPll osc cfg hw s).1 = true) :
    Agrees i osc cfg sourceHz (rccPll osc cfg hw s).2 ↔ Close i osc cfg s sourceHz := by
  obtain ⟨hread, hfirst, hkeeps⟩ := keepsFrequencies_of_rccPll hsource hok
  have hderived : (cfg 0).p ≠ 0 →
      i.pllOutput 0 .p = some ⌊(rccPll osc cfg hw s).2.outHz sourceHz 0 divP⌋₊ →
      (i.pllOutput 0 .p = some (calcPll1PHz osc (rccPll osc cfg hw s).2).toNat ↔
        lostHz (cfg 0) sourceHz.toNat (sourceHz.toNat * (cfg 0).m.toNat / osc.hse.toNat) ≤
            Int.fract (programmedHz osc (cfg 0) .p) ∧
          programmedHz osc (cfg 0) .p < 2 ^ 32) := by
    intro hp hmap
    rw [← divider_eq hfirst, ← calcPll1PHz_eq_floor_iff hfirst
      (calcPllSourceHz_eq hsource hread) (outP_of_keepsFrequencies hfirst hp), hmap,
      Option.some.injEq, ← outHz_eq hfirst .p]
    exact eq_comm
  constructor
  · intro h
    exact ⟨fun k o hk => ((pllOutput_eq_iff hsame hk (hkeeps k o hk)).mp (h.programmed k o hk)).1,
      fun k o hk => ((pllOutput_eq_iff hsame hk (hkeeps k o hk)).mp (h.programmed k o hk)).2,
      fun hp => (hderived hp (h.programmed 0 .p hp)).mp (h.derived hp)⟩
  · intro h
    have hprogrammed : ∀ k o, divider (cfg k) o ≠ 0 →
        i.pllOutput k o = some ⌊(rccPll osc cfg hw s).2.outHz sourceHz k o.field⌋₊ :=
      fun k o hk => (pllOutput_eq_iff hsame hk (hkeeps k o hk)).mpr
          ⟨h.written k o hk, h.carry k o hk⟩
    exact ⟨hprogrammed, fun hp => (hderived hp (hprogrammed 0 .p hp)).mpr (h.lost hp)⟩

end Stage

section Boards

/-- A board with a crystal of 25 MHz, and one PLL that divides it by five. -/
def oscillators25MHz : Oscillators := ⟨25000000, 4000000, 64000000, by decide⟩

def onePll (n p fracn : UInt32) : Fin 3 → Config :=
  ![⟨5, n, p, 0, 0, fracn⟩, ⟨0, 0, 0, 0, 0, 0⟩, ⟨0, 0, 0, 0, 0, 0⟩]

def onePllText (n p fracn : ℕ) : Inputs where
  hseHz := 25000000
  hsiHz := 64000000
  hsi48Hz := 48000000
  csiHz := 4000000
  lsiHz := 32000
  lseHz := 32768
  hseEnable := some true
  csiEnable := none
  lseEnable := none
  pllSourceTokens := []
  pll := ![⟨some 5, some n, some p, none, none, some fracn⟩, ⟨none, none, none, none, none, none⟩,
    ⟨none, none, none, none, none, none⟩]

def hseRuns : State where
  hseInited := true
  csiInited := false
  hsiInited := true
  pllInited := fun _ => false
  cksel := 0x02020200
  unit := fun _ => unitReset

theorem onePllText_describes (n p fracn : UInt32) :
    (onePllText n.toNat p.toNat fracn.toNat).Describes oscillators25MHz (onePll n p fracn)
      hseRuns := by
  constructor
  · rfl
  · rfl
  · exact iff_of_true rfl rfl
  · rfl
  all_goals intro k
  · fin_cases k <;> rfl
  · fin_cases k <;> rfl
  · intro o
    fin_cases k <;> cases o <;> rfl
  · fin_cases k <;> rfl

theorem onePll_inRange {n p fracn : UInt32} (hlow : 1 ≤ n.toNat) (hhigh : n.toNat ≤ 512)
    (hp : p.toNat ≤ 128) (hfracn : fracn.toNat < 8192) :
    ∀ k o, divider (onePll n p fracn k) o ≠ 0 → (onePll n p fracn k).InRange := by
  intro k o hk
  fin_cases k
  · exact ⟨hlow, hhigh, hp, Nat.zero_le _, Nat.zero_le _, hfracn⟩
  · cases o <;> exact absurd rfl hk
  · cases o <;> exact absurd rfl hk

theorem clockMap_agrees_480MHz :
    Agrees (onePllText 192 2 0) oscillators25MHz (onePll 192 2 0) 25000000
      (rccPll oscillators25MHz (onePll 192 2 0) ⟨fun _ => true, fun _ => true⟩ hseRuns).2 := by
  refine (clockMap_agrees_iff oscillators25MHz (onePll 192 2 0) ⟨fun _ => true, fun _ => true⟩
    hseRuns (onePllText 192 2 0) (onePllText_describes 192 2 0) rfl (by decide)).mpr
    (close_of_whole rfl (onePll_inRange (by decide) (by decide) (by decide) (by decide))
      ?_ ?_ ?_ ?_)
  · intro k o hk
    fin_cases k
    · exact Option.some_ne_none _
    · cases o <;> exact absurd rfl hk
    · cases o <;> exact absurd rfl hk
  · intro k o _
    fin_cases k <;> rfl
  · decide
  · intro _
    change ((25000000 : ℕ) : ℚ) / (5 : ℕ) * ((192 : ℕ) + (0 : ℕ) / 8192) / (2 : ℕ) < 2 ^ 32
    norm_num

/-- With a fraction of one half the map shows 400 MHz for an output of 401.25 MHz. -/
theorem clockMap_disagrees_fraction :
    (onePllText 160 2 4096).Describes oscillators25MHz (onePll 160 2 4096) hseRuns ∧
      (rccPll oscillators25MHz (onePll 160 2 4096) ⟨fun _ => true, fun _ => true⟩ hseRuns).1
        = true ∧
      (onePllText 160 2 4096).pllOutput 0 .p = some 400000000 ∧
      (rccPll oscillators25MHz (onePll 160 2 4096) ⟨fun _ => true, fun _ => true⟩
        hseRuns).2.outHz 25000000 0 divP = 401250000 ∧
      ¬ Agrees (onePllText 160 2 4096) oscillators25MHz (onePll 160 2 4096) 25000000
        (rccPll oscillators25MHz (onePll 160 2 4096) ⟨fun _ => true, fun _ => true⟩ hseRuns).2 := by
  have hok : (rccPll oscillators25MHz (onePll 160 2 4096) ⟨fun _ => true, fun _ => true⟩
      hseRuns).1 = true := by decide
  have hmap : (onePllText 160 2 4096).pllOutput 0 .p = some 400000000 := by decide
  have hkeeps := (keepsFrequencies_of_rccPll rfl hok).2.1
  have hout : (rccPll oscillators25MHz (onePll 160 2 4096) ⟨fun _ => true, fun _ => true⟩
      hseRuns).2.outHz 25000000 0 divP = 401250000 := by
    have hconfigured : divider (onePll 160 2 4096 0) .p ≠ 0 := by decide
    have hrange : (onePll 160 2 4096 0).InRange :=
      onePll_inRange (by decide) (by decide) (by decide) (by decide) 0 .p hconfigured
    refine (outHz_eq hkeeps .p).trans ((programmedHz_of_inRange hrange hconfigured).trans ?_)
    change ((25000000 : ℕ) : ℚ) / (5 : ℕ) * ((160 : ℕ) + (4096 : ℕ) / 8192) / (2 : ℕ) = 401250000
    norm_num
  refine ⟨onePllText_describes 160 2 4096, hok, hmap, hout, fun h => ?_⟩
  have hprogrammed := h.programmed 0 .p (by decide)
  have hout' : (rccPll oscillators25MHz (onePll 160 2 4096) ⟨fun _ => true, fun _ => true⟩
      hseRuns).2.outHz 25000000 0 Output.p.field = 401250000 := hout
  rw [hmap, hout'] at hprogrammed
  norm_num at hprogrammed

end Boards

end UniHal.ClockMap
