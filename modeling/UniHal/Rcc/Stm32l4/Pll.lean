import UniHal.Foundations.Execution

/-! # The PLL of the STM32L4 and its fallback to HSI

`_uni_hal_stm_rcc_pll`, `_uni_hal_stm_rcc_sysclk`, the oscillator part of `uni_hal_rcc_init`
and the clock security path of `NMI_Handler`. Whether an oscillator starts, whether the PLL
locks and whether the switch of the system clock completes in time are choices of the run.
-/

namespace UniHal.Rcc.Stm32l4.Pll
open Foundations Execution

def hsiValue : UInt32 := 16000000

/-- `uni_hal_rcc_stm32l4_config_pll_t`, the dividers of the system clock output. -/
structure Config where
  m : UInt32
  n : UInt32
  r : UInt32

inductive PllSource
  | none | hsi | hse
  deriving DecidableEq, Repr

inductive SysClock
  | msi | hsi | hse | pll
  deriving DecidableEq, Repr

/-- `PLLCFGR` and the enable bit of the PLL, the dividers as the numbers they stand for. -/
structure PllRegs where
  source : PllSource
  m : UInt32
  n : UInt32
  r : UInt32
  on : Bool

/-- The status flags of the driver and the part of the clock tree that it sets up. -/
structure State where
  hseInited : Bool
  hsiInited : Bool
  pllInited : Bool
  sysInited : Bool
  inited : Bool
  hseOn : Bool
  cssFlag : Bool
  pll : PllRegs
  /-- The selected system clock: the core runs from it once the switch has taken place. -/
  sysclk : SysClock

def powerOn : State where
  hseInited := false
  hsiInited := false
  pllInited := false
  sysInited := false
  inited := false
  hseOn := false
  cssFlag := false
  pll := ⟨.none, 1, 8, 2, false⟩
  sysclk := .msi

/-- `_uni_hal_rcc_pll_get_m`: what is not in the table divides by one. -/
def pllGetM (val : UInt32) : UInt32 :=
  match val with
  | 1 => 1
  | 2 => 2
  | 3 => 3
  | 4 => 4
  | 5 => 5
  | 6 => 6
  | 7 => 7
  | 8 => 8
  | _ => 1

def pllGetN (val : UInt32) : UInt32 := if 8 ≤ val ∧ val ≤ 127 then val else 8

def pllGetR (val : UInt32) : UInt32 :=
  match val with
  | 2 => 2
  | 4 => 4
  | 6 => 6
  | 8 => 8
  | _ => 2

variable (hse : UInt32) (cfg : Config)

def pllInput (s : State) : PllSource × UInt32 :=
  if s.hseInited then (.hse, 1)
  else if s.hsiInited then (.hsi, hsiValue / hse)
  else (.none, 1)

def rccPll (ready : Bool) (s : State) : State :=
  let (source, division) := pllInput hse s
  if source ≠ .none then
    { s with
      pll := ⟨source, pllGetM (cfg.m * division), pllGetN cfg.n, pllGetR cfg.r, true⟩
      pllInited := ready }
  else s

def rccSysclk (switched : Bool) (s : State) : State :=
  { s with
    sysclk :=
      if s.pllInited then .pll
      else if s.hseInited then .hse
      else if s.hsiInited then .hsi
      else .msi
    sysInited := switched }

/-- How the stages of a start end: HSE and HSI ready, PLL locked, system clock switched. -/
structure Outcome where
  hse : Bool
  hsi : Bool
  pll : Bool
  sys : Bool

/-- The clock stages of `uni_hal_rcc_init`. -/
def rccInit (o : Outcome) (s : State) : State :=
  let s := { s with hseInited := o.hse, hseOn := o.hse }
  let s := { s with hsiInited := o.hsi }
  let s := rccSysclk o.sys (rccPll hse cfg o.pll s)
  { s with inited := true }

/-- The hardware reaction to a failing HSE: it is switched off together with a PLL that it
feeds, and the core continues on MSI if it ran from either. -/
def hseFails (s : State) : State :=
  let fed := s.pll.source = .hse
  { s with
    hseOn := false
    cssFlag := true
    pll := { s.pll with on := s.pll.on && !decide fed }
    sysclk := if s.sysclk = .hse ∨ (s.sysclk = .pll ∧ fed) then .msi else s.sysclk }

/-- `NMI_Handler`: the stages run again without HSE. -/
def nmiHandler (pll sys : Bool) (s : State) : State :=
  if s.cssFlag then
    let s := { s with
      cssFlag := false
      hseInited := false
      pllInited := false
      sysInited := false }
    rccSysclk sys (rccPll hse cfg pll s)
  else s

inductive Action
  | init (o : Outcome)
  | hseFails
  | nmi (pll sys : Bool)

def step (s : State) : Action → Option State
  | .init o => if s.inited then none else some (rccInit hse cfg o s)
  | .hseFails => if s.hseOn then some (hseFails s) else none
  | .nmi pll sys => some (nmiHandler hse cfg pll sys s)

def PllRegs.inputHz (hse : UInt32) (p : PllRegs) : ℚ :=
  match p.source with
  | .hse => hse.toNat / p.m.toNat
  | .hsi => hsiValue.toNat / p.m.toNat
  | .none => 0

def PllRegs.outputHz (hse : UInt32) (p : PllRegs) : ℚ :=
  p.inputHz hse * p.n.toNat / p.r.toNat

/-- The input frequency that the configuration asks for: its dividers are written for HSE. -/
def Config.inputHz (hse : UInt32) (cfg : Config) : ℚ := hse.toNat / cfg.m.toNat

def Config.outputHz (hse : UInt32) (cfg : Config) : ℚ :=
  cfg.inputHz hse * (pllGetN cfg.n).toNat / (pllGetR cfg.r).toNat

/-- While HSE is not in use the core runs from the PLL only at the configured frequencies. -/
def KeepsClock (s : State) : Prop :=
  s.hseInited = false → s.sysclk = .pll →
    s.pll.source = .hsi ∧ s.pll.inputHz hse = cfg.inputHz hse ∧
      s.pll.outputHz hse = cfg.outputHz hse

theorem pllGetM_toNat (val : UInt32) :
    (pllGetM val).toNat = if 1 ≤ val.toNat ∧ val.toNat ≤ 8 then val.toNat else 1 := by
  fun_cases pllGetM val
  case case9 h1 h2 h3 h4 h5 h6 h7 h8 =>
    rw [if_neg]
    · rfl
    · rintro ⟨hlow, hhigh⟩
      simp only [← UInt32.toNat_inj, UInt32.reduceToNat, imp_false] at h1 h2 h3 h4 h5 h6 h7 h8
      omega
  all_goals rfl

variable {hse cfg}

theorem scaled_toNat {m : UInt32} (hm : m.toNat ≤ 8) :
    (m * (hsiValue / hse)).toNat = m.toNat * (hsiValue.toNat / hse.toNat) := by
  rw [UInt32.toNat_mul, UInt32.toNat_div]
  apply Nat.mod_eq_of_lt
  have hdiv : hsiValue.toNat / hse.toNat ≤ hsiValue.toNat := Nat.div_le_self _ _
  have hbound : m.toNat * (hsiValue.toNat / hse.toNat) ≤ 8 * hsiValue.toNat :=
    Nat.mul_le_mul hm hdiv
  have hval : hsiValue.toNat = 16000000 := rfl
  omega

/-- HSI gives the configured input frequency: HSE divides it and the scaled divider is in the
table, or it equals the input frequency itself. -/
def HsiReproduces (hse m : UInt32) : Prop :=
  (hse.toNat ∣ hsiValue.toNat ∧ m.toNat * (hsiValue.toNat / hse.toNat) ≤ 8) ∨
    hse.toNat = m.toNat * hsiValue.toNat

/-- The divider that the fallback programs is exact under this condition only. -/
theorem fallback_exact_iff {m : UInt32} (hse0 : 0 < hse.toNat) (hm1 : 1 ≤ m.toNat)
    (hm8 : m.toNat ≤ 8) :
    hsiValue.toNat * m.toNat = hse.toNat * (pllGetM (m * (hsiValue / hse))).toNat ↔
      HsiReproduces hse m := by
  have hhsi : 0 < hsiValue.toNat := by decide
  rw [pllGetM_toNat, scaled_toNat hm8, HsiReproduces]
  generalize hsiValue.toNat = k at *
  generalize hse.toNat = h at *
  generalize m.toNat = n at *
  obtain ⟨q, hq⟩ : ∃ q, k / h = q := ⟨_, rfl⟩
  rw [hq]
  have hle : h * q ≤ k := hq ▸ Nat.mul_div_le k h
  split_ifs with htable
  · -- the scaled divider is in the table, so HSE is not faster than HSI
    have hq1 : 1 ≤ q := by
      rcases Nat.eq_zero_or_pos q with hq0 | hq0
      · rw [hq0, Nat.mul_zero] at htable
        omega
      · exact hq0
    have hdvd : h ∣ k ↔ k = h * q := by
      constructor
      · intro hd
        rw [← hq, Nat.mul_div_cancel' hd]
      · rintro rfl
        exact Nat.dvd_mul_right h q
    have hscale : k * n = h * (n * q) ↔ k = h * q := by
      rw [show h * (n * q) = h * q * n by ring]
      exact Nat.mul_left_inj (by omega)
    rw [hscale, hdvd]
    constructor
    · intro hk
      exact Or.inl ⟨hk, htable.2⟩
    · rintro (⟨hk, -⟩ | hk)
      · exact hk
      · have hn : n = 1 := by nlinarith
        have : h = k := by rw [hk, hn, Nat.one_mul]
        nlinarith
  · rw [Nat.mul_one]
    constructor
    · intro hk
      exact Or.inr (by rw [← hk, Nat.mul_comm])
    · rintro (⟨hd, htop⟩ | hk)
      · have hq0 : q = 0 := by
          by_contra hne
          exact htable ⟨Nat.mul_pos hm1 (Nat.pos_of_ne_zero hne), htop⟩
        obtain ⟨c, hc⟩ := hd
        have hcq : c = q := by rw [← hq, hc, Nat.mul_div_cancel_left c hse0]
        rw [hc, hcq, hq0] at hhsi
        omega
      · rw [hk, Nat.mul_comm]

/-- Without HSE the core runs from the PLL only as the fallback programmed it. -/
structure FallbackState (hse : UInt32) (cfg : Config) (s : State) : Prop where
  fresh : s.inited = false → s.pllInited = false ∧ s.hseOn = false ∧ s.cssFlag = false
  regs : s.hseInited = false → s.sysclk = .pll →
    s.pll.source = .hsi ∧ s.pll.m = pllGetM (cfg.m * (hsiValue / hse)) ∧
      s.pll.n = pllGetN cfg.n ∧ s.pll.r = pllGetR cfg.r

theorem powerOn_fallbackState : FallbackState hse cfg powerOn where
  fresh _ := ⟨rfl, rfl, rfl⟩
  regs _ h := nomatch h

/-- The stages leave the fallback configuration behind, or do not select the PLL. -/
theorem stages_regs {s : State} (hpll : s.pllInited = false) (ready switched : Bool)
    (hhse : (rccSysclk switched (rccPll hse cfg ready s)).hseInited = false)
    (hsys : (rccSysclk switched (rccPll hse cfg ready s)).sysclk = .pll) :
    (rccSysclk switched (rccPll hse cfg ready s)).pll =
      ⟨.hsi, pllGetM (cfg.m * (hsiValue / hse)), pllGetN cfg.n, pllGetR cfg.r, true⟩ := by
  have hseq : (rccSysclk switched (rccPll hse cfg ready s)).hseInited = s.hseInited := by
    simp only [rccSysclk, rccPll]
    split <;> rfl
  rw [hseq] at hhse
  cases hhsi : s.hsiInited with
  | true => simp [rccSysclk, rccPll, pllInput, hhse, hhsi]
  | false => simp [rccSysclk, rccPll, pllInput, hhse, hhsi, hpll] at hsys

theorem step_fallbackState (s : State) (a : Action) (t : State) (hs : FallbackState hse cfg s)
    (h : step hse cfg s a = some t) : FallbackState hse cfg t := by
  cases a with
  | init o =>
    simp only [step] at h
    split_ifs at h with hinit
    obtain rfl := Option.some.inj h
    refine ⟨(fun hfresh => nomatch hfresh), fun hhse hsys => ?_⟩
    have hpll := (hs.fresh (Bool.eq_false_iff.mpr hinit)).1
    have hregs := stages_regs
      (s := { s with hseInited := o.hse, hseOn := o.hse, hsiInited := o.hsi })
      hpll o.pll o.sys hhse hsys
    simp only [rccInit, hregs, and_self]
  | hseFails =>
    simp only [step] at h
    split_ifs at h with hon
    obtain rfl := Option.some.inj h
    refine ⟨fun hfresh => ?_, fun hhse hsys => ?_⟩
    · rw [(hs.fresh hfresh).2.1] at hon
      cases hon
    · refine hs.regs hhse ?_
      simp only [hseFails] at hsys
      split_ifs at hsys
      exact hsys
  | nmi pll sys =>
    simp only [step, Option.some.injEq] at h
    subst h
    rw [nmiHandler]
    split_ifs with hcss
    · refine ⟨fun hfresh => ?_, fun hhse hsys => ?_⟩
      · have hinit : s.inited = false := by
          simp only [rccSysclk, rccPll] at hfresh
          split at hfresh <;> exact hfresh
        rw [(hs.fresh hinit).2.2] at hcss
        cases hcss
      · have hregs := stages_regs
          (s := { s with
            cssFlag := false, hseInited := false, pllInited := false, sysInited := false })
          rfl pll sys hhse hsys
        simp only [hregs, and_self]
    · exact hs

theorem pllGetM_pos (val : UInt32) : 0 < (pllGetM val).toNat := by
  rw [pllGetM_toNat]
  split <;> omega

/-- The input frequencies agree exactly when the divider is exact. -/
theorem inputHz_eq_iff {p : PllRegs} (hsource : p.source = .hsi)
    (hm : p.m = pllGetM (cfg.m * (hsiValue / hse))) (hm1 : 1 ≤ cfg.m.toNat) :
    p.inputHz hse = cfg.inputHz hse ↔
      hsiValue.toNat * cfg.m.toNat = hse.toNat * (pllGetM (cfg.m * (hsiValue / hse))).toNat := by
  have hden : ((pllGetM (cfg.m * (hsiValue / hse))).toNat : ℚ) ≠ 0 := by
    exact_mod_cast (pllGetM_pos _).ne'
  have hcfg : (cfg.m.toNat : ℚ) ≠ 0 := by
    exact_mod_cast Nat.pos_iff_ne_zero.mp hm1
  rw [PllRegs.inputHz, Config.inputHz, hsource, hm, div_eq_div_iff hden hcfg]
  norm_cast

def fallbackStart : List Action := [.init ⟨false, true, true, true⟩]

/-- The fallback keeps the configured clock in every run exactly when HSI can reproduce the
configured input frequency of the PLL. -/
theorem fallback_keepsClock_iff (hse : UInt32) (cfg : Config) (hse0 : 0 < hse.toNat)
    (hm1 : 1 ≤ cfg.m.toNat) (hm8 : cfg.m.toNat ≤ 8) :
    (∀ run s, exec (step hse cfg) powerOn run = some s → KeepsClock hse cfg s) ↔
      HsiReproduces hse cfg.m := by
  rw [← fallback_exact_iff hse0 hm1 hm8]
  constructor
  · intro h
    obtain ⟨-, hin, -⟩ := h fallbackStart _ rfl rfl rfl
    exact (inputHz_eq_iff rfl rfl hm1).mp hin
  · intro hexact run s hrun hhse hsys
    have hs : FallbackState hse cfg s :=
      exec_invariant_of_step step_fallbackState powerOn_fallbackState hrun
    obtain ⟨hsource, hm, hn, hr⟩ := hs.regs hhse hsys
    have hin := (inputHz_eq_iff hsource hm hm1).mpr hexact
    exact ⟨hsource, hin, by rw [PllRegs.outputHz, Config.outputHz, hin, hn, hr]⟩

/-- With a crystal of 24 MHz divided by 3 the fallback runs the core at twice the configured
80 MHz. -/
theorem fallback_doubles_clock :
    ¬(∀ run s, exec (step 24000000 ⟨3, 20, 2⟩) powerOn run = some s →
      KeepsClock 24000000 ⟨3, 20, 2⟩ s) ∧
    (exec (step 24000000 ⟨3, 20, 2⟩) powerOn fallbackStart).map (fun s => (s.sysclk, s.pll)) =
        some (.pll, ⟨.hsi, 1, 20, 2, true⟩) ∧
      (⟨.hsi, 1, 20, 2, true⟩ : PllRegs).outputHz 24000000 = 160000000 ∧
      (⟨3, 20, 2⟩ : Config).inputHz 24000000 = 8000000 ∧
      (⟨3, 20, 2⟩ : Config).outputHz 24000000 = 80000000 := by
  refine ⟨?_, rfl, ?_, ?_, ?_⟩
  · intro h
    obtain ⟨-, hin, -⟩ := h fallbackStart _ rfl rfl rfl
    change ((16000000 : ℕ) : ℚ) / (1 : ℕ) = ((24000000 : ℕ) : ℚ) / (3 : ℕ) at hin
    norm_num at hin
  · change ((16000000 : ℕ) : ℚ) / (1 : ℕ) * (20 : ℕ) / (2 : ℕ) = 160000000
    norm_num
  · change ((24000000 : ℕ) : ℚ) / (3 : ℕ) = 8000000
    norm_num
  · change ((24000000 : ℕ) : ℚ) / (3 : ℕ) * (20 : ℕ) / (2 : ℕ) = 80000000
    norm_num

theorem fallback_keepsClock_8MHz :
    (∀ run s, exec (step 8000000 ⟨1, 20, 2⟩) powerOn run = some s →
      KeepsClock 8000000 ⟨1, 20, 2⟩ s) ↔ HsiReproduces 8000000 1 :=
  fallback_keepsClock_iff 8000000 ⟨1, 20, 2⟩ (by decide) (by decide) (by decide)

end UniHal.Rcc.Stm32l4.Pll
