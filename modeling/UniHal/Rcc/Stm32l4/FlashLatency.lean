import UniHal.Foundations.Staging
import UniHal.Rcc.Stm32l4.Pll

/-! # Flash wait states of the STM32L4

`_uni_hal_stm_rcc_flash` raises the flash latency before `uni_hal_rcc_init` touches the clocks,
and `_uni_hal_stm_rcc_flash_adjust` lowers it for the clock that was reached. `NMI_Handler` runs
the same stages without the first step. Every change of a register is a state of its own here.
-/

namespace UniHal.Rcc.Stm32l4.FlashLatency
open Foundations Execution Staging Routine
open Pll (Config PllRegs PllSource SysClock hsiValue pllGetM pllGetN pllGetR pllInput
  rccPll rccSysclk)

def msiValue : UInt32 := 4000000

/-- The clock tree with what decides about the wait states. -/
structure State extends Pll.State where
  /-- The clock that the core runs from. -/
  core : SysClock
  /-- The AHB prescaler as the shift that it stands for. -/
  ahb : UInt32
  latency : ℕ
  /-- Voltage range 1 is selected. -/
  scale1 : Bool

namespace State

@[simp] def withClocks (s : State) (t : Pll.State) : State :=
  ⟨t, s.core, s.ahb, s.latency, s.scale1⟩

@[simp] def runFrom (s : State) (clock : SysClock) : State := { s with core := clock }

@[simp] def setAhb (s : State) (shift : UInt32) : State := { s with ahb := shift }

@[simp] def setLatency (s : State) (n : ℕ) : State := { s with latency := n }

end State

def powerOn : State where
  toState := Pll.powerOn
  core := .msi
  ahb := 0
  latency := 0
  scale1 := true

/-- The limits of `_uni_hal_stm_rcc_flash_adjust`. -/
def flashLatency {α : Type*} [NatCast α] [LE α] [DecidableLE α] (hz : α) : ℕ :=
  if hz ≤ (16000000 : ℕ) then 0
  else if hz ≤ (32000000 : ℕ) then 1
  else if hz ≤ (48000000 : ℕ) then 2
  else if hz ≤ (64000000 : ℕ) then 3
  else 4

variable (hse : UInt32) (cfg : Config)

/-- `RCC_PLL_GetFreqDomain_SYS`, in 32-bit arithmetic. -/
def pllFreq (p : PllRegs) : UInt32 :=
  let input := match p.source with
    | .hse => hse
    | .hsi => hsiValue
    | .none => msiValue
  input / p.m * p.n / p.r

def systemClockFreq (clock : SysClock) (p : PllRegs) : UInt32 :=
  match clock with
  | .msi => msiValue
  | .hsi => hsiValue
  | .hse => hse
  | .pll => pllFreq hse p

def hclkFreq (s : State) : UInt32 := systemClockFreq hse s.core s.pll >>> s.ahb

def clockHz (clock : SysClock) (p : PllRegs) : ℚ :=
  match clock with
  | .msi => msiValue.toNat
  | .hsi => hsiValue.toNat
  | .hse => hse.toNat
  | .pll => p.outputHz hse

/-- The frequency at which HCLK runs. -/
def State.hclkHz (s : State) : ℚ := clockHz hse s.core s.pll / 2 ^ s.ahb.toNat

/-- The wait states are enough for the HCLK that runs. -/
def Sufficient (s : State) : Prop := flashLatency (s.hclkHz hse) ≤ s.latency

def flash (s : State) : State := s.setLatency 4

def flashAdjust (s : State) : State :=
  if s.scale1 then s.setLatency (flashLatency (hclkFreq hse s).toNat) else s

/-- The source is requested, and the core runs from it when the switch is acknowledged. Then
follow the prescalers and the wait states of the clock reached. -/
def sysclk (switched : Bool) : Routine State :=
  andThen (change fun s => s.withClocks (rccSysclk switched s.toState)) <|
  if switched then
    andThen (change fun s => s.runFrom s.sysclk) <|
    andThen (change fun s => s.setAhb 0) (change (flashAdjust hse))
  else skip

def pll (ready : Bool) : Routine State :=
  change fun s => s.withClocks (rccPll hse cfg ready s.toState)

def clocks (ready switched : Bool) : Routine State :=
  andThen (pll hse cfg ready) (sysclk hse switched)

/-- The clock stages of `uni_hal_rcc_init`, which is called once. -/
def init (o : Pll.Outcome) : Routine State :=
  branch (·.inited) skip <|
  andThen (change flash) <|
  andThen (change fun s => s.withClocks { s.toState with hseInited := o.hse, hseOn := o.hse }) <|
  andThen (change fun s => s.withClocks { s.toState with hsiInited := o.hsi }) <|
  andThen (clocks hse cfg o.pll o.sys) <|
  change fun s => s.withClocks { s.toState with inited := true }

def dropHse (t : Pll.State) : Pll.State :=
  { t with cssFlag := false, hseInited := false, pllInited := false, sysInited := false }

def nmiHandler (ready switched : Bool) : Routine State :=
  branch (·.cssFlag)
    (andThen (change fun s => s.withClocks (dropHse s.toState)) (clocks hse cfg ready switched))
    skip

def hseFails : Routine State :=
  branch (·.hseOn)
    (change fun s => (s.withClocks (Pll.hseFails s.toState)).runFrom
      (if s.core = .hse ∨ (s.core = .pll ∧ s.pll.source = .hse) then .msi else s.core))
    skip

def State.running (s : State) : SysClock → Bool
  | .msi => true
  | .hsi => s.hsiInited
  | .hse => s.hseOn
  | .pll => s.pll.on

def lateSwitch : Routine State :=
  change fun s => if s.running s.sysclk then s.runFrom s.sysclk else s

inductive Action
  | init (o : Pll.Outcome)
  | hseFails
  | nmi (ready switched : Bool)
  | lateSwitch

def routine : Action → Routine State
  | .init o => init hse cfg o
  | .hseFails => hseFails
  | .nmi ready switched => nmiHandler hse cfg ready switched
  | .lateSwitch => lateSwitch

/-- What `_uni_hal_stm_rcc_pll` programs for a source. -/
def pllRegs (source : PllSource) : PllRegs :=
  let division := if source = .hsi then hsiValue / hse else 1
  ⟨source, pllGetM (cfg.m * division), pllGetN cfg.n, pllGetR cfg.r, true⟩

/-- The frequency that the driver reads for the PLL asks for the wait states that the PLL needs:
no division was rounded down to a limit, and no product wrapped around. -/
def ReadsWell (p : PllRegs) : Prop :=
  flashLatency (p.outputHz hse) ≤ flashLatency (pllFreq hse p).toNat

/-- The core is moved to the PLL only with enough wait states: in the start these are always set,
after a clock failure they are the ones that the start has left. -/
def Guarded (s : State) : Action → Prop
  | .init o => s.inited = false → o.sys = true → o.pll = true →
      (o.hse = true → ReadsWell hse (pllRegs hse cfg .hse)) ∧
        (o.hse = false → o.hsi = true → ReadsWell hse (pllRegs hse cfg .hsi))
  | .hseFails => True
  | .nmi ready switched => s.cssFlag = true → s.hsiInited = true → ready = true →
      switched = true →
        flashLatency ((pllRegs hse cfg .hsi).outputHz hse) ≤ s.latency ∧
          ReadsWell hse (pllRegs hse cfg .hsi)
  | .lateSwitch => s.sysclk = .pll → s.pll.on = true →
      flashLatency (s.pll.outputHz hse) ≤ s.latency

variable {hse cfg}

theorem flashLatency_le {α : Type*} [NatCast α] [LE α] [DecidableLE α] (hz : α) :
    flashLatency hz ≤ 4 := by
  simp only [flashLatency]
  split_ifs <;> omega

theorem flashLatency_natCast (n : ℕ) : flashLatency (n : ℚ) = flashLatency n := by
  simp only [flashLatency, Nat.cast_le, Nat.cast_id]

theorem flashLatency_msi : flashLatency (msiValue.toNat : ℚ) = 0 := by
  rw [flashLatency_natCast]
  rfl

theorem flashLatency_hsi : flashLatency (hsiValue.toNat : ℚ) = 0 := by
  rw [flashLatency_natCast]
  rfl

theorem systemClockFreq_exact (hse : UInt32) {clock : SysClock} (h : clock ≠ .pll) (p : PllRegs) :
    flashLatency (clockHz hse clock p) = flashLatency (systemClockFreq hse clock p).toNat := by
  cases clock with
  | msi => exact flashLatency_natCast _
  | hsi => exact flashLatency_natCast _
  | hse => exact flashLatency_natCast _
  | pll => exact absurd rfl h

theorem hclkHz_of_ahb {s : State} (h : s.ahb = 0) : s.hclkHz hse = clockHz hse s.core s.pll := by
  rw [State.hclkHz, h]
  simp

theorem hclkFreq_of_ahb {s : State} (h : s.ahb = 0) :
    hclkFreq hse s = systemClockFreq hse s.core s.pll := by
  rw [hclkFreq, h]
  simp

theorem sufficient_iff {s : State} (h : s.ahb = 0) :
    Sufficient hse s ↔ flashLatency (clockHz hse s.core s.pll) ≤ s.latency := by
  rw [Sufficient, hclkHz_of_ahb h]

theorem flashAdjust_of_scale1 {s : State} (h : s.scale1 = true) :
    flashAdjust hse s = s.setLatency (flashLatency (hclkFreq hse s).toNat) :=
  if_pos h

theorem sufficient_of_msi {s : State} (h : s.ahb = 0) (hcore : s.core = .msi) :
    Sufficient hse s := by
  rw [sufficient_iff h, hcore, clockHz, flashLatency_msi]
  exact Nat.zero_le _

/-- The clock that `_uni_hal_stm_rcc_sysclk` requests. -/
def target (s : State) : SysClock := (rccSysclk false s.toState).sysclk

/-- The switch of the system clock keeps the wait states sufficient exactly when those in force
are enough for the new clock, and the adjusted ones as well. -/
theorem throughout_sysclk {s : State} (switched : Bool) (hahb : s.ahb = 0)
    (hscale : s.scale1 = true) (hs : Sufficient hse s) :
    Throughout (Sufficient hse) (sysclk hse switched) s ↔
      (switched = true → flashLatency (clockHz hse (target s) s.pll) ≤ s.latency ∧
        flashLatency (clockHz hse (target s) s.pll) ≤
          flashLatency (systemClockFreq hse (target s) s.pll).toNat) := by
  have hrequest : Sufficient hse (s.withClocks (rccSysclk switched s.toState)) := hs
  cases switched with
  | false =>
    simp only [sysclk, throughout_andThen, throughout_change, hs, hrequest]
    simpa using hrequest
  | true =>
    -- the core runs from the target with the old wait states first, then with the adjusted ones
    have hswitch : Sufficient hse ((s.withClocks (rccSysclk true s.toState)).runFrom (target s)) ↔
        flashLatency (clockHz hse (target s) s.pll) ≤ s.latency :=
      sufficient_iff hahb
    have hprescaler :
        Sufficient hse (((s.withClocks (rccSysclk true s.toState)).runFrom (target s)).setAhb 0) ↔
          flashLatency (clockHz hse (target s) s.pll) ≤ s.latency :=
      sufficient_iff rfl
    have hadjust : Sufficient hse (flashAdjust hse
        (((s.withClocks (rccSysclk true s.toState)).runFrom (target s)).setAhb 0)) ↔
          flashLatency (clockHz hse (target s) s.pll) ≤
            flashLatency (systemClockFreq hse (target s) s.pll).toNat := by
      rw [flashAdjust_of_scale1 (by exact hscale), hclkFreq_of_ahb rfl, sufficient_iff rfl]
      exact Iff.rfl
    have hcore : (s.withClocks (rccSysclk true s.toState)).sysclk = target s := rfl
    simp only [sysclk, if_true, throughout_andThen, throughout_change, final_change, hcore, hs,
      hrequest, hswitch, hprescaler, hadjust, true_and, forall_const]
    tauto

theorem final_sysclk {s : State} (switched : Bool) (hahb : s.ahb = 0) (hscale : s.scale1 = true) :
    final (sysclk hse switched) s =
      if switched then
        ((s.withClocks (rccSysclk switched s.toState)).runFrom (target s)).setLatency
          (flashLatency (systemClockFreq hse (target s) s.pll).toNat)
      else s.withClocks (rccSysclk switched s.toState) := by
  cases switched with
  | false => rfl
  | true =>
    have hcore : (s.withClocks (rccSysclk true s.toState)).sysclk = target s := rfl
    have hahb' : ((s.withClocks (rccSysclk true s.toState)).runFrom (target s)).setAhb 0 =
        (s.withClocks (rccSysclk true s.toState)).runFrom (target s) := by
      simp only [State.setAhb, State.runFrom, State.withClocks, hahb]
    simp only [sysclk, if_true, final_andThen, final_change, hcore, hahb']
    rw [flashAdjust_of_scale1 (by exact hscale), hclkFreq_of_ahb (by exact hahb)]
    rfl

/-- What the stages establish. -/
structure Settled (hse : UInt32) (s : State) : Prop where
  sufficient : Sufficient hse s
  ahb : s.ahb = 0
  scale1 : s.scale1 = true
  -- a running HSE feeds the PLL, and after it has failed the core is on MSI
  fed : s.hseOn = true → s.core ≠ .hsi ∧ s.sysclk ≠ .hsi ∧ s.pll.source = .hse
  failed : s.cssFlag = true → s.core = .msi ∧ s.sysclk = .msi ∧ s.hseOn = false
  waiting : s.sysclk = .hse → flashLatency (hse.toNat : ℚ) ≤ s.latency

/-- What every state of a run keeps. -/
structure Kept (hse : UInt32) (s : State) : Prop extends Settled hse s where
  fresh : s.inited = false →
    s.core = .msi ∧ s.sysclk = .msi ∧ s.hseOn = false ∧ s.cssFlag = false ∧ s.pllInited = false

theorem powerOn_kept : Kept hse powerOn where
  sufficient := sufficient_of_msi rfl rfl
  ahb := rfl
  scale1 := rfl
  fed h := absurd h Bool.false_ne_true
  failed h := absurd h Bool.false_ne_true
  waiting h := absurd h (by decide)
  fresh _ := ⟨rfl, rfl, rfl, rfl, rfl⟩

theorem rccPll_hse (hse : UInt32) (cfg : Config) {s : Pll.State} (h : s.hseInited = true)
    (ready : Bool) :
    rccPll hse cfg ready s = { s with pll := pllRegs hse cfg .hse, pllInited := ready } := by
  simp [rccPll, pllInput, h, pllRegs]

theorem rccPll_hsi {s : Pll.State} (hhse : s.hseInited = false) (hhsi : s.hsiInited = true)
    (ready : Bool) :
    rccPll hse cfg ready s = { s with pll := pllRegs hse cfg .hsi, pllInited := ready } := by
  simp [rccPll, pllInput, hhse, hhsi, pllRegs]

theorem rccPll_none {s : Pll.State} (hhse : s.hseInited = false) (hhsi : s.hsiInited = false)
    (ready : Bool) : rccPll hse cfg ready s = s := by
  simp [rccPll, pllInput, hhse, hhsi]

/-- Whatever clock the core runs from while HSE is on, it depends on HSE or is MSI. -/
theorem core_of_failure {s : State} (hs : Settled hse s) (hon : s.hseOn = true) :
    (if s.core = .hse ∨ (s.core = .pll ∧ s.pll.source = .hse) then SysClock.msi else s.core) =
      .msi := by
  obtain ⟨hcore, -, hsource⟩ := hs.fed hon
  cases hclock : s.core with
  | msi => simp
  | hsi => exact absurd hclock hcore
  | hse => simp
  | pll => simp [hsource]

theorem throughout_hseFails {s : State} (hs : Kept hse s) :
    Throughout (Sufficient hse) hseFails s := by
  rw [hseFails, throughout_branch]
  split_ifs with hon
  · rw [throughout_change]
    refine ⟨hs.sufficient, ?_⟩
    exact sufficient_of_msi hs.ahb (core_of_failure hs.toSettled hon)
  · exact (throughout_skip s).mpr hs.sufficient

/-- A late switch needs wait states for the requested clock, if that clock runs. -/
theorem throughout_lateSwitch_iff {s : State} (hahb : s.ahb = 0) (hs : Sufficient hse s) :
    Throughout (Sufficient hse) lateSwitch s ↔
      (s.running s.sysclk = true → flashLatency (clockHz hse s.sysclk s.pll) ≤ s.latency) := by
  have hswitch : Sufficient hse (s.runFrom s.sysclk) ↔
      flashLatency (clockHz hse s.sysclk s.pll) ≤ s.latency := sufficient_iff hahb
  rw [lateSwitch, throughout_change, and_iff_right hs]
  split_ifs with hrun
  · exact hswitch.trans ⟨fun h _ => h, fun h => h hrun⟩
  · exact iff_of_true hs fun h => absurd h hrun

theorem throughout_lateSwitch {s : State} (hs : Kept hse s) :
    Throughout (Sufficient hse) lateSwitch s ↔ Guarded hse cfg s .lateSwitch := by
  rw [throughout_lateSwitch_iff hs.ahb hs.sufficient, Guarded]
  cases hclock : s.sysclk with
  | msi =>
    rw [clockHz, flashLatency_msi]
    exact iff_of_true (fun _ => Nat.zero_le _) fun h => absurd h (by decide)
  | hsi =>
    rw [clockHz, flashLatency_hsi]
    exact iff_of_true (fun _ => Nat.zero_le _) fun h => absurd h (by decide)
  | hse => exact iff_of_true (fun _ => hs.waiting hclock) fun h => absurd h (by decide)
  | pll => exact ⟨fun h _ hon => h hon, fun h hon => h rfl hon⟩

theorem target_eq (s : State) :
    target s = if s.pllInited then .pll else if s.hseInited then .hse
      else if s.hsiInited then .hsi else .msi := rfl

/-- Both stages together, from MSI and with the PLL marked as down. -/
theorem throughout_clocks (hse : UInt32) (cfg : Config) {s : State} (hahb : s.ahb = 0)
    (hscale : s.scale1 = true)
    (hcore : s.core = .msi) (hpll : s.pllInited = false)
    (hlat : s.hseInited = true → flashLatency (hse.toNat : ℚ) ≤ s.latency) (ready switched : Bool) :
    Throughout (Sufficient hse) (clocks hse cfg ready switched) s ↔
      (ready = true → switched = true →
        (s.hseInited = true →
          flashLatency ((pllRegs hse cfg .hse).outputHz hse) ≤ s.latency ∧
            ReadsWell hse (pllRegs hse cfg .hse)) ∧
        (s.hseInited = false → s.hsiInited = true →
          flashLatency ((pllRegs hse cfg .hsi).outputHz hse) ≤ s.latency ∧
            ReadsWell hse (pllRegs hse cfg .hsi))) := by
  have hstage : ∀ t, Sufficient hse (s.withClocks t) := fun t => sufficient_of_msi hahb hcore
  rw [clocks, throughout_andThen, pll, throughout_change, final_change,
    throughout_sysclk (s := s.withClocks (rccPll hse cfg ready s.toState)) switched hahb hscale
      (hstage _)]
  have hsuf : Sufficient hse s := hstage s.toState
  simp only [hsuf, hstage, true_and]
  cases hhse : s.hseInited with
  | true =>
    rw [rccPll_hse hse cfg hhse]
    cases ready with
    | true => simp [target_eq, clockHz, systemClockFreq, ReadsWell]
    | false =>
      have hread := systemClockFreq_exact hse (show SysClock.hse ≠ .pll by decide) s.pll
      simp_all [target_eq, clockHz, systemClockFreq]
  | false =>
    cases hhsi : s.hsiInited with
    | true =>
      rw [rccPll_hsi hhse hhsi]
      cases ready with
      | true => simp [target_eq, hhse, clockHz, systemClockFreq, ReadsWell]
      | false => simp [target_eq, hhse, hhsi, clockHz, flashLatency_hsi]
    | false =>
      rw [rccPll_none hhse hhsi]
      simp [target_eq, hpll, hhse, hhsi, clockHz, flashLatency_msi]

theorem throughout_init {s : State} (hs : Kept hse s) (o : Pll.Outcome) :
    Throughout (Sufficient hse) (init hse cfg o) s ↔ Guarded hse cfg s (.init o) := by
  rw [init, throughout_branch, Guarded]
  cases hinit : s.inited with
  | true => simp [hs.sufficient]
  | false =>
    obtain ⟨hcore, -, -, -, hpll⟩ := hs.fresh hinit
    -- the wait states of 80 MHz are set before anything else
    have hflash : ∀ t, Sufficient hse ((flash s).withClocks t) :=
      fun t => sufficient_of_msi hs.ahb hcore
    have hclocks := throughout_clocks hse cfg
      (s := (flash s).withClocks
        { s.toState with hseInited := o.hse, hseOn := o.hse, hsiInited := o.hsi })
      hs.ahb hs.scale1 hcore hpll (fun _ => flashLatency_le _) o.pll o.sys
    have hlat : ∀ p : PllRegs, flashLatency (p.outputHz hse) ≤ 4 := fun p => flashLatency_le _
    have hraised : Sufficient hse (flash s) := hflash s.toState
    simp only [Bool.false_eq_true, if_false, throughout_andThen, throughout_change, final_change,
      hs.sufficient, hraised, true_and, forall_const]
    constructor
    · rintro ⟨-, -, hall, -⟩ hsys hpll
      obtain ⟨h1, h2⟩ := hclocks.mp hall hpll hsys
      exact ⟨fun h => (h1 h).2, fun h h' => (h2 h h').2⟩
    · intro hguard
      have hall := hclocks.mpr fun hpll hsys =>
        ⟨fun h => ⟨hlat _, (hguard hsys hpll).1 h⟩, fun h h' => ⟨hlat _, (hguard hsys hpll).2 h h'⟩⟩
      exact ⟨hflash _, ⟨hflash _, hflash _⟩, hall, hall.last, hall.last⟩

theorem throughout_nmiHandler {s : State} (hs : Kept hse s) (ready switched : Bool) :
    Throughout (Sufficient hse) (nmiHandler hse cfg ready switched) s ↔
      Guarded hse cfg s (.nmi ready switched) := by
  rw [nmiHandler, throughout_branch, Guarded]
  cases hcss : s.cssFlag with
  | false => simp [hs.sufficient]
  | true =>
    obtain ⟨hcore, -, -⟩ := hs.failed hcss
    have hclear : Sufficient hse (s.withClocks (dropHse s.toState)) :=
      sufficient_of_msi hs.ahb hcore
    have hclocks := throughout_clocks hse cfg
      (s := s.withClocks (dropHse s.toState)) hs.ahb hs.scale1 hcore rfl
      (fun h => absurd h Bool.false_ne_true) ready switched
    rw [if_pos rfl, throughout_andThen, throughout_change, final_change, hclocks]
    simp only [hs.sufficient, hclear, true_and]
    constructor
    · intro h _ hhsi hready hswitched
      exact (h hready hswitched).2 rfl hhsi
    · intro h hready hswitched
      exact ⟨fun hdown => absurd hdown Bool.false_ne_true,
        fun _ hhsi => h trivial hhsi hready hswitched⟩

/-- In a reachable state the guard of an action says exactly that its routine is safe. -/
theorem guarded_iff {s : State} (hs : Kept hse s) (a : Action) :
    Guarded hse cfg s a ↔ Throughout (Sufficient hse) (routine hse cfg a) s := by
  cases a with
  | init o => exact (throughout_init hs o).symm
  | hseFails => exact ⟨fun _ => throughout_hseFails hs, fun _ => trivial⟩
  | nmi ready switched => exact (throughout_nmiHandler hs ready switched).symm
  | lateSwitch => exact (throughout_lateSwitch hs).symm

theorem final_clocks (hse : UInt32) (cfg : Config) {s : State} (hahb : s.ahb = 0)
    (hscale : s.scale1 = true) (ready switched : Bool) :
    final (clocks hse cfg ready switched) s =
      let t := s.withClocks (rccPll hse cfg ready s.toState)
      if switched then
        ((t.withClocks (rccSysclk switched t.toState)).runFrom (target t)).setLatency
          (flashLatency (systemClockFreq hse (target t) t.pll).toNat)
      else t.withClocks (rccSysclk switched t.toState) := by
  rw [clocks, final_andThen, pll, final_change]
  exact final_sysclk switched hahb hscale

/-- The PLL stage leaves the flags of the oscillators alone. -/
theorem rccPll_flags (hse : UInt32) (cfg : Config) (t : Pll.State) (ready : Bool) :
    (rccPll hse cfg ready t).hseOn = t.hseOn ∧ (rccPll hse cfg ready t).hseInited = t.hseInited ∧
      (rccPll hse cfg ready t).hsiInited = t.hsiInited ∧
      (rccPll hse cfg ready t).cssFlag = t.cssFlag ∧
      (rccPll hse cfg ready t).inited = t.inited := by
  simp only [rccPll]
  split <;> exact ⟨rfl, rfl, rfl, rfl, rfl⟩

theorem clocks_settled (hse : UInt32) (cfg : Config) {s : State} (hahb : s.ahb = 0)
    (hscale : s.scale1 = true) (hcore : s.core = .msi) (hcss : s.cssFlag = false)
    (hon : s.hseOn = true → s.hseInited = true)
    (hlat : s.hseInited = true → flashLatency (hse.toNat : ℚ) ≤ s.latency) (ready switched : Bool)
    (hsuf : Sufficient hse (final (clocks hse cfg ready switched) s)) :
    Settled hse (final (clocks hse cfg ready switched) s) := by
  obtain ⟨hflagOn, hflagHse, -, hflagCss, -⟩ := rccPll_flags hse cfg s.toState ready
  have hfinal := final_clocks hse cfg hahb hscale ready switched
  refine ⟨hsuf, ?_, ?_, ?_, ?_, ?_⟩
  all_goals rw [hfinal]
  · cases switched <;> exact hahb
  · cases switched <;> exact hscale
  · -- a running HSE is the source of the PLL, and one of the two is requested
    intro hrun
    have hrun' : s.hseOn = true := by
      rw [← hflagOn]
      cases switched <;> exact hrun
    have hpll := rccPll_hse hse cfg (hon hrun') ready
    cases switched <;> cases ready <;> simp [hpll, target_eq, rccSysclk, pllRegs, hcore, hon hrun']
  · intro hflag
    have hflag' : s.cssFlag = true := by
      rw [← hflagCss]
      cases switched <;> exact hflag
    rw [hcss] at hflag'
    cases hflag'
  · intro hsel
    have htarget : target (s.withClocks (rccPll hse cfg ready s.toState)) = .hse := by
      cases switched <;> exact hsel
    cases switched with
    | true =>
      change _ ≤ flashLatency (systemClockFreq hse (target _) _).toNat
      rw [htarget]
      exact (flashLatency_natCast _).le
    | false =>
      apply hlat
      rw [← hflagHse]
      rw [target_eq] at htarget
      split_ifs at htarget with _ hinited
      exact hinited

theorem kept_init {s : State} (hs : Kept hse s) (o : Pll.Outcome)
    (hsuf : Sufficient hse (final (init hse cfg o) s)) : Kept hse (final (init hse cfg o) s) := by
  rw [init, final_branch] at hsuf ⊢
  cases hinit : s.inited with
  | true => simpa using hs
  | false =>
    obtain ⟨hcore, -, -, hcss, -⟩ := hs.fresh hinit
    rw [hinit] at hsuf
    simp only [Bool.false_eq_true, if_false, final_andThen, final_change] at hsuf ⊢
    have hset := clocks_settled hse cfg
      (s := (flash s).withClocks
        { s.toState with hseInited := o.hse, hseOn := o.hse, hsiInited := o.hsi })
      hs.ahb hs.scale1 hcore hcss id (fun _ => flashLatency_le _) o.pll o.sys hsuf
    exact ⟨⟨hsuf, hset.ahb, hset.scale1, hset.fed, hset.failed, hset.waiting⟩,
      fun h => absurd h.symm Bool.false_ne_true⟩

theorem kept_nmiHandler {s : State} (hs : Kept hse s) (ready switched : Bool)
    (hsuf : Sufficient hse (final (nmiHandler hse cfg ready switched) s)) :
    Kept hse (final (nmiHandler hse cfg ready switched) s) := by
  rw [nmiHandler, final_branch] at hsuf ⊢
  cases hcss : s.cssFlag with
  | false => simpa using hs
  | true =>
    obtain ⟨hcore, -, hon⟩ := hs.failed hcss
    rw [hcss] at hsuf
    simp only [if_true, final_andThen, final_change] at hsuf ⊢
    have hset := clocks_settled hse cfg (s := s.withClocks (dropHse s.toState))
      hs.ahb hs.scale1 hcore rfl (fun h => absurd (hon.symm.trans h) Bool.false_ne_true)
      (fun h => absurd h Bool.false_ne_true) ready switched hsuf
    refine ⟨hset, fun hfresh => ?_⟩
    -- the flag comes from a clock that the start has set up
    have hinit : s.inited = false := by
      have hflag := (rccPll_flags hse cfg (dropHse s.toState) ready).2.2.2.2
      rw [final_clocks hse cfg (by exact hs.ahb) (by exact hs.scale1)] at hfresh
      rw [← hfresh]
      cases switched <;> exact hflag.symm
    rw [(hs.fresh hinit).2.2.2.1] at hcss
    cases hcss

theorem kept_hseFails {s : State} (hs : Kept hse s) : Kept hse (final hseFails s) := by
  have hsuf := (throughout_hseFails hs).last
  rw [hseFails, final_branch] at hsuf ⊢
  cases hon : s.hseOn with
  | false => simpa using hs
  | true =>
    obtain ⟨-, hsel, hsource⟩ := hs.fed hon
    have hcore' := core_of_failure hs.toSettled hon
    rw [hon] at hsuf
    have hsel' : (Pll.hseFails s.toState).sysclk = .msi := by
      cases hclock : s.sysclk <;> simp_all [Pll.hseFails]
    refine ⟨⟨hsuf, hs.ahb, hs.scale1, ?_, ?_, ?_⟩, ?_⟩
    · exact fun h => absurd h Bool.false_ne_true
    · exact fun _ => ⟨hcore', hsel', rfl⟩
    · exact fun h => absurd (hsel'.symm.trans h) (by decide)
    · intro hfresh
      rw [(hs.fresh hfresh).2.2.1] at hon
      cases hon

theorem kept_lateSwitch {s : State} (hs : Kept hse s)
    (hsuf : Sufficient hse (final lateSwitch s)) : Kept hse (final lateSwitch s) := by
  rw [lateSwitch, final_change] at hsuf ⊢
  split_ifs at hsuf ⊢ with hrun
  · refine ⟨⟨hsuf, hs.ahb, hs.scale1, ?_, ?_, hs.waiting⟩, ?_⟩
    · intro hon
      obtain ⟨-, hsel, hsource⟩ := hs.fed hon
      exact ⟨hsel, hsel, hsource⟩
    · intro hflag
      obtain ⟨-, hsel, hon⟩ := hs.failed hflag
      exact ⟨hsel, hsel, hon⟩
    · intro hfresh
      obtain ⟨-, hsel, hrest⟩ := hs.fresh hfresh
      exact ⟨hsel, hsel, hrest⟩
  · exact hs

theorem final_kept {s : State} (hs : Kept hse s) (a : Action) (ha : Guarded hse cfg s a) :
    Kept hse (final (routine hse cfg a) s) := by
  have hsuf := ((guarded_iff hs a).mp ha).last
  cases a with
  | init o => exact kept_init hs o hsuf
  | hseFails => exact kept_hseFails hs
  | nmi ready switched => exact kept_nmiHandler hs ready switched hsuf
  | lateSwitch => exact kept_lateSwitch hs hsuf

/-- The stages change the clock tree as those without the wait states do. -/
theorem toState_final_clocks {s : State} (hahb : s.ahb = 0) (hscale : s.scale1 = true)
    (ready switched : Bool) :
    (final (clocks hse cfg ready switched) s).toState =
      rccSysclk switched (rccPll hse cfg ready s.toState) := by
  rw [final_clocks hse cfg hahb hscale]
  cases switched <;> rfl

theorem toState_final_init {s : State} (hs : Kept hse s) (hinit : s.inited = false)
    (o : Pll.Outcome) :
    (final (init hse cfg o) s).toState = Pll.rccInit hse cfg o s.toState := by
  rw [init, final_branch, hinit, if_neg Bool.false_ne_true]
  simp only [final_andThen, final_change, State.withClocks]
  rw [toState_final_clocks (by exact hs.ahb) (by exact hs.scale1)]
  rfl

theorem toState_final_nmiHandler {s : State} (hs : Kept hse s) (ready switched : Bool) :
    (final (nmiHandler hse cfg ready switched) s).toState =
      Pll.nmiHandler hse cfg ready switched s.toState := by
  rw [nmiHandler, final_branch, Pll.nmiHandler]
  split_ifs
  · simp only [final_andThen, final_change]
    rw [toState_final_clocks (by exact hs.ahb) (by exact hs.scale1)]
    rfl
  · rfl

/-- The PLL does not lock in time at the start, so the core runs from an 8 MHz crystal without
wait states. When the crystal fails the PLL does lock, and the handler moves the core to 80 MHz. -/
def latePll : List Action := [.init ⟨true, true, false, true⟩, .hseFails, .nmi true true]

end UniHal.Rcc.Stm32l4.FlashLatency
