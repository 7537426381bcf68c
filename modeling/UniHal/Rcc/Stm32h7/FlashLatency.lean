import UniHal.Foundations.LimitTable
import UniHal.Foundations.Staging
import UniHal.Rcc.Stm32h7.Pll

/-! # Flash wait states of the STM32H7

`_uni_hal_stm_rcc_sysclk` programs the wait states of the clock that it is going to reach, then the
prescalers, and then switches the clock. `uni_hal_rcc_init` runs it when the PLLs are up, and
`NMI_Handler` after the crystal has failed. Every change of a register is a state of its own here.
-/

namespace UniHal.Rcc.Stm32h7.FlashLatency
open Foundations Execution BitField LimitTable Staging Routine
open Pll (Oscillators Config Source rccPll pllsrc divP)

/-- `FLASH_ACR_WRHIGHFREQ` beside the wait states. -/
structure WaitStates where
  latency : ℕ
  wrhighfreq : ℕ

/-- Only the number of wait states counts for what the flash can deliver. -/
instance : Preorder WaitStates := Preorder.lift WaitStates.latency

theorem WaitStates.le_iff {a b : WaitStates} : a ≤ b ↔ a.latency ≤ b.latency := Iff.rfl

/-- The voltage scales as `_uni_hal_flash_vos_to_index` tells them apart. -/
inductive VoltageScale
  | scale0 | scale1 | scale2 | scale3
  deriving DecidableEq, Repr

/-- The tables of `_uni_hal_flash_select_latency`, in hertz of the AXI clock. -/
def limits : VoltageScale → List (ℕ × WaitStates)
  | .scale0 => [
      (70000000, ⟨0, 0⟩), (140000000, ⟨1, 1⟩), (185000000, ⟨2, 1⟩), (210000000, ⟨2, 2⟩),
      (225000000, ⟨3, 2⟩), (240000000, ⟨4, 2⟩)]
  | .scale1 => [
      (70000000, ⟨0, 0⟩), (140000000, ⟨1, 1⟩), (185000000, ⟨2, 1⟩), (210000000, ⟨2, 2⟩),
      (225000000, ⟨3, 2⟩)]
  | .scale2 => [
      (55000000, ⟨0, 0⟩), (110000000, ⟨1, 1⟩), (165000000, ⟨2, 1⟩), (225000000, ⟨3, 2⟩)]
  | .scale3 => [
      (45000000, ⟨0, 0⟩), (90000000, ⟨1, 1⟩), (135000000, ⟨2, 1⟩), (180000000, ⟨3, 2⟩),
      (225000000, ⟨4, 2⟩)]

inductive SysClock
  | hsi | csi | hse | pll1
  deriving DecidableEq, Repr

/-- The clock tree with what decides about the wait states. -/
structure State extends Pll.State where
  hseEnable : Bool
  hseOn : Bool
  cssFlag : Bool
  sysInited : Bool
  inited : Bool
  /-- The requested source of the system clock. -/
  selected : SysClock
  /-- The clock that the core runs from. -/
  core : SysClock
  /-- The system prescaler and the AHB prescaler as the shifts that they stand for. -/
  sysPre : UInt32
  ahb : UInt32
  waits : WaitStates

/-- What a board fixes: its crystal, the divider of HSI, the voltage scale, the configuration, and
how `LL_RCC_GetPLL1ClockFreq` reports the output P, which it computes in floating point. -/
structure Board where
  hse : UInt32
  hse_pos : 0 < hse.toNat
  /-- `HSIDIV` as the shift that it stands for. -/
  hsiDiv : UInt32
  vos : VoltageScale
  hseEnable : Bool
  csiEnable : Bool
  cfg : Fin 3 → Config
  pll1P : Pll.State → UInt32

def csiValue : UInt32 := 4000000

def hsiValue : UInt32 := 64000000

def powerOn (b : Board) : State where
  hseInited := false
  csiInited := false
  hsiInited := false
  pllInited := fun _ => false
  cksel := 0x02020200
  unit := fun _ => Pll.unitReset
  hseEnable := b.hseEnable
  hseOn := false
  cssFlag := false
  sysInited := false
  inited := false
  selected := .hsi
  core := .hsi
  sysPre := 0
  ahb := 0
  waits := ⟨7, 3⟩

variable (b : Board)

namespace Board

def osc : Oscillators := ⟨b.hse, csiValue, hsiValue, b.hse_pos⟩

def hsiHz : UInt32 := hsiValue >>> b.hsiDiv

end Board

def pllSourceHz (p : Pll.State) : UInt32 :=
  if pllsrc.read p.cksel = Source.hsi.code then b.hsiHz
  else if pllsrc.read p.cksel = Source.csi.code then csiValue
  else if pllsrc.read p.cksel = Source.hse.code then b.hse
  else 0

def clockHz (clock : SysClock) (p : Pll.State) : ℚ :=
  match clock with
  | .hsi => b.hsiHz.toNat
  | .csi => csiValue.toNat
  | .hse => b.hse.toNat
  | .pll1 => p.outHz (pllSourceHz b p) 0 divP

def State.axiHz (s : State) : ℚ :=
  clockHz b s.core s.toState / 2 ^ s.sysPre.toNat / 2 ^ s.ahb.toNat

/-- The wait states are enough for the AXI clock that runs. -/
def Sufficient (s : State) : Prop := Covers (limits b.vos) (s.axiHz b) s.waits

namespace State

def withPll (s : State) (p : Pll.State) : State :=
  ⟨p, s.hseEnable, s.hseOn, s.cssFlag, s.sysInited, s.inited, s.selected, s.core, s.sysPre, s.ahb,
    s.waits⟩

end State

/-- The source that `_uni_hal_stm_rcc_sysclk` selects, and the frequency that it reads for it. -/
def target (s : State) : Option (SysClock × UInt32) :=
  if s.pllInited 0 then some (.pll1, b.pll1P s.toState)
  else if s.hseInited then some (.hse, b.hse)
  else if s.csiInited then some (.csi, csiValue)
  else if s.hsiInited then some (.hsi, b.hsiHz)
  else none

/-- `uni_hal_flash_configure_latency_auto` for the AXI clock behind prescalers of one and two,
nothing when a frequency is zero or beyond the table. -/
def newWaits (sysclkHz : UInt32) : Option WaitStates :=
  let cpuclkHz := sysclkHz >>> 0
  let axiHz := sysclkHz >>> 1
  if sysclkHz = 0 ∨ cpuclkHz = 0 ∨ axiHz = 0 then none else lookup (limits b.vos) axiHz.toNat

def applyLatency (w : WaitStates) : Routine State :=
  andThen (change fun s => { s with waits := { s.waits with wrhighfreq := w.wrhighfreq } }) <|
  change fun s => { s with waits := w }

def switchTo (source : SysClock) (switched : Bool) : Routine State :=
  andThen (change fun s => { s with sysPre := 0 }) <|
  andThen (change fun s => { s with ahb := 1 }) <|
  andThen (change fun s => { s with selected := source }) <|
  change fun s => { s with core := if switched then source else s.core, sysInited := switched }

/-- `_uni_hal_stm_rcc_sysclk`. The flags tell whether the latency reads back and whether the switch
takes place within their timeouts. -/
def sysclk (applied switched : Bool) : Routine State := choose fun s =>
  match target b s with
  | none => skip
  | some (source, hz) =>
    match newWaits b hz with
    | none => change fun s => { s with sysInited := false }
    | some w =>
      andThen (applyLatency w) <|
      if applied then switchTo source switched
      else change fun s => { s with sysInited := false }

/-- How the stages end: HSE, CSI and HSI ready, the PLLs, the latency and the switch. -/
structure Outcome where
  hse : Bool
  csi : Bool
  hsi : Bool
  pll : Pll.Outcome
  applied : Bool
  switched : Bool

def pllOutcome (hw : Pll.Outcome) (s : State) : Pll.Outcome :=
  ⟨fun i => hw.stopped i && !decide (i = 0 ∧ s.core = .pll1), hw.ready⟩

/-- `_uni_hal_stm_rcc_pll` -/
def pllStage (hw : Pll.Outcome) (s : State) : Bool × Pll.State :=
  rccPll b.osc b.cfg (pllOutcome hw s) s.toState

def pllAndSysclk (o : Outcome) : Routine State := choose fun s =>
  andThen (change fun s => s.withPll (pllStage b o.pll s).2) <|
  if (pllStage b o.pll s).1 then sysclk b o.applied o.switched else skip

/-- `_uni_hal_stm_rcc_hse`, which clears the flag of the clock security system. -/
def hseStage (ready : Bool) (s : State) : State :=
  { s.withPll { s.toState with hseInited := ready } with hseOn := ready, cssFlag := false }

def startOscillators (o : Outcome) : Routine State :=
  andThen (branch (·.hseEnable) (change (hseStage o.hse)) skip) <|
  andThen (branch (fun _ => b.csiEnable)
    (change fun s => s.withPll { s.toState with csiInited := o.csi }) skip) <|
  change fun s => s.withPll { s.toState with hsiInited := o.hsi }

/-- The clock stages of `uni_hal_rcc_init`, which may be called again until it succeeds. -/
def init (o : Outcome) : Routine State :=
  branch (·.inited) skip <|
  andThen (startOscillators b o) <|
  andThen (pllAndSysclk b o) <|
  change fun s => { s with inited := s.sysInited }

def dropHse (s : State) : State :=
  { s.withPll { s.toState with hseInited := false, pllInited := fun _ => false } with
    hseEnable := false
    cssFlag := false
    sysInited := false }

/-- `NMI_Handler`, which goes on whether or not the PLLs are up. -/
def nmiHandler (hw : Pll.Outcome) (applied switched : Bool) : Routine State :=
  branch (·.cssFlag)
    (andThen (change dropHse) <|
    andThen (change fun s => s.withPll (pllStage b hw s).2) (sysclk b applied switched))
    skip

def fed (p : Pll.State) : SysClock → Bool
  | .hse => true
  | .pll1 => pllsrc.read p.cksel = Source.hse.code
  | _ => false

def failover (s : State) : State :=
  let pll := if pllsrc.read s.cksel = Source.hse.code then s.toState.disableAll else s.toState
  { s.withPll pll with
    hseOn := false
    cssFlag := true
    selected := if fed s.toState s.selected then .hsi else s.selected
    core := if fed s.toState s.core then .hsi else s.core }

def hseFails : Routine State := branch (·.hseOn) (change failover) skip

def State.running (s : State) : SysClock → Bool
  | .hsi => true
  | .csi => s.csiInited
  | .hse => s.hseOn
  | .pll1 => (s.unit 0).on

def lateSwitch : Routine State :=
  change fun s => if s.running s.selected then { s with core := s.selected } else s

inductive Action
  | init (o : Outcome)
  | hseFails
  | nmi (hw : Pll.Outcome) (applied switched : Bool)
  | lateSwitch

def routine : Action → Routine State
  | .init o => init b o
  | .hseFails => hseFails
  | .nmi hw applied switched => nmiHandler b hw applied switched
  | .lateSwitch => lateSwitch

/-- The wait states of the target are enough for the AXI clock that still runs when they are
written, and the target itself is not faster than the frequency that was read for it. -/
def SwitchGuard (axiHz : ℚ) (s : State) (applied switched : Bool) : Prop :=
  ∀ source hz w, target b s = some (source, hz) → newWaits b hz = some w →
    Covers (limits b.vos) axiHz w ∧
      (applied = true → switched = true → Covers (limits b.vos) (clockHz b source s.toState / 2) w)

/-- The condition on an action, in the state in which it is taken. -/
def Guarded (s : State) : Action → Prop
  | .init o => s.inited = false →
      let t := final (startOscillators b o) s
      (pllStage b o.pll t).1 = true →
        SwitchGuard b (s.axiHz b) (t.withPll (pllStage b o.pll t).2) o.applied o.switched
  | .hseFails => True
  | .nmi hw applied switched => s.cssFlag = true →
      let t := dropHse s
      SwitchGuard b (s.axiHz b) (t.withPll (pllStage b hw t).2) applied switched
  | .lateSwitch => s.running s.selected = true →
      Covers (limits b.vos) (({ s with core := s.selected } : State).axiHz b) s.waits

variable {b}

theorem limits_sorted (vos : VoltageScale) : (limits vos).Pairwise fun x y => x.2 ≤ y.2 := by
  cases vos <;> simp [limits, WaitStates.le_iff]

theorem covers_slow {vos : VoltageScale} {hz : ℚ} (h : hz ≤ 45000000) (w : WaitStates) :
    Covers (limits vos) hz w := by
  rw [covers_iff (limits_sorted vos)]
  cases vos
  all_goals refine ⟨_, List.mem_cons_self, ?_, Nat.zero_le _⟩
  all_goals exact h.trans (by norm_num)

/-- The second limit of every table is above the frequency of HSI. -/
theorem covers_hsi {vos : VoltageScale} {hz : ℚ} (h : hz ≤ 64000000) {w : WaitStates}
    (hw : 1 ≤ w.latency) : Covers (limits vos) hz w := by
  rw [covers_iff (limits_sorted vos)]
  cases vos
  all_goals refine ⟨_, List.mem_cons_of_mem _ List.mem_cons_self, ?_, hw⟩
  all_goals exact h.trans (by norm_num)

theorem hsiHz_le (b : Board) : b.hsiHz.toNat ≤ 64000000 := by
  rw [Board.hsiHz, UInt32.toNat_shiftRight, Nat.shiftRight_eq_div_pow]
  exact Nat.div_le_self _ _

theorem clockHz_nonneg (clock : SysClock) (p : Pll.State) : 0 ≤ clockHz b clock p := by
  cases clock with
  | hsi => exact Nat.cast_nonneg _
  | csi => exact Nat.cast_nonneg _
  | hse => exact Nat.cast_nonneg _
  | pll1 =>
    rw [clockHz, Pll.State.outHz, Pll.State.vcoHz, Pll.PllUnit.multiplier]
    split_ifs <;> positivity

theorem clockHz_pllStage (b : Board) (hw : Pll.Outcome) (s : State) :
    clockHz b s.core (pllStage b hw s).2 = clockHz b s.core s.toState := by
  cases hcore : s.core with
  | hsi => rfl
  | csi => rfl
  | hse => rfl
  | pll1 =>
    -- the PLL that drives the core does not stop, and the stage gives up before it writes to it
    have hstop : (pllOutcome hw s).stopped 0 = false := by simp [pllOutcome, hcore]
    have hreset : Pll.pllReset (pllOutcome hw s).stopped s.toState =
        (false, s.toState.disableAll) := by
      simp [Pll.pllReset, hstop]
    rw [pllStage, rccPll]
    cases Pll.pllSource b.osc s.toState with
    | none => rfl
    | some selected =>
      simp only [hreset, if_true]
      rfl

theorem axiHz_of_sysPre {s : State} (hpre : s.sysPre = 0) :
    s.axiHz b = clockHz b s.core s.toState / 2 ^ s.ahb.toNat := by
  rw [State.axiHz, hpre]
  simp

theorem half_le_axiHz {s : State} (hpre : s.sysPre = 0) (hahb : s.ahb = 0 ∨ s.ahb = 1) :
    clockHz b s.core s.toState / 2 ≤ s.axiHz b := by
  rw [axiHz_of_sysPre hpre]
  have hpos := clockHz_nonneg (b := b) s.core s.toState
  rcases hahb with h | h
  · rw [h]
    simpa using hpos
  · rw [h]
    simp

theorem sufficient_iff_of_ahb {s : State} (hpre : s.sysPre = 0) (hahb : s.ahb = 1) :
    Sufficient b s ↔ Covers (limits b.vos) (clockHz b s.core s.toState / 2) s.waits := by
  rw [Sufficient, axiHz_of_sysPre hpre, hahb]
  simp

theorem throughout_switchTo {s : State} (hpre : s.sysPre = 0) (hahb : s.ahb = 0 ∨ s.ahb = 1)
    (hs : Sufficient b s) (source : SysClock) (switched : Bool) :
    Throughout (Sufficient b) (switchTo source switched) s ↔
      (switched = true → Covers (limits b.vos) (clockHz b source s.toState / 2) s.waits) := by
  have hsys : Sufficient b { s with sysPre := 0 } := by
    rw [← hpre]
    exact hs
  -- from here on the AHB prescaler is two, and the clock has not been switched yet
  have hhalf : Covers (limits b.vos) (clockHz b s.core s.toState / 2) s.waits :=
    Covers.of_le (limits_sorted b.vos) hs (half_le_axiHz hpre hahb)
  have hslow : Sufficient b { s with sysPre := 0, ahb := 1 } :=
    (sufficient_iff_of_ahb rfl rfl).mpr hhalf
  have hselected : Sufficient b { s with sysPre := 0, ahb := 1, selected := source } := hslow
  have hswitch : Sufficient b { s with
      sysPre := 0
      ahb := 1
      selected := source
      core := if switched then source else s.core
      sysInited := switched } ↔
        Covers (limits b.vos) (clockHz b (if switched then source else s.core) s.toState / 2)
          s.waits :=
    sufficient_iff_of_ahb rfl rfl
  simp only [switchTo, throughout_andThen, throughout_change, final_change, hs, hsys, hslow,
    hselected, hswitch, true_and]
  cases switched with
  | true => simp
  | false => simpa using hhalf

theorem throughout_applyLatency {s : State} (hs : Sufficient b s) (w : WaitStates) :
    Throughout (Sufficient b) (applyLatency w) s ↔ Covers (limits b.vos) (s.axiHz b) w := by
  have hfreq : Sufficient b { s with waits := { s.waits with wrhighfreq := w.wrhighfreq } } := hs
  have hlat : Sufficient b { s with waits := w } ↔ Covers (limits b.vos) (s.axiHz b) w := Iff.rfl
  simp only [applyLatency, throughout_andThen, throughout_change, final_change, hs, hfreq, hlat,
    true_and]

theorem switchGuard_iff {axiHz : ℚ} {s : State} {source : SysClock} {hz : UInt32} {w : WaitStates}
    (htarget : target b s = some (source, hz)) (hnew : newWaits b hz = some w)
    (applied switched : Bool) :
    SwitchGuard b axiHz s applied switched ↔ Covers (limits b.vos) axiHz w ∧
      (applied = true → switched = true →
        Covers (limits b.vos) (clockHz b source s.toState / 2) w) := by
  constructor
  · intro h
    exact h source hz w htarget hnew
  · intro h source' hz' w' htarget' hnew'
    obtain ⟨rfl, rfl⟩ := Prod.mk.inj (Option.some.inj (htarget.symm.trans htarget'))
    obtain rfl := Option.some.inj (hnew.symm.trans hnew')
    exact h

theorem throughout_sysclk {s : State} (hpre : s.sysPre = 0) (hahb : s.ahb = 0 ∨ s.ahb = 1)
    (hs : Sufficient b s) (applied switched : Bool) :
    Throughout (Sufficient b) (sysclk b applied switched) s ↔
      SwitchGuard b (s.axiHz b) s applied switched := by
  have hflag : Sufficient b { s with sysInited := false } := hs
  rw [sysclk, throughout_choose]
  cases htarget : target b s with
  | none =>
    have hguard : SwitchGuard b (s.axiHz b) s applied switched :=
      fun _ _ _ h => absurd (htarget.symm.trans h).symm (Option.some_ne_none _)
    exact iff_of_true ((throughout_skip s).mpr hs) hguard
  | some selected =>
    obtain ⟨source, hz⟩ := selected
    cases hnew : newWaits b hz with
    | none =>
      have hguard : SwitchGuard b (s.axiHz b) s applied switched := by
        intro _ _ _ htarget' hnew'
        obtain ⟨rfl, rfl⟩ := Prod.mk.inj (Option.some.inj (htarget.symm.trans htarget'))
        exact absurd (hnew.symm.trans hnew') (Option.some_ne_none _).symm
      simp only [hnew]
      exact iff_of_true ((throughout_change _ s).mpr ⟨hs, hflag⟩) hguard
    | some w =>
      rw [switchGuard_iff htarget hnew]
      simp only [hnew, throughout_andThen, throughout_applyLatency hs w]
      refine and_congr_right fun hcover => ?_
      have hnow : Sufficient b (final (applyLatency w) s) := hcover
      cases applied with
      | true =>
        simp only [if_true, forall_const]
        exact throughout_switchTo (by exact hpre) (by exact hahb) hnow source switched
      | false =>
        simp only [Bool.false_eq_true, if_false, false_implies, iff_true]
        exact (throughout_change _ _).mpr ⟨hnow, hnow⟩

/-- The system prescaler is always one, and once the core or the request has left HSI the AHB
prescaler is two. -/
def Prescaled (s : State) : Prop :=
  s.sysPre = 0 ∧ (s.ahb = 1 ∨ (s.ahb = 0 ∧ s.core = .hsi ∧ s.selected = .hsi))

theorem Prescaled.ahb {s : State} (h : Prescaled s) : s.ahb = 0 ∨ s.ahb = 1 := by
  rcases h.2 with h | ⟨h, -⟩
  · exact Or.inr h
  · exact Or.inl h

/-- A stage that leaves the running clock and the wait states alone. -/
structure SameClock (b : Board) (s t : State) : Prop where
  core : t.core = s.core
  selected : t.selected = s.selected
  sysPre : t.sysPre = s.sysPre
  ahb : t.ahb = s.ahb
  waits : t.waits = s.waits
  hz : clockHz b s.core t.toState = clockHz b s.core s.toState

namespace SameClock
variable {s t u : State}

theorem trans (h1 : SameClock b s t) (h2 : SameClock b t u) : SameClock b s u where
  core := h2.core.trans h1.core
  selected := h2.selected.trans h1.selected
  sysPre := h2.sysPre.trans h1.sysPre
  ahb := h2.ahb.trans h1.ahb
  waits := h2.waits.trans h1.waits
  hz := by rw [← h1.hz, ← h1.core, h2.hz]

theorem axiHz (h : SameClock b s t) : t.axiHz b = s.axiHz b := by
  rw [State.axiHz, State.axiHz, h.core, h.hz, h.sysPre, h.ahb]

theorem sufficient (h : SameClock b s t) (hs : Sufficient b s) : Sufficient b t := by
  rw [Sufficient, h.axiHz, h.waits]
  exact hs

theorem prescaled (h : SameClock b s t) (hs : Prescaled s) : Prescaled t := by
  rw [Prescaled, h.sysPre, h.ahb, h.core, h.selected]
  exact hs

end SameClock

theorem sameClock_pllStage (b : Board) (hw : Pll.Outcome) (s : State) :
    SameClock b s (s.withPll (pllStage b hw s).2) :=
  ⟨rfl, rfl, rfl, rfl, rfl, clockHz_pllStage b hw s⟩

theorem SameClock.of_regs {s t : State} (hcore : t.core = s.core) (hsel : t.selected = s.selected)
    (hpre : t.sysPre = s.sysPre) (hahb : t.ahb = s.ahb) (hwaits : t.waits = s.waits)
    (hcksel : t.cksel = s.cksel) (hunit : t.unit = s.unit) : SameClock b s t := by
  refine ⟨hcore, hsel, hpre, hahb, hwaits, ?_⟩
  cases s.core with
  | pll1 =>
    simp only [clockHz, pllSourceHz, Pll.State.outHz, Pll.State.vcoHz, Pll.State.divider, hcksel,
      hunit]
  | _ => rfl

theorem sameClock_dropHse (b : Board) (s : State) : SameClock b s (dropHse s) :=
  .of_regs rfl rfl rfl rfl rfl rfl rfl

/-- The oscillators start without a change of the running clock. -/
theorem sameClock_startOscillators (b : Board) (o : Outcome) (s : State) :
    Throughout (SameClock b s) (startOscillators b o) s := by
  have hsame : ∀ t : State, t.core = s.core → t.selected = s.selected → t.sysPre = s.sysPre →
      t.ahb = s.ahb → t.waits = s.waits → t.cksel = s.cksel → t.unit = s.unit → SameClock b s t :=
    fun _ => SameClock.of_regs
  simp only [startOscillators, throughout_andThen, throughout_branch, throughout_change,
    throughout_skip, final_branch, final_change, final_skip]
  split_ifs
  all_goals repeat' apply And.intro
  all_goals exact hsame _ rfl rfl rfl rfl rfl rfl rfl

theorem prescaled_sysclk {s : State} (hs : Prescaled s) (applied switched : Bool) :
    Prescaled (final (sysclk b applied switched) s) := by
  rw [sysclk, final_choose]
  cases target b s with
  | none => exact hs
  | some selected =>
    cases hnew : newWaits b selected.2 with
    | none =>
      simp only [hnew]
      exact hs
    | some w =>
      simp only [hnew]
      cases applied with
      | true => exact ⟨rfl, Or.inl rfl⟩
      | false => exact hs

/-- What every state of a run keeps. -/
structure Kept (b : Board) (s : State) : Prop where
  sufficient : Sufficient b s
  prescaled : Prescaled s

theorem SameClock.kept {s t : State} (h : SameClock b s t) (hs : Kept b s) : Kept b t :=
  ⟨h.sufficient hs.sufficient, h.prescaled hs.prescaled⟩

theorem powerOn_kept (b : Board) : Kept b (powerOn b) where
  sufficient := by
    have hhz : (powerOn b).axiHz b ≤ 64000000 := by
      have hle : (b.hsiHz.toNat : ℚ) ≤ 64000000 := by exact_mod_cast hsiHz_le b
      rw [axiHz_of_sysPre rfl]
      simpa [powerOn, clockHz] using hle
    exact covers_hsi hhz (by decide : (1 : ℕ) ≤ 7)
  prescaled := ⟨rfl, Or.inr ⟨rfl, rfl, rfl⟩⟩

theorem throughout_pllAndSysclk {s : State} (hs : Kept b s) (o : Outcome) :
    Throughout (Sufficient b) (pllAndSysclk b o) s ↔
      ((pllStage b o.pll s).1 = true → SwitchGuard b (s.axiHz b)
        (s.withPll (pllStage b o.pll s).2) o.applied o.switched) := by
  have hpll := sameClock_pllStage b o.pll s
  have hkept := hpll.kept hs
  rw [pllAndSysclk, throughout_choose, throughout_andThen, throughout_change, final_change]
  simp only [hs.sufficient, hkept.sufficient, true_and]
  split_ifs with hok
  · rw [throughout_sysclk hkept.prescaled.1 hkept.prescaled.ahb hkept.sufficient, hpll.axiHz]
    simp [hok]
  · simp [hok, hkept.sufficient]

theorem throughout_init {s : State} (hs : Kept b s) (o : Outcome) :
    Throughout (Sufficient b) (init b o) s ↔ Guarded b s (.init o) := by
  rw [init, throughout_branch, Guarded]
  cases hinit : s.inited with
  | true => simp [hs.sufficient]
  | false =>
    have hosc := sameClock_startOscillators b o s
    have hsys := throughout_pllAndSysclk (hosc.last.kept hs) o
    rw [hosc.last.axiHz] at hsys
    simp only [Bool.false_eq_true, if_false, throughout_andThen, throughout_change, forall_const]
    constructor
    · rintro ⟨-, hall, -⟩
      exact hsys.mp hall
    · intro hguard
      have hall := hsys.mpr hguard
      exact ⟨hosc.mono fun t ht => ht.sufficient hs.sufficient, hall, hall.last, hall.last⟩

theorem throughout_nmiHandler {s : State} (hs : Kept b s) (hw : Pll.Outcome)
    (applied switched : Bool) :
    Throughout (Sufficient b) (nmiHandler b hw applied switched) s ↔
      Guarded b s (.nmi hw applied switched) := by
  rw [nmiHandler, throughout_branch, Guarded]
  cases hcss : s.cssFlag with
  | false => simp [hs.sufficient]
  | true =>
    have hdrop := sameClock_dropHse b s
    have hpll := hdrop.trans (sameClock_pllStage b hw (dropHse s))
    have hkept := hpll.kept hs
    have hsys := throughout_sysclk hkept.prescaled.1 hkept.prescaled.ahb hkept.sufficient applied
      switched
    rw [hpll.axiHz] at hsys
    simp only [if_true, throughout_andThen, throughout_change, final_change, forall_const, hsys,
      hs.sufficient, hkept.sufficient, (hdrop.kept hs).sufficient, true_and]

/-- Switching the PLLs off does not count either: their dividers stay. -/
theorem clockHz_disableAll (clock : SysClock) (p : Pll.State) :
    clockHz b clock p.disableAll = clockHz b clock p := by
  cases clock <;> rfl

/-- Behind the prescaler of two HSI needs no wait states at all. -/
theorem kept_failover {s : State} (hs : Kept b s) : Kept b (failover s) := by
  have hclock : ∀ clock, clockHz b clock (failover s).toState = clockHz b clock s.toState := by
    intro clock
    simp only [failover, State.withPll]
    split_ifs
    · exact clockHz_disableAll clock s.toState
    · rfl
  obtain ⟨hpre, hahb⟩ := hs.prescaled
  constructor
  · cases hfed : fed s.toState s.core with
    | true =>
      have hcore : (failover s).core = .hsi := if_pos hfed
      have htwo : s.ahb = 1 := by
        rcases hahb with h | ⟨-, h, -⟩
        · exact h
        · rw [h] at hfed
          exact absurd hfed Bool.false_ne_true
      have hle : (b.hsiHz.toNat : ℚ) ≤ 64000000 := by exact_mod_cast hsiHz_le b
      rw [sufficient_iff_of_ahb (by exact hpre) (by exact htwo), hcore]
      exact covers_slow (by rw [clockHz]; linarith) _
    | false =>
      have hcore : (failover s).core = s.core := if_neg (by rw [hfed]; exact Bool.false_ne_true)
      have haxi : (failover s).axiHz b = s.axiHz b := by
        rw [State.axiHz, State.axiHz, hcore, hclock]
        rfl
      rw [Sufficient, haxi]
      exact hs.sufficient
  · refine ⟨hpre, ?_⟩
    rcases hahb with h | ⟨h, hcore, hsel⟩
    · exact Or.inl h
    · exact Or.inr ⟨h, by simp [failover, hcore, fed], by simp [failover, hsel, fed]⟩

theorem throughout_hseFails {s : State} (hs : Kept b s) :
    Throughout (Sufficient b) hseFails s := by
  rw [hseFails, throughout_branch]
  split_ifs
  · exact (throughout_change _ s).mpr ⟨hs.sufficient, (kept_failover hs).sufficient⟩
  · exact (throughout_skip s).mpr hs.sufficient

theorem throughout_lateSwitch {s : State} (hs : Kept b s) :
    Throughout (Sufficient b) lateSwitch s ↔ Guarded b s .lateSwitch := by
  rw [lateSwitch, throughout_change, Guarded]
  split_ifs with hrun
  · exact ⟨fun h _ => h.2, fun h => ⟨hs.sufficient, h hrun⟩⟩
  · exact ⟨fun _ h => absurd h hrun, fun _ => ⟨hs.sufficient, hs.sufficient⟩⟩

/-- In a reachable state the guard of an action says exactly that its routine is safe. -/
theorem guarded_iff {s : State} (hs : Kept b s) (a : Action) :
    Guarded b s a ↔ Throughout (Sufficient b) (routine b a) s := by
  cases a with
  | init o => exact (throughout_init hs o).symm
  | hseFails => exact ⟨fun _ => throughout_hseFails hs, fun _ => trivial⟩
  | nmi hw applied switched => exact (throughout_nmiHandler hs hw applied switched).symm
  | lateSwitch => exact (throughout_lateSwitch hs).symm

theorem final_kept {s : State} (hs : Kept b s) (a : Action) (ha : Guarded b s a) :
    Kept b (final (routine b a) s) := by
  refine ⟨((guarded_iff hs a).mp ha).last, ?_⟩
  cases a with
  | init o =>
    rw [routine, init, final_branch]
    split_ifs
    · exact hs.prescaled
    · have hosc := (sameClock_startOscillators b o s).last
      have hpll := hosc.trans (sameClock_pllStage b o.pll _)
      rw [final_andThen, final_andThen, final_change, pllAndSysclk, final_choose, final_andThen,
        final_change]
      split_ifs
      · exact prescaled_sysclk (hpll.prescaled hs.prescaled) o.applied o.switched
      · exact hpll.prescaled hs.prescaled
  | hseFails =>
    rw [routine, hseFails, final_branch]
    split_ifs
    · exact (kept_failover hs).prescaled
    · exact hs.prescaled
  | nmi hw applied switched =>
    rw [routine, nmiHandler, final_branch]
    split_ifs
    · have hpll := (sameClock_dropHse b s).trans (sameClock_pllStage b hw (dropHse s))
      rw [final_andThen, final_andThen, final_change, final_change]
      exact prescaled_sysclk (hpll.prescaled hs.prescaled) applied switched
    · exact hs.prescaled
  | lateSwitch =>
    rw [routine, lateSwitch, final_change]
    split_ifs
    · obtain ⟨hpre, hahb⟩ := hs.prescaled
      refine ⟨hpre, ?_⟩
      rcases hahb with h | ⟨h, -, hsel⟩
      · exact Or.inl h
      · exact Or.inr ⟨h, hsel, hsel⟩
    · exact hs.prescaled

/-- The wait states are sufficient in every state of a run exactly when each of its actions is
guarded. -/
theorem axi_sufficient_iff (b : Board) (run : List Action) :
    Throughout (Sufficient b) (chain (routine b) run) (powerOn b) ↔
      Along (step (routine b)) (Guarded b) (powerOn b) run := by
  have hP : ∀ s, Kept b s → Sufficient b s := fun s hs => hs.sufficient
  have hok : ∀ s a, Kept b s → (Guarded b s a ↔ Throughout (Sufficient b) (routine b a) s) :=
    fun s a hs => guarded_iff hs a
  have hstep : ∀ s a, Kept b s → Guarded b s a → Kept b (final (routine b a) s) :=
    fun s a hs ha => final_kept hs a ha
  exact (throughout_chain_iff hP hok hstep (powerOn_kept b) run).symm

theorem crystal8MHz_pos : 0 < (8000000 : UInt32).toNat := by decide

/-- A board with an 8 MHz crystal in voltage scale 3 that runs the core at 80 MHz. -/
def board80MHz : Board where
  hse := 8000000
  hse_pos := crystal8MHz_pos
  hsiDiv := 0
  vos := .scale3
  hseEnable := true
  csiEnable := false
  cfg := fun i => if i = 0 then ⟨1, 40, 4, 0, 0, 0⟩ else ⟨0, 0, 0, 0, 0, 0⟩
  pll1P := fun _ => 80000000

def faultless : Outcome := ⟨true, false, true, ⟨fun _ => true, fun _ => true⟩, true, true⟩

/-- The start lowers the wait states to zero for an AXI clock of 40 MHz, and HSI still drives the
AXI bus at 64 MHz. -/
theorem start_insufficient :
    ¬(∀ run, Throughout (Sufficient board80MHz) (chain (routine board80MHz) run)
      (powerOn board80MHz)) ∧
    (powerOn board80MHz).axiHz board80MHz = 64000000 ∧
    (final (init board80MHz faultless) (powerOn board80MHz)).waits.latency = 0 ∧
    (final (init board80MHz faultless) (powerOn board80MHz)).axiHz board80MHz = 40000000 := by
  have haxi : (powerOn board80MHz).axiHz board80MHz = 64000000 := by
    rw [axiHz_of_sysPre rfl]
    change ((64000000 : ℕ) : ℚ) / 2 ^ 0 = 64000000
    norm_num
  refine ⟨fun h => ?_, haxi, by decide, ?_⟩
  · have hrun := h [.init faultless]
    rw [chain, throughout_andThen] at hrun
    have hguard := (guarded_iff (powerOn_kept board80MHz) (.init faultless)).mpr hrun.1
    obtain ⟨hcover, -⟩ := hguard rfl (by decide) .pll1 80000000 ⟨0, 0⟩ (by decide) rfl
    rw [haxi, covers_iff (limits_sorted _)] at hcover
    -- the only row without wait states ends at 45 MHz
    have hvos : board80MHz.vos = .scale3 := rfl
    obtain ⟨row, hmem, hhz, hlat⟩ := hcover
    rw [hvos] at hmem
    simp only [limits, List.mem_cons, List.not_mem_nil, or_false] at hmem
    rcases hmem with rfl | rfl | rfl | rfl | rfl
    · norm_num at hhz
    all_goals exact absurd hlat (by decide : ¬(_ : ℕ) ≤ 0)
  · generalize hs : final (init board80MHz faultless) (powerOn board80MHz) = s
    have hcore : s.core = .pll1 := by rw [← hs]; decide
    have hpre : s.sysPre = 0 := by rw [← hs]; decide
    have hahb : s.ahb = 1 := by rw [← hs]; decide
    have hsource : pllSourceHz board80MHz s.toState = 8000000 := by rw [← hs]; decide
    have hmhz : (8000000 : UInt32).toNat = 8000000 := rfl
    have hone : (1 : UInt32).toNat = 1 := rfl
    have hm : s.divider 0 = 1 := by rw [← hs]; decide
    have hn : (Pll.divN.read (s.unit 0).divr).toNat = 39 := by rw [← hs]; decide
    have hp : (divP.read (s.unit 0).divr).toNat = 3 := by rw [← hs]; decide
    have hfrac : (s.unit 0).fracEn = false := by rw [← hs]; decide
    rw [axiHz_of_sysPre hpre, hahb, hcore, clockHz, hsource, Pll.State.outHz, Pll.State.vcoHz,
      Pll.PllUnit.multiplier, hm, hn, hp, hfrac, hmhz, hone]
    norm_num

end UniHal.Rcc.Stm32h7.FlashLatency
