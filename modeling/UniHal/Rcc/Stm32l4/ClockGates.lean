import UniHal.Rcc.Periph

/-! # Clock gates of the STM32L4

`uni_hal_rcc_clk_get` and `uni_hal_rcc_clk_set` of `uni_hal_rcc_stm32l4.c` over the enable
registers of the STM32L496. The getter and the setter name the gate of a peripheral
separately, as their switches do in the source.
-/

namespace UniHal.Rcc.Stm32l4
open Foundations ClockControl

/-- The enable registers, and the backup domain register that enables the RTC. -/
inductive Reg
  | ahb1enr | ahb2enr | apb1enr1 | apb1enr2 | apb2enr | bdcr
  deriving DecidableEq, Repr

abbrev Gate := Flag Reg 32

def ahb1Grp1 (periph : Fin 32) : Gate := ⟨.ahb1enr, periph⟩
def ahb2Grp1 (periph : Fin 32) : Gate := ⟨.ahb2enr, periph⟩
def apb1Grp1 (periph : Fin 32) : Gate := ⟨.apb1enr1, periph⟩
def apb1Grp2 (periph : Fin 32) : Gate := ⟨.apb1enr2, periph⟩
def apb2Grp1 (periph : Fin 32) : Gate := ⟨.apb2enr, periph⟩
def rtcEnable : Gate := ⟨.bdcr, 15⟩

namespace Ahb1Grp1
def dma1 : Fin 32 := 0
def dma2 : Fin 32 := 1
def crc : Fin 32 := 12
end Ahb1Grp1

namespace Ahb2Grp1
def gpioA : Fin 32 := 0
def gpioB : Fin 32 := 1
def gpioC : Fin 32 := 2
def gpioD : Fin 32 := 3
def gpioE : Fin 32 := 4
def gpioF : Fin 32 := 5
def gpioG : Fin 32 := 6
def gpioH : Fin 32 := 7
def gpioI : Fin 32 := 8
def adc : Fin 32 := 13
def rng : Fin 32 := 18
end Ahb2Grp1

namespace Apb1Grp1
def tim2 : Fin 32 := 0
def tim3 : Fin 32 := 1
def tim4 : Fin 32 := 2
def tim5 : Fin 32 := 3
def tim6 : Fin 32 := 4
def tim7 : Fin 32 := 5
def spi2 : Fin 32 := 14
def spi3 : Fin 32 := 15
def usart2 : Fin 32 := 17
def usart3 : Fin 32 := 18
def uart4 : Fin 32 := 19
def uart5 : Fin 32 := 20
def i2c1 : Fin 32 := 21
def i2c2 : Fin 32 := 22
def i2c3 : Fin 32 := 23
def can1 : Fin 32 := 25
def can2 : Fin 32 := 26
def pwr : Fin 32 := 28
def dac1 : Fin 32 := 29
end Apb1Grp1

namespace Apb1Grp2
def lpuart1 : Fin 32 := 0
def i2c4 : Fin 32 := 1
end Apb1Grp2

namespace Apb2Grp1
def syscfg : Fin 32 := 0
def tim1 : Fin 32 := 11
def spi1 : Fin 32 := 12
def tim8 : Fin 32 := 13
def usart1 : Fin 32 := 14
def tim15 : Fin 32 := 16
def tim16 : Fin 32 := 17
def tim17 : Fin 32 := 18
end Apb2Grp1

/-- The gate that the switch of `uni_hal_rcc_clk_get` reads. -/
def clkGate : Periph → Option Gate
  | .adc1 | .adc2 | .adc3 => some (ahb2Grp1 Ahb2Grp1.adc)
  | .can1 => some (apb1Grp1 Apb1Grp1.can1)
  | .can2 => some (apb1Grp1 Apb1Grp1.can2)
  | .crc1 => some (ahb1Grp1 Ahb1Grp1.crc)
  | .dac1 => some (apb1Grp1 Apb1Grp1.dac1)
  | .dma1 => some (ahb1Grp1 Ahb1Grp1.dma1)
  | .dma2 => some (ahb1Grp1 Ahb1Grp1.dma2)
  | .gpioA => some (ahb2Grp1 Ahb2Grp1.gpioA)
  | .gpioB => some (ahb2Grp1 Ahb2Grp1.gpioB)
  | .gpioC => some (ahb2Grp1 Ahb2Grp1.gpioC)
  | .gpioD => some (ahb2Grp1 Ahb2Grp1.gpioD)
  | .gpioE => some (ahb2Grp1 Ahb2Grp1.gpioE)
  | .gpioF => some (ahb2Grp1 Ahb2Grp1.gpioF)
  | .gpioG => some (ahb2Grp1 Ahb2Grp1.gpioG)
  | .gpioH => some (ahb2Grp1 Ahb2Grp1.gpioH)
  | .gpioI => some (ahb2Grp1 Ahb2Grp1.gpioI)
  | .i2c1 => some (apb1Grp1 Apb1Grp1.i2c1)
  | .i2c2 => some (apb1Grp1 Apb1Grp1.i2c2)
  | .i2c3 => some (apb1Grp1 Apb1Grp1.i2c3)
  | .i2c4 => some (apb1Grp2 Apb1Grp2.i2c4)
  | .lpuart1 => some (apb1Grp2 Apb1Grp2.lpuart1)
  | .pwr => some (apb1Grp1 Apb1Grp1.pwr)
  | .rng => some (ahb2Grp1 Ahb2Grp1.rng)
  | .rtc => some rtcEnable
  | .spi1 => some (apb2Grp1 Apb2Grp1.spi1)
  | .spi2 => some (apb1Grp1 Apb1Grp1.spi2)
  | .spi3 => some (apb1Grp1 Apb1Grp1.spi3)
  | .syscfg => some (apb2Grp1 Apb2Grp1.syscfg)
  | .tim1 => some (apb2Grp1 Apb2Grp1.tim1)
  | .tim2 => some (apb1Grp1 Apb1Grp1.tim2)
  | .tim3 => some (apb1Grp1 Apb1Grp1.tim3)
  | .tim4 => some (apb1Grp1 Apb1Grp1.tim4)
  | .tim5 => some (apb1Grp1 Apb1Grp1.tim5)
  | .tim6 => some (apb1Grp1 Apb1Grp1.tim6)
  | .tim7 => some (apb1Grp1 Apb1Grp1.tim7)
  | .tim8 => some (apb2Grp1 Apb2Grp1.tim8)
  | .tim15 => some (apb2Grp1 Apb2Grp1.tim15)
  | .tim16 => some (apb2Grp1 Apb2Grp1.tim16)
  | .tim17 => some (apb2Grp1 Apb2Grp1.tim17)
  | .uart1 => some (apb2Grp1 Apb2Grp1.usart1)
  | .uart2 => some (apb1Grp1 Apb1Grp1.usart2)
  | .uart3 => some (apb1Grp1 Apb1Grp1.usart3)
  | .uart4 => some (apb1Grp1 Apb1Grp1.uart4)
  | .uart5 => some (apb1Grp1 Apb1Grp1.uart5)
  | _ => none

def clkGet (clock : Periph) (rcc : ClockControl Reg) : Bool :=
  match clkGate clock with
  | some gate => isEnabledClock gate rcc
  | none => false

def setBranch (on off : Gate) (state : Bool) (rcc : ClockControl Reg) : Option (ClockControl Reg) :=
  some (if state then switchClock on true rcc else switchClock off false rcc)

/-- The switch of `uni_hal_rcc_clk_set`, nothing for a peripheral that it does not know. -/
def clkSetSwitch : Periph → Bool → ClockControl Reg → Option (ClockControl Reg)
  | .adc1 | .adc2 | .adc3 => setBranch (ahb2Grp1 Ahb2Grp1.adc) (ahb2Grp1 Ahb2Grp1.adc)
  | .can1 => setBranch (apb1Grp1 Apb1Grp1.can1) (apb1Grp1 Apb1Grp1.can1)
  | .can2 => fun state rcc =>
    -- CAN1 must be also enabled to bring CAN2 into the working state
    if state then
      setBranch (apb1Grp1 Apb1Grp1.can2) (apb1Grp1 Apb1Grp1.can2) true
        (switchClock (apb1Grp1 Apb1Grp1.can1) true rcc)
    else setBranch (apb1Grp1 Apb1Grp1.can2) (apb1Grp1 Apb1Grp1.can2) false rcc
  | .crc1 => setBranch (ahb1Grp1 Ahb1Grp1.crc) (ahb1Grp1 Ahb1Grp1.crc)
  | .dac1 => setBranch (apb1Grp1 Apb1Grp1.dac1) (apb1Grp1 Apb1Grp1.dac1)
  | .dma1 => setBranch (ahb1Grp1 Ahb1Grp1.dma1) (ahb1Grp1 Ahb1Grp1.dma1)
  | .dma2 => setBranch (ahb1Grp1 Ahb1Grp1.dma2) (ahb1Grp1 Ahb1Grp1.dma2)
  | .gpioA => setBranch (ahb2Grp1 Ahb2Grp1.gpioA) (ahb2Grp1 Ahb2Grp1.gpioA)
  | .gpioB => setBranch (ahb2Grp1 Ahb2Grp1.gpioB) (ahb2Grp1 Ahb2Grp1.gpioB)
  | .gpioC => setBranch (ahb2Grp1 Ahb2Grp1.gpioC) (ahb2Grp1 Ahb2Grp1.gpioC)
  | .gpioD => setBranch (ahb2Grp1 Ahb2Grp1.gpioD) (ahb2Grp1 Ahb2Grp1.gpioD)
  | .gpioE => setBranch (ahb2Grp1 Ahb2Grp1.gpioE) (ahb2Grp1 Ahb2Grp1.gpioE)
  | .gpioF => setBranch (ahb2Grp1 Ahb2Grp1.gpioF) (ahb2Grp1 Ahb2Grp1.gpioF)
  | .gpioG => setBranch (ahb2Grp1 Ahb2Grp1.gpioG) (ahb2Grp1 Ahb2Grp1.gpioG)
  | .gpioH => setBranch (ahb2Grp1 Ahb2Grp1.gpioH) (ahb2Grp1 Ahb2Grp1.gpioH)
  | .gpioI => setBranch (ahb2Grp1 Ahb2Grp1.gpioI) (ahb2Grp1 Ahb2Grp1.gpioI)
  | .i2c1 => setBranch (apb1Grp1 Apb1Grp1.i2c1) (apb1Grp1 Apb1Grp1.i2c1)
  | .i2c2 => setBranch (apb1Grp1 Apb1Grp1.i2c2) (apb1Grp1 Apb1Grp1.i2c2)
  | .i2c3 => setBranch (apb1Grp1 Apb1Grp1.i2c3) (apb1Grp1 Apb1Grp1.i2c3)
  | .i2c4 => setBranch (apb1Grp2 Apb1Grp2.i2c4) (apb1Grp2 Apb1Grp2.i2c4)
  | .lpuart1 => setBranch (apb1Grp2 Apb1Grp2.lpuart1) (apb1Grp2 Apb1Grp2.lpuart1)
  | .pwr => setBranch (apb1Grp1 Apb1Grp1.pwr) (apb1Grp1 Apb1Grp1.pwr)
  | .rng => setBranch (ahb2Grp1 Ahb2Grp1.rng) (ahb2Grp1 Ahb2Grp1.rng)
  | .rtc => fun state rcc =>
    -- the access to the backup domain is a bit of the power controller
    some (switchRtc (isEnabledClock (apb1Grp1 Apb1Grp1.pwr) rcc) rtcEnable state rcc)
  | .spi1 => setBranch (apb2Grp1 Apb2Grp1.spi1) (apb2Grp1 Apb2Grp1.spi1)
  | .spi2 => setBranch (apb1Grp1 Apb1Grp1.spi2) (apb1Grp1 Apb1Grp1.spi2)
  | .spi3 => setBranch (apb1Grp1 Apb1Grp1.spi3) (apb1Grp1 Apb1Grp1.spi3)
  | .syscfg => setBranch (apb2Grp1 Apb2Grp1.syscfg) (apb2Grp1 Apb2Grp1.syscfg)
  | .tim1 => setBranch (apb2Grp1 Apb2Grp1.tim1) (apb2Grp1 Apb2Grp1.tim1)
  | .tim2 => setBranch (apb1Grp1 Apb1Grp1.tim2) (apb1Grp1 Apb1Grp1.tim2)
  | .tim3 => setBranch (apb1Grp1 Apb1Grp1.tim3) (apb1Grp1 Apb1Grp1.tim3)
  | .tim4 => setBranch (apb1Grp1 Apb1Grp1.tim4) (apb1Grp1 Apb1Grp1.tim4)
  | .tim5 => setBranch (apb1Grp1 Apb1Grp1.tim5) (apb1Grp1 Apb1Grp1.tim5)
  | .tim6 => setBranch (apb1Grp1 Apb1Grp1.tim6) (apb1Grp1 Apb1Grp1.tim6)
  | .tim7 => setBranch (apb1Grp1 Apb1Grp1.tim7) (apb1Grp1 Apb1Grp1.tim7)
  | .tim8 => setBranch (apb2Grp1 Apb2Grp1.tim8) (apb2Grp1 Apb2Grp1.tim8)
  | .tim15 => setBranch (apb2Grp1 Apb2Grp1.tim15) (apb2Grp1 Apb2Grp1.tim15)
  | .tim16 => setBranch (apb2Grp1 Apb2Grp1.tim16) (apb2Grp1 Apb2Grp1.tim16)
  | .tim17 => setBranch (apb2Grp1 Apb2Grp1.tim17) (apb2Grp1 Apb2Grp1.tim17)
  | .uart1 => setBranch (apb2Grp1 Apb2Grp1.usart1) (apb2Grp1 Apb2Grp1.usart1)
  -- the next four disable the bit of the same position in the register of another bus
  | .uart2 => setBranch (apb1Grp1 Apb1Grp1.usart2) (apb2Grp1 Apb1Grp1.usart2)
  | .uart3 => setBranch (apb1Grp1 Apb1Grp1.usart3) (apb2Grp1 Apb1Grp1.usart3)
  | .uart4 => setBranch (apb1Grp1 Apb1Grp1.uart4) (apb2Grp1 Apb1Grp1.uart4)
  | .uart5 => setBranch (apb1Grp1 Apb1Grp1.uart5) (apb2Grp1 Apb1Grp1.uart5)
  | _ => fun _ _ => none

/-- `uni_hal_rcc_clk_set`: nothing is written, and false is returned, when the getter already
tells the requested state. -/
def clkSet (target : Periph) (state : Bool) (rcc : ClockControl Reg) : Bool × ClockControl Reg :=
  if state ≠ clkGet target rcc then
    match clkSetSwitch target state rcc with
    | some rcc' => (true, rcc')
    | none => (false, rcc)
  else (false, rcc)

/-- The peripherals whose clock the driver can switch. -/
def Supported (p : Periph) : Prop := (clkGate p).isSome = true

instance : DecidablePred Supported := fun p =>
  inferInstanceAs (Decidable ((clkGate p).isSome = true))

def wrongBus : Periph → Bool
  | .uart2 | .uart3 | .uart4 | .uart5 => true
  | _ => false

/-- The gate of the RTC can be written: the power controller has a clock, or the access to the
backup domain is open already. -/
def rtcWritable (rcc : ClockControl Reg) : Bool :=
  isEnabledClock (apb1Grp1 Apb1Grp1.pwr) rcc || rcc.backupAccess

def writtenGates (rcc : ClockControl Reg) : Periph → Bool → List Gate
  | .can2, true => [apb1Grp1 Apb1Grp1.can1, apb1Grp1 Apb1Grp1.can2]
  | .uart2, false => [apb2Grp1 Apb1Grp1.usart2]
  | .uart3, false => [apb2Grp1 Apb1Grp1.usart3]
  | .uart4, false => [apb2Grp1 Apb1Grp1.uart4]
  | .uart5, false => [apb2Grp1 Apb1Grp1.uart5]
  | .rtc, _ => if rtcWritable rcc then [rtcEnable] else []
  | p, _ => (clkGate p).toList

/-- The write of a call does not arrive at the gate of its target. -/
def Misses (p : Periph) (state : Bool) (rcc : ClockControl Reg) : Prop :=
  (wrongBus p = true ∧ state = false) ∨ (p = .rtc ∧ rtcWritable rcc = false)

theorem clkGet_of_gate {p : Periph} {gate : Gate} (h : clkGate p = some gate)
    (rcc : ClockControl Reg) : clkGet p rcc = isEnabledClock gate rcc := by
  rw [clkGet, h]

/-- What a branch of the setter does to the gates of every peripheral. -/
theorem clkSetSwitch_gates {p : Periph} {state : Bool} {rcc rcc' : ClockControl Reg}
    (h : clkSetSwitch p state rcc = some rcc') (gate : Gate) :
    isEnabledClock gate rcc' =
      if gate ∈ writtenGates rcc p state then state else isEnabledClock gate rcc := by
  by_cases hrtc : p = .rtc
  · subst hrtc
    obtain rfl := Option.some.inj h
    cases hopen : rtcWritable rcc <;> rw [rtcWritable] at hopen <;>
      simp [writtenGates, rtcWritable, hopen]
  cases p <;> cases state <;>
    simp only [clkSetSwitch, setBranch, Bool.false_eq_true, if_false, if_true, reduceCtorEq,
      Option.some.injEq, not_true_eq_false] at h hrtc <;>
    subst h <;> simp [writtenGates, clkGate]
  by_cases h1 : gate = apb1Grp1 Apb1Grp1.can1 <;>
    by_cases h2 : gate = apb1Grp1 Apb1Grp1.can2 <;> simp [h1, h2]

/-- The setter knows the peripherals that the getter knows. -/
theorem clkSetSwitch_isSome (p : Periph) (state : Bool) (rcc : ClockControl Reg) :
    (clkSetSwitch p state rcc).isSome = (clkGate p).isSome := by
  cases p <;> cases state <;> rfl

/-- A branch writes the gate that the getter reads, unless it misses it. -/
theorem gate_mem_writtenGates {p : Periph} {gate : Gate} (h : clkGate p = some gate)
    (state : Bool) (rcc : ClockControl Reg) :
    gate ∈ writtenGates rcc p state ↔ ¬Misses p state rcc := by
  by_cases hrtc : p = .rtc
  · subst hrtc
    obtain rfl := Option.some.inj h
    cases hopen : rtcWritable rcc <;> simp [writtenGates, Misses, wrongBus, hopen]
  have hmisses : Misses p state rcc ↔ wrongBus p = true ∧ state = false :=
    or_iff_left fun hlost => hrtc hlost.1
  rw [hmisses]
  cases p <;> cases state <;>
    simp only [clkGate, Option.some.injEq, reduceCtorEq, not_true_eq_false] at h hrtc <;>
    subst h <;> simp only [writtenGates] <;> decide

/-- A branch writes its own gate only, except for the first CAN controller and the wrong bus. -/
theorem mem_writtenGates {p : Periph} {state : Bool} {rcc : ClockControl Reg} {gate : Gate}
    (h : gate ∈ writtenGates rcc p state) :
    clkGate p = some gate ∨ (p = .can2 ∧ state = true ∧ clkGate .can1 = some gate) ∨
      (wrongBus p = true ∧ state = false) := by
  by_cases hrtc : p = .rtc
  · subst hrtc
    simp only [writtenGates] at h
    split at h
    · exact Or.inl (by rw [List.mem_singleton.mp h]; rfl)
    · exact absurd h List.not_mem_nil
  cases p <;> cases state <;>
    simp only [writtenGates, clkGate, List.mem_cons, List.not_mem_nil, or_false,
      Option.toList_some, Option.toList_none, not_true_eq_false] at h hrtc <;>
    first | exact h.elim | (rcases h with rfl | rfl <;> decide)

/-- The setter does nothing when the getter tells the requested state already. -/
theorem clkSet_of_eq {p : Periph} {state : Bool} {rcc : ClockControl Reg}
    (h : clkGet p rcc = state) : clkSet p state rcc = (false, rcc) := by
  rw [clkSet, if_neg (by simpa using h.symm)]

/-- The setter succeeds exactly when a supported peripheral has to change its state. -/
theorem clkSet_fst (p : Periph) (state : Bool) (rcc : ClockControl Reg) :
    (clkSet p state rcc).1 = true ↔ clkGet p rcc ≠ state ∧ Supported p := by
  rw [clkSet]
  have hsome := clkSetSwitch_isSome p state rcc
  by_cases hget : state = clkGet p rcc
  · simp [hget]
  · rw [if_pos hget]
    cases hsw : clkSetSwitch p state rcc <;>
      simp only [hsw, Option.isSome_none, Option.isSome_some] at hsome <;>
      simp [Supported, ← hsome, Ne.symm hget]

/-- The gates after a call that had to change the state of a supported peripheral. -/
theorem clkSet_gates {p : Periph} {state : Bool} {rcc : ClockControl Reg} (hp : Supported p)
    (hget : clkGet p rcc ≠ state) (gate : Gate) :
    isEnabledClock gate (clkSet p state rcc).2 =
      if gate ∈ writtenGates rcc p state then state else isEnabledClock gate rcc := by
  have hsome : (clkSetSwitch p state rcc).isSome = true := by
    rw [clkSetSwitch_isSome]
    exact hp
  obtain ⟨rcc', hsw⟩ := Option.isSome_iff_exists.mp hsome
  rw [clkSet, if_pos (Ne.symm hget), hsw]
  exact clkSetSwitch_gates hsw gate

/-- The getter tells the value set, unless the gate had to change and the write missed it. -/
theorem clkGet_clkSet {p : Periph} (state : Bool) (rcc : ClockControl Reg) (hp : Supported p) :
    clkGet p (clkSet p state rcc).2 = state ↔ clkGet p rcc = state ∨ ¬Misses p state rcc := by
  obtain ⟨gate, hgate⟩ := Option.isSome_iff_exists.mp hp
  by_cases hget : clkGet p rcc = state
  · rw [clkSet_of_eq hget]
    simp only [hget, true_or]
  · rw [clkGet_of_gate hgate, clkSet_gates hp hget, ← clkGet_of_gate hgate,
      ← gate_mem_writtenGates hgate]
    split_ifs with hwritten
    · exact iff_of_true rfl (Or.inr hwritten)
    · exact iff_of_false hget (not_or.mpr ⟨hget, hwritten⟩)

end UniHal.Rcc.Stm32l4
