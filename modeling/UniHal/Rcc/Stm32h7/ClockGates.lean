import UniHal.Rcc.Periph
import UniHal.Foundations.Execution

/-! # Clock gates of the STM32H7

`uni_hal_rcc_clk_get` and `uni_hal_rcc_clk_set` of `uni_hal_rcc_stm32h7.c` over the enable
registers of the STM32H743. The setter writes only what the getter does not tell already, so
the two switches have to know the same peripherals.
-/

namespace UniHal.Rcc.Stm32h7
open Foundations Execution ClockControl

/-- The enable registers, and the backup domain register that enables the RTC. -/
inductive Reg
  | ahb1enr | ahb2enr | ahb4enr | apb1lenr | apb1henr | apb2enr | apb4enr | bdcr
  deriving DecidableEq, Repr

abbrev Gate := Flag Reg 32

def ahb1Grp1 (periph : Fin 32) : Gate := ⟨.ahb1enr, periph⟩
def ahb2Grp1 (periph : Fin 32) : Gate := ⟨.ahb2enr, periph⟩
def ahb4Grp1 (periph : Fin 32) : Gate := ⟨.ahb4enr, periph⟩
def apb1Grp1 (periph : Fin 32) : Gate := ⟨.apb1lenr, periph⟩
def apb1Grp2 (periph : Fin 32) : Gate := ⟨.apb1henr, periph⟩
def apb2Grp1 (periph : Fin 32) : Gate := ⟨.apb2enr, periph⟩
def apb4Grp1 (periph : Fin 32) : Gate := ⟨.apb4enr, periph⟩
def rtcEnable : Gate := ⟨.bdcr, 15⟩

namespace Ahb1Grp1
def dma1 : Fin 32 := 0
def dma2 : Fin 32 := 1
def adc12 : Fin 32 := 5
def eth1Mac : Fin 32 := 15
def eth1Tx : Fin 32 := 16
def eth1Rx : Fin 32 := 17
end Ahb1Grp1

namespace Ahb2Grp1
def rng : Fin 32 := 6
end Ahb2Grp1

namespace Ahb4Grp1
def gpioA : Fin 32 := 0
def gpioB : Fin 32 := 1
def gpioC : Fin 32 := 2
def gpioD : Fin 32 := 3
def gpioE : Fin 32 := 4
def gpioF : Fin 32 := 5
def gpioG : Fin 32 := 6
def gpioH : Fin 32 := 7
def gpioI : Fin 32 := 8
def crc : Fin 32 := 19
def adc3 : Fin 32 := 24
end Ahb4Grp1

namespace Apb1Grp1
def tim2 : Fin 32 := 0
def tim3 : Fin 32 := 1
def tim4 : Fin 32 := 2
def tim5 : Fin 32 := 3
def tim6 : Fin 32 := 4
def tim7 : Fin 32 := 5
def spi2 : Fin 32 := 14
def spi3 : Fin 32 := 15
def usart2 : Fin 32 := 17
def usart3 : Fin 32 := 18
def uart4 : Fin 32 := 19
def uart5 : Fin 32 := 20
def i2c1 : Fin 32 := 21
def i2c2 : Fin 32 := 22
def i2c3 : Fin 32 := 23
def dac12 : Fin 32 := 29
def uart7 : Fin 32 := 30
def uart8 : Fin 32 := 31
end Apb1Grp1

namespace Apb1Grp2
def fdcan : Fin 32 := 8
end Apb1Grp2

namespace Apb2Grp1
def tim1 : Fin 32 := 0
def tim8 : Fin 32 := 1
def usart1 : Fin 32 := 4
def usart6 : Fin 32 := 5
def spi1 : Fin 32 := 12
def spi4 : Fin 32 := 13
def tim15 : Fin 32 := 16
def tim16 : Fin 32 := 17
def tim17 : Fin 32 := 18
def spi5 : Fin 32 := 20
end Apb2Grp1

namespace Apb4Grp1
def syscfg : Fin 32 := 1
def spi6 : Fin 32 := 5
def i2c4 : Fin 32 := 7
end Apb4Grp1

/-- The gate that the switch of `uni_hal_rcc_clk_get` reads. -/
def clkGate : Periph → Option Gate
  | .adc1 | .adc2 => some (ahb1Grp1 Ahb1Grp1.adc12)
  | .adc3 => some (ahb4Grp1 Ahb4Grp1.adc3)
  | .can1 | .can2 => some (apb1Grp2 Apb1Grp2.fdcan)
  | .crc1 => some (ahb4Grp1 Ahb4Grp1.crc)
  | .dac1 | .dac2 => some (apb1Grp1 Apb1Grp1.dac12)
  | .dma1 => some (ahb1Grp1 Ahb1Grp1.dma1)
  | .dma2 => some (ahb1Grp1 Ahb1Grp1.dma2)
  | .gpioA => some (ahb4Grp1 Ahb4Grp1.gpioA)
  | .gpioB => some (ahb4Grp1 Ahb4Grp1.gpioB)
  | .gpioC => some (ahb4Grp1 Ahb4Grp1.gpioC)
  | .gpioD => some (ahb4Grp1 Ahb4Grp1.gpioD)
  | .gpioE => some (ahb4Grp1 Ahb4Grp1.gpioE)
  | .gpioF => some (ahb4Grp1 Ahb4Grp1.gpioF)
  | .gpioG => some (ahb4Grp1 Ahb4Grp1.gpioG)
  | .gpioH => some (ahb4Grp1 Ahb4Grp1.gpioH)
  | .gpioI => some (ahb4Grp1 Ahb4Grp1.gpioI)
  | .i2c1 => some (apb1Grp1 Apb1Grp1.i2c1)
  | .i2c2 => some (apb1Grp1 Apb1Grp1.i2c2)
  | .i2c3 => some (apb1Grp1 Apb1Grp1.i2c3)
  | .i2c4 => some (apb4Grp1 Apb4Grp1.i2c4)
  | .rng => some (ahb2Grp1 Ahb2Grp1.rng)
  | .rtc => some rtcEnable
  | .spi1 => some (apb2Grp1 Apb2Grp1.spi1)
  | .spi2 => some (apb1Grp1 Apb1Grp1.spi2)
  | .spi3 => some (apb1Grp1 Apb1Grp1.spi3)
  | .spi4 => some (apb2Grp1 Apb2Grp1.spi4)
  | .spi5 => some (apb2Grp1 Apb2Grp1.spi5)
  | .spi6 => some (apb4Grp1 Apb4Grp1.spi6)
  | .syscfg => some (apb4Grp1 Apb4Grp1.syscfg)
  | .tim1 => some (apb2Grp1 Apb2Grp1.tim1)
  | .tim2 => some (apb1Grp1 Apb1Grp1.tim2)
  | .tim3 => some (apb1Grp1 Apb1Grp1.tim3)
  | .tim4 => some (apb1Grp1 Apb1Grp1.tim4)
  | .tim5 => some (apb1Grp1 Apb1Grp1.tim5)
  | .tim6 => some (apb1Grp1 Apb1Grp1.tim6)
  | .tim7 => some (apb1Grp1 Apb1Grp1.tim7)
  | .tim8 => some (apb2Grp1 Apb2Grp1.tim8)
  | .tim15 => some (apb2Grp1 Apb2Grp1.tim15)
  | .tim16 => some (apb2Grp1 Apb2Grp1.tim16)
  | .tim17 => some (apb2Grp1 Apb2Grp1.tim17)
  | .uart1 => some (apb2Grp1 Apb2Grp1.usart1)
  | .uart2 => some (apb1Grp1 Apb1Grp1.usart2)
  | .uart3 => some (apb1Grp1 Apb1Grp1.usart3)
  | .uart4 => some (apb1Grp1 Apb1Grp1.uart4)
  | .uart5 => some (apb1Grp1 Apb1Grp1.uart5)
  | _ => none

/-- `uni_hal_rcc_clk_get`: the power controller has no gate and counts as enabled. -/
def clkGet (clock : Periph) (rcc : ClockControl Reg) : Bool :=
  if clock = .pwr then true
  else match clkGate clock with
    | some gate => isEnabledClock gate rcc
    | none => false

def setBranch (gate : Gate) (state : Bool) (rcc : ClockControl Reg) : Option (ClockControl Reg) :=
  some (switchClock gate state rcc)

/-- The switch of `uni_hal_rcc_clk_set`, nothing for a peripheral that it does not know. -/
def clkSetSwitch : Periph → Bool → ClockControl Reg → Option (ClockControl Reg)
  | .adc1 | .adc2 => setBranch (ahb1Grp1 Ahb1Grp1.adc12)
  | .adc3 => setBranch (ahb4Grp1 Ahb4Grp1.adc3)
  | .can1 | .can2 => setBranch (apb1Grp2 Apb1Grp2.fdcan)
  | .crc1 => setBranch (ahb4Grp1 Ahb4Grp1.crc)
  | .dac1 | .dac2 => setBranch (apb1Grp1 Apb1Grp1.dac12)
  | .dma1 => setBranch (ahb1Grp1 Ahb1Grp1.dma1)
  | .dma2 => setBranch (ahb1Grp1 Ahb1Grp1.dma2)
  | .eth1 => fun state rcc =>
    setBranch (ahb1Grp1 Ahb1Grp1.eth1Tx) state
      (switchClock (ahb1Grp1 Ahb1Grp1.eth1Rx) state
        (switchClock (ahb1Grp1 Ahb1Grp1.eth1Mac) state rcc))
  | .gpioA => setBranch (ahb4Grp1 Ahb4Grp1.gpioA)
  | .gpioB => setBranch (ahb4Grp1 Ahb4Grp1.gpioB)
  | .gpioC => setBranch (ahb4Grp1 Ahb4Grp1.gpioC)
  | .gpioD => setBranch (ahb4Grp1 Ahb4Grp1.gpioD)
  | .gpioE => setBranch (ahb4Grp1 Ahb4Grp1.gpioE)
  | .gpioF => setBranch (ahb4Grp1 Ahb4Grp1.gpioF)
  | .gpioG => setBranch (ahb4Grp1 Ahb4Grp1.gpioG)
  | .gpioH => setBranch (ahb4Grp1 Ahb4Grp1.gpioH)
  | .gpioI => setBranch (ahb4Grp1 Ahb4Grp1.gpioI)
  | .i2c1 => setBranch (apb1Grp1 Apb1Grp1.i2c1)
  | .i2c2 => setBranch (apb1Grp1 Apb1Grp1.i2c2)
  | .i2c3 => setBranch (apb1Grp1 Apb1Grp1.i2c3)
  | .i2c4 => setBranch (apb4Grp1 Apb4Grp1.i2c4)
  | .rng => setBranch (ahb2Grp1 Ahb2Grp1.rng)
  -- the power controller of this family has no gate
  | .rtc => fun state rcc => some (switchRtc true rtcEnable state rcc)
  | .spi1 => setBranch (apb2Grp1 Apb2Grp1.spi1)
  | .spi2 => setBranch (apb1Grp1 Apb1Grp1.spi2)
  | .spi3 => setBranch (apb1Grp1 Apb1Grp1.spi3)
  | .spi4 => setBranch (apb2Grp1 Apb2Grp1.spi4)
  | .spi5 => setBranch (apb2Grp1 Apb2Grp1.spi5)
  | .spi6 => setBranch (apb4Grp1 Apb4Grp1.spi6)
  | .syscfg => setBranch (apb4Grp1 Apb4Grp1.syscfg)
  | .pwr => fun _ rcc => some rcc
  | .tim1 => setBranch (apb2Grp1 Apb2Grp1.tim1)
  | .tim2 => setBranch (apb1Grp1 Apb1Grp1.tim2)
  | .tim3 => setBranch (apb1Grp1 Apb1Grp1.tim3)
  | .tim4 => setBranch (apb1Grp1 Apb1Grp1.tim4)
  | .tim5 => setBranch (apb1Grp1 Apb1Grp1.tim5)
  | .tim6 => setBranch (apb1Grp1 Apb1Grp1.tim6)
  | .tim7 => setBranch (apb1Grp1 Apb1Grp1.tim7)
  | .tim8 => setBranch (apb2Grp1 Apb2Grp1.tim8)
  | .tim15 => setBranch (apb2Grp1 Apb2Grp1.tim15)
  | .tim16 => setBranch (apb2Grp1 Apb2Grp1.tim16)
  | .tim17 => setBranch (apb2Grp1 Apb2Grp1.tim17)
  | .uart1 => setBranch (apb2Grp1 Apb2Grp1.usart1)
  | .uart2 => setBranch (apb1Grp1 Apb1Grp1.usart2)
  | .uart3 => setBranch (apb1Grp1 Apb1Grp1.usart3)
  | .uart4 => setBranch (apb1Grp1 Apb1Grp1.uart4)
  | .uart5 => setBranch (apb1Grp1 Apb1Grp1.uart5)
  | .uart6 => setBranch (apb2Grp1 Apb2Grp1.usart6)
  | .uart7 => setBranch (apb1Grp1 Apb1Grp1.uart7)
  | .uart8 => setBranch (apb1Grp1 Apb1Grp1.uart8)
  | _ => fun _ _ => none

/-- `uni_hal_rcc_clk_set`: nothing is written, and true is returned, when the getter already
tells the requested state. -/
def clkSet (target : Periph) (state : Bool) (rcc : ClockControl Reg) : Bool × ClockControl Reg :=
  if state ≠ clkGet target rcc then
    match clkSetSwitch target state rcc with
    | some rcc' => (true, rcc')
    | none => (false, rcc)
  else (true, rcc)

def callStep (rcc : ClockControl Reg) (c : Call) : Option (ClockControl Reg) :=
  some (clkSet c.target c.state rcc).2

def enableBits : Periph → List Gate
  | .eth1 =>
    [ahb1Grp1 Ahb1Grp1.eth1Mac, ahb1Grp1 Ahb1Grp1.eth1Rx, ahb1Grp1 Ahb1Grp1.eth1Tx]
  | .uart6 => [apb2Grp1 Apb2Grp1.usart6]
  | .uart7 => [apb1Grp1 Apb1Grp1.uart7]
  | .uart8 => [apb1Grp1 Apb1Grp1.uart8]
  | p => (clkGate p).toList

def Settable : Periph → Bool
  | .eth1 | .uart6 | .uart7 | .uart8 | .pwr => true
  | p => (clkGate p).isSome

def unreadable : Periph → Bool
  | .eth1 | .uart6 | .uart7 | .uart8 => true
  | _ => false

/-- What a branch of the setter does to the gates of every peripheral. -/
theorem clkSetSwitch_gates {p : Periph} {state : Bool} {rcc rcc' : ClockControl Reg}
    (h : clkSetSwitch p state rcc = some rcc') (gate : Gate) :
    isEnabledClock gate rcc' =
      if gate ∈ enableBits p then state else isEnabledClock gate rcc := by
  cases p <;> simp only [clkSetSwitch, setBranch, reduceCtorEq, Option.some.injEq] at h <;>
    subst h <;> simp [enableBits, clkGate]
  by_cases hmac : gate = ahb1Grp1 Ahb1Grp1.eth1Mac <;>
    by_cases hrx : gate = ahb1Grp1 Ahb1Grp1.eth1Rx <;>
    by_cases htx : gate = ahb1Grp1 Ahb1Grp1.eth1Tx <;> simp [hmac, hrx, htx]

theorem clkSetSwitch_isSome (p : Periph) (state : Bool) (rcc : ClockControl Reg) :
    (clkSetSwitch p state rcc).isSome = Settable p := by
  cases p <;> rfl

theorem clkSet_gates {p : Periph} (hp : Settable p = true) (state : Bool) (rcc : ClockControl Reg)
    (gate : Gate) :
    isEnabledClock gate (clkSet p state rcc).2 =
      if clkGet p rcc ≠ state ∧ gate ∈ enableBits p then state else isEnabledClock gate rcc := by
  obtain ⟨rcc', hsw⟩ := Option.isSome_iff_exists.mp ((clkSetSwitch_isSome p state rcc).trans hp)
  rw [clkSet, hsw]
  by_cases hget : state = clkGet p rcc
  · simp [hget]
  · rw [if_pos hget, clkSetSwitch_gates hsw]
    simp [Ne.symm hget]

theorem clkSet_fst {p : Periph} (hp : Settable p = true) (state : Bool) (rcc : ClockControl Reg) :
    (clkSet p state rcc).1 = true := by
  obtain ⟨rcc', hsw⟩ := Option.isSome_iff_exists.mp ((clkSetSwitch_isSome p state rcc).trans hp)
  rw [clkSet, hsw]
  split <;> rfl

/-- A call for a peripheral that the setter does not know writes nothing. -/
theorem clkSet_snd_of_not_settable {p : Periph} (hp : Settable p = false) (state : Bool)
    (rcc : ClockControl Reg) : (clkSet p state rcc).2 = rcc := by
  have hnone := (clkSetSwitch_isSome p state rcc).trans hp
  rw [Option.isSome_eq_false_iff, Option.isNone_iff_eq_none] at hnone
  rw [clkSet, hnone]
  split <;> rfl

/-- A call leaves the bits of all other peripherals alone. -/
theorem clkSet_frame (p : Periph) (state : Bool) (rcc : ClockControl Reg) {gate : Gate}
    (h : gate ∉ enableBits p) :
    isEnabledClock gate (clkSet p state rcc).2 = isEnabledClock gate rcc := by
  cases hp : Settable p with
  | true => rw [clkSet_gates hp, if_neg fun hmem => h hmem.2]
  | false => rw [clkSet_snd_of_not_settable hp]

/-- The getter reads the enable bits of its peripheral only. -/
theorem clkGet_congr {p : Periph} {rcc rcc' : ClockControl Reg}
    (h : ∀ gate ∈ enableBits p, isEnabledClock gate rcc = isEnabledClock gate rcc') :
    clkGet p rcc = clkGet p rcc' := by
  cases p <;> first
    | rfl
    | exact h _ List.mem_cons_self

/-- A readable peripheral has one enable bit, the one that the getter reads. -/
theorem enableBits_of_readable {p : Periph} (hp : Settable p = true) (hread : unreadable p = false)
    (hpwr : p ≠ .pwr) :
    ∃ gate, enableBits p = [gate] ∧ ∀ rcc, clkGet p rcc = isEnabledClock gate rcc := by
  cases p <;> first
    | cases hp; done
    | cases hread; done
    | exact absurd rfl hpwr
    | exact ⟨_, rfl, fun _ => rfl⟩

theorem clkGet_of_unreadable {p : Periph} (h : unreadable p = true) (rcc : ClockControl Reg) :
    clkGet p rcc = false := by
  cases p <;> first
    | cases h; done
    | rfl

end UniHal.Rcc.Stm32h7
