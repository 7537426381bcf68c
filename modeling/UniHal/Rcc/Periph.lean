import UniHal.Foundations.RegisterBank

/-! # Peripherals and the registers that gate their clocks

The names of `uni_hal_core_periph_e`, and the part of the clock controller that both
families share: enable registers, and a backup domain whose register can only be written
while the access to it is open.
-/

namespace UniHal.Rcc
open Foundations

/-- The bits of a register are numbered. -/
instance neZero_bits : NeZero 32 := ⟨by decide⟩

/-- The device families that the drivers are written for. -/
inductive Family
  | stm32h7 | stm32l4
  deriving DecidableEq, Repr

/-- `uni_hal_core_periph_e` -/
inductive Periph
  | unknown | empty
  | adc1 | adc2 | adc3
  | can1 | can2
  | crc1
  | dac1 | dac2
  | dma1 | dma2
  | eth1
  | gpioA | gpioB | gpioC | gpioD | gpioE | gpioF | gpioG | gpioH | gpioI | gpioJ | gpioK
  | i2c1 | i2c2 | i2c3 | i2c4
  | iwdg1 | iwdg2
  | lpuart1
  | pwr | rng | rtc
  | spi1 | spi2 | spi3 | spi4 | spi5 | spi6
  | syscfg | sysclk
  | tim1 | tim2 | tim3 | tim4 | tim5 | tim6 | tim7 | tim8 | tim9 | tim10 | tim11 | tim12
  | tim13 | tim14 | tim15 | tim16 | tim17
  | uart1 | uart2 | uart3 | uart4 | uart5 | uart6 | uart7 | uart8
  deriving DecidableEq, Repr

/-- One call of `uni_hal_rcc_clk_set`. -/
structure Call where
  target : Periph
  state : Bool

/-- The clock controller with its enable registers, and the access to the backup domain. -/
structure ClockControl (ρ : Type*) where
  enr : Bank ρ 32
  backupAccess : Bool

namespace ClockControl

variable {ρ : Type*} [DecidableEq ρ]

def isEnabledClock (f : Flag ρ 32) (rcc : ClockControl ρ) : Bool := f.isSet rcc.enr

/-- `state ? LL_xxx_EnableClock(mask) : LL_xxx_DisableClock(mask)` -/
def switchClock (f : Flag ρ 32) (state : Bool) (rcc : ClockControl ρ) : ClockControl ρ :=
  { rcc with enr := f.assign state rcc.enr }

/-- `uni_hal_pwr_stm_set_backup_access`: without a clock the power controller ignores the write. -/
def setBackupAccess (powered value : Bool) (rcc : ClockControl ρ) : ClockControl ρ :=
  if powered then { rcc with backupAccess := value } else rcc

def switchBackup (f : Flag ρ 32) (state : Bool) (rcc : ClockControl ρ) : ClockControl ρ :=
  if rcc.backupAccess then switchClock f state rcc else rcc

def switchRtc (powered : Bool) (f : Flag ρ 32) (state : Bool) (rcc : ClockControl ρ) :
    ClockControl ρ :=
  (switchBackup f state (rcc.setBackupAccess powered true)).setBackupAccess powered false

@[simp] theorem isEnabledClock_switchClock (f g : Flag ρ 32) (state : Bool) (rcc : ClockControl ρ) :
    isEnabledClock g (switchClock f state rcc) =
      if g = f then state else isEnabledClock g rcc :=
  Flag.isSet_assign f g state rcc.enr

omit [DecidableEq ρ] in
@[simp] theorem isEnabledClock_setBackupAccess (g : Flag ρ 32) (powered value : Bool)
    (rcc : ClockControl ρ) :
    isEnabledClock g (rcc.setBackupAccess powered value) = isEnabledClock g rcc := by
  rw [setBackupAccess]
  split <;> rfl

/-- The write arrives if the power controller has a clock or the access is open already. -/
@[simp] theorem isEnabledClock_switchRtc (powered : Bool) (f g : Flag ρ 32) (state : Bool)
    (rcc : ClockControl ρ) :
    isEnabledClock g (switchRtc powered f state rcc) =
      if (powered || rcc.backupAccess) = true ∧ g = f then state else isEnabledClock g rcc := by
  rw [switchRtc, isEnabledClock_setBackupAccess, switchBackup]
  cases powered <;> cases hopen : rcc.backupAccess <;>
    simp [setBackupAccess, hopen, isEnabledClock, switchClock, Flag.isSet_assign]

end ClockControl

end UniHal.Rcc
