import UniHal.Rcc.Stm32l4.GateStore

/-! # Drivers of the STM32L4 that open their clock gate

The initialisation functions of the drivers, as far as the clock gates decide their result.
Every other step is an argument that tells how the step ended, so that a function can be asked
what it returns when all its hardware steps succeed.
-/

namespace UniHal.Rcc.Stm32l4
open ClockControl

abbrev Outcome := Bool × ClockControl Reg

/-- `result = result && f()` -/
def Outcome.andThen (r : Outcome) (f : ClockControl Reg → Outcome) : Outcome :=
  if r.1 then f r.2 else r

/-- `result = f() && result` -/
def Outcome.andAlso (r : Outcome) (f : ClockControl Reg → Outcome) : Outcome :=
  ((f r.2).1 && r.1, (f r.2).2)

def Outcome.andHw (r : Outcome) (ok : Bool) : Outcome := (r.1 && ok, r.2)

@[simp] theorem Outcome.andHw_fst (r : Outcome) (ok : Bool) : (r.andHw ok).1 = (r.1 && ok) := rfl
@[simp] theorem Outcome.andHw_snd (r : Outcome) (ok : Bool) : (r.andHw ok).2 = r.2 := rfl

theorem Outcome.andThen_fst (r : Outcome) (f : ClockControl Reg → Outcome) :
    (r.andThen f).1 = true ↔ r.1 = true ∧ (f r.2).1 = true := by
  rw [andThen]
  split <;> simp_all

theorem Outcome.andAlso_fst (r : Outcome) (f : ClockControl Reg → Outcome) :
    (r.andAlso f).1 = true ↔ r.1 = true ∧ (f r.2).1 = true := by
  rw [andAlso, Bool.and_eq_true, and_comm]

/-- `uni_hal_gpio_pin_context_t` -/
structure Pin where
  bank : Periph
  inited : Bool

/-- The banks that `_uni_hal_gpio_bank` knows. -/
def isGpioBank : Periph → Bool
  | .gpioA | .gpioB | .gpioC | .gpioD | .gpioE | .gpioF | .gpioG | .gpioH | .gpioI => true
  | _ => false

/-- `uni_hal_gpio_pin_init`: the only caller that asks for the gate before it opens it. -/
def gpioPinInit (pin : Pin) (llInit : Bool) (rcc : ClockControl Reg) : Outcome :=
  if pin.inited then (true, rcc)
  else if pin.bank ≠ .empty then
    if isGpioBank pin.bank then
      if clkGet pin.bank rcc then (llInit, rcc)
      else
        let r : Outcome := clkSet pin.bank true rcc
        r.andHw llInit
    else (false, rcc)
  else (true, rcc)

def Pin.deinit (pin : Pin) : Pin := { pin with inited := false }

/-- A pin that can be configured: an unconnected one, or one of a bank of this device. -/
def Pin.Usable (pin : Pin) : Prop := pin.bank = .empty ∨ isGpioBank pin.bank = true

/-- What `uni_hal_can_init` reads of its context. -/
structure CanCtx where
  inst : Periph
  pinRx : Pin
  pinTx : Pin
  fd : Bool
  bitrate : UInt32

/-- The outcomes of the steps of `uni_hal_can_init` outside the clock controller. -/
structure CanHw where
  queue : Bool
  pinRx : Bool
  pinTx : Bool
  timing : Bool
  modeInit : Bool
  leaveSleep : Bool
  irq : Bool

def canSetContext : Periph → Bool
  | .can1 | .can2 => true
  | _ => false

/-- The gates that `uni_hal_can_init` opens. -/
def canGates (ctx : CanCtx) (hw : CanHw) (rcc : ClockControl Reg) : Outcome :=
  let r : Outcome := (canSetContext ctx.inst && hw.queue, rcc)
  let r := r.andThen (clkSet ctx.inst true)
  -- CAN2 is the slave of CAN1: its acceptance filters live in the CAN1 registers
  if ctx.inst = .can2 then r.andThen (clkSet .can1 true) else r

def canInit (ctx : CanCtx) (hw : CanHw) (rcc : ClockControl Reg) : Outcome :=
  let r := (canGates ctx hw rcc).andThen (gpioPinInit ctx.pinRx hw.pinRx)
  let r := r.andThen (gpioPinInit ctx.pinTx hw.pinTx)
  let r := r.andHw (!ctx.fd)
  let r := r.andHw (if ctx.bitrate ≠ 0 then hw.timing else true)
  ((r.andHw hw.modeInit).andHw hw.leaveSleep).andHw hw.irq

/-- `uni_hal_i2c_context_t`, as far as the initialisation reads it. -/
structure I2cCtx where
  inst : Periph
  pinSck : Pin
  pinSda : Pin
  initialized : Bool

/-- The outcomes of the steps of `uni_hal_i2c_init` outside the clock controller. -/
structure I2cHw where
  pinSck : Bool
  pinSda : Bool
  timing : Bool
  halInit : Bool
  analogFilter : Bool
  digitalFilter : Bool
  irq : Bool

/-- `_uni_hal_i2c_get_handle` -/
def isI2c : Periph → Bool
  | .i2c1 | .i2c2 | .i2c3 | .i2c4 => true
  | _ => false

/-- `uni_hal_i2c_init`; a pin that is configured already is left alone. -/
def i2cInit (ctx : I2cCtx) (hw : I2cHw) (rcc : ClockControl Reg) : Outcome :=
  if ctx.initialized = false ∧ isI2c ctx.inst then
    let r : Outcome := clkSet ctx.inst true rcc
    let r := if ctx.pinSck.inited then r else r.andAlso (gpioPinInit ctx.pinSck hw.pinSck)
    let r := if ctx.pinSda.inited then r else r.andAlso (gpioPinInit ctx.pinSda hw.pinSda)
    ((((r.andHw hw.timing).andHw hw.halInit).andHw hw.analogFilter).andHw hw.digitalFilter).andHw
      hw.irq
  else (false, rcc)

/-- `uni_hal_i2c_deinit`: the clock of the peripheral stays on. -/
def i2cDeinit (ctx : I2cCtx) : I2cCtx := { ctx with initialized := false }

def i2cReset (ctx : I2cCtx) (hw : I2cHw) (rcc : ClockControl Reg) : Outcome :=
  i2cInit (i2cDeinit ctx) hw rcc

/-- The outcomes of the steps of `uni_hal_i2c_recover`: the pins as open-drain outputs, whether
both lines are high after the clock pulses, and the initialisation at the end. -/
structure RecoverHw where
  outScl : Bool
  outSda : Bool
  busFree : Bool
  init : I2cHw

def i2cRecover (ctx : I2cCtx) (hw : RecoverHw) (rcc : ClockControl Reg) : Outcome :=
  let ctx := i2cDeinit ctx
  let scl : Outcome := gpioPinInit ctx.pinSck.deinit hw.outScl rcc
  let both := scl.andAlso (gpioPinInit ctx.pinSda.deinit hw.outSda)
  let result := both.1 && hw.busFree
  let ctx := { ctx with pinSck := ctx.pinSck.deinit, pinSda := ctx.pinSda.deinit }
  (i2cInit ctx hw.init both.2).andHw result

def usartInit (inst : Periph) (pinRx pinTx : Pin) (gpioRx gpioTx nvic llInit enabled : Bool)
    (rcc : ClockControl Reg) : Outcome :=
  let r : Outcome := clkSet inst true rcc
  let r := r.andAlso (gpioPinInit pinRx gpioRx)
  let r := r.andAlso (gpioPinInit pinTx gpioTx)
  ((r.andHw nvic).andHw llInit).andHw enabled

def spiInit (inited : Bool) (inst : Periph) (pinSck pinMiso pinMosi : Pin)
    (gpioSck gpioMiso gpioMosi llInit : Bool) (rcc : ClockControl Reg) : Outcome :=
  if inited then (false, rcc)
  else
    let r : Outcome := clkSet inst true rcc
    let r := r.andAlso (gpioPinInit pinSck gpioSck)
    let r := r.andAlso (gpioPinInit pinMiso gpioMiso)
    let r := r.andAlso (gpioPinInit pinMosi gpioMosi)
    r.andHw llInit

/-- The pins of `uni_hal_adc_init`, those that are configured already left alone. -/
def adcPins (pins : List Pin) (gpio : Bool) (r : Outcome) : Outcome :=
  pins.foldl (fun r pin => if pin.inited then r else r.andAlso (gpioPinInit pin gpio)) r

/-- `uni_hal_adc_init` without DMA -/
def adcInit (inst : Periph) (pins : List Pin) (gpio clksrc common configure powerup enable : Bool)
    (rcc : ClockControl Reg) : Outcome :=
  let r := adcPins pins gpio (true, rcc)
  let r := (r.andHw clksrc).andAlso (clkSet inst true)
  (((r.andHw common).andHw configure).andHw powerup).andHw enable

def crcInit (inst : Periph) (rcc : ClockControl Reg) : Outcome := clkSet inst true rcc

/-- `uni_hal_dma_init`: a channel that is already set up is not an error. -/
def dmaInit (initialized : Bool) (inst : Periph) (rcc : ClockControl Reg) : Outcome :=
  if initialized then (true, rcc) else clkSet inst true rcc

/-- `uni_hal_tim_init`; a configuration that is out of range is refused before any step. -/
def timInit (valid : Bool) (inst : Periph) (llInit channels : Bool) (rcc : ClockControl Reg) :
    Outcome :=
  if valid then
    let r : Outcome := clkSet inst true rcc
    (r.andHw llInit).andHw channels
  else (false, rcc)

def rngInit (clockSource firstRead : Bool) (rcc : ClockControl Reg) : Outcome :=
  let r : Outcome := (clockSource, rcc)
  (r.andThen (clkSet .rng true)).andHw firstRead

def pwrInit (rcc : ClockControl Reg) : Outcome :=
  let r : Outcome := clkSet .syscfg true rcc
  r.andAlso (clkSet .pwr true)

theorem supported_of_isGpioBank {p : Periph} (h : isGpioBank p = true) : Supported p := by
  cases p <;> first | rfl | cases h

theorem isGpioBank_of_clkGate_eq {p bank : Periph} (hbank : isGpioBank bank = true)
    (h : clkGate p = clkGate bank) : isGpioBank p = true := by
  cases bank <;> first
    | cases hbank; done
    | (cases p <;> first | rfl | cases h)

/-- Opening the gate of a peripheral that can be switched succeeds exactly when it is closed. -/
theorem clkSet_open {p : Periph} (hp : Supported p) (rcc : ClockControl Reg) :
    (clkSet p true rcc).1 = true ↔ clkGet p rcc = false := by
  rw [clkSet_fst, Bool.eq_false_iff]
  exact and_iff_left hp

/-- Opening the gate of a bank leaves the gates of all other kinds of peripherals alone. -/
theorem clkGet_of_openBank {p bank : Periph} (hbank : isGpioBank bank = true)
    (hp : isGpioBank p = false) (rcc : ClockControl Reg) :
    clkGet p (clkSet bank true rcc).2 = clkGet p rcc := by
  cases hgate : clkGate p with
  | none => simp only [clkGet, hgate]
  | some gate =>
    rw [clkGet_of_gate hgate, clkGet_of_gate hgate]
    have hown : ¬OwnGate ⟨bank, true⟩ gate := by
      rintro (h | ⟨h, -⟩)
      · rw [isGpioBank_of_clkGate_eq hbank (hgate.trans h.symm)] at hp
        cases hp
      · rw [show bank = .can2 from h] at hbank
        cases hbank
    refine frame_of_not_missesGate (c := ⟨bank, true⟩) (supported_of_isGpioBank hbank) ?_ hown
    rintro ⟨-, ⟨-, h⟩ | ⟨h, -⟩⟩
    · cases h
    · rw [show bank = .rtc from h] at hbank
      cases hbank

/-- A usable pin is configured unless the GPIO driver itself fails. -/
theorem gpioPinInit_fst {pin : Pin} (h : pin.Usable) (rcc : ClockControl Reg) :
    (gpioPinInit pin true rcc).1 = true := by
  rw [gpioPinInit]
  rcases h with hempty | hbank
  · simp [hempty]
  · by_cases hget : clkGet pin.bank rcc = true
    · simp [hget, hbank]
    · have hopen : (clkSet pin.bank true rcc).1 = true :=
        (clkSet_open (supported_of_isGpioBank hbank) rcc).mpr (Bool.eq_false_iff.mpr hget)
      rw [Bool.eq_false_iff.mpr hget]
      split_ifs <;> simp_all

theorem clkGet_gpioPinInit {p : Periph} (hp : isGpioBank p = false) (pin : Pin) (ok : Bool)
    (rcc : ClockControl Reg) : clkGet p (gpioPinInit pin ok rcc).2 = clkGet p rcc := by
  rw [gpioPinInit]
  split_ifs with _ _ hbank
  · rfl
  · rfl
  · exact clkGet_of_openBank hbank hp rcc
  · rfl
  · rfl

end UniHal.Rcc.Stm32l4
