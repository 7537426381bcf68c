import UniHal.Rcc.Stm32l4.DriverInit

/-! # Which initialisations the STM32L4 clock setter lets succeed

Setting a gate that is in the requested state already is reported as a failure. Every driver
that opens its gate unconditionally therefore fails to initialise while the gate is open, and
the second CAN controller, which opens the gate of the first one on its own and then asks for
it once more, never initialises.
-/

namespace UniHal.Rcc.Stm32l4
open Foundations ClockControl

/-- A call is truthful when it succeeds and the getter then tells the requested state. -/
def Truthful (p : Periph) (state : Bool) (rcc : ClockControl Reg) : Prop :=
  (clkSet p state rcc).1 = true ∧ clkGet p (clkSet p state rcc).2 = state

theorem truthful_iff {p : Periph} (hp : Supported p) (state : Bool) (rcc : ClockControl Reg) :
    Truthful p state rcc ↔ clkGet p rcc ≠ state ∧ ¬(wrongBus p = true ∧ state = false) ∧
      (p = .rtc → rtcWritable rcc = true) := by
  have hreaches : ¬Misses p state rcc ↔
      ¬(wrongBus p = true ∧ state = false) ∧ (p = .rtc → rtcWritable rcc = true) := by
    simp only [Misses, not_or, not_and, Bool.not_eq_false]
  rw [Truthful, clkSet_fst, clkGet_clkSet state rcc hp, ← hreaches]
  constructor
  · rintro ⟨⟨hget, -⟩, hread⟩
    exact ⟨hget, hread.resolve_left hget⟩
  · rintro ⟨hget, hmisses⟩
    exact ⟨⟨hget, hp⟩, Or.inr hmisses⟩

theorem canGates_can1 {ctx : CanCtx} (hinst : ctx.inst = .can1) {hw : CanHw} (hq : hw.queue = true)
    (rcc : ClockControl Reg) : canGates ctx hw rcc = clkSet .can1 true rcc := by
  simp [canGates, hinst, hq, canSetContext, Outcome.andThen]

/-- Opening the gate of the second CAN controller opens that of the first as well, which is
then found open. -/
theorem canGates_can2 {ctx : CanCtx} (hinst : ctx.inst = .can2) (hw : CanHw)
    (rcc : ClockControl Reg) : (canGates ctx hw rcc).1 = false := by
  rw [Bool.eq_false_iff, canGates, if_pos hinst, hinst]
  intro h
  obtain ⟨h, hcan1⟩ := (Outcome.andThen_fst _ _).mp h
  obtain ⟨hqueue, hcan2⟩ := (Outcome.andThen_fst _ _).mp h
  rw [Outcome.andThen, if_pos hqueue] at hcan1
  have hget := ((clkSet_fst .can2 true rcc).mp hcan2).1
  have hopen : clkGet .can1 (clkSet .can2 true rcc).2 = true := by
    rw [clkGet_of_gate (p := .can1) rfl, clkSet_gates (by decide) hget]
    rfl
  rw [clkSet_of_eq hopen] at hcan1
  exact Bool.false_ne_true hcan1

theorem canInit_fst (ctx : CanCtx) (hw : CanHw) (rcc : ClockControl Reg)
    (h : (canInit ctx hw rcc).1 = true) : (canGates ctx hw rcc).1 = true := by
  simp only [canInit, Outcome.andHw_fst, Bool.and_eq_true, Outcome.andThen_fst] at h
  exact h.1.1.1.1.1.1.1

theorem canInit_can2 {ctx : CanCtx} (hinst : ctx.inst = .can2) (hw : CanHw)
    (rcc : ClockControl Reg) : (canInit ctx hw rcc).1 = false := by
  rw [Bool.eq_false_iff]
  intro h
  have hgates := canInit_fst ctx hw rcc h
  rw [canGates_can2 hinst] at hgates
  exact Bool.false_ne_true hgates

def CanHw.ok : CanHw := ⟨true, true, true, true, true, true, true⟩
def I2cHw.ok : I2cHw := ⟨true, true, true, true, true, true, true⟩
def RecoverHw.ok : RecoverHw := ⟨true, true, true, I2cHw.ok⟩

/-- A driver with the part of its context that decides which gates and pins it needs. -/
inductive Driver
  | can (ctx : CanCtx)
  | i2c (ctx : I2cCtx)
  | usart (inst : Periph) (pinRx pinTx : Pin)
  | spi (inst : Periph) (pinSck pinMiso pinMosi : Pin)
  | adc (inst : Periph) (pins : List Pin)
  | crc (inst : Periph)
  | dma (inst : Periph)
  | tim (inst : Periph)
  | rng
  | pwr

namespace Driver

def Usable : Driver → Prop
  | can ctx => canSetContext ctx.inst = true ∧ ctx.pinRx.Usable ∧ ctx.pinTx.Usable ∧ ctx.fd = false
  | i2c ctx => isI2c ctx.inst = true ∧ ctx.pinSck.Usable ∧ ctx.pinSda.Usable
  | usart inst pinRx pinTx => Supported inst ∧ pinRx.Usable ∧ pinTx.Usable
  | spi inst pinSck pinMiso pinMosi =>
    Supported inst ∧ pinSck.Usable ∧ pinMiso.Usable ∧ pinMosi.Usable
  | adc inst pins =>
    Supported inst ∧ isGpioBank inst = false ∧ ∀ pin ∈ pins, pin.Usable
  | crc inst | dma inst | tim inst => Supported inst
  | rng | pwr => True

/-- The initialisation of a driver after its state was dropped, every step outside the clock
controller successful. -/
def reinit : Driver → ClockControl Reg → Outcome
  | can ctx => canInit ctx CanHw.ok
  | i2c ctx => i2cReset ctx I2cHw.ok
  | usart inst pinRx pinTx => usartInit inst pinRx pinTx true true true true true
  | spi inst pinSck pinMiso pinMosi =>
    spiInit false inst pinSck pinMiso pinMosi true true true true
  | adc inst pins => adcInit inst pins true true true true true true
  | crc inst => crcInit inst
  | dma inst => dmaInit false inst
  | tim inst => timInit true inst true true
  | rng => rngInit true true
  | pwr => pwrInit

/-- The gates that the driver opens are closed; for the second CAN controller this does not
help. -/
def GatesClosed (rcc : ClockControl Reg) : Driver → Prop
  | can ctx => ctx.inst = .can1 ∧ clkGet .can1 rcc = false
  | i2c ctx => clkGet ctx.inst rcc = false
  | usart inst _ _ | spi inst _ _ _ | adc inst _ | crc inst | dma inst | tim inst =>
    clkGet inst rcc = false
  | rng => clkGet .rng rcc = false
  | pwr => clkGet .syscfg rcc = false ∧ clkGet .pwr rcc = false

end Driver

theorem supported_of_isI2c {p : Periph} (h : isI2c p = true) : Supported p := by
  cases p <;> first | rfl | cases h

theorem isGpioBank_of_isI2c {p : Periph} (h : isI2c p = true) : isGpioBank p = false := by
  cases p <;> first | rfl | cases h

/-- Both pins of a bus are configured after the gate; they cannot make the result worse. -/
theorem i2cInit_fst (ctx : I2cCtx) (hinst : isI2c ctx.inst = true) (hsck : ctx.pinSck.Usable)
    (hsda : ctx.pinSda.Usable) (hinit : ctx.initialized = false) (rcc : ClockControl Reg) :
    (i2cInit ctx I2cHw.ok rcc).1 = true ↔ clkGet ctx.inst rcc = false := by
  rw [i2cInit, if_pos ⟨hinit, hinst⟩, ← clkSet_open (supported_of_isI2c hinst)]
  simp only [I2cHw.ok, Outcome.andHw_fst, Bool.and_true]
  split_ifs <;>
    simp only [Outcome.andAlso_fst, gpioPinInit_fst hsck, gpioPinInit_fst hsda, and_true]

theorem i2cReset_fst {ctx : I2cCtx} (hinst : isI2c ctx.inst = true) (hsck : ctx.pinSck.Usable)
    (hsda : ctx.pinSda.Usable) (rcc : ClockControl Reg) :
    (i2cReset ctx I2cHw.ok rcc).1 = true ↔ clkGet ctx.inst rcc = false := by
  exact i2cInit_fst (i2cDeinit ctx) hinst hsck hsda rfl rcc

/-- Recovering the bus drives the pins before the peripheral is initialised again, which opens
gates of GPIO banks only. -/
theorem i2cRecover_fst {ctx : I2cCtx} (hinst : isI2c ctx.inst = true) (hsck : ctx.pinSck.Usable)
    (hsda : ctx.pinSda.Usable) (rcc : ClockControl Reg) :
    (i2cRecover ctx RecoverHw.ok rcc).1 = true ↔ clkGet ctx.inst rcc = false := by
  have hscl : ctx.pinSck.deinit.Usable := hsck
  have hsda' : ctx.pinSda.deinit.Usable := hsda
  simp only [i2cRecover, i2cDeinit, RecoverHw.ok, Outcome.andHw_fst, Bool.and_eq_true,
    Outcome.andAlso_fst, gpioPinInit_fst hscl, gpioPinInit_fst hsda', and_true]
  rw [i2cInit_fst _ (by exact hinst) (by exact hscl) (by exact hsda') rfl]
  have hbank := isGpioBank_of_isI2c hinst
  simp only [Outcome.andAlso, clkGet_gpioPinInit hbank]

/-- Configuring the pins of the converter succeeds and leaves the gate of the converter alone. -/
theorem adcPins_spec {pins : List Pin} (h : ∀ pin ∈ pins, pin.Usable) (r : Outcome) {p : Periph}
    (hp : isGpioBank p = false) :
    (adcPins pins true r).1 = r.1 ∧ clkGet p (adcPins pins true r).2 = clkGet p r.2 := by
  induction pins generalizing r with
  | nil => exact ⟨rfl, rfl⟩
  | cons pin pins ih =>
    have hpin := h pin List.mem_cons_self
    obtain ⟨hfst, hsnd⟩ := ih (fun q hq => h q (List.mem_cons_of_mem pin hq))
      (if pin.inited then r else r.andAlso (gpioPinInit pin true))
    rw [show adcPins (pin :: pins) true r = adcPins pins true
      (if pin.inited then r else r.andAlso (gpioPinInit pin true)) from rfl, hfst, hsnd]
    split_ifs
    · exact ⟨rfl, rfl⟩
    · simp only [Outcome.andAlso, gpioPinInit_fst hpin, clkGet_gpioPinInit hp, Bool.true_and,
        and_self]

/-- Initialising a driver succeeds exactly when it finds the gates closed that it opens. -/
theorem reinit_fst {d : Driver} (hd : d.Usable) (rcc : ClockControl Reg) :
    (d.reinit rcc).1 = true ↔ d.GatesClosed rcc := by
  cases d with
  | can ctx =>
    obtain ⟨hinst, hrx, htx, hfd⟩ := hd
    by_cases hcan : ctx.inst = .can1
    · simp only [Driver.reinit, Driver.GatesClosed, canInit, CanHw.ok, Outcome.andHw_fst,
        Bool.and_true, Outcome.andThen_fst, gpioPinInit_fst hrx,
        gpioPinInit_fst htx, hfd, Bool.not_false, and_true, ite_self]
      rw [canGates_can1 hcan rfl, clkSet_open (p := .can1) rfl]
      simp [hcan]
    · have hcan2 : ctx.inst = .can2 := by
        revert hinst hcan
        cases ctx.inst <;> simp [canSetContext]
      simp [Driver.reinit, Driver.GatesClosed, canInit_can2 hcan2, hcan]
  | i2c ctx => exact i2cReset_fst hd.1 hd.2.1 hd.2.2 rcc
  | usart inst pinRx pinTx =>
    obtain ⟨hinst, hrx, htx⟩ := hd
    simp only [Driver.reinit, Driver.GatesClosed, usartInit, Outcome.andHw_fst, Bool.and_true,
      Outcome.andAlso_fst, gpioPinInit_fst hrx, gpioPinInit_fst htx, and_true, clkSet_open hinst]
  | spi inst pinSck pinMiso pinMosi =>
    obtain ⟨hinst, hsck, hmiso, hmosi⟩ := hd
    simp only [Driver.reinit, Driver.GatesClosed, spiInit, Bool.false_eq_true, if_false,
      Outcome.andHw_fst, Bool.and_true, Outcome.andAlso_fst, gpioPinInit_fst hsck,
      gpioPinInit_fst hmiso, gpioPinInit_fst hmosi, and_true, clkSet_open hinst]
  | adc inst pins =>
    obtain ⟨hinst, hbank, hpins⟩ := hd
    obtain ⟨hfst, hsnd⟩ := adcPins_spec hpins (true, rcc) hbank
    simp only [Driver.reinit, Driver.GatesClosed, adcInit, Outcome.andHw_fst, Bool.and_true,
      Outcome.andAlso_fst, Outcome.andHw_snd, hfst, clkSet_open hinst, hsnd, true_and]
  | crc inst => exact clkSet_open hd rcc
  | dma inst => exact clkSet_open hd rcc
  | tim inst =>
    simp only [Driver.reinit, Driver.GatesClosed, timInit, if_true, Outcome.andHw_fst,
      Bool.and_true]
    exact clkSet_open hd rcc
  | rng =>
    simp only [Driver.reinit, Driver.GatesClosed, rngInit, Outcome.andHw_fst, Bool.and_true,
      Outcome.andThen_fst, true_and]
    exact clkSet_open (p := .rng) rfl rcc
  | pwr =>
    simp only [Driver.reinit, Driver.GatesClosed, pwrInit, Outcome.andAlso_fst]
    rw [clkSet_open (p := .syscfg) rfl, clkSet_open (p := .pwr) rfl]
    have hframe : clkGet .pwr (clkSet .syscfg true rcc).2 = clkGet .pwr rcc := by
      rw [clkGet_of_gate (p := .pwr) rfl, clkGet_of_gate (p := .pwr) rfl]
      refine frame_of_not_missesGate (c := ⟨.syscfg, true⟩) rfl ?_ ?_
      · rintro ⟨-, ⟨h, -⟩ | ⟨h, -⟩⟩ <;> cases h
      · rintro (h | ⟨h, -⟩) <;> cases h
    rw [hframe]

/-- The setter is truthful exactly for a gate that has to change and can be reached: not for a
disable of UART 2 to 5, and for the RTC only while its register can be written; a driver
initialises exactly while the gates it opens are closed. -/
theorem clkSet_contract (rcc : ClockControl Reg) :
    (∀ p, Supported p → ∀ state, Truthful p state rcc ↔
      clkGet p rcc ≠ state ∧ ¬(wrongBus p = true ∧ state = false) ∧
        (p = .rtc → rtcWritable rcc = true)) ∧
    (∀ d : Driver, d.Usable → ((d.reinit rcc).1 = true ↔ d.GatesClosed rcc)) ∧
    (∀ ctx : I2cCtx, isI2c ctx.inst = true → ctx.pinSck.Usable → ctx.pinSda.Usable →
      ((i2cRecover ctx RecoverHw.ok rcc).1 = true ↔ clkGet ctx.inst rcc = false)) :=
  ⟨fun _ hp state => truthful_iff hp state rcc, fun _ hd => reinit_fst hd rcc,
    fun _ hinst hsck hsda => i2cRecover_fst hinst hsck hsda rcc⟩

/-- A gate opened twice, the second CAN controller of a device that was just reset, and the RTC of
one whose power controller has no clock. -/
theorem clkSet_contract_fails :
    Supported .i2c1 ∧ ¬Truthful .i2c1 true (clkSet .i2c1 true reset).2 ∧
      (Driver.reinit (.can ⟨.can2, ⟨.empty, false⟩, ⟨.empty, false⟩, false, 0⟩) reset).1 = false ∧
      (clkSet .rtc true reset).1 = true ∧ clkGet .rtc (clkSet .rtc true reset).2 = false := by
  refine ⟨rfl, ?_, by decide⟩
  rintro ⟨h, -⟩
  revert h
  decide

theorem clkSet_contract_uart1 :
    (Truthful .uart1 true reset ↔
      clkGet .uart1 reset ≠ true ∧ ¬(wrongBus .uart1 = true ∧ true = false) ∧
        (Periph.uart1 = .rtc → rtcWritable reset = true)) ∧
    ((Driver.reinit (.usart .uart1 ⟨.gpioA, false⟩ ⟨.gpioA, false⟩) reset).1 = true ↔
      Driver.GatesClosed reset (.usart .uart1 ⟨.gpioA, false⟩ ⟨.gpioA, false⟩)) ∧
    ((i2cRecover ⟨.i2c1, ⟨.gpioB, false⟩, ⟨.gpioB, false⟩, true⟩ RecoverHw.ok reset).1 = true ↔
      clkGet .i2c1 reset = false) := by
  obtain ⟨hset, hdriver, hrecover⟩ := clkSet_contract reset
  refine ⟨hset .uart1 rfl true, ?_, ?_⟩
  · exact hdriver (.usart .uart1 ⟨.gpioA, false⟩ ⟨.gpioA, false⟩) ⟨rfl, .inr rfl, .inr rfl⟩
  · exact hrecover ⟨.i2c1, ⟨.gpioB, false⟩, ⟨.gpioB, false⟩, true⟩ rfl (.inr rfl) (.inr rfl)

end UniHal.Rcc.Stm32l4
