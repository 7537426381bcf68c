import UniHal.Can.Message
import UniHal.Can.Fdcan.BitTiming
import UniHal.Rcc.Periph

/-! # Initialisation of the CAN drivers and the flag that reports it

`uni_hal_can_init` of both drivers as the chain of steps that it is, each of which can fail, and
`uni_hal_can_is_inited`. How a step outside the CAN drivers ends is given by the environment.
The STM32L4 driver writes the flag only once the early steps have passed.
-/

namespace UniHal.Can.Init
open Rcc

/-- `uni_hal_can_mode_e` -/
inductive Mode
  | normal | silent | loopback | loopbackSilent
  deriving DecidableEq, Repr

/-- `uni_hal_can_config_t` as the initialisation reads it. -/
structure InitConfig where
  inst : Periph
  /-- none: `UNI_HAL_RCC_CLKSRC_UNKNOWN`, the source that is selected stays -/
  clockSource : Option ℕ
  mode : Mode
  bitrate : UInt32
  fd : Bool
  bitrateData : UInt32

/-- `uni_hal_can_status_t`; functions and cookies are addresses. -/
structure Status where
  countRx : UInt32
  countTx : UInt32
  countErr : UInt32
  countRxDropped : UInt32
  errors : UInt32
  inited : Bool
  txCallback : Option ℕ
  txCallbackCookie : ℕ
  txOk : Slot → Bool
  errorCallback : Option ℕ
  errorCallbackCookie : ℕ
  queueRx : Option ℕ

structure Controller where
  mode : Mode
  timing : Timing
  /-- the timing of the data phase where frames switch the bit rate -/
  timingData : Option Timing
  interrupts : Bool

/-- `uni_hal_can_context_t` and the controller that it is for. -/
structure Node where
  config : InitConfig
  status : Status
  can : Controller

/-- How the steps outside the drivers end. -/
structure Env where
  /-- the handle that `xQueueCreate` returns -/
  queueCreate : Option ℕ
  ringbufferInit : Bool
  clksrcSet : Bool
  clkSet : Periph → Bool
  pinRx : Bool
  pinTx : Bool
  clkFreq : UInt32
  /-- initialisation mode is acknowledged in time -/
  modeInit : Bool
  /-- the controller leaves sleep mode in time -/
  leaveSleep : Bool

/-- `_uni_hal_can_get_handle`, `_uni_hal_can_get_instance` -/
def getInstance : Periph → Option Instance
  | .can1 => some .can1
  | .can2 => some .can2
  | _ => none

def isInited : Option Node → Bool
  | none => false
  | some node => node.status.inited

def onContext (f : Node → Bool × Node) : Option Node → Bool × Option Node
  | none => (false, none)
  | some node => ((f node).1, some (f node).2)

def Status.cleared (status : Status) (result : Bool) : Status :=
  { countRx := 0, countTx := 0, countErr := 0, countRxDropped := 0, errors := 0
    inited := result
    txCallback := none, txCallbackCookie := 0, txOk := fun _ => false
    errorCallback := none, errorCallbackCookie := 0
    queueRx := status.queueRx }

def queueReady (freertos : Bool) (env : Env) : Bool :=
  if freertos then env.queueCreate.isSome else env.ringbufferInit

def Status.withQueue (status : Status) (freertos : Bool) (env : Env) : Status :=
  if freertos then { status with queueRx := env.queueCreate } else status

/-- The flag after the call is what the call returned. -/
def Truthful (r : Bool × Option Node) : Prop := isInited r.2 = r.1

instance (r : Bool × Option Node) : Decidable (Truthful r) :=
  inferInstanceAs (Decidable (_ = _))

def fixedTiming : Timing := ⟨10, 8, 1, 1⟩

/-- The steps of the STM32L4 driver before it looks up the controller. -/
def bxcanPrepared (freertos : Bool) (env : Env) (config : InitConfig) : Bool :=
  let result := (getInstance config.inst).isSome
  let result := result && queueReady freertos env
  let result := result && env.clkSet config.inst
  -- CAN2 is the slave of CAN1: its acceptance filters live in the CAN1 registers
  let result := if config.inst = .can2 then result && env.clkSet .can1 else result
  let result := result && env.pinRx
  let result := result && env.pinTx
  -- bxCAN is a classic CAN controller
  result && !config.fd

/-- `_uni_hal_can_interrupt_enable` -/
def bxcanInterruptEnable (inst : Periph) : Bool := (getInstance inst).isSome

/-- `uni_hal_can_init` of the STM32L4 driver. -/
def bxcanInit (freertos : Bool) (env : Env) (node : Node) : Bool × Node :=
  let config := node.config
  let status := node.status.withQueue freertos env
  let result := bxcanPrepared freertos env config
  if result && (getInstance config.inst).isSome then
    let timing :=
      if config.bitrate ≠ 0 then timingCalc env.clkFreq config.bitrate fixedTiming
      else (true, fixedTiming)
    let result := timing.1 && env.modeInit
    let result := result && env.leaveSleep
    let can : Controller :=
      if result then ⟨config.mode, timing.2, none, true⟩ else node.can
    let result := result && bxcanInterruptEnable config.inst
    (result, { node with status := status.cleared result, can := can })
  else (result, { node with status := status })

def fdcanPrepared (build : Build) (freertos : Bool) (env : Env) (config : InitConfig) : Bool :=
  let result := queueReady freertos env
  let result := if config.clockSource.isSome then result && env.clksrcSet else result
  let result := result && env.clkSet config.inst
  let result := result && env.pinRx
  let result := result && env.pinTx
  let result := result && (Fdcan.nominalTiming env.clkFreq config.bitrate).1
  -- CAN FD needs the 64-byte message RAM elements the library is then built with
  let result := if build = .classic then result && !config.fd else result
  if config.fd ∧ config.bitrateData ≠ 0 then
    result && (timingCalcData env.clkFreq config.bitrateData Fdcan.noTiming).1
  else result

/-- `uni_hal_can_init` of the STM32H7 driver. -/
def fdcanInit (build : Build) (freertos : Bool) (env : Env) (node : Node) : Bool × Node :=
  let config := node.config
  match getInstance config.inst with
  | none => (false, node)
  | some _ =>
    let status := node.status.withQueue freertos env
    let result := fdcanPrepared build freertos env config
    let result := result && (env.leaveSleep && env.modeInit)
    let timingData :=
      if config.fd ∧ config.bitrateData ≠ 0 then
        some (timingCalcData env.clkFreq config.bitrateData Fdcan.noTiming).2
      else none
    let can : Controller :=
      if result then
        ⟨config.mode, (Fdcan.nominalTiming env.clkFreq config.bitrate).2, timingData, true⟩
      else node.can
    (result, { node with status := status.cleared result, can := can })

theorem truthful_none (f : Node → Bool × Node) : Truthful (onContext f none) := rfl

theorem Status.withQueue_inited (status : Status) (freertos : Bool) (env : Env) :
    (status.withQueue freertos env).inited = status.inited := by
  unfold Status.withQueue
  split <;> rfl

/-- A context whose early steps all pass gets its flag from the result. -/
theorem bxcanInit_prepared {freertos : Bool} {env : Env} {node : Node}
    (h : bxcanPrepared freertos env node.config = true) :
    (bxcanInit freertos env node).2.status.inited = (bxcanInit freertos env node).1 := by
  have hinst : (getInstance node.config.inst).isSome = true := by
    unfold bxcanPrepared at h
    split at h <;> simp_all
  simp only [bxcanInit, h, hinst, Bool.and_self, if_true]
  rfl

/-- Otherwise the call fails and the flag is what it was. -/
theorem bxcanInit_unprepared {freertos : Bool} {env : Env} {node : Node}
    (h : bxcanPrepared freertos env node.config = false) :
    (bxcanInit freertos env node).1 = false ∧
      (bxcanInit freertos env node).2.status.inited = node.status.inited := by
  simp only [bxcanInit, h, Bool.false_and, Bool.false_eq_true, if_false, true_and]
  exact Status.withQueue_inited _ _ _

/-- A context that was initialised and fails in an early step stays reported as initialised. -/
theorem bxcanInit_truthful_iff (freertos : Bool) (env : Env) (node : Node) :
    Truthful (onContext (bxcanInit freertos env) (some node)) ↔
      node.status.inited = false ∨ bxcanPrepared freertos env node.config = true := by
  unfold Truthful
  simp only [onContext, isInited]
  cases hprep : bxcanPrepared freertos env node.config with
  | true => simp [bxcanInit_prepared hprep]
  | false =>
    obtain ⟨hres, hflag⟩ := bxcanInit_unprepared hprep
    simp [hres, hflag]

theorem fdcanInit_truthful_iff (build : Build) (freertos : Bool) (env : Env) (node : Node) :
    Truthful (onContext (fdcanInit build freertos env) (some node)) ↔
      node.status.inited = false ∨ (getInstance node.config.inst).isSome = true := by
  unfold Truthful
  simp only [onContext, isInited, fdcanInit]
  cases hinst : getInstance node.config.inst with
  | none => simp
  | some i => simp [Status.cleared]

/-- When both drivers keep the flag truthful, for every context, outcome of the steps and way the
library is built. -/
theorem init_truthful_iff (build : Build) (freertos : Bool) (env : Env) (ctx : Option Node) :
    (Truthful (onContext (bxcanInit freertos env) ctx) ↔
      ∀ node ∈ ctx, node.status.inited = false ∨
        bxcanPrepared freertos env node.config = true) ∧
    (Truthful (onContext (fdcanInit build freertos env) ctx) ↔
      ∀ node ∈ ctx, node.status.inited = false ∨
        (getInstance node.config.inst).isSome = true) := by
  cases ctx with
  | none => simp [truthful_none]
  | some node => simp [bxcanInit_truthful_iff, fdcanInit_truthful_iff]

def pinFails : Env where
  queueCreate := some 0
  ringbufferInit := true
  clksrcSet := true
  clkSet := fun _ => true
  pinRx := false
  pinTx := true
  clkFreq := 80000000
  modeInit := true
  leaveSleep := true

/-- A CAN1 controller at 500 kbit/s that runs, with both callbacks set. -/
def running : Node where
  config := ⟨.can1, none, .normal, 500000, false, 0⟩
  status :=
    { countRx := 3, countTx := 2, countErr := 0, countRxDropped := 0, errors := 0, inited := true
      txCallback := some 1, txCallbackCookie := 2, txOk := fun _ => true
      errorCallback := some 3, errorCallbackCookie := 4, queueRx := some 5 }
  can := ⟨.normal, ⟨10, 13, 2, 1⟩, none, true⟩

theorem init_untruthful :
    ¬ ∀ (build : Build) (freertos : Bool) (env : Env) (ctx : Option Node),
      Truthful (onContext (bxcanInit freertos env) ctx) ∧
        Truthful (onContext (fdcanInit build freertos env) ctx) := by
  intro hall
  exact absurd (hall .classic true pinFails (some running)).1 (by decide)

end UniHal.Can.Init
