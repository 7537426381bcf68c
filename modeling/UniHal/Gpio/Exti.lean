import UniHal.Foundations.Execution
import Mathlib.Tactic

/-! # Edge interrupts of the GPIO drivers

The pins of one number on all ports share one EXTI line: one of the ports is selected for it, an
owner table names the pin that the handler calls, and a flag latches the edges. The STM32L4 and
the STM32H7 driver change these in the same steps, and the handler comes between any two of them.
-/

namespace UniHal.Gpio.Exti
open Foundations Execution

/-- `UNI_HAL_CORE_PERIPH_GPIO_A` to `UNI_HAL_CORE_PERIPH_GPIO_I` -/
inductive Port
  | a | b | c | d | e | f | g | h | i
  deriving DecidableEq, Repr

/-- `gpio_bank`: a port, `UNI_HAL_CORE_PERIPH_EMPTY`, or no GPIO at all. -/
inductive Bank
  | port (p : Port)
  | empty
  | other
  deriving DecidableEq, Repr

/-- The configuration of a pin context: its bank, and `gpio_pin` with one bit for each number. -/
structure Pin where
  bank : Bank
  mask : UInt32
  deriving DecidableEq, Repr

abbrev Line := Fin 16

/-- `UNI_HAL_GPIO_PIN_0` to `UNI_HAL_GPIO_PIN_15` -/
def pinMask (i : Line) : UInt32 := 1 <<< UInt32.ofNat i.val

/-- `_uni_hal_gpio_index`: the lowest bit that is set. -/
def gpioIndex (mask : UInt32) : Option Line :=
  (List.finRange 16).find? fun i => mask &&& pinMask i ≠ 0

/-- `_uni_hal_gpio_exti_line`, `_uni_hal_gpio_exti_line_syscfg`, and whether `_uni_hal_gpio_irqn`
knows the pin: only a single bit has a line. -/
def extiLine (mask : UInt32) : Option Line := (List.finRange 16).find? fun i => mask = pinMask i

def extiPort : Bank → Option Port
  | .port p => some p
  | .empty | .other => none

inductive Irq
  | exti0 | exti1 | exti2 | exti3 | exti4 | exti9_5 | exti15_10
  deriving DecidableEq, Repr

/-- `_uni_hal_gpio_irqn` of the pin with that number -/
def irqn (i : Line) : Irq :=
  match i.val with
  | 0 => .exti0
  | 1 => .exti1
  | 2 => .exti2
  | 3 => .exti3
  | 4 => .exti4
  | n => if n < 10 then .exti9_5 else .exti15_10

def handlerLines (v : Irq) : List Line := (List.finRange 16).filter fun i => irqn i = v

/-- `uni_hal_gpio_it_edge_e` -/
inductive Edge
  | rising
  | falling
  | both
  deriving DecidableEq, Repr

/-- `LL_EXTI_EnableRisingTrig_0_31`, `LL_EXTI_EnableFallingTrig_0_31` -/
structure Trigger where
  rising : Bool
  falling : Bool
  deriving DecidableEq, Repr

def Edge.trigger : Edge → Trigger
  | .rising => ⟨true, false⟩
  | .falling => ⟨false, true⟩
  | .both => ⟨true, true⟩

/-- A call of `uni_hal_gpio_pin_set_interrupt_callback` that has passed its checks. -/
structure Registration (κ : Type*) where
  pin : κ
  port : Port
  line : Line
  index : Line
  edge : Edge
  callback : Option ℕ
  cookie : ℕ
  deriving DecidableEq

inductive Stage
  | storeCallback
  | storeCookie
  | storeTable
  | setSource
  | initIt
  | initTrigger
  | clearFlag
  | enableIt
  | irqEnable
  deriving DecidableEq, Repr

inductive Pc (κ : Type*)
  | disableIt (pin : κ) (index : Line)
  | tableNull (pin : κ) (index : Line)
  | callbackNull (pin : κ)
  | cookieNull (pin : κ)
  | notInited (pin : κ)
  | register (r : Registration κ) (stage : Stage)

/-- A call of the callback of a pin: the ports of the edges that it is for, and what is known about
the pin at that time. -/
structure Delivery (κ : Type*) where
  pin : κ
  edges : List Port
  inited : Bool
  /-- the pin that was the last to be entered into the table for this line -/
  registered : Option κ

structure State (κ : Type*) where
  inited : κ → Bool
  callback : κ → Option ℕ
  cookie : κ → ℕ
  /-- `g_uni_hal_gpio_ctx` -/
  table : Line → Option κ
  registered : Line → Option κ
  /-- `LL_SYSCFG_SetEXTISource` -/
  source : Line → Port
  trigger : Line → Trigger
  /-- the interrupt mask register of the EXTI -/
  imr : Line → Bool
  /-- The flag of a line is set when there is an edge since it was cleared: their ports. -/
  latched : Line → List Port
  /-- `NVIC_EnableIRQ` -/
  nvic : Irq → Bool
  /-- the lines that the running handler has still to serve -/
  handler : List Line
  call : Option (Pc κ)
  delivered : List (Delivery κ)

variable {κ : Type*}

def start : State κ where
  inited _ := false
  callback _ := none
  cookie _ := 0
  table _ := none
  registered _ := none
  source _ := .a
  trigger _ := ⟨false, false⟩
  imr _ := false
  latched _ := []
  nvic _ := false
  handler := []
  call := none
  delivered := []

variable [DecidableEq κ]

namespace State

/-- `LL_EXTI_IsActiveFlag_0_31` -/
def isActiveFlag (s : State κ) (i : Line) : Bool := !(s.latched i).isEmpty

/-- `LL_EXTI_ClearFlag_0_31` -/
def clearFlag (s : State κ) (i : Line) : State κ :=
  { s with latched := Function.update s.latched i [] }

/-- `LL_EXTI_EnableIT_0_31` -/
def enableIt (s : State κ) (i : Line) : State κ := { s with imr := Function.update s.imr i true }

/-- `LL_EXTI_DisableIT_0_31` of the line of a pin; `UINT32_MAX` stands for all lines. -/
def disableIt (s : State κ) : Option Line → State κ
  | some i => { s with imr := Function.update s.imr i false }
  | none => { s with imr := fun _ => false }

/-- `EXTIX_IRQHandler` -/
def extiHandler (s : State κ) (i : Line) : State κ :=
  if s.isActiveFlag i then
    let edges := s.latched i
    let s := s.clearFlag i
    match s.table i with
    | none => s
    | some p =>
      if s.callback p = none then s
      else
        { s with delivered := ⟨p, edges, s.inited p, s.registered i⟩ :: s.delivered }
  else s

/-- An edge on a pin latches the flag of its line when its port is selected for it and the trigger
is set up for that kind of edge. -/
def edge (s : State κ) (port : Port) (i : Line) (rising : Bool) : State κ :=
  if s.source i = port ∧ (if rising then (s.trigger i).rising else (s.trigger i).falling) = true
  then { s with latched := Function.update s.latched i (port :: s.latched i) }
  else s

def setInited (s : State κ) (p : κ) (value : Bool) : State κ :=
  { s with inited := Function.update s.inited p value }

/-- `uni_hal_gpio_pin_init`; `configured` is whether the clock and the port accept the pin. -/
def pinInit (pins : κ → Pin) (s : State κ) (p : κ) (configured : Bool) : State κ :=
  if s.inited p then s
  else s.setInited p (match (pins p).bank with
    | .port _ => configured
    | .empty => true
    | .other => false)

def goTo (s : State κ) (pc : Pc κ) : State κ := { s with call := some pc }

/-- `uni_hal_gpio_pin_deinit` up to its look at the owner table. -/
def pinDeinit (pins : κ → Pin) (s : State κ) (p : κ) : State κ :=
  if s.inited p then
    match (pins p).bank with
    | .port _ =>
      match gpioIndex (pins p).mask with
      | some index => s.goTo (if s.table index = some p then .disableIt p index else .notInited p)
      | none => s.goTo (.notInited p)
    | .empty | .other => s.goTo (.notInited p)
  else s.goTo (.notInited p)

/-- `uni_hal_gpio_pin_set_interrupt_callback` up to its checks. -/
def setInterruptCallback (pins : κ → Pin) (s : State κ) (p : κ) (edge : Edge)
    (callback : Option ℕ) (cookie : ℕ) : State κ :=
  if s.inited p then
    match extiPort (pins p).bank, extiLine (pins p).mask, gpioIndex (pins p).mask with
    | some port, some line, some index =>
      s.goTo (.register ⟨p, port, line, index, edge, callback, cookie⟩ .storeCallback)
    | _, _, _ => s
  else s

/-- The next statement of a registration. `LL_EXTI_Init` enables the interrupt before it sets the
trigger. -/
def registerStep (s : State κ) (r : Registration κ) : Stage → State κ
  | .storeCallback =>
    { s with callback := Function.update s.callback r.pin r.callback }.goTo
      (.register r .storeCookie)
  | .storeCookie =>
    { s with cookie := Function.update s.cookie r.pin r.cookie }.goTo (.register r .storeTable)
  | .storeTable =>
    { s with
      table := Function.update s.table r.index (some r.pin)
      registered := Function.update s.registered r.index (some r.pin) }.goTo
      (.register r .setSource)
  | .setSource =>
    { s with source := Function.update s.source r.line r.port }.goTo (.register r .initIt)
  | .initIt => (s.enableIt r.line).goTo (.register r .initTrigger)
  | .initTrigger =>
    { s with trigger := Function.update s.trigger r.line r.edge.trigger }.goTo
      (.register r .clearFlag)
  | .clearFlag => (s.clearFlag r.line).goTo (.register r .enableIt)
  | .enableIt => (s.enableIt r.line).goTo (.register r .irqEnable)
  | .irqEnable =>
    { s with nvic := Function.update s.nvic (irqn r.line) true, call := none }

def resume (pins : κ → Pin) (s : State κ) : Pc κ → State κ
  | .disableIt p index => (s.disableIt (extiLine (pins p).mask)).goTo (.tableNull p index)
  | .tableNull p index =>
    { s with table := Function.update s.table index none }.goTo (.callbackNull p)
  | .callbackNull p =>
    { s with callback := Function.update s.callback p none }.goTo (.cookieNull p)
  | .cookieNull p => { s with cookie := Function.update s.cookie p 0 }.goTo (.notInited p)
  | .notInited p => { s.setInited p false with call := none }
  | .register r stage => s.registerStep r stage

end State

inductive Action (κ : Type*)
  | pinInit (p : κ) (configured : Bool)
  | pinDeinit (p : κ)
  | setInterruptCallback (p : κ) (edge : Edge) (callback : Option ℕ) (cookie : ℕ)
  | resume
  | edge (port : Port) (line : Line) (rising : Bool)
  | enter (v : Irq)
  | serve

/-- A handler that runs keeps the calls from going on; edges come at any time. A handler is entered
when one of its lines has its flag set and its interrupt enabled. -/
def step (pins : κ → Pin) (s : State κ) : Action κ → Option (State κ)
  | .pinInit p configured =>
    if s.call.isNone && s.handler.isEmpty then some (s.pinInit pins p configured) else none
  | .pinDeinit p =>
    if s.call.isNone && s.handler.isEmpty then some (s.pinDeinit pins p) else none
  | .setInterruptCallback p edge callback cookie =>
    if s.call.isNone && s.handler.isEmpty then
      some (s.setInterruptCallback pins p edge callback cookie)
    else none
  | .resume => if s.handler.isEmpty then s.call.map (s.resume pins) else none
  | .edge port line rising => some (s.edge port line rising)
  | .enter v =>
    if s.handler.isEmpty && s.nvic v &&
        (handlerLines v).any (fun i => s.imr i && s.isActiveFlag i) then
      some { s with handler := handlerLines v }
    else none
  | .serve =>
    match s.handler with
    | [] => none
    | i :: rest => some { s.extiHandler i with handler := rest }

/-- The callback of a pin is called for an edge on its own port, while the pin is initialised and
the last one registered on its line. -/
structure Delivery.Own (pins : κ → Pin) (d : Delivery κ) : Prop where
  port : ∃ port, (pins d.pin).bank = .port port ∧ port ∈ d.edges
  inited : d.inited = true
  last : d.registered = some d.pin

/-- A line whose interrupt is enabled has an owner, and its port is selected. -/
def Routed (pins : κ → Pin) (s : State κ) : Prop :=
  ∀ i, s.imr i = true → ∃ p port, s.table i = some p ∧ (pins p).bank = .port port ∧
    s.source i = port

/-- What the drivers owe to the pins. -/
structure Sound (pins : κ → Pin) (s : State κ) : Prop where
  delivered : ∀ d ∈ s.delivered, d.Own pins
  routed : s.call = none → Routed pins s

def Stage.TakesOver : Stage → Prop
  | .setSource | .initIt | .initTrigger | .clearFlag => True
  | _ => False

instance : DecidablePred Stage.TakesOver
  | .setSource | .initIt | .initTrigger | .clearFlag => .isTrue trivial
  | .storeCallback | .storeCookie | .storeTable | .enableIt | .irqEnable => .isFalse id

/-- The line that the handler serves is not the one that the call is taking over, or its flag has
been latched by the new port as well. -/
def Spares (s : State κ) : Option (Pc κ) → Prop
  | some (.register r stage) => stage.TakesOver → s.handler.head? = some r.line →
      s.callback r.pin ≠ none → s.latched r.line ≠ [] → r.port ∈ s.latched r.line
  | _ => True

instance (s : State κ) : DecidablePred (Spares s)
  | some (.register r stage) => inferInstanceAs (Decidable (stage.TakesOver →
      s.handler.head? = some r.line → s.callback r.pin ≠ none → s.latched r.line ≠ [] →
        r.port ∈ s.latched r.line))
  | none | some (.disableIt _ _) | some (.tableNull _ _) | some (.callbackNull _)
  | some (.cookieNull _) | some (.notInited _) => .isTrue trivial

/-- The handler does not serve a line that is being taken over while its flag is latched by edges
of other ports only. -/
def ServesOwnEdges (s : State κ) : Action κ → Prop
  | .serve => Spares s s.call
  | _ => True

instance (s : State κ) : ∀ a, Decidable (ServesOwnEdges s a)
  | .serve => inferInstanceAs (Decidable (Spares s s.call))
  | .pinInit _ _ | .pinDeinit _ | .setInterruptCallback _ _ _ _ | .resume | .edge _ _ _
  | .enter _ => .isTrue trivial

section Inversion
variable {pins : κ → Pin} {s s' : State κ}

theorem step_pinInit_eq_some {p : κ} {configured : Bool} :
    step pins s (.pinInit p configured) = some s' ↔
      s.call = none ∧ s.handler = [] ∧ s.pinInit pins p configured = s' := by
  simp [step, and_assoc]

theorem step_pinDeinit_eq_some {p : κ} : step pins s (.pinDeinit p) = some s' ↔
    s.call = none ∧ s.handler = [] ∧ s.pinDeinit pins p = s' := by
  simp [step, and_assoc]

theorem step_setInterruptCallback_eq_some {p : κ} {edge : Edge} {callback : Option ℕ}
    {cookie : ℕ} : step pins s (.setInterruptCallback p edge callback cookie) = some s' ↔
      s.call = none ∧ s.handler = [] ∧
        s.setInterruptCallback pins p edge callback cookie = s' := by
  simp [step, and_assoc]

theorem step_resume_eq_some : step pins s .resume = some s' ↔
    s.handler = [] ∧ ∃ pc, s.call = some pc ∧ s.resume pins pc = s' := by
  simp [step]

theorem step_enter_eq_some {v : Irq} : step pins s (.enter v) = some s' ↔
    (s.handler = [] ∧ s.nvic v = true ∧
      ∃ i ∈ handlerLines v, s.imr i = true ∧ s.isActiveFlag i = true) ∧
        { s with handler := handlerLines v } = s' := by
  simp [step, and_assoc]

theorem step_serve_eq_some : step pins s .serve = some s' ↔
    ∃ i rest, s.handler = i :: rest ∧ { s.extiHandler i with handler := rest } = s' := by
  cases hhandler : s.handler with
  | nil => simp [step, hhandler]
  | cons i rest => simp [step, hhandler, and_assoc]

end Inversion

end UniHal.Gpio.Exti
