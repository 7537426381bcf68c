import UniHal.Uart.Stm32h7.Live
import UniHal.Uart.Pausing

/-! # Pausing the interrupts of an STM32H7 UART

While `uni_hal_usart_irq_enable` runs, and after it has disabled the interrupts, nothing need
keep the transmitter going. What counts is what it finds when it enables them again, since it
starts no output by itself.
-/

namespace UniHal.Uart.Stm32h7
open Foundations Execution Interleaving Io

variable {B : Type*} [Buffer B]

/-- The calls of `uni_hal_usart_irq_enable`. -/
def isControl : Call → Bool
  | .clearTc | .disableTcie | .enableTxeie => false
  | _ => true

/-- The interrupts are enabled and no call of `uni_hal_usart_irq_enable` is in progress. -/
def Running (w : World B) : Prop :=
  w.shared.irqEnabled = true ∧ ¬Pending (fun c => isControl c = true) w.calls

instance (w : World B) : Decidable (Running w) := inferInstanceAs (Decidable (_ ∧ _))

def starting : Option Irq → Bool
  | some (.disableTcie _) | some (.readInTransmission _) | some (.setInTransmission _) => true
  | _ => false

def finishing : Option Irq → Bool
  | some .endClearTc | some .endReadInTransmission | some .endReadBuffer | some .endDisableTxeie
  | some .endDisableTcie | some .endInTransmission => true
  | _ => false

/-- The output goes on after the interrupts have been enabled: a trigger is on its way or has
enabled the TXE interrupt; or there is nothing to send, and no transmission that the handler is
not ending; or the TC interrupt has been enabled meanwhile and the last byte is on its way. -/
def Ready (w : World B) : Prop :=
  TriggerPending w ∨ w.shared.txeie = true ∨
    Buffer.bytes w.shared.bufTx = [] ∧ starting w.handler = false ∧
      (w.shared.inTransmission = false ∨ finishing w.handler = true) ∨
    w.handler = none ∧ w.shared.inTransmission = true ∧ w.shared.tcie = true ∧ ¬w.shared.Idle

instance (w : World B) : Decidable (Ready w) :=
  inferInstanceAs (Decidable (_ ∨ _ ∨ _ ∧ _ ∧ (_ ∨ _) ∨ _ ∧ _ ∧ _ ∧ ¬_))

/-- The handler is in time while the interrupts are enabled, and they are enabled again when the
output can go on. -/
def Undisturbed (w : World B) (a : Action) : Prop :=
  (Running w → InTime w a) ∧ (a = .resume .onClearTc → Ready w)

instance (w : World B) (a : Action) : Decidable (Undisturbed w a) :=
  inferInstanceAs (Decidable ((_ → _) ∧ (_ → _)))

/-- With nothing to send nothing is needed, unless a transmission is about to start or one is
left marked. -/
theorem driven_of_empty {h : Option Irq} {u : Transmitter B} (hempty : Buffer.bytes u.bufTx = [])
    (hstarting : starting h = false) (hmark : u.inTransmission = false ∨ finishing h = true) :
    Driven h u := by
  rcases hmark with hno | hfinishing
  · have hsettled : Settled u := ⟨hempty, hno⟩
    unfold Driven
    split <;> first | (cases hstarting; done) | simp [hsettled, hempty]
  · unfold finishing at hfinishing
    split at hfinishing <;> first | (cases hfinishing; done) | simp [Driven, hempty]

/-- Enabling the interrupts in a ready state leaves a live one. -/
theorem live_onClearTc {w w' : World B} (hready : Ready w)
    (h : step w (.resume .onClearTc) = some w') : Live w' := by
  obtain ⟨-, rfl⟩ := step_resume_eq_some.mp h
  rcases hready with hpending | htxeie | ⟨hempty, hstarting, hmark⟩ | ⟨hnone, hin, htcie, hbusy⟩
  · exact Or.inl (hpending.replace fun hno => absurd hno (by decide))
  · have htxeie' : (resume .onClearTc w.shared).1.txeie = true := htxeie
    exact Or.inr (driven_of_txeie htxeie' w.handler)
  · have hempty' : Buffer.bytes (resume .onClearTc w.shared).1.bufTx = [] := hempty
    exact Or.inr (driven_of_empty hempty' hstarting hmark)
  · right
    change Driven w.handler _
    rw [hnone]
    exact Or.inr (Or.inr ⟨hin, htcie, Or.inr hbusy⟩)

omit [Buffer B] in
/-- A control step that is not the last one of its call leaves the call in progress. -/
theorem resume_control (c : Call) (u : Transmitter B) (hc : isControl c = true)
    (hlast : c ≠ .onClearTc) :
    (resume c u).1.irqEnabled = false ∨ ∃ d ∈ (resume c u).2, isControl d = true := by
  cases c with
  | clearTc | disableTcie | enableTxeie => cases hc
  | onClearTc => exact absurd rfl hlast
  | offInTransmission => exact Or.inl rfl
  | onDisableTcie | onDisableTxeie | offDisableTxeie | offDisableTcie | offClearTc =>
    exact Or.inr ⟨_, rfl, rfl⟩

omit [Buffer B] in
/-- A trigger does not disturb the interrupts being enabled. -/
theorem resume_other (c : Call) (u : Transmitter B) (hc : isControl c = false) :
    (resume c u).1.irqEnabled = u.irqEnabled ∧
      ∀ d ∈ (resume c u).2, ¬isControl d = true := by
  cases c with
  | clearTc | disableTcie | enableTxeie =>
    refine ⟨rfl, ?_⟩
    rintro d hd
    cases hd
    try decide
  | _ => cases hc

def control : Control (carrying (B := B)) where
  isControl := isControl
  enabling := .onClearTc
  irqEnable value _ := match value with
    | true => ⟨.onDisableTcie, rfl, rfl⟩
    | false => ⟨.offDisableTxeie, rfl, rfl⟩
  control := resume_control
  other := resume_other

omit [Buffer B] in
theorem isTrigger_of_isControl {c : Call} (h : isControl c = false) : isTrigger c = true := by
  cases c <;> first | rfl | cases h

theorem live_ordinary (w : World B) (a : Action) (w' : World B) (hw : Live w)
    (hordinary : (control (B := B)).Ordinary a) (ha : InTime w a) (h : step w a = some w') :
    Live w' := by
  refine live_step hw ha hordinary.traffic ?_ h
  rintro c rfl
  exact isTrigger_of_isControl hordinary

def liveness : Liveness (control (B := B)) txInterrupt where
  live := Live
  ok := InTime
  ready := Ready
  step := live_ordinary
  enabled _ _ := live_onClearTc
  settled _ := settled_of_atRest

/-- With the interrupts enabled the output comes to its end without a new call. -/
theorem completes_of_running {buf : B} (hbuf : Buffer.bytes buf = []) (tc : Bool)
    {run : List Action} (hok : Along step Undisturbed (start buf tc) run) {w : World B}
    (hrun : exec step (start buf tc) run = some w) (hrunning : Running w) :
    Completes step (Productive txInterrupt) Undisturbed w :=
  liveness.completes measure hbuf tc (Or.inr (Or.inl ⟨hbuf, rfl⟩)) hok hrun hrunning

end UniHal.Uart.Stm32h7
