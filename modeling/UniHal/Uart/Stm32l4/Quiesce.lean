import UniHal.Uart.Stm32l4.Live
import UniHal.Uart.Pausing

/-! # Pausing the interrupts of an STM32L4 UART

`uni_hal_usart_irq_enable` disables the TX interrupts and clears TC, but does not enable them
again, and leaves the transmission marked. The output goes on only if somebody else has enabled
them by then.
-/

namespace UniHal.Uart.Stm32l4
open Foundations Execution Interleaving Io

variable {B : Type*} [Buffer B]

/-- The calls of `uni_hal_usart_irq_enable`. -/
def isControl : Call → Bool
  | .clearTc | .enableTxeie | .enableTcie => false
  | _ => true

/-- The interrupts are enabled and no call of `uni_hal_usart_irq_enable` is in progress. -/
def Running (w : World B) : Prop :=
  w.shared.irqEnabled = true ∧ ¬Pending (fun c => isControl c = true) w.calls

instance (w : World B) : Decidable (Running w) := inferInstanceAs (Decidable (_ ∧ _))

/-- The output goes on after the interrupts have been enabled: a trigger is on its way or has
enabled the TXE interrupt, with the TC interrupt enabled or still to be and TC not lost; or there
is nothing to send, and no transmission that the handler is not ending. -/
def Ready (w : World B) : Prop :=
  (TriggerPending w ∨ w.shared.txeie = true ∨
    Buffer.bytes w.shared.bufTx = [] ∧ starting w.handler = false ∧
      (w.shared.inTransmission = false ∨ finishing w.handler = true)) ∧
  (w.shared.txeie = true → w.shared.tcie = true ∨ Pending OfTrigger w.calls) ∧
  (w.shared.txeie = true → Drained w → w.shared.tc = true ∨ Ending w)

instance (w : World B) : Decidable (Ready w) :=
  inferInstanceAs (Decidable ((_ ∨ _ ∨ _ ∧ _ ∧ (_ ∨ _)) ∧ (_ → _) ∧ (_ → _)))

/-- While the interrupts are enabled the steps keep their order, and they are enabled again when
the output can go on. -/
def Undisturbed (w : World B) (a : Action) : Prop :=
  (Running w → KeepsTcie w a) ∧ (a = .resume .onReturn → Ready w)

instance (w : World B) (a : Action) : Decidable (Undisturbed w a) :=
  inferInstanceAs (Decidable ((_ → _) ∧ (_ → _)))

theorem live_of_ready {w : World B} (hready : Ready w) : Live w := by
  obtain ⟨hgoing, htcie, hstops⟩ := hready
  refine ⟨⟨?_, hstops⟩, ?_, ?_, htcie⟩
  · intro hbytes
    rcases hgoing with hpending | htxeie | ⟨hempty, -⟩
    · exact Or.inr hpending
    · exact Or.inl htxeie
    · exact absurd hempty hbytes
  · intro hin
    rcases hgoing with hpending | htxeie | ⟨-, -, hno | hfinishing⟩
    · exact Or.inr (Or.inl hpending)
    · exact Or.inl htxeie
    · exact absurd (hno.symm.trans hin) (by decide)
    · exact Or.inr (Or.inr hfinishing)
  · intro hstarting
    rcases hgoing with hpending | htxeie | ⟨-, hno, -⟩
    · exact Or.inr hpending
    · exact Or.inl htxeie
    · exact absurd (hno.symm.trans hstarting) (by decide)

/-- Enabling the interrupts in a ready state leaves a live one. -/
theorem live_onReturn {w w' : World B} (hready : Ready w)
    (h : step w (.resume .onReturn) = some w') : Live w' := by
  obtain ⟨⟨hsends, hstops⟩, hends, hstarts, htcie⟩ := live_of_ready hready
  obtain ⟨-, rfl⟩ := step_resume_eq_some.mp h
  have hkeeps : ∀ {P : Call → Prop}, ¬P .onReturn → Pending P w.calls →
      Pending P (replace w.calls .onReturn none) :=
    fun hno hpending => hpending.replace fun hyes => absurd hyes hno
  have htrigger := @hkeeps (fun c => isTrigger c = true) (by decide)
  refine ⟨⟨?_, hstops⟩, ?_, ?_, ?_⟩
  · exact fun hbytes => (hsends hbytes).imp_right htrigger
  · exact fun hin => (hends hin).imp_right (Or.imp_left htrigger)
  · exact fun hstarting => (hstarts hstarting).imp_right htrigger
  · exact fun htxeie => (htcie htxeie).imp_right (hkeeps (by decide))

omit [Buffer B] in
theorem resume_control (c : Call) (u : Transmitter B) (hc : isControl c = true)
    (hlast : c ≠ .onReturn) :
    (resume c u).1.irqEnabled = false ∨ ∃ d ∈ (resume c u).2, isControl d = true := by
  cases c with
  | clearTc | enableTxeie | enableTcie => cases hc
  | onReturn => exact absurd rfl hlast
  | offClearTc => exact Or.inl rfl
  | offDisableTxeie | offDisableTcie => exact Or.inr ⟨_, rfl, rfl⟩

omit [Buffer B] in
/-- A trigger does not disturb the interrupts being enabled. -/
theorem resume_other (c : Call) (u : Transmitter B) (hc : isControl c = false) :
    (resume c u).1.irqEnabled = u.irqEnabled ∧
      ∀ d ∈ (resume c u).2, ¬isControl d = true := by
  cases c with
  | clearTc | enableTxeie | enableTcie =>
    refine ⟨rfl, ?_⟩
    rintro d hd
    cases hd
    try decide
  | _ => cases hc

def control : Control (carrying (B := B)) where
  isControl := isControl
  enabling := .onReturn
  irqEnable value _ := match value with
    | true => ⟨.onReturn, rfl, rfl⟩
    | false => ⟨.offDisableTxeie, rfl, rfl⟩
  control := resume_control
  other := resume_other

theorem live_step (w : World B) (a : Action) (w' : World B) (hw : Live w)
    (hordinary : (control (B := B)).Ordinary a) (ha : KeepsTcie w a) (h : step w a = some w') :
    Live w' := by
  cases a with
  | hardware e => exact live_hardware hw h
  | call r =>
    cases r with
    | transmitData data => exact live_transmitData hw h
    | irqEnable value => exact hordinary.elim
  | resume c =>
    have hno : isControl c = false := hordinary
    have hc : OfTrigger c := by
      revert hno
      cases c <;> decide
    exact live_resume hw hc ha.1 h
  | enter => exact live_enter hw h
  | serve => exact live_serve hw ha h

def liveness : Liveness (control (B := B)) txInterrupt where
  live := Live
  ok := KeepsTcie
  ready := Ready
  step := live_step
  enabled _ _ := live_onReturn
  settled _ := settled_of_atRest

/-- With the interrupts enabled the output comes to its end without a new call. -/
theorem completes_of_running {buf : B} (hbuf : Buffer.bytes buf = []) (tc : Bool)
    {run : List Action} (hok : Along step Undisturbed (start buf tc) run) {w : World B}
    (hrun : exec step (start buf tc) run = some w) (hrunning : Running w) :
    Completes step (Productive txInterrupt) Undisturbed w :=
  liveness.completes measure hbuf tc (start_live hbuf tc) hok hrun hrunning

end UniHal.Uart.Stm32l4
