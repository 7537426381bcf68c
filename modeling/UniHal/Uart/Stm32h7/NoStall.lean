import UniHal.Uart.Stm32h7.Live

/-! # The STM32H7 transmitter does not stall

As long as the handler misses none of its three instants, whatever was accepted is sent and
every transmission is ended.
-/

namespace UniHal.Uart.Stm32h7
open Foundations Execution Interleaving Io

variable {B : Type*} [Buffer B]

/-- The transmitter is at rest although there is something to send, or a transmission to end. -/
def Stalled (w : World B) : Prop := AtRest txInterrupt w ∧ w.shared.busy = true

/-- Every `tx_start` but that of a running transmission has had its `tx_end`. -/
def Balanced (h : Option Irq) (u : Transmitter B) : Prop :=
  match h with
  | some (.setInTransmission _) | some .endCallback =>
    u.inTransmission = false ∧ u.txStarts = u.txEnds + 1
  | some .endReadBuffer | some .endDisableTxeie | some .endDisableTcie
  | some .endInTransmission => u.inTransmission = true ∧ u.txStarts = u.txEnds + 1
  | _ => u.txStarts = u.txEnds + u.inTransmission.toNat

/-- What holds along a run of calls of `uni_hal_io_transmit_data`. -/
structure Sending (w : World B) : Prop where
  live : Live w
  triggers : ∀ c ∈ w.calls, isTrigger c = true
  balanced : Balanced w.handler w.shared

theorem start_sending {buf : B} (hbuf : Buffer.bytes buf = []) (tc : Bool) :
    Sending (start buf tc) where
  live := Or.inr (Or.inl ⟨hbuf, rfl⟩)
  triggers _ h := nomatch h
  balanced := rfl

omit [Buffer B] in
theorem balanced_of_eq {u v : Transmitter B} (hin : v.inTransmission = u.inTransmission)
    (hstarts : v.txStarts = u.txStarts) (hends : v.txEnds = u.txEnds) {h : Option Irq}
    (hb : Balanced h u) : Balanced h v := by
  unfold Balanced at *
  rw [hin, hstarts, hends]
  exact hb

theorem balanced_serve {h : Irq} {u : Transmitter B} (hb : Balanced (some h) u) :
    Balanced (serve h u).2 (serve h u).1 := by
  cases h with
  | readInTransmission data =>
    simp only [serve]
    split
    · exact hb
    · rename_i hin
      rw [Bool.not_eq_true] at hin
      have hcount : u.txStarts = u.txEnds + u.inTransmission.toNat := hb
      rw [hin, Bool.toNat_false, Nat.add_zero] at hcount
      exact ⟨hin, congrArg (· + 1) hcount⟩
  | setInTransmission data => exact hb.2
  | endReadInTransmission =>
    simp only [serve]
    split
    · rename_i hin
      have hcount : u.txStarts = u.txEnds + u.inTransmission.toNat := hb
      rw [hin, Bool.toNat_true] at hcount
      exact ⟨hin, hcount⟩
    · exact hb
  | endReadBuffer =>
    simp only [serve]
    split
    · exact hb
    · change u.txStarts = u.txEnds + u.inTransmission.toNat
      rw [hb.1]
      exact hb.2
  | endInTransmission => exact ⟨rfl, hb.2⟩
  | endCallback =>
    obtain ⟨hin, hcount⟩ := hb
    change u.txStarts = u.txEnds + 1 + u.inTransmission.toNat
    rw [hin, Bool.toNat_false, Nat.add_zero]
    exact hcount
  | pop =>
    simp only [serve]
    split <;> exact hb
  | readTxeie | readTxe | emptyReadInTransmission | readTcie | readTc =>
    simp only [serve]
    split <;> exact hb
  | disableTcie _ | transmit _ | count | disableTxeie | emptyClearTc | emptyEnableTcie
  | endClearTc | unusedDisableTcie | endDisableTxeie | endDisableTcie | moreDisableTcie
  | moreEnableTxeie => exact hb

omit [Buffer B] in
theorem balanced_resume {c : Call} (hc : isTrigger c = true) {h : Option Irq} {u : Transmitter B}
    (hb : Balanced h u) : Balanced h (resume c u).1 := by
  cases c <;> first | exact balanced_of_eq rfl rfl rfl hb | cases hc

omit [Buffer B] in
theorem isTrigger_resume {c : Call} (hc : isTrigger c = true) {u : Transmitter B} {d : Call}
    (hd : (resume c u).2 = some d) : isTrigger d = true := by
  cases c <;> cases hd <;> first | rfl | cases hc

theorem balanced_step {w w' : World B} {a : Action} (hb : Balanced w.handler w.shared)
    (htriggers : ∀ c ∈ w.calls, isTrigger c = true) (ha : Traffic a) (h : step w a = some w') :
    Balanced w'.handler w'.shared := by
  cases a with
  | hardware e =>
    obtain ⟨v, hv, rfl⟩ := step_hardware_eq_some.mp h
    obtain ⟨-, hin, -, -, hstarts, hends, -⟩ := hardware_software hv
    exact balanced_of_eq hin hstarts hends hb
  | call r =>
    cases r with
    | transmitData data =>
      cases h
      exact balanced_of_eq rfl rfl rfl hb
    | irqEnable value => exact ha.elim
  | resume c =>
    obtain ⟨hmem, rfl⟩ := step_resume_eq_some.mp h
    exact balanced_resume (htriggers c hmem) hb
  | enter =>
    obtain ⟨hnone, rfl⟩ := step_enter_eq_some.mp h
    rw [hnone] at hb
    exact hb
  | serve =>
    obtain ⟨irq, hirq, rfl⟩ := step_serve_eq_some.mp h
    rw [hirq] at hb
    exact balanced_serve hb

theorem sending_step (w : World B) (a : Action) (w' : World B) (hw : Sending w)
    (ha : Traffic a ∧ InTime w a) (h : step w a = some w') : Sending w' where
  live := by
    refine live_step hw.live ha.2 ha.1 ?_ h
    rintro c rfl
    exact hw.triggers c (step_resume_eq_some.mp h).1
  triggers := triggers_step (fun data u c hc => by cases hc; rfl)
    (fun c u hc d hd => isTrigger_resume hc hd) hw.triggers ha.1 h
  balanced := balanced_step hw.balanced hw.triggers ha.1 h

/-- In a run of `uni_hal_io_transmit_data` calls, interrupts and hardware steps whose handler is
in time, no state is stalled. Once nothing new is called, the transmitter comes to rest within a
bounded number of steps, and there it is not busy, every transmission has been ended and every
accepted byte sent. -/
theorem noStall_of_inTime {buf : B} (hbuf : Buffer.bytes buf = []) (tc : Bool)
    {run : List Action} (hok : Along step (fun w a => Traffic a ∧ InTime w a) (start buf tc) run)
    {w : World B} (hrun : exec step (start buf tc) run = some w) :
    ¬Stalled w ∧
    ∀ rest, Along step (fun w a => Productive txInterrupt w a ∧ InTime w a) w rest →
      ∀ w', exec step w rest = some w' →
        rest.length ≤ measure.rank w ∧
        ((∀ a, Productive txInterrupt w' a → step w' a = none) →
          w'.shared.busy = false ∧ w'.shared.txStarts = w'.shared.txEnds ∧
            w'.shared.wire = w'.shared.accepted) := by
  have hsending : Sending w := exec_invariant sending_step (start_sending hbuf tc) hok hrun
  constructor
  · rintro ⟨hrest, hbusy⟩
    rw [(busy_eq_false_iff _).mpr (settled_of_atRest hrest hsending.live)] at hbusy
    exact absurd hbusy (by decide)
  · intro rest hrestOk w' hrest
    have hproductive : Along step (Productive txInterrupt) w rest := hrestOk.mono fun _ _ h => h.1
    have hguard : Along step (fun w a => Traffic a ∧ InTime w a) w rest :=
      hrestOk.mono fun _ _ h => ⟨traffic_of_productive h.1, h.2⟩
    have hsending' : Sending w' := exec_invariant sending_step hsending hguard hrest
    refine ⟨measure.length_le_rank hrest hproductive, fun hend => ?_⟩
    have hatRest := (atRest_iff rfl w').mpr hend
    have hsettled := settled_of_atRest hatRest hsending'.live
    have hwhole : exec step (start buf tc) (run ++ rest) = some w' := by
      rw [exec_append, hrun]
      exact hrest
    refine ⟨(busy_eq_false_iff _).mpr hsettled, ?_, ?_⟩
    · have hb := hsending'.balanced
      rw [hatRest.handler] at hb
      have hcount : w'.shared.txStarts = w'.shared.txEnds + w'.shared.inTransmission.toNat := hb
      rwa [hsettled.2, Bool.toNat_false, Nat.add_zero] at hcount
    · exact (exec_streams carrying hbuf tc hwhole).wire_eq hatRest.handler hatRest.idle hsettled.1

/-- One byte is queued and written, and moves to the shift register. -/
def sendOne : List Action :=
  [.call (.transmitData [1]), .resume .clearTc, .resume .disableTcie, .resume .enableTxeie, .enter,
    .serve, .serve, .serve, .serve, .serve, .serve, .serve, .serve, .serve, .hardware .load]

def emptyPass : List Action :=
  [.enter, .serve, .serve, .serve, .serve, .serve, .serve, .serve, .serve, .serve]

/-- When that interrupt comes after the byte has left, TC is cleared for ever. -/
theorem lateInterrupt_stalls :
    ∃ w, exec step (start (BoundedQueue.empty UInt8 4) true)
        (sendOne ++ .hardware .finish :: emptyPass) = some w ∧ Stalled w :=
  ⟨_, rfl, ⟨rfl, rfl, ⟨rfl, rfl⟩, rfl⟩, rfl⟩

/-- When it comes before, the transmission ends. -/
theorem noStall_of_inTime_sendOne :
    ∃ w, exec step (start (BoundedQueue.empty UInt8 4) true) (sendOne ++ emptyPass) = some w ∧
      ¬Stalled w :=
  ⟨_, rfl, (@noStall_of_inTime _ _ (BoundedQueue.empty UInt8 4) rfl true (sendOne ++ emptyPass)
    (by decide) _ rfl).1⟩

end UniHal.Uart.Stm32h7
