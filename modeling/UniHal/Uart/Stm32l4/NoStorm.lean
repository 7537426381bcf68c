import UniHal.Uart.Stream

/-! # The STM32L4 transmitter between storm and stall

The TXE interrupt stays enabled until TC ends the transmission. If TC is lost while it is, the
interrupt is entered again and again with nothing to do; if it is disabled while there are bytes
in the buffer, they stay there.
-/

namespace UniHal.Uart.Stm32l4
open Foundations Execution Interleaving Io

variable {B : Type*} [Buffer B]

def isTrigger : Call → Bool
  | .clearTc | .enableTxeie => true
  | _ => false

abbrev TriggerPending (w : World B) : Prop := Pending (fun c => isTrigger c = true) w.calls

/-- No byte is left in the buffer, in the handler or in the registers. -/
def Drained (w : World B) : Prop :=
  w.shared.Idle ∧ Buffer.bytes w.shared.bufTx = [] ∧ held w.handler = []

instance (w : World B) : Decidable (Drained w) := inferInstanceAs (Decidable (_ ∧ _ ∧ _))

/-- The handler has seen TC and is about to disable the TXE interrupt. -/
def Ending (w : World B) : Prop :=
  w.handler = some .endDisableTxeie ∨
    w.handler = some .endReadInTransmission ∧ w.shared.inTransmission = true

instance (w : World B) : Decidable (Ending w) := inferInstanceAs (Decidable (_ ∨ _))

/-- The interrupt is entered for ever without progress. -/
def Storm (w : World B) : Prop :=
  w.handler = none ∧ w.shared.txeie = true ∧ w.shared.tdr = none ∧
    Buffer.bytes w.shared.bufTx = [] ∧ w.shared.shift = none ∧ w.shared.tc = false

/-- Bytes stay in the buffer. -/
def Stranded (w : World B) : Prop :=
  w.handler = none ∧ Buffer.bytes w.shared.bufTx ≠ [] ∧ w.shared.txeie = false ∧
    ¬TriggerPending w

/-- TC is cleared, and the TXE interrupt enabled, only while there is a byte to send, TC excepted
that is still to be seen; and the interrupt is disabled for an empty buffer only. -/
def InOrder (w : World B) (a : Action) : Prop :=
  (a = .resume .clearTc → w.shared.txeie = true → Drained w → Ending w) ∧
  (a = .resume .enableTxeie → Drained w → w.shared.tc = true ∨ Ending w) ∧
  (a = .serve → w.handler = some .endClearTc → w.shared.txeie = true → ¬Drained w) ∧
  (a = .serve → w.handler = some .endDisableTxeie →
    Buffer.bytes w.shared.bufTx = [] ∨ TriggerPending w)

instance (w : World B) (a : Action) : Decidable (InOrder w a) :=
  inferInstanceAs (Decidable ((_ → _) ∧ (_ → _) ∧ (_ → _) ∧ (_ → _)))

/-- Whoever waits for an interrupt will get it, and no interrupt comes for nothing. -/
structure Calm (w : World B) : Prop where
  sends : Buffer.bytes w.shared.bufTx ≠ [] → w.shared.txeie = true ∨ TriggerPending w
  stops : w.shared.txeie = true → Drained w → w.shared.tc = true ∨ Ending w

theorem start_calm {buf : B} (hbuf : Buffer.bytes buf = []) (tc : Bool) : Calm (start buf tc) where
  sends h := absurd hbuf h
  stops h := nomatch h

theorem calm_hardware {w w' : World B} (hw : Calm w) {e : Hardware}
    (h : step w (.hardware e) = some w') : Calm w' := by
  obtain ⟨v, hv, rfl⟩ := step_hardware_eq_some.mp h
  obtain ⟨hbuf, -, htxeie, -⟩ := hardware_software hv
  constructor
  · simp only [hbuf, htxeie]
    exact hw.sends
  · rintro - ⟨hidle, -⟩
    exact Or.inl ((tc_or_not_idle_hardware hv).resolve_right fun hno => hno hidle)

theorem calm_transmitData {w w' : World B} (hw : Calm w) {data : List UInt8}
    (h : step w (.call (.transmitData data)) = some w') : Calm w' := by
  cases h
  constructor
  · intro _
    exact Or.inr ⟨.clearTc, List.mem_cons_self, rfl⟩
  · rintro htxeie ⟨hidle, hempty, hheld⟩
    have hbytes : Buffer.bytes w.shared.bufTx = [] := by
      have happend := Buffer.bytes_write w.shared.bufTx data
      exact (List.append_eq_nil_iff.mp (happend.symm.trans hempty)).1
    exact hw.stops htxeie ⟨hidle, hbytes, hheld⟩

/-- The steps of `_uni_hal_usart_tx_trigger`. -/
def OfTrigger (c : Call) : Prop := c = .clearTc ∨ c = .enableTxeie ∨ c = .enableTcie

theorem calm_resume {w w' : World B} (hw : Calm w) {c : Call} (hc : OfTrigger c)
    (ha : InOrder w (.resume c)) (h : step w (.resume c) = some w') : Calm w' := by
  obtain ⟨-, rfl⟩ := step_resume_eq_some.mp h
  rcases hc with rfl | rfl | rfl
  · constructor
    · intro _
      exact Or.inr ⟨.enableTxeie, List.mem_cons_self, rfl⟩
    · exact fun htxeie hdrained => Or.inr (ha.1 rfl htxeie hdrained)
  · constructor
    · exact fun _ => Or.inl rfl
    · exact fun _ hdrained => ha.2.1 rfl hdrained
  · constructor
    · intro hbytes
      refine (hw.sends hbytes).imp_right fun hpending => ?_
      exact hpending.replace fun hno => absurd hno (by decide)
    · exact hw.stops

theorem calm_enter {w w' : World B} (hw : Calm w) (h : step w .enter = some w') : Calm w' := by
  obtain ⟨hnone, rfl⟩ := step_enter_eq_some.mp h
  constructor
  · exact hw.sends
  · rintro htxeie ⟨hidle, hempty, -⟩
    have hdrained : Drained w := ⟨hidle, hempty, by rw [hnone]; rfl⟩
    refine (hw.stops htxeie hdrained).imp_right fun hending => ?_
    rcases hending with hend | ⟨hend, -⟩
    · rw [hnone] at hend
      cases hend
    · rw [hnone] at hend
      cases hend

/-- A step of the handler that changes neither the buffer nor the registers, and is neither at
the end of a transmission nor on the way there. -/
theorem calm_of_eq {w w' : World B} (hw : Calm w) (hcalls : w'.calls = w.calls)
    (hbuf : w'.shared.bufTx = w.shared.bufTx) (htdr : w'.shared.tdr = w.shared.tdr)
    (hshift : w'.shared.shift = w.shared.shift) (htc : w'.shared.tc = w.shared.tc)
    (htxeie : w'.shared.txeie = w.shared.txeie) (hheld : held w'.handler = held w.handler)
    (hending : Ending w → Ending w') : Calm w' := by
  constructor
  · rw [hbuf, htxeie, TriggerPending, hcalls]
    exact hw.sends
  · rw [htxeie, htc]
    rintro hon ⟨⟨hidle, hidle'⟩, hempty, hnone⟩
    rw [htdr] at hidle
    rw [hshift] at hidle'
    rw [hbuf] at hempty
    rw [hheld] at hnone
    exact (hw.stops hon ⟨⟨hidle, hidle'⟩, hempty, hnone⟩).imp_right hending

theorem calm_pop {w : World B} (hw : Calm w) (hirq : w.handler = some .pop) :
    Calm ⟨(serve .pop w.shared).1, w.calls, (serve .pop w.shared).2⟩ := by
  have hgot := Buffer.read_fst w.shared.bufTx 1 0
  have hleft := Buffer.bytes_read w.shared.bufTx 1 0
  have hheld : held w.handler = [] := by
    rw [hirq]
    rfl
  cases hbytes : Buffer.bytes w.shared.bufTx with
  | nil =>
    rw [hbytes] at hgot hleft
    simp only [serve, hgot, List.take_nil]
    constructor
    · exact fun hsome => absurd hleft hsome
    · rintro hon ⟨hidle, -⟩
      refine Or.inl ((hw.stops hon ⟨hidle, hbytes, hheld⟩).resolve_right ?_)
      rintro (hend | ⟨hend, -⟩)
      · cases hirq.symm.trans hend
      · cases hirq.symm.trans hend
  | cons data rest =>
    rw [hbytes] at hgot
    simp only [serve, hgot, List.take_succ_cons]
    constructor
    · exact fun _ => hw.sends (by rw [hbytes]; exact List.cons_ne_nil data rest)
    · rintro - ⟨-, -, hnone⟩
      cases hnone

theorem calm_endReadInTransmission {w : World B} (hw : Calm w)
    (hirq : w.handler = some .endReadInTransmission) :
    Calm ⟨(serve .endReadInTransmission w.shared).1, w.calls,
      (serve .endReadInTransmission w.shared).2⟩ := by
  cases hin : w.shared.inTransmission with
  | true =>
    simp only [serve, hin, if_true]
    refine calm_of_eq hw rfl rfl rfl rfl rfl rfl ?_ fun _ => Or.inl rfl
    rw [hirq]
    rfl
  | false =>
    simp only [serve, hin, Bool.false_eq_true, if_false]
    refine calm_of_eq hw rfl rfl rfl rfl rfl rfl ?_ ?_
    · rw [hirq]
      rfl
    · rintro (hend | ⟨-, hin'⟩)
      · cases hirq.symm.trans hend
      · exact absurd (hin.symm.trans hin') (by decide)

theorem calm_endClearTc {w : World B} (hw : Calm w) (hirq : w.handler = some .endClearTc)
    (hmore : w.shared.txeie = true → ¬Drained w) :
    Calm ⟨(serve .endClearTc w.shared).1, w.calls, (serve .endClearTc w.shared).2⟩ := by
  constructor
  · exact hw.sends
  · rintro hon ⟨hidle, hempty, -⟩
    have hheld : held w.handler = [] := by
      rw [hirq]
      rfl
    exact absurd ⟨hidle, hempty, hheld⟩ (hmore hon)

theorem calm_serve {w w' : World B} (hw : Calm w) (ha : InOrder w .serve)
    (h : step w .serve = some w') : Calm w' := by
  obtain ⟨irq, hirq, rfl⟩ := step_serve_eq_some.mp h
  have hending : irq ≠ .endDisableTxeie → irq ≠ .endReadInTransmission → ¬Ending w := by
    rintro h1 h2 (hend | ⟨hend, -⟩)
    · exact h1 (Option.some.inj (hirq.symm.trans hend))
    · exact h2 (Option.some.inj (hirq.symm.trans hend))
  change Calm ⟨(serve irq w.shared).1, w.calls, (serve irq w.shared).2⟩
  cases irq with
  | pop => exact calm_pop hw hirq
  | endReadInTransmission => exact calm_endReadInTransmission hw hirq
  | endClearTc => exact calm_endClearTc hw hirq (ha.2.2.1 rfl hirq)
  | transmit data =>
    constructor
    · exact hw.sends
    · rintro - ⟨⟨htdr, -⟩, -⟩
      cases htdr
  | endDisableTxeie =>
    constructor
    · intro hbytes
      exact Or.inr ((ha.2.2.2 rfl hirq).resolve_left hbytes)
    · exact fun hoff => absurd hoff Bool.false_ne_true
  | readTxeie | readTxe | readInTransmission | readTcie | readTc =>
    have hno := hending (by decide) (by decide)
    simp only [serve]
    split
    all_goals
      refine calm_of_eq hw rfl rfl rfl rfl rfl rfl ?_ fun h => absurd h hno
      rw [hirq]
      rfl
  | setInTransmission | count | endDisableTcie | endInTransmission | endCallback =>
    have hno := hending (by decide) (by decide)
    refine calm_of_eq hw rfl rfl rfl rfl rfl rfl ?_ fun h => absurd h hno
    rw [hirq]
    rfl

theorem calm_step {w w' : World B} {a : Action} (hw : Calm w) (ha : InOrder w a)
    (htraffic : Traffic a) (htrigger : ∀ c, a = .resume c → OfTrigger c)
    (h : step w a = some w') : Calm w' := by
  cases a with
  | hardware e => exact calm_hardware hw h
  | call r =>
    cases r with
    | transmitData data => exact calm_transmitData hw h
    | irqEnable value => exact htraffic.elim
  | resume c => exact calm_resume hw (htrigger c rfl) ha h
  | enter => exact calm_enter hw h
  | serve => exact calm_serve hw ha h

/-- What holds along a run of calls of `uni_hal_io_transmit_data`. -/
structure Sending (w : World B) : Prop where
  calm : Calm w
  triggers : ∀ c ∈ w.calls, OfTrigger c

omit [Buffer B] in
theorem ofTrigger_resume {c : Call} (hc : OfTrigger c) {u : Transmitter B} {d : Call}
    (hd : (resume c u).2 = some d) : OfTrigger d := by
  rcases hc with rfl | rfl | rfl
  · cases hd
    exact Or.inr (Or.inl rfl)
  · cases hd
    exact Or.inr (Or.inr rfl)
  · cases hd

theorem sending_step (w : World B) (a : Action) (w' : World B) (hw : Sending w)
    (ha : Traffic a ∧ InOrder w a) (h : step w a = some w') : Sending w' where
  calm := by
    refine calm_step hw.calm ha.2 ha.1 ?_ h
    rintro c rfl
    exact hw.triggers c (step_resume_eq_some.mp h).1
  triggers := triggers_step (fun data u c hc => by cases hc; exact Or.inl rfl)
    (fun c u hc d hd => ofTrigger_resume hc hd) hw.triggers ha.1 h

theorem not_storm_of_calm {w : World B} (hw : Calm w) : ¬Storm w := by
  rintro ⟨hnone, htxeie, htdr, hempty, hshift, htc⟩
  have hheld : held w.handler = [] := by
    rw [hnone]
    rfl
  rcases hw.stops htxeie ⟨⟨htdr, hshift⟩, hempty, hheld⟩ with htc' | hend | ⟨hend, -⟩
  · exact absurd (htc.symm.trans htc') (by decide)
  · rw [hnone] at hend
    cases hend
  · rw [hnone] at hend
    cases hend

theorem not_stranded_of_calm {w : World B} (hw : Calm w) : ¬Stranded w := by
  rintro ⟨-, hbytes, htxeie, hpending⟩
  rcases hw.sends hbytes with htxeie' | hpending'
  · exact absurd (htxeie.symm.trans htxeie') (by decide)
  · exact hpending hpending'

/-- A run of `uni_hal_io_transmit_data` calls of any length, interrupts and hardware steps that
keeps the order reaches neither a storm nor a state with stranded bytes. -/
theorem noStorm_of_inOrder {buf : B} (hbuf : Buffer.bytes buf = []) (tc : Bool)
    {run : List Action} (hok : Along step (fun w a => Traffic a ∧ InOrder w a) (start buf tc) run)
    {w : World B} (hrun : exec step (start buf tc) run = some w) : ¬Storm w ∧ ¬Stranded w := by
  have hsending : Sending w :=
    exec_invariant sending_step ⟨start_calm hbuf tc, fun _ h => nomatch h⟩ hok hrun
  exact ⟨not_storm_of_calm hsending.calm, not_stranded_of_calm hsending.calm⟩

def callOf (data : List UInt8) : List Action :=
  [.call (.transmitData data), .resume .clearTc, .resume .enableTxeie, .resume .enableTcie]

/-- The interrupt that writes the first byte of a transmission. -/
def firstPass : List Action :=
  [.enter, .serve, .serve, .serve, .serve, .serve, .serve, .serve, .serve, .serve]

/-- The byte is sent, and the next interrupt comes as far as seeing TC. -/
def untilTc : List Action :=
  [.hardware .load, .hardware .finish, .enter, .serve, .serve, .serve, .serve, .serve, .serve,
    .serve]

def endPass : List Action := [.serve, .serve, .serve, .serve, .serve]

/-- A call for no bytes on a transmitter at rest lets the interrupt storm; a call for one byte
that comes between the test of TC and the end of the transmission leaves it in the buffer. -/
theorem emptyCall_storms :
    (∃ w, exec step (start (BoundedQueue.empty UInt8 4) true) (callOf []) = some w ∧ Storm w) ∧
    (∃ w, exec step (start (BoundedQueue.empty UInt8 4) true)
        (callOf [1] ++ firstPass ++ untilTc ++ callOf [2] ++ endPass) = some w ∧ Stranded w) :=
  ⟨⟨_, rfl, rfl, rfl, rfl, rfl, rfl, rfl⟩,
    ⟨_, rfl, rfl, List.cons_ne_nil _ _, rfl, not_pending_nil _⟩⟩

theorem noStorm_of_inOrder_one :
    ∃ w, exec step (start (BoundedQueue.empty UInt8 4) true)
        (callOf [1] ++ firstPass ++ untilTc ++ endPass) = some w ∧
      ¬Storm w ∧ ¬Stranded w :=
  ⟨_, rfl, @noStorm_of_inOrder _ _ (BoundedQueue.empty UInt8 4) rfl true
    (callOf [1] ++ firstPass ++ untilTc ++ endPass) (by decide) _ rfl⟩

end UniHal.Uart.Stm32l4
