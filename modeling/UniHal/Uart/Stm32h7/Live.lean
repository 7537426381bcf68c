import UniHal.Uart.Stm32h7.Progress

/-! # What keeps the STM32H7 transmitter going

While there is something to send, a trigger is on its way, or the TXE interrupt is enabled, or
the TC interrupt is enabled with TC set or still to come, or the handler is about to see to it.
Three instants of the handler can break this.
-/

namespace UniHal.Uart.Stm32h7
open Foundations Execution Interleaving Io

variable {B : Type*} [Buffer B]

def isTrigger : Call → Bool
  | .clearTc | .disableTcie | .enableTxeie => true
  | _ => false

abbrev TriggerPending (w : World B) : Prop := Pending (fun c => isTrigger c = true) w.calls

def AwaitsTc (u : Transmitter B) : Prop :=
  u.inTransmission = true ∧ u.tcie = true ∧ (u.tc = true ∨ ¬u.Idle)

def Driven (h : Option Irq) (u : Transmitter B) : Prop :=
  match h with
  | some (.disableTcie _) | some (.readInTransmission _) | some (.setInTransmission _) =>
    u.txeie = true
  | some .readTxe | some .pop | some (.transmit _) | some .unusedDisableTcie =>
    Settled u ∨ u.txeie = true
  | some .disableTxeie | some .endDisableTxeie | some .moreDisableTcie
  | some .moreEnableTxeie => True
  | some .emptyReadInTransmission | some .emptyClearTc | some .endClearTc
  | some .endReadInTransmission | some .endReadBuffer =>
    u.inTransmission = true ∨ Buffer.bytes u.bufTx = [] ∨ u.txeie = true
  | some .emptyEnableTcie =>
    Settled u ∨ u.txeie = true ∨ u.inTransmission = true ∧ (u.tc = true ∨ ¬u.Idle)
  | some .endDisableTcie | some .endInTransmission =>
    Buffer.bytes u.bufTx = [] ∨ u.txeie = true
  | none | some .readTxeie | some .count | some .readTcie | some .readTc | some .endCallback =>
    Settled u ∨ u.txeie = true ∨ AwaitsTc u

def Live (w : World B) : Prop := TriggerPending w ∨ Driven w.handler w.shared

/-- The handler does not switch off what it, or a call that came in between, still needs: TC is
not cleared after the last byte has left, and the TXE interrupt is not disabled for a buffer that
has been filled again. -/
def InTime (w : World B) (a : Action) : Prop :=
  a = .serve →
    (w.handler = some .emptyClearTc → w.shared.inTransmission = true →
      ¬w.shared.Idle ∨ w.shared.txeie = true ∨ TriggerPending w) ∧
    (w.handler = some .disableTxeie →
      w.shared.inTransmission = true ∨ Buffer.bytes w.shared.bufTx = [] ∨ TriggerPending w) ∧
    (w.handler = some .endDisableTxeie →
      Buffer.bytes w.shared.bufTx = [] ∨ TriggerPending w)

instance (w : World B) (a : Action) : Decidable (InTime w a) :=
  inferInstanceAs (Decidable (_ → _))

theorem driven_hardware {u v : Transmitter B} {e : Hardware} (hv : u.hardware e = some v)
    (h : Option Irq) (hd : Driven h u) : Driven h v := by
  obtain ⟨hbuf, hin, htxeie, htcie, -⟩ := hardware_software hv
  have htc := tc_or_not_idle_hardware hv
  unfold Driven Settled AwaitsTc at *
  rw [hbuf, hin, htxeie, htcie]
  split at hd <;> first
    | exact hd
    | exact hd.imp_right (Or.imp_right fun h => ⟨h.1, h.2.1, htc⟩)
    | exact hd.imp_right (Or.imp_right fun h => ⟨h.1, htc⟩)

/-- Once the TXE interrupt is enabled nothing else is needed. -/
theorem driven_of_txeie {u : Transmitter B} (htxeie : u.txeie = true) (h : Option Irq) :
    Driven h u := by
  unfold Driven
  split <;> simp [htxeie]

theorem live_transmitData (w : World B) (data : List UInt8) {w' : World B}
    (h : step w (.call (.transmitData data)) = some w') : Live w' := by
  cases h
  exact Or.inl ⟨.clearTc, List.mem_cons_self, rfl⟩

/-- A trigger stays pending until it has enabled the TXE interrupt. -/
theorem live_trigger {w w' : World B} {c : Call} (hc : isTrigger c = true)
    (h : step w (.resume c) = some w') : Live w' := by
  obtain ⟨-, rfl⟩ := step_resume_eq_some.mp h
  cases c with
  | clearTc => exact Or.inl ⟨.disableTcie, List.mem_cons_self, rfl⟩
  | disableTcie => exact Or.inl ⟨.enableTxeie, List.mem_cons_self, rfl⟩
  | enableTxeie => exact Or.inr (driven_of_txeie rfl _)
  | _ => cases hc

theorem live_enter {w w' : World B} (hw : Live w) (h : step w .enter = some w') : Live w' := by
  obtain ⟨hnone, rfl⟩ := step_enter_eq_some.mp h
  rcases hw with hpending | hd
  · exact Or.inl hpending
  · rw [hnone] at hd
    exact Or.inr hd

theorem settled_or_txeie {u : Transmitter B} (hin : u.inTransmission = false)
    (h : u.inTransmission = true ∨ Buffer.bytes u.bufTx = [] ∨ u.txeie = true) :
    Settled u ∨ u.txeie = true := by
  rcases h with hin' | hnil | htxeie
  · exact absurd (hin.symm.trans hin') (by decide)
  · exact Or.inl ⟨hnil, hin⟩
  · exact Or.inr htxeie

theorem driven_pop {u : Transmitter B} (hd : Settled u ∨ u.txeie = true) :
    Driven (serve .pop u).2 (serve .pop u).1 := by
  simp only [serve]
  split
  · trivial
  · rename_i data rest hgot
    rw [Buffer.read_fst] at hgot
    rcases hd with ⟨hnil, -⟩ | htxeie
    · rw [hnil, List.take_nil] at hgot
      cases hgot
    · exact htxeie

/-- After the last byte has left, TC would not come again. -/
theorem driven_emptyClearTc {u : Transmitter B}
    (hclear : u.inTransmission = true → ¬u.Idle ∨ u.txeie = true)
    (hd : u.inTransmission = true ∨ Buffer.bytes u.bufTx = [] ∨ u.txeie = true) :
    Driven (serve .emptyClearTc u).2 (serve .emptyClearTc u).1 := by
  cases hin : u.inTransmission with
  | true =>
    rcases hclear hin with hbusy | htxeie
    · exact Or.inr (Or.inr ⟨hin, Or.inr hbusy⟩)
    · exact Or.inr (Or.inl htxeie)
  | false => exact (settled_or_txeie hin hd).imp_right Or.inl

theorem driven_readTc {u : Transmitter B} (hd : Settled u ∨ u.txeie = true ∨ AwaitsTc u) :
    Driven (serve .readTc u).2 (serve .readTc u).1 := by
  simp only [serve]
  split
  · rcases hd with ⟨hnil, -⟩ | htxeie | ⟨hin, -⟩
    · exact Or.inr (Or.inl hnil)
    · exact Or.inr (Or.inr htxeie)
    · exact Or.inl hin
  · exact hd

/-- The three instants are where the handler switches something off. -/
theorem driven_serve {w : World B} {irq : Irq} (hirq : w.handler = some irq) (ha : InTime w .serve)
    (hno : ¬TriggerPending w) (hd : Driven (some irq) w.shared) :
    Driven (serve irq w.shared).2 (serve irq w.shared).1 := by
  obtain ⟨hclear, hempty, hend⟩ := ha rfl
  cases irq with
  | emptyClearTc =>
    refine driven_emptyClearTc (fun hin => ?_) hd
    exact (hclear hirq hin).imp_right fun h => h.resolve_right hno
  | disableTxeie =>
    rcases hempty hirq with hin | hnil | hpending
    · exact Or.inl hin
    · exact Or.inr (Or.inl hnil)
    · exact absurd hpending hno
  | endDisableTxeie => exact Or.inl ((hend hirq).resolve_right hno)
  | pop => exact driven_pop hd
  | readTc => exact driven_readTc hd
  | readTxeie =>
    simp only [serve]
    split
    · rename_i htxeie
      exact Or.inr htxeie
    · exact hd
  | readTxe =>
    simp only [serve]
    split
    · exact hd
    · exact hd.imp_right Or.inl
  | readInTransmission data =>
    simp only [serve]
    split
    · exact Or.inr hd
    · exact hd
  | emptyReadInTransmission =>
    simp only [serve]
    split
    · exact hd
    · rename_i hin
      exact (settled_or_txeie (Bool.eq_false_of_not_eq_true hin) hd).imp_right Or.inl
  | endReadInTransmission =>
    simp only [serve]
    split
    · exact hd
    · rename_i hin
      exact settled_or_txeie (Bool.eq_false_of_not_eq_true hin) hd
  | readTcie =>
    simp only [serve]
    split <;> exact hd
  | endReadBuffer =>
    simp only [serve]
    split <;> trivial
  | emptyEnableTcie => exact hd.imp_right (Or.imp_right fun h => ⟨h.1, rfl, h.2⟩)
  | endInTransmission => exact hd.imp (fun hnil => ⟨hnil, rfl⟩) Or.inl
  | unusedDisableTcie => exact hd.imp_right Or.inl
  | transmit data => exact hd.imp_right Or.inl
  | setInTransmission data => exact Or.inr hd
  | moreDisableTcie => trivial
  | moreEnableTxeie => exact Or.inr (Or.inl rfl)
  | disableTcie data | count | endClearTc | endDisableTcie | endCallback => exact hd

theorem live_serve {w w' : World B} (hw : Live w) (ha : InTime w .serve)
    (h : step w .serve = some w') : Live w' := by
  obtain ⟨irq, hirq, rfl⟩ := step_serve_eq_some.mp h
  by_cases hpending : TriggerPending w
  · exact Or.inl hpending
  · have hd := hw.resolve_left hpending
    rw [hirq] at hd
    exact Or.inr (driven_serve hirq ha hpending hd)

theorem live_hardware {w w' : World B} (hw : Live w) {e : Hardware}
    (h : step w (.hardware e) = some w') : Live w' := by
  obtain ⟨v, hv, rfl⟩ := step_hardware_eq_some.mp h
  exact hw.imp_right (driven_hardware hv w.handler)

theorem live_step {w w' : World B} {a : Action} (hw : Live w) (ha : InTime w a)
    (htraffic : Traffic a) (htrigger : ∀ c, a = .resume c → isTrigger c = true)
    (h : step w a = some w') : Live w' := by
  cases a with
  | hardware e => exact live_hardware hw h
  | call r =>
    cases r with
    | transmitData data => exact live_transmitData w data h
    | irqEnable value => exact htraffic.elim
  | resume c => exact live_trigger (htrigger c rfl) h
  | enter => exact live_enter hw h
  | serve => exact live_serve hw ha h

theorem settled_of_atRest {w : World B} (hrest : AtRest txInterrupt w) (hw : Live w) :
    Settled w.shared := by
  have hinterrupt := hrest.interrupt
  obtain ⟨htdr, hshift⟩ := hrest.idle
  simp only [txInterrupt, Transmitter.txe, htdr, Option.isNone_none, Bool.and_true,
    Bool.or_eq_false_iff] at hinterrupt
  obtain ⟨htxeie, htc⟩ := hinterrupt
  rcases hw with hpending | hd
  · rw [TriggerPending, hrest.calls] at hpending
    exact absurd hpending (not_pending_nil _)
  · rw [hrest.handler] at hd
    rcases hd with hsettled | htxeie' | ⟨-, htcie, htc' | hbusy⟩
    · exact hsettled
    · exact absurd (htxeie'.symm.trans htxeie) (by decide)
    · rw [htcie, htc'] at htc
      exact absurd htc (by decide)
    · exact absurd ⟨htdr, hshift⟩ hbusy

end UniHal.Uart.Stm32h7
