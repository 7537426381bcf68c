import UniHal.Uart.Stm32l4.NoStorm
import UniHal.Uart.Stm32l4.Progress

/-! # What keeps the STM32L4 transmitter going

A transmission that is marked will be ended: the TXE interrupt stays enabled until the handler
sees TC, and the TC interrupt with it.
-/

namespace UniHal.Uart.Stm32l4
open Foundations Execution Interleaving Io

variable {B : Type*} [Buffer B]

def finishing : Option Irq → Bool
  | some .endReadInTransmission | some .endDisableTxeie | some .endDisableTcie
  | some .endClearTc | some .endInTransmission => true
  | _ => false

def starting : Option Irq → Bool
  | some .readTxe | some .readInTransmission | some .setInTransmission => true
  | _ => false

instance : DecidablePred OfTrigger := fun _ => inferInstanceAs (Decidable (_ ∨ _ ∨ _))

/-- Bytes in the buffer will be sent, and a transmission that is marked will be ended. -/
structure Live (w : World B) : Prop extends Calm w where
  ends : w.shared.inTransmission = true →
    w.shared.txeie = true ∨ TriggerPending w ∨ finishing w.handler = true
  starts : starting w.handler = true → w.shared.txeie = true ∨ TriggerPending w
  tcie : w.shared.txeie = true → w.shared.tcie = true ∨ Pending OfTrigger w.calls

/-- The order of the steps is kept, and the TC interrupt is not disabled while the TXE interrupt
is enabled, unless a trigger is still to enable it. -/
def KeepsTcie (w : World B) (a : Action) : Prop :=
  InOrder w a ∧ (a = .serve → w.handler = some .endDisableTcie → w.shared.txeie = true →
    Pending OfTrigger w.calls)

instance (w : World B) (a : Action) : Decidable (KeepsTcie w a) :=
  inferInstanceAs (Decidable (_ ∧ (_ → _)))

theorem start_live {buf : B} (hbuf : Buffer.bytes buf = []) (tc : Bool) : Live (start buf tc) where
  toCalm := start_calm hbuf tc
  ends h := nomatch h
  starts h := nomatch h
  tcie h := nomatch h

theorem live_hardware {w w' : World B} (hw : Live w) {e : Hardware}
    (h : step w (.hardware e) = some w') : Live w' := by
  have hcalm := calm_hardware hw.toCalm h
  obtain ⟨v, hv, rfl⟩ := step_hardware_eq_some.mp h
  obtain ⟨-, hin, htxeie, htcie, -⟩ := hardware_software hv
  refine ⟨hcalm, ?_, ?_, ?_⟩
  · simp only [hin, htxeie]
    exact hw.ends
  · simp only [htxeie]
    exact hw.starts
  · simp only [htxeie, htcie]
    exact hw.tcie

theorem live_transmitData {w w' : World B} (hw : Live w) {data : List UInt8}
    (h : step w (.call (.transmitData data)) = some w') : Live w' := by
  have hcalm := calm_transmitData hw.toCalm h
  cases h
  have hpending : Pending (fun c => isTrigger c = true) (Call.clearTc :: w.calls) :=
    ⟨.clearTc, List.mem_cons_self, rfl⟩
  refine ⟨hcalm, ?_, ?_, ?_⟩
  · exact fun _ => Or.inr (Or.inl hpending)
  · exact fun _ => Or.inr hpending
  · exact fun _ => Or.inr ⟨.clearTc, List.mem_cons_self, Or.inl rfl⟩

theorem live_resume {w w' : World B} (hw : Live w) {c : Call} (hc : OfTrigger c)
    (ha : InOrder w (.resume c)) (h : step w (.resume c) = some w') : Live w' := by
  have hcalm := calm_resume hw.toCalm hc ha h
  obtain ⟨-, rfl⟩ := step_resume_eq_some.mp h
  rcases hc with rfl | rfl | rfl
  · have hpending : Pending (fun c => isTrigger c = true)
        (replace w.calls .clearTc (some .enableTxeie)) :=
      ⟨.enableTxeie, List.mem_cons_self, rfl⟩
    refine ⟨hcalm, ?_, ?_, ?_⟩
    · exact fun _ => Or.inr (Or.inl hpending)
    · exact fun _ => Or.inr hpending
    · exact fun _ => Or.inr ⟨.enableTxeie, List.mem_cons_self, Or.inr (Or.inl rfl)⟩
  · refine ⟨hcalm, ?_, ?_, ?_⟩
    · exact fun _ => Or.inl rfl
    · exact fun _ => Or.inl rfl
    · exact fun _ => Or.inr ⟨.enableTcie, List.mem_cons_self, Or.inr (Or.inr rfl)⟩
  · have hkeeps : TriggerPending w → Pending (fun c => isTrigger c = true)
        (replace w.calls .enableTcie none) :=
      fun hpending => hpending.replace fun hno => absurd hno (by decide)
    refine ⟨hcalm, ?_, ?_, ?_⟩
    · exact fun hin => (hw.ends hin).imp_right (Or.imp_left hkeeps)
    · exact fun hstarting => (hw.starts hstarting).imp_right hkeeps
    · exact fun _ => Or.inl rfl

theorem live_enter {w w' : World B} (hw : Live w) (h : step w .enter = some w') : Live w' := by
  have hcalm := calm_enter hw.toCalm h
  obtain ⟨hnone, rfl⟩ := step_enter_eq_some.mp h
  have hends := hw.ends
  rw [hnone] at hends
  exact ⟨hcalm, hends, fun hno => absurd hno Bool.false_ne_true, hw.tcie⟩

theorem ends_serve {h : Irq} {u : Transmitter B} {p : Prop}
    (hends : u.inTransmission = true → u.txeie = true ∨ p ∨ finishing (some h) = true)
    (hstarts : starting (some h) = true → u.txeie = true ∨ p) :
    (serve h u).1.inTransmission = true →
      (serve h u).1.txeie = true ∨ p ∨ finishing (serve h u).2 = true := by
  cases h with
  | setInTransmission => exact fun _ => (hstarts rfl).imp_right Or.inl
  | endDisableTxeie | endDisableTcie | endClearTc => exact fun _ => Or.inr (Or.inr rfl)
  | endInTransmission => exact fun hno => absurd hno Bool.false_ne_true
  | endReadInTransmission =>
    cases hin : u.inTransmission with
    | true =>
      simp only [serve, hin, if_true]
      exact fun _ => Or.inr (Or.inr rfl)
    | false =>
      simp only [serve, hin]
      exact fun hno => absurd hno Bool.false_ne_true
  | readTc =>
    simp only [serve]
    split
    · exact fun _ => Or.inr (Or.inr rfl)
    · exact hends
  | readTxeie | readTxe | readInTransmission | pop | readTcie =>
    simp only [serve]
    split <;> exact hends
  | transmit _ | count | endCallback => exact hends

theorem starts_serve {h : Irq} {u : Transmitter B} {p : Prop}
    (hstarts : starting (some h) = true → u.txeie = true ∨ p) :
    starting (serve h u).2 = true → (serve h u).1.txeie = true ∨ p := by
  cases h with
  | readTxeie =>
    simp only [serve]
    split
    · rename_i htxeie
      exact fun _ => Or.inl htxeie
    · exact fun hno => absurd hno Bool.false_ne_true
  | readTxe =>
    simp only [serve]
    split
    · exact hstarts
    · exact fun hno => absurd hno Bool.false_ne_true
  | readInTransmission =>
    simp only [serve]
    split
    · exact fun hno => absurd hno Bool.false_ne_true
    · exact hstarts
  | pop | readTcie | readTc | endReadInTransmission =>
    simp only [serve]
    split <;> exact fun hno => absurd hno Bool.false_ne_true
  | setInTransmission | transmit _ | count | endDisableTxeie | endDisableTcie | endClearTc
  | endInTransmission | endCallback => exact fun hno => absurd hno Bool.false_ne_true

theorem tcie_serve {h : Irq} {u : Transmitter B} {p : Prop}
    (htcie : u.txeie = true → u.tcie = true ∨ p)
    (hoff : h = .endDisableTcie → u.txeie = true → p) :
    (serve h u).1.txeie = true → (serve h u).1.tcie = true ∨ p := by
  cases h with
  | endDisableTxeie => exact fun hno => absurd hno Bool.false_ne_true
  | endDisableTcie => exact fun htxeie => Or.inr (hoff rfl htxeie)
  | readInTransmission | pop =>
    simp only [serve]
    split <;> exact htcie
  | readTxeie | readTxe | setInTransmission | transmit _ | count | readTcie | readTc
  | endReadInTransmission | endClearTc | endInTransmission | endCallback => exact htcie

theorem live_serve {w w' : World B} (hw : Live w) (ha : KeepsTcie w .serve)
    (h : step w .serve = some w') : Live w' := by
  have hcalm := calm_serve hw.toCalm ha.1 h
  obtain ⟨irq, hirq, rfl⟩ := step_serve_eq_some.mp h
  have hends := hw.ends
  have hstarts := hw.starts
  rw [hirq] at hends hstarts
  refine ⟨hcalm, ends_serve hends hstarts, starts_serve hstarts, tcie_serve hw.tcie ?_⟩
  intro heq
  exact ha.2 rfl (hirq.trans (congrArg some heq))

theorem settled_of_atRest {w : World B} (hrest : AtRest txInterrupt w) (hw : Live w) :
    Settled w.shared := by
  have hinterrupt := hrest.interrupt
  obtain ⟨htdr, hshift⟩ := hrest.idle
  simp only [txInterrupt, sendInterrupt, endInterrupt, Transmitter.txe, htdr, Option.isNone_none,
    Bool.and_true, Bool.or_eq_false_iff] at hinterrupt
  obtain ⟨hsend, hend⟩ := hinterrupt
  have hnone : ∀ P : Call → Prop, ¬Pending P w.calls := by
    rw [hrest.calls]
    exact not_pending_nil
  have hempty : Buffer.bytes w.shared.bufTx = [] := by
    by_contra hbytes
    have htxeie := (hw.sends hbytes).resolve_right (hnone _)
    simp [htxeie, hbytes] at hsend
  refine ⟨hempty, ?_⟩
  by_contra hmarked
  have hin := Bool.eq_true_of_not_eq_false hmarked
  have htxeie : w.shared.txeie = true := by
    rcases hw.ends hin with htxeie | hpending | hfinishing
    · exact htxeie
    · exact absurd hpending (hnone _)
    · rw [hrest.handler] at hfinishing
      cases hfinishing
  have htcie := (hw.tcie htxeie).resolve_right (hnone _)
  have hdrained : Drained w := ⟨⟨htdr, hshift⟩, hempty, by rw [hrest.handler]; rfl⟩
  rcases hw.stops htxeie hdrained with htc | hending | ⟨hending, -⟩
  · rw [htcie, htc, hin] at hend
    cases hend
  · rw [hrest.handler] at hending
    cases hending
  · rw [hrest.handler] at hending
    cases hending

end UniHal.Uart.Stm32l4
