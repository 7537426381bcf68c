import UniHal.Foundations.BitField
import UniHal.Foundations.Execution

/-! # The error callback of FDCAN

The peripheral shows its error state as levels in the protocol status and raises a flag at
every change of a level, in either direction. The interrupt handler acknowledges the flags
first and reads the levels afterwards, and levels can change between any two of its steps.
-/

namespace UniHal.Can.Fdcan.ErrorState
open Foundations.BitField Foundations.Execution

/-- The bits of `uni_hal_can_error_e`. -/
def errorWarning : BitVec 32 := BitVec.twoPow 32 0
def errorPassive : BitVec 32 := BitVec.twoPow 32 1
def errorBusOff : BitVec 32 := BitVec.twoPow 32 2
def errorRxOverrun : BitVec 32 := BitVec.twoPow 32 3
def errorRxDropped : BitVec 32 := BitVec.twoPow 32 4
def errorRecovered : BitVec 32 := BitVec.twoPow 32 5

/-- Error warning, error passive and bus-off: a level each in `PSR`, a flag each in `IR`. -/
structure Status where
  ew : Bool
  ep : Bool
  bo : Bool
  deriving DecidableEq, Repr

def Status.clear : Status := ⟨false, false, false⟩

def Status.or (a b : Status) : Status := ⟨a.ew || b.ew, a.ep || b.ep, a.bo || b.bo⟩

def Status.acknowledge (a written : Status) : Status :=
  ⟨a.ew && !written.ew, a.ep && !written.ep, a.bo && !written.bo⟩

def Status.changes (a b : Status) : Status := ⟨a.ew != b.ew, a.ep != b.ep, a.bo != b.bo⟩

/-- The errors that `_uni_hal_can_irq_error` reports for its flags and the protocol status. -/
def errorsOf (flags psr : Status) : BitVec 32 :=
  (if flags.ew && psr.ew then errorWarning else 0) |||
  (if flags.ep && psr.ep then errorPassive else 0) |||
  (if flags.bo && psr.bo then errorBusOff else 0)

inductive Handler
  | idle
  /-- `flags` is read from `IR`, nothing is acknowledged yet -/
  | entered (flags : Status)
  /-- acknowledged, in the part for the RX FIFOs -/
  | acknowledged (flags : Status)
  /-- at the start of `_uni_hal_can_irq_error` -/
  | error (flags : Status)
  /-- the protocol status is read, nothing is reported yet -/
  | report (flags psr : Status)
  /-- the errors are reported -/
  | recovery (flags psr : Status)
  deriving DecidableEq, Repr

structure State where
  autoBusOff : Bool
  /-- `CCCR.INIT` -/
  init : Bool
  psr : Status
  ir : Status
  handler : Handler
  countErr : BitVec 32
  errors : BitVec 32
  /-- the arguments of the calls of the error callback, in order -/
  reports : List (BitVec 32)
  deriving DecidableEq, Repr

inductive Action
  /-- the peripheral changes its error state -/
  | change (psr : Status)
  /-- the interrupt is taken, for these flags or for others -/
  | irq
  | isrStep
  /-- the handler reports a lost or a dropped frame -/
  | rxError (dropped : Bool)
  deriving DecidableEq, Repr

/-- `_uni_hal_can_report` with an error callback registered -/
def State.report (s : State) (errors : BitVec 32) (counted : Bool) : State :=
  if errors = 0 then s
  else { s with
    countErr := if counted then s.countErr + 1 else s.countErr
    errors := s.errors ||| (errors &&& ~~~errorRecovered)
    reports := s.reports ++ [errors] }

def State.goto (s : State) (handler : Handler) : State := { s with handler := handler }

/-- Clearing `INIT` starts the recovery from bus-off. -/
def State.leaveBusOff (s : State) (flags psr : Status) : State :=
  if flags.bo && psr.bo && s.autoBusOff then { s with init := false } else s

def recoveredFrom (flags psr : Status) : Bool := (flags.ep || flags.bo) && !(psr.ep || psr.bo)

def isrStep (s : State) : Handler → Option State
  | .idle => none
  | .entered flags => some ({ s with ir := s.ir.acknowledge flags }.goto (.acknowledged flags))
  | .acknowledged flags =>
    some (s.goto (if flags.ew || flags.ep || flags.bo then .error flags else .idle))
  | .error flags => some (s.goto (.report flags s.psr))
  | .report flags psr =>
    some (((s.leaveBusOff flags psr).report (errorsOf flags psr) true).goto (.recovery flags psr))
  | .recovery flags psr =>
    some ((if recoveredFrom flags psr then s.report errorRecovered false else s).goto .idle)

def step (s : State) : Action → Option State
  | .change psr => some { s with psr := psr, ir := s.ir.or (s.psr.changes psr) }
  | .irq => if s.handler = .idle then some (s.goto (.entered s.ir)) else none
  | .isrStep => isrStep s s.handler
  | .rxError dropped =>
    match s.handler with
    | .acknowledged _ =>
      some (if dropped then s.report errorRxDropped false else s.report errorRxOverrun true)
    | _ => none

/-- The error was reported, and no recovery after it. -/
def Outstanding (error : BitVec 32) (reports : List (BitVec 32)) : Prop :=
  ∃ before report after, reports = before ++ report :: after ∧ anySet report error = true ∧
    anySet report errorRecovered = false ∧ ∀ r ∈ after, anySet r errorRecovered = false

/-- The callback knows the error state of the node. -/
def Tracks (s : State) : Prop :=
  (s.psr.ep = false → s.psr.bo = false →
    ¬ Outstanding errorPassive s.reports ∧ ¬ Outstanding errorBusOff s.reports) ∧
  (s.psr.bo = true → Outstanding errorBusOff s.reports) ∧
  (s.psr.ep = true → Outstanding errorPassive s.reports)

/-- No flag is pending and the handler is not running. -/
def Quiet (s : State) : Prop := s.ir = .clear ∧ s.handler = .idle

theorem not_outstanding_nil (error : BitVec 32) : ¬ Outstanding error [] := by
  rintro ⟨before, report, after, heq, -⟩
  simp at heq

theorem outstanding_concat (error : BitVec 32) (reports : List (BitVec 32)) (r : BitVec 32) :
    Outstanding error (reports ++ [r]) ↔ anySet r errorRecovered = false ∧
      (anySet r error = true ∨ Outstanding error reports) := by
  constructor
  · rintro ⟨before, report, after, heq, herr, hrec, hafter⟩
    rcases List.eq_nil_or_concat after with rfl | ⟨init, last, rfl⟩
    · obtain ⟨-, hlast⟩ := List.append_inj' heq rfl
      simp only [List.cons.injEq, and_true] at hlast
      subst hlast
      exact ⟨hrec, .inl herr⟩
    · rw [List.concat_eq_append] at heq hafter
      rw [← List.cons_append, ← List.append_assoc] at heq
      obtain ⟨hinit, hlast⟩ := List.append_inj' heq rfl
      simp only [List.cons.injEq, and_true] at hlast
      subst hlast
      refine ⟨hafter _ (by simp), .inr ⟨before, report, init, hinit, herr, hrec, ?_⟩⟩
      exact fun r hr => hafter r (List.mem_append_left _ hr)
  · rintro ⟨hrec, herr | ⟨before, report, after, rfl, herr, hrec', hafter⟩⟩
    · exact ⟨reports, r, [], rfl, herr, hrec, by simp⟩
    · refine ⟨before, report, after ++ [r], by simp, herr, hrec', fun r' hr' => ?_⟩
      rcases List.mem_append.mp hr' with h | h
      · exact hafter r' h
      · rw [List.mem_singleton.mp h]
        exact hrec

section Report
variable (s : State) (counted : Bool) (flags psr : Status) (handler : Handler)

@[simp] theorem goto_psr : (s.goto handler).psr = s.psr := rfl
@[simp] theorem goto_ir : (s.goto handler).ir = s.ir := rfl
@[simp] theorem goto_reports : (s.goto handler).reports = s.reports := rfl
@[simp] theorem goto_handler : (s.goto handler).handler = handler := rfl

@[simp] theorem leaveBusOff_psr : (s.leaveBusOff flags psr).psr = s.psr := by
  simp only [State.leaveBusOff]
  split <;> rfl

@[simp] theorem leaveBusOff_ir : (s.leaveBusOff flags psr).ir = s.ir := by
  simp only [State.leaveBusOff]
  split <;> rfl

@[simp] theorem leaveBusOff_reports : (s.leaveBusOff flags psr).reports = s.reports := by
  simp only [State.leaveBusOff]
  split <;> rfl

@[simp] theorem report_psr (errors : BitVec 32) : (s.report errors counted).psr = s.psr := by
  simp only [State.report]
  split <;> rfl

@[simp] theorem report_ir (errors : BitVec 32) : (s.report errors counted).ir = s.ir := by
  simp only [State.report]
  split <;> rfl

@[simp] theorem report_handler (errors : BitVec 32) :
    (s.report errors counted).handler = s.handler := by
  simp only [State.report]
  split <;> rfl

theorem outstanding_report {errors : BitVec 32} (h : anySet errors errorRecovered = false)
    (error : BitVec 32) : Outstanding error (s.report errors counted).reports ↔
      anySet errors error = true ∨ Outstanding error s.reports := by
  by_cases h0 : errors = 0
  · simp [State.report, h0, anySet]
  · simp only [State.report, if_neg h0, outstanding_concat, h, true_and]

theorem not_outstanding_recovered (error : BitVec 32) :
    ¬ Outstanding error (s.report errorRecovered counted).reports := by
  have h0 : errorRecovered ≠ 0 := by decide
  have hrec : anySet errorRecovered errorRecovered = true := by decide
  simp only [State.report, if_neg h0, outstanding_concat, hrec, Bool.true_eq_false, false_and,
    not_false_eq_true]

end Report

theorem errorsOf_recovered (flags psr : Status) :
    anySet (errorsOf flags psr) errorRecovered = false := by
  obtain ⟨ew, ep, bo⟩ := flags
  obtain ⟨ew', ep', bo'⟩ := psr
  revert ew ep bo ew' ep' bo'
  decide

theorem errorsOf_passive (flags psr : Status) :
    anySet (errorsOf flags psr) errorPassive = (flags.ep && psr.ep) := by
  obtain ⟨ew, ep, bo⟩ := flags
  obtain ⟨ew', ep', bo'⟩ := psr
  revert ew ep bo ew' ep' bo'
  decide

theorem errorsOf_busOff (flags psr : Status) :
    anySet (errorsOf flags psr) errorBusOff = (flags.bo && psr.bo) := by
  obtain ⟨ew, ep, bo⟩ := flags
  obtain ⟨ew', ep', bo'⟩ := psr
  revert ew ep bo ew' ep' bo'
  decide

/-- What the callback was told about these levels: an error that is there was reported unless
its flag is among `raised`, and with neither error there nothing is outstanding unless a flag
is among `ending`. -/
structure Told (reports : List (BitVec 32)) (psr raised ending : Status) : Prop where
  passive : psr.ep = true → Outstanding errorPassive reports ∨ raised.ep = true
  busOff : psr.bo = true → Outstanding errorBusOff reports ∨ raised.bo = true
  recovered : psr.ep = false → psr.bo = false →
    Outstanding errorPassive reports ∨ Outstanding errorBusOff reports →
      ending.ep = true ∨ ending.bo = true

/-- A level that is not the one that was read has raised its flag. -/
structure Flagged (psr ir read : Status) : Prop where
  ep : psr.ep = read.ep ∨ ir.ep = true
  bo : psr.bo = read.bo ∨ ir.bo = true

def Inv (s : State) : Prop :=
  match s.handler with
  | .idle | .entered _ => Told s.reports s.psr s.ir s.ir
  | .acknowledged flags | .error flags =>
    Told s.reports s.psr (s.ir.or flags) (s.ir.or flags)
  | .report flags psr =>
    Flagged s.psr s.ir psr ∧ Told s.reports psr (s.ir.or flags) (s.ir.or flags)
  | .recovery flags psr =>
    Flagged s.psr s.ir psr ∧ Told s.reports psr s.ir (s.ir.or flags)

theorem Told.mono {reports : List (BitVec 32)} {psr raised ending raised' ending' : Status}
    (h : Told reports psr raised ending) (hep : raised.ep = true → raised'.ep = true)
    (hbo : raised.bo = true → raised'.bo = true)
    (hend : ending.ep = true ∨ ending.bo = true → ending'.ep = true ∨ ending'.bo = true) :
    Told reports psr raised' ending' where
  passive hlevel := (h.passive hlevel).imp_right hep
  busOff hlevel := (h.busOff hlevel).imp_right hbo
  recovered hep' hbo' hout := hend (h.recovered hep' hbo' hout)

/-- New levels are covered by the flags of their changes. -/
theorem Told.change {reports : List (BitVec 32)} {psr raised : Status}
    (h : Told reports psr raised raised) (new : Status) {raised' : Status}
    (hep : raised.ep = true ∨ psr.ep ≠ new.ep → raised'.ep = true)
    (hbo : raised.bo = true ∨ psr.bo ≠ new.bo → raised'.bo = true) :
    Told reports new raised' raised' where
  passive hlevel := by
    by_cases hsame : psr.ep = new.ep
    · exact (h.passive (hsame.trans hlevel)).imp_right fun hr => hep (.inl hr)
    · exact .inr (hep (.inr hsame))
  busOff hlevel := by
    by_cases hsame : psr.bo = new.bo
    · exact (h.busOff (hsame.trans hlevel)).imp_right fun hr => hbo (.inl hr)
    · exact .inr (hbo (.inr hsame))
  recovered hep' hbo' hout := by
    by_cases hsameEp : psr.ep = new.ep
    · by_cases hsameBo : psr.bo = new.bo
      · exact (h.recovered (hsameEp.trans hep') (hsameBo.trans hbo') hout).imp
          (fun hr => hep (.inl hr)) fun hr => hbo (.inl hr)
      · exact .inr (hbo (.inr hsameBo))
    · exact .inl (hep (.inr hsameEp))

theorem Flagged.change {psr ir read : Status} (h : Flagged psr ir read) (new : Status) :
    Flagged new (ir.or (psr.changes new)) read where
  ep := by
    have := h.ep
    by_cases hsame : psr.ep = new.ep
    · simpa [Status.or, Status.changes, hsame] using this
    · simp [Status.or, Status.changes, hsame]
  bo := by
    have := h.bo
    by_cases hsame : psr.bo = new.bo
    · simpa [Status.or, Status.changes, hsame] using this
    · simp [Status.or, Status.changes, hsame]

theorem change_inv {s : State} (h : Inv s) (psr : Status) :
    Inv { s with psr := psr, ir := s.ir.or (s.psr.changes psr) } := by
  cases hh : s.handler <;> simp only [Inv, hh] at h ⊢
  case idle => apply h.change psr <;> simp [Status.or, Status.changes]
  case entered flags => apply h.change psr <;> simp [Status.or, Status.changes]
  case acknowledged flags => apply h.change psr <;> simp [Status.or, Status.changes] <;> tauto
  case error flags => apply h.change psr <;> simp [Status.or, Status.changes] <;> tauto
  case report flags read =>
    refine ⟨h.1.change psr, h.2.mono ?_ ?_ ?_⟩ <;> simp only [Status.or, Bool.or_eq_true] <;> tauto
  case recovery flags read =>
    refine ⟨h.1.change psr, h.2.mono ?_ ?_ ?_⟩ <;> simp only [Status.or, Bool.or_eq_true] <;> tauto

/-- The errors that are reported are those of the levels that were read and flagged. -/
theorem report_inv {s : State} {flags psr : Status} (hflagged : Flagged s.psr s.ir psr)
    (htold : Told s.reports psr (s.ir.or flags) (s.ir.or flags)) :
    Inv (((s.leaveBusOff flags psr).report (errorsOf flags psr) true).goto
      (.recovery flags psr)) := by
  have hout := outstanding_report (s.leaveBusOff flags psr) true (errorsOf_recovered flags psr)
  simp only [leaveBusOff_reports] at hout
  simp only [Inv, goto_handler, goto_psr, goto_ir, goto_reports, report_psr, report_ir,
    leaveBusOff_psr, leaveBusOff_ir]
  refine ⟨hflagged, ⟨fun hlevel => ?_, fun hlevel => ?_, fun hep hbo => ?_⟩⟩
  · have := htold.passive hlevel
    rw [hout, errorsOf_passive, hlevel, Bool.and_true]
    simp only [Status.or, Bool.or_eq_true] at this
    tauto
  · have := htold.busOff hlevel
    rw [hout, errorsOf_busOff, hlevel, Bool.and_true]
    simp only [Status.or, Bool.or_eq_true] at this
    tauto
  · rw [hout, hout, errorsOf_passive, errorsOf_busOff, hep, hbo]
    simpa using htold.recovered hep hbo

/-- Either the recovery is reported, or nothing had to be. -/
theorem recovery_inv {s : State} {flags psr : Status} (hflagged : Flagged s.psr s.ir psr)
    (htold : Told s.reports psr s.ir (s.ir.or flags)) :
    Inv ((if recoveredFrom flags psr then s.report errorRecovered false else s).goto .idle) := by
  by_cases hend : recoveredFrom flags psr = true
  · simp only [Inv, hend, if_true, goto_handler, goto_psr, goto_ir, goto_reports, report_psr,
      report_ir]
    simp only [recoveredFrom, Bool.and_eq_true, Bool.not_eq_true', Bool.or_eq_false_iff] at hend
    have hep := hflagged.ep
    have hbo := hflagged.bo
    rw [hend.2.1] at hep
    rw [hend.2.2] at hbo
    constructor
    · intro hlevel
      exact .inr (hep.resolve_left (by simp [hlevel]))
    · intro hlevel
      exact .inr (hbo.resolve_left (by simp [hlevel]))
    · intro _ _ hout
      exact absurd hout (by simp [not_outstanding_recovered])
  · simp only [Inv, hend, if_false, Bool.false_eq_true, goto_handler, goto_psr, goto_ir,
      goto_reports]
    constructor
    · intro hlevel
      rcases hflagged.ep with hsame | hraised
      · exact htold.passive (hsame ▸ hlevel)
      · exact .inr hraised
    · intro hlevel
      rcases hflagged.bo with hsame | hraised
      · exact htold.busOff (hsame ▸ hlevel)
      · exact .inr hraised
    · intro hep hbo hout
      rcases hflagged.ep with hsameEp | hraised
      · rcases hflagged.bo with hsameBo | hraised
        · -- the levels that were read are clear, so no flag of theirs was handled
          have hreadEp := hsameEp ▸ hep
          have hreadBo := hsameBo ▸ hbo
          have hnone : flags.ep = false ∧ flags.bo = false := by
            simpa [recoveredFrom, hreadEp, hreadBo] using hend
          simpa [Status.or, hnone] using htold.recovered hreadEp hreadBo hout
        · exact .inr hraised
      · exact .inl hraised

theorem isrStep_inv {s t : State} (h : Inv s) (hstep : isrStep s s.handler = some t) : Inv t := by
  cases hh : s.handler with
  | idle => simp [isrStep, hh] at hstep
  | entered flags =>
    simp only [Inv, hh] at h
    simp only [isrStep, hh, Option.some.injEq] at hstep
    subst hstep
    apply h.mono <;> simp only [Status.or, Status.acknowledge, State.goto, Bool.or_eq_true,
      Bool.and_eq_true, Bool.not_eq_true'] <;> grind
  | acknowledged flags =>
    simp only [Inv, hh] at h
    simp only [isrStep, hh, Option.some.injEq] at hstep
    subst hstep
    by_cases hany : (flags.ew || flags.ep || flags.bo) = true
    · simp only [Inv, hany, if_true, goto_handler]
      exact h
    · simp only [Inv, hany, if_false, Bool.false_eq_true, goto_handler]
      simp only [Bool.or_eq_true, not_or, Bool.not_eq_true] at hany
      apply h.mono <;> simp [Status.or, hany]
  | error flags =>
    simp only [Inv, hh] at h
    simp only [isrStep, hh, Option.some.injEq] at hstep
    subst hstep
    exact ⟨⟨.inl rfl, .inl rfl⟩, h⟩
  | report flags psr =>
    simp only [Inv, hh] at h
    simp only [isrStep, hh, Option.some.injEq] at hstep
    exact hstep ▸ report_inv h.1 h.2
  | recovery flags psr =>
    simp only [Inv, hh] at h
    simp only [isrStep, hh, Option.some.injEq] at hstep
    exact hstep ▸ recovery_inv h.1 h.2

theorem rxError_inv {s : State} {flags : Status} (h : Inv s) (hh : s.handler = .acknowledged flags)
    {errors : BitVec 32} (counted : Bool) (hrec : anySet errors errorRecovered = false)
    (hep : anySet errors errorPassive = false) (hbo : anySet errors errorBusOff = false) :
    Inv (s.report errors counted) := by
  have hout := outstanding_report s counted hrec
  simp only [Inv, hh] at h
  simp only [Inv, report_handler, hh, report_psr, report_ir]
  constructor
  · intro hlevel
    rw [hout, hep]
    simpa using h.passive hlevel
  · intro hlevel
    rw [hout, hbo]
    simpa using h.busOff hlevel
  · intro hclearEp hclearBo
    rw [hout, hout, hep, hbo]
    simpa using h.recovered hclearEp hclearBo

theorem step_inv (s : State) (a : Action) (t : State) (h : Inv s) (hstep : step s a = some t) :
    Inv t := by
  cases a with
  | change psr =>
    simp only [step, Option.some.injEq] at hstep
    exact hstep ▸ change_inv h psr
  | irq =>
    simp only [step] at hstep
    split at hstep
    · next hidle =>
      simp only [Option.some.injEq] at hstep
      simp only [Inv, hidle] at h
      exact hstep ▸ h
    · cases hstep
  | isrStep => exact isrStep_inv h hstep
  | rxError dropped =>
    cases hh : s.handler <;> simp only [step, hh, Option.some.injEq, reduceCtorEq] at hstep
    subst hstep
    cases dropped with
    | true =>
      simp only [if_true]
      apply rxError_inv h hh <;> decide
    | false =>
      simp only [Bool.false_eq_true, if_false]
      apply rxError_inv h hh <;> decide

/-- The node is error active when the callback is registered; flags may still be pending. -/
structure Registered (s : State) : Prop where
  ep : s.psr.ep = false
  bo : s.psr.bo = false
  idle : s.handler = .idle
  reports : s.reports = []

theorem Registered.inv {s : State} (h : Registered s) : Inv s := by
  simp only [Inv, h.idle, h.reports]
  constructor
  · simp [h.ep]
  · simp [h.bo]
  · simp [not_outstanding_nil]

/-- Whenever no flag is pending and the handler is not running, the error callback knows the
error state of the node. -/
theorem errorCallback_tracks (s t : State) (as : List Action) (h : Registered s)
    (hrun : exec step s as = some t) (hquiet : Quiet t) : Tracks t := by
  have hinv := exec_invariant_of_step step_inv h.inv hrun
  simp only [Inv, hquiet.2, hquiet.1, Status.clear] at hinv
  refine ⟨fun hep hbo => ?_, fun hbo => ?_, fun hep => ?_⟩
  · have hnone := hinv.recovered hep hbo
    simp only [Bool.false_eq_true, or_self, imp_false, not_or] at hnone
    exact hnone
  · exact (hinv.busOff hbo).resolve_right (by simp)
  · exact (hinv.passive hep).resolve_right (by simp)

/-- A node that leaves error passive while the handler stands between the acknowledge and the
read of the protocol status, and that goes bus-off later. -/
theorem errorCallback_tracks_late : ∃ t,
    exec step ⟨true, false, .clear, .clear, .idle, 0, 0, []⟩
      [.change ⟨true, true, false⟩, .irq, .isrStep, .isrStep, .change .clear, .isrStep, .isrStep,
        .isrStep, .irq, .isrStep, .isrStep, .isrStep, .isrStep, .isrStep,
        .change ⟨true, true, true⟩, .irq, .isrStep, .isrStep, .isrStep, .isrStep, .isrStep] =
      some t ∧
    t.reports = [errorRecovered, errorRecovered, errorWarning ||| errorPassive ||| errorBusOff] ∧
    Tracks t :=
  ⟨_, rfl, rfl, errorCallback_tracks ⟨true, false, .clear, .clear, .idle, 0, 0, []⟩ _
    [.change ⟨true, true, false⟩, .irq, .isrStep, .isrStep, .change .clear, .isrStep, .isrStep,
      .isrStep, .irq, .isrStep, .isrStep, .isrStep, .isrStep, .isrStep,
      .change ⟨true, true, true⟩, .irq, .isrStep, .isrStep, .isrStep, .isrStep, .isrStep]
    ⟨rfl, rfl, rfl, rfl⟩ rfl ⟨rfl, rfl⟩⟩

end UniHal.Can.Fdcan.ErrorState
