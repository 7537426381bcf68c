import UniHal.Spi.Stm32h7.BusyExclusion
import UniHal.Foundations.Execution

/-! # The ends of asynchronous transfers

Tasks start and abort asynchronous transfers of one SPI statement after statement, and the
interrupt at the end of a transfer comes between any two of them. Its callback starts and aborts
transfers too, within the interrupt.
-/

namespace UniHal.Spi.Stm32h7.EndsOnce
open Foundations Execution

/-- What `uni_hal_spi_transceive_async` is called with. -/
structure Request where
  dataRx : Option UInt32
  dataTx : Option UInt32
  len : UInt32
  deriving DecidableEq, Repr

def Request.Valid (c : Config) (r : Request) : Prop := AsyncValid c r.dataRx r.dataTx r.len

instance (c : Config) (r : Request) : Decidable (r.Valid c) :=
  inferInstanceAs (Decidable (AsyncValid c r.dataRx r.dataTx r.len))

/-- The next statement of a call in progress. An abort that has disabled the interrupt knows
which transfer it stops. -/
inductive Pc
  | select (r : Request)
  | setUpRx (r : Request)
  | setUpTx (r : Request)
  | setSize (r : Request)
  | enableEot (r : Request)
  | enable
  | startMaster
  | disableEot
  | disableTxp (stopped : Option ℕ)
  | stopStreams (stopped : Option ℕ)
  | disableDmaReq (stopped : Option ℕ)
  | disable (stopped : Option ℕ)
  | clearFlags (stopped : Option ℕ)
  | deselect (stopped : Option ℕ)
  | finish (stopped : Option ℕ)
  deriving DecidableEq, Repr

/-- The end of a transfer, by an abort that returns true or by the completion interrupt. There is
no transfer when it had ended before. -/
structure Ending where
  byAbort : Bool
  transfer : Option ℕ
  deriving DecidableEq, Repr

structure World (τ : Type*) where
  spi : State
  /-- the transfer that has been started and not been ended yet -/
  live : Option ℕ
  started : ℕ
  ended : List Ending
  calls : τ → Option Pc

inductive CallbackCall
  | async (r : Request)
  | abort
  deriving DecidableEq, Repr

variable {τ : Type*}

namespace World

def accept (w : World τ) : World τ := { w with live := some w.started, started := w.started + 1 }

def onSpi (w : World τ) (f : State → State) : World τ := { w with spi := f w.spi }

/-- One call of the callback, which runs within the interrupt to its end. No transfer is
requested while the SPI is busy. -/
def callbackCall (c : Config) (w : World τ) : CallbackCall → Option (World τ)
  | .async r =>
    if w.spi.isBusy then none
    else
      let result := transceiveAsync c r.dataRx r.dataTx r.len w.spi
      some (if result.1 then { w.accept with spi := result.2 } else w)
  | .abort =>
    let result := Stm32h7.abort c w.spi
    some (if result.1 then
      { w with spi := result.2, live := none, ended := ⟨true, w.live⟩ :: w.ended }
    else w)

def callback (c : Config) (w : World τ) : List CallbackCall → Option (World τ)
  | [] => some w
  | k :: ks => (w.callbackCall c k).bind fun w => w.callback c ks

/-- `SPIx_IRQHandler` up to the callback: the live transfer is completed. -/
def complete (c : Config) (w : World τ) : World τ :=
  { w with spi := w.spi.irqHandler c, live := none, ended := ⟨false, w.live⟩ :: w.ended }

/-- The interrupt is requested by `EOT` while `EOTIE` is set. -/
def interrupt (c : Config) (w : World τ) (calls : List CallbackCall) : Option (World τ) :=
  if w.spi.flags.eot = true ∧ w.spi.eotIe = true then (w.complete c).callback c calls else none

def endOfTransfer (w : World τ) (flags : Flags) : Option (World τ) :=
  if w.spi.active then
    some (w.onSpi fun s => { s with active := false, flags := { flags with eot := true } })
  else none

variable [DecidableEq τ]

def goTo (w : World τ) (t : τ) (pc : Pc) : World τ :=
  { w with calls := Function.update w.calls t (some pc) }

def ret (w : World τ) (t : τ) : World τ := { w with calls := Function.update w.calls t none }

/-- `uni_hal_spi_transceive_async` up to its bookkeeping. No transfer is requested while the SPI
is busy. -/
def async (c : Config) (w : World τ) (t : τ) (r : Request) : Option (World τ) :=
  if w.spi.isBusy then none
  else if w.spi.inited = true ∧ r.Valid c then
    some ((w.accept.onSpi (State.begin r.dataRx r.len)).goTo t (.select r))
  else some w

/-- `uni_hal_spi_abort` up to its look at `uni_hal_spi_is_busy` -/
def abort (w : World τ) (t : τ) : World τ := if w.spi.isBusy then w.goTo t .disableEot else w

def resume (c : Config) (w : World τ) (t : τ) : Pc → World τ
  | .select r => (w.onSpi (State.nssSet c false)).goTo t (.setUpRx r)
  | .setUpRx r => (w.onSpi (State.setUpRx r.dataRx r.len)).goTo t (.setUpTx r)
  | .setUpTx r => (w.onSpi (State.setUpTx r.dataTx r.len)).goTo t (.setSize r)
  | .setSize r => (w.onSpi (State.setTransferSize r.len)).goTo t (.enableEot r)
  | .enableEot _ => (w.onSpi State.enableItEot).goTo t .enable
  | .enable =>
    let w := w.onSpi (State.enable c)
    if c.mode = .master then w.goTo t .startMaster else w.ret t
  | .startMaster => (w.onSpi State.startMasterTransfer).ret t
  | .disableEot =>
    { w.onSpi State.disableItEot with live := none }.goTo t (.disableTxp w.live)
  | .disableTxp x => (w.onSpi State.disableItTxp).goTo t (.stopStreams x)
  | .stopStreams x => (w.onSpi (State.stopStreams c)).goTo t (.disableDmaReq x)
  | .disableDmaReq x => (w.onSpi State.disableDmaReq).goTo t (.disable x)
  | .disable x => (w.onSpi State.disable).goTo t (.clearFlags x)
  | .clearFlags x => (w.onSpi State.clearFlags).goTo t (.deselect x)
  | .deselect x => (w.onSpi (State.nssSet c true)).goTo t (.finish x)
  | .finish x => { w.onSpi State.endProcess with ended := ⟨true, x⟩ :: w.ended }.ret t

end World

inductive Action (τ : Type*)
  | async (t : τ) (r : Request)
  | abort (t : τ)
  | resume (t : τ)
  | endOfTransfer (flags : Flags)
  | interrupt (calls : List CallbackCall)

variable [DecidableEq τ]

def step (c : Config) (w : World τ) : Action τ → Option (World τ)
  | .async t r => if w.calls t = none then w.async c t r else none
  | .abort t => if w.calls t = none then some (w.abort t) else none
  | .resume t => (w.calls t).map (w.resume c t)
  | .endOfTransfer flags => w.endOfTransfer flags
  | .interrupt calls => w.interrupt c calls

/-- After `uni_hal_spi_init` -/
def start (spi : State) : World τ where
  spi := spi
  live := none
  started := 0
  ended := []
  calls _ := none

/-- What `uni_hal_spi_init` leaves: nothing is in process, and no device is selected. -/
structure Initial (c : Config) (spi : State) : Prop where
  inited : spi.inited = true
  inProcess : spi.inProcess = false
  eotIe : spi.eotIe = false
  active : spi.active = false
  eot : spi.flags.eot = false
  nss : c.softNss = true → spi.nss = true

/-- The transfers that have ended. -/
def World.endedTransfers (w : World τ) : List ℕ := w.ended.filterMap Ending.transfer

/-- No function is in progress. -/
def World.Outside (w : World τ) : Prop := ∀ t, w.calls t = none

/-- Every transfer ends once, and the chip select belongs to the transfer in process. -/
structure Sound (c : Config) (w : World τ) : Prop where
  /-- an interrupt completes a transfer, and an abort that returns true has stopped one -/
  ended : ∀ e ∈ w.ended, e.transfer ≠ none
  once : w.endedTransfers.Nodup
  /-- no transfer is lost -/
  all : w.Outside → ∀ id, id < w.started ↔ id ∈ w.endedTransfers ∨ w.live = some id
  live : ∀ id, w.live = some id → id ∉ w.endedTransfers
  process : w.Outside → (w.spi.inProcess = true ↔ w.live ≠ none)
  nss : w.Outside → c.softNss = true → (w.spi.nss = false ↔ w.spi.inProcess = true)

def Pc.Starting : Pc → Prop
  | .select _ | .setUpRx _ | .setUpTx _ | .setSize _ | .enableEot _ | .enable | .startMaster => True
  | _ => False

/-- An abort disables the interrupt only while a transfer is there to be stopped, and is set up. -/
def AbortsLive (w : World τ) : Action τ → Prop
  | .resume t => w.calls t = some .disableEot →
    w.live ≠ none ∧ ∀ u pc, w.calls u = some pc → ¬ pc.Starting
  | _ => True

instance : DecidablePred Pc.Starting
  | .select _ | .setUpRx _ | .setUpTx _ | .setSize _ | .enableEot _ | .enable | .startMaster =>
    .isTrue trivial
  | .disableEot | .disableTxp _ | .stopStreams _ | .disableDmaReq _ | .disable _ | .clearFlags _
  | .deselect _ | .finish _ => .isFalse id

instance [Fintype τ] (w : World τ) : ∀ a, Decidable (AbortsLive w a)
  | .resume t => inferInstanceAs (Decidable (w.calls t = some .disableEot →
      w.live ≠ none ∧ ∀ u, ∀ pc ∈ w.calls u, ¬ pc.Starting))
  | .async _ _ | .abort _ | .endOfTransfer _ | .interrupt _ => .isTrue trivial

section Inversion
variable {c : Config} {w w' : World τ}

theorem step_async_eq_some {t : τ} {r : Request} : step c w (.async t r) = some w' ↔
    w.calls t = none ∧ w.spi.isBusy = false ∧
      (if w.spi.inited = true ∧ r.Valid c then
        (w.accept.onSpi (State.begin r.dataRx r.len)).goTo t (.select r) else w) = w' := by
  by_cases hcall : w.calls t = none
  · cases hbusy : w.spi.isBusy
    · by_cases hvalid : w.spi.inited = true ∧ r.Valid c <;>
        simp [step, World.async, hcall, hbusy, hvalid]
    · simp [step, World.async, hcall, hbusy]
  · simp [step, hcall]

theorem step_abort_eq_some {t : τ} :
    step c w (.abort t) = some w' ↔ w.calls t = none ∧ w.abort t = w' := by
  by_cases hcall : w.calls t = none <;> simp [step, hcall]

theorem step_resume_eq_some {t : τ} :
    step c w (.resume t) = some w' ↔ ∃ pc, w.calls t = some pc ∧ w.resume c t pc = w' :=
  Option.map_eq_some_iff

theorem step_endOfTransfer_eq_some {flags : Flags} :
    step c w (.endOfTransfer flags) = some w' ↔ w.spi.active = true ∧
      w.onSpi (fun s => { s with active := false, flags := { flags with eot := true } }) = w' := by
  cases hactive : w.spi.active <;> simp [step, World.endOfTransfer, hactive]

theorem step_interrupt_eq_some {calls : List CallbackCall} :
    step c w (.interrupt calls) = some w' ↔
      (w.spi.flags.eot = true ∧ w.spi.eotIe = true) ∧
        (w.complete c).callback c calls = some w' := by
  by_cases hrequest : w.spi.flags.eot = true ∧ w.spi.eotIe = true <;>
    simp [step, World.interrupt, hrequest]

theorem calls_goTo {t u : τ} {pc qc : Pc} :
    (w.goTo t pc).calls u = some qc ↔ u = t ∧ pc = qc ∨ u ≠ t ∧ w.calls u = some qc := by
  by_cases hut : u = t <;> simp [World.goTo, hut]

theorem calls_ret {t u : τ} {qc : Pc} :
    (w.ret t).calls u = some qc ↔ u ≠ t ∧ w.calls u = some qc := by
  by_cases hut : u = t <;> simp [World.ret, hut]

end Inversion

/-- No transfer moves, and none has just ended. -/
def Quiet (s : State) : Prop := s.active = false ∧ s.flags.eot = false

/-- A transfer is in process, with the interrupt and the chip select as told. -/
structure InProcess (c : Config) (eotIe selected : Bool) (s : State) : Prop where
  inited : s.inited = true
  inProcess : s.inProcess = true
  eotIe : s.eotIe = eotIe
  nss : c.softNss = true → s.nss = !selected

structure Idle (c : Config) (s : State) : Prop where
  inited : s.inited = true
  inProcess : s.inProcess = false
  eotIe : s.eotIe = false
  quiet : Quiet s
  nss : c.softNss = true → s.nss = true

def CallInv (c : Config) (s : State) : Pc → Prop
  | .select _ => InProcess c false false s ∧ Quiet s
  | .setUpRx _ | .setUpTx _ | .setSize _ | .enableEot _ => InProcess c false true s ∧ Quiet s
  | .enable | .startMaster => InProcess c true true s ∧ Quiet s
  | .disableEot => False
  | .disableTxp _ | .stopStreams _ | .disableDmaReq _ | .disable _ => InProcess c false true s
  | .clearFlags _ => InProcess c false true s ∧ s.active = false
  | .deselect _ => InProcess c false true s ∧ Quiet s
  | .finish _ => InProcess c false false s ∧ Quiet s

inductive Phase (τ : Type*)
  | idle
  | running
  | call (t : τ) (pc : Pc)

def SpiInv (c : Config) (s : State) : Phase τ → Prop
  | .idle => Idle c s
  | .running => InProcess c true true s
  | .call _ pc => CallInv c s pc

def Pc.stopped : Pc → Option ℕ
  | .disableTxp x | .stopStreams x | .disableDmaReq x | .disable x | .clearFlags x | .deselect x
  | .finish x => x
  | _ => none

def Phase.HasLive : Phase τ → Prop
  | .idle => False
  | .running => True
  | .call _ pc => pc.Starting

def Phase.stopped : Phase τ → Option ℕ
  | .call _ pc => pc.stopped
  | _ => none

namespace InProcess
variable {c : Config} {eotIe selected : Bool} {s : State}

theorem nssSet (h : InProcess c eotIe selected s) (level : Bool) :
    InProcess c eotIe (!level) (s.nssSet c level) := by
  rw [nssSet_eq]
  refine ⟨h.inited, h.inProcess, h.eotIe, fun hsoft => ?_⟩
  rw [if_pos hsoft, Bool.not_not]

/-- What neither the interrupt nor the chip select depends on. -/
theorem congr (h : InProcess c eotIe selected s) {s' : State} (hinited : s'.inited = s.inited)
    (hprocess : s'.inProcess = s.inProcess) (heotIe : s'.eotIe = s.eotIe)
    (hnss : s'.nss = s.nss) : InProcess c eotIe selected s' :=
  ⟨hinited.trans h.inited, hprocess.trans h.inProcess, heotIe.trans h.eotIe,
    fun hsoft => hnss.trans (h.nss hsoft)⟩

theorem setUpRx (h : InProcess c eotIe selected s) (dataRx : Option UInt32) (len : UInt32) :
    InProcess c eotIe selected (s.setUpRx dataRx len) := by
  rw [setUpRx_eq]
  exact h.congr rfl rfl rfl rfl

theorem setUpTx (h : InProcess c eotIe selected s) (dataTx : Option UInt32) (len : UInt32) :
    InProcess c eotIe selected (s.setUpTx dataTx len) := by
  rw [setUpTx_eq]
  exact h.congr rfl rfl rfl rfl

theorem setTransferSize (h : InProcess c eotIe selected s) (len : UInt32) :
    InProcess c eotIe selected (s.setTransferSize len) :=
  h.congr rfl rfl rfl rfl

theorem enable (h : InProcess c eotIe selected s) :
    InProcess c eotIe selected (s.enable c) :=
  h.congr rfl rfl rfl rfl

theorem startIfMaster (h : InProcess c eotIe selected s) :
    InProcess c eotIe selected (s.startIfMaster c) := by
  rw [startIfMaster_eq]
  exact h.congr rfl rfl rfl rfl

theorem enableItEot (h : InProcess c eotIe selected s) :
    InProcess c true selected s.enableItEot :=
  ⟨h.inited, h.inProcess, rfl, h.nss⟩

theorem disableItEot (h : InProcess c eotIe selected s) :
    InProcess c false selected s.disableItEot :=
  ⟨h.inited, h.inProcess, rfl, h.nss⟩

end InProcess

theorem Idle.begin {c : Config} {s : State} (h : Idle c s) (dataRx : Option UInt32)
    (len : UInt32) : InProcess c false false (s.begin dataRx len) :=
  ⟨h.inited, rfl, h.eotIe, h.nss⟩

theorem InProcess.endProcess {c : Config} {s : State} (h : InProcess c false false s)
    (hquiet : Quiet s) : Idle c s.endProcess :=
  ⟨h.inited, rfl, h.eotIe, hquiet, h.nss⟩

theorem Idle.startAsync {c : Config} {s : State} (h : Idle c s) (dataRx dataTx : Option UInt32)
    (len : UInt32) : InProcess c true true (startAsync c dataRx dataTx len s) := by
  have hselect := (h.begin dataRx len).nssSet false
  have hsetUp := (hselect.setUpRx dataRx len).setUpTx dataTx len
  exact (hsetUp.setTransferSize len).enableItEot.enable.startIfMaster

theorem quiet_nssSet {c : Config} {s : State} {level : Bool} :
    Quiet (s.nssSet c level) ↔ Quiet s := by
  rw [nssSet_eq]
  rfl

theorem InProcess.stopAsync {c : Config} {s : State} (h : InProcess c true true s) :
    Idle c (stopAsync c s) := by
  have hstopped : InProcess c false true
      (s.disableItEot.disableItTxp.stopStreams c).disableDmaReq.disable.clearFlags :=
    h.disableItEot.congr rfl rfl rfl rfl
  refine (hstopped.nssSet true).endProcess ?_
  rw [quiet_nssSet]
  exact ⟨rfl, rfl⟩

theorem InProcess.irqHandler {c : Config} {eotIe selected : Bool} {s : State}
    (h : InProcess c eotIe selected s) : Idle c (s.irqHandler c) := by
  rw [irqHandler_eq]
  refine ⟨h.inited, rfl, rfl, ⟨rfl, rfl⟩, fun hsoft => ?_⟩
  exact if_pos hsoft

/-- Only an abort that has masked the interrupt finds the SPI in motion. -/
theorem CallInv.masked_of_not_quiet {c : Config} {s : State} {pc : Pc} (h : CallInv c s pc)
    (hquiet : ¬ Quiet s) : InProcess c false true s := by
  cases pc with
  | disableEot => exact h.elim
  | disableTxp x | stopStreams x | disableDmaReq x | disable x => exact h
  | clearFlags x => exact h.1
  | _ => exact absurd h.2 hquiet

omit [DecidableEq τ] in
theorem SpiInv.idle_or_inProcess {c : Config} {s : State} {phase : Phase τ}
    (h : SpiInv c s phase) :
    phase = .idle ∨ ∃ eotIe selected, InProcess c eotIe selected s := by
  cases phase with
  | idle => exact .inl rfl
  | running => exact .inr ⟨_, _, h⟩
  | call t pc =>
    cases pc with
    | disableEot => exact h.elim
    | disableTxp x | stopStreams x | disableDmaReq x | disable x => exact .inr ⟨_, _, h⟩
    | _ => exact .inr ⟨_, _, h.1⟩

/-- Where everything is while the SPI is in the phase. -/
structure Inv (c : Config) (w : World τ) (phase : Phase τ) : Prop where
  spi : SpiInv c w.spi phase
  own : ∀ t pc, phase = .call t pc → w.calls t = some pc
  /-- The other calls are aborts that have found the SPI busy at some time. -/
  others : ∀ t pc, w.calls t = some pc → pc = .disableEot ∨ phase = .call t pc
  live : w.live ≠ none ↔ phase.HasLive
  stops : ∀ t pc, phase = .call t pc → pc.Starting ∨ pc.stopped ≠ none
  ended : ∀ e ∈ w.ended, e.transfer ≠ none
  /-- Every transfer that was started is live, stopped by an abort in progress, or ended. -/
  transfers : (phase.stopped.toList ++ (w.live.toList ++ w.endedTransfers)).Perm
    (List.range w.started)

omit [DecidableEq τ] in
theorem start_inv {c : Config} {spi : State} (h : Initial c spi) :
    Inv c (start spi : World τ) .idle where
  spi := ⟨h.inited, h.inProcess, h.eotIe, ⟨h.active, h.eot⟩, h.nss⟩
  own := fun t pc hcall => by cases hcall
  others := fun t pc hcall => by cases hcall
  live := by simp [start, Phase.HasLive]
  stops := fun t pc hcall => by cases hcall
  ended := fun e he => by cases he
  transfers := by
    rw [show (start spi : World τ).started = 0 from rfl]
    rfl

namespace Inv
variable {c : Config} {w : World τ} {phase : Phase τ}

/-- The next statement of the call that the SPI is about. -/
theorem advance {t : τ} {pc qc : Pc} (h : Inv c w (.call t pc)) {f : State → State}
    (hspi : CallInv c (f w.spi) qc) (hlive : qc.Starting ↔ pc.Starting)
    (hstopped : qc.stopped = pc.stopped) :
    Inv c ((w.onSpi f).goTo t qc) (.call t qc) where
  spi := hspi
  own := by
    intro u rc hcall
    cases hcall
    exact calls_goTo.mpr (.inl ⟨rfl, rfl⟩)
  others := by
    intro u rc hcall
    rcases calls_goTo.mp hcall with ⟨rfl, rfl⟩ | ⟨hut, hold⟩
    · exact .inr rfl
    · refine (h.others u rc hold).imp_right fun heq => ?_
      cases heq
      exact absurd rfl hut
  live := h.live.trans hlive.symm
  stops := by
    intro u rc hcall
    cases hcall
    exact (h.stops t pc rfl).imp hlive.mpr fun hne => by rwa [hstopped]
  ended := h.ended
  transfers := by
    have htransfers := h.transfers
    simp only [Phase.stopped] at htransfers ⊢
    rw [hstopped]
    exact htransfers

/-- When the call that the SPI is about returns, only waiting aborts are left. -/
theorem others_ret {t : τ} {pc : Pc} (h : Inv c w (.call t pc)) {w' : World τ}
    (hcalls : w'.calls = w.calls) (u : τ) (rc : Pc) (hcall : (w'.ret t).calls u = some rc) :
    rc = .disableEot := by
  obtain ⟨hut, hold⟩ := calls_ret.mp hcall
  rw [hcalls] at hold
  refine (h.others u rc hold).resolve_right fun heq => ?_
  cases heq
  exact hut rfl

theorem started {t : τ} {pc : Pc} (h : Inv c w (.call t pc)) {f : State → State}
    (hspi : InProcess c true true (f w.spi)) (hlive : pc.Starting) (hstopped : pc.stopped = none) :
    Inv c ((w.onSpi f).ret t) .running where
  spi := hspi
  own := fun u rc hcall => by cases hcall
  others := fun u rc hcall => .inl (h.others_ret rfl u rc hcall)
  live := h.live.trans ⟨fun _ => trivial, fun _ => hlive⟩
  stops := fun u rc hcall => by cases hcall
  ended := h.ended
  transfers := by
    have htransfers := h.transfers
    simp only [Phase.stopped, hstopped] at htransfers ⊢
    exact htransfers

theorem finished {t : τ} {x : Option ℕ} (h : Inv c w (.call t (.finish x))) :
    Inv c (({ w.onSpi State.endProcess with ended := ⟨true, x⟩ :: w.ended } : World τ).ret t)
      .idle where
  spi := InProcess.endProcess h.spi.1 h.spi.2
  own := fun u rc hcall => by cases hcall
  others := fun u rc hcall => .inl (h.others_ret rfl u rc hcall)
  live := h.live
  stops := fun u rc hcall => by cases hcall
  ended := by
    have hx : x ≠ none := (h.stops t _ rfl).resolve_left id
    exact List.forall_mem_cons.mpr ⟨hx, h.ended⟩
  transfers := by
    have hlive : w.live = none := not_not.mp fun hne => h.live.mp hne
    obtain ⟨id, rfl⟩ := Option.ne_none_iff_exists'.mp ((h.stops t _ rfl).resolve_left id)
    have htransfers := h.transfers
    rw [hlive] at htransfers
    simpa [Phase.stopped, Pc.stopped, World.ret, World.onSpi, World.endedTransfers, hlive]
      using htransfers

/-- The statement of an abort that disables the interrupt of a transfer that runs. -/
theorem stop {t : τ} (h : Inv c w .running) :
    Inv c ({ w.onSpi State.disableItEot with live := none }.goTo t (.disableTxp w.live))
      (.call t (.disableTxp w.live)) where
  spi := InProcess.disableItEot h.spi
  own := by
    intro u rc hcall
    cases hcall
    exact calls_goTo.mpr (.inl ⟨rfl, rfl⟩)
  others := by
    intro u rc hcall
    rcases calls_goTo.mp hcall with ⟨rfl, rfl⟩ | ⟨-, hold⟩
    · exact .inr rfl
    · exact (h.others u rc hold).imp_right fun heq => by cases heq
  live := ⟨fun hne => absurd rfl hne, False.elim⟩
  stops := by
    intro u rc hcall
    cases hcall
    exact .inr (h.live.mpr trivial)
  ended := h.ended
  transfers := h.transfers

theorem resume {t : τ} {pc : Pc} (h : Inv c w phase) (hcall : w.calls t = some pc)
    (hok : AbortsLive w (.resume t)) : ∃ phase', Inv c (w.resume c t pc) phase' := by
  rcases h.others t pc hcall with rfl | rfl
  · obtain ⟨hlive, hnone⟩ := hok hcall
    -- only the transfer that runs is live and not in the hands of a call
    have hrunning : phase = .running := by
      have hphase := h.live.mp hlive
      cases phase with
      | idle => exact hphase.elim
      | running => rfl
      | call u qc => exact absurd hphase (hnone u qc (h.own u qc rfl))
    subst hrunning
    exact ⟨_, h.stop⟩
  · have hspi : CallInv c w.spi pc := h.spi
    cases pc with
    | select r => 
      refine ⟨_, h.advance ⟨hspi.1.nssSet false, ?_⟩ Iff.rfl rfl⟩
      exact quiet_nssSet.mpr hspi.2
    | setUpRx r => 
      refine ⟨_, h.advance ⟨hspi.1.setUpRx r.dataRx r.len, ?_⟩ Iff.rfl rfl⟩
      rw [setUpRx_eq]
      exact hspi.2
    | setUpTx r => 
      refine ⟨_, h.advance ⟨hspi.1.setUpTx r.dataTx r.len, ?_⟩ Iff.rfl rfl⟩
      rw [setUpTx_eq]
      exact hspi.2
    | setSize r => exact ⟨_, h.advance ⟨hspi.1.setTransferSize r.len, hspi.2⟩ Iff.rfl rfl⟩
    | enableEot r => exact ⟨_, h.advance ⟨hspi.1.enableItEot, hspi.2⟩ Iff.rfl rfl⟩
    | enable =>
      rw [World.resume]
      split
      · rename_i hmaster
        refine ⟨_, h.advance ⟨hspi.1.enable, ?_, hspi.2.2⟩ Iff.rfl rfl⟩
        simp [State.enable, hmaster, hspi.2.1]
      · exact ⟨_, h.started hspi.1.enable trivial rfl⟩
    | startMaster => exact ⟨_, h.started (hspi.1.congr rfl rfl rfl rfl) trivial rfl⟩
    | disableEot => exact hspi.elim
    | disableTxp x => exact ⟨_, h.advance (InProcess.congr hspi rfl rfl rfl rfl) Iff.rfl rfl⟩
    | stopStreams x => exact ⟨_, h.advance (InProcess.congr hspi rfl rfl rfl rfl) Iff.rfl rfl⟩
    | disableDmaReq x => exact ⟨_, h.advance (InProcess.congr hspi rfl rfl rfl rfl) Iff.rfl rfl⟩
    | disable x => 
      exact ⟨_, h.advance ⟨InProcess.congr hspi rfl rfl rfl rfl, rfl⟩ Iff.rfl rfl⟩
    | clearFlags x => 
      exact ⟨_, h.advance ⟨hspi.1.congr rfl rfl rfl rfl, hspi.2, rfl⟩ Iff.rfl rfl⟩
    | deselect x =>
      refine ⟨_, h.advance ⟨hspi.1.nssSet true, ?_⟩ Iff.rfl rfl⟩
      exact quiet_nssSet.mpr hspi.2
    | finish x => exact ⟨_, h.finished⟩

omit [DecidableEq τ] in
theorem busy (h : Inv c w phase) : w.spi.isBusy = true ∨ phase = .idle := by
  rcases h.spi.idle_or_inProcess with hidle | ⟨eotIe, selected, hspi⟩
  · exact .inr hidle
  · exact .inl (by rw [State.isBusy, hspi.inited, hspi.inProcess, Bool.and_self])

omit [DecidableEq τ] in
theorem idle_of_not_busy (h : Inv c w phase) (hbusy : w.spi.isBusy = false) : phase = .idle :=
  h.busy.resolve_left fun htrue => by rw [hbusy] at htrue; cases htrue

omit [DecidableEq τ] in
theorem live_eq_none (h : Inv c w .idle) : w.live = none := not_not.mp fun hne => h.live.mp hne

omit [DecidableEq τ] in
theorem accepted_perm (h : Inv c w .idle) :
    (w.accept.live.toList ++ w.endedTransfers).Perm (List.range w.accept.started) := by
  have htransfers : w.endedTransfers.Perm (List.range w.started) := by
    have hall := h.transfers
    rw [h.live_eq_none] at hall
    exact hall
  rw [World.accept, List.range_succ]
  exact (htransfers.cons w.started).trans (List.perm_append_singleton _ _).symm

theorem async (h : Inv c w .idle) {t : τ} (hcall : w.calls t = none) (r : Request) :
    Inv c ((w.accept.onSpi (State.begin r.dataRx r.len)).goTo t (.select r))
      (.call t (.select r)) where
  spi := ⟨Idle.begin h.spi r.dataRx r.len, h.spi.quiet⟩
  own := by
    intro u rc heq
    cases heq
    exact calls_goTo.mpr (.inl ⟨rfl, rfl⟩)
  others := by
    intro u rc hrc
    rcases calls_goTo.mp hrc with ⟨rfl, rfl⟩ | ⟨-, hold⟩
    · exact .inr rfl
    · exact (h.others u rc hold).imp_right fun heq => by cases heq
  live := ⟨fun _ => trivial, fun _ => by simp [World.goTo, World.onSpi, World.accept]⟩
  stops := by
    intro u rc heq
    cases heq
    exact .inl trivial
  ended := h.ended
  transfers := h.accepted_perm

theorem abort (h : Inv c w phase) {t : τ} (hcall : w.calls t = none) :
    Inv c (w.abort t) phase := by
  rw [World.abort]
  split
  · refine ⟨h.spi, fun u pc heq => ?_, fun u pc hpc => ?_, h.live, h.stops, h.ended,
      h.transfers⟩
    · have hown := h.own u pc heq
      refine calls_goTo.mpr (.inr ⟨fun hut => ?_, hown⟩)
      rw [hut, hcall] at hown
      cases hown
    · rcases calls_goTo.mp hpc with ⟨-, rfl⟩ | ⟨-, hold⟩
      · exact .inl rfl
      · exact h.others u pc hold
  · exact h

omit [DecidableEq τ] in
theorem endOfTransfer (h : Inv c w phase) (hactive : w.spi.active = true) (flags : Flags) :
    Inv c (w.onSpi fun s => { s with active := false, flags := { flags with eot := true } })
      phase := by
  have hquiet : ¬ Quiet w.spi := fun hq => by rw [hq.1] at hactive; cases hactive
  refine ⟨?_, h.own, h.others, h.live, h.stops, h.ended, h.transfers⟩
  have hspi := h.spi
  cases phase with
  | idle => exact absurd hspi.quiet hquiet
  | running => exact InProcess.congr hspi rfl rfl rfl rfl
  | call t pc =>
    cases pc with
    | disableEot => exact hspi.elim
    | disableTxp x | stopStreams x | disableDmaReq x | disable x =>
      exact InProcess.congr hspi rfl rfl rfl rfl
    | clearFlags x =>
      have hidle : w.spi.active = false := hspi.2
      rw [hidle] at hactive
      cases hactive
    | _ => exact absurd hspi.2 hquiet

omit [DecidableEq τ] in
/-- The end of the transfer that runs, with the SPI put back by the one who ends it. -/
theorem endRunning (h : Inv c w .running) {spi : State} (hspi : Idle c spi) (byAbort : Bool) :
    Inv c { w with spi, live := none, ended := ⟨byAbort, w.live⟩ :: w.ended } .idle where
  spi := hspi
  own := fun u rc heq => by cases heq
  others := fun u rc hrc => (h.others u rc hrc).imp_right fun heq => by cases heq
  live := ⟨fun hne => absurd rfl hne, False.elim⟩
  stops := fun u rc heq => by cases heq
  ended := List.forall_mem_cons.mpr ⟨h.live.mpr trivial, h.ended⟩
  transfers := by
    obtain ⟨id, hid⟩ := Option.ne_none_iff_exists'.mp (h.live.mpr trivial)
    have htransfers := h.transfers
    rw [hid] at htransfers
    simpa [Phase.stopped, World.endedTransfers, hid] using htransfers

omit [DecidableEq τ] in
theorem startRunning (h : Inv c w .idle) (r : Request) :
    Inv c { w.accept with spi := startAsync c r.dataRx r.dataTx r.len w.spi } .running where
  spi := Idle.startAsync h.spi r.dataRx r.dataTx r.len
  own := fun u rc heq => by cases heq
  others := fun u rc hrc => (h.others u rc hrc).imp_right fun heq => by cases heq
  live := ⟨fun _ => trivial, fun _ => by simp [World.accept]⟩
  stops := fun u rc heq => by cases heq
  ended := h.ended
  transfers := h.accepted_perm

end Inv

/-- Nothing is in the hands of a call. -/
def Settled (c : Config) (w : World τ) : Prop := Inv c w .idle ∨ Inv c w .running

namespace Settled
variable {c : Config} {w w' : World τ}

omit [DecidableEq τ] in
theorem callbackCall (h : Settled c w) {k : CallbackCall}
    (hk : w.callbackCall c k = some w') : Settled c w' := by
  cases k with
  | async r =>
    cases hbusy : w.spi.isBusy with
    | true => simp [World.callbackCall, hbusy] at hk
    | false =>
      have hidle : Inv c w .idle := by
        refine h.resolve_right fun hrunning => ?_
        cases hrunning.idle_of_not_busy hbusy
      simp only [World.callbackCall, hbusy, transceiveAsync_eq c _ _ _ hidle.spi.inited] at hk
      by_cases hvalid : AsyncValid c r.dataRx r.dataTx r.len
      · simp only [if_pos hvalid] at hk
        cases hk
        exact .inr (hidle.startRunning r)
      · simp only [if_neg hvalid] at hk
        cases hk
        exact .inl hidle
  | abort =>
    cases hbusy : w.spi.isBusy with
    | false =>
      simp only [World.callbackCall, Stm32h7.abort, hbusy] at hk
      cases hk
      exact h
    | true =>
      have hrunning : Inv c w .running := by
        refine h.resolve_left fun hidle => ?_
        have hprocess : w.spi.inProcess = false := hidle.spi.inProcess
        simp [State.isBusy, hprocess] at hbusy
      simp only [World.callbackCall, Stm32h7.abort, hbusy] at hk
      cases hk
      exact .inl (hrunning.endRunning (InProcess.stopAsync hrunning.spi) true)

omit [DecidableEq τ] in
theorem callback (h : Settled c w) {calls : List CallbackCall}
    (hcalls : w.callback c calls = some w') : Settled c w' := by
  induction calls generalizing w with
  | nil =>
    cases hcalls
    exact h
  | cons k ks ih =>
    obtain ⟨u, hk, hks⟩ := Option.bind_eq_some_iff.mp hcalls
    exact ih (h.callbackCall hk) hks

end Settled

omit [DecidableEq τ] in
theorem Inv.interrupt {c : Config} {w w' : World τ} {phase : Phase τ} (h : Inv c w phase)
    (heot : w.spi.flags.eot = true) (heotIe : w.spi.eotIe = true) {calls : List CallbackCall}
    (hcalls : (w.complete c).callback c calls = some w') : Settled c w' := by
  have hquiet : ¬ Quiet w.spi := fun hq => by rw [hq.2] at heot; cases heot
  have hmasked : ¬ w.spi.eotIe = false := fun hfalse => by rw [hfalse] at heotIe; cases heotIe
  have hrunning : Inv c w .running := by
    have hspi := h.spi
    cases phase with
    | idle => exact absurd hspi.quiet hquiet
    | running => exact h
    | call t pc => exact absurd (CallInv.masked_of_not_quiet hspi hquiet).eotIe hmasked
  have hdone : Settled c (w.complete c) :=
    .inl (hrunning.endRunning (InProcess.irqHandler hrunning.spi) false)
  exact hdone.callback hcalls

theorem step_inv {c : Config} {w w' : World τ} {a : Action τ} (h : ∃ phase, Inv c w phase)
    (hok : AbortsLive w a) (hstep : step c w a = some w') : ∃ phase, Inv c w' phase := by
  obtain ⟨phase, h⟩ := h
  cases a with
  | async t r =>
    obtain ⟨hcall, hbusy, rfl⟩ := step_async_eq_some.mp hstep
    obtain rfl := h.idle_of_not_busy hbusy
    split
    · exact ⟨_, h.async hcall r⟩
    · exact ⟨_, h⟩
  | abort t =>
    obtain ⟨hcall, rfl⟩ := step_abort_eq_some.mp hstep
    exact ⟨_, h.abort hcall⟩
  | resume t =>
    obtain ⟨pc, hcall, rfl⟩ := step_resume_eq_some.mp hstep
    exact h.resume hcall hok
  | endOfTransfer flags =>
    obtain ⟨hactive, rfl⟩ := step_endOfTransfer_eq_some.mp hstep
    exact ⟨_, h.endOfTransfer hactive flags⟩
  | interrupt calls =>
    obtain ⟨⟨heot, heotIe⟩, hcalls⟩ := step_interrupt_eq_some.mp hstep
    rcases h.interrupt heot heotIe hcalls with hidle | hrunning
    · exact ⟨_, hidle⟩
    · exact ⟨_, hrunning⟩

omit [DecidableEq τ] in
theorem Inv.sound {c : Config} {w : World τ} {phase : Phase τ} (h : Inv c w phase) :
    Sound c w := by
  have hnodup : (phase.stopped.toList ++ (w.live.toList ++ w.endedTransfers)).Nodup :=
    h.transfers.nodup_iff.mpr List.nodup_range
  have hlive : (w.live.toList ++ w.endedTransfers).Nodup := (List.nodup_append.mp hnodup).2.1
  -- a call in progress is the only phase that takes a transfer from both
  have houtside : w.Outside → phase = .idle ∨ phase = .running := by
    intro hout
    cases phase with
    | idle => exact .inl rfl
    | running => exact .inr rfl
    | call t pc =>
      have hown := h.own t pc rfl
      rw [hout t] at hown
      cases hown
  constructor
  · exact h.ended
  · exact (List.nodup_append.mp hlive).2.1
  · intro hout id
    have hmem : id ∈ phase.stopped.toList ++ (w.live.toList ++ w.endedTransfers) ↔
        id < w.started := by
      rw [h.transfers.mem_iff, List.mem_range]
    have hstopped : phase.stopped = none := by
      rcases houtside hout with rfl | rfl <;> rfl
    rw [← hmem, hstopped]
    simp [Option.mem_toList, or_comm]
  · intro id hid hended
    have hdisjoint := (List.nodup_append.mp hlive).2.2
    exact hdisjoint id (by simp [hid]) id hended rfl
  · intro hout
    rcases houtside hout with rfl | rfl
    · have hspi : Idle c w.spi := h.spi
      simp [h.live_eq_none, hspi.inProcess]
    · have hspi : InProcess c true true w.spi := h.spi
      simp [h.live.mpr trivial, hspi.inProcess]
  · intro hout hsoft
    rcases houtside hout with rfl | rfl
    · have hspi : Idle c w.spi := h.spi
      simp [hspi.nss hsoft, hspi.inProcess]
    · have hspi : InProcess c true true w.spi := h.spi
      simp [hspi.nss hsoft, hspi.inProcess]

/-- In every run in which an abort stops only a transfer that is there to be stopped, each
transfer ends once, and the chip select is low exactly while one is in process. -/
theorem spi_async_ends_once (c : Config) (spi : State) (hspi : Initial c spi)
    (acts : List (Action τ)) (w : World τ) (hok : Along (step c) AbortsLive (start spi) acts)
    (hrun : exec (step c) (start spi) acts = some w) : Sound c w := by
  have hinv : ∃ phase, Inv c w phase :=
    exec_invariant (fun _ _ _ h hok hstep => step_inv h hok hstep) ⟨_, start_inv hspi⟩ hok hrun
  obtain ⟨phase, hphase⟩ := hinv
  exact hphase.sound

def idleSlave : State where
  inited := true
  inProcess := false
  lastRxData := none
  lastLen := 0
  lastErrors := 0
  nss := true
  rx := ⟨false, 0, 0⟩
  tx := ⟨false, 0, 0⟩
  rxDmaEn := false
  txDmaEn := false
  tsize := 0
  eotIe := false
  txpIe := false
  spe := false
  active := false
  flags := ⟨false, false, false, false, false, false, false⟩

theorem idleSlave_initial (c : Config) : Initial c idleSlave :=
  ⟨rfl, rfl, rfl, rfl, rfl, fun _ => rfl⟩

/-- A transfer that completes, another one started by its callback, and an abort of that one. -/
def completeAndAbort : List (Action Unit) :=
  [.async () ⟨some 0x24000000, none, 4⟩] ++ List.replicate 6 (.resume ()) ++
    [.endOfTransfer idleSlave.flags, .interrupt [.async ⟨some 0x24000000, none, 4⟩], .abort ()] ++
    List.replicate 8 (.resume ())

theorem spi_async_ends_once_each :
    ∃ w, exec (step ⟨.slave, false, true, true, false⟩) (start idleSlave) completeAndAbort
      = some w ∧
      w.ended = [⟨true, some 1⟩, ⟨false, some 0⟩] ∧
      Sound ⟨.slave, false, true, true, false⟩ w := by
  have hok : Along (step ⟨.slave, false, true, true, false⟩) AbortsLive (start idleSlave)
      completeAndAbort := by decide
  exact ⟨_, rfl, rfl, spi_async_ends_once _ _ (idleSlave_initial _) completeAndAbort _ hok rfl⟩

/-- The transfer completes after an abort has found the SPI busy: the callback is called, and the
abort returns true. -/
def completedInAbort : List (Action Unit) :=
  [.async () ⟨some 0x24000000, none, 4⟩] ++ List.replicate 6 (.resume ()) ++
    [.abort (), .endOfTransfer idleSlave.flags, .interrupt []] ++ List.replicate 8 (.resume ())

theorem completedInAbort_not_sound : ¬ ∀ c spi (acts : List (Action Unit)) w, Initial c spi →
    exec (step c) (start spi) acts = some w → Sound c w := by
  intro h
  have hsound := h ⟨.slave, false, true, true, false⟩ idleSlave completedInAbort _
    (idleSlave_initial _) rfl
  exact hsound.ended ⟨true, none⟩ List.mem_cons_self rfl

/-- A start that nothing interrupts is the one of the driver. -/
theorem exec_startAsync {c : Config} {w : World τ} {t : τ} {r : Request}
    (hcall : w.calls t = none) (hbusy : w.spi.isBusy = false) (hinited : w.spi.inited = true)
    (hvalid : r.Valid c) :
    exec (step c) w (.async t r :: List.replicate (if c.mode = .master then 7 else 6) (.resume t)) =
      some { w.accept with spi := (transceiveAsync c r.dataRx r.dataTx r.len w.spi).2 } := by
  have hgone : Function.update w.calls t none = w.calls := by
    rw [← hcall, Function.update_eq_self]
  have hasync : AsyncValid c r.dataRx r.dataTx r.len := hvalid
  rw [transceiveAsync_eq c _ _ _ hinited, if_pos hasync]
  by_cases hmode : c.mode = .master <;>
    simp [List.replicate, step, World.async, hcall, hbusy, hinited, hvalid, hmode, hgone,
      World.resume, World.goTo, World.ret, World.onSpi, World.accept, startAsync,
      State.startIfMaster]

/-- An abort that nothing interrupts any more is the one of the driver. -/
theorem exec_stopAsync {c : Config} {w : World τ} {t : τ} (hcall : w.calls t = some .disableEot) :
    exec (step c) w (List.replicate 8 (.resume t)) = some { w with
      spi := stopAsync c w.spi
      live := none
      ended := ⟨true, w.live⟩ :: w.ended
      calls := Function.update w.calls t none } := by
  simp [List.replicate, step, hcall, World.resume, World.goTo, World.ret, World.onSpi, stopAsync]

/-- After every run, an abort that disables the interrupt when its transfer has ended returns true
for no transfer, if nothing interrupts it any more. -/
theorem not_sound_of_ended {c : Config} {w : World τ} {t : τ}
    (hcall : w.calls t = some .disableEot) (hended : w.live = none) :
    ∃ w', exec (step c) w (List.replicate 8 (.resume t)) = some w' ∧ ¬ Sound c w' := by
  refine ⟨_, exec_stopAsync hcall, fun hsound => ?_⟩
  exact hsound.ended ⟨true, w.live⟩ List.mem_cons_self hended

end UniHal.Spi.Stm32h7.EndsOnce
