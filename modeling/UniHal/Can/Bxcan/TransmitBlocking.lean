import UniHal.Can.Bxcan.TransmitOwnership

/-! # The blocking call on bxCAN

`uni_hal_can_transmit` learns the outcome of its mailbox from `TXOK`, or from `tx_ok` when the
interrupt has acknowledged the completion already. Both are about its frame as long as the
interrupt does not choose its mailbox before the call returns, and does not bring the success
of the frame before it into `tx_ok` after the call has reset it.
-/

namespace UniHal.Can.Bxcan.Transmit
open Foundations Foundations.Execution

variable {build : Build} {config : Config}

def Task.waitSlot : Task build → Option Slot
  | .transmit call => call.slot
  | .poll b _ _ | .deadline b _ _ | .abort b _ _ | .outcome b _ _ | .kept b _ _ => some b
  | _ => none

/-- The mailbox for which a call has reset `tx_ok`, before its request. -/
def Call.resetSlot : Call build → Option Slot
  | .fill b _ _ | .raise b _ _ => some b
  | _ => none

def Task.resetSlot : Task build → Option Slot
  | .transmit call => call.resetSlot
  | _ => none

def State.collects (s : State build) (b : Slot) : Bool :=
  match s.isr with
  | .entry => s.dev.rqcp b && s.dev.txok b
  | _ => false

/-- A callback does not choose the mailbox of the blocking call, and the interrupt takes no
success of an earlier frame of this mailbox between the reset of `tx_ok` and the request. -/
def KeepsOff (s : State build) : Action build → Prop
  | .isrStep code =>
    (∀ b, s.call.bind (choose code s.dev) = some b → s.task.waitSlot ≠ some b) ∧
      ∀ b, s.task.resetSlot = some b → s.collects b = false
  | _ => True

instance (s : State build) : DecidablePred (KeepsOff s) := fun action =>
  match action with
  | .isrStep code =>
    inferInstanceAs (Decidable
      ((∀ b, s.call.bind (choose code s.dev) = some b → s.task.waitSlot ≠ some b) ∧
        ∀ b, s.task.resetSlot = some b → s.collects b = false))
  | .complete _ _ | .setInak _ | .abort | .nowait _ | .transmit _ | .setCallback _
  | .taskStep _ _ | .pend | .txIrq | .errorIrq | .callback _ => .isTrue trivial

/-- The transmit interrupt is going to set `tx_ok` of this mailbox. -/
def Isr.announces : Isr → Slot → Bool
  | .acknowledge done success, b => done b && success b
  | .report done success todo, b | .callback done success todo, b =>
    waitsTurn done todo b && success b
  | _, _ => false

/-- The interrupt has set `tx_ok`, or is going to. -/
def Kept (s : Dev build) (isr : Isr) (b : Slot) : Prop :=
  s.txOk b = true ∨ isr.announces b = true

def Vouched (s : Dev build) (isr : Isr) (b : Slot) : Prop := s.txok b = true ∨ Kept s isr b

abbrev Waiting (s : Dev build) (isr : Isr) (b : Slot) (msg : Msg build.dataSize) (index : ℕ) :
    Prop :=
  Watched canonical (sent build) s.slots b msg index (Vouched s isr b)

def WaitInv (s : Dev build) (isr : Isr) : Task build → Prop
  | .transmit call =>
    Prepared s.slots call ∧ ∀ b, call.resetSlot = some b → ¬ Kept s isr b
  | .poll b msg index | .deadline b msg index | .abort b msg index | .outcome b msg index
  | .kept b msg index => Waiting s isr b msg index
  | _ => True

structure BlockInv (s : State build) : Prop where
  wait : WaitInv s.dev s.isr s.task
  apart : ∀ b, s.task.waitSlot = some b → s.isrSlot ≠ some b
  truthful : Truthful canonical s.dev.slots.history s.returns s.timeouts

theorem Call.slot_of_resetSlot {call : Call build} {b : Slot} (h : call.resetSlot = some b) :
    call.slot = some b := by
  cases call with
  | fill | raise => exact h
  | _ => cases h

/-- A blocking call relies on its mailbox alone, and on nobody saying more about it. -/
theorem WaitInv.congr {s s' : Dev build} {isr isr' : Isr} {task : Task build}
    (h : WaitInv s isr task)
    (hsame : ∀ b, task.waitSlot = some b → s'.slots.words b = s.slots.words b ∧
      s'.slots.history b = s.slots.history b ∧ s'.slots.request b = s.slots.request b)
    (hvouched : ∀ b, task.waitSlot = some b → Vouched s' isr' b → Vouched s isr b)
    (hkept : ∀ b, task.resetSlot = some b → Kept s' isr' b → Kept s isr b) :
    WaitInv s' isr' task := by
  cases task with
  | transmit call =>
    constructor
    · apply h.1.congr
      intro b hb
      obtain ⟨hwords, -, hrequest⟩ := hsame b hb
      exact ⟨by simp only [Slots.pending, hrequest], hwords⟩
    · exact fun b hb hk => h.2 b hb (hkept b hb hk)
  | poll b | deadline b | abort b | outcome b | kept b =>
    exact Watched.congr h (hsame b rfl) (hvouched b rfl)
  | _ => trivial

theorem CallStep.history {code : ℕ} {s s' : Dev build} {call : Call build}
    {progress : Progress build} (h : CallStep code s call s' progress) (b : Slot) :
    s.slots.history b <+: s'.slots.history b := by
  cases h with
  | refused | moved | chosen | reset | read => exact List.prefix_rfl
  | stored => rw [store_history]
  | @requested mailbox msg tir =>
    have hgrow := (s.store mailbox (.tir, tir ||| identifierTxrq)).slots.accept_history_prefix
      mailbox b msg
    rwa [store_history] at hgrow

theorem CallStep.vouched {code : ℕ} {s s' : Dev build} {call : Call build}
    {progress : Progress build} (h : CallStep code s call s' progress) {b : Slot}
    (hb : call.slot ≠ some b) : s'.txok b = s.txok b ∧ s'.txOk b = s.txOk b := by
  have hstore (mailbox : Slot) (write : TxRegister × BitVec 32) :
      (s.store mailbox write).txok = s.txok ∧ (s.store mailbox write).txOk = s.txOk := by
    by_cases hp : s.pending mailbox = true <;> simp [Dev.store, hp]
  cases h with
  | refused | moved | chosen | read => exact ⟨rfl, rfl⟩
  | @reset mailbox msg =>
    have hne : b ≠ mailbox := fun heq => hb (congrArg some heq.symm)
    simp only [Dev.resetTxOk, Function.update_of_ne hne, and_self]
  | stored => simp only [hstore, and_self]
  | @requested mailbox msg tir =>
    have hne : b ≠ mailbox := fun heq => hb (congrArg some heq.symm)
    simp only [Dev.request, Function.update_of_ne hne, hstore, and_self]

/-- A completion ends the awaited frame or concerns another mailbox. -/
theorem WaitInv.complete {s : Dev build} {isr : Isr} {task : Task build} (h : WaitInv s isr task)
    {c : Slot} (ok : Bool) (hc : s.pending c = true) : WaitInv (s.complete c ok) isr task := by
  have hwaiting {b : Slot} {msg : Msg build.dataSize} {index : ℕ}
      (hw : Waiting s isr b msg index) : Waiting (s.complete c ok) isr b msg index := by
    apply hw.finish ok hc
    · rintro rfl (hok | hkept)
      · exact .inl (by simpa only [Dev.complete, Function.update_self] using hok)
      · exact .inr (.inr hkept)
    · intro hcb hvouched
      simpa only [Vouched, Kept, Dev.complete, Function.update_of_ne (Ne.symm hcb)] using hvouched
  cases task with
  | transmit call => exact ⟨Owning.prepared_finish caller h.1 ok _ hc, h.2⟩
  | poll | deadline | abort | outcome | kept => exact hwaiting h
  | _ => trivial

/-- The history grows, and the returned calls stay sound. -/
theorem BlockInv.grow {s t : State build} (h : BlockInv s)
    (hhistory : ∀ b, s.dev.slots.history b <+: t.dev.slots.history b)
    (hwait : WaitInv t.dev t.isr t.task)
    (hapart : ∀ b, t.task.waitSlot = some b → t.isrSlot ≠ some b)
    (hreturns : t.returns = s.returns) (htimeouts : t.timeouts = s.timeouts) :
    BlockInv t where
  wait := hwait
  apart := hapart
  truthful := by
    rw [hreturns, htimeouts]
    exact h.truthful.mono hhistory

/-- A step that leaves the peripheral as it is, for a task that knows what it needs to. -/
theorem BlockInv.move {s : State build} (h : BlockInv s) (hcall : s.call = none)
    {task : Task build} (hwait : WaitInv s.dev s.isr task) : BlockInv { s with task := task } :=
  h.grow (fun _ => List.prefix_rfl) hwait (by simp [State.isrSlot, hcall]) rfl rfl

/-- The call returns, and what it has told is true of its frame. -/
theorem BlockInv.return {s : State build} (hcall : s.call = none)
    {returns : List (Return (Msg build.dataSize))} {timeouts : List (Timeout (Msg build.dataSize))}
    (h : Truthful canonical s.dev.slots.history returns timeouts) (dev : Dev build)
    (hslots : dev.slots = s.dev.slots) :
    BlockInv { s with dev := dev, task := .idle, returns := returns, timeouts := timeouts } where
  wait := trivial
  apart := by simp [State.isrSlot, hcall]
  truthful := by
    rw [hslots]
    exact h

/-- One step of the call itself, while the interrupts are idle. -/
theorem transmit_wait {code : ℕ} {s dev : Dev build} {call call' : Call build}
    (h : WaitInv s .idle (.transmit call)) (hcode : validCode s code = true)
    (hs : CallStep code s call dev (.running call')) : WaitInv dev .idle (.transmit call') := by
  constructor
  · exact hs.prepared h.1 fun b hb => choose_free hb hcode
  · intro b hb hkept
    have hquiet : dev.txOk b = false := by
      cases hs with
      | moved | chosen => cases hb
      | reset =>
        cases hb
        simp only [Dev.resetTxOk, Function.update_self]
      | @stored mailbox msg write rest =>
        have hold := h.2 b hb
        by_cases hp : s.pending mailbox = true <;>
          simpa [Dev.store, hp, Kept, Isr.announces] using hold
      | read => simpa [Kept, Isr.announces] using h.2 b hb
    simp [Kept, hquiet, Isr.announces] at hkept

theorem transmit_accepted {code : ℕ} {s dev : Dev build} {call : Call build} {b : Slot}
    {msg : Msg build.dataSize} (h : WaitInv s .idle (.transmit call))
    (hs : CallStep code s call dev (.accepted b msg)) :
    Waiting dev .idle b msg (s.slots.history b).length := by
  cases hs with
  | @requested tir =>
    obtain ⟨⟨hfree, hfill, rfl⟩, hreset⟩ := h
    have hkept : s.txOk b = false := by simpa [Kept, Isr.announces] using hreset b rfl
    simp only [Dev.request, store_of_free hfree]
    refine ⟨none, .accept ?_, ?_⟩
    · rw [Slots.write_words_self]
      exact hfill.done
    · simp [Vouched, Kept, Isr.announces, hkept]

theorem transmitStep_blockInv {code : ℕ} {expired : Bool} {s t : State build} (h : BlockInv s)
    (hidle : s.isr = .idle) (hcall : s.call = none) (hcode : validCode s.dev code = true)
    {call : Call build} (htask : s.task = .transmit call)
    (hs : taskStep code expired s = some t) : BlockInv t := by
  have hwait := h.wait
  rw [hidle, htask] at hwait
  cases hcs : callStep code s.dev call with
  | mk dev progress =>
    have hstep := callStep_spec hcs
    cases progress with
    | running call' =>
      simp only [taskStep, htask, hcs, Option.some.injEq] at hs
      subst hs
      refine h.grow hstep.history ?_ (by simp [State.isrSlot, hcall]) rfl rfl
      rw [hidle]
      exact transmit_wait hwait hcode hstep
    | refused =>
      simp only [taskStep, htask, hcs, Option.some.injEq] at hs
      exact hs ▸ h.grow hstep.history trivial (by simp [State.isrSlot, hcall]) rfl rfl
    | accepted b msg =>
      simp only [taskStep, htask, hcs, Option.some.injEq] at hs
      subst hs
      refine h.grow hstep.history ?_ (by simp [State.isrSlot, hcall]) rfl rfl
      rw [hidle]
      exact transmit_accepted hwait hstep

theorem taskStep_blockInv {code : ℕ} {expired : Bool} {s t : State build} (h : BlockInv s)
    (hidle : s.isr = .idle) (hcall : s.call = none) (hcode : validCode s.dev code = true)
    (hs : taskStep code expired s = some t) : BlockInv t := by
  have hwait := h.wait
  cases htask : s.task with
  | idle => simp [taskStep, htask] at hs
  | nowait call =>
    cases hcs : callStep code s.dev call with
    | mk dev progress =>
      have hhistory := (callStep_spec hcs).history
      cases progress <;>
        simp only [taskStep, htask, hcs, Option.some.injEq] at hs <;>
        exact hs ▸ h.grow hhistory trivial (by simp [State.isrSlot, hcall]) rfl rfl
  | transmit call => exact transmitStep_blockInv h hidle hcall hcode htask hs
  | poll b msg index =>
    rw [htask] at hwait
    cases hb : s.dev.pending b <;>
      simp only [taskStep, htask, hb, Bool.false_eq_true, if_true, if_false,
        Option.some.injEq] at hs <;>
      exact hs ▸ h.move hcall hwait
  | deadline b msg index =>
    rw [htask] at hwait
    simp only [taskStep, htask, Option.some.injEq] at hs
    subst hs
    cases expired <;> exact h.move hcall hwait
  | abort b msg index =>
    rw [htask] at hwait
    simp only [taskStep, htask, Option.some.injEq] at hs
    subst hs
    have hreturn := h.truthful.addReturn
      (hwait.return_sound false fun hok => absurd hok Bool.false_ne_true)
    exact .return hcall (hreturn.addTimeout hwait.timeout_sound) _ rfl
  | outcome b msg index =>
    rw [htask] at hwait
    cases hok : s.dev.txok b with
    | true =>
      simp only [taskStep, htask, hok, if_true, Option.some.injEq] at hs
      subst hs
      exact .return hcall (h.truthful.addReturn (hwait.return_sound true fun _ => .inl hok))
        s.dev rfl
    | false =>
      simp only [taskStep, htask, hok, Bool.false_eq_true, if_false, Option.some.injEq] at hs
      exact hs ▸ h.move hcall hwait
  | kept b msg index =>
    rw [htask] at hwait
    simp only [taskStep, htask, Option.some.injEq] at hs
    subst hs
    have hsound := hwait.return_sound (s.dev.txOk b) fun hok => .inr (.inl hok)
    exact .return hcall (h.truthful.addReturn hsound) s.dev rfl
  | setCallback callback stage =>
    simp only [taskStep, htask, Option.some.injEq] at hs
    subst hs
    have hslots := setCallbackStep_slots s.dev callback stage
    refine h.grow (fun b => ?_) ?_ (by simp [State.isrSlot, hcall]) rfl rfl
    · simp only [hslots]
      exact List.prefix_rfl
    · cases stage <;> cases callback <;> trivial

/-- The interrupt says of a frame only what `TXOK` said, and keeps quiet about a mailbox that
is being filled. -/
theorem IsrStep.vouched {s dev : Dev build} {isr isr' : Isr} (h : IsrStep s isr dev isr')
    {b : Slot} : (Vouched dev isr' b → Vouched s isr b) ∧
      ((∀ done success, isr' = .acknowledge done success → (done b && success b) = false) →
        Kept dev isr' b → Kept s isr b) := by
  cases h with
  | entry =>
    constructor
    · rintro (hok | hok | hvouched)
      · exact .inl hok
      · exact .inr (.inl hok)
      · exact .inl (Bool.and_eq_true_iff.mp hvouched).2
    · rintro hnone (hok | hvouched)
      · exact .inl hok
      · rw [Isr.announces, hnone _ _ rfl] at hvouched
        cases hvouched
  | @acknowledge done success =>
    have hall : Isr.announces (.report done success (List.finRange txMailboxes)) b =
        Isr.announces (.acknowledge done success) b :=
      congrArg (· && success b) waitsTurn_all
    constructor
    · rintro (hok | hok | hvouched)
      · exact .inl (Bool.and_eq_true_iff.mp hok).1
      · exact .inr (.inl hok)
      · exact .inr (.inr (hall ▸ hvouched))
    · rintro - (hok | hvouched)
      · exact .inl hok
      · exact .inr (hall ▸ hvouched)
  | @reported done success c todo hdone =>
    have hkept : Kept (s.report c (success c))
        (if s.callback then .callback done success todo else .report done success todo) b →
        Kept s (.report done success (c :: todo)) b := by
      by_cases hbc : b = c
      · subst hbc
        cases hc : s.callback <;>
          simp [Kept, Isr.announces, Dev.report, hdone] <;> tauto
      · cases hc : s.callback <;>
          simp [Kept, Isr.announces, Dev.report, hbc, waitsTurn_cons_of_ne hbc]
    constructor
    · rintro (hok | hvouched)
      · exact .inl hok
      · exact .inr (hkept hvouched)
    · exact fun _ hvouched => hkept hvouched
  | skipped hdone =>
    simp only [Vouched, Kept, Isr.announces, waitsTurn_cons_of_not_done hdone]
    exact ⟨id, fun _ => id⟩
  | finished => simp [Vouched, Kept, Isr.announces]
  | callback | errors => exact ⟨id, fun _ => id⟩

theorem Task.waitSlot_of_resetSlot {task : Task build} {b : Slot} (h : task.resetSlot = some b) :
    task.waitSlot = some b := by
  cases task with
  | transmit call => exact Call.slot_of_resetSlot h
  | _ => cases h

/-- Only the read of `TSR` leads to an acknowledgement. -/
theorem IsrStep.acknowledges {s dev : Dev build} {isr isr' : Isr} {done success : Slot → Bool}
    (h : IsrStep s isr dev isr') (hack : isr' = .acknowledge done success) :
    isr = .entry ∧ done = s.rqcp ∧ success = s.txok := by
  cases h with
  | entry =>
    cases hack
    exact ⟨rfl, rfl, rfl⟩
  | reported =>
    cases hc : s.callback <;> simp [hc] at hack
  | _ => cases hack

theorem isrStep_blockInv {s : State build} (h : BlockInv s) (hcall : s.call = none)
    {dev : Dev build} {isr : Isr} (hs : isrStep s.dev s.isr = some (dev, isr))
    (hquiet : ∀ b, s.task.resetSlot = some b → s.collects b = false) :
    BlockInv { s with dev := dev, isr := isr } := by
  have hstep := isrStep_spec hs
  have hslots := hstep.slots
  refine h.grow (fun b => ?_) ?_ (by simp [State.isrSlot, hcall]) rfl rfl
  · simp only [hslots]
    exact List.prefix_rfl
  · apply h.wait.congr
    · intro b _
      simp only [hslots, and_self]
    · exact fun b _ => hstep.vouched.1
    · intro b hb
      apply hstep.vouched.2
      intro done success hack
      obtain ⟨hentry, rfl, rfl⟩ := hstep.acknowledges hack
      simpa only [State.collects, hentry] using hquiet b hb

/-- A call of a callback keeps off the mailbox of the blocking call. -/
theorem BlockInv.isrCall {s : State build} (h : BlockInv s)
    {code : ℕ} {call : Call build} {dev : Dev build} {progress : Progress build}
    {next : Option (Call build)} (hs : CallStep code s.dev call dev progress)
    (hcall : s.call = some call)
    (hapart : ∀ b, choose code s.dev call = some b → s.task.waitSlot ≠ some b)
    (hnext : ∀ call', next = some call' → progress = .running call') :
    BlockInv { s with dev := dev, call := next } := by
  have hother (b : Slot) (hb : s.task.waitSlot = some b) : call.slot ≠ some b := by
    intro hslot
    apply h.apart b hb
    simp only [State.isrSlot, hcall, Option.bind_some, hslot]
  refine h.grow hs.history ?_ ?_ rfl rfl
  · apply h.wait.congr
    · exact fun b hb => hs.frame (hother b hb)
    · intro b hb
      simp only [Vouched, Kept, hs.vouched (hother b hb)]
      exact id
    · intro b hb
      simp only [Kept, hs.vouched (hother b (Task.waitSlot_of_resetSlot hb))]
      exact id
  · intro b hb hi
    rcases (hs.caller hnext).slot_next hi with hold | hnew
    · exact hother b hb hold
    · exact hapart b hnew hb

/-- An interrupt starts without a word about any mailbox. -/
theorem BlockInv.enter {s : State build} (h : BlockInv s) (hidle : s.isr.isIdle = true)
    (hcall : s.call = none) {isr : Isr} (hisr : ∀ b, isr.announces b = false) (txPending : Bool) :
    BlockInv { s with isr := isr, txPending := txPending } := by
  have hnone (b : Slot) : s.isr.announces b = false := by
    rw [Isr.eq_idle hidle]
    rfl
  refine h.grow (fun _ => List.prefix_rfl) ?_ (by simp [State.isrSlot, hcall]) rfl rfl
  apply h.wait.congr (fun _ _ => ⟨rfl, rfl, rfl⟩)
  · intro b _
    simp only [Vouched, Kept, hisr, hnone]
    exact id
  · intro b _
    simp only [Kept, hisr, hnone]
    exact id

theorem step_blockInv {s t : State build} {action : Action build} (h : BlockInv s)
    (hok : KeepsOff s action) (hs : step config s action = some t) : BlockInv t := by
  cases action with
  | complete b ok =>
    simp only [step, Option.ite_none_right_eq_some, Option.some.injEq, Bool.and_eq_true] at hs
    exact hs.2 ▸ h.grow (fun c => s.dev.slots.finish_history_prefix b c ok _)
      (h.wait.complete ok hs.1.1) h.apart rfl rfl
  | setInak | abort =>
    simp only [step, Option.some.injEq] at hs
    exact hs ▸ h.grow (fun _ => List.prefix_rfl)
      (h.wait.congr (fun _ _ => ⟨rfl, rfl, rfl⟩) (fun _ _ => id) fun _ _ => id) h.apart rfl rfl
  | nowait msg =>
    simp only [step, Option.ite_none_right_eq_some, Option.some.injEq, Bool.and_eq_true,
      State.taskRuns, Option.isNone_iff_eq_none] at hs
    exact hs.2 ▸ h.move hs.1.1.2 trivial
  | transmit msg =>
    simp only [step, Option.ite_none_right_eq_some, Option.some.injEq, Bool.and_eq_true,
      State.taskRuns, Option.isNone_iff_eq_none] at hs
    exact hs.2 ▸ h.move hs.1.1.2 ⟨trivial, fun _ hb => by cases hb⟩
  | setCallback callback =>
    simp only [step, Option.ite_none_right_eq_some, Option.some.injEq, Bool.and_eq_true,
      State.taskRuns, Option.isNone_iff_eq_none] at hs
    exact hs.2 ▸ h.move hs.1.1.2 trivial
  | taskStep code expired =>
    simp only [step, Option.ite_none_right_eq_some, Bool.and_eq_true, State.taskRuns,
      Option.isNone_iff_eq_none] at hs
    exact taskStep_blockInv h (Isr.eq_idle hs.1.1.1) hs.1.1.2 hs.1.2 hs.2
  | pend =>
    simp only [step, Option.ite_none_right_eq_some, Option.some.injEq] at hs
    exact hs.2 ▸ h.grow (fun _ => List.prefix_rfl) h.wait h.apart rfl rfl
  | txIrq =>
    simp only [step, Option.ite_none_right_eq_some, Option.some.injEq, Bool.and_eq_true,
      State.taskRuns, Option.isNone_iff_eq_none] at hs
    exact hs.2 ▸ h.enter hs.1.1.1 hs.1.1.2 (fun _ => rfl) false
  | errorIrq =>
    simp only [step, Option.ite_none_right_eq_some, Option.some.injEq, Bool.and_eq_true,
      State.taskRuns, Option.isNone_iff_eq_none] at hs
    exact hs.2 ▸ h.enter hs.1.1 hs.1.2 (fun _ => rfl) s.txPending
  | callback msg =>
    simp only [step, Option.ite_none_right_eq_some, Option.some.injEq] at hs
    exact hs.2 ▸ h.grow (fun _ => List.prefix_rfl) h.wait
      (by simp [State.isrSlot, Call.slot]) rfl rfl
  | isrStep code =>
    cases hcall : s.call with
    | none =>
      simp only [step, hcall, Option.map_eq_some_iff] at hs
      obtain ⟨⟨dev, isr⟩, hisr, rfl⟩ := hs
      have hnext := isrStep_blockInv h hcall hisr hok.2
      rwa [hcall] at hnext
    | some call =>
      have hapart : ∀ b, choose code s.dev call = some b → s.task.waitSlot ≠ some b := by
        intro b hb
        apply hok.1 b
        rw [hcall, Option.bind_some, hb]
      simp only [step, hcall, Option.ite_none_right_eq_some] at hs
      obtain ⟨hcode, hs⟩ := hs
      cases hcs : callStep code s.dev call with
      | mk dev progress =>
        have hstep := callStep_spec hcs
        cases progress with
        | running call' =>
          simp only [hcs, Option.some.injEq] at hs
          subst hs
          exact h.isrCall hstep hcall hapart fun _ hc => by rw [← Option.some.inj hc]
        | _ =>
          simp only [hcs, Option.some.injEq] at hs
          subst hs
          exact h.isrCall hstep hcall hapart fun _ hc => by cases hc

theorem initial_blockInv (words : Slot → TxMailbox) : BlockInv (initial words : State build) where
  wait := trivial
  apart := by simp [initial, Task.waitSlot]
  truthful := ⟨by simp [initial], by simp [initial]⟩

/-- In every run in which nobody uses the mailbox of a blocking call or brings an earlier
success into its `tx_ok`, its result and its abort are about its own frame. -/
theorem exec_returns_sound {words : Slot → TxMailbox} {run : List (Action build)} {s : State build}
    (hok : Along (step config) KeepsOff (initial words) run)
    (hrun : exec (step config) (initial words) run = some s) :
    (∀ r ∈ s.returns, r.Sound canonical s.dev.slots.history) ∧
      ∀ t ∈ s.timeouts, t.Sound s.dev.slots.history := by
  have hinv : BlockInv s :=
    exec_invariant (fun _ _ _ h hok hs => step_blockInv h hok hs) (initial_blockInv words) hok hrun
  exact ⟨hinv.truthful.returns, hinv.truthful.timeouts⟩

end UniHal.Can.Bxcan.Transmit
