import UniHal.Can.Bxcan.TransmitCall

/-! # Mailboxes are not shared on bxCAN

Two calls stay apart as long as the interrupt does not choose the mailbox that the interrupted
call of the task has chosen already.
-/

namespace UniHal.Can.Bxcan.Transmit
open Foundations Foundations.Execution

variable {build : Build} {config : Config}

/-- The mailbox that the call of the task has chosen and not yet requested. -/
def Task.slot (task : Task build) : Option Slot := task.call.bind Call.slot

/-- The mailbox that a callback has chosen and not yet requested. -/
def State.isrSlot (s : State build) : Option Slot := s.call.bind Call.slot

/-- A callback does not choose the mailbox of the interrupted call. -/
def KeepsApart (s : State build) : Action build → Prop
  | .isrStep code => ∀ b, s.call.bind (choose code s.dev) = some b → s.task.slot ≠ some b
  | _ => True

instance (s : State build) : DecidablePred (KeepsApart s) := fun action =>
  match action with
  | .isrStep code =>
    inferInstanceAs
      (Decidable (∀ b, s.call.bind (choose code s.dev) = some b → s.task.slot ≠ some b))
  | .complete _ _ | .setInak _ | .abort | .nowait _ | .transmit _ | .setCallback _
  | .taskStep _ _ | .pend | .txIrq | .errorIrq | .callback _ => .isTrue trivial

/-- What a step of the system does to the slots: nothing, a completion, or one step of a call
of the task or of a callback. -/
inductive SlotStep (s : State build) : Action build → State build → Prop
  | quiet {action : Action build} {t : State build} (hslots : t.dev.slots = s.dev.slots)
    (htask : t.task.call = s.task.call ∨ ∀ call, t.task.call = some call → call.slot = none)
    (hcall : t.call = s.call ∨ ∃ msg, t.call = some (.started msg)) : SlotStep s action t
  | complete {b : Slot} {ok : Bool} (hb : s.dev.pending b = true) :
    SlotStep s (.complete b ok) { s with dev := s.dev.complete b ok }
  | task {code : ℕ} {expired : Bool} {call : Call build} {dev : Dev build}
    {progress : Progress build} {task : Task build} (hidle : s.call = none)
    (hcode : validCode s.dev code = true) (htask : s.task.call = some call)
    (hs : CallStep code s.dev call dev progress)
    (hnext : ∀ call', task.call = some call' → progress = .running call') :
    SlotStep s (.taskStep code expired) { s with dev := dev, task := task }
  | isr {code : ℕ} {call : Call build} {dev : Dev build} {progress : Progress build}
    {next : Option (Call build)} (hcode : validCode s.dev code = true) (hcall : s.call = some call)
    (hs : CallStep code s.dev call dev progress)
    (hnext : ∀ call', next = some call' → progress = .running call') :
    SlotStep s (.isrStep code) { s with dev := dev, call := next }

theorem setCallbackStep_slots (s : Dev build) (callback : Bool) (stage : Stage) :
    (setCallbackStep s callback stage).1.slots = s.slots := by
  cases stage <;> rfl

theorem setCallbackStep_call (s : Dev build) (callback : Bool) (stage : Stage) :
    (setCallbackStep s callback stage).2.call = none := by
  cases stage <;> cases callback <;> rfl

/-- The cases of `isrStep`. -/
inductive IsrStep (s : Dev build) : Isr → Dev build → Isr → Prop
  | entry : IsrStep s .entry s (.acknowledge s.rqcp s.txok)
  | acknowledge {done success : Slot → Bool} :
    IsrStep s (.acknowledge done success)
      { s with rqcp := fun b => s.rqcp b && !done b, txok := fun b => s.txok b && !done b }
      (.report done success (List.finRange txMailboxes))
  | reported {done success : Slot → Bool} {b : Slot} {todo : List Slot} (hdone : done b = true) :
    IsrStep s (.report done success (b :: todo)) (s.report b (success b))
      (if s.callback then .callback done success todo else .report done success todo)
  | skipped {done success : Slot → Bool} {b : Slot} {todo : List Slot} (hdone : done b = false) :
    IsrStep s (.report done success (b :: todo)) s (.report done success todo)
  | finished {done success : Slot → Bool} : IsrStep s (.report done success []) s .idle
  | callback {done success : Slot → Bool} {todo : List Slot} :
    IsrStep s (.callback done success todo) s (.report done success todo)
  | errors : IsrStep s .errors s .idle

theorem isrStep_spec {s dev : Dev build} {isr isr' : Isr} (h : isrStep s isr = some (dev, isr')) :
    IsrStep s isr dev isr' := by
  cases isr with
  | idle => cases h
  | report done success todo =>
    cases todo with
    | nil =>
      cases h
      exact .finished
    | cons b todo =>
      cases hdone : done b with
      | true =>
        simp only [isrStep, hdone, if_true, Option.some.injEq, Prod.mk.injEq] at h
        obtain ⟨rfl, rfl⟩ := h
        exact .reported hdone
      | false =>
        simp only [isrStep, hdone, Bool.false_eq_true, if_false, Option.some.injEq,
          Prod.mk.injEq] at h
        obtain ⟨rfl, rfl⟩ := h
        exact .skipped hdone
  | _ =>
    cases h
    constructor

theorem IsrStep.slots {s dev : Dev build} {isr isr' : Isr} (h : IsrStep s isr dev isr') :
    dev.slots = s.slots := by
  cases h <;> rfl

theorem taskStep_spec {code : ℕ} {expired : Bool} {s t : State build} (hidle : s.call = none)
    (hcode : validCode s.dev code = true) (h : taskStep code expired s = some t) :
    SlotStep s (.taskStep code expired) t := by
  cases htask : s.task with
  | idle => simp [taskStep, htask] at h
  | nowait call | transmit call =>
    cases hcs : callStep code s.dev call with
    | mk dev progress =>
      have hs := callStep_spec hcs
      cases progress with
      | running call' =>
        simp only [taskStep, htask, hcs, Option.some.injEq] at h
        subst h
        exact .task hidle hcode (by rw [htask]; rfl) hs fun _ hc => by
          rw [← Option.some.inj hc]
      | _ =>
        simp only [taskStep, htask, hcs, Option.some.injEq] at h
        subst h
        exact .task hidle hcode (by rw [htask]; rfl) hs fun _ hc => by cases hc
  | poll b msg index =>
    cases hb : s.dev.pending b <;>
      simp only [taskStep, htask, hb, Bool.false_eq_true, if_true, if_false,
        Option.some.injEq] at h <;>
      exact h ▸ .quiet rfl (.inr fun _ hc => by cases hc) (.inl rfl)
  | deadline b msg index =>
    simp only [taskStep, htask, Option.some.injEq] at h
    subst h
    cases expired <;> exact .quiet rfl (.inr fun _ hc => by cases hc) (.inl rfl)
  | abort b msg index =>
    simp only [taskStep, htask, Option.some.injEq] at h
    exact h ▸ .quiet rfl (.inr fun _ hc => by cases hc) (.inl rfl)
  | outcome b msg index =>
    cases hok : s.dev.txok b <;>
      simp only [taskStep, htask, hok, Bool.false_eq_true, if_true, if_false,
        Option.some.injEq] at h <;>
      exact h ▸ .quiet rfl (.inr fun _ hc => by cases hc) (.inl rfl)
  | kept b msg index =>
    simp only [taskStep, htask, Option.some.injEq] at h
    exact h ▸ .quiet rfl (.inr fun _ hc => by cases hc) (.inl rfl)
  | setCallback callback stage =>
    simp only [taskStep, htask, Option.some.injEq] at h
    subst h
    refine .quiet (setCallbackStep_slots _ _ _) (.inr fun _ hc => ?_) (.inl rfl)
    rw [setCallbackStep_call] at hc
    cases hc

theorem step_spec {s t : State build} {action : Action build}
    (h : step config s action = some t) : SlotStep s action t := by
  cases action with
  | complete b ok =>
    simp only [step, Option.ite_none_right_eq_some, Option.some.injEq, Bool.and_eq_true] at h
    exact h.2 ▸ .complete h.1.1
  | setInak inak =>
    simp only [step, Option.some.injEq] at h
    exact h ▸ .quiet rfl (.inl rfl) (.inl rfl)
  | abort =>
    simp only [step, Option.some.injEq] at h
    exact h ▸ .quiet rfl (.inl rfl) (.inl rfl)
  | nowait msg =>
    simp only [step, Option.ite_none_right_eq_some, Option.some.injEq] at h
    exact h.2 ▸ .quiet rfl (.inr fun _ hc => by cases hc; rfl) (.inl rfl)
  | transmit msg =>
    simp only [step, Option.ite_none_right_eq_some, Option.some.injEq] at h
    exact h.2 ▸ .quiet rfl (.inr fun _ hc => by cases hc; rfl) (.inl rfl)
  | setCallback callback =>
    simp only [step, Option.ite_none_right_eq_some, Option.some.injEq] at h
    exact h.2 ▸ .quiet rfl (.inr fun _ hc => by cases hc) (.inl rfl)
  | taskStep code expired =>
    simp only [step, Option.ite_none_right_eq_some, Bool.and_eq_true, State.taskRuns,
      Option.isNone_iff_eq_none] at h
    exact taskStep_spec h.1.1.2 h.1.2 h.2
  | pend | txIrq | errorIrq =>
    simp only [step, Option.ite_none_right_eq_some, Option.some.injEq] at h
    exact h.2 ▸ .quiet rfl (.inl rfl) (.inl rfl)
  | callback msg =>
    simp only [step, Option.ite_none_right_eq_some, Option.some.injEq] at h
    exact h.2 ▸ .quiet rfl (.inl rfl) (.inr ⟨msg, rfl⟩)
  | isrStep code =>
    cases hcall : s.call with
    | none =>
      simp only [step, hcall, Option.map_eq_some_iff] at h
      obtain ⟨⟨dev, isr⟩, hisr, rfl⟩ := h
      exact .quiet (isrStep_spec hisr).slots (.inl rfl) (.inl hcall.symm)
    | some call =>
      simp only [step, hcall, Option.ite_none_right_eq_some] at h
      obtain ⟨hcode, h⟩ := h
      cases hcs : callStep code s.dev call with
      | mk dev progress =>
        have hs := callStep_spec hcs
        cases progress with
        | running call' =>
          simp only [hcs, Option.some.injEq] at h
          subst h
          exact .isr hcode hcall hs fun _ hc => by rw [← Option.some.inj hc]
        | _ =>
          simp only [hcs, Option.some.injEq] at h
          subst h
          exact .isr hcode hcall hs fun _ hc => by cases hc

abbrev OwnInv (s : State build) : Prop :=
  Owning caller canonical (sent build) s.dev.slots s.task.call s.call

theorem OwnInv.step {s t : State build} {action : Action build} (h : OwnInv s)
    (hok : KeepsApart s action) (hs : SlotStep s action t) : OwnInv t := by
  cases hs with
  | quiet hslots htask hcall =>
    rw [OwnInv, hslots]
    refine h.quiet htask (hcall.imp_right ?_)
    rintro ⟨msg, hmsg⟩ call hc
    cases hmsg.symm.trans hc
    rfl
  | complete hb => exact h.finish _ hb
  | task hidle hcode htask hs hnext =>
    exact h.taskCall hidle htask (hs.caller hnext) fun b hb => choose_free hb hcode
  | isr hcode hcall hs hnext =>
    refine h.isrCall hcall (hs.caller hnext) (fun b hb => choose_free hb hcode) fun b hb => ?_
    apply hok b
    rw [hcall, Option.bind_some, hb]

theorem SlotStep.untouched {s t : State build} {action : Action build}
    (hs : SlotStep s action t) : Untouched s.dev.slots t.dev.slots := by
  cases hs with
  | quiet hslots =>
    intro b _
    rw [hslots]
  | complete => exact fun _ _ => rfl
  | task _ _ _ hs _ => exact hs.untouched
  | isr _ _ hs _ => exact hs.untouched

theorem initial_ownInv (words : Slot → TxMailbox) : OwnInv (initial words : State build) :=
  Owning.fresh words

/-- In every run that keeps the calls apart, the mailboxes are owned by one call at a time and
pending mailboxes stay as they are. -/
theorem exec_exclusive {words : Slot → TxMailbox} {run : List (Action build)} {s : State build}
    (hok : Along (step config) KeepsApart (initial words) run)
    (hrun : exec (step config) (initial words) run = some s) :
    Exclusive canonical s.dev.slots s.task.slot s.isrSlot ∧
      ∀ action t, step config s action = some t → Untouched s.dev.slots t.dev.slots := by
  have hinv : OwnInv s :=
    exec_invariant (fun _ _ _ h hok hs => h.step hok (step_spec hs)) (initial_ownInv words) hok hrun
  exact ⟨hinv.exclusive, fun _ _ hs => (step_spec hs).untouched⟩

end UniHal.Can.Bxcan.Transmit
