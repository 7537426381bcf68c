import UniHal.Can.Fdcan.TransmitCall

/-! # Buffers are not shared on FDCAN

Two calls stay apart as long as the interrupt does not choose the buffer that the interrupted
call of the task has chosen already, and the FIFO does not fill up between the two reads of
its status by the task.
-/

namespace UniHal.Can.Fdcan.Transmit
open Foundations Foundations.Execution

variable {build : Build} {config : Config}

/-- The buffer that the call of the task has chosen and not yet requested. -/
def Task.slot (task : Task build) : Option Slot := task.call.bind Call.slot

/-- The buffer that a callback has chosen and not yet requested. -/
def State.isrSlot (s : State build) : Option Slot := s.call.bind Call.slot

def choosesFull (config : Config) (s : State build) : Bool :=
  match s.task.call with
  | some (.select _) => config.txFifoPriority && s.dev.fifoFull
  | _ => false

/-- A callback does not choose the buffer of the interrupted call, and the task does not choose
from a full FIFO. -/
def KeepsApart (config : Config) (s : State build) : Action build → Prop
  | .taskStep _ _ => choosesFull config s = false
  | .isrStep put =>
    ∀ b, s.call.bind (choose config put s.dev) = some b → s.task.slot ≠ some b
  | _ => True

instance (s : State build) : DecidablePred (KeepsApart config s) := fun action =>
  match action with
  | .taskStep _ _ => inferInstanceAs (Decidable (_ = false))
  | .isrStep put =>
    inferInstanceAs
      (Decidable (∀ b, s.call.bind (choose config put s.dev) = some b → s.task.slot ≠ some b))
  | .complete _ _ | .setInit _ | .abort | .nowait _ | .transmit _ | .setCallback _ | .irq
  | .callback _ => .isTrue trivial

/-- The calls keep apart, and the interrupt has seen room in the FIFO that nobody else takes
away. -/
structure OwnInv (config : Config) (s : State build) : Prop where
  owning : Owning (caller config) (canonical config) (decode build) s.dev.slots s.task.call s.call
  room : ∀ msg, s.call = some (.select msg) → config.txFifoPriority = true →
    s.dev.fifoFull = false

/-- Nothing changes for the calls when the task changes place without a buffer and the slots
stay as they are. -/
theorem OwnInv.quiet {s t : State build} (h : OwnInv config s)
    (hslots : t.dev.slots = s.dev.slots)
    (htask : t.task.call = s.task.call ∨ ∀ call, t.task.call = some call → call.slot = none)
    (hcall : t.call = s.call ∨ ∃ msg, t.call = some (.started msg)) : OwnInv config t where
  owning := by
    rw [hslots]
    refine h.owning.quiet htask (hcall.imp_right ?_)
    rintro ⟨msg, hmsg⟩ call hc
    cases hmsg.symm.trans hc
    rfl
  room := by
    intro msg hc hfifo
    have hpending : t.dev.pending = s.dev.pending := by
      funext b
      simp only [Dev.pending, hslots]
    have hfull : t.dev.fifoFull = s.dev.fifoFull := by
      simp only [Dev.fifoFull, hpending]
    rw [hfull]
    rcases hcall with heq | ⟨msg', hmsg⟩
    · exact h.room msg (heq ▸ hc) hfifo
    · cases hmsg.symm.trans hc

theorem OwnInv.complete {s : State build} (h : OwnInv config s) {b : Slot} (ok : Bool)
    (hb : s.dev.pending b = true) : OwnInv config { s with dev := s.dev.complete b ok } where
  owning := h.owning.finish ok hb
  room _ _ _ := fifoFull_eq_false.mpr ⟨b, s.dev.slots.finish_pending_self b ok _⟩

/-- One step of a call of the task, while the interrupt makes none. -/
theorem OwnInv.taskCall {s : State build} (h : OwnInv config s) (hcall : s.call = none)
    {put : ℕ} {call : Call build} {dev : Dev build} {progress : Progress build}
    {task : Task build} (hs : CallStep config put s.dev call dev progress)
    (htask : s.task.call = some call)
    (hfree : ∀ b, choose config put s.dev call = some b → s.dev.slots.pending b = false)
    (hnext : ∀ call', task.call = some call' → progress = .running call') :
    OwnInv config { s with dev := dev, task := task } where
  owning := h.owning.taskCall hcall htask (hs.caller hnext) hfree
  room := by simp [hcall]

/-- One step of a call of a callback, which leaves the call of the task alone. -/
theorem OwnInv.isrCall {s : State build} (h : OwnInv config s)
    {put : ℕ} {call : Call build} {dev : Dev build} {progress : Progress build}
    {next : Option (Call build)} (hs : CallStep config put s.dev call dev progress)
    (hcall : s.call = some call) (hput : validPut s.dev put = true)
    (hapart : ∀ b, choose config put s.dev call = some b → s.task.slot ≠ some b)
    (hnext : ∀ call', next = some call' → progress = .running call') :
    OwnInv config { s with dev := dev, call := next } where
  owning := by
    refine h.owning.isrCall hcall (hs.caller hnext) (fun b hb => ?_) hapart
    apply choose_free hb hput
    intro hfifo
    cases call with
    | select msg => exact h.room msg hcall hfifo
    | _ => simp [choose] at hb
  room := by
    intro msg hc' hfifo
    obtain rfl := hnext _ hc'
    cases hs with
    | moved _ _ hroom => exact hroom msg rfl hfifo

/-- What a step of the system does to the slots: nothing, a completion, or one step of a call
of the task or of a callback. -/
inductive SlotStep (config : Config) (s : State build) : Action build → State build → Prop
  | quiet {action : Action build} {t : State build} (hslots : t.dev.slots = s.dev.slots)
    (htask : t.task.call = s.task.call ∨ ∀ call, t.task.call = some call → call.slot = none)
    (hcall : t.call = s.call ∨ ∃ msg, t.call = some (.started msg)) : SlotStep config s action t
  | complete {b : Slot} {ok : Bool} (hb : s.dev.pending b = true) :
    SlotStep config s (.complete b ok) { s with dev := s.dev.complete b ok }
  | task {put : ℕ} {expired : Bool} {call : Call build} {dev : Dev build}
    {progress : Progress build} {task : Task build} (hidle : s.call = none)
    (hput : validPut s.dev put = true) (htask : s.task.call = some call)
    (hs : CallStep config put s.dev call dev progress)
    (hnext : ∀ call', task.call = some call' → progress = .running call') :
    SlotStep config s (.taskStep put expired) { s with dev := dev, task := task }
  | isr {put : ℕ} {call : Call build} {dev : Dev build} {progress : Progress build}
    {next : Option (Call build)} (hput : validPut s.dev put = true) (hcall : s.call = some call)
    (hs : CallStep config put s.dev call dev progress)
    (hnext : ∀ call', next = some call' → progress = .running call') :
    SlotStep config s (.isrStep put) { s with dev := dev, call := next }

theorem setCallbackStep_slots (s : Dev build) (callback : Bool) (stage : Stage) :
    (setCallbackStep s callback stage).1.slots = s.slots := by
  cases stage <;> rfl

theorem setCallbackStep_call (s : Dev build) (callback : Bool) (stage : Stage) :
    (setCallbackStep s callback stage).2.call = none := by
  cases stage <;> cases callback <;> rfl

/-- The cases of `isrStep`. -/
inductive IsrStep (s : Dev build) : Isr → Dev build → Isr → Prop
  | entry : IsrStep s .entry s (.acknowledge (s.tc && s.ie) (s.tcf && s.ie))
  | acknowledge {tc tcf : Bool} :
    IsrStep s (.acknowledge tc tcf) { s with tc := s.tc && !tc, tcf := s.tcf && !tcf }
      (.receive (tc || tcf))
  | receive {tx : Bool} : IsrStep s (.receive tx) s (if tx then .snapshot else .errors)
  | snapshot : IsrStep s .snapshot s (.transmitted fun b => s.txInflight b && !s.pending b)
  | transmitted {done : Slot → Bool} :
    IsrStep s (.transmitted done) { s with txInflight := fun b => s.txInflight b && !done b }
      (.report done s.txbto (List.finRange txBuffers))
  | reported {done success : Slot → Bool} {b : Slot} {todo : List Slot} (hdone : done b = true) :
    IsrStep s (.report done success (b :: todo)) (s.report b (success b))
      (if s.callback then .callback done success todo else .report done success todo)
  | skipped {done success : Slot → Bool} {b : Slot} {todo : List Slot} (hdone : done b = false) :
    IsrStep s (.report done success (b :: todo)) s (.report done success todo)
  | finished {done success : Slot → Bool} : IsrStep s (.report done success []) s .errors
  | callback {done success : Slot → Bool} {todo : List Slot} :
    IsrStep s (.callback done success todo) s (.report done success todo)
  | errors : IsrStep s .errors s .idle

theorem isrStep_spec {s dev : Dev build} {isr isr' : Isr} (h : isrStep s isr = some (dev, isr')) :
    IsrStep s isr dev isr' := by
  cases isr with
  | idle => cases h
  | report done success todo =>
    cases todo with
    | nil =>
      cases h
      exact .finished
    | cons b todo =>
      cases hdone : done b with
      | true =>
        simp only [isrStep, hdone, if_true, Option.some.injEq, Prod.mk.injEq] at h
        obtain ⟨rfl, rfl⟩ := h
        exact .reported hdone
      | false =>
        simp only [isrStep, hdone, Bool.false_eq_true, if_false, Option.some.injEq,
          Prod.mk.injEq] at h
        obtain ⟨rfl, rfl⟩ := h
        exact .skipped hdone
  | _ =>
    cases h
    constructor

theorem IsrStep.slots {s dev : Dev build} {isr isr' : Isr} (h : IsrStep s isr dev isr') :
    dev.slots = s.slots := by
  cases h <;> rfl

theorem taskStep_spec {put : ℕ} {expired : Bool} {s t : State build} (hidle : s.call = none)
    (hput : validPut s.dev put = true) (h : taskStep config put expired s = some t) :
    SlotStep config s (.taskStep put expired) t := by
  cases htask : s.task with
  | idle => simp [taskStep, htask] at h
  | nowait call | transmit call =>
    cases hcs : callStep config put s.dev call with
    | mk dev progress =>
      have hs := callStep_spec hcs
      cases progress with
      | running call' =>
        simp only [taskStep, htask, hcs, Option.some.injEq] at h
        subst h
        exact .task hidle hput (by rw [htask]; rfl) hs fun _ hc => by
          rw [← Option.some.inj hc]
      | _ =>
        simp only [taskStep, htask, hcs, Option.some.injEq] at h
        subst h
        exact .task hidle hput (by rw [htask]; rfl) hs fun _ hc => by cases hc
  | poll b msg index =>
    cases hb : s.dev.pending b <;>
      simp only [taskStep, htask, hb, Bool.false_eq_true, if_true, if_false,
        Option.some.injEq] at h <;>
      exact h ▸ .quiet rfl (.inr fun _ hc => by cases hc) (.inl rfl)
  | deadline b msg index =>
    simp only [taskStep, htask, Option.some.injEq] at h
    subst h
    cases expired <;> exact .quiet rfl (.inr fun _ hc => by cases hc) (.inl rfl)
  | abort b msg index =>
    simp only [taskStep, htask, Option.some.injEq] at h
    exact h ▸ .quiet rfl (.inr fun _ hc => by cases hc) (.inl rfl)
  | outcome b msg index =>
    simp only [taskStep, htask, Option.some.injEq] at h
    exact h ▸ .quiet rfl (.inr fun _ hc => by cases hc) (.inl rfl)
  | setCallback callback stage =>
    simp only [taskStep, htask, Option.some.injEq] at h
    subst h
    refine .quiet (setCallbackStep_slots _ _ _) (.inr fun _ hc => ?_) (.inl rfl)
    rw [setCallbackStep_call] at hc
    cases hc

theorem step_spec {s t : State build} {action : Action build}
    (h : step config s action = some t) : SlotStep config s action t := by
  cases action with
  | complete b ok =>
    simp only [step, Option.ite_none_right_eq_some, Option.some.injEq, Bool.and_eq_true] at h
    exact h.2 ▸ .complete h.1.1
  | setInit init =>
    simp only [step, Option.some.injEq] at h
    exact h ▸ .quiet rfl (.inl rfl) (.inl rfl)
  | abort =>
    simp only [step, Option.some.injEq] at h
    exact h ▸ .quiet rfl (.inl rfl) (.inl rfl)
  | nowait msg =>
    simp only [step, Option.ite_none_right_eq_some, Option.some.injEq] at h
    exact h.2 ▸ .quiet rfl (.inr fun _ hc => by cases hc; rfl) (.inl rfl)
  | transmit msg =>
    simp only [step, Option.ite_none_right_eq_some, Option.some.injEq] at h
    exact h.2 ▸ .quiet rfl (.inr fun _ hc => by cases hc; rfl) (.inl rfl)
  | setCallback callback =>
    simp only [step, Option.ite_none_right_eq_some, Option.some.injEq] at h
    exact h.2 ▸ .quiet rfl (.inr fun _ hc => by cases hc) (.inl rfl)
  | taskStep put expired =>
    simp only [step, Option.ite_none_right_eq_some, Bool.and_eq_true, State.taskRuns,
      Option.isNone_iff_eq_none] at h
    exact taskStep_spec h.1.1.2 h.1.2 h.2
  | irq =>
    simp only [step, Option.ite_none_right_eq_some, Option.some.injEq] at h
    exact h.2 ▸ .quiet rfl (.inl rfl) (.inl rfl)
  | callback msg =>
    simp only [step, Option.ite_none_right_eq_some, Option.some.injEq] at h
    exact h.2 ▸ .quiet rfl (.inl rfl) (.inr ⟨msg, rfl⟩)
  | isrStep put =>
    cases hcall : s.call with
    | none =>
      simp only [step, hcall, Option.map_eq_some_iff] at h
      obtain ⟨⟨dev, isr⟩, hisr, rfl⟩ := h
      exact .quiet (isrStep_spec hisr).slots (.inl rfl) (.inl hcall.symm)
    | some call =>
      simp only [step, hcall, Option.ite_none_right_eq_some] at h
      obtain ⟨hput, h⟩ := h
      cases hcs : callStep config put s.dev call with
      | mk dev progress =>
        have hs := callStep_spec hcs
        cases progress with
        | running call' =>
          simp only [hcs, Option.some.injEq] at h
          subst h
          exact .isr hput hcall hs fun _ hc => by rw [← Option.some.inj hc]
        | _ =>
          simp only [hcs, Option.some.injEq] at h
          subst h
          exact .isr hput hcall hs fun _ hc => by cases hc

theorem choosesFull_select {s : State build} {msg : Msg build.dataSize}
    (htask : s.task.call = some (.select msg)) (h : choosesFull config s = false)
    (hfifo : config.txFifoPriority = true) : s.dev.fifoFull = false := by
  simpa [choosesFull, htask, hfifo] using h

theorem OwnInv.step {s t : State build} {action : Action build} (h : OwnInv config s)
    (hok : KeepsApart config s action) (hs : SlotStep config s action t) : OwnInv config t := by
  cases hs with
  | quiet hslots htask hcall => exact h.quiet hslots htask hcall
  | complete hb => exact h.complete _ hb
  | @task put expired call dev progress task hidle hput htask hs hnext =>
    apply h.taskCall hidle hs htask _ hnext
    intro b hb
    apply choose_free hb hput
    cases call with
    | select msg => exact choosesFull_select htask hok
    | _ => simp [choose] at hb
  | isr hput hcall hs hnext =>
    apply h.isrCall hs hcall hput _ hnext
    intro b hb
    apply hok b
    rw [hcall, Option.bind_some, hb]

theorem OwnInv.untouched {s t : State build} {action : Action build} (h : OwnInv config s)
    (hs : SlotStep config s action t) : Untouched s.dev.slots t.dev.slots := by
  cases hs with
  | quiet hslots =>
    intro b _
    rw [hslots]
  | complete => exact fun _ _ => rfl
  | task _ _ htask hs _ => exact hs.untouched (h.owning.task_prepared _ htask)
  | isr _ hcall hs _ => exact hs.untouched (h.owning.isr_prepared _ hcall)

theorem initial_ownInv (words : Slot → Element) :
    OwnInv config (initial words : State build) where
  owning := Owning.fresh words
  room := by simp [initial]

/-- In every run that keeps the calls apart, the buffers are owned by one call at a time and
pending elements stay as they are. -/
theorem exec_exclusive {words : Slot → Element} {run : List (Action build)} {s : State build}
    (hok : Along (step config) (KeepsApart config) (initial words) run)
    (hrun : exec (step config) (initial words) run = some s) :
    Exclusive (canonical config) s.dev.slots s.task.slot s.isrSlot ∧
      ∀ action t, step config s action = some t → Untouched s.dev.slots t.dev.slots := by
  have hinv : OwnInv config s :=
    exec_invariant (fun _ _ _ h hok hs => h.step hok (step_spec hs)) (initial_ownInv words) hok hrun
  exact ⟨hinv.owning.exclusive, fun _ _ hs => hinv.untouched (step_spec hs)⟩

end UniHal.Can.Fdcan.Transmit
