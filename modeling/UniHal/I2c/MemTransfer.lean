import UniHal.Foundations.Execution

/-! # Memory transfers of the STM32L4 I2C driver in interrupt mode under FreeRTOS

A task waits until the HAL is ready, stores itself as the one to notify, clears its notification,
starts its transfer and waits for the notification. The interrupt at the end of a transfer
notifies the stored task, whichever task has started the transfer.
-/

namespace UniHal.I2c.MemTransfer
open Foundations Execution

/-- `HAL_I2C_Mem_Read_IT` or `HAL_I2C_Mem_Write_IT` -/
inductive Direction
  | read
  | write
  deriving DecidableEq, Repr

/-- What a call asks for, without its data. -/
structure Request where
  direction : Direction
  timeout : UInt32
  deriving DecidableEq, Repr

inductive Pc
  | getState (r : Request)
  | elapsed (r : Request)
  | storeTask (r : Request)
  | stateClear (r : Request)
  | valueClear (r : Request)
  | startIt (r : Request)
  | notifyWait (r : Request) (id : ℕ)
  | wait (r : Request) (id deadline : ℕ)
  deriving DecidableEq, Repr

/-- The transfer that the HAL is busy with. -/
structure Transfer (τ : Type*) where
  id : ℕ
  owner : τ
  direction : Direction
  deriving DecidableEq

structure Ending (τ : Type*) where
  id : ℕ
  owner : τ
  notified : τ
  success : Bool
  tick : ℕ
  deriving DecidableEq

/-- A call that has returned: the transfer it has waited for with its deadline, and its result. -/
structure Return (τ : Type*) where
  task : τ
  request : Request
  waited : Option (ℕ × ℕ)
  result : Bool

structure State (τ : Type*) where
  inited : Bool
  /-- `ctx->state.irq_task` -/
  irqTask : Option τ
  /-- `ucNotifyState` of a task is `taskNOTIFICATION_RECEIVED`. -/
  notifyState : τ → Bool
  /-- `ulNotifiedValue` of a task -/
  notifiedValue : τ → UInt32
  /-- `HAL_I2C_STATE_READY` is the absence of a transfer. -/
  running : Option (Transfer τ)
  started : ℕ
  ended : List (Ending τ)
  /-- the tick count of the kernel -/
  tickCount : ℕ
  calls : τ → Option Pc
  returned : List (Return τ)

def pdMsToTicks (tickRateHz : ℕ) (timeout : UInt32) : ℕ :=
  timeout.toNat * tickRateHz / 1000 % 2 ^ 32

variable {τ : Type*}

def start (inited : Bool) : State τ where
  inited := inited
  irqTask := none
  notifyState _ := false
  notifiedValue _ := 0
  running := none
  started := 0
  ended := []
  tickCount := 0
  calls _ := none
  returned := []

variable [DecidableEq τ]

namespace State

def goTo (s : State τ) (t : τ) (pc : Pc) : State τ :=
  { s with calls := Function.update s.calls t (some pc) }

def ret (s : State τ) (t : τ) (r : Request) (waited : Option (ℕ × ℕ)) (result : Bool) : State τ :=
  { s with
    calls := Function.update s.calls t none
    returned := ⟨t, r, waited, result⟩ :: s.returned }

/-- `xTaskNotifyStateClearIndexed` -/
def notifyStateClear (s : State τ) (t : τ) : State τ :=
  { s with notifyState := Function.update s.notifyState t false }

/-- `ulTaskNotifyValueClearIndexed` of all bits -/
def notifyValueClear (s : State τ) (t : τ) : State τ :=
  { s with notifiedValue := Function.update s.notifiedValue t 0 }

/-- `xTaskNotifyIndexedFromISR` with `eSetBits` -/
def notifyFromIsr (s : State τ) (t : τ) (bits : UInt32) : State τ :=
  { s with
    notifyState := Function.update s.notifyState t true
    notifiedValue := Function.update s.notifiedValue t (s.notifiedValue t ||| bits) }

/-- `_uni_hal_i2c_callback`; a task handle that is NULL fails an assertion of the kernel. -/
def callback (s : State τ) (success : Bool) : Option (State τ) :=
  s.irqTask.map fun t => s.notifyFromIsr t (if success then 1 else 0)

def interrupt (s : State τ) (success : Bool) : Option (State τ) :=
  match s.running, s.irqTask with
  | some x, some notified =>
    { s with
      running := none
      ended := ⟨x.id, x.owner, notified, success, s.tickCount⟩ :: s.ended }.callback success
  | _, _ => none

/-- `HAL_I2C_Mem_Read_IT` or `HAL_I2C_Mem_Write_IT`, refused while a transfer runs; it may fail
for another reason. A call without a timeout does not wait. -/
def startIt (s : State τ) (t : τ) (r : Request) (accepted : Bool) : State τ :=
  if accepted && s.running.isNone then
    let id := s.started
    let s := { s with running := some ⟨id, t, r.direction⟩, started := id + 1 }
    if r.timeout = 0 then s.ret t r none true else s.goTo t (.notifyWait r id)
  else s.ret t r none false

/-- The end of `xTaskNotifyWaitIndexed`: a notification is taken and its value compared, even when
the time is up; without one the task sleeps until then. -/
def wake (s : State τ) (t : τ) (r : Request) (id deadline : ℕ) : State τ :=
  if s.notifyState t then
    ((s.notifyStateClear t).notifyValueClear t).ret t r (some (id, deadline))
      (s.notifiedValue t = 1)
  else if deadline ≤ s.tickCount then s.ret t r (some (id, deadline)) false
  else s

/-- The next step of the call of a task. The environment's answer is whether the time is up
while the HAL is not ready, and the one of the HAL where the transfer is started. -/
def resume (tickRateHz : ℕ) (s : State τ) (t : τ) (answer : Bool) : Pc → State τ
  | .getState r => s.goTo t (if s.running.isNone then .storeTask r else .elapsed r)
  | .elapsed r => if answer then s.ret t r none false else s.goTo t (.getState r)
  | .storeTask r => { s with irqTask := some t }.goTo t (.stateClear r)
  | .stateClear r => (s.notifyStateClear t).goTo t (.valueClear r)
  | .valueClear r => (s.notifyValueClear t).goTo t (.startIt r)
  | .startIt r => s.startIt t r answer
  | .notifyWait r id => s.goTo t (.wait r id (s.tickCount + pdMsToTicks tickRateHz r.timeout))
  | .wait r id deadline => s.wake t r id deadline

def memTransfer (s : State τ) (t : τ) (r : Request) : State τ :=
  if s.inited then s.goTo t (.getState r) else s.ret t r none false

def memRead (s : State τ) (t : τ) (timeout : UInt32) : State τ :=
  s.memTransfer t ⟨.read, timeout⟩

def memWrite (s : State τ) (t : τ) (timeout : UInt32) : State τ :=
  s.memTransfer t ⟨.write, timeout⟩

end State

inductive Action (τ : Type*)
  | memRead (t : τ) (timeout : UInt32)
  | memWrite (t : τ) (timeout : UInt32)
  | resume (t : τ) (answer : Bool)
  | interrupt (success : Bool)
  | tick

/-- Any of the tasks makes its next step, a transfer ends, or time passes. -/
def step (tickRateHz : ℕ) (s : State τ) : Action τ → Option (State τ)
  | .memRead t timeout => if s.calls t = none then some (s.memRead t timeout) else none
  | .memWrite t timeout => if s.calls t = none then some (s.memWrite t timeout) else none
  | .resume t answer => (s.calls t).map (s.resume tickRateHz t answer)
  | .interrupt success => s.interrupt success
  | .tick => some { s with tickCount := s.tickCount + 1 }

/-- What the transfers owe to the tasks that start them. -/
structure ReportsOwn (s : State τ) : Prop where
  /-- true is returned only for the own transfer, after its end and without an error -/
  own : ∀ r ∈ s.returned, r.request.timeout ≠ 0 → r.result = true →
    ∃ e ∈ s.ended, r.waited.map Prod.fst = some e.id ∧ e.owner = r.task ∧ e.success = true
  /-- a transfer that ends well before the deadline of its call is reported -/
  inTime : ∀ r ∈ s.returned, ∀ id deadline, r.waited = some (id, deadline) →
    ∀ e ∈ s.ended, e.id = id → e.success = true → e.tick < deadline → r.result = true
  delivered : ∀ e ∈ s.ended, e.notified = e.owner

/-- No task stores itself while a transfer runs, and each transfer is started by the task that
was the last to store itself. -/
def Exclusive (s : State τ) : Action τ → Prop
  | .resume t answer =>
    (∀ r, s.calls t = some (.storeTask r) → s.running = none) ∧
      (∀ r, s.calls t = some (.startIt r) → answer = true → s.running = none →
        s.irqTask = some t)
  | _ => True

section Inversion
variable {tickRateHz : ℕ} {s s' : State τ}

theorem step_memRead_eq_some {t : τ} {timeout : UInt32} :
    step tickRateHz s (.memRead t timeout) = some s' ↔
      s.calls t = none ∧ s.memRead t timeout = s' := by
  by_cases h : s.calls t = none <;> simp [step, h]

theorem step_memWrite_eq_some {t : τ} {timeout : UInt32} :
    step tickRateHz s (.memWrite t timeout) = some s' ↔
      s.calls t = none ∧ s.memWrite t timeout = s' := by
  by_cases h : s.calls t = none <;> simp [step, h]

theorem step_resume_eq_some {t : τ} {answer : Bool} :
    step tickRateHz s (.resume t answer) = some s' ↔
      ∃ pc, s.calls t = some pc ∧ s.resume tickRateHz t answer pc = s' :=
  Option.map_eq_some_iff

theorem step_interrupt_eq_some {success : Bool} :
    step tickRateHz s (.interrupt success) = some s' ↔
      ∃ x t, s.running = some x ∧ s.irqTask = some t ∧ { s with
        running := none
        ended := ⟨x.id, x.owner, t, success, s.tickCount⟩ :: s.ended }.notifyFromIsr t
          (if success then 1 else 0) = s' := by
  cases hrun : s.running with
  | none => simp [step, State.interrupt, hrun]
  | some x =>
    cases htask : s.irqTask with
    | none => simp [step, State.interrupt, hrun, htask]
    | some t => simp [step, State.interrupt, State.callback, hrun, htask]

theorem step_tick_eq_some :
    step tickRateHz s .tick = some s' ↔ { s with tickCount := s.tickCount + 1 } = s' := by
  simp [step]

end Inversion

def Pc.Preparing : Pc → Prop
  | .storeTask _ | .stateClear _ | .valueClear _ | .startIt _ => True
  | _ => False

def Pc.Unstored : Pc → Prop
  | .getState _ | .elapsed _ | .storeTask _ => True
  | _ => False

def Pc.Awaits (id : ℕ) : Pc → Prop
  | .notifyWait _ j | .wait _ j _ => j = id
  | _ => False

structure Tracked (s : State τ) : Prop where
  running_lt : ∀ x, s.running = some x → x.id < s.started
  ended_lt : ∀ e ∈ s.ended, e.id < s.started
  fresh : ∀ x, s.running = some x → ∀ e ∈ s.ended, e.id ≠ x.id
  unique : ∀ e ∈ s.ended, ∀ f ∈ s.ended, e.id = f.id → e = f
  preparing : ∀ t pc, s.calls t = some pc → pc.Preparing → ∀ x, s.running = some x → x.owner ≠ t
  awaited_lt : ∀ t pc id, s.calls t = some pc → pc.Awaits id → id < s.started
  awaited : ∀ t pc id, s.calls t = some pc → pc.Awaits id →
    ∀ x, s.running = some x → x.owner = t → x.id = id
  unstored : s.irqTask = none → ∀ t pc, s.calls t = some pc → pc.Unstored

omit [DecidableEq τ] in
theorem start_tracked (inited : Bool) : Tracked (start inited : State τ) := by
  constructor
  all_goals simp [start]

theorem calls_goTo {s : State τ} {t u : τ} {pc qc : Pc} :
    (s.goTo t pc).calls u = some qc ↔ u = t ∧ pc = qc ∨ u ≠ t ∧ s.calls u = some qc := by
  by_cases hut : u = t <;> simp [State.goTo, hut]

theorem calls_ret {s : State τ} {t u : τ} {r : Request} {waited : Option (ℕ × ℕ)} {result : Bool}
    {qc : Pc} : (s.ret t r waited result).calls u = some qc ↔ u ≠ t ∧ s.calls u = some qc := by
  by_cases hut : u = t <;> simp [State.ret, hut]

namespace Tracked
variable {s : State τ}

omit [DecidableEq τ] in
theorem setNotify (h : Tracked s) (notifyState : τ → Bool) (notifiedValue : τ → UInt32) :
    Tracked { s with notifyState, notifiedValue } :=
  ⟨h.running_lt, h.ended_lt, h.fresh, h.unique, h.preparing, h.awaited_lt, h.awaited,
    h.unstored⟩

omit [DecidableEq τ] in
theorem setTask (h : Tracked s) (t : τ) : Tracked { s with irqTask := some t } :=
  ⟨h.running_lt, h.ended_lt, h.fresh, h.unique, h.preparing, h.awaited_lt, h.awaited,
    fun hnone => by cases hnone⟩

theorem goTo (h : Tracked s) {t : τ} {pc : Pc}
    (hprep : pc.Preparing → ∀ x, s.running = some x → x.owner ≠ t)
    (hawait : ∀ id, pc.Awaits id → id < s.started ∧
      ∀ x, s.running = some x → x.owner = t → x.id = id)
    (hstored : s.irqTask = none → pc.Unstored) : Tracked (s.goTo t pc) where
  running_lt := h.running_lt
  ended_lt := h.ended_lt
  fresh := h.fresh
  unique := h.unique
  preparing := by
    intro u qc hqc
    rcases calls_goTo.mp hqc with ⟨rfl, rfl⟩ | ⟨-, hold⟩
    · exact hprep
    · exact h.preparing u qc hold
  awaited_lt := by
    intro u qc id hqc
    rcases calls_goTo.mp hqc with ⟨rfl, rfl⟩ | ⟨-, hold⟩
    · exact fun h => (hawait id h).1
    · exact h.awaited_lt u qc id hold
  awaited := by
    intro u qc id hqc
    rcases calls_goTo.mp hqc with ⟨rfl, rfl⟩ | ⟨-, hold⟩
    · exact fun h => (hawait id h).2
    · exact h.awaited u qc id hold
  unstored := by
    intro hnone u qc hqc
    rcases calls_goTo.mp hqc with ⟨rfl, rfl⟩ | ⟨-, hold⟩
    · exact hstored hnone
    · exact h.unstored hnone u qc hold

theorem ret (h : Tracked s) (t : τ) (r : Request) (waited : Option (ℕ × ℕ)) (result : Bool) :
    Tracked (s.ret t r waited result) where
  running_lt := h.running_lt
  ended_lt := h.ended_lt
  fresh := h.fresh
  unique := h.unique
  preparing := fun u qc hqc => h.preparing u qc (calls_ret.mp hqc).2
  awaited_lt := fun u qc id hqc => h.awaited_lt u qc id (calls_ret.mp hqc).2
  awaited := fun u qc id hqc => h.awaited u qc id (calls_ret.mp hqc).2
  unstored := fun hnone u qc hqc => h.unstored hnone u qc (calls_ret.mp hqc).2

omit [DecidableEq τ] in
/-- A new transfer has a number of its own, and only its task knows it. -/
theorem launch (h : Tracked s) {s' : State τ} {t : τ} {d : Direction}
    (hcalls : ∀ u pc, s'.calls u = some pc → u ≠ t ∧ s.calls u = some pc ∨
      u = t ∧ ¬ pc.Preparing ∧ ∀ id, pc.Awaits id → id = s.started)
    (hrunning : s'.running = some ⟨s.started, t, d⟩) (hstarted : s'.started = s.started + 1)
    (hended : s'.ended = s.ended) (hstored : s'.irqTask ≠ none) : Tracked s' where
  running_lt := by
    intro x hx
    rw [hrunning, Option.some.injEq] at hx
    rw [← hx, hstarted]
    exact Nat.lt_succ_self _
  ended_lt := by
    intro e he
    rw [hstarted]
    exact Nat.lt_succ_of_lt (h.ended_lt e (hended ▸ he))
  fresh := by
    intro x hx e he
    rw [hrunning, Option.some.injEq] at hx
    rw [← hx]
    exact (h.ended_lt e (hended ▸ he)).ne
  unique := by
    rw [hended]
    exact h.unique
  preparing := by
    intro u pc hpc hprep x hx
    rw [hrunning, Option.some.injEq] at hx
    rw [← hx]
    rcases hcalls u pc hpc with ⟨hut, -⟩ | ⟨-, hnot, -⟩
    · exact hut.symm
    · exact absurd hprep hnot
  awaited_lt := by
    intro u pc id hpc hawait
    rw [hstarted]
    rcases hcalls u pc hpc with ⟨-, hold⟩ | ⟨-, -, hown⟩
    · exact Nat.lt_succ_of_lt (h.awaited_lt u pc id hold hawait)
    · exact (hown id hawait).trans_lt (Nat.lt_succ_self _)
  awaited := by
    intro u pc id hpc hawait x hx howner
    rw [hrunning, Option.some.injEq] at hx
    rw [← hx] at howner ⊢
    rcases hcalls u pc hpc with ⟨hut, -⟩ | ⟨-, -, hown⟩
    · exact absurd howner.symm hut
    · exact (hown id hawait).symm
  unstored := fun hnone => absurd hnone hstored

theorem startIt (h : Tracked s) {t : τ} {r : Request} (hcall : s.calls t = some (.startIt r))
    (accepted : Bool) : Tracked (s.startIt t r accepted) := by
  have hstored : s.irqTask ≠ none := fun hnone => h.unstored hnone t _ hcall
  unfold State.startIt
  split
  · split
    · refine h.launch (fun u pc hpc => .inl ?_) rfl rfl rfl hstored
      have hold := calls_ret.mp hpc
      exact hold
    · refine h.launch (fun u pc hpc => ?_) rfl rfl rfl hstored
      rcases calls_goTo.mp hpc with ⟨hut, rfl⟩ | hold
      · exact .inr ⟨hut, id, fun id hid => hid.symm⟩
      · exact .inl hold
  · exact h.ret t r none false

theorem wake (h : Tracked s) (t : τ) (r : Request) (id deadline : ℕ) :
    Tracked (s.wake t r id deadline) := by
  rw [State.wake]
  split
  · exact (h.setNotify _ _).ret t r _ _
  · split
    · exact h.ret t r _ false
    · exact h

theorem resume (h : Tracked s) {t : τ} {pc : Pc} (hcall : s.calls t = some pc)
    (tickRateHz : ℕ) (answer : Bool) : Tracked (s.resume tickRateHz t answer pc) := by
  have hprep := h.preparing t pc hcall
  have hstored : s.irqTask = none → pc.Unstored := fun hnone => h.unstored hnone t pc hcall
  cases pc with
  | getState r =>
    rw [State.resume]
    split
    · rename_i hidle
      refine h.goTo (fun _ x hx => ?_) (fun _ => False.elim) fun _ => trivial
      rw [hx] at hidle
      cases hidle
    · exact h.goTo False.elim (fun _ => False.elim) fun _ => trivial
  | elapsed r =>
    rw [State.resume]
    split
    · exact h.ret t r none false
    · exact h.goTo False.elim (fun _ => False.elim) fun _ => trivial
  | storeTask r =>
    exact (h.setTask t).goTo hprep (fun _ => False.elim) fun hnone => (by cases hnone)
  | stateClear r => exact (h.setNotify _ _).goTo hprep (fun _ => False.elim) hstored
  | valueClear r => exact (h.setNotify _ _).goTo hprep (fun _ => False.elim) hstored
  | startIt r => exact h.startIt hcall answer
  | notifyWait r id =>
    exact h.goTo False.elim
      (fun j hj => ⟨h.awaited_lt t _ j hcall hj, h.awaited t _ j hcall hj⟩) hstored
  | wait r id deadline => exact h.wake t r id deadline

omit [DecidableEq τ] in
theorem finish (h : Tracked s) {x : Transfer τ} (hx : s.running = some x) {e : Ending τ}
    (he : e.id = x.id) : Tracked { s with running := none, ended := e :: s.ended } where
  running_lt := fun y hy => by cases hy
  ended_lt := by
    intro f hf
    rcases List.mem_cons.mp hf with rfl | hf
    · exact he ▸ h.running_lt x hx
    · exact h.ended_lt f hf
  fresh := fun y hy => by cases hy
  unique := by
    intro f hf g hg heq
    rcases List.mem_cons.mp hf with hfe | hfold
    · rcases List.mem_cons.mp hg with hge | hgold
      · rw [hfe, hge]
      · exact absurd (heq.symm.trans (hfe ▸ he)) (h.fresh x hx g hgold)
    · rcases List.mem_cons.mp hg with hge | hgold
      · exact absurd (heq.trans (hge ▸ he)) (h.fresh x hx f hfold)
      · exact h.unique f hfold g hgold heq
  preparing := fun t pc _ _ y hy => by cases hy
  awaited_lt := h.awaited_lt
  awaited := fun t pc id _ _ y hy => by cases hy
  unstored := h.unstored

theorem memTransfer (h : Tracked s) (t : τ) (r : Request) : Tracked (s.memTransfer t r) := by
  rw [State.memTransfer]
  split
  · exact h.goTo False.elim (fun _ => False.elim) fun _ => trivial
  · exact h.ret t r none false

theorem step (h : Tracked s) {tickRateHz : ℕ} {s' : State τ} {a : Action τ}
    (hstep : step tickRateHz s a = some s') : Tracked s' := by
  cases a with
  | memRead t timeout =>
    obtain ⟨-, rfl⟩ := step_memRead_eq_some.mp hstep
    exact h.memTransfer t _
  | memWrite t timeout =>
    obtain ⟨-, rfl⟩ := step_memWrite_eq_some.mp hstep
    exact h.memTransfer t _
  | resume t answer =>
    obtain ⟨pc, hcall, rfl⟩ := step_resume_eq_some.mp hstep
    exact h.resume hcall tickRateHz answer
  | interrupt success =>
    obtain ⟨x, t, hx, -, rfl⟩ := step_interrupt_eq_some.mp hstep
    have hfinish := h.finish hx (e := ⟨x.id, x.owner, t, success, s.tickCount⟩) rfl
    exact hfinish.setNotify _ _
  | tick =>
    obtain rfl := step_tick_eq_some.mp hstep
    exact ⟨h.running_lt, h.ended_lt, h.fresh, h.unique, h.preparing, h.awaited_lt, h.awaited,
      h.unstored⟩

end Tracked

/-- The transfer still runs and its task has not been notified, or it has ended and the task's
notification tells how. -/
def Pending (s : State τ) (t : τ) (id : ℕ) : Prop :=
  (∃ x, s.running = some x ∧ x.id = id ∧ x.owner = t ∧
      s.notifyState t = false ∧ s.notifiedValue t = 0) ∨
    ∃ e ∈ s.ended, e.id = id ∧ e.owner = t ∧ s.notifyState t = true ∧
      s.notifiedValue t = if e.success then 1 else 0

def CallInv (s : State τ) (t : τ) : Pc → Prop
  | .getState _ | .elapsed _ | .storeTask _ | .stateClear _ => True
  | .valueClear _ => s.notifyState t = false
  | .startIt _ => s.notifyState t = false ∧ s.notifiedValue t = 0
  | .notifyWait _ id | .wait _ id _ => Pending s t id

def Late (s : State τ) (id deadline : ℕ) : Prop :=
  id < s.started ∧
    (∀ e ∈ s.ended, e.id = id → e.success = true → deadline ≤ e.tick) ∧
      ∀ x, s.running = some x → x.id = id → deadline ≤ s.tickCount

/-- A call that has waited for its transfer has returned true if it had ended well, and false if
that took too long. -/
def Reported (s : State τ) (r : Return τ) : Prop :=
  ∀ id deadline, r.waited = some (id, deadline) →
    (r.result = true → ∃ e ∈ s.ended, e.id = id ∧ e.owner = r.task ∧ e.success = true) ∧
      (r.result = false → Late s id deadline)

structure Inv (s : State τ) : Prop where
  stored : ∀ x, s.running = some x → s.irqTask = some x.owner
  delivered : ∀ e ∈ s.ended, e.notified = e.owner
  calls : ∀ t pc, s.calls t = some pc → CallInv s t pc
  waited : ∀ r ∈ s.returned, r.request.timeout ≠ 0 → r.result = true → r.waited ≠ none
  returned : ∀ r ∈ s.returned, Reported s r

omit [DecidableEq τ] in
theorem start_inv (inited : Bool) : Inv (start inited : State τ) := by
  constructor
  all_goals simp [start]

omit [DecidableEq τ] in
/-- What a task can rely on stays as long as nothing changes that it can see. -/
theorem CallInv.frame {s s' : State τ} {t : τ} {pc : Pc} (h : CallInv s t pc)
    (hrunning : ∀ x, x.owner = t → s.running = some x → s'.running = some x)
    (hended : ∀ e ∈ s.ended, e ∈ s'.ended) (hstate : s'.notifyState t = s.notifyState t)
    (hvalue : s'.notifiedValue t = s.notifiedValue t) : CallInv s' t pc := by
  have hpending : ∀ id, Pending s t id → Pending s' t id := by
    rintro id (⟨x, hx, hid, howner, hpend⟩ | ⟨e, he, hend⟩)
    · exact .inl ⟨x, hrunning x howner hx, hid, howner, by rwa [hstate, hvalue]⟩
    · exact .inr ⟨e, hended e he, by rwa [hstate, hvalue]⟩
  cases pc with
  | getState r => trivial
  | elapsed r => trivial
  | storeTask r => trivial
  | stateClear r => trivial
  | valueClear r => exact hstate.trans h
  | startIt r => exact ⟨hstate.trans h.1, hvalue.trans h.2⟩
  | notifyWait r id => exact hpending id h
  | wait r id deadline => exact hpending id h

namespace Inv
variable {s : State τ}

theorem goTo (h : Inv s) {t : τ} {pc : Pc} (hpc : CallInv s t pc) : Inv (s.goTo t pc) where
  stored := h.stored
  delivered := h.delivered
  calls := by
    intro u qc hqc
    rcases calls_goTo.mp hqc with ⟨rfl, rfl⟩ | ⟨-, hold⟩
    · exact hpc.frame (fun _ _ hx => hx) (fun _ he => he) rfl rfl
    · exact (h.calls u qc hold).frame (fun _ _ hx => hx) (fun _ he => he) rfl rfl
  waited := h.waited
  returned := h.returned

theorem ret (h : Inv s) {t : τ} {r : Request} {waited : Option (ℕ × ℕ)} {result : Bool}
    (hwaited : r.timeout ≠ 0 → result = true → waited ≠ none)
    (hreported : Reported s ⟨t, r, waited, result⟩) : Inv (s.ret t r waited result) where
  stored := h.stored
  delivered := h.delivered
  calls := fun u qc hqc =>
    (h.calls u qc (calls_ret.mp hqc).2).frame (fun _ _ hx => hx) (fun _ he => he) rfl rfl
  waited := List.forall_mem_cons.mpr ⟨hwaited, h.waited⟩
  returned := List.forall_mem_cons.mpr ⟨hreported, h.returned⟩

theorem retNone (h : Inv s) {t : τ} {r : Request} {result : Bool}
    (hresult : r.timeout ≠ 0 → result = false) : Inv (s.ret t r none result) := by
  refine h.ret (fun htimeout htrue => ?_) (fun id deadline hnone => by cases hnone)
  rw [hresult htimeout] at htrue
  cases htrue

omit [DecidableEq τ] in
theorem storeTask (h : Inv s) {t : τ} (hidle : s.running = none) :
    Inv { s with irqTask := some t } where
  stored := by
    intro x hx
    rw [hidle] at hx
    cases hx
  delivered := h.delivered
  calls := fun u qc hqc =>
    (h.calls u qc hqc).frame (fun _ _ hx => hx) (fun _ he => he) rfl rfl
  waited := h.waited
  returned := h.returned

omit [DecidableEq τ] in
/-- A change of the notification of one task does not show to the others. -/
theorem renotify (h : Inv s) {t : τ} {notifyState : τ → Bool} {notifiedValue : τ → UInt32}
    (hothers : ∀ u, u ≠ t → notifyState u = s.notifyState u ∧
      notifiedValue u = s.notifiedValue u)
    (hcall : ∀ pc, s.calls t = some pc → CallInv { s with notifyState, notifiedValue } t pc) :
    Inv { s with notifyState, notifiedValue } where
  stored := h.stored
  delivered := h.delivered
  calls := by
    intro u qc hqc
    by_cases hut : u = t
    · exact hut ▸ hcall qc (hut ▸ hqc)
    · exact (h.calls u qc hqc).frame (fun _ _ hx => hx) (fun _ he => he) (hothers u hut).1
        (hothers u hut).2
  waited := h.waited
  returned := h.returned

theorem stateClear (h : Inv s) {t : τ} {r : Request} (hcall : s.calls t = some (.stateClear r)) :
    Inv ((s.notifyStateClear t).goTo t (.valueClear r)) := by
  have hclear : Inv (s.notifyStateClear t) := by
    refine h.renotify (t := t) (fun u hut => ⟨Function.update_of_ne hut _ _, rfl⟩)
      fun pc hpc => ?_
    obtain rfl : Pc.stateClear r = pc := Option.some.inj (hcall.symm.trans hpc)
    trivial
  have hstate : (s.notifyStateClear t).notifyState t = false := by
    simp [State.notifyStateClear]
  exact hclear.goTo hstate

theorem valueClear (h : Inv s) {t : τ} {r : Request} (hcall : s.calls t = some (.valueClear r)) :
    Inv ((s.notifyValueClear t).goTo t (.startIt r)) := by
  have hstate : s.notifyState t = false := h.calls t _ hcall
  have hclear : Inv (s.notifyValueClear t) := by
    refine h.renotify (t := t) (fun u hut => ⟨rfl, Function.update_of_ne hut _ _⟩)
      fun pc hpc => ?_
    obtain rfl : Pc.valueClear r = pc := Option.some.inj (hcall.symm.trans hpc)
    exact hstate
  exact hclear.goTo ⟨hstate, Function.update_self t 0 s.notifiedValue⟩

omit [DecidableEq τ] in
/-- The transfer that starts belongs to the task that is stored. -/
theorem launch (h : Inv s) {t : τ} {d : Direction} (hidle : s.running = none)
    (hstored : s.irqTask = some t) :
    Inv { s with running := some ⟨s.started, t, d⟩, started := s.started + 1 } where
  stored := by
    intro x hx
    cases hx
    exact hstored
  delivered := h.delivered
  calls := fun u qc hqc => (h.calls u qc hqc).frame
    (fun x _ hx => by simp [hidle] at hx) (fun _ he => he) rfl rfl
  waited := h.waited
  returned := by
    intro r hr id deadline hwaited
    refine ⟨(h.returned r hr id deadline hwaited).1, fun hresult => ?_⟩
    obtain ⟨hlt, hended, -⟩ := (h.returned r hr id deadline hwaited).2 hresult
    refine ⟨Nat.lt_succ_of_lt hlt, hended, fun x hx hid => ?_⟩
    cases hx
    exact absurd hid hlt.ne'

theorem startIt (h : Inv s) {t : τ} {r : Request} (hcall : s.calls t = some (.startIt r))
    {accepted : Bool}
    (hstored : accepted = true → s.running = none → s.irqTask = some t) :
    Inv (s.startIt t r accepted) := by
  unfold State.startIt
  split
  · rename_i hstart
    obtain ⟨haccepted, hnone⟩ := Bool.and_eq_true_iff.mp hstart
    have hidle : s.running = none := Option.isNone_iff_eq_none.mp hnone
    have hlaunch := h.launch (d := r.direction) hidle (hstored haccepted hidle)
    split
    · rename_i htimeout
      exact hlaunch.retNone fun hne => absurd htimeout hne
    · have hclear : s.notifyState t = false ∧ s.notifiedValue t = 0 := h.calls t _ hcall
      exact hlaunch.goTo (.inl ⟨_, rfl, rfl, rfl, hclear⟩)
  · exact h.retNone fun _ => rfl

/-- The end of the wait: a notification that has come is the one of the own transfer, and without
one the transfer still runs. -/
theorem wake (h : Inv s) (htracked : Tracked s) {t : τ} {r : Request} {id deadline : ℕ}
    (hcall : s.calls t = some (.wait r id deadline)) : Inv (s.wake t r id deadline) := by
  have hpending : Pending s t id := h.calls t _ hcall
  have hlt : id < s.started := htracked.awaited_lt t _ id hcall rfl
  unfold State.wake
  split
  · rename_i hstate
    have hret : Inv (s.ret t r (some (id, deadline)) (s.notifiedValue t = 1)) := by
      rcases hpending with ⟨x, -, -, -, hnot, -⟩ | ⟨e, he, hid, howner, -, hvalue⟩
      · simp [hnot] at hstate
      · refine h.ret (fun _ _ => by simp) fun j d hwaited => ?_
        obtain ⟨rfl, rfl⟩ : id = j ∧ deadline = d := by simpa using hwaited
        cases hsuccess : e.success with
        | true => 
          refine ⟨fun _ => ⟨e, he, hid, howner, hsuccess⟩, fun hresult => ?_⟩
          simp [hvalue, hsuccess] at hresult
        | false =>
          refine ⟨fun hresult => by simp [hvalue, hsuccess] at hresult, fun _ => ?_⟩
          refine ⟨hlt, fun f hf hfid hfsuccess => ?_, fun x hx hxid => ?_⟩
          · rw [htracked.unique f hf e he (hfid.trans hid.symm), hsuccess] at hfsuccess
            cases hfsuccess
          · exact absurd (hid.trans hxid.symm) (htracked.fresh x hx e he)
    have hgone : ∀ pc, (s.ret t r (some (id, deadline)) (s.notifiedValue t = 1)).calls t
        ≠ some pc :=
      fun pc hpc => (calls_ret.mp hpc).1 rfl
    exact hret.renotify (t := t)
      (fun u hut => ⟨Function.update_of_ne hut _ _, Function.update_of_ne hut _ _⟩)
      fun pc hpc => absurd hpc (hgone pc)
  · rename_i hstate
    split
    · rename_i hdeadline
      refine h.ret (fun _ hresult => by cases hresult) fun j d hwaited => ?_
      obtain ⟨rfl, rfl⟩ : id = j ∧ deadline = d := by simpa using hwaited
      have hlate : ∀ f ∈ s.ended, f.id = id → f.success = true → deadline ≤ f.tick := ?_
      · exact ⟨fun hresult => (by cases hresult), fun _ => ⟨hlt, hlate, fun _ _ _ => hdeadline⟩⟩
      intro f hf hfid _
      rcases hpending with ⟨x, hx, hid, -⟩ | ⟨e, -, -, -, hset, -⟩
      · exact absurd (hfid.trans hid.symm) (htracked.fresh x hx f hf)
      · exact absurd hset hstate
    · exact h

theorem resume (h : Inv s) (htracked : Tracked s) {t : τ} {pc : Pc}
    (hcall : s.calls t = some pc) {tickRateHz : ℕ} {answer : Bool}
    (hok : Exclusive s (.resume t answer)) : Inv (s.resume tickRateHz t answer pc) := by
  cases pc with
  | getState r =>
    rw [State.resume]
    split <;> exact h.goTo trivial
  | elapsed r =>
    rw [State.resume]
    split
    · exact h.retNone fun _ => rfl
    · exact h.goTo trivial
  | storeTask r => exact (h.storeTask (hok.1 r hcall)).goTo trivial
  | stateClear r => exact h.stateClear hcall
  | valueClear r => exact h.valueClear hcall
  | startIt r => exact h.startIt hcall (hok.2 r hcall)
  | notifyWait r id =>
    have hpending : Pending s t id := h.calls t _ hcall
    exact h.goTo hpending
  | wait r id deadline => exact h.wake htracked hcall

/-- The transfer ends: its owner is notified, who waits for it or has given it up. -/
theorem interrupt (h : Inv s) (htracked : Tracked s) {x : Transfer τ} (hx : s.running = some x)
    (success : Bool) : Inv ({ s with
      running := none
      ended := ⟨x.id, x.owner, x.owner, success, s.tickCount⟩ :: s.ended }.notifyFromIsr x.owner
        (if success then 1 else 0)) where
  stored := fun y hy => by cases hy
  delivered := List.forall_mem_cons.mpr ⟨rfl, h.delivered⟩
  calls := by
    intro u pc hpc
    have hinv := h.calls u pc hpc
    by_cases hu : u = x.owner
    · subst hu
      have hpending : ∀ id, pc.Awaits id → Pending s x.owner id → Pending (State.notifyFromIsr
          { s with
            running := none
            ended := ⟨x.id, x.owner, x.owner, success, s.tickCount⟩ :: s.ended } x.owner
          (if success then 1 else 0)) x.owner id := by
        intro id hawait hpend
        have hid := htracked.awaited x.owner pc id hpc hawait x hx rfl
        rcases hpend with ⟨y, -, -, -, -, hvalue⟩ | ⟨e, he, heid, -⟩
        · refine .inr ⟨_, List.mem_cons_self, hid, rfl, Function.update_self _ _ _, ?_⟩
          simp [State.notifyFromIsr, hvalue]
        · exact absurd (heid.trans hid.symm) (htracked.fresh x hx e he)
      cases pc with
      | getState r => trivial
      | elapsed r => trivial
      | storeTask r => trivial
      | stateClear r => trivial
      | valueClear r => exact absurd rfl (htracked.preparing _ _ hpc trivial x hx)
      | startIt r => exact absurd rfl (htracked.preparing _ _ hpc trivial x hx)
      | notifyWait r id => exact hpending id rfl hinv
      | wait r id deadline => exact hpending id rfl hinv
    · refine hinv.frame (fun y hy hrun => ?_) (fun e he => List.mem_cons_of_mem _ he)
        (Function.update_of_ne hu _ _) (Function.update_of_ne hu _ _)
      obtain rfl : x = y := Option.some.inj (hx.symm.trans hrun)
      exact absurd hy.symm hu
  waited := h.waited
  returned := by
    intro r hr id deadline hwaited
    obtain ⟨htrue, hfalse⟩ := h.returned r hr id deadline hwaited
    refine ⟨fun hresult => ?_, fun hresult => ?_⟩
    · obtain ⟨e, he, hend⟩ := htrue hresult
      exact ⟨e, List.mem_cons_of_mem _ he, hend⟩
    · obtain ⟨hlt, hended, hrunning⟩ := hfalse hresult
      refine ⟨hlt, List.forall_mem_cons.mpr ⟨fun hid _ => ?_, hended⟩, fun y hy => by cases hy⟩
      exact hrunning x hx hid

omit [DecidableEq τ] in
theorem tick (h : Inv s) : Inv { s with tickCount := s.tickCount + 1 } where
  stored := h.stored
  delivered := h.delivered
  calls := fun u pc hpc =>
    (h.calls u pc hpc).frame (fun _ _ hx => hx) (fun _ he => he) rfl rfl
  waited := h.waited
  returned := by
    intro r hr id deadline hwaited
    refine ⟨(h.returned r hr id deadline hwaited).1, fun hresult => ?_⟩
    obtain ⟨hlt, hended, hrunning⟩ := (h.returned r hr id deadline hwaited).2 hresult
    exact ⟨hlt, hended, fun x hx hid => Nat.le_succ_of_le (hrunning x hx hid)⟩

theorem memTransfer (h : Inv s) (t : τ) (r : Request) : Inv (s.memTransfer t r) := by
  rw [State.memTransfer]
  split
  · exact h.goTo trivial
  · exact h.retNone fun _ => rfl

theorem step (h : Inv s) (htracked : Tracked s) {tickRateHz : ℕ} {s' : State τ} {a : Action τ}
    (hok : Exclusive s a) (hstep : step tickRateHz s a = some s') : Inv s' := by
  cases a with
  | memRead t timeout =>
    obtain ⟨-, rfl⟩ := step_memRead_eq_some.mp hstep
    exact h.memTransfer t _
  | memWrite t timeout =>
    obtain ⟨-, rfl⟩ := step_memWrite_eq_some.mp hstep
    exact h.memTransfer t _
  | resume t answer =>
    obtain ⟨pc, hcall, rfl⟩ := step_resume_eq_some.mp hstep
    exact h.resume htracked hcall hok
  | interrupt success =>
    obtain ⟨x, t, hx, htask, rfl⟩ := step_interrupt_eq_some.mp hstep
    obtain rfl : x.owner = t := Option.some.inj ((h.stored x hx).symm.trans htask)
    exact h.interrupt htracked hx success
  | tick =>
    obtain rfl := step_tick_eq_some.mp hstep
    exact h.tick

omit [DecidableEq τ] in
theorem reportsOwn (h : Inv s) : ReportsOwn s where
  own := by
    intro r hr htimeout hresult
    obtain ⟨⟨id, deadline⟩, hwaited⟩ :=
      Option.ne_none_iff_exists'.mp (h.waited r hr htimeout hresult)
    obtain ⟨e, he, hid, howner, hsuccess⟩ :=
      (h.returned r hr id deadline hwaited).1 hresult
    exact ⟨e, he, by rw [hwaited, hid, Option.map_some], howner, hsuccess⟩
  inTime := by
    intro r hr id deadline hwaited e he hid hsuccess htick
    by_contra hresult
    have hlate := (h.returned r hr id deadline hwaited).2 (Bool.eq_false_iff.mpr hresult)
    exact absurd (hlate.2.1 e he hid hsuccess) (Nat.not_le.mpr htick)
  delivered := h.delivered

end Inv

/-- Transfers report to their own tasks in every run in which the tasks do not get between each
other's stores of the task and starts of the transfer. -/
theorem mem_transfer_reports_own (tickRateHz : ℕ) (inited : Bool) (acts : List (Action τ))
    (s : State τ) (hok : Along (step tickRateHz) Exclusive (start inited) acts)
    (hrun : exec (step tickRateHz) (start inited) acts = some s) : ReportsOwn s := by
  have hkeep : ∀ (s : State τ) a s', Tracked s ∧ Inv s → Exclusive s a →
      step tickRateHz s a = some s' → Tracked s' ∧ Inv s' :=
    fun s a s' h hok hstep => ⟨h.1.step hstep, h.2.step h.1 hok hstep⟩
  have hinv := exec_invariant hkeep ⟨start_tracked inited, start_inv inited⟩ hok hrun
  exact hinv.2.reportsOwn

def readInTime : List (Action Bool) :=
  [.memRead true 10, .resume true false, .resume true false, .resume true false,
    .resume true false, .resume true true, .resume true false, .tick, .interrupt true,
    .resume true false]

theorem mem_transfer_reports_own_once :
    ∃ s, exec (step 1000) (start true) readInTime = some s ∧
      s.returned.map (fun r => (r.waited, r.result)) = [(some (0, 10), true)] ∧ ReportsOwn s := by
  refine ⟨_, rfl, by decide, mem_transfer_reports_own 1000 true readInTime _ ?_ rfl⟩
  simp [readInTime, Along, Exclusive, step, start, State.memRead, State.memTransfer, State.goTo,
    State.resume, State.startIt, State.notifyStateClear, State.notifyValueClear, State.interrupt,
    State.callback, State.notifyFromIsr]

/-- Both tasks find the HAL ready. The second one stores itself after the first one has started
its transfer, and is notified of its end; the first one waits in vain. -/
def overtaken : List (Action Bool) :=
  [.memRead true 1, .memRead false 1, .resume true false, .resume false false,
    .resume true false, .resume true false, .resume true false, .resume true true,
    .resume true false, .resume false false, .interrupt true, .tick, .resume true false]

theorem overtaken_not_reported : ¬ ∀ acts s,
    exec (step 1000) (start true : State Bool) acts = some s → ReportsOwn s := by
  intro h
  have hreports := h overtaken _ rfl
  exact absurd (hreports.delivered ⟨0, true, false, true, 0⟩ List.mem_cons_self) (by decide)

/-- After every run, a step that is not exclusive leaves a transfer whose end is delivered to
another task than its own. -/
theorem misdelivered_of_not_exclusive {tickRateHz : ℕ} {inited : Bool} {before : List (Action τ)}
    {s s' : State τ} {a : Action τ} (hrun : exec (step tickRateHz) (start inited) before = some s)
    (hbad : ¬ Exclusive s a) (hstep : step tickRateHz s a = some s') :
    ∃ s'', step tickRateHz s' (.interrupt true) = some s'' ∧ ¬ ReportsOwn s'' := by
  have htracked : Tracked s :=
    exec_invariant_of_step (fun _ _ _ h => h.step) (start_tracked inited) hrun
  -- the transfer and the task that is stored are not of the same call
  have hmisled : ∀ x t, s'.running = some x → s'.irqTask = some t → x.owner ≠ t →
      ∃ s'', step tickRateHz s' (.interrupt true) = some s'' ∧ ¬ ReportsOwn s'' := by
    intro x t hx ht hne
    refine ⟨_, step_interrupt_eq_some.mpr ⟨x, t, hx, ht, rfl⟩, fun hreports => ?_⟩
    exact hne (hreports.delivered _ List.mem_cons_self).symm
  cases a with
  | resume t answer =>
    obtain ⟨pc, hcall, rfl⟩ := step_resume_eq_some.mp hstep
    rw [Exclusive, not_and_or] at hbad
    rcases hbad with hstore | hstart
    · simp only [not_forall] at hstore
      obtain ⟨r, hr, hbusy⟩ := hstore
      obtain rfl : pc = .storeTask r := Option.some.inj (hcall.symm.trans hr)
      obtain ⟨x, hx⟩ := Option.ne_none_iff_exists'.mp hbusy
      exact hmisled x t hx rfl (htracked.preparing t _ hcall trivial x hx)
    · simp only [not_forall] at hstart
      obtain ⟨r, hr, rfl, hidle, hother⟩ := hstart
      obtain rfl : pc = .startIt r := Option.some.inj (hcall.symm.trans hr)
      obtain ⟨u, hu⟩ := Option.ne_none_iff_exists'.mp
        fun hnone => htracked.unstored hnone t _ hcall
      have hut : t ≠ u := fun heq => hother (by rw [hu, heq])
      refine hmisled ⟨s.started, t, r.direction⟩ u ?_ ?_ hut
      · simp only [State.resume, State.startIt, hidle, Option.isNone_none, Bool.and_self, if_true]
        split <;> rfl
      · rw [← hu]
        simp only [State.resume, State.startIt, hidle, Option.isNone_none, Bool.and_self, if_true]
        split <;> rfl
  | _ => exact absurd trivial hbad

end UniHal.I2c.MemTransfer
