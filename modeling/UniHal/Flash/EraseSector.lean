import UniHal.Foundations.Execution

/-! # The erase of a flash sector on the STM32H7

The FLASH interrupt signals the end of an erase through a semaphore or a polled flag, and an
error through a second flag. Neither says which erase it is about, and an erase that has timed
out still ends with its interrupt, which may fall into the next call.
-/

namespace UniHal.Flash.EraseSector
open Foundations Execution

/-- How `_uni_hal_flash_done_signal` is received: `UNI_HAL_USE_FREERTOS` has a semaphore. -/
inductive Signal
  | semaphore
  | flag
  deriving DecidableEq, Repr

/-- Where `uni_hal_flash_erase_sector` is. It knows the erase it has started by its number. -/
inductive Pc
  | doneClear
  | failedClear
  | eraseIt
  | doneWait (id : ℕ)
  | elapsed (id : ℕ)
  | check (id : ℕ)
  | lock (id : Option ℕ) (result : Bool)
  deriving DecidableEq, Repr

structure State where
  /-- `_uni_hal_flash_done_ready` -/
  ready : Bool
  /-- `xFlashDoneSem` is given, or `flash_op_done` is set. -/
  done : Bool
  /-- `flash_op_failed` -/
  failed : Bool
  /-- the erase that runs in the flash, among those that `HAL_FLASHEx_Erase_IT` has started -/
  running : Option ℕ
  started : ℕ
  /-- the erases that have ended, each with its success -/
  ended : List (ℕ × Bool)
  call : Option Pc
  /-- the calls that have returned: the erase each has started, and its result -/
  returned : List (Option ℕ × Bool)

def start : State where
  ready := false
  done := false
  failed := false
  running := none
  started := 0
  ended := []
  call := none
  returned := []

namespace State

def goTo (s : State) (pc : Pc) : State := { s with call := some pc }

def doneSignal (s : State) : State := { s with done := true }

def endOfOperationCallback (s : State) : State := s.doneSignal

def operationErrorCallback (s : State) : State := { s with failed := true }.doneSignal

/-- `uni_hal_flash_init`; a new semaphore is empty, and it may not be created. -/
def init (signal : Signal) (created : Bool) (s : State) : State :=
  match signal with
  | .semaphore => { s with ready := created, done := false }
  | .flag => { s with ready := true }

/-- `FLASH_IRQHandler` at the end of the erase that runs. A NULL semaphore cannot be given. -/
def interrupt (success : Bool) (s : State) : Option State :=
  match s.running with
  | none => none
  | some id =>
    if s.ready then
      let s := { s with running := none, ended := (id, success) :: s.ended }
      some (if success then s.endOfOperationCallback else s.operationErrorCallback)
    else none

/-- The call of `uni_hal_flash_erase_sector`, which finds the driver ready or returns false. -/
def erase (s : State) : State :=
  if s.ready then s.goTo .doneClear else { s with returned := (none, false) :: s.returned }

/-- `HAL_FLASHEx_Erase_IT`, refused as long as another erase runs; it may fail by itself. -/
def eraseIt (accepted : Bool) (s : State) : State :=
  if accepted && s.running.isNone then
    { s with running := some s.started, started := s.started + 1 }.goTo (.doneWait s.started)
  else s.goTo (.lock none false)

/-- `_uni_hal_flash_done_wait` up to its next look at the signal: a semaphore is taken, and the
flag stays. -/
def doneWait (signal : Signal) (id : ℕ) (timeUp : Bool) (s : State) : State :=
  match signal with
  | .semaphore =>
    if s.done then { s with done := false }.goTo (.check id)
    else if timeUp then s.goTo (.lock (some id) false)
    else s
  | .flag => s.goTo (if s.done then .check id else .elapsed id)

/-- The next step of the call. The environment's answer is the one of the HAL where the erase is
started, and whether the time is up where the call waits. -/
def resume (signal : Signal) (answer : Bool) (s : State) : Pc → State
  | .doneClear => { s with done := false }.goTo .failedClear
  | .failedClear => { s with failed := false }.goTo .eraseIt
  | .eraseIt => s.eraseIt answer
  | .doneWait id => s.doneWait signal id answer
  | .elapsed id => s.goTo (if answer then .lock (some id) false else .doneWait id)
  | .check id => s.goTo (.lock (some id) (!s.failed))
  | .lock id result => { s with call := none, returned := (id, result) :: s.returned }

end State

/-- `uni_hal_flash_erase_bank` is a sequence of erases. -/
inductive Action
  | init (created : Bool)
  | erase
  | resume (answer : Bool)
  | interrupt (success : Bool)
  deriving DecidableEq, Repr

def step (signal : Signal) (s : State) : Action → Option State
  | .init created => if s.call = none then some (s.init signal created) else none
  | .erase => if s.call = none then some s.erase else none
  | .resume answer => s.call.map (s.resume signal answer)
  | .interrupt success => s.interrupt success

/-- Every call that has returned true has started an erase, which has ended without an error. -/
def ReportsOwn (s : State) : Prop :=
  ∀ r ∈ s.returned, r.2 = true → ∃ id, r.1 = some id ∧ (id, true) ∈ s.ended

/-- No erase ends between the clearing of the signal and that of the failure flag, and none ends
without an error between there and the start of the next erase. -/
def Undisturbed (s : State) : Action → Prop
  | .interrupt success =>
    s.call ≠ some .failedClear ∧ (s.call = some .eraseIt → success = false)
  | _ => True

/-- The erase has ended without an error, or the failure flag tells that it has not. -/
def Settled (s : State) (id : ℕ) : Prop := s.failed = true ∨ (id, true) ∈ s.ended

def PcInv (s : State) : Pc → Prop
  | .doneClear => True
  | .failedClear => s.done = false
  | .eraseIt => s.done = true → s.failed = true
  | .doneWait id | .elapsed id =>
    (∀ j, s.running = some j → j = id) ∧ (s.done = true → Settled s id)
  | .check id => Settled s id
  | .lock id result => result = true → ∃ i, id = some i ∧ (i, true) ∈ s.ended

structure Inv (s : State) : Prop where
  reports : ReportsOwn s
  pc : ∀ pc, s.call = some pc → PcInv s pc

theorem start_inv : Inv start where
  reports := by
    intro r hr
    cases hr
  pc := by
    intro pc hpc
    cases hpc

section Inversion
variable {signal : Signal} {s t : State}

theorem step_init_eq_some {created : Bool} : step signal s (.init created) = some t ↔
    s.call = none ∧ s.init signal created = t := by
  by_cases h : s.call = none <;> simp [step, h]

theorem step_erase_eq_some :
    step signal s .erase = some t ↔ s.call = none ∧ s.erase = t := by
  by_cases h : s.call = none <;> simp [step, h]

theorem step_resume_eq_some {answer : Bool} : step signal s (.resume answer) = some t ↔
    ∃ pc, s.call = some pc ∧ s.resume signal answer pc = t :=
  Option.map_eq_some_iff

theorem step_interrupt_eq_some {success : Bool} :
    step signal s (.interrupt success) = some t ↔ s.ready = true ∧ ∃ id, s.running = some id ∧
      { s with
        running := none
        ended := (id, success) :: s.ended
        failed := s.failed || !success
        done := true } = t := by
  cases hrun : s.running with
  | none => simp [step, State.interrupt, hrun]
  | some id =>
    cases hready : s.ready
    · simp [step, State.interrupt, hrun, hready]
    · cases success <;> simp [step, State.interrupt, hrun, hready, State.endOfOperationCallback,
        State.operationErrorCallback, State.doneSignal]

end Inversion

theorem Inv.goTo {s : State} (h : Inv s) {pc : Pc} (hpc : PcInv (s.goTo pc) pc) :
    Inv (s.goTo pc) where
  reports := h.reports
  pc := by
    intro pc' heq
    cases heq
    exact hpc

theorem init_inv {s : State} (h : Inv s) (hcall : s.call = none) (signal : Signal)
    (created : Bool) : Inv (s.init signal created) := by
  cases signal
  all_goals
    refine ⟨h.reports, fun pc hpc => ?_⟩
    have hnone : s.call = some pc := hpc
    rw [hcall] at hnone
    cases hnone

theorem erase_inv {s : State} (h : Inv s) (hcall : s.call = none) : Inv s.erase := by
  rw [State.erase]
  split
  · exact h.goTo trivial
  · refine ⟨fun r hr htrue => ?_, fun pc hpc => ?_⟩
    · rcases List.mem_cons.mp hr with rfl | hr
      · cases htrue
      · exact h.reports r hr htrue
    · have hnone : s.call = some pc := hpc
      rw [hcall] at hnone
      cases hnone

theorem eraseIt_inv {s : State} (h : Inv s) (hpc : PcInv s .eraseIt) (accepted : Bool) :
    Inv (s.eraseIt accepted) := by
  rw [State.eraseIt]
  split
  · refine ⟨h.reports, fun pc heq => ?_⟩
    cases heq
    refine ⟨fun j hj => ?_, fun hdone => .inl (hpc hdone)⟩
    cases hj
    rfl
  · refine h.goTo fun hresult => ?_
    cases hresult

theorem doneWait_inv {s : State} (h : Inv s) {id : ℕ} (hpc : PcInv s (.doneWait id))
    (signal : Signal) (timeUp : Bool) : Inv (s.doneWait signal id timeUp) := by
  cases signal with
  | semaphore =>
    rw [State.doneWait]
    split
    · rename_i hdone
      refine ⟨h.reports, fun pc heq => ?_⟩
      cases heq
      exact hpc.2 hdone
    · split
      · refine h.goTo fun hresult => ?_
        cases hresult
      · exact h
  | flag =>
    rw [State.doneWait]
    split
    · rename_i hdone
      exact h.goTo (hpc.2 hdone)
    · exact h.goTo hpc

theorem resume_inv {s : State} (h : Inv s) {pc : Pc} (hcall : s.call = some pc) (signal : Signal)
    (answer : Bool) : Inv (s.resume signal answer pc) := by
  have hpc := h.pc pc hcall
  cases pc with
  | doneClear =>
    refine ⟨h.reports, fun pc heq => ?_⟩
    cases heq
    rfl
  | failedClear =>
    refine ⟨h.reports, fun pc heq => ?_⟩
    cases heq
    intro hdone
    have hclear : s.done = false := hpc
    have hset : s.done = true := hdone
    rw [hclear] at hset
    cases hset
  | eraseIt => exact eraseIt_inv h hpc answer
  | doneWait id => exact doneWait_inv h hpc signal answer
  | elapsed id =>
    rw [State.resume]
    split
    · refine h.goTo fun hresult => ?_
      cases hresult
    · exact h.goTo hpc
  | check id =>
    refine h.goTo fun hresult => ⟨id, rfl, ?_⟩
    rcases hpc with hfailed | hended
    · simp [hfailed] at hresult
    · exact hended
  | lock id result =>
    refine ⟨fun r hr htrue => ?_, fun pc heq => ?_⟩
    · rcases List.mem_cons.mp hr with rfl | hr
      · exact hpc htrue
      · exact h.reports r hr htrue
    · cases heq

/-- Only the signal of an erase that the call has not started can mislead it. -/
theorem interrupt_inv {signal : Signal} {s t : State} (h : Inv s) {success : Bool}
    (hok : Undisturbed s (.interrupt success))
    (hstep : step signal s (.interrupt success) = some t) : Inv t := by
  obtain ⟨-, id, hrun, rfl⟩ := step_interrupt_eq_some.mp hstep
  refine ⟨fun r hr htrue => ?_, fun pc hcall => ?_⟩
  · obtain ⟨i, hi, hended⟩ := h.reports r hr htrue
    exact ⟨i, hi, List.mem_cons_of_mem _ hended⟩
  · have hpc := h.pc pc hcall
    have hsettled : ∀ i, Settled s i → (s.failed || !success) = true ∨
        (i, true) ∈ (id, success) :: s.ended := by
      rintro i (hfailed | hended)
      · exact .inl (by rw [hfailed, Bool.true_or])
      · exact .inr (List.mem_cons_of_mem _ hended)
    -- the erase that ends is the one that the call waits for
    have hown : ∀ i, (∀ j, s.running = some j → j = i) → (s.failed || !success) = true ∨
        (i, true) ∈ (id, success) :: s.ended := by
      intro i hi
      rw [← hi id hrun]
      cases success
      · exact .inl (by simp)
      · exact .inr List.mem_cons_self
    cases pc with
    | doneClear => trivial
    | failedClear => exact absurd hcall hok.1
    | eraseIt => exact fun _ => by simp [hok.2 hcall]
    | doneWait i => exact ⟨fun j hj => (by cases hj), fun _ => hown i hpc.1⟩
    | elapsed i => exact ⟨fun j hj => (by cases hj), fun _ => hown i hpc.1⟩
    | check i => exact hsettled i hpc
    | lock i result =>
      intro hresult
      obtain ⟨j, hj, hended⟩ := hpc hresult
      exact ⟨j, hj, List.mem_cons_of_mem _ hended⟩

theorem step_inv {signal : Signal} {s t : State} {a : Action} (h : Inv s)
    (hok : Undisturbed s a) (hstep : step signal s a = some t) : Inv t := by
  cases a with
  | init created =>
    obtain ⟨hcall, rfl⟩ := step_init_eq_some.mp hstep
    exact init_inv h hcall signal created
  | erase =>
    obtain ⟨hcall, rfl⟩ := step_erase_eq_some.mp hstep
    exact erase_inv h hcall
  | resume answer =>
    obtain ⟨pc, hcall, rfl⟩ := step_resume_eq_some.mp hstep
    exact resume_inv h hcall signal answer
  | interrupt success => exact interrupt_inv h hok hstep

/-- As long as no earlier erase ends in the middle of the preparation of the next one, a call
that returns true has erased its sector. -/
theorem erase_reports_own (signal : Signal) (acts : List Action) (s : State)
    (hok : Along (step signal) Undisturbed start acts)
    (hrun : exec (step signal) start acts = some s) : ReportsOwn s :=
  (exec_invariant (fun _ _ _ h hok hstep => step_inv h hok hstep) start_inv hok hrun).reports

def endInTime : List Action :=
  [.init true, .erase, .resume false, .resume false, .resume true, .interrupt true,
    .resume false, .resume false, .resume false]

theorem erase_reports_own_once : ∃ s, exec (step .semaphore) start endInTime = some s ∧
    s.returned = [(some 0, true)] ∧ ReportsOwn s := by
  refine ⟨_, rfl, rfl, erase_reports_own .semaphore endInTime _ ?_ rfl⟩
  simp [endInTime, Along, Undisturbed, step, State.init, State.erase, State.goTo, State.resume,
    State.eraseIt, State.doneWait, State.interrupt, State.endOfOperationCallback,
    State.doneSignal, start]

/-- The first erase times out and ends just after the next call has cleared both flags. That call
starts an erase of its own, finds the signal of the first one, and returns true. -/
def lateEnd : List Action :=
  [.init true, .erase, .resume false, .resume false, .resume true, .resume true, .resume false,
    .erase, .resume false, .resume false, .interrupt true, .resume true, .resume false,
    .resume false, .resume false]

theorem lateEnd_misreports : ¬ ∀ acts s,
    exec (step .semaphore) start acts = some s → ReportsOwn s := by
  intro h
  obtain ⟨id, hid, hended⟩ := h lateEnd _ rfl (some 1, true) List.mem_cons_self rfl
  cases hid
  exact absurd hended (by decide)

/-- Every erase that runs or has ended was started, and no failure is flagged at the start of the
next one while an earlier one still runs. -/
structure Tracked (s : State) : Prop where
  running : ∀ id, s.running = some id → id < s.started
  ended : ∀ r ∈ s.ended, r.1 < s.started
  cleared : s.call = some .eraseIt → s.failed = false ∨ s.running = none

theorem start_tracked : Tracked start where
  running := by
    intro id hid
    cases hid
  ended := by
    intro r hr
    cases hr
  cleared := fun _ => .inl rfl

/-- A call that moves on to anything but the start of its erase. -/
theorem Tracked.goTo {s : State} (h : Tracked s) {pc : Pc} (hpc : pc ≠ .eraseIt) :
    Tracked (s.goTo pc) where
  running := h.running
  ended := h.ended
  cleared := fun heq => absurd (Option.some.inj heq) hpc

theorem eraseIt_tracked {s : State} (h : Tracked s) (accepted : Bool) :
    Tracked (s.eraseIt accepted) := by
  rw [State.eraseIt]
  split
  · refine ⟨fun id hid => ?_, fun r hr => Nat.lt_succ_of_lt (h.ended r hr), fun hcall => ?_⟩
    · cases hid
      exact Nat.lt_succ_self _
    · cases hcall
  · exact h.goTo (by simp)

theorem doneWait_tracked {s : State} (h : Tracked s) (signal : Signal) (id : ℕ)
    (timeUp : Bool) : Tracked (s.doneWait signal id timeUp) := by
  cases signal with
  | semaphore =>
    rw [State.doneWait]
    split
    · exact ⟨h.running, h.ended, fun hcall => (by cases hcall)⟩
    · split
      · exact h.goTo (by simp)
      · exact h
  | flag => exact h.goTo (by split <;> simp)

theorem step_tracked {signal : Signal} {s t : State} {a : Action} (h : Tracked s)
    (hstep : step signal s a = some t) : Tracked t := by
  cases a with
  | init created =>
    obtain ⟨-, rfl⟩ := step_init_eq_some.mp hstep
    cases signal <;> exact ⟨h.running, h.ended, h.cleared⟩
  | erase =>
    obtain ⟨-, rfl⟩ := step_erase_eq_some.mp hstep
    rw [State.erase]
    split
    · exact h.goTo (by simp)
    · exact ⟨h.running, h.ended, h.cleared⟩
  | resume answer =>
    obtain ⟨pc, -, rfl⟩ := step_resume_eq_some.mp hstep
    cases pc with
    | doneClear => exact ⟨h.running, h.ended, fun hcall => (by cases hcall)⟩
    | failedClear => exact ⟨h.running, h.ended, fun _ => .inl rfl⟩
    | eraseIt => exact eraseIt_tracked h answer
    | doneWait id => exact doneWait_tracked h signal id answer
    | elapsed id => exact h.goTo (by split <;> simp)
    | check id => exact h.goTo (by simp)
    | lock id result => exact ⟨h.running, h.ended, fun hcall => (by cases hcall)⟩
  | interrupt success =>
    obtain ⟨-, id, hrun, rfl⟩ := step_interrupt_eq_some.mp hstep
    refine ⟨fun j hj => (by cases hj), fun r hr => ?_, fun _ => .inr rfl⟩
    rcases List.mem_cons.mp hr with rfl | hr
    · exact h.running id hrun
    · exact h.ended r hr

/-- A call that starts its erase while a success is signalled returns true at once. -/
theorem misreports_of_signalled (signal : Signal) {s : State} (h : Tracked s)
    (hcall : s.call = some .eraseIt) (hdone : s.done = true) (hfailed : s.failed = false)
    (hrun : s.running = none) :
    ∃ acts t, exec (step signal) s acts = some t ∧ ¬ ReportsOwn t := by
  obtain ⟨ready, done, failed, running, started, ended, call, returned⟩ := s
  subst hcall hdone hfailed hrun
  have hwrong : ∀ t : State, t.returned = (some started, true) :: returned → t.ended = ended →
      ¬ ReportsOwn t := by
    intro t hreturned hended hreports
    obtain ⟨id, hid, hmem⟩ := hreports (some started, true)
      (hreturned ▸ List.mem_cons_self) rfl
    cases hid
    exact absurd (h.ended _ (hended ▸ hmem)) (lt_irrefl started)
  refine ⟨[.resume true, .resume false, .resume false, .resume false], ?_⟩
  cases signal
  · exact ⟨_, rfl, hwrong _ rfl rfl⟩
  · exact ⟨_, rfl, hwrong _ rfl rfl⟩

/-- After every run, an interrupt that the condition rules out can lead to a wrong report. -/
theorem misreports_of_disturbed (signal : Signal) {s u : State} {before : List Action}
    (hrun : exec (step signal) start before = some s) {success : Bool}
    (hstep : step signal s (.interrupt success) = some u)
    (hbad : ¬ Undisturbed s (.interrupt success)) :
    ∃ acts t, exec (step signal) s (.interrupt success :: acts) = some t ∧ ¬ ReportsOwn t := by
  have hs : Tracked s := exec_invariant_of_step (fun _ _ _ h => step_tracked h) start_tracked hrun
  have hu := step_tracked hs hstep
  obtain ⟨-, id, hid, rfl⟩ := step_interrupt_eq_some.mp hstep
  by_cases hclear : s.call = some .failedClear
  · -- the failure flag is cleared after the interrupt, whatever it says
    obtain ⟨acts, t, hacts, ht⟩ := misreports_of_signalled signal
      (s := State.goTo { s with
        running := none, ended := (id, success) :: s.ended, failed := false, done := true }
        .eraseIt) ⟨hu.running, hu.ended, fun _ => .inl rfl⟩ rfl rfl rfl rfl
    refine ⟨.resume false :: acts, t, ?_, ht⟩
    rw [exec_cons, hstep, Option.bind_some, exec_cons]
    simp only [step, hclear, Option.map_some, Option.bind_some]
    exact hacts
  · have hgood : s.call = some .eraseIt ∧ success = true := by
      simpa [Undisturbed, hclear] using hbad
    obtain ⟨hcall, rfl⟩ := hgood
    have hfailed : s.failed = false := by
      refine (hs.cleared hcall).resolve_right fun hnone => ?_
      rw [hid] at hnone
      cases hnone
    obtain ⟨acts, t, hacts, ht⟩ := misreports_of_signalled signal hu hcall rfl
      (by simp [hfailed]) rfl
    exact ⟨acts, t, by rw [exec_cons, hstep, Option.bind_some, hacts], ht⟩

end UniHal.Flash.EraseSector
