import UniHal.Can.Fdcan.TransmitOwnership

/-! # The blocking call on FDCAN

`uni_hal_can_transmit` knows the buffer of its frame, not the frame. What it reads about the
buffer is about its frame as long as the interrupt does not choose this buffer before the call
returns, and the FIFO does not fill up while the call chooses it.
-/

namespace UniHal.Can.Fdcan.Transmit
open Foundations Foundations.Execution

variable {build : Build} {config : Config}

def Task.waitSlot : Task build → Option Slot
  | .transmit call => call.slot
  | .poll b _ _ | .deadline b _ _ | .abort b _ _ | .outcome b _ _ => some b
  | _ => none

def transmitsFull (config : Config) (s : State build) : Bool :=
  match s.task with
  | .transmit (.select _) => config.txFifoPriority && s.dev.fifoFull
  | _ => false

/-- A callback does not choose the buffer of the blocking call, and a blocking call does not
choose from a full FIFO. -/
def KeepsOff (config : Config) (s : State build) : Action build → Prop
  | .taskStep _ _ => transmitsFull config s = false
  | .isrStep put =>
    ∀ b, s.call.bind (choose config put s.dev) = some b → s.task.waitSlot ≠ some b
  | _ => True

instance (s : State build) : DecidablePred (KeepsOff config s) := fun action =>
  match action with
  | .taskStep _ _ => inferInstanceAs (Decidable (_ = false))
  | .isrStep put =>
    inferInstanceAs
      (Decidable (∀ b, s.call.bind (choose config put s.dev) = some b → s.task.waitSlot ≠ some b))
  | .complete _ _ | .setInit _ | .abort | .nowait _ | .transmit _ | .setCallback _ | .irq
  | .callback _ => .isTrue trivial

/-- `TXBTO` says that the frame of the call was sent only if it was. -/
abbrev Waiting (config : Config) (s : Dev build) (b : Slot) (msg : Msg build.dataSize)
    (index : ℕ) : Prop :=
  Watched (canonical config) (decode build) s.slots b msg index (s.txbto b = true)

def WaitInv (config : Config) (s : Dev build) : Task build → Prop
  | .transmit call => Prepared config s.slots call
  | .poll b msg index | .deadline b msg index | .abort b msg index | .outcome b msg index =>
    Waiting config s b msg index
  | _ => True

structure BlockInv (config : Config) (s : State build) : Prop where
  wait : WaitInv config s.dev s.task
  apart : ∀ b, s.task.waitSlot = some b → s.isrSlot ≠ some b
  truthful : Truthful (canonical config) s.dev.slots.history s.returns s.timeouts

theorem WaitInv.congr {s s' : Dev build} {task : Task build} (h : WaitInv config s task)
    (hsame : ∀ b, task.waitSlot = some b → s'.slots.words b = s.slots.words b ∧
      s'.slots.history b = s.slots.history b ∧ s'.slots.request b = s.slots.request b ∧
      s'.txbto b = s.txbto b) : WaitInv config s' task := by
  cases task with
  | transmit call =>
    apply Prepared.congr h
    intro b hb
    obtain ⟨hwords, -, hrequest, -⟩ := hsame b hb
    exact ⟨by simp only [Slots.pending, hrequest], hwords⟩
  | poll b | deadline b | abort b | outcome b =>
    obtain ⟨hwords, hhistory, hrequest, htxbto⟩ := hsame b rfl
    exact Watched.congr h ⟨hwords, hhistory, hrequest⟩ (htxbto ▸ id)
  | _ => trivial

theorem CallStep.history {put : ℕ} {s s' : Dev build} {call : Call build}
    {progress : Progress build} (h : CallStep config put s call s' progress) (b : Slot) :
    s.slots.history b <+: s'.slots.history b := by
  cases h with
  | refused | moved | chosen | stored => exact List.prefix_rfl
  | @requested buffer msg => exact s.slots.accept_history_prefix buffer b msg

theorem CallStep.txbto {put : ℕ} {s s' : Dev build} {call : Call build}
    {progress : Progress build} (h : CallStep config put s call s' progress) {b : Slot}
    (hb : call.slot ≠ some b) : s'.txbto b = s.txbto b := by
  cases h with
  | refused | moved | chosen | stored => rfl
  | @requested buffer msg =>
    have hne : b ≠ buffer := fun heq => hb (congrArg some heq.symm)
    simp only [Dev.request, Function.update_of_ne hne]

/-- A completion ends the awaited frame or concerns another buffer. -/
theorem WaitInv.complete {s : Dev build} {task : Task build} (h : WaitInv config s task)
    {c : Slot} (ok : Bool) (hc : s.pending c = true) : WaitInv config (s.complete c ok) task := by
  have hwaiting {b : Slot} {msg : Msg build.dataSize} {index : ℕ}
      (hw : Waiting config s b msg index) : Waiting config (s.complete c ok) b msg index := by
    apply hw.finish ok hc
    · rintro rfl htxbto
      exact .inl (by simpa only [Dev.complete, Function.update_self] using htxbto)
    · intro hcb htxbto
      simpa only [Dev.complete, Function.update_of_ne (Ne.symm hcb)] using htxbto
  cases task with
  | transmit call => exact Owning.prepared_finish (caller config) h ok _ hc
  | poll | deadline | abort | outcome => exact hwaiting h
  | _ => trivial

/-- The history grows, and the returned calls stay sound. -/
theorem BlockInv.grow {s t : State build} (h : BlockInv config s)
    (hhistory : ∀ b, s.dev.slots.history b <+: t.dev.slots.history b)
    (hwait : WaitInv config t.dev t.task)
    (hapart : ∀ b, t.task.waitSlot = some b → t.isrSlot ≠ some b)
    (hreturns : t.returns = s.returns) (htimeouts : t.timeouts = s.timeouts) :
    BlockInv config t where
  wait := hwait
  apart := hapart
  truthful := by
    rw [hreturns, htimeouts]
    exact h.truthful.mono hhistory

/-- A step that leaves the peripheral as it is, for a task that knows what it needs to. -/
theorem BlockInv.move {s : State build} (h : BlockInv config s) (hcall : s.call = none)
    {task : Task build} (hwait : WaitInv config s.dev task) :
    BlockInv config { s with task := task } :=
  h.grow (fun _ => List.prefix_rfl) hwait (by simp [State.isrSlot, hcall]) rfl rfl

/-- The call returns, and what it has told is true of its frame. -/
theorem BlockInv.return {s : State build} (hcall : s.call = none)
    {returns : List (Return (Msg build.dataSize))} {timeouts : List (Timeout (Msg build.dataSize))}
    (h : Truthful (canonical config) s.dev.slots.history returns timeouts) (dev : Dev build)
    (hslots : dev.slots = s.dev.slots) :
    BlockInv config
      { s with dev := dev, task := .idle, returns := returns, timeouts := timeouts } where
  wait := trivial
  apart := by simp [State.isrSlot, hcall]
  truthful := by
    rw [hslots]
    exact h

theorem transmitStep_blockInv {put : ℕ} {expired : Bool} {s t : State build}
    (h : BlockInv config s) (hok : transmitsFull config s = false) (hcall : s.call = none)
    (hput : validPut s.dev put = true) {call : Call build} (htask : s.task = .transmit call)
    (hs : taskStep config put expired s = some t) : BlockInv config t := by
  have hwait := h.wait
  rw [htask] at hwait
  cases hcs : callStep config put s.dev call with
  | mk dev progress =>
    have hstep := callStep_spec hcs
    cases progress with
    | running call' =>
      simp only [taskStep, htask, hcs, Option.some.injEq] at hs
      subst hs
      have hprep : Prepared config dev.slots call' := by
        apply hstep.prepared hwait
        intro b hb
        apply choose_free hb hput
        intro hfifo
        cases call with
        | select msg => simpa [transmitsFull, htask, hfifo] using hok
        | _ => simp [choose] at hb
      exact h.grow hstep.history hprep (by simp [State.isrSlot, hcall]) rfl rfl
    | refused =>
      simp only [taskStep, htask, hcs, Option.some.injEq] at hs
      exact hs ▸ h.grow hstep.history trivial (by simp [State.isrSlot, hcall]) rfl rfl
    | accepted b msg =>
      simp only [taskStep, htask, hcs, Option.some.injEq] at hs
      subst hs
      have hnew : Waiting config dev b msg (s.dev.slots.history b).length := by
        cases hstep with
        | requested =>
          refine ⟨none, .accept hwait.2.done, ?_⟩
          simp [Dev.request]
      exact h.grow hstep.history hnew (by simp [State.isrSlot, hcall]) rfl rfl

theorem taskStep_blockInv {put : ℕ} {expired : Bool} {s t : State build} (h : BlockInv config s)
    (hok : transmitsFull config s = false) (hcall : s.call = none)
    (hput : validPut s.dev put = true) (hs : taskStep config put expired s = some t) :
    BlockInv config t := by
  have hwait := h.wait
  cases htask : s.task with
  | idle => simp [taskStep, htask] at hs
  | nowait call =>
    cases hcs : callStep config put s.dev call with
    | mk dev progress =>
      have hhistory := (callStep_spec hcs).history
      cases progress <;>
        simp only [taskStep, htask, hcs, Option.some.injEq] at hs <;>
        exact hs ▸ h.grow hhistory trivial (by simp [State.isrSlot, hcall]) rfl rfl
  | transmit call => exact transmitStep_blockInv h hok hcall hput htask hs
  | poll b msg index =>
    rw [htask] at hwait
    cases hb : s.dev.pending b <;>
      simp only [taskStep, htask, hb, Bool.false_eq_true, if_true, if_false,
        Option.some.injEq] at hs <;>
      exact hs ▸ h.move hcall hwait
  | deadline b msg index =>
    rw [htask] at hwait
    simp only [taskStep, htask, Option.some.injEq] at hs
    subst hs
    cases expired <;> exact h.move hcall hwait
  | abort b msg index =>
    rw [htask] at hwait
    simp only [taskStep, htask, Option.some.injEq] at hs
    subst hs
    have hreturn := h.truthful.addReturn
      (hwait.return_sound false fun hok => absurd hok Bool.false_ne_true)
    exact .return hcall (hreturn.addTimeout hwait.timeout_sound) _ rfl
  | outcome b msg index =>
    rw [htask] at hwait
    simp only [taskStep, htask, Option.some.injEq] at hs
    subst hs
    exact .return hcall (h.truthful.addReturn (hwait.return_sound _ id)) s.dev rfl
  | setCallback callback stage =>
    simp only [taskStep, htask, Option.some.injEq] at hs
    subst hs
    have hslots := setCallbackStep_slots s.dev callback stage
    refine h.grow (fun b => ?_) ?_ (by simp [State.isrSlot, hcall]) rfl rfl
    · simp only [hslots]
      exact List.prefix_rfl
    · cases stage <;> cases callback <;> trivial

theorem IsrStep.txbto {s dev : Dev build} {isr isr' : Isr} (h : IsrStep s isr dev isr') :
    dev.txbto = s.txbto := by
  cases h <;> rfl

/-- A call of a callback keeps off the buffer of the blocking call. -/
theorem BlockInv.isrCall {s : State build} (h : BlockInv config s)
    {put : ℕ} {call : Call build} {dev : Dev build} {progress : Progress build}
    {next : Option (Call build)} (hs : CallStep config put s.dev call dev progress)
    (hcall : s.call = some call)
    (hapart : ∀ b, choose config put s.dev call = some b → s.task.waitSlot ≠ some b)
    (hnext : ∀ call', next = some call' → progress = .running call') :
    BlockInv config { s with dev := dev, call := next } := by
  have hother (b : Slot) (hb : s.task.waitSlot = some b) : call.slot ≠ some b := by
    intro hslot
    apply h.apart b hb
    simp only [State.isrSlot, hcall, Option.bind_some, hslot]
  refine h.grow hs.history ?_ ?_ rfl rfl
  · apply h.wait.congr
    intro b hb
    obtain ⟨-, hwords, hhistory, hrequest⟩ := hs.frame (hother b hb)
    exact ⟨hwords, hhistory, hrequest, hs.txbto (hother b hb)⟩
  · intro b hb hi
    rcases (hs.caller hnext).slot_next hi with hold | hnew
    · exact hother b hb hold
    · exact hapart b hnew hb

theorem step_blockInv {s t : State build} {action : Action build} (h : BlockInv config s)
    (hok : KeepsOff config s action) (hs : step config s action = some t) : BlockInv config t := by
  cases action with
  | complete b ok =>
    simp only [step, Option.ite_none_right_eq_some, Option.some.injEq, Bool.and_eq_true] at hs
    exact hs.2 ▸ h.grow (fun c => s.dev.slots.finish_history_prefix b c ok _)
      (h.wait.complete ok hs.1.1) h.apart rfl rfl
  | setInit init =>
    simp only [step, Option.some.injEq] at hs
    exact hs ▸ h.grow (fun _ => List.prefix_rfl) (h.wait.congr fun _ _ => ⟨rfl, rfl, rfl, rfl⟩)
      h.apart rfl rfl
  | abort =>
    simp only [step, Option.some.injEq] at hs
    exact hs ▸ h.grow (fun _ => List.prefix_rfl) (h.wait.congr fun _ _ => ⟨rfl, rfl, rfl, rfl⟩)
      h.apart rfl rfl
  | nowait msg | transmit msg | setCallback callback =>
    simp only [step, Option.ite_none_right_eq_some, Option.some.injEq, Bool.and_eq_true,
      State.taskRuns, Option.isNone_iff_eq_none] at hs
    exact hs.2 ▸ h.move hs.1.1.2 trivial
  | taskStep put expired =>
    simp only [step, Option.ite_none_right_eq_some, Bool.and_eq_true, State.taskRuns,
      Option.isNone_iff_eq_none] at hs
    exact taskStep_blockInv h hok hs.1.1.2 hs.1.2 hs.2
  | irq =>
    simp only [step, Option.ite_none_right_eq_some, Option.some.injEq] at hs
    exact hs.2 ▸ h.grow (fun _ => List.prefix_rfl) h.wait h.apart rfl rfl
  | callback msg =>
    simp only [step, Option.ite_none_right_eq_some, Option.some.injEq] at hs
    exact hs.2 ▸ h.grow (fun _ => List.prefix_rfl) h.wait
      (by simp [State.isrSlot, Call.slot]) rfl rfl
  | isrStep put =>
    cases hcall : s.call with
    | none =>
      simp only [step, hcall, Option.map_eq_some_iff] at hs
      obtain ⟨⟨dev, isr⟩, hisr, rfl⟩ := hs
      have hslots := (isrStep_spec hisr).slots
      refine h.grow (fun b => ?_) ?_ (by simp [State.isrSlot]) rfl rfl
      · simp only [hslots]
        exact List.prefix_rfl
      · apply h.wait.congr
        intro b _
        simp only [hslots, (isrStep_spec hisr).txbto, and_self]
    | some call =>
      have hapart : ∀ b, choose config put s.dev call = some b → s.task.waitSlot ≠ some b := by
        intro b hb
        apply hok b
        rw [hcall, Option.bind_some, hb]
      simp only [step, hcall, Option.ite_none_right_eq_some] at hs
      obtain ⟨hput, hs⟩ := hs
      cases hcs : callStep config put s.dev call with
      | mk dev progress =>
        have hstep := callStep_spec hcs
        cases progress with
        | running call' =>
          simp only [hcs, Option.some.injEq] at hs
          subst hs
          exact h.isrCall hstep hcall hapart fun _ hc => by rw [← Option.some.inj hc]
        | _ =>
          simp only [hcs, Option.some.injEq] at hs
          subst hs
          exact h.isrCall hstep hcall hapart fun _ hc => by cases hc

theorem initial_blockInv (words : Slot → Element) :
    BlockInv config (initial words : State build) where
  wait := trivial
  apart := by simp [initial, Task.waitSlot]
  truthful := ⟨by simp [initial], by simp [initial]⟩

/-- In every run in which nobody uses the buffer of a blocking call, its result and its abort
are about its own frame. -/
theorem exec_returns_sound {words : Slot → Element} {run : List (Action build)} {s : State build}
    (hok : Along (step config) (KeepsOff config) (initial words) run)
    (hrun : exec (step config) (initial words) run = some s) :
    (∀ r ∈ s.returns, r.Sound (canonical config) s.dev.slots.history) ∧
      ∀ t ∈ s.timeouts, t.Sound s.dev.slots.history := by
  have hinv : BlockInv config s :=
    exec_invariant (fun _ _ _ h hok hs => step_blockInv h hok hs) (initial_blockInv words) hok hrun
  exact ⟨hinv.truthful.returns, hinv.truthful.timeouts⟩

end UniHal.Can.Fdcan.Transmit
